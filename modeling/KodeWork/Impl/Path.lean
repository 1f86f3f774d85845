import KodeWork.Impl.Text
import Mathlib.Data.List.Defs

/-!
# Paths

`std::path` as the program uses it, for Windows and for the other platforms. A path
is its text, and a `PathBuf` too: `push` and `pop` write and cut the text, and
`components` reads it anew each time. No file is looked at.

On Windows `/` and `\` both separate, and a path may start with a prefix, such
as the drive `C:` or the share `\\server\share`. Behind the prefix `\\?\` only
`\` separates.
-/

namespace KW

/-- `Prefix`; the three verbatim kinds, `\\?\` and what follows, are one. -/
inductive PrefixKind
  | verbatim
  | deviceNs
  | unc
  | disk
deriving DecidableEq, Repr

structure Prefix where
  kind : PrefixKind
  /-- The text, as it stands in the path. -/
  text : Text
deriving DecidableEq, Repr

inductive Component
  | pathPrefix (p : Prefix)
  | rootDir
  | curDir
  | parentDir
  | normal (name : Text)
deriving DecidableEq, Repr

namespace Path

def isSeparator (windows : Bool) (c : Char) : Bool := c == '/' || (windows && c == '\\')

def mainSeparator (windows : Bool) : Char := if windows then '\\' else '/'

/-- `C:` and what follows. -/
def isDrive : Text → Bool
  | letter :: colon :: _ => letter.isAlpha && colon == ':'
  | _ => false

def backslashes (t : Text) : Text := t.map fun c => if c == '/' then '\\' else c

/-- A component and what follows its separator. -/
def parseNextComponent (path : Text) (verbatim : Bool) : Text × Text :=
  let sep c := if verbatim then c == '\\' else isSeparator true c
  (path.takeWhile fun c => !sep c, (path.dropWhile fun c => !sep c).drop 1)

/-- The server and the share of a path behind `\\` or `\\?\UNC\`, with the
length they take together. -/
def parseShare (path : Text) (verbatim : Bool) : Text × Text × Nat :=
  let (server, rest) := parseNextComponent path verbatim
  let (share, _) := parseNextComponent rest verbatim
  (server, share, server.length + if share.isEmpty then 0 else 1 + share.length)

/-- `parse_prefix` of a path that does not start with `\\?\`: the kind of its prefix, and
the length. -/
def parsePlainPrefix (path : Text) : Option (PrefixKind × Nat) :=
  if Text.startsWith (backslashes path) ['\\', '\\', '.', '\\'] then
    some (.deviceNs, 4 + (parseNextComponent (path.drop 4) false).1.length)
  else if Text.startsWith (backslashes path) ['\\', '\\'] then
    let (server, share, length) := parseShare (path.drop 2) false
    if server.isEmpty || share.isEmpty then none else some (.unc, 2 + length)
  else if isDrive path then some (.disk, 2)
  else none

/-- `parse_prefix`; `\\?\` counts only as it is written here. -/
def parsePrefix (path : Text) : Option (PrefixKind × Nat) :=
  if Text.startsWith path ['\\', '\\', '?', '\\'] then
    let rest := path.drop 4
    if Text.startsWith (backslashes rest) ['U', 'N', 'C', '\\'] then
      some (.verbatim, 8 + (parseShare (rest.drop 4) true).2.2)
    else if isDrive rest && (rest.drop 2).head?.all (isSeparator true) then some (.verbatim, 6)
    else some (.verbatim, 4 + (parseNextComponent rest true).1.length)
  else parsePlainPrefix path

/-- What stands between two separators; `.` is a component of a verbatim path
only. -/
def segment (verbatim : Bool) (t : Text) : Option Component :=
  if t.isEmpty then none
  else if t = ['.'] then if verbatim then some .curDir else none
  else if t = ['.', '.'] then some .parentDir
  else some (.normal t)

end Path

/-- `as_os_str`. -/
def Component.text (windows : Bool) : Component → Text
  | .pathPrefix p => p.text
  | .rootDir => [Path.mainSeparator windows]
  | .curDir => ['.']
  | .parentDir => ['.', '.']
  | .normal name => name

/-! ## Components -/

/-- `Components`, before the first is taken: the path, and the kind and the length of its
prefix. -/
structure Components where
  windows : Bool
  path : Text
  pre : Option (PrefixKind × Nat)
deriving DecidableEq, Repr

/-- `components`. -/
def Path.components (windows : Bool) (path : Text) : Components :=
  ⟨windows, path, if windows then parsePrefix path else none⟩

namespace Components

open KW.Path

def prefixLen (c : Components) : Nat := (c.pre.map Prod.snd).getD 0

def verbatim (c : Components) : Bool := c.pre.any fun p => p.1 == .verbatim

/-- `is_sep_byte`. -/
def separates (c : Components) (x : Char) : Bool :=
  if c.verbatim then x == '\\' else isSeparator c.windows x

/-- What follows the prefix. -/
def behind (c : Components) : Text := c.path.drop c.prefixLen

def physicalRoot (c : Components) : Bool := c.behind.head?.any (isSeparator c.windows)

/-- Every prefix but a drive has a root without a separator. -/
def hasRoot (c : Components) : Bool := c.physicalRoot || c.pre.any fun p => p.1 != .disk

/-- A `.` in front of a path without a root. -/
def includeCurDir (c : Components) : Bool :=
  !c.hasRoot && (c.behind.takeWhile fun x => !c.separates x) == ['.']

def lenBeforeBody (c : Components) : Nat :=
  c.prefixLen + ((if c.physicalRoot then 1 else 0) + if c.includeCurDir then 1 else 0)

/-- What follows the root. -/
def rest (c : Components) : Text := if c.physicalRoot then c.behind.drop 1 else c.behind

/-- The prefix and the root; a share and a device have one without a separator. -/
def head (c : Components) : List Component :=
  (c.pre.map fun p => .pathPrefix ⟨p.1, c.path.take p.2⟩).toList ++
    if c.physicalRoot || c.pre.any (fun p => p.1 == .unc || p.1 == .deviceNs) then [.rootDir] else []

/-- A `.` in front of a path without a prefix is a component. -/
def startDir (c : Components) : List Component := if c.pre.isNone && c.includeCurDir then [.curDir] else []

/-- All of them, in their order. -/
def toList (c : Components) : List Component :=
  c.head ++ (c.startDir ++ (c.rest.splitOnP c.separates).filterMap (segment c.verbatim))

/-- `next_back`, where it is a name. -/
def endsNormal (c : Components) : Bool :=
  match c.toList.getLast? with
  | some (.normal _) => true
  | _ => false

/-- The body without what follows its last separator, and that separator. -/
def dropPiece (c : Components) (body : Text) : Text := (body.rdropWhile fun x => !c.separates x).dropLast

/-- `trim_right`: what is no component at the end of the body goes. A round makes the body
shorter, so there are at most `fuel` of them if it is not longer than that. -/
def trimRight (c : Components) : Nat → Text → Text
  | 0, body => body
  | fuel + 1, body =>
    if body.isEmpty || (segment c.verbatim (body.rtakeWhile fun x => !c.separates x)).isSome then body
    else c.trimRight fuel (c.dropPiece body)

/-- `as_path` when the body is down to `body`. -/
def asPath (c : Components) (body : Text) : Text :=
  c.path.take c.lenBeforeBody ++ c.trimRight body.length body

def body (c : Components) : Text := c.path.drop c.lenBeforeBody

/-- `as_path` behind `next_back`, for a path that ends in a name. -/
def parent (c : Components) : Text := c.asPath (c.dropPiece (c.trimRight c.body.length c.body))

end Components

/-- `Prefix: PartialEq` takes drive letters for capitals, and separators for the same. -/
def Prefix.parsed (p : Prefix) : Prefix :=
  match p.kind with
  | .disk => { p with text := p.text.map Char.toUpper }
  | .deviceNs | .unc => { p with text := Path.backslashes p.text }
  | .verbatim =>
    if p.text.length == 6 && Path.isDrive (p.text.drop 4) then { p with text := p.text.map Char.toUpper }
    else if Text.startsWith (Path.backslashes (p.text.drop 4)) ['U', 'N', 'C', '\\'] then
      { p with text := Path.backslashes (p.text.take 8) ++ p.text.drop 8 }
    else p

def Component.parsed : Component → Component
  | .pathPrefix p => .pathPrefix p.parsed
  | c => c

namespace Path

def hasRoot (windows : Bool) (path : Text) : Bool := (components windows path).hasRoot

/-- The prefix of the path, its kind and its length. -/
def prefixOf (windows : Bool) (path : Text) : Option (PrefixKind × Nat) := (components windows path).pre

def isAbsolute (windows : Bool) (path : Text) : Bool :=
  hasRoot windows path && (!windows || (prefixOf windows path).isSome)

/-- `PathBuf: PartialEq`, of two texts. -/
def same (windows : Bool) (a b : Text) : Bool :=
  (components windows a).toList.map Component.parsed == (components windows b).toList.map Component.parsed

/-- `pop`, of a path that ends in a name. -/
def pop (windows : Bool) (path : Text) : Text := (components windows path).parent

/-- `with_extension`, for an extension that is not empty: what follows the stem of the
file name goes. -/
def withExtension (windows : Bool) (path extension : Text) : Text :=
  let c := components windows path
  match c.toList.getLast? with
  | some (.normal name) =>
    let stem := (name.rdropWhile (· != '.')).dropLast
    let stem := if stem.isEmpty then name else stem
    let front := c.asPath c.body
    front.take (front.length - name.length) ++ stem ++ '.' :: extension
  | _ => path

/-- One component is put behind a verbatim path. -/
def pushVerbatim (buf : List Component) : Component → List Component
  | .rootDir => buf.take 1 ++ [.rootDir]
  | .curDir => buf
  | .parentDir =>
    match buf.getLast? with
    | some (.normal _) => buf.dropLast
    | _ => buf
  | c => buf ++ [c]

/-- The text of the components of a verbatim path. -/
def joinVerbatim (windows : Bool) : Bool → List Component → Text
  | _, [] => []
  | needSep, c :: cs =>
    let sep := if needSep && c != .rootDir then [mainSeparator windows] else []
    let needSep := match c with
      | .rootDir => false
      | .pathPrefix p => p.kind != .disk
      | _ => true
    sep ++ (c.text windows ++ joinVerbatim windows needSep cs)

/-- A separator is needed behind the path, which is none nor a drive alone. -/
def needSep (windows : Bool) (path : Text) : Bool :=
  path.getLast?.any (fun c => !isSeparator windows c) && prefixOf windows path != some (.disk, path.length)

/-- `push`. -/
def push (windows : Bool) (b path : Text) : Text :=
  let c := components windows b
  if isAbsolute windows path || (prefixOf windows path).isSome then path
  else if c.verbatim && !path.isEmpty then
    joinVerbatim windows false ((components windows path).toList.foldl pushVerbatim c.toList)
  else if hasRoot windows path then b.take c.prefixLen ++ path
  else if needSep windows b then b ++ mainSeparator windows :: path
  else b ++ path

end Path

end KW
