import KodeWork.Impl.Path
import KodeWork.Impl.Transfer.Io

/-!
# The keys of the leases

`lease_key` of `kodework-sftp/src/manager.rs` with `normalize_remote_path` and
`normalize_local_path`. The working directory is a parameter: `none` where
`current_dir` fails.
-/

namespace KW.Transfer

/-! ## Remote paths -/

/-- `replace("//", "/")`. -/
def replaceSlashes : Text → Text
  | '/' :: '/' :: t => '/' :: replaceSlashes t
  | c :: t => c :: replaceSlashes t
  | [] => []

/-- `while normalized.contains("//")`; a round makes the text shorter, so there
are at most `fuel` of them if it is not longer than that. -/
def collapseSlashes (fuel : Nat) (t : Text) : Text :=
  match fuel with
  | 0 => t
  | fuel + 1 => if Text.contains t ['/', '/'] then collapseSlashes fuel (replaceSlashes t) else t

/-- The condition of the second loop: a text that ends in a slash has more bytes than one if
and only if it has more characters. -/
def endsInSlash (t : Text) : Bool := 1 < t.length && t.getLast? == some '/'

/-- The second loop, on the reversed text. -/
def dropSlashes : Text → Text
  | '/' :: c :: t => dropSlashes (c :: t)
  | t => t

def normalizeRemotePath (path : Text) : Text :=
  (dropSlashes (collapseSlashes path.length path).reverse).reverse

/-! ## Local paths -/

def absolutePath (windows : Bool) (cwd : Option Text) (path : Text) : Text :=
  if Path.isAbsolute windows path then path
  else match cwd with
    | some cwd => Path.push windows cwd path
    | none => path

/-- One round of the loop of `normalize_local_path`. -/
def normalizeComponent (windows : Bool) (normalized : Text) : Component → Text
  | .curDir => normalized
  | .parentDir =>
    if (Path.components windows normalized).endsNormal then Path.pop windows normalized else normalized
  | c => Path.push windows normalized (c.text windows)

/-- `normalized` after the loop. -/
def lexicalPath (windows : Bool) (cwd : Option Text) (path : Text) : Text :=
  (Path.components windows (absolutePath windows cwd path)).toList.foldl (normalizeComponent windows) []

def forwardSlash (c : Char) : Char := if c == '\\' then '/' else c

def normalizeLocalPath (windows : Bool) (cwd : Option Text) (path : Text) : Text :=
  let normalized := (lexicalPath windows cwd path).map forwardSlash
  if windows then normalized.map Char.toLower else normalized

/-! ## Keys -/

def leaseKey (p : Platform) (cwd : Option Text) (scope : Text) (request : TransferRequest) :
    Prog SftpError World Text :=
  match request.direction with
  | .upload => do
    let identity ← resolvePath p request.remotePath
    pure ("remote:".toList ++ (scope ++ ':' :: normalizeRemotePath identity))
  | .download => pure ("local:".toList ++ normalizeLocalPath p.windows cwd request.localPath)

end KW.Transfer
