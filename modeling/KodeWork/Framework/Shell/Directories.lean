import KodeWork.Framework.Pieces
import KodeWork.Framework.Shell.Grammar

/-!
# The working directory of a shell

Directories of a tree, by the names that lead to them, and how a path leads from one to
another (`Directory.follow`). A path below another is followed behind it
(`follow_below`); names other than `.` and `..` go down (`enterAll_of_names`).

`cd` follows its operand, unless that is a minus sign, which stands for the directory the
shell was in before, or empty: of an empty operand the shells make different things, so
what they do is a parameter. Every directory is there, and `CDPATH` is not set.
-/

namespace KW.Shell

open Pieces

/-- A directory, by the names on the way from the root. -/
abbrev Directory := List (List Char)

namespace Directory

/-- One component of a path. -/
def enter (d : Directory) (component : List Char) : Directory :=
  if component = ['.'] then d else if component = ['.', '.'] then d.dropLast else d ++ [component]

def isSlash (c : Char) : Bool := c == '/'

def components (path : List Char) : List (List Char) := pieces isSlash path

/-- Where a path leads from a directory. -/
def follow (d : Directory) (path : List Char) : Directory :=
  (components path).foldl enter (if path.head? = some '/' then [] else d)

theorem enterAll_of_names {names : List (List Char)} (h : ∀ n ∈ names, n ≠ ['.'] ∧ n ≠ ['.', '.'])
    (d : Directory) : names.foldl enter d = d ++ names := by
  induction names generalizing d with
  | nil => exact (List.append_nil d).symm
  | cons n names ih =>
    obtain ⟨hn, hnames⟩ := List.forall_mem_cons.mp h
    rw [List.foldl_cons, ih hnames, enter, if_neg hn.1, if_neg hn.2, List.append_assoc]
    rfl

/-- An absolute path leads to one place. -/
theorem follow_absolute {path : List Char} (h : path.head? = some '/') (d : Directory) :
    d.follow path = follow [] path := by
  rw [follow, follow, if_pos h, if_pos h]

/-- A path behind another one and a slash. -/
theorem follow_below (path rest : List Char) :
    follow [] (path.rdropWhile isSlash ++ '/' :: rest) = (components rest).foldl enter (follow [] path) := by
  have hcomponents : components (path.rdropWhile isSlash ++ '/' :: rest) = components path ++ components rest := by
    rw [components, pieces_append_cons _ _ rfl]
    exact congrArg (· ++ components rest) (pieces_rdropWhile path)
  rw [follow, follow, ite_self, ite_self, hcomponents, List.foldl_append]

end Directory

/-! ## Expansion -/

/-- A character that can stand for the names of files, or for a home, outside quotes. -/
def isPattern (c : Char) : Bool := ['*', '?', '[', '~'].contains c

/-- What a word expands to, if it is one field whatever its parameters are. -/
def Word.expand (parameters : List Char → List Char) : Word → Option (List Char)
  | [] => some []
  | .char quoted c :: w => if !quoted && isPattern c then none else (expand parameters w).map (c :: ·)
  | .parameter true name :: w => (expand parameters w).map (parameters name ++ ·)
  | _ => none

theorem expand_quotedWord (parameters : List Char → List Char) (t : List Char) :
    Word.expand parameters (quotedWord t) = some t := by
  induction t with
  | nil => rfl
  | cons c t ih =>
    show (Word.expand parameters (quotedWord t)).map (c :: ·) = _
    rw [ih]
    rfl

/-! ## Changing the directory -/

structure Working where
  directory : Directory
  /-- `OLDPWD` -/
  previous : Option Directory
deriving DecidableEq, Repr

/-- `cd`, of its operand. -/
def Working.cd (emptyStays : Bool) (s : Working) (operand : List Char) : Option Working :=
  if operand = [] then if emptyStays then some s else none
  else if operand = ['-'] then s.previous.map fun d => ⟨d, some s.directory⟩
  else some ⟨s.directory.follow operand, some s.directory⟩

/-- The operand of a command that is `cd --` and one word. -/
def cdOperand (parameters : List Char → List Char) : Pipeline Command → Option (List Char)
  | ⟨false, [.simple ⟨[], [cd, dashes, operand], []⟩]⟩ =>
    if cd = bareWord "cd".toList ∧ dashes = bareWord "--".toList then operand.expand parameters else none
  | _ => none

/-- How `cd` ends: where it cannot go on, the shell stays. -/
def Working.cdOutcome (emptyStays : Bool) (s : Working) (operand : List Char) : Outcome Working Unit :=
  match s.cd emptyStays operand with
  | some s' => { state := s', status := 0, ended := false, events := [] }
  | none => { state := s, status := 1, ended := false, events := [] }

/-- A shell that changes its directory; nothing else is found. -/
def cdRunner (parameters : List Char → List Char) (emptyStays : Bool) :
    Runner (Pipeline Command) Working Unit where
  pipeline s p :=
    match cdOperand parameters p with
    | some operand => s.cdOutcome emptyStays operand
    | none => { state := s, status := 127, ended := false, events := [] }
  launched := id

theorem pipeline_cd {parameters : List Char → List Char} {emptyStays : Bool} {p : Pipeline Command}
    {operand : List Char} (h : cdOperand parameters p = some operand) (s : Working) :
    (cdRunner parameters emptyStays).pipeline s p = s.cdOutcome emptyStays operand := by
  simp only [cdRunner, h]

end KW.Shell
