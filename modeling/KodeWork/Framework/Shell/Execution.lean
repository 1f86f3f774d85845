import Mathlib.Data.List.DropRight
import Mathlib.Logic.Function.Basic
import KodeWork.Framework.Shell.Grammar

/-!
# Running the core language

A shell over any machine (`Host`): what runs a script, with variables, conditionals,
pipelines, command substitutions and redirections. What a run emits is what it prints.
A command can end the shell, and so can the machine, by stopping.

`shell` goes so many levels deep into conditionals and substitutions; no text has more
levels than characters (`execute`). Where a script asks for what is not modelled here, a
field split or a pattern, a redirection of another kind or an assignment for one command,
the shell ends with status 2.
-/

namespace KW.Shell

universe u

/-- How a command has ended, and what it says. -/
structure Reply (ω : Type u) where
  world : ω
  status : Nat
  output : List Char
  errors : List Char
  /-- nothing runs behind it -/
  ended : Bool

/-- The machine a shell runs on. -/
structure Host (ω : Type u) where
  /-- a command, by its name and arguments and by what it reads -/
  call : ω → List (List Char) → List Char → Reply ω
  /-- an empty file, for what a command prints -/
  create : ω → List Char → Reply ω
  append : ω → List Char → List Char → Reply ω

abbrev Variables := List Char → Option (List Char)

/-- A shell that runs: its variables, its last status and its number, and the machine. -/
structure Session (ω : Type u) where
  vars : Variables
  last : Nat
  pid : List Char
  world : ω

variable {ω : Type u}

abbrev Printing (ω : Type u) := Outcome (Session ω) Char

abbrev Interpreter (ω : Type u) := Runner (Pipeline Command) (Session ω) Char

/-- The shell cannot go on. -/
def giveUp (s : Session ω) : Printing ω := { state := s, status := 2, ended := true, events := [] }

/-! ## Words -/

/-- What a word stands for, with the machine and the last status of the commands in it. -/
structure Expansion (ω : Type u) where
  text : List Char
  world : ω
  status : Option Nat

def Session.parameter (s : Session ω) (name : List Char) : Option (List Char) :=
  if name = ['?'] then some (Nat.toDigits 10 s.last)
  else if name = ['$'] then some s.pid
  else if isNameStart (name.headD '0') then some ((s.vars name).getD [])
  else none

def expandPiece (x : Interpreter ω) (s : Session ω) : Piece → Option (Expansion ω)
  | .char _ c => some ⟨[c], s.world, none⟩
  | .parameter _ name => (s.parameter name).map fun value => ⟨value, s.world, none⟩
  | .command _ body =>
    let o := x.run s (readScript body)
    some ⟨o.events.rdropWhile (· == '\n'), o.state.world, some o.status⟩

def expand (x : Interpreter ω) (s : Session ω) : Word → Option (Expansion ω)
  | [] => some ⟨[], s.world, none⟩
  | p :: w =>
    (expandPiece x s p).bind fun first =>
      (expand x { s with world := first.world } w).map fun rest =>
        ⟨first.text ++ rest.text, rest.world, rest.status.or first.status⟩

/-- A part of a word that is not split. -/
def Piece.isField : Piece → Bool
  | .char _ _ => true
  | .parameter quoted _ | .command quoted _ => quoted

/-- A word that is one field whatever its parts are. -/
def Word.isField (w : Word) : Bool := w.head? != some (.char false '~') && w.all Piece.isField

/-- The words of a command. -/
def fields (x : Interpreter ω) (s : Session ω) : List Word → Option (List (List Char) × ω)
  | [] => some ([], s.world)
  | w :: words =>
    if w.isField then
      (expand x s w).bind fun first =>
        (fields x { s with world := first.world } words).map fun rest => (first.text :: rest.1, rest.2)
    else none

/-! ## Redirections -/

inductive Target
  | output
  | errors
  | null
  | file (path : List Char)
deriving DecidableEq, Repr

/-- Where the output and the errors of a command go; a file that cannot be made fails it. -/
inductive Redirected (ω : Type u)
  | targets (world : ω) (out err : Target)
  | failed (reply : Reply ω)

def redirectOne (h : Host ω) (x : Interpreter ω) (s : Session ω) (out err : Target) (r : Redirect) :
    Option (Redirected ω) :=
  if r.operator = .great ∧ r.fd ∈ [none, some "1".toList, some "2".toList] ∧ r.target.isField then
    (expand x s r.target).map fun path =>
      if path.text = "/dev/null".toList then
        if r.fd = some "2".toList then .targets path.world out .null else .targets path.world .null err
      else
        let made := h.create path.world path.text
        if made.ended ∨ made.status ≠ 0 then .failed made
        else if r.fd = some "2".toList then .targets made.world out (.file path.text)
        else .targets made.world (.file path.text) err
  else if r.operator = .greatAnd ∧ r.fd = some "2".toList ∧ r.target = bareWord "1".toList then
    some (.targets s.world out out)
  else none

def redirectAll (h : Host ω) (x : Interpreter ω) (s : Session ω) (out err : Target) :
    List Redirect → Option (Redirected ω)
  | [] => some (.targets s.world out err)
  | r :: rest =>
    match redirectOne h x s out err r with
    | some (.targets world out' err') => redirectAll h x { s with world := world } out' err' rest
    | other => other

/-- What a command says goes where it is sent. -/
def send (h : Host ω) (s : Session ω) (status : Nat) (text : List Char) : Target → Printing ω
  | .output => { state := s, status := status, ended := false, events := text }
  | .errors | .null => { state := s, status := status, ended := false, events := [] }
  | .file path =>
    let r := h.append s.world path text
    { state := { s with world := r.world }, status := if r.status ≠ 0 then r.status else status, ended := r.ended
      events := [] }

/-! ## Commands -/

/-- Assignments, each with the variables the ones before it leave. -/
def assign (x : Interpreter ω) : Session ω → Nat → List (List Char × Word) → Option (Session ω × Nat)
  | s, status, [] => some (s, status)
  | s, status, (name, w) :: rest =>
    (expand x s w).bind fun value =>
      assign x { s with vars := Function.update s.vars name (some value.text), world := value.world }
        (value.status.getD status) rest

/-- `exit` with a number; of this the last eight bits count. -/
def exitStatus (last : Nat) : List (List Char) → Option Nat
  | [] => some last
  | [digits] => if digits ≠ [] ∧ digits.all Char.isDigit then some (Nat.ofDigitChars 10 digits 0 % 256) else none
  | _ => none

/-- A command behind its redirections. -/
def callOutcome (h : Host ω) (s : Session ω) (input : List Char) (args : List (List Char)) (out err : Target) :
    Printing ω :=
  let r := h.call s.world args input
  if r.ended then { state := { s with world := r.world }, status := r.status, ended := true, events := [] }
  else
    let o := send h { s with world := r.world } r.status r.output out
    if o.ended then o else (send h o.state o.status r.errors err).behind o.events

/-- A command behind its words. -/
def redirectedOutcome (h : Host ω) (s : Session ω) (input : List Char) (args : List (List Char)) :
    Option (Redirected ω) → Printing ω
  | some (.targets world out err) => callOutcome h { s with world := world } input args out err
  | some (.failed r) => { state := { s with world := r.world }, status := r.status, ended := r.ended, events := [] }
  | none => giveUp s

def simpleOutcome (h : Host ω) (x : Interpreter ω) (s : Session ω) (input : List Char) (c : Simple) : Printing ω :=
  if c.words = [] then
    if c.redirects = [] then
      match assign x s 0 c.assignments with
      | some (s', status) => { state := s', status := status, ended := false, events := [] }
      | none => giveUp s
    else giveUp s
  else if c.assignments = [] then
    match fields x s c.words with
    | some (name :: args, world) =>
      let s' := { s with world := world }
      if name = "exit".toList then
        match exitStatus s.last args with
        | some status => { state := s', status := status, ended := true, events := [] }
        | none => giveUp s'
      else redirectedOutcome h s' input (name :: args) (redirectAll h x s' .output .errors c.redirects)
    | _ => giveUp s
  else giveUp s

/-- The branches of a conditional, behind the conditions that have failed. -/
def branchesOutcome (x : Interpreter ω) (otherwise : Script) : Printing ω → List (Script × Script) → Printing ω
  | o, [] => if otherwise = [] then { o with status := 0 } else (x.run o.state otherwise).behind o.events
  | o, (condition, body) :: rest =>
    let c := (x.run o.state condition).behind o.events
    if c.ended then c
    else if c.status = 0 then (x.run c.state body).behind c.events
    else branchesOutcome x otherwise c rest

def commandOutcome (h : Host ω) (x : Interpreter ω) (s : Session ω) : Command → Printing ω
  | .simple c => simpleOutcome h x s [] c
  | .conditional branches otherwise =>
    branchesOutcome x otherwise { state := s, status := 0, ended := false, events := [] } branches

/-- The commands of a pipeline, each in a shell of its own. They are run one after the other. -/
def pipeOutcome (h : Host ω) (x : Interpreter ω) (s : Session ω) : List Char → List Command → Printing ω
  | input, .simple c :: rest =>
    let o := simpleOutcome h x s input c
    let s' := { s with world := o.state.world }
    if rest.isEmpty then { o with state := s', ended := false } else pipeOutcome h x s' o.events rest
  | _, _ => giveUp s

/-- The end of a pipeline, which the shell keeps the status of. -/
def finish (negated : Bool) (o : Printing ω) : Printing ω :=
  let status := if negated then if o.status = 0 then 1 else 0 else o.status
  if o.ended then o else { o with state := { o.state with last := status }, status := status }

def pipelineOutcome (h : Host ω) (x : Interpreter ω) (s : Session ω) (p : Pipeline Command) : Printing ω :=
  finish p.negated
    (match p.commands with
    | [c] => commandOutcome h x s c
    | commands => pipeOutcome h x s [] commands)

/-- A shell that goes so many levels deep. -/
def shell (h : Host ω) : Nat → Interpreter ω
  | 0 => { pipeline := fun s _ => giveUp s, launched := id }
  | depth + 1 => { pipeline := pipelineOutcome h (shell h depth), launched := id }

/-- The run of a text. -/
def execute (h : Host ω) (s : Session ω) (t : List Char) : Printing ω := (shell h t.length).run s (readScript t)

end KW.Shell
