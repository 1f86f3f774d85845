import KodeWork.Framework.Shell.Rules

/-!
# A machine for the shell

The standard commands, as far as the scripts that are run here ask for them, over the
files of a machine (`Remote`) and the sessions of a terminal multiplexer. Commands that
change something can fail or be the last thing the machine does, as `fates` has it: so
what holds after a script, whatever the fates are, holds wherever it is cut off. A file is
moved at once; what is added to a file can be cut short.

A directory is only what `mkdir` can fail to make. What another shell does with a command
(`sh -lc`) is a parameter.
-/

namespace KW.Shell

/-- What becomes of a change. -/
inductive Fate
  | works
  /-- it fails, after so many characters -/
  | fails (part : Nat)
  /-- the machine stops, after so many characters -/
  | dies (part : Nat)
deriving DecidableEq, Repr

/-- A machine. `troubled` and `ran` are read by no command: whether a change has gone
wrong, and the commands that were given to a shell of their own, with their status. -/
structure Remote where
  files : List Char → Option (List Char)
  /-- the place of a file among those that go with a directory -/
  order : List Char → Nat
  /-- what `tmux` makes of a target, the name behind `-t`: the panes of the window of a
  session, and whether each is dead -/
  sessions : List Char → Option (List Bool)
  /-- what the clock will say -/
  dates : List Nat
  fates : List Fate
  running : Bool
  troubled : Bool
  ran : List (List Char × Nat)

namespace Remote

def reply (r : Remote) (status : Nat) (output : List Char) : Reply Remote := ⟨r, status, output, [], false⟩

/-- A command that could not do it. -/
def refuse (r : Remote) (errors : String) : Reply Remote := ⟨r, 1, [], errors.toList, false⟩

/-- The machine stands still. -/
def stopped (r : Remote) : Reply Remote := ⟨r, 137, [], [], true⟩

def setFile (r : Remote) (path : List Char) (content : Option (List Char)) : Remote :=
  { r with files := Function.update r.files path content }

/-- A change, with what is done of it if it is cut short. -/
def attempt (r : Remote) (done : Remote → Reply Remote) (partly : Nat → Remote → Remote) : Reply Remote :=
  match r.fates with
  | [] => done r
  | .works :: rest => done { r with fates := rest }
  | .fails part :: rest => refuse { partly part { r with fates := rest } with troubled := true } "failed"
  | .dies part :: rest => stopped { partly part { r with fates := rest } with troubled := true, running := false }

/-! ## Commands -/

/-- The format once: what it makes, and the arguments it does not take. -/
def formatOnce : List Char → List (List Char) → List Char × List (List Char)
  | [], args => ([], args)
  | '\\' :: 'n' :: format, args => let (t, rest) := formatOnce format args; ('\n' :: t, rest)
  | '\\' :: 't' :: format, args => let (t, rest) := formatOnce format args; ('\t' :: t, rest)
  | '%' :: 's' :: format, args =>
    let (t, rest) := formatOnce format args.tail
    (args.headD [] ++ t, rest)
  | c :: format, args => let (t, rest) := formatOnce format args; (c :: t, rest)

/-- The format as often as there are arguments for it. -/
def formatAll : Nat → List Char → List (List Char) → List Char
  | 0, _, _ => []
  | n + 1, format, args =>
    let (t, rest) := formatOnce format args
    if rest.isEmpty || rest.length == args.length then t else t ++ formatAll n format rest

def printf (r : Remote) : List (List Char) → Reply Remote
  | [] => r.refuse "printf"
  | format :: args => r.reply 0 (formatAll (args.length + 1) format args)

/-- The command `[`. -/
def test (r : Remote) : List (List Char) → Reply Remote
  | [operator, path, close] =>
    if operator = "-f".toList ∧ close = "]".toList then r.reply (if (r.files path).isSome then 0 else 1) []
    else r.reply 2 []
  | [left, operator, right, close] =>
    if operator = "=".toList ∧ close = "]".toList then r.reply (if left = right then 0 else 1) []
    else r.reply 2 []
  | _ => r.reply 2 []

def operands : List (List Char) → List (List Char)
  | [] => []
  | first :: rest => if first = "--".toList then rest else first :: rest

def cat (r : Remote) (args : List (List Char)) : Reply Remote :=
  let paths := operands args
  ⟨r, if paths.all fun path => (r.files path).isSome then 0 else 1, paths.flatMap fun path => (r.files path).getD [],
    paths.flatMap fun path => if (r.files path).isSome then [] else "cat".toList, false⟩

/-- The first line, with its end. -/
def firstLine : List Char → List Char
  | [] => []
  | c :: t => if c = '\n' then ['\n'] else c :: firstLine t

def head (r : Remote) (input : List Char) (args : List (List Char)) : Reply Remote :=
  if args = ["-n".toList, "1".toList] then r.reply 0 (firstLine input) else r.refuse "head"

def tmux (r : Remote) : List (List Char) → Reply Remote
  | [command, option, name] =>
    if command = "has-session".toList ∧ option = "-t".toList then
      if (r.sessions name).isSome then r.reply 0 [] else r.refuse "can't find session"
    else r.refuse "tmux"
  | [command, option, name, option', format] =>
    if command = "list-panes".toList ∧ option = "-t".toList ∧ option' = "-F".toList ∧
        format = "#\x7bpane_dead\x7d".toList then
      match r.sessions name with
      | some panes => r.reply 0 (panes.flatMap fun dead => if dead then ['1', '\n'] else ['0', '\n'])
      | none => r.refuse "can't find session"
    else r.refuse "tmux"
  | _ => r.refuse "tmux"

def date (r : Remote) (args : List (List Char)) : Reply Remote :=
  if args = ["+%s".toList] then
    r.attempt (fun r => { r with dates := r.dates.tail }.reply 0 (Nat.toDigits 10 (r.dates.headD 0) ++ ['\n']))
      fun _ r => r
  else r.refuse "date"

def move (r : Remote) (source path : List Char) : Reply Remote :=
  match r.files source with
  | some content => ((r.setFile source none).setFile path (some content)).reply 0 []
  | none => r.refuse "mv"

def mv (r : Remote) : List (List Char) → Reply Remote
  | [option, mark, source, path] =>
    if option = "-f".toList ∧ mark = "--".toList then
      r.attempt (fun r => r.move source path) fun _ r => r
    else r.refuse "mv"
  | _ => r.refuse "mv"

/-- The path is that of the directory, or of something in it. -/
def inTree (directory path : List Char) : Bool := path == directory || (directory ++ ['/']).isPrefixOf path

/-- Without what is in the directories and is to go. -/
def removeTrees (r : Remote) (directories : List (List Char)) (goes : List Char → Bool) : Remote :=
  { r with files := fun p => if directories.any (fun directory => inTree directory p) && goes p then none else r.files p }

def rm (r : Remote) : List (List Char) → Reply Remote
  | option :: mark :: paths =>
    if option = "-f".toList ∧ mark = "--".toList then
      r.attempt (fun r => (paths.foldl (fun r path => r.setFile path none) r).reply 0 []) fun _ r => r
    else if option = "-rf".toList ∧ mark = "--".toList then
      r.attempt (fun r => (r.removeTrees paths fun _ => true).reply 0 []) fun part r =>
        r.removeTrees paths fun p => r.order p < part
    else r.refuse "rm"
  | _ => r.refuse "rm"

/-- A shell of its own is given the command. -/
def sh (work : List Char → Remote → Reply Remote) (r : Remote) : List (List Char) → Reply Remote
  | [option, command] =>
    if option = "-lc".toList then
      let done := work command r
      ⟨{ done.world with troubled := r.troubled, ran := r.ran ++ [(command, done.status)] }, done.status, done.output,
        done.errors, !done.world.running⟩
    else r.refuse "sh"
  | _ => r.refuse "sh"

/-- The commands that are there. -/
inductive Name
  | silent
  | umask
  | test
  | printf
  | cat
  | head
  | date
  | mkdir
  | mv
  | rm
  | sh
  | tmux
deriving DecidableEq, Repr

def Name.of (name : List Char) : Option Name :=
  if name = "true".toList then some .silent
  else if name = "set".toList then some .silent
  else if name = "umask".toList then some .umask
  else if name = "[".toList then some .test
  else if name = "printf".toList then some .printf
  else if name = "cat".toList then some .cat
  else if name = "head".toList then some .head
  else if name = "date".toList then some .date
  else if name = "mkdir".toList then some .mkdir
  else if name = "mv".toList then some .mv
  else if name = "rm".toList then some .rm
  else if name = "sh".toList then some .sh
  else if name = "tmux".toList then some .tmux
  else none

def perform (work : List Char → Remote → Reply Remote) (r : Remote) (args : List (List Char)) (input : List Char) :
    Name → Reply Remote
  | .silent => r.reply 0 []
  | .umask | .mkdir => r.attempt (fun r => r.reply 0 []) fun _ r => r
  | .test => r.test args
  | .printf => r.printf args
  | .cat => r.cat args
  | .head => r.head input args
  | .date => r.date args
  | .mv => r.mv args
  | .rm => r.rm args
  | .sh => r.sh work args
  | .tmux => r.tmux args

def call (work : List Char → Remote → Reply Remote) (r : Remote) (args : List (List Char)) (input : List Char) :
    Reply Remote :=
  if r.running then
    match args with
    | [] => r.reply 127 []
    | name :: args =>
      match Name.of name with
      | some name => r.perform work args input name
      | none => r.reply 127 []
  else r.stopped

def create (r : Remote) (path : List Char) : Reply Remote :=
  if r.running then r.attempt (fun r => (r.setFile path (some [])).reply 0 []) fun _ r => r else r.stopped

def appended (r : Remote) (path text : List Char) : Remote :=
  r.setFile path (some ((r.files path).getD [] ++ text))

def append (r : Remote) (path text : List Char) : Reply Remote :=
  if r.running then
    r.attempt (fun r => (r.appended path text).reply 0 []) fun part r => r.appended path (text.take part)
  else r.stopped

def host (work : List Char → Remote → Reply Remote) : Host Remote := ⟨call work, create, append⟩

/-! ## Calls -/

variable {work : List Char → Remote → Reply Remote} {r : Remote}

theorem call_eq (hrunning : r.running = true) {name : List Char} {n : Name} (hname : Name.of name = some n)
    (args : List (List Char)) (input : List Char) :
    (host work).call r (name :: args) input = r.perform work args input n := by
  show call work r (name :: args) input = _
  rw [call, if_pos hrunning]
  simp only [hname]

/-- The second machine has the files of the first but for these paths, and nothing more has
been run on it. -/
structure Apart (paths : List (List Char)) (r r' : Remote) : Prop where
  files : ∀ p ∉ paths, r'.files p = r.files p
  sessions : r'.sessions = r.sessions
  ran : r'.ran = r.ran

theorem Apart.refl (paths : List (List Char)) (r : Remote) : Apart paths r r := ⟨fun _ _ => rfl, rfl, rfl⟩

theorem Apart.trans {paths : List (List Char)} {r r' r'' : Remote} (h : Apart paths r r') (h' : Apart paths r' r'') :
    Apart paths r r'' :=
  ⟨fun p hp => (h'.files p hp).trans (h.files p hp), h'.sessions.trans h.sessions, h'.ran.trans h.ran⟩

theorem Apart.mono {paths paths' : List (List Char)} {r r' : Remote} (h : Apart paths r r')
    (hsub : paths ⊆ paths') : Apart paths' r r' :=
  ⟨fun p hp => h.files p fun hmem => hp (hsub hmem), h.sessions, h.ran⟩

theorem apart_setFile (r : Remote) (path : List Char) (content : Option (List Char)) :
    Apart [path] r (r.setFile path content) :=
  ⟨fun _ hp => Function.update_of_ne (List.ne_of_not_mem_cons hp) _ _, rfl, rfl⟩

/-- What comes of a change: it works, or it goes wrong and has touched these paths only. -/
structure Tried (r : Remote) (paths : List (List Char)) (worked : Remote → List Char → Prop) (a : Reply Remote) :
    Prop where
  stopped : a.ended = true → Apart paths r a.world ∧ a.world.troubled = true
  failed : a.ended = false → a.status ≠ 0 →
    Apart paths r a.world ∧ a.world.troubled = true ∧ a.world.running = true
  worked : a.ended = false → a.status = 0 →
    worked a.world a.output ∧ a.world.running = true ∧ a.world.troubled = r.troubled

variable {paths : List (List Char)} {worked : Remote → List Char → Prop}

theorem tried_attempt {done : Remote → Reply Remote} {partly : Nat → Remote → Remote}
    (hrunning : r.running = true)
    (hdone : ∀ fates, Tried r paths worked (done { r with fates := fates }))
    (hpartly : ∀ part fates, Apart paths r (partly part { r with fates := fates }) ∧
      (partly part { r with fates := fates }).running = r.running) :
    Tried r paths worked (r.attempt done partly) := by
  rw [attempt]
  split
  · case h_1 hfates =>
    have hsame : { r with fates := [] } = r := by rw [← hfates]
    have hnone := hdone []
    rwa [hsame] at hnone
  · exact hdone _
  · case h_3 part fates _ =>
    obtain ⟨hapart, hruns⟩ := hpartly part fates
    refine ⟨nofun, fun _ _ => ⟨⟨hapart.files, hapart.sessions, hapart.ran⟩, rfl, hruns.trans hrunning⟩, ?_⟩
    intro _ hzero
    cases hzero
  · case h_4 part fates _ =>
    obtain ⟨hapart, -⟩ := hpartly part fates
    exact ⟨fun _ => ⟨⟨hapart.files, hapart.sessions, hapart.ran⟩, rfl⟩, nofun, nofun⟩

theorem tried_reply {r' : Remote} {output : List Char} (hworked : worked r' output) (hrunning : r'.running = true)
    (htroubled : r'.troubled = r.troubled) : Tried r paths worked (r'.reply 0 output) :=
  ⟨nofun, fun _ hne => absurd rfl hne, fun _ _ => ⟨hworked, hrunning, htroubled⟩⟩

theorem tried_create (work : List Char → Remote → Reply Remote) (hrunning : r.running = true) (path : List Char) :
    Tried r [path] (fun r' _ => Apart [path] r r' ∧ r'.files path = some []) ((host work).create r path) := by
  show Tried r _ _ (create r path)
  rw [create, if_pos hrunning]
  refine tried_attempt hrunning (fun fates => ?_) fun part fates => ⟨⟨fun _ _ => rfl, rfl, rfl⟩, rfl⟩
  have hapart := apart_setFile r path (some [])
  exact tried_reply ⟨⟨hapart.files, rfl, rfl⟩, Function.update_self ..⟩ hrunning rfl

theorem tried_append (work : List Char → Remote → Reply Remote) (hrunning : r.running = true) (path text : List Char) :
    Tried r [path] (fun r' _ => Apart [path] r r' ∧ r'.files path = some ((r.files path).getD [] ++ text))
      ((host work).append r path text) := by
  show Tried r _ _ (append r path text)
  rw [append, if_pos hrunning]
  have hapart (t : List Char) := apart_setFile r path (some ((r.files path).getD [] ++ t))
  refine tried_attempt hrunning (fun fates => ?_) fun part fates => ⟨⟨(hapart (text.take part)).files, rfl, rfl⟩, rfl⟩
  exact tried_reply ⟨⟨(hapart text).files, rfl, rfl⟩, Function.update_self ..⟩ hrunning rfl

/-- A command that changes nothing of itself. -/
theorem tried_quiet (work : List Char → Remote → Reply Remote) (hrunning : r.running = true) {name : List Char}
    (hname : Name.of name = some .umask ∨ Name.of name = some .mkdir) (args : List (List Char)) :
    Tried r [] (fun r' _ => Apart [] r r') ((host work).call r (name :: args) []) := by
  have hquiet : (host work).call r (name :: args) [] = r.attempt (fun r => r.reply 0 []) fun _ r => r := by
    rcases hname with hname | hname <;> exact call_eq hrunning hname args []
  rw [hquiet]
  exact tried_attempt hrunning (fun fates => tried_reply ⟨fun _ _ => rfl, rfl, rfl⟩ hrunning rfl)
    fun part fates => ⟨⟨fun _ _ => rfl, rfl, rfl⟩, rfl⟩

/-- A number on a line of its own. -/
def decimalLine (n : Nat) : List Char := Nat.toDigits 10 n ++ ['\n']

theorem tried_date (work : List Char → Remote → Reply Remote) (hrunning : r.running = true) :
    Tried r [] (fun r' output => Apart [] r r' ∧ ∃ n, output = decimalLine n)
      ((host work).call r ["date".toList, "+%s".toList] []) := by
  rw [call_eq hrunning (rfl : Name.of "date".toList = some .date)]
  show Tried r _ _ (r.date _)
  rw [date, if_pos rfl]
  exact tried_attempt hrunning
    (fun fates => tried_reply ⟨⟨fun _ _ => rfl, rfl, rfl⟩, r.dates.headD 0, rfl⟩ hrunning rfl)
    fun part fates => ⟨⟨fun _ _ => rfl, rfl, rfl⟩, rfl⟩

/-- A file that is there is moved at once, or stays. -/
theorem tried_mv (work : List Char → Remote → Reply Remote) (hrunning : r.running = true) {source content : List Char}
    (hsource : r.files source = some content) (path : List Char) :
    Tried r [] (fun r' _ => Apart [source, path] r r' ∧ r'.files path = some content)
      ((host work).call r ["mv".toList, "-f".toList, "--".toList, source, path] []) := by
  rw [call_eq hrunning (rfl : Name.of "mv".toList = some .mv)]
  show Tried r _ _ (r.mv ["-f".toList, "--".toList, source, path])
  rw [mv, if_pos ⟨rfl, rfl⟩]
  refine tried_attempt hrunning (fun fates => ?_) fun part fates => ⟨⟨fun _ _ => rfl, rfl, rfl⟩, rfl⟩
  have hmove : move { r with fates := fates } source path =
      ((({ r with fates := fates } : Remote).setFile source none).setFile path (some content)).reply 0 [] := by
    rw [move, hsource]
  rw [hmove]
  refine tried_reply ⟨⟨fun p hp => ?_, rfl, rfl⟩, Function.update_self ..⟩ hrunning rfl
  obtain ⟨hp₁, hp₂⟩ := not_or.mp (List.mem_cons.not.mp hp)
  exact (Function.update_of_ne (List.ne_of_not_mem_cons hp₂) _ _).trans (Function.update_of_ne hp₁ _ _)

theorem files_foldl_setFile (paths : List (List Char)) {p : List Char} (hp : p ∉ paths) (r : Remote) :
    (paths.foldl (fun r path => r.setFile path none) r).files p = r.files p := by
  induction paths generalizing r with
  | nil => rfl
  | cons path paths ih =>
    obtain ⟨hne, hp⟩ := not_or.mp (List.mem_cons.not.mp hp)
    rw [List.foldl_cons, ih hp]
    exact Function.update_of_ne hne _ _

theorem foldl_setFile_eq (paths : List (List Char)) (r : Remote) :
    paths.foldl (fun r path => r.setFile path none) r =
      { r with files := (paths.foldl (fun r path => r.setFile path none) r).files } := by
  induction paths generalizing r with
  | nil => rfl
  | cons path paths ih =>
    rw [List.foldl_cons, ih]
    rfl

theorem tried_rm (work : List Char → Remote → Reply Remote) (hrunning : r.running = true) (paths : List (List Char)) :
    Tried r paths (fun r' _ => Apart paths r r')
      ((host work).call r ("rm".toList :: "-f".toList :: "--".toList :: paths) []) := by
  rw [call_eq hrunning (rfl : Name.of "rm".toList = some .rm)]
  show Tried r _ _ (r.rm ("-f".toList :: "--".toList :: paths))
  rw [rm, if_pos ⟨rfl, rfl⟩]
  refine tried_attempt hrunning (fun fates => ?_) fun part fates => ⟨⟨fun _ _ => rfl, rfl, rfl⟩, rfl⟩
  rw [foldl_setFile_eq]
  exact tried_reply ⟨fun p hp => files_foldl_setFile paths hp _, rfl, rfl⟩ hrunning rfl

end Remote

end KW.Shell
