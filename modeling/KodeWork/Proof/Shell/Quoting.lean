import KodeWork.Framework.Shell.Grammar
import KodeWork.Impl.Actions.Action

/-!
# Quoting for the remote shell

`shell_quote` leaves the quotes and enters them again for each quote in its value.
`scan_shellQuote` is the induction over the value: what the shell reads is one word, all
of it quoted, with the characters of the value. The run script and the line for `tmux`
are then read with the quoted text as one word in it, whatever the text is
(`reads_runScript`, `reads_tmuxLine`).
-/

namespace KW.Actions

open KW.Shell

/-- What a value may not have. -/
def isRefused (c : Char) : Bool := c == '\x00' || c == '\n' || c == '\r'

/-! ## One word -/

theorem shellQuote_ok_iff (v : Text) : (∃ q, shellQuote v = .ok q) ↔ ∀ c ∈ v, isRefused c = false := by
  rw [shellQuote]
  split
  · case isTrue h =>
    obtain ⟨c, hc, hrefused⟩ := List.any_eq_true.mp h
    constructor
    · rintro ⟨q, ⟨⟩⟩
    · intro hnone
      have hno : isRefused c = false := hnone c hc
      rw [isRefused, hrefused] at hno
      cases hno
  · case isFalse h =>
    refine ⟨fun _ c hc => ?_, fun _ => ⟨_, rfl⟩⟩
    rw [← Bool.not_eq_true]
    exact fun hrefused => h (List.any_eq_true.mpr ⟨c, hc, hrefused⟩)

/-- Between the quotes, the escape of each character stands for the character. -/
theorem scan_escaped (w : Word) (v : Text) :
    scan (.single w) (v.flatMap fun c => if c = '\'' then "'\\''".toList else [c]) =
      (.single (w ++ quotedWord v), []) := by
  induction v generalizing w with
  | nil => rw [quotedWord, List.map_nil, List.append_nil]; rfl
  | cons c v ih =>
    have hchar : scan (.single w) (if c = '\'' then "'\\''".toList else [c]) =
        (.single (w ++ [.char true c]), []) := by
      split
      · case isTrue h => rw [h]; rfl
      · case isFalse h =>
        have hstep : Shell.step (.single w) c = (.single (w ++ [.char true c]), []) := if_neg h
        rw [scan_cons, hstep]
        rfl
    rw [List.flatMap_cons, scan_trans hchar (ih _), List.append_assoc]
    rfl

/-- A quoted value goes to the word it stands in. -/
theorem scan_shellQuote_behind {v q : Text} (h : shellQuote v = .ok q) (w : Word) :
    scan (.bare w) q = (.bare (w ++ quotedWord v), []) := by
  rw [shellQuote] at h
  split at h
  · cases h
  · cases h
    have hopen : scan (.bare w) ['\''] = (.single w, []) := rfl
    have hclose : scan (.single (w ++ quotedWord v)) ['\''] = (.bare (w ++ quotedWord v), []) := rfl
    exact scan_trans (scan_trans hopen (scan_escaped w v)) hclose

theorem scan_shellQuote {v q : Text} (h : shellQuote v = .ok q) :
    scan .gap q = (.bare (quotedWord v), []) := by
  have hword := scan_shellQuote_behind h []
  rw [shellQuote] at h
  split at h
  · cases h
  · cases h
    exact hword

theorem plain_runKey (id : RunId) : ∀ c ∈ (History.runKey id).toList, isPlain c = true := by
  have hdigit : ∀ d < 16, isPlain (Nat.digitChar d) = true := by decide
  have hdigits (n : Nat) : ∀ c ∈ Nat.toDigits 16 n, isPlain c = true := by
    induction n using Nat.strongRecOn with
    | ind n ih =>
      rw [Nat.toDigits_eq_if (by decide)]
      split
      · case isTrue h =>
        intro c hc
        rw [List.mem_singleton.mp hc]
        exact hdigit n h
      · case isFalse h =>
        intro c hc
        rcases List.mem_append.mp hc with hc | hc
        · exact ih (n / 16) (Nat.div_lt_self (by omega) (by decide)) c hc
        · rw [List.mem_singleton.mp hc]
          exact hdigit (n % 16) (Nat.mod_lt n (by decide))
  intro c hc
  rw [History.runKey, String.toList_ofList] at hc
  rcases List.mem_append.mp hc with hc | hc
  · rw [List.eq_of_mem_replicate hc]
    decide
  · exact hdigits id.uuid c hc

/-! ## The run script -/

/-- The command of the run script that makes the directory of the run, before its quotes end. -/
def runBase (key : Text) : Text := "base=\"$HOME/.cache/kodework/runs/".toList ++ (key ++ "\"".toList)

/-- What the run script does before the command. -/
def runSetUp : Text :=
  "if ! mkdir -p -- \"$base\"; then exit 125; fi; started_tmp=\"$base/started_at_s.tmp.$$\"; ".toList ++
    ("if ! date +%s > \"$started_tmp\" || ! mv -f -- \"$started_tmp\" \"$base/started_at_s\"; ".toList ++
      "then rm -f -- \"$started_tmp\"; exit 125; fi; ".toList)

/-- What the run script does behind the command. -/
def runRecord : Text :=
  "code=$?; finished_tmp=\"$base/finished_at_s.tmp.$$\"; exit_tmp=\"$base/exit_code.tmp.$$\"; ".toList ++
    ("if ! date +%s > \"$finished_tmp\" || ! mv -f -- \"$finished_tmp\" \"$base/finished_at_s\"; ".toList ++
      ("then rm -f -- \"$finished_tmp\" \"$exit_tmp\"; exit 125; fi; ".toList ++
        ("if ! printf '%s\\n' \"$code\" > \"$exit_tmp\" || ! mv -f -- \"$exit_tmp\" \"$base/exit_code\"; ".toList ++
          "then rm -f -- \"$exit_tmp\"; exit 125; fi; ".toList)))

theorem ok_of_map {ε α β : Type} {x : Except ε α} {f : α → β} {b : β} (h : x.map f = .ok b) :
    ∃ a, x = .ok a ∧ b = f a := by
  cases x with
  | error e => cases h
  | ok a => exact ⟨a, rfl, (Except.ok.inj h).symm⟩

theorem ok_of_bind {ε α β : Type} {x : Except ε α} {f : α → Except ε β} {b : β} (h : (x >>= f) = .ok b) :
    ∃ a, x = .ok a ∧ f a = .ok b := by
  cases x with
  | error e => cases h
  | ok a => exact ⟨a, rfl, h⟩

/-- Texts around two others, with some of their parts cut in two. -/
theorem texts_around {key q : Text} {start a b c d e f g h umask base quote a' c' shell semi d' h' exit : String}
    (hstart : start.toList = umask.toList ++ base.toList) (ha : a.toList = quote.toList ++ semi.toList ++ a'.toList)
    (hc : c.toList = c'.toList ++ shell.toList) (hd : d.toList = semi.toList ++ d'.toList)
    (hh : h.toList = h'.toList ++ exit.toList) :
    start.toList ++ key ++ (a ++ b ++ c).toList ++ q ++ (d ++ e ++ f ++ g ++ h).toList =
      umask.toList ++ ((base.toList ++ (key ++ quote.toList)) ++ semi.toList ++ ((a'.toList ++ (b.toList ++ c'.toList)) ++
        ((shell.toList ++ q) ++ semi.toList ++
          ((d'.toList ++ (e.toList ++ (f.toList ++ (g.toList ++ h'.toList)))) ++ exit.toList)))) := by
  simp only [String.toList_append, hstart, ha, hc, hd, hh, List.append_assoc]

theorem buildRunScript_eq {command key script : Text} (h : buildRunScript command key = .ok script) :
    ∃ q, shellQuote command = .ok q ∧
      script = "umask 077 || exit 125; ".toList ++ (runBase key ++ "; ".toList ++ (runSetUp ++
        (("sh -lc ".toList ++ q) ++ "; ".toList ++ (runRecord ++ "exit \"$code\"".toList)))) := by
  rw [buildRunScript] at h
  obtain ⟨q, hq, hscript⟩ := ok_of_map h
  refine ⟨q, hq, hscript.trans ?_⟩
  unfold runBase runSetUp runRecord
  refine texts_around ?start ?quote ?shell ?semi ?exit
  case start => exact literal_append rfl
  case quote => exact literal_append_append rfl
  case shell => exact literal_append rfl
  case semi => exact literal_append rfl
  case exit => exact literal_append rfl

/-- What a command gives to a shell that it starts with `sh -lc`. -/
def shellArgument : Command → Option Word
  | .simple ⟨[], [program, option, argument], []⟩ =>
    if program = bareWord "sh".toList ∧ option = bareWord "-lc".toList then some argument else none
  | _ => none

/-- What the commands of a script give to the shells they start, those inside its
conditionals left out. -/
def shellArguments (script : Script) : List Word :=
  script.flatMap fun i =>
    (i.list.first :: i.list.rest.map Prod.snd).flatMap fun p => p.commands.filterMap shellArgument

theorem shellArguments_append (a b : Script) : shellArguments (a ++ b) = shellArguments a ++ shellArguments b :=
  List.flatMap_append

theorem plain_runBase {key : Text} (h : ∀ c ∈ key, isPlain c = true) :
    Plain (runBase key) [List.flatten [bareWord "base=".toList, [.parameter true "HOME".toList],
      quotedWord "/.cache/kodework/runs/".toList] ++ quotedWord key] := by
  refine ⟨⟨[], _, rfl, ?_⟩, ?_⟩
  · have hbase : scan .gap "base=\"$HOME/.cache/kodework/runs/".toList =
        (.double (List.flatten [bareWord "base=".toList, [.parameter true "HOME".toList],
          quotedWord "/.cache/kodework/runs/".toList]), []) := by
      apply scan_literal
      decide +kernel
    have hclose (w : Word) : scan (.double w) "\"".toList = (.bare w, []) := scan_literal rfl
    exact scan_trans hbase (scan_trans (scan_double _ h) (hclose _))
  · intro w hw
    cases hw
    rfl

/-- The reader run on a text, by its characters. -/
theorem reader_run {t t' : Text} (h : t = t') (hrun : isComplete t' && shellArguments (readScript t') == []) :
    Complete t (readScript t) ∧ shellArguments (readScript t) = [] := by
  rw [Bool.and_eq_true, beq_iff_eq] at hrun
  rw [h]
  exact ⟨complete_of_isComplete hrun.1, hrun.2⟩

theorem complete_umask : Complete "umask 077 || exit 125; ".toList (readScript "umask 077 || exit 125; ".toList) ∧
    shellArguments (readScript "umask 077 || exit 125; ".toList) = [] := by
  refine reader_run String.toList_ofList ?_
  decide +kernel

theorem complete_runSetUp : Complete runSetUp (readScript runSetUp) ∧ shellArguments (readScript runSetUp) = [] := by
  unfold runSetUp
  refine reader_run (literal_cons (literal_cons String.toList_ofList)) ?_
  decide +kernel

theorem complete_runRecord :
    Complete runRecord (readScript runRecord) ∧ shellArguments (readScript runRecord) = [] := by
  unfold runRecord
  refine reader_run (literal_cons (literal_cons (literal_cons (literal_cons String.toList_ofList)))) ?_
  decide +kernel

/-- A simple command. -/
def single (words : List Word) : Script := [⟨⟨simplePipeline words, []⟩, false⟩]

/-- What the run script gives to the shell it starts is the command, in quotes. -/
theorem shellArguments_runScript {command script : Text} {id : RunId}
    (h : buildRunScript command (History.runKey id).toList = .ok script) :
    shellArguments (readScript script) = [quotedWord command] := by
  obtain ⟨q, hq, rfl⟩ := buildRunScript_eq h
  have hbase := (plain_runBase (plain_runKey id)).complete
  have hshell : Plain ("sh -lc ".toList ++ q)
      [bareWord "sh".toList, bareWord "-lc".toList, quotedWord command] := by
    refine ⟨⟨[bareWord "sh".toList, bareWord "-lc".toList], quotedWord command, rfl, ?_⟩, ?_⟩
    · have hscan : scan .gap "sh -lc ".toList =
          (.gap, [.word (bareWord "sh".toList), .word (bareWord "-lc".toList)]) := scan_literal (by decide +kernel)
      exact scan_trans hscan (scan_shellQuote hq)
    · rintro w ⟨⟩
      decide +kernel
  have hexit : Plain "exit \"$code\"".toList [bareWord "exit".toList, [.parameter true "code".toList]] := by
    refine ⟨⟨[bareWord "exit".toList], _, rfl, scan_literal (by decide +kernel)⟩, ?_⟩
    rintro w ⟨⟩
    decide
  have hreads := complete_umask.1.reads_append (hbase.reads_append (complete_runSetUp.1.reads_append
    (hshell.complete.reads_append (complete_runRecord.1.reads_append hexit.reads))))
  rw [hreads.read]
  simp only [shellArguments_append, complete_umask.2, complete_runSetUp.2, complete_runRecord.2]
  rfl

/-! ## The line for tmux -/

/-- What the line for `tmux` is read as. -/
def tmuxWords (key script : Text) : List Word :=
  [bareWord "tmux".toList, bareWord "new-session".toList, bareWord "-d".toList, bareWord "-s".toList,
    bareWord "kodework-run-".toList ++ bareWord key, bareWord "--".toList, bareWord "sh".toList,
    bareWord "-lc".toList, quotedWord script]

theorem read_tmuxLine {script q : Text} {id : RunId} (hq : shellQuote script = .ok q) :
    readScript ("tmux new-session -d -s kodework-run-".toList ++ (History.runKey id).toList ++
      " -- sh -lc ".toList ++ q) = single (tmuxWords (History.runKey id).toList script) := by
  have hstart : scan .gap "tmux new-session -d -s kodework-run-".toList =
      (.bare (bareWord "kodework-run-".toList), [.word (bareWord "tmux".toList),
        .word (bareWord "new-session".toList), .word (bareWord "-d".toList), .word (bareWord "-s".toList)]) :=
    scan_literal (by decide)
  have hshell (w : Word) : scan (.bare w) " -- sh -lc ".toList = (.gap, [.word w, .word (bareWord "--".toList),
      .word (bareWord "sh".toList), .word (bareWord "-lc".toList)]) := scan_literal rfl
  have hscan := scan_trans (scan_trans (scan_trans hstart (scan_bare _ (plain_runKey id))) (hshell _))
    (scan_shellQuote hq)
  refine Reads.read (Plain.reads ⟨⟨List.dropLast (tmuxWords (History.runKey id).toList script), quotedWord script,
    rfl, hscan⟩, ?_⟩)
  rintro w ⟨⟩
  decide

/-! ## What is sent -/

theorem commandLine_ok {action : Action} {confirmed : Bool} {run : Option RunId} {fresh : RunId}
    {line : CommandLine} (h : commandLine action confirmed run fresh = .ok line) :
    ∃ command, buildActionCommand action = .ok command ∧
      (action.mode = .quick → ∃ script, buildRunScript command (History.runKey (run.getD fresh)).toList = .ok script ∧
        line = .exec script (action.timeoutMs.getD defaultCommandTimeoutMs)) ∧
      (action.mode = .background → ∃ script q,
        buildRunScript command (History.runKey (run.getD fresh)).toList = .ok script ∧ shellQuote script = .ok q ∧
        line = .exec ("tmux new-session -d -s kodework-run-".toList ++ (History.runKey (run.getD fresh)).toList ++
          " -- sh -lc ".toList ++ q) defaultCommandTimeoutMs) := by
  rw [commandLine] at h
  split at h
  · cases h
  · obtain ⟨command, hcommand, h⟩ := ok_of_bind h
    refine ⟨command, hcommand, fun hmode => ?_, fun hmode => ?_⟩
    · simp only [hmode] at h
      obtain ⟨script, hscript, h⟩ := ok_of_bind h
      exact ⟨script, hscript, (Except.ok.inj h).symm⟩
    · simp only [hmode] at h
      obtain ⟨script, hscript, h⟩ := ok_of_bind h
      obtain ⟨q, hq, h⟩ := ok_of_bind h
      exact ⟨script, q, hscript, hq, (Except.ok.inj h).symm⟩

/-- Between two blanks outside quotes, a quoted value is one word, which says the value;
the run script of a quick command gives the action command to its shell, the line of a
background command gives the run script to the shell of its session, and this gives the
action command to its own; and a value is refused exactly if it has a null character or
the end of a line in it. -/
theorem quoted_commands :
    (∀ v q, shellQuote v = .ok q → ∀ before after b b', Shell.isBlank b = true → Shell.isBlank b' = true →
      (scan .gap (before ++ [b])).1 = .gap →
      tokens (before ++ b :: (q ++ b' :: after)) =
          (tokens after).map (fun ts => (scan .gap (before ++ [b])).2 ++ .word (quotedWord v) :: ts) ∧
        Word.literal (quotedWord v) = some v) ∧
    (∀ action confirmed run fresh line timeoutMs, action.mode = .quick →
      commandLine action confirmed run fresh = .ok (.exec line timeoutMs) →
      ∃ command argument, buildActionCommand action = .ok command ∧
        shellArguments (readScript line) = [argument] ∧ Word.literal argument = some command) ∧
    (∀ action confirmed run fresh line timeoutMs, action.mode = .background →
      commandLine action confirmed run fresh = .ok (.exec line timeoutMs) →
      ∃ command script argument, buildActionCommand action = .ok command ∧
        buildRunScript command (History.runKey (run.getD fresh)).toList = .ok script ∧
        readScript line = single (tmuxWords (History.runKey (run.getD fresh)).toList script) ∧
        Word.literal (quotedWord script) = some script ∧
        shellArguments (readScript script) = [argument] ∧ Word.literal argument = some command) ∧
    (∀ v, (∃ e, shellQuote v = .error e) ↔ ∃ c ∈ v, c = '\x00' ∨ c = '\n' ∨ c = '\r') := by
  refine ⟨?_, ?_, ?_, ?_⟩
  · intro v q hq before after b b' hb hb' hgap
    refine ⟨?_, literal_quotedWord v⟩
    have hblank : scan (.bare (quotedWord v)) [b'] = (.gap, [.word (quotedWord v)]) := by
      rw [scan_cons, step_bare_blank hb']
      rfl
    have hscan := scan_trans (Prod.ext hgap rfl : scan .gap (before ++ [b]) = (.gap, _))
      (scan_trans (scan_shellQuote hq) hblank)
    have htext : before ++ b :: (q ++ b' :: after) = before ++ [b] ++ (q ++ [b']) ++ after := by simp
    rw [htext, tokens_append hscan]
    simp
  · intro action confirmed run fresh line timeoutMs hmode hline
    obtain ⟨command, hcommand, hquick, -⟩ := commandLine_ok hline
    obtain ⟨script, hscript, hexec⟩ := hquick hmode
    obtain ⟨rfl, -⟩ := CommandLine.exec.inj hexec
    exact ⟨command, _, hcommand, shellArguments_runScript hscript, literal_quotedWord command⟩
  · intro action confirmed run fresh line timeoutMs hmode hline
    obtain ⟨command, hcommand, -, hbackground⟩ := commandLine_ok hline
    obtain ⟨script, q, hscript, hq, hexec⟩ := hbackground hmode
    obtain ⟨rfl, -⟩ := CommandLine.exec.inj hexec
    exact ⟨command, script, _, hcommand, hscript, read_tmuxLine hq, literal_quotedWord script,
      shellArguments_runScript hscript, literal_quotedWord command⟩
  · intro v
    constructor
    · rintro ⟨e, he⟩
      by_contra hnone
      obtain ⟨q, hq⟩ := (shellQuote_ok_iff v).mpr fun c hc => by
        rw [← Bool.not_eq_true, isRefused]
        intro hrefused
        refine hnone ⟨c, hc, ?_⟩
        simpa [or_assoc] using hrefused
      rw [hq] at he
      cases he
    · rintro ⟨c, hc, hrefused⟩
      cases hq : shellQuote v with
      | error e => exact ⟨e, rfl⟩
      | ok q =>
        have hno := (shellQuote_ok_iff v).mp ⟨q, hq⟩ c hc
        rcases hrefused with rfl | rfl | rfl <;> cases hno

def greet : Action :=
  { id := ⟨1⟩, projectId := ⟨1⟩, name := "greet".toList, command := "echo 'hi'".toList, mode := .quick, cwd := none
    timeoutMs := none, dangerLevel := .safe, confirmation := .never, env := [] }

theorem greet_command : buildActionCommand greet = .ok "echo 'hi'".toList := rfl

/-- The command has quotes in it, and the shell is given it as it is. -/
theorem greet_quoted :
    ∃ line timeoutMs argument, commandLine greet true none ⟨1⟩ = .ok (.exec line timeoutMs) ∧
      shellArguments (readScript line) = [argument] ∧ Word.literal argument = some "echo 'hi'".toList := by
  generalize (⟨1⟩ : RunId) = run
  obtain ⟨q, hq⟩ : ∃ q, shellQuote "echo 'hi'".toList = .ok q := ⟨_, rfl⟩
  obtain ⟨script, hscript⟩ : ∃ script, buildRunScript "echo 'hi'".toList (History.runKey run).toList = .ok script := by
    rw [buildRunScript, hq]
    exact ⟨_, rfl⟩
  have hline : commandLine greet true none run = .ok (.exec script defaultCommandTimeoutMs) := by
    rw [commandLine, Bool.not_true, Bool.and_false, greet_command]
    exact congrArg (Except.map fun script => CommandLine.exec script defaultCommandTimeoutMs) hscript
  obtain ⟨command, argument, hcommand, hread, hliteral⟩ :=
    quoted_commands.2.1 greet true none run script defaultCommandTimeoutMs rfl hline
  cases hcommand
  exact ⟨_, _, argument, hline, hread, hliteral⟩

end KW.Actions
