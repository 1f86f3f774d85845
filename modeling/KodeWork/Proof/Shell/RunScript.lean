import KodeWork.Framework.Shell.Posix
import KodeWork.Proof.Shell.Quoting

/-!
# What the run script leaves behind

The script of `build_run_script`, run on a machine on which anything can fail or cut it
off. It writes each marker to a file of its own first and then moves it into place, the
exit code last.
-/

namespace KW.Actions

open KW.Shell

/-! ## The script -/

def bare (t : String) : Word := bareWord t.toList

def quoted (t : String) : Word := quotedWord t.toList

def param (t : String) : Word := [.parameter true t.toList]

def item (p : Pipeline Command) : Item (Pipeline Command) := ⟨⟨p, []⟩, false⟩

def exitWith (n : Word) : Item (Pipeline Command) := item (simpleCommand false [bare "exit", n] [])

/-- A path in the directory of the run. -/
def inBase (name : String) : Word := param "base" ++ quoted ("/" ++ name)

/-- The path of a file of its own. -/
def ownFile (name : String) : Word := inBase (name ++ ".tmp.") ++ param "$"

def umaskItem : Item (Pipeline Command) :=
  ⟨⟨simpleCommand false [bare "umask", bare "077"] [], [(.or, simpleCommand false [bare "exit", bare "125"] [])]⟩, false⟩

def baseItem (key : Text) : Item (Pipeline Command) :=
  item (assignmentCommand "base".toList
    (List.flatten [param "HOME", quoted "/.cache/kodework/runs/"] ++ quotedWord key))

def mkdirItem : Item (Pipeline Command) :=
  item ⟨false, [.conditional
    [([item (simpleCommand true [bare "mkdir", bare "-p", bare "--", param "base"] [])], [exitWith (bare "125")])] []]⟩

/-- What a command prints is kept under the name, by way of the file in the variable. -/
def recordItem (command : List Word) (own name : String) (remove : List Word) : Item (Pipeline Command) :=
  item ⟨false, [.conditional
    [([⟨⟨simpleCommand true command [⟨none, .great, param own⟩],
        [(.or, simpleCommand true [bare "mv", bare "-f", bare "--", param own, inBase name] [])]⟩, false⟩],
      [item (simpleCommand false ([bare "rm", bare "-f", bare "--"] ++ remove) []), exitWith (bare "125")])] []]⟩

def ownItem (own name : String) : Item (Pipeline Command) := item (assignmentCommand own.toList (ownFile name))

def dateWords : List Word := [bare "date", bare "+%s"]

def setUpScript : Script :=
  [mkdirItem, ownItem "started_tmp" "started_at_s",
    recordItem dateWords "started_tmp" "started_at_s" [param "started_tmp"]]

def codeItem : Item (Pipeline Command) :=
  item (assignmentCommand "code".toList [.parameter false ['?']])

def printWords : List Word := [bare "printf", quoted "%s\\n", param "code"]

def recordScript : Script :=
  [codeItem, ownItem "finished_tmp" "finished_at_s", ownItem "exit_tmp" "exit_code",
    recordItem dateWords "finished_tmp" "finished_at_s" [param "finished_tmp", param "exit_tmp"],
    recordItem printWords "exit_tmp" "exit_code" [param "exit_tmp"]]

def op (o : Operator) : Token := .operator o

/-- The tokens of `recordItem`. -/
def recordTokens (command : List Word) (own name : String) (remove : List Word) : List Token :=
  List.flatten [[.word (bare "if"), .word (bare "!")], command.map .word, [op .great, .word (param own), op .orIf,
    .word (bare "!"), .word (bare "mv"), .word (bare "-f"), .word (bare "--"), .word (param own), .word (inBase name),
    op .semi], [.word (bare "then"), .word (bare "rm"), .word (bare "-f"), .word (bare "--")], remove.map .word,
    [op .semi, .word (bare "exit"), .word (bare "125"), op .semi, .word (bare "fi"), op .semi]]

def ownTokens (own name : String) : List Token := [.word (bareWord (own.toList ++ ['=']) ++ ownFile name), op .semi]

theorem scan_setUp : scan .gap runSetUp =
    (.gap, List.flatten [[.word (bare "if"), .word (bare "!"), .word (bare "mkdir"), .word (bare "-p"),
      .word (bare "--"), .word (param "base"), op .semi, .word (bare "then"), .word (bare "exit"), .word (bare "125"),
      op .semi, .word (bare "fi"), op .semi], ownTokens "started_tmp" "started_at_s",
      recordTokens dateWords "started_tmp" "started_at_s" [param "started_tmp"]]) := by
  unfold runSetUp
  refine (congrArg (scan .gap) (literal_cons (literal_cons String.toList_ofList))).trans ?_
  decide +kernel

theorem complete_setUp : Complete runSetUp setUpScript := ⟨_, _, scan_setUp, rfl, rfl, rfl⟩

/-! ## Keeping what a command prints -/

open Remote (Apart Tried)

variable {work : List Char → Remote → Reply Remote} {depth : Nat} {s : Session Remote}

/-- The shell goes on with the same variables, on a machine that differs at these paths only. -/
structure Kept (paths : List Text) (s s' : Session Remote) : Prop where
  vars : s'.vars = s.vars
  pid : s'.pid = s.pid
  running : s'.world.running = true
  apart : Apart paths s.world s'.world

/-- Something has gone wrong, and only these paths have been touched. -/
def Wrong (paths : List Text) (s s' : Session Remote) : Prop :=
  Apart paths s.world s'.world ∧ s'.world.troubled = true

theorem Kept.withLast {paths : List Text} {s' : Session Remote} (h : Kept paths s s') (n : Nat) :
    Kept paths s { s' with last := n } := ⟨h.vars, h.pid, h.running, h.apart⟩

theorem Kept.mono {paths paths' : List Text} {s' : Session Remote} (h : Kept paths s s') (hsub : paths ⊆ paths') :
    Kept paths' s s' := ⟨h.vars, h.pid, h.running, h.apart.mono hsub⟩

theorem Kept.trans {paths : List Text} {s' s'' : Session Remote} (h : Kept paths s s') (h' : Kept paths s' s'') :
    Kept paths s s'' := ⟨h'.vars.trans h.vars, h'.pid.trans h.pid, h'.running, h.apart.trans h'.apart⟩

theorem parameter_congr {s' : Session Remote} (hvars : s'.vars = s.vars) {name : Text}
    (hname : isNameStart (name.headD '0') = true) : s'.parameter name = s.parameter name := by
  rw [parameter_variable hname, parameter_variable hname, hvars]

/-- What is sent to a file is added to it, or something has gone wrong. -/
theorem ends_send (work : List Char → Remote → Reply Remote) (path text : Text) (status : Nat)
    (hrunning : s.world.running = true) :
    Ends (fun s' _ => Wrong [path] s s')
      (fun s' n => Kept [path] s s' ∧
        ((n = status ∧ s'.world.troubled = s.world.troubled ∧
            s'.world.files path = some ((s.world.files path).getD [] ++ text)) ∨
          (n ≠ 0 ∧ s'.world.troubled = true)))
      (send (Remote.host work) s status text (.file path)) := by
  have happend := Remote.tried_append work hrunning path text
  rw [send]
  generalize (Remote.host work).append s.world path text = a at happend
  cases hended : a.ended with
  | true => exact ends_of_stopped rfl (happend.stopped hended)
  | false =>
    refine ends_of_goes rfl ?_
    by_cases hstatus : a.status = 0
    · obtain ⟨⟨hapart, hfile⟩, hruns, htroubled⟩ := happend.worked hended hstatus
      refine ⟨⟨rfl, rfl, hruns, hapart⟩, .inl ⟨?_, htroubled, hfile⟩⟩
      exact if_neg (not_not.mpr hstatus)
    · obtain ⟨hapart, htroubled, hruns⟩ := happend.failed hended hstatus
      refine ⟨⟨rfl, rfl, hruns, hapart⟩, .inr ⟨?_, htroubled⟩⟩
      show (if a.status ≠ 0 then a.status else status) ≠ 0
      rwa [if_pos hstatus]

/-- A command that prints into its own file: the file has what it prints, or something has gone wrong. -/
theorem ends_own {command : List Word} {own : String} {name path : Text} {args paths : List Text}
    {prints : Text → Prop} (hrunning : s.world.running = true)
    (hown : s.parameter own.toList = some path) (hpath : path ∈ paths) (hnull : path ≠ "/dev/null".toList)
    (hargs : Args (shell (Remote.host work) depth) s command (name :: args)) (hname : name ≠ "exit".toList)
    (hprints : ∀ r : Remote, r.running = true → Tried r [] (fun r' output => Apart [] r r' ∧ prints output)
      ((Remote.host work).call r (name :: args) [])) :
    Ends (fun s' _ => Wrong paths s s')
      (fun s' n => (n = 0 → Kept paths s s' ∧ s'.world.troubled = true) ∧
        (n ≠ 0 → Kept paths s s' ∧ s'.world.troubled = s.world.troubled ∧
          ∃ text, prints text ∧ s'.world.files path = some text))
      ((shell (Remote.host work) (depth + 1)).pipeline s
        (simpleCommand true command [⟨none, .great, param own⟩])) := by
  have hsub : [path] ⊆ paths := List.cons_subset.mpr ⟨hpath, List.nil_subset _⟩
  have hcreate := Remote.tried_create work hrunning path
  have hfield : (param own).isField = true := rfl
  refine ends_write hargs hname hfield (means_parameter hown true) hnull ?_ ?_ ?_
  · intro hended
    obtain ⟨hapart, htroubled⟩ := hcreate.stopped hended
    exact ⟨hapart.mono hsub, htroubled⟩
  · intro hended hstatus
    obtain ⟨hapart, htroubled, hruns⟩ := hcreate.failed hended hstatus
    have hzero : pipelineStatus true ((Remote.host work).create s.world path).status = 0 := if_neg hstatus
    exact ⟨fun _ => ⟨⟨rfl, rfl, hruns, hapart.mono hsub⟩, htroubled⟩, fun hne => absurd hzero hne⟩
  · intro hended hstatus
    obtain ⟨⟨hmade, hempty⟩, hruns, htroubled⟩ := hcreate.worked hended hstatus
    generalize ((Remote.host work).create s.world path).world = made at hmade hempty hruns htroubled
    have hcall := hprints made hruns
    generalize (Remote.host work).call made (name :: args) [] = r at hcall
    refine ⟨fun hstopped => ?_, fun hgoes => ?_⟩
    · obtain ⟨hapart, hwrong⟩ := hcall.stopped hstopped
      exact ⟨(hmade.mono hsub).trans (hapart.mono (List.nil_subset _)), hwrong⟩
    · by_cases hdone : r.status = 0
      · obtain ⟨⟨hapart, hprinted⟩, hruns', htroubled'⟩ := hcall.worked hgoes hdone
        have hfirst : Apart paths s.world r.world := (hmade.mono hsub).trans (hapart.mono (List.nil_subset _))
        have hfile : r.world.files path = some [] := (hapart.files path List.not_mem_nil).trans hempty
        have hsend := ends_send (s := { s with world := r.world }) work path r.output r.status hruns'
        refine hsend.mono (fun s' n hwrong => ⟨hfirst.trans (hwrong.1.mono hsub), hwrong.2⟩) ?_
        rintro s' n ⟨hkept, ⟨hn, hsame, hcontent⟩ | ⟨hn, hwrong⟩⟩
        · have hkept' : Kept paths s s' := ⟨hkept.vars, hkept.pid, hkept.running, hfirst.trans (hkept.apart.mono hsub)⟩
          have hone : pipelineStatus true n ≠ 0 := by rw [hn, hdone]; decide
          refine ⟨fun hzero => absurd hzero hone, fun _ => ⟨hkept'.withLast _, hsame.trans (htroubled'.trans htroubled), ?_⟩⟩
          refine ⟨r.output, hprinted, hcontent.trans ?_⟩
          rw [hfile]
          rfl
        · have hkept' : Kept paths s s' := ⟨hkept.vars, hkept.pid, hkept.running, hfirst.trans (hkept.apart.mono hsub)⟩
          have hzero : pipelineStatus true n = 0 := if_neg hn
          exact ⟨fun _ => ⟨hkept'.withLast _, hwrong⟩, fun hone => absurd hzero hone⟩
      · obtain ⟨hapart, hwrong, hruns'⟩ := hcall.failed hgoes hdone
        have hfirst : Apart paths s.world r.world := (hmade.mono hsub).trans (hapart.mono (List.nil_subset _))
        have hsend := ends_send (s := { s with world := r.world }) work path r.output r.status hruns'
        refine hsend.mono (fun s' n hlater => ⟨hfirst.trans (hlater.1.mono hsub), hlater.2⟩) fun s' n hlater => ?_
        obtain ⟨hkept, hcases⟩ := hlater
        have hkept' : Kept paths s s' := ⟨hkept.vars, hkept.pid, hkept.running, hfirst.trans (hkept.apart.mono hsub)⟩
        have hn : n ≠ 0 := by
          rcases hcases with ⟨hn, -⟩ | ⟨hn, -⟩
          · rw [hn]
            exact hdone
          · exact hn
        have htroubled' : s'.world.troubled = true := by
          rcases hcases with ⟨-, hsame, -⟩ | ⟨-, hwrong'⟩
          · exact hsame.trans hwrong
          · exact hwrong'
        have hzero : pipelineStatus true n = 0 := if_neg hn
        exact ⟨fun _ => ⟨hkept'.withLast _, htroubled'⟩, fun hone => absurd hzero hone⟩

/-- The path of a name in the directory of the run. -/
def inDir (dir : Text) (name : String) : Text := dir ++ ("/" ++ name).toList

theorem means_inBase {dir : Text} (name : String) (hbase : s.parameter "base".toList = some dir) :
    Means (shell (Remote.host work) depth) s (inBase name) (inDir dir name) :=
  (means_parameter hbase true).append (means_quoted _)

theorem isField_inBase (name : String) : (inBase name).isField = true := by
  rw [Word.isField, inBase, List.all_append, quoted, all_quotedWord]
  rfl

/-- The file is moved into place, or something has gone wrong. -/
theorem ends_move {own name : String} {path dir text : Text} (hrunning : s.world.running = true)
    (hown : s.parameter own.toList = some path) (hbase : s.parameter "base".toList = some dir)
    (hfile : s.world.files path = some text) :
    Ends (fun s' _ => Wrong [] s s')
      (fun s' n => (n = 0 → Kept [] s s' ∧ s'.world.troubled = true) ∧
        (n ≠ 0 → Kept [path, inDir dir name] s s' ∧ s'.world.troubled = s.world.troubled ∧
          s'.world.files (inDir dir name) = some text))
      ((shell (Remote.host work) (depth + 1)).pipeline s
        (simpleCommand true [bare "mv", bare "-f", bare "--", param own, inBase name] [])) := by
  have hargs : Args (shell (Remote.host work) depth) s [bare "mv", bare "-f", bare "--", param own, inBase name]
      ["mv".toList, "-f".toList, "--".toList, path, inDir dir name] :=
    args_cons rfl (means_bare _) (args_cons rfl (means_bare _) (args_cons rfl (means_bare _)
      (args_cons rfl (means_parameter hown true) (args_cons (isField_inBase name) (means_inBase name hbase) args_nil))))
  have hmove := Remote.tried_mv work hrunning hfile (inDir dir name)
  refine ends_call hargs (by decide) hmove.stopped fun hgoes => ?_
  generalize (Remote.host work).call s.world _ [] = r at hmove hgoes
  by_cases hstatus : r.status = 0
  · obtain ⟨⟨hapart, hmoved⟩, hruns, htroubled⟩ := hmove.worked hgoes hstatus
    have hone : pipelineStatus true r.status ≠ 0 := by rw [hstatus]; decide
    exact ⟨fun hzero => absurd hzero hone, fun _ => ⟨⟨rfl, rfl, hruns, hapart⟩, htroubled, hmoved⟩⟩
  · obtain ⟨hapart, hwrong, hruns⟩ := hmove.failed hgoes hstatus
    have hzero : pipelineStatus true r.status = 0 := if_neg hstatus
    exact ⟨fun _ => ⟨⟨rfl, rfl, hruns, hapart⟩, hwrong⟩, fun hone => absurd hzero hone⟩

/-- The own files are removed and the shell ends with 125. -/
theorem ends_giveUp {remove : List Word} {paths : List Text} {s₀ : Session Remote} (hkept : Kept paths s₀ s)
    (htroubled : s.world.troubled = true) (hremove : Args (shell (Remote.host work) depth) s remove paths)
    {Q : Session Remote → Nat → Prop} :
    Ends (fun s' _ => Wrong paths s₀ s') Q ((shell (Remote.host work) (depth + 1)).run s
      [item (simpleCommand false ([bare "rm", bare "-f", bare "--"] ++ remove) []), exitWith (bare "125")]) := by
  have hargs : Args (shell (Remote.host work) depth) s ([bare "rm", bare "-f", bare "--"] ++ remove)
      ("rm".toList :: "-f".toList :: "--".toList :: paths) :=
    args_cons rfl (means_bare _) (args_cons rfl (means_bare _) (args_cons rfl (means_bare _) hremove))
  have hrm := Remote.tried_rm work hkept.running paths
  have hfirst : Ends (fun s' _ => Wrong paths s₀ s') (fun s' _ => Wrong paths s₀ s')
      ((shell (Remote.host work) (depth + 1)).run s
        [item (simpleCommand false ([bare "rm", bare "-f", bare "--"] ++ remove) [])]) := by
    refine ends_call hargs (by decide) (fun hended => ?_) fun hgoes => ?_
    · obtain ⟨hapart, hwrong⟩ := hrm.stopped hended
      exact ⟨hkept.apart.trans hapart, hwrong⟩
    · generalize (Remote.host work).call s.world _ [] = r at hrm hgoes
      by_cases hstatus : r.status = 0
      · obtain ⟨hapart, -, hsame⟩ := hrm.worked hgoes hstatus
        exact ⟨hkept.apart.trans hapart, hsame.trans htroubled⟩
      · obtain ⟨hapart, hwrong, -⟩ := hrm.failed hgoes hstatus
        exact ⟨hkept.apart.trans hapart, hwrong⟩
  refine hfirst.seq (q := [exitWith (bare "125")]) (fun s' n hwrong => ?_) (List.cons_ne_nil _ _)
  have hexit : Args (shell (Remote.host work) depth) s' [bare "exit", bare "125"] ["exit".toList, "125".toList] :=
    args_cons rfl (means_bare _) (args_cons rfl (means_bare _) args_nil)
  exact ends_exit hexit rfl hwrong

/-- What the command prints is kept under the name; where anything goes wrong the shell has
ended, and what was under the name before still is. -/
theorem ends_record {command remove : List Word} {own name : String} {path dir : Text} {call : Text}
    {args paths : List Text} {prints : Text → Prop} (hrunning : s.world.running = true)
    (hown : s.parameter own.toList = some path) (howned : isNameStart (own.toList.headD '0') = true)
    (hbase : s.parameter "base".toList = some dir) (hpath : path ∈ paths) (hnull : path ≠ "/dev/null".toList)
    (hargs : Args (shell (Remote.host work) depth) s command (call :: args)) (hcall : call ≠ "exit".toList)
    (hprints : ∀ r : Remote, r.running = true → Tried r [] (fun r' output => Apart [] r r' ∧ prints output)
      ((Remote.host work).call r (call :: args) []))
    (hremove : ∀ s' : Session Remote, s'.vars = s.vars → Args (shell (Remote.host work) depth) s' remove paths)
    :
    Ends (fun s' _ => Wrong paths s s')
      (fun s' _ => Kept (inDir dir name :: paths) s s' ∧ s'.world.troubled = s.world.troubled ∧
        ∃ text, prints text ∧ s'.world.files (inDir dir name) = some text)
      ((shell (Remote.host work) (depth + 2)).run s [recordItem command own name remove]) := by
  refine ends_if ?_ ?_ ?_ (R := fun s' n => (n = 0 → Kept paths s s' ∧ s'.world.troubled = true) ∧
    (n ≠ 0 → Kept (inDir dir name :: paths) s s' ∧ s'.world.troubled = s.world.troubled ∧
      ∃ text, prints text ∧ s'.world.files (inDir dir name) = some text))
  · refine Ends.or (ends_own hrunning hown hpath hnull hargs hcall hprints) ?_ ?_
    · rintro s' ⟨hfailed, -⟩
      exact ⟨fun _ => hfailed rfl, fun hne => absurd rfl hne⟩
    · rintro s' n hn ⟨-, hdone⟩
      obtain ⟨hkept, hsame, text, hprinted, hfile⟩ := hdone hn
      have hown' : s'.parameter own.toList = some path := (parameter_congr hkept.vars howned).trans hown
      have hbase' : s'.parameter "base".toList = some dir := (parameter_congr hkept.vars rfl).trans hbase
      refine (ends_move hkept.running hown' hbase' hfile).mono ?_ ?_
      · rintro s'' _ ⟨hapart, hwrong⟩
        exact ⟨hkept.apart.trans (hapart.mono (List.nil_subset _)), hwrong⟩
      · rintro s'' m ⟨hfailed, hmoved⟩
        refine ⟨fun hm => ?_, fun hm => ?_⟩
        · obtain ⟨hkept', hwrong⟩ := hfailed hm
          exact ⟨hkept.trans (hkept'.mono (List.nil_subset _)), hwrong⟩
        · obtain ⟨hkept', hsame', hfile'⟩ := hmoved hm
          have hsub : [path, inDir dir name] ⊆ inDir dir name :: paths := by
            intro p hp
            rcases List.mem_cons.mp hp with rfl | hp
            · exact List.mem_cons_of_mem _ hpath
            · rw [List.mem_singleton.mp hp]
              exact List.mem_cons_self
          refine ⟨(hkept.mono (List.subset_cons_self _ _)).trans (hkept'.mono hsub), hsame'.trans hsame, ?_⟩
          exact ⟨text, hprinted, hfile'⟩
  · rintro s' ⟨hfailed, -⟩
    obtain ⟨hkept, hwrong⟩ := hfailed rfl
    exact ends_giveUp hkept hwrong (hremove s' hkept.vars)
  · rintro s' n hn ⟨-, hdone⟩
    obtain ⟨hkept, hsame, hfile⟩ := hdone hn
    exact ⟨hkept.withLast 0, hsame, hfile⟩

/-! ## The whole script -/

theorem complete_assignments :
    Complete "code=$?; finished_tmp=\"$base/finished_at_s.tmp.$$\"; exit_tmp=\"$base/exit_code.tmp.$$\"; ".toList
      [codeItem, ownItem "finished_tmp" "finished_at_s", ownItem "exit_tmp" "exit_code"] := by
  have hscan : scan .gap
      "code=$?; finished_tmp=\"$base/finished_at_s.tmp.$$\"; exit_tmp=\"$base/exit_code.tmp.$$\"; ".toList =
      (.gap, List.flatten [[.word (bareWord "code=".toList ++ [.parameter false ['?']]), op .semi],
        ownTokens "finished_tmp" "finished_at_s", ownTokens "exit_tmp" "exit_code"]) := by
    apply scan_literal
    decide +kernel
  exact ⟨_, _, hscan, rfl, rfl, rfl⟩

theorem complete_finished :
    Complete ("if ! date +%s > \"$finished_tmp\" || ! mv -f -- \"$finished_tmp\" \"$base/finished_at_s\"; ".toList ++
        "then rm -f -- \"$finished_tmp\" \"$exit_tmp\"; exit 125; fi; ".toList)
      [recordItem dateWords "finished_tmp" "finished_at_s" [param "finished_tmp", param "exit_tmp"]] := by
  refine ⟨recordTokens dateWords "finished_tmp" "finished_at_s" [param "finished_tmp", param "exit_tmp"], _,
    (congrArg (scan .gap) (literal_cons String.toList_ofList)).trans ?_, rfl, rfl, rfl⟩
  decide +kernel

theorem complete_exitCode :
    Complete ("if ! printf '%s\\n' \"$code\" > \"$exit_tmp\" || ! mv -f -- \"$exit_tmp\" \"$base/exit_code\"; ".toList ++
        "then rm -f -- \"$exit_tmp\"; exit 125; fi; ".toList)
      [recordItem printWords "exit_tmp" "exit_code" [param "exit_tmp"]] := by
  refine ⟨recordTokens printWords "exit_tmp" "exit_code" [param "exit_tmp"], _,
    (congrArg (scan .gap) (literal_cons String.toList_ofList)).trans ?_, rfl, rfl, rfl⟩
  decide +kernel

theorem complete_record : Complete runRecord recordScript := by
  have hrecord := complete_assignments.append (complete_finished.append complete_exitCode)
  rwa [List.append_assoc] at hrecord

theorem complete_umaskItem : Complete "umask 077 || exit 125; ".toList [umaskItem] := by
  have hscan : scan .gap "umask 077 || exit 125; ".toList =
      (.gap, [.word (bare "umask"), .word (bare "077"), op .orIf, .word (bare "exit"), .word (bare "125"), op .semi]) :=
    scan_literal (by decide)
  exact ⟨_, _, hscan, rfl, rfl, rfl⟩

def shItem (command : Text) : Item (Pipeline Command) :=
  item (simpleCommand false [bare "sh", bare "-lc", quotedWord command] [])

/-- The items of the run script. -/
def runScript (command key : Text) : Script :=
  [umaskItem] ++ ([baseItem key] ++ (setUpScript ++ ([shItem command] ++ (recordScript ++ [exitWith (param "code")]))))

theorem read_runScript {command script : Text} {id : RunId}
    (h : buildRunScript command (History.runKey id).toList = .ok script) :
    readScript script = runScript command (History.runKey id).toList := by
  obtain ⟨q, hq, rfl⟩ := buildRunScript_eq h
  have hbase := (plain_runBase (plain_runKey id)).complete
  have hshell : Plain ("sh -lc ".toList ++ q) [bare "sh", bare "-lc", quotedWord command] := by
    refine ⟨⟨[bare "sh", bare "-lc"], quotedWord command, rfl, ?_⟩, ?_⟩
    · have hscan : scan .gap "sh -lc ".toList = (.gap, [.word (bare "sh"), .word (bare "-lc")]) :=
        scan_literal (by decide)
      exact scan_trans hscan (scan_shellQuote hq)
    · rintro w ⟨⟩
      decide
  have hexit : Plain "exit \"$code\"".toList [bare "exit", param "code"] := by
    refine ⟨⟨[bare "exit"], _, rfl, scan_literal (by decide)⟩, ?_⟩
    rintro w ⟨⟩
    decide
  have hreads := complete_umaskItem.reads_append (hbase.reads_append (complete_setUp.reads_append
    (hshell.complete.reads_append (complete_record.reads_append hexit.reads))))
  exact hreads.read

/-! ## What is in the directory -/

open Remote (decimalLine)

/-- How far a run has come: whether its start and its end are recorded, the status of the
command if it has run, and whether that is recorded. -/
structure Progress (dir command : Text) (started : Bool) (status : Option Nat) (finished recorded : Bool)
    (r : Remote) : Prop where
  ran : r.ran = (status.map fun n => (command, n)).toList
  started : started = true → ∃ n, r.files (inDir dir "started_at_s") = some (decimalLine n)
  finished : finished = true → ∃ n, r.files (inDir dir "finished_at_s") = some (decimalLine n)
  exitCode : r.files (inDir dir "exit_code") = if recorded then status.map decimalLine else none

/-- The markers of a run. -/
def markers (dir : Text) : List Text := [inDir dir "started_at_s", inDir dir "finished_at_s", inDir dir "exit_code"]

theorem Progress.apart {dir command : Text} {started finished recorded : Bool} {status : Option Nat}
    {r r' : Remote} (h : Progress dir command started status finished recorded r) {paths : List Text}
    (hapart : Apart paths r r') (hmarkers : ∀ p ∈ markers dir, p ∉ paths) :
    Progress dir command started status finished recorded r' := by
  have hfile (p : Text) (hp : p ∈ markers dir) : r'.files p = r.files p := hapart.files p (hmarkers p hp)
  refine ⟨hapart.ran.trans h.ran, fun hs => ?_, fun hf => ?_, ?_⟩
  · rw [hfile _ (by simp [markers])]
    exact h.started hs
  · rw [hfile _ (by simp [markers])]
    exact h.finished hf
  · rw [hfile _ (by simp [markers])]
    exact h.exitCode

/-- All of a run is recorded. -/
def Recorded (dir command : Text) (status : Nat) (r : Remote) : Prop :=
  r.ran = [(command, status)] ∧ r.files (inDir dir "exit_code") = some (decimalLine status) ∧
    (∃ n, r.files (inDir dir "started_at_s") = some (decimalLine n)) ∧
    ∃ n, r.files (inDir dir "finished_at_s") = some (decimalLine n)

/-- What is true of a run wherever it is cut off: the command has not run before its start
was recorded, it has not run twice, and there is an exit code only if all is recorded. -/
structure Sound (dir command : Text) (r : Remote) : Prop where
  ran : r.ran = [] ∨ ∃ status, r.ran = [(command, status)] ∧
    ∃ n, r.files (inDir dir "started_at_s") = some (decimalLine n)
  exitCode : r.files (inDir dir "exit_code") = none ∨ ∃ status, Recorded dir command status r

theorem Progress.sound {dir command : Text} {started finished recorded : Bool} {status : Option Nat} {r : Remote}
    (h : Progress dir command started status finished recorded r) (hran : status.isSome → started = true)
    (hrecorded : recorded = true → status.isSome ∧ finished = true) : Sound dir command r := by
  cases status with
  | none =>
    refine ⟨.inl h.ran, .inl ?_⟩
    cases hrec : recorded with
    | false => rw [h.exitCode, hrec]; rfl
    | true => exact absurd (hrecorded hrec).1 Bool.false_ne_true
  | some status =>
    have hstarted := h.started (hran rfl)
    refine ⟨.inr ⟨status, h.ran, hstarted⟩, ?_⟩
    cases hrec : recorded with
    | false =>
      left
      rw [h.exitCode, hrec]
      rfl
    | true =>
      right
      refine ⟨status, h.ran, ?_, hstarted, h.finished (hrecorded hrec).2⟩
      rw [h.exitCode, hrec]
      rfl

/-- The shell is in the directory of the run, and nothing has gone wrong yet. -/
structure Stage (dir command : Text) (started : Bool) (status : Option Nat) (finished recorded : Bool)
    (s : Session Remote) : Prop where
  base : s.parameter "base".toList = some dir
  running : s.world.running = true
  untroubled : s.world.troubled = false
  progress : Progress dir command started status finished recorded s.world

/-- How the run can end. -/
structure Final (dir command : Text) (s : Session Remote) (n : Nat) : Prop where
  sound : Sound dir command s.world
  complete : s.world.troubled = false → s.world.running = true →
    ∃ status, Recorded dir command status s.world ∧ n = status % 256

theorem Final.of_wrong {dir command : Text} {started finished recorded : Bool} {status : Option Nat}
    {s s' : Session Remote} {paths : List Text} (hwrong : Wrong paths s s')
    (h : Progress dir command started status finished recorded s.world) (hran : status.isSome → started = true)
    (hrecorded : recorded = true → status.isSome ∧ finished = true) (hmarkers : ∀ p ∈ markers dir, p ∉ paths) (n : Nat) :
    Final dir command s' n := by
  refine ⟨(h.apart hwrong.1 hmarkers).sound hran hrecorded, fun huntroubled => ?_⟩
  rw [hwrong.2] at huntroubled
  cases huntroubled

/-- A file of its own is no marker. -/
theorem own_not_marker (dir pid : Text) {name : String}
    (hname : name ∈ ["started_at_s", "finished_at_s", "exit_code"]) :
    inDir dir (name ++ ".tmp.") ++ pid ∉ markers dir := by
  have hdiffer : ∀ name ∈ ["started_at_s", "finished_at_s", "exit_code"],
      ∀ marker ∈ ["started_at_s", "finished_at_s", "exit_code"],
        ("/" ++ (name ++ ".tmp.")).toList.take 15 ≠ ("/" ++ marker).toList.take 15 ∧
          15 ≤ ("/" ++ (name ++ ".tmp.")).toList.length := by decide
  have hne {marker : String} (hmarker : marker ∈ ["started_at_s", "finished_at_s", "exit_code"]) :
      inDir dir (name ++ ".tmp.") ++ pid ≠ inDir dir marker := by
    intro heq
    obtain ⟨htake, hlength⟩ := hdiffer name hname marker hmarker
    rw [inDir, inDir, List.append_assoc] at heq
    have hrest := congrArg (List.take 15) (List.append_cancel_left heq)
    rw [List.take_append_of_le_length hlength] at hrest
    exact htake hrest
  simp only [markers, List.mem_cons, List.not_mem_nil, or_false, not_or]
  exact ⟨hne (by simp), hne (by simp), hne (by simp)⟩

/-! ## Its steps -/

variable {dir command : Text} {status : Option Nat} {started finished recorded : Bool}

theorem nil_not_markers (dir : Text) : ∀ p ∈ markers dir, p ∉ ([] : List Text) := fun _ _ => List.not_mem_nil

theorem ends_exit125 {E Q : Session Remote → Nat → Prop} (he : E s 125) :
    Ends E Q ((shell (Remote.host work) (depth + 1)).pipeline s
      (simpleCommand false [bare "exit", bare "125"] [])) := by
  have hexit : Args (shell (Remote.host work) depth) s [bare "exit", bare "125"] ["exit".toList, "125".toList] :=
    args_cons rfl (means_bare _) (args_cons rfl (means_bare _) args_nil)
  exact ends_exit hexit rfl he

/-- A command that changes nothing of itself. -/
theorem ends_quiet (negated : Bool) {words : List Word} {name : Text} {args : List Text}
    (hrunning : s.world.running = true) (hargs : Args (shell (Remote.host work) depth) s words (name :: args))
    (hname : Remote.Name.of name = some .umask ∨ Remote.Name.of name = some .mkdir) (hexit : name ≠ "exit".toList) :
    Ends (fun s' _ => Wrong [] s s')
      (fun s' n => ∃ m, n = pipelineStatus negated m ∧ Kept [] s s' ∧
        (m = 0 → s'.world.troubled = s.world.troubled) ∧ (m ≠ 0 → s'.world.troubled = true))
      ((shell (Remote.host work) (depth + 1)).pipeline s (simpleCommand negated words [])) := by
  have hquiet := Remote.tried_quiet work hrunning hname args
  refine ends_call hargs hexit hquiet.stopped fun hgoes => ?_
  generalize (Remote.host work).call s.world (name :: args) [] = r at hquiet hgoes
  by_cases hstatus : r.status = 0
  · obtain ⟨hapart, hruns, htroubled⟩ := hquiet.worked hgoes hstatus
    exact ⟨r.status, rfl, ⟨rfl, rfl, hruns, hapart⟩, fun _ => htroubled, fun hne => absurd hstatus hne⟩
  · obtain ⟨hapart, htroubled, hruns⟩ := hquiet.failed hgoes hstatus
    exact ⟨r.status, rfl, ⟨rfl, rfl, hruns, hapart⟩, fun hzero => absurd hzero hstatus, fun _ => htroubled⟩

theorem ends_umask (hrunning : s.world.running = true) (huntroubled : s.world.troubled = false)
    (h : Progress dir command started status finished recorded s.world) (hran : status.isSome → started = true)
    (hrecorded : recorded = true → status.isSome ∧ finished = true) :
    Ends (Final dir command) (fun s' _ => Kept [] s s' ∧ s'.world.troubled = false)
      ((shell (Remote.host work) (depth + 1)).run s [umaskItem]) := by
  have hargs : Args (shell (Remote.host work) depth) s [bare "umask", bare "077"] ["umask".toList, "077".toList] :=
    args_cons rfl (means_bare _) (args_cons rfl (means_bare _) args_nil)
  have hfinal {s' : Session Remote} {n : Nat} (hwrong : Wrong [] s s') : Final dir command s' n :=
    .of_wrong hwrong h hran hrecorded (nil_not_markers dir) n
  have humask := (ends_quiet false hrunning hargs (.inl (by decide)) (by decide)).mono
    (fun s' n hwrong => hfinal (n := n) hwrong) (fun s' n hn => hn)
  refine humask.or ?_ ?_
  · rintro s' ⟨m, hm, hkept, hsame, -⟩
    exact ⟨hkept, (hsame hm.symm).trans huntroubled⟩
  · rintro s' n hn ⟨m, hm, hkept, -, hwrong⟩
    have hne : m ≠ 0 := fun hzero => hn (by rw [hm, hzero]; rfl)
    exact ends_exit125 (hfinal ⟨hkept.apart, hwrong hne⟩)

theorem ends_mkdir (h : Stage dir command started status finished recorded s) (hran : status.isSome → started = true)
    (hrecorded : recorded = true → status.isSome ∧ finished = true) :
    Ends (Final dir command)
      (fun s' _ => Kept [] s s' ∧ Stage dir command started status finished recorded s')
      ((shell (Remote.host work) (depth + 2)).run s [mkdirItem]) := by
  have hargs : Args (shell (Remote.host work) depth) s [bare "mkdir", bare "-p", bare "--", param "base"]
      ["mkdir".toList, "-p".toList, "--".toList, dir] :=
    args_cons rfl (means_bare _) (args_cons rfl (means_bare _) (args_cons rfl (means_bare _)
      (args_cons rfl (means_parameter h.base true) args_nil)))
  have hfinal {s' : Session Remote} {n : Nat} (hwrong : Wrong [] s s') : Final dir command s' n :=
    .of_wrong hwrong h.progress hran hrecorded (nil_not_markers dir) n
  have hmkdir := (ends_quiet true h.running hargs (.inr (by decide)) (by decide)).mono
    (fun s' n hwrong => hfinal (n := n) hwrong) (fun s' n hn => hn)
  refine ends_if hmkdir.single ?_ ?_
  · rintro s' ⟨m, hm, hkept, -, hwrong⟩
    have hne : m ≠ 0 := by
      rintro rfl
      cases hm
    exact (ends_exit125 (hfinal ⟨hkept.apart, hwrong hne⟩)).single
  · rintro s' n hn ⟨m, hm, hkept, hsame, -⟩
    have hzero : m = 0 := by
      by_contra hne
      exact hn (hm.trans (if_neg hne))
    refine ⟨hkept.withLast 0, ?_, hkept.running, (hsame hzero).trans h.untroubled,
      h.progress.apart hkept.apart (nil_not_markers dir)⟩
    exact (parameter_congr hkept.vars rfl).trans h.base

/-- A variable is set to the path of a file of its own. -/
theorem ends_ownItem (own name : String) {Q : Session Remote → Nat → Prop} {E : Session Remote → Nat → Prop}
    (hbase : s.parameter "base".toList = some dir)
    (hq : Q { s with vars := Function.update s.vars own.toList (some (inDir dir (name ++ ".tmp.") ++ s.pid)), last := 0 } 0) :
    Ends E Q ((shell (Remote.host work) (depth + 1)).run s [ownItem own name]) := by
  have hmeans : Means (shell (Remote.host work) depth) s (ownFile name) (inDir dir (name ++ ".tmp.") ++ s.pid) :=
    (means_inBase _ hbase).append (means_parameter rfl true)
  exact ends_assignment hmeans hq

/-- What `ends_record` does for a run: the marker is there, or the run has been cut off. -/
theorem ends_marker {words remove : List Word} {own name : String} {path call : Text} {args paths : List Text}
    {prints : Text → Prop} (h : Stage dir command started status finished recorded s)
    (hran : status.isSome → started = true) (hrecorded : recorded = true → status.isSome ∧ finished = true)
    (hlong : 9 ≤ dir.length) (hown : s.parameter own.toList = some path)
    (howned : isNameStart (own.toList.headD '0') = true) (hpath : path ∈ paths) (hinside : dir <+: path)
    (hlonger : dir ≠ path) (hmarkers : ∀ p ∈ markers dir, p ∉ paths)
    (hargs : Args (shell (Remote.host work) depth) s words (call :: args)) (hcall : call ≠ "exit".toList)
    (hprints : ∀ r : Remote, r.running = true → Tried r [] (fun r' output => Apart [] r r' ∧ prints output)
      ((Remote.host work).call r (call :: args) []))
    (hremove : ∀ s' : Session Remote, s'.vars = s.vars → Args (shell (Remote.host work) depth) s' remove paths) :
    Ends (Final dir command)
      (fun s' _ => Kept (inDir dir name :: paths) s s' ∧ s'.world.troubled = false ∧
        ∃ text, prints text ∧ s'.world.files (inDir dir name) = some text)
      ((shell (Remote.host work) (depth + 2)).run s [recordItem words own name remove]) := by
  have hnull : path ≠ "/dev/null".toList := by
    rintro rfl
    have hle := hinside.length_le
    have hnine : "/dev/null".toList.length = 9 := by decide
    exact hlonger (hinside.eq_of_length (by omega))
  refine (ends_record h.running hown howned h.base hpath hnull hargs hcall hprints hremove).mono ?_ ?_
  · intro s' n hwrong
    exact .of_wrong hwrong h.progress hran hrecorded hmarkers n
  · rintro s' _ ⟨hkept, hsame, hfile⟩
    exact ⟨hkept, hsame.trans h.untroubled, hfile⟩

/-- The command is run, in a shell of its own. -/
theorem ends_sh (h : Stage dir command true none false false s)
    (hwork : ∀ r, ∀ p ∈ markers dir, (work command r).world.files p = r.files p) :
    Ends (Final dir command)
      (fun s' n => s'.last = n ∧ s'.pid = s.pid ∧ Stage dir command true (some n) false false s')
      ((shell (Remote.host work) (depth + 1)).run s [shItem command]) := by
  have hargs : Args (shell (Remote.host work) depth) s [bare "sh", bare "-lc", quotedWord command]
      ["sh".toList, "-lc".toList, command] :=
    args_cons rfl (means_bare _) (args_cons rfl (means_bare _)
      (args_cons (isField_quotedWord _) (means_quoted _) args_nil))
  have hcall : (Remote.host work).call s.world ["sh".toList, "-lc".toList, command] [] =
      ⟨{ (work command s.world).world with
          troubled := s.world.troubled, ran := s.world.ran ++ [(command, (work command s.world).status)] },
        (work command s.world).status, (work command s.world).output, (work command s.world).errors,
        !(work command s.world).world.running⟩ :=
    Remote.call_eq h.running (by decide : Remote.Name.of "sh".toList = some .sh) _ _
  have hprogress : Progress dir command true (some (work command s.world).status) false false
      ((Remote.host work).call s.world ["sh".toList, "-lc".toList, command] []).world := by
    have hfile (p : Text) (hp : p ∈ markers dir) :
        ((Remote.host work).call s.world ["sh".toList, "-lc".toList, command] []).world.files p = s.world.files p := by
      rw [hcall]
      exact hwork s.world p hp
    refine ⟨?_, fun _ => ?_, fun h => (Bool.false_ne_true h).elim, ?_⟩
    · rw [hcall, h.progress.ran]
      rfl
    · rw [hfile _ (by simp [markers])]
      exact h.progress.started rfl
    · rw [hfile _ (by simp [markers])]
      exact h.progress.exitCode
  refine Ends.single (ends_call hargs (by decide) (fun hended => ?_) fun hgoes => ?_)
  · refine ⟨hprogress.sound (fun _ => rfl) fun h => (Bool.false_ne_true h).elim, fun _ hrunning => ?_⟩
    rw [hcall] at hended hrunning
    simp only [Bool.not_eq_true'] at hended
    rw [hended] at hrunning
    cases hrunning
  · rw [hcall] at hgoes hprogress ⊢
    refine ⟨rfl, rfl, ?_, by simpa using hgoes, h.untroubled, hprogress⟩
    exact (parameter_congr rfl rfl).trans h.base

theorem parameter_update_self (name value : Text) (hname : isNameStart (name.headD '0') = true) (n : Nat) :
    Session.parameter { s with vars := Function.update s.vars name (some value), last := n } name = some value := by
  rw [parameter_variable hname]
  show some ((Function.update s.vars name (some value) name).getD []) = _
  rw [Function.update_self]
  rfl

theorem parameter_update_ne {name other value : Text} (hne : other ≠ name)
    (hother : isNameStart (other.headD '0') = true) (n : Nat) :
    Session.parameter { s with vars := Function.update s.vars name (some value), last := n } other =
      s.parameter other := by
  rw [parameter_variable hother, parameter_variable hother]
  show some ((Function.update s.vars name (some value) other).getD []) = _
  rw [Function.update_of_ne hne]

theorem Stage.update {name value : Text} (h : Stage dir command started status finished recorded s)
    (hname : name ≠ "base".toList) (n : Nat) :
    Stage dir command started status finished recorded
      { s with vars := Function.update s.vars name (some value), last := n } :=
  ⟨(parameter_update_ne hname.symm (by decide) n).trans h.base, h.running, h.untroubled, h.progress⟩

/-- The paths of the markers are apart. -/
theorem inDir_ne (dir : Text) {name other : String} (hne : ("/" ++ name).toList ≠ ("/" ++ other).toList) :
    inDir dir name ≠ inDir dir other := fun heq => hne (List.append_cancel_left heq)

/-- Another marker is as it was. -/
theorem Kept.marker {paths : List Text} {s' : Session Remote} {name : String}
    (h : Kept (inDir dir name :: paths) s s') (other : String) (hmarkers : ∀ p ∈ markers dir, p ∉ paths)
    (hother : inDir dir other ∈ markers dir) (hne : ("/" ++ other).toList ≠ ("/" ++ name).toList) :
    s'.world.files (inDir dir other) = s.world.files (inDir dir other) := by
  refine h.apart.files _ fun hmem => ?_
  rcases List.mem_cons.mp hmem with heq | hmem
  · exact inDir_ne dir hne heq
  · exact hmarkers _ hother hmem

theorem prefix_own (dir pid : Text) (name : String) : dir <+: inDir dir name ++ pid :=
  ⟨("/" ++ name).toList ++ pid, by simp [inDir]⟩

theorem ne_own (dir pid : Text) (name : String) : dir ≠ inDir dir name ++ pid := by
  intro heq
  have hlength := congrArg List.length heq
  simp [inDir] at hlength

theorem args_date : Args (shell (Remote.host work) depth) s dateWords ["date".toList, "+%s".toList] :=
  args_cons rfl (means_bare _) (args_cons rfl (means_bare _) args_nil)

theorem ends_setUp (h : Stage dir command false none false false s) (hlong : 9 ≤ dir.length) :
    Ends (Final dir command) (fun s' _ => s'.pid = s.pid ∧ Stage dir command true none false false s')
      ((shell (Remote.host work) (depth + 2)).run s setUpScript) := by
  show Ends _ _ (Runner.run _ s ([mkdirItem] ++ ([ownItem "started_tmp" "started_at_s"] ++
    [recordItem dateWords "started_tmp" "started_at_s" [param "started_tmp"]])))
  refine (ends_mkdir h (by simp) (by simp)).seq ?_ (by simp)
  rintro s₁ - ⟨hkept₁, h₁⟩
  refine Ends.seq (R := fun s' _ => s'.pid = s₁.pid ∧
      s'.parameter "started_tmp".toList = some (inDir dir ("started_at_s" ++ ".tmp.") ++ s₁.pid) ∧
      Stage dir command false none false false s')
    (ends_ownItem _ _ h₁.base ⟨rfl, parameter_update_self _ _ (by decide) 0, h₁.update (by decide) 0⟩) ?_ (by simp)
  rintro s₂ - ⟨hpid₂, hown, h₂⟩
  have hremove (s' : Session Remote) (hvars : s'.vars = s₂.vars) :
      Args (shell (Remote.host work) depth) s' [param "started_tmp"] [inDir dir ("started_at_s" ++ ".tmp.") ++ s₁.pid] :=
    args_cons rfl (means_parameter ((parameter_congr hvars (by decide)).trans hown) true) args_nil
  have hmarkers : ∀ p ∈ markers dir, p ∉ [inDir dir ("started_at_s" ++ ".tmp.") ++ s₁.pid] := by
    intro p hp hmem
    rw [List.mem_singleton.mp hmem] at hp
    exact own_not_marker dir s₁.pid (by simp) hp
  refine (ends_marker h₂ (by simp) (by simp) hlong hown (by decide) List.mem_cons_self (prefix_own _ _ _) (ne_own dir s₁.pid _) hmarkers
    args_date (by decide) (fun r hr => Remote.tried_date work hr) hremove).mono (fun _ _ hfinal => hfinal) ?_
  rintro s₃ _ ⟨hkept, huntroubled, text, ⟨n, rfl⟩, hfile⟩
  refine ⟨hkept.pid.trans (hpid₂.trans hkept₁.pid), (parameter_congr hkept.vars (by decide)).trans h₂.base,
    hkept.running, huntroubled, hkept.apart.ran.trans h₂.progress.ran, fun _ => ⟨n, hfile⟩,
    fun h => (Bool.false_ne_true h).elim, ?_⟩
  rw [hkept.marker "exit_code" hmarkers (by simp [markers]) (by decide)]
  exact h₂.progress.exitCode

theorem tried_print (work : List Char → Remote → Reply Remote) {r : Remote} (hrunning : r.running = true) (n : Nat) :
    Tried r [] (fun r' output => Apart [] r r' ∧ output = decimalLine n)
      ((Remote.host work).call r ("printf".toList :: ["%s\\n".toList, Nat.toDigits 10 n]) []) := by
  rw [Remote.call_eq hrunning (by decide : Remote.Name.of "printf".toList = some .printf)]
  have houtput : r.printf ["%s\\n".toList, Nat.toDigits 10 n] = r.reply 0 (decimalLine n) := rfl
  show Tried r _ _ (r.printf ["%s\\n".toList, Nat.toDigits 10 n])
  rw [houtput]
  exact Remote.tried_reply ⟨.refl _ _, rfl⟩ hrunning rfl

theorem exitStatus_toDigits (last n : Nat) : exitStatus last [Nat.toDigits 10 n] = some (n % 256) := by
  have hdigits : (Nat.toDigits 10 n).all Char.isDigit = true :=
    List.all_eq_true.mpr fun c hc => Nat.isDigit_of_mem_toDigits (by decide) (by decide) hc
  rw [exitStatus, if_pos ⟨Nat.toDigits_ne_nil, hdigits⟩, Nat.ofDigitChars_ten_toDigits]

/-- What is recorded behind the command. -/
theorem ends_recordScript {n : Nat} (h : Stage dir command true (some n) false false s) (hlast : s.last = n)
    (hlong : 9 ≤ dir.length) :
    Ends (Final dir command)
      (fun s' _ => s'.parameter "code".toList = some (Nat.toDigits 10 n) ∧ Stage dir command true (some n) true true s')
      ((shell (Remote.host work) (depth + 2)).run s recordScript) := by
  show Ends _ _ (Runner.run _ s ([codeItem] ++ ([ownItem "finished_tmp" "finished_at_s"] ++
    ([ownItem "exit_tmp" "exit_code"] ++
      ([recordItem dateWords "finished_tmp" "finished_at_s" [param "finished_tmp", param "exit_tmp"]] ++
        [recordItem printWords "exit_tmp" "exit_code" [param "exit_tmp"]])))))
  have hcode : Means (shell (Remote.host work) (depth + 1)) s [.parameter false ['?']] (Nat.toDigits 10 n) :=
    means_parameter (by rw [Session.parameter, if_pos rfl, hlast]) false
  refine Ends.seq (R := fun s' _ => s'.parameter "code".toList = some (Nat.toDigits 10 n) ∧
      Stage dir command true (some n) false false s')
    (ends_assignment hcode ⟨parameter_update_self _ _ (by decide) 0, h.update (by decide) 0⟩) ?_ (by simp)
  rintro s₁ - ⟨hcode₁, h₁⟩
  refine Ends.seq (R := fun s' _ => s'.parameter "code".toList = some (Nat.toDigits 10 n) ∧ s'.pid = s₁.pid ∧
      s'.parameter "finished_tmp".toList = some (inDir dir ("finished_at_s" ++ ".tmp.") ++ s₁.pid) ∧
      Stage dir command true (some n) false false s')
    (ends_ownItem _ _ h₁.base ⟨(parameter_update_ne (by decide) (by decide) 0).trans hcode₁, rfl,
      parameter_update_self _ _ (by decide) 0, h₁.update (by decide) 0⟩) ?_ (by simp)
  rintro s₂ - ⟨hcode₂, hpid₂, hown₂, h₂⟩
  refine Ends.seq (R := fun s' _ => s'.parameter "code".toList = some (Nat.toDigits 10 n) ∧
      s'.parameter "finished_tmp".toList = some (inDir dir ("finished_at_s" ++ ".tmp.") ++ s₁.pid) ∧
      s'.parameter "exit_tmp".toList = some (inDir dir ("exit_code" ++ ".tmp.") ++ s₂.pid) ∧
      Stage dir command true (some n) false false s')
    (ends_ownItem _ _ h₂.base ⟨(parameter_update_ne (by decide) (by decide) 0).trans hcode₂,
      (parameter_update_ne (by decide) (by decide) 0).trans hown₂, parameter_update_self _ _ (by decide) 0,
      h₂.update (by decide) 0⟩) ?_ (by simp)
  rintro s₃ - ⟨hcode₃, hfinished, hexit, h₃⟩
  have hmarkers : ∀ p ∈ markers dir, p ∉ [inDir dir ("finished_at_s" ++ ".tmp.") ++ s₁.pid,
      inDir dir ("exit_code" ++ ".tmp.") ++ s₂.pid] := by
    intro p hp hmem
    simp only [List.mem_cons, List.not_mem_nil, or_false] at hmem
    rcases hmem with rfl | rfl
    · exact own_not_marker dir s₁.pid (by simp) hp
    · exact own_not_marker dir s₂.pid (by simp) hp
  have hremove (s' : Session Remote) (hvars : s'.vars = s₃.vars) :
      Args (shell (Remote.host work) depth) s' [param "finished_tmp", param "exit_tmp"]
        [inDir dir ("finished_at_s" ++ ".tmp.") ++ s₁.pid, inDir dir ("exit_code" ++ ".tmp.") ++ s₂.pid] :=
    args_cons rfl (means_parameter ((parameter_congr hvars (by decide)).trans hfinished) true)
      (args_cons rfl (means_parameter ((parameter_congr hvars (by decide)).trans hexit) true) args_nil)
  refine Ends.seq (R := fun s' _ => s'.parameter "code".toList = some (Nat.toDigits 10 n) ∧
      s'.parameter "exit_tmp".toList = some (inDir dir ("exit_code" ++ ".tmp.") ++ s₂.pid) ∧
      Stage dir command true (some n) true false s')
    ((ends_marker h₃ (by simp) (by simp) hlong hfinished (by decide) List.mem_cons_self (prefix_own _ _ _)
      (ne_own dir s₁.pid _) hmarkers args_date (by decide) (fun r hr => Remote.tried_date work hr) hremove).mono
      (fun _ _ hfinal => hfinal) ?_) ?_ (by simp)
  · rintro s₄ _ ⟨hkept, huntroubled, text, ⟨m, rfl⟩, hfile⟩
    refine ⟨(parameter_congr hkept.vars (by decide)).trans hcode₃, (parameter_congr hkept.vars (by decide)).trans hexit,
      (parameter_congr hkept.vars (by decide)).trans h₃.base, hkept.running, huntroubled,
      hkept.apart.ran.trans h₃.progress.ran, fun _ => ?_, fun _ => ⟨m, hfile⟩, ?_⟩
    · rw [hkept.marker "started_at_s" hmarkers (by simp [markers]) (by decide)]
      exact h₃.progress.started rfl
    · rw [hkept.marker "exit_code" hmarkers (by simp [markers]) (by decide)]
      exact h₃.progress.exitCode
  · rintro s₄ - ⟨hcode₄, hexit₄, h₄⟩
    have hmarkers₄ : ∀ p ∈ markers dir, p ∉ [inDir dir ("exit_code" ++ ".tmp.") ++ s₂.pid] :=
      fun p hp hmem => hmarkers p hp (List.mem_cons_of_mem _ hmem)
    have hremove₄ (s' : Session Remote) (hvars : s'.vars = s₄.vars) :
        Args (shell (Remote.host work) depth) s' [param "exit_tmp"] [inDir dir ("exit_code" ++ ".tmp.") ++ s₂.pid] :=
      args_cons rfl (means_parameter ((parameter_congr hvars (by decide)).trans hexit₄) true) args_nil
    have hprint : Args (shell (Remote.host work) depth) s₄ printWords
        ("printf".toList :: ["%s\\n".toList, Nat.toDigits 10 n]) :=
      args_cons rfl (means_bare _) (args_cons rfl (means_quoted _)
        (args_cons rfl (means_parameter hcode₄ true) args_nil))
    refine (ends_marker h₄ (by simp) (by simp) hlong hexit₄ (by decide) List.mem_cons_self (prefix_own _ _ _)
      (ne_own dir s₂.pid _) hmarkers₄ hprint (by decide) (fun r hr => tried_print work hr n) hremove₄).mono
      (fun _ _ hfinal => hfinal) ?_
    rintro s₅ _ ⟨hkept, huntroubled, text, rfl, hfile⟩
    refine ⟨(parameter_congr hkept.vars (by decide)).trans hcode₄, (parameter_congr hkept.vars (by decide)).trans h₄.base,
      hkept.running, huntroubled, hkept.apart.ran.trans h₄.progress.ran, fun _ => ?_, fun _ => ?_, hfile⟩
    · rw [hkept.marker "started_at_s" hmarkers₄ (by simp [markers]) (by decide)]
      exact h₄.progress.started rfl
    · rw [hkept.marker "finished_at_s" hmarkers₄ (by simp [markers]) (by decide)]
      exact h₄.progress.finished rfl

/-! ## The run -/

/-- The directory of a run. -/
def runDir (s : Session Remote) (id : RunId) : Text :=
  (s.vars "HOME".toList).getD [] ++ ("/.cache/kodework/runs/".toList ++ (History.runKey id).toList)

theorem runDir_long (s : Session Remote) (id : RunId) : 9 ≤ (runDir s id).length := by
  have hlength : "/.cache/kodework/runs/".toList.length = 22 := by decide
  rw [runDir, List.length_append, List.length_append, hlength]
  omega

theorem ends_base {id : RunId} {E Q : Session Remote → Nat → Prop}
    (hq : Q { s with vars := Function.update s.vars "base".toList (some (runDir s id)), last := 0 } 0) :
    Ends E Q ((shell (Remote.host work) (depth + 1)).run s [baseItem (History.runKey id).toList]) := by
  have hmeans : Means (shell (Remote.host work) depth) s
      (List.flatten [param "HOME", quoted "/.cache/kodework/runs/"] ++ quotedWord (History.runKey id).toList)
      (runDir s id) := by
    have hhome : Means (shell (Remote.host work) depth) s (param "HOME") ((s.vars "HOME".toList).getD []) :=
      means_parameter (parameter_variable (by decide)) true
    have hword : List.flatten [param "HOME", quoted "/.cache/kodework/runs/"] ++ quotedWord (History.runKey id).toList =
        param "HOME" ++ (quoted "/.cache/kodework/runs/" ++ quotedWord (History.runKey id).toList) := by simp
    rw [hword]
    exact hhome.append ((means_quoted _).append (means_quoted _))
  exact Ends.single (ends_assignment hmeans hq)

/-- The run script on any machine, whatever fails and wherever it is cut off. -/
theorem ends_runScript {id : RunId} (hrunning : s.world.running = true) (huntroubled : s.world.troubled = false)
    (hran : s.world.ran = []) (hfresh : s.world.files (inDir (runDir s id) "exit_code") = none)
    (hwork : ∀ r, ∀ p ∈ markers (runDir s id), (work command r).world.files p = r.files p) :
    Ends (Final (runDir s id) command) (fun _ _ => False)
      ((shell (Remote.host work) (depth + 2)).run s (runScript command (History.runKey id).toList)) := by
  have hprogress : Progress (runDir s id) command false none false false s.world := ⟨hran, by simp, by simp, hfresh⟩
  refine (ends_umask hrunning huntroubled hprogress (by simp) (by simp)).seq ?_ (by simp)
  rintro s₁ - ⟨hkept, huntroubled₁⟩
  have hdir : runDir s₁ id = runDir s id := by rw [runDir, runDir, hkept.vars]
  refine Ends.seq (R := fun s' _ => Stage (runDir s id) command false none false false s') ?_ ?_ (by simp)
  · refine ends_base ⟨?_, hkept.running, huntroubled₁, hprogress.apart hkept.apart (nil_not_markers _)⟩
    rw [← hdir]
    exact parameter_update_self _ _ (by decide) 0
  rintro s₂ - h₂
  refine (ends_setUp h₂ (runDir_long s id)).seq ?_ (by simp)
  rintro s₃ - ⟨-, h₃⟩
  refine (ends_sh h₃ hwork).seq ?_ (by simp)
  rintro s₄ n ⟨hlast, -, h₄⟩
  refine (ends_recordScript h₄ hlast (runDir_long s id)).seq ?_ (by simp)
  rintro s₅ - ⟨hcode, h₅⟩
  have hargs : Args (shell (Remote.host work) (depth + 1)) s₅ [bare "exit", param "code"]
      ["exit".toList, Nat.toDigits 10 n] :=
    args_cons rfl (means_bare _) (args_cons rfl (means_parameter hcode true) args_nil)
  refine Ends.single (ends_exit hargs (exitStatus_toDigits s₅.last n) ?_)
  refine ⟨h₅.progress.sound (fun _ => rfl) (fun _ => ⟨rfl, rfl⟩), fun _ _ => ⟨n, ?_, rfl⟩⟩
  exact ⟨h₅.progress.ran, h₅.progress.exitCode, h₅.progress.started rfl, h₅.progress.finished rfl⟩

/-- A run leaves an exit code only with all that belongs to it, and with nothing in its way
it leaves that of the command and ends with it. -/
theorem runScript_final {id : RunId} {script : Text} (hscript : buildRunScript command (History.runKey id).toList = .ok script)
    (hrunning : s.world.running = true) (huntroubled : s.world.troubled = false) (hran : s.world.ran = [])
    (hfresh : s.world.files (inDir (runDir s id) "exit_code") = none)
    (hwork : ∀ r, ∀ p ∈ markers (runDir s id), (work command r).world.files p = r.files p) :
    (execute (Remote.host work) s script).ended = true ∧
      Final (runDir s id) command (execute (Remote.host work) s script).state
        (execute (Remote.host work) s script).status := by
  have hlength : ∃ depth, script.length = depth + 2 := by
    obtain ⟨q, -, rfl⟩ := buildRunScript_eq hscript
    have humask : "umask 077 || exit 125; ".toList.length = 23 := by decide
    rw [List.length_append, humask]
    exact ⟨_, Nat.add_comm 23 _ |>.trans (Nat.add_assoc _ 21 2).symm⟩
  obtain ⟨depth, hdepth⟩ := hlength
  rw [execute, hdepth, read_runScript hscript]
  have hends := @ends_runScript work depth s command id hrunning huntroubled hran hfresh hwork
  cases hended : (Runner.run (shell (Remote.host work) (depth + 2)) s
      (runScript command (History.runKey id).toList)).ended with
  | true => exact ⟨rfl, hends.stopped hended⟩
  | false => exact (hends.goes hended).elim

/-- Every command ends with 3 and changes nothing. -/
def endsWith3 (_ : Text) (r : Remote) : Reply Remote := r.reply 3 []

def freshRemote : Remote :=
  { files := fun _ => none, order := List.length, sessions := fun _ => none, dates := [1700000000, 1700000060],
    fates := [], running := true
    troubled := false, ran := [] }

def freshSession : Session Remote :=
  { vars := fun name => if name = "HOME".toList then some "/home/u".toList else none, last := 0, pid := "4711".toList
    world := freshRemote }

theorem runScript_final_make :
    ∃ script, buildRunScript "make".toList (History.runKey ⟨1⟩).toList = .ok script ∧
      (execute (Remote.host endsWith3) freshSession script).ended = true ∧
        Final (runDir freshSession ⟨1⟩) "make".toList (execute (Remote.host endsWith3) freshSession script).state
          (execute (Remote.host endsWith3) freshSession script).status :=
  ⟨_, rfl, runScript_final rfl rfl rfl rfl rfl fun _ _ _ => rfl⟩

end KW.Actions
