import KodeWork.Framework.Shell.Environment
import KodeWork.Proof.Shell.Guard

/-!
# What the programs of an action are given

The line of an action assigns the variables of its `env` and goes on with the command.
Nothing exports them, so the programs of the command are given those variables only that
the shell exported before the line (`environment_iff`); behind a first list in the
background, not even with the new value.

What the command itself does to a variable is its own, so `Delivered` asks for the value
where it has touched the variable.
-/

namespace KW.Actions

open KW.Shell

universe u v

variable {π : Type} {G : Grammar π} {σ : Type}

/-! ## What a command finds -/

/-- The shell behind the commands before the user's; what is no more of the assignments is marked. -/
def prepared (S : VariableShell G σ) (s : σ) (action : Action) :
    Outcome (σ × VariableShell.Marks) (Environment × VariableShell.Marks) :=
  let o := S.runner.guards s ((guardWords action).map G.simple)
  { state := (o.state, fun name => S.own name || (action.cwd.isSome && setByCd name))
    status := o.status, ended := o.ended, events := [] }

/-- The run of the first list of the command. -/
def firstList (S : VariableShell G σ) (s : σ) (action : Action) (list : AndOr π) :
    Outcome (σ × VariableShell.Marks) (Environment × VariableShell.Marks) :=
  S.marked.andOr (prepared S s action) ((.and, list.first) :: list.rest)

/-- Each program is given each entry: by what the command did to the variable, or, if it
did nothing to it, because of what is so of the entry. -/
def EachGiven (env : List (Text × Text)) (starts : List (Environment × VariableShell.Marks))
    (untouched : Text × Text → Prop) : Prop :=
  ∀ start ∈ starts, ∀ entry ∈ env,
    if start.2 entry.1 then start.1 entry.1 = some entry.2 else untouched entry

/-- The variables are exported already, where the command leaves them as they are. Behind
a first list in the background they also have the value already. -/
def Delivered (S : VariableShell G σ) (s : σ) (action : Action) : Program π → Prop
  | [] => True
  | i :: rest =>
    if i.background then
      EachGiven action.env (firstList S s action i.list).events (fun entry => S.exports s entry.1) ∧
        EachGiven action.env
          (S.marked.items { state := (S.runner.launched s, S.own), status := 0, ended := false, events := [] }
            rest).events
          fun entry => (S.vars s entry.1).passed = some entry.2
    else
      EachGiven action.env (S.marked.items (firstList S s action i.list) rest).events
        fun entry => S.exports s entry.1

/-! ## The commands before it -/

def cdOperands (path : Text) : List Word :=
  if Text.startsWith path ['~', '/'] then [[.parameter true "HOME".toList], quotedWord (path.drop 2)]
  else if path = ['~'] then [[.parameter true "HOME".toList]]
  else [quotedWord path]

theorem cdWords_eq (path : Text) : cdWords path = (cdOperands path).map cdInto := by
  rw [cdWords, cdOperands]
  split
  · rfl
  · split <;> rfl

theorem isName_of_validEnvKey {key : Text} (h : validEnvKey key = true) : isName key = true := by
  cases key with
  | nil => cases h
  | cons first rest =>
    simp only [validEnvKey, isName, isNameStart, isNameChar, Bool.and_eq_true, List.all_eq_true, Bool.or_eq_true,
      beq_iff_eq, decide_eq_true_eq] at h ⊢
    exact h

theorem isName_of_envPart {entry : Text × Text} {part : Text} (h : envPart entry = .ok part) :
    isName entry.1 = true := by
  rw [envPart] at h
  split at h
  · case isTrue hkey => exact isName_of_validEnvKey hkey
  · cases h

theorem isName_of_ok {action : Action} {line : Text} (h : buildActionCommand action = .ok line) :
    ∀ entry ∈ action.env, isName entry.1 = true := by
  rw [buildActionCommand] at h
  obtain ⟨env, henv, -⟩ := ok_of_bind h
  have hparts := (forall₂_of_mapM henv).imp fun _ _ hpart => And.intro (isName_of_envPart hpart) hpart
  exact (List.forall₂_and_left _ _).mp hparts |>.1

theorem guards_eq_changes (S : VariableShell G σ) (s : σ) (action : Action) :
    S.runner.guards s ((guardWords action).map G.simple) =
      S.runner.andOr
        (S.runner.andOr { state := s, status := 0, ended := false, events := [] }
          (VariableShell.assignments G action.env))
        (VariableShell.changes G ((action.cwd.map cdOperands).getD [])) := by
  have hcd : ((action.cwd.map cdWords).getD []) = ((action.cwd.map cdOperands).getD []).map cdInto := by
    cases action.cwd with
    | none => rfl
    | some path => exact cdWords_eq path
  rw [Runner.guards_eq, guardWords, hcd, ← Runner.andOr_append, List.map_append, List.map_append, List.map_map,
    List.map_map, List.map_map, List.map_map]
  rfl

/-- The commands before the user's start nothing. -/
theorem guards_events (S : VariableShell G σ) (s : σ) {action : Action} {line : Text}
    (h : buildActionCommand action = .ok line) :
    (S.runner.guards s ((guardWords action).map G.simple)).events = [] := by
  rw [guards_eq_changes, (VariableShell.changes_spec _ _).1]
  exact VariableShell.assignments_events (isName_of_ok h) rfl

/-- Behind them each variable has its value, and is exported if it was to be before. -/
theorem prepared_vars (S : VariableShell G σ) (s : σ) {action : Action} {line : Text}
    (h : buildActionCommand action = .ok line) (hkeys : (action.env.map Prod.fst).Nodup)
    (hended : (prepared S s action).ended = false) :
    ∀ entry ∈ action.env, (prepared S s action).state.2 entry.1 = false →
      S.vars (prepared S s action).state.1 entry.1 = ⟨some entry.2, S.exports s entry.1⟩ := by
  intro entry hentry hmark
  obtain ⟨hown, hcd⟩ := Bool.or_eq_false_iff.mp hmark
  replace hended : (S.runner.guards s ((guardWords action).map G.simple)).ended = false := hended
  show S.vars (S.runner.guards s ((guardWords action).map G.simple)).state entry.1 = _
  rw [guards_eq_changes] at hended ⊢
  generalize ho : S.runner.andOr _ (VariableShell.assignments G action.env) = o at hended ⊢
  have hopen : o.ended = false := by
    by_contra hclosed
    rw [S.runner.andOr_of_ended (Bool.not_eq_false _ ▸ hclosed)] at hended
    exact hclosed hended
  have hassigned : S.vars o.state entry.1 = ⟨some entry.2, S.exports s entry.1⟩ := by
    rw [← ho] at hopen ⊢
    exact (VariableShell.assignments_vars (isName_of_ok h) hkeys ⟨rfl, rfl, fun _ _ _ => rfl⟩ hopen).1 entry hentry
      hown
  rw [← hassigned]
  cases hcwd : action.cwd with
  | none => rfl
  | some path =>
    rw [hcwd] at hcd
    exact (VariableShell.changes_spec o (cdOperands path)).2 entry.1 hown hcd

/-! ## The programs of the command -/

/-- Where a start leaves a variable as it was, the value it is given is what `base` passes on. -/
theorem given_iff {S : VariableShell G σ} {base : List Char → Variable}
    {o : Outcome (σ × VariableShell.Marks) (Environment × VariableShell.Marks)} (h : S.Untouched base o)
    (env : List (Text × Text)) :
    (∀ e ∈ (VariableShell.unmark o).events, ∀ entry ∈ env, e entry.1 = some entry.2) ↔
      EachGiven env o.events fun entry => (base entry.1).passed = some entry.2 := by
  rw [VariableShell.unmark, List.forall_mem_map]
  refine forall₂_congr fun start hstart => forall₂_congr fun entry hentry => ?_
  split
  · rfl
  · case isFalse hmark => rw [h.events start hstart entry.1 (Bool.eq_false_iff.mpr hmark)]

/-- A variable behind the commands before the user's, that of an entry as the entry has it. -/
def assignedVar (S : VariableShell G σ) (s : σ) (action : Action) (name : List Char) : Variable :=
  match action.env.find? (·.1 == name) with
  | some entry => ⟨some entry.2, S.exports s entry.1⟩
  | none => S.vars (prepared S s action).state.1 name

theorem assignedVar_of_mem (S : VariableShell G σ) (s : σ) {action : Action}
    (hkeys : (action.env.map Prod.fst).Nodup) {entry : Text × Text} (hentry : entry ∈ action.env) :
    assignedVar S s action entry.1 = ⟨some entry.2, S.exports s entry.1⟩ := by
  rw [assignedVar]
  cases hfind : action.env.find? (·.1 == entry.1) with
  | none => simpa using List.find?_eq_none.mp hfind entry hentry
  | some found =>
    have hkey : found.1 = entry.1 := by simpa using List.find?_some hfind
    rw [List.inj_on_of_nodup_map hkeys (List.mem_of_find?_eq_some hfind) hentry hkey]

theorem untouched_prepared (S : VariableShell G σ) (s : σ) {action : Action} {line : Text}
    (h : buildActionCommand action = .ok line) (hkeys : (action.env.map Prod.fst).Nodup)
    (hended : (prepared S s action).ended = false) :
    S.Untouched (assignedVar S s action) (prepared S s action) := by
  refine ⟨fun name hmark => ?_, fun _ he => absurd he List.not_mem_nil⟩
  rw [assignedVar]
  cases hfind : action.env.find? (·.1 == name) with
  | none => rfl
  | some found =>
    have hkey : found.1 = name := by simpa using List.find?_some hfind
    subst hkey
    exact prepared_vars S s h hkeys hended found (List.mem_of_find?_eq_some hfind) hmark

/-- What runs in the shell of the assignments is given the variables it exported before. -/
theorem inside_iff (S : VariableShell G σ) (s : σ) {action : Action} {line : Text}
    (h : buildActionCommand action = .ok line) (hkeys : (action.env.map Prod.fst).Nodup) (list : AndOr π)
    (rest : Program π) :
    (∀ e ∈ (VariableShell.unmark (S.marked.items (firstList S s action list) rest)).events,
        ∀ entry ∈ action.env, e entry.1 = some entry.2) ↔
      EachGiven action.env (S.marked.items (firstList S s action list) rest).events
        fun entry => S.exports s entry.1 := by
  cases hended : (prepared S s action).ended with
  | true =>
    have hnone : S.marked.items (firstList S s action list) rest = prepared S s action := by
      rw [firstList, Runner.andOr_of_ended _ hended, Runner.items_of_ended _ hended]
    rw [hnone]
    exact iff_of_true (fun _ he => absurd he List.not_mem_nil) fun _ he => absurd he List.not_mem_nil
  | false =>
    have huntouched := ((untouched_prepared S s h hkeys hended).andOr ((.and, list.first) :: list.rest)).items rest
    refine (given_iff huntouched action.env).trans ?_
    refine forall₂_congr fun start _ => forall₂_congr fun entry hentry => ?_
    have hpassed : (assignedVar S s action entry.1).passed = some entry.2 ↔ S.exports s entry.1 = true := by
      rw [assignedVar_of_mem S s hkeys hentry, Variable.passed]
      cases S.exports s entry.1 <;> simp
    split
    · rfl
    · exact hpassed

theorem unmark_firstList (S : VariableShell G σ) (s : σ) {action : Action} {line : Text}
    (h : buildActionCommand action = .ok line) (list : AndOr π) :
    VariableShell.unmark (firstList S s action list) =
      S.runner.andOr (S.runner.guards s ((guardWords action).map G.simple)) ((.and, list.first) :: list.rest) := by
  have hprepared : VariableShell.unmark (prepared S s action) =
      S.runner.guards s ((guardWords action).map G.simple) := by
    rw [VariableShell.unmark, prepared, List.map_nil, ← guards_events S s h]
  rw [firstList, VariableShell.unmark_andOr, hprepared]

/-- Every program the line starts is given the whole `env`, exactly if the variables were
exported before the line, or the command itself sees to it. -/
theorem environment_iff (S : VariableShell G σ) (s : σ) {action : Action} {line : Text}
    (hline : buildActionCommand action = .ok line) (hkeys : (action.env.map Prod.fst).Nodup) :
    (∀ e ∈ (S.runner.run s (G.read line)).events, ∀ entry ∈ action.env, e entry.1 = some entry.2) ↔
      Delivered S s action (G.read (trimEnd action.command)) := by
  cases hguards : (guardWords action).map G.simple with
  | nil =>
    -- there is no entry
    have henv : action.env = [] := by
      have hwords := List.append_eq_nil_iff.mp (List.map_eq_nil_iff.mp hguards)
      exact List.map_eq_nil_iff.mp hwords.1
    have hgiven (starts : List (Environment × VariableShell.Marks)) (p : Text × Text → Prop) :
        EachGiven action.env starts p := by
      rw [henv]
      exact fun _ _ _ hentry => absurd hentry List.not_mem_nil
    have hall (es : List Environment) : ∀ e ∈ es, ∀ entry ∈ action.env, e entry.1 = some entry.2 := by
      rw [henv]
      exact fun _ _ _ hentry => absurd hentry List.not_mem_nil
    refine iff_of_true (hall _) ?_
    cases G.read (trimEnd action.command) with
    | nil => trivial
    | cons i rest =>
      rw [Delivered]
      split
      · exact ⟨hgiven _ _, hgiven _ _⟩
      · exact hgiven _ _
  | cons p chain =>
    have hne : guardWords action ≠ [] := by
      intro hnil
      rw [hnil] at hguards
      cases hguards
    rw [read_line G hline hne, hguards]
    cases G.read (trimEnd action.command) with
    | nil =>
      rw [prependAll_nil]
      exact iff_of_true (fun _ he => absurd he List.not_mem_nil) trivial
    | cons i rest =>
      rw [prependAll_cons_cons, Runner.run_cons]
      generalize hi : ({ i with list := _ } : Item π) = i'
      have hlist : S.runner.list s i'.list = VariableShell.unmark (firstList S s action i.list) := by
        rw [unmark_firstList S s hline, hguards, ← hi]
        exact S.runner.list_prepend s p chain i.list
      have hback : i'.background = i.background := by rw [← hi]
      rw [Delivered, Runner.item, hback, hlist]
      split
      · -- the assignments are made in the shell in the background only
        have hrest : S.runner.items
            { state := S.runner.launched s, status := 0, ended := false,
              events := (VariableShell.unmark (firstList S s action i.list)).events } rest =
            (VariableShell.unmark (S.marked.items
              { state := (S.runner.launched s, S.own), status := 0, ended := false, events := [] } rest)).behind
              (VariableShell.unmark (firstList S s action i.list)).events := by
          rw [VariableShell.unmark_items, ← Runner.items_behind]
          simp only [Outcome.behind, VariableShell.unmark, List.map_nil, List.append_nil]
        have houter : S.Untouched (S.vars s)
            { state := (S.runner.launched s, S.own), status := 0, ended := false, events := [] } :=
          ⟨fun name _ => congrFun (S.launched s) name, fun _ he => absurd he List.not_mem_nil⟩
        rw [hrest, Outcome.behind_events, List.forall_mem_append]
        exact and_congr (inside_iff S s hline hkeys i.list []) (given_iff (houter.items rest) action.env)
      · rw [← VariableShell.unmark_items]
        exact inside_iff S s hline hkeys i.list rest

/-- A shell with single assignments, `cd`, and programs for all else. -/
def plainRunner : Runner (Pipeline Command) (List Char → Variable) Environment where
  pipeline s
    | ⟨_, [.simple ⟨[(name, w)], [], _⟩]⟩ =>
      { state := Function.update s name ⟨w.literal, (s name).exported⟩, status := 0, ended := false, events := [] }
    | p =>
      { state := s, status := 0, ended := false
        events := if isCd p then [] else [fun name => (s name).passed] }
  launched := id

theorem plainRunner_assignment (s : List Char → Variable) {name : List Char} (h : isName name = true)
    (value : List Char) :
    plainRunner.pipeline s (core.simple (assignment name value)) =
      { state := Function.update s name ⟨some value, (s name).exported⟩, status := 0, ended := false, events := [] } := by
  have hpipeline : core.simple (assignment name value) = ⟨false, [.simple ⟨[(name, quotedWord value)], [], []⟩]⟩ :=
    simplePipeline_assignment h value
  rw [hpipeline, ← literal_quotedWord value]
  rfl

def plainShell : VariableShell core (List Char → Variable) where
  runner := plainRunner
  vars s := s
  allexport _ := false
  own _ := false
  launched _ := rfl
  assign s name hname value := by
    rw [plainRunner_assignment s hname value]
    exact ⟨rfl, fun _ => ⟨rfl, rfl, fun _ _ => rfl⟩⟩
  cd s operand := ⟨rfl, fun _ _ _ => rfl⟩

def printsFoo : Action :=
  { id := ⟨1⟩, projectId := ⟨1⟩, name := "env".toList, command := "env".toList, mode := .quick, cwd := none,
    timeoutMs := none, dangerLevel := .safe, confirmation := .never, env := [("FOO".toList, "bar".toList)] }

/-- No variable has a value. -/
def withoutFoo (exported : Bool) (name : List Char) : Variable := ⟨none, exported && name == "FOO".toList⟩

theorem environment_exported :
    (∀ e ∈ (plainShell.runner.run (withoutFoo true) (core.read "FOO='bar' && env".toList)).events,
        ∀ entry ∈ printsFoo.env, e entry.1 = some entry.2) ↔
      Delivered plainShell (withoutFoo true) printsFoo (core.read (trimEnd printsFoo.command)) :=
  environment_iff plainShell (withoutFoo true) rfl (by decide)

/-- In a fresh shell the program is started without the variable. -/
theorem environment_missing :
    buildActionCommand printsFoo = .ok "FOO='bar' && env".toList ∧
      ∃ e ∈ (plainShell.runner.run (withoutFoo false) (core.read "FOO='bar' && env".toList)).events,
        e "FOO".toList ≠ some "bar".toList := by
  refine ⟨rfl, ?_⟩
  have hmissing : (plainShell.runner.run (withoutFoo false) (core.read "FOO='bar' && env".toList)).events.any
      (fun e => e "FOO".toList != some "bar".toList) = true := by decide
  obtain ⟨e, he, hvalue⟩ := List.any_eq_true.mp hmissing
  exact ⟨e, he, by simpa using hvalue⟩

end KW.Actions
