import Mathlib.Logic.Function.Basic
import KodeWork.Framework.Shell.Grammar

/-!
# The environment of the programs a shell starts

A shell as far as its variables go (`VariableShell`): what an assignment and `cd` do to
them, and what each program that is started is given of them. A variable is passed on if
it is exported; an assignment alone does not export it.

`marked` runs a shell with a mark on each variable that has been touched: changed, or
given to a program otherwise than it stands. A program that is started gets an unmarked
variable as it was at the beginning (`Untouched.items`).
-/

namespace KW.Shell

universe u v

structure Variable where
  /-- `none` if it is not set -/
  value : Option (List Char)
  exported : Bool
deriving DecidableEq, Repr

/-- What a program is given of a variable. -/
def Variable.passed (v : Variable) : Option (List Char) := if v.exported then v.value else none

/-- The environment a program is started with. -/
abbrev Environment := List Char → Option (List Char)

def isName : List Char → Bool
  | [] => false
  | c :: rest => isNameStart c && rest.all isNameChar

/-- The words of an assignment of a quoted value. -/
def assignment (name value : List Char) : List Word := [bareWord (name ++ "=".toList) ++ quotedWord value]

/-- The words of a change of directory. -/
def cdInto (operand : Word) : List Word := [bareWord "cd".toList, bareWord "--".toList, operand]

/-- The variables that `cd` sets. -/
def setByCd (name : List Char) : Bool := name == "PWD".toList || name == "OLDPWD".toList

variable {π : Type u} {σ : Type v}

/-- A shell, with what it does to its variables. -/
structure VariableShell (G : Grammar π) (σ : Type v) where
  runner : Runner π σ Environment
  vars : σ → List Char → Variable
  /-- the option that exports what is assigned -/
  allexport : σ → Bool
  /-- variables that the shell sets itself as it runs, such as the number of the line -/
  own : List Char → Bool
  launched (s : σ) : vars (runner.launched s) = vars s
  /-- an assignment fails only where it ends the shell -/
  assign (s : σ) {name : List Char} (h : isName name = true) (value : List Char) :
    (runner.pipeline s (G.simple (assignment name value))).events = [] ∧
      ((runner.pipeline s (G.simple (assignment name value))).ended = false →
        (runner.pipeline s (G.simple (assignment name value))).status = 0 ∧
        allexport (runner.pipeline s (G.simple (assignment name value))).state = allexport s ∧
        ∀ other, own other = false →
          vars (runner.pipeline s (G.simple (assignment name value))).state other =
            Function.update (vars s) name ⟨some value, allexport s || (vars s name).exported⟩ other)
  cd (s : σ) (operand : Word) :
    (runner.pipeline s (G.simple (cdInto operand))).events = [] ∧
      ∀ name, own name = false → setByCd name = false →
        vars (runner.pipeline s (G.simple (cdInto operand))).state name = vars s name

namespace VariableShell

variable {G : Grammar π} (S : VariableShell G σ)

/-- The variable is exported, or will be when it is assigned. -/
def exports (s : σ) (name : List Char) : Bool := S.allexport s || (S.vars s name).exported

/-! ## Marks -/

abbrev Marks := List Char → Bool

/-- The pipeline changes the variable, or starts a program that is given another value. -/
def touches (s : σ) (p : π) (name : List Char) : Bool :=
  let o := S.runner.pipeline s p
  S.vars o.state name != S.vars s name || o.events.any fun e => e name != (S.vars s name).passed

/-- The shell, with the variables that have been touched. -/
def marked : Runner π (σ × Marks) (Environment × Marks) where
  pipeline s p :=
    let o := S.runner.pipeline s.1 p
    let marks : Marks := fun name => s.2 name || S.touches s.1 p name
    { state := (o.state, marks), status := o.status, ended := o.ended, events := o.events.map (·, marks) }
  launched s := (S.runner.launched s.1, s.2)

/-- The outcome without the marks. -/
def unmark (o : Outcome (σ × Marks) (Environment × Marks)) : Outcome σ Environment :=
  { state := o.state.1, status := o.status, ended := o.ended, events := o.events.map Prod.fst }

theorem unmark_pipeline (s : σ × Marks) (p : π) : unmark (S.marked.pipeline s p) = S.runner.pipeline s.1 p := by
  simp only [unmark, marked, List.map_map, Function.comp_def, List.map_id']

theorem unmark_behind (o : Outcome (σ × Marks) (Environment × Marks)) (es : List (Environment × Marks)) :
    unmark (o.behind es) = (unmark o).behind (es.map Prod.fst) := by
  simp only [unmark, Outcome.behind, List.map_append]

theorem unmark_andOr (o : Outcome (σ × Marks) (Environment × Marks)) (rest : List (Connector × π)) :
    unmark (S.marked.andOr o rest) = S.runner.andOr (unmark o) rest := by
  induction rest generalizing o with
  | nil => rfl
  | cons q rest ih =>
    obtain ⟨c, p⟩ := q
    rw [Runner.andOr, Runner.andOr]
    show unmark (if o.ended then o else _) = if o.ended then unmark o else _
    split
    · rfl
    · show unmark (if c.admits o.status then _ else _) = if c.admits o.status then _ else _
      split
      · rw [ih, unmark_behind, unmark_pipeline]
        rfl
      · exact ih o

theorem unmark_item (s : σ × Marks) (i : Item π) : unmark (S.marked.item s i) = S.runner.item s.1 i := by
  have hlist : unmark (S.marked.list s i.list) = S.runner.list s.1 i.list := by
    rw [Runner.list, unmark_andOr, unmark_pipeline]
    rfl
  rw [Runner.item, Runner.item]
  split
  · rw [← hlist]
    rfl
  · exact hlist

theorem unmark_items (o : Outcome (σ × Marks) (Environment × Marks)) (program : Program π) :
    unmark (S.marked.items o program) = S.runner.items (unmark o) program := by
  induction program generalizing o with
  | nil => rfl
  | cons i rest ih =>
    rw [Runner.items, Runner.items]
    show unmark (if o.ended then o else _) = if o.ended then unmark o else _
    split
    · rfl
    · rw [ih, unmark_behind, unmark_item]
      rfl

/-! ## What is not touched -/

/-- Unmarked variables are as they were, and were passed on so. -/
structure Untouched (base : List Char → Variable) (o : Outcome (σ × Marks) (Environment × Marks)) : Prop where
  state : ∀ name, o.state.2 name = false → S.vars o.state.1 name = base name
  events : ∀ e ∈ o.events, ∀ name, e.2 name = false → e.1 name = (base name).passed

variable {S} {base : List Char → Variable}

theorem eq_of_not_touches {s : σ} {p : π} {name : List Char} (h : S.touches s p name = false) :
    S.vars (S.runner.pipeline s p).state name = S.vars s name ∧
      ∀ e ∈ (S.runner.pipeline s p).events, e name = (S.vars s name).passed := by
  obtain ⟨hvars, hevents⟩ := Bool.or_eq_false_iff.mp h
  refine ⟨by simpa using hvars, fun e he => ?_⟩
  have hpassed := List.any_eq_false.mp hevents e he
  simpa using hpassed

theorem untouched_pipeline {s : σ × Marks} (h : ∀ name, s.2 name = false → S.vars s.1 name = base name)
    (p : π) : S.Untouched base (S.marked.pipeline s p) := by
  refine ⟨fun name hname => ?_, fun e he name hname => ?_⟩
  · obtain ⟨hold, htouch⟩ := Bool.or_eq_false_iff.mp hname
    exact (eq_of_not_touches htouch).1.trans (h name hold)
  · obtain ⟨environment, henv, rfl⟩ := List.mem_map.mp he
    obtain ⟨hold, htouch⟩ := Bool.or_eq_false_iff.mp hname
    exact ((eq_of_not_touches htouch).2 environment henv).trans (congrArg Variable.passed (h name hold))

theorem Untouched.behind {o o' : Outcome (σ × Marks) (Environment × Marks)} (h : S.Untouched base o)
    (h' : S.Untouched base o') : S.Untouched base (o'.behind o.events) := by
  refine ⟨h'.state, fun e he => ?_⟩
  rcases List.mem_append.mp he with he | he
  · exact h.events e he
  · exact h'.events e he

theorem Untouched.andOr {o : Outcome (σ × Marks) (Environment × Marks)} (h : S.Untouched base o)
    (rest : List (Connector × π)) : S.Untouched base (S.marked.andOr o rest) := by
  induction rest generalizing o with
  | nil => exact h
  | cons q rest ih =>
    obtain ⟨c, p⟩ := q
    rw [Runner.andOr]
    split
    · exact h
    · split
      · exact ih (h.behind (untouched_pipeline h.state p))
      · exact ih h

theorem untouched_item {s : σ × Marks} (h : ∀ name, s.2 name = false → S.vars s.1 name = base name)
    (i : Item π) : S.Untouched base (S.marked.item s i) := by
  have hlist : S.Untouched base (S.marked.list s i.list) := (untouched_pipeline h _).andOr _
  rw [Runner.item]
  split
  · refine ⟨fun name hname => ?_, hlist.events⟩
    exact (congrFun (S.launched s.1) name).trans (h name hname)
  · exact hlist

/-- A program keeps it, whatever it starts. -/
theorem Untouched.items {o : Outcome (σ × Marks) (Environment × Marks)} (h : S.Untouched base o)
    (program : Program π) : S.Untouched base (S.marked.items o program) := by
  induction program generalizing o with
  | nil => exact h
  | cons i rest ih =>
    rw [Runner.items]
    split
    · exact h
    · exact ih (h.behind (untouched_item h.state i))

/-! ## A chain of assignments and changes of directory -/

def assignments (G : Grammar π) (env : List (List Char × List Char)) : List (Connector × π) :=
  env.map fun e => (.and, G.simple (assignment e.1 e.2))

def changes (G : Grammar π) (operands : List Word) : List (Connector × π) :=
  operands.map fun w => (.and, G.simple (cdInto w))

/-- The shell has got so far with the variables of `env` as they were in `s`. -/
structure Ahead (S : VariableShell G σ) (s : σ) (env : List (List Char × List Char))
    (o : Outcome σ Environment) : Prop where
  status : o.status = 0
  allexport : S.allexport o.state = S.allexport s
  vars : ∀ e ∈ env, S.own e.1 = false → S.vars o.state e.1 = S.vars s e.1

/-- One assignment, which goes to its own variable only. -/
theorem ahead_assign {s : σ} {o : Outcome σ Environment} {e : List Char × List Char}
    {env : List (List Char × List Char)} (hname : isName e.1 = true) (hnew : e.1 ∉ env.map Prod.fst)
    (h : S.Ahead s (e :: env) o)
    (hended : (S.runner.pipeline o.state (G.simple (assignment e.1 e.2))).ended = false) :
    S.Ahead s env ((S.runner.pipeline o.state (G.simple (assignment e.1 e.2))).behind o.events) ∧
      (S.own e.1 = false → S.vars (S.runner.pipeline o.state (G.simple (assignment e.1 e.2))).state e.1 =
        ⟨some e.2, S.exports s e.1⟩) ∧
      ∀ name ≠ e.1, S.own name = false →
        S.vars (S.runner.pipeline o.state (G.simple (assignment e.1 e.2))).state name = S.vars o.state name := by
  obtain ⟨hstatus, hexport, hvars⟩ := (S.assign o.state hname e.2).2 hended
  have hother (name : List Char) (hne : name ≠ e.1) (hown : S.own name = false) :
      S.vars (S.runner.pipeline o.state (G.simple (assignment e.1 e.2))).state name = S.vars o.state name := by
    rw [hvars name hown, Function.update_of_ne hne]
  refine ⟨⟨hstatus, hexport.trans h.allexport, fun d hd hown => ?_⟩, fun hown => ?_, hother⟩
  · have hne : d.1 ≠ e.1 := fun heq => hnew (heq ▸ List.mem_map_of_mem hd)
    exact (hother d.1 hne hown).trans (h.vars d (List.mem_cons_of_mem e hd) hown)
  · rw [hvars e.1 hown, Function.update_self, h.allexport, h.vars e List.mem_cons_self hown, exports]

theorem assignments_events {o : Outcome σ Environment} {env : List (List Char × List Char)}
    (hnames : ∀ e ∈ env, isName e.1 = true) (h : o.events = []) :
    (S.runner.andOr o (assignments G env)).events = [] := by
  induction env generalizing o with
  | nil => exact h
  | cons e env ih =>
    obtain ⟨hname, hnames'⟩ := List.forall_mem_cons.mp hnames
    have hnone : ((S.runner.pipeline o.state (G.simple (assignment e.1 e.2))).behind o.events).events = [] := by
      rw [Outcome.behind_events, h, (S.assign o.state hname e.2).1]
      rfl
    show (if o.ended then o else if Connector.and.admits o.status then S.runner.andOr _ (assignments G env)
      else S.runner.andOr o (assignments G env)).events = []
    split
    · exact h
    · split
      · exact ih hnames' hnone
      · exact ih hnames' h

/-- Each variable ends with its value, exported if it was to be before. -/
theorem assignments_vars {s : σ} {o : Outcome σ Environment} {env : List (List Char × List Char)}
    (hnames : ∀ e ∈ env, isName e.1 = true) (hkeys : (env.map Prod.fst).Nodup) (h : S.Ahead s env o)
    (hended : (S.runner.andOr o (assignments G env)).ended = false) :
    (∀ e ∈ env, S.own e.1 = false →
        S.vars (S.runner.andOr o (assignments G env)).state e.1 = ⟨some e.2, S.exports s e.1⟩) ∧
      ∀ name ∉ env.map Prod.fst, S.own name = false →
        S.vars (S.runner.andOr o (assignments G env)).state name = S.vars o.state name := by
  induction env generalizing o with
  | nil => exact ⟨nofun, fun _ _ _ => rfl⟩
  | cons e env ih =>
    obtain ⟨hname, hnames'⟩ := List.forall_mem_cons.mp hnames
    obtain ⟨hnew, hkeys'⟩ := List.nodup_cons.mp hkeys
    have hopen : o.ended = false := by
      by_contra hclosed
      rw [S.runner.andOr_of_ended (Bool.not_eq_false _ ▸ hclosed)] at hended
      exact hclosed hended
    have hstep : S.runner.andOr o (assignments G (e :: env)) =
        S.runner.andOr ((S.runner.pipeline o.state (G.simple (assignment e.1 e.2))).behind o.events)
          (assignments G env) := by
      show (if o.ended then o else if Connector.and.admits o.status then S.runner.andOr _ (assignments G env)
        else S.runner.andOr o (assignments G env)) = _
      rw [hopen, h.status]
      rfl
    rw [hstep] at hended ⊢
    have hgoes : (S.runner.pipeline o.state (G.simple (assignment e.1 e.2))).ended = false := by
      by_contra hclosed
      rw [S.runner.andOr_of_ended (Bool.not_eq_false _ ▸ hclosed)] at hended
      exact hclosed hended
    obtain ⟨hahead, hself, hother⟩ := ahead_assign hname hnew h hgoes
    obtain ⟨hlater, hrest⟩ := ih hnames' hkeys' hahead hended
    refine ⟨List.forall_mem_cons.mpr ⟨fun hown => (hrest e.1 hnew hown).trans (hself hown), hlater⟩, ?_⟩
    intro name hmem hown
    rw [List.map_cons, List.mem_cons, not_or] at hmem
    exact (hrest name hmem.2 hown).trans (hother name hmem.1 hown)

theorem changes_spec (o : Outcome σ Environment) (operands : List Word) :
    (S.runner.andOr o (changes G operands)).events = o.events ∧
      ∀ name, S.own name = false → setByCd name = false →
        S.vars (S.runner.andOr o (changes G operands)).state name = S.vars o.state name := by
  induction operands generalizing o with
  | nil => exact ⟨rfl, fun _ _ _ => rfl⟩
  | cons w operands ih =>
    obtain ⟨hevents, hvars⟩ := S.cd o.state w
    show (if o.ended then o else if Connector.and.admits o.status then S.runner.andOr _ (changes G operands)
      else S.runner.andOr o (changes G operands)).events = _ ∧ ∀ name, _ → _ →
        S.vars (if o.ended then o else if Connector.and.admits o.status then S.runner.andOr _ (changes G operands)
          else S.runner.andOr o (changes G operands)).state name = _
    split
    · exact ⟨rfl, fun _ _ _ => rfl⟩
    · split
      · obtain ⟨hmore, hrest⟩ := ih ((S.runner.pipeline o.state (G.simple (cdInto w))).behind o.events)
        refine ⟨?_, fun name hown hcd => (hrest name hown hcd).trans (hvars name hown hcd)⟩
        rw [hmore, Outcome.behind_events, hevents, List.append_nil]
      · exact ih o

end VariableShell

/-! ## In the core language -/

theorem assignmentFrom_bareWord {pre name : List Char} (hpre : pre ≠ []) (h : ∀ c ∈ name, isNameChar c = true)
    (value : Word) : assignmentFrom pre (bareWord name ++ .char false '=' :: value) = some (pre ++ name, value) := by
  induction name generalizing pre with
  | nil =>
    show (if pre = [] then none else some (pre, value)) = _
    rw [if_neg hpre, List.append_nil]
  | cons c name ih =>
    obtain ⟨hc, hname⟩ := List.forall_mem_cons.mp h
    have hne : c ≠ '=' := by
      rintro rfl
      cases hc
    have hstep : assignmentFrom pre (bareWord (c :: name) ++ .char false '=' :: value) =
        if if pre = [] then isNameStart c else isNameChar c then
          assignmentFrom (pre ++ [c]) (bareWord name ++ .char false '=' :: value) else none := by
      simp [assignmentFrom, bareWord]
    rw [hstep, if_neg hpre, if_pos hc, ih (by simp) hname]
    simp

theorem assignment_bareWord {name : List Char} (h : isName name = true) (value : Word) :
    Word.assignment (bareWord (name ++ "=".toList) ++ value) = some (name, value) := by
  cases name with
  | nil => cases h
  | cons c name =>
    obtain ⟨hc, hname⟩ := Bool.and_eq_true_iff.mp h
    have hne : c ≠ '=' := by
      rintro rfl
      cases hc
    have hword : bareWord (c :: name ++ "=".toList) ++ value =
        .char false c :: (bareWord name ++ .char false '=' :: value) := by simp [bareWord]
    have hstep : assignmentFrom [] (.char false c :: (bareWord name ++ .char false '=' :: value)) =
        if isNameStart c then assignmentFrom [c] (bareWord name ++ .char false '=' :: value) else none := by
      simp [assignmentFrom]
    rw [Word.assignment, hword, hstep, if_pos hc,
      assignmentFrom_bareWord (List.cons_ne_nil c []) (List.all_eq_true.mp hname)]
    rfl

theorem simplePipeline_assignment {name : List Char} (h : isName name = true) (value : List Char) :
    simplePipeline (assignment name value) = ⟨false, [.simple ⟨[(name, quotedWord value)], [], []⟩]⟩ := by
  show (⟨false, [.simple (Simple.none.add _)]⟩ : Pipeline Command) = _
  rw [Simple.add, assignment_bareWord h]
  rfl

end KW.Shell
