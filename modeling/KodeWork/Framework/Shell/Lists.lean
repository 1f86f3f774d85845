import Mathlib.Data.List.Infix
import Mathlib.Tactic.Common

/-!
# The lists of a shell

And-or lists and the programs made of them, over any type `π` of pipelines, and how
they run, given how a pipeline runs (`Runner`). What a run emits is kept in order: the
pipelines themselves (`Runner.traced`), what they print, or what they start.

A program can be put behind a chain of pipelines joined by `&&` (`prepend`,
`prependAll`). It goes to the first list only: `run_prependAll` runs the chain first.
If the chain fails, nothing of the program runs exactly when the program is `Guarded`
(`prefix_iff_guarded`).
-/

namespace KW.Shell

universe u v w

inductive Connector
  | and
  | or
deriving DecidableEq, Repr

structure AndOr (π : Type u) where
  first : π
  rest : List (Connector × π)
deriving DecidableEq, Repr

structure Item (π : Type u) where
  list : AndOr π
  background : Bool
deriving DecidableEq, Repr

abbrev Program (π : Type u) := List (Item π)

/-- How a command has ended. -/
structure Outcome (σ : Type v) (ε : Type w) where
  state : σ
  status : Nat
  /-- the shell has ended -/
  ended : Bool
  events : List ε
deriving DecidableEq, Repr

/-- How a pipeline runs, and what a list that is started in the background leaves
behind in the shell that starts it. -/
structure Runner (π : Type u) (σ : Type v) (ε : Type w) where
  pipeline : σ → π → Outcome σ ε
  launched : σ → σ

variable {π : Type u} {σ : Type v} {ε : Type w}

/-- The outcome, with what was emitted before. -/
def Outcome.behind (o : Outcome σ ε) (events : List ε) : Outcome σ ε := { o with events := events ++ o.events }

/-- Whether the pipeline behind the connector runs, after a status. -/
def Connector.admits : Connector → Nat → Bool
  | .and, status => status == 0
  | .or, status => status != 0

/-! ## Runs -/

/-- The rest of an and-or list. -/
def Runner.andOr (x : Runner π σ ε) : Outcome σ ε → List (Connector × π) → Outcome σ ε
  | o, [] => o
  | o, (c, p) :: rest =>
    if o.ended then o
    else if c.admits o.status then x.andOr ((x.pipeline o.state p).behind o.events) rest
    else x.andOr o rest

def Runner.list (x : Runner π σ ε) (s : σ) (a : AndOr π) : Outcome σ ε := x.andOr (x.pipeline s a.first) a.rest

def Runner.item (x : Runner π σ ε) (s : σ) (i : Item π) : Outcome σ ε :=
  if i.background then
    { state := x.launched s, status := 0, ended := false, events := (x.list s i.list).events }
  else x.list s i.list

/-- The rest of a program. -/
def Runner.items (x : Runner π σ ε) : Outcome σ ε → Program π → Outcome σ ε
  | o, [] => o
  | o, i :: rest => if o.ended then o else x.items ((x.item o.state i).behind o.events) rest

def Runner.run (x : Runner π σ ε) (s : σ) (program : Program π) : Outcome σ ε :=
  x.items { state := s, status := 0, ended := false, events := [] } program

/-- The run that shows which pipelines are executed. -/
def Runner.traced (x : Runner π σ ε) : Runner π σ π where
  pipeline s p :=
    let o := x.pipeline s p
    { state := o.state, status := o.status, ended := o.ended, events := [p] }
  launched := x.launched

/-! ## A chain before a program -/

def AndOr.prepend (p : π) (a : AndOr π) : AndOr π := ⟨p, (.and, a.first) :: a.rest⟩

/-- `p && program`. -/
def prepend (p : π) : Program π → Program π
  | [] => []
  | i :: rest => { i with list := i.list.prepend p } :: rest

/-- `p₁ && … && pₙ && program`. -/
def prependAll (chain : List π) (program : Program π) : Program π := chain.foldr prepend program

/-- The run of `p && p₁ && … && pₙ`. -/
def Runner.chain (x : Runner π σ ε) (s : σ) (p : π) (chain : List π) : Outcome σ ε :=
  x.list s ⟨p, chain.map (Connector.and, ·)⟩

/-- The run of `p₁ && … && pₙ`. -/
def Runner.guards (x : Runner π σ ε) (s : σ) : List π → Outcome σ ε
  | [] => { state := s, status := 0, ended := false, events := [] }
  | p :: chain => x.chain s p chain

/-- One list, in which a failure stops everything behind it. -/
def Guarded : Program π → Prop
  | [] => True
  | [i] => ∀ q ∈ i.list.rest, q.1 = Connector.and
  | _ :: _ :: _ => False

/-! ## Lemmas -/

@[simp] theorem Outcome.behind_state (o : Outcome σ ε) (es : List ε) : (o.behind es).state = o.state := rfl
@[simp] theorem Outcome.behind_status (o : Outcome σ ε) (es : List ε) : (o.behind es).status = o.status := rfl
@[simp] theorem Outcome.behind_ended (o : Outcome σ ε) (es : List ε) : (o.behind es).ended = o.ended := rfl
@[simp] theorem Outcome.behind_events (o : Outcome σ ε) (es : List ε) :
    (o.behind es).events = es ++ o.events := rfl

theorem prependAll_cons (p : π) (chain : List π) (program : Program π) :
    prependAll (p :: chain) program = prepend p (prependAll chain program) := rfl

/-- A chain before a program goes to the first list of it. -/
theorem prependAll_cons_cons (p : π) (chain : List π) (i : Item π) (rest : Program π) :
    prependAll (p :: chain) (i :: rest) =
      { i with list := ⟨p, chain.map (Connector.and, ·) ++ (.and, i.list.first) :: i.list.rest⟩ } :: rest := by
  induction chain generalizing p with
  | nil => rfl
  | cons q chain ih => rw [prependAll_cons, ih]; rfl

theorem prependAll_nil (chain : List π) : prependAll chain ([] : Program π) = [] := by
  induction chain with
  | nil => rfl
  | cons p chain ih => rw [prependAll_cons, ih]; rfl

namespace Runner

variable (x : Runner π σ ε)

theorem andOr_of_ended {o : Outcome σ ε} (h : o.ended = true) (rest : List (Connector × π)) :
    x.andOr o rest = o := by
  cases rest with
  | nil => rfl
  | cons q rest => exact if_pos h

theorem items_of_ended {o : Outcome σ ε} (h : o.ended = true) (program : Program π) : x.items o program = o := by
  cases program with
  | nil => rfl
  | cons i rest => exact if_pos h

theorem andOr_append (o : Outcome σ ε) (r r' : List (Connector × π)) :
    x.andOr o (r ++ r') = x.andOr (x.andOr o r) r' := by
  induction r generalizing o with
  | nil => rfl
  | cons q r ih =>
    obtain ⟨c, p⟩ := q
    rw [List.cons_append, andOr, andOr]
    split
    · case isTrue hended => rw [andOr_of_ended x hended]
    · split
      · exact ih _
      · exact ih _

/-- After a failure, what is joined by `&&` does not run. -/
theorem andOr_of_failed {o : Outcome σ ε} {rest : List (Connector × π)} (h : o.status ≠ 0)
    (hrest : ∀ q ∈ rest, q.1 = Connector.and) : x.andOr o rest = o := by
  induction rest with
  | nil => rfl
  | cons q rest ih =>
    obtain ⟨c, p⟩ := q
    obtain ⟨hc, hrest'⟩ := List.forall_mem_cons.mp hrest
    cases hc
    have hadmits : Connector.and.admits o.status = false := by simpa [Connector.admits] using h
    rw [andOr, hadmits, ih hrest']
    split <;> rfl

/-- A list emits its events behind those there are. -/
theorem prefix_andOr (o : Outcome σ ε) (rest : List (Connector × π)) :
    o.events <+: (x.andOr o rest).events := by
  induction rest generalizing o with
  | nil => exact List.prefix_rfl
  | cons q rest ih =>
    obtain ⟨c, p⟩ := q
    rw [andOr]
    split
    · exact List.prefix_rfl
    · split
      · exact List.IsPrefix.trans (List.prefix_append _ _) (ih ((x.pipeline o.state p).behind o.events))
      · exact ih o

theorem prefix_items (o : Outcome σ ε) (program : Program π) : o.events <+: (x.items o program).events := by
  induction program generalizing o with
  | nil => exact List.prefix_rfl
  | cons i rest ih =>
    rw [items]
    split
    · exact List.prefix_rfl
    · exact List.IsPrefix.trans (List.prefix_append _ _) (ih ((x.item o.state i).behind o.events))

/-- A pipeline that runs shows in the trace. -/
theorem traced_length_lt (o : Outcome σ π) (s : σ) (p : π) :
    o.events.length < ((x.traced.pipeline s p).behind o.events).events.length := by
  simp [traced]

/-- Behind `||`, a failure lets something run. -/
theorem traced_lt_of_or {o : Outcome σ π} {rest : List (Connector × π)} (h : o.status ≠ 0)
    (hended : o.ended = false) (hrest : ∃ q ∈ rest, q.1 = Connector.or) :
    o.events.length < (x.traced.andOr o rest).events.length := by
  induction rest with
  | nil => simp at hrest
  | cons q rest ih =>
    obtain ⟨c, p⟩ := q
    rw [andOr, hended]
    cases c with
    | and =>
      have hadmits : Connector.and.admits o.status = false := by simpa [Connector.admits] using h
      rw [hadmits]
      refine ih ?_
      obtain ⟨q, hq, hor⟩ := hrest
      cases hq with
      | head => cases hor
      | tail _ hq => exact ⟨q, hq, hor⟩
    | or =>
      have hadmits : Connector.or.admits o.status = true := by simpa [Connector.admits] using h
      rw [hadmits]
      exact Nat.lt_of_lt_of_le (x.traced_length_lt o o.state p) (x.traced.prefix_andOr _ rest).length_le

theorem traced_item_pos (s : σ) (i : Item π) : 0 < (x.traced.item s i).events.length := by
  have hlist : 0 < (x.traced.list s i.list).events.length :=
    Nat.lt_of_lt_of_le (Nat.zero_lt_one) (x.traced.prefix_andOr (x.traced.pipeline s i.list.first) _).length_le
  rw [item]
  split
  · exact hlist
  · exact hlist

theorem guards_eq (s : σ) (chain : List π) :
    x.guards s chain =
      x.andOr { state := s, status := 0, ended := false, events := [] } (chain.map (Connector.and, ·)) := by
  cases chain <;> rfl

theorem items_behind (o : Outcome σ ε) (es : List ε) (program : Program π) :
    x.items (o.behind es) program = (x.items o program).behind es := by
  induction program generalizing o with
  | nil => rfl
  | cons i rest ih =>
    have hnext : (x.item (o.behind es).state i).behind (o.behind es).events =
        ((x.item o.state i).behind o.events).behind es := by
      simp only [Outcome.behind, List.append_assoc]
    rw [items, items, hnext, ih, Outcome.behind_ended]
    split <;> rfl

theorem items_append (o : Outcome σ ε) (program program' : Program π) :
    x.items o (program ++ program') = x.items (x.items o program) program' := by
  induction program generalizing o with
  | nil => rfl
  | cons i rest ih =>
    rw [List.cons_append, items, items]
    split
    · case isTrue hended => rw [items_of_ended x hended]
    · exact ih _

/-- A list behind a chain goes on from where the chain has ended. -/
theorem list_prepend (s : σ) (p : π) (chain : List π) (a : AndOr π) :
    x.list s ⟨p, chain.map (Connector.and, ·) ++ (.and, a.first) :: a.rest⟩ =
      x.andOr (x.chain s p chain) ((.and, a.first) :: a.rest) := x.andOr_append _ _ _

theorem events_item (s : σ) (i : Item π) : (x.item s i).events = (x.list s i.list).events := by
  rw [item]
  split <;> rfl

theorem ended_item {s : σ} {i : Item π} (h : (x.list s i.list).ended = false) : (x.item s i).ended = false := by
  rw [item]
  split
  · rfl
  · exact h

theorem run_cons (s : σ) (i : Item π) (rest : Program π) : x.run s (i :: rest) = x.items (x.item s i) rest := rfl

/-! ## The trace of a run -/

/-- Tracing changes nothing but the events. -/
theorem traced_andOr {o : Outcome σ ε} {t : Outcome σ π} (hstate : t.state = o.state)
    (hstatus : t.status = o.status) (hended : t.ended = o.ended) (rest : List (Connector × π)) :
    (x.traced.andOr t rest).status = (x.andOr o rest).status ∧
      (x.traced.andOr t rest).ended = (x.andOr o rest).ended := by
  induction rest generalizing o t with
  | nil => exact ⟨hstatus, hended⟩
  | cons q rest ih =>
    obtain ⟨c, p⟩ := q
    rw [andOr, andOr, hended, hstatus, hstate]
    split
    · exact ⟨hstatus, hended⟩
    · split
      · exact ih rfl rfl rfl
      · exact ih hstate hstatus hended

theorem traced_chain (s : σ) (p : π) (chain : List π) :
    (x.traced.chain s p chain).status = (x.chain s p chain).status ∧
      (x.traced.chain s p chain).ended = (x.chain s p chain).ended := x.traced_andOr rfl rfl rfl _

/-- If the chain fails, nothing of the program behind it runs, exactly if the program is
one list in which a failure stops everything. -/
theorem prefix_iff_guarded {s : σ} {p : π} {chain : List π} (h : (x.chain s p chain).status ≠ 0)
    (hended : (x.chain s p chain).ended = false) (program : Program π) :
    (x.traced.run s (prependAll (p :: chain) program)).events <+: (x.traced.chain s p chain).events ↔
      Guarded program := by
  obtain ⟨hst, hov⟩ := x.traced_chain s p chain
  rw [← hst] at h
  rw [← hov] at hended
  cases program with
  | nil =>
    rw [prependAll_nil]
    exact ⟨fun _ => trivial, fun _ => List.nil_prefix⟩
  | cons i rest =>
    rw [prependAll_cons_cons, run_cons]
    generalize hi : ({ i with list := _ } : Item π) = i'
    have hlist : x.traced.list s i'.list =
        x.traced.andOr (x.traced.chain s p chain) ((.and, i.list.first) :: i.list.rest) := by
      rw [← hi]
      exact x.traced.list_prepend s p chain i.list
    generalize x.traced.chain s p chain = t at *
    -- with only `&&` behind it, the failure is the end of the first list
    have hskip (hand : ∀ q ∈ i.list.rest, q.1 = Connector.and) : x.traced.list s i'.list = t := by
      rw [hlist]
      exact x.traced.andOr_of_failed h (List.forall_mem_cons.mpr ⟨rfl, hand⟩)
    constructor
    · intro hprefix
      have hle := ((x.traced.prefix_items (x.traced.item s i') rest).trans hprefix).length_le
      rw [events_item, hlist] at hle
      have hand : ∀ q ∈ i.list.rest, q.1 = Connector.and := by
        intro q hq
        cases hc : q.1 with
        | and => rfl
        | or =>
          have hlt := x.traced_lt_of_or h hended ⟨q, List.mem_cons_of_mem (.and, i.list.first) hq, hc⟩
          exact absurd hle (Nat.not_le_of_lt hlt)
      cases rest with
      | nil => exact hand
      | cons j rest =>
        exfalso
        have hopen : (x.traced.item s i').ended = false := x.traced.ended_item (by rw [hskip hand]; exact hended)
        rw [items, hopen] at hprefix
        have hmore := ((x.traced.prefix_items _ rest).trans hprefix).length_le
        rw [Outcome.behind_events, List.length_append, events_item, hskip hand] at hmore
        have hpos := x.traced_item_pos (x.traced.item s i').state j
        omega
    · intro hguarded
      cases rest with
      | nil =>
        show (x.traced.item s i').events <+: t.events
        rw [events_item, hskip hguarded]
      | cons j rest => exact hguarded.elim

theorem guards_prefix_iff {s : σ} {guards : List π} (h : (x.guards s guards).status ≠ 0)
    (hended : (x.guards s guards).ended = false) (program : Program π) :
    (x.traced.run s (prependAll guards program)).events <+: (x.traced.guards s guards).events ↔
      Guarded program := by
  cases guards with
  | nil => exact absurd rfl h
  | cons p chain => exact x.prefix_iff_guarded h hended program

end Runner

end KW.Shell
