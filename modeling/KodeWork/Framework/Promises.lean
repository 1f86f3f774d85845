import KodeWork.Framework.Machine
import Mathlib.Data.List.Nodup

/-!
# Promises and the job queue

The promises of one JavaScript realm, by number, as ECMAScript has them: a promise
made by `then` has one reaction, which is queued as a job when its source settles (at
once if it has settled), in the order of the calls of `then`; a promise resolved with
another one adopts it in a job of its own, which calls `then` on it. The jobs run one
after the other, first in, first out. What a callback does is up to the program: the
type `κ` has its callbacks, and a job that calls one leaves its promise `called`, for
the program to settle or to resolve. Values and reasons are left out.

`Sound` says that a promise that waits is where it will be found: among the reactions
of its source, or, from the moment that has settled, in the queue, once. It is kept by
each operation (`become_sound`, `make_sound`, `runJob_sound`), so that a job can always
run (`runJob_enabled`), and with no jobs left a promise only waits for one that has not
settled (`Sound.waits`). `JobMoves` says what a job can do.
-/

namespace KW.Promises

universe u

inductive Outcome
  | fulfilled
  | rejected
deriving DecidableEq, Repr

/-- What will become of a promise. -/
inductive State (κ : Type u)
  /-- the code that made it will settle it -/
  | external
  /-- made by `then`, with a reaction that has not run -/
  | derived (source : Nat) (onFulfilled onRejected : Option κ)
  /-- its callback is being called -/
  | called
  /-- resolved with a promise, before the job that calls its `then` -/
  | adopts (source : Nat)
  /-- resolved with a promise, and waiting for it -/
  | follows (source : Nat)
  | settled (outcome : Outcome)
deriving DecidableEq, Repr

/-- The promises made so far, the promises that wait for each of them, and those that
have a job to run. -/
structure World (κ : Type u) where
  made : Nat
  state : Nat → Option (State κ)
  reactions : Nat → List Nat
  jobs : List Nat

variable {κ : Type u}

/-- The promise that a reaction is registered at. -/
def State.source? : State κ → Option Nat
  | .derived source _ _ | .follows source => some source
  | .external | .called | .adopts _ | .settled _ => none

/-- The promise that it refers to. -/
def State.refers? : State κ → Option Nat
  | .derived source _ _ | .follows source | .adopts source => some source
  | .external | .called | .settled _ => none

/-- The callback of a reaction. -/
def handler (onFulfilled onRejected : Option κ) : Outcome → Option κ
  | .fulfilled => onFulfilled
  | .rejected => onRejected

namespace World

def new : World κ := ⟨0, fun _ => none, fun _ => [], []⟩

def outcome (w : World κ) (p : Nat) : Option Outcome :=
  match w.state p with
  | some (.settled o) => some o
  | _ => none

def set (w : World κ) (d : Nat) (s : State κ) : World κ :=
  { w with state := Function.update w.state d (some s) }

/-- `d` gets a new state, and is queued or registered, or its reactions are queued. -/
def become (w : World κ) (d : Nat) (s : State κ) : World κ :=
  match s with
  | .external | .called => w.set d s
  | .settled _ =>
    { w.set d s with jobs := w.jobs ++ w.reactions d, reactions := Function.update w.reactions d [] }
  | .adopts _ => { w.set d s with jobs := w.jobs ++ [d] }
  | .derived source _ _ | .follows source =>
    if (w.outcome source).isSome then { w.set d s with jobs := w.jobs ++ [d] }
    else { w.set d s with reactions := Function.update w.reactions source (w.reactions source ++ [d]) }

/-- A new promise, with the number `w.made`. -/
def make (w : World κ) : World κ := { w.set w.made .external with made := w.made + 1 }

/-- `Promise.resolve()` -/
def makeResolved (w : World κ) : World κ := w.make.become w.made (.settled .fulfilled)

/-- `source.then(onFulfilled, onRejected)` -/
def derive (w : World κ) (source : Nat) (onFulfilled onRejected : Option κ) : World κ :=
  w.make.become w.made (.derived source onFulfilled onRejected)

/-- `d` is resolved with the promise `source`; with itself, it is rejected. -/
def resolve (w : World κ) (d source : Nat) : World κ :=
  w.become d (if source = d then .settled .rejected else .adopts source)

/-- The first job runs, up to the call of a callback, which is for the program. -/
def runJob (w : World κ) : Option (World κ × Option (Nat × κ)) :=
  match w.jobs with
  | [] => none
  | d :: jobs =>
    let taken : World κ := { w.set d .called with jobs := jobs }
    match w.state d with
    | some (.derived source onFulfilled onRejected) =>
      match w.outcome source with
      | some o =>
        match handler onFulfilled onRejected o with
        | some callback => some (taken, some (d, callback))
        | none => some (taken.become d (.settled o), none)
      | none => none
    | some (.adopts source) => some (taken.become d (.follows source), none)
    | some (.follows source) => (w.outcome source).map fun o => (taken.become d (.settled o), none)
    | _ => none

@[simp] theorem set_state (w : World κ) (d : Nat) (s : State κ) :
    (w.set d s).state = Function.update w.state d (some s) := rfl

@[simp] theorem set_jobs (w : World κ) (d : Nat) (s : State κ) : (w.set d s).jobs = w.jobs := rfl

@[simp] theorem set_reactions (w : World κ) (d : Nat) (s : State κ) :
    (w.set d s).reactions = w.reactions := rfl

@[simp] theorem become_state (w : World κ) (d : Nat) (s : State κ) :
    (w.become d s).state = Function.update w.state d (some s) := by
  cases s with
  | derived source _ _ | follows source =>
    rw [become]
    split <;> rfl
  | external | called | adopts | settled => rfl

@[simp] theorem become_made (w : World κ) (d : Nat) (s : State κ) : (w.become d s).made = w.made := by
  cases s with
  | derived source _ _ | follows source =>
    rw [become]
    split <;> rfl
  | external | called | adopts | settled => rfl

@[simp] theorem make_state (w : World κ) :
    w.make.state = Function.update w.state w.made (some .external) := rfl

@[simp] theorem make_made (w : World κ) : w.make.made = w.made + 1 := rfl

theorem make_become_state (w : World κ) (s : State κ) :
    (w.make.become w.made s).state = Function.update w.state w.made (some s) := by
  rw [become_state, make_state, Function.update_idem]

@[simp] theorem makeResolved_state (w : World κ) :
    w.makeResolved.state = Function.update w.state w.made (some (.settled .fulfilled)) := make_become_state ..

@[simp] theorem derive_state (w : World κ) (source : Nat) (onFulfilled onRejected : Option κ) :
    (w.derive source onFulfilled onRejected).state =
      Function.update w.state w.made (some (.derived source onFulfilled onRejected)) := make_become_state ..

theorem outcome_eq_some {w : World κ} {p : Nat} {o : Outcome} :
    w.outcome p = some o ↔ w.state p = some (.settled o) := by
  rw [outcome]
  split <;> simp_all

theorem outcome_congr {w w' : World κ} {p : Nat} (h : w'.state p = w.state p) :
    w'.outcome p = w.outcome p := by
  rw [outcome, outcome, h]

/-- A promise that is not settled yet, whatever it waits for. -/
theorem outcome_eq_none {w : World κ} {p : Nat} {s : State κ} (h : w.state p = some s)
    (hs : ∀ o, s ≠ .settled o) : w.outcome p = none := by
  cases ho : w.outcome p with
  | none => rfl
  | some o =>
    cases h.symm.trans (outcome_eq_some.mp ho)
    exact absurd rfl (hs o)

end World

open World

/-! ## Where a promise waits -/

/-- `d` may be in the queue. -/
def World.Ready (w : World κ) (s : State κ) : Prop :=
  (∃ source, s = .adopts source) ∨ ∃ source, s.source? = some source ∧ (w.outcome source).isSome

structure Sound (w : World κ) : Prop where
  bound : ∀ p s, w.state p = some s → p < w.made
  refers : ∀ d s p, w.state d = some s → s.refers? = some p → (w.state p).isSome
  adopting : ∀ d p, w.state d = some (.adopts p) → d ∈ w.jobs
  queued : ∀ d s p, w.state d = some s → s.source? = some p → (w.outcome p).isSome → d ∈ w.jobs
  registered : ∀ d s p, w.state d = some s → s.source? = some p → w.outcome p = none → d ∈ w.reactions p
  jobs : ∀ d ∈ w.jobs, ∃ s, w.state d = some s ∧ w.Ready s
  reactions : ∀ p, ∀ d ∈ w.reactions p, w.outcome p = none ∧ ∃ s, w.state d = some s ∧ s.source? = some p
  jobs_nodup : w.jobs.Nodup
  reactions_nodup : ∀ p, (w.reactions p).Nodup

theorem source_refers {s : State κ} {p : Nat} (h : s.source? = some p) : s.refers? = some p := by
  cases s <;> cases h <;> rfl

/-! ## What keeps it -/

/-- Nothing is queued or registered for a promise that the program has in its hands. -/
theorem Sound.idle {w : World κ} (hw : Sound w) {d : Nat} {s : State κ} (hd : w.state d = some s)
    (hs : s.refers? = none) : d ∉ w.jobs ∧ ∀ p, d ∉ w.reactions p := by
  constructor
  · intro hmem
    obtain ⟨s', hs', ⟨source, rfl⟩ | ⟨source, hsource, -⟩⟩ := hw.jobs d hmem
    · cases hd.symm.trans hs'
      cases hs
    · cases hd.symm.trans hs'
      cases hs.symm.trans (source_refers hsource)
  · intro p hmem
    obtain ⟨-, s', hs', hsource⟩ := hw.reactions p d hmem
    cases hd.symm.trans hs'
    cases hs.symm.trans (source_refers hsource)

theorem set_outcome {w : World κ} {d : Nat} {s : State κ} (hd : w.outcome d = none)
    (hs : ∀ o, s ≠ .settled o) (p : Nat) : (w.set d s).outcome p = w.outcome p := by
  by_cases hp : p = d
  · subst hp
    rw [hd]
    exact outcome_eq_none (Function.update_self ..) hs
  · exact outcome_congr (Function.update_of_ne hp ..)

theorem set_isSome {w : World κ} {d p : Nat} {s : State κ} (h : (w.state p).isSome) :
    ((w.set d s).state p).isSome := by
  by_cases hp : p = d
  · subst hp
    rw [set_state, Function.update_self]
    rfl
  · rwa [set_state, Function.update_of_ne hp]

section

variable {w : World κ} {d : Nat} {s : State κ}

theorem set_bound (hw : Sound w) (hd : (w.state d).isSome) (p : Nat) (s' : State κ)
    (h : (w.set d s).state p = some s') : p < w.made := by
  rcases entry_of_update h with ⟨rfl, -⟩ | ⟨-, h⟩
  · obtain ⟨s, hs⟩ := Option.isSome_iff_exists.mp hd
    exact hw.bound _ s hs
  · exact hw.bound p s' h

theorem set_refers (hw : Sound w) (hs : ∀ p, s.refers? = some p → (w.state p).isSome) (x : Nat) (s' : State κ)
    (p : Nat) (h : (w.set d s).state x = some s') (hp : s'.refers? = some p) :
    ((w.set d s).state p).isSome := by
  rcases entry_of_update h with ⟨-, hs'⟩ | ⟨-, h⟩
  · cases hs'
    exact set_isSome (hs p hp)
  · exact set_isSome (hw.refers x s' p h hp)

theorem ready_set (hd : w.outcome d = none) (hs : ∀ o, s ≠ .settled o) {s' : State κ} :
    (w.set d s).Ready s' ↔ w.Ready s' :=
  or_congr_right (exists_congr fun p => and_congr_right fun _ => by rw [set_outcome hd hs p])

/-- `d` gets a state in which it waits for nothing. -/
theorem quiet_sound (hw : Sound w) {s' : State κ} (hd : w.state d = some s') (hs' : s'.refers? = none)
    (hnone : w.outcome d = none) (hrefers : s.refers? = none) (hs : ∀ o, s ≠ .settled o) : Sound (w.set d s) := by
  obtain ⟨hjobs, hreactions⟩ := hw.idle hd hs'
  have hout := set_outcome hnone hs
  refine ⟨set_bound hw (by rw [hd]; rfl), set_refers hw (fun p hp => ?_), ?_, ?_, ?_, ?_, ?_,
    hw.jobs_nodup, hw.reactions_nodup⟩
  · cases hrefers.symm.trans hp
  · intro x p h
    rcases entry_of_update h with ⟨-, h⟩ | ⟨-, h⟩
    · cases h
      cases hrefers
    · exact hw.adopting x p h
  · intro x s' p h hp hdone
    rcases entry_of_update h with ⟨-, h⟩ | ⟨-, h⟩
    · cases h
      cases hrefers.symm.trans (source_refers hp)
    · exact hw.queued x s' p h hp (hout p ▸ hdone)
  · intro x s' p h hp hopen
    rcases entry_of_update h with ⟨-, h⟩ | ⟨-, h⟩
    · cases h
      cases hrefers.symm.trans (source_refers hp)
    · exact hw.registered x s' p h hp (hout p ▸ hopen)
  · intro x hx
    obtain ⟨s', h, hready⟩ := hw.jobs x hx
    have hne : x ≠ d := fun e => hjobs (e ▸ hx)
    exact ⟨s', (Function.update_of_ne hne ..).trans h, (ready_set hnone hs).mpr hready⟩
  · intro p x hx
    obtain ⟨hopen, s', h, hsource⟩ := hw.reactions p x hx
    have hne : x ≠ d := fun e => hreactions p (e ▸ hx)
    exact ⟨(hout p).trans hopen, s', (Function.update_of_ne hne ..).trans h, hsource⟩

/-- `d` gets a state in which it has a job to run. -/
theorem enqueue_sound (hw : Sound w) {s' : State κ} (hd : w.state d = some s') (hs' : s'.refers? = none)
    (hnone : w.outcome d = none) (hrefers : ∀ p, s.refers? = some p → (w.state p).isSome)
    (hs : ∀ o, s ≠ .settled o) (hready : w.Ready s) :
    Sound { w.set d s with jobs := w.jobs ++ [d] } := by
  obtain ⟨hjobs, hreactions⟩ := hw.idle hd hs'
  have hout := set_outcome hnone hs
  refine ⟨set_bound hw (by rw [hd]; rfl), set_refers hw hrefers, ?_, ?_, ?_, ?_, ?_, ?_, hw.reactions_nodup⟩
  · intro x p h
    rcases entry_of_update h with ⟨rfl, -⟩ | ⟨-, h⟩
    · exact List.mem_append_right _ (List.mem_singleton_self _)
    · exact List.mem_append_left _ (hw.adopting x p h)
  · intro x s' p h hp hdone
    rcases entry_of_update h with ⟨rfl, -⟩ | ⟨-, h⟩
    · exact List.mem_append_right _ (List.mem_singleton_self _)
    · exact List.mem_append_left _ (hw.queued x s' p h hp (hout p ▸ hdone))
  · intro x s' p h hp hopen
    have hopen : w.outcome p = none := hout p ▸ hopen
    rcases entry_of_update h with ⟨-, h⟩ | ⟨-, h⟩
    · cases h
      rcases hready with ⟨source, rfl⟩ | ⟨source, hsource, hdone⟩
      · cases hp
      · cases hp.symm.trans hsource
        rw [hopen] at hdone
        cases hdone
    · exact hw.registered x s' p h hp hopen
  · intro x hx
    rcases List.mem_append.mp hx with hx | hx
    · obtain ⟨s', h, hready⟩ := hw.jobs x hx
      have hne : x ≠ d := fun e => hjobs (e ▸ hx)
      exact ⟨s', (Function.update_of_ne hne ..).trans h, (ready_set hnone hs).mpr hready⟩
    · cases List.mem_singleton.mp hx
      exact ⟨s, Function.update_self .., (ready_set hnone hs).mpr hready⟩
  · intro p x hx
    obtain ⟨hopen, s', h, hsource⟩ := hw.reactions p x hx
    have hne : x ≠ d := fun e => hreactions p (e ▸ hx)
    exact ⟨(hout p).trans hopen, s', (Function.update_of_ne hne ..).trans h, hsource⟩
  · exact List.nodup_append.mpr ⟨hw.jobs_nodup, List.nodup_singleton _, fun x hx y hy e =>
      hjobs (List.mem_singleton.mp hy ▸ e ▸ hx)⟩

/-- `d` is registered at a promise that has not settled. -/
theorem register_sound (hw : Sound w) {s' : State κ} (hd : w.state d = some s') (hs' : s'.refers? = none)
    (hnone : w.outcome d = none) {source : Nat} (hsource : s.source? = some source)
    (hmade : (w.state source).isSome) (hs : ∀ o, s ≠ .settled o) (hopen : w.outcome source = none) :
    Sound { w.set d s with reactions := Function.update w.reactions source (w.reactions source ++ [d]) } := by
  obtain ⟨hjobs, hreactions⟩ := hw.idle hd hs'
  have hout := set_outcome hnone hs
  have hmem {p x : Nat} : x ∈ Function.update w.reactions source (w.reactions source ++ [d]) p ↔
      x ∈ w.reactions p ∨ p = source ∧ x = d := by
    by_cases hp : p = source
    · subst hp
      rw [Function.update_self, List.mem_append, List.mem_singleton, eq_self_iff_true, true_and]
    · rw [Function.update_of_ne hp]
      exact ⟨.inl, fun h => h.elim id fun h => absurd h.1 hp⟩
  refine ⟨set_bound hw (by rw [hd]; rfl), set_refers hw (fun p hp => ?_), ?_, ?_, ?_, ?_, ?_, hw.jobs_nodup, ?_⟩
  · cases hp.symm.trans (source_refers hsource)
    exact hmade
  · intro x p h
    rcases entry_of_update h with ⟨-, h⟩ | ⟨-, h⟩
    · cases h
      cases hsource
    · exact hw.adopting x p h
  · intro x s' p h hp hdone
    have hdone : (w.outcome p).isSome := hout p ▸ hdone
    rcases entry_of_update h with ⟨-, h⟩ | ⟨-, h⟩
    · cases h
      cases hp.symm.trans hsource
      rw [hopen] at hdone
      cases hdone
    · exact hw.queued x s' p h hp hdone
  · intro x s' p h hp hopen
    rcases entry_of_update h with ⟨hx, hs'⟩ | ⟨-, h⟩
    · cases hs'
      cases hp.symm.trans hsource
      exact hmem.mpr (.inr ⟨rfl, hx⟩)
    · exact hmem.mpr (.inl (hw.registered x s' p h hp (hout p ▸ hopen)))
  · intro x hx
    obtain ⟨s', h, hready⟩ := hw.jobs x hx
    have hne : x ≠ d := fun e => hjobs (e ▸ hx)
    exact ⟨s', (Function.update_of_ne hne ..).trans h, (ready_set hnone hs).mpr hready⟩
  · intro p x hx
    rcases hmem.mp hx with hx | ⟨rfl, rfl⟩
    · obtain ⟨hopen, s', h, hsource⟩ := hw.reactions p x hx
      have hne : x ≠ d := fun e => hreactions p (e ▸ hx)
      exact ⟨(hout p).trans hopen, s', (Function.update_of_ne hne ..).trans h, hsource⟩
    · exact ⟨(hout p).trans hopen, s, Function.update_self .., hsource⟩
  · intro p
    by_cases hp : p = source
    · subst hp
      change (Function.update w.reactions p (w.reactions p ++ [d]) p).Nodup
      rw [Function.update_self]
      exact List.nodup_append.mpr ⟨hw.reactions_nodup p, List.nodup_singleton _, fun x hx y hy e =>
        hreactions p (List.mem_singleton.mp hy ▸ e ▸ hx)⟩
    · change (Function.update w.reactions source (w.reactions source ++ [d]) p).Nodup
      rw [Function.update_of_ne hp]
      exact hw.reactions_nodup p

/-- `d` settles, and its reactions are queued. -/
theorem settle_sound (hw : Sound w) {s' : State κ} (hd : w.state d = some s') (hs' : s'.refers? = none)
    (hnone : w.outcome d = none) (o : Outcome) : Sound (w.become d (.settled o)) := by
  obtain ⟨hjobs, hreactions⟩ := hw.idle hd hs'
  have hself : (w.set d (.settled o)).outcome d = some o := outcome_eq_some.mpr (Function.update_self ..)
  have hother {p : Nat} (hp : p ≠ d) : (w.set d (.settled o)).outcome p = w.outcome p :=
    outcome_congr (Function.update_of_ne hp ..)
  have hgrows {p : Nat} (h : (w.outcome p).isSome) : ((w.set d (.settled o)).outcome p).isSome := by
    by_cases hp : p = d
    · rw [hp, hself]
      rfl
    · rwa [hother hp]
  refine ⟨set_bound hw (by rw [hd]; rfl), set_refers hw (by rintro p ⟨⟩), ?_, ?_, ?_, ?_, ?_, ?_, ?_⟩
  · intro x p h
    rcases entry_of_update h with ⟨-, ⟨⟩⟩ | ⟨-, h⟩
    exact List.mem_append_left _ (hw.adopting x p h)
  · intro x s' p h hp hdone
    rcases entry_of_update h with ⟨-, h⟩ | ⟨-, h⟩
    · cases h
      cases hp
    · by_cases hpd : p = d
      · rw [hpd] at hp
        exact List.mem_append_right _ (hw.registered x s' d h hp hnone)
      · exact List.mem_append_left _ (hw.queued x s' p h hp (hother hpd ▸ hdone))
  · intro x s' p h hp hopen
    have hpd : p ≠ d := by
      rintro rfl
      cases hself.symm.trans hopen
    rcases entry_of_update h with ⟨-, h⟩ | ⟨-, h⟩
    · cases h
      cases hp
    · change x ∈ Function.update w.reactions d [] p
      rw [Function.update_of_ne hpd]
      exact hw.registered x s' p h hp ((hother hpd).symm.trans hopen)
  · intro x hx
    rcases List.mem_append.mp hx with hx | hx
    · obtain ⟨s', h, hready⟩ := hw.jobs x hx
      have hne : x ≠ d := fun e => hjobs (e ▸ hx)
      exact ⟨s', (Function.update_of_ne hne ..).trans h,
        hready.imp_right fun ⟨source, hsource, hdone⟩ => ⟨source, hsource, hgrows hdone⟩⟩
    · obtain ⟨-, s', h, hsource⟩ := hw.reactions d x hx
      have hne : x ≠ d := fun e => hreactions d (e ▸ hx)
      exact ⟨s', (Function.update_of_ne hne ..).trans h, .inr ⟨d, hsource, Option.isSome_iff_exists.mpr ⟨o, hself⟩⟩⟩
  · intro p x hx
    have hx : x ∈ Function.update w.reactions d [] p := hx
    by_cases hpd : p = d
    · rw [hpd, Function.update_self] at hx
      cases hx
    · rw [Function.update_of_ne hpd] at hx
      obtain ⟨hopen, s', h, hsource⟩ := hw.reactions p x hx
      have hne : x ≠ d := fun e => hreactions p (e ▸ hx)
      exact ⟨(hother hpd).trans hopen, s', (Function.update_of_ne hne ..).trans h, hsource⟩
  · refine List.nodup_append.mpr ⟨hw.jobs_nodup, hw.reactions_nodup d, fun x hx y hy e => ?_⟩
    subst e
    obtain ⟨s', h, hready⟩ := hw.jobs x hx
    obtain ⟨hopen, s'', h', hsource⟩ := hw.reactions d x hy
    cases h.symm.trans h'
    rcases hready with ⟨source, rfl⟩ | ⟨source, hsource', hdone⟩
    · cases hsource
    · cases hsource.symm.trans hsource'
      rw [hopen] at hdone
      cases hdone
  · intro p
    change (Function.update w.reactions d [] p).Nodup
    by_cases hpd : p = d
    · rw [hpd, Function.update_self]
      exact List.nodup_nil
    · rw [Function.update_of_ne hpd]
      exact hw.reactions_nodup p

/-- What the program does with a promise in its hands. -/
theorem become_sound (hw : Sound w) {s' : State κ} (hd : w.state d = some s') (hs' : s'.refers? = none)
    (hnone : w.outcome d = none) (hrefers : ∀ p, s.refers? = some p → (w.state p).isSome) :
    Sound (w.become d s) := by
  cases s with
  | external | called => exact quiet_sound hw hd hs' hnone rfl (by rintro _ ⟨⟩)
  | adopts source => exact enqueue_sound hw hd hs' hnone hrefers (by rintro _ ⟨⟩) (.inl ⟨source, rfl⟩)
  | settled o => exact settle_sound hw hd hs' hnone o
  | derived source | follows source =>
    rw [become]
    split
    · exact enqueue_sound hw hd hs' hnone hrefers (by rintro _ ⟨⟩) (.inr ⟨source, rfl, ‹_›⟩)
    · exact register_sound hw hd hs' hnone rfl (hrefers source rfl) (by rintro _ ⟨⟩)
        (Option.not_isSome_iff_eq_none.mp ‹_›)

end

theorem new_sound : Sound (.new : World κ) := by
  refine ⟨?_, ?_, ?_, ?_, ?_, ?_, ?_, List.nodup_nil, fun _ => List.nodup_nil⟩ <;> intros <;> contradiction

/-! ## A new promise -/

/-- A new promise, with no reactions yet. -/
theorem make_sound {w : World κ} (hw : Sound w) : Sound w.make := by
  have hnew : w.state w.made = none := by
    cases h : w.state w.made with
    | none => rfl
    | some s => exact absurd (hw.bound _ s h) (Nat.lt_irrefl _)
  have hnone : w.outcome w.made = none := by rw [outcome, hnew]
  have hout := set_outcome (s := .external) hnone (by rintro _ ⟨⟩)
  have hfresh {d : Nat} {s : State κ} (h : w.state d = some s) : d ≠ w.made := by
    rintro rfl
    cases hnew.symm.trans h
  refine ⟨?_, ?_, ?_, ?_, ?_, ?_, ?_, hw.jobs_nodup, hw.reactions_nodup⟩
  · intro p s h
    rcases entry_of_update h with ⟨rfl, -⟩ | ⟨-, h⟩
    · exact Nat.lt_succ_self _
    · exact Nat.lt_succ_of_lt (hw.bound p s h)
  · intro d s p h hp
    rcases entry_of_update h with ⟨-, h⟩ | ⟨-, h⟩
    · cases h
      cases hp
    · exact set_isSome (hw.refers d s p h hp)
  · intro d p h
    rcases entry_of_update h with ⟨-, ⟨⟩⟩ | ⟨-, h⟩
    exact hw.adopting d p h
  · intro d s p h hp hdone
    rcases entry_of_update h with ⟨-, h⟩ | ⟨-, h⟩
    · cases h
      cases hp
    · exact hw.queued d s p h hp (hout p ▸ hdone)
  · intro d s p h hp hopen
    rcases entry_of_update h with ⟨-, h⟩ | ⟨-, h⟩
    · cases h
      cases hp
    · exact hw.registered d s p h hp (hout p ▸ hopen)
  · intro d hd
    obtain ⟨s, h, hready⟩ := hw.jobs d hd
    exact ⟨s, (Function.update_of_ne (hfresh h) ..).trans h, (ready_set hnone (by rintro _ ⟨⟩)).mpr hready⟩
  · intro p d hd
    obtain ⟨hopen, s, h, hsource⟩ := hw.reactions p d hd
    exact ⟨(hout p).trans hopen, s, (Function.update_of_ne (hfresh h) ..).trans h, hsource⟩

theorem make_external (w : World κ) : w.make.state w.made = some .external := Function.update_self ..

theorem made_ne {w : World κ} (hw : Sound w) {p : Nat} {s : State κ} (h : w.state p = some s) : p ≠ w.made :=
  Nat.ne_of_lt (hw.bound p s h)

theorem makeResolved_sound {w : World κ} (hw : Sound w) : Sound w.makeResolved :=
  become_sound (make_sound hw) (make_external w) rfl (outcome_eq_none (make_external w) (by rintro _ ⟨⟩))
    (by rintro _ ⟨⟩)

theorem derive_sound {w : World κ} (hw : Sound w) {source : Nat} (h : (w.state source).isSome)
    (onFulfilled onRejected : Option κ) : Sound (w.derive source onFulfilled onRejected) := by
  refine become_sound (make_sound hw) (make_external w) rfl
    (outcome_eq_none (make_external w) (by rintro _ ⟨⟩)) ?_
  rintro p ⟨⟩
  exact set_isSome h

/-! ## Jobs -/

/-- What the first job does: its promise `d`, and the callback it calls. -/
inductive JobMoves (w w' : World κ) (d : Nat) : Option (Nat × κ) → Prop
  /-- `then` without a callback for this outcome -/
  | passes (source : Nat) (onFulfilled onRejected : Option κ) (o : Outcome)
    (hd : w.state d = some (.derived source onFulfilled onRejected)) (hsource : w.outcome source = some o)
    (hnone : handler onFulfilled onRejected o = none) (hd' : w'.state d = some (.settled o)) : JobMoves w w' d none
  | calls (source : Nat) (onFulfilled onRejected : Option κ) (o : Outcome) (callback : κ)
    (hd : w.state d = some (.derived source onFulfilled onRejected)) (hsource : w.outcome source = some o)
    (hcallback : handler onFulfilled onRejected o = some callback) (hd' : w'.state d = some .called) :
    JobMoves w w' d (some (d, callback))
  | adopts (source : Nat) (hd : w.state d = some (.adopts source)) (hd' : w'.state d = some (.follows source)) :
    JobMoves w w' d none
  | follows (source : Nat) (o : Outcome) (hd : w.state d = some (.follows source))
    (hsource : w.outcome source = some o) (hd' : w'.state d = some (.settled o)) : JobMoves w w' d none

/-- The promise of the first job is taken from the queue. -/
theorem take_sound {w : World κ} (hw : Sound w) {d : Nat} {jobs : List Nat} (hjobs : w.jobs = d :: jobs) :
    Sound { w.set d .called with jobs := jobs } := by
  obtain ⟨s, hd, hready⟩ := hw.jobs d (by rw [hjobs]; exact List.mem_cons_self)
  have hs : ∀ o, s ≠ .settled o := by
    rintro o rfl
    rcases hready with ⟨_, ⟨⟩⟩ | ⟨_, ⟨⟩, -⟩
  have hnone : w.outcome d = none := outcome_eq_none hd hs
  have hout := set_outcome (s := .called) hnone (by rintro _ ⟨⟩)
  have hnodup : d ∉ jobs ∧ jobs.Nodup := List.nodup_cons.mp (hjobs ▸ hw.jobs_nodup)
  have hrest {x : Nat} (hx : x ∈ w.jobs) (hne : x ≠ d) : x ∈ jobs := by
    rw [hjobs] at hx
    exact (List.mem_cons.mp hx).resolve_left hne
  refine ⟨set_bound hw (by rw [hd]; rfl), set_refers hw (by rintro _ ⟨⟩), ?_, ?_, ?_, ?_, ?_, hnodup.2, hw.reactions_nodup⟩
  · intro x p h
    rcases entry_of_update h with ⟨-, ⟨⟩⟩ | ⟨hne, h⟩
    exact hrest (hw.adopting x p h) hne
  · intro x s' p h hp hdone
    rcases entry_of_update h with ⟨-, h⟩ | ⟨hne, h⟩
    · cases h
      cases hp
    · exact hrest (hw.queued x s' p h hp (hout p ▸ hdone)) hne
  · intro x s' p h hp hopen
    rcases entry_of_update h with ⟨-, h⟩ | ⟨hne, h⟩
    · cases h
      cases hp
    · exact hw.registered x s' p h hp (hout p ▸ hopen)
  · intro x hx
    obtain ⟨s', h, hready'⟩ := hw.jobs x (hjobs ▸ List.mem_cons_of_mem _ hx)
    have hne : x ≠ d := fun e => hnodup.1 (e ▸ hx)
    exact ⟨s', (Function.update_of_ne hne ..).trans h, (ready_set hnone (by rintro _ ⟨⟩)).mpr hready'⟩
  · intro p x hx
    obtain ⟨hopen, s', h, hsource⟩ := hw.reactions p x hx
    have hne : x ≠ d := by
      rintro rfl
      cases hd.symm.trans h
      rcases hready with ⟨source, rfl⟩ | ⟨source, hsource', hdone⟩
      · cases hsource
      · cases hsource.symm.trans hsource'
        rw [hopen] at hdone
        cases hdone
    exact ⟨(hout p).trans hopen, s', (Function.update_of_ne hne ..).trans h, hsource⟩

/-- A job works on one promise, and keeps `Sound`. -/
theorem runJob_sound {w w' : World κ} {call : Option (Nat × κ)} (hw : Sound w) (h : w.runJob = some (w', call)) :
    Sound w' ∧ ∃ d, (∀ x, x ≠ d → w'.state x = w.state x) ∧ JobMoves w w' d call := by
  cases hjobs : w.jobs with
  | nil => simp [runJob, hjobs] at h
  | cons d jobs =>
    have htake := take_sound hw hjobs
    have hcalled : ({ w.set d .called with jobs := jobs } : World κ).state d = some .called := Function.update_self ..
    have hbecome (s : State κ) : (({ w.set d .called with jobs := jobs } : World κ).become d s).state =
        Function.update w.state d (some s) := by
      rw [become_state]
      exact Function.update_idem ..
    have hself (s : State κ) : (({ w.set d .called with jobs := jobs } : World κ).become d s).state d = some s := by
      rw [hbecome, Function.update_self]
    have hother (s : State κ) (x : Nat) (hx : x ≠ d) :
        (({ w.set d .called with jobs := jobs } : World κ).become d s).state x = w.state x := by
      rw [hbecome, Function.update_of_ne hx]
    have hsettle (o : Outcome) := settle_sound htake hcalled rfl (outcome_eq_none hcalled (by rintro _ ⟨⟩)) o
    simp only [runJob, hjobs] at h
    split at h
    · rename_i source onFulfilled onRejected hd
      split at h
      · rename_i o ho
        split at h
        · rename_i callback hcallback
          cases h
          exact ⟨htake, d, fun x hx => Function.update_of_ne hx .., .calls _ _ _ o callback hd ho hcallback hcalled⟩
        · rename_i hnone
          cases h
          exact ⟨hsettle o, d, hother _, .passes _ _ _ o hd ho hnone (hself _)⟩
      · cases h
    · rename_i source hd
      cases h
      refine ⟨become_sound htake hcalled rfl (outcome_eq_none hcalled (by rintro _ ⟨⟩)) ?_, d, hother _,
        .adopts source hd (hself _)⟩
      rintro p ⟨⟩
      exact set_isSome (hw.refers d _ source hd rfl)
    · rename_i source hd
      obtain ⟨o, ho, h⟩ := Option.map_eq_some_iff.mp h
      cases h
      exact ⟨hsettle o, d, hother _, .follows source o hd ho (hself _)⟩
    · cases h

/-- A job that is queued can run. -/
theorem runJob_enabled {w : World κ} (hw : Sound w) (h : w.jobs ≠ []) : ∃ w' call, w.runJob = some (w', call) := by
  cases hjobs : w.jobs with
  | nil => exact absurd hjobs h
  | cons d jobs =>
    obtain ⟨s, hd, hready⟩ := hw.jobs d (by rw [hjobs]; exact List.mem_cons_self)
    simp only [runJob, hjobs, hd]
    rcases hready with ⟨source, rfl⟩ | ⟨source, hsource, hdone⟩
    · exact ⟨_, _, rfl⟩
    · obtain ⟨o, ho⟩ := Option.isSome_iff_exists.mp hdone
      cases s with
      | derived source' onFulfilled onRejected =>
        cases hsource
        simp only [ho]
        cases handler onFulfilled onRejected o <;> exact ⟨_, _, rfl⟩
      | follows source' =>
        cases hsource
        exact ⟨_, _, Option.map_eq_some_iff.mpr ⟨o, ho, rfl⟩⟩
      | external | called | adopts | settled => cases hsource

/-- With no jobs left, a promise that waits does so for one that has not settled. -/
theorem Sound.waits {w : World κ} (hw : Sound w) (h : w.jobs = []) {d p : Nat} {s : State κ}
    (hd : w.state d = some s) (hp : s.refers? = some p) : s.source? = some p ∧ w.outcome p = none := by
  have hsource : s.source? = some p := by
    cases s with
    | adopts source =>
      cases hp
      have hmem := hw.adopting d p hd
      rw [h] at hmem
      cases hmem
    | derived | follows => exact hp
    | external | called | settled => cases hp
  refine ⟨hsource, ?_⟩
  cases ho : w.outcome p with
  | none => rfl
  | some o =>
    have hmem := hw.queued d s p hd hsource (by rw [ho]; rfl)
    rw [h] at hmem
    cases hmem

/-! ## The jobs run out -/

/-- The weights of the promises below `n`, added up. -/
def total (weight : Option (State κ) → Nat) (state : Nat → Option (State κ)) : Nat → Nat
  | 0 => 0
  | n + 1 => total weight state n + weight (state n)

theorem total_congr {weight : Option (State κ) → Nat} {state state' : Nat → Option (State κ)} {n : Nat}
    (h : ∀ x, x < n → state' x = state x) : total weight state' n = total weight state n := by
  induction n with
  | zero => rfl
  | succ n ih => rw [total, total, ih fun x hx => h x (Nat.lt_succ_of_lt hx), h n (Nat.lt_succ_self n)]

/-- One promise changes. -/
theorem total_change {weight : Option (State κ) → Nat} {state state' : Nat → Option (State κ)} {d n : Nat}
    (hd : d < n) (h : ∀ x, x ≠ d → x < n → state' x = state x) :
    total weight state' n + weight (state d) = total weight state n + weight (state' d) := by
  induction n with
  | zero => exact absurd hd (Nat.not_lt_zero d)
  | succ n ih =>
    rw [total, total]
    rcases Nat.lt_or_eq_of_le (Nat.le_of_lt_succ hd) with hdn | rfl
    · have hrest := ih hdn fun x hx hxn => h x hx (Nat.lt_succ_of_lt hxn)
      have hlast : state' n = state n := h n (Nat.ne_of_gt hdn) (Nat.lt_succ_self n)
      rw [hlast]
      omega
    · have hrest : total weight state' d = total weight state d :=
        total_congr fun x hx => h x (Nat.ne_of_lt hx) (Nat.lt_succ_of_lt hx)
      omega

theorem runJob_made {w w' : World κ} {call : Option (Nat × κ)} (h : w.runJob = some (w', call)) :
    w'.made = w.made := by
  rw [runJob] at h
  split at h
  · cases h
  · split at h
    · split at h
      · split at h <;> cases h
        · rfl
        · exact become_made ..
      · cases h
    · cases h
      exact become_made ..
    · obtain ⟨o, -, h⟩ := Option.map_eq_some_iff.mp h
      cases h
      exact become_made ..
    · cases h

/-! ## What is settled stays settled -/

def World.Done (w : World κ) (p : Nat) : Prop := ∃ o, w.state p = some (.settled o)

/-- The promise `d` was resolved with `source`: it settles after it. -/
def World.Resolving (w : World κ) (d source : Nat) : Prop :=
  w.state d = some (.adopts source) ∨ w.state d = some (.follows source) ∨ w.Done d ∧ w.Done source

/-- What holds on, whatever happens to other promises. -/
structure Grows (w w' : World κ) : Prop where
  settled : ∀ p o, w.state p = some (.settled o) → w'.state p = some (.settled o)
  resolving : ∀ d source, w.Resolving d source → w'.Resolving d source

theorem Grows.refl (w : World κ) : Grows w w := ⟨fun _ _ h => h, fun _ _ h => h⟩

theorem Grows.trans {w w' w'' : World κ} (a : Grows w w') (b : Grows w' w'') : Grows w w'' :=
  ⟨fun p o h => b.settled p o (a.settled p o h), fun d source h => b.resolving d source (a.resolving d source h)⟩

theorem Grows.done {w w' : World κ} (h : Grows w w') {p : Nat} : w.Done p → w'.Done p :=
  fun ⟨o, hp⟩ => ⟨o, h.settled p o hp⟩

theorem World.Resolving.done {w : World κ} {d source : Nat} (h : w.Resolving d source) (hd : w.Done d) :
    w.Done source := by
  obtain ⟨o, hd⟩ := hd
  rcases h with h | h | ⟨-, h⟩
  · cases hd.symm.trans h
  · cases hd.symm.trans h
  · exact h

/-- A step that changes one promise, which is not settled. -/
theorem grows_of_change {w w' : World κ} {d : Nat} (hother : ∀ x, x ≠ d → w'.state x = w.state x)
    (hopen : ∀ o, w.state d ≠ some (.settled o))
    (hresolving : ∀ p, w.state d = some (.adopts p) ∨ w.state d = some (.follows p) → w'.Resolving d p) :
    Grows w w' := by
  have hsettled {p : Nat} {o : Outcome} (h : w.state p = some (.settled o)) : w'.state p = some (.settled o) := by
    refine (hother p ?_).trans h
    rintro rfl
    exact hopen o h
  refine ⟨fun p o => hsettled, fun x source h => ?_⟩
  by_cases hx : x = d
  · subst hx
    rcases h with h | h | ⟨⟨o, h⟩, -⟩
    · exact hresolving source (.inl h)
    · exact hresolving source (.inr h)
    · exact absurd h (hopen o)
  · rcases h with h | h | ⟨⟨o, h⟩, ⟨o', h'⟩⟩
    · exact .inl ((hother x hx).trans h)
    · exact .inr (.inl ((hother x hx).trans h))
    · exact .inr (.inr ⟨⟨o, hsettled h⟩, ⟨o', hsettled h'⟩⟩)

/-- The same for one in the hands of the program. -/
theorem grows_of_idle {w w' : World κ} {d : Nat} {s : State κ} (hother : ∀ x, x ≠ d → w'.state x = w.state x)
    (hd : w.state d = some s) (hs : s.refers? = none) (hopen : ∀ o, s ≠ .settled o) : Grows w w' := by
  refine grows_of_change hother (fun o h => ?_) fun p h => ?_
  · cases hd.symm.trans h
    exact hopen o rfl
  · rcases h with h | h
    · cases hd.symm.trans h
      cases hs
    · cases hd.symm.trans h
      cases hs

theorem JobMoves.grows {w w' : World κ} {d : Nat} {call : Option (Nat × κ)}
    (hother : ∀ x, x ≠ d → w'.state x = w.state x) (h : JobMoves w w' d call) : Grows w w' := by
  cases h with
  | passes source _ _ o hd | calls source _ _ o callback hd =>
    refine grows_of_change hother (fun o h => ?_) fun p h => ?_
    · cases hd.symm.trans h
    · rcases h with h | h <;> cases hd.symm.trans h
  | adopts source hd hd' =>
    refine grows_of_change hother (fun o h => ?_) fun p h => ?_
    · cases hd.symm.trans h
    · rcases h with h | h <;> cases hd.symm.trans h
      exact .inr (.inl hd')
  | follows source o hd hsource hd' =>
    have hne : source ≠ d := by
      rintro rfl
      cases hd.symm.trans (outcome_eq_some.mp hsource)
    refine grows_of_change hother (fun o h => ?_) fun p h => ?_
    · cases hd.symm.trans h
    · rcases h with h | h <;> cases hd.symm.trans h
      exact .inr (.inr ⟨⟨o, hd'⟩, ⟨o, (hother source hne).trans (outcome_eq_some.mp hsource)⟩⟩)

/-- New promises only. -/
def Extends (w w' : World κ) : Prop := ∀ x s, w.state x = some s → w'.state x = some s

theorem Extends.trans {w w' w'' : World κ} (a : Extends w w') (b : Extends w' w'') : Extends w w'' :=
  fun x s h => b x s (a x s h)

theorem Extends.grows {w w' : World κ} (h : Extends w w') : Grows w w' :=
  ⟨fun p _ => h p _, fun d source hd => hd.imp (h d _) (Or.imp (h d _) fun ⟨⟨o, hd⟩, ⟨o', hs⟩⟩ =>
    ⟨⟨o, h d _ hd⟩, ⟨o', h source _ hs⟩⟩)⟩

/-- A promise with the next number, whatever its state. -/
theorem extends_of_update {w w' : World κ} (hw : Sound w) {s : State κ}
    (h : w'.state = Function.update w.state w.made (some s)) : Extends w w' := by
  intro x s' hx
  rw [h, Function.update_of_ne (made_ne hw hx)]
  exact hx

theorem make_extends {w : World κ} (hw : Sound w) : Extends w w.make := extends_of_update hw rfl

theorem makeResolved_extends {w : World κ} (hw : Sound w) : Extends w w.makeResolved :=
  extends_of_update hw (makeResolved_state w)

theorem derive_extends {w : World κ} (hw : Sound w) (source : Nat) (onFulfilled onRejected : Option κ) :
    Extends w (w.derive source onFulfilled onRejected) :=
  extends_of_update hw (derive_state ..)

end KW.Promises
