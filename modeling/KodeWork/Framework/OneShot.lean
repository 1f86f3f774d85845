import KodeWork.Framework.Machine
import Mathlib.Data.List.Nodup

/-!
# Requests that are answered once

A desk keeps the requests that wait for an answer in two tables. An asker draws
an id, enters the sender of a one-shot channel into `requests` and then a notice
for its owner into `pending`; it waits, and takes both out again. A call takes
the sender of a request out of the table and sends an answer through it, or
drops it, and takes notices out. No access touches both tables, and the accesses
of all askers and calls interleave.

`Step d x e` says what one access makes of the desk `d`; it is about the request
`x`, if about any, and leaves all others alone (`Step.untouched`). `Inv` holds
in every run: an id belongs to one asker, its sender is in one place, and the
tables have no id whose asker has ended (`Inv.no_ghost`). So a request is
answered once (`Inv.once`), and an asker receives an answer to its own request
(`Inv.received`). A request that belongs to an owner does so for good
(`OwnedBy.step`).

A machine that works on its desk by such steps (`Broker.Refines`) keeps the
contract its users rely on (`Broker.Contract`).
-/

namespace KW.OneShot

universe u v

/-- A one-shot channel. -/
structure Channel (α : Type v) where
  value : Option α
  senderDropped : Bool
  receiverDropped : Bool
deriving DecidableEq, Repr

def Channel.new {α : Type v} : Channel α := ⟨none, false, false⟩

/-- How far an asker is. -/
inductive Phase
  /-- it has no id yet -/
  | outside
  /-- before it enters its sender -/
  | insert
  /-- before it enters its notice -/
  | push
  | wait
  /-- before it takes its sender out -/
  | forgetRequest
  /-- before it takes its notice out -/
  | forgetPending
  | ended
deriving DecidableEq, Repr

namespace Phase

/-- Its sender may be in the table. -/
def registered : Phase → Bool
  | push | wait | forgetRequest => true
  | _ => false

/-- Its notice may be in the list. -/
def noticed : Phase → Bool
  | wait | forgetRequest | forgetPending => true
  | _ => false

/-- It has entered its sender. -/
def entered : Phase → Bool
  | outside | insert => false
  | _ => true

end Phase

structure Asker (ω : Type u) (α : Type v) where
  owner : ω
  id : Option Nat
  phase : Phase
  received : Option α

structure Desk (ω : Type u) (α : Type v) where
  requests : List Nat
  pending : List (Nat × ω)
  nextId : Nat
  /-- The value in the channel of each request. -/
  values : Nat → Option α
  askers : List (Asker ω α)
  /-- The request whose sender each call has in hand. -/
  held : List (Option Nat)
  /-- Every answer ever sent, with its request. -/
  delivered : List (Nat × α)

variable {ω : Type u} {α : Type v}

/-- The asker numbered `i` goes on as `q`. -/
def Desk.go (d : Desk ω α) (i : Nat) (q : Asker ω α) : Desk ω α :=
  { d with askers := d.askers.set i q }

/-- The sender is out of the table. -/
def Desk.dropRequest (d : Desk ω α) (id : Nat) : Desk ω α :=
  { d with requests := d.requests.filter (· ≠ id) }

/-- The notice is out of the list. -/
def Desk.dropPending (d : Desk ω α) (id : Nat) : Desk ω α :=
  { d with pending := d.pending.filter fun p => p.1 ≠ id }

/-- One access of an asker or a call. -/
inductive Step (d : Desk ω α) : Option Nat → Desk ω α → Prop
  | idle (x : Option Nat) : Step d x d
  | ask (owner : ω) : Step d none { d with askers := d.askers ++ [⟨owner, none, .outside, none⟩] }
  | draw {i : Nat} {q : Asker ω α} (hq : d.askers[i]? = some q) (hp : q.phase = .outside) :
      Step d none ({ d with nextId := d.nextId + 1 }.go i { q with id := some d.nextId, phase := .insert })
  | insert {i id : Nat} {q : Asker ω α} (hq : d.askers[i]? = some q) (hid : q.id = some id)
      (hp : q.phase = .insert) :
      Step d (some id) ({ d with requests := d.requests.insert id }.go i { q with phase := .push })
  | push {i id : Nat} {q : Asker ω α} (hq : d.askers[i]? = some q) (hid : q.id = some id)
      (hp : q.phase = .push) :
      Step d (some id)
        ({ d with pending := d.pending ++ [(id, q.owner)] }.go i { q with phase := .wait })
  | receive {i id : Nat} {q : Asker ω α} {a : α} (hq : d.askers[i]? = some q) (hid : q.id = some id)
      (hp : q.phase = .wait) (ha : d.values id = some a) :
      Step d (some id) (d.go i { q with phase := .forgetRequest, received := some a })
  /-- Without an answer. -/
  | leave {i id : Nat} {q : Asker ω α} (hq : d.askers[i]? = some q) (hid : q.id = some id)
      (hp : q.phase = .wait) : Step d (some id) (d.go i { q with phase := .forgetRequest })
  | forgetRequest {i id : Nat} {q : Asker ω α} (hq : d.askers[i]? = some q) (hid : q.id = some id)
      (hp : q.phase = .forgetRequest) :
      Step d (some id) ((d.dropRequest id).go i { q with phase := .forgetPending })
  | forgetPending {i id : Nat} {q : Asker ω α} (hq : d.askers[i]? = some q) (hid : q.id = some id)
      (hp : q.phase = .forgetPending) :
      Step d (some id) ((d.dropPending id).go i { q with phase := .ended })
  /-- An asker that has asked for nothing returns. -/
  | finish {i : Nat} {q : Asker ω α} (hq : d.askers[i]? = some q) (hp : q.phase = .outside) :
      Step d none (d.go i { q with phase := .ended })
  | call : Step d none { d with held := d.held ++ [none] }
  | take {n id : Nat} (hn : d.held[n]? = some none) (hid : id ∈ d.requests) :
      Step d (some id) { d.dropRequest id with held := d.held.set n (some id) }
  | discard (id : Nat) : Step d (some id) (d.dropRequest id)
  | send {n id : Nat} (a : α) (hn : d.held[n]? = some (some id)) :
      Step d (some id) { d with
        values := Function.update d.values id (some a)
        delivered := d.delivered ++ [(id, a)]
        held := d.held.set n none }
  /-- The receiver of the channel is gone. -/
  | lose {n id : Nat} (hn : d.held[n]? = some (some id)) :
      Step d (some id) { d with held := d.held.set n none }
  | retain (id : Nat) : Step d (some id) (d.dropPending id)

/-! ## Requests left alone -/

/-- Neither the tables nor the channel of the request have changed. -/
structure Untouched (id : Nat) (d e : Desk ω α) : Prop where
  requests : id ∈ e.requests ↔ id ∈ d.requests
  pending : ∀ owner, (id, owner) ∈ e.pending ↔ (id, owner) ∈ d.pending
  value : e.values id = d.values id
  delivered : ∀ a, (id, a) ∈ e.delivered ↔ (id, a) ∈ d.delivered

theorem Untouched.refl (id : Nat) (d : Desk ω α) : Untouched id d d :=
  ⟨Iff.rfl, fun _ => Iff.rfl, rfl, fun _ => Iff.rfl⟩

theorem Step.untouched {d e : Desk ω α} {x : Option Nat} (h : Step d x e) {id : Nat}
    (hx : x ≠ some id) : Untouched id d e := by
  have ne : ∀ {j : Nat}, x = some j → id ≠ j := by
    rintro j rfl rfl
    exact hx rfl
  have dropped : ∀ {j : Nat}, id ≠ j → (id ∈ d.requests.filter (· ≠ j) ↔ id ∈ d.requests) := by
    intro j hj
    simp [List.mem_filter, hj]
  have cleared : ∀ {j : Nat}, id ≠ j → ∀ owner,
      ((id, owner) ∈ d.pending.filter (fun p => p.1 ≠ j) ↔ (id, owner) ∈ d.pending) := by
    intro j hj owner
    simp [List.mem_filter, hj]
  cases h with
  | idle | ask | draw | receive | leave | finish | call | lose =>
    exact ⟨Iff.rfl, fun _ => Iff.rfl, rfl, fun _ => Iff.rfl⟩
  | insert hq hid hp => exact { Untouched.refl id d with
      requests := (List.mem_insert_iff).trans (or_iff_right (ne rfl)) }
  | push hq hid hp => exact { Untouched.refl id d with
      pending := fun owner => by simp [Desk.go, ne rfl] }
  | forgetRequest hq hid hp => exact { Untouched.refl id d with requests := dropped (ne rfl) }
  | forgetPending hq hid hp => exact { Untouched.refl id d with pending := cleared (ne rfl) }
  | take hn hid => exact { Untouched.refl id d with requests := dropped (ne rfl) }
  | discard j => exact { Untouched.refl id d with requests := dropped (ne rfl) }
  | send a hn => exact { Untouched.refl id d with
      value := Function.update_of_ne (ne rfl) _ _
      delivered := fun b => by simp [ne rfl] }
  | retain j => exact { Untouched.refl id d with pending := cleared (ne rfl) }

/-! ## The askers -/

/-- An asker with this id, at a phase in `φ`. -/
def Asked (askers : List (Asker ω α)) (id : Nat) (φ : Asker ω α → Prop) : Prop :=
  ∃ (i : Nat) (q : Asker ω α), askers[i]? = some q ∧ q.id = some id ∧ φ q

theorem Asked.mono {askers : List (Asker ω α)} {id : Nat} {φ ψ : Asker ω α → Prop}
    (h : Asked askers id φ) (hi : ∀ q, φ q → ψ q) : Asked askers id ψ := by
  obtain ⟨i, q, hq, hid, hp⟩ := h
  exact ⟨i, q, hq, hid, hi q hp⟩

theorem Asked.append {askers : List (Asker ω α)} {id : Nat} {φ : Asker ω α → Prop}
    (h : Asked askers id φ) (added : List (Asker ω α)) : Asked (askers ++ added) id φ := by
  obtain ⟨i, q, hq, hid, hp⟩ := h
  have hlt := (List.getElem?_eq_some_iff.mp hq).1
  exact ⟨i, q, (List.getElem?_append_left hlt).trans hq, hid, hp⟩

/-- One asker goes on. -/
theorem Asked.set {askers : List (Asker ω α)} {id i : Nat} {q q' : Asker ω α}
    {φ : Asker ω α → Prop} (h : Asked askers id φ) (hq : askers[i]? = some q)
    (hp : q.id = some id → φ q → q'.id = some id ∧ φ q') : Asked (askers.set i q') id φ := by
  obtain ⟨j, r, hr, hid, hφ⟩ := h
  by_cases e : j = i
  · subst e
    rw [hq] at hr
    cases hr
    exact ⟨j, q', List.getElem?_set_self (List.getElem?_eq_some_iff.mp hq).1, hp hid hφ⟩
  · exact ⟨j, r, (List.getElem?_set_ne (Ne.symm e)).trans hr, hid, hφ⟩

theorem Asked.self {askers : List (Asker ω α)} {id i : Nat} {q q' : Asker ω α}
    {φ : Asker ω α → Prop} (hq : askers[i]? = some q) (hid : q'.id = some id) (hp : φ q') :
    Asked (askers.set i q') id φ :=
  ⟨i, q', List.getElem?_set_self (List.getElem?_eq_some_iff.mp hq).1, hid, hp⟩

/-! ## The invariant -/

structure Inv (d : Desk ω α) : Prop where
  drawn : ∀ (i : Nat) q id, d.askers[i]? = some q → q.id = some id → id < d.nextId
  outside : ∀ (i : Nat) q, d.askers[i]? = some q → q.phase = .outside → q.id = none ∧ q.received = none
  distinct : ∀ (i j : Nat) q r id, d.askers[i]? = some q → d.askers[j]? = some r → q.id = some id →
    r.id = some id → i = j
  requests : ∀ id ∈ d.requests, Asked d.askers id fun q => q.phase.registered = true
  pending : ∀ p ∈ d.pending, Asked d.askers p.1 fun q => q.owner = p.2 ∧ q.phase.noticed = true
  /-- A sender in hand is out of the table, and has not been used. -/
  held : ∀ (n : Nat) id, d.held[n]? = some (some id) → id ∉ d.requests ∧ id ∉ d.delivered.map Prod.fst ∧
    Asked d.askers id fun q => q.phase.entered = true
  alone : ∀ (n m : Nat) id, d.held[n]? = some (some id) → d.held[m]? = some (some id) → n = m
  delivered : ∀ id ∈ d.delivered.map Prod.fst, id ∉ d.requests ∧
    Asked d.askers id fun q => q.phase.entered = true
  /-- A request is answered once. -/
  once : (d.delivered.map Prod.fst).Nodup
  values : ∀ id a, d.values id = some a ↔ (id, a) ∈ d.delivered
  /-- An asker receives an answer to its own request. -/
  received : ∀ (i : Nat) q a, d.askers[i]? = some q → q.received = some a →
    ∃ id, q.id = some id ∧ (id, a) ∈ d.delivered

namespace Inv

variable {d : Desk ω α}

/-- The tables do not mention the request of an asker that has ended. -/
theorem no_ghost (hi : Inv d) {i : Nat} {q : Asker ω α} {id : Nat} (hq : d.askers[i]? = some q)
    (hid : q.id = some id) (hp : q.phase = .ended) :
    id ∉ d.requests ∧ ∀ owner, (id, owner) ∉ d.pending := by
  refine ⟨fun h => ?_, fun owner h => ?_⟩
  · obtain ⟨j, r, hr, hrid, hphase⟩ := hi.requests id h
    obtain rfl := hi.distinct i j q r id hq hr hid hrid
    rw [hq] at hr
    cases hr
    rw [hp] at hphase
    cases hphase
  · obtain ⟨j, r, hr, hrid, -, hphase⟩ := hi.pending _ h
    obtain rfl := hi.distinct i j q r id hq hr hid hrid
    rw [hq] at hr
    cases hr
    rw [hp] at hphase
    cases hphase

/-- A notice is for the owner of its asker. -/
theorem pending_owner (hi : Inv d) {i : Nat} {q : Asker ω α} {id : Nat} {owner : ω}
    (hq : d.askers[i]? = some q) (hid : q.id = some id) (hp : (id, owner) ∈ d.pending) :
    q.owner = owner := by
  obtain ⟨j, r, hr, hrid, howner, -⟩ := hi.pending _ hp
  obtain rfl := hi.distinct i j q r id hq hr hid hrid
  rw [hq] at hr
  cases hr
  exact howner

/-- The sender of a request that has not been entered is in no one's hands. -/
theorem unused (hi : Inv d) {i : Nat} {q : Asker ω α} {id : Nat} (hq : d.askers[i]? = some q)
    (hid : q.id = some id) (hp : q.phase.entered = false) :
    ¬ Asked d.askers id fun r => r.phase.entered = true := by
  rintro ⟨j, r, hr, hrid, hphase⟩
  obtain rfl := hi.distinct i j q r id hq hr hid hrid
  rw [hq] at hr
  cases hr
  rw [hp] at hphase
  cases hphase

/-- Entries leave the tables. -/
theorem shrink (hi : Inv d) {requests : List Nat} {pending : List (Nat × ω)}
    (hr : ∀ id ∈ requests, id ∈ d.requests) (hp : ∀ p ∈ pending, p ∈ d.pending) :
    Inv { d with requests := requests, pending := pending } :=
  { hi with
    requests := fun id h => hi.requests id (hr id h)
    pending := fun p h => hi.pending p (hp p h)
    held := fun n id h =>
      have hheld := hi.held n id h
      ⟨fun hm => hheld.1 (hr id hm), hheld.2⟩
    delivered := fun id h =>
      have hdel := hi.delivered id h
      ⟨fun hm => hdel.1 (hr id hm), hdel.2⟩ }

/-- An asker goes on with its id: a table gets its entry, or loses it. -/
theorem move (hi : Inv d) {i id : Nat} {q q' : Asker ω α} {requests : List Nat}
    {pending : List (Nat × ω)} (hq : d.askers[i]? = some q) (hid : q.id = some id)
    (hid' : q'.id = some id) (howner : q'.owner = q.owner) (houtside : q'.phase ≠ .outside)
    (hentered : q.phase.entered = true → q'.phase.entered = true)
    (hr : ∀ x ∈ requests, (x ∈ d.requests ∧
      (x = id → q.phase.registered = true → q'.phase.registered = true)) ∨
      x = id ∧ q.phase.entered = false ∧ q'.phase.registered = true)
    (hp : ∀ p ∈ pending, (p ∈ d.pending ∧ (p.1 = id → q.phase.noticed = true → q'.phase.noticed = true)) ∨
      p = (id, q.owner) ∧ q'.phase.noticed = true)
    (hrec : q'.received = q.received ∨ ∃ a, q'.received = some a ∧ d.values id = some a) :
    Inv ({ d with requests := requests, pending := pending }.go i q') where
  drawn := by
    intro j r x hj hx
    rcases entry_of_set hj with ⟨rfl, rfl⟩ | ⟨-, hj⟩
    · cases hid'.symm.trans hx
      exact hi.drawn j q _ hq hid
    · exact hi.drawn j r x hj hx
  outside := by
    intro j r hj ho
    rcases entry_of_set hj with ⟨rfl, rfl⟩ | ⟨-, hj⟩
    · exact absurd ho houtside
    · exact hi.outside j r hj ho
  distinct := by
    -- every asker has the id it had
    have old : ∀ (j : Nat) (r : Asker ω α), (d.askers.set i q')[j]? = some r →
        ∃ r₀ : Asker ω α, d.askers[j]? = some r₀ ∧ r₀.id = r.id := by
      intro j r hj
      rcases entry_of_set hj with ⟨rfl, rfl⟩ | ⟨-, hj⟩
      · exact ⟨q, hq, hid.trans hid'.symm⟩
      · exact ⟨r, hj, rfl⟩
    intro j k r₁ r₂ x hj hk h₁ h₂
    obtain ⟨s₁, hs₁, e₁⟩ := old j r₁ hj
    obtain ⟨s₂, hs₂, e₂⟩ := old k r₂ hk
    exact hi.distinct j k s₁ s₂ x hs₁ hs₂ (e₁.trans h₁) (e₂.trans h₂)
  requests := by
    intro x hx
    rcases hr x hx with ⟨hx, hkeep⟩ | ⟨rfl, -, hreg⟩
    · refine (hi.requests x hx).set hq fun hxq hreg => ?_
      rw [hid] at hxq
      cases hxq
      exact ⟨hid', hkeep rfl hreg⟩
    · exact .self hq hid' hreg
  pending := by
    intro p hpm
    rcases hp p hpm with ⟨hpm, hkeep⟩ | ⟨rfl, hnot⟩
    · refine (hi.pending p hpm).set hq fun hxq hphase => ?_
      rw [hid] at hxq
      cases hxq
      exact ⟨hid', howner.trans hphase.1, hkeep rfl hphase.2⟩
    · exact .self hq hid' ⟨howner, hnot⟩
  held := by
    intro n x hn
    obtain ⟨hout, hdel, hask⟩ := hi.held n x hn
    refine ⟨fun hx => ?_, hdel, hask.set hq fun hxq hphase => ?_⟩
    · rcases hr x hx with ⟨hx, -⟩ | ⟨rfl, hnew, -⟩
      · exact hout hx
      · exact hi.unused hq hid hnew hask
    · exact ⟨hid'.trans (hid.symm.trans hxq), hentered hphase⟩
  alone := hi.alone
  delivered := by
    intro x hx
    obtain ⟨hout, hask⟩ := hi.delivered x hx
    refine ⟨fun hm => ?_, hask.set hq fun hxq hphase => ?_⟩
    · rcases hr x hm with ⟨hm, -⟩ | ⟨rfl, hnew, -⟩
      · exact hout hm
      · exact hi.unused hq hid hnew hask
    · exact ⟨hid'.trans (hid.symm.trans hxq), hentered hphase⟩
  once := hi.once
  values := hi.values
  received := by
    intro j r a hj ha
    rcases entry_of_set hj with ⟨rfl, rfl⟩ | ⟨-, hj⟩
    · rcases hrec with e | ⟨b, e, hb⟩
      · obtain ⟨x, hx, hdel⟩ := hi.received j q a hq (e ▸ ha)
        cases hid.symm.trans hx
        exact ⟨id, hid', hdel⟩
      · cases e.symm.trans ha
        exact ⟨id, hid', (hi.values id a).mp hb⟩
    · exact hi.received j r a hj ha

/-- An asker without an id goes on, with the next one or none. -/
theorem outsider (hi : Inv d) {i : Nat} {q q' : Asker ω α} {nextId : Nat} (hq : d.askers[i]? = some q)
    (hp : q.phase = .outside) (hrec : q'.received = q.received) (hphase : q'.phase ≠ .outside)
    (hnext : (q'.id = q.id ∧ nextId = d.nextId) ∨ q'.id = some d.nextId ∧ nextId = d.nextId + 1) :
    Inv ({ d with nextId := nextId }.go i q') := by
  obtain ⟨hnone, hnorec⟩ := hi.outside i q hq hp
  have hle : d.nextId ≤ nextId := by omega
  -- the other askers keep their ids, which differ from the next one
  have new : ∀ x, q'.id = some x → x = d.nextId ∧ x < nextId := by
    intro x hx
    rcases hnext with ⟨e, -⟩ | ⟨e, hn⟩
    · rw [e, hnone] at hx
      cases hx
    · rw [e] at hx
      cases hx
      exact ⟨rfl, by omega⟩
  have keep : ∀ {x φ}, Asked d.askers x φ → Asked (d.askers.set i q') x φ := by
    intro x φ h
    refine h.set hq fun hx => ?_
    rw [hnone] at hx
    cases hx
  exact {
    drawn := by
      intro j r x hj hx
      rcases entry_of_set hj with ⟨rfl, rfl⟩ | ⟨-, hj⟩
      · exact (new x hx).2
      · exact Nat.lt_of_lt_of_le (hi.drawn j r x hj hx) hle
    outside := by
      intro j r hj ho
      rcases entry_of_set hj with ⟨rfl, rfl⟩ | ⟨-, hj⟩
      · exact absurd ho hphase
      · exact hi.outside j r hj ho
    distinct := by
      intro j k r₁ r₂ x hj hk h₁ h₂
      rcases entry_of_set hj with ⟨ej, e₁⟩ | ⟨-, hj⟩ <;> rcases entry_of_set hk with ⟨ek, e₂⟩ | ⟨-, hk⟩
      · rw [ej, ek]
      · have hx := (new x (e₁ ▸ h₁)).1
        exact absurd (hi.drawn k r₂ x hk h₂) (by omega)
      · have hx := (new x (e₂ ▸ h₂)).1
        exact absurd (hi.drawn j r₁ x hj h₁) (by omega)
      · exact hi.distinct j k r₁ r₂ x hj hk h₁ h₂
    requests := fun x hx => keep (hi.requests x hx)
    pending := fun p hpm => keep (hi.pending p hpm)
    held := fun n x hn =>
      have hheld := hi.held n x hn
      ⟨hheld.1, hheld.2.1, keep hheld.2.2⟩
    alone := hi.alone
    delivered := fun x hx =>
      have hdel := hi.delivered x hx
      ⟨hdel.1, keep hdel.2⟩
    once := hi.once
    values := hi.values
    received := by
      intro j r a hj ha
      rcases entry_of_set hj with ⟨rfl, rfl⟩ | ⟨-, hj⟩
      · rw [hrec, hnorec] at ha
        cases ha
      · exact hi.received j r a hj ha }

theorem ask (hi : Inv d) (owner : ω) :
    Inv { d with askers := d.askers ++ [⟨owner, none, .outside, none⟩] } := by
  have old : ∀ {j : Nat} {r : Asker ω α}, (d.askers ++ [⟨owner, none, .outside, none⟩])[j]? = some r →
      d.askers[j]? = some r ∨ r = ⟨owner, none, .outside, none⟩ := by
    intro j r hj
    rcases entry_of_append hj with hj | ⟨-, hr⟩
    · exact .inl hj
    · exact .inr (List.mem_singleton.mp hr)
  exact { hi with
    drawn := by
      intro j r x hj hx
      rcases old hj with hj | rfl
      · exact hi.drawn j r x hj hx
      · cases hx
    outside := by
      intro j r hj ho
      rcases old hj with hj | rfl
      · exact hi.outside j r hj ho
      · exact ⟨rfl, rfl⟩
    distinct := by
      intro j k r₁ r₂ x hj hk h₁ h₂
      rcases old hj with hj | rfl
      · rcases old hk with hk | rfl
        · exact hi.distinct j k r₁ r₂ x hj hk h₁ h₂
        · cases h₂
      · cases h₁
    requests := fun x hx => (hi.requests x hx).append _
    pending := fun p hp => (hi.pending p hp).append _
    held := fun n x hn =>
      have hheld := hi.held n x hn
      ⟨hheld.1, hheld.2.1, hheld.2.2.append _⟩
    delivered := fun x hx =>
      have hdel := hi.delivered x hx
      ⟨hdel.1, hdel.2.append _⟩
    received := by
      intro j r a hj ha
      rcases old hj with hj | rfl
      · exact hi.received j r a hj ha
      · cases ha }

/-! ### The calls -/

theorem call (hi : Inv d) : Inv { d with held := d.held ++ [none] } := by
  have old : ∀ {n : Nat} {x : Nat}, (d.held ++ [none])[n]? = some (some x) → d.held[n]? = some (some x) := by
    intro n x hn
    rcases entry_of_append hn with hn | ⟨-, hx⟩
    · exact hn
    · cases List.mem_singleton.mp hx
  exact { hi with
    held := fun n x hn => hi.held n x (old hn)
    alone := fun n m x hn hm => hi.alone n m x (old hn) (old hm) }

/-- A call has no sender in hand any more. -/
theorem release (hi : Inv d) (n : Nat) : Inv { d with held := d.held.set n none } := by
  have old : ∀ {m x : Nat}, (d.held.set n none)[m]? = some (some x) → d.held[m]? = some (some x) := by
    intro m x hm
    rcases entry_of_set hm with ⟨-, ⟨⟩⟩ | ⟨-, hm⟩
    exact hm
  exact { hi with
    held := fun m x hm => hi.held m x (old hm)
    alone := fun m k x hm hk => hi.alone m k x (old hm) (old hk) }

theorem take (hi : Inv d) {n id : Nat} (hid : id ∈ d.requests) :
    Inv { d.dropRequest id with held := d.held.set n (some id) } := by
  have hdrop : Inv (d.dropRequest id) :=
    hi.shrink (fun x hx => (List.mem_filter.mp hx).1) fun p hp => hp
  have hasked : Asked d.askers id fun q => q.phase.entered = true := by
    refine (hi.requests id hid).mono fun q hq => ?_
    cases hphase : q.phase <;> first | rfl | (rw [hphase] at hq; cases hq)
  exact { hdrop with
    held := by
      intro m x hm
      rcases entry_of_set hm with ⟨-, ⟨⟩⟩ | ⟨-, hm⟩
      · exact ⟨by simp [Desk.dropRequest], fun hdel => (hi.delivered _ hdel).1 hid, hasked⟩
      · exact hdrop.held m x hm
    alone := by
      intro m k x hm hk
      rcases entry_of_set hm with ⟨em, e⟩ | ⟨-, hm⟩ <;> rcases entry_of_set hk with ⟨ek, e'⟩ | ⟨-, hk⟩
      · rw [em, ek]
      · cases e
        exact absurd hid (hi.held k _ hk).1
      · cases e'
        exact absurd hid (hi.held m _ hm).1
      · exact hi.alone m k x hm hk }

theorem send (hi : Inv d) {n id : Nat} (a : α) (hn : d.held[n]? = some (some id)) :
    Inv { d with
      values := Function.update d.values id (some a)
      delivered := d.delivered ++ [(id, a)]
      held := d.held.set n none } := by
  obtain ⟨hout, hunused, hasked⟩ := hi.held n id hn
  have hrel := hi.release n
  have old : ∀ {m x : Nat}, (d.held.set n none)[m]? = some (some x) → x ≠ id := by
    rintro m x hm rfl
    rcases entry_of_set hm with ⟨-, ⟨⟩⟩ | ⟨hne, hm⟩
    exact hne (hi.alone m n x hm hn)
  have hfresh : ∀ b, (id, b) ∉ d.delivered := fun b hb => hunused (List.mem_map_of_mem hb)
  exact { hrel with
    held := by
      intro m x hm
      obtain ⟨ho, hu, ha⟩ := hrel.held m x hm
      exact ⟨ho, by simpa using ⟨by simpa using hu, old hm⟩, ha⟩
    delivered := by
      intro x hx
      rw [List.map_append, List.mem_append] at hx
      rcases hx with hx | hx
      · exact hi.delivered x hx
      · rw [List.map_singleton, List.mem_singleton] at hx
        exact hx ▸ ⟨hout, hasked⟩
    once := by
      rw [List.map_append, List.nodup_append]
      refine ⟨hi.once, List.nodup_singleton _, fun x hx y hy => ?_⟩
      rw [List.map_singleton, List.mem_singleton] at hy
      rintro rfl
      rw [hy] at hx
      exact hunused hx
    values := by
      intro x b
      show Function.update d.values id (some a) x = some b ↔ (x, b) ∈ d.delivered ++ [(id, a)]
      rw [List.mem_append, List.mem_singleton]
      by_cases hx : x = id
      · subst hx
        rw [Function.update_self, or_iff_right (hfresh b)]
        simp [eq_comm]
      · rw [Function.update_of_ne hx, hi.values x b]
        simp [hx]
    received := by
      intro j r b hj hb
      obtain ⟨x, hx, hdel⟩ := hi.received j r b hj hb
      exact ⟨x, hx, List.mem_append_left _ hdel⟩ }

/-- One access keeps the invariant. -/
theorem step {e : Desk ω α} {x : Option Nat} (hi : Inv d) (h : Step d x e) : Inv e := by
  cases h with
  | idle => exact hi
  | ask owner => exact hi.ask owner
  | draw hq hp => exact hi.outsider hq hp rfl nofun (.inr ⟨rfl, rfl⟩)
  | finish hq hp => exact hi.outsider hq hp rfl nofun (.inl ⟨rfl, rfl⟩)
  | @insert i id q hq hid hp =>
    refine hi.move hq hid hid rfl nofun (fun _ => rfl) (fun x hx => ?_) (fun p hpm => .inl ⟨hpm, ?_⟩) (.inl rfl)
    · rcases List.mem_insert_iff.mp hx with rfl | hx
      · exact .inr ⟨rfl, by rw [hp]; rfl, rfl⟩
      · exact .inl ⟨hx, fun _ _ => rfl⟩
    · rw [hp]
      rintro - ⟨⟩
  | @push i id q hq hid hp =>
    refine hi.move hq hid hid rfl nofun (fun _ => rfl) (fun x hx => .inl ⟨hx, fun _ _ => rfl⟩) (fun p hpm => ?_)
      (.inl rfl)
    rcases List.mem_append.mp hpm with hpm | hpm
    · exact .inl ⟨hpm, fun _ _ => rfl⟩
    · exact .inr ⟨List.mem_singleton.mp hpm, rfl⟩
  | receive hq hid hp ha =>
    exact hi.move hq hid hid rfl nofun (fun _ => rfl) (fun x hx => .inl ⟨hx, fun _ _ => rfl⟩)
      (fun p hpm => .inl ⟨hpm, fun _ _ => rfl⟩) (.inr ⟨_, rfl, ha⟩)
  | leave hq hid hp =>
    exact hi.move hq hid hid rfl nofun (fun _ => rfl) (fun x hx => .inl ⟨hx, fun _ _ => rfl⟩)
      (fun p hpm => .inl ⟨hpm, fun _ _ => rfl⟩) (.inl rfl)
  | forgetRequest hq hid hp =>
    refine hi.move hq hid hid rfl nofun (fun _ => rfl) (fun x hx => ?_)
      (fun p hpm => .inl ⟨hpm, fun _ _ => rfl⟩) (.inl rfl)
    obtain ⟨hx, hne⟩ := List.mem_filter.mp hx
    exact .inl ⟨hx, fun e => absurd e (of_decide_eq_true hne)⟩
  | forgetPending hq hid hp =>
    refine hi.move hq hid hid rfl nofun (fun _ => rfl) (fun x hx => .inl ⟨hx, ?_⟩) (fun p hpm => ?_) (.inl rfl)
    · rw [hp]
      rintro - ⟨⟩
    · obtain ⟨hpm, hne⟩ := List.mem_filter.mp hpm
      exact .inl ⟨hpm, fun e => absurd e (of_decide_eq_true hne)⟩
  | call => exact hi.call
  | take hn hid => exact hi.take hid
  | discard id => exact hi.shrink (fun x hx => (List.mem_filter.mp hx).1) fun p hp => hp
  | send a hn => exact hi.send a hn
  | lose hn => exact hi.release _
  | retain id => exact hi.shrink (fun x hx => hx) fun p hp => (List.mem_filter.mp hp).1

end Inv

/-! ## Owners -/

/-- The request has been drawn, by askers of this owner only. -/
def OwnedBy (d : Desk ω α) (owner : ω) (id : Nat) : Prop :=
  id < d.nextId ∧ ∀ (i : Nat) q, d.askers[i]? = some q → q.id = some id → q.owner = owner

theorem Inv.ownedBy {d : Desk ω α} (hi : Inv d) {id : Nat} {owner : ω} (h : (id, owner) ∈ d.pending) :
    OwnedBy d owner id := by
  obtain ⟨i, q, hq, hid, -⟩ := hi.pending _ h
  exact ⟨hi.drawn i q id hq hid, fun j r hr hrid => hi.pending_owner hr hrid h⟩

theorem OwnedBy.step {d e : Desk ω α} {x : Option Nat} {owner : ω} {id : Nat} (ho : OwnedBy d owner id)
    (h : Step d x e) : OwnedBy e owner id := by
  -- an asker that goes on
  have go : ∀ {i : Nat} {q q' : Asker ω α} {n : Nat}, d.askers[i]? = some q → q'.owner = q.owner →
      (q'.id = q.id ∨ q'.id = some d.nextId) → d.nextId ≤ n →
      id < n ∧ ∀ (j : Nat) r, (d.askers.set i q')[j]? = some r → r.id = some id → r.owner = owner := by
    intro i q q' n hq howner hid hn
    refine ⟨Nat.lt_of_lt_of_le ho.1 hn, fun j r hj hr => ?_⟩
    rcases entry_of_set hj with ⟨rfl, rfl⟩ | ⟨-, hj⟩
    · rcases hid with e | e
      · exact howner.trans (ho.2 j q hq (e ▸ hr))
      · rw [e] at hr
        cases hr
        exact absurd ho.1 (Nat.lt_irrefl _)
    · exact ho.2 j r hj hr
  cases h with
  | idle | call | take | discard | send | lose | retain => exact ho
  | ask owner' =>
    refine ⟨ho.1, fun j r hj hr => ?_⟩
    rcases entry_of_append hj with hj | ⟨-, hm⟩
    · exact ho.2 j r hj hr
    · rw [List.mem_singleton.mp hm] at hr
      cases hr
  | draw hq hp => exact go hq rfl (.inr rfl) (Nat.le_succ _)
  | finish hq _ | insert hq _ _ | push hq _ _ | receive hq _ _ _ | leave hq _ _ | forgetRequest hq _ _
  | forgetPending hq _ _ => exact go hq rfl (.inl rfl) (Nat.le_refl _)

/-! ## Brokers -/

/-- A machine that keeps a desk, and what its actions are to the desk. -/
structure Broker (σ β ω α : Type) where
  machine : Machine σ β
  ok : σ → β → Prop
  init : σ → Prop
  desk : σ → Desk ω α
  /-- A call for an owner is made; it gets the next number. -/
  starts : ω → β → Prop
  /-- A step of the call with this number. -/
  call : Nat → β → Prop
  /-- A step of the asker with this number. -/
  asker : Nat → β → Prop
  /-- A step of the asker that is not its timeout, nor the end of its task. -/
  polls : Nat → β → Prop

/-- What the users of a broker rely on, in every run. -/
structure Broker.Contract {σ β ω α : Type} (B : Broker σ β ω α) : Prop where
  /-- A call for an owner leaves the requests of all others alone. -/
  isolated : ∀ {s s₁ s₂ t a b owner}, B.machine.Reach B.ok B.init s → B.starts owner a →
    B.ok s a → B.machine.step s a = some s₁ → B.machine.Path B.ok s₁ s₂ →
    B.call (B.desk s).held.length b → B.ok s₂ b → B.machine.step s₂ b = some t →
    ∀ (i : Nat) q id, (B.desk s₂).askers[i]? = some q → q.id = some id → q.owner ≠ owner →
      Untouched id (B.desk s₂) (B.desk t)
  /-- An asker leaves the requests of all others alone. -/
  apart : ∀ {s t a} {i : Nat}, B.machine.Reach B.ok B.init s → B.asker i a → B.ok s a →
    B.machine.step s a = some t → ∀ (j : Nat) q id, (B.desk s).askers[j]? = some q →
    q.id = some id → j ≠ i → Untouched id (B.desk s) (B.desk t)
  /-- A request gets one answer at most, and belongs to one asker. -/
  once : ∀ {s}, B.machine.Reach B.ok B.init s → ((B.desk s).delivered.map Prod.fst).Nodup ∧
    ∀ id a, (id, a) ∈ (B.desk s).delivered →
      ∃! i : Nat, ∃ q : Asker ω α, (B.desk s).askers[i]? = some q ∧ q.id = some id
  /-- An asker receives the answer to its own request. -/
  received : ∀ {s} {i : Nat} {q a}, B.machine.Reach B.ok B.init s → (B.desk s).askers[i]? = some q →
    q.received = some a → ∃ id, q.id = some id ∧ (id, a) ∈ (B.desk s).delivered
  /-- An asker that waits takes the answer that is there. -/
  arrives : ∀ {s t b} {i : Nat} {q id a}, B.machine.Reach B.ok B.init s →
    (B.desk s).askers[i]? = some q → q.id = some id → q.phase = .wait →
    (id, a) ∈ (B.desk s).delivered → B.polls i b → B.machine.step s b = some t →
    ∃ r, (B.desk t).askers[i]? = some r ∧ r.received = some a
  /-- When an asker has ended, its request is in neither table. -/
  no_ghost : ∀ {s} {i : Nat} {q id}, B.machine.Reach B.ok B.init s → (B.desk s).askers[i]? = some q →
    q.id = some id → q.phase = .ended → id ∉ (B.desk s).requests ∧ ∀ owner, (id, owner) ∉ (B.desk s).pending

/-- The machine works on its desk by `Step`s. `I` is what it keeps besides, and
`serves owner n s` says that call `n` only goes on with requests of the owner. -/
structure Broker.Refines {σ β ω α : Type} (B : Broker σ β ω α) (I : σ → Prop)
    (serves : ω → Nat → σ → Prop) : Prop where
  init : ∀ {s}, B.init s → I s ∧ Inv (B.desk s)
  step : ∀ {s t a}, I s → Inv (B.desk s) → B.ok s a → B.machine.step s a = some t →
    I t ∧ ∃ x, Step (B.desk s) x (B.desk t)
  starts : ∀ {s t a owner}, B.starts owner a → B.machine.step s a = some t →
    serves owner (B.desk s).held.length t
  serves_step : ∀ {s t a owner n}, I s → Inv (B.desk s) → serves owner n s → B.ok s a →
    B.machine.step s a = some t → serves owner n t
  call : ∀ {s t a owner n}, I s → serves owner n s → B.call n a → B.ok s a →
    B.machine.step s a = some t →
    ∃ x, Step (B.desk s) x (B.desk t) ∧ ∀ id, x = some id → OwnedBy (B.desk s) owner id
  asker : ∀ {s t a} {i : Nat}, I s → B.asker i a → B.ok s a → B.machine.step s a = some t →
    ∃ x q, Step (B.desk s) x (B.desk t) ∧ (B.desk s).askers[i]? = some q ∧
      ∀ id, x = some id → q.id = some id
  polls : ∀ {s t a} {i : Nat} {q id v}, I s → (B.desk s).askers[i]? = some q → q.id = some id →
    q.phase = .wait → (B.desk s).values id = some v → B.polls i a → B.machine.step s a = some t →
    ∃ r, (B.desk t).askers[i]? = some r ∧ r.received = some v

theorem Broker.Refines.inv {σ β ω α : Type} {B : Broker σ β ω α} {I : σ → Prop}
    {serves : ω → Nat → σ → Prop} (h : B.Refines I serves) {s : σ} (hr : B.machine.Reach B.ok B.init s) :
    I s ∧ Inv (B.desk s) := by
  refine hr.invariant (I := fun s => I s ∧ Inv (B.desk s)) (fun s hs => h.init hs) fun s a t hi ho hs => ?_
  obtain ⟨ht, x, hx⟩ := h.step hi.1 hi.2 ho hs
  exact ⟨ht, hi.2.step hx⟩

/-- A broker that works on its desk by `Step`s keeps its contract. -/
theorem Broker.Refines.contract {σ β ω α : Type} {B : Broker σ β ω α} {I : σ → Prop}
    {serves : ω → Nat → σ → Prop} (h : B.Refines I serves) : B.Contract where
  isolated := by
    intro s s₁ s₂ t a b owner hr ha hoka hs hp hb hok ht i q id hq hid hne
    obtain ⟨⟨hi, hinv⟩, hserves⟩ : (I s₂ ∧ Inv (B.desk s₂)) ∧ serves owner (B.desk s).held.length s₂ := by
      refine hp.invariant
        (I := fun u => (I u ∧ Inv (B.desk u)) ∧ serves owner (B.desk s).held.length u) ?_ ?_
      · intro u c v hu hokc hv
        obtain ⟨hv', x, hx⟩ := h.step hu.1.1 hu.1.2 hokc hv
        exact ⟨⟨hv', hu.1.2.step hx⟩, h.serves_step hu.1.1 hu.1.2 hu.2 hokc hv⟩
      · exact ⟨h.inv (hr.path (.single hoka hs)), h.starts ha hs⟩
    obtain ⟨x, hx, howned⟩ := h.call hi hserves hb hok ht
    exact hx.untouched fun e => hne ((howned id e).2 i q hq hid)
  apart := by
    intro s t a i hr ha hok hs j q id hq hid hne
    obtain ⟨hi, hinv⟩ := h.inv hr
    obtain ⟨x, r, hx, hri, hxr⟩ := h.asker hi ha hok hs
    refine hx.untouched fun e => hne (hinv.distinct j i q r id hq hri hid (hxr id e))
  once := by
    intro s hr
    obtain ⟨hi, hinv⟩ := h.inv hr
    refine ⟨hinv.once, fun id a hmem => ?_⟩
    obtain ⟨-, i, q, hq, hid, -⟩ := hinv.delivered id (List.mem_map_of_mem hmem)
    exact ⟨i, ⟨q, hq, hid⟩, fun j ⟨r, hr, hrid⟩ => hinv.distinct j i r q id hr hq hrid hid⟩
  received := by
    intro s i q a hr hq ha
    exact (h.inv hr).2.received i q a hq ha
  arrives := by
    intro s t b i q id a hr hq hid hp hmem hb ht
    obtain ⟨hi, hinv⟩ := h.inv hr
    exact h.polls hi hq hid hp ((hinv.values id a).mpr hmem) hb ht
  no_ghost := by
    intro s i q id hr hq hid hp
    exact (h.inv hr).2.no_ghost hq hid hp

end KW.OneShot
