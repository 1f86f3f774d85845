import KodeWork.Framework.Wp

/-!
# Transactions

A connection to a database: what is stored, and what an open transaction has made of
it. A statement that fails changes nothing (`statement`). `transaction` runs a program
inside a transaction; an error drops the transaction, which rolls it back.

`Follows m f` says that, inside a transaction, the program `m` does what the function
`f` says on the contents. It is built along the program (`Follows.bind`, `Follows.forM`),
and `transaction_exec` reads off what the transaction does: all of `f`, or nothing.

`Keeps I m` is the weaker fact that `m` keeps an invariant of the contents, wherever it
fails; it is built along the program in the same way.
-/

namespace KW

universe u

structure Connection (S : Type u) where
  stored : S
  /-- the contents in an open transaction -/
  working : Option S
deriving DecidableEq, Repr

variable {S ε α β : Type u}

namespace Connection

/-- What a statement sees. -/
def current (c : Connection S) : S := c.working.getD c.stored

def put (c : Connection S) (s : S) : Connection S :=
  match c.working with
  | none => { c with stored := s }
  | some _ => { c with working := some s }

/-- No transaction is open. -/
def idle (s : S) : Connection S := ⟨s, none⟩

/-- In a transaction that has made `w` of the contents. -/
def inside (s w : S) : Connection S := ⟨s, some w⟩

end Connection

/-- A statement. -/
def statement (f : S → Except ε (α × S)) : Prog ε (Connection S) α :=
  ExceptT.mk fun c =>
    match f c.current with
    | .ok (a, s) => (.ok a, c.put s)
    | .error e => (.error e, c)

/-- The program in a transaction, which is committed at its end. There is only one
transaction at a time. -/
def transaction (busy : ε) (m : Prog ε (Connection S) α) : Prog ε (Connection S) α :=
  ExceptT.mk fun c =>
    match c.working with
    | some _ => (.error busy, c)
    | none =>
      match m.exec (.inside c.stored c.stored) with
      | (.ok a, c') => (.ok a, .idle c'.current)
      | (.error e, c') => (.error e, .idle c'.stored)

/-- Inside a transaction, the program does what the function says. -/
structure Follows (m : Prog ε (Connection S) α) (f : S → Except ε (α × S)) : Prop where
  ok {s w w' : S} {a : α} (h : f w = .ok (a, w')) : m.exec (.inside s w) = (.ok a, .inside s w')
  error {s w : S} {e : ε} (h : f w = .error e) : ∃ w', m.exec (.inside s w) = (.error e, .inside s w')

theorem exec_bind {σ : Type u} (m : Prog ε σ α) (k : α → Prog ε σ β) (s : σ) :
    (m >>= k).exec s =
      match m.exec s with
      | (.ok a, t) => (k a).exec t
      | (.error e, t) => (.error e, t) := by
  show (StateT.bind m.run (ExceptT.bindCont k)) s = _
  simp only [StateT.bind, Prog.exec, ExceptT.run]
  show ExceptT.bindCont k (m s).1 (m s).2 = _
  rcases m s with ⟨_ | _, _⟩ <;> rfl

/-- A statement outside of a transaction. -/
theorem statement_idle {f : S → Except ε (α × S)} {s s' : S} {a : α} (h : f s = .ok (a, s')) :
    (statement f).exec (.idle s) = (.ok a, .idle s') := by
  have hexec : (statement f).exec (.idle s) =
      match f s with
      | .ok (a, s') => (.ok a, .idle s')
      | .error e => (.error e, .idle s) := rfl
  rw [hexec, h]

theorem statement_idle_error {f : S → Except ε (α × S)} {s : S} {e : ε} (h : f s = .error e) :
    (statement f).exec (.idle s) = (.error e, .idle s) := by
  have hexec : (statement f).exec (.idle s) =
      match f s with
      | .ok (a, s') => (.ok a, .idle s')
      | .error e => (.error e, .idle s) := rfl
  rw [hexec, h]

namespace Follows

theorem statement (f : S → Except ε (α × S)) : Follows (KW.statement f) f := by
  have hexec (s w : S) : (KW.statement f).exec (.inside s w) =
      match f w with
      | .ok (a, w') => (.ok a, .inside s w')
      | .error e => (.error e, .inside s w) := rfl
  refine ⟨fun h => ?_, fun h => ?_⟩
  · rw [hexec, h]
  · exact ⟨_, by rw [hexec, h]⟩

theorem pure (a : α) : Follows (Pure.pure a : Prog ε (Connection S) α) fun w => .ok (a, w) := by
  refine ⟨fun h => ?_, fun h => by cases h⟩
  cases h
  rfl

theorem throw (e : ε) : Follows (MonadExcept.throw e : Prog ε (Connection S) α) fun _ => .error e := by
  refine ⟨(fun h => by cases h), fun h => ?_⟩
  cases h
  exact ⟨_, rfl⟩

theorem bind {m : Prog ε (Connection S) α} {f : S → Except ε (α × S)} {k : α → Prog ε (Connection S) β}
    {g : α → S → Except ε (β × S)} (hm : Follows m f) (hk : ∀ a, Follows (k a) (g a)) :
    Follows (m >>= k) fun w => (f w).bind fun p => g p.1 p.2 := by
  refine ⟨fun {s w w' b} h => ?_, fun {s w e} h => ?_⟩
  · cases hf : f w with
    | error e => rw [hf] at h; cases h
    | ok p =>
      rw [hf] at h
      rw [exec_bind, hm.ok hf]
      exact (hk p.1).ok h
  · cases hf : f w with
    | error e' =>
      rw [hf] at h
      cases h
      obtain ⟨w', hrun⟩ := hm.error (s := s) hf
      exact ⟨w', by rw [exec_bind, hrun]⟩
    | ok p =>
      rw [hf] at h
      obtain ⟨w', hrun⟩ := (hk p.1).error (s := s) h
      exact ⟨w', by rw [exec_bind, hm.ok hf]; exact hrun⟩

theorem ite {c : Prop} [Decidable c] {m n : Prog ε (Connection S) α} {f g : S → Except ε (α × S)}
    (hm : Follows m f) (hn : Follows n g) : Follows (if c then m else n) fun w => if c then f w else g w := by
  split
  · exact hm
  · exact hn

end Follows

/-- What a transaction does: all that the function says, or nothing. -/
theorem transaction_exec {m : Prog ε (Connection S) α} {f : S → Except ε (α × S)} (h : Follows m f) (busy : ε)
    (s : S) :
    (transaction busy m).exec (.idle s) =
      match f s with
      | .ok (a, s') => (.ok a, .idle s')
      | .error e => (.error e, .idle s) := by
  have hexec : (transaction busy m).exec (.idle s) =
      match m.exec (.inside s s) with
      | (.ok a, c') => (.ok a, .idle c'.current)
      | (.error e, c') => (.error e, .idle c'.stored) := rfl
  rw [hexec]
  cases hf : f s with
  | ok p => rw [h.ok hf]; rfl
  | error e =>
    obtain ⟨w', hrun⟩ := h.error (s := s) hf
    rw [hrun]
    rfl

/-! ## What every program keeps -/

/-- What is stored, and what an open transaction has made of it, is in the set. -/
def Connection.Within (I : S → Prop) (c : Connection S) : Prop := I c.stored ∧ ∀ w ∈ c.working, I w

theorem Connection.Within.current {I : S → Prop} {c : Connection S} (h : c.Within I) : I c.current := by
  rw [Connection.current]
  cases hworking : c.working with
  | none => exact h.1
  | some w => exact h.2 w hworking

theorem Connection.within_idle {I : S → Prop} {s : S} (h : I s) : (Connection.idle s).Within I :=
  ⟨h, fun w hw => by cases hw⟩

/-- Whether it fails or not, the program leaves a connection within that it finds within, and
leaves a transaction open if it finds one open. -/
def Keeps (I : S → Prop) (m : Prog ε (Connection S) α) : Prop :=
  ∀ c : Connection S, c.Within I → (m.exec c).2.Within I ∧ (m.exec c).2.working.isSome = c.working.isSome

namespace Keeps

variable {I : S → Prop}

theorem pure (a : α) : Keeps I (Pure.pure a : Prog ε (Connection S) α) := fun _ h => ⟨h, rfl⟩

theorem throw (e : ε) : Keeps I (MonadExcept.throw e : Prog ε (Connection S) α) := fun _ h => ⟨h, rfl⟩

theorem bind {m : Prog ε (Connection S) α} {k : α → Prog ε (Connection S) β} (hm : Keeps I m)
    (hk : ∀ a, Keeps I (k a)) : Keeps I (m >>= k) := by
  intro c hc
  have hm := hm c hc
  rw [exec_bind]
  cases hexec : m.exec c with
  | mk result c' =>
    rw [hexec] at hm
    cases result with
    | error e => exact hm
    | ok a =>
      have hk := hk a c' hm.1
      exact ⟨hk.1, hk.2.trans hm.2⟩

theorem ite {p : Prop} [Decidable p] {m n : Prog ε (Connection S) α} (hm : Keeps I m) (hn : Keeps I n) :
    Keeps I (if p then m else n) := by
  split
  · exact hm
  · exact hn

theorem statement {f : S → Except ε (α × S)} (hf : ∀ s a s', I s → f s = .ok (a, s') → I s') :
    Keeps I (KW.statement f) := by
  intro c hc
  have hexec : (KW.statement f).exec c =
      match f c.current with
      | .ok (a, s) => (.ok a, c.put s)
      | .error e => (.error e, c) := rfl
  rw [hexec]
  cases hstep : f c.current with
  | error e => exact ⟨hc, rfl⟩
  | ok p =>
    have hp := hf c.current p.1 p.2 hc.current hstep
    show (c.put p.2).Within I ∧ (c.put p.2).working.isSome = c.working.isSome
    rw [Connection.put]
    cases hworking : c.working with
    | none => exact ⟨⟨hp, fun w hw => by cases hw⟩, rfl⟩
    | some w => exact ⟨⟨hc.1, fun w hw => Option.some.inj (Option.mem_def.mp hw) ▸ hp⟩, rfl⟩

theorem transaction {m : Prog ε (Connection S) α} (hm : Keeps I m) (busy : ε) : Keeps I (KW.transaction busy m) := by
  intro c hc
  have hexec : (KW.transaction busy m).exec c =
      match c.working with
      | some _ => (.error busy, c)
      | none =>
        match m.exec (.inside c.stored c.stored) with
        | (.ok a, c') => (.ok a, .idle c'.current)
        | (.error e, c') => (.error e, .idle c'.stored) := rfl
  rw [hexec]
  cases hworking : c.working with
  | some w => exact ⟨hc, congrArg Option.isSome hworking⟩
  | none =>
    have hinside := hm (.inside c.stored c.stored) ⟨hc.1, fun w hw => Option.some.inj (Option.mem_def.mp hw) ▸ hc.1⟩
    dsimp only
    cases hrun : m.exec (.inside c.stored c.stored) with
    | mk result c' =>
      rw [hrun] at hinside
      cases result with
      | ok a => exact ⟨Connection.within_idle hinside.1.current, rfl⟩
      | error e => exact ⟨Connection.within_idle hinside.1.1, rfl⟩

/-- Outside of a transaction. -/
theorem idle {m : Prog ε (Connection S) α} (hm : Keeps I m) {s : S} (hs : I s) :
    ∃ s', (m.exec (.idle s)).2 = .idle s' ∧ I s' := by
  obtain ⟨hwithin, hsome⟩ := hm (.idle s) (Connection.within_idle hs)
  refine ⟨(m.exec (.idle s)).2.stored, ?_, hwithin.1⟩
  cases hc : (m.exec (.idle s)).2 with
  | mk stored working =>
    rw [hc] at hsome
    cases working with
    | none => rfl
    | some w => cases hsome

end Keeps

end KW
