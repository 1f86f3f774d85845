import Mathlib.Tactic.Common

/-!
# Programs that fail and change a state

`Prog ε σ α` computes a value or an error and changes a state of type `σ`, in
either case. `wp m Q E s` says where a run of `m` from `s` ends: with a value
and a state in `Q`, or with an error and a state in `E`. It is computed along
the program: `wp_bind` and the rules of the operations take a sequence apart,
and `wp_mono` weakens what a called program's lemma says.

`Query obs m P` is the special case of a program that only looks: what `obs`
shows of the state does not change, and `P` relates it to the value returned.
Its rules build such a fact along a program, and `Query.wp_bind` uses it at the
head of a program that goes on to change the state.
-/

namespace KW

universe u

/-- A computation with errors `ε` on a state `σ`; an error keeps the state. -/
abbrev Prog (ε σ α : Type u) : Type u := ExceptT ε (StateM σ) α

variable {ε ε' σ α β : Type u}

/-- The result of a run and the state after it. -/
def Prog.exec (m : Prog ε σ α) (s : σ) : Except ε α × σ := m.run s

theorem Prog.exec_of_isOk {m : Prog ε σ α} {s : σ} (h : (m.exec s).1.isOk = true) :
    ∃ a t, m.exec s = (.ok a, t) := by
  rcases hm : m.exec s with ⟨_ | a, t⟩
  · simp [hm, Except.isOk, Except.toBool] at h
  · exact ⟨a, t, rfl⟩

theorem Prog.exec_of_not_isOk {m : Prog ε σ α} {s : σ} (h : (m.exec s).1.isOk = false) :
    ∃ e t, m.exec s = (.error e, t) := by
  rcases hm : m.exec s with ⟨e | _, t⟩
  · exact ⟨e, t, rfl⟩
  · simp [hm, Except.isOk, Except.toBool] at h

/-- `m` with its errors changed by `f`. -/
def mapErr (f : ε → ε') (m : Prog ε σ α) : Prog ε' σ α :=
  ExceptT.mk fun s => match m.exec s with
    | (.ok a, t) => (.ok a, t)
    | (.error e, t) => (.error (f e), t)

/-- `m` with its outcome as a value. -/
def observe (m : Prog ε σ α) : Prog ε' σ (Except ε α) :=
  ExceptT.mk fun s => match m.exec s with
    | (r, t) => (.ok r, t)

/-- The program fails with `e` if the condition holds. -/
def failIf (b : Bool) (e : ε) : Prog ε σ PUnit := if b then throw e else pure ⟨⟩

/-! ## Weakest preconditions -/

/-- Every run of `m` from `s` ends with a value in `Q` or an error in `E`. -/
def wp (m : Prog ε σ α) (Q : α → σ → Prop) (E : ε → σ → Prop) (s : σ) : Prop :=
  match m.exec s with
  | (.ok a, t) => Q a t
  | (.error e, t) => E e t

section

variable {Q Q' : α → σ → Prop} {E E' : ε → σ → Prop} {s : σ}

theorem wp_ok {m : Prog ε σ α} {a : α} {t : σ} (h : wp m Q E s) (hm : m.exec s = (.ok a, t)) :
    Q a t := by
  simpa only [wp, hm] using h

theorem wp_error {m : Prog ε σ α} {e : ε} {t : σ} (h : wp m Q E s) (hm : m.exec s = (.error e, t)) :
    E e t := by
  simpa only [wp, hm] using h

theorem wp_mono {m : Prog ε σ α} (h : wp m Q E s) (hq : ∀ a t, Q a t → Q' a t)
    (he : ∀ e t, E e t → E' e t) : wp m Q' E' s := by
  unfold wp at h ⊢
  split at h
  · exact hq _ _ h
  · exact he _ _ h

@[simp] theorem wp_pure (a : α) : wp (pure a : Prog ε σ α) Q E s ↔ Q a s := Iff.rfl

@[simp] theorem wp_throw (e : ε) : wp (throw e : Prog ε σ α) Q E s ↔ E e s := Iff.rfl

@[simp] theorem wp_get {Q : σ → σ → Prop} : wp (get : Prog ε σ σ) Q E s ↔ Q s s := Iff.rfl

@[simp] theorem wp_modify {Q : PUnit → σ → Prop} (f : σ → σ) :
    wp (modify f : Prog ε σ PUnit) Q E s ↔ Q ⟨⟩ (f s) := Iff.rfl

@[simp] theorem wp_bind {Q : β → σ → Prop} (m : Prog ε σ α) (f : α → Prog ε σ β) :
    wp (m >>= f) Q E s ↔ wp m (fun a t => wp (f a) Q E t) E s := by
  have e : (m >>= f).exec s = match m.exec s with
      | (.ok a, t) => (f a).exec t
      | (.error e, t) => (.error e, t) := by
    show (StateT.bind m.run (ExceptT.bindCont f)) s = _
    simp only [StateT.bind, Prog.exec, ExceptT.run]
    show ExceptT.bindCont f (m s).1 (m s).2 = _
    rcases m s with ⟨_ | _, _⟩ <;> rfl
  simp only [wp, e]
  rcases m.exec s with ⟨_ | _, _⟩ <;> rfl

@[simp] theorem wp_ite (c : Prop) [Decidable c] (m n : Prog ε σ α) :
    wp (if c then m else n) Q E s ↔ (c → wp m Q E s) ∧ (¬ c → wp n Q E s) := by
  split <;> simp_all

@[simp] theorem wp_mapErr {E : ε' → σ → Prop} (f : ε → ε') (m : Prog ε σ α) :
    wp (mapErr f m) Q E s ↔ wp m Q (fun e => E (f e)) s := by
  have e : (mapErr f m).exec s = match m.exec s with
      | (.ok a, t) => (.ok a, t)
      | (.error e, t) => (.error (f e), t) := rfl
  simp only [wp, e]
  rcases m.exec s with ⟨_ | _, _⟩ <;> rfl

@[simp] theorem wp_observe {Q : Except ε α → σ → Prop} {E : ε' → σ → Prop} (m : Prog ε σ α) :
    wp (observe m) Q E s ↔ wp m (fun a => Q (.ok a)) (fun e => Q (.error e)) s := by
  have e : (observe m : Prog ε' σ (Except ε α)).exec s = match m.exec s with
      | (r, t) => (.ok r, t) := rfl
  simp only [wp, e]
  rcases m.exec s with ⟨_ | _, _⟩ <;> rfl

@[simp] theorem wp_failIf {Q : PUnit → σ → Prop} (b : Bool) (e : ε) :
    wp (failIf b e) Q E s ↔ (b = true → E e s) ∧ (b = false → Q ⟨⟩ s) := by
  cases b <;> simp [failIf]

end

/-! ## Queries -/

section

variable {ρ : Type u} {obs : σ → ρ} {P P' : ρ → α → Prop}

/-- `m` does not change what `obs` shows of the state, and a value it returns
is related to that by `P`. -/
def Query (obs : σ → ρ) (m : Prog ε σ α) (P : ρ → α → Prop) : Prop :=
  ∀ s, wp m (fun a t => obs t = obs s ∧ P (obs s) a) (fun _ t => obs t = obs s) s

namespace Query

theorem weaken {m : Prog ε σ α} (h : Query obs m P) (hp : ∀ x a, P x a → P' x a) :
    Query obs m P' :=
  fun s => wp_mono (h s) (fun _ _ ht => ⟨ht.1, hp _ _ ht.2⟩) fun _ _ ht => ht

theorem pure {a : α} (h : ∀ x, P x a) : Query obs (Pure.pure a : Prog ε σ α) P :=
  fun _ => ⟨rfl, h _⟩

theorem throw (e : ε) : Query obs (MonadExcept.throw e : Prog ε σ α) P := fun _ => rfl

theorem get {P : ρ → σ → Prop} (h : ∀ s, P (obs s) s) : Query obs (MonadState.get : Prog ε σ σ) P :=
  fun s => ⟨rfl, h s⟩

theorem modify {P : ρ → PUnit → Prop} {f : σ → σ} (h : ∀ s, obs (f s) = obs s)
    (hp : ∀ x, P x ⟨⟩) : Query obs (modify f : Prog ε σ PUnit) P :=
  fun s => ⟨h s, hp _⟩

/-- The second program may use what is known of the first one's value. -/
theorem bind {P : ρ → α → Prop} {P' : ρ → β → Prop} {m : Prog ε σ α} {f : α → Prog ε σ β}
    (hm : Query obs m P) (hf : ∀ a, Query obs (f a) fun x b => P x a → P' x b) :
    Query obs (m >>= f) P' := by
  intro s
  rw [wp_bind]
  refine wp_mono (hm s) (fun a t ht => ?_) fun _ _ ht => ht
  refine wp_mono (hf a t) (fun b u hu => ?_) fun _ u hu => hu.trans ht.1
  exact ⟨hu.1.trans ht.1, ht.1 ▸ hu.2 (ht.1 ▸ ht.2)⟩

theorem ite {c : Prop} [Decidable c] {m n : Prog ε σ α} (hm : c → Query obs m P)
    (hn : ¬ c → Query obs n P) : Query obs (if c then m else n) P := by
  split
  · exact hm ‹_›
  · exact hn ‹_›

theorem mapErr {f : ε → ε'} {m : Prog ε σ α} (h : Query obs m P) : Query obs (mapErr f m) P :=
  fun s => (wp_mapErr f m).mpr (h s)

theorem observe {m : Prog ε σ α} {P : ρ → Except ε α → Prop} (h : Query obs m fun x a => P x (.ok a))
    (he : ∀ x e, P x (.error e)) : Query obs (observe m : Prog ε' σ _) P :=
  fun s => (wp_observe m).mpr (wp_mono (h s) (fun _ _ ht => ht) fun _ _ ht => ⟨ht, he _ _⟩)

theorem failIf {b : Bool} {e : ε} {P : ρ → PUnit → Prop} (h : b = false → ∀ x, P x ⟨⟩) :
    Query obs (failIf b e : Prog ε σ PUnit) P :=
  fun _ => (wp_failIf b e).mpr ⟨fun _ => rfl, fun hb => ⟨rfl, h hb _⟩⟩

/-- A query at the head of a program. -/
theorem wp_bind {m : Prog ε σ α} (hm : Query obs m P) {f : α → Prog ε σ β} {Q : β → σ → Prop}
    {E : ε → σ → Prop} {s : σ} (hf : ∀ a t, obs t = obs s → P (obs s) a → wp (f a) Q E t)
    (he : ∀ e t, obs t = obs s → E e t) : wp (m >>= f) Q E s := by
  rw [KW.wp_bind]
  exact wp_mono (hm s) (fun a t ht => hf a t ht.1 ht.2) he

end Query

end

end KW
