import Mathlib.Tactic.Common

/-!
# UTF-8

`decoded bs` reads bytes as UTF-8: a character for each well-formed sequence and `none` for each
ill-formed one, of which the longest part that could begin a character is taken at once. `decode`
fails at the first of these and `lossy` has U+FFFD in their place.

`read` takes one of them, and reads a character exactly where its encoding stands (`read_eq_some`).
So the bytes with a decoding are the encodings (`decode_eq_some`), and encodings are read without
loss (`lossy_encode`).
-/

namespace KW.Utf8

/-! ## Encoding -/

def encode (t : List Char) : List UInt8 := t.flatMap String.utf8EncodeChar

theorem encode_cons (c : Char) (t : List Char) : encode (c :: t) = String.utf8EncodeChar c ++ encode t :=
  List.flatMap_cons

/-! ## Decoding -/

/-- What the first byte of a sequence asks for: how many bytes follow, the bounds of the next
one, and the bits it gives itself. -/
def lead (b : Nat) : Option (Nat × Nat × Nat × Nat) :=
  if 0xC2 ≤ b ∧ b ≤ 0xDF then some (1, 0x80, 0xBF, b - 0xC0)
  else if 0xE0 ≤ b ∧ b ≤ 0xEF then
    some (2, if b = 0xE0 then 0xA0 else 0x80, if b = 0xED then 0x9F else 0xBF, b - 0xE0)
  else if 0xF0 ≤ b ∧ b ≤ 0xF4 then
    some (3, if b = 0xF0 then 0x90 else 0x80, if b = 0xF4 then 0x8F else 0xBF, b - 0xF0)
  else none

/-- The bytes behind the first; one out of bounds is not taken. -/
def follow : Nat → Nat → Nat → Nat → List UInt8 → Option Char × List UInt8
  | 0, _, _, code, bs => (some (Char.ofNat code), bs)
  | _ + 1, _, _, _, [] => (none, [])
  | n + 1, low, high, code, b :: bs =>
    if low ≤ b.toNat ∧ b.toNat ≤ high then follow n 0x80 0xBF (code * 64 + (b.toNat - 0x80)) bs
    else (none, b :: bs)

/-- One character or one ill-formed sequence, and the bytes behind it. -/
def read (b : UInt8) (bs : List UInt8) : Option Char × List UInt8 :=
  if b.toNat < 0x80 then (some (Char.ofNat b.toNat), bs)
  else match lead b.toNat with
    | none => (none, bs)
    | some (n, low, high, code) => follow n low high code bs

/-- At most `fuel` characters. -/
def readAll : Nat → List UInt8 → List (Option Char)
  | 0, _ => []
  | _, [] => []
  | fuel + 1, b :: bs => (read b bs).1 :: readAll fuel (read b bs).2

def decoded (bs : List UInt8) : List (Option Char) := readAll bs.length bs

def decode (bs : List UInt8) : Option (List Char) := (decoded bs).mapM id

def replacement : Char := Char.ofNat 0xFFFD

def lossy (bs : List UInt8) : List Char := (decoded bs).map fun c => c.getD replacement

/-! ## Reading -/

theorem follow_suffix (n low high code : Nat) (bs : List UInt8) : (follow n low high code bs).2 <:+ bs := by
  induction n generalizing low high code bs with
  | zero => exact List.suffix_rfl
  | succ n ih =>
    cases bs with
    | nil => exact List.suffix_rfl
    | cons b bs =>
      rw [follow]
      split
      · exact (ih 0x80 0xBF _ bs).trans (List.suffix_cons b bs)
      · exact List.suffix_rfl

theorem read_suffix (b : UInt8) (bs : List UInt8) : (read b bs).2 <:+ bs := by
  rw [read]
  split
  · exact List.suffix_rfl
  · split
    · exact List.suffix_rfl
    · exact follow_suffix _ _ _ _ bs

theorem readAll_congr {m n : Nat} {bs : List UInt8} (hm : bs.length ≤ m) (hn : bs.length ≤ n) :
    readAll m bs = readAll n bs := by
  induction m generalizing n bs with
  | zero =>
    rw [List.length_eq_zero_iff.mp (Nat.le_zero.mp hm)]
    cases n <;> rfl
  | succ m ih =>
    cases bs with
    | nil => cases n <;> rfl
    | cons b bs =>
      have hlen := (read_suffix b bs).length_le
      rw [List.length_cons] at hm hn
      obtain ⟨n, rfl⟩ : ∃ k, n = k + 1 := ⟨n - 1, by omega⟩
      rw [readAll, readAll, ih (n := n) (by omega) (by omega)]

theorem decoded_cons (b : UInt8) (bs : List UInt8) :
    decoded (b :: bs) = (read b bs).1 :: decoded (read b bs).2 := by
  have hlen := (read_suffix b bs).length_le
  rw [decoded, List.length_cons, readAll, decoded, readAll_congr hlen (Nat.le_refl _)]

/-- Induction along the sequences. -/
theorem read_induction {P : List UInt8 → Prop} (nil : P []) (cons : ∀ b bs, P (read b bs).2 → P (b :: bs))
    (bs : List UInt8) : P bs := by
  induction hn : bs.length using Nat.strongRecOn generalizing bs with
  | ind n ih =>
    cases bs with
    | nil => exact nil
    | cons b bs =>
      have hlen := (read_suffix b bs).length_le
      rw [List.length_cons] at hn
      exact cons b bs (ih _ (by omega) _ rfl)

/-! ## One character -/

theorem toNat_ofNat {v : Nat} (h : v < 0xD800 ∨ 0xDFFF < v ∧ v < 0x110000) : (Char.ofNat v).val.toNat = v := by
  have hv : v.isValidChar := h
  rw [Char.ofNat, dif_pos hv]
  rfl

theorem follow_zero {low high code : Nat} {bs rest : List UInt8} {c : Char}
    (h : follow 0 low high code bs = (some c, rest)) : c = Char.ofNat code ∧ bs = rest := by
  cases h
  exact ⟨rfl, rfl⟩

theorem follow_succ {n low high code : Nat} {bs rest : List UInt8} {c : Char}
    (h : follow (n + 1) low high code bs = (some c, rest)) : ∃ x bs', bs = x :: bs' ∧
      low ≤ x.toNat ∧ x.toNat ≤ high ∧ follow n 0x80 0xBF (code * 64 + (x.toNat - 0x80)) bs' = (some c, rest) := by
  cases bs with
  | nil => cases h
  | cons x bs' =>
    rw [follow] at h
    split at h
    · exact ⟨x, bs', rfl, (‹_ ∧ _› : _ ∧ _).1, (‹_ ∧ _› : _ ∧ _).2, h⟩
    · cases h

/-- The bytes of the code point `v`. -/
inductive Form (v : Nat) : List UInt8 → Prop
  | one {x : UInt8} : v < 0x80 → x.toNat = v → Form v [x]
  | two {x y : UInt8} : 0x80 ≤ v → v < 0x800 → x.toNat = v / 64 + 0xC0 → y.toNat = v % 64 + 0x80 → Form v [x, y]
  | three {x y z : UInt8} : 0x800 ≤ v → v < 0x10000 → x.toNat = v / 4096 + 0xE0 → y.toNat = v / 64 % 64 + 0x80 →
    z.toNat = v % 64 + 0x80 → Form v [x, y, z]
  | four {x y z u : UInt8} : 0x10000 ≤ v → v < 0x110000 → x.toNat = v / 262144 + 0xF0 →
    y.toNat = v / 4096 % 64 + 0x80 → z.toNat = v / 64 % 64 + 0x80 → u.toNat = v % 64 + 0x80 → Form v [x, y, z, u]

theorem toNat_lt (c : Char) : c.val.toNat < 0x110000 := by
  have hv : c.val.toNat < 0xD800 ∨ 0xDFFF < c.val.toNat ∧ c.val.toNat < 0x110000 := c.valid
  omega

theorem form_encode (c : Char) : Form c.val.toNat (String.utf8EncodeChar c) := by
  have hv := toNat_lt c
  rw [String.utf8EncodeChar]
  split
  · exact .one (by omega) (by rw [UInt8.toNat_ofNat']; omega)
  · split
    · exact .two (by omega) (by omega) (by rw [UInt8.toNat_ofNat']; omega) (by rw [UInt8.toNat_ofNat']; omega)
    · split
      · exact .three (by omega) (by omega) (by rw [UInt8.toNat_ofNat']; omega) (by rw [UInt8.toNat_ofNat']; omega)
          (by rw [UInt8.toNat_ofNat']; omega)
      · exact .four (by omega) hv (by rw [UInt8.toNat_ofNat']; omega) (by rw [UInt8.toNat_ofNat']; omega)
          (by rw [UInt8.toNat_ofNat']; omega) (by rw [UInt8.toNat_ofNat']; omega)

theorem Form.unique {v : Nat} {w w' : List UInt8} (h : Form v w) (h' : Form v w') : w = w' := by
  cases h with
  | one hv hx =>
    cases h' with
    | one _ hx' => rw [UInt8.toNat_inj.mp (hx.trans hx'.symm)]
    | _ => omega
  | two hl hv hx hy =>
    cases h' with
    | two _ _ hx' hy' => rw [UInt8.toNat_inj.mp (hx.trans hx'.symm), UInt8.toNat_inj.mp (hy.trans hy'.symm)]
    | _ => omega
  | three hl hv hx hy hz =>
    cases h' with
    | three _ _ hx' hy' hz' =>
      rw [UInt8.toNat_inj.mp (hx.trans hx'.symm), UInt8.toNat_inj.mp (hy.trans hy'.symm),
        UInt8.toNat_inj.mp (hz.trans hz'.symm)]
    | _ => omega
  | four hl hv hx hy hz hu =>
    cases h' with
    | four _ _ hx' hy' hz' hu' =>
      rw [UInt8.toNat_inj.mp (hx.trans hx'.symm), UInt8.toNat_inj.mp (hy.trans hy'.symm),
        UInt8.toNat_inj.mp (hz.trans hz'.symm), UInt8.toNat_inj.mp (hu.trans hu'.symm)]
    | _ => omega

theorem Form.encode {v : Nat} {w : List UInt8} (h : Form v w) (hv : v < 0xD800 ∨ 0xDFFF < v) :
    String.utf8EncodeChar (Char.ofNat v) = w := by
  have hlt : v < 0x110000 := by cases h <;> omega
  have hform := form_encode (Char.ofNat v)
  rw [toNat_ofNat (by omega)] at hform
  exact hform.unique h

theorem Form.append {v : Nat} {w : List UInt8} (h : Form v w) (hv : v < 0xD800 ∨ 0xDFFF < v) (rest : List UInt8) :
    w ++ rest = String.utf8EncodeChar (Char.ofNat v) ++ rest := by
  rw [h.encode hv]

/-- The bounds of a sequence leave the code points that need as many bytes, without the
surrogates. -/
theorem read_eq_some {b : UInt8} {bs rest : List UInt8} {c : Char} (h : read b bs = (some c, rest)) :
    b :: bs = String.utf8EncodeChar c ++ rest := by
  rw [read] at h
  split at h
  · cases h
    rename_i hlt
    exact Form.append (w := [b]) (.one hlt rfl) (by omega) bs
  · split at h
    · cases h
    · rename_i hlead
      rw [lead] at hlead
      split at hlead
      · cases hlead
        obtain ⟨x, bs', rfl, hlow, hhigh, h⟩ := follow_succ (n := 0) h
        obtain ⟨hc, rfl⟩ := follow_zero h
        rw [hc]
        exact Form.append (w := [b, x]) (.two (by omega) (by omega) (by omega) (by omega)) (by omega) bs'
      · split at hlead
        · cases hlead
          obtain ⟨x, _, rfl, hlow, hhigh, h⟩ := follow_succ (n := 1) h
          obtain ⟨y, bs', rfl, hlow', hhigh', h⟩ := follow_succ (n := 0) h
          obtain ⟨hc, rfl⟩ := follow_zero h
          have hx : 0x80 ≤ x.toNat ∧ x.toNat ≤ 0xBF ∧ (b.toNat = 0xE0 → 0xA0 ≤ x.toNat) ∧
              (b.toNat = 0xED → x.toNat ≤ 0x9F) := by
            split at hlow <;> split at hhigh <;> omega
          rw [hc]
          exact Form.append (w := [b, x, y]) (.three (by omega) (by omega) (by omega) (by omega) (by omega))
            (by omega) bs'
        · split at hlead
          · cases hlead
            obtain ⟨x, _, rfl, hlow, hhigh, h⟩ := follow_succ (n := 2) h
            obtain ⟨y, _, rfl, hlow', hhigh', h⟩ := follow_succ (n := 1) h
            obtain ⟨z, bs', rfl, hlow'', hhigh'', h⟩ := follow_succ (n := 0) h
            obtain ⟨hc, rfl⟩ := follow_zero h
            have hx : 0x80 ≤ x.toNat ∧ x.toNat ≤ 0xBF ∧ (b.toNat = 0xF0 → 0x90 ≤ x.toNat) ∧
                (b.toNat = 0xF4 → x.toNat ≤ 0x8F) := by
              split at hlow <;> split at hhigh <;> omega
            rw [hc]
            exact Form.append (w := [b, x, y, z]) (.four (by omega) (by omega) (by omega) (by omega) (by omega)
              (by omega)) (by omega) bs'
          · cases hlead

theorem follow_of {n low high code : Nat} {x : UInt8} (bs : List UInt8) (hlow : low ≤ x.toNat) (hhigh : x.toNat ≤ high) :
    follow (n + 1) low high code (x :: bs) = follow n 0x80 0xBF (code * 64 + (x.toNat - 0x80)) bs := by
  rw [follow, if_pos ⟨hlow, hhigh⟩]

theorem follow_end {low high code : Nat} {c : Char} (rest : List UInt8) (h : code = c.val.toNat) :
    follow 0 low high code rest = (some c, rest) := by
  rw [follow, h]
  exact congrArg (fun d => (some d, rest)) c.ofNat_toNat

theorem read_form {c : Char} {b : UInt8} {w : List UInt8} (h : Form c.val.toNat (b :: w)) (rest : List UInt8) :
    read b (w ++ rest) = (some c, rest) := by
  have hv : c.val.toNat < 0xD800 ∨ 0xDFFF < c.val.toNat ∧ c.val.toNat < 0x110000 := c.valid
  cases h with
  | one hv hx =>
    rw [read, if_pos (by omega), hx]
    exact congrArg (fun d => (some d, rest)) c.ofNat_toNat
  | two hl hv hx hy =>
    rw [read, if_neg (by omega), lead, if_pos (by omega)]
    dsimp only
    rw [List.cons_append, follow_of _ (by omega) (by omega)]
    exact follow_end rest (by omega)
  | three hl hv hx hy hz =>
    rw [read, if_neg (by omega), lead, if_neg (by omega), if_pos (by omega)]
    dsimp only
    rw [List.cons_append, follow_of _ (by split <;> omega) (by split <;> omega), List.cons_append,
      follow_of _ (by omega) (by omega)]
    exact follow_end rest (by omega)
  | four hl hv hx hy hz hu =>
    rw [read, if_neg (by omega), lead, if_neg (by omega), if_neg (by omega), if_pos (by omega)]
    dsimp only
    rw [List.cons_append, follow_of _ (by split <;> omega) (by split <;> omega), List.cons_append,
      follow_of _ (by omega) (by omega), List.cons_append, follow_of _ (by omega) (by omega)]
    exact follow_end rest (by omega)

theorem decoded_encodeChar (c : Char) (rest : List UInt8) :
    decoded (String.utf8EncodeChar c ++ rest) = some c :: decoded rest := by
  have hform := form_encode c
  cases hw : String.utf8EncodeChar c with
  | nil => exact absurd hw String.utf8EncodeChar_ne_nil
  | cons b w =>
    rw [hw] at hform
    rw [List.cons_append, decoded_cons, read_form hform]

/-! ## Texts -/

/-- What stands behind an encoding is read as it is alone. -/
theorem decoded_encode (t : List Char) (rest : List UInt8) :
    decoded (encode t ++ rest) = t.map some ++ decoded rest := by
  induction t with
  | nil => rfl
  | cons c t ih => rw [encode_cons, List.append_assoc, decoded_encodeChar, ih, List.map_cons, List.cons_append]

theorem decoded_encode_eq (t : List Char) : decoded (encode t) = t.map some := by
  have h := decoded_encode t []
  rw [List.append_nil] at h
  rw [h]
  exact List.append_nil _

/-- Bytes without ill-formed sequences are an encoding. -/
theorem encode_of_decoded {bs : List UInt8} {t : List Char} (h : decoded bs = t.map some) : encode t = bs := by
  induction bs using read_induction generalizing t with
  | nil =>
    cases t with
    | nil => rfl
    | cons c t => cases h
  | cons b bs ih =>
    rw [decoded_cons] at h
    cases t with
    | nil => cases h
    | cons c t =>
      obtain ⟨hc, ht⟩ := List.cons.inj h
      rw [encode_cons, ih ht]
      exact (read_eq_some (Prod.ext hc rfl)).symm

theorem mapM_id {α : Type} {l : List (Option α)} {t : List α} : l.mapM id = some t ↔ l = t.map some := by
  induction l generalizing t with
  | nil => cases t <;> simp
  | cons a l ih =>
    rw [List.mapM_cons]
    cases a with
    | none => cases t <;> simp
    | some a =>
      have hbind : (do let b ← id (some a); let bs ← l.mapM id; pure (b :: bs)) = some t ↔
          ∃ u, l.mapM id = some u ∧ a :: u = t := by
        cases l.mapM id <;> simp
      rw [hbind]
      constructor
      · rintro ⟨u, hu, rfl⟩
        rw [ih.mp hu, List.map_cons]
      · intro h
        cases t with
        | nil => cases h
        | cons b t =>
          obtain ⟨hb, ht⟩ := List.cons.inj h
          cases hb
          exact ⟨t, ih.mpr ht, rfl⟩

theorem decode_eq_some {bs : List UInt8} {t : List Char} : decode bs = some t ↔ bs = encode t := by
  rw [decode, mapM_id]
  constructor
  · intro h
    exact (encode_of_decoded h).symm
  · intro h
    rw [h, decoded_encode_eq]

theorem lossy_encode (t : List Char) : lossy (encode t) = t := by
  rw [lossy, decoded_encode_eq, List.map_map]
  exact List.map_id t

/-! ## Bytes of no encoding -/

/-- No encoding has such a byte. -/
def impossible (b : UInt8) : Bool := 0xF5 ≤ b.toNat

theorem lead_bounds {b n low high code : Nat} (h : lead b = some (n, low, high, code)) : b < 0xF5 ∧ high ≤ 0xBF := by
  rw [lead] at h
  split at h
  · cases h
    omega
  · split at h
    · cases h
      refine ⟨by omega, ?_⟩
      split <;> omega
    · split at h
      · cases h
        refine ⟨by omega, ?_⟩
        split <;> omega
      · cases h

theorem follow_taken {n low high code : Nat} (hhigh : high ≤ 0xBF) (bs : List UInt8) :
    ∃ w, bs = w ++ (follow n low high code bs).2 ∧ ∀ x ∈ w, impossible x = false := by
  induction n generalizing low high code bs with
  | zero => exact ⟨[], rfl, nofun⟩
  | succ n ih =>
    cases bs with
    | nil => exact ⟨[], rfl, nofun⟩
    | cons b bs =>
      rw [follow]
      split
      · rename_i hb
        obtain ⟨w, hw, hall⟩ := @ih 0x80 0xBF (code * 64 + (b.toNat - 0x80)) (Nat.le_refl 0xBF) bs
        refine ⟨b :: w, congrArg (b :: ·) hw, List.forall_mem_cons.mpr ⟨?_, hall⟩⟩
        rw [impossible, decide_eq_false_iff_not]
        omega
      · exact ⟨[], rfl, nofun⟩

/-- Such a byte is an ill-formed sequence alone, and stands in no other. -/
theorem read_taken (b : UInt8) (bs : List UInt8) : ∃ w, bs = w ++ (read b bs).2 ∧ (∀ x ∈ w, impossible x = false) ∧
    (impossible b = true → (read b bs).1 = none) := by
  rw [read]
  split
  · refine ⟨[], rfl, nofun, fun hb => ?_⟩
    rw [impossible, decide_eq_true_eq] at hb
    omega
  · cases hlead : lead b.toNat with
    | none => exact ⟨[], rfl, nofun, fun _ => rfl⟩
    | some l =>
      obtain ⟨n, low, high, code⟩ := l
      obtain ⟨hlt, hhigh⟩ := lead_bounds hlead
      obtain ⟨w, hw, hall⟩ := @follow_taken n low high code hhigh bs
      refine ⟨w, hw, hall, fun hb => ?_⟩
      rw [impossible, decide_eq_true_eq] at hb
      omega

theorem countP_impossible_le (bs : List UInt8) : bs.countP impossible ≤ (decoded bs).countP Option.isNone := by
  induction bs using read_induction with
  | nil => exact Nat.le_refl 0
  | cons b bs ih =>
    obtain ⟨w, hw, hall, hb⟩ := read_taken b bs
    have hcount : bs.countP impossible = (read b bs).2.countP impossible := by
      have hzero : w.countP impossible = 0 := List.countP_eq_zero.mpr fun x hx => by rw [hall x hx]; exact Bool.false_ne_true
      calc bs.countP impossible
        _ = (w ++ (read b bs).2).countP impossible := congrArg _ hw
        _ = (read b bs).2.countP impossible := by rw [List.countP_append, hzero, Nat.zero_add]
    rw [decoded_cons, List.countP_cons, List.countP_cons, hcount]
    cases himp : impossible b with
    | false =>
      rw [if_neg Bool.false_ne_true]
      omega
    | true =>
      rw [hb himp, if_pos rfl, Option.isNone_none, if_pos rfl]
      omega

/-- Bytes that are read without an ill-formed sequence are the encoding of what is read. -/
theorem encode_lossy {bs : List UInt8} (h : (decoded bs).countP Option.isNone = 0) : encode (lossy bs) = bs := by
  refine encode_of_decoded ?_
  rw [lossy, List.map_map]
  refine (List.map_id _).symm.trans (List.map_congr_left fun c hc => ?_)
  have hsome := List.countP_eq_zero.mp h c hc
  cases c with
  | none => exact absurd rfl hsome
  | some c => rfl

theorem countP_none_le (bs : List UInt8) : (decoded bs).countP Option.isNone ≤ (lossy bs).count replacement := by
  rw [lossy, List.count, List.countP_map]
  refine List.countP_mono_left fun c _ hnone => ?_
  rw [Option.isNone_iff_eq_none.mp hnone]
  exact beq_self_eq_true _

/-! ## ASCII -/

def ofByte (b : UInt8) : Char := Char.ofNat b.toNat

theorem encode_ofByte {bs : List UInt8} (h : ∀ b ∈ bs, b.toNat < 0x80) : encode (bs.map ofByte) = bs := by
  induction bs with
  | nil => rfl
  | cons b bs ih =>
    have hb := h b List.mem_cons_self
    rw [List.map_cons, encode_cons, ih fun d hd => h d (List.mem_cons_of_mem b hd), ofByte,
      (Form.one hb rfl).encode (by omega)]
    rfl

/-- An ASCII byte of an encoding is a character of its own. -/
theorem ofByte_mem {t : List Char} {b : UInt8} (hb : b.toNat < 0x80) (h : b ∈ encode t) : ofByte b ∈ t := by
  obtain ⟨c, hc, hmem⟩ := List.mem_flatMap.mp h
  have hself : ofByte b = c := by
    have hform := form_encode c
    generalize String.utf8EncodeChar c = w at hform hmem
    cases hform with
    | one hv hx =>
      rw [List.mem_singleton.mp hmem, ofByte, hx]
      exact c.ofNat_toNat
    | two hl hv hx hy =>
      simp only [List.mem_cons, List.not_mem_nil, or_false] at hmem
      rcases hmem with rfl | rfl <;> omega
    | three hl hv hx hy hz =>
      simp only [List.mem_cons, List.not_mem_nil, or_false] at hmem
      rcases hmem with rfl | rfl | rfl <;> omega
    | four hl hv hx hy hz hu =>
      simp only [List.mem_cons, List.not_mem_nil, or_false] at hmem
      rcases hmem with rfl | rfl | rfl | rfl <;> omega
  rw [hself]
  exact hc

/-- Two lists of ASCII bytes are read as one text only if they are one list. -/
theorem lossy_inj {bs bs' : List UInt8} (h : ∀ b ∈ bs, b.toNat < 0x80) (h' : ∀ b ∈ bs', b.toNat < 0x80)
    (he : lossy bs = lossy bs') : bs = bs' := by
  rw [← encode_ofByte h, ← encode_ofByte h', lossy_encode, lossy_encode] at he
  rw [← encode_ofByte h, he, encode_ofByte h']

end KW.Utf8
