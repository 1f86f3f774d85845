import Mathlib.Tactic.Common

/-!
# UTF-16

Texts as code units, and code units as bytes, the lower one first. `lossy` reads code units with
U+FFFD for a surrogate that is not one of a pair, and an encoding as the text it is of
(`lossy_encode`).
-/

namespace KW.Utf16

def encodeChar (c : Char) : List UInt16 :=
  let v := c.val.toNat
  if v < 0x10000 then [UInt16.ofNat v]
  else [UInt16.ofNat (0xD800 + (v - 0x10000) / 0x400), UInt16.ofNat (0xDC00 + (v - 0x10000) % 0x400)]

def encode (t : List Char) : List UInt16 := t.flatMap encodeChar

theorem encode_cons (c : Char) (t : List Char) : encode (c :: t) = encodeChar c ++ encode t := List.flatMap_cons

def replacement : Char := Char.ofNat 0xFFFD

def lossy : List UInt16 → List Char
  | [] => []
  | u :: us =>
    if 0xD800 ≤ u.toNat ∧ u.toNat < 0xDC00 then
      match us with
      | [] => [replacement]
      | v :: vs =>
        if 0xDC00 ≤ v.toNat ∧ v.toNat < 0xE000 then
          Char.ofNat (0x10000 + (u.toNat - 0xD800) * 0x400 + (v.toNat - 0xDC00)) :: lossy vs
        else replacement :: lossy (v :: vs)
    else if 0xDC00 ≤ u.toNat ∧ u.toNat < 0xE000 then replacement :: lossy us
    else Char.ofNat u.toNat :: lossy us

/-! ## Bytes -/

def leBytes (us : List UInt16) : List UInt8 :=
  us.flatMap fun u => [UInt8.ofNat (u.toNat % 256), UInt8.ofNat (u.toNat / 256)]

/-- Pairs of bytes; one alone at the end is left out. -/
def ofLeBytes : List UInt8 → List UInt16
  | low :: high :: bytes => UInt16.ofNat (low.toNat + 256 * high.toNat) :: ofLeBytes bytes
  | _ => []

theorem leBytes_cons (u : UInt16) (us : List UInt16) :
    leBytes (u :: us) = UInt8.ofNat (u.toNat % 256) :: UInt8.ofNat (u.toNat / 256) :: leBytes us := rfl

theorem leBytes_append (us vs : List UInt16) : leBytes (us ++ vs) = leBytes us ++ leBytes vs := List.flatMap_append

theorem ofLeBytes_leBytes (us : List UInt16) : ofLeBytes (leBytes us) = us := by
  induction us with
  | nil => rfl
  | cons u us ih =>
    have hu := u.toNat_lt
    have hself : UInt16.ofNat ((UInt8.ofNat (u.toNat % 256)).toNat + 256 * (UInt8.ofNat (u.toNat / 256)).toNat) = u := by
      refine UInt16.toNat_inj.mp ?_
      rw [UInt16.toNat_ofNat', UInt8.toNat_ofNat', UInt8.toNat_ofNat']
      omega
    rw [leBytes_cons, ofLeBytes, ih, hself]

/-! ## Round trips -/

theorem lossy_encodeChar (c : Char) (us : List UInt16) : lossy (encodeChar c ++ us) = c :: lossy us := by
  have hv : c.val.toNat < 0xD800 ∨ 0xDFFF < c.val.toNat ∧ c.val.toNat < 0x110000 := c.valid
  have hself : Char.ofNat c.val.toNat = c := c.ofNat_toNat
  rw [encodeChar]
  split
  · have hu : (UInt16.ofNat c.val.toNat).toNat = c.val.toNat := by
      rw [UInt16.toNat_ofNat']
      omega
    rw [List.singleton_append, lossy.eq_def]
    dsimp only
    rw [hu, if_neg (by omega), if_neg (by omega), hself]
  · have hhigh : (UInt16.ofNat (0xD800 + (c.val.toNat - 0x10000) / 0x400)).toNat =
        0xD800 + (c.val.toNat - 0x10000) / 0x400 := by
      rw [UInt16.toNat_ofNat']
      omega
    have hlow : (UInt16.ofNat (0xDC00 + (c.val.toNat - 0x10000) % 0x400)).toNat =
        0xDC00 + (c.val.toNat - 0x10000) % 0x400 := by
      rw [UInt16.toNat_ofNat']
      omega
    have hsum : 0x10000 + (0xD800 + (c.val.toNat - 0x10000) / 0x400 - 0xD800) * 0x400 +
        (0xDC00 + (c.val.toNat - 0x10000) % 0x400 - 0xDC00) = c.val.toNat := by
      omega
    rw [List.cons_append, List.singleton_append, lossy.eq_def]
    dsimp only
    rw [hhigh, hlow, if_pos (by omega), if_pos (by omega), hsum, hself]

theorem lossy_encode (t : List Char) : lossy (encode t) = t := by
  induction t with
  | nil => rfl
  | cons c t ih => rw [encode_cons, lossy_encodeChar, ih]

end KW.Utf16
