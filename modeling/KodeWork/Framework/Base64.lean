import Mathlib.Tactic.Common

/-!
# Base64

Bytes as groups of six bits (`sextets`), written in the usual alphabet with or without padding
(`encode`), and the forgiving decoder of web browsers (`decode`), which takes white space out, does
not need the padding, and fails on anything else. It reads either form of an encoding
(`decode_encode`). Texts are lists of UTF-16 code units.
-/

namespace KW.Base64

/-! ## The alphabet -/

def digit (v : Nat) : UInt16 :=
  if v < 26 then UInt16.ofNat (65 + v)
  else if v < 52 then UInt16.ofNat (71 + v)
  else if v < 62 then UInt16.ofNat (v - 4)
  else if v = 62 then 43 else 47

def valueOf (u : UInt16) : Option Nat :=
  let n := u.toNat
  if 65 ≤ n ∧ n ≤ 90 then some (n - 65)
  else if 97 ≤ n ∧ n ≤ 122 then some (n - 71)
  else if 48 ≤ n ∧ n ≤ 57 then some (n + 4)
  else if n = 43 then some 62
  else if n = 47 then some 63
  else none

theorem valueOf_digit {v : Nat} (h : v < 64) : valueOf (digit v) = some v := by
  have hall : ∀ v < 64, valueOf (digit v) = some v := by decide
  exact hall v h

/-! ## Groups of six bits -/

def sextets : List UInt8 → List Nat
  | a :: b :: c :: bytes =>
    a.toNat / 4 :: (a.toNat % 4 * 16 + b.toNat / 16) :: (b.toNat % 16 * 4 + c.toNat / 64) :: c.toNat % 64 ::
      sextets bytes
  | [a, b] => [a.toNat / 4, a.toNat % 4 * 16 + b.toNat / 16, b.toNat % 16 * 4]
  | [a] => [a.toNat / 4, a.toNat % 4 * 16]
  | [] => []

/-- The bits behind the last whole byte are left out. -/
def ofSextets : List Nat → List UInt8
  | a :: b :: c :: d :: rest =>
    UInt8.ofNat (a * 4 + b / 16) :: UInt8.ofNat (b % 16 * 16 + c / 4) :: UInt8.ofNat (c % 4 * 64 + d) :: ofSextets rest
  | [a, b, c] => [UInt8.ofNat (a * 4 + b / 16), UInt8.ofNat (b % 16 * 16 + c / 4)]
  | [a, b] => [UInt8.ofNat (a * 4 + b / 16)]
  | _ => []

theorem eq_ofNat {b : UInt8} {v : Nat} (h : v = b.toNat) : UInt8.ofNat v = b := by
  rw [h, UInt8.ofNat_toNat]

theorem ofSextets_sextets (bytes : List UInt8) : ofSextets (sextets bytes) = bytes := by
  induction bytes using sextets.induct with
  | case1 a b c bytes ih =>
    have ha := a.toNat_lt
    have hb := b.toNat_lt
    have hc := c.toNat_lt
    rw [sextets, ofSextets, ih, eq_ofNat (b := a) (by omega), eq_ofNat (b := b) (by omega),
      eq_ofNat (b := c) (by omega)]
  | case2 a b =>
    have ha := a.toNat_lt
    have hb := b.toNat_lt
    rw [sextets, ofSextets, eq_ofNat (b := a) (by omega), eq_ofNat (b := b) (by omega)]
  | case3 a =>
    have ha := a.toNat_lt
    rw [sextets, ofSextets, eq_ofNat (b := a) (by omega)]
  | case4 => rfl

theorem sextets_lt (bytes : List UInt8) : ∀ v ∈ sextets bytes, v < 64 := by
  induction bytes using sextets.induct with
  | case1 a b c bytes ih =>
    have ha := a.toNat_lt
    have hb := b.toNat_lt
    have hc := c.toNat_lt
    rw [sextets]
    simp only [List.forall_mem_cons]
    exact ⟨by omega, by omega, by omega, by omega, ih⟩
  | case2 a b =>
    have ha := a.toNat_lt
    have hb := b.toNat_lt
    rw [sextets]
    simp only [List.forall_mem_cons]
    exact ⟨by omega, by omega, by omega, nofun⟩
  | case3 a =>
    have ha := a.toNat_lt
    rw [sextets]
    simp only [List.forall_mem_cons]
    exact ⟨by omega, by omega, nofun⟩
  | case4 => exact nofun

theorem length_sextets (bytes : List UInt8) : (sextets bytes).length = (bytes.length * 4 + 2) / 3 := by
  induction bytes using sextets.induct with
  | case1 a b c bytes ih =>
    rw [sextets]
    simp only [List.length_cons, ih]
    omega
  | case2 | case3 =>
    rw [sextets]
    simp
  | case4 => rfl

/-! ## Texts -/

def equals : UInt16 := 61

/-- Makes the length a multiple of four. -/
def padding (n : Nat) : List UInt16 :=
  match n % 3 with
  | 1 => [equals, equals]
  | 2 => [equals]
  | _ => []

def encode (pad : Bool) (bytes : List UInt8) : List UInt16 :=
  (sextets bytes).map digit ++ if pad then padding bytes.length else []

/-- Tab, line feed, form feed, carriage return and space. -/
def isAsciiWhitespace (u : UInt16) : Bool :=
  u == 9 || u == 10 || u == 12 || u == 13 || u == 32

/-- Takes one or two equals signs away. -/
def stripPadding (t : List UInt16) : List UInt16 :=
  if [equals, equals].isSuffixOf t then t.dropLast.dropLast
  else if [equals].isSuffixOf t then t.dropLast
  else t

def decode (t : List UInt16) : Option (List UInt8) :=
  let t := t.filter fun u => !isAsciiWhitespace u
  let t := if t.length % 4 = 0 then stripPadding t else t
  if t.length % 4 = 1 then none else (t.mapM valueOf).map ofSextets

theorem mapM_digit {vs : List Nat} (h : ∀ v ∈ vs, v < 64) : (vs.map digit).mapM valueOf = some vs := by
  induction vs with
  | nil => rfl
  | cons v vs ih =>
    rw [List.map_cons, List.mapM_cons, valueOf_digit (h v List.mem_cons_self),
      ih fun w hw => h w (List.mem_cons_of_mem v hw)]
    rfl

theorem digit_ne {v : Nat} (h : v < 64) : isAsciiWhitespace (digit v) = false ∧ digit v ≠ equals := by
  have hall : ∀ v < 64, isAsciiWhitespace (digit v) = false ∧ digit v ≠ equals := by decide
  exact hall v h

theorem not_isSuffixOf {ds p q : List UInt16} {u : UInt16} (hu : u ∉ ds) (h : q.length = p.length + 1) (hq : q.head? = some u) :
    q.isSuffixOf (ds ++ p) = false := by
  refine eq_false_of_ne_true fun hs => ?_
  obtain ⟨pre, hpre⟩ := List.isSuffixOf_iff_suffix.mp hs
  obtain ⟨q', rfl⟩ := List.head?_eq_some_iff.mp hq
  rw [List.append_cons pre u q'] at hpre
  have hcut := (List.append_inj' hpre (by simpa using h)).1
  rw [← hcut] at hu
  exact hu (List.mem_append_right pre List.mem_cons_self)

/-- The padding is taken away, and no digit is. -/
theorem stripPadding_append {ds : List UInt16} (h : equals ∉ ds) (n : Nat) : stripPadding (ds ++ padding n) = ds := by
  have hone : [equals].isSuffixOf ds = false := by
    have hs := not_isSuffixOf (p := []) (q := [equals]) h rfl rfl
    rwa [List.append_nil] at hs
  have htwo : [equals, equals].isSuffixOf ds = false := by
    refine eq_false_of_ne_true fun hs => h ?_
    exact (List.isSuffixOf_iff_suffix.mp hs).subset List.mem_cons_self
  rw [padding]
  split
  · rw [stripPadding, if_pos (List.isSuffixOf_iff_suffix.mpr (List.suffix_append ds _))]
    simp
  · rw [stripPadding, not_isSuffixOf (p := [equals]) (q := [equals, equals]) h rfl rfl, if_neg Bool.false_ne_true,
      if_pos (List.isSuffixOf_iff_suffix.mpr (List.suffix_append ds _)), List.dropLast_concat]
  · rw [List.append_nil, stripPadding, htwo, if_neg Bool.false_ne_true, hone, if_neg Bool.false_ne_true]

theorem length_padding (n : Nat) : (padding n).length = (n * 2) % 3 := by
  rw [padding]
  split
  · rename_i h
    rw [List.length_cons, List.length_cons, List.length_nil]
    omega
  · rename_i h
    rw [List.length_cons, List.length_nil]
    omega
  · rename_i h h'
    rw [List.length_nil]
    have hlt := Nat.mod_lt n (show 3 > 0 by decide)
    have hne : n % 3 ≠ 1 := h
    have hne' : n % 3 ≠ 2 := h'
    omega

/-- Either form of an encoding is read as the bytes. -/
theorem decode_encode (pad : Bool) (bytes : List UInt8) : decode (encode pad bytes) = some bytes := by
  have hlt := sextets_lt bytes
  have hlen : ((sextets bytes).map digit).length = (bytes.length * 4 + 2) / 3 := by
    rw [List.length_map, length_sextets]
  have hequals : equals ∉ (sextets bytes).map digit := by
    intro hmem
    obtain ⟨v, hv, he⟩ := List.mem_map.mp hmem
    exact (digit_ne (hlt v hv)).2 he
  have hfilter : (encode pad bytes).filter (fun u => !isAsciiWhitespace u) = encode pad bytes := by
    refine List.filter_eq_self.mpr fun u hu => ?_
    rw [encode] at hu
    rcases List.mem_append.mp hu with hu | hu
    · obtain ⟨v, hv, rfl⟩ := List.mem_map.mp hu
      rw [(digit_ne (hlt v hv)).1]
      rfl
    · have heq : u = equals := by
        cases pad with
        | false => cases hu
        | true =>
          replace hu : u ∈ padding bytes.length := hu
          rw [padding] at hu
          split at hu <;> simp at hu <;> exact hu
      rw [heq]
      rfl
  -- with or without the padding, the digits are left
  have hstrip : (if (encode pad bytes).length % 4 = 0 then stripPadding (encode pad bytes) else encode pad bytes) =
      (sextets bytes).map digit := by
    cases pad with
    | true =>
      have hencode : encode true bytes = (sextets bytes).map digit ++ padding bytes.length := rfl
      have hfull : (encode true bytes).length % 4 = 0 := by
        rw [hencode, List.length_append, hlen, length_padding]
        rcases (by omega : bytes.length % 3 = 0 ∨ bytes.length % 3 = 1 ∨ bytes.length % 3 = 2) with h | h | h
        · omega
        · omega
        · omega
      rw [if_pos hfull, hencode, stripPadding_append hequals]
    | false =>
      have hencode : encode false bytes = (sextets bytes).map digit := List.append_nil _
      have hnone := stripPadding_append hequals 0
      rw [show padding 0 = [] from rfl, List.append_nil] at hnone
      rw [hencode, hnone, ite_self]
  rw [decode]
  rw [hfilter, hstrip, if_neg (by omega), mapM_digit hlt, Option.map_some, ofSextets_sextets]

end KW.Base64
