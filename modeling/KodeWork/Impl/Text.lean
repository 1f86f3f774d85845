import Mathlib.Tactic.Common
import Mathlib.Data.List.DropRight

/-!
# Text

The program's strings as lists of characters, with the predicates of the
standard library that its checks use.
-/

namespace KW

/-- `String`, by its characters. -/
abbrev Text := List Char

namespace Text

/-- `char::is_whitespace`: the Unicode property `White_Space`. -/
def isWhitespace (c : Char) : Bool :=
  let n := c.toNat
  (9 ≤ n && n ≤ 13) || n == 32 || n == 0x85 || n == 0xA0 || n == 0x1680 ||
    (0x2000 ≤ n && n ≤ 0x200A) || n == 0x2028 || n == 0x2029 || n == 0x202F || n == 0x205F ||
    n == 0x3000

/-- `char::is_control`: the Unicode category `Cc`. -/
def isControl (c : Char) : Bool :=
  let n := c.toNat
  n ≤ 0x1F || (0x7F ≤ n && n ≤ 0x9F)

/-- `trim().is_empty()`. -/
def isBlank (t : Text) : Bool := t.all isWhitespace

def startsWith (t p : Text) : Bool := p.isPrefixOf t

def contains (t p : Text) : Bool := t.tails.any fun u => startsWith u p

/-- `trim_end_matches(c)`. -/
def trimEndMatches (t : Text) (c : Char) : Text := t.rdropWhile (· == c)

/-- `trim_matches`; `trim` is that of white space. -/
def trimMatches (t : Text) (p : Char → Bool) : Text := (t.dropWhile p).rdropWhile p

/-- `lines`: a line ends with a line feed, or a carriage return and a line feed. -/
def lines : Text → List Text
  | [] => []
  | '\r' :: '\n' :: t => [] :: lines t
  | '\n' :: t => [] :: lines t
  | c :: t => match lines t with
    | line :: rest => (c :: line) :: rest
    | [] => [[c]]

end Text

/-- What can be checked of each character. -/
theorem Text.forall_of_all {t : Text} {p : Char → Prop} [DecidablePred p]
    (h : (t.all fun c => decide (p c)) = true) : ∀ c ∈ t, p c :=
  fun c hc => of_decide_eq_true (List.all_eq_true.mp h c hc)

/-- Only letters have another lower case. -/
theorem toLower_eq_iff {c d : Char} (hd : d.isAlpha = false) : c.toLower = d ↔ c = d := by
  have hval : ('a'.val - 'A'.val).toNat = 32 := rfl
  replace hd : (decide (d.val ≥ 'A'.val ∧ d.val ≤ 'Z'.val) ||
      (decide (d.val ≥ 'a'.val) && decide (d.val ≤ 'z'.val))) = false := hd
  simp only [Bool.or_eq_false_iff, Bool.and_eq_false_iff, decide_eq_false_iff_not, ge_iff_le,
    UInt32.le_iff_toNat_le] at hd
  unfold Char.toLower
  split
  · rename_i h
    simp only [ge_iff_le, UInt32.le_iff_toNat_le] at h
    -- neither an upper-case letter nor its lower-case one is `d`
    refine iff_of_false ?_ ?_ <;> rintro rfl
    · simp only [UInt32.toNat_add, hval] at hd
      simp at h hd
      omega
    · omega
  · rfl

end KW
