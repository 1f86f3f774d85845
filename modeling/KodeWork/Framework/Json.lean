import Mathlib.Tactic.Common

/-!
# Decoding JSON values

What the derived decoders of `serde` do with a JSON value that has been parsed. A record
is an object or an array; its fields (`field`) have a default, and are taken by their name
or by their place. Entries of other names are ignored, and a name that occurs twice is an
error. `null` is an optional value that is absent (`optional`).

`Unset` says of the entries of an object that a field keeps its default: it is absent or
`null`. `field_eq_none_iff` says that these are the only ways.
-/

namespace KW

inductive Json
  | null
  | bool (b : Bool)
  | integer (n : Int)
  /-- a number with a fraction or an exponent, or out of range -/
  | float (digits : List Char)
  | string (t : List Char)
  | array (items : List Json)
  | object (entries : List (List Char × Json))

abbrev Decoder (α : Type) := Json → Option α

namespace Decoder

variable {α : Type}

def boolean : Decoder Bool
  | .bool b => some b
  | _ => none

def string : Decoder (List Char)
  | .string t => some t
  | _ => none

def u32 : Decoder UInt32
  | .integer n => if 0 ≤ n ∧ n < 4294967296 then some (UInt32.ofNat n.toNat) else none
  | _ => none

def optional (d : Decoder α) : Decoder (Option α)
  | .null => some none
  | json => (d json).map some

def sequence (d : Decoder α) : Decoder (List α)
  | .array items => items.mapM d
  | _ => none

/-- A record with this number of fields. -/
def record (fields : Nat) : Decoder Unit
  | .object _ => some ()
  | .array items => if items.length ≤ fields then some () else none
  | _ => none

/-- A field that may be missing. -/
def field (index : Nat) (name : List Char) (d : Decoder α) : Decoder (Option α)
  | .object entries =>
    match entries.filter fun e => e.1 = name with
    | [] => some none
    | [e] => optional d e.2
    | _ => none
  | .array items =>
    match items[index]? with
    | none => some none
    | some item => optional d item
  | _ => none

theorem optional_eq_none_iff {d : Decoder α} {json : Json} : optional d json = some none ↔ json = .null := by
  cases json with
  | null => exact iff_of_true rfl rfl
  | bool | integer | float | string | array | object => simp [optional]

/-- The field of that name keeps its default. -/
def Unset (name : List Char) (entries : List (List Char × Json)) : Prop :=
  (entries.filter fun e => e.1 = name) = [] ∨ (entries.filter fun e => e.1 = name) = [(name, .null)]

theorem field_eq_none_iff {index : Nat} {name : List Char} {d : Decoder α} {entries : List (List Char × Json)} :
    field index name d (.object entries) = some none ↔ Unset name entries := by
  rw [field, Unset]
  split
  · case h_1 h => exact iff_of_true rfl (.inl h)
  · case h_2 e h =>
    have hname : e.1 = name := by
      have hmem : e ∈ entries.filter fun e => e.1 = name := by rw [h]; exact List.mem_singleton_self e
      simpa using (List.mem_filter.mp hmem).2
    rw [optional_eq_none_iff, h]
    obtain ⟨key, value⟩ := e
    simp only [List.cons_ne_nil, false_or, List.cons.injEq, Prod.mk.injEq, and_true]
    exact (and_iff_right hname).symm
  · case h_3 hnil hone =>
    refine iff_of_false (by simp) ?_
    rintro (h | h)
    · exact hnil h
    · exact hone _ h

end Decoder

end KW
