import KodeWork.Impl.Wsl

/-!
# Names in and out of the list of distributions

Names that are joined by line ends come out of `distributionsOf` as they are
(`distributionsOf_joined`), and what comes out of it was in the text
(`sublist_distributionsOf`). So the names are right wherever the encoding is guessed right: always
for UTF-8, whose bytes have no zero, and for UTF-16 if all characters are below U+0100.

Where one is not, the bytes are read as UTF-8, or without the bytes that make the difference; that
the names do not come out by chance then is a matter of counting (`ascii_of_distributions`): a byte
of an encoding in UTF-8 weighs more than what the same character is made of in UTF-16.
-/

namespace KW.Wsl

open Text

/-! ## Lines -/

/-- A name that can be listed: some characters, none of them a control character, no white space
around them and no mark in front. -/
structure ValidName (name : Text) : Prop where
  nonempty : name ≠ []
  visible : ∀ c ∈ name, isControl c = false
  first : name.head?.any isWhitespace = false
  last : name.getLast?.any isWhitespace = false
  unmarked : name.head? ≠ some '*'

def joined (names : List Text) : Text := ['\r', '\n'].intercalate names

theorem lines_line {line : Text} (h : ∀ c ∈ line, isControl c = false) (t : Text) :
    lines (line ++ '\r' :: '\n' :: t) = line :: lines t := by
  induction line with
  | nil => rfl
  | cons c line ih =>
    have hc := h c List.mem_cons_self
    have hcr : c ≠ '\r' := fun he => by rw [he] at hc; cases hc
    have hlf : c ≠ '\n' := fun he => by rw [he] at hc; cases hc
    rw [List.cons_append, lines, ih fun d hd => h d (List.mem_cons_of_mem c hd)]
    · exact fun _ he _ => hcr he
    · exact fun he => hlf he

theorem lines_last {line : Text} (h : ∀ c ∈ line, isControl c = false) (hne : line ≠ []) : lines line = [line] := by
  induction line with
  | nil => exact absurd rfl hne
  | cons c line ih =>
    have hc := h c List.mem_cons_self
    have hcr : c ≠ '\r' := fun he => by rw [he] at hc; cases hc
    have hlf : c ≠ '\n' := fun he => by rw [he] at hc; cases hc
    rw [lines]
    · by_cases hnil : line = []
      · rw [hnil]
        rfl
      · rw [ih (fun d hd => h d (List.mem_cons_of_mem c hd)) hnil]
    · exact fun _ he _ => hcr he
    · exact fun he => hlf he

theorem lines_joined {names : List Text} (h : ∀ name ∈ names, ValidName name) : lines (joined names) = names := by
  induction names with
  | nil => rfl
  | cons name names ih =>
    have hname := h name List.mem_cons_self
    cases names with
    | nil =>
      rw [joined, List.intercalate_singleton]
      exact lines_last hname.visible hname.nonempty
    | cons next names =>
      rw [joined, List.intercalate_cons_cons, List.append_assoc]
      exact (lines_line hname.visible _).trans (congrArg (name :: ·) (ih fun n hn => h n (List.mem_cons_of_mem _ hn)))

theorem trimMatches_self {t : Text} {p : Char → Bool} (hfirst : t.head?.any p = false)
    (hlast : t.getLast?.any p = false) : trimMatches t p = t := by
  have hdrop : t.dropWhile p = t := by
    cases t with
    | nil => rfl
    | cons c t => exact List.dropWhile_cons_of_neg (by simpa using hfirst)
  rw [trimMatches, hdrop, List.rdropWhile_eq_self_iff]
  intro hne
  rw [List.getLast?_eq_some_getLast hne] at hlast
  simpa using hlast

theorem cleanLine_self {name : Text} (h : ValidName name) : cleanLine name = name := by
  have hnul (o : Option Char) (ho : ∀ c ∈ o, c ∈ name) : o.any (· == Char.ofNat 0) = false := by
    cases o with
    | none => rfl
    | some c =>
      have hc := h.visible c (ho c rfl)
      refine beq_false_of_ne fun he => ?_
      rw [he] at hc
      cases hc
  have hmark : name.dropWhile (· == '*') = name := by
    cases name with
    | nil => rfl
    | cons c t => exact List.dropWhile_cons_of_neg fun hc => h.unmarked (congrArg some (beq_iff_eq.mp hc))
  have hself : trimMatches name isWhitespace = name := trimMatches_self h.first h.last
  have hzero : trimMatches name (· == Char.ofNat 0) = name :=
    trimMatches_self (hnul _ fun c hc => List.mem_of_head? hc) (hnul _ fun c hc => List.mem_of_getLast? hc)
  rw [cleanLine, hzero, hself, hmark, hself]

/-- The names come out of the lines. -/
theorem distributionsOf_joined {names : List Text} (h : ∀ name ∈ names, ValidName name) :
    distributionsOf (joined names) = names := by
  have hclean : names.map cleanLine = names :=
    (List.map_congr_left fun name hn => cleanLine_self (h name hn)).trans (List.map_id' names)
  rw [distributionsOf, lines_joined h, hclean, List.filter_eq_self]
  intro name hn
  simpa using (h name hn).nonempty

/-! ## What is left of a text -/

theorem sublist_lines (t : Text) : (lines t).flatten.Sublist t := by
  induction t using lines.induct with
  | case1 => exact .refl _
  | case2 t ih => exact (ih.cons '\n').cons '\r'
  | case3 t ih =>
    rw [lines]
    exact ih.cons '\n'
  | case4 c t _ _ line rest hl ih =>
    rw [lines, hl]
    · rw [hl] at ih
      exact ih.cons_cons c
    · assumption
    · assumption
  | case5 c t _ _ hl ih =>
    rw [lines, hl]
    · exact List.singleton_sublist.mpr List.mem_cons_self
    · assumption
    · assumption

theorem count_lines {c : Char} (hlf : c ≠ '\n') (hcr : c ≠ '\r') (t : Text) : (lines t).flatten.count c = t.count c := by
  induction t using lines.induct with
  | case1 => rfl
  | case2 t ih =>
    rw [lines, List.flatten_cons, List.nil_append, ih, List.count_cons_of_ne (Ne.symm hcr),
      List.count_cons_of_ne (Ne.symm hlf)]
  | case3 t ih =>
    rw [lines, List.flatten_cons, List.nil_append, ih, List.count_cons_of_ne (Ne.symm hlf)]
  | case4 d t _ _ line rest hl ih =>
    rw [lines, hl]
    · rw [hl] at ih
      rw [List.flatten_cons, List.cons_append, List.count_cons, List.count_cons, ← List.flatten_cons, ih]
    · assumption
    · assumption
  | case5 d t _ _ hl ih =>
    rw [lines, hl]
    · rw [hl] at ih
      rw [List.count_cons, ← ih]
      exact List.count_cons
    · assumption
    · assumption

theorem sublist_trimMatches (t : Text) (p : Char → Bool) : (trimMatches t p).Sublist t :=
  (List.rdropWhile_prefix p _).sublist.trans (List.dropWhile_sublist p)

theorem count_dropWhile {c : Char} {p : Char → Bool} (hp : p c = false) (t : Text) :
    (t.dropWhile p).count c = t.count c := by
  induction t with
  | nil => rfl
  | cons d t ih =>
    cases hd : p d with
    | false => rw [List.dropWhile_cons_of_neg (by rw [hd]; exact Bool.false_ne_true)]
    | true =>
      have hne : d ≠ c := fun he => by
        rw [he, hp] at hd
        cases hd
      rw [List.dropWhile_cons_of_pos hd, ih, List.count_cons_of_ne hne]

theorem count_trimMatches {c : Char} {p : Char → Bool} (hp : p c = false) (t : Text) :
    (trimMatches t p).count c = t.count c := by
  rw [trimMatches, List.rdropWhile, List.count_reverse, count_dropWhile hp, List.count_reverse, count_dropWhile hp]

theorem sublist_cleanLine (line : Text) : (cleanLine line).Sublist line :=
  (sublist_trimMatches _ _).trans ((List.dropWhile_sublist _).trans
    ((sublist_trimMatches _ _).trans (sublist_trimMatches _ _)))

/-- A character that is no line end and is not trimmed. -/
def Kept (c : Char) : Prop := c ≠ '\n' ∧ c ≠ '\r' ∧ c ≠ Char.ofNat 0 ∧ isWhitespace c = false ∧ c ≠ '*'

theorem count_cleanLine {c : Char} (h : Kept c) (line : Text) : (cleanLine line).count c = line.count c := by
  obtain ⟨-, -, hnul, hspace, hmark⟩ := h
  rw [cleanLine, count_trimMatches hspace, @count_dropWhile c (· == '*') (beq_false_of_ne hmark),
    count_trimMatches hspace, @count_trimMatches c (· == Char.ofNat 0) (beq_false_of_ne hnul)]

theorem flatten_distributionsOf (t : Text) : (distributionsOf t).flatten = ((lines t).map cleanLine).flatten :=
  List.flatten_filter_not_isEmpty

/-- Nothing comes out that was not in the text. -/
theorem sublist_distributionsOf (t : Text) : (distributionsOf t).flatten.Sublist t := by
  have hclean (ls : List Text) : (ls.map cleanLine).flatten.Sublist ls.flatten := by
    induction ls with
    | nil => exact .refl _
    | cons l ls ih => exact (sublist_cleanLine l).append ih
  rw [flatten_distributionsOf]
  exact (hclean _).trans (sublist_lines t)

theorem count_distributionsOf {c : Char} (h : Kept c) (t : Text) : (distributionsOf t).flatten.count c = t.count c := by
  have hclean (ls : List Text) : (ls.map cleanLine).flatten.count c = ls.flatten.count c := by
    induction ls with
    | nil => rfl
    | cons l ls ih =>
      rw [List.map_cons, List.flatten_cons, List.flatten_cons, List.count_append, List.count_append, ih,
        count_cleanLine h]
  rw [flatten_distributionsOf, hclean, count_lines h.1 h.2.1]

/-! ## The encoding -/

/-- What `wsl.exe` prints: UTF-16, the lower byte first. -/
def utf16le (bom : Bool) (t : Text) : List UInt8 :=
  (if bom then [0xFF, 0xFE] else []) ++ Utf16.leBytes (Utf16.encode t)

def byteOrderMark : Char := Char.ofNat 0xFEFF

theorem oddZero_leBytes (us : List UInt16) :
    oddZero (Utf16.leBytes us) = true ↔ ∀ u ∈ us, u.toNat < 256 := by
  induction us with
  | nil => exact iff_of_true rfl nofun
  | cons u us ih =>
    have hu := u.toNat_lt
    have hzero : UInt8.ofNat (u.toNat / 256) = 0 ↔ u.toNat < 256 := by
      rw [← UInt8.toNat_inj, UInt8.toNat_ofNat']
      simp
      omega
    rw [Utf16.leBytes_cons, oddZero, Bool.and_eq_true, beq_iff_eq, hzero, ih, List.forall_mem_cons]

/-- A code unit below U+0100 is a character of its own. -/
theorem encode_low {t : Text} (h : ∀ c ∈ t, c.toNat < 256) : ∀ u ∈ Utf16.encode t, u.toNat < 256 := by
  intro u hu
  obtain ⟨c, hc, hmem⟩ := List.mem_flatMap.mp hu
  have hlow := h c hc
  rw [Utf16.encodeChar] at hmem
  rw [if_pos (show c.val.toNat < 0x10000 from Nat.lt_trans hlow (by decide)), List.mem_singleton] at hmem
  rw [hmem, UInt16.toNat_ofNat']
  exact Nat.lt_of_le_of_lt (Nat.mod_le _ _) hlow

theorem lossy_low {us : List UInt16} (h : ∀ u ∈ us, u.toNat < 256) : ∀ c ∈ Utf16.lossy us, c.toNat < 256 := by
  induction us with
  | nil => exact nofun
  | cons u us ih =>
    have hu := h u List.mem_cons_self
    rw [Utf16.lossy.eq_def]
    dsimp only
    rw [if_neg (by omega), if_neg (by omega)]
    refine List.forall_mem_cons.mpr ⟨?_, ih fun v hv => h v (List.mem_cons_of_mem u hv)⟩
    have hself : (Char.ofNat u.toNat).toNat = u.toNat := Utf8.toNat_ofNat (by omega)
    rw [hself]
    exact hu

/-- Text that starts with the bytes of the mark starts with the mark. -/
theorem mark_of_prefix {t : Text} (h : [0xFF, 0xFE].isPrefixOf (Utf16.leBytes (Utf16.encode t)) = true) :
    ∃ t', t = byteOrderMark :: t' ∧
      (Utf16.leBytes (Utf16.encode t)).drop 2 = Utf16.leBytes (Utf16.encode t') := by
  have hff : (0xFF : UInt8).toNat = 0xFF := rfl
  have hfe : (0xFE : UInt8).toNat = 0xFE := rfl
  cases t with
  | nil => cases h
  | cons c t =>
    have hv : c.val.toNat < 0xD800 ∨ 0xDFFF < c.val.toNat ∧ c.val.toNat < 0x110000 := c.valid
    rw [Utf16.encode_cons, Utf16.encodeChar] at h ⊢
    split at h
    · rw [List.singleton_append, Utf16.leBytes_cons, List.isPrefixOf_iff_prefix, List.cons_prefix_cons,
        List.cons_prefix_cons, ← UInt8.toNat_inj, ← UInt8.toNat_inj, UInt8.toNat_ofNat', UInt8.toNat_ofNat',
        UInt16.toNat_ofNat', hff, hfe] at h
      obtain ⟨hlow, hhigh, -⟩ := h
      have hc : c.val.toNat = 0xFEFF := by omega
      refine ⟨t, ?_, ?_⟩
      · rw [← c.ofNat_toNat]
        exact congrArg (fun v => Char.ofNat v :: t) hc
      · rw [if_pos (by omega), List.singleton_append, Utf16.leBytes_cons]
        rfl
    · rw [List.cons_append, Utf16.leBytes_cons, List.isPrefixOf_iff_prefix, List.cons_prefix_cons,
        List.cons_prefix_cons, ← UInt8.toNat_inj, ← UInt8.toNat_inj, UInt8.toNat_ofNat', UInt8.toNat_ofNat',
        UInt16.toNat_ofNat', hff, hfe] at h
      obtain ⟨-, hhigh, -⟩ := h
      omega

/-- The bytes behind the mark, if there is one or the text starts with one. -/
theorem decode_utf16le (bom : Bool) (t : Text) : ∃ t', (t = t' ∨ t = byteOrderMark :: t') ∧
    decodeWslDistributions (utf16le bom t) = distributionsOf (decodeText (Utf16.leBytes (Utf16.encode t'))) := by
  cases bom with
  | true => exact ⟨t, .inl rfl, rfl⟩
  | false =>
    rw [decodeWslDistributions]
    have hbytes : utf16le false t = Utf16.leBytes (Utf16.encode t) := rfl
    rw [hbytes]
    split
    · rename_i hmark
      obtain ⟨t', ht, hdrop⟩ := mark_of_prefix hmark
      exact ⟨t', .inr ht, by rw [hdrop]⟩
    · exact ⟨t, .inl rfl, rfl⟩

/-- Below U+0100 the encoding is seen. -/
theorem decodeText_low {t : Text} (h : ∀ c ∈ t, c.toNat < 256) :
    decodeText (Utf16.leBytes (Utf16.encode t)) = t := by
  rw [decodeText, (oddZero_leBytes _).mpr (encode_low h), Bool.and_true]
  split
  · rw [Utf16.ofLeBytes_leBytes, Utf16.lossy_encode]
  · rename_i hshort
    cases t with
    | nil => rfl
    | cons c t =>
      refine absurd ?_ hshort
      rw [Utf16.encode_cons, Utf16.encodeChar]
      split <;> simp [Utf16.leBytes]

/-- If the encoding is seen, the text is below U+0100; else it is read as UTF-8. -/
theorem decodeText_cases (us : List UInt16) : (∀ c ∈ decodeText (Utf16.leBytes us), c.toNat < 256) ∨
    decodeText (Utf16.leBytes us) = Utf8.lossy (Utf16.leBytes us) := by
  rw [decodeText]
  split
  · rename_i hseen
    rw [Bool.and_eq_true] at hseen
    rw [Utf16.ofLeBytes_leBytes]
    exact .inl (lossy_low ((oddZero_leBytes us).mp hseen.2))
  · exact .inr rfl

/-! ## Weights -/

def weigh {α : Type} (f : α → Nat) : List α → Nat
  | [] => 0
  | a :: l => f a + weigh f l

section

variable {α β : Type} (f : α → Nat)

theorem weigh_append (l m : List α) : weigh f (l ++ m) = weigh f l + weigh f m := by
  induction l with
  | nil => exact (Nat.zero_add _).symm
  | cons a l ih => rw [List.cons_append, weigh, weigh, ih, Nat.add_assoc]

theorem weigh_flatMap (g : β → List α) (l : List β) : weigh f (l.flatMap g) = weigh (fun b => weigh f (g b)) l := by
  induction l with
  | nil => rfl
  | cons b l ih => rw [List.flatMap_cons, weigh_append, ih, weigh]

theorem weigh_sublist {l m : List α} (h : l.Sublist m) : weigh f l ≤ weigh f m := by
  induction h with
  | slnil => exact Nat.le_refl _
  | cons a _ ih => exact Nat.le_trans ih (Nat.le_add_left _ _)
  | cons_cons a _ ih => exact Nat.add_le_add_left ih _

end

/-- Control characters weigh nothing, and the bytes behind the first of a character most. -/
def weight (b : UInt8) : Nat :=
  if b.toNat < 0x20 then 0 else if 0x80 ≤ b.toNat ∧ b.toNat < 0xC0 then 2 else 1

theorem weight_le (b : UInt8) : weight b ≤ 2 := by
  rw [weight]
  split
  · omega
  · split <;> omega

theorem weight_control {b : UInt8} (h : b.toNat < 0x20) : weight b = 0 := by rw [weight, if_pos h]

theorem weight_follow {b : UInt8} (h : 0x80 ≤ b.toNat ∧ b.toNat < 0xC0) : weight b = 2 := by
  rw [weight, if_neg (by omega), if_pos h]

theorem weight_lead {b : UInt8} (h : 0xC0 ≤ b.toNat) : weight b = 1 := by
  rw [weight, if_neg (by omega), if_neg (by omega)]

def utf8Weight (c : Char) : Nat := weigh weight (String.utf8EncodeChar c)

def utf16Weight (c : Char) : Nat := weigh weight (Utf16.leBytes (Utf16.encodeChar c))

theorem utf16Weight_bmp {c : Char} (h : c.val.toNat < 0x10000) :
    utf16Weight c = weight (UInt8.ofNat (c.val.toNat % 256)) + weight (UInt8.ofNat (c.val.toNat / 256)) := by
  have hu : (UInt16.ofNat c.val.toNat).toNat = c.val.toNat := by
    rw [UInt16.toNat_ofNat']
    omega
  rw [utf16Weight, Utf16.encodeChar, if_pos h, Utf16.leBytes_cons, hu]
  rfl

/-- Beyond U+FFFF the higher bytes are those of surrogates. -/
theorem utf16Weight_pair {c : Char} (h : 0x10000 ≤ c.val.toNat) : utf16Weight c ≤ 6 := by
  have hv : c.val.toNat < 0x110000 := Utf8.toNat_lt c
  rw [utf16Weight, Utf16.encodeChar, if_neg (by omega), Utf16.leBytes_cons, Utf16.leBytes_cons, UInt16.toNat_ofNat',
    UInt16.toNat_ofNat']
  generalize hx : (0xD800 + (c.val.toNat - 0x10000) / 0x400) % 2 ^ 16 = x
  generalize hy : (0xDC00 + (c.val.toNat - 0x10000) % 0x400) % 2 ^ 16 = y
  have hhigh : weight (UInt8.ofNat (x / 256)) = 1 := by
    refine weight_lead ?_
    rw [UInt8.toNat_ofNat']
    omega
  have hhigh' : weight (UInt8.ofNat (y / 256)) = 1 := by
    refine weight_lead ?_
    rw [UInt8.toNat_ofNat']
    omega
  have hlow := weight_le (UInt8.ofNat (x % 256))
  have hlow' := weight_le (UInt8.ofNat (y % 256))
  have hnil : weigh weight (Utf16.leBytes []) = 0 := rfl
  rw [weigh, weigh, weigh, weigh, hnil]
  omega

/-- A character weighs no less in UTF-8, and more if it is not ASCII. -/
theorem utf16Weight_le (c : Char) : utf16Weight c + (if c.toNat < 0x80 then 0 else 1) ≤ utf8Weight c := by
  have hval : c.toNat = c.val.toNat := rfl
  have hform := Utf8.form_encode c
  rw [utf8Weight, hval]
  generalize String.utf8EncodeChar c = w at hform
  cases hform with
  | one hv hx =>
    have hhigh : weight (UInt8.ofNat (c.val.toNat / 256)) = 0 := by
      refine weight_control ?_
      rw [UInt8.toNat_ofNat']
      omega
    rw [if_pos hv, utf16Weight_bmp (by omega), hhigh, Nat.mod_eq_of_lt (by omega), ← hx, UInt8.ofNat_toNat]
    exact Nat.le_refl _
  | @two x y hl hv hx hy =>
    have hhigh : weight (UInt8.ofNat (c.val.toNat / 256)) = 0 := by
      refine weight_control ?_
      rw [UInt8.toNat_ofNat']
      omega
    have hlow := weight_le (UInt8.ofNat (c.val.toNat % 256))
    have hweight : weigh weight [x, y] = 1 + (2 + 0) := by
      rw [weigh, weigh, weigh, weight_lead (b := x) (by omega), weight_follow (b := y) (by omega)]
    rw [if_neg (by omega), utf16Weight_bmp (by omega), hweight]
    omega
  | @three x y z hl hv hx hy hz =>
    have hhigh := weight_le (UInt8.ofNat (c.val.toNat / 256))
    have hlow := weight_le (UInt8.ofNat (c.val.toNat % 256))
    have hweight : weigh weight [x, y, z] = 1 + (2 + (2 + 0)) := by
      rw [weigh, weigh, weigh, weigh, weight_lead (b := x) (by omega), weight_follow (b := y) (by omega),
        weight_follow (b := z) (by omega)]
    rw [if_neg (by omega), utf16Weight_bmp (by omega), hweight]
    omega
  | @four x y z u hl hv hx hy hz hu =>
    have hpair := utf16Weight_pair hl
    have hweight : weigh weight [x, y, z, u] = 1 + (2 + (2 + (2 + 0))) := by
      rw [weigh, weigh, weigh, weigh, weigh, weight_lead (b := x) (by omega), weight_follow (b := y) (by omega),
        weight_follow (b := z) (by omega), weight_follow (b := u) (by omega)]
    rw [if_neg (by omega), hweight]
    omega

/-! ## Read as UTF-8 -/

theorem weigh_utf8 (t : Text) : weigh weight (Utf8.encode t) = weigh utf8Weight t := weigh_flatMap weight _ t

theorem weigh_utf16 (t : Text) : weigh weight (Utf16.leBytes (Utf16.encode t)) = weigh utf16Weight t := by
  rw [Utf16.encode, Utf16.leBytes, List.flatMap_assoc]
  exact weigh_flatMap weight _ t

/-- The line ends are control characters. -/
theorem weigh_joined (names : List Text) : weigh utf16Weight (joined names) = weigh utf16Weight names.flatten := by
  induction names with
  | nil => rfl
  | cons name names ih =>
    cases names with
    | nil => rw [joined, List.intercalate_singleton, List.flatten_singleton]
    | cons next names =>
      have hends : weigh utf16Weight ['\r', '\n'] = 0 := by decide
      rw [joined, List.intercalate_cons_cons, weigh_append, weigh_append, hends, List.flatten_cons, weigh_append, ← ih]
      rfl

theorem count_joined {c : Char} (hcr : c ≠ '\r') (hlf : c ≠ '\n') (names : List Text) :
    (joined names).count c = names.flatten.count c := by
  induction names with
  | nil => rfl
  | cons name names ih =>
    cases names with
    | nil => rw [joined, List.intercalate_singleton, List.flatten_singleton]
    | cons next names =>
      have hends : List.count c ['\r', '\n'] = 0 := by
        rw [List.count_cons_of_ne (Ne.symm hcr), List.count_cons_of_ne (Ne.symm hlf), List.count_nil]
      rw [joined, List.intercalate_cons_cons, List.count_append, List.count_append, hends, List.flatten_cons,
        List.count_append, ← ih]
      rfl

/-- The bytes of U+FFFD have no place in UTF-8. -/
theorem count_replacement_le (t : Text) :
    2 * t.count Utf8.replacement ≤ (Utf16.leBytes (Utf16.encode t)).countP Utf8.impossible := by
  induction t with
  | nil => exact Nat.le_refl 0
  | cons c t ih =>
    rw [Utf16.encode_cons, Utf16.leBytes_append, List.countP_append, List.count_cons]
    by_cases hc : c = Utf8.replacement
    · have htwo : (Utf16.leBytes (Utf16.encodeChar Utf8.replacement)).countP Utf8.impossible = 2 := by decide
      rw [hc, htwo, beq_self_eq_true, if_pos rfl]
      omega
    · rw [beq_false_of_ne hc, if_neg Bool.false_ne_true]
      omega

theorem kept_replacement : Kept Utf8.replacement := by
  refine ⟨?_, ?_, ?_, ?_, ?_⟩ <;> decide

/-- What is not ASCII. -/
def wide (t : Text) : Nat := weigh (fun c => if c.toNat < 0x80 then 0 else 1) t

theorem weigh_le (t : Text) : weigh utf16Weight t + wide t ≤ weigh utf8Weight t := by
  induction t with
  | nil => exact Nat.le_refl _
  | cons c t ih =>
    have hc := utf16Weight_le c
    rw [weigh, weigh, wide, weigh, ← wide]
    omega

theorem ascii_of_wide {t : Text} (h : wide t = 0) : ∀ c ∈ t, c.toNat < 0x80 := by
  induction t with
  | nil => exact nofun
  | cons c t ih =>
    rw [wide, weigh, ← wide] at h
    refine List.forall_mem_cons.mpr ⟨?_, ih (by omega)⟩
    by_contra hc
    rw [if_neg hc] at h
    omega

/-- Names that come out of their UTF-16 read as UTF-8 are ASCII. -/
theorem ascii_of_distributions {names : List Text} {t : Text} (ht : joined names = t ∨ joined names = byteOrderMark :: t)
    (h : distributionsOf (Utf8.lossy (Utf16.leBytes (Utf16.encode t))) = names) : ∀ c ∈ names.flatten, c.toNat < 0x80 := by
  have hsub : t.Sublist (joined names) := by
    rcases ht with ht | ht
    · rw [ht]
    · rw [ht]
      exact List.sublist_cons_self _ t
  have hcount : t.count Utf8.replacement = names.flatten.count Utf8.replacement := by
    rw [← count_joined (by decide) (by decide)]
    rcases ht with ht | ht
    · rw [ht]
    · rw [ht, List.count_cons_of_ne (by decide)]
  generalize hbytes : Utf16.leBytes (Utf16.encode t) = bytes at h
  -- every U+FFFD of the names would be two of the text
  have hout := count_distributionsOf kept_replacement (Utf8.lossy bytes)
  rw [h] at hout
  have htwice := count_replacement_le t
  rw [hbytes] at htwice
  have hill := Utf8.countP_impossible_le bytes
  have hnone := Utf8.countP_none_le bytes
  have hencode : Utf8.encode (Utf8.lossy bytes) = bytes := Utf8.encode_lossy (by omega)
  -- so the bytes are the encoding of the text, which has the names in it
  have hnames := weigh_sublist utf8Weight (sublist_distributionsOf (Utf8.lossy bytes))
  rw [h, ← weigh_utf8 (Utf8.lossy bytes), hencode, ← hbytes, weigh_utf16] at hnames
  have hjoined := weigh_sublist utf16Weight hsub
  rw [weigh_joined] at hjoined
  have hle := weigh_le names.flatten
  exact ascii_of_wide (by omega)

/-! ## Names -/

theorem mem_joined {names : List Text} {c : Char} (hc : c ∈ joined names) :
    c = '\r' ∨ c = '\n' ∨ c ∈ names.flatten := by
  by_cases hcr : c = '\r'
  · exact .inl hcr
  · by_cases hlf : c = '\n'
    · exact .inr (.inl hlf)
    · refine .inr (.inr (List.count_pos_iff.mp ?_))
      rw [← count_joined hcr hlf]
      exact List.count_pos_iff.mpr hc

theorem low_joined {names : List Text} (h : ∀ name ∈ names, ∀ c ∈ name, c.toNat < 256) :
    ∀ c ∈ joined names, c.toNat < 256 := by
  intro c hc
  rcases mem_joined hc with rfl | rfl | hc
  · decide
  · decide
  · obtain ⟨name, hn, hc⟩ := List.mem_flatten.mp hc
    exact h name hn c hc

theorem decode_utf16le_iff (names : List Text) (h : ∀ name ∈ names, ValidName name) (bom : Bool) :
    decodeWslDistributions (utf16le bom (joined names)) = names ↔ ∀ name ∈ names, ∀ c ∈ name, c.toNat < 256 := by
  obtain ⟨t, ht, hdecode⟩ := decode_utf16le bom (joined names)
  rw [hdecode]
  constructor
  · intro hnames name hn c hc
    have hmem : c ∈ names.flatten := List.mem_flatten.mpr ⟨name, hn, hc⟩
    rcases decodeText_cases (Utf16.encode t) with hlow | hread
    · rw [← hnames] at hmem
      exact hlow c ((sublist_distributionsOf _).mem hmem)
    · rw [hread] at hnames
      exact Nat.lt_trans (ascii_of_distributions ht hnames c hmem) (by decide)
  · intro hlow
    have hjoined := low_joined hlow
    rcases ht with ht | ht
    · rw [← ht, decodeText_low hjoined, distributionsOf_joined h]
    · rw [ht] at hjoined
      exact absurd (hjoined byteOrderMark List.mem_cons_self) (by decide)

theorem decode_utf8 (names : List Text) (h : ∀ name ∈ names, ValidName name) :
    decodeWslDistributions (Utf8.encode (joined names)) = names := by
  have hzero : (0 : UInt8) ∉ Utf8.encode (joined names) := by
    intro hmem
    rcases mem_joined (Utf8.ofByte_mem (by decide) hmem) with hc | hc | hc
    · exact absurd hc (by decide)
    · exact absurd hc (by decide)
    · obtain ⟨name, hn, hc⟩ := List.mem_flatten.mp hc
      exact absurd ((h name hn).visible _ hc) (by decide)
  have hpossible : (Utf8.encode (joined names)).countP Utf8.impossible = 0 := by
    have hle := Utf8.countP_impossible_le (Utf8.encode (joined names))
    rw [Utf8.decoded_encode_eq, List.countP_map] at hle
    have hnone : (joined names).countP (Option.isNone ∘ some) = 0 := List.countP_eq_zero.mpr fun c _ => Bool.false_ne_true
    omega
  have htext : decodeText (Utf8.encode (joined names)) = joined names := by
    rw [decodeText, if_neg, Utf8.lossy_encode]
    generalize Utf8.encode (joined names) = bytes at hzero
    intro hseen
    match bytes with
    | [] | [_] => cases hseen
    | a :: b :: bytes =>
      simp only [oddZero, Bool.and_eq_true, beq_iff_eq] at hseen
      refine hzero ?_
      rw [hseen.2.1]
      exact List.mem_cons_of_mem a List.mem_cons_self
  rw [decodeWslDistributions, if_neg, htext, distributionsOf_joined h]
  generalize Utf8.encode (joined names) = bytes at hpossible
  intro hmark
  obtain ⟨rest, rfl⟩ := List.isPrefixOf_iff_prefix.mp hmark
  exact absurd hpossible (by simp [Utf8.impossible])

/-- The names come out of their UTF-16, with or without the mark in front, if and only if all their
characters are below U+0100, and out of their UTF-8 always. -/
theorem decodeWslDistributions_iff (names : List Text) (h : ∀ name ∈ names, ValidName name) :
    (∀ bom, decodeWslDistributions (utf16le bom (joined names)) = names ↔
        ∀ name ∈ names, ∀ c ∈ name, c.toNat < 256) ∧
      decodeWslDistributions (Utf8.encode (joined names)) = names :=
  ⟨decode_utf16le_iff names h, decode_utf8 names h⟩

/-- A name in Latin letters. -/
theorem ubuntu_decoded : decodeWslDistributions (utf16le true (joined ["Ubuntu".toList])) = ["Ubuntu".toList] := by
  refine ((decodeWslDistributions_iff ["Ubuntu".toList] ?_).1 true).mpr ?_
  · intro name hn
    rw [List.mem_singleton.mp hn]
    exact ⟨by decide, Text.forall_of_all (by decide), by decide, by decide, by decide⟩
  · intro name hn
    rw [List.mem_singleton.mp hn]
    exact Text.forall_of_all (by decide)

/-- The name U+4E2D, whose bytes are a minus sign and a letter. -/
theorem han_not_decoded : ValidName [Char.ofNat 0x4E2D] ∧
    decodeWslDistributions (utf16le true (joined [[Char.ofNat 0x4E2D]])) ≠ [[Char.ofNat 0x4E2D]] := by
  refine ⟨⟨by decide, Text.forall_of_all (by decide), by decide, by decide, by decide⟩, ?_⟩
  decide

end KW.Wsl
