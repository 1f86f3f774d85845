import KodeWork.Framework.Pieces
import KodeWork.Impl.Path
import Mathlib.Data.Bool.AllAny

/-!
# Paths by their text

Two things about `Impl/Path` that its uses need.

On Windows letters in either case are the same, and `/` is `\`, except behind
`\\?\`. `foldChar` writes a character in one form, and whatever `Components` reads
of a path that is not verbatim, it reads of the folded text, too (`components_congr`): two such
paths with one folded text have the same components, up to the form of their names, and
so have what `pop` leaves of them.

A path that is put together by `push` and cut by `pop` is `Tidy`: its prefix is followed by
a root where that prefix has one, and no separator is at its end but that root.
Then the names that are pushed stand behind one another (`Tidy.push_eq`), and a tidy path
is known from what `push` puts in front of a name (`Tidy.fold_eq_of_stem`).
-/

namespace KW

open KW.Path

/-! ## Characters in one form -/

/-- A character in the form that paths are compared in. -/
def foldChar (windows : Bool) (c : Char) : Char :=
  if windows then (if c == '/' then '\\' else c).toLower else c

theorem foldChar_eq_iff {windows : Bool} {c d : Char} (hd : d.isAlpha = false) (hs : d ≠ '/') (hb : d ≠ '\\') :
    foldChar windows c = d ↔ c = d := by
  cases windows with
  | false => rfl
  | true =>
    rw [foldChar, if_pos rfl, toLower_eq_iff hd]
    by_cases hc : c = '/'
    · subst hc
      exact iff_of_false (Ne.symm hb) (Ne.symm hs)
    · rw [if_neg (by simpa using hc)]

theorem isSeparator_foldChar (windows : Bool) (c : Char) :
    isSeparator windows (foldChar windows c) = isSeparator windows c := by
  cases windows with
  | false => rfl
  | true =>
    have h₁ : ∀ d : Char, (d.toLower == '/') = (d == '/') := fun d => by
      rw [Bool.eq_iff_iff, beq_iff_eq, beq_iff_eq, toLower_eq_iff (by decide)]
    have h₂ : ∀ d : Char, (d.toLower == '\\') = (d == '\\') := fun d => by
      rw [Bool.eq_iff_iff, beq_iff_eq, beq_iff_eq, toLower_eq_iff (by decide)]
    simp only [isSeparator, foldChar, if_true, Bool.true_and, h₁, h₂]
    by_cases hc : c = '/'
    · subst hc
      rfl
    · rw [if_neg (by simpa using hc)]

theorem isAlpha_toLower (c : Char) : c.toLower.isAlpha = c.isAlpha := by
  cases h : c.toLower.isAlpha with
  | false => exact ((congrArg Char.isAlpha ((toLower_eq_iff h).mp rfl)).trans h).symm
  | true =>
    cases h' : c.isAlpha with
    | false => rw [(toLower_eq_iff h').mpr rfl, h'] at h; exact h.symm
    | true => rfl

theorem isAlpha_foldChar (windows : Bool) (c : Char) : (foldChar windows c).isAlpha = c.isAlpha := by
  cases windows with
  | false => rfl
  | true =>
    rw [foldChar, if_pos rfl, isAlpha_toLower]
    split
    · rename_i hc
      rw [beq_iff_eq.mp hc]
      decide
    · rfl

theorem isDrive_map_foldChar (windows : Bool) (t : Text) :
    isDrive (t.map (foldChar windows)) = isDrive t := by
  rcases t with _ | ⟨a, _ | ⟨b, t⟩⟩
  · rfl
  · rfl
  · have hb : (foldChar windows b == ':') = (b == ':') := by
      rw [Bool.eq_iff_iff, beq_iff_eq, beq_iff_eq, foldChar_eq_iff (by decide) (by decide) (by decide)]
    rw [List.map_cons, List.map_cons, isDrive, isDrive, isAlpha_foldChar, hb]

/-- A text that is known from what its characters are is in either form the same. -/
theorem map_foldChar_eq_iff {windows : Bool} {t u : Text}
    (hu : ∀ d ∈ u, d.isAlpha = false ∧ d ≠ '/' ∧ d ≠ '\\') : t.map (foldChar windows) = u ↔ t = u := by
  induction u generalizing t with
  | nil => exact List.map_eq_nil_iff
  | cons d u ih =>
    obtain ⟨hd, hrest⟩ := List.forall_mem_cons.mp hu
    cases t with
    | nil => exact iff_of_false (by simp) (by simp)
    | cons c t =>
      rw [List.map_cons, List.cons.injEq, List.cons.injEq, foldChar_eq_iff hd.1 hd.2.1 hd.2.2, ih hrest]

/-! ## Prefixes -/

theorem startsWith_iff {t u : Text} : Text.startsWith t u = true ↔ t.take u.length = u := by
  rw [Text.startsWith, List.isPrefixOf_iff_prefix, List.prefix_iff_eq_take, eq_comm]

theorem backslashes_map_foldChar (t : Text) :
    backslashes (t.map (foldChar true)) = (backslashes t).map Char.toLower := by
  rw [backslashes, backslashes, List.map_map, List.map_map]
  refine List.map_congr_left fun c _ => ?_
  by_cases hc : c = '/'
  · subst hc
    rfl
  · have hlow : c.toLower ≠ '/' := fun e => hc ((toLower_eq_iff (by decide)).mp e)
    simp [foldChar, hc, hlow]

theorem startsWith_map_toLower {t u : Text} (hu : ∀ d ∈ u, d.isAlpha = false) :
    Text.startsWith (t.map Char.toLower) u = Text.startsWith t u := by
  induction u generalizing t with
  | nil => rfl
  | cons d u ih =>
    obtain ⟨hd, hrest⟩ := List.forall_mem_cons.mp hu
    cases t with
    | nil => rfl
    | cons c t =>
      have hc : (d == c.toLower) = (d == c) := by
        rw [Bool.eq_iff_iff, beq_iff_eq, beq_iff_eq, eq_comm, toLower_eq_iff hd, eq_comm]
      have hrec := ih hrest (t := t)
      rw [Text.startsWith, Text.startsWith] at hrec ⊢
      rw [List.map_cons, List.isPrefixOf_cons_cons, List.isPrefixOf_cons_cons, hc, hrec]

theorem parseNextComponent_map (t : Text) :
    parseNextComponent (t.map (foldChar true)) false =
      ((parseNextComponent t false).1.map (foldChar true), (parseNextComponent t false).2.map (foldChar true)) := by
  have hsep : ((fun c => !isSeparator true c) ∘ foldChar true) = fun c => !isSeparator true c :=
    funext fun c => congrArg not (isSeparator_foldChar true c)
  simp only [parseNextComponent, Bool.false_eq_true, if_false, List.takeWhile_map, List.dropWhile_map, hsep,
    List.map_drop]

/-- The prefix of a path that does not start with `\\?\`, from its folded text. -/
theorem parsePlainPrefix_map (t : Text) : parsePlainPrefix (t.map (foldChar true)) = parsePlainPrefix t := by
  have hs : ∀ u : Text, (∀ d ∈ u, d.isAlpha = false) →
      Text.startsWith (backslashes (t.map (foldChar true))) u = Text.startsWith (backslashes t) u := by
    intro u hu
    rw [backslashes_map_foldChar, startsWith_map_toLower hu]
  have h₁ := hs ['\\', '\\', '.', '\\'] (List.all_iff_forall_prop.mp rfl)
  have h₂ := hs ['\\', '\\'] (List.all_iff_forall_prop.mp rfl)
  simp only [parsePlainPrefix, h₁, h₂, parseShare, ← List.map_drop, parseNextComponent_map, List.length_map,
    List.isEmpty_map, isDrive_map_foldChar]
  rfl

/-- A text that ends at a separator, or goes on with one. -/
theorem takeWhile_append_of_head {p : Char → Bool} {w t : Text} (hw : ∀ c ∈ w, p c = true)
    (ht : t.head?.all (fun c => !p c) = true) : (w ++ t).takeWhile p = w := by
  rw [List.takeWhile_append_of_pos hw]
  cases t with
  | nil => simp
  | cons c t =>
    have hc : p c = false := by simpa using ht
    rw [List.takeWhile_cons_of_neg (by rw [hc]; exact Bool.false_ne_true), List.append_nil]

theorem isDrive_iff {t : Text} : isDrive t = true ↔ ∃ x u, x.isAlpha = true ∧ t = x :: ':' :: u := by
  constructor
  · intro h
    rcases t with _ | ⟨x, _ | ⟨y, u⟩⟩
    · cases h
    · cases h
    · rw [isDrive, Bool.and_eq_true, beq_iff_eq] at h
      exact ⟨x, u, h.1, by rw [h.2]⟩
  · rintro ⟨x, u, hx, rfl⟩
    rw [isDrive, hx]
    rfl

theorem not_isSeparator_of_isAlpha {c : Char} (h : c.isAlpha = true) (windows : Bool) :
    isSeparator windows c = false := by
  have hne : ∀ d : Char, d.isAlpha = false → (c == d) = false := by
    intro d hd
    refine beq_false_of_ne ?_
    rintro rfl
    rw [hd] at h
    cases h
  rw [isSeparator, hne '/' (by decide), hne '\\' (by decide), Bool.and_false, Bool.or_self]

theorem parsePrefix_of_isDrive {t : Text} (h : isDrive t = true) : parsePrefix t = some (.disk, 2) := by
  obtain ⟨x, u, hx, rfl⟩ := isDrive_iff.mp h
  have hsep := not_isSeparator_of_isAlpha hx true
  rw [isSeparator, Bool.true_and, Bool.or_eq_false_iff, beq_eq_false_iff_ne, beq_eq_false_iff_ne] at hsep
  simp [parsePrefix, parsePlainPrefix, Text.startsWith, backslashes, List.isPrefixOf, hsep.1, h]

/-- A path without a prefix: it does not start with a drive, nor with two separators. -/
structure NoPrefix (t : Text) : Prop where
  drive : isDrive t = false
  separators : ∀ c d u, t = c :: d :: u → isSeparator true c = true → isSeparator true d = false

theorem NoPrefix.parsePrefix {t : Text} (h : NoPrefix t) : parsePrefix t = none := by
  have hs : ∀ u : Text, Text.startsWith (backslashes t) ('\\' :: '\\' :: u) = false := by
    intro u
    rcases t with _ | ⟨a, _ | ⟨b, t⟩⟩
    · rfl
    · exact Bool.and_false _
    · have hab := h.separators a b t rfl
      simp only [isSeparator, Bool.true_and, Bool.or_eq_true, beq_iff_eq, Bool.or_eq_false_iff,
        beq_eq_false_iff_ne] at hab
      by_cases ha : a = '/' ∨ a = '\\'
      · obtain ⟨hb, hb'⟩ := hab ha
        simp [Text.startsWith, backslashes, List.isPrefixOf, hb, Ne.symm hb']
      · rw [not_or] at ha
        simp [Text.startsWith, backslashes, List.isPrefixOf, ha.1, Ne.symm ha.2]
  have hv : Text.startsWith t ['\\', '\\', '?', '\\'] = false := by
    refine eq_false_of_ne_true fun e => ?_
    obtain ⟨u, rfl⟩ := List.isPrefixOf_iff_prefix.mp e
    have h2 := h.separators '\\' '\\' ('?' :: '\\' :: u) rfl (by decide)
    exact absurd h2 (by decide)
  simp [Path.parsePrefix, parsePlainPrefix, hs, hv, h.drive]

theorem startsWith_take_append {p t u : Text} {n : Nat} (hu : u.length ≤ n) (hn : n ≤ p.length) :
    Text.startsWith (p.take n ++ t) u = Text.startsWith p u := by
  have hlen : u.length ≤ (p.take n).length := by rw [List.length_take]; omega
  rw [Bool.eq_iff_iff, startsWith_iff, startsWith_iff, List.take_append_of_le_length hlen, List.take_take,
    Nat.min_eq_left hu]

theorem take_length_takeWhile (p : Char → Bool) (t : Text) : t.take (t.takeWhile p).length = t.takeWhile p :=
  (List.prefix_iff_eq_take.mp (List.takeWhile_prefix p)).symm

theorem parseShare_append {server share t : Text} {c : Char} (hs : ∀ x ∈ server, isSeparator true x = false)
    (hc : isSeparator true c = true) (hsh : ∀ x ∈ share, isSeparator true x = false)
    (ht : t.head?.all (isSeparator true) = true) :
    parseShare (server ++ c :: (share ++ t)) false =
      (server, share, server.length + if share.isEmpty then 0 else 1 + share.length) := by
  have hserver : (server ++ c :: (share ++ t)).takeWhile (fun x => !isSeparator true x) = server :=
    takeWhile_append_of_head (by simpa using hs) (by simp [hc])
  have hrest : (server ++ c :: (share ++ t)).dropWhile (fun x => !isSeparator true x) = c :: (share ++ t) := by
    rw [List.dropWhile_append_of_pos (by simpa using hs), List.dropWhile_cons_of_neg (by simp [hc])]
  have hshare : (share ++ t).takeWhile (fun x => !isSeparator true x) = share :=
    takeWhile_append_of_head (by simpa using hsh) (by simpa using ht)
  simp only [parseShare, parseNextComponent, Bool.false_eq_true, if_false, hserver, hrest, List.drop_succ_cons,
    List.drop_zero, hshare]

/-- A share that is read is there. -/
theorem parseShare_cut {q : Text} (h : (parseShare q false).2.1 ≠ []) :
    ∃ c t, q = (parseShare q false).1 ++ c :: ((parseShare q false).2.1 ++ t) ∧ isSeparator true c = true ∧
      (∀ x ∈ (parseShare q false).1, isSeparator true x = false) ∧
      ∀ x ∈ (parseShare q false).2.1, isSeparator true x = false := by
  simp only [parseShare, parseNextComponent, Bool.false_eq_true, if_false] at h ⊢
  have hcat := List.takeWhile_append_dropWhile (p := fun x => !isSeparator true x) (l := q)
  cases hd : q.dropWhile (fun x => !isSeparator true x) with
  | nil =>
    rw [hd] at h
    exact absurd rfl h
  | cons c u =>
    have hc : isSeparator true c = true := by
      have hhead := List.head?_dropWhile_not (fun x => !isSeparator true x) q
      rw [hd, List.head?_cons] at hhead
      simpa using hhead
    refine ⟨c, u.dropWhile fun x => !isSeparator true x, ?_, hc, fun x hx => ?_, fun x hx => ?_⟩
    · rw [List.drop_succ_cons, List.drop_zero, List.takeWhile_append_dropWhile, ← hd, hcat]
    · simpa using List.mem_takeWhile_imp hx
    · simpa using List.mem_takeWhile_imp hx

theorem parsePrefix_eq_plain {p : Text} {kind : PrefixKind} {n : Nat} (h : parsePrefix p = some (kind, n))
    (hv : kind ≠ .verbatim) :
    Text.startsWith p ['\\', '\\', '?', '\\'] = false ∧ parsePlainPrefix p = some (kind, n) := by
  unfold Path.parsePrefix at h
  dsimp only at h
  split at h
  · split at h
    · cases h
      exact absurd rfl hv
    · split at h <;> cases h <;> exact absurd rfl hv
  · exact ⟨eq_false_of_ne_true ‹_›, h⟩

/-- A share or a device is read from its own text, whatever follows its separator. -/
theorem parsePrefix_take_append {p t : Text} {kind : PrefixKind} {n : Nat}
    (h : parsePrefix p = some (kind, n)) (hv : kind ≠ .verbatim) (hd : kind ≠ .disk)
    (ht : t.head?.all (isSeparator true) = true) : parsePrefix (p.take n ++ t) = some (kind, n) := by
  obtain ⟨hraw, hp⟩ := parsePrefix_eq_plain h hv
  have hback : ∀ m, backslashes (p.take m ++ t) = (backslashes p).take m ++ backslashes t := by
    intro m
    rw [backslashes, backslashes, backslashes, List.map_append, List.map_take]
  have hblen : (backslashes p).length = p.length := List.length_map _
  have ht' : t.head?.all (fun c => !!isSeparator true c) = true := by simpa using ht
  unfold parsePlainPrefix at hp
  dsimp only at hp
  split at hp
  · rename_i hdev
    cases hp
    have h4 : 4 ≤ p.length := by
      have := (List.isPrefixOf_iff_prefix.mp hdev).length_le
      rwa [hblen] at this
    have hL : (parseNextComponent (p.drop 4) false).1.length ≤ (p.drop 4).length :=
      (List.takeWhile_prefix _).length_le
    rw [List.length_drop] at hL
    have hcut : (p.take (4 + (parseNextComponent (p.drop 4) false).1.length) ++ t).drop 4 =
        (parseNextComponent (p.drop 4) false).1 ++ t := by
      rw [List.drop_append_of_le_length (by rw [List.length_take]; omega), List.drop_take, Nat.add_sub_cancel_left]
      exact congrArg (· ++ t) (take_length_takeWhile _ _)
    have hname : (parseNextComponent ((parseNextComponent (p.drop 4) false).1 ++ t) false).1 =
        (parseNextComponent (p.drop 4) false).1 :=
      takeWhile_append_of_head (fun _ hc => List.mem_takeWhile_imp (p := fun x => !isSeparator true x) hc) ht'
    rw [Path.parsePrefix, startsWith_take_append (by simp) (by omega), hraw, if_neg Bool.false_ne_true,
      parsePlainPrefix, hback, startsWith_take_append (by simp) (by omega), hdev, if_pos rfl, hcut, hname]
  · rename_i hdev
    split at hp
    · rename_i hslash
      have h2 : 2 ≤ p.length := by
        have := (List.isPrefixOf_iff_prefix.mp hslash).length_le
        rwa [hblen] at this
      obtain ⟨hname, hn⟩ : ((parseShare (p.drop 2) false).1 ≠ [] ∧ (parseShare (p.drop 2) false).2.1 ≠ []) ∧
          some (PrefixKind.unc, 2 + (parseShare (p.drop 2) false).2.2) = some (kind, n) := by
        split at hp
        · cases hp
        · rename_i hne
          rw [Bool.or_eq_true, not_or, List.isEmpty_iff, List.isEmpty_iff] at hne
          exact ⟨hne, hp⟩
      cases hn
      obtain ⟨c, u, hq, hc, hs, hsh⟩ := parseShare_cut hname.2
      have hlen : (parseShare (p.drop 2) false).2.2 =
          (parseShare (p.drop 2) false).1.length + (1 + (parseShare (p.drop 2) false).2.1.length) := by
        have := hname.2
        simp only [parseShare] at this ⊢
        rw [if_neg (by simpa using this)]
      have hpos₁ := List.length_pos_iff.mpr hname.1
      have hpos₂ := List.length_pos_iff.mpr hname.2
      have hplen : p.length = 2 + (p.drop 2).length := by rw [List.length_drop]; omega
      have hqlen := congrArg List.length hq
      simp only [List.length_append, List.length_cons] at hqlen
      have hcut : (p.take (2 + (parseShare (p.drop 2) false).2.2) ++ t).drop 2 =
          (parseShare (p.drop 2) false).1 ++ c :: ((parseShare (p.drop 2) false).2.1 ++ t) := by
        rw [List.drop_append_of_le_length (by rw [List.length_take]; omega), List.drop_take, Nat.add_sub_cancel_left,
          hlen]
        generalize parseShare (p.drop 2) false = x at hq ⊢
        rw [hq]
        simp [List.take_append, Nat.add_comm 1, List.take_of_length_le]
      have hshare := parseShare_append hs hc hsh ht
      rw [Path.parsePrefix, startsWith_take_append (by simp; omega) (by omega), hraw, if_neg Bool.false_ne_true,
        parsePlainPrefix, hback, startsWith_take_append (by simp; omega) (by omega), if_neg hdev,
        startsWith_take_append (by simp) (by omega), if_pos hslash, hcut, hshare]
      simp [hname.1, hname.2, hlen]
    · split at hp
      · cases hp
        exact absurd rfl hd
      · cases hp

theorem isDrive_of_parsePrefix {p : Text} {n : Nat} (h : parsePrefix p = some (.disk, n)) :
    isDrive p = true ∧ n = 2 := by
  obtain ⟨-, hp⟩ := parsePrefix_eq_plain h (by decide)
  unfold parsePlainPrefix at hp
  dsimp only at hp
  split at hp
  · cases hp
  · split at hp
    · split at hp <;> cases hp
    · split at hp <;> cases hp
      exact ⟨‹_›, rfl⟩

theorem length_two_le (p : Char → Bool) (t : Text) :
    (t.takeWhile p).length + (if (((t.dropWhile p).drop 1).takeWhile p).isEmpty then 0
      else 1 + (((t.dropWhile p).drop 1).takeWhile p).length) ≤ t.length := by
  have hcat := congrArg List.length (List.takeWhile_append_dropWhile (p := p) (l := t))
  rw [List.length_append] at hcat
  have hle := (List.takeWhile_prefix (l := (t.dropWhile p).drop 1) p).length_le
  rw [List.length_drop] at hle
  split
  · omega
  · rename_i h
    have hpos : 0 < (((t.dropWhile p).drop 1).takeWhile p).length := by
      rw [List.length_pos_iff]
      exact fun e => h (by rw [e]; rfl)
    omega

/-- A prefix is not longer than its path. -/
theorem parsePrefix_le {p : Text} {kind : PrefixKind} {n : Nat} (h : parsePrefix p = some (kind, n))
    (hv : kind ≠ .verbatim) : n ≤ p.length := by
  have hback : ∀ u : Text, Text.startsWith (backslashes p) u = true → u.length ≤ p.length := by
    intro u hu
    have hle := (List.isPrefixOf_iff_prefix.mp hu).length_le
    rwa [backslashes, List.length_map] at hle
  obtain ⟨-, hp⟩ := parsePrefix_eq_plain h hv
  unfold parsePlainPrefix at hp
  dsimp only at hp
  split at hp
  · rename_i hdev
    have h4 := hback _ hdev
    have hname : (parseNextComponent (p.drop 4) false).1.length ≤ (p.drop 4).length :=
      (List.takeWhile_prefix _).length_le
    rw [List.length_drop] at hname
    simp only [List.length_cons, List.length_nil] at h4
    cases hp
    omega
  · split at hp
    · rename_i hslash
      have h2 := hback _ hslash
      have hshare : (parseShare (p.drop 2) false).2.2 ≤ (p.drop 2).length := length_two_le _ _
      rw [List.length_drop] at hshare
      simp only [List.length_cons, List.length_nil] at h2
      rcases hm : parseShare (p.drop 2) false with ⟨server, share, length⟩
      rw [hm] at hp hshare
      dsimp only at hp hshare
      split at hp <;> cases hp
      omega
    · split at hp
      · rename_i hdrive
        obtain ⟨x, u, -, rfl⟩ := isDrive_iff.mp hdrive
        cases hp
        simp
      · cases hp

/-! ## Components of the folded text -/

def Component.mapText (f : Char → Char) : Component → Component
  | .pathPrefix p => .pathPrefix ⟨p.kind, p.text.map f⟩
  | .normal name => .normal (name.map f)
  | c => c

theorem splitOnP_map {α β : Type} (f : α → β) (p : β → Bool) (t : List α) :
    (t.map f).splitOnP p = (t.splitOnP (p ∘ f)).map (List.map f) := by
  induction t with
  | nil => rfl
  | cons c t ih =>
    rw [List.map_cons, List.splitOnP_cons_eq_if_modifyHead, List.splitOnP_cons_eq_if_modifyHead, ih,
      Function.comp_apply]
    split
    · rfl
    · obtain ⟨v, vs, hv⟩ := List.exists_cons_of_ne_nil (List.splitOnP_ne_nil (p ∘ f) t)
      rw [hv]
      rfl

theorem rdropWhile_map {α β : Type} (f : α → β) (p : β → Bool) (l : List α) :
    (l.map f).rdropWhile p = (l.rdropWhile (p ∘ f)).map f := by
  rw [List.rdropWhile, List.rdropWhile, ← List.map_reverse, List.dropWhile_map, List.map_reverse]

theorem rtakeWhile_map {α β : Type} (f : α → β) (p : β → Bool) (l : List α) :
    (l.map f).rtakeWhile p = (l.rtakeWhile (p ∘ f)).map f := by
  rw [List.rtakeWhile, List.rtakeWhile, ← List.map_reverse, List.takeWhile_map, List.map_reverse]

theorem segment_map (windows : Bool) (t : Text) :
    segment false (t.map (foldChar windows)) = (segment false t).map (Component.mapText (foldChar windows)) := by
  have h₁ : t.map (foldChar windows) = ['.'] ↔ t = ['.'] := map_foldChar_eq_iff (List.all_iff_forall_prop.mp rfl)
  have h₂ : t.map (foldChar windows) = ['.', '.'] ↔ t = ['.', '.'] := map_foldChar_eq_iff (List.all_iff_forall_prop.mp rfl)
  simp only [Path.segment, List.isEmpty_map, h₁, h₂]
  split
  · rfl
  · split
    · rfl
    · split <;> rfl

namespace Components

/-- What is read of the folded text of a path. -/
def fold (c : Components) : Components := { c with path := c.path.map (foldChar c.windows) }

section

variable {c : Components}

theorem separates_foldChar (hv : c.verbatim = false) (x : Char) :
    c.separates (foldChar c.windows x) = c.separates x := by
  rw [separates, separates, hv, if_neg Bool.false_ne_true, if_neg Bool.false_ne_true, isSeparator_foldChar]

theorem not_separates_comp (hv : c.verbatim = false) :
    (fun x => !c.separates x) ∘ foldChar c.windows = fun x => !c.separates x :=
  funext fun x => congrArg not (separates_foldChar hv x)

theorem fold_behind : c.fold.behind = c.behind.map (foldChar c.windows) := List.map_drop.symm

theorem fold_physicalRoot : c.fold.physicalRoot = c.physicalRoot := by
  rw [physicalRoot, fold_behind, List.head?_map, physicalRoot]
  cases c.behind.head? with
  | none => rfl
  | some x => exact isSeparator_foldChar c.windows x

theorem fold_hasRoot : c.fold.hasRoot = c.hasRoot := congrArg (· || _) fold_physicalRoot

theorem fold_includeCurDir (hv : c.verbatim = false) : c.fold.includeCurDir = c.includeCurDir := by
  have hdot : ∀ t : Text, (t.map (foldChar c.windows) == ['.']) = (t == ['.']) := fun t => by
    rw [Bool.eq_iff_iff, beq_iff_eq, beq_iff_eq, map_foldChar_eq_iff (List.all_iff_forall_prop.mp rfl)]
  show (!c.fold.hasRoot && (c.fold.behind.takeWhile fun x => !c.separates x) == ['.']) = _
  rw [fold_hasRoot, fold_behind, List.takeWhile_map, not_separates_comp hv, hdot]
  rfl

theorem fold_lenBeforeBody (hv : c.verbatim = false) : c.fold.lenBeforeBody = c.lenBeforeBody := by
  rw [lenBeforeBody, lenBeforeBody, fold_physicalRoot, fold_includeCurDir hv]
  rfl

theorem fold_rest : c.fold.rest = c.rest.map (foldChar c.windows) := by
  rw [rest, rest, fold_physicalRoot, fold_behind]
  split
  · exact List.map_drop.symm
  · rfl

theorem fold_head : c.fold.head = c.head.map (Component.mapText (foldChar c.windows)) := by
  rw [head, head, fold_physicalRoot, List.map_append]
  congr 1
  · show (c.pre.map fun p => Component.pathPrefix ⟨p.1, (c.path.map (foldChar c.windows)).take p.2⟩).toList = _
    cases c.pre with
    | none => rfl
    | some p => simp [Component.mapText, List.map_take]
  · show (if c.physicalRoot || c.pre.any (fun p => p.1 == .unc || p.1 == .deviceNs) then _ else _) = _
    split <;> rfl

theorem fold_toList (hv : c.verbatim = false) :
    c.fold.toList = c.toList.map (Component.mapText (foldChar c.windows)) := by
  have hsep : c.separates ∘ foldChar c.windows = c.separates := funext (separates_foldChar hv)
  have hverb : c.fold.verbatim = false := hv
  have hstart : c.fold.startDir = c.startDir.map (Component.mapText (foldChar c.windows)) := by
    show (if c.pre.isNone && c.fold.includeCurDir then _ else _) = _
    rw [fold_includeCurDir hv, startDir]
    split <;> rfl
  rw [toList, toList, List.map_append, List.map_append, fold_head, hstart, fold_rest, hverb, hv]
  congr 2
  show ((c.rest.map (foldChar c.windows)).splitOnP c.separates).filterMap (segment false) = _
  rw [splitOnP_map, hsep, List.filterMap_map, List.map_filterMap]
  exact List.filterMap_congr fun t _ => segment_map c.windows t

theorem fold_endsNormal (hv : c.verbatim = false) : c.fold.endsNormal = c.endsNormal := by
  rw [endsNormal, endsNormal, fold_toList hv, List.getLast?_map]
  cases c.toList.getLast? with
  | none => rfl
  | some x => cases x <;> rfl

theorem fold_dropPiece (hv : c.verbatim = false) (t : Text) :
    c.fold.dropPiece (t.map (foldChar c.windows)) = (c.dropPiece t).map (foldChar c.windows) := by
  show ((t.map (foldChar c.windows)).rdropWhile fun x => !c.separates x).dropLast = _
  rw [rdropWhile_map, not_separates_comp hv, ← List.map_dropLast]
  rfl

theorem fold_trimRight (hv : c.verbatim = false) (fuel : Nat) (t : Text) :
    c.fold.trimRight fuel (t.map (foldChar c.windows)) = (c.trimRight fuel t).map (foldChar c.windows) := by
  induction fuel generalizing t with
  | zero => rfl
  | succ fuel ih =>
    have hseg : (segment c.fold.verbatim
        ((t.map (foldChar c.windows)).rtakeWhile fun x => !c.fold.separates x)).isSome =
        (segment c.verbatim (t.rtakeWhile fun x => !c.separates x)).isSome := by
      show (segment c.verbatim ((t.map (foldChar c.windows)).rtakeWhile fun x => !c.separates x)).isSome = _
      rw [rtakeWhile_map, not_separates_comp hv, hv, segment_map, Option.isSome_map]
    rw [trimRight, trimRight, List.isEmpty_map, hseg, fold_dropPiece hv, ih]
    split <;> rfl

theorem fold_body (hv : c.verbatim = false) : c.fold.body = c.body.map (foldChar c.windows) := by
  rw [body, fold_lenBeforeBody hv]
  exact List.map_drop.symm

theorem fold_asPath (hv : c.verbatim = false) (t : Text) :
    c.fold.asPath (t.map (foldChar c.windows)) = (c.asPath t).map (foldChar c.windows) := by
  rw [asPath, asPath, fold_lenBeforeBody hv, List.length_map, fold_trimRight hv, List.map_append, List.map_take]
  rfl

theorem fold_parent (hv : c.verbatim = false) : c.fold.parent = c.parent.map (foldChar c.windows) := by
  rw [parent, parent, fold_body hv, List.length_map, fold_trimRight hv, fold_dropPiece hv, fold_asPath hv]

end

/-- Of two paths that are not verbatim and have one folded text, the same is read. -/
theorem components_congr {windows : Bool} {b b' : Text} (hv : (components windows b).verbatim = false)
    (hv' : (components windows b').verbatim = false)
    (h : b.map (foldChar windows) = b'.map (foldChar windows)) :
    (components windows b).fold = (components windows b').fold := by
  have plain : ∀ {x : Text}, (components true x).verbatim = false → parsePrefix x = parsePlainPrefix x := by
    intro x hx
    unfold Path.parsePrefix
    split
    · rename_i hraw
      exfalso
      have hany : (parsePrefix x).any (fun p => p.1 == .verbatim) = false := hx
      rw [Path.parsePrefix, if_pos hraw] at hany
      dsimp only at hany
      split at hany
      · cases hany
      · split at hany <;> cases hany
    · rfl
  have hpre : (components windows b).pre = (components windows b').pre := by
    cases windows with
    | false => rfl
    | true =>
      show parsePrefix b = parsePrefix b'
      rw [plain hv, plain hv', ← parsePlainPrefix_map b, h, parsePlainPrefix_map]
  show Components.mk windows (b.map (foldChar windows)) _ = ⟨windows, b'.map (foldChar windows), _⟩
  rw [h, hpre]

end Components

namespace Path

/-! ## Paths that are put together -/

/-- What `push` and `pop` leave behind: a share or a device is followed by its root, a path
without a prefix does not look like one with a prefix, and no separator is at the end but
the root. -/
structure Tidy (windows : Bool) (b : Text) : Prop where
  plain : (components windows b).verbatim = false
  rooted : ∀ kind n, prefixOf windows b = some (kind, n) → kind ≠ .disk →
    (components windows b).physicalRoot = true
  headless : prefixOf windows b = none → windows = true → NoPrefix b
  trailing : b.getLast?.any (isSeparator windows) = true → b.length = (components windows b).prefixLen + 1

/-- A name by itself: no separator is in it, and it does not start with a
drive. -/
structure Bare (windows : Bool) (name : Text) : Prop where
  separators : ∀ c ∈ name, isSeparator windows c = false
  drive : windows = true → isDrive name = false

/-- What `push` puts in front of a name. -/
def stem (windows : Bool) (b : Text) : Text :=
  if needSep windows b then b ++ [mainSeparator windows] else b

section

variable {windows : Bool} {b : Text}

theorem isSeparator_mainSeparator (windows : Bool) : isSeparator windows (mainSeparator windows) = true := by
  cases windows <;> rfl

theorem prefixOf_true (t : Text) : prefixOf true t = parsePrefix t := rfl

theorem prefixOf_eq_none {t : Text} (h : windows = true → NoPrefix t) : prefixOf windows t = none := by
  cases windows with
  | false => rfl
  | true => exact (h rfl).parsePrefix

/-- Only on Windows there are prefixes. -/
theorem windows_of_prefixOf {t : Text} {x : PrefixKind × Nat} (h : prefixOf windows t = some x) : windows = true := by
  cases windows with
  | false => cases h
  | true => rfl

theorem verbatim_of_prefixOf {t : Text} (h : ∀ n, prefixOf windows t ≠ some (.verbatim, n)) :
    (components windows t).verbatim = false := by
  show (prefixOf windows t).any _ = false
  rcases hp : prefixOf windows t with _ | ⟨kind, n⟩
  · rfl
  · refine beq_false_of_ne ?_
    rintro rfl
    exact h n hp

theorem prefixOf_of_verbatim {t : Text} (h : (components windows t).verbatim = false) {kind : PrefixKind} {n : Nat}
    (hp : prefixOf windows t = some (kind, n)) : kind ≠ .verbatim := by
  have hany : (prefixOf windows t).any (fun p => p.1 == .verbatim) = false := h
  rw [hp] at hany
  simpa using hany

theorem prefixLen_eq {t : Text} {kind : PrefixKind} {n : Nat} (h : prefixOf windows t = some (kind, n)) :
    (components windows t).prefixLen = n := by
  show ((prefixOf windows t).map Prod.snd).getD 0 = n
  rw [h]
  rfl

theorem prefixLen_eq_zero {t : Text} (h : prefixOf windows t = none) : (components windows t).prefixLen = 0 := by
  show ((prefixOf windows t).map Prod.snd).getD 0 = 0
  rw [h]
  rfl

theorem physicalRoot_eq (t : Text) : (components windows t).physicalRoot =
    (t.drop (components windows t).prefixLen).head?.any (isSeparator windows) := rfl

/-! ### Names -/

theorem Bare.noPrefix {name : Text} (h : Bare windows name) (hw : windows = true) : NoPrefix name where
  drive := h.drive hw
  separators := by
    rintro c d u rfl hc
    subst hw
    rw [h.separators c List.mem_cons_self] at hc
    cases hc

theorem Bare.prefixOf {name : Text} (h : Bare windows name) : prefixOf windows name = none :=
  prefixOf_eq_none h.noPrefix

theorem Bare.hasRoot {name : Text} (h : Bare windows name) : hasRoot windows name = false := by
  have hroot : (components windows name).physicalRoot = false := by
    rw [physicalRoot_eq, prefixLen_eq_zero h.prefixOf, List.drop_zero]
    cases name with
    | nil => rfl
    | cons c t => exact h.separators c List.mem_cons_self
  show ((components windows name).physicalRoot || (Path.prefixOf windows name).any _) = false
  rw [hroot, h.prefixOf]
  rfl

theorem push_bare (hb : (components windows b).verbatim = false) {name : Text} (h : Bare windows name) :
    push windows b name = stem windows b ++ name := by
  have habs : isAbsolute windows name = false := by rw [isAbsolute, h.hasRoot, Bool.false_and]
  simp only [push, habs, h.prefixOf, h.hasRoot, hb, Option.isSome_none, Bool.or_self, Bool.false_and,
    Bool.false_eq_true, if_false, stem]
  split
  · rw [List.append_assoc, List.singleton_append]
  · rfl

/-- What starts like a drive replaces the path. -/
theorem push_drive {name : Text} (hw : windows = true) (h : isDrive name = true) : push windows b name = name := by
  subst hw
  have hp : prefixOf true name = some (.disk, 2) := parsePrefix_of_isDrive h
  rw [push, hp, Option.isSome_some, Bool.or_true, if_pos rfl]

/-! ### Reading what was put together -/

theorem noPrefix_of_le {t u : Text} (h : NoPrefix t) (hu : u <+: t) : NoPrefix u where
  drive := by
    obtain ⟨v, rfl⟩ := hu
    have hd := h.drive
    rcases u with _ | ⟨x, _ | ⟨y, u⟩⟩
    · rfl
    · rfl
    · exact hd
  separators := by
    rintro c d w rfl hc
    obtain ⟨v, rfl⟩ := hu
    exact h.separators c d (w ++ v) rfl hc

theorem noPrefix_of_take {t u : Text} (h : NoPrefix t) (hu : u.take 2 = t.take 2) : NoPrefix u := by
  have hdrive : ∀ x : Text, isDrive x = isDrive (x.take 2) := by
    rintro (_ | ⟨a, _ | ⟨b, x⟩⟩) <;> rfl
  refine ⟨by rw [hdrive, hu, ← hdrive, h.drive], ?_⟩
  rintro c d v rfl hc
  rcases t with _ | ⟨x, _ | ⟨y, t⟩⟩
  · cases hu
  · cases hu
  · cases hu
    exact h.separators c d t rfl hc

/-- The prefix is kept when a tidy path grows. -/
theorem Tidy.prefixOf_append (h : Tidy windows b) {u : Text}
    (hu : prefixOf windows b = none → windows = true → NoPrefix (b ++ u)) :
    prefixOf windows (b ++ u) = prefixOf windows b := by
  rcases hp : prefixOf windows b with _ | ⟨kind, n⟩
  · exact prefixOf_eq_none (hu hp)
  · obtain rfl := windows_of_prefixOf hp
    by_cases hd : kind = .disk
    · subst hd
      obtain ⟨hdrive, rfl⟩ := isDrive_of_parsePrefix hp
      refine parsePrefix_of_isDrive ?_
      rcases b with _ | ⟨x, _ | ⟨y, b⟩⟩
      · cases hdrive
      · cases hdrive
      · exact hdrive
    · have hroot := h.rooted kind n hp hd
      rw [physicalRoot_eq, prefixLen_eq hp] at hroot
      have hcut : b ++ u = b.take n ++ (b.drop n ++ u) := by
        rw [← List.append_assoc, List.take_append_drop]
      rw [hcut]
      refine parsePrefix_take_append hp (prefixOf_of_verbatim h.plain hp) hd ?_
      cases hdrop : b.drop n with
      | nil =>
        rw [hdrop] at hroot
        cases hroot
      | cons c v =>
        rw [hdrop] at hroot
        exact hroot

/-- The prefix is kept when a tidy path is cut behind its root. -/
theorem Tidy.prefixOf_take (h : Tidy windows b) {k : Nat} (hk : (components windows b).prefixLen +
    (if (components windows b).physicalRoot then 1 else 0) ≤ k) :
    prefixOf windows (b.take k) = prefixOf windows b := by
  rcases hp : prefixOf windows b with _ | ⟨kind, n⟩
  · exact prefixOf_eq_none fun hw => noPrefix_of_le (h.headless hp hw) (List.take_prefix k b)
  · obtain rfl := windows_of_prefixOf hp
    rw [prefixLen_eq hp] at hk
    by_cases hd : kind = .disk
    · subst hd
      obtain ⟨hdrive, rfl⟩ := isDrive_of_parsePrefix hp
      refine parsePrefix_of_isDrive ?_
      rcases b with _ | ⟨x, _ | ⟨y, b⟩⟩
      · cases hdrive
      · cases hdrive
      · obtain ⟨k, rfl⟩ : ∃ j, k = j + 2 := ⟨k - 2, by omega⟩
        exact hdrive
    · have hroot := h.rooted kind n hp hd
      rw [hroot, if_pos rfl] at hk
      rw [physicalRoot_eq, prefixLen_eq hp] at hroot
      have hcut : b.take k = b.take n ++ (b.drop n).take (k - n) := by
        rw [← List.take_add, Nat.add_sub_cancel' (by omega)]
      rw [hcut]
      refine parsePrefix_take_append hp (prefixOf_of_verbatim h.plain hp) hd ?_
      cases hdrop : b.drop n with
      | nil =>
        rw [hdrop] at hroot
        cases hroot
      | cons c v =>
        rw [hdrop] at hroot
        obtain ⟨j, hj⟩ : ∃ j, k - n = j + 1 := ⟨k - n - 1, by omega⟩
        rw [hj]
        exact hroot

theorem tidy_nil : Tidy windows [] := by
  have hp : prefixOf windows [] = none := prefixOf_eq_none fun _ => ⟨rfl, by rintro _ _ _ ⟨⟩⟩
  refine ⟨verbatim_of_prefixOf fun n => (by rw [hp]; exact nofun), ?_, fun _ _ => ⟨rfl, by rintro _ _ _ ⟨⟩⟩,
    by rintro ⟨⟩⟩
  intro kind n h
  rw [hp] at h
  cases h

theorem tidy_root : Tidy windows [mainSeparator windows] := by
  have hno : windows = true → NoPrefix [mainSeparator windows] := by
    rintro rfl
    exact ⟨rfl, by rintro _ _ _ ⟨⟩⟩
  have hp : prefixOf windows [mainSeparator windows] = none := prefixOf_eq_none hno
  refine ⟨verbatim_of_prefixOf fun n => (by rw [hp]; exact nofun), ?_, fun _ => hno, fun _ => ?_⟩
  · intro kind n h
    rw [hp] at h
    cases h
  · rw [prefixLen_eq_zero hp]
    rfl

/-- What starts like a drive, and has no separators. -/
theorem tidy_drive {name : Text} (hw : windows = true) (h : isDrive name = true)
    (hs : ∀ c ∈ name, isSeparator windows c = false) : Tidy windows name := by
  subst hw
  have hp : prefixOf true name = some (.disk, 2) := parsePrefix_of_isDrive h
  refine ⟨verbatim_of_prefixOf fun n => (by rw [hp]; exact nofun), ?_, fun hn => (by rw [hp] at hn; cases hn), ?_⟩
  · intro kind n hk hd
    rw [hp] at hk
    cases hk
    exact absurd rfl hd
  · intro hl
    obtain ⟨c, hc, hsep⟩ := (Option.any_eq_true _ _).mp hl
    rw [hs c (List.mem_of_getLast? hc)] at hsep
    cases hsep

/-- The prefix of a path, and the root behind it. -/
theorem tidy_prefix_root {a : Text} {kind : PrefixKind} {n : Nat} (hp : prefixOf true a = some (kind, n))
    (hv : kind ≠ .verbatim) (hn : n ≤ a.length) : Tidy true (a.take n ++ ['\\']) := by
  have hlen : (a.take n).length = n := by rw [List.length_take, Nat.min_eq_left hn]
  have hp' : prefixOf true (a.take n ++ ['\\']) = some (kind, n) := by
    by_cases hd : kind = .disk
    · subst hd
      obtain ⟨hdrive, rfl⟩ := isDrive_of_parsePrefix hp
      refine parsePrefix_of_isDrive ?_
      rcases a with _ | ⟨x, _ | ⟨y, a⟩⟩
      · cases hdrive
      · cases hdrive
      · exact hdrive
    · exact parsePrefix_take_append hp hv hd rfl
  refine ⟨verbatim_of_prefixOf fun m => (by rw [hp']; rintro ⟨⟩; exact hv rfl), ?_,
    fun hnone => (by rw [hp'] at hnone; cases hnone), fun _ => ?_⟩
  · intro kind' m hm _
    rw [hp'] at hm
    cases hm
    rw [physicalRoot_eq, prefixLen_eq hp', List.drop_left' hlen]
    rfl
  · rw [prefixLen_eq hp', List.length_append, hlen]
    rfl

/-- Another path with the prefix of a tidy one. -/
theorem Tidy.of_prefixOf (h : Tidy windows b) {t : Text} (hp : prefixOf windows t = prefixOf windows b)
    (hroot : (components windows b).physicalRoot = true → (components windows t).physicalRoot = true)
    (hno : prefixOf windows b = none → windows = true → NoPrefix t)
    (ht : t.getLast?.any (isSeparator windows) = true → t.length = (components windows t).prefixLen + 1) :
    Tidy windows t where
  plain := by
    refine verbatim_of_prefixOf fun n e => ?_
    rw [hp] at e
    exact prefixOf_of_verbatim h.plain e rfl
  rooted := fun kind n hk hd => hroot (h.rooted kind n (hp ▸ hk) hd)
  headless := fun hn => hno (hp ▸ hn)
  trailing := ht

/-- A name behind a tidy path. -/
theorem Tidy.name (h : Tidy windows b) {name : Text} (hn : Bare windows name) (hne : name ≠ []) :
    Tidy windows (stem windows b ++ name) := by
  obtain ⟨u, hu, hcut⟩ : ∃ u, (u = name ∧ needSep windows b = false ∨
      u = mainSeparator windows :: name ∧ needSep windows b = true) ∧ stem windows b ++ name = b ++ u := by
    rw [stem]
    split
    · exact ⟨_, .inr ⟨rfl, ‹_›⟩, by rw [List.append_assoc, List.singleton_append]⟩
    · exact ⟨name, .inl ⟨rfl, eq_false_of_ne_true ‹_›⟩, rfl⟩
  rw [hcut]
  have hno : prefixOf windows b = none → windows = true → NoPrefix (b ++ u) := by
    intro hp hw
    have hb := h.headless hp hw
    subst hw
    rcases b with _ | ⟨c, _ | ⟨d, b⟩⟩
    · rcases hu with ⟨rfl, -⟩ | ⟨-, hsep⟩
      · exact hn.noPrefix rfl
      · cases hsep
    · obtain ⟨x, t, rfl⟩ := List.exists_cons_of_ne_nil hne
      have hx := hn.separators x List.mem_cons_self
      have hsep : needSep true [c] = !isSeparator true c := by
        rw [needSep, hp]
        exact Bool.and_true _
      rw [hsep, Bool.not_eq_false', Bool.not_eq_true'] at hu
      rcases hu with ⟨rfl, hc⟩ | ⟨rfl, hc⟩
      · refine ⟨?_, by rintro _ _ _ ⟨⟩ _; exact hx⟩
        have hca : c.isAlpha = false := by
          refine eq_false_of_ne_true fun ha => ?_
          rw [not_isSeparator_of_isAlpha ha] at hc
          cases hc
        show (c.isAlpha && x == ':') = false
        rw [hca, Bool.false_and]
      · refine ⟨Bool.and_false _, ?_⟩
        rintro _ _ _ ⟨⟩ hc'
        rw [hc] at hc'
        cases hc'
    · exact noPrefix_of_take hb rfl
  have hp := h.prefixOf_append hno
  refine h.of_prefixOf hp (fun hroot => ?_) hno fun hl => ?_
  · have hlen : (components windows (b ++ u)).prefixLen = (components windows b).prefixLen :=
      congrArg (fun x : Option (PrefixKind × Nat) => (x.map Prod.snd).getD 0) hp
    rw [physicalRoot_eq] at hroot
    rw [physicalRoot_eq, hlen]
    obtain ⟨c, hc, hsep⟩ := (Option.any_eq_true _ _).mp hroot
    rw [List.head?_drop] at hc ⊢
    rw [List.getElem?_append_left (List.getElem?_eq_some_iff.mp hc).1, hc]
    exact hsep
  · exfalso
    obtain ⟨c, hc, hsep⟩ := (Option.any_eq_true _ _).mp hl
    have hmem : c ∈ name := by
      have hlast : (b ++ u).getLast? = name.getLast? := by
        rw [← hcut, List.getLast?_append_of_ne_nil _ hne]
      exact List.mem_of_getLast? (hlast ▸ hc)
    rw [hn.separators c hmem] at hsep
    cases hsep

/-! ### `pop` -/

theorem dropPiece_le (c : Components) (t : Text) : c.dropPiece t <+: t :=
  (List.dropLast_prefix _).trans (List.rdropWhile_prefix _ _)

theorem dropPiece_length (c : Components) {t : Text} (h : t ≠ []) : (c.dropPiece t).length < t.length := by
  have hle := (List.rdropWhile_prefix (fun x => !c.separates x) t).length_le
  have hpos := List.length_pos_iff.mpr h
  rw [Components.dropPiece, List.length_dropLast]
  omega

theorem trimRight_le (c : Components) (fuel : Nat) (t : Text) : c.trimRight fuel t <+: t := by
  induction fuel generalizing t with
  | zero => exact List.prefix_rfl
  | succ fuel ih =>
    rw [Components.trimRight]
    split
    · exact List.prefix_rfl
    · exact (ih _).trans (dropPiece_le c t)

/-- Nothing is left, or a component is at the end. -/
theorem trimRight_last (c : Components) (fuel : Nat) (t : Text) (h : t.length ≤ fuel) :
    (c.trimRight fuel t).getLast?.all (fun x => !c.separates x) = true := by
  induction fuel generalizing t with
  | zero =>
    rw [List.length_eq_zero_iff.mp (Nat.le_zero.mp h)]
    rfl
  | succ fuel ih =>
    rw [Components.trimRight]
    split
    · rename_i hend
      rcases List.eq_nil_or_concat t with rfl | ⟨u, x, rfl⟩
      · rfl
      · rw [List.concat_eq_append, List.getLast?_append_of_ne_nil _ (List.cons_ne_nil x [])]
        show (!c.separates x) = true
        by_contra hx
        rw [List.concat_eq_append, List.rtakeWhile_concat_neg (fun x => !c.separates x) u x hx] at hend
        simp [Path.segment] at hend
    · rename_i hend
      have hne : t ≠ [] := by
        rintro rfl
        exact hend rfl
      have hlt := dropPiece_length c hne
      exact ih _ (by omega)

/-- Of what comes before the body, only the root is a separator. -/
theorem Tidy.lenBeforeBody_of_trailing (h : Tidy windows b)
    (hl : (b.take (components windows b).lenBeforeBody).getLast?.any (isSeparator windows) = true) :
    (b.take (components windows b).lenBeforeBody).length = (components windows b).prefixLen + 1 := by
  have hlast : ∀ {c : Char} {k : Nat}, b[k]? = some c → (b.take (k + 1)).getLast? = some c := by
    intro c k hc
    rw [List.take_add_one, hc, Option.toList_some, List.getLast?_concat]
  cases hroot : (components windows b).physicalRoot with
  | true =>
    have hcur : (components windows b).includeCurDir = false := by
      rw [Components.includeCurDir, Components.hasRoot, hroot]
      rfl
    have hlen : (components windows b).lenBeforeBody = (components windows b).prefixLen + 1 := by
      rw [Components.lenBeforeBody, hroot, hcur]
      rfl
    rw [physicalRoot_eq, List.head?_drop] at hroot
    obtain ⟨c, hc, -⟩ := (Option.any_eq_true _ _).mp hroot
    have hlt := (List.getElem?_eq_some_iff.mp hc).1
    rw [hlen, List.length_take]
    omega
  | false =>
    exfalso
    cases hcur : (components windows b).includeCurDir with
    | true =>
      have hlen : (components windows b).lenBeforeBody = (components windows b).prefixLen + 1 := by
        rw [Components.lenBeforeBody, hroot, hcur]
        rfl
      have hdot : b[(components windows b).prefixLen]? = some '.' := by
        rw [Components.includeCurDir, Bool.and_eq_true, beq_iff_eq] at hcur
        have hhead := congrArg List.head? hcur.2
        rw [← List.head?_drop]
        show (components windows b).behind.head? = some '.'
        cases hb : (components windows b).behind with
        | nil =>
          rw [hb] at hhead
          cases hhead
        | cons c t =>
          rw [hb, List.takeWhile_cons] at hhead
          split at hhead
          · exact hhead
          · cases hhead
      rw [hlen, hlast hdot] at hl
      cases windows <;> cases hl
    | false =>
      have hlen : (components windows b).lenBeforeBody = (components windows b).prefixLen := by
        rw [Components.lenBeforeBody, hroot, hcur]
        rfl
      rw [hlen] at hl
      rcases hp : prefixOf windows b with _ | ⟨kind, n⟩
      · rw [prefixLen_eq_zero hp] at hl
        cases hl
      · obtain rfl := windows_of_prefixOf hp
        by_cases hd : kind = .disk
        · subst hd
          obtain ⟨hdrive, rfl⟩ := isDrive_of_parsePrefix hp
          rw [prefixLen_eq hp] at hl
          obtain ⟨x, u, -, rfl⟩ := isDrive_iff.mp hdrive
          cases hl
        · rw [h.rooted kind n hp hd] at hroot
          cases hroot

theorem Tidy.pop (h : Tidy windows b) : Tidy windows (pop windows b) := by
  obtain ⟨u, hu, hlast, hcut⟩ : ∃ u, u <+: (components windows b).body ∧
      u.getLast?.all (fun x => !isSeparator windows x) = true ∧
      Path.pop windows b = b.take (components windows b).lenBeforeBody ++ u := by
    have hsep : (components windows b).separates = isSeparator windows := by
      funext x
      rw [Components.separates, h.plain, if_neg Bool.false_ne_true]
      rfl
    refine ⟨_, ?_, ?_, rfl⟩
    · exact (trimRight_le _ _ _).trans ((dropPiece_le _ _).trans (trimRight_le _ _ _))
    · have hl := trimRight_last (components windows b) _ ((components windows b).dropPiece
        ((components windows b).trimRight (components windows b).body.length (components windows b).body))
        (Nat.le_refl _)
      rwa [hsep] at hl
  -- what is left is the front of the path, its root included
  obtain ⟨k, hk, htake⟩ : ∃ k, (components windows b).lenBeforeBody ≤ k ∧ Path.pop windows b = b.take k := by
    refine ⟨(components windows b).lenBeforeBody + u.length, Nat.le_add_right _ _, ?_⟩
    rw [hcut, List.take_add]
    exact congrArg (_ ++ ·) (List.prefix_iff_eq_take.mp hu)
  have hroot : (components windows b).prefixLen +
      (if (components windows b).physicalRoot then 1 else 0) ≤ k := by
    rw [Components.lenBeforeBody] at hk
    omega
  have hp : prefixOf windows (Path.pop windows b) = prefixOf windows b := htake ▸ h.prefixOf_take hroot
  have hlen : (components windows (Path.pop windows b)).prefixLen = (components windows b).prefixLen :=
    congrArg (fun x : Option (PrefixKind × Nat) => (x.map Prod.snd).getD 0) hp
  refine h.of_prefixOf hp (fun hphys => ?_) (fun hnone hw => ?_) fun hl => ?_
  · rw [hphys, if_pos rfl] at hroot
    rw [physicalRoot_eq] at hphys
    rw [physicalRoot_eq, hlen, htake, List.head?_drop, List.getElem?_take_of_lt (by omega), ← List.head?_drop]
    exact hphys
  · exact htake ▸ noPrefix_of_le (h.headless hnone hw) (List.take_prefix k b)
  · rw [hlen]
    by_cases hu₀ : u = []
    · rw [hu₀, List.append_nil] at hcut
      rw [hcut] at hl ⊢
      exact h.lenBeforeBody_of_trailing hl
    · exfalso
      rw [hcut, List.getLast?_append_of_ne_nil _ hu₀] at hl
      obtain ⟨c, hc, hsep⟩ := (Option.any_eq_true _ _).mp hl
      rw [hc] at hlast
      simp [hsep] at hlast

/-! ### Stems -/

/-- A stem is empty, ends in a separator or is a drive. -/
theorem stem_cases (windows : Bool) (b : Text) : stem windows b = [] ∨
    (stem windows b).getLast?.any (isSeparator windows) = true ∨
    windows = true ∧ ∃ x, x.isAlpha = true ∧ stem windows b = [x, ':'] := by
  rw [stem]
  split
  · refine .inr (.inl ?_)
    rw [List.getLast?_concat]
    exact isSeparator_mainSeparator windows
  · rename_i hs
    rcases List.eq_nil_or_concat b with rfl | ⟨u, c, rfl⟩
    · exact .inl rfl
    · rw [List.concat_eq_append] at hs ⊢
      cases hc : isSeparator windows c with
      | true => exact .inr (.inl (by rw [List.getLast?_concat]; exact hc))
      | false =>
        refine .inr (.inr ?_)
        have hp : prefixOf windows (u ++ [c]) = some (.disk, (u ++ [c]).length) := by
          rw [needSep, List.getLast?_concat, Option.any_some, hc] at hs
          simpa using hs
        obtain rfl := windows_of_prefixOf hp
        obtain ⟨hdrive, hlen⟩ := isDrive_of_parsePrefix hp
        obtain ⟨x, v, hx, e⟩ := isDrive_iff.mp hdrive
        rw [e] at hlen ⊢
        have hv : v = [] := List.length_eq_zero_iff.mp (by simpa using hlen)
        rw [hv]
        exact ⟨rfl, x, hx, rfl⟩

theorem leaf_append {sep : Char → Bool} {x m : Text} (hm : ∀ c ∈ m, sep c = false)
    (hx : x = [] ∨ x.getLast?.any sep = true) : Pieces.leaf sep (x ++ m) = m := by
  rw [Pieces.leaf, List.rtakeWhile, List.reverse_append, takeWhile_append_of_head, List.reverse_reverse]
  · intro c hc
    rw [hm c (List.mem_reverse.mp hc)]
    rfl
  · rw [List.head?_reverse]
    rcases hx with rfl | hx
    · rfl
    · obtain ⟨c, hc, hsep⟩ := (Option.any_eq_true _ _).mp hx
      rw [hc]
      simp [hsep]

/-- A stem and the name behind it are known from the two together. -/
theorem stem_append_inj {b' name name' : Text} (hn : Bare windows name) (hn' : Bare windows name')
    (h : (stem windows b ++ name).map (foldChar windows) = (stem windows b' ++ name').map (foldChar windows)) :
    (stem windows b).map (foldChar windows) = (stem windows b').map (foldChar windows) ∧
      name.map (foldChar windows) = name'.map (foldChar windows) := by
  rw [List.map_append, List.map_append] at h
  have hseps : ∀ {n : Text}, Bare windows n → ∀ c ∈ n.map (foldChar windows), isSeparator windows c = false := by
    intro n hn c hc
    obtain ⟨d, hd, rfl⟩ := List.mem_map.mp hc
    rw [isSeparator_foldChar, hn.separators d hd]
  have hfold : ∀ b : Text, (stem windows b).map (foldChar windows) = [] ∨
      ((stem windows b).map (foldChar windows)).getLast?.any (isSeparator windows) = true ∨
      windows = true ∧ ∃ x : Char, x.isAlpha = true ∧ (stem windows b).map (foldChar windows) = [x, ':'] := by
    intro b
    rcases stem_cases windows b with e | e | ⟨hw, x, hx, e⟩
    · exact .inl (by rw [e]; rfl)
    · refine .inr (.inl ?_)
      obtain ⟨c, hc, hsep⟩ := (Option.any_eq_true _ _).mp e
      rw [List.getLast?_map, hc, Option.map_some, Option.any_some, isSeparator_foldChar, hsep]
    · refine .inr (.inr ⟨hw, foldChar windows x, by rw [isAlpha_foldChar, hx], ?_⟩)
      have hcolon : foldChar windows ':' = ':' := (foldChar_eq_iff (by decide) (by decide) (by decide)).mpr rfl
      rw [e, List.map_cons, List.map_cons, List.map_nil, hcolon]
  have hdrive : ∀ {x : Char}, windows = true → x.isAlpha = true →
      ∀ c ∈ [x, ':'], isSeparator windows c = false := by
    rintro x rfl hx c hc
    rcases List.mem_cons.mp hc with rfl | hc
    · exact not_isSeparator_of_isAlpha hx true
    · rw [List.mem_singleton.mp hc]
      rfl
  -- the leaf of each side: the name, or a drive and the name
  have hleaf : ∀ {b n : Text}, Bare windows n →
      (∃ x : Char, windows = true ∧ x.isAlpha = true ∧ (stem windows b).map (foldChar windows) = [x, ':'] ∧
        Pieces.leaf (isSeparator windows) ((stem windows b).map (foldChar windows) ++ n.map (foldChar windows)) =
          [x, ':'] ++ n.map (foldChar windows)) ∨
      Pieces.leaf (isSeparator windows) ((stem windows b).map (foldChar windows) ++ n.map (foldChar windows)) =
        n.map (foldChar windows) := by
    intro b n hn
    rcases hfold b with e | e | ⟨hw, x, hx, e⟩
    · exact .inr (leaf_append (hseps hn) (.inl e))
    · exact .inr (leaf_append (hseps hn) (.inr e))
    · have hall : ∀ c ∈ [x, ':'] ++ n.map (foldChar windows), isSeparator windows c = false := by
        intro c hc
        rcases List.mem_append.mp hc with hc | hc
        · exact hdrive hw hx c hc
        · exact hseps hn c hc
      have hself : Pieces.leaf (isSeparator windows) ([] ++ ([x, ':'] ++ n.map (foldChar windows))) =
          [x, ':'] ++ n.map (foldChar windows) := leaf_append hall (.inl rfl)
      exact .inl ⟨x, hw, hx, e, by rw [e]; exact hself⟩
  have hbare : ∀ {n : Text} {x : Char} {u : Text}, Bare windows n → windows = true → x.isAlpha = true →
      n.map (foldChar windows) ≠ [x, ':'] ++ u := by
    intro n x u hn hw hx e
    have hd := hn.drive hw
    rw [← isDrive_map_foldChar windows, e] at hd
    rw [List.cons_append, List.cons_append, isDrive, hx] at hd
    cases hd
  have hl := congrArg (Pieces.leaf (isSeparator windows)) h
  rcases hleaf hn (b := b) with ⟨x, hw, hx, e, hlx⟩ | hlx <;>
    rcases hleaf hn' (b := b') with ⟨x', hw', hx', e', hlx'⟩ | hlx' <;> rw [hlx, hlx'] at hl
  · rw [e, e'] at h ⊢
    exact List.append_inj h rfl
  · exact absurd hl.symm (hbare hn' hw hx)
  · exact absurd hl (hbare hn hw' hx')
  · exact ⟨List.append_cancel_right (hl ▸ h), hl⟩

/-- No stem that needs its separator is another tidy path. -/
theorem Tidy.stem_ne (h : Tidy windows b) {b' : Text} (h' : Tidy windows b') (hs : needSep windows b = true) :
    (b ++ [mainSeparator windows]).map (foldChar windows) ≠ b'.map (foldChar windows) := by
  intro e
  rw [List.map_append, List.map_singleton] at e
  have hlast : b'.getLast?.any (isSeparator windows) = true := by
    have hl := congrArg List.getLast? e
    rw [List.getLast?_concat, List.getLast?_map] at hl
    obtain ⟨c, hc, hf⟩ := Option.map_eq_some_iff.mp hl.symm
    rw [hc, Option.any_some, ← isSeparator_foldChar, hf, isSeparator_foldChar, isSeparator_mainSeparator]
  have hlen := h'.trailing hlast
  have hlen' := congrArg List.length e
  rw [List.length_append, List.length_map, List.length_map, List.length_singleton, hlen] at hlen'
  have hb : b.length = (components windows b').prefixLen := by omega
  rcases hp : prefixOf windows b' with _ | ⟨kind, n⟩
  · rw [prefixLen_eq_zero hp] at hb
    rw [List.length_eq_zero_iff.mp hb] at hs
    cases hs
  · obtain rfl := windows_of_prefixOf hp
    rw [prefixLen_eq hp] at hb
    have htake : b.map (foldChar true) = (b'.take n).map (foldChar true) := by
      have ht := congrArg (List.take n) e
      rwa [List.take_left' (by rw [List.length_map, hb]), ← List.map_take] at ht
    by_cases hd : kind = .disk
    · subst hd
      obtain ⟨hdrive, rfl⟩ := isDrive_of_parsePrefix hp
      have hdrive' : isDrive b = true := by
        rw [← isDrive_map_foldChar true, htake, isDrive_map_foldChar]
        rcases b' with _ | ⟨x, _ | ⟨y, b'⟩⟩
        · cases hdrive
        · cases hdrive
        · exact hdrive
      rw [needSep, prefixOf_true, parsePrefix_of_isDrive hdrive', hb] at hs
      simp at hs
    · have hp' : prefixOf true (b'.take n) = some (kind, n) := by
        rw [← List.append_nil (b'.take n)]
        exact parsePrefix_take_append hp (prefixOf_of_verbatim h'.plain hp) hd rfl
      have hv' : (components true (b'.take n)).verbatim = false := by
        refine verbatim_of_prefixOf fun m hm => ?_
        rw [hp'] at hm
        cases hm
        exact prefixOf_of_verbatim h'.plain hp rfl
      have hpb : prefixOf true b = some (kind, n) :=
        (congrArg Components.pre (Components.components_congr h.plain hv' htake)).trans hp'
      have hroot := h.rooted kind n hpb hd
      rw [physicalRoot_eq, prefixLen_eq hpb, ← hb, List.drop_length] at hroot
      cases hroot

/-- A tidy path is known from its stem. -/
theorem Tidy.eq_of_stem (h : Tidy windows b) {b' : Text} (h' : Tidy windows b')
    (e : (stem windows b).map (foldChar windows) = (stem windows b').map (foldChar windows)) :
    b.map (foldChar windows) = b'.map (foldChar windows) := by
  rw [stem, stem] at e
  split at e <;> split at e
  · rw [List.map_append, List.map_append] at e
    exact List.append_cancel_right e
  · exact absurd e (h.stem_ne h' ‹_›)
  · exact absurd e.symm (h'.stem_ne h ‹_›)
  · exact e

end

end Path

end KW
