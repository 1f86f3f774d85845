import KodeWork.Framework.Pieces
import KodeWork.Impl.Actions.Action
import Mathlib.Data.List.Infix

/-!
# What makes a command dangerous

`classifyDanger` looks at the words of the command (`words`), at the command written
with one blank between them (`spaced`) and, for `dd`, at the command as it is
(`CopiesToDevice`). The first two are the same however the words are set out, so the
level of two spellings of a command differs only by the third (`spelling_iff`).

What stands in a command stands in a larger one too, apart from its first word, which
becomes longer if there is no blank before it (`words_append_left`). A dangerous phrase is
found in the larger command all the same (`phraseIn_mono`), but `rm` is looked for as a
whole word: `embedded_iff`.
-/

namespace KW.Actions

open Pieces

/-! ## Words -/

/-- The words of a command, in lower case. -/
def words (t : Text) : List Text := (splitWhitespace t).map toAsciiLowercase

/-- The words with one blank between them. -/
def spaced (ws : List Text) : Text := join [' '] ws

theorem splitWhitespace_eq (t : Text) : splitWhitespace t = pieces Text.isWhitespace t := rfl

theorem lowercase_spaced (ws : List Text) : toAsciiLowercase (spaced ws) = spaced (ws.map toAsciiLowercase) := by
  induction ws with
  | nil => rfl
  | cons w ws ih =>
    cases ws with
    | nil => simp [spaced, join]
    | cons w' ws =>
      simp only [spaced, join, List.map_cons, List.intercalate_cons_cons] at ih ⊢
      rw [← ih]
      simp [toAsciiLowercase]

theorem blank_notMem_word {t w : Text} (hw : w ∈ words t) : ' ' ∉ w := by
  obtain ⟨v, hv, rfl⟩ := List.mem_map.mp hw
  intro hblank
  obtain ⟨c, hc, hlow⟩ := List.mem_map.mp hblank
  rw [toLower_eq_iff rfl] at hlow
  have hword : Text.isWhitespace c = false := not_sep_of_mem_pieces hv c hc
  rw [hlow] at hword
  cases hword

/-- The tokens are the words, or an empty one. -/
theorem rmRecursiveForce_splitOn (t : Text) :
    rmRecursiveForce ((spaced (words t)).splitOn ' ') = rmRecursiveForce (words t) := by
  by_cases hnil : words t = []
  · rw [hnil]
    decide
  · rw [spaced, join, List.splitOn_intercalate ' ' (fun w hw => blank_notMem_word hw) hnil]

/-! ## The checks -/

/-- A dangerous phrase is in the text. -/
def phraseIn (n : Text) : Bool :=
  (dangerousPhrases.any fun phrase => Text.contains n phrase.toList) ||
    (Text.contains n "find ".toList && Text.contains n " -delete".toList) ||
    (Text.contains n "curl ".toList && pipeToShell n) || (Text.contains n "wget ".toList && pipeToShell n)

/-- What is looked for in the command as it is written. -/
def CopiesToDevice (t : Text) : Prop :=
  "dd if=".toList <:+: toAsciiLowercase t ∧ " of=/dev/".toList <:+: toAsciiLowercase t

theorem contains_iff {t p : Text} : Text.contains t p = true ↔ p <:+: t := by
  simp only [Text.contains, List.any_eq_true, List.mem_tails, Text.startsWith, List.isPrefixOf_iff_prefix]
  rw [List.infix_iff_prefix_suffix]
  exact exists_congr fun u => And.comm

/-- The level of a command that is not dangerous. -/
def levelBelow (ws : List Text) (composed : Bool) : DangerLevel :=
  if composed then .review
  else if reviewPhrases.any fun phrase => Text.contains (spaced ws) phrase.toList then .review
  else if clearlyObservational.any fun phrase =>
      spaced ws == phrase.toList || Text.startsWith (spaced ws) (phrase.toList ++ [' ']) then .safe
  else .review

theorem levelBelow_ne (ws : List Text) (composed : Bool) : levelBelow ws composed ≠ .dangerous := by
  unfold levelBelow
  split
  · simp
  · split
    · simp
    · split <;> simp

/-- The command is dangerous by its words. -/
def DangerousWords (ws : List Text) : Prop := rmRecursiveForce ws = true ∨ phraseIn (spaced ws) = true

open Classical in
theorem classifyDanger_eq (t : Text) :
    classifyDanger t =
      if DangerousWords (words t) ∨ CopiesToDevice t then .dangerous
      else levelBelow (words t) (containsShellComposition t) := by
  have hnormal : toAsciiLowercase (join [' '] (splitWhitespace t)) = spaced (words t) := lowercase_spaced _
  have hdevice : (Text.contains (toAsciiLowercase t) "dd if=".toList &&
      Text.contains (toAsciiLowercase t) " of=/dev/".toList) = true ↔ CopiesToDevice t := by
    rw [Bool.and_eq_true, contains_iff, contains_iff, CopiesToDevice]
  rw [classifyDanger]
  simp only [hnormal, rmRecursiveForce_splitOn]
  refine if_congr ?_ rfl rfl
  rw [Bool.or_eq_true, hdevice, DangerousWords, ← Bool.or_eq_true, phraseIn]
  simp only [Bool.or_assoc]

theorem dangerous_iff (t : Text) :
    classifyDanger t = .dangerous ↔ DangerousWords (words t) ∨ CopiesToDevice t := by
  classical
  rw [classifyDanger_eq]
  split
  · case isTrue h => exact iff_of_true rfl h
  · case isFalse h => exact iff_of_false (levelBelow_ne _ _) h

/-! ## Spelling -/

/-- No line is ended in the text. -/
def OneLine (t : Text) : Prop := '\r' ∉ t ∧ '\n' ∉ t

instance (t : Text) : Decidable (OneLine t) := inferInstanceAs (Decidable (_ ∧ _))

/-- What composes commands. -/
def composing : List Char :=
  ['\r', '\n', ';', '|', '&', '>', '<', Char.ofNat 0x60, '$', '\\', '(', ')', '\x7b', '\x7d']

theorem toLower_mem_composing (c : Char) : c.toLower ∈ composing ↔ c ∈ composing := by
  have hother : ∀ d ∈ composing, d.isAlpha = false := Text.forall_of_all (by decide)
  constructor
  · intro h
    have hc : c = c.toLower := (toLower_eq_iff (hother c.toLower h)).mp rfl
    rwa [hc]
  · intro h
    have hc : c.toLower = c := (toLower_eq_iff (hother c h)).mpr rfl
    rwa [hc]

theorem flatten_words (t : Text) :
    (words t).flatten = (t.filter fun c => !Text.isWhitespace c).map Char.toLower := by
  rw [words, splitWhitespace_eq, ← flatten_pieces, List.map_flatten]
  rfl

/-- On one line, what composes commands stands in the words. -/
theorem containsShellComposition_words {t : Text} (h : OneLine t) :
    containsShellComposition t = (words t).flatten.any composing.contains := by
  have hspace : ∀ c ∈ composing, Text.isWhitespace c = true → c = '\r' ∨ c = '\n' :=
    Text.forall_of_all (by decide)
  rw [Bool.eq_iff_iff, flatten_words, containsShellComposition, List.any_map]
  simp only [List.any_eq_true, List.mem_filter, Function.comp_apply, List.contains_iff_mem]
  constructor
  · intro ⟨c, hc, hcomposing⟩
    refine ⟨c, ⟨hc, ?_⟩, (toLower_mem_composing c).mpr hcomposing⟩
    cases hwhite : Text.isWhitespace c with
    | false => rfl
    | true =>
      -- a white space that composes commands ends a line
      rcases hspace c hcomposing hwhite with rfl | rfl
      · exact (h.1 hc).elim
      · exact (h.2 hc).elim
  · intro ⟨c, ⟨hc, _⟩, hcomposing⟩
    exact ⟨c, hc, (toLower_mem_composing c).mp hcomposing⟩

/-- Two spellings of a command on one line have the same level, unless nothing but the
check of `dd` finds one of them, and does not find the other. -/
theorem spelling_iff {a b : Text} (ha : OneLine a) (hb : OneLine b) (h : words a = words b) :
    classifyDanger a = classifyDanger b ↔ DangerousWords (words a) ∨ (CopiesToDevice a ↔ CopiesToDevice b) := by
  classical
  have hlevel : levelBelow (words b) (containsShellComposition b) =
      levelBelow (words a) (containsShellComposition a) := by
    rw [containsShellComposition_words ha, containsShellComposition_words hb, h]
  have hne : levelBelow (words a) (containsShellComposition a) ≠ .dangerous := levelBelow_ne _ _
  rw [classifyDanger_eq, classifyDanger_eq, hlevel, ← h]
  by_cases hwords : DangerousWords (words a)
  · simp [hwords]
  · by_cases hcopies : CopiesToDevice a <;> by_cases hcopies' : CopiesToDevice b <;>
      simp [hwords, hcopies, hcopies', hne, hne.symm]

/-- A disk is overwritten, and its command is written with a tab. -/
def tabbed : Text := "dd\tif=image of=/dev/sda".toList

theorem spelling_tabbed :
    classifyDanger "dd if=image of=/dev/sda".toList = classifyDanger tabbed ↔
      DangerousWords (words "dd if=image of=/dev/sda".toList) ∨
        (CopiesToDevice "dd if=image of=/dev/sda".toList ↔ CopiesToDevice tabbed) :=
  spelling_iff (by decide) (by decide) (by decide)

theorem tab_lowers : ¬ ∀ a b : Text, OneLine a → OneLine b → words a = words b →
    classifyDanger a = classifyDanger b := by
  intro hall
  have hlevel := hall "dd if=image of=/dev/sda".toList tabbed (by decide) (by decide) (by decide)
  have hne : classifyDanger "dd if=image of=/dev/sda".toList ≠ classifyDanger tabbed := by decide
  exact hne hlevel

/-! ## A command in a larger one -/

theorem spaced_suffix (pre : List Text) {u w : Text} {ws : List Text} :
    spaced (w :: ws) <:+ spaced (pre ++ (u ++ w) :: ws) := by
  induction pre with
  | nil =>
    cases ws with
    | nil => simp [spaced, join]
    | cons w' ws =>
      simp only [spaced, join, List.nil_append, List.intercalate_cons_cons, List.append_assoc]
      exact List.suffix_append u _
  | cons v pre ih =>
    refine ih.trans ?_
    simp only [spaced, join, List.cons_append]
    rw [List.intercalate_cons_of_ne_nil (by simp)]
    exact List.suffix_append _ _

theorem spaced_prefix {ws post : List Text} {w v : Text} :
    spaced (ws ++ [w]) <+: spaced (ws ++ [w ++ v] ++ post) := by
  induction ws with
  | nil =>
    cases post with
    | nil => simp [spaced, join]
    | cons w' post =>
      simp only [spaced, join, List.nil_append, List.singleton_append, List.intercalate_cons_cons,
        List.intercalate_singleton, List.append_assoc]
      exact List.prefix_append w _
  | cons u ws ih =>
    simp only [spaced, join, List.cons_append] at ih ⊢
    rw [List.intercalate_cons_of_ne_nil (by simp), List.intercalate_cons_of_ne_nil (by simp), List.prefix_append_right_inj]
    exact ih

/-- What is looked for in the words. -/
def patterns : List Text :=
  (dangerousPhrases ++ ["find ", " -delete", "curl ", "wget "] ++
    ["| sh", "|sh", "| bash", "|bash", "| zsh", "|zsh", "| fish", "|fish", "| python", "|python", "| perl",
      "|perl"]).map String.toList

theorem phraseIn_of {n m : Text} (h : ∀ p ∈ patterns, p <:+: n → p <:+: m) (hp : phraseIn n = true) :
    phraseIn m = true := by
  have hcontains (s : String) (hs : s.toList ∈ patterns) (hn : Text.contains n s.toList = true) :
      Text.contains m s.toList = true := contains_iff.mpr (h s.toList hs (contains_iff.mp hn))
  have hpipe (hn : pipeToShell n = true) : pipeToShell m = true := by
    obtain ⟨suffix, hmem, hsuffix⟩ := List.any_eq_true.mp hn
    refine List.any_eq_true.mpr ⟨suffix, hmem, hcontains suffix ?_ hsuffix⟩
    exact List.mem_map_of_mem (List.mem_append_right _ hmem)
  have hphrase {s : String} (hs : s ∈ dangerousPhrases) : s.toList ∈ patterns :=
    List.mem_map_of_mem (List.mem_append_left _ (List.mem_append_left _ hs))
  have hpart {s : String} (hs : s ∈ ["find ", " -delete", "curl ", "wget "]) : s.toList ∈ patterns :=
    List.mem_map_of_mem (List.mem_append_left _ (List.mem_append_right _ hs))
  simp only [phraseIn, Bool.or_eq_true, Bool.and_eq_true, List.any_eq_true] at hp ⊢
  rcases hp with ((⟨phrase, hmem, hn⟩ | ⟨hfind, hdelete⟩) | ⟨hcurl, hn⟩) | ⟨hwget, hn⟩
  · exact .inl (.inl (.inl ⟨phrase, hmem, hcontains phrase (hphrase hmem) hn⟩))
  · exact .inl (.inl (.inr ⟨hcontains _ (hpart (by simp)) hfind, hcontains _ (hpart (by simp)) hdelete⟩))
  · exact .inl (.inr ⟨hcontains _ (hpart (by simp)) hcurl, hpipe hn⟩)
  · exact .inr ⟨hcontains _ (hpart (by simp)) hwget, hpipe hn⟩

theorem phraseIn_mono {n m : Text} (h : n <:+: m) (hp : phraseIn n = true) : phraseIn m = true :=
  phraseIn_of (fun _ _ hn => hn.trans h) hp

theorem copiesToDevice_mono {n m : Text} (h : n <:+: m) (hn : CopiesToDevice n) : CopiesToDevice m := by
  have hlow : toAsciiLowercase n <:+: toAsciiLowercase m := h.map Char.toLower
  exact ⟨hn.1.trans hlow, hn.2.trans hlow⟩

/-! ### The flags of rm -/

theorem flag_append {letter : Char} {flag : Text} (v : Text)
    (h : (Text.startsWith flag ['-'] && flag.any (· == letter)) = true) :
    (Text.startsWith (flag ++ v) ['-'] && (flag ++ v).any (· == letter)) = true := by
  rw [Bool.and_eq_true] at h ⊢
  refine ⟨?_, by rw [List.any_append, h.2, Bool.true_or]⟩
  have hdash : ['-'] <+: flag := List.isPrefixOf_iff_prefix.mp h.1
  exact List.isPrefixOf_iff_prefix.mpr (hdash.trans (List.prefix_append flag v))

/-- The flags are still found if the last word gets longer, or more words follow. -/
theorem hasFlag_append {letter : Char} {ws post : List Text} {w v : Text} (h : hasFlag letter (ws ++ [w]) = true) :
    hasFlag letter (ws ++ [w ++ v] ++ post) = true := by
  rw [hasFlag, List.take_append, List.any_append, Bool.or_eq_true] at h
  rw [hasFlag, List.append_assoc, List.take_append, List.any_append, Bool.or_eq_true]
  rcases h with h | h
  · exact .inl h
  · right
    cases hroom : 4 - ws.length with
    | zero => rw [hroom] at h; cases h
    | succ n =>
      rw [hroom] at h
      have hw := by simpa using h
      rw [List.singleton_append, List.take_succ_cons, List.any_cons, Bool.or_eq_true]
      exact .inl (flag_append v (by simpa using hw))

theorem rmRecursiveForce_iff {ws : List Text} :
    rmRecursiveForce ws = true ↔ ∃ before rest, ws = before ++ "rm".toList :: rest ∧
      hasFlag 'r' rest = true ∧ hasFlag 'f' rest = true := by
  simp only [rmRecursiveForce, List.any_eq_true, List.mem_tails]
  constructor
  · intro ⟨s, ⟨before, hs⟩, hflags⟩
    cases s with
    | nil => cases hflags
    | cons token rest =>
      simp only [Bool.and_eq_true, beq_iff_eq] at hflags
      obtain ⟨⟨rfl, hr⟩, hf⟩ := hflags
      exact ⟨before, rest, hs.symm, hr, hf⟩
  · intro ⟨before, rest, hws, hr, hf⟩
    refine ⟨"rm".toList :: rest, ⟨before, hws.symm⟩, ?_⟩
    simp only [hr, hf, beq_self_eq_true, Bool.and_self]

theorem hasFlag_ne_nil {letter : Char} {tokens : List Text} (h : hasFlag letter tokens = true) : tokens ≠ [] := by
  rintro rfl
  cases h

/-- An rm is still found if something is put behind the command. -/
theorem rm_append_right {ws post : List Text} {w v : Text} (h : rmRecursiveForce (ws ++ [w]) = true) :
    rmRecursiveForce (ws ++ [w ++ v] ++ post) = true := by
  obtain ⟨before, rest, hws, hr, hf⟩ := rmRecursiveForce_iff.mp h
  obtain ⟨rest', last, hrest⟩ := (List.eq_nil_or_concat rest).resolve_left (hasFlag_ne_nil hr)
  rw [List.concat_eq_append] at hrest
  subst hrest
  obtain ⟨hinit, hlast⟩ := List.append_inj' (hws.trans (List.append_assoc before ("rm".toList :: rest') [last]).symm) rfl
  obtain rfl : w = last := List.singleton_inj.mp hlast
  refine rmRecursiveForce_iff.mpr ⟨before, rest' ++ [w ++ v] ++ post, ?_, hasFlag_append hr, hasFlag_append hf⟩
  rw [hinit]
  simp

/-- So it is if something is put in front of it, but for its first word. -/
theorem rm_append_left (pre : List Text) {u w : Text} {ws : List Text} (h : rmRecursiveForce (w :: ws) = true)
    (hfirst : u = [] ∨ rmRecursiveForce ws = true) : rmRecursiveForce (pre ++ (u ++ w) :: ws) = true := by
  rcases hfirst with rfl | htail
  · obtain ⟨before, rest, hws, hr, hf⟩ := rmRecursiveForce_iff.mp h
    exact rmRecursiveForce_iff.mpr ⟨pre ++ before, rest, by rw [List.nil_append, hws, List.append_assoc], hr, hf⟩
  · obtain ⟨before, rest, hws, hr, hf⟩ := rmRecursiveForce_iff.mp htail
    exact rmRecursiveForce_iff.mpr ⟨pre ++ (u ++ w) :: before, rest, by rw [hws, List.append_assoc]; rfl, hr, hf⟩

/-! ### Words in front and behind -/

theorem words_append_right {t w : Text} {ws : List Text} (ht : words t = ws ++ [w]) (y : Text) :
    ∃ v post, words (t ++ y) = ws ++ [w ++ v] ++ post := by
  obtain ⟨ws', l, hsplit, rfl, hlast⟩ := List.map_eq_append_iff.mp ht
  obtain ⟨w', rfl, rfl⟩ := List.map_eq_singleton_iff.mp hlast
  obtain ⟨v, post, hpieces⟩ := pieces_append_right hsplit y
  refine ⟨toAsciiLowercase v, post.map toAsciiLowercase, ?_⟩
  rw [words, splitWhitespace_eq, hpieces]
  simp [toAsciiLowercase]

/-- The last word of what is put in front, as far as it has not ended. -/
def unfinished (x : Text) : Text := toAsciiLowercase (leaf Text.isWhitespace x)

theorem words_append_left {t w : Text} {ws : List Text} (ht : words t = w :: ws) (x : Text) :
    words (x ++ t) =
      if t.head?.any Text.isWhitespace then words x ++ w :: ws
      else (folder Text.isWhitespace x).map toAsciiLowercase ++ (unfinished x ++ w) :: ws := by
  obtain ⟨w', ws', hsplit, rfl, rfl⟩ := List.map_eq_cons_iff.mp ht
  rw [words, splitWhitespace_eq, pieces_append_left hsplit x]
  split
  · simp [words, splitWhitespace_eq]
  · simp [unfinished, toAsciiLowercase]

/-! ### What is kept -/

theorem rm_words_right {c : Text} (y : Text) (h : rmRecursiveForce (words c) = true) :
    rmRecursiveForce (words (c ++ y)) = true := by
  rcases List.eq_nil_or_concat (words c) with hnil | ⟨ws, w, hws⟩
  · rw [hnil] at h
    cases h
  · rw [List.concat_eq_append] at hws
    obtain ⟨v, post, hwords⟩ := words_append_right hws y
    rw [hwords]
    exact rm_append_right (hws ▸ h)

theorem rm_tail_right {c : Text} (y : Text) (h : rmRecursiveForce (words c).tail = true) :
    rmRecursiveForce (words (c ++ y)).tail = true := by
  rcases List.eq_nil_or_concat (words c) with hnil | ⟨ws, w, hws⟩
  · rw [hnil] at h
    cases h
  · rw [List.concat_eq_append] at hws
    obtain ⟨v, post, hwords⟩ := words_append_right hws y
    rw [hws] at h
    rw [hwords]
    cases ws with
    | nil => cases h
    | cons first ws => exact rm_append_right h

theorem spaced_words_right (c y : Text) : spaced (words c) <:+: spaced (words (c ++ y)) := by
  rcases List.eq_nil_or_concat (words c) with hnil | ⟨ws, w, hws⟩
  · rw [hnil]
    exact List.nil_infix
  · rw [List.concat_eq_append] at hws
    obtain ⟨v, post, hwords⟩ := words_append_right hws y
    rw [hwords, hws]
    exact spaced_prefix.isInfix

theorem spaced_words_left (x c : Text) : spaced (words c) <:+: spaced (words (x ++ c)) := by
  cases hws : words c with
  | nil => exact List.nil_infix
  | cons w ws =>
    rw [words_append_left hws x]
    split
    · exact (spaced_suffix (words x) (u := [])).isInfix
    · exact (spaced_suffix _).isInfix

/-- Dangerous by more than an rm that is the first word. -/
def DangerousBeyond (c : Text) : Prop :=
  rmRecursiveForce (words c).tail = true ∨ phraseIn (spaced (words c)) = true ∨ CopiesToDevice c

theorem unfinished_append (p : Text) {a : Text} (h : a.getLast?.any Text.isWhitespace = true) :
    unfinished (p ++ a) = [] := by
  have hlast : (p ++ a).getLast?.any Text.isWhitespace = true := by
    cases ha : a.getLast? with
    | none => rw [ha] at h; cases h
    | some c =>
      rw [ha] at h
      rw [List.getLast?_append, ha]
      exact h
  rw [unfinished, leaf_eq_nil hlast]
  rfl

/-- Where the command begins at a word of its own, or is dangerous beyond its first word,
it is dangerous in any larger one. -/
theorem dangerous_embedded {c : Text} (hc : classifyDanger c = .dangerous) (p a y : Text)
    (h : a.getLast?.any Text.isWhitespace = true ∨ c.head?.any Text.isWhitespace = true ∨ DangerousBeyond c) :
    classifyDanger (p ++ a ++ (c ++ y)) = .dangerous := by
  rw [dangerous_iff] at hc ⊢
  by_cases hcopies : CopiesToDevice c
  · have hinfix : c <:+: p ++ a ++ (c ++ y) := ⟨p ++ a, y, List.append_assoc _ c y⟩
    exact .inr (copiesToDevice_mono hinfix hcopies)
  by_cases hphrase : phraseIn (spaced (words c)) = true
  · have hinfix := (spaced_words_right c y).trans (spaced_words_left (p ++ a) (c ++ y))
    exact .inl (.inr (phraseIn_mono hinfix hphrase))
  have hrm : rmRecursiveForce (words c) = true := (hc.resolve_right hcopies).resolve_right hphrase
  have hright : rmRecursiveForce (words (c ++ y)) = true := rm_words_right y hrm
  refine .inl (.inl ?_)
  cases hws : words (c ++ y) with
  | nil => rw [hws] at hright; cases hright
  | cons w ws =>
    rw [words_append_left hws]
    rw [hws] at hright
    split
    · exact rm_append_left (words (p ++ a)) (u := []) hright (.inl rfl)
    · case isFalse hhead =>
      refine rm_append_left _ hright ?_
      rcases h with hblank | hblank | htail | hother | hother
      · exact .inl (unfinished_append p hblank)
      · -- the command begins with a white space
        cases c with
        | nil => cases hblank
        | cons d c => exact (hhead hblank).elim
      · right
        have htail' := rm_tail_right y htail
        rwa [hws] at htail'
      · exact (hphrase hother).elim
      · exact (hcopies hother).elim

/-! ### What is lost -/

def isBlank (c : Char) : Bool := c == ' ' || c == '\t'

/-- What joins commands without a blank. -/
def operators : List Text := [[';'], ['&'], ['&', '&'], ['|'], ['|', '|']]

/-- A blank, an end of a line or an operator, and blanks around it. -/
def Separator (a : Text) : Prop :=
  ∃ before core after, a = before ++ core ++ after ∧ (∀ c ∈ before, isBlank c = true) ∧
    (∀ c ∈ after, isBlank c = true) ∧ core ∈ [[' '], ['\t'], ['\n']] ++ operators

theorem blank_separates : Separator [' '] := ⟨[], [' '], [], rfl, by simp, by simp, by decide⟩

theorem isWhitespace_of_isBlank {c : Char} (h : isBlank c = true) : Text.isWhitespace c = true := by
  simp only [isBlank, Bool.or_eq_true, beq_iff_eq] at h
  rcases h with rfl | rfl <;> rfl

/-- A separator that does not end in a blank ends in an operator. -/
theorem Separator.operator {a : Text} (ha : Separator a) (hlast : a.getLast?.any Text.isWhitespace ≠ true) :
    ∃ before core, a = before ++ core ∧ (∀ c ∈ before, isBlank c = true) ∧ core ∈ operators := by
  obtain ⟨before, core, after, rfl, hbefore, hafter, hcore⟩ := ha
  rcases List.eq_nil_or_concat after with rfl | ⟨after', c, rfl⟩
  · rw [List.append_nil] at hlast ⊢
    rcases List.mem_append.mp hcore with hblank | hop
    · refine (hlast ?_).elim
      have hends : ∀ b ∈ [[' '], ['\t'], ['\n']], ∃ d, b = [d] ∧ Text.isWhitespace d = true := by
        intro b hb
        rcases List.mem_cons.mp hb with rfl | hb
        · exact ⟨' ', rfl, rfl⟩
        rcases List.mem_cons.mp hb with rfl | hb
        · exact ⟨'\t', rfl, rfl⟩
        · exact ⟨'\n', List.mem_singleton.mp hb, rfl⟩
      obtain ⟨d, rfl, hd⟩ := hends core hblank
      rw [List.getLast?_concat, Option.any_some, hd]
    · exact ⟨before, core, rfl, hbefore, hop⟩
  · refine (hlast ?_).elim
    rw [List.concat_eq_append] at hafter ⊢
    rw [← List.append_assoc, List.getLast?_concat, Option.any_some]
    exact isWhitespace_of_isBlank (hafter c (by simp))

/-- The pattern does not begin in the characters `l` and go on in them or with an r. -/
def clear (l : List Char) : Text → Bool
  | d :: e :: _ => !l.contains d || (!l.contains e && e != 'r')
  | _ => false

/-- It is not found across the end of such characters. -/
theorem infix_behind {l : List Char} {pattern x n : Text} (hclear : clear l pattern = true) (hx : ∀ c ∈ x, c ∈ l)
    (h : pattern <:+: x ++ 'r' :: n) : pattern <:+: 'r' :: n := by
  induction x with
  | nil => exact h
  | cons c x ih =>
    rw [List.cons_append, List.infix_cons_iff] at h
    rcases h with hprefix | h
    · match pattern, hclear with
      | d :: e :: _, hclear =>
        obtain ⟨rfl, hrest⟩ := List.cons_prefix_cons.mp hprefix
        have hd : d ∈ l := hx d List.mem_cons_self
        simp only [clear, Bool.or_eq_true, Bool.and_eq_true, Bool.not_eq_true', bne_iff_ne,
          List.contains_eq_mem, decide_eq_false_iff_not] at hclear
        obtain ⟨he, hne⟩ := hclear.resolve_left fun hd' => hd' hd
        cases x with
        | nil => exact (hne (List.cons_prefix_cons.mp hrest).1).elim
        | cons e' x =>
          obtain ⟨rfl, -⟩ := List.cons_prefix_cons.mp hrest
          exact (he (hx e (by simp))).elim
    · exact ih (fun d hd => hx d (List.mem_cons_of_mem c hd)) h

theorem patterns_clear : ∀ p ∈ patterns, clear [';', '&', '|'] p = true := by decide

theorem rm_cons {w : Text} {ws : List Text} (h : rmRecursiveForce (w :: ws) = true)
    (htail : rmRecursiveForce ws ≠ true) : w = "rm".toList := by
  obtain ⟨before, rest, hws, hr, hf⟩ := rmRecursiveForce_iff.mp h
  cases before with
  | nil => exact (List.cons.inj hws).1
  | cons v before =>
    exact (htail (rmRecursiveForce_iff.mpr ⟨before, rest, (List.cons.inj hws).2, hr, hf⟩)).elim

/-- The first letter of the first word. -/
theorem head_of_words {c : Text} {d : Char} {w : Text} {ws : List Text} (hws : words c = (d :: w) :: ws)
    (hhead : c.head?.any Text.isWhitespace ≠ true) : ∃ n, toAsciiLowercase c = d :: n := by
  have hflat := flatten_words c
  rw [hws] at hflat
  cases c with
  | nil => cases hflat
  | cons e c =>
    have he : Text.isWhitespace e = false := Bool.eq_false_iff.mpr hhead
    rw [List.filter_cons_of_pos (by rw [he]; rfl), List.map_cons, List.flatten_cons, List.cons_append] at hflat
    exact ⟨toAsciiLowercase c, by rw [(List.cons.inj hflat).1]; rfl⟩

theorem infix_of_concat {pattern t : Text} {c : Char} (hlast : pattern.getLast? ≠ some c) (hne : pattern ≠ [])
    (h : pattern <:+: t ++ [c]) : pattern <:+: t := by
  rcases List.infix_concat_iff.mp h with hsuffix | h
  · rcases List.suffix_concat_iff.mp hsuffix with hnil | ⟨u, rfl, -⟩
    · exact (hne hnil).elim
    · exact (hlast (by rw [List.getLast?_concat])).elim
  · exact h

theorem operators_facts : ∀ core ∈ operators, core ≠ [] ∧ (∀ d ∈ core, d ∈ [';', '&', '|']) ∧
    folder Text.isWhitespace core = [] ∧ unfinished core = core := by
  intro core hcore
  have hall : ∀ core ∈ operators, core ≠ [] ∧ core.all (fun d => decide (d ∈ [';', '&', '|'])) = true ∧
      folder Text.isWhitespace core = [] ∧ unfinished core = core := by decide
  obtain ⟨hne, hchars, hrest⟩ := hall core hcore
  exact ⟨hne, Text.forall_of_all hchars, hrest⟩

theorem spaced_cons (u w : Text) (ws : List Text) : spaced ((u ++ w) :: ws) = u ++ spaced (w :: ws) := by
  cases ws <;> simp [spaced, join]

theorem lowercase_blanks {x : Text} (hx : ∀ d ∈ x, d ∈ [' ', '\t', ';', '&', '|']) : toAsciiLowercase x = x := by
  have hsame : ∀ d ∈ [' ', '\t', ';', '&', '|'], d.toLower = d :=
    Text.forall_of_all (by decide)
  have hmap : x.map Char.toLower = x.map id := List.map_congr_left fun d hd => hsame d (hx d hd)
  rw [toAsciiLowercase, hmap, List.map_id]

/-- The check of `dd` finds nothing new behind blanks and operators. -/
theorem copiesToDevice_behind {x c n : Text} (hx : ∀ d ∈ x, d ∈ [' ', '\t', ';', '&', '|'])
    (hc : toAsciiLowercase c = 'r' :: n) (h : CopiesToDevice (x ++ c ++ [' '])) : CopiesToDevice c := by
  have hlow : toAsciiLowercase (x ++ c ++ [' ']) = x ++ 'r' :: n ++ [' '] := by
    rw [toAsciiLowercase, List.map_append, List.map_append, ← toAsciiLowercase, lowercase_blanks hx,
      ← toAsciiLowercase, hc]
    rfl
  have hback {pattern : Text} (hclear : clear [' ', '\t', ';', '&', '|'] pattern = true)
      (hlast : pattern.getLast? ≠ some ' ') (hne : pattern ≠ [])
      (hin : pattern <:+: toAsciiLowercase (x ++ c ++ [' '])) : pattern <:+: toAsciiLowercase c := by
    rw [hlow] at hin
    rw [hc]
    exact infix_behind hclear hx (infix_of_concat hlast hne hin)
  exact ⟨hback (by decide) (by decide) (by decide) h.1, hback (by decide) (by decide) (by decide) h.2⟩

/-- An operator right in front of an rm that is all there is hides it. -/
theorem hidden_behind_operator {before core c : Text} (hbefore : ∀ d ∈ before, isBlank d = true)
    (hcore : core ∈ operators) (hhead : c.head?.any Text.isWhitespace ≠ true) (hc : classifyDanger c = .dangerous)
    (hbeyond : ¬ DangerousBeyond c) : classifyDanger (before ++ core ++ c ++ [' ']) ≠ .dangerous := by
  have hnotcopies : ¬ CopiesToDevice c := fun h => hbeyond (.inr (.inr h))
  have hnotphrase : phraseIn (spaced (words c)) ≠ true := fun h => hbeyond (.inr (.inl h))
  have hrm : rmRecursiveForce (words c) = true :=
    (((dangerous_iff c).mp hc).resolve_right hnotcopies).resolve_right hnotphrase
  have htail : rmRecursiveForce (words c).tail ≠ true := fun h => hbeyond (.inl h)
  obtain ⟨hne, hchars, hfolder, hunfinished⟩ := operators_facts core hcore
  cases hws : words c with
  | nil => rw [hws] at hrm; cases hrm
  | cons w ws =>
    rw [hws] at hrm htail hnotphrase
    obtain rfl := rm_cons hrm htail
    have hwords : words (before ++ core ++ c ++ [' ']) = (core ++ "rm".toList) :: ws := by
      rw [words, splitWhitespace_eq, pieces_concat rfl, List.append_assoc before,
        pieces_append_of_all fun d hd => isWhitespace_of_isBlank (hbefore d hd), ← splitWhitespace_eq, ← words,
        words_append_left hws, if_neg hhead, hfolder, hunfinished]
      rfl
    obtain ⟨n, hn⟩ := head_of_words hws hhead
    intro hdanger
    rcases (dangerous_iff _).mp hdanger with (hrm' | hphrase') | hcopies'
    · rw [hwords] at hrm'
      have hself := rm_cons hrm' htail
      exact hne (by simpa using hself)
    · rw [hwords, spaced_cons] at hphrase'
      refine hnotphrase (phraseIn_of (fun p hp hin => ?_) hphrase')
      have hspaced : ∃ m, spaced ("rm".toList :: ws) = 'r' :: m := by
        cases ws with
        | nil => exact ⟨_, rfl⟩
        | cons v ws => exact ⟨_, rfl⟩
      obtain ⟨m, hm⟩ := hspaced
      rw [hm] at hin ⊢
      exact infix_behind (patterns_clear p hp) hchars hin
    · refine hnotcopies (copiesToDevice_behind (fun d hd => ?_) hn hcopies')
      rcases List.mem_append.mp hd with hd | hd
      · have hblank := hbefore d hd
        simp only [isBlank, Bool.or_eq_true, beq_iff_eq] at hblank
        rcases hblank with rfl | rfl <;> simp
      · exact List.mem_cons_of_mem _ (List.mem_cons_of_mem _ (hchars d hd))

/-- A dangerous command is dangerous in every larger one behind a separator if that ends
in a blank, or the command begins with one, or it is dangerous by more than an rm that is
its first word; and in no other case. -/
theorem embedded_iff {c a : Text} (hc : classifyDanger c = .dangerous) (ha : Separator a) :
    (∀ p b s, Separator b → classifyDanger (p ++ a ++ c ++ b ++ s) = .dangerous) ↔
      a.getLast?.any Text.isWhitespace = true ∨ c.head?.any Text.isWhitespace = true ∨ DangerousBeyond c := by
  constructor
  · intro hall
    by_contra hnot
    obtain ⟨hlast, hnot⟩ := not_or.mp hnot
    obtain ⟨hhead, hbeyond⟩ := not_or.mp hnot
    obtain ⟨before, core, rfl, hbefore, hcore⟩ := ha.operator hlast
    have hdanger := hall [] [' '] [] blank_separates
    rw [List.nil_append, List.append_nil] at hdanger
    exact hidden_behind_operator hbefore hcore hhead hc hbeyond hdanger
  · intro h p b s _
    have hdanger := dangerous_embedded hc p a (b ++ s) h
    rwa [← List.append_assoc, ← List.append_assoc] at hdanger

/-- An rm behind a semicolon. -/
def rmAll : Text := "rm -rf /".toList

theorem semicolon_separates : Separator [';'] := ⟨[], [';'], [], rfl, by simp, by simp, by decide⟩

theorem embedded_rmAll :
    (∀ p b s, Separator b → classifyDanger (p ++ [';'] ++ rmAll ++ b ++ s) = .dangerous) ↔
      [';'].getLast?.any Text.isWhitespace = true ∨ rmAll.head?.any Text.isWhitespace = true ∨ DangerousBeyond rmAll :=
  embedded_iff (by decide) semicolon_separates

theorem semicolon_lowers : ¬ ∀ c a b p s : Text, classifyDanger c = .dangerous → Separator a → Separator b →
    classifyDanger (p ++ a ++ c ++ b ++ s) = .dangerous := by
  intro hall
  have hdanger := hall rmAll [';'] [' '] ['l', 's'] [] (by decide) semicolon_separates blank_separates
  have hreview : classifyDanger (['l', 's'] ++ [';'] ++ rmAll ++ [' '] ++ []) = .review := by decide
  rw [hreview] at hdanger
  cases hdanger

end KW.Actions
