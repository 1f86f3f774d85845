import KodeWork.Proof.Shell.Quoting

/-!
# What runs in the wrong directory

The line of an action is its assignments and the change of directory, joined by `&&` to
the command as the user wrote it. `read_line` says what a shell reads in it: the chain
goes before the first list of the command only. So a failed change of directory holds
the whole command back exactly if the command is one list with nothing but `&&` in it
(`held_back_iff`).
-/

namespace KW.Actions

open KW.Shell

/-- What `trim` leaves of a text behind another one. -/
def trimEnd (t : Text) : Text := t.rdropWhile Text.isWhitespace

/-! ## The commands before the user's -/

/-- The words of an assignment. -/
def assignmentWords (entry : Text × Text) : List Word := [bareWord (entry.1 ++ "=".toList) ++ quotedWord entry.2]

def cdHome : List Word := [bareWord "cd".toList, bareWord "--".toList, [.parameter true "HOME".toList]]

def cdTo (path : Text) : List Word := [bareWord "cd".toList, bareWord "--".toList, quotedWord path]

/-- The words of the commands of `shell_cd`. -/
def cdWords (path : Text) : List (List Word) :=
  if Text.startsWith path ['~', '/'] then [cdHome, cdTo (path.drop 2)]
  else if path = ['~'] then [cdHome]
  else [cdTo path]

/-- The commands before the user's. -/
def guardWords (action : Action) : List (List Word) :=
  action.env.map assignmentWords ++ (action.cwd.map cdWords).getD []

/-- A plain command that `trim` takes nothing from at its start. -/
structure Part (t : Text) (words : List Word) : Prop where
  plain : Plain t words
  front : ∃ c ∈ t.head?, Text.isWhitespace c = false

/-- Texts with the words of each. -/
def Parts (texts : List Text) (words : List (List Word)) : Prop := List.Forall₂ Part texts words

theorem part_cdHome : Part "cd -- \"$HOME\"".toList cdHome := by
  refine ⟨⟨⟨[bareWord "cd".toList, bareWord "--".toList], _, rfl, scan_literal (by decide)⟩, ?_⟩,
    'c', by decide, by decide⟩
  rintro w ⟨⟩
  decide

theorem part_cdTo {path q : Text} (h : shellQuote path = .ok q) : Part ("cd -- ".toList ++ q) (cdTo path) := by
  have hcd : scan .gap "cd -- ".toList = (.gap, [.word (bareWord "cd".toList), .word (bareWord "--".toList)]) :=
    scan_literal (by decide)
  refine ⟨⟨⟨[bareWord "cd".toList, bareWord "--".toList], _, rfl, scan_trans hcd (scan_shellQuote h)⟩, ?_⟩,
    'c', ?_, by decide⟩
  · rintro w ⟨⟩
    decide
  · have hfront : "cd -- ".toList.head? = some 'c' := by decide
    rw [List.head?_append, hfront]
    rfl

/-- No reserved word has `=` in it. -/
theorem not_reserved_of_mem {w : Word} (h : .char false '=' ∈ w) : w.isReserved = false := by
  have hreserved : ∀ r ∈ reservedWords, '=' ∉ r.toList := by decide
  rw [Word.isReserved, List.any_eq_false]
  intro r hr heq
  rw [beq_iff_eq] at heq
  subst heq
  obtain ⟨c, hc, hchar⟩ := List.mem_map.mp h
  cases hchar
  exact hreserved r hr hc

theorem isNameChar_of_validEnvKey {first : Char} {rest : Text} (h : validEnvKey (first :: rest) = true) :
    ∀ c ∈ first :: rest, isNameChar c = true := by
  simp only [validEnvKey, Bool.and_eq_true, List.all_eq_true, Bool.or_eq_true, beq_iff_eq] at h
  obtain ⟨hfirst, hrest⟩ := h
  refine List.forall_mem_cons.mpr ⟨?_, fun c hc => ?_⟩
  · rcases hfirst with rfl | halpha
    · rfl
    · simp [isNameChar, Char.isAlphanum, halpha]
  · rcases hrest c hc with rfl | halnum
    · rfl
    · simp [isNameChar, halnum]

/-- The characters of a name are no whitespace. -/
theorem not_isWhitespace_of_isNameChar {c : Char} (h : isNameChar c = true) : Text.isWhitespace c = false := by
  replace h : (decide (c = '_') || (decide (c.val ≥ 'A'.val ∧ c.val ≤ 'Z'.val) ||
      (decide (c.val ≥ 'a'.val) && decide (c.val ≤ 'z'.val)) ||
      (decide (c.val ≥ '0'.val) && decide (c.val ≤ '9'.val)))) = true := h
  simp only [Bool.or_eq_true, Bool.and_eq_true, decide_eq_true_eq, UInt32.le_iff_toNat_le, ge_iff_le] at h
  have hcode : c.toNat = c.val.toNat := rfl
  rcases h with rfl | (⟨h₁, h₂⟩ | ⟨h₁, h₂⟩) | ⟨h₁, h₂⟩
  · rfl
  all_goals
    simp only [UInt32.reduceToNat, Char.reduceVal] at h₁ h₂
    simp only [Text.isWhitespace, Bool.or_eq_false_iff, Bool.and_eq_false_iff, decide_eq_false_iff_not,
      beq_eq_false_iff_ne, hcode]
    omega

theorem part_envPart {entry : Text × Text} {part : Text} (h : envPart entry = .ok part) :
    Part part (assignmentWords entry) := by
  obtain ⟨key, value⟩ := entry
  rw [envPart] at h
  split at h
  · case isTrue hkey =>
    obtain ⟨q, hq, rfl⟩ := ok_of_map h
    cases key with
    | nil => cases hkey
    | cons first rest =>
      have hname := isNameChar_of_validEnvKey hkey
      have hplain : ∀ c ∈ first :: (rest ++ ['=']), isPlain c = true := by
        intro c hc
        rcases List.mem_append.mp (List.cons_append ▸ hc : c ∈ first :: rest ++ ['=']) with hc | hc
        · exact isPlain_of_isNameChar (hname c hc)
        · rw [List.mem_singleton.mp hc]
          rfl
      have hhash : first ≠ '#' := by
        rintro rfl
        cases hname '#' List.mem_cons_self
      have hscan := scan_trans (scan_word hhash hplain) (scan_shellQuote_behind hq _)
      have htext : first :: rest ++ '=' :: q = first :: (rest ++ ['=']) ++ q := by simp
      refine ⟨⟨⟨[], _, rfl, htext ▸ hscan⟩, ?_⟩, first, rfl,
        not_isWhitespace_of_isNameChar (hname first List.mem_cons_self)⟩
      rintro w ⟨⟩
      refine not_reserved_of_mem (List.mem_append_left _ ?_)
      exact List.mem_map.mpr ⟨'=', List.mem_append_right _ List.mem_cons_self, rfl⟩
  · cases h

/-! ## The line -/

theorem join_cons (sep t : Text) {rest : List Text} (h : rest ≠ []) :
    join sep (t :: rest) = List.flatten [t, sep, join sep rest] := by
  cases rest with
  | nil => exact absurd rfl h
  | cons u rest => simp [join, List.intercalate, List.intersperse]

theorem join_append (sep : Text) (texts : List Text) {rest : List Text} (h : rest ≠ []) :
    join sep (texts ++ rest) = (texts.flatMap fun t => t ++ sep) ++ join sep rest := by
  induction texts with
  | nil => rfl
  | cons t texts ih =>
    rw [List.cons_append, join_cons sep t (by simp [h]), ih, List.flatMap_cons]
    simp

/-- A text that is joined of others stands for them in a join. -/
theorem join_join (sep : Text) (texts : List Text) {inner rest : List Text} (hinner : inner ≠ [])
    (hrest : rest ≠ []) : join sep (texts ++ join sep inner :: rest) = join sep (texts ++ (inner ++ rest)) := by
  have hne : inner ++ rest ≠ [] := by simp [hinner]
  rw [join_append sep texts (List.cons_ne_nil _ _), join_append sep texts hne, join_cons sep _ hrest]
  -- both are the parts of the inner join, then the rest
  have happ (inner : List Text) (hinner : inner ≠ []) :
      List.flatten [join sep inner, sep, join sep rest] = join sep (inner ++ rest) := by
    induction inner with
    | nil => exact absurd rfl hinner
    | cons t inner ih =>
      cases inner with
      | nil => rw [List.cons_append, List.nil_append, join_cons sep t hrest]; simp [join, List.intercalate]
      | cons u inner =>
        rw [List.cons_append, join_cons sep t (List.cons_ne_nil _ _), join_cons sep t (by simp),
          ← ih (List.cons_ne_nil _ _)]
        simp
  rw [happ inner hinner]

theorem forall₂_of_mapM {ε α β : Type} {f : α → Except ε β} {l : List α} {l' : List β}
    (h : l.mapM f = .ok l') : List.Forall₂ (fun a b => f a = .ok b) l l' := by
  induction l generalizing l' with
  | nil =>
    cases Except.ok.inj h
    exact .nil
  | cons a l ih =>
    rw [List.mapM_cons] at h
    obtain ⟨b, hb, h⟩ := ok_of_bind h
    obtain ⟨bs, hbs, h⟩ := ok_of_bind h
    cases Except.ok.inj h
    exact .cons hb (ih hbs)

theorem parts_shellCd {path text : Text} (h : shellCd path = .ok text) :
    ∃ texts, Parts texts (cdWords path) ∧ texts ≠ [] ∧ text = join " && ".toList texts := by
  rw [shellCd] at h
  split at h
  · cases h
  · rw [cdWords]
    split at h
    · case isTrue hhome =>
      obtain ⟨q, hq, rfl⟩ := ok_of_map h
      rw [if_pos hhome]
      refine ⟨_, .cons part_cdHome (.cons (part_cdTo hq) .nil), List.cons_ne_nil _ _, ?_⟩
      rw [join_cons _ _ (List.cons_ne_nil _ _)]
      have htext : "cd -- \"$HOME\" && cd -- ".toList = "cd -- \"$HOME\"".toList ++ " && ".toList ++ "cd -- ".toList :=
        literal_append_append rfl
      rw [htext]
      simp [join, List.intercalate]
    · case isFalse hhome =>
      rw [if_neg hhome]
      split at h
      · case isTrue heq =>
        cases h
        rw [if_pos heq]
        exact ⟨_, .cons part_cdHome .nil, List.cons_ne_nil _ _, by simp [join, List.intercalate]⟩
      · case isFalse heq =>
        obtain ⟨q, hq, rfl⟩ := ok_of_map h
        rw [if_neg heq]
        exact ⟨_, .cons (part_cdTo hq) .nil, List.cons_ne_nil _ _, by simp [join, List.intercalate]⟩

theorem buildActionCommand_ok {action : Action} {line : Text} (h : buildActionCommand action = .ok line) :
    ∃ texts, Parts texts (guardWords action) ∧
      line = trim (join " && ".toList (texts ++ [action.command])) := by
  rw [buildActionCommand] at h
  obtain ⟨env, henv, h⟩ := ok_of_bind h
  have hparts : Parts env (action.env.map assignmentWords) := by
    have hplain := (forall₂_of_mapM henv).flip
    exact List.forall₂_map_right_iff.mpr (hplain.imp fun _ _ hpart => part_envPart hpart)
  rw [guardWords]
  cases hcwd : action.cwd with
  | none =>
    rw [hcwd] at h
    refine ⟨env, by simpa using hparts, ?_⟩
    rw [← Except.ok.inj h, List.append_nil]
  | some cwd =>
    rw [hcwd] at h
    obtain ⟨cd, hcd, h⟩ := ok_of_bind h
    obtain ⟨text, htext, rfl⟩ := ok_of_map hcd
    obtain ⟨texts, htexts, hne, rfl⟩ := parts_shellCd htext
    refine ⟨env ++ texts, List.rel_append hparts htexts, ?_⟩
    have hjoin := join_join " && ".toList env hne (List.cons_ne_nil action.command [])
    rw [← Except.ok.inj h, List.append_assoc, List.append_assoc, List.singleton_append, hjoin]

/-! ## What a shell reads in it -/

variable {π : Type} (G : Grammar π)

theorem read_join {texts : List Text} {words : List (List Word)} (h : Parts texts words) (c : Text) :
    G.read (join " && ".toList (texts ++ [c])) = prependAll (words.map G.simple) (G.read c) := by
  induction h with
  | nil => simp [join, List.intercalate, prependAll]
  | cons ht _ ih =>
    rw [List.cons_append, join_cons _ _ (by simp), G.read_and ht.plain, ih]
    rfl

/-- With nothing behind the last `&&` nothing is read. -/
theorem read_join_end {texts : List Text} {words : List (List Word)} (h : Parts texts words) (hne : texts ≠ []) :
    G.read (join " && ".toList texts ++ " &&".toList) = [] := by
  induction h with
  | nil => exact absurd rfl hne
  | @cons t w texts words ht _ ih =>
    cases texts with
    | nil =>
      have htext : join " && ".toList [t] ++ " &&".toList = List.flatten [t, " &&".toList] := by
        simp [join, List.intercalate]
      rw [htext, G.read_and_end ht.plain]
    | cons u texts =>
      have htext : join " && ".toList (t :: u :: texts) ++ " &&".toList =
          List.flatten [t, " && ".toList, join " && ".toList (u :: texts) ++ " &&".toList] := by
        rw [join_cons _ _ (List.cons_ne_nil _ _)]
        simp
      rw [htext, G.read_and ht.plain, ih (List.cons_ne_nil _ _)]
      rfl

/-! ## What the trim takes -/

theorem rdropWhile_append {α : Type} (p : α → Bool) (l l' : List α) :
    (l ++ l').rdropWhile p = if l'.rdropWhile p = [] then l.rdropWhile p else l ++ l'.rdropWhile p := by
  rw [List.rdropWhile, List.reverse_append, List.dropWhile_append, List.rdropWhile, List.rdropWhile]
  by_cases h : l'.reverse.dropWhile p = []
  · simp [h]
  · simp [h]

theorem join_concat (sep : Text) {texts : List Text} (h : texts ≠ []) (c : Text) :
    join sep (texts ++ [c]) = join sep texts ++ (sep ++ c) := by
  induction texts with
  | nil => exact absurd rfl h
  | cons t texts ih =>
    cases texts with
    | nil => simp [join, List.intercalate]
    | cons u texts =>
      rw [List.cons_append, join_cons _ _ (by simp), ih (List.cons_ne_nil _ _), join_cons _ _ (List.cons_ne_nil _ _)]
      simp

/-- The trim takes blanks from the end of the command only, or, of a blank command, all
of it with the blank before it. -/
theorem trim_join {texts : List Text} {words : List (List Word)} (h : Parts texts words) (hne : texts ≠ [])
    (c : Text) :
    trim (join " && ".toList (texts ++ [c])) =
      if trimEnd c = [] then join " && ".toList texts ++ " &&".toList
      else join " && ".toList (texts ++ [trimEnd c]) := by
  -- the first character of the line is the one of its first command
  have hstart (rest : Text) : ∃ d ∈ (join " && ".toList texts ++ rest).head?, Text.isWhitespace d = false := by
    cases h with
    | nil => exact absurd rfl hne
    | @cons t w texts words ht _ =>
      obtain ⟨d, hd, hspace⟩ := ht.front
      refine ⟨d, ?_, hspace⟩
      obtain ⟨more, hmore⟩ : ∃ more, join " && ".toList (t :: texts) ++ rest = t ++ more := by
        cases texts with
        | nil => exact ⟨rest, by simp [join, List.intercalate]⟩
        | cons u texts => exact ⟨_, by rw [join_cons _ _ (List.cons_ne_nil _ _), List.flatten_cons, List.append_assoc]⟩
      rw [hmore, List.head?_append, Option.mem_def.mp hd]
      rfl
  have hfront (rest : Text) : (join " && ".toList texts ++ rest).dropWhile Text.isWhitespace =
      join " && ".toList texts ++ rest := by
    obtain ⟨d, hd, hspace⟩ := hstart rest
    cases hline : join " && ".toList texts ++ rest with
    | nil => rfl
    | cons d' line =>
      rw [hline] at hd
      cases hd
      rw [List.dropWhile_cons, hspace]
      rfl
  have hsep : (" && ".toList ++ c).rdropWhile Text.isWhitespace =
      if trimEnd c = [] then " &&".toList else " && ".toList ++ trimEnd c := by
    rw [rdropWhile_append]
    rfl
  rw [join_concat _ hne, trim, hfront, rdropWhile_append, hsep]
  split
  · case isTrue h => exact if_neg (by decide)
  · case isFalse h =>
    rw [if_neg (by simp), join_concat _ hne]

theorem read_line {action : Action} {line : Text} (h : buildActionCommand action = .ok line)
    (hne : guardWords action ≠ []) :
    G.read line = prependAll ((guardWords action).map G.simple) (G.read (trimEnd action.command)) := by
  obtain ⟨texts, hparts, rfl⟩ := buildActionCommand_ok h
  have htexts : texts ≠ [] := by
    rintro rfl
    exact hne (List.forall₂_nil_left_iff.mp hparts)
  rw [trim_join hparts htexts]
  split
  · case isTrue hblank =>
    rw [hblank, G.read_nil, prependAll_nil]
    exact read_join_end G hparts htexts
  · exact read_join G hparts _

/-! ## The guard -/

/-- If a command before the user's fails, nothing of the user's runs, exactly if what the
shell reads in it is one list without `||`. -/
theorem held_back_iff {σ : Type} {ε : Type} (x : Runner π σ ε) (s : σ) {action : Action} {path line : Text}
    (hcwd : action.cwd = some path) (hline : buildActionCommand action = .ok line)
    (hfails : (x.guards s ((guardWords action).map G.simple)).status ≠ 0)
    (hopen : (x.guards s ((guardWords action).map G.simple)).ended = false) :
    (x.traced.run s (G.read line)).events <+: (x.traced.guards s ((guardWords action).map G.simple)).events ↔
      Guarded (G.read (trimEnd action.command)) := by
  have hne : guardWords action ≠ [] := by
    rw [guardWords, hcwd]
    show action.env.map assignmentWords ++ cdWords path ≠ []
    rw [cdWords]
    split
    · simp
    · split <;> simp
  rw [read_line G hline hne]
  exact x.guards_prefix_iff hfails hopen _

def isCd : Pipeline Command → Bool
  | ⟨_, [.simple s]⟩ => s.words.head? == some (bareWord "cd".toList)
  | _ => false

/-- A shell on a host without the directory: `cd` fails, and everything else succeeds. -/
def withoutDirectory : Runner (Pipeline Command) Unit Unit where
  pipeline _ p := { state := (), status := if isCd p then 1 else 0, ended := false, events := [] }
  launched := id

def inBuild (command : Text) : Action :=
  { id := ⟨1⟩, projectId := ⟨1⟩, name := "build".toList, command := command, mode := .quick,
    cwd := some "/srv/build".toList, timeoutMs := none, dangerLevel := .safe, confirmation := .never, env := [] }

theorem held_back_make :
    (withoutDirectory.traced.run () (core.read "cd -- '/srv/build' && make && make install".toList)).events <+:
        (withoutDirectory.traced.guards ()
          ((guardWords (inBuild "make && make install".toList)).map core.simple)).events ↔
      Guarded (core.read (trimEnd (inBuild "make && make install".toList).command)) :=
  held_back_iff core withoutDirectory ()
    (rfl : (inBuild "make && make install".toList).cwd = some "/srv/build".toList) rfl (by decide) rfl

/-- Behind `;` the command goes on in the directory the shell was in. -/
theorem second_list_runs :
    buildActionCommand (inBuild "make; make install".toList) =
        .ok "cd -- '/srv/build' && make; make install".toList ∧
      (withoutDirectory.guards () ((guardWords (inBuild "make; make install".toList)).map core.simple)).status ≠ 0 ∧
      (withoutDirectory.guards () ((guardWords (inBuild "make; make install".toList)).map core.simple)).ended = false ∧
      ¬ (withoutDirectory.traced.run () (core.read "cd -- '/srv/build' && make; make install".toList)).events <+:
        (withoutDirectory.traced.guards ()
          ((guardWords (inBuild "make; make install".toList)).map core.simple)).events := by
  refine ⟨rfl, by decide, rfl, fun hprefix => ?_⟩
  have hguards : (withoutDirectory.traced.guards ()
      ((guardWords (inBuild "make; make install".toList)).map core.simple)).events.length = 1 := rfl
  have hline : (withoutDirectory.traced.run ()
      (core.read "cd -- '/srv/build' && make; make install".toList)).events.length = 2 := by decide
  have hle := hprefix.length_le
  omega

end KW.Actions
