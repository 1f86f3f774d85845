import KodeWork.Framework.Pieces
import KodeWork.Impl.Transfer.LeaseKey

/-!
# Remote paths and their names

`normalize_remote_path` drops the slashes a path does not need. What is left is
the names of the path, one slash before each (`normalizeRemotePath_eq`), so two
absolute paths have one normal form if and only if they have the same names
(`normalizeRemotePath_inj`).

`fullPath` is a path with `~` written out. The destination of an accepted
request has the names of its full path (`names_resolved`), and its `.part` has
them with `.part` at the end of the last one (`names_resolved_partPath`); only
the `.part` of `~` itself is not below the home directory
(`resolved_partPath_tilde`).
-/

namespace KW.Transfer

open Pieces

def isSlash (c : Char) : Bool := c == '/'

abbrev names (t : Text) : List Text := pieces isSlash t

/-! ## The loops -/

theorem contains_cons (c : Char) (t u : Text) :
    Text.contains (c :: t) u = (Text.startsWith (c :: t) u || Text.contains t u) := rfl

/-- The text has no `//`. -/
theorem single_of_not_contains {t : Text} (h : Text.contains t ['/', '/'] = false) :
    Single '/' t := by
  induction t with
  | nil => exact .nil
  | cons c t ih =>
    rw [contains_cons, Bool.or_eq_false_iff] at h
    have ht := ih h.2
    cases t with
    | nil => exact .singleton c
    | cons d t =>
      refine List.isChain_cons_cons.mpr ⟨?_, ht⟩
      rintro ⟨rfl, rfl⟩
      simp [Text.startsWith] at h

/-- One round keeps the names, behind whatever stands before, and the first
character; it makes a text with `//` in it shorter. -/
theorem replaceSlashes_spec (t : Text) :
    (∀ u, names (u ++ replaceSlashes t) = names (u ++ t)) ∧
      (replaceSlashes t).head? = t.head? ∧ (replaceSlashes t).length ≤ t.length ∧
      (Text.contains t ['/', '/'] = true → (replaceSlashes t).length < t.length) := by
  induction t using replaceSlashes.induct with
  | case1 t ih =>
    obtain ⟨hn, -, hle, -⟩ := ih
    have hs : isSlash '/' = true := rfl
    rw [replaceSlashes]
    refine ⟨fun u => ?_, rfl, ?_, fun _ => ?_⟩
    · rw [names, names, pieces_append_cons u _ hs, pieces_append_cons u _ hs, pieces_cons hs]
      exact congrArg _ (hn [])
    · simp only [List.length_cons]
      omega
    · simp only [List.length_cons]
      omega
  | case2 c t hne ih =>
    obtain ⟨hn, -, hle, hlt⟩ := ih
    rw [replaceSlashes.eq_2 c t hne]
    refine ⟨fun u => ?_, rfl, by simpa using hle, fun h => ?_⟩
    · rw [List.append_cons u c (replaceSlashes t), List.append_cons u c t]
      exact hn (u ++ [c])
    · rw [contains_cons, Bool.or_eq_true] at h
      rcases h with h | h
      · -- the text does not start with `//`
        cases t with
        | nil => simp [Text.startsWith] at h
        | cons d t =>
          simp only [Text.startsWith, List.isPrefixOf, Bool.and_true, Bool.and_eq_true, beq_iff_eq] at h
          exact absurd h.2.symm (fun e => hne t h.1.symm (by rw [e]))
      · simpa using hlt h
  | case3 =>
    refine ⟨fun _ => rfl, rfl, Nat.le_refl _, fun h => ?_⟩
    simp [Text.contains, Text.startsWith] at h

/-- The first loop keeps the names and the first character, and leaves no `//`. -/
theorem collapseSlashes_spec {fuel : Nat} {t : Text} (h : t.length ≤ fuel) :
    names (collapseSlashes fuel t) = names t ∧ (collapseSlashes fuel t).head? = t.head? ∧
      Single '/' (collapseSlashes fuel t) := by
  induction fuel generalizing t with
  | zero =>
    rw [List.length_eq_zero_iff.mp (Nat.le_zero.mp h)]
    exact ⟨rfl, rfl, .nil⟩
  | succ fuel ih =>
    rw [collapseSlashes]
    split
    · rename_i hc
      obtain ⟨hnames, hhead, -, hlt⟩ := replaceSlashes_spec t
      have hshort := hlt hc
      obtain ⟨hn, hh, hs⟩ := ih (t := replaceSlashes t) (by omega)
      exact ⟨hn.trans (hnames []), hh.trans hhead, hs⟩
    · exact ⟨rfl, rfl, single_of_not_contains (eq_false_of_ne_true ‹_›)⟩

/-- The second loop takes slashes away, and stops at something else or at the
last character. -/
theorem dropSlashes_spec (t : Text) : ∃ k, t = List.replicate k '/' ++ dropSlashes t ∧
    ((dropSlashes t).head? = some '/' → (dropSlashes t).tail = []) ∧
    (dropSlashes t = [] → t = []) := by
  induction t using dropSlashes.induct with
  | case1 c t ih =>
    obtain ⟨k, he, hh, hn⟩ := ih
    rw [dropSlashes]
    refine ⟨k + 1, ?_, hh, fun e => ?_⟩
    · rw [List.replicate_succ, List.cons_append, ← he]
    · cases hn e
  | case2 t hne =>
    have he : dropSlashes t = t := dropSlashes.eq_2 t hne
    refine ⟨0, by rw [he]; rfl, fun h => ?_, fun e => by rw [← he, e]⟩
    rw [he] at h ⊢
    cases t with
    | nil => rfl
    | cons c t =>
      cases t with
      | nil => rfl
      | cons d t =>
        rw [List.head?_cons, Option.some.injEq] at h
        exact absurd (by rw [h]) (hne d t)

theorem names_append_replicate (t : Text) (k : Nat) :
    names (t ++ List.replicate k '/') = names t := by
  induction k with
  | zero => rw [List.replicate_zero, List.append_nil]
  | succ k ih =>
    rw [List.replicate_succ', ← List.append_assoc]
    exact (pieces_concat rfl _).trans ih

/-- What `normalize_remote_path` keeps and what it leaves. -/
theorem normalizeRemotePath_spec (t : Text) :
    names (normalizeRemotePath t) = names t ∧ (normalizeRemotePath t).head? = t.head? ∧
      Single '/' (normalizeRemotePath t) ∧
      ((normalizeRemotePath t).getLast? = some '/' → (normalizeRemotePath t).length = 1) := by
  obtain ⟨hn, hh, hs⟩ := collapseSlashes_spec (Nat.le_refl t.length)
  rw [normalizeRemotePath]
  generalize collapseSlashes t.length t = u at hn hh hs ⊢
  obtain ⟨k, he, hl, hz⟩ := dropSlashes_spec u.reverse
  generalize dropSlashes u.reverse = v at he hl hz ⊢
  have hu : u = v.reverse ++ List.replicate k '/' := by
    rw [← List.reverse_reverse u, he, List.reverse_append, List.reverse_replicate]
  refine ⟨?_, ?_, ?_, fun h => ?_⟩
  · rw [← hn, hu, names_append_replicate]
  · rw [← hh, hu]
    cases hv : v.reverse with
    | nil =>
      have hu0 := hz (List.reverse_eq_nil_iff.mp hv)
      rw [hu, hv] at hu0
      simp only [List.nil_append, List.reverse_replicate, List.replicate_eq_nil_iff] at hu0
      rw [hu0]
      rfl
    | cons c w => rfl
  · rw [hu] at hs
    exact hs.left_of_append
  · rw [List.getLast?_reverse] at h
    cases v with
    | nil => cases h
    | cons c w =>
      have hw := hl h
      rw [List.tail_cons] at hw
      rw [hw]
      rfl

/-- A path in normal form is its names, with a slash before each. -/
theorem normalizeRemotePath_eq {t : Text} (h : t.head? = some '/') :
    normalizeRemotePath t = '/' :: ['/'].intercalate (names t) := by
  obtain ⟨hn, hh, hs, hl⟩ := normalizeRemotePath_spec t
  rw [h] at hh
  obtain ⟨s, hs'⟩ := List.head?_eq_some_iff.mp hh
  rw [hs'] at hn hs hl ⊢
  rw [← hn, names, pieces_cons rfl]
  refine (cons_intercalate_pieces hs fun hne hlast => ?_).symm
  obtain ⟨d, w, rfl⟩ := List.exists_cons_of_ne_nil hne
  have hlen := hl (by rw [List.getLast?_cons_cons]; exact hlast)
  simp at hlen

theorem normalizeRemotePath_inj {t u : Text} (ht : t.head? = some '/') (hu : u.head? = some '/') :
    normalizeRemotePath t = normalizeRemotePath u ↔ names t = names u := by
  constructor
  · intro h
    rw [← (normalizeRemotePath_spec t).1, h, (normalizeRemotePath_spec u).1]
  · intro h
    rw [normalizeRemotePath_eq ht, normalizeRemotePath_eq hu, h]

/-! ## Requests -/

/-- The remote paths `validate_request` accepts, as far as the backend tells
them apart. -/
inductive Addressed : Text → Prop
  | home : Addressed ['~']
  | below (rel : Text) : Addressed ('~' :: '/' :: rel)
  | absolute (t : Text) : Addressed ('/' :: t)

theorem addressed_of_valid {request : TransferRequest} (h : validateRequest request = .ok ()) :
    Addressed request.remotePath := by
  have hp : request.remotePath = ['~'] ∨ Text.startsWith request.remotePath ['~', '/'] = true ∨
      Text.startsWith request.remotePath ['/'] = true := by
    by_contra hn
    simp only [not_or, Bool.not_eq_true] at hn
    simp only [validateRequest, beq_false_of_ne hn.1, hn.2.1, hn.2.2, Bool.or_false, Bool.not_false,
      Bool.true_or, if_true] at h
    split at h <;> cases h
  rcases hp with hp | hp | hp
  · rw [hp]
    exact .home
  · obtain ⟨rel, hrel⟩ := List.isPrefixOf_iff_prefix.mp hp
    rw [← hrel]
    exact .below rel
  · obtain ⟨t, ht⟩ := List.isPrefixOf_iff_prefix.mp hp
    rw [← ht]
    exact .absolute t

/-- A path with `~` written out. -/
def fullPath (home path : Text) : Text :=
  if path = ['~'] then home
  else if Text.startsWith path ['~', '/'] then home ++ '/' :: path.drop 2
  else path

theorem names_trimEndMatches (t : Text) : names (Text.trimEndMatches t '/') = names t := pieces_rdropWhile t

theorem names_partPath (t : Text) :
    names (partPath t) = folder isSlash t ++ [partPath (leaf isSlash t)] :=
  pieces_append t (not_sep_of_all rfl) (List.cons_ne_nil _ _)

/-- Below `~`, the backend puts one slash behind the home directory. -/
theorem resolved_below {home rel : Text} (h : rel ≠ []) :
    resolved home ('~' :: '/' :: rel) = Text.trimEndMatches home '/' ++ '/' :: rel := by
  obtain ⟨c, rel, rfl⟩ := List.exists_cons_of_ne_nil h
  simp [resolved, Text.startsWith]

theorem names_below (home rel : Text) :
    names (Text.trimEndMatches home '/' ++ '/' :: rel) = names (home ++ '/' :: rel) := by
  have h : ∀ t : Text, names (t ++ '/' :: rel) = names t ++ names rel := fun t =>
    pieces_append_cons t rel rfl
  rw [h, h, names_trimEndMatches]

theorem rooted_below {home : Text} (hh : home.head? = some '/') (rel : Text) :
    (Text.trimEndMatches home '/' ++ '/' :: rel).head? = some '/' := by
  cases ht : Text.trimEndMatches home '/' with
  | nil => rfl
  | cons c t =>
    have hpre : c :: t <+: home := ht ▸ List.rdropWhile_prefix _ _
    obtain ⟨u, rfl⟩ := hpre
    exact hh

section

variable {home path : Text}

theorem rooted_resolved (hh : home.head? = some '/') (h : Addressed path) :
    (resolved home path).head? = some '/' := by
  cases h with
  | home => simpa [resolved] using hh
  | below rel =>
    by_cases hrel : rel = []
    · simpa [resolved, Text.startsWith, hrel] using hh
    · rw [resolved_below hrel]
      exact rooted_below hh rel
  | absolute t => simp [resolved, Text.startsWith]

theorem names_resolved (h : Addressed path) :
    names (resolved home path) = names (fullPath home path) := by
  cases h with
  | home => simp [resolved, fullPath]
  | below rel =>
    have hfull : fullPath home ('~' :: '/' :: rel) = home ++ '/' :: rel := by
      simp [fullPath, Text.startsWith]
    rw [hfull]
    by_cases hrel : rel = []
    · rw [hrel, names, names, pieces_concat rfl]
      simp [resolved, Text.startsWith]
    · rw [resolved_below hrel, names_below]
  | absolute t => simp [resolved, fullPath, Text.startsWith]

/-- The `.part` of any path but `~` is the full path with `.part` at its end. -/
theorem resolved_partPath (hh : home.head? = some '/') (h : Addressed path) (hne : path ≠ ['~']) :
    (resolved home (partPath path)).head? = some '/' ∧
      names (resolved home (partPath path)) = names (partPath (fullPath home path)) := by
  cases h with
  | home => exact absurd rfl hne
  | below rel =>
    have hpart : partPath rel ≠ [] := by simp [partPath]
    have hres : resolved home (partPath ('~' :: '/' :: rel)) =
        Text.trimEndMatches home '/' ++ '/' :: partPath rel := resolved_below hpart
    have hfull : partPath (fullPath home ('~' :: '/' :: rel)) = home ++ '/' :: partPath rel := by
      simp [fullPath, Text.startsWith, partPath]
    rw [hres, hfull]
    exact ⟨rooted_below hh _, names_below home _⟩
  | absolute t => simp [resolved, fullPath, Text.startsWith, partPath]

/-- `~.part` is a name relative to no directory of the request. -/
theorem resolved_partPath_tilde (home : Text) : resolved home (partPath ['~']) = partPath ['~'] := by
  simp [resolved, partPath, Text.startsWith]

theorem normalizeRemotePath_ne_tilde {t : Text} (h : t.head? = some '/') :
    normalizeRemotePath t ≠ normalizeRemotePath (partPath ['~']) := by
  intro e
  have hh := (normalizeRemotePath_spec t).2.1
  rw [e, (normalizeRemotePath_spec _).2.1, h] at hh
  exact absurd hh (by decide)

end

/-- The destination `q` is the name under which `r` is staged: its names are
those of `r` with `.part` at the end of the last one, or behind them where `r`
ends in a slash. -/
def StagesRemote (home r q : Text) : Prop :=
  r ≠ ['~'] ∧ names (fullPath home q) =
    folder isSlash (fullPath home r) ++ [partPath (leaf isSlash (fullPath home r))]

instance (home r q : Text) : Decidable (StagesRemote home r q) :=
  inferInstanceAs (Decidable (_ ∧ _))

section

variable {home r q : Text}

theorem stagesRemote_iff (hh : home.head? = some '/') (hr : Addressed r) (hq : Addressed q) :
    normalizeRemotePath (resolved home q) = normalizeRemotePath (resolved home (partPath r)) ↔
      StagesRemote home r q := by
  have hroot := rooted_resolved hh hq
  by_cases hne : r = ['~']
  · rw [hne, resolved_partPath_tilde]
    exact iff_of_false (normalizeRemotePath_ne_tilde hroot) fun h => h.1 rfl
  · obtain ⟨hpart, hnames⟩ := resolved_partPath hh hr hne
    rw [normalizeRemotePath_inj hroot hpart, names_resolved hq, hnames, names_partPath]
    exact (and_iff_right hne).symm

/-- Two requests with one `.part` have one destination. -/
theorem destination_eq_of_staging_eq (hh : home.head? = some '/') (hr : Addressed r)
    (hq : Addressed q) (h : normalizeRemotePath (resolved home (partPath r)) =
      normalizeRemotePath (resolved home (partPath q))) :
    normalizeRemotePath (resolved home r) = normalizeRemotePath (resolved home q) := by
  by_cases hr' : r = ['~']
  · by_cases hq' : q = ['~']
    · rw [hr', hq']
    · rw [hr', resolved_partPath_tilde] at h
      exact absurd h.symm (normalizeRemotePath_ne_tilde (resolved_partPath hh hq hq').1)
  · by_cases hq' : q = ['~']
    · rw [hq', resolved_partPath_tilde] at h
      exact absurd h (normalizeRemotePath_ne_tilde (resolved_partPath hh hr hr').1)
    · obtain ⟨hroot, hnames⟩ := resolved_partPath hh hr hr'
      obtain ⟨hroot', hnames'⟩ := resolved_partPath hh hq hq'
      rw [normalizeRemotePath_inj hroot hroot', hnames, hnames', names_partPath, names_partPath] at h
      -- the leaf and what is before it are the same
      obtain ⟨hfolder, hleaf⟩ := List.append_inj' h rfl
      have hl : leaf isSlash (fullPath home r) = leaf isSlash (fullPath home q) :=
        List.append_cancel_right (List.singleton_inj.mp hleaf)
      rw [normalizeRemotePath_inj (rooted_resolved hh hr) (rooted_resolved hh hq), names_resolved hr,
        names_resolved hq, names, names, pieces_eq, pieces_eq, hfolder, hl]

end

end KW.Transfer
