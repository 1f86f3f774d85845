import KodeWork.Framework.Loops
import KodeWork.Proof.Transfer.Separate

/-!
# One form for each remote path

The two loops of `normalize_remote_path` end in the text that `normalizeRemotePath` computes
(`normalizeRemotePath_ends`), which is its names with one slash between them, and one in front if
the path has any there (`normalizeRemotePath_names`). So the form of a form is the form itself, and two spellings of one
path have one lease key (`normalizeRemotePath_canonical`).
-/

namespace KW.Transfer

open Loops Pieces

/-! ## The loops end -/

theorem collapseSlashes_eq (fuel : Nat) (t : Text) :
    collapseSlashes fuel t = rounds (Text.contains · ['/', '/']) replaceSlashes fuel t := by
  induction fuel generalizing t with
  | zero => rfl
  | succ fuel ih => rw [collapseSlashes, rounds, ih]

theorem endsInSlash_reverse (t : Text) : endsInSlash t.reverse = (decide (1 < t.length) && t.head? == some '/') := by
  rw [endsInSlash, List.length_reverse, List.getLast?_reverse]

theorem dropSlashes_ends (t : Text) : Ends endsInSlash List.dropLast t.reverse (dropSlashes t).reverse := by
  induction t using dropSlashes.induct with
  | case1 c t ih =>
    refine .round ?_ ?_
    · rw [endsInSlash_reverse]
      simp
    · rw [dropSlashes, List.reverse_cons, List.dropLast_concat]
      exact ih
  | case2 t hne =>
    rw [dropSlashes.eq_2 t hne]
    refine .exit ?_
    rw [endsInSlash_reverse]
    cases t with
    | nil => rfl
    | cons c t =>
      cases t with
      | nil => rfl
      | cons d t =>
        have hc : c ≠ '/' := fun h => hne d t (by rw [h])
        simp [hc]

/-- Both loops end, the second in the normal form. -/
theorem normalizeRemotePath_ends (t : Text) :
    ∃ u, Ends (Text.contains · ['/', '/']) replaceSlashes t u ∧
      Ends endsInSlash List.dropLast u (normalizeRemotePath t) := by
  refine ⟨collapseSlashes t.length t, ?_, ?_⟩
  · rw [collapseSlashes_eq]
    exact ends_rounds (fun s hs => (replaceSlashes_spec s).2.2.2 hs) (Nat.le_refl t.length)
  · have h := dropSlashes_ends (collapseSlashes t.length t).reverse
    rwa [List.reverse_reverse] at h

/-! ## The form -/

/-- A path that does not start with a slash is its names, with a slash between them. -/
theorem normalizeRemotePath_relative {t : Text} (h : t.head? ≠ some '/') :
    normalizeRemotePath t = ['/'].intercalate (names t) := by
  obtain ⟨hnames, hhead, hsingle, hlast⟩ := normalizeRemotePath_spec t
  rw [← hnames]
  rw [← hhead] at h
  generalize normalizeRemotePath t = u at h hsingle hlast ⊢
  have hcons : Single '/' ('/' :: u) := by
    cases u with
    | nil => exact .singleton '/'
    | cons c u => exact List.isChain_cons_cons.mpr ⟨fun hc => h (by rw [hc.2]; rfl), hsingle⟩
  refine (List.cons.inj (cons_intercalate_pieces hcons fun _ hl => ?_)).2.symm
  have hone := hlast hl
  obtain ⟨c, hu⟩ := List.length_eq_one_iff.mp hone
  rw [hu] at h hl
  exact h hl

/-- The form of a path is given by its names and whether it starts with a slash. -/
theorem normalizeRemotePath_names (t : Text) :
    normalizeRemotePath t = (if t.head? = some '/' then ['/'] else []) ++ ['/'].intercalate (names t) := by
  by_cases h : t.head? = some '/'
  · rw [if_pos h]
    exact normalizeRemotePath_eq h
  · rw [if_neg h]
    exact normalizeRemotePath_relative h

theorem normalizeRemotePath_congr {t u : Text} (hhead : t.head? = some '/' ↔ u.head? = some '/')
    (hnames : names t = names u) : normalizeRemotePath t = normalizeRemotePath u := by
  rw [normalizeRemotePath_names t, normalizeRemotePath_names u, hnames]
  simp only [hhead]

theorem normalizeRemotePath_idem (t : Text) : normalizeRemotePath (normalizeRemotePath t) = normalizeRemotePath t := by
  obtain ⟨hnames, hhead, -, -⟩ := normalizeRemotePath_spec t
  exact normalizeRemotePath_congr (by rw [hhead]) hnames

theorem not_contains_of_single {t : Text} (h : Single '/' t) : Text.contains t ['/', '/'] = false := by
  induction t with
  | nil => rfl
  | cons c t ih =>
    rw [contains_cons, ih h.of_cons, Bool.or_false]
    refine eq_false_of_ne_true fun hpre => ?_
    obtain ⟨u, hu⟩ := List.isPrefixOf_iff_prefix.mp hpre
    cases t with
    | nil => cases hu
    | cons d t =>
      cases hu
      exact (List.isChain_cons_cons.mp h).1 ⟨rfl, rfl⟩

theorem normalizeRemotePath_end {t : Text} (h : (normalizeRemotePath t).getLast? = some '/') :
    normalizeRemotePath t = ['/'] := by
  obtain ⟨-, -, -, hlast⟩ := normalizeRemotePath_spec t
  obtain ⟨c, hc⟩ := List.length_eq_one_iff.mp (hlast h)
  rw [hc] at h ⊢
  rw [List.getLast?_singleton, Option.some.injEq] at h
  rw [h]

/-! ## Aliases -/

/-- The key of an upload is made of the form of the path that the backend names. -/
theorem leaseKey_upload {p : Platform} {cwd : Option Text} {scope : Text} {r : TransferRequest} {w w' : World}
    {key : Text} (hr : r.direction = .upload) (h : (leaseKey p cwd scope r).exec w = (.ok key, w')) :
    key = "remote:".toList ++ (scope ++ ':' :: normalizeRemotePath (resolved p.home r.remotePath)) := by
  have hspec : wp (leaseKey p cwd scope r) (fun key _ => key =
      "remote:".toList ++ (scope ++ ':' :: normalizeRemotePath (resolved p.home r.remotePath))) (fun _ _ => True) w := by
    unfold leaseKey
    rw [hr]
    refine (resolvePath_query p r.remotePath).wp_bind (fun identity t _ hi => ?_) fun _ _ _ => trivial
    rw [hi]
    rfl
  have hkey := wp_ok hspec h
  exact hkey

/-- The loops of `normalize_remote_path` end with the one form of the path: the form of a form is
itself, no slash of it stands beside another or ends it, and two spellings of a path have the same,
so that uploads to them have one lease key. -/
theorem normalizeRemotePath_canonical :
    (∀ t, (∃ u, Ends (Text.contains · ['/', '/']) replaceSlashes t u ∧
          Ends endsInSlash List.dropLast u (normalizeRemotePath t)) ∧
        (∀ u v, Ends (Text.contains · ['/', '/']) replaceSlashes t u → Ends endsInSlash List.dropLast u v →
          v = normalizeRemotePath t) ∧
        normalizeRemotePath (normalizeRemotePath t) = normalizeRemotePath t ∧
        Text.contains (normalizeRemotePath t) ['/', '/'] = false ∧
        ((normalizeRemotePath t).getLast? = some '/' → normalizeRemotePath t = ['/'])) ∧
      (∀ t u, (t.head? = some '/' ↔ u.head? = some '/') → names t = names u →
        normalizeRemotePath t = normalizeRemotePath u) ∧
      ∀ (p : Platform) (cwd : Option Text) (scope : Text) (r q : TransferRequest) (w w' s s' : World)
        (key key' : Text), r.direction = .upload → q.direction = .upload →
        ((resolved p.home r.remotePath).head? = some '/' ↔ (resolved p.home q.remotePath).head? = some '/') →
        names (resolved p.home r.remotePath) = names (resolved p.home q.remotePath) →
        (leaseKey p cwd scope r).exec w = (.ok key, w') → (leaseKey p cwd scope q).exec s = (.ok key', s') →
        key = key' := by
  refine ⟨fun t => ⟨normalizeRemotePath_ends t, fun u v hu hv => ?_, normalizeRemotePath_idem t,
    not_contains_of_single (normalizeRemotePath_spec t).2.2.1, normalizeRemotePath_end⟩,
    fun t u => normalizeRemotePath_congr, fun p cwd scope r q w w' s s' key key' hr hq hhead hnames hk hk' => ?_⟩
  · obtain ⟨m, hm, hend⟩ := normalizeRemotePath_ends t
    have hmu := hm.unique hu
    rw [hmu] at hend
    exact hv.unique hend
  · rw [leaseKey_upload hr hk, leaseKey_upload hq hk', normalizeRemotePath_congr hhead hnames]

end KW.Transfer
