import KodeWork.Proof.Path
import KodeWork.Impl.Transfer.LeaseKey

/-!
# Local paths and their `.part`

`localName` is the path the loop of `normalize_local_path` leaves, on Windows with
letters in one case and `\` for `/`; the key of a lease is made of it
(`normalizeLocalPath_eq`). Appending `.part` to a path changes nothing but what
follows its last separator (`toList_part`): the loop comes to the same
directory, and enters it under another name (`lexicalPath_part`). So two paths
with one `.part` are one path (`localName_eq_of_part_eq`).

On Windows this is so for a `plain` path. Of a path that is only a prefix, such
as a share, `.part` changes the prefix; a last name that starts like a drive
is not entered, it replaces the path; and behind `\\?\` a `/` does not separate.
-/

namespace KW.Transfer

open KW.Path Pieces

def localName (windows : Bool) (cwd : Option Text) (path : Text) : Text :=
  (lexicalPath windows cwd path).map (foldChar windows)

theorem normalizeLocalPath_eq (windows : Bool) (cwd : Option Text) (path : Text) :
    normalizeLocalPath windows cwd path = (localName windows cwd path).map forwardSlash := by
  rw [localName, List.map_map]
  cases windows with
  | false => rfl
  | true =>
    show ((lexicalPath true cwd path).map forwardSlash).map Char.toLower = _
    rw [List.map_map]
    refine List.map_congr_left fun c _ => ?_
    have hback : c.toLower = '\\' ↔ c = '\\' := toLower_eq_iff (by decide)
    by_cases hslash : c = '/'
    · subst hslash
      decide
    · by_cases hc : c = '\\'
      · subst hc
        decide
      · simp [forwardSlash, foldChar, hslash, hc, hback]

/-! ## Entering a directory -/

/-- What the loop makes of a name in the directory `b`. -/
def enter (windows : Bool) (b name : Text) : Text :=
  if name = [] ∨ name = ['.'] then b
  else if name = ['.', '.'] then if (components windows b).endsNormal then pop windows b else b
  else stem windows b ++ name

/-- What a name at the end of a path is read into. -/
inductive ReadAs : Text → List Component → Prop
  | empty : ReadAs [] []
  | skipped : ReadAs ['.'] []
  | here : ReadAs ['.'] [.curDir]
  | up : ReadAs ['.', '.'] [.parentDir]
  | name {t : Text} (h : t ≠ []) (h₁ : t ≠ ['.']) (h₂ : t ≠ ['.', '.']) : ReadAs t [.normal t]

theorem readAs_segment (verbatim : Bool) (t : Text) :
    ReadAs t (segment verbatim t).toList := by
  unfold Path.segment
  split
  · rename_i h
    rw [List.isEmpty_iff.mp h]
    exact .empty
  · rename_i h
    split
    · rename_i h₁
      rw [h₁]
      split
      · exact .here
      · exact .skipped
    · rename_i h₁
      split
      · rename_i h₂
        rw [h₂]
        exact .up
      · rename_i h₂
        exact .name (fun e => h (by rw [e]; rfl)) h₁ h₂

section

variable {windows : Bool}

theorem ReadAs.foldl {name : Text} {tail : List Component} (h : ReadAs name tail) (hb : Bare windows name)
    {b : Text} (hv : (components windows b).verbatim = false) :
    tail.foldl (normalizeComponent windows) b = enter windows b name := by
  cases h with
  | empty | skipped | here | up => rfl
  | name h₀ h₁ h₂ =>
    rw [List.foldl_cons, List.foldl_nil, enter, if_neg (by rintro (e | e); exact h₀ e; exact h₁ e), if_neg h₂]
    exact push_bare hv hb

/-- What the loop is left with before a name of the path. -/
def Inner (windows : Bool) (c : Component) : Prop :=
  c = .curDir ∨ c = .parentDir ∨ ∃ name, c = .normal name ∧ name ≠ [] ∧ ∀ x ∈ name, Path.isSeparator windows x = false

theorem inner_segment {t : Text} {c : Component} (ht : ∀ x ∈ t, Path.isSeparator windows x = false)
    (h : segment false t = some c) : Inner windows c := by
  unfold Path.segment at h
  split at h
  · cases h
  · rename_i hne
    split at h
    · cases h
    · split at h <;> cases h
      · exact .inr (.inl rfl)
      · exact .inr (.inr ⟨t, rfl, fun e => hne (by rw [e]; rfl), ht⟩)

theorem tidy_normalizeComponent {b : Text} (hb : Tidy windows b) {c : Component} (hc : Inner windows c) :
    Tidy windows (normalizeComponent windows b c) := by
  rcases hc with rfl | rfl | ⟨name, rfl, hne, hsep⟩
  · exact hb
  · rw [normalizeComponent]
    split
    · exact hb.pop
    · exact hb
  · show Tidy windows (push windows b name)
    by_cases hdrive : windows = true ∧ isDrive name = true
    · rw [push_drive hdrive.1 hdrive.2]
      exact tidy_drive hdrive.1 hdrive.2 hsep
    · have hbare : Bare windows name := ⟨hsep, fun hw => eq_false_of_ne_true fun hd => hdrive ⟨hw, hd⟩⟩
      rw [push_bare hb.plain hbare]
      exact hb.name hbare hne

theorem tidy_foldl {cs : List Component} {b : Text} (hb : Tidy windows b) (hcs : ∀ c ∈ cs, Inner windows c) :
    Tidy windows (cs.foldl (normalizeComponent windows) b) := by
  induction cs generalizing b with
  | nil => exact hb
  | cons c cs ih =>
    rw [List.forall_mem_cons] at hcs
    exact ih (tidy_normalizeComponent hb hcs.1) hcs.2

/-- The root, pushed behind a prefix or behind nothing. -/
theorem push_root {b : Text} (hv : (components windows b).verbatim = false)
    (hb : b.take (components windows b).prefixLen = b) (hw : windows = false → b = []) :
    push windows b [mainSeparator windows] = b ++ [mainSeparator windows] := by
  cases windows with
  | false =>
    rw [hw rfl]
    rfl
  | true =>
    have hroot : hasRoot true ['\\'] = true := rfl
    have habs : isAbsolute true ['\\'] = false := rfl
    have hpre : prefixOf true ['\\'] = none := rfl
    show push true b ['\\'] = b ++ ['\\']
    simp only [push, habs, hpre, hv, hroot, hb, Option.isSome_none, Bool.or_self, Bool.false_and,
      Bool.false_eq_true, if_false, if_true]

/-- The prefix of a path and its root are tidy. -/
theorem tidy_head {a : Text} (hv : (components windows a).verbatim = false) :
    Tidy windows ((components windows a).head.foldl (normalizeComponent windows) []) := by
  rcases hp : prefixOf windows a with _ | ⟨kind, n⟩
  · have hhead : (components windows a).head = if (components windows a).physicalRoot then [.rootDir] else [] := by
      have hpre : (components windows a).pre = none := hp
      rw [Components.head, hpre]
      simp
    rw [hhead]
    split
    · show Tidy windows (push windows [] [mainSeparator windows])
      rw [push_root tidy_nil.plain (List.take_nil) fun _ => rfl]
      exact tidy_root
    · exact tidy_nil
  · obtain rfl := windows_of_prefixOf hp
    have hkind := prefixOf_of_verbatim hv hp
    have hlen : n ≤ a.length := parsePrefix_le hp hkind
    have hpre : (components true a).pre = some (kind, n) := hp
    -- the prefix replaces the empty path
    have hp' : prefixOf true (a.take n) = some (kind, n) := by
      by_cases hd : kind = .disk
      · subst hd
        obtain ⟨hdrive, rfl⟩ := isDrive_of_parsePrefix hp
        obtain ⟨x, u, hx, rfl⟩ := isDrive_iff.mp hdrive
        exact parsePrefix_of_isDrive (isDrive_iff.mpr ⟨x, [], hx, rfl⟩)
      · rw [← List.append_nil (a.take n)]
        exact parsePrefix_take_append hp hkind hd rfl
    have hpush : push true [] (a.take n) = a.take n := by
      rw [push, hp', Option.isSome_some, Bool.or_true, if_pos rfl]
    have hv' : (components true (a.take n)).verbatim = false := by
      refine verbatim_of_prefixOf fun m hm => ?_
      rw [hp'] at hm
      cases hm
      exact hkind rfl
    have hroot : push true (a.take n) ['\\'] = a.take n ++ ['\\'] := by
      refine @push_root true _ hv' ?_ fun h => absurd h (by decide)
      rw [prefixLen_eq hp', List.take_take, Nat.min_self]
    rw [Components.head, hpre]
    split
    · show Tidy true (push true (push true [] (a.take n)) ['\\'])
      rw [hpush, hroot]
      exact tidy_prefix_root hp hkind hlen
    · rename_i hno
      show Tidy true (push true [] (a.take n))
      rw [hpush]
      have hd : kind = .disk := by
        cases kind with
        | verbatim => exact absurd rfl hkind
        | disk => rfl
        | unc | deviceNs => exact absurd (Bool.or_true _) hno
      subst hd
      obtain ⟨hdrive, rfl⟩ := isDrive_of_parsePrefix hp
      obtain ⟨x, u, hx, rfl⟩ := isDrive_iff.mp hdrive
      refine tidy_drive rfl (isDrive_iff.mpr ⟨x, [], hx, rfl⟩) fun c hc => ?_
      rcases List.mem_cons.mp hc with rfl | hc
      · exact not_isSeparator_of_isAlpha hx true
      · rw [List.mem_singleton.mp hc]
        rfl

/-! ## Appending `.part` -/

theorem isSeparator_of_mem_part :
    ∀ c ∈ ['.', 'p', 'a', 'r', 't'], Path.isSeparator windows c = false :=
  not_sep_of_all (by cases windows <;> rfl)

theorem bare_partPath {name : Text} (h : Bare windows name) :
    Bare windows (partPath name) where
  separators := by
    intro c hc
    rcases List.mem_append.mp hc with hc | hc
    · exact h.separators c hc
    · exact isSeparator_of_mem_part c hc
  drive := by
    intro hw
    have hd := h.drive hw
    rcases name with _ | ⟨a, _ | ⟨b, t⟩⟩
    · decide
    · simp [Transfer.partPath, isDrive]
    · exact hd

theorem partPath_long (t : Text) : 4 < (partPath t).length := by
  simp [partPath]

theorem segment_partPath (verbatim : Bool) (t : Text) :
    segment verbatim (partPath t) = some (.normal (partPath t)) := by
  have hlen := partPath_long t
  have hne : ∀ u : Text, u.length < 3 → partPath t ≠ u := by
    intro u hu e
    rw [e] at hlen
    omega
  simp [Path.segment, hne [] (by decide), hne ['.'] (by decide), hne ['.', '.'] (by decide)]

theorem head?_partPath_any (rest : Text) :
    (partPath rest).head?.any (Path.isSeparator windows) =
      rest.head?.any (Path.isSeparator windows) := by
  cases rest with
  | nil => cases windows <;> rfl
  | cons c t => rfl

/-- What follows the last separator of a path. -/
def lastName (windows : Bool) (path : Text) : Text := leaf (Path.isSeparator windows) (components windows path).rest

theorem bare_lastName {path : Text} (h : windows = true → isDrive (lastName windows path) = false) :
    Bare windows (lastName windows path) := ⟨fun _ hc => not_sep_of_mem_leaf hc, h⟩

/-- What `components` reads of a path and of its `.part` is the same up to the last name. -/
structure SameFront (windows : Bool) (a : Text) : Prop where
  pre : prefixOf windows (partPath a) = prefixOf windows a
  len : (components windows a).prefixLen ≤ a.length

theorem SameFront.mk' {a : Text} (hv : (components windows a).verbatim = false)
    (hp : prefixOf windows (partPath a) = prefixOf windows a) : SameFront windows a := by
  refine ⟨hp, ?_⟩
  rcases h : prefixOf windows a with _ | ⟨kind, n⟩
  · rw [prefixLen_eq_zero h]
    exact Nat.zero_le _
  · obtain rfl := windows_of_prefixOf h
    rw [prefixLen_eq h]
    exact parsePrefix_le h (prefixOf_of_verbatim hv h)

section

variable {a : Text} (h : SameFront windows a)

include h

theorem SameFront.prefixLen : (components windows (partPath a)).prefixLen = (components windows a).prefixLen :=
  congrArg (fun x : Option (PrefixKind × Nat) => (x.map Prod.snd).getD 0) h.pre

theorem SameFront.behind : (components windows (partPath a)).behind = partPath (components windows a).behind := by
  rw [Components.behind, h.prefixLen]
  exact List.drop_append_of_le_length h.len

theorem SameFront.physicalRoot :
    (components windows (partPath a)).physicalRoot = (components windows a).physicalRoot := by
  rw [Components.physicalRoot, h.behind]
  exact head?_partPath_any _

theorem SameFront.hasRoot : (components windows (partPath a)).hasRoot = (components windows a).hasRoot := by
  rw [Components.hasRoot, h.physicalRoot]
  exact congrArg (fun x : Option (PrefixKind × Nat) => _ || x.any fun p => p.1 != .disk) h.pre

theorem SameFront.rest : (components windows (partPath a)).rest = partPath (components windows a).rest := by
  rw [Components.rest, Components.rest, h.physicalRoot, h.behind]
  split
  · rename_i hroot
    rw [physicalRoot_eq] at hroot
    show (partPath (components windows a).behind).drop 1 = _
    cases hb : (components windows a).behind with
    | nil =>
      rw [Components.behind] at hb
      rw [show a.drop (components windows a).prefixLen = [] from hb] at hroot
      cases hroot
    | cons c t => rfl
  · rfl

theorem SameFront.head : (components windows (partPath a)).head = (components windows a).head := by
  rw [Components.head, Components.head, h.physicalRoot]
  have hpre : (components windows (partPath a)).pre = (components windows a).pre := h.pre
  rw [hpre]
  congr 2
  rcases hp : (components windows a).pre with _ | ⟨kind, n⟩
  · rfl
  · have hlen := h.len
    rw [prefixLen_eq hp] at hlen
    show some (Component.pathPrefix ⟨kind, (partPath a).take n⟩) = some (.pathPrefix ⟨kind, a.take n⟩)
    rw [partPath, List.take_append_of_le_length hlen]

end

theorem head?_splitOnP (p : Char → Bool) (t : Text) : (t.splitOnP p).head? = some (t.takeWhile fun c => !p c) := by
  induction t with
  | nil => rfl
  | cons c t ih =>
    rw [List.splitOnP_cons_eq_if_modifyHead, List.takeWhile_cons]
    cases hc : p c with
    | true => rfl
    | false =>
      obtain ⟨v, vs, hv⟩ := List.exists_cons_of_ne_nil (List.splitOnP_ne_nil p t)
      rw [hv] at ih ⊢
      simpa using ih

/-- The `.` in front, from what stands before the first separator. -/
theorem startDir_eq {c : Components} (hroot : c.hasRoot = false) :
    c.startDir = if c.pre.isNone && (c.rest.splitOnP c.separates).head? == some ['.'] then [.curDir] else [] := by
  have hphys : c.physicalRoot = false := (Bool.or_eq_false_iff.mp hroot).1
  rw [Components.startDir, Components.includeCurDir, hroot, head?_splitOnP, Components.rest, hphys]
  rfl

theorem startDir_of_hasRoot {c : Components} (hroot : c.hasRoot = true) : c.startDir = [] := by
  rw [Components.startDir, Components.includeCurDir, hroot, Bool.not_true, Bool.false_and, Bool.and_false]
  rfl

/-- The components of a path and of its `.part` are the same up to the last
separator. -/
theorem toList_part {a : Text} (hv : (components windows a).verbatim = false) (h : SameFront windows a) :
    ∃ mid tail, (components windows a).toList = (components windows a).head ++ mid ++ tail ∧
      (components windows (partPath a)).toList =
        (components windows a).head ++ mid ++ [.normal (partPath (lastName windows a))] ∧
      ReadAs (lastName windows a) tail ∧ ∀ c ∈ mid, Inner windows c := by
  have hv' : (components windows (partPath a)).verbatim = false := by
    show (prefixOf windows (partPath a)).any _ = false
    rw [h.pre]
    exact hv
  have hsep : ∀ {x : Text}, (components windows x).verbatim = false →
      (components windows x).separates = Path.isSeparator windows := by
    intro x hx
    funext c
    rw [Components.separates, hx]
    rfl
  have hcut : (components windows a).rest.splitOnP (Path.isSeparator windows) =
      front (Path.isSeparator windows) (components windows a).rest ++ [lastName windows a] := splitOnP_eq _
  have hcut' : (components windows (partPath a)).rest.splitOnP (Path.isSeparator windows) =
      front (Path.isSeparator windows) (components windows a).rest ++ [partPath (lastName windows a)] := by
    rw [h.rest]
    exact splitOnP_append _ isSeparator_of_mem_part
  have hone : ∀ t : Text, [t].filterMap (segment false) = (segment false t).toList := by
    intro t
    rw [List.filterMap_cons, List.filterMap_nil]
    cases segment false t <;> rfl
  have hpre : (components windows (partPath a)).pre = (components windows a).pre := h.pre
  rw [Components.toList, Components.toList, h.head, hv, hv', hsep hv, hsep hv', hcut, hcut',
    List.filterMap_append, List.filterMap_append, hone, hone, segment_partPath]
  cases hf : front (Path.isSeparator windows) (components windows a).rest with
  | nil =>
    -- the name is all there is behind the root
    rw [hf, List.nil_append] at hcut hcut'
    refine ⟨[], (components windows a).startDir ++ (segment false (lastName windows a)).toList, ?_, ?_, ?_,
      fun c hc => absurd hc List.not_mem_nil⟩
    · rw [List.append_nil]
      rfl
    · have hstart : (components windows (partPath a)).startDir = [] := by
        cases hroot : (components windows (partPath a)).hasRoot with
        | true => exact startDir_of_hasRoot hroot
        | false =>
          have hdot : (some (partPath (lastName windows a)) == some ['.']) = false := by
            refine beq_false_of_ne fun e => ?_
            have hlong := partPath_long (lastName windows a)
            rw [Option.some.inj e] at hlong
            exact absurd hlong (by decide)
          rw [startDir_eq hroot, hsep hv', hcut', List.head?_cons, hdot, Bool.and_false]
          rfl
      rw [hstart, List.append_nil]
      rfl
    · cases hroot : (components windows a).hasRoot with
      | true =>
        rw [startDir_of_hasRoot hroot]
        exact readAs_segment false _
      | false =>
        rw [startDir_eq hroot, hsep hv, hcut, List.head?_cons]
        split
        · -- a `.` that is all there is
          rename_i hl
          rw [Bool.and_eq_true, beq_iff_eq, Option.some.injEq] at hl
          rw [hl.2]
          exact .here
        · exact readAs_segment false _
  | cons s ss =>
    rw [hf] at hcut hcut'
    have hstart : (components windows (partPath a)).startDir = (components windows a).startDir := by
      cases hroot : (components windows a).hasRoot with
      | true => rw [startDir_of_hasRoot hroot, startDir_of_hasRoot (h.hasRoot.trans hroot)]
      | false =>
        rw [startDir_eq hroot, startDir_eq (h.hasRoot.trans hroot), hpre, hsep hv, hsep hv', hcut, hcut',
          List.cons_append, List.cons_append, List.head?_cons, List.head?_cons]
    refine ⟨(components windows a).startDir ++ (s :: ss).filterMap (segment false),
      (segment false (lastName windows a)).toList, ?_, ?_, readAs_segment false _, fun c hc => ?_⟩
    · simp only [List.append_assoc]
    · rw [hstart]
      simp only [List.append_assoc]
      rfl
    · rcases List.mem_append.mp hc with hc | hc
      · rw [Components.startDir] at hc
        split at hc
        · exact .inl (List.mem_singleton.mp hc)
        · cases hc
      · obtain ⟨t, ht, hseg⟩ := List.mem_filterMap.mp hc
        refine inner_segment (fun x hx => ?_) hseg
        have hmem : t ∈ (components windows a).rest.splitOnP (Path.isSeparator windows) :=
          hcut ▸ List.mem_append_left _ ht
        exact not_sep_of_mem_pieces (List.mem_filter.mpr ⟨hmem, by
          simpa using List.ne_nil_of_mem hx⟩) x hx

/-! ## The whole path -/

/-- A path that stands in one directory with its `.part`. On Windows, it is not verbatim,
nor is the working directory, `.part` changes nothing of its prefix, and the last name is a
name by itself. -/
def plain (windows : Bool) (cwd : Option Text) (path : Text) : Bool :=
  !windows || (prefixOf true (partPath path) == prefixOf true path &&
    (cwd.all fun cwd => !(components true cwd).verbatim) &&
    (!(components true (absolutePath true cwd path)).verbatim &&
      (prefixOf true (partPath (absolutePath true cwd path)) == prefixOf true (absolutePath true cwd path) &&
        !isDrive (lastName true (absolutePath true cwd path)))))

section

variable {cwd : Option Text} {path : Text}

theorem absolutePath_part (h : SameFront windows path)
    (hcwd : ∀ dir ∈ cwd, (components windows dir).verbatim = false) :
    absolutePath windows cwd (partPath path) = partPath (absolutePath windows cwd path) := by
  have hroot : hasRoot windows (partPath path) = hasRoot windows path := h.hasRoot
  have habs : isAbsolute windows (partPath path) = isAbsolute windows path := by
    rw [isAbsolute, isAbsolute, hroot, h.pre]
  unfold absolutePath
  rw [habs]
  split
  · rfl
  · cases cwd with
    | none => rfl
    | some dir =>
      show push windows dir (partPath path) = partPath (push windows dir path)
      rw [push, push, habs, h.pre, hroot, hcwd dir rfl]
      split
      · rfl
      · simp only [Bool.false_and, Bool.false_eq_true, if_false]
        split
        · exact (List.append_assoc _ _ _).symm
        · split
          · exact (List.append_assoc dir (mainSeparator windows :: path) _).symm
          · exact (List.append_assoc dir path _).symm

theorem absolutePath_verbatim (h : (components windows path).verbatim = true) :
    absolutePath windows cwd path = path := by
  obtain ⟨x, hx, hkind⟩ := (Option.any_eq_true _ _).mp h
  have hp : prefixOf windows path = some x := hx
  have hroot : hasRoot windows path = true := by
    show ((components windows path).physicalRoot || (prefixOf windows path).any _) = true
    rw [hp, Option.any_some, beq_iff_eq.mp hkind]
    exact Bool.or_true _
  have habs : isAbsolute windows path = true := by
    rw [isAbsolute, hroot, hp, Option.isSome_some, Bool.or_true, Bool.and_self]
  unfold absolutePath
  rw [if_pos habs]

/-- The loop comes to one directory for a path and for its `.part`, and enters
it under their names. -/
theorem lexicalPath_part (h : plain windows cwd path = true) :
    ∃ dir name, Tidy windows dir ∧ Bare windows name ∧ lexicalPath windows cwd path = enter windows dir name ∧
      lexicalPath windows cwd (partPath path) = stem windows dir ++ partPath name := by
  obtain ⟨hsame, hcwd, hv, hpre, hdrive⟩ : prefixOf windows (partPath path) = prefixOf windows path ∧
      (∀ dir ∈ cwd, (components windows dir).verbatim = false) ∧
      (components windows (absolutePath windows cwd path)).verbatim = false ∧
      prefixOf windows (partPath (absolutePath windows cwd path)) = prefixOf windows (absolutePath windows cwd path) ∧
      (windows = true → isDrive (lastName windows (absolutePath windows cwd path)) = false) := by
    cases windows with
    | false => exact ⟨rfl, fun _ _ => rfl, rfl, rfl, nofun⟩
    | true =>
      simp only [plain, Bool.not_true, Bool.false_or, Bool.and_eq_true, beq_iff_eq, Bool.not_eq_true'] at h
      obtain ⟨⟨hsame, hcwd⟩, hv, hpre, hdrive⟩ := h
      refine ⟨hsame, fun dir hdir => ?_, hv, hpre, fun _ => hdrive⟩
      rw [Option.mem_def.mp hdir] at hcwd
      simpa using hcwd
  have hvpath : (components windows path).verbatim = false := by
    refine eq_false_of_ne_true fun hverb => ?_
    rw [absolutePath_verbatim hverb, hverb] at hv
    cases hv
  have hfront := SameFront.mk' hv hpre
  have habs := absolutePath_part (SameFront.mk' hvpath hsame) hcwd
  have hbare := bare_lastName hdrive
  obtain ⟨mid, tail, hc, hc', hread, hmid⟩ := toList_part hv hfront
  have hdir := tidy_foldl (tidy_head hv) hmid
  refine ⟨_, _, hdir, hbare, ?_, ?_⟩
  · rw [lexicalPath, hc, List.foldl_append, List.foldl_append, hread.foldl hbare hdir.plain]
  · rw [lexicalPath, habs, hc', List.foldl_append, List.foldl_append]
    exact push_bare hdir.plain (bare_partPath hbare)

end

/-! ## One case of letters -/

/-- Names are entered in one form as they are in another. -/
theorem enter_congr {b b' name name' : Text} (hb : Tidy windows b) (hb' : Tidy windows b')
    (hs : (stem windows b).map (foldChar windows) = (stem windows b').map (foldChar windows))
    (hn : name.map (foldChar windows) = name'.map (foldChar windows)) :
    (enter windows b name).map (foldChar windows) = (enter windows b' name').map (foldChar windows) := by
  have hdir := hb.eq_of_stem hb' hs
  have hc := Components.components_congr hb.plain hb'.plain hdir
  have hsame : ∀ {u : Text}, (∀ d ∈ u, d.isAlpha = false ∧ d ≠ '/' ∧ d ≠ '\\') → (name = u ↔ name' = u) := by
    intro u hu
    rw [← @map_foldChar_eq_iff windows name u hu, hn, map_foldChar_eq_iff hu]
  have hends : (components windows b).endsNormal = (components windows b').endsNormal := by
    rw [← Components.fold_endsNormal hb.plain, hc, Components.fold_endsNormal hb'.plain]
  have hpop : (pop windows b).map (foldChar windows) = (pop windows b').map (foldChar windows) := by
    have hp := congrArg Components.parent hc
    rwa [Components.fold_parent hb.plain, Components.fold_parent hb'.plain] at hp
  have h₀ := hsame (u := []) (List.all_iff_forall_prop.mp rfl)
  have h₁ := hsame (u := ['.']) (List.all_iff_forall_prop.mp rfl)
  have h₂ := hsame (u := ['.', '.']) (List.all_iff_forall_prop.mp rfl)
  simp only [enter, h₀, h₁, h₂, hends]
  split
  · exact hdir
  · split
    · split
      · exact hpop
      · exact hdir
    · rw [List.map_append, List.map_append, hs, hn]

/-- Two plain paths with one `.part` are one path. -/
theorem localName_eq_of_part_eq {cwd : Option Text} {path path' : Text}
    (h : plain windows cwd path = true) (h' : plain windows cwd path' = true)
    (he : localName windows cwd (partPath path) = localName windows cwd (partPath path')) :
    localName windows cwd path = localName windows cwd path' := by
  obtain ⟨dir, name, hdir, hname, hl, hp⟩ := lexicalPath_part h
  obtain ⟨dir', name', hdir', hname', hl', hp'⟩ := lexicalPath_part h'
  rw [localName, localName, hp, hp'] at he
  obtain ⟨hstem, hpart⟩ := stem_append_inj (bare_partPath hname) (bare_partPath hname') he
  rw [partPath, partPath, List.map_append, List.map_append] at hpart
  rw [localName, localName, hl, hl']
  exact enter_congr hdir hdir' hstem (List.append_cancel_right hpart)

-- a last name that starts like a drive
example : plain true none "C:\\a\\x:.".toList = false ∧
    localName true none "C:\\a\\x:.".toList ≠ localName true none "x:".toList ∧
    localName true none (partPath "C:\\a\\x:.".toList) = localName true none (partPath "x:.".toList) := by
  decide

end

end KW.Transfer
