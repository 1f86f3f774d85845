import KodeWork.Proof.Transfer.LocalPath
import KodeWork.Proof.Transfer.Publish
import KodeWork.Proof.Transfer.RemotePath

/-!
# What leased transfers write

A transfer writes its destination and the destination's `.part`. The key of its
lease is made of the destination alone, so two transfers that hold leases have
different destinations; but the `.part` of one may be the destination of the
other (`part_leased_as_destination`).

`leased_paths_disjoint_iff` says that nothing else goes wrong: what the two
write is apart if and only if neither destination is the `.part` of the other.
For the odd local paths of Windows (`plain`), that two of them have different
`.part` names is a condition, too.
-/

namespace KW.Transfer

/-- Where a path leads, by the normal form of its text. -/
inductive Location
  | remote (path : Text)
  | desktop (path : Text)
deriving DecidableEq, Repr

def locate (p : Platform) (cwd : Option Text) (side : Side) (path : Text) : Location :=
  match side with
  | .remote => .remote (normalizeRemotePath path)
  | .desktop => .desktop (localName p.windows cwd path)

/-- The destination and its `.part`, under the names the backend uses. -/
def written (p : Platform) (cwd : Option Text) (request : TransferRequest) : List Location :=
  [locate p cwd request.destinationSide (request.destination p),
    locate p cwd request.destinationSide (request.part p)]

/-- The request was accepted, and the transfer `id` holds its lease. -/
structure Leased (p : Platform) (cwd : Option Text) (scope : Text) (leases : Text → Option TransferId)
    (request : TransferRequest) (id : TransferId) : Prop where
  valid : validateRequest request = .ok ()
  held : ∃ w key w', (leaseKey p cwd scope request).exec w = (.ok key, w') ∧ leases key = some id

/-- The local path `q` leads to the `.part` of `r`. -/
def StagesLocal (windows : Bool) (cwd : Option Text) (r q : Text) : Prop :=
  localName windows cwd q = localName windows cwd (partPath r)

instance (windows : Bool) (cwd : Option Text) (r q : Text) : Decidable (StagesLocal windows cwd r q) :=
  inferInstanceAs (Decidable (_ = _))

/-- Neither destination is the `.part` of the other; and of two local paths of
which one is not plain, the `.part` names differ. -/
def NamesApart (p : Platform) (cwd : Option Text) (r q : TransferRequest) : Prop :=
  match r.direction, q.direction with
  | .upload, .upload =>
    ¬ StagesRemote p.home r.remotePath q.remotePath ∧ ¬ StagesRemote p.home q.remotePath r.remotePath
  | .download, .download =>
    ¬ StagesLocal p.windows cwd r.localPath q.localPath ∧
      ¬ StagesLocal p.windows cwd q.localPath r.localPath ∧
      ((plain p.windows cwd r.localPath && plain p.windows cwd q.localPath) = false →
        localName p.windows cwd (partPath r.localPath) ≠ localName p.windows cwd (partPath q.localPath))
  | _, _ => True

/-! ## Keys -/

/-- The text of a key. -/
def keyOf (scope : Text) : Location → Text
  | .remote path => "remote:".toList ++ (scope ++ ':' :: path)
  | .desktop path => "local:".toList ++ path.map forwardSlash

/-- The key is made of the destination. -/
theorem leaseKey_spec (p : Platform) (cwd : Option Text) (scope : Text) (request : TransferRequest)
    (w : World) : wp (leaseKey p cwd scope request) (fun key _ =>
      key = keyOf scope (locate p cwd request.destinationSide (request.destination p)))
      (fun _ _ => True) w := by
  unfold leaseKey TransferRequest.destinationSide TransferRequest.destination
  cases request.direction with
  | upload =>
    refine (resolvePath_query p request.remotePath).wp_bind (fun identity t _ hi => ?_) fun _ _ _ => trivial
    rw [hi]
    rfl
  | download => exact congrArg _ (normalizeLocalPath_eq p.windows cwd request.localPath)

section

variable {p : Platform} {cwd : Option Text} {scope : Text} {leases : Text → Option TransferId}
  {r q : TransferRequest} {id id' : TransferId}

/-- Two transfers that hold leases have different destinations. -/
theorem Leased.destination_ne (hr : Leased p cwd scope leases r id)
    (hq : Leased p cwd scope leases q id') (hne : id ≠ id') :
    locate p cwd r.destinationSide (r.destination p) ≠ locate p cwd q.destinationSide (q.destination p) := by
  intro e
  obtain ⟨w, key, _, hk, hl⟩ := hr.held
  obtain ⟨w', key', _, hk', hl'⟩ := hq.held
  have hkey := wp_ok (leaseKey_spec p cwd scope r w) hk
  have hkey' := wp_ok (leaseKey_spec p cwd scope q w') hk'
  rw [hkey, e, ← hkey', hl'] at hl
  exact hne (Option.some.inj hl).symm

/-- Two pairs without a common member. -/
theorem disjoint_pairs {α : Type} {a b c d : α} (h : a ≠ c) :
    [a, b].Disjoint [c, d] ↔ c ≠ b ∧ a ≠ d ∧ b ≠ d := by
  simp only [List.disjoint_cons_left, List.disjoint_nil_left, and_true, List.mem_cons, List.not_mem_nil,
    or_false, not_or]
  constructor
  · rintro ⟨⟨-, had⟩, hbc, hbd⟩
    exact ⟨fun e => hbc e.symm, had, hbd⟩
  · rintro ⟨hcb, had, hbd⟩
    exact ⟨⟨h, had⟩, fun e => hcb e.symm, hbd⟩

/-- Whatever two transfers hold leases at the same time: the paths they write
are disjoint if and only if neither destination is the `.part` of the other and,
where a local path is not plain, the `.part` names differ. -/
theorem leased_paths_disjoint_iff (hr : Leased p cwd scope leases r id)
    (hq : Leased p cwd scope leases q id') (hne : id ≠ id') :
    (written p cwd r).Disjoint (written p cwd q) ↔ NamesApart p cwd r q := by
  have hdest := hr.destination_ne hq hne
  have hra := addressed_of_valid hr.valid
  have hqa := addressed_of_valid hq.valid
  have hh := p.home_absolute
  rw [written, written, disjoint_pairs hdest]
  revert hdest
  simp only [NamesApart, TransferRequest.destinationSide, TransferRequest.destination,
    TransferRequest.part]
  cases r.direction <;> cases q.direction <;> intro hdest <;> simp only [locate, ne_eq, Location.remote.injEq,
    Location.desktop.injEq, reduceCtorEq, not_false_eq_true, and_self] at hdest ⊢
  · rw [stagesRemote_iff hh hra hqa, stagesRemote_iff hh hqa hra]
    have hpart := mt (destination_eq_of_staging_eq hh hra hqa) hdest
    exact ⟨fun h => ⟨h.1, h.2.1⟩, fun h => ⟨h.1, h.2, hpart⟩⟩
  · refine and_congr Iff.rfl (and_congr Iff.rfl ?_)
    constructor
    · exact fun h _ => h
    · intro h he
      by_cases hplain : (plain p.windows cwd r.localPath && plain p.windows cwd q.localPath) = true
      · rw [Bool.and_eq_true] at hplain
        exact hdest (localName_eq_of_part_eq hplain.1 hplain.2 he)
      · exact h (eq_false_of_ne_true hplain) he

end

/-! ## Two transfers -/

/-- An upload of `/a` to this path. -/
def uploadTo (path : String) : TransferRequest := ⟨['/', 'a'], path.toList, .upload, false⟩

def sampleLeases (key key' : String) (k : Text) : Option TransferId :=
  if k = key.toList then some ⟨0⟩ else if k = key'.toList then some ⟨1⟩ else none

/-- An upload holds the lease of its key. -/
theorem leased_upload {path key key' : String} {id : TransferId}
    (hv : validateRequest (uploadTo path) = .ok ())
    (hk : ((leaseKey (samplePlatform false) none ['s'] (uploadTo path)).exec resumedWorld).1.toOption.bind
      (sampleLeases key key') = some id) :
    Leased (samplePlatform false) none ['s'] (sampleLeases key key') (uploadTo path) id := by
  rcases hm : (leaseKey (samplePlatform false) none ['s'] (uploadTo path)).exec resumedWorld with
    ⟨_ | k, w⟩
  · rw [hm] at hk
    cases hk
  · rw [hm] at hk
    exact ⟨hv, resumedWorld, k, w, hm, hk⟩

/-- A download of `/a` to this path. -/
def downloadTo (path : String) : TransferRequest := ⟨path.toList, ['/', 'a'], .download, false⟩

/-- A download on Windows holds the lease of its key. -/
theorem leased_download {path key key' : String} {id : TransferId}
    (hv : validateRequest (downloadTo path) = .ok ())
    (hk : sampleLeases key key' ("local:".toList ++ normalizeLocalPath true none path.toList) = some id) :
    Leased (samplePlatform true) none ['s'] (sampleLeases key key') (downloadTo path) id :=
  ⟨hv, resumedWorld, _, resumedWorld, rfl, hk⟩

/-- Uploads to two files of the home directory `/`, one of them through `~`, and downloads
to two files of one directory, under Windows paths that are spelled differently. -/
theorem leased_transfers_disjoint :
    (Leased (samplePlatform false) none ['s'] (sampleLeases "remote:s:/b" "remote:s:/c") (uploadTo "~/b")
      ⟨0⟩ ∧
    (written (samplePlatform false) none (uploadTo "~/b")).Disjoint
      (written (samplePlatform false) none (uploadTo "/c"))) ∧
    (Leased (samplePlatform true) none ['s'] (sampleLeases "local:c:/a/b" "local:c:/a/c")
      (downloadTo "C:\\A\\b") ⟨0⟩ ∧
    (written (samplePlatform true) none (downloadTo "C:\\A\\b")).Disjoint
      (written (samplePlatform true) none (downloadTo "c:/a/x/../c"))) := by
  have hr : Leased (samplePlatform false) none ['s'] (sampleLeases "remote:s:/b" "remote:s:/c")
      (uploadTo "~/b") ⟨0⟩ := leased_upload rfl (by decide)
  have hq : Leased (samplePlatform false) none ['s'] (sampleLeases "remote:s:/b" "remote:s:/c")
      (uploadTo "/c") ⟨1⟩ := leased_upload rfl (by decide)
  have hr' : Leased (samplePlatform true) none ['s'] (sampleLeases "local:c:/a/b" "local:c:/a/c")
      (downloadTo "C:\\A\\b") ⟨0⟩ := leased_download rfl (by decide)
  have hq' : Leased (samplePlatform true) none ['s'] (sampleLeases "local:c:/a/b" "local:c:/a/c")
      (downloadTo "c:/a/x/../c") ⟨1⟩ := leased_download rfl (by decide)
  refine ⟨⟨hr, (leased_paths_disjoint_iff hr hq (by decide)).mpr (by constructor <;> decide)⟩, hr', ?_⟩
  refine (leased_paths_disjoint_iff hr' hq' (by decide)).mpr ⟨by decide, by decide, fun hplain => ?_⟩
  exact absurd hplain (by decide)

/-- Uploads to `/b` and to `/b.part`. -/
theorem part_leased_as_destination :
    Leased (samplePlatform false) none ['s'] (sampleLeases "remote:s:/b" "remote:s:/b.part")
      (uploadTo "/b") ⟨0⟩ ∧
    Leased (samplePlatform false) none ['s'] (sampleLeases "remote:s:/b" "remote:s:/b.part")
      (uploadTo "/b.part") ⟨1⟩ ∧
    ¬ (written (samplePlatform false) none (uploadTo "/b")).Disjoint
      (written (samplePlatform false) none (uploadTo "/b.part")) := by
  refine ⟨leased_upload rfl (by decide), leased_upload rfl (by decide), fun h => ?_⟩
  have hb : (Location.remote "/b.part".toList) ∈ written (samplePlatform false) none (uploadTo "/b") := by
    decide
  have hp : (Location.remote "/b.part".toList) ∈
      written (samplePlatform false) none (uploadTo "/b.part") := by
    decide
  exact h hb hp

end KW.Transfer
