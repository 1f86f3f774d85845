import KodeWork.Proof.Transfer.Staging

/-!
# Publishing a transfer

The last step of an attempt renames the complete `.part` to the destination. If
an attempt, or `run_transfer` after any number of failed attempts, returns `Ok`,
the destination holds exactly the bytes of the source and the `.part` is gone
(`transfer_ok_exact`). If `run_transfer` returns an error, the destination and
every other name but the `.part` is as it was (`failed_transfer_untouched`); on
Windows the rename that moves the old destination back must not fail as well.

Both follow from one lemma for an attempt, `attempt_spec`, by induction over the
retries (`retryLoop_spec`).
-/

namespace KW.Transfer

/-! ## Names -/

theorem partPath_ne (path : Text) : partPath path ≠ path := by
  intro h
  have := congrArg List.length h
  simp [partPath] at this

/-- A home that ends in `.part` has no trailing slash to cut. -/
theorem trimEndMatches_part_ne {home trimmed : Text} (ht : trimmed = Text.trimEndMatches home '/')
    (h : trimmed ++ ['/', '.', 'p', 'a', 'r', 't'] = home) : False := by
  subst h
  have e : trimmed ++ ['/', '.', 'p', 'a', 'r', 't'] =
      (trimmed ++ ['/', '.', 'p', 'a', 'r']) ++ ['t'] := by simp
  rw [Text.trimEndMatches, e, List.rdropWhile_concat_neg _ _ _ (by decide)] at ht
  have := congrArg List.length ht
  simp at this

/-- A destination and its `.part` are different names for the backend, too. -/
theorem resolved_partPath_ne (p : Platform) (path : Text) :
    resolved p.home (partPath path) ≠ resolved p.home path := by
  have habs := p.home_absolute
  intro h
  match path with
  | [] => simp [resolved, partPath, Text.startsWith] at h
  | [c] =>
    by_cases hc : c = '~'
    · -- `~.part` is not below the home directory
      simp only [resolved, partPath, Text.startsWith, hc] at h
      simp at h
      rw [← h] at habs
      simp at habs
    · simp [resolved, partPath, Text.startsWith, hc] at h
  | c :: d :: rel =>
    by_cases hcd : c = '~' ∧ d = '/'
    · obtain ⟨rfl, rfl⟩ := hcd
      cases rel with
      | nil =>
        simp only [resolved, partPath, Text.startsWith] at h
        simp at h
        exact trimEndMatches_part_ne rfl h
      | cons e rel => simp [resolved, partPath, Text.startsWith] at h
    · have hs : ∀ t : Text, Text.startsWith (c :: d :: t) ['~', '/'] = false := by
        intro t
        simp only [Text.startsWith, List.isPrefixOf, Bool.and_true, Bool.and_eq_false_iff,
          beq_eq_false_iff_ne]
        by_cases hc : c = '~'
        · exact .inr fun e => hcd ⟨hc, e.symm⟩
        · exact .inl fun e => hc e.symm
      have hne : ∀ t : Text, c :: d :: t ≠ ['~'] := by simp
      simp only [resolved, partPath, List.cons_append, hs, hne, if_false, Bool.false_eq_true] at h
      simp at h

/-- What follows the directory in a path is its last component and trailing
separators. -/
theorem splitFileName_eq (path : Text) : ∃ seps : Text,
    path = (splitFileName path).1 ++ (splitFileName path).2 ++ seps ∧
      (∀ c ∈ seps, isSeparator c = true) ∧ ∀ c ∈ (splitFileName path).2, isSeparator c = false := by
  refine ⟨path.rtakeWhile isSeparator, ?_, fun c hc => List.mem_rtakeWhile_imp hc, fun c hc => ?_⟩
  · simp only [splitFileName, List.rdropWhile_append_rtakeWhile]
  · have := List.mem_rtakeWhile_imp hc
    simpa using this

/-- The name the old destination is moved to is neither the destination nor
its `.part`. -/
theorem backupPath_ne (target suffix : Text) (processId stamp : Nat) (hs : suffix.length ≤ 5) :
    backupPath target processId stamp ≠ target ++ suffix := by
  intro h
  obtain ⟨seps, hpath, hseps, hname⟩ := splitFileName_eq target
  replace h := h.trans (congrArg (· ++ suffix) hpath)
  simp only [backupPath] at h
  generalize (splitFileName target).1 = parent at h
  generalize (splitFileName target).2 = name at h hname
  simp only [List.append_assoc, List.append_cancel_left_eq] at h
  cases seps with
  | nil =>
    have := congrArg List.length h
    simp at this
    omega
  | cons sep seps =>
    -- the character after the name is a separator in the one, and not in the other
    have hsep : isSeparator sep = true := hseps sep List.mem_cons_self
    generalize ".kodework-old-".toList ++ (Nat.toDigits 10 processId ++ (['-'] ++
      Nat.toDigits 10 stamp)) = tail at h
    have h1 : ('.' :: name ++ tail)[name.length]? = some sep := by
      show (['.'] ++ (name ++ tail))[name.length]? = some sep
      rw [h]
      simp
    have hlt : name.length < ('.' :: name).length := by simp
    rw [List.getElem?_append_left hlt] at h1
    have hmem := List.mem_of_getElem? h1
    rcases List.mem_cons.mp hmem with rfl | hmem
    · simp [isSeparator] at hsep
    · rw [hname sep hmem] at hsep
      cases hsep

/-! ## Renaming -/

/-- What a rename that worked leaves. -/
structure Renamed (source target : Text) (node : Node) (files files' : Files) : Prop where
  moved : files' target = some node
  gone : files' source = none
  other : ∀ q, q ≠ source → q ≠ target → files' q = files q

theorem renameNode_some {files files' : Files} {source target : Text}
    (h : renameNode files source target = some files') (hne : source ≠ target) :
    ∃ node, files source = some node ∧ Renamed source target node files files' := by
  simp only [renameNode] at h
  split at h
  · cases h
  · cases h
  · rename_i node hn _
    obtain rfl := Option.some.inj h
    refine ⟨node, hn, Function.update_self _ _ _, ?_, fun q hs ht => ?_⟩
    · rw [Function.update_of_ne hne, Function.update_self]
    · rw [Function.update_of_ne ht, Function.update_of_ne hs]

/-- A rename to a free name does not fail by itself. -/
theorem renameNode_free {files : Files} {source target : Text} {node : Node}
    (hs : files source = some node) (ht : files target = none) :
    ∃ files', renameNode files source target = some files' := by
  simp only [renameNode, hs, ht]
  exact ⟨_, rfl⟩

/-- A local rename works and moves the node, or changes nothing; it fails only
by the fault given or if there is something in its way. -/
theorem localRename_spec {fault : Bool} {error : IoError} {source target : Text}
    (hne : source ≠ target) (w : World) :
    wp (localRename fault error source target)
      (fun _ w' => ∃ node files, w.files .desktop source = some node ∧
        Renamed source target node (w.files .desktop) files ∧ w' = w.setFiles .desktop files)
      (fun _ w' => w' = w ∧
        (fault = true ∨ renameNode (w.files .desktop) source target = none)) w := by
  rw [localRename, wp_bind, wp_failIf]
  refine ⟨fun h => ⟨rfl, .inl h⟩, fun _ => ?_⟩
  rw [wp_bind, wp_get]
  split
  · rename_i files hf
    obtain ⟨node, hnode, hr⟩ := renameNode_some hf hne
    exact ⟨node, files, hnode, hr, rfl⟩
  · rename_i hf
    exact ⟨rfl, .inr hf⟩

theorem setFiles_same (w : World) (side : Side) (files : Files) :
    (w.setFiles side files).files side = files := Function.update_self _ _ _

theorem setFiles_other (w : World) {side sd : Side} (files : Files) (h : sd ≠ side) :
    (w.setFiles side files).files sd = w.files sd := Function.update_of_ne h _ _

/-! ## What an attempt leaves -/

/-- The destination holds the bytes of the source, and its `.part` is gone. -/
structure Published (sourceSide : Side) (source : Text) (side : Side) (part destination : Text)
    (w w' : World) : Prop where
  bytes : ∃ bytes, HasFile w sourceSide source bytes ∧ HasFile w' side destination bytes
  gone : w'.files side part = none

/-- On Windows, in each call of `replace_local_file` at most one rename fails:
the one that moves the old destination back works if the one before failed. -/
def Restores (windows : Bool) (env : Nat → Choice) : Prop :=
  windows = true → ∀ n, (env n).moveFault = true → (env n).restoreFault = false

/-- After a failure no name but the `.part` has changed, on the destination's
side: on Windows, also a file that had the name of a moved destination may be
gone. -/
structure Untouched (windows : Bool) (side : Side) (part destination : Text) (w w' : World) :
    Prop where
  other : ∀ sd, sd ≠ side → w'.files sd = w.files sd
  same : Restores windows w.env → ∀ q, q ≠ part →
    (windows = true → ∀ processId stamp, q = backupPath destination processId stamp →
      w.files side q = none) → w'.files side q = w.files side q
  env : w'.env = w.env

theorem OnlyPart.other {side : Side} {part : Text} {w w' : World} (h : OnlyPart side part w w')
    {sd : Side} (hsd : sd ≠ side) : w'.files sd = w.files sd :=
  funext fun q => h.files sd q fun e => hsd e.1

theorem OnlyPart.untouched {windows : Bool} {side : Side} {part destination : Text} {w w' : World}
    (h : OnlyPart side part w w') : Untouched windows side part destination w w' where
  other := fun _ hsd => h.other hsd
  same := fun _ q hq _ => h.files side q fun e => hq e.2
  env := h.env

theorem Untouched.trans {windows : Bool} {side : Side} {part destination : Text} {w w' w'' : World}
    (h : Untouched windows side part destination w w')
    (h' : Untouched windows side part destination w' w'') :
    Untouched windows side part destination w w'' where
  other := fun sd hsd => (h'.other sd hsd).trans (h.other sd hsd)
  same := by
    intro hr q hq hb
    have e := h.same hr q hq hb
    rw [← e]
    refine h'.same (h.env ▸ hr) q hq fun hw processId stamp hp => ?_
    rw [e]
    exact hb hw processId stamp hp
  env := h'.env.trans h.env

theorem upload_spec (p : Platform) (id : TransferId) (request : TransferRequest) (w : World) :
    wp (upload p id request)
      (fun _ w' => Published .desktop request.localPath .remote
        (resolved p.home (partPath request.remotePath)) (resolved p.home request.remotePath) w w')
      (fun _ w' => Untouched false .remote (resolved p.home (partPath request.remotePath))
        (resolved p.home request.remotePath) w w') w := by
  rw [upload, wp_bind]
  refine wp_mono (stageUpload_spec p id request w) (fun _ t₁ hst => ?_) fun _ _ h => h.untouched
  have err : ∀ {t : World}, t.view = t₁.view →
      Untouched false .remote (resolved p.home (partPath request.remotePath))
        (resolved p.home request.remotePath) w t := fun h => (hst.frame.query h).untouched
  rw [wp_mapErr]
  refine (resolvePath_query p _).wp_bind (fun part t₂ h₂ hpart => ?_) fun _ _ h => err h
  refine (resolvePath_query p _).wp_bind (fun destination t₃ h₃ hdest => ?_)
    fun _ _ h => err (h.trans h₂)
  have h₃ := h₃.trans h₂
  subst hpart hdest
  refine Query.wp_bind backendOp_query (fun c t₄ h₄ _ => ?_) fun _ _ h => err (h.trans h₃)
  have h₄ := h₄.trans h₃
  rw [wp_bind, wp_get]
  split
  · rename_i files hf
    obtain ⟨node, hnode, hr⟩ := renameNode_some hf (resolved_partPath_ne p request.remotePath)
    obtain ⟨bytes, hsrc, m, hpart⟩ := hst.bytes
    rw [World.view_files h₄, hpart] at hnode
    obtain rfl := Option.some.inj hnode
    rw [wp_modify]
    refine ⟨⟨bytes, hsrc, m, ?_⟩, ?_⟩
    · rw [setFiles_same, hr.moved]
    · rw [setFiles_same, hr.gone]
  · rw [wp_throw]
    exact err h₄

/-- `replace_local_file` puts a `.part` that exists in the place of the
destination, or leaves all other names as they were. -/
theorem replaceLocalFile_spec (p : Platform) {part destination : Text} {node : Node} {w : World}
    (hnode : w.files .desktop part = some node) (hne : part ≠ destination)
    (hb : ∀ processId stamp, backupPath destination processId stamp ≠ destination ∧
      backupPath destination processId stamp ≠ part) :
    wp (replaceLocalFile p part destination)
      (fun _ w' => w'.files .desktop destination = some node ∧ w'.files .desktop part = none)
      (fun _ w' => Untouched p.windows .desktop part destination w w') w := by
  refine Query.wp_bind choose_query (fun c t₁ h₁ hc => ?_) fun _ t h => ((OnlyPart.refl w).query h).untouched
  have same : ∀ {w' : World}, w' = t₁ → Untouched p.windows .desktop part destination w w' := by
    rintro _ rfl
    exact ((OnlyPart.refl w).query h₁).untouched
  have hf₁ : t₁.files .desktop = w.files .desktop := by rw [World.view_files h₁]
  rw [wp_bind, wp_get, wp_ite]
  refine ⟨fun hwin => ?_, fun _ => ?_⟩
  · obtain ⟨hbd, hbp⟩ := hb p.processId c.stamp
    generalize hbk : backupPath destination p.processId c.stamp = backup at hbd hbp
    rw [wp_bind]
    refine wp_mono (localRename_spec hbd.symm t₁) ?_ fun _ _ h => same h.1
    rintro _ t₂ ⟨old, files₂, hold, hr₂, rfl⟩
    rw [wp_bind, wp_observe]
    -- the `.part` is still there, and nothing is at the destination
    have hpart₂ : files₂ part = some node := by rw [hr₂.other part hne hbp.symm, hf₁, hnode]
    have hdest₂ : files₂ destination = none := hr₂.gone
    refine wp_mono (localRename_spec hne _) ?_ ?_
    · rintro _ t₃ ⟨node', files₃, hnode', hr₃, rfl⟩
      rw [setFiles_same, hpart₂] at hnode'
      obtain rfl := Option.some.inj hnode'
      rw [wp_modify]
      split
      · rw [setFiles_same]
        exact ⟨hr₃.moved, hr₃.gone⟩
      · simp only [setFiles_same]
        rw [Function.update_of_ne hbd.symm, Function.update_of_ne hbp.symm]
        exact ⟨hr₃.moved, hr₃.gone⟩
    · rintro e t₃ ⟨rfl, hfail⟩
      rw [wp_bind, wp_observe]
      have hmove : c.moveFault = true := by
        rcases hfail with h | h
        · exact h
        · obtain ⟨files, hfree⟩ := renameNode_free hpart₂ hdest₂
          rw [setFiles_same, hfree] at h
          cases h
      refine wp_mono (localRename_spec hbd _) ?_ ?_
      · rintro _ t₄ ⟨old', files₄, hold', hr₄, rfl⟩
        rw [setFiles_same, hr₂.moved] at hold'
        obtain rfl := Option.some.inj hold'
        rw [wp_throw]
        -- everything is back where it was
        refine ⟨fun sd hsd => ?_, fun _ q hq hfree => ?_, congrArg Prod.snd h₁⟩
        · rw [setFiles_other _ _ hsd, setFiles_other _ _ hsd, World.view_files h₁]
        · rw [setFiles_same]
          by_cases hqd : q = destination
          · rw [hqd, hr₄.moved, ← hf₁, hold]
          · by_cases hqb : q = backup
            · rw [hqb, hr₄.gone, ← hqb]
              exact (hfree hwin.1 _ _ (hqb.trans hbk.symm)).symm
            · rw [hr₄.other q hqb hqd, setFiles_same, hr₂.other q hqd hqb, hf₁]
      · rintro e' t₄ ⟨rfl, hfail'⟩
        -- the second failure is excluded by `Restores`
        refine ⟨fun sd hsd => ?_, fun hres q hq hfree => ?_, congrArg Prod.snd h₁⟩
        · rw [setFiles_other _ _ hsd, World.view_files h₁]
        · exfalso
          obtain ⟨n, rfl⟩ := hc
          have hrest : (w.env n).restoreFault = false := hres hwin.1 n hmove
          rcases hfail' with h | h
          · exact absurd h (by rw [show (w.view.2 n).restoreFault = false from hrest]; nofun)
          · obtain ⟨files, hfree'⟩ := renameNode_free hr₂.moved hdest₂
            rw [setFiles_same, hfree'] at h
            cases h
  · refine wp_mono (localRename_spec hne t₁) ?_ fun _ _ h => same h.1
    rintro _ t₂ ⟨node', files, hnode', hr, rfl⟩
    rw [hf₁, hnode] at hnode'
    obtain rfl := Option.some.inj hnode'
    rw [setFiles_same]
    exact ⟨hr.moved, hr.gone⟩

theorem download_spec (p : Platform) (id : TransferId) (request : TransferRequest) (w : World) :
    wp (download p id request)
      (fun _ w' => Published .remote (resolved p.home request.remotePath) .desktop
        (partPath request.localPath) request.localPath w w')
      (fun _ w' => Untouched p.windows .desktop (partPath request.localPath) request.localPath w w')
      w := by
  rw [download, wp_bind]
  refine wp_mono (stageDownload_spec p id request w) (fun _ t hst => ?_) fun _ _ h => h.untouched
  obtain ⟨bytes, hsrc, m, hpart⟩ := hst.bytes
  have hb : ∀ processId stamp, backupPath request.localPath processId stamp ≠ request.localPath ∧
      backupPath request.localPath processId stamp ≠ partPath request.localPath := by
    intro processId stamp
    have h₁ := backupPath_ne request.localPath [] processId stamp (by decide)
    rw [List.append_nil] at h₁
    exact ⟨h₁, backupPath_ne request.localPath _ processId stamp (by decide)⟩
  rw [wp_mapErr]
  refine wp_mono (replaceLocalFile_spec p hpart (partPath_ne _) hb) (fun _ t' h => ?_) fun _ t' h => ?_
  · exact ⟨⟨bytes, hsrc, m, h.1⟩, h.2⟩
  · exact hst.frame.untouched.trans h

/-! ## Attempts and retries -/

section

variable {p : Platform} {request : TransferRequest} {w w' t : World}

/-- The old destination is moved aside: a download on Windows. -/
def TransferRequest.movesAside (p : Platform) (request : TransferRequest) : Bool :=
  match request.direction with
  | .upload => false
  | .download => p.windows

/-- `Published` for the names of a request. -/
def PublishedFor (p : Platform) (request : TransferRequest) (w w' : World) : Prop :=
  Published request.sourceSide (request.source p) request.destinationSide (request.part p)
    (request.destination p) w w'

/-- `Untouched` for the names of a request. -/
def UntouchedFor (p : Platform) (request : TransferRequest) (w w' : World) : Prop :=
  Untouched (request.movesAside p) request.destinationSide (request.part p) (request.destination p)
    w w'

theorem sourceSide_ne (request : TransferRequest) : request.sourceSide ≠ request.destinationSide := by
  unfold TransferRequest.sourceSide TransferRequest.destinationSide
  cases request.direction <;> decide

theorem untouchedFor_query (h : t.view = w.view) : UntouchedFor p request w t :=
  ((OnlyPart.refl w).query h).untouched

/-- A failed attempt leaves the source for the next one. -/
theorem PublishedFor.after (h : UntouchedFor p request w t) (hp : PublishedFor p request t w') :
    PublishedFor p request w w' := by
  obtain ⟨⟨bytes, ⟨m, hsrc⟩, hdest⟩, hgone⟩ := hp
  refine ⟨⟨bytes, ⟨m, ?_⟩, hdest⟩, hgone⟩
  rw [← h.other _ (sourceSide_ne request), hsrc]

theorem PublishedFor.query (hp : PublishedFor p request w t) (h : w'.view = t.view) :
    PublishedFor p request w w' := by
  obtain ⟨⟨bytes, hsrc, hdest⟩, hgone⟩ := hp
  exact ⟨⟨bytes, hsrc, hdest.of_view h⟩, by rw [World.view_files h, hgone]⟩

theorem attempt_spec (p : Platform) (id : TransferId) (request : TransferRequest) (w : World) :
    wp (attemptTransfer p id request) (fun _ w' => PublishedFor p request w w')
      (fun _ w' => UntouchedFor p request w w') w := by
  refine Query.wp_bind waitWhilePaused_query (fun _ t₁ h₁ _ => ?_) fun _ _ h => untouchedFor_query h
  refine Query.wp_bind loadFlag_query (fun cancelled t₂ h₂ _ => ?_)
    fun _ _ h => untouchedFor_query (h.trans h₁)
  have h₂ := h₂.trans h₁
  rw [wp_bind, wp_failIf]
  refine ⟨fun _ => untouchedFor_query h₂, fun _ => ?_⟩
  refine (emit_query _).wp_bind (fun _ t₃ h₃ _ => ?_) fun _ _ h => untouchedFor_query (h.trans h₂)
  have h₃ := h₃.trans h₂
  refine Query.wp_bind loadFlag_query (fun pumpAlive t₄ h₄ _ => ?_)
    fun _ _ h => untouchedFor_query (h.trans h₃)
  have h₄ := h₄.trans h₃
  rw [wp_bind, wp_failIf]
  refine ⟨fun _ => untouchedFor_query h₄, fun _ => ?_⟩
  have body : wp (match request.direction with
      | .upload => upload p id request
      | .download => download p id request)
      (fun _ w' => PublishedFor p request t₄ w') (fun _ w' => UntouchedFor p request t₄ w') t₄ := by
    cases hd : request.direction with
    | upload =>
      simp only [PublishedFor, UntouchedFor, TransferRequest.sourceSide, TransferRequest.source,
        TransferRequest.destinationSide, TransferRequest.part, TransferRequest.destination,
        TransferRequest.movesAside, hd]
      exact upload_spec p id request t₄
    | download =>
      simp only [PublishedFor, UntouchedFor, TransferRequest.sourceSide, TransferRequest.source,
        TransferRequest.destinationSide, TransferRequest.part, TransferRequest.destination,
        TransferRequest.movesAside, hd]
      exact download_spec p id request t₄
  exact wp_mono body (fun _ _ h => .after (untouchedFor_query h₄) h)
    fun _ _ h => (untouchedFor_query h₄).trans h

/-- What the outcome of the last attempt says about the files. -/
def Outcome (p : Platform) (request : TransferRequest) (w t : World) : Except SftpError PUnit → Prop
  | .ok _ => PublishedFor p request w t
  | .error _ => UntouchedFor p request w t

/-- Emitting an event does not fail. -/
theorem emit_spec {ε : Type} (event : TransferEvent) (t : World) :
    wp (emit event : Prog ε World PUnit) (fun _ t' => t'.view = t.view) (fun _ _ => False) t := by
  simp only [emit, choose, wp_bind, wp_get, wp_modify, wp_pure]
  split <;> rfl

theorem giveUp_query (id : TransferId) (error : SftpError) :
    Query World.view (giveUp id error) fun _ _ => True :=
  (emit_query _).bind fun _ => (emit_query _).bind fun _ => .throw _

theorem checkFailure_query (id : TransferId) (error : SftpError) :
    Query World.view (checkFailure id error) fun _ _ => True := by
  refine .bind loadFlag_query fun cancelled => .ite (fun _ => ?_) fun _ => .ite (fun _ => ?_) fun _ => ?_
  · exact (emit_query _).bind fun _ => .throw _
  · exact .pure fun _ _ => trivial
  · exact (giveUp_query id error).weaken fun _ _ _ _ => trivial

theorem retryLoop_spec (p : Platform) (id : TransferId) (request : TransferRequest) (w : World)
    (retriesLeft : Nat) (outcome : Except SftpError PUnit) (t : World)
    (h : Outcome p request w t outcome) :
    wp (retryLoop p id request retriesLeft outcome) (fun _ w' => PublishedFor p request w w')
      (fun _ w' => UntouchedFor p request w w') t := by
  have completed : ∀ {n : Nat} {u : PUnit} {t : World}, PublishedFor p request w t →
      wp (retryLoop p id request n (.ok u)) (fun _ w' => PublishedFor p request w w')
        (fun _ w' => UntouchedFor p request w w') t := by
    intro n u t h
    rw [retryLoop]
    exact wp_mono (emit_spec _ t) (fun _ _ ht => h.query ht) fun _ _ hf => hf.elim
  induction retriesLeft generalizing outcome t with
  | zero =>
    cases outcome with
    | ok u => exact completed h
    | error e =>
      rw [retryLoop]
      refine (checkFailure_query id e).wp_bind (fun _ t₁ h₁ _ => ?_)
        fun _ _ hv => h.trans (untouchedFor_query hv)
      -- giving up returns the error
      have hg : wp (giveUp id e) (fun _ _ => False) (fun _ t' => t'.view = t₁.view) t₁ := by
        refine (emit_query _).wp_bind (fun _ t₂ h₂ _ => ?_) fun _ _ hv => hv
        exact (emit_query _).wp_bind (fun _ t₃ h₃ _ => h₃.trans h₂) fun _ _ hv => hv.trans h₂
      exact wp_mono hg (fun _ _ hf => hf.elim)
        fun _ _ hv => h.trans (untouchedFor_query (hv.trans h₁))
  | succ n ih =>
    cases outcome with
    | ok u => exact completed h
    | error e =>
      rw [retryLoop]
      refine (checkFailure_query id e).wp_bind (fun _ t₁ h₁ _ => ?_)
        fun _ _ hv => h.trans (untouchedFor_query hv)
      rw [wp_bind, wp_modify]
      have hu₁ : UntouchedFor p request w { t₁ with retriesLeft := n } :=
        h.trans (untouchedFor_query h₁)
      refine (emit_query _).wp_bind (fun _ t₂ h₂ _ => ?_)
        fun _ _ hv => hu₁.trans (untouchedFor_query hv)
      have hu₂ : UntouchedFor p request w t₂ := hu₁.trans (untouchedFor_query h₂)
      rw [wp_bind, wp_observe]
      refine wp_mono (attempt_spec p id request t₂) (fun u t₃ h₃ => ?_) fun e t₃ h₃ => ?_
      · exact completed (.after hu₂ h₃)
      · exact ih (.error e) t₃ (hu₂.trans h₃)

theorem runTransfer_spec (p : Platform) (id : TransferId) (request : TransferRequest) (w : World) :
    wp (runTransfer p id request) (fun _ w' => PublishedFor p request w w')
      (fun _ w' => UntouchedFor p request w w') w := by
  rw [runTransfer, wp_bind, wp_observe]
  refine wp_mono (attempt_spec p id request w) (fun u t h => ?_) fun e t h => ?_
  · rw [wp_bind, wp_get]
    exact retryLoop_spec p id request w _ (.ok u) t h
  · rw [wp_bind, wp_get]
    exact retryLoop_spec p id request w _ (.error e) t h

end

/-! ## Results -/

/-- If `upload`, `download` or `run_transfer` (after any number of failed
attempts) returns `Ok`, the destination holds exactly the bytes of the source
and its `.part` does not exist any more. -/
theorem transfer_ok_exact (p : Platform) (id : TransferId) (request : TransferRequest) (w w' : World) :
    ((upload p id request).exec w = (.ok ⟨⟩, w') →
      ∃ bytes, HasFile w .desktop request.localPath bytes ∧
        HasFile w' .remote (resolved p.home request.remotePath) bytes ∧
        w'.files .remote (resolved p.home (partPath request.remotePath)) = none) ∧
    ((download p id request).exec w = (.ok ⟨⟩, w') →
      ∃ bytes, HasFile w .remote (resolved p.home request.remotePath) bytes ∧
        HasFile w' .desktop request.localPath bytes ∧
        w'.files .desktop (partPath request.localPath) = none) ∧
    ((runTransfer p id request).exec w = (.ok ⟨⟩, w') →
      ∃ bytes, HasFile w request.sourceSide (request.source p) bytes ∧
        HasFile w' request.destinationSide (request.destination p) bytes ∧
        w'.files request.destinationSide (request.part p) = none) := by
  refine ⟨fun h => ?_, fun h => ?_, fun h => ?_⟩
  · obtain ⟨⟨bytes, hs, hd⟩, hgone⟩ := wp_ok (upload_spec p id request w) h
    exact ⟨bytes, hs, hd, hgone⟩
  · obtain ⟨⟨bytes, hs, hd⟩, hgone⟩ := wp_ok (download_spec p id request w) h
    exact ⟨bytes, hs, hd, hgone⟩
  · obtain ⟨⟨bytes, hs, hd⟩, hgone⟩ := wp_ok (runTransfer_spec p id request w) h
    exact ⟨bytes, hs, hd, hgone⟩

/-- An environment in which these operations fail, and these flags are set. -/
def sampleEnv (flags faults moves : List Nat) (n : Nat) : Choice where
  fault := faults.contains n
  error := .other []
  backendError := .backend []
  amount := 1
  flag := flags.contains n
  stamp := 7
  moveFault := moves.contains n
  restoreFault := false

def samplePlatform (windows : Bool) : Platform := ⟨windows, 1, ['/'], rfl, 4⟩

def sampleFiles (names : List (Side × Text × Node)) (side : Side) (path : Text) : Option Node :=
  (names.find? fun x => x.1 == side && x.2.1 == path).map fun x => x.2.2

/-- An upload of `/a` to `/b`, next to a `.part` with other bytes of the same
length; the first rename fails, and the second attempt resumes. -/
def resumedUpload : TransferRequest := ⟨['/', 'a'], ['/', 'b'], .upload, true⟩

def resumedWorld : World where
  files := sampleFiles [(.desktop, ['/', 'a'], .file [1, 2] none),
    (.remote, partPath ['/', 'b'], .file [9, 2] none)]
  transferred := 0
  retriesLeft := 1
  events := []
  env := sampleEnv [3, 16, 22, 34, 49] [28] []
  tick := 0

theorem resumed_upload_exact :
    ∃ w', (runTransfer (samplePlatform false) ⟨0⟩ resumedUpload).exec resumedWorld = (.ok ⟨⟩, w') ∧
      ∃ bytes, HasFile resumedWorld .desktop ['/', 'a'] bytes ∧ HasFile w' .remote ['/', 'b'] bytes ∧
        w'.files .remote (partPath ['/', 'b']) = none := by
  have hok : ((runTransfer (samplePlatform false) ⟨0⟩ resumedUpload).exec resumedWorld).1.isOk = true := by
    decide +kernel
  obtain ⟨_, w', h⟩ := Prog.exec_of_isOk hok
  exact ⟨w', h, (transfer_ok_exact (samplePlatform false) ⟨0⟩ resumedUpload resumedWorld w').2.2 h⟩

/-- If `run_transfer` returns an error, the destination is as it was before the
transfer, and so is every other name but the `.part`. For a download on Windows
no two renames of one call of `replace_local_file` may fail; there a file that
already has the name the old destination is moved to is not covered. -/
theorem failed_transfer_untouched {p : Platform} {id : TransferId} {request : TransferRequest}
    {w w' : World} {e : SftpError} (h : (runTransfer p id request).exec w = (.error e, w'))
    (hr : p.windows = true → request.direction = .download →
      ∀ n, (w.env n).moveFault = true → (w.env n).restoreFault = false) :
    w'.files request.destinationSide (request.destination p) =
      w.files request.destinationSide (request.destination p) ∧
    (∀ q, w'.files request.sourceSide q = w.files request.sourceSide q) ∧
    (∀ q, q ≠ request.part p →
      (p.windows = true → request.direction = .download → ∀ processId stamp,
        q = backupPath (request.destination p) processId stamp →
        w.files request.destinationSide q = none) →
      w'.files request.destinationSide q = w.files request.destinationSide q) := by
  have hu := wp_error (runTransfer_spec p id request w) h
  have haside : request.movesAside p = true → p.windows = true ∧ request.direction = .download := by
    unfold TransferRequest.movesAside
    cases hd : request.direction with
    | upload => nofun
    | download => exact fun hw => ⟨hw, rfl⟩
  have hrest : Restores (request.movesAside p) w.env := fun ha => hr (haside ha).1 (haside ha).2
  have hne : request.destination p ≠ request.part p := by
    unfold TransferRequest.destination TransferRequest.part
    cases request.direction with
    | upload => exact (resolved_partPath_ne p request.remotePath).symm
    | download => exact (partPath_ne request.localPath).symm
  refine ⟨?_, fun q => ?_, fun q hq hb => ?_⟩
  · refine hu.same hrest _ hne fun _ processId stamp hp => ?_
    have hback := backupPath_ne (request.destination p) [] processId stamp (by decide)
    rw [List.append_nil] at hback
    exact absurd hp.symm hback
  · rw [hu.other _ (sourceSide_ne request)]
  · exact hu.same hrest q hq fun ha => hb (haside ha).1 (haside ha).2

/-- A download of `/b` over an existing `/a`, on Windows; the new file cannot
take its place. -/
def replacingDownload : TransferRequest := ⟨['/', 'a'], ['/', 'b'], .download, false⟩

def replacingWorld : World where
  files := sampleFiles [(.desktop, ['/', 'a'], .file [1, 2] none), (.remote, ['/', 'b'], .file [9] none)]
  transferred := 0
  retriesLeft := 0
  events := []
  env := sampleEnv [3, 9, 15, 21] [] [21]
  tick := 0

theorem refused_replacement_restored :
    ∃ e w', (runTransfer (samplePlatform true) ⟨0⟩ replacingDownload).exec replacingWorld =
        (.error e, w') ∧
      w'.files .desktop ['/', 'a'] = some (.file [1, 2] none) := by
  have hfail : ((runTransfer (samplePlatform true) ⟨0⟩ replacingDownload).exec replacingWorld).1.isOk =
      false := by decide
  obtain ⟨e, w', h⟩ := Prog.exec_of_not_isOk hfail
  have hsame := (failed_transfer_untouched h fun _ _ _ _ => rfl).1
  exact ⟨e, w', h, hsame.trans rfl⟩

end KW.Transfer
