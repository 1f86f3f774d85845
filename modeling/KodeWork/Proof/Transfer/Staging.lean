import KodeWork.Impl.Transfer.Io

/-!
# Writing the `.part` file

What `upload` and `download` do before the last rename: they change no name but
the destination's `.part` (`OnlyPart`), and when they get to the rename, the
`.part` holds exactly the bytes of the source (`stageUpload_spec`,
`stageDownload_spec`).

The steps that only look at the files are queries: their lemmas say what the
value returned tells about the files. A resume offset other than 0 means that
the `.part` is a prefix of the source (`resumeOffset_query`); the copy loop
keeps it one (`copyLoop_spec`).
-/

namespace KW.Transfer

variable {ε : Type}

/-- What the queries do not change: the files, and the environment's answers. -/
def World.view (w : World) : (Side → Files) × (Nat → Choice) := (w.files, w.env)

theorem World.view_files {w w' : World} (h : w'.view = w.view) : w'.files = w.files :=
  congrArg Prod.fst h

/-! ## Single operations -/

theorem choose_query :
    Query World.view (choose : Prog ε World Choice) fun x c => ∃ n, c = x.2 n := by
  refine .bind (P := fun x w => w.view = x) (.get fun _ => rfl) fun w => ?_
  refine .bind (P := fun _ _ => True) (.modify (fun _ => rfl) fun _ => trivial) fun _ => ?_
  refine .pure fun x _ hx => ?_
  exact ⟨w.tick, by rw [← hx]; rfl⟩

theorem localOp_query : Query World.view localOp fun _ _ => True :=
  .bind choose_query fun _ => .bind (P := fun _ _ => True) (.failIf fun _ _ => trivial) fun _ =>
    .pure fun _ _ _ => trivial

theorem backendOp_query : Query World.view backendOp fun _ _ => True :=
  .bind choose_query fun _ => .bind (P := fun _ _ => True) (.failIf fun _ _ => trivial) fun _ =>
    .pure fun _ _ _ => trivial

theorem loadFlag_query : Query World.view (loadFlag : Prog ε World Bool) fun _ _ => True :=
  .bind choose_query fun _ => .pure fun _ _ => trivial

theorem waitWhilePaused_query :
    Query World.view (waitWhilePaused : Prog ε World PUnit) fun _ _ => True :=
  .bind choose_query fun _ => .pure fun _ _ => trivial

theorem emit_query (event : TransferEvent) :
    Query World.view (emit event : Prog ε World PUnit) fun _ _ => True :=
  .bind choose_query fun _ => .modify (fun w => by simp only [World.view]; split <;> rfl)
    fun _ _ => trivial

theorem storeTransferred_query (n : Nat) :
    Query World.view (storeTransferred n : Prog ε World PUnit) fun _ _ => True :=
  .modify (fun _ => rfl) fun _ => trivial

theorem emitProgress_query (id : TransferId) (transferred total : Nat) :
    Query World.view (emitProgress id transferred total : Prog ε World PUnit) fun _ _ => True :=
  .bind choose_query fun _ =>
    .ite (fun _ => (emit_query _).weaken fun _ _ _ _ => trivial) fun _ => .pure fun _ _ => trivial

/-- What opening a file for reading tells. -/
def Opened (side : Side) (path : Text) (x : (Side → Files) × (Nat → Choice)) (r : Reader) : Prop :=
  x.1 side path = some r.node ∧ r.rest = r.node.bytes

theorem fileOpen_query (path : Text) : Query World.view (fileOpen path) (Opened .desktop path) := by
  refine .bind localOp_query fun _ => .bind (P := fun x w => w.view = x) (.get fun _ => rfl) fun w => ?_
  split
  · rename_i node hn
    refine .pure fun x hx _ => ?_
    exact ⟨hx ▸ hn, rfl⟩
  · exact .throw _

theorem localRead_query (r : Reader) (cap : Nat) :
    Query World.view (localRead r cap) fun _ _ => r.node.isDir = false :=
  .bind localOp_query fun _ => .bind (P := fun _ _ => r.node.isDir = false) (.failIf fun h _ => h)
    fun _ => .pure fun _ h _ => h

theorem handleMetadata_query (r : Reader) :
    Query World.view (handleMetadata r) fun _ a => a = .ofNode r.node :=
  .bind localOp_query fun _ => .pure fun _ _ => rfl

/-- What the metadata of a path tells. -/
theorem pathMetadata_query (path : Text) : Query World.view (pathMetadata path)
    fun x a => ∃ node, x.1 .desktop path = some node ∧ a = .ofNode node := by
  refine .bind localOp_query fun _ => .bind (P := fun x w => w.view = x) (.get fun _ => rfl) fun w => ?_
  split
  · rename_i node hn
    refine .pure fun x hx _ => ?_
    exact ⟨node, hx ▸ hn, rfl⟩
  · exact .throw _

theorem localSeek_query (r : Reader) (offset : Nat) :
    Query World.view (localSeek r offset) fun _ a => a = r.seek offset :=
  .bind localOp_query fun _ => .pure fun _ _ => rfl

theorem resolvePath_query (p : Platform) (path : Text) :
    Query World.view (resolvePath p path) fun _ a => a = resolved p.home path :=
  .ite (fun _ => .bind backendOp_query fun _ => .pure fun _ _ => rfl) fun _ => .pure fun _ => rfl

theorem backendStat_query (p : Platform) (path : Text) : Query World.view (backendStat p path)
    fun x a => a = (x.1 .remote (resolved p.home path)).map .ofNode := by
  refine (resolvePath_query p path).bind fun path' => ?_
  refine .bind backendOp_query fun _ => .bind (P := fun x w => w.view = x) (.get fun _ => rfl) fun w => ?_
  refine .pure fun x hx _ hp => ?_
  rw [← hx, hp]
  rfl

theorem backendOpenRead_query (p : Platform) (path : Text) :
    Query World.view (backendOpenRead p path) (Opened .remote (resolved p.home path)) := by
  refine (resolvePath_query p path).bind fun path' => ?_
  refine .bind backendOp_query fun _ => .bind (P := fun x w => w.view = x) (.get fun _ => rfl) fun w => ?_
  split
  · rename_i node hn
    refine .pure fun x hx _ hp => ?_
    exact ⟨hp ▸ hx ▸ hn, rfl⟩
  · exact .throw _

theorem backendRead_query (r : Reader) (cap : Nat) :
    Query World.view (backendRead r cap) fun _ _ => r.node.isDir = false :=
  .bind backendOp_query fun _ => .bind (P := fun _ _ => r.node.isDir = false) (.failIf fun h _ => h)
    fun _ => .pure fun _ h _ => h

theorem backendWriterSeek_query (writer : Writer) (offset : Nat) :
    Query World.view (backendWriterSeek writer offset) fun _ a => a = { writer with pos := offset } :=
  .bind backendOp_query fun _ => .pure fun _ _ => rfl

theorem backendReaderSeek_query (r : Reader) (offset : Nat) :
    Query World.view (backendReaderSeek r offset) fun _ a => a = r.seek offset :=
  .bind backendOp_query fun _ => .pure fun _ _ => rfl

theorem backendFlush_query : Query World.view backendFlush fun _ _ => True :=
  .bind backendOp_query fun _ => .pure fun _ _ => trivial

/-! ## The prefix check -/

/-- The loop returns `true` only if the next `left` bytes of both readers are
the same, and then neither is a directory. -/
theorem prefixLoop_query {readLocal readRemote : (r : Reader) → Nat → Prog SftpError World (Chunk r)}
    (hl : ∀ r n, Query World.view (readLocal r n) fun _ _ => r.node.isDir = false)
    (hr : ∀ r n, Query World.view (readRemote r n) fun _ _ => r.node.isDir = false)
    (rounds : Nat) (a b : Reader) (left : Nat) :
    Query World.view (prefixLoop readLocal readRemote rounds a b left) fun _ same =>
      same = true → a.rest.take left = b.rest.take left ∧
        (0 < left → a.node.isDir = false ∧ b.node.isDir = false) := by
  induction rounds generalizing a b left with
  | zero =>
    refine .pure fun _ h => ?_
    have hleft : left = 0 := by simpa using h
    subst hleft
    exact ⟨rfl, fun h => absurd h (Nat.lt_irrefl 0)⟩
  | succ rounds ih =>
    refine .ite (fun hleft => ?_) fun hleft => ?_
    · subst hleft
      exact .pure fun _ _ => ⟨rfl, fun h => absurd h (Nat.lt_irrefl 0)⟩
    · refine (hl a _).bind fun x => (hr b _).bind fun y => ?_
      refine .ite (fun _ => .pure fun _ _ _ h => by cases h) fun hxy => ?_
      refine .ite (fun _ => .pure fun _ _ _ h => by cases h) fun hne => ?_
      refine (ih _ _ _).weaken fun _ same hrec hb ha hsame => ?_
      obtain ⟨heq, -⟩ := hrec hsame
      obtain ⟨u, hu⟩ := x.2
      obtain ⟨v, hv⟩ := y.2
      have hxy' : x.val = y.val := Decidable.not_not.mp hxy
      refine ⟨?_, fun _ => ⟨ha, hb⟩⟩
      simp only [Reader.advance, ← hu, ← hv, List.drop_left] at heq
      rw [← hu, ← hv, List.take_append, List.take_append, heq, hxy']

/-- A positive prefix check: both are files, with the same first bytes. -/
def SamePrefix (a b : Option Node) (length : Nat) : Prop :=
  ∃ x y mx my, a = some (.file x mx) ∧ b = some (.file y my) ∧ x.take length = y.take length

theorem samePrefix_of {a b : Reader} {sa sb : Side} {pa pb : Text}
    {x : (Side → Files) × (Nat → Choice)} (ha : Opened sa pa x a) (hb : Opened sb pb x b) {n : Nat}
    (h : a.rest.take n = b.rest.take n ∧ (0 < n → a.node.isDir = false ∧ b.node.isDir = false))
    (hn : 0 < n) : SamePrefix (x.1 sa pa) (x.1 sb pb) n := by
  obtain ⟨hda, hdb⟩ := h.2 hn
  cases hna : a.node with
  | dir => simp [hna, Node.isDir] at hda
  | file bytes modified =>
    cases hnb : b.node with
    | dir => simp [hnb, Node.isDir] at hdb
    | file bytes' modified' =>
      refine ⟨bytes, bytes', modified, modified', hna ▸ ha.1, hnb ▸ hb.1, ?_⟩
      have := h.1
      rwa [ha.2, hb.2, hna, hnb] at this

theorem uploadPrefixMatches_query (p : Platform) (localPath remotePart : Text) (length : Nat)
    (hn : 0 < length) : Query World.view (uploadPrefixMatches p localPath remotePart length)
      fun x same => same = true →
        SamePrefix (x.1 .desktop localPath) (x.1 .remote (resolved p.home remotePart)) length := by
  refine (fileOpen_query localPath).mapErr.bind fun a => ?_
  refine (backendOpenRead_query p remotePart).bind fun b => ?_
  refine (prefixLoop_query (fun r n => (localRead_query r n).mapErr) backendRead_query _ a b _).bind
    fun same => ?_
  refine .bind backendFlush_query fun _ => .pure fun x _ hs hb ha hsame => ?_
  exact samePrefix_of ha hb (hs hsame) hn

theorem downloadPrefixMatches_query (p : Platform) (localPart remotePath : Text) (length : Nat)
    (hn : 0 < length) : Query World.view (downloadPrefixMatches p localPart remotePath length)
      fun x same => same = true →
        SamePrefix (x.1 .remote (resolved p.home remotePath)) (x.1 .desktop localPart) length := by
  refine (fileOpen_query localPart).mapErr.bind fun a => ?_
  refine (backendOpenRead_query p remotePath).bind fun b => ?_
  refine (prefixLoop_query (fun r n => (localRead_query r n).mapErr) backendRead_query _ a b _).bind
    fun same => ?_
  refine .bind backendFlush_query fun _ => .pure fun x _ hs hb ha hsame => ?_
  obtain ⟨heq, hd⟩ := hs hsame
  exact samePrefix_of hb ha ⟨heq.symm, fun h => (hd h).symm⟩ hn

/-- What the size of a `.part` tells: 0 if there is none. -/
def PartSize (node : Option Node) (n : Nat) : Prop := n = 0 ∨ ∃ x, node = some x ∧ n = x.len

theorem existingPartSize_query (p : Platform) (part : Text) :
    Query World.view (existingPartSize p part)
      fun x n => PartSize (x.1 .remote (resolved p.home part)) n := by
  refine (backendStat_query p part).bind fun stat => .pure fun x hs => ?_
  cases hn : x.1 .remote (resolved p.home part) with
  | none =>
    rw [hs, hn]
    exact .inl rfl
  | some node =>
    rw [hs, hn]
    exact .inr ⟨node, rfl, rfl⟩

theorem localPartSize_query (part : Text) :
    Query World.view (localPartSize part) fun x n => PartSize (x.1 .desktop part) n := by
  refine .bind (P := fun x r => ∀ a : LocalFileIdentity, r = .ok a →
    ∃ node, x.1 .desktop part = some node ∧ a = .ofNode node) ?_ fun r => ?_
  · refine .observe ((pathMetadata_query part).weaken fun x a ha b hb => ?_) fun _ _ _ h => by cases h
    cases hb
    exact ha
  · split
    · rename_i a
      refine .pure fun x hx => ?_
      obtain ⟨node, hn, rfl⟩ := hx a rfl
      exact .inr ⟨node, hn, rfl⟩
    · exact .pure fun _ _ => .inl rfl
    · exact .throw _

/-- An offset other than 0 means that the `.part` is that long a prefix of the
source. -/
def ResumesAt (source part : Option Node) (offset : Nat) : Prop :=
  0 < offset → ∃ bytes modified modified', source = some (.file bytes modified) ∧
    part = some (.file (bytes.take offset) modified')

theorem resumeOffset_query {resume : Bool} {total : Nat} {partSize : Prog SftpError World Nat}
    {prefixMatches : Nat → Prog SftpError World Bool} (source part : (Side → Files) → Option Node)
    (hs : Query World.view partSize fun x n => PartSize (part x.1) n)
    (hm : ∀ n, 0 < n → Query World.view (prefixMatches n) fun x same => same = true →
      SamePrefix (source x.1) (part x.1) n) :
    Query World.view (resumeOffset resume total partSize prefixMatches)
      fun x offset => offset ≤ total ∧ ResumesAt (source x.1) (part x.1) offset := by
  have zero : ∀ x : (Side → Files) × (Nat → Choice),
      0 ≤ total ∧ ResumesAt (source x.1) (part x.1) 0 :=
    fun _ => ⟨Nat.zero_le _, fun h => absurd h (Nat.lt_irrefl 0)⟩
  refine .ite (fun _ => hs.bind fun existing => ?_) fun _ => .pure zero
  refine .ite (fun _ => .pure fun x _ => zero x) fun hle => ?_
  refine .ite (fun hpos => (hm existing hpos).bind fun same => ?_) fun hpos => ?_
  · refine .pure fun x hsame hsize => ?_
    cases same with
    | false => exact zero x
    | true =>
      obtain ⟨bytes, y, m, m', hsrc, hpart, heq⟩ := hsame rfl
      refine ⟨by simpa using hle, fun _ => ⟨bytes, m, m', hsrc, ?_⟩⟩
      -- the `.part` has no byte beyond the ones compared
      obtain rfl | ⟨node, hnode, hlen⟩ := hsize
      · exact absurd hpos (Nat.lt_irrefl 0)
      · rw [hpart] at hnode
        obtain rfl := Option.some.inj hnode
        have hy : y.take existing = y := List.take_of_length_le (by simp [hlen, Node.len])
        simp only [ite_true]
        rw [hpart, heq, hy]
  · obtain rfl : existing = 0 := by omega
    exact .pure fun x _ => zero x

/-! ## Writing -/

/-- Nothing but one name of one side may have changed. -/
structure OnlyPart (side : Side) (part : Text) (w w' : World) : Prop where
  files : ∀ sd q, ¬ (sd = side ∧ q = part) → w'.files sd q = w.files sd q
  env : w'.env = w.env

/-- The name is a file with these bytes. -/
def HasFile (w : World) (side : Side) (path : Text) (bytes : Bytes) : Prop :=
  ∃ modified, w.files side path = some (.file bytes modified)

namespace OnlyPart

variable {side : Side} {part : Text} {w w' w'' : World}

theorem refl (w : World) : OnlyPart side part w w := ⟨fun _ _ _ => rfl, rfl⟩

theorem trans (h : OnlyPart side part w w') (h' : OnlyPart side part w' w'') :
    OnlyPart side part w w'' :=
  ⟨fun sd q hq => (h'.files sd q hq).trans (h.files sd q hq), h'.env.trans h.env⟩

/-- A query at the end changes nothing more. -/
theorem query (h : OnlyPart side part w w') (hv : w''.view = w'.view) : OnlyPart side part w w'' :=
  h.trans ⟨fun sd q _ => by rw [World.view_files hv], congrArg Prod.snd hv⟩

theorem update (w : World) (node : Option Node) : OnlyPart side part w
    (w.setFiles side (Function.update (w.files side) part node)) := by
  refine ⟨fun sd q hq => ?_, rfl⟩
  by_cases hs : sd = side
  · subst hs
    have hne : q ≠ part := fun e => hq ⟨rfl, e⟩
    simp only [World.setFiles, Function.update_self]
    exact Function.update_of_ne hne _ _
  · simp only [World.setFiles]
    rw [Function.update_of_ne hs]

end OnlyPart

theorem setFiles_update (w : World) (side : Side) (path : Text) (node : Option Node) :
    (w.setFiles side (Function.update (w.files side) path node)).files side path = node := by
  simp [World.setFiles]

theorem HasFile.of_view {w w' : World} {side : Side} {path : Text} {bytes : Bytes}
    (h : HasFile w side path bytes) (hv : w'.view = w.view) : HasFile w' side path bytes := by
  obtain ⟨m, hm⟩ := h
  exact ⟨m, by rw [World.view_files hv, hm]⟩

/-- Writing at the end of a file appends. -/
theorem writeAt_length (bytes buf : Bytes) : writeAt bytes bytes.length buf = bytes ++ buf := by
  have h : bytes.drop (bytes.length + buf.length) = [] := List.drop_of_length_le (by omega)
  simp [writeAt, h]

theorem write_onlyPart (w : World) (writer : Writer) (buf : Bytes) (stamp : Nat) :
    OnlyPart writer.side writer.path w (w.write writer buf stamp) := by
  unfold World.write
  split
  · exact .update w _
  · exact .refl w

/-- Writing at the end of a file: all of `buf` is appended, or the call fails. -/
theorem writeAll_spec {error : Choice → ε} {w : World} {writer : Writer} {bytes : Bytes}
    (buf : Bytes) (h : HasFile w writer.side writer.path bytes) (hpos : writer.pos = bytes.length) :
    wp (writeAll error writer buf)
      (fun writer' w' => OnlyPart writer.side writer.path w w' ∧
        writer' = { writer with pos := writer.pos + buf.length } ∧
        HasFile w' writer.side writer.path (bytes ++ buf))
      (fun _ w' => OnlyPart writer.side writer.path w w') w := by
  refine Query.wp_bind choose_query (fun c t ht _ => ?_) fun _ t ht => (OnlyPart.refl w).query ht
  have hw : OnlyPart writer.side writer.path w t := (OnlyPart.refl w).query ht
  have hf : HasFile t writer.side writer.path bytes := h.of_view ht
  rw [wp_ite]
  refine ⟨fun _ => ?_, fun _ => ?_⟩
  · simp only [wp_bind, wp_modify, wp_throw]
    exact hw.trans (write_onlyPart t writer _ _)
  · simp only [wp_bind, wp_modify, wp_pure, true_and]
    refine ⟨hw.trans (write_onlyPart t writer _ _), ?_⟩
    obtain ⟨m, hm⟩ := hf
    refine ⟨some c.stamp, ?_⟩
    simp only [World.write, hm, setFiles_update, hpos, writeAt_length]

/-- Opening for writing: emptied unless the transfer resumes. -/
theorem openNode_resumes {source part : Option Node} {offset stamp : Nat} {bytes : Bytes} {node : Node}
    (hr : ResumesAt source part offset)
    (hs : ∀ b m, source = some (.file b m) → b = bytes)
    (h : openNode part (offset == 0) stamp = some node) :
    ∃ m, node = .file (bytes.take offset) m := by
  rcases Nat.eq_zero_or_pos offset with rfl | hpos
  · cases part with
    | none =>
      obtain rfl := Option.some.inj h
      exact ⟨_, rfl⟩
    | some x =>
      cases x with
      | dir => simp [openNode] at h
      | file b m =>
        obtain rfl := Option.some.inj h
        exact ⟨_, rfl⟩
  · obtain ⟨b, m, m', hb, rfl⟩ := hr hpos
    have hne : (offset == 0) = false := by simp; omega
    simp only [openNode, hne, Bool.false_eq_true, ite_false, Option.some.injEq] at h
    exact ⟨m', by rw [← h, hs b m hb]⟩

/-- What opening the `.part` for writing leaves. -/
structure OpenedPart (side : Side) (part : Text) (truncate : Bool) (w : World) (writer : Writer)
    (w' : World) : Prop where
  frame : OnlyPart side part w w'
  writer : writer = ⟨side, part, 0⟩
  node : ∃ stamp, openNode (w.files side part) truncate stamp = w'.files side part ∧
    (w'.files side part).isSome

theorem openedPart_update {w t : World} {side : Side} {part : Text} {truncate : Bool} {stamp : Nat}
    {node : Node} (ht : t.view = w.view)
    (h : openNode (t.files side part) truncate stamp = some node) :
    OpenedPart side part truncate w ⟨side, part, 0⟩
      (t.setFiles side (Function.update (t.files side) part (some node))) where
  frame := ((OnlyPart.refl w).query ht).trans (.update t _)
  writer := rfl
  node := ⟨stamp, by rw [setFiles_update, ← World.view_files ht, h], by rw [setFiles_update]; rfl⟩

theorem backendOpenWrite_spec (p : Platform) (path : Text) (truncate : Bool) (w : World) :
    wp (backendOpenWrite p path truncate)
      (fun writer w' => OpenedPart .remote (resolved p.home path) truncate w writer w')
      (fun _ w' => OnlyPart .remote (resolved p.home path) w w') w := by
  refine (resolvePath_query p path).wp_bind (fun path' t ht hp => ?_)
    fun _ t ht => (OnlyPart.refl w).query ht
  subst hp
  refine Query.wp_bind backendOp_query (fun c u hu _ => ?_)
    fun _ u hu => (OnlyPart.refl w).query (hu.trans ht)
  rw [wp_bind, wp_get]
  split
  · rename_i node hn
    simp only [wp_bind, wp_modify, wp_pure]
    exact openedPart_update (hu.trans ht) hn
  · rw [wp_throw]
    exact (OnlyPart.refl w).query (hu.trans ht)

theorem localOpenWrite_spec (path : Text) (truncate : Bool) (w : World) :
    wp (localOpenWrite path truncate)
      (fun writer w' => OpenedPart .desktop path truncate w writer w')
      (fun _ w' => OnlyPart .desktop path w w') w := by
  refine Query.wp_bind localOp_query (fun c u hu _ => ?_) fun _ u hu => (OnlyPart.refl w).query hu
  rw [wp_bind, wp_get]
  split
  · rename_i node hn
    simp only [wp_bind, wp_modify, wp_pure]
    exact openedPart_update hu hn
  · rw [wp_throw]
    exact (OnlyPart.refl w).query hu

/-! ## The copy loop -/

section

variable {p : Platform} {id : TransferId} {total : Nat} {side : Side} {part : Text}
  {read : (r : Reader) → Nat → Prog SftpError World (Chunk r)}
  {write : Writer → Bytes → Prog SftpError World Writer}

/-- The invariant of the loop: the `.part` is what was read so far, and the
reader has the rest of the source left. -/
structure CopyInv (side : Side) (part : Text) (source : Bytes) (r : Reader) (writer : Writer)
    (transferred : Nat) (w : World) : Prop where
  file : HasFile w side part (source.take transferred)
  le : transferred ≤ source.length
  rest : r.rest = source.drop transferred
  writer : writer = ⟨side, part, transferred⟩

/-- One more chunk was read and appended. -/
theorem CopyInv.advance {source chunk : Bytes} {r : Reader} {writer : Writer} {n : Nat} {w w' : World}
    (hi : CopyInv side part source r writer n w) (hc : chunk <+: r.rest)
    (hf : HasFile w' side part (source.take n ++ chunk)) :
    CopyInv side part source (r.advance chunk.length)
      { writer with pos := writer.pos + chunk.length } (n + chunk.length) w' := by
  obtain ⟨u, hu⟩ := hc
  have hrest : source.drop n = chunk ++ u := by rw [← hi.rest, hu]
  have hlen : n + chunk.length ≤ source.length := by
    have := congrArg List.length hrest
    simp only [List.length_drop, List.length_append] at this
    have := hi.le
    omega
  have htake : source.take (n + chunk.length) = source.take n ++ chunk := by
    rw [List.take_add, hrest, List.take_left]
  refine ⟨htake ▸ hf, hlen, ?_, ?_⟩
  · show r.rest.drop chunk.length = _
    rw [← List.drop_drop, hi.rest]
  · rw [hi.writer]

theorem copyLoop_spec
    (hread : ∀ r n, Query World.view (read r n) fun _ _ => r.node.isDir = false)
    (hwrite : ∀ (writer : Writer) (buf bytes : Bytes) (w : World),
      HasFile w writer.side writer.path bytes → writer.pos = bytes.length →
      wp (write writer buf)
        (fun writer' w' => OnlyPart writer.side writer.path w w' ∧
          writer' = { writer with pos := writer.pos + buf.length } ∧
          HasFile w' writer.side writer.path (bytes ++ buf))
        (fun _ w' => OnlyPart writer.side writer.path w w') w)
    {source : Bytes} (rounds : Nat) {r : Reader} {writer : Writer} {transferred : Nat} {w : World}
    (hi : CopyInv side part source r writer transferred w) :
    wp (copyLoop p id total read write rounds r writer transferred)
      (fun n w' => OnlyPart side part w w' ∧ HasFile w' side part (source.take n) ∧
        (0 < rounds → r.node.isDir = false))
      (fun _ w' => OnlyPart side part w w') w := by
  induction rounds generalizing r writer transferred w with
  | zero => exact ⟨.refl w, hi.file, fun h => absurd h (Nat.lt_irrefl 0)⟩
  | succ rounds ih =>
    have err : ∀ {t : World}, t.view = w.view → OnlyPart side part w t := (OnlyPart.refl w).query
    refine Query.wp_bind waitWhilePaused_query (fun _ t₁ h₁ _ => ?_) fun _ _ h => err h
    refine Query.wp_bind loadFlag_query (fun cancelled t₂ h₂ _ => ?_) fun _ _ h => err (h.trans h₁)
    have h₂ := h₂.trans h₁
    rw [wp_bind, wp_failIf]
    refine ⟨fun _ => err h₂, fun _ => ?_⟩
    refine Query.wp_bind loadFlag_query (fun pumpAlive t₃ h₃ _ => ?_) fun _ _ h => err (h.trans h₂)
    have h₃ := h₃.trans h₂
    rw [wp_bind, wp_failIf]
    refine ⟨fun _ => err h₃, fun _ => ?_⟩
    refine (hread r p.chunkSize).wp_bind (fun chunk t₄ h₄ hdir => ?_) fun _ _ h => err (h.trans h₃)
    have h₄ := h₄.trans h₃
    rw [wp_ite]
    refine ⟨fun _ => ?_, fun _ => ?_⟩
    · exact ⟨err h₄, hi.file.of_view h₄, fun _ => hdir⟩
    · have hw : writer.side = side ∧ writer.path = part := by rw [hi.writer]; exact ⟨rfl, rfl⟩
      have hpos : writer.pos = (source.take transferred).length := by
        rw [hi.writer, List.length_take, Nat.min_eq_left hi.le]
      have hfile : HasFile t₄ writer.side writer.path (source.take transferred) := by
        rw [hw.1, hw.2]
        exact hi.file.of_view h₄
      rw [wp_bind]
      refine wp_mono (hwrite writer chunk.val _ t₄ hfile hpos) (fun writer' t₅ h₅ => ?_) fun _ t h => ?_
      · obtain ⟨hframe, rfl, hf⟩ := h₅
        rw [hw.1, hw.2] at hframe hf
        have hw₅ : OnlyPart side part w t₅ := (err h₄).trans hframe
        refine (storeTransferred_query _).wp_bind (fun _ t₆ h₆ _ => ?_) fun _ _ h => hw₅.query h
        refine (emitProgress_query _ _ _).wp_bind (fun _ t₇ h₇ _ => ?_)
          fun _ _ h => hw₅.query (h.trans h₆)
        have h₇ := h₇.trans h₆
        have hinv := hi.advance chunk.2 (hf.of_view h₇)
        refine wp_mono (ih hinv) (fun n t ht => ?_) fun _ t ht => (hw₅.query h₇).trans ht
        exact ⟨(hw₅.query h₇).trans ht.1, ht.2.1, fun _ => hdir⟩
      · rw [hw.1, hw.2] at h
        exact (err h₄).trans h

end

/-- The number of rounds does not matter once it is above the number of bytes
left: each round but the last reads a byte. -/
theorem copyLoop_rounds (p : Platform) (id : TransferId) (total : Nat)
    (read : (r : Reader) → Nat → Prog SftpError World (Chunk r))
    (write : Writer → Bytes → Prog SftpError World Writer) (n m : Nat) (r : Reader) (writer : Writer)
    (transferred : Nat) (hn : r.rest.length < n) (hm : r.rest.length < m) :
    copyLoop p id total read write n r writer transferred =
      copyLoop p id total read write m r writer transferred := by
  induction n generalizing m r writer transferred with
  | zero => exact absurd hn (Nat.not_lt_zero _)
  | succ n ih =>
    obtain ⟨m, rfl⟩ : ∃ k, m = k + 1 := ⟨m - 1, by omega⟩
    simp only [copyLoop]
    refine bind_congr fun _ => bind_congr fun _ => bind_congr fun _ => bind_congr fun _ =>
      bind_congr fun _ => bind_congr fun chunk => ?_
    split
    · rfl
    · rename_i hne
      have hpos : 0 < chunk.val.length := List.length_pos_iff.mpr hne
      have hle : chunk.val.length ≤ r.rest.length := chunk.2.length_le
      have hadv : (r.advance chunk.val.length).rest.length = r.rest.length - chunk.val.length :=
        List.length_drop
      refine bind_congr fun writer' => bind_congr fun _ => bind_congr fun _ => ?_
      exact ih m _ writer' _ (by omega) (by omega)

/-! ## The stages -/

/-- The `.part` has the bytes of the source, and nothing else has changed. -/
structure Staged (sourceSide : Side) (source : Text) (side : Side) (part : Text) (w w' : World) :
    Prop where
  frame : OnlyPart side part w w'
  bytes : ∃ bytes, HasFile w sourceSide source bytes ∧ HasFile w' side part bytes

theorem seekBoth_query {offset : Nat} {a : Prog SftpError World Writer} {b : Prog SftpError World Reader}
    {writer : Writer} {reader : Reader} (hw : writer.pos = 0) (hr : reader.rest = reader.node.bytes)
    (ha : Query World.view a fun _ x => x = { writer with pos := offset })
    (hb : Query World.view b fun _ x => x = reader.seek offset) :
    Query World.view (seekBoth offset a b writer reader) fun _ x =>
      x.1 = { writer with pos := offset } ∧ x.2 = reader.seek offset := by
  refine .ite (fun _ => ha.bind fun x => hb.bind fun y => ?_) fun h => ?_
  · exact .pure fun _ hy hx => ⟨hx, hy⟩
  · obtain rfl : offset = 0 := by omega
    refine .pure fun _ => ⟨?_, ?_⟩
    · rw [← hw]
    · simp only [Reader.seek, List.drop_zero, ← hr]

/-- The state in which the copy loop starts. -/
theorem copyInv_start {side sourceSide : Side} {part source : Text} {offset : Nat} {w t v : World}
    {writer : Writer} {reader : Reader} (ht : t.view = w.view)
    (hsrc : Opened sourceSide source w.view reader) (hle : offset ≤ reader.node.len)
    (hres : ResumesAt (w.files sourceSide source) (w.files side part) offset) {u : World}
    (hopen : OpenedPart side part (offset == 0) t writer u) (hv : v.view = u.view) :
    CopyInv side part reader.node.bytes (reader.seek offset) { writer with pos := offset } offset v := by
  obtain ⟨stamp, hnode, hsome⟩ := hopen.node
  obtain ⟨node, hn⟩ := Option.isSome_iff_exists.mp hsome
  have hsource : w.files sourceSide source = some reader.node := hsrc.1
  rw [World.view_files ht, hn] at hnode
  have hs : ∀ b m, w.files sourceSide source = some (.file b m) → b = reader.node.bytes := by
    intro b m hb
    rw [hsource] at hb
    rw [Option.some.inj hb]
    rfl
  obtain ⟨m, rfl⟩ := openNode_resumes hres hs hnode
  refine ⟨⟨m, by rw [World.view_files hv, hn]⟩, ?_, rfl, by rw [hopen.writer]⟩
  rcases Nat.eq_zero_or_pos offset with rfl | hpos
  · exact Nat.zero_le _
  · obtain ⟨b, mb, _, hb, -⟩ := hres hpos
    rw [hsource] at hb
    rw [Option.some.inj hb] at hle ⊢
    exact hle

/-- The end of both stages: all of the source was copied. -/
theorem staged_of_copy {sourceSide side : Side} {source part : Text} {w v : World} {reader : Reader}
    (hsrc : Opened sourceSide source w.view reader) (hframe : OnlyPart side part w v) {n : Nat}
    (hf : HasFile v side part (reader.node.bytes.take n)) (hdir : reader.node.isDir = false)
    (hn : n = reader.node.len) : Staged sourceSide source side part w v := by
  cases hnode : reader.node with
  | dir => simp [hnode, Node.isDir] at hdir
  | file bytes m =>
    have hsource : w.files sourceSide source = some reader.node := hsrc.1
    refine ⟨hframe, bytes, ⟨m, by rw [hsource, hnode]⟩, ?_⟩
    rw [hn, hnode] at hf
    simpa [Node.bytes, Node.len] using hf

theorem stageUpload_spec (p : Platform) (id : TransferId) (request : TransferRequest) (w : World) :
    wp (stageUpload p id request)
      (fun _ w' => Staged .desktop request.localPath .remote
        (resolved p.home (partPath request.remotePath)) w w')
      (fun _ w' => OnlyPart .remote (resolved p.home (partPath request.remotePath)) w w') w := by
  have err : ∀ {t : World}, t.view = w.view →
      OnlyPart .remote (resolved p.home (partPath request.remotePath)) w t := (OnlyPart.refl w).query
  refine (fileOpen_query _).mapErr.wp_bind (fun source t₁ h₁ hsrc => ?_) fun _ _ h => err h
  refine (handleMetadata_query source).mapErr.wp_bind (fun handleIdentity t₂ h₂ hid => ?_)
    fun _ _ h => err (h.trans h₁)
  have h₂ := h₂.trans h₁
  refine (pathMetadata_query _).mapErr.wp_bind (fun identity t₃ h₃ _ => ?_)
    fun _ _ h => err (h.trans h₂)
  have h₃ := h₃.trans h₂
  refine (resumeOffset_query (fun files => files .desktop request.localPath)
    (fun files => files .remote (resolved p.home (partPath request.remotePath)))
    (existingPartSize_query p _) fun n hn => uploadPrefixMatches_query p _ _ n hn).wp_bind
    (fun offset t₄ h₄ hoff => ?_) fun _ _ h => err (h.trans h₃)
  have h₄ := h₄.trans h₃
  rw [h₃] at hoff
  obtain ⟨hle, hres⟩ := hoff
  subst hid
  rw [wp_bind]
  refine wp_mono (backendOpenWrite_spec p _ _ t₄) (fun writer t₅ hopen => ?_)
    fun _ _ h => (err h₄).trans h
  have hw₅ := (err h₄).trans hopen.frame
  refine (seekBoth_query (by rw [hopen.writer]) hsrc.2 (backendWriterSeek_query _ _)
    (localSeek_query _ _).mapErr).wp_bind (fun handles t₆ h₆ hh => ?_) fun _ _ h => hw₅.query h
  refine (storeTransferred_query _).wp_bind (fun _ t₇ h₇ _ => ?_) fun _ _ h => hw₅.query (h.trans h₆)
  have h₇ := h₇.trans h₆
  have hstart := copyInv_start h₄ hsrc hle hres hopen h₇
  rw [wp_bind, hh.1, hh.2]
  refine wp_mono (copyLoop_spec (fun r n => (localRead_query r n).mapErr)
    (fun writer buf bytes w h hp => (wp_mapErr _ _).mpr (writeAll_spec buf h hp)) _ hstart)
    (fun transferred t₈ h₈ => ?_) fun _ _ h => (hw₅.query h₇).trans h
  obtain ⟨hframe, hf, hdir⟩ := h₈
  have hw₈ := (hw₅.query h₇).trans hframe
  refine Query.wp_bind backendFlush_query (fun _ t₉ h₉ _ => ?_) fun _ _ h => hw₈.query h
  refine Query.wp_bind backendFlush_query (fun _ t₁₀ h₁₀ _ => ?_) fun _ _ h => hw₈.query (h.trans h₉)
  have h₁₀ := h₁₀.trans h₉
  refine (handleMetadata_query source).mapErr.wp_bind (fun finalHandle t₁₁ h₁₁ _ => ?_)
    fun _ _ h => hw₈.query (h.trans h₁₀)
  have h₁₁ := h₁₁.trans h₁₀
  refine (pathMetadata_query _).mapErr.wp_bind (fun final t₁₂ h₁₂ _ => ?_)
    fun _ _ h => hw₈.query (h.trans h₁₁)
  have h₁₂ := h₁₂.trans h₁₁
  rw [wp_failIf]
  refine ⟨fun _ => hw₈.query h₁₂, fun hcheck => ?_⟩
  have htotal : transferred = source.node.len := by
    simp only [Bool.or_eq_false_iff, bne_eq_false_iff_eq] at hcheck
    exact hcheck.1.1
  exact staged_of_copy hsrc (hw₈.query h₁₂) (hf.of_view h₁₂) (hdir (Nat.succ_pos _)) htotal

theorem stageDownload_spec (p : Platform) (id : TransferId) (request : TransferRequest) (w : World) :
    wp (stageDownload p id request)
      (fun _ w' => Staged .remote (resolved p.home request.remotePath) .desktop
        (partPath request.localPath) w w')
      (fun _ w' => OnlyPart .desktop (partPath request.localPath) w w') w := by
  have err : ∀ {t : World}, t.view = w.view → OnlyPart .desktop (partPath request.localPath) w t :=
    (OnlyPart.refl w).query
  refine (backendStat_query p _).wp_bind (fun found t₁ h₁ hfound => ?_) fun _ _ h => err h
  cases found with
  | none => exact err h₁
  | some stat =>
    rw [wp_bind, wp_failIf]
    refine ⟨fun _ => err h₁, fun _ => ?_⟩
    refine (resumeOffset_query (fun files => files .remote (resolved p.home request.remotePath))
      (fun files => files .desktop (partPath request.localPath))
      (localPartSize_query _) fun n hn => downloadPrefixMatches_query p _ _ n hn).wp_bind
      (fun offset t₂ h₂ hoff => ?_) fun _ _ h => err (h.trans h₁)
    have h₂ := h₂.trans h₁
    rw [h₁] at hoff
    obtain ⟨hle, hres⟩ := hoff
    refine (backendOpenRead_query p _).wp_bind (fun reader t₃ h₃ hsrc => ?_)
      fun _ _ h => err (h.trans h₂)
    have h₃ := h₃.trans h₂
    rw [h₂] at hsrc
    -- the size the server told is the length of what was opened
    have hsize : stat.size = reader.node.len := by
      have hnode : w.view.1 .remote (resolved p.home request.remotePath) = some reader.node := hsrc.1
      rw [hnode] at hfound
      rw [Option.some.inj hfound]
      rfl
    rw [wp_bind, wp_mapErr]
    refine wp_mono (localOpenWrite_spec _ _ t₃) (fun writer t₄ hopen => ?_)
      fun _ _ h => (err h₃).trans h
    have hw₄ := (err h₃).trans hopen.frame
    have hseek : Query World.view
        (do let _ ← localOp; pure { writer with pos := offset } : Prog IoError World Writer)
        fun _ x => x = { writer with pos := offset } := .bind localOp_query fun _ => .pure fun _ _ => rfl
    refine (seekBoth_query (by rw [hopen.writer]) hsrc.2 hseek.mapErr
      (backendReaderSeek_query _ _)).wp_bind (fun handles t₅ h₅ hh => ?_) fun _ _ h => hw₄.query h
    refine (storeTransferred_query _).wp_bind (fun _ t₆ h₆ _ => ?_)
      fun _ _ h => hw₄.query (h.trans h₅)
    have h₆ := h₆.trans h₅
    have hstart := copyInv_start h₃ hsrc (hsize ▸ hle) hres hopen h₆
    rw [wp_bind, hh.1, hh.2]
    refine wp_mono (copyLoop_spec backendRead_query
      (fun writer buf bytes w h hp => (wp_mapErr _ _).mpr (writeAll_spec buf h hp)) _ hstart)
      (fun transferred t₇ h₇ => ?_) fun _ _ h => (hw₄.query h₆).trans h
    obtain ⟨hframe, hf, hdir⟩ := h₇
    have hw₇ := (hw₄.query h₆).trans hframe
    have hflush : Query World.view (do let _ ← localOp; pure ⟨⟩ : Prog IoError World PUnit)
        fun _ _ => True := .bind localOp_query fun _ => .pure fun _ _ => trivial
    refine hflush.mapErr.wp_bind (fun _ t₈ h₈ _ => ?_) fun _ _ h => hw₇.query h
    refine hflush.mapErr.wp_bind (fun _ t₉ h₉ _ => ?_) fun _ _ h => hw₇.query (h.trans h₈)
    have h₉ := h₉.trans h₈
    refine Query.wp_bind backendFlush_query (fun _ t₁₀ h₁₀ _ => ?_) fun _ _ h => hw₇.query (h.trans h₉)
    have h₁₀ := h₁₀.trans h₉
    refine (backendStat_query p _).wp_bind (fun final t₁₁ h₁₁ _ => ?_)
      fun _ _ h => hw₇.query (h.trans h₁₀)
    have h₁₁ := h₁₁.trans h₁₀
    rw [wp_failIf]
    refine ⟨fun _ => hw₇.query h₁₁, fun hcheck => ?_⟩
    have htotal : transferred = reader.node.len := by
      simp only [Bool.or_eq_false_iff, bne_eq_false_iff_eq] at hcheck
      rw [hcheck.1, hsize]
    exact staged_of_copy hsrc (hw₇.query h₁₁) (hf.of_view h₁₁) (hdir (Nat.succ_pos _)) htotal

end KW.Transfer
