import KodeWork.Impl.Agent

/-!
# What the agent captures

The loop of `capture` skips a read that does not fit and goes on. So what it keeps is a prefix of
the stream only if no read behind a skipped one fits in its place (`NoLaterFit`): for the other
ways to split a stream there is one whose capture is the text of no prefix (`capture_prefix_iff`).
Whether everything was kept, the flag says in any case (`readLoop_truncated`).
-/

namespace KW.Agent

open Utf8

/-! ## Reads -/

/-- The chunks that are read before the stream ends or a read fails. -/
def delivered : List ReadResult → List (List UInt8)
  | .ok (b :: bytes) :: reads => (b :: bytes) :: delivered reads
  | _ => []

/-- The loop on the chunks. -/
def keep (buffer : List UInt8) (truncated : Bool) : List (List UInt8) → List UInt8 × Bool
  | [] => (buffer, truncated)
  | chunk :: chunks =>
    if maxOutput < buffer.length + chunk.length then keep buffer true chunks
    else keep (buffer ++ chunk) truncated chunks

theorem readLoop_eq (buffer : List UInt8) (truncated : Bool) (reads : List ReadResult) :
    readLoop buffer truncated reads = keep buffer truncated (delivered reads) := by
  induction reads using delivered.induct generalizing buffer truncated with
  | case1 b bytes reads ih =>
    rw [readLoop, delivered, keep]
    split
    · exact ih buffer true
    · exact ih _ truncated
  | case2 reads hne =>
    rw [delivered.eq_2 reads hne, keep, readLoop.eq_2 buffer truncated reads hne]

theorem ne_nil_of_mem_delivered {reads : List ReadResult} {chunk : List UInt8} (h : chunk ∈ delivered reads) :
    chunk ≠ [] := by
  induction reads using delivered.induct with
  | case1 b bytes reads ih =>
    rw [delivered] at h
    rcases List.mem_cons.mp h with h | h
    · rw [h]
      exact List.cons_ne_nil b bytes
    · exact ih h
  | case2 reads hne =>
    rw [delivered.eq_2 reads hne] at h
    cases h

/-- Any chunks that are not empty can be read. -/
theorem delivered_ok {chunks : List (List UInt8)} (h : ∀ chunk ∈ chunks, chunk ≠ []) :
    delivered (chunks.map .ok) = chunks := by
  induction chunks with
  | nil => rfl
  | cons chunk chunks ih =>
    obtain ⟨b, bytes, rfl⟩ := List.exists_cons_of_ne_nil (h chunk List.mem_cons_self)
    rw [List.map_cons, delivered, ih fun c hc => h c (List.mem_cons_of_mem _ hc)]

/-! ## The loop -/

/-- Chunks that fit together are kept. -/
theorem keep_of_fits {buffer : List UInt8} (truncated : Bool) {chunks : List (List UInt8)}
    (h : buffer.length + chunks.flatten.length ≤ maxOutput) :
    keep buffer truncated chunks = (buffer ++ chunks.flatten, truncated) := by
  induction chunks generalizing buffer with
  | nil => rw [keep, List.flatten_nil, List.append_nil]
  | cons chunk chunks ih =>
    rw [List.flatten_cons, List.length_append] at h
    rw [keep, if_neg (by omega), ih (by rw [List.length_append]; omega), List.flatten_cons, List.append_assoc]

/-- Where no chunk fits, nothing is kept. -/
theorem keep_of_none {buffer : List UInt8} (truncated : Bool) {chunks : List (List UInt8)}
    (h : ∀ chunk ∈ chunks, maxOutput < buffer.length + chunk.length) :
    (keep buffer truncated chunks).1 = buffer := by
  induction chunks generalizing truncated with
  | nil => rfl
  | cons chunk chunks ih =>
    rw [keep, if_pos (h chunk List.mem_cons_self)]
    exact ih true fun c hc => h c (List.mem_cons_of_mem chunk hc)

/-- What is kept comes from the chunks, and is something if one of them fits. -/
theorem keep_append (buffer : List UInt8) (truncated : Bool) {chunks : List (List UInt8)}
    (hne : ∀ chunk ∈ chunks, chunk ≠ []) :
    ∃ w, (keep buffer truncated chunks).1 = buffer ++ w ∧ (∀ b ∈ w, b ∈ chunks.flatten) ∧
      ((∃ chunk ∈ chunks, buffer.length + chunk.length ≤ maxOutput) → w ≠ []) := by
  induction chunks generalizing buffer truncated with
  | nil => exact ⟨[], (List.append_nil buffer).symm, fun b hb => hb, fun ⟨_, hc, _⟩ => by cases hc⟩
  | cons chunk chunks ih =>
    have htail : ∀ c ∈ chunks, c ≠ [] := fun c hc => hne c (List.mem_cons_of_mem chunk hc)
    rw [keep, List.flatten_cons]
    split
    · rename_i hbig
      obtain ⟨w, hw, hsub, hsome⟩ := ih buffer true htail
      refine ⟨w, hw, fun b hb => List.mem_append_right chunk (hsub b hb), fun ⟨c, hc, hfit⟩ => hsome ⟨c, ?_, hfit⟩⟩
      rcases List.mem_cons.mp hc with hc | hc
      · rw [hc] at hfit
        omega
      · exact hc
    · obtain ⟨w, hw, hsub, -⟩ := ih (buffer ++ chunk) truncated htail
      refine ⟨chunk ++ w, by rw [hw, List.append_assoc], fun b hb => ?_, fun _ => ?_⟩
      · exact List.mem_append.mpr ((List.mem_append.mp hb).imp_right (hsub b))
      · exact List.append_ne_nil_of_left_ne_nil (hne chunk List.mem_cons_self) w

theorem keep_concat (buffer : List UInt8) (truncated : Bool) (chunks more : List (List UInt8)) :
    keep buffer truncated (chunks ++ more) =
      keep (keep buffer truncated chunks).1 (keep buffer truncated chunks).2 more := by
  induction chunks generalizing buffer truncated with
  | nil => rfl
  | cons chunk chunks ih =>
    rw [List.cons_append, keep, keep]
    split
    · exact ih buffer true
    · exact ih _ truncated

/-- Up to the first chunk that does not fit. -/
theorem keep_overflow {pre post : List (List UInt8)} {chunk : List UInt8} (hfits : pre.flatten.length ≤ maxOutput)
    (hbig : maxOutput < pre.flatten.length + chunk.length) :
    keep [] false (pre ++ chunk :: post) = keep pre.flatten true post := by
  rw [keep_concat, keep_of_fits false (by rw [List.length_nil]; omega), List.nil_append, keep, if_pos hbig]

/-! ## The flag -/

/-- The flag is raised with the first byte that is lost. -/
theorem keep_truncated {buffer : List UInt8} {truncated : Bool} {chunks : List (List UInt8)}
    (hne : ∀ chunk ∈ chunks, chunk ≠ []) :
    (keep buffer truncated chunks).1.length ≤ buffer.length + chunks.flatten.length ∧
      ((keep buffer truncated chunks).2 = false ↔ truncated = false ∧
        (keep buffer truncated chunks).1 = buffer ++ chunks.flatten) := by
  induction chunks generalizing buffer truncated with
  | nil => exact ⟨Nat.le_refl _, by simp [keep]⟩
  | cons chunk chunks ih =>
    have htail : ∀ c ∈ chunks, c ≠ [] := fun c hc => hne c (List.mem_cons_of_mem chunk hc)
    have hpos := List.length_pos_iff.mpr (hne chunk List.mem_cons_self)
    rw [keep, List.flatten_cons]
    split
    · obtain ⟨hlen, hflag⟩ := @ih buffer true htail
      refine ⟨by rw [List.length_append]; omega, iff_of_false ?_ ?_⟩
      · rw [hflag]
        exact fun h => Bool.false_ne_true h.1.symm
      · intro h
        rw [h.2, List.length_append, List.length_append] at hlen
        omega
    · obtain ⟨hlen, hflag⟩ := @ih (buffer ++ chunk) truncated htail
      rw [List.length_append] at hlen
      rw [List.append_assoc] at hflag
      exact ⟨by rw [List.length_append]; omega, hflag⟩

theorem readLoop_truncated (reads : List ReadResult) :
    (readLoop [] false reads).2 = false ↔ (readLoop [] false reads).1 = (delivered reads).flatten := by
  rw [readLoop_eq]
  have hflag := (@keep_truncated [] false (delivered reads) fun c => ne_nil_of_mem_delivered).2
  rw [List.nil_append] at hflag
  exact hflag.trans (and_iff_right rfl)

/-! ## Prefixes -/

/-- The text is that of a prefix of the stream within the bound. -/
def CapturesPrefix (reads : List ReadResult) : Prop :=
  ∃ p, p <+: (delivered reads).flatten ∧ p.length ≤ maxOutput ∧ (capture reads).1 = lossy p

def sizes (reads : List ReadResult) : List Nat := (delivered reads).map List.length

def total : List Nat → Nat
  | [] => 0
  | n :: ns => n + total ns

/-- Behind the first read that does not fit, none does. -/
def NoLaterFit (ns : List Nat) : Prop :=
  ∀ pre n post, ns = pre ++ n :: post → total pre ≤ maxOutput → maxOutput < total pre + n →
    ∀ m ∈ post, maxOutput < total pre + m

theorem total_sizes (chunks : List (List UInt8)) : total (chunks.map List.length) = chunks.flatten.length := by
  induction chunks with
  | nil => rfl
  | cons chunk chunks ih => rw [List.map_cons, total, ih, List.flatten_cons, List.length_append]

/-- All chunks fit, or one is the first that does not. -/
theorem exists_overflow {buffer : Nat} (h : buffer ≤ maxOutput) (chunks : List (List UInt8)) :
    buffer + chunks.flatten.length ≤ maxOutput ∨ ∃ pre chunk post, chunks = pre ++ chunk :: post ∧
      buffer + pre.flatten.length ≤ maxOutput ∧ maxOutput < buffer + pre.flatten.length + chunk.length := by
  induction chunks generalizing buffer with
  | nil => exact .inl h
  | cons chunk chunks ih =>
    by_cases hbig : maxOutput < buffer + chunk.length
    · exact .inr ⟨[], chunk, chunks, rfl, h, hbig⟩
    · rw [List.flatten_cons, List.length_append]
      rcases ih (Nat.le_of_not_lt hbig) with hfits | ⟨pre, c, post, rfl, hpre, hc⟩
      · exact .inl (by omega)
      · refine .inr ⟨chunk :: pre, c, post, rfl, ?_, ?_⟩
        · rw [List.flatten_cons, List.length_append]
          omega
        · rw [List.flatten_cons, List.length_append]
          omega

theorem capture_eq (reads : List ReadResult) :
    (capture reads).1 = lossy (keep [] false (delivered reads)).1 := by
  rw [capture, readLoop_eq]

theorem capturesPrefix_of_noLaterFit {reads : List ReadResult} (h : NoLaterFit (sizes reads)) :
    CapturesPrefix reads := by
  rw [CapturesPrefix, capture_eq]
  rcases exists_overflow (Nat.zero_le maxOutput) (delivered reads) with hfits | ⟨pre, chunk, post, hsplit, hpre, hbig⟩
  · rw [Nat.zero_add] at hfits
    refine ⟨(delivered reads).flatten, List.prefix_rfl, hfits, ?_⟩
    rw [keep_of_fits false (by rw [List.length_nil]; omega), List.nil_append]
  · rw [Nat.zero_add] at hpre hbig
    refine ⟨pre.flatten, ?_, hpre, ?_⟩
    · rw [hsplit, List.flatten_append]
      exact List.prefix_append _ _
    · have hlater := h (pre.map List.length) chunk.length (post.map List.length)
        (by rw [sizes, hsplit, List.map_append, List.map_cons]) (by rw [total_sizes]; exact hpre)
        (by rw [total_sizes]; exact hbig)
      rw [hsplit, keep_overflow hpre hbig, keep_of_none true fun c hc => ?_]
      have hc' := hlater c.length (List.mem_map_of_mem hc)
      rwa [total_sizes] at hc'

/-! ## A stream that shows it -/

/-- Chunks of the same sizes, of one byte. -/
def paint (b : UInt8) (ns : List Nat) : List (List UInt8) := ns.map fun n => List.replicate n b

theorem flatten_paint (b : UInt8) (ns : List Nat) : (paint b ns).flatten = List.replicate (total ns) b := by
  induction ns with
  | nil => rfl
  | cons n ns ih =>
    rw [paint, List.map_cons, List.flatten_cons, total, ← List.replicate_append_replicate, ← ih, paint]

theorem sizes_paint (b : UInt8) (ns : List Nat) : (paint b ns).map List.length = ns := by
  rw [paint, List.map_map]
  exact (List.map_congr_left fun n _ => List.length_replicate).trans (List.map_id ns)

/-- The reads before the first one that does not fit, that one and the reads behind it, each with
bytes of their own. -/
def painted (pre : List Nat) (n : Nat) (post : List Nat) : List (List UInt8) :=
  paint 97 pre ++ List.replicate n 98 :: paint 99 post

theorem flatten_painted (pre : List Nat) (n : Nat) (post : List Nat) :
    (painted pre n post).flatten = List.replicate (total pre) 97 ++ (List.replicate n 98 ++
      List.replicate (total post) 99) := by
  rw [painted, List.flatten_append, List.flatten_cons, flatten_paint, flatten_paint]

theorem sizes_painted (pre : List Nat) (n : Nat) (post : List Nat) :
    (painted pre n post).map List.length = pre ++ n :: post := by
  rw [painted, List.map_append, List.map_cons, sizes_paint, sizes_paint, List.length_replicate]

theorem ascii_of_mem_painted {pre post : List Nat} {n : Nat} {b : UInt8} (hb : b ∈ (painted pre n post).flatten) :
    b.toNat < 0x80 := by
  rw [flatten_painted] at hb
  rcases List.mem_append.mp hb with hb | hb
  · rw [List.eq_of_mem_replicate hb]
    decide
  · rcases List.mem_append.mp hb with hb | hb
    · rw [List.eq_of_mem_replicate hb]
      decide
    · rw [List.eq_of_mem_replicate hb]
      decide

theorem delivered_painted {pre post : List Nat} {n : Nat} (hpos : ∀ k ∈ pre ++ n :: post, k ≠ 0) :
    delivered ((painted pre n post).map .ok) = painted pre n post := by
  refine delivered_ok fun chunk hc hnil => ?_
  have hmem := List.mem_map_of_mem (f := List.length) hc
  rw [sizes_painted, hnil] at hmem
  exact hpos _ hmem rfl

/-- A later byte that is kept follows the first ones, where the stream goes on with the skipped. -/
theorem not_capturesPrefix_painted {pre post : List Nat} {n m : Nat} (hpos : ∀ k ∈ pre ++ n :: post, k ≠ 0)
    (hpre : total pre ≤ maxOutput) (hbig : maxOutput < total pre + n) (hm : m ∈ post)
    (hfit : total pre + m ≤ maxOutput) : ¬ CapturesPrefix ((painted pre n post).map .ok) := by
  rintro ⟨p, hp, -, htext⟩
  have hlen : (paint 97 pre).flatten.length = total pre := by rw [flatten_paint, List.length_replicate]
  have hne : ∀ chunk ∈ paint 99 post, chunk ≠ [] := by
    intro chunk hc hnil
    have hmem := List.mem_map_of_mem (f := List.length) hc
    rw [sizes_paint, hnil] at hmem
    exact hpos _ (List.mem_append_right pre (List.mem_cons_of_mem n hmem)) rfl
  obtain ⟨w, hw, hsub, hsome⟩ := keep_append (paint 97 pre).flatten true hne
  rw [capture_eq, delivered_painted hpos, painted,
    keep_overflow (by rw [hlen]; exact hpre) (by rw [hlen, List.length_replicate]; exact hbig), hw] at htext
  rw [delivered_painted hpos] at hp
  have hkept : ∀ b ∈ (paint 97 pre).flatten ++ w, b.toNat < 0x80 := by
    intro b hb
    refine @ascii_of_mem_painted pre post n b ?_
    rw [painted, List.flatten_append, List.flatten_cons]
    exact List.mem_append.mpr ((List.mem_append.mp hb).imp_right fun hb => List.mem_append_right _ (hsub b hb))
  have hread := lossy_inj hkept (fun b hb => ascii_of_mem_painted (hp.subset hb)) htext
  rw [← hread, painted, List.flatten_append, List.flatten_cons, List.prefix_append_right_inj] at hp
  -- the first byte behind the first reads
  obtain ⟨b, w, rfl⟩ := List.exists_cons_of_ne_nil (hsome ⟨List.replicate m 99, List.mem_map_of_mem hm, by
    rw [hlen, List.length_replicate]
    exact hfit⟩)
  have hlater : b = 99 := by
    have hb := hsub b List.mem_cons_self
    rw [flatten_paint] at hb
    exact List.eq_of_mem_replicate hb
  obtain ⟨k, rfl⟩ : ∃ k, n = k + 1 := ⟨n - 1, by omega⟩
  rw [List.replicate_succ, List.cons_append, List.cons_prefix_cons, hlater] at hp
  exact absurd hp.1 (by decide)

/-- For every stream split into reads of these sizes the capture is the text of a prefix, if and
only if no read behind the first that does not fit does. -/
theorem capture_prefix_iff (reads : List ReadResult) :
    ((∀ reads', sizes reads' = sizes reads → CapturesPrefix reads') ↔ NoLaterFit (sizes reads)) ∧
      ((capture reads).2 = false ↔ (readLoop [] false reads).1 = (delivered reads).flatten) := by
  refine ⟨⟨fun h => ?_, fun h reads' hs => capturesPrefix_of_noLaterFit (hs ▸ h)⟩, readLoop_truncated reads⟩
  intro pre n post hsplit hpre hbig m hm
  refine Nat.lt_of_not_le fun hfit => ?_
  have hpos : ∀ k ∈ pre ++ n :: post, k ≠ 0 := by
    intro k hk
    rw [← hsplit, sizes] at hk
    obtain ⟨chunk, hc, rfl⟩ := List.mem_map.mp hk
    exact fun hzero => ne_nil_of_mem_delivered hc (List.length_eq_zero_iff.mp hzero)
  refine not_capturesPrefix_painted hpos hpre hbig hm hfit (h _ ?_)
  rw [sizes, delivered_painted hpos, sizes_painted, hsplit]

/-- 31 reads of 8192 bytes and one of one, then one that does not fit, and one that does. -/
theorem capture_not_prefix :
    ¬ CapturesPrefix ((painted (List.replicate 31 8192 ++ [1]) 8192 [1]).map .ok) := by
  refine not_capturesPrefix_painted (m := 1) ?_ ?_ ?_ ?_ ?_
  · decide
  · decide
  · decide
  · decide
  · decide

end KW.Agent
