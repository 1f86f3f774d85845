import KodeWork.Impl.Agent

/-!
# Who gets past the token

A connection gets to `dispatch` only if its first line is the token (`dispatched_first`), however
the bytes arrive. The other way round the limit of `read_line_limited` is one of the line with its
end, that of `validate_token` one of the token alone, so the longest tokens are valid and pass
with no line end (`token_passes_iff`).
-/

namespace KW.Agent

open Utf8

/-! ## Lines -/

/-- What the client sends. -/
def sent (arrivals : List Arrival) : List UInt8 :=
  arrivals.flatMap fun
    | .read (.ok bytes) => bytes
    | _ => []

/-- The line before the first line feed. -/
def FirstLine (bytes line : List UInt8) : Prop := lineFeed ∉ line ∧ line ++ [lineFeed] <+: bytes

theorem takeWhile_of_not_mem {l : List UInt8} (h : lineFeed ∉ l) : l.takeWhile (· != lineFeed) = l := by
  refine List.takeWhile_eq_self_iff.mpr fun b hb => bne_iff_ne.mpr fun he => h ?_
  rw [← he]
  exact hb

theorem takeWhile_line {l : List UInt8} (h : lineFeed ∉ l) (rest : List UInt8) :
    (l ++ lineFeed :: rest).takeWhile (· != lineFeed) = l := by
  rw [List.takeWhile_append, takeWhile_of_not_mem h, if_pos rfl, List.takeWhile_cons_of_neg (by simp), List.append_nil]

theorem FirstLine.unique {bytes line line' : List UInt8} (h : FirstLine bytes line) (h' : FirstLine bytes line') :
    line = line' := by
  obtain ⟨hfeed, rest, hrest⟩ := h
  obtain ⟨hfeed', rest', hrest'⟩ := h'
  rw [List.append_assoc] at hrest hrest'
  have hline := takeWhile_line hfeed rest
  have hline' := takeWhile_line hfeed' rest'
  rw [← hline, ← hline']
  exact congrArg (List.takeWhile (· != lineFeed)) (hrest.trans hrest'.symm)

/-- A part that is shorter than the whole stops before a line feed. -/
theorem line_prefix {bytes : List UInt8} (h : (bytes.takeWhile (· != lineFeed)).length < bytes.length) :
    lineFeed ∉ bytes.takeWhile (· != lineFeed) ∧ bytes.takeWhile (· != lineFeed) ++ [lineFeed] <+: bytes := by
  refine ⟨fun hmem => ?_, ?_⟩
  · have hne := List.mem_takeWhile_imp hmem
    simp at hne
  · have hsplit := List.takeWhile_append_dropWhile (p := (· != lineFeed)) (l := bytes)
    cases hdrop : bytes.dropWhile (· != lineFeed) with
    | nil =>
      rw [hdrop, List.append_nil] at hsplit
      rw [hsplit] at h
      omega
    | cons b rest =>
      have hb : b = lineFeed := by
        have hhead := List.head_dropWhile_not (· != lineFeed) (w := by rw [hdrop]; exact List.cons_ne_nil b rest)
        simp only [hdrop, List.head_cons] at hhead
        simpa using hhead
      rw [hb] at hdrop
      rw [hdrop] at hsplit
      refine ⟨rest, ?_⟩
      rw [List.append_assoc]
      exact hsplit

theorem not_mem_of_takeWhile {bytes : List UInt8} (h : ¬ (bytes.takeWhile (· != lineFeed)).length < bytes.length) :
    lineFeed ∉ bytes := by
  have hself : bytes.takeWhile (· != lineFeed) = bytes :=
    (List.takeWhile_prefix _).eq_of_length_le (Nat.le_of_not_lt h)
  intro hmem
  rw [← hself] at hmem
  have hne := List.mem_takeWhile_imp hmem
  simp at hne

/-! ## Reading -/

/-- What is read is from the start of the stream, up to the first line feed or without one. -/
theorem readUntil_ok {limit : Nat} {bytes bytes' : List UInt8} {arrivals rest : List Arrival}
    (h : readUntil limit bytes arrivals = .ok (bytes', rest)) : ∃ w, bytes' = bytes ++ w ∧ w <+: sent arrivals ∧
      (lineFeed ∉ w ∨ ∃ u, w = u ++ [lineFeed] ∧ lineFeed ∉ u) := by
  have hnone : ∃ w, bytes = bytes ++ w ∧ w <+: sent arrivals ∧
      (lineFeed ∉ w ∨ ∃ u, w = u ++ [lineFeed] ∧ lineFeed ∉ u) :=
    ⟨[], (List.append_nil bytes).symm, List.nil_prefix, .inl List.not_mem_nil⟩
  induction arrivals generalizing limit bytes with
  | nil =>
    rw [readUntil] at h
    split at h
    · cases h
      exact hnone
    · cases h
      exact hnone
  | cons arrival arrivals ih =>
    rw [readUntil.eq_def] at h
    split at h
    · cases h
      exact hnone
    · rename_i hlimit
      split at h
      · rename_i b chunk arrivals' hcons
        cases hcons
        have htake : (b :: chunk).take limit <+: sent (.read (.ok (b :: chunk)) :: arrivals) :=
          (List.take_prefix _ _).trans (List.prefix_append _ _)
        dsimp only at h
        split at h
        · rename_i hline
          obtain ⟨hfeed, hpre⟩ := line_prefix hline
          cases h
          exact ⟨_, List.append_assoc _ _ _, hpre.trans htake, .inr ⟨_, rfl, hfeed⟩⟩
        · rename_i hline
          have hfeed := not_mem_of_takeWhile hline
          split at h
          · cases h
            exact ⟨_, rfl, htake, .inl hfeed⟩
          · rename_i hlong
            rw [List.take_of_length_le (Nat.le_of_not_lt hlong)] at h hfeed
            obtain ⟨w, hw, hpre, hend⟩ := ih h ⟨[], (List.append_nil _).symm, List.nil_prefix, .inl List.not_mem_nil⟩
            refine ⟨(b :: chunk) ++ w, by rw [hw, List.append_assoc], ?_, ?_⟩
            · exact (List.prefix_append_right_inj _).mpr hpre
            · rcases hend with hend | ⟨u, hu, hend⟩
              · exact .inl fun hmem => (List.mem_append.mp hmem).elim hfeed hend
              · refine .inr ⟨(b :: chunk) ++ u, by rw [hu, List.append_assoc], ?_⟩
                exact fun hmem => (List.mem_append.mp hmem).elim hfeed hend
      · cases h
        exact hnone
      · cases h
        exact hnone
      · cases h
      · cases h

/-- The bytes arrive, in chunks of any sizes, before anything else happens. -/
def Delivers (arrivals : List Arrival) (bytes : List UInt8) : Prop :=
  ∃ (chunks : List (List UInt8)) (rest : List Arrival), arrivals = chunks.map (fun chunk => .read (.ok chunk)) ++ rest ∧ (∀ chunk ∈ chunks, chunk ≠ []) ∧
    bytes <+: chunks.flatten

/-- The round that reads the end of a line. -/
theorem readUntil_within {u v c : List UInt8} (hu : lineFeed ∉ u) (hc : c = u ++ [lineFeed] ++ v) (limit : Nat)
    (bytes : List UInt8) (arrivals : List Arrival) : ∃ rest,
      (if ((c.take limit).takeWhile (· != lineFeed)).length < (c.take limit).length then
        .ok (bytes ++ (c.take limit).takeWhile (· != lineFeed) ++ [lineFeed],
          unread (c.drop (((c.take limit).takeWhile (· != lineFeed)).length + 1)) arrivals)
      else if limit < c.length then .ok (bytes ++ c.take limit, .read (.ok (c.drop limit)) :: arrivals)
      else readUntil (limit - (c.take limit).length) (bytes ++ c.take limit) arrivals) =
      .ok (bytes ++ (u ++ [lineFeed]).take limit, rest) := by
  by_cases hlong : u.length < limit
  · have htake : c.take limit = u ++ lineFeed :: v.take (limit - (u.length + 1)) := by
      rw [hc, List.take_append, List.take_of_length_le (by rw [List.length_append, List.length_singleton]; omega),
        List.length_append, List.length_singleton, List.append_assoc, List.singleton_append]
    rw [htake, takeWhile_line hu, if_pos (by simp),
      List.take_of_length_le (by rw [List.length_append, List.length_singleton]; omega), List.append_assoc]
    exact ⟨_, rfl⟩
  · have hle := Nat.le_of_not_lt hlong
    have htake : c.take limit = u.take limit := by
      rw [hc, List.append_assoc, List.take_append_of_le_length hle]
    have hfeed : lineFeed ∉ u.take limit := fun hmem => hu (List.mem_of_mem_take hmem)
    rw [htake, takeWhile_of_not_mem hfeed, if_neg (Nat.lt_irrefl _), if_pos, List.take_append_of_le_length hle]
    · exact ⟨_, rfl⟩
    · rw [hc, List.length_append, List.length_append, List.length_singleton]
      omega

/-- A line that arrives is read up to the limit. -/
theorem readUntil_delivered {u : List UInt8} (hu : lineFeed ∉ u) (limit : Nat) (bytes : List UInt8)
    {chunks : List (List UInt8)} (rest : List Arrival) (hne : ∀ chunk ∈ chunks, chunk ≠ [])
    (hpre : u ++ [lineFeed] <+: chunks.flatten) :
    ∃ rest', readUntil limit bytes (chunks.map (fun chunk => .read (.ok chunk)) ++ rest) =
      .ok (bytes ++ (u ++ [lineFeed]).take limit, rest') := by
  induction chunks generalizing limit bytes u with
  | nil =>
    have hlen := hpre.length_le
    simp at hlen
  | cons chunk chunks ih =>
    obtain ⟨b, chunk, rfl⟩ := List.exists_cons_of_ne_nil (hne chunk List.mem_cons_self)
    rw [readUntil.eq_def]
    by_cases hlimit : limit = 0
    · rw [if_pos hlimit, hlimit, List.take_zero, List.append_nil]
      exact ⟨_, rfl⟩
    · rw [if_neg hlimit, List.map_cons, List.cons_append]
      dsimp only
      generalize b :: chunk = c at hpre ⊢
      rw [List.flatten_cons] at hpre
      have htail : ∀ d ∈ chunks, d ≠ [] := fun d hd => hne d (List.mem_cons_of_mem _ hd)
      -- the line ends in this chunk, or the chunk is a part of it
      rcases List.prefix_or_prefix_of_prefix hpre (List.prefix_append c _) with ⟨v, hv⟩ | hin
      · exact readUntil_within hu hv.symm limit bytes _
      · rcases List.prefix_concat_iff.mp hin with hall | ⟨u', hu'⟩
        · exact readUntil_within (v := []) hu (by rw [List.append_nil]; exact hall) limit bytes _
        · rw [← hu'] at hu hpre ⊢
          rw [List.append_assoc, List.prefix_append_right_inj] at hpre
          have hc : lineFeed ∉ c := fun hmem => hu (List.mem_append_left u' hmem)
          have htake : lineFeed ∉ c.take limit := fun hmem => hc (List.mem_of_mem_take hmem)
          rw [takeWhile_of_not_mem htake, if_neg (Nat.lt_irrefl _)]
          split
          · rename_i hshort
            rw [List.append_assoc, List.take_append_of_le_length (Nat.le_of_lt hshort)]
            exact ⟨_, rfl⟩
          · rename_i hlong
            rw [List.take_of_length_le (Nat.le_of_not_lt hlong)]
            obtain ⟨rest', hrest⟩ := ih (fun hmem => hu (List.mem_append_right c hmem)) (limit - c.length) (bytes ++ c)
              htail hpre
            have hcut : (c ++ u' ++ [lineFeed]).take limit = c ++ (u' ++ [lineFeed]).take (limit - c.length) := by
              have hself := List.take_of_length_le (Nat.le_of_not_lt hlong)
              rw [List.append_assoc c u', List.take_append, hself]
            refine ⟨rest', ?_⟩
            rw [hrest, hcut, List.append_assoc]

/-! ## Lines of bounded length -/

theorem stripLineEnd_feed (u : List UInt8) : stripLineEnd (u ++ [lineFeed]) = stripLineEnd u :=
  List.rdropWhile_concat_pos isLineEnd u lineFeed rfl

theorem readLineLimited_eq {maxBytes : Nat} {arrivals rest : List Arrival} {bytes : List UInt8}
    (hread : readUntil (maxBytes + 1) [] arrivals = .ok (bytes, rest)) : readLineLimited maxBytes arrivals =
      if bytes.isEmpty then .error ⟨.unexpectedEof, "connection closed before a complete line"⟩
      else if maxBytes < bytes.length || bytes.getLast? != some lineFeed then
        .error ⟨.invalidData, "protocol line exceeds the size limit"⟩
      else match decode (stripLineEnd bytes) with
        | some line => .ok (line, rest)
        | none => .error ⟨.invalidData, "line is not UTF-8"⟩ := by
  unfold readLineLimited
  generalize readUntil (maxBytes + 1) [] arrivals = result at hread ⊢
  subst hread
  rfl

/-- A line with its end within the bound is read. -/
theorem readLineLimited_delivered {u : List UInt8} {t : Text} {arrivals : List Arrival}
    (hu : lineFeed ∉ u) (hd : Delivers arrivals (u ++ [lineFeed])) (ht : stripLineEnd u = encode t) (maxBytes : Nat) :
    if u.length + 1 ≤ maxBytes then ∃ rest, readLineLimited maxBytes arrivals = .ok (t, rest)
    else ∃ error, readLineLimited maxBytes arrivals = .error error := by
  obtain ⟨chunks, rest, rfl, hne, hpre⟩ := hd
  obtain ⟨rest', hread⟩ := readUntil_delivered hu (maxBytes + 1) [] rest hne hpre
  rw [List.nil_append] at hread
  have hlen : (u ++ [lineFeed]).length = u.length + 1 := by rw [List.length_append, List.length_singleton]
  rw [readLineLimited_eq hread]
  split
  · rename_i hfits
    have hdecode : decode (encode t) = some t := decode_eq_some.mpr rfl
    rw [List.take_of_length_le (by omega), stripLineEnd_feed, ht, hdecode]
    exact ⟨rest', by simp [Nat.not_lt.mpr hfits]⟩
  · rename_i hlong
    have hcut : ((u ++ [lineFeed]).take (maxBytes + 1)).length = maxBytes + 1 := by
      rw [List.length_take, hlen]
      omega
    refine ⟨⟨.invalidData, "protocol line exceeds the size limit"⟩, ?_⟩
    generalize (u ++ [lineFeed]).take (maxBytes + 1) = bytes at hcut
    cases bytes with
    | nil => cases hcut
    | cons b bytes => simp [hcut]

/-- What is read is the first line. -/
theorem readLineLimited_ok {maxBytes : Nat} {arrivals rest : List Arrival} {t : Text}
    (h : readLineLimited maxBytes arrivals = .ok (t, rest)) :
    ∃ line, FirstLine (sent arrivals) line ∧ stripLineEnd line = encode t := by
  rcases hread : readUntil (maxBytes + 1) [] arrivals with e | ⟨bytes, rest'⟩
  · rw [readLineLimited, hread] at h
    cases h
  · rw [readLineLimited_eq hread] at h
    obtain ⟨w, hw, hpre, hend⟩ := readUntil_ok hread
    rw [List.nil_append] at hw
    rw [← hw] at hpre hend
    split at h
    · cases h
    · split at h
      · cases h
      · rename_i hbounds
        simp only [Bool.or_eq_true, decide_eq_true_eq, bne_iff_ne, not_or, not_not] at hbounds
        obtain ⟨u, rfl, hu⟩ : ∃ u, bytes = u ++ [lineFeed] ∧ lineFeed ∉ u := by
          rcases hend with hend | hend
          · exact absurd (List.mem_of_getLast? hbounds.2) hend
          · exact hend
        refine ⟨u, ⟨hu, hpre⟩, ?_⟩
        rw [stripLineEnd_feed] at h
        split at h
        · rename_i hdecode
          cases h
          exact decode_eq_some.mp hdecode
        · cases h

/-! ## The token -/

theorem tokenMatches_iff {provided expected : Text} :
    tokenMatches provided expected = true ↔ encode provided = encode expected := by
  rw [tokenMatches, Bool.and_eq_true, beq_iff_eq, beq_iff_eq]
  exact and_iff_right_of_imp (congrArg List.length)

/-- Only the token gets a request dispatched. -/
theorem dispatched_first {token requestLine : Text} {arrivals : List Arrival}
    (h : handleConnection token arrivals = .ok (.dispatched requestLine)) :
    ∃ line, FirstLine (sent arrivals) line ∧ stripLineEnd line = encode token := by
  rcases hread : readLineLimited maxTokenBytes arrivals with e | ⟨provided, rest⟩
  · rw [handleConnection, checkToken, hread] at h
    cases h
  · rw [handleConnection, checkToken, hread] at h
    cases hmatch : tokenMatches provided token with
    | false =>
      replace h : (if (!tokenMatches provided token) = true then .ok .invalidToken else _) =
        (.ok (.dispatched requestLine) : Except IoError Outcome) := h
      rw [hmatch] at h
      cases h
    | true =>
      obtain ⟨line, hfirst, hline⟩ := readLineLimited_ok hread
      exact ⟨line, hfirst, hline.trans (tokenMatches_iff.mp hmatch)⟩

theorem validateToken_ok {token : Text} (h : validateToken token = .ok ()) :
    ∀ c ∈ token, Text.isControl c = false := by
  rw [validateToken] at h
  split at h
  · cases h
  · split at h
    · cases h
    · rename_i hchars
      rw [Bool.or_eq_true, not_or] at hchars
      intro c hc
      exact eq_false_of_ne_true fun hcontrol => hchars.2 (List.any_eq_true.mpr ⟨c, hc, hcontrol⟩)

/-- A valid token has neither of the bytes of a line end. -/
theorem not_isLineEnd_of_valid {token : Text} (h : validateToken token = .ok ()) {b : UInt8} (hb : b ∈ encode token) :
    isLineEnd b = false := by
  refine eq_false_of_ne_true fun hend => ?_
  have hb' : b = lineFeed ∨ b = carriageReturn := by simpa [isLineEnd] using hend
  rcases hb' with rfl | rfl
  · have hcontrol := validateToken_ok h _ (ofByte_mem (by decide) hb)
    exact absurd hcontrol (by decide)
  · have hcontrol := validateToken_ok h _ (ofByte_mem (by decide) hb)
    exact absurd hcontrol (by decide)

theorem stripLineEnd_token {token : Text} (h : validateToken token = .ok ()) {ending : List UInt8}
    (hend : ∀ b ∈ ending, isLineEnd b = true) : stripLineEnd (encode token ++ ending) = encode token := by
  induction ending using List.reverseRecOn with
  | nil =>
    rw [List.append_nil, stripLineEnd, List.rdropWhile_eq_self_iff]
    intro hne
    simp [not_isLineEnd_of_valid h (List.getLast_mem hne)]
  | append_singleton ending b ih =>
    have hb := hend b (List.mem_append_right ending List.mem_cons_self)
    rw [← List.append_assoc, stripLineEnd, List.rdropWhile_concat_pos _ _ _ hb]
    exact ih fun d hd => hend d (List.mem_append_left _ hd)

/-- The line before the line feed, and what is left of it. -/
theorem ending_cases {token : Text} (h : validateToken token = .ok ()) {ending : List UInt8}
    (hend : ending = [lineFeed] ∨ ending = [carriageReturn, lineFeed]) :
    ∃ u, encode token ++ ending = u ++ [lineFeed] ∧ lineFeed ∉ u ∧ stripLineEnd u = encode token ∧
      u.length + 1 = (encode token).length + ending.length := by
  have hfeed : lineFeed ∉ encode token := fun hmem => absurd (not_isLineEnd_of_valid h hmem) (by decide)
  rcases hend with rfl | rfl
  · refine ⟨encode token, rfl, hfeed, ?_, rfl⟩
    have hstrip := @stripLineEnd_token token h [] nofun
    rwa [List.append_nil] at hstrip
  · refine ⟨encode token ++ [carriageReturn], by rw [List.append_assoc]; rfl, ?_, ?_, ?_⟩
    · intro hmem
      rcases List.mem_append.mp hmem with hmem | hmem
      · exact hfeed hmem
      · exact absurd hmem (by decide)
    · refine stripLineEnd_token h fun b hb => ?_
      rw [List.mem_singleton.mp hb]
      decide
    · rw [List.length_append]
      rfl

/-- A client that sends a valid token and a line end passes if and only if they are within the
limit together, and no one who sends another first line gets a request dispatched. -/
theorem token_passes_iff (token : Text) (hvalid : validateToken token = .ok ()) :
    (∀ ending arrivals, ending = [lineFeed] ∨ ending = [carriageReturn, lineFeed] →
        Delivers arrivals (encode token ++ ending) →
        ((∃ rest, checkToken token arrivals = .ok (true, rest)) ↔
          (encode token).length + ending.length ≤ maxTokenBytes)) ∧
      ∀ arrivals requestLine, handleConnection token arrivals = .ok (.dispatched requestLine) →
        (∃ line, FirstLine (sent arrivals) line) ∧
          ∀ line, FirstLine (sent arrivals) line → stripLineEnd line = encode token := by
  refine ⟨fun ending arrivals hend hd => ?_, fun arrivals requestLine h => ?_⟩
  · obtain ⟨u, hline, hfeed, hstrip, hlen⟩ := ending_cases hvalid hend
    rw [hline] at hd
    have hread := readLineLimited_delivered hfeed hd hstrip maxTokenBytes
    rw [← hlen]
    split at hread
    · rename_i hfits
      obtain ⟨rest, hread⟩ := hread
      refine iff_of_true ⟨rest, ?_⟩ hfits
      rw [checkToken, hread]
      exact congrArg (fun m => Except.ok (m, rest)) (tokenMatches_iff.mpr rfl)
    · rename_i hlong
      obtain ⟨error, hread⟩ := hread
      refine iff_of_false (fun ⟨rest, hcheck⟩ => ?_) hlong
      rw [checkToken, hread] at hcheck
      cases hcheck
  · obtain ⟨line, hfirst, hstrip⟩ := dispatched_first h
    refine ⟨⟨line, hfirst⟩, fun line' hfirst' => ?_⟩
    rw [← hfirst.unique hfirst']
    exact hstrip

/-! ## The longest token -/

theorem encode_replicate (n : Nat) : encode (List.replicate n 'a') = List.replicate n 97 := by
  induction n with
  | zero => rfl
  | succ n ih =>
    rw [List.replicate_succ, encode_cons, ih, List.replicate_succ]
    rfl

theorem validateToken_replicate {n : Nat} (hmin : minTokenBytes ≤ n) (hmax : n ≤ maxTokenBytes) :
    validateToken (List.replicate n 'a') = .ok () := by
  have hchar : ∀ f : Char → Bool, f 'a' = false → (List.replicate n 'a').any f = false := by
    intro f hf
    refine List.any_eq_false.mpr fun c hc => ?_
    rw [List.eq_of_mem_replicate hc, hf]
    exact Bool.false_ne_true
  have hlen : (encode (List.replicate n 'a')).length = n := by
    rw [encode_replicate, List.length_replicate]
  rw [validateToken, hlen, hchar _ (by decide), hchar _ (by decide)]
  simp [hmin, hmax]

/-- The client sends the token and a line feed at once. -/
def sentAtOnce (n : Nat) : List Arrival := [.read (.ok (List.replicate n 97 ++ [lineFeed]))]

theorem delivers_sentAtOnce (n : Nat) : Delivers (sentAtOnce n) (encode (List.replicate n 'a') ++ [lineFeed]) := by
  refine ⟨[List.replicate n 97 ++ [lineFeed]], [], rfl, ?_, ?_⟩
  · intro chunk hc
    rw [List.mem_singleton.mp hc]
    exact List.append_ne_nil_of_right_ne_nil _ (List.cons_ne_nil _ _)
  · have hbytes : encode (List.replicate n 'a') ++ [lineFeed] = [List.replicate n 97 ++ [lineFeed]].flatten := by
      rw [encode_replicate, List.flatten_singleton]
    exact hbytes ▸ List.prefix_rfl

/-- A token of the shortest length passes. -/
theorem shortest_token_passes : ∃ rest, checkToken (List.replicate 32 'a') (sentAtOnce 32) = .ok (true, rest) := by
  refine ((token_passes_iff (List.replicate 32 'a') (validateToken_replicate (by decide) (by decide))).1 [lineFeed] _
    (.inl rfl) (delivers_sentAtOnce 32)).mpr ?_
  decide

/-- One of the longest is valid, and does not. -/
theorem longest_token_refused : validateToken (List.replicate 4096 'a') = .ok () ∧
    Delivers (sentAtOnce 4096) (encode (List.replicate 4096 'a') ++ [lineFeed]) ∧
    ¬ ∃ rest, checkToken (List.replicate 4096 'a') (sentAtOnce 4096) = .ok (true, rest) := by
  have hvalid : validateToken (List.replicate 4096 'a') = .ok () :=
    validateToken_replicate (by decide) (Nat.le_refl _)
  refine ⟨hvalid, delivers_sentAtOnce 4096, fun ⟨rest, hcheck⟩ => ?_⟩
  obtain ⟨u, hline, hfeed, hstrip, hlen⟩ := ending_cases hvalid (.inl rfl)
  have hd := delivers_sentAtOnce 4096
  rw [hline] at hd
  have hread := readLineLimited_delivered hfeed hd hstrip maxTokenBytes
  rw [encode_replicate, List.length_replicate] at hlen
  rw [if_neg (by rw [hlen]; decide)] at hread
  obtain ⟨error, hread⟩ := hread
  rw [checkToken, hread] at hcheck
  cases hcheck

end KW.Agent
