import KodeWork.Impl.Osc52

/-!
# What a clipboard write writes

A text of at most 4 MiB passes every check of `decodeOsc52` with its encoding, padded or not
(`decodePayload_encode`), and what is written never has more (`decodePayload_write`). The decoder
takes a byte order mark in front for itself, so a text is written as it is if and only if it does
not start with one (`decodeOsc52_write_iff`).
-/

namespace KW.Osc52

open Base64

/-! ## The separator -/

theorem idxOf_separator {selection : JsString} (h : separator ∉ selection) (payload : JsString) :
    (selection ++ separator :: payload).idxOf? separator = some selection.length := by
  induction selection with
  | nil => simp [List.idxOf?_cons]
  | cons u selection ih =>
    rw [List.mem_cons, not_or] at h
    have hne : (u == separator) = false := beq_false_of_ne (Ne.symm h.1)
    rw [List.cons_append, List.idxOf?_cons, hne, ih h.2]
    rfl

theorem decodeOsc52_append {selection : JsString} (h : separator ∉ selection) (payload : JsString) :
    decodeOsc52 (selection ++ separator :: payload) =
      if !selection.all isSelection then .invalid .osc52InvalidSelection else decodePayload payload := by
  have htake : (selection ++ separator :: payload).take selection.length = selection := List.take_left
  have hdrop : (selection ++ separator :: payload).drop (selection.length + 1) = payload := by
    rw [← List.drop_drop, List.drop_left]
    rfl
  rw [decodeOsc52, idxOf_separator h]
  dsimp only
  rw [htake, hdrop]

theorem separator_not_mem {selection : JsString} (h : ∀ u ∈ selection, isSelection u = true) :
    separator ∉ selection := by
  intro hmem
  exact absurd (h separator hmem) (by decide)

/-! ## Payloads -/

theorem isBase64_encode (pad : Bool) (bytes : List UInt8) : isBase64 (encode pad bytes) = true := by
  have hdigits : ∀ u ∈ (sextets bytes).map digit, (valueOf u).isSome = true := by
    intro u hu
    obtain ⟨v, hv, rfl⟩ := List.mem_map.mp hu
    rw [valueOf_digit (sextets_lt bytes v hv)]
    rfl
  rw [isBase64, encode, List.dropWhile_append_of_pos hdigits]
  cases pad with
  | false => rfl
  | true =>
    rw [if_pos rfl, padding]
    split
    · decide
    · decide
    · rfl

theorem length_encode (pad : Bool) (bytes : List UInt8) :
    bytes.length ≤ (encode pad bytes).length ∧ (encode pad bytes).length ≤ (bytes.length + 2) / 3 * 4 ∧
      (encode pad bytes).length % 4 ≠ 1 := by
  have hlen : (encode pad bytes).length = (bytes.length * 4 + 2) / 3 + if pad then (bytes.length * 2) % 3 else 0 := by
    rw [encode, List.length_append, List.length_map, length_sextets]
    cases pad with
    | false => rfl
    | true => rw [if_pos rfl, if_pos rfl, length_padding]
  rw [hlen]
  have hmod : bytes.length % 3 = 0 ∨ bytes.length % 3 = 1 ∨ bytes.length % 3 = 2 := by omega
  cases pad with
  | false =>
    rw [if_neg Bool.false_ne_true]
    omega
  | true =>
    rw [if_pos rfl]
    rcases hmod with h | h | h
    · omega
    · omega
    · omega

/-- A question mark is no encoding. -/
theorem encode_ne_query (pad : Bool) (bytes : List UInt8) : encode pad bytes ≠ [questionMark] := by
  intro he
  have hbase := isBase64_encode pad bytes
  rw [he] at hbase
  exact absurd hbase (by decide)

/-- The payload of a text of bounded length is decoded to what the decoder makes of its bytes. -/
theorem decodePayload_encode (pad : Bool) {text : List Char} (h : (Utf8.encode text).length ≤ maxClipboardBytes) :
    decodePayload (encode pad (Utf8.encode text)) =
      .write (Utf16.encode (if text.head? = some byteOrderMark then text.tail else text)) := by
  have hdecoder : textDecoder (Utf8.encode text) =
      some (if text.head? = some byteOrderMark then text.tail else text) := by
    rw [textDecoder, Utf8.decode_eq_some.mpr rfl, Option.map_some]
    cases text with
    | nil => rfl
    | cons c t => simp
  obtain ⟨hmin, hmax, hmod⟩ := length_encode pad (Utf8.encode text)
  have hbound : (encode pad (Utf8.encode text)).length ≤ maxBase64Length := by
    refine Nat.le_trans hmax ?_
    rw [maxBase64Length]
    omega
  have hshape : (!isBase64 (encode pad (Utf8.encode text)) ||
      (encode pad (Utf8.encode text)).length % 4 == 1) = false := by
    rw [isBase64_encode, Bool.not_true, Bool.false_or]
    exact beq_false_of_ne hmod
  rw [decodePayload, if_neg (encode_ne_query pad _)]
  split
  · rename_i hempty
    have hnil : Utf8.encode text = [] := List.length_eq_zero_iff.mp (by omega)
    cases text with
    | nil => rfl
    | cons c t => exact absurd (List.append_eq_nil_iff.mp hnil).1 String.utf8EncodeChar_ne_nil
  · rw [if_neg (Nat.not_lt.mpr hbound), hshape, if_neg Bool.false_ne_true, decode_encode]
    dsimp only
    rw [if_neg (Nat.not_lt.mpr h), hdecoder]

theorem textDecoder_length {bytes : List UInt8} {text : List Char} (h : textDecoder bytes = some text) :
    (Utf8.encode text).length ≤ bytes.length := by
  obtain ⟨t, ht, hself⟩ := Option.map_eq_some_iff.mp h
  rw [Utf8.decode_eq_some.mp ht]
  cases t with
  | nil => exact Nat.le_of_eq (congrArg (List.length ∘ Utf8.encode) hself.symm)
  | cons c t =>
    dsimp only at hself
    split at hself
    · rw [← hself, Utf8.encode_cons, List.length_append]
      exact Nat.le_add_left _ _
    · exact Nat.le_of_eq (congrArg (List.length ∘ Utf8.encode) hself.symm)

/-- What is written is a text of bounded length. -/
theorem decodePayload_write {payload s : JsString} (h : decodePayload payload = .write s) :
    ∃ text, s = Utf16.encode text ∧ (Utf8.encode text).length ≤ maxClipboardBytes := by
  rw [decodePayload] at h
  split at h
  · cases h
  · split at h
    · cases h
      exact ⟨[], rfl, Nat.zero_le _⟩
    · split at h
      · cases h
      · split at h
        · cases h
        · split at h
          · cases h
          · rename_i binary hbinary
            split at h
            · cases h
            · rename_i hbound
              split at h
              · cases h
              · rename_i text htext
                cases h
                exact ⟨text, rfl, Nat.le_trans (textDecoder_length htext) (Nat.le_of_not_lt hbound)⟩

/-! ## The escape sequence -/

/-- A text of at most 4 MiB is written as it is if and only if it does not start with a byte order
mark; no more is ever written, and a query writes nothing. -/
theorem decodeOsc52_write_iff (selection : JsString) :
    (∀ (text : List Char) (pad : Bool), (∀ u ∈ selection, isSelection u = true) →
        (Utf8.encode text).length ≤ maxClipboardBytes →
        (decodeOsc52 (selection ++ separator :: encode pad (Utf8.encode text)) = .write (Utf16.encode text) ↔
          text.head? ≠ some byteOrderMark)) ∧
      (∀ data s, decodeOsc52 data = .write s →
        ∃ text, s = Utf16.encode text ∧ (Utf8.encode text).length ≤ maxClipboardBytes) ∧
      ∀ s, separator ∉ selection → decodeOsc52 (selection ++ [separator, questionMark]) ≠ .write s := by
  refine ⟨fun text pad hsel hlen => ?_, fun data s h => ?_, fun s hsel => ?_⟩
  · rw [decodeOsc52_append (separator_not_mem hsel), List.all_eq_true.mpr hsel, Bool.not_true,
      if_neg Bool.false_ne_true, decodePayload_encode pad hlen]
    by_cases hmark : text.head? = some byteOrderMark
    · refine iff_of_false (fun hwrite => ?_) (fun hne => hne hmark)
      rw [if_pos hmark, Osc52Result.write.injEq] at hwrite
      have htext := congrArg Utf16.lossy hwrite
      obtain ⟨t, rfl⟩ := List.head?_eq_some_iff.mp hmark
      rw [Utf16.lossy_encode, Utf16.lossy_encode, List.tail_cons] at htext
      exact absurd (congrArg List.length htext) (by simp)
    · rw [if_neg hmark]
      exact iff_of_true rfl hmark
  · rw [decodeOsc52] at h
    split at h
    · cases h
    · split at h
      · cases h
      · exact decodePayload_write h
  · rw [decodeOsc52_append hsel]
    split
    · exact nofun
    · exact nofun

/-- The letter a is written as it is. -/
theorem letter_written :
    decodeOsc52 (js "c" ++ separator :: encode true (Utf8.encode ['a'])) = .write (Utf16.encode ['a']) :=
  ((decodeOsc52_write_iff (js "c")).1 ['a'] true (List.all_eq_true.mp rfl) (by decide)).mpr (by decide)

/-- The letter a with a byte order mark in front is written without it. -/
theorem mark_not_written :
    decodeOsc52 (js "c;77u/YQ==") = .write (js "a") ∧
      js "c;77u/YQ==" = js "c" ++ separator :: encode true (Utf8.encode [byteOrderMark, 'a']) ∧
      js "a" ≠ Utf16.encode [byteOrderMark, 'a'] := by
  decide

end KW.Osc52
