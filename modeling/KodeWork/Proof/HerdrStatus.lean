import KodeWork.Impl.HerdrStatus

/-!
# A status in an envelope

Every field of a status has a default, and other names are ignored, so an envelope is
itself a status, the empty one (`decodeStatus_envelope`), unless it has an entry of the
name of a field that does not decode. `parse_status` tries this first, and so returns the
empty status for an envelope, whatever is in it.
-/

namespace KW.Herdr

open Decoder

/-- The status of which nothing is known. -/
def blank : HerdrStatus := ⟨none, none, none⟩

/-- The entries set no field of a status. -/
def Blank (entries : List (Text × Json)) : Prop :=
  Unset "server".toList entries ∧ Unset "protocol_version".toList entries ∧ Unset "workspaces".toList entries

theorem decodeStatus_blank_iff (entries : List (Text × Json)) :
    decodeStatus (.object entries) = some blank ↔ Blank entries := by
  have hserver : field 0 "server".toList decodeServerStatus (.object entries) = some none ↔
      Unset "server".toList entries := field_eq_none_iff
  have hprotocol : field 1 "protocol_version".toList u32 (.object entries) = some none ↔
      Unset "protocol_version".toList entries := field_eq_none_iff
  have hworkspaces : field 2 "workspaces".toList (sequence decodeWorkspace) (.object entries) = some none ↔
      Unset "workspaces".toList entries := field_eq_none_iff
  have hdecode : decodeStatus (.object entries) =
      (field 0 "server".toList decodeServerStatus (.object entries)).bind fun server =>
        (field 1 "protocol_version".toList u32 (.object entries)).bind fun protocolVersion =>
          (field 2 "workspaces".toList (sequence decodeWorkspace) (.object entries)).bind fun workspaces =>
            some ⟨server, protocolVersion, workspaces⟩ := rfl
  rw [hdecode, Blank, ← hserver, ← hprotocol, ← hworkspaces]
  constructor
  · intro h
    obtain ⟨server, hs, h⟩ := Option.bind_eq_some_iff.mp h
    obtain ⟨protocolVersion, hp, h⟩ := Option.bind_eq_some_iff.mp h
    obtain ⟨workspaces, hw, h⟩ := Option.bind_eq_some_iff.mp h
    obtain ⟨rfl, rfl, rfl⟩ := HerdrStatus.mk.inj (Option.some.inj h)
    exact ⟨hs, hp, hw⟩
  · intro ⟨hs, hp, hw⟩
    rw [hs, Option.bind_some, hp, Option.bind_some, hw, Option.bind_some, blank]

/-- An object without a name of a status is the empty status. -/
theorem decodeStatus_other {entries : List (Text × Json)}
    (h : ∀ e ∈ entries, e.1 ∉ ["server".toList, "protocol_version".toList, "workspaces".toList]) :
    decodeStatus (.object entries) = some blank := by
  have hunset {name : Text} (hname : name ∈ ["server".toList, "protocol_version".toList, "workspaces".toList]) :
      Unset name entries := by
    refine .inl (List.filter_eq_nil_iff.mpr fun e he heq => h e he ?_)
    rw [of_decide_eq_true heq]
    exact hname
  exact (decodeStatus_blank_iff entries).mpr ⟨hunset (by simp), hunset (by simp), hunset (by simp)⟩

/-- `{"result": json}`. -/
def envelope (json : Json) : Json := .object [("result".toList, json)]

/-- Whatever is in it, an envelope is the empty status. -/
theorem parseStatus_envelope (json : Json) : parseStatus (some (envelope json)) = .ok blank := by
  have hother : ∀ e ∈ [("result".toList, json)],
      e.1 ∉ ["server".toList, "protocol_version".toList, "workspaces".toList] := by
    intro e he
    have hname : "result".toList ∉ ["server".toList, "protocol_version".toList, "workspaces".toList] := by decide
    rw [List.mem_singleton.mp he]
    exact hname
  have hdecode : decodeStatus (envelope json) = some blank := decodeStatus_other hother
  rw [parseStatus, parseEnveloped, Option.bind_some, hdecode]

/-- The object is no status, but an envelope of one that is empty, without an error. -/
def WrapsBlank (entries : List (Text × Json)) : Prop :=
  decodeStatus (.object entries) = none ∧
    ∃ error, decodeEnvelope decodeStatus (.object entries) = some ⟨some blank, error⟩ ∧ error.all List.isEmpty = true

theorem parseStatus_blank_iff (entries : List (Text × Json)) :
    parseStatus (some (.object entries)) = .ok blank ↔ Blank entries ∨ WrapsBlank entries := by
  rw [parseStatus, parseEnveloped, Option.bind_some, Option.bind_some, ← decodeStatus_blank_iff, WrapsBlank]
  cases hdecode : decodeStatus (.object entries) with
  | some status => simp
  | none =>
    cases henvelope : decodeEnvelope decodeStatus (.object entries) with
    | none => simp
    | some e =>
      obtain ⟨result, error⟩ := e
      cases error with
      | none => cases result <;> simp
      | some message =>
        cases message with
        | nil => cases result <;> simp [Option.filter]
        | cons c rest => simp [Option.filter]

/-- An envelope with this error. -/
def Reports (entries : List (Text × Json)) (message : Text) : Prop :=
  (entries.filter fun e => e.1 = "error".toList) = [("error".toList, .string message)] ∧ message ≠ []

theorem decodeEnvelope_reports {entries : List (Text × Json)} {message : Text} (h : Reports entries message) :
    decodeEnvelope decodeStatus (.object entries) =
      (field 0 "result".toList decodeStatus (.object entries)).map fun result => ⟨result, some message⟩ := by
  have herror : field 1 "error".toList string (.object entries) = some (some message) := by
    rw [field, h.1]
    rfl
  have hdecode : decodeEnvelope decodeStatus (.object entries) =
      (field 0 "result".toList decodeStatus (.object entries)).bind fun result =>
        (field 1 "error".toList string (.object entries)).bind fun error => some ⟨result, error⟩ := rfl
  rw [hdecode, herror]
  cases field 0 "result".toList decodeStatus (.object entries) <;> rfl

theorem parseStatus_error_iff {entries : List (Text × Json)} {message : Text} (h : Reports entries message) :
    parseStatus (some (.object entries)) = .error (.executor message) ↔
      decodeStatus (.object entries) = none ∧
        ∃ result, field 0 "result".toList decodeStatus (.object entries) = some result := by
  rw [parseStatus, parseEnveloped, Option.bind_some, Option.bind_some, decodeEnvelope_reports h]
  cases hdecode : decodeStatus (.object entries) with
  | some status => simp
  | none =>
    cases hresult : field 0 "result".toList decodeStatus (.object entries) with
    | none => simp
    | some result =>
      have hkept : (some message).filter (fun m => !m.isEmpty) = some message := by simp [h.2]
      simp [hkept]

/-- What the envelope of an object, and an envelope with an error, are read as. -/
theorem parseStatus_envelope_iff (entries : List (Text × Json)) :
    (parseStatus (some (envelope (.object entries))) = parseStatus (some (.object entries)) ↔
        Blank entries ∨ WrapsBlank entries) ∧
      ∀ message : Text, Reports entries message →
        (parseStatus (some (.object entries)) = .error (.executor message) ↔
          decodeStatus (.object entries) = none ∧
            ∃ result, field 0 "result".toList decodeStatus (.object entries) = some result) := by
  refine ⟨?_, fun message h => parseStatus_error_iff h⟩
  rw [parseStatus_envelope, ← parseStatus_blank_iff, eq_comm]

/-! ### A running server -/

/-- A status that says something. -/
def running : List (Text × Json) := [("server".toList, .object [("running".toList, .bool true)])]

theorem envelope_is_blank :
    ¬ ((∀ entries : List (Text × Json),
          parseStatus (some (envelope (.object entries))) = parseStatus (some (.object entries))) ∧
        ∀ (entries : List (Text × Json)) (message : Text), Reports entries message →
          parseStatus (some (.object entries)) = .error (.executor message)) := by
  intro ⟨hall, _⟩
  have hsame := hall running
  have hrunning : parseStatus (some (.object running)) = .ok ⟨some ⟨some true, none, none⟩, none, none⟩ := by rfl
  rw [parseStatus_envelope, hrunning] at hsame
  cases hsame

end KW.Herdr
