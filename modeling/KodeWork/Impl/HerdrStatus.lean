import KodeWork.Framework.Json
import KodeWork.Impl.Text

/-!
# The status of a herdr server

`parse_status` of `kodework-herdr/src/cli.rs` with `parse_enveloped`, on what the JSON
syntax makes of the text: nothing, where the text is no JSON.
-/

namespace KW.Herdr

open Decoder

structure HerdrServerStatus where
  running : Option Bool
  version : Option Text
  protocolVersion : Option UInt32
deriving DecidableEq, Repr

structure HerdrAgentState where
  status : Option Text
deriving DecidableEq, Repr

structure HerdrPane where
  id : Option Text
  name : Option Text
  agent : Option HerdrAgentState
deriving DecidableEq, Repr

structure HerdrTab where
  id : Option Text
  name : Option Text
  panes : Option (List HerdrPane)
deriving DecidableEq, Repr

structure HerdrWorkspace where
  id : Option Text
  name : Option Text
  tabs : Option (List HerdrTab)
deriving DecidableEq, Repr

structure HerdrStatus where
  server : Option HerdrServerStatus
  protocolVersion : Option UInt32
  workspaces : Option (List HerdrWorkspace)
deriving DecidableEq, Repr

/-- The errors of `HerdrError` that `parse_status` gives. -/
inductive HerdrError
  | invalidResponse
  | executor (message : Text)
deriving DecidableEq, Repr

/-! ## Decoders -/

def decodeServerStatus : Decoder HerdrServerStatus := fun json => do
  record 3 json
  let running ← field 0 "running".toList boolean json
  let version ← field 1 "version".toList string json
  let protocolVersion ← field 2 "protocol_version".toList u32 json
  some ⟨running, version, protocolVersion⟩

def decodeAgentState : Decoder HerdrAgentState := fun json => do
  record 1 json
  let status ← field 0 "status".toList string json
  some ⟨status⟩

def decodePane : Decoder HerdrPane := fun json => do
  record 3 json
  let id ← field 0 "id".toList string json
  let name ← field 1 "name".toList string json
  let agent ← field 2 "agent".toList decodeAgentState json
  some ⟨id, name, agent⟩

def decodeTab : Decoder HerdrTab := fun json => do
  record 3 json
  let id ← field 0 "id".toList string json
  let name ← field 1 "name".toList string json
  let panes ← field 2 "panes".toList (sequence decodePane) json
  some ⟨id, name, panes⟩

def decodeWorkspace : Decoder HerdrWorkspace := fun json => do
  record 3 json
  let id ← field 0 "id".toList string json
  let name ← field 1 "name".toList string json
  let tabs ← field 2 "tabs".toList (sequence decodeTab) json
  some ⟨id, name, tabs⟩

def decodeStatus : Decoder HerdrStatus := fun json => do
  record 3 json
  let server ← field 0 "server".toList decodeServerStatus json
  let protocolVersion ← field 1 "protocol_version".toList u32 json
  let workspaces ← field 2 "workspaces".toList (sequence decodeWorkspace) json
  some ⟨server, protocolVersion, workspaces⟩

structure Envelope (α : Type) where
  result : Option α
  error : Option Text

def decodeEnvelope {α : Type} (d : Decoder α) : Decoder (Envelope α) := fun json => do
  record 2 json
  let result ← field 0 "result".toList d json
  let error ← field 1 "error".toList string json
  some ⟨result, error⟩

/-! ## Responses -/

def parseEnveloped {α : Type} (d : Decoder α) (json : Option Json) : Except HerdrError α :=
  match json.bind d with
  | some value => .ok value
  | none =>
    match json.bind (decodeEnvelope d) with
    | none => .error .invalidResponse
    | some envelope =>
      match envelope.error.filter fun message => !message.isEmpty with
      | some error => .error (.executor error)
      | none =>
        match envelope.result with
        | some result => .ok result
        | none => .error .invalidResponse

def parseStatus (json : Option Json) : Except HerdrError HerdrStatus := parseEnveloped decodeStatus json

end KW.Herdr
