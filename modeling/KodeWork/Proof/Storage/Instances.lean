import KodeWork.Impl.Repositories
import Mathlib.Data.Countable.Basic
import Mathlib.Logic.Equiv.List
import Mathlib.Tactic.DeriveCountable

/-!
# Instances of the parameters

SQLite and `serde_json` are parameters of the models of the storage. Here each has an instance.
`serde_json` writes the name of a variant, with quotes around it (`Json.ofNames`). What it
writes of a structure is any text that tells its values apart (`Json.ofInjective`). SQLite
stores a value that is of the type of its column as it is.
-/

namespace KW

/-! ## Texts of values -/

namespace HostRows

/-- The text of a value with a name, read back by the names of `all`. -/
def Json.ofNames {α : Type} (name : α → String) (all : List α)
    (h : ∀ a, (all.find? fun b => ('"' :: (name b).toList ++ ['"']) == '"' :: (name a).toList ++ ['"']) = some a) :
    Json α where
  toText a := '"' :: (name a).toList ++ ['"']
  fromText t := all.find? fun b => ('"' :: (name b).toList ++ ['"']) == t
  from_to := h

noncomputable def Json.ofInjective {α : Type} (text : α → Text) (h : Function.Injective text) : Json α where
  toText := text
  fromText := Function.partialInv text
  from_to := Function.partialInv_left h

theorem exists_texts (α : Type) [Countable α] : ∃ text : α → Text, Function.Injective text := by
  obtain ⟨f, hf⟩ := Countable.exists_injective_nat α
  exact ⟨fun a => List.replicate (f a) '0', fun a b h => hf (by simpa using congrArg List.length h)⟩

/-- Some text for every value. -/
noncomputable def Json.some (α : Type) [Countable α] : Json α :=
  .ofInjective (exists_texts α).choose (exists_texts α).choose_spec

end HostRows

instance countableChar : Countable Char := Function.Injective.countable fun _ _ h => Char.toNat_inj.mp h
instance countableUInt16 : Countable UInt16 := Function.Injective.countable fun _ _ h => UInt16.toNat_inj.mp h

deriving instance Countable for CredentialProvider, CredentialRef, AuthenticationMode, TailscaleMode, TailscaleConfig
deriving instance Countable for HostRecord.JumpHost

/-! ## The variants -/

def RunStatus.json : HostRows.Json RunStatus :=
  .ofNames
    (fun
      | .created => "Created"
      | .confirming => "Confirming"
      | .queued => "Queued"
      | .running => "Running"
      | .succeeded => "Succeeded"
      | .failed => "Failed"
      | .cancelled => "Cancelled"
      | .timedOut => "TimedOut"
      | .interrupted => "Interrupted"
      | .unknown => "Unknown")
    [.created, .confirming, .queued, .running, .succeeded, .failed, .cancelled, .timedOut, .interrupted, .unknown]
    (by rintro (_ | _) <;> rfl)

def RunRows.serdeJson : StatusJson := ⟨RunStatus.json.toText, RunStatus.json.fromText, RunStatus.json.from_to⟩

noncomputable def HostRows.serdeJson : HostJson where
  credential := .some CredentialRef
  tailscale := .some TailscaleConfig
  runtime := .ofNames
    (fun
      | .tmux => "Tmux"
      | .herdr => "Herdr"
      | .plainShell => "PlainShell")
    [.tmux, .herdr, .plainShell] (by rintro (_ | _) <;> rfl)
  jump := .some HostRecord.JumpHost
  authMode := .ofNames
    (fun
      | .password => "Password"
      | .publicKey => "PublicKey"
      | .sshAgent => "SshAgent"
      | .keyboardInteractive => "KeyboardInteractive")
    [.password, .publicKey, .sshAgent, .keyboardInteractive] (by rintro (_ | _) <;> rfl)
  addressKind := .ofNames
    (fun
      | .lan => "Lan"
      | .tailscale => "Tailscale"
      | .publicKind => "Public"
      | .jumpHost => "JumpHost"
      | .manual => "Manual")
    [.lan, .tailscale, .publicKind, .jumpHost, .manual] (by rintro (_ | _) <;> rfl)

noncomputable def Repositories.serdeJson : StoreJson where
  toHostJson := HostRows.serdeJson
  mode := .ofNames
    (fun
      | .interactive => "Interactive"
      | .quick => "Quick"
      | .background => "Background")
    [.interactive, .quick, .background] (by rintro (_ | _) <;> rfl)
  dangerLevel := .ofNames
    (fun
      | .safe => "Safe"
      | .review => "Review"
      | .dangerous => "Dangerous")
    [.safe, .review, .dangerous] (by rintro (_ | _) <;> rfl)
  confirmation := .ofNames
    (fun
      | .never => "Never"
      | .onDangerous => "OnDangerous"
      | .always => "Always")
    [.never, .onDangerous, .always] (by rintro (_ | _) <;> rfl)
  status := RunStatus.json
  sessionState := .ofNames
    (fun
      | .detached => "Detached"
      | .attaching => "Attaching"
      | .attached => "Attached"
      | .suspended => "Suspended"
      | .reattaching => "Reattaching"
      | .closed => "Closed"
      | .failed => "Failed")
    [.detached, .attaching, .attached, .suspended, .reattaching, .closed, .failed] (by rintro (_ | _) <;> rfl)
  direction := .ofNames
    (fun
      | .upload => "Upload"
      | .download => "Download")
    [.upload, .download] (by rintro (_ | _) <;> rfl)
  transferStatus := .ofNames
    (fun
      | .queued => "Queued"
      | .hashing => "Hashing"
      | .transferring => "Transferring"
      | .paused => "Paused"
      | .retrying => "Retrying"
      | .completed => "Completed"
      | .cancelled => "Cancelled"
      | .failed => "Failed")
    [.queued, .hashing, .transferring, .paused, .retrying, .completed, .cancelled, .failed]
    (by rintro (_ | _) <;> rfl)
  env := (HostRows.Json.some (List (Text × Text))).toText
  readEnv := (HostRows.Json.some (List (Text × Text))).fromText
  readEnv_env _ := (HostRows.Json.some (List (Text × Text))).from_to _

/-! ## SQLite -/

open Sql
open RunRows (Value)

namespace HostRows

/-- The class of a value, in the order of the classes. Numbers are one class of SQLite; a real
is compared with no integer here. -/
def valueClass : Value → Nat
  | .null => 0
  | .integer _ => 1
  | .real _ => 2
  | .text _ => 3
  | .blob _ => 4

def valueLe : Value → Value → Bool
  | .integer m, .integer n => m ≤ n
  | .real a, .real b => a.toNat ≤ b.toNat
  | .text s, .text t => s ≤ t
  | .blob a, .blob b => a.map UInt8.toNat ≤ b.map UInt8.toNat
  | a, b => valueClass a ≤ valueClass b

def valueOrder : ValueOrder where
  le := valueLe
  total a b := by
    cases a <;> cases b <;> simp [valueLe, valueClass, le_total]
  trans {a b c} := by
    cases a <;> cases b <;> cases c <;> simp [valueLe, valueClass] <;> exact le_trans
  integer m n := by simp [valueLe]
  text s t := by simp [valueLe]

end HostRows

namespace Migrations

def sameValue (v w : Value) : Bool := v != .null && v == w

theorem sameValue_iff (v w : Value) : sameValue v w = true ↔ v ≠ .null ∧ v = w := by
  rw [sameValue, Bool.and_eq_true, bne_iff_ne, beq_iff_eq]

theorem sameValue_symm {v w : Value} (h : sameValue v w = true) : sameValue w v = true := by
  rw [sameValue_iff] at h ⊢
  exact ⟨h.2 ▸ h.1, h.2.symm⟩

theorem sameValue_trans {u v w : Value} (h : sameValue u v = true) (h' : sameValue v w = true) :
    sameValue u w = true := by
  rw [sameValue_iff] at h h' ⊢
  exact ⟨h.1, h.2.trans h'.2⟩

theorem sameValue_of_injective {α : Type} [DecidableEq α] {f : α → Value} (hf : Function.Injective f)
    (hnull : ∀ a, f a ≠ .null) (a b : α) : sameValue (f a) (f b) = decide (a = b) := by
  rw [Bool.eq_iff_iff, sameValue_iff, decide_eq_true_iff, hf.eq_iff]
  exact and_iff_right (hnull a)

theorem sameValue_integer (m n : Int) : sameValue (.integer m) (.integer n) = decide (m = n) :=
  sameValue_of_injective (fun _ _ h => Value.integer.inj h) (fun _ h => Value.noConfusion h) m n

theorem sameValue_blob (a b : List UInt8) : sameValue (.blob a) (.blob b) = decide (a = b) :=
  sameValue_of_injective (fun _ _ h => Value.blob.inj h) (fun _ h => Value.noConfusion h) a b

theorem sameValue_text (s t : Text) : sameValue (.text s) (.text t) = decide (s = t) :=
  sameValue_of_injective (fun _ _ h => Value.text.inj h) (fun _ h => Value.noConfusion h) s t

theorem sameValue_null (v : Value) : sameValue .null v = false := rfl

/-- What a column stores of a value of its type. -/
def storedValue (_ : Affinity) (v : Value) : Value := v

theorem storedValue_eq_null (affinity : Affinity) (v : Value) : storedValue affinity v = .null ↔ v = .null := Iff.rfl

theorem storedValue_storedValue (affinity : Affinity) (v : Value) :
    storedValue affinity (storedValue affinity v) = storedValue affinity v := rfl

theorem storedValue_text (t : Text) : storedValue .text (.text t) = .text t := rfl
theorem storedValue_integer (n : Int) : storedValue .integer (.integer n) = .integer n := rfl
theorem storedValue_blob (v : Value) : storedValue .blob v = v := rfl

/-- SQLite, where every value is of the type of its column. -/
def typed : Sqlite where
  null := .null
  same := sameValue
  same_null := sameValue_null
  same_symm := sameValue_symm
  same_trans := sameValue_trans
  convert := storedValue
  convert_eq_null := storedValue_eq_null
  convert_convert := storedValue_storedValue
  null_eq := rfl
  convert_text := storedValue_text
  convert_integer := storedValue_integer
  same_integer := sameValue_integer

end Migrations

noncomputable def Repositories.typed : Repositories.Sqlite where
  toSqlite := Migrations.typed
  convert_blob := Migrations.storedValue_blob
  same_blob := Migrations.sameValue_blob
  same_text := Migrations.sameValue_text
  scan := Multiset.toList
  coe_scan := Multiset.coe_toList
  order := HostRows.valueOrder

end KW
