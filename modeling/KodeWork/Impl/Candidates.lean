import KodeWork.Impl.Connect
import KodeWork.Impl.HostRecord
import Mathlib.Data.List.Sort

/-!
# The address candidates of a host

`CandidateResolver::candidates` of `kodework-network`: the configured addresses that the
policy allows and what the discovery providers found, one candidate for each address, in
the order in which they are tried. The arithmetic of `sort_key` is that of a release
build, where the negation of an `i32` wraps around.
-/

namespace KW.Candidates

open HostRecord (AddressKind)
open Connect (ProxySpec)

inductive CandidateSource
  | configured
  | tailscale
  | discovered
deriving DecidableEq, Repr

structure AddressCandidate where
  address : HostRecord.Address
  source : CandidateSource
  proxy : Option ProxySpec
deriving DecidableEq, Repr

inductive NetworkError
  | noCandidates
  | provider (message : Text)
  | providerUnavailable (name message : Text)
deriving DecidableEq, Repr

structure ResolverPolicy where
  preferTailscale : Bool
  allowPublicFallback : Bool
deriving DecidableEq, Repr

/-! ## Order -/

def score (kind : AddressKind) (policy : ResolverPolicy) : Int32 :=
  match kind with
  | .manual => 0
  | .tailscale => if policy.preferTailscale then 1 else 3
  | .lan => 2
  | .publicKind => if policy.allowPublicFallback then 4 else 99
  | .jumpHost => 5

def sortKey (candidate : AddressCandidate) (policy : ResolverPolicy) : Int32 × Int32 :=
  (score candidate.address.kind policy, -candidate.address.priority)

/-- The order of the keys, which are compared from left to right. -/
def Before (policy : ResolverPolicy) (a b : AddressCandidate) : Prop :=
  (sortKey a policy).1 < (sortKey b policy).1 ∨
    ((sortKey a policy).1 = (sortKey b policy).1 ∧ (sortKey a policy).2 ≤ (sortKey b policy).2)

instance (policy : ResolverPolicy) : DecidableRel (Before policy) :=
  fun _ _ => inferInstanceAs (Decidable (_ ∨ _))

/-- `sort_by_key(|candidate| sort_key(candidate, policy))`, which is stable. -/
def sortByKey (policy : ResolverPolicy) (candidates : List AddressCandidate) : List AddressCandidate :=
  candidates.insertionSort (Before policy)

/-! ## Candidates -/

/-- The address is enabled, and the policy allows it. -/
def allowed (policy : ResolverPolicy) (address : HostRecord.Address) : Bool :=
  address.enabled && (policy.allowPublicFallback || address.kind != .publicKind)

def configuredCandidates (addresses : List HostRecord.Address) (policy : ResolverPolicy) :
    Except NetworkError (List AddressCandidate) :=
  let candidates := (addresses.filter (allowed policy)).map fun address => ⟨address, .configured, none⟩
  if candidates.isEmpty then .error .noCandidates else .ok (sortByKey policy candidates)

/-- What addresses are compared by. -/
def key (candidate : AddressCandidate) : UInt16 × Text := (candidate.address.port, candidate.address.hostnameOrIp)

/-- The candidate takes the place of the one with its address, if only it has a proxy. -/
def replaceProxy (candidate : AddressCandidate) : List AddressCandidate → List AddressCandidate
  | [] => []
  | existing :: rest =>
    if key existing = key candidate then
      (if existing.proxy.isNone && candidate.proxy.isSome then candidate else existing) :: rest
    else existing :: replaceProxy candidate rest

/-- One turn of the loop: the keys that have been seen, and what is put out. -/
def deduplicateStep (s : List (UInt16 × Text) × List AddressCandidate) (candidate : AddressCandidate) :
    List (UInt16 × Text) × List AddressCandidate :=
  if s.1.contains (key candidate) then (s.1, replaceProxy candidate s.2)
  else (s.1 ++ [key candidate], s.2 ++ [candidate])

def deduplicate (candidates : List AddressCandidate) (policy : ResolverPolicy) : List AddressCandidate :=
  sortByKey policy (candidates.foldl deduplicateStep ([], [])).2

/-- What there is to choose from; `providers` is what each provider answers. -/
def merged (addresses : List HostRecord.Address) (policy : ResolverPolicy)
    (providers : List (Except NetworkError (List AddressCandidate))) : List AddressCandidate :=
  providers.foldl
    (fun merged result =>
      match result with
      | .ok candidates => merged ++ candidates
      | .error _ => merged)
    (match configuredCandidates addresses policy with
    | .ok candidates => candidates
    | .error _ => [])

/-- `CandidateResolver::candidates`. -/
def candidates (addresses : List HostRecord.Address) (policy : ResolverPolicy)
    (providers : List (Except NetworkError (List AddressCandidate))) : List AddressCandidate :=
  deduplicate (merged addresses policy providers) policy

end KW.Candidates
