import KodeWork.Impl.Candidates

/-!
# The candidates and their order

After some candidates, the loop of `deduplicate` has put out the one that is kept for each
address (`kept`): the first that has a proxy, or else the first (`Chosen`, by one step).
Sorting does not change which they are. It brings them in the order of the policy where
the negation of a priority is that of the number, which it is for all but the lowest
`i32` (`Before.ordered_iff`).
-/

namespace KW.Candidates

/-! ## Which are kept -/

/-- The candidate that is kept for an address. -/
def kept (candidates : List AddressCandidate) (address : UInt16 × Text) : Option AddressCandidate :=
  (candidates.find? fun c => key c = address && c.proxy.isSome).or (candidates.find? fun c => key c = address)

/-- What the loop has put out. -/
structure Chosen (candidates : List AddressCandidate) (s : List (UInt16 × Text) × List AddressCandidate) : Prop where
  seen : s.1 = s.2.map key
  nodup : (s.2.map key).Nodup
  mem (c : AddressCandidate) : c ∈ s.2 ↔ kept candidates (key c) = some c

theorem key_of_kept {candidates : List AddressCandidate} {address : UInt16 × Text} {c : AddressCandidate}
    (h : kept candidates address = some c) : key c = address := by
  rw [kept, Option.or_eq_some_iff] at h
  rcases h with h | ⟨-, h⟩
  · have hc := List.find?_some h
    simp only [Bool.and_eq_true, decide_eq_true_eq] at hc
    exact hc.1
  · simpa using List.find?_some h

theorem kept_isSome {candidates : List AddressCandidate} {c : AddressCandidate} (h : c ∈ candidates) :
    ∃ e, kept candidates (key c) = some e := by
  have hfirst : (candidates.find? fun d => key d = key c).isSome := List.find?_isSome.mpr ⟨c, h, by simp⟩
  exact Option.isSome_iff_exists.mp (by rw [kept, Option.isSome_or, hfirst, Bool.or_true])

/-- A candidate with a proxy gives its address one with a proxy. -/
theorem kept_proxy {candidates : List AddressCandidate} {c e : AddressCandidate} (h : c ∈ candidates)
    (hproxy : c.proxy.isSome = true) (he : kept candidates (key c) = some e) : e.proxy.isSome = true := by
  have hfirst : (candidates.find? fun d => key d = key c && d.proxy.isSome).isSome :=
    List.find?_isSome.mpr ⟨c, h, by simp [hproxy]⟩
  obtain ⟨d, hd⟩ := Option.isSome_iff_exists.mp hfirst
  rw [kept, hd, Option.some_or] at he
  cases he
  have hboth := List.find?_some hd
  rw [Bool.and_eq_true] at hboth
  exact hboth.2

/-- One more candidate. -/
theorem kept_concat (candidates : List AddressCandidate) (c : AddressCandidate) (address : UInt16 × Text) :
    kept (candidates ++ [c]) address =
      if key c = address then
        match kept candidates address with
        | none => some c
        | some e => if e.proxy.isNone && c.proxy.isSome then some c else some e
      else kept candidates address := by
  rw [kept, List.find?_append, List.find?_append, List.find?_singleton, List.find?_singleton]
  by_cases hkey : key c = address
  · rw [if_pos hkey]
    simp only [hkey, decide_true, Bool.true_and, if_true]
    cases hproxied : candidates.find? fun d => key d = address && d.proxy.isSome with
    | some e =>
      -- it has a proxy already
      have hkept : kept candidates address = some e := by rw [kept, hproxied, Option.some_or]
      have he := List.find?_some hproxied
      rw [Bool.and_eq_true] at he
      have hsome : e.proxy.isNone = false := by rw [Option.isNone_eq_false_iff]; exact he.2
      rw [hkept]
      simp [hsome]
    | none =>
      have hkept : kept candidates address = candidates.find? fun d => key d = address := by
        rw [kept, hproxied, Option.none_or]
      rw [hkept]
      cases hfirst : candidates.find? fun d => key d = address with
      | none => cases hc : c.proxy.isSome <;> simp
      | some e =>
        have he : e.proxy.isNone = true := by
          have hnot := List.find?_eq_none.mp hproxied e (List.mem_of_find?_eq_some hfirst)
          have hkeye := List.find?_some hfirst
          rw [Bool.and_eq_true] at hnot
          cases hp : e.proxy with
          | none => rfl
          | some proxy => exact (hnot ⟨hkeye, by rw [hp]; rfl⟩).elim
        cases hc : c.proxy.isSome <;> simp [he]
  · simp [hkey, kept]

/-! ## The loop -/

theorem map_key_replaceProxy (c : AddressCandidate) (out : List AddressCandidate) :
    (replaceProxy c out).map key = out.map key := by
  induction out with
  | nil => rfl
  | cons e out ih =>
    rw [replaceProxy]
    split
    · case isTrue hkey =>
      split
      · rw [List.map_cons, List.map_cons, hkey]
      · rfl
    · rw [List.map_cons, List.map_cons, ih]

/-- Where the candidate's address is put out, by `e`, only `e` may change. -/
theorem mem_replaceProxy {c e : AddressCandidate} {out : List AddressCandidate} (hnodup : (out.map key).Nodup)
    (he : e ∈ out) (hkey : key e = key c) (d : AddressCandidate) :
    d ∈ replaceProxy c out ↔
      (d ∈ out ∧ key d ≠ key c) ∨ d = if e.proxy.isNone && c.proxy.isSome then c else e := by
  induction out with
  | nil => cases he
  | cons first out ih =>
    rw [List.map_cons, List.nodup_cons] at hnodup
    obtain ⟨hfirst, hnodup⟩ := hnodup
    rw [replaceProxy]
    by_cases hkeyFirst : key first = key c
    · -- the first one is `e`, and no other has its address
      have hself : e = first := by
        rcases List.mem_cons.mp he with rfl | hin
        · rfl
        · exact (hfirst (hkeyFirst.trans hkey.symm ▸ List.mem_map_of_mem hin)).elim
      subst hself
      have hrest : d ∈ out → key d ≠ key c := fun hd heq =>
        hfirst (hkeyFirst.trans heq.symm ▸ List.mem_map_of_mem hd)
      rw [if_pos hkeyFirst, List.mem_cons, List.mem_cons]
      constructor
      · rintro (hd | hd)
        · exact .inr hd
        · exact .inl ⟨.inr hd, hrest hd⟩
      · rintro (⟨rfl | hd, hne⟩ | hd)
        · exact (hne hkeyFirst).elim
        · exact .inr hd
        · exact .inl hd
    · have hin : e ∈ out := by
        rcases List.mem_cons.mp he with rfl | hin
        · exact (hkeyFirst hkey).elim
        · exact hin
      rw [if_neg hkeyFirst, List.mem_cons, List.mem_cons, ih hnodup hin]
      constructor
      · rintro (rfl | ⟨hd, hne⟩ | hd)
        · exact .inl ⟨.inl rfl, hkeyFirst⟩
        · exact .inl ⟨.inr hd, hne⟩
        · exact .inr hd
      · rintro (⟨hd | hd, hne⟩ | hd)
        · exact .inl hd
        · exact .inr (.inl ⟨hd, hne⟩)
        · exact .inr (.inr hd)

theorem Chosen.step {candidates : List AddressCandidate} {s : List (UInt16 × Text) × List AddressCandidate}
    (h : Chosen candidates s) (c : AddressCandidate) : Chosen (candidates ++ [c]) (deduplicateStep s c) := by
  have hseen : s.1.contains (key c) = true ↔ ∃ e, kept candidates (key c) = some e := by
    rw [h.seen, List.contains_iff_mem, List.mem_map]
    constructor
    · intro ⟨e, he, hkey⟩
      exact ⟨e, hkey ▸ (h.mem e).mp he⟩
    · intro ⟨e, he⟩
      have hkey := key_of_kept he
      exact ⟨e, (h.mem e).mpr (hkey.symm ▸ he), hkey⟩
  rw [deduplicateStep]
  split
  · case isTrue hin =>
    obtain ⟨e, he⟩ := hseen.mp hin
    have hkey := key_of_kept he
    have hmem : e ∈ s.2 := (h.mem e).mpr (hkey.symm ▸ he)
    refine ⟨?_, ?_, fun d => ?_⟩
    · rw [map_key_replaceProxy]
      exact h.seen
    · rw [map_key_replaceProxy]
      exact h.nodup
    · rw [mem_replaceProxy h.nodup hmem hkey, kept_concat, h.mem]
      by_cases hd : key c = key d
      · rw [if_pos hd, ← hd, he]
        have hne : ¬ (kept candidates (key d) = some d ∧ key d ≠ key c) := fun hboth => hboth.2 hd.symm
        dsimp only
        cases hboth : e.proxy.isNone && c.proxy.isSome with
        | true => simp [eq_comm]
        | false => simp [eq_comm]
      · rw [if_neg hd]
        constructor
        · rintro (⟨hkept, -⟩ | hself)
          · exact hkept
          · refine (hd ?_).elim
            rw [hself]
            split
            · rfl
            · exact hkey.symm
        · intro hkept
          exact .inl ⟨hkept, Ne.symm hd⟩
  · case isFalse hnew =>
    have hnone : kept candidates (key c) = none := by
      cases hk : kept candidates (key c) with
      | none => rfl
      | some e => exact (hnew (hseen.mpr ⟨e, hk⟩)).elim
    have hfresh : key c ∉ s.2.map key := by
      rw [← h.seen, ← List.contains_iff_mem]
      exact hnew
    refine ⟨by rw [List.map_append, h.seen]; rfl, ?_, fun d => ?_⟩
    · rw [List.map_append, List.nodup_append]
      refine ⟨h.nodup, List.nodup_singleton _, fun k hk k' hk' => ?_⟩
      rintro rfl
      rw [List.mem_singleton.mp hk'] at hk
      exact hfresh hk
    · rw [List.mem_append, List.mem_singleton, kept_concat]
      by_cases hd : key c = key d
      · rw [if_pos hd, ← hd, hnone]
        constructor
        · rintro (hin | rfl)
          · have hkept := (h.mem d).mp hin
            rw [← hd, hnone] at hkept
            cases hkept
          · rfl
        · intro hself
          exact .inr (Option.some.inj hself).symm
      · rw [if_neg hd, ← h.mem]
        constructor
        · rintro (hin | rfl)
          · exact hin
          · exact (hd rfl).elim
        · exact .inl

theorem chosen (candidates : List AddressCandidate) :
    Chosen candidates (candidates.foldl deduplicateStep ([], [])) := by
  induction candidates using List.reverseRecOn with
  | nil => exact ⟨rfl, List.nodup_nil, fun c => by simp [kept]⟩
  | append_singleton candidates c ih =>
    rw [List.foldl_append]
    exact ih.step c

/-! ## Order -/

/-- The lowest priority, which is its own negation. -/
def lowest : Int32 := Int32.minValue

/-- In the order of the policy, the higher priority first. -/
def Ordered (policy : ResolverPolicy) (a b : AddressCandidate) : Prop :=
  score a.address.kind policy < score b.address.kind policy ∨
    (score a.address.kind policy = score b.address.kind policy ∧ b.address.priority ≤ a.address.priority)

theorem toInt_neg_of_ne {x : Int32} (h : x ≠ lowest) : (-x).toInt = -x.toInt := by
  have hne : x.toInt ≠ -2147483648 := fun heq => h (Int32.toInt_inj.mp heq)
  have hlow : -2147483648 ≤ x.toInt := Int32.le_toInt x
  have hhigh : x.toInt < 2147483648 := Int32.toInt_lt x
  rw [Int32.toInt_neg]
  exact Int.bmod_eq_of_le (by omega) (by omega)

theorem neg_le_neg {x y : Int32} (hx : x ≠ lowest) (hy : y ≠ lowest) : -x ≤ -y ↔ y ≤ x := by
  rw [Int32.le_iff_toInt_le, Int32.le_iff_toInt_le, toInt_neg_of_ne hx, toInt_neg_of_ne hy]
  omega

theorem neg_lowest : -lowest = lowest := by decide

theorem le_lowest {x : Int32} (h : x ≤ lowest) : x = lowest :=
  Int32.toInt_inj.mp (Int.le_antisymm (Int32.le_iff_toInt_le.mp h) (Int32.le_toInt x))

theorem neg_eq_lowest {x : Int32} (h : -x = lowest) : x = lowest := by
  by_contra hx
  have hneg := toInt_neg_of_ne hx
  rw [h] at hneg
  have hhigh : x.toInt < 2147483648 := Int32.toInt_lt x
  have hval : lowest.toInt = -2147483648 := rfl
  omega

/-- The keys are ordered as the policy says, if not exactly one priority is the lowest. -/
theorem before_iff_ordered {policy : ResolverPolicy} {a b : AddressCandidate}
    (h : score a.address.kind policy = score b.address.kind policy →
      (a.address.priority = lowest ↔ b.address.priority = lowest)) :
    Before policy a b ↔ Ordered policy a b := by
  refine or_congr_right (and_congr_right fun hscore => ?_)
  show -a.address.priority ≤ -b.address.priority ↔ b.address.priority ≤ a.address.priority
  by_cases ha : a.address.priority = lowest
  · have hb : b.address.priority = lowest := (h hscore).mp ha
    rw [ha, hb, neg_lowest]
  · have hb : b.address.priority ≠ lowest := fun hb => ha ((h hscore).mpr hb)
    exact neg_le_neg ha hb

instance (policy : ResolverPolicy) : Std.Total (Before policy) where
  total a b := by
    simp only [Before, Int32.lt_iff_toInt_lt, Int32.le_iff_toInt_le, ← Int32.toInt_inj]
    omega

instance (policy : ResolverPolicy) : IsTrans AddressCandidate (Before policy) where
  trans a b c := by
    simp only [Before, Int32.lt_iff_toInt_lt, Int32.le_iff_toInt_le, ← Int32.toInt_inj]
    omega

/-! ## The resolver -/

theorem mem_configured {addresses : List HostRecord.Address} {policy : ResolverPolicy} {c : AddressCandidate} :
    (∃ found, configuredCandidates addresses policy = .ok found ∧ c ∈ found) ↔
      ∃ address ∈ addresses, allowed policy address = true ∧ c = ⟨address, .configured, none⟩ := by
  have hmem : c ∈ (addresses.filter (allowed policy)).map (fun address => ⟨address, .configured, none⟩) ↔
      ∃ address ∈ addresses, allowed policy address = true ∧ c = ⟨address, .configured, none⟩ := by
    rw [List.mem_map]
    exact exists_congr fun address => by rw [List.mem_filter, and_assoc, Eq.comm (a := c)]
  rw [configuredCandidates, ← hmem]
  split
  · case isTrue hempty =>
    rw [List.isEmpty_iff.mp hempty]
    simp
  · constructor
    · intro ⟨found, hfound, hc⟩
      cases hfound
      exact List.mem_insertionSort _ |>.mp hc
    · intro hc
      exact ⟨_, rfl, (List.mem_insertionSort _).mpr hc⟩

theorem mem_merged {addresses : List HostRecord.Address} {policy : ResolverPolicy}
    {providers : List (Except NetworkError (List AddressCandidate))} {c : AddressCandidate} :
    c ∈ merged addresses policy providers ↔
      (∃ address ∈ addresses, allowed policy address = true ∧ c = ⟨address, .configured, none⟩) ∨
        ∃ found, .ok found ∈ providers ∧ c ∈ found := by
  rw [← mem_configured]
  induction providers using List.reverseRecOn with
  | nil =>
    rw [merged, List.foldl_nil]
    cases configuredCandidates addresses policy <;> simp
  | append_singleton providers result ih =>
    rw [merged] at ih ⊢
    rw [List.foldl_append, List.foldl_cons, List.foldl_nil]
    cases result with
    | error e => simp [ih]
    | ok found => simp [ih, or_assoc, or_and_right, exists_or]

theorem mem_candidates {addresses : List HostRecord.Address} {policy : ResolverPolicy}
    {providers : List (Except NetworkError (List AddressCandidate))} {c : AddressCandidate} :
    c ∈ candidates addresses policy providers ↔ kept (merged addresses policy providers) (key c) = some c := by
  rw [candidates, deduplicate, sortByKey, List.mem_insertionSort]
  exact (chosen _).mem c

/-- What a list of candidates must be. -/
structure Resolved (addresses : List HostRecord.Address) (policy : ResolverPolicy)
    (providers : List (Except NetworkError (List AddressCandidate))) (out : List AddressCandidate) : Prop where
  distinct : (out.map key).Nodup
  configured {address : HostRecord.Address} (h : address ∈ addresses) (hallowed : allowed policy address = true) :
    ∃ e ∈ out, key e = (address.port, address.hostnameOrIp)
  discovered {found : List AddressCandidate} (h : .ok found ∈ providers) {c : AddressCandidate} (hc : c ∈ found) :
    ∃ e ∈ out, key e = key c
  proxied {found : List AddressCandidate} (h : .ok found ∈ providers) {c : AddressCandidate} (hc : c ∈ found)
    (hproxy : c.proxy.isSome = true) {e : AddressCandidate} (he : e ∈ out) (hkey : key e = key c) :
    e.proxy.isSome = true
  ordered : out.Pairwise (Ordered policy)

/-- Among the candidates that are kept, one of the lowest priority has none of another in
its score. -/
def LowestApart (addresses : List HostRecord.Address) (policy : ResolverPolicy)
    (providers : List (Except NetworkError (List AddressCandidate))) : Prop :=
  ∀ c d, kept (merged addresses policy providers) (key c) = some c →
    kept (merged addresses policy providers) (key d) = some d →
    score c.address.kind policy = score d.address.kind policy →
    c.address.priority = lowest → d.address.priority = lowest

theorem ordered_of_lowestApart {addresses : List HostRecord.Address} {policy : ResolverPolicy}
    {providers : List (Except NetworkError (List AddressCandidate))} (h : LowestApart addresses policy providers) :
    (candidates addresses policy providers).Pairwise (Ordered policy) := by
  have hsorted : (candidates addresses policy providers).Pairwise (Before policy) :=
    List.pairwise_insertionSort (Before policy) _
  refine hsorted.imp_of_mem fun {a b} ha hb hbefore => ?_
  rw [mem_candidates] at ha hb
  exact (before_iff_ordered fun hscore => ⟨h a b ha hb hscore, h b a hb ha hscore.symm⟩).mp hbefore

/-- A list in the order of the keys and in that of the policy has the lowest priority
nowhere beside another of its score. -/
theorem lowest_of_ordered {policy : ResolverPolicy} {c d : AddressCandidate} {out : List AddressCandidate}
    (hbefore : out.Pairwise (Before policy)) (hordered : out.Pairwise (Ordered policy)) (hc : c ∈ out) (hd : d ∈ out)
    (hscore : score c.address.kind policy = score d.address.kind policy) (hlow : c.address.priority = lowest) :
    d.address.priority = lowest := by
  obtain ⟨i, hi, rfl⟩ := List.getElem_of_mem hc
  obtain ⟨j, hj, rfl⟩ := List.getElem_of_mem hd
  have hirrefl : ¬ score out[i].address.kind policy < score out[j].address.kind policy := by
    rw [hscore]
    exact Int32.lt_irrefl
  have hirrefl' : ¬ score out[j].address.kind policy < score out[i].address.kind policy := by
    rw [hscore]
    exact Int32.lt_irrefl
  rcases Nat.lt_trichotomy i j with hij | rfl | hji
  · -- the lowest first: the policy wants the other one no higher
    have hle := (List.pairwise_iff_getElem.mp hordered i j hi hj hij).resolve_left hirrefl
    rw [hlow] at hle
    exact le_lowest hle.2
  · exact hlow
  · -- the lowest last: its key is no lower
    have hle := (List.pairwise_iff_getElem.mp hbefore j i hj hi hji).resolve_left hirrefl'
    have hneg : -out[j].address.priority ≤ -out[i].address.priority := hle.2
    rw [hlow, neg_lowest] at hneg
    exact neg_eq_lowest (le_lowest hneg)

/-- The resolver gives what it must if and only if no candidate of the lowest priority has
one of another in its score. -/
theorem resolved_iff (addresses : List HostRecord.Address) (policy : ResolverPolicy)
    (providers : List (Except NetworkError (List AddressCandidate))) :
    Resolved addresses policy providers (candidates addresses policy providers) ↔
      LowestApart addresses policy providers := by
  have hentry {c : AddressCandidate} (hc : c ∈ merged addresses policy providers) :
      ∃ e ∈ candidates addresses policy providers, key e = key c := by
    obtain ⟨e, he⟩ := kept_isSome hc
    have hkey := key_of_kept he
    exact ⟨e, mem_candidates.mpr (hkey.symm ▸ he), hkey⟩
  constructor
  · intro h c d hc hd hscore hlow
    exact lowest_of_ordered (List.pairwise_insertionSort (Before policy) _) h.ordered (mem_candidates.mpr hc)
      (mem_candidates.mpr hd) hscore hlow
  · intro h
    refine ⟨?_, fun {address} hin hallowed => ?_, fun {found} hfound {c} hc => ?_, fun {found} hfound {c} hc hproxy {e} he hkey => ?_,
      ordered_of_lowestApart h⟩
    · have hperm := (List.perm_insertionSort (Before policy)
        ((merged addresses policy providers).foldl deduplicateStep ([], [])).2).map key
      exact hperm.nodup_iff.mpr (chosen _).nodup
    · exact hentry (mem_merged.mpr (.inl ⟨address, hin, hallowed, rfl⟩))
    · exact hentry (mem_merged.mpr (.inr ⟨found, hfound, hc⟩))
    · have hkept := mem_candidates.mp he
      rw [hkey] at hkept
      exact kept_proxy (mem_merged.mpr (.inr ⟨found, hfound, hc⟩)) hproxy hkept

/-! ### The lowest priority comes first -/

def lowAddress : HostRecord.Address := ⟨⟨1⟩, .lan, "10.0.0.1".toList, 22, lowest, true⟩

def highAddress : HostRecord.Address := ⟨⟨2⟩, .lan, "10.0.0.2".toList, 22, 10, true⟩

theorem lowest_first : ¬ ∀ (addresses : List HostRecord.Address) (policy : ResolverPolicy)
    (providers : List (Except NetworkError (List AddressCandidate))),
    Resolved addresses policy providers (candidates addresses policy providers) := by
  intro hall
  have hresolved := hall [lowAddress, highAddress] ⟨true, true⟩ []
  have hout : candidates [lowAddress, highAddress] ⟨true, true⟩ [] =
      [⟨lowAddress, .configured, none⟩, ⟨highAddress, .configured, none⟩] := by
    decide
  rw [hout] at hresolved
  have hordered := List.rel_of_pairwise_cons hresolved.ordered (List.mem_singleton_self _)
  have hnot : ¬ Ordered ⟨true, true⟩ ⟨lowAddress, .configured, none⟩ ⟨highAddress, .configured, none⟩ := by
    unfold Ordered
    decide
  exact hnot hordered

end KW.Candidates
