import KodeWork.Proof.Shell.Probe

/-!
# What is made of the answer to the probe

The bytes that the probe prints are read line by line and field by field. Read back, the
answer of a machine says what its files and its sessions say; and of any other bytes no more
is believed than a line with the id of the run can say.
-/

namespace KW.Probe

open KW.Shell KW.Actions

/-! ## Keys -/

theorem forall_mem_toDigits {p : Char → Prop} (hp : ∀ d < 16, p (Nat.digitChar d)) (n : Nat) :
    ∀ c ∈ Nat.toDigits 16 n, p c := by
  induction n using Nat.strongRecOn with
  | ind n ih =>
    rw [Nat.toDigits_eq_if (by decide)]
    intro c hc
    split at hc
    · case isTrue hn =>
      rw [List.mem_singleton.mp hc]
      exact hp n hn
    · case isFalse hn =>
      rcases List.mem_append.mp hc with hc | hc
      · exact ih (n / 16) (Nat.div_lt_self (by omega) (by decide)) c hc
      · rw [List.mem_singleton.mp hc]
        exact hp (n % 16) (Nat.mod_lt n (by decide))

def hexDigitValue (c : Char) : Nat := if c.isDigit then c.toNat - 48 else c.toNat - 87

/-- The number that hexadecimal digits stand for. -/
def hexValue (t : Text) : Nat := t.foldl (fun value c => 16 * value + hexDigitValue c) 0

theorem hexValue_toDigits (n : Nat) : hexValue (Nat.toDigits 16 n) = n := by
  have hdigit : ∀ d < 16, hexDigitValue (Nat.digitChar d) = d := by decide
  induction n using Nat.strongRecOn with
  | ind n ih =>
    rw [Nat.toDigits_eq_if (by decide)]
    split
    · case isTrue hn =>
      show 16 * 0 + hexDigitValue (Nat.digitChar n) = n
      rw [hdigit n hn]
      omega
    · case isFalse hn =>
      have hhigh := ih (n / 16) (Nat.div_lt_self (by omega) (by decide))
      rw [hexValue] at hhigh
      rw [hexValue, List.foldl_append, hhigh]
      show 16 * (n / 16) + hexDigitValue (Nat.digitChar (n % 16)) = n
      rw [hdigit (n % 16) (Nat.mod_lt n (by decide))]
      omega

theorem hexValue_runKey (id : RunId) : hexValue (History.runKey id).toList = id.uuid := by
  have hzeros (n : Nat) (t : Text) : hexValue (List.replicate n '0' ++ t) = hexValue t := by
    induction n with
    | zero => rfl
    | succ n ih => exact ih
  rw [History.runKey, String.toList_ofList, hzeros, hexValue_toDigits]

theorem runKey_inj {id id' : RunId} (h : (History.runKey id).toList = (History.runKey id').toList) : id = id' := by
  have huuid : id.uuid = id'.uuid := by rw [← hexValue_runKey id, h, hexValue_runKey]
  cases id
  cases id'
  cases huuid
  rfl

theorem length_runKey {id : RunId} (h : id.uuid < 340282366920938463463374607431768211456) :
    (History.runKey id).toList.length = 32 := by
  have hlength : (Nat.toDigits 16 id.uuid).length ≤ 32 := (Nat.length_toDigits_le_iff (by decide) (by decide)).mpr h
  rw [History.runKey, String.toList_ofList, List.length_append, List.length_replicate]
  omega

theorem isAsciiHexdigit_runKey (id : RunId) : ∀ c ∈ (History.runKey id).toList, isAsciiHexdigit c = true := by
  have hdigit : ∀ d < 16, isAsciiHexdigit (Nat.digitChar d) = true := by decide
  intro c hc
  rw [History.runKey, String.toList_ofList] at hc
  rcases List.mem_append.mp hc with hc | hc
  · rw [List.eq_of_mem_replicate hc]
    decide
  · exact forall_mem_toDigits (p := fun c => isAsciiHexdigit c = true) hdigit id.uuid c hc

/-- A script is built for every batch of ids of 128 bits. -/
theorem build_ok {requests : List RemoteRunProbeRequest}
    (h : ∀ request ∈ requests, request.runId.uuid < 340282366920938463463374607431768211456) :
    ∃ script, buildRemoteRunProbeCommand requests = .ok script := by
  have hparts : ∃ parts, requests.mapM probePart = .ok parts := by
    induction requests with
    | nil => exact ⟨[], rfl⟩
    | cons request requests ih =>
      obtain ⟨rest, hrest⟩ := ih fun request hmem => h request (List.mem_cons_of_mem _ hmem)
      have hlength := length_runKey (h request List.mem_cons_self)
      have hhex : (History.runKey request.runId).toList.all isAsciiHexdigit = true :=
        List.all_eq_true.mpr (isAsciiHexdigit_runKey request.runId)
      refine ⟨probeText (History.runKey request.runId).toList (modeText request.mode) :: rest, ?_⟩
      rw [List.mapM_cons, hrest, probePart]
      simp only [hlength, hhex]
      rfl
  obtain ⟨parts, hparts⟩ := hparts
  exact ⟨_, by rw [buildRemoteRunProbeCommand, hparts]; rfl⟩

/-! ## Numbers -/

theorem isDigit_toDigits {n : Nat} {c : Char} (hc : c ∈ Nat.toDigits 10 n) : c.isDigit = true :=
  Nat.isDigit_of_mem_toDigits (by decide) (by decide) hc

theorem parseDigits_toDigits (largest n : Nat) :
    parseDigits largest (Nat.toDigits 10 n) = if n ≤ largest then some n else none := by
  have hall : (Nat.toDigits 10 n).all Char.isDigit = true := List.all_eq_true.mpr fun c hc => isDigit_toDigits hc
  rw [parseDigits, if_neg (by simp [Nat.toDigits_ne_nil, hall]), Nat.ofDigitChars_ten_toDigits]

/-- No sign stands before the digits of a number. -/
theorem toDigits_eq_cons (n : Nat) : ∃ c t, Nat.toDigits 10 n = c :: t ∧ c ≠ '-' ∧ c ≠ '+' := by
  obtain ⟨c, t, heq⟩ := List.exists_cons_of_ne_nil (Nat.toDigits_ne_nil (n := n) (b := 10))
  have hdigit : c.isDigit = true := isDigit_toDigits (by rw [heq]; exact List.mem_cons_self)
  refine ⟨c, t, heq, ?_, ?_⟩ <;>
  · rintro rfl
    revert hdigit
    decide

theorem parseU64_toDigits (n : Nat) : parseU64 (Nat.toDigits 10 n) = if n ≤ History.u64Max then some n else none := by
  obtain ⟨c, t, heq, -, hplus⟩ := toDigits_eq_cons n
  rw [← parseDigits_toDigits, heq, parseU64]
  rintro t' ⟨⟩
  exact hplus rfl

theorem parseI32_toDigits (n : Nat) :
    parseI32 (Nat.toDigits 10 n) = if n < 2147483648 then some (Int32.ofNat n) else none := by
  obtain ⟨c, t, heq, hminus, hplus⟩ := toDigits_eq_cons n
  have hdigits : parseI32 (Nat.toDigits 10 n) =
      (parseDigits 2147483647 (Nat.toDigits 10 n)).map fun n => Int32.ofNat n := by
    rw [heq, parseI32]
    · rintro t' ⟨⟩
      exact hminus rfl
    · rintro t' ⟨⟩
      exact hplus rfl
  rw [hdigits, parseDigits_toDigits]
  by_cases h : n < 2147483648
  · rw [if_pos h, if_pos (by omega)]
    rfl
  · rw [if_neg h, if_neg (by omega)]
    rfl

theorem parseEpochSeconds_toDigits (n : Nat) : parseEpochSeconds (some (Nat.toDigits 10 n)) = checkedMillis n := by
  rw [parseEpochSeconds, Option.bind_some, parseU64_toDigits]
  split
  · rfl
  · case isFalse hlarge =>
    rw [checkedMillis, if_neg (by omega)]
    rfl

/-! ## Lines -/

theorem lines_cons {line : Text} (hline : ∀ c ∈ line, c ≠ '\n' ∧ c ≠ '\r') (t : Text) :
    Text.lines (line ++ '\n' :: t) = line :: Text.lines t := by
  induction line with
  | nil => rw [List.nil_append, Text.lines]
  | cons c line ih =>
    obtain ⟨hfeed, hreturn⟩ := hline c List.mem_cons_self
    have hrest := ih fun c hc => hline c (List.mem_cons_of_mem _ hc)
    rw [List.cons_append, Text.lines, hrest]
    · intro t' hc
      exact absurd hc hreturn
    · exact hfeed

/-- The lines of lines. -/
theorem lines_flatMap {α : Type} {line : α → Text} {l : List α} (hline : ∀ a ∈ l, ∀ c ∈ line a, c ≠ '\n' ∧ c ≠ '\r') :
    Text.lines (l.flatMap fun a => line a ++ ['\n']) = l.map line := by
  induction l with
  | nil => rfl
  | cons a l ih =>
    have hrest := ih fun b hb => hline b (List.mem_cons_of_mem _ hb)
    rw [List.flatMap_cons, List.append_assoc, List.singleton_append, lines_cons (hline a List.mem_cons_self), hrest]
    rfl

/-! ## The round trip -/

/-- What the marker files of a run say. -/
structure RunMarkers where
  exitCode : Option Nat
  startedAtS : Option Nat
  finishedAtS : Option Nat
deriving DecidableEq, Repr

/-- The markers of a run are in its directory as the run script writes them. Where there is
no exit code the others can say anything. -/
structure RunMarkers.Written (m : RunMarkers) (r : Remote) (dir : Text) : Prop where
  exitCode : r.files (inDir dir "exit_code") = m.exitCode.map Remote.decimalLine
  startedAtS : m.exitCode.isSome = true → r.files (inDir dir "started_at_s") = m.startedAtS.map Remote.decimalLine
  finishedAtS : m.exitCode.isSome = true → r.files (inDir dir "finished_at_s") = m.finishedAtS.map Remote.decimalLine

/-- What the markers of a run mean, and its session. -/
def RunMarkers.state (m : RunMarkers) (mode : ActionMode) (live : Bool) : History.RemoteRunState :=
  match m.exitCode with
  | some code =>
    if code < 2147483648 then
      .completed (Int32.ofNat code) (m.startedAtS.bind checkedMillis) (m.finishedAtS.bind checkedMillis)
    else .unknown
  | none => if mode = .background ∧ live = true then .running else .unknown

def digitsText (n : Option Nat) : Text := (n.map (Nat.toDigits 10)).getD []

theorem fileText_decimal {r : Remote} {path : Text} {n : Option Nat} (h : r.files path = n.map Remote.decimalLine) :
    fileText r path = digitsText n := by
  rw [fileText, h]
  cases n with
  | none => rfl
  | some n =>
    show (Nat.toDigits 10 n ++ ['\n']).rdropWhile (· == '\n') = Nat.toDigits 10 n
    have hlast : (Nat.toDigits 10 n).rdropWhile (· == '\n') = Nat.toDigits 10 n := by
      refine List.rdropWhile_eq_self_iff.mpr fun hne hfeed => ?_
      have hdigit := isDigit_toDigits (List.getLast_mem hne)
      rw [beq_iff_eq.mp hfeed] at hdigit
      revert hdigit
      decide
    rw [List.rdropWhile_concat_pos _ _ _ (by decide), hlast]

theorem parseEpochSeconds_digitsText (n : Option Nat) : parseEpochSeconds (some (digitsText n)) = n.bind checkedMillis := by
  cases n with
  | none => rfl
  | some n => exact parseEpochSeconds_toDigits n

/-- The fields that are printed for a run, from its markers. -/
def markerFields (m : RunMarkers) (key : Text) (mode : ActionMode) (live : Bool) : List Text :=
  match m.exitCode with
  | some code => [key, "completed".toList, Nat.toDigits 10 code, digitsText m.startedAtS, digitsText m.finishedAtS]
  | none => if mode = .background ∧ live = true then [key, "running".toList] else [key, "unknown".toList]

theorem answer_markers {m : RunMarkers} {r : Remote} {dir : Text} (h : m.Written r dir) (key : Text) (mode : ActionMode) :
    answer r dir key mode = markerFields m key mode (livePane r (sessionOf key)) := by
  obtain ⟨hcode, hstarted, hfinished⟩ := h
  rw [answer, markerFields, fileText_decimal hcode, hcode]
  cases hexit : m.exitCode with
  | none => exact if_neg (by simp)
  | some code =>
    rw [hexit] at hstarted hfinished
    rw [fileText_decimal (hstarted rfl), fileText_decimal (hfinished rfl)]
    exact if_pos rfl

/-- Read back, the fields of a run say what its markers mean. -/
theorem lineState_markers (m : RunMarkers) (key : Text) (mode : ActionMode) (live : Bool) :
    ∃ fields, markerFields m key mode live = key :: fields ∧ lineState mode fields = m.state mode live := by
  rw [markerFields, RunMarkers.state]
  cases m.exitCode with
  | some code =>
    refine ⟨_, rfl, ?_⟩
    rw [lineState, if_pos rfl]
    have hparse : (([Nat.toDigits 10 code, digitsText m.startedAtS, digitsText m.finishedAtS] : List Text)[0]?).bind
        parseI32 = if code < 2147483648 then some (Int32.ofNat code) else none := parseI32_toDigits code
    rw [hparse]
    by_cases hcode : code < 2147483648
    · rw [if_pos hcode]
      refine Eq.trans ?_ (if_pos hcode).symm
      show History.RemoteRunState.completed _ (parseEpochSeconds (some (digitsText m.startedAtS)))
        (parseEpochSeconds (some (digitsText m.finishedAtS))) = _
      rw [parseEpochSeconds_digitsText, parseEpochSeconds_digitsText]
    · rw [if_neg hcode]
      exact (if_neg hcode).symm
  | none =>
    by_cases hlive : mode = .background ∧ live = true
    · refine ⟨["running".toList], if_pos hlive, ?_⟩
      rw [lineState, if_neg (by decide), if_pos ⟨rfl, hlive.1⟩]
      exact (if_pos hlive).symm
    · refine ⟨["unknown".toList], if_neg hlive, ?_⟩
      rw [lineState, if_neg (by decide), if_neg fun h => absurd h.1 (by decide)]
      exact (if_neg hlive).symm

/-- There is no separator in the field. -/
def Clean (field : Text) : Prop := ∀ c ∈ field, c ≠ '\t' ∧ c ≠ '\n' ∧ c ≠ '\r'

theorem mem_intercalate {fields : List Text} {c : Char} (h : c ∈ ['\t'].intercalate fields) :
    c = '\t' ∨ ∃ field ∈ fields, c ∈ field := by
  induction fields with
  | nil => cases h
  | cons field fields ih =>
    cases fields with
    | nil =>
      rw [List.intercalate_singleton] at h
      exact .inr ⟨field, List.mem_cons_self, h⟩
    | cons next rest =>
      rw [List.intercalate_cons_cons, List.mem_append, List.mem_append] at h
      rcases h with (h | h) | h
      · exact .inr ⟨field, List.mem_cons_self, h⟩
      · exact .inl (List.mem_singleton.mp h)
      · rcases ih h with h | ⟨other, hother, h⟩
        · exact .inl h
        · exact .inr ⟨other, List.mem_cons_of_mem _ hother, h⟩

theorem clean_runKey (id : RunId) : Clean (History.runKey id).toList := by
  have hhex : ∀ c, isAsciiHexdigit c = true → c ≠ '\t' ∧ c ≠ '\n' ∧ c ≠ '\r' := by
    intro c hc
    refine ⟨?_, ?_, ?_⟩ <;>
    · rintro rfl
      revert hc
      decide
  exact fun c hc => hhex c (isAsciiHexdigit_runKey id c hc)

theorem clean_toDigits (n : Nat) : Clean (Nat.toDigits 10 n) := by
  intro c hc
  have hdigit := isDigit_toDigits hc
  refine ⟨?_, ?_, ?_⟩ <;>
  · rintro rfl
    revert hdigit
    decide

theorem clean_digitsText (n : Option Nat) : Clean (digitsText n) := by
  cases n with
  | none => exact fun c hc => absurd hc List.not_mem_nil
  | some n => exact clean_toDigits n

theorem clean_word {t : String} (h : t ∈ ["completed", "running", "unknown"]) : Clean t.toList := by
  simp only [List.mem_cons, List.not_mem_nil, or_false] at h
  rcases h with rfl | rfl | rfl <;>
    exact Text.forall_of_all (by decide)

theorem clean_markerFields (m : RunMarkers) {key : Text} (hkey : Clean key) (mode : ActionMode) (live : Bool) :
    ∀ field ∈ markerFields m key mode live, Clean field := by
  have hpair {kind : String} (hkind : kind ∈ ["completed", "running", "unknown"]) :
      ∀ field ∈ [key, kind.toList], Clean field := by
    intro field hfield
    simp only [List.mem_cons, List.not_mem_nil, or_false] at hfield
    rcases hfield with rfl | rfl
    · exact hkey
    · exact clean_word hkind
  rw [markerFields]
  cases m.exitCode with
  | none =>
    show ∀ field ∈ (if mode = .background ∧ live = true then [key, "running".toList] else [key, "unknown".toList]),
      Clean field
    split
    · exact hpair (by simp)
    · exact hpair (by simp)
  | some code =>
    show ∀ field ∈ [key, "completed".toList] ++ [Nat.toDigits 10 code, digitsText m.startedAtS,
      digitsText m.finishedAtS], Clean field
    intro field hfield
    rcases List.mem_append.mp hfield with hfield | hfield
    · exact hpair (by simp) field hfield
    · simp only [List.mem_cons, List.not_mem_nil, or_false] at hfield
      rcases hfield with rfl | rfl | rfl
      · exact clean_toDigits code
      · exact clean_digitsText _
      · exact clean_digitsText _

theorem find_request {requests : List RemoteRunProbeRequest} (hdistinct : (requests.map (·.runId)).Nodup)
    {request : RemoteRunProbeRequest} (h : request ∈ requests) :
    (requests.find? fun r => (History.runKey r.runId).toList == (History.runKey request.runId).toList) =
      some request := by
  induction requests with
  | nil => cases h
  | cons first rest ih =>
    rw [List.map_cons, List.nodup_cons] at hdistinct
    rcases List.mem_cons.mp h with rfl | h
    · exact List.find?_cons_of_pos (beq_self_eq_true _)
    · have hne : ¬((History.runKey first.runId).toList == (History.runKey request.runId).toList) = true := by
        intro heq
        have hid := runKey_inj (beq_iff_eq.mp heq)
        exact hdistinct.1 (hid ▸ List.mem_map_of_mem h)
      rw [List.find?_cons]
      split
      · case h_1 heq => exact absurd heq hne
      · exact ih hdistinct.2 h

theorem parseLines_eq (requests : List RemoteRunProbeRequest) (lines : List Text) :
    parseLines requests lines = (lines.filterMap (readLine requests)).reverse := by
  have hfold (parsed : List (RunId × History.RemoteRunState)) :
      lines.foldl (insertLine requests) parsed = (lines.filterMap (readLine requests)).reverse ++ parsed := by
    induction lines generalizing parsed with
    | nil => rfl
    | cons line lines ih =>
      rw [List.foldl_cons, ih, insertLine]
      cases hline : readLine requests line with
      | none => rw [List.filterMap_cons_none hline]
      | some entry =>
        rw [List.filterMap_cons_some hline, List.reverse_cons, List.append_assoc]
        rfl
  rw [parseLines, hfold, List.append_nil]

theorem lookup_of_nodup {α β : Type} [DecidableEq α] {l : List (α × β)} (hdistinct : (l.map Prod.fst).Nodup)
    {a : α} {b : β} (h : (a, b) ∈ l) : l.lookup a = some b := by
  induction l with
  | nil => cases h
  | cons p l ih =>
    obtain ⟨a', b'⟩ := p
    rw [List.map_cons, List.nodup_cons] at hdistinct
    rw [List.lookup_cons]
    rcases List.mem_cons.mp h with heq | hmem
    · cases heq
      rw [beq_self_eq_true]
    · have hne : (a == a') = false := by
        refine beq_false_of_ne ?_
        rintro rfl
        exact hdistinct.1 (List.mem_map.mpr ⟨_, hmem, rfl⟩)
      rw [hne]
      exact ih hdistinct.2 hmem

/-- Lines that say one thing of each request are read so. -/
theorem reconcile_lines {requests : List RemoteRunProbeRequest} (hdistinct : (requests.map (·.runId)).Nodup)
    {fields : RemoteRunProbeRequest → List Text}
    (hclean : ∀ request ∈ requests, ∀ field ∈ (History.runKey request.runId).toList :: fields request, Clean field) :
    reconcileRemoteRuns requests (Utf8.encode
        (requests.flatMap fun request => fieldLine ((History.runKey request.runId).toList :: fields request))) =
      requests.map fun request => ⟨request.runId, lineState request.mode (fields request)⟩ := by
  have hlines : Text.lines (requests.flatMap fun request =>
        fieldLine ((History.runKey request.runId).toList :: fields request)) =
      requests.map fun request => ['\t'].intercalate ((History.runKey request.runId).toList :: fields request) := by
    refine lines_flatMap fun request hrequest c hc => ?_
    rcases mem_intercalate hc with rfl | ⟨field, hfield, hc⟩
    · decide
    · exact (hclean request hrequest field hfield c hc).2
  have hread : ∀ request ∈ requests, readLine requests
      (['\t'].intercalate ((History.runKey request.runId).toList :: fields request)) =
        some (request.runId, lineState request.mode (fields request)) := by
    intro request hrequest
    have hsplit : (['\t'].intercalate ((History.runKey request.runId).toList :: fields request)).splitOn '\t' =
        (History.runKey request.runId).toList :: fields request :=
      List.splitOn_intercalate '\t' (fun field hfield hmem => (hclean request hrequest field hfield _ hmem).1 rfl)
        (List.cons_ne_nil _ _)
    rw [readLine, hsplit]
    show (requests.find? _).map _ = _
    rw [find_request hdistinct hrequest]
    rfl
  have hparsed : parseLines requests (requests.map fun request =>
      ['\t'].intercalate ((History.runKey request.runId).toList :: fields request)) =
        (requests.map fun request => (request.runId, lineState request.mode (fields request))).reverse := by
    rw [parseLines_eq, List.filterMap_map, ← List.filterMap_eq_map]
    exact congrArg List.reverse (List.filterMap_congr hread)
  rw [reconcileRemoteRuns, Utf8.lossy_encode, hlines, hparsed]
  refine List.map_congr_left fun request hrequest => ?_
  have hlookup := lookup_of_nodup (l := (requests.map fun request =>
      (request.runId, lineState request.mode (fields request))).reverse)
    (by rw [List.map_reverse, List.map_map]; exact List.nodup_reverse.mpr hdistinct)
    (List.mem_reverse.mpr (List.mem_map_of_mem hrequest))
  rw [hlookup]
  rfl

/-- The fields that are printed for a request, behind its id. -/
def restFields (s : Session Remote) (m : RunMarkers) (request : RemoteRunProbeRequest) : List Text :=
  (markerFields m (History.runKey request.runId).toList request.mode
    (livePane s.world (sessionOf (History.runKey request.runId).toList))).tail

/-- The script asks a machine and its answer is read back: a result for each request, in
their order, which is what the markers and the session of the run mean. -/
theorem probe_reports {work : Text → Remote → Reply Remote} {s : Session Remote}
    {requests : List RemoteRunProbeRequest} {markers : RunId → RunMarkers}
    (hids : ∀ request ∈ requests, request.runId.uuid < 340282366920938463463374607431768211456)
    (hdistinct : (requests.map (·.runId)).Nodup) (hrunning : s.world.running = true)
    (hwritten : ∀ request ∈ requests, (markers request.runId).Written s.world (runDir s request.runId)) :
    ∃ script, buildRemoteRunProbeCommand requests = .ok script ∧
      (execute (Remote.host work) s script).state.world = s.world ∧
      reconcileRemoteRuns requests (Utf8.encode (execute (Remote.host work) s script).events) =
        requests.map fun request => ⟨request.runId, (markers request.runId).state request.mode
          (livePane s.world (sessionOf (History.runKey request.runId).toList))⟩ := by
  obtain ⟨script, hscript⟩ := build_ok hids
  obtain ⟨-, hworld, hevents⟩ := @execute_probe work s requests script hscript hrunning
  refine ⟨script, hscript, hworld, ?_⟩
  have hfields (request : RemoteRunProbeRequest) :
      markerFields (markers request.runId) (History.runKey request.runId).toList request.mode
        (livePane s.world (sessionOf (History.runKey request.runId).toList)) =
          (History.runKey request.runId).toList :: restFields s (markers request.runId) request ∧
      lineState request.mode (restFields s (markers request.runId) request) =
        (markers request.runId).state request.mode
          (livePane s.world (sessionOf (History.runKey request.runId).toList)) := by
    obtain ⟨rest, hrest, hstate⟩ := lineState_markers (markers request.runId) (History.runKey request.runId).toList
      request.mode (livePane s.world (sessionOf (History.runKey request.runId).toList))
    have htail : restFields s (markers request.runId) request = rest := congrArg List.tail hrest
    rw [htail]
    exact ⟨hrest, hstate⟩
  have hlines : requests.flatMap (requestLine s) = requests.flatMap fun request =>
      fieldLine ((History.runKey request.runId).toList :: restFields s (markers request.runId) request) := by
    refine List.flatMap_congr fun request hrequest => ?_
    rw [requestLine, answer_markers (hwritten request hrequest), (hfields request).1]
  rw [hevents, hlines, reconcile_lines hdistinct]
  · exact List.map_congr_left fun request _ => congrArg (RemoteRunProbe.mk request.runId) (hfields request).2
  · intro request _
    rw [← (hfields request).1]
    exact clean_markerFields _ (clean_runKey request.runId) request.mode _

/-- The files of a run that has ended with 2, and a session of another. -/
def probedFiles (path : Text) : Option Text :=
  if path = inDir (runDir freshSession ⟨1⟩) "exit_code" then some (Remote.decimalLine 2)
  else if path = inDir (runDir freshSession ⟨1⟩) "started_at_s" then some (Remote.decimalLine 1700000000)
  else none

def probedSession : Session Remote :=
  { freshSession with
    world := { freshRemote with
      files := probedFiles
      sessions := fun name => if name = sessionOf (History.runKey ⟨2⟩).toList then some [false] else none } }

def probedRequests : List RemoteRunProbeRequest := [⟨⟨1⟩, .quick⟩, ⟨⟨2⟩, .background⟩]

def probedMarkers (id : RunId) : RunMarkers :=
  if id = ⟨1⟩ then ⟨some 2, some 1700000000, none⟩ else ⟨none, none, none⟩

theorem probe_reports_two :
    ∃ script, buildRemoteRunProbeCommand probedRequests = .ok script ∧
      (execute (Remote.host endsWith3) probedSession script).state.world = probedSession.world ∧
      reconcileRemoteRuns probedRequests
          (Utf8.encode (execute (Remote.host endsWith3) probedSession script).events) =
        probedRequests.map fun request => ⟨request.runId, (probedMarkers request.runId).state request.mode
          (livePane probedSession.world (sessionOf (History.runKey request.runId).toList))⟩ := by
  refine probe_reports (by decide) (by decide) rfl fun request hrequest => ?_
  simp only [probedRequests, List.mem_cons, List.not_mem_nil, or_false] at hrequest
  rcases hrequest with rfl | rfl
  · exact ⟨by decide, fun _ => by decide +kernel, fun _ => by decide +kernel⟩
  · exact ⟨by decide, fun h => absurd h (by decide), fun h => absurd h (by decide)⟩

/-! ## Any other bytes -/

theorem readLine_some {requests : List RemoteRunProbeRequest} {line : Text} {id : RunId}
    {state : History.RemoteRunState} (h : readLine requests line = some (id, state)) :
    ∃ request ∈ requests, ∃ fields, request.runId = id ∧
      line.splitOn '\t' = (History.runKey id).toList :: fields ∧ state = lineState request.mode fields := by
  rw [readLine] at h
  split at h
  · cases h
  · case h_2 key fields hsplit =>
    obtain ⟨request, hfind, heq⟩ := Option.map_eq_some_iff.mp h
    cases heq
    have hkey := List.find?_some hfind
    exact ⟨request, List.mem_of_find?_eq_some hfind, fields, rfl, by rw [beq_iff_eq.mp hkey, hsplit], rfl⟩

/-- A result that says something says what a line says. -/
theorem mem_reconcile {requests : List RemoteRunProbeRequest} {stdout : List UInt8} {probe : RemoteRunProbe}
    (h : probe ∈ reconcileRemoteRuns requests stdout) :
    probe.state = .unknown ∨ ∃ line ∈ Text.lines (Utf8.lossy stdout),
      readLine requests line = some (probe.runId, probe.state) := by
  obtain ⟨request, -, rfl⟩ := List.mem_map.mp h
  cases hlookup : (parseLines requests (Text.lines (Utf8.lossy stdout))).lookup request.runId with
  | none => exact .inl rfl
  | some state =>
    obtain ⟨before, after, heq, -⟩ := List.lookup_eq_some_iff.mp hlookup
    have hmem : (request.runId, state) ∈ parseLines requests (Text.lines (Utf8.lossy stdout)) := by
      rw [heq]
      exact List.mem_append_right _ List.mem_cons_self
    rw [parseLines_eq, List.mem_reverse] at hmem
    obtain ⟨line, hline, hread⟩ := List.mem_filterMap.mp hmem
    exact .inr ⟨line, hline, hread⟩

theorem lineState_running {mode : ActionMode} {fields : List Text} (h : lineState mode fields = .running) :
    mode = .background := by
  cases fields with
  | nil => cases h
  | cons kind fields =>
    rw [lineState] at h
    split at h
    · split at h
      · cases h
      · cases h
    · split at h
      · case isTrue hrunning => exact hrunning.2
      · cases h

theorem lineState_completed {mode : ActionMode} {fields : List Text} {code : Int32} {started finished : Option Nat}
    (h : lineState mode fields = .completed code started finished) :
    ∃ rest, fields = "completed".toList :: rest ∧ (rest[0]?).bind parseI32 = some code ∧
      parseEpochSeconds rest[1]? = started ∧ parseEpochSeconds rest[2]? = finished := by
  cases fields with
  | nil => cases h
  | cons kind fields =>
    rw [lineState] at h
    split at h
    · case isTrue hkind =>
      split at h
      · case h_1 exitCode hcode =>
        cases h
        exact ⟨fields, by rw [hkind], hcode, rfl, rfl⟩
      · cases h
    · split at h
      · cases h
      · cases h

/-- Whatever the bytes are, there is a result for each request, in their order; a run that
is said to run was asked for as one in the background, and one that is said to have ended is
named by a line that says so. -/
theorem reconcile_sound (requests : List RemoteRunProbeRequest) (stdout : List UInt8) :
    (reconcileRemoteRuns requests stdout).map (·.runId) = requests.map (·.runId) ∧
      ∀ probe ∈ reconcileRemoteRuns requests stdout,
        (probe.state = .running → ∃ request ∈ requests, request.runId = probe.runId ∧ request.mode = .background) ∧
        ∀ code started finished, probe.state = .completed code started finished →
          ∃ line ∈ Text.lines (Utf8.lossy stdout), ∃ fields,
            line.splitOn '\t' = (History.runKey probe.runId).toList :: "completed".toList :: fields ∧
            (fields[0]?).bind parseI32 = some code ∧ parseEpochSeconds fields[1]? = started ∧
            parseEpochSeconds fields[2]? = finished := by
  refine ⟨?_, fun probe hprobe => ?_⟩
  · rw [reconcileRemoteRuns, List.map_map]
    rfl
  have hheard := mem_reconcile hprobe
  constructor
  · intro hrunning
    rw [hrunning] at hheard
    rcases hheard with hnone | ⟨line, -, hread⟩
    · cases hnone
    · obtain ⟨request, hrequest, fields, hid, -, hstate⟩ := readLine_some hread
      exact ⟨request, hrequest, hid, lineState_running hstate.symm⟩
  · intro code started finished hcompleted
    rw [hcompleted] at hheard
    rcases hheard with hnone | ⟨line, hline, hread⟩
    · cases hnone
    · obtain ⟨request, -, fields, -, hsplit, hstate⟩ := readLine_some hread
      obtain ⟨rest, rfl, hcode, hstarted, hfinished⟩ := lineState_completed hstate.symm
      exact ⟨line, hline, rest, hsplit, hcode, hstarted, hfinished⟩

/-! ## Lines as records -/

/-- The fields of a line behind the first, for a run. -/
def lineRecord (id : RunId) : List Text → History.ProbeLine
  | [] => .other id
  | kind :: fields =>
    if kind = "completed".toList then
      .completed id ((fields[0]?).bind parseI32) (parseEpochSeconds fields[1]?) (parseEpochSeconds fields[2]?)
    else if kind = "running".toList then .running id
    else .other id

/-- A line that names a request, as a record. -/
def readRecord (requests : List RemoteRunProbeRequest) (line : Text) : Option History.ProbeLine :=
  match line.splitOn '\t' with
  | [] => none
  | id :: fields =>
    (requests.find? fun request => (History.runKey request.runId).toList == id).map fun request =>
      lineRecord request.runId fields

theorem lineRecord_id (id : RunId) (fields : List Text) : (lineRecord id fields).id = id := by
  cases fields with
  | nil => rfl
  | cons kind fields =>
    rw [lineRecord]
    split
    · rfl
    · split
      · rfl
      · rfl

theorem lineRecord_state (id : RunId) (mode : ActionMode) (fields : List Text) :
    (lineRecord id fields).state mode = lineState mode fields := by
  cases fields with
  | nil => rfl
  | cons kind fields =>
    rw [lineRecord, lineState]
    by_cases hcompleted : kind = "completed".toList
    · rw [if_pos hcompleted, if_pos hcompleted]
      cases (fields[0]?).bind parseI32 with
      | none => rfl
      | some code => rfl
    · rw [if_neg hcompleted, if_neg hcompleted]
      by_cases hrunning : kind = "running".toList
      · rw [if_pos hrunning]
        cases mode with
        | background => exact (if_pos ⟨hrunning, rfl⟩).symm
        | quick | interactive => exact (if_neg fun h => absurd h.2 (by decide)).symm
      · rw [if_neg hrunning, if_neg fun h => hrunning h.1]
        rfl

/-- The last entry of a table counts. -/
theorem lookup_reverse {α β : Type} [DecidableEq α] (l : List (α × β)) (a : α) :
    l.reverse.lookup a = (l.filter fun p => p.1 = a).getLast?.map Prod.snd := by
  induction l using List.reverseRecOn with
  | nil => rfl
  | append_singleton l p ih =>
    obtain ⟨a', b⟩ := p
    rw [List.reverse_append, List.reverse_singleton, List.singleton_append, List.lookup_cons, List.filter_append]
    by_cases h : a' = a
    · subst h
      simp
    · have hne : (a == a') = false := beq_false_of_ne fun heq => h heq.symm
      rw [hne, ih]
      simp [h]

def requestsOf (batch : List History.Run) : List RemoteRunProbeRequest := batch.map fun run => ⟨run.id, run.mode⟩

theorem readLine_record {batch : List History.Run} (hdistinct : (batch.map (·.id)).Nodup) {run : History.Run} (hrun : run ∈ batch)
    (line : Text) :
    ((readLine (requestsOf batch) line).filter fun entry => entry.1 = run.id) =
      ((readRecord (requestsOf batch) line).filter fun record => record.id = run.id).map fun record =>
        (run.id, record.state run.mode) := by
  rw [readLine, readRecord]
  cases line.splitOn '\t' with
  | nil => rfl
  | cons key fields =>
    show Option.filter _ (((requestsOf batch).find? _).map _) = ((((requestsOf batch).find? _).map _).filter _).map _
    cases hfind : (requestsOf batch).find? fun request => (History.runKey request.runId).toList == key with
    | none => rfl
    | some request =>
      obtain ⟨other, hother, rfl⟩ := List.mem_map.mp (List.mem_of_find?_eq_some hfind)
      by_cases hid : other.id = run.id
      · have hsame : other = run := List.inj_on_of_nodup_map hdistinct hother hrun hid
        subst hsame
        simp [Option.filter, lineRecord_id, lineRecord_state]
      · simp [Option.filter, lineRecord_id, hid]

/-- Read as text, the bytes give what their lines give as records: the last line that names
a run counts. -/
theorem reconcile_refines {batch : List History.Run} (hdistinct : (batch.map (·.id)).Nodup) (stdout : List UInt8) :
    (History.reconcileRemoteRuns batch
        ((Text.lines (Utf8.lossy stdout)).filterMap (readRecord (requestsOf batch)))).map
      (fun entry => (⟨entry.1.id, entry.2⟩ : RemoteRunProbe)) = reconcileRemoteRuns (requestsOf batch) stdout := by
  generalize hlines : Text.lines (Utf8.lossy stdout) = lines
  rw [History.reconcileRemoteRuns, reconcileRemoteRuns, requestsOf, List.map_map, List.map_map, hlines]
  refine List.map_congr_left fun run hrun => congrArg (RemoteRunProbe.mk run.id) ?_
  have hentries : (lines.filterMap (readLine (requestsOf batch))).filter (fun entry => entry.1 = run.id) =
      ((lines.filterMap (readRecord (requestsOf batch))).filter fun record => record.id = run.id).map fun record =>
        (run.id, record.state run.mode) := by
    rw [List.filter_filterMap, List.filter_filterMap, List.map_filterMap]
    exact List.filterMap_congr fun line _ => readLine_record hdistinct hrun line
  show (Option.map _ _).getD _ = (List.lookup run.id (parseLines (requestsOf batch) lines)).getD _
  rw [parseLines_eq, lookup_reverse, hentries, List.getLast?_map, Option.map_map]
  rfl

def probedRun : History.Run :=
  { id := ⟨1⟩, hostId := ⟨1⟩, mode := .background, status := .running, startedAtMs := none, finishedAtMs := none
    exitCode := none, remoteSessionRef := none, outputBytes := 0, lastReconciledAtMs := none }

/-- Another run, which has ended. -/
def endedRun : History.Run := { probedRun with id := ⟨2⟩, mode := .quick }

/-- What the machine prints for the two. -/
def probedLines : List UInt8 :=
  Utf8.encode ((History.runKey ⟨2⟩).toList ++ "\tcompleted\t3\t1700000000\t1700000009\n".toList ++
    (History.runKey ⟨1⟩).toList ++ "\trunning\n".toList)

theorem reconcile_refines_two :
    (History.reconcileRemoteRuns [probedRun, endedRun]
        ((Text.lines (Utf8.lossy probedLines)).filterMap (readRecord (requestsOf [probedRun, endedRun])))).map
      (fun entry => (⟨entry.1.id, entry.2⟩ : RemoteRunProbe)) =
        [⟨⟨1⟩, .running⟩, ⟨⟨2⟩, .completed 3 (some 1700000000000) (some 1700000009000)⟩] := by
  have hstates : reconcileRemoteRuns (requestsOf [probedRun, endedRun]) probedLines =
      [⟨⟨1⟩, .running⟩, ⟨⟨2⟩, .completed 3 (some 1700000000000) (some 1700000009000)⟩] := by
    decide +kernel
  exact (reconcile_refines (by decide : ([probedRun, endedRun].map (·.id)).Nodup) probedLines).trans hstates

/-! ## Running and asking -/

theorem markers_of_sound {dir command : Text} {r : Remote} (h : Sound dir command r) :
    ∃ m : RunMarkers, m.Written r dir ∧ ∀ code, m.exitCode = some code → Recorded dir command code r := by
  rcases h.exitCode with hnone | ⟨status, hrecorded⟩
  · exact ⟨⟨none, none, none⟩, ⟨hnone, fun h => (Bool.false_ne_true h).elim, fun h => (Bool.false_ne_true h).elim⟩,
      fun _ h => absurd h (by simp)⟩
  · obtain ⟨-, hcode, ⟨started, hstarted⟩, finished, hfinished⟩ := id hrecorded
    refine ⟨⟨some status, some started, some finished⟩, ⟨hcode, fun _ => hstarted, fun _ => hfinished⟩, ?_⟩
    rintro code ⟨⟩
    exact hrecorded

/-- The run script runs on any machine, whatever fails and wherever it is cut off, and the
machine is asked for it afterwards. It is said to have ended only with the status of its
command, which has run once and is all recorded; and where nothing has gone wrong it is said
to have ended so. -/
theorem run_then_probe {work work' : Text → Remote → Reply Remote} {s s' : Session Remote} {id : RunId}
    {mode : ActionMode} {command script : Text} (hid : id.uuid < 340282366920938463463374607431768211456)
    (hscript : buildRunScript command (History.runKey id).toList = .ok script)
    (hrunning : s.world.running = true) (huntroubled : s.world.troubled = false) (hran : s.world.ran = [])
    (hfresh : s.world.files (inDir (runDir s id) "exit_code") = none)
    (hwork : ∀ r, ∀ p ∈ markers (runDir s id), (work command r).world.files p = r.files p)
    (hhome : s'.vars "HOME".toList = s.vars "HOME".toList) (hagain : s'.world.running = true)
    (hfiles : s'.world.files = (execute (Remote.host work) s script).state.world.files) :
    ∃ probe state, buildRemoteRunProbeCommand [⟨id, mode⟩] = .ok probe ∧
      reconcileRemoteRuns [⟨id, mode⟩] (Utf8.encode (execute (Remote.host work') s' probe).events) = [⟨id, state⟩] ∧
      (∀ code started finished, state = .completed code started finished → ∃ status,
        Recorded (runDir s id) command status (execute (Remote.host work) s script).state.world ∧
          status < 2147483648 ∧ code = Int32.ofNat status) ∧
      ((execute (Remote.host work) s script).state.world.troubled = false →
        (execute (Remote.host work) s script).state.world.running = true → ∃ status,
        Recorded (runDir s id) command status (execute (Remote.host work) s script).state.world ∧
          (execute (Remote.host work) s script).status = status % 256 ∧
          (status < 2147483648 → ∃ started finished, state = .completed (Int32.ofNat status) started finished)) := by
  obtain ⟨-, hsound, hdone⟩ := runScript_final hscript hrunning huntroubled hran hfresh hwork
  obtain ⟨m, ⟨hcode, hstarted, hfinished⟩, hrecorded⟩ := markers_of_sound hsound
  have hdir : runDir s' id = runDir s id := by rw [runDir, runDir, hhome]
  have hwritten : m.Written s'.world (runDir s' id) := by
    rw [hdir]
    refine ⟨?_, fun h => ?_, fun h => ?_⟩
    · rw [hfiles]; exact hcode
    · rw [hfiles]; exact hstarted h
    · rw [hfiles]; exact hfinished h
  obtain ⟨probe, hprobe, -, hread⟩ := @probe_reports work' s' [⟨id, mode⟩] (fun _ => m)
    (fun request hrequest => by rw [List.mem_singleton.mp hrequest]; exact hid) (List.nodup_singleton _) hagain
    (fun request hrequest => by rw [List.mem_singleton.mp hrequest]; exact hwritten)
  refine ⟨probe, _, hprobe, hread, ?_, ?_⟩
  · intro code started finished hcompleted
    rw [RunMarkers.state] at hcompleted
    split at hcompleted
    · case h_1 status hstatus =>
      split at hcompleted
      · case isTrue hsmall =>
        cases hcompleted
        exact ⟨status, hrecorded status hstatus, hsmall, rfl⟩
      · cases hcompleted
    · split at hcompleted
      · cases hcompleted
      · cases hcompleted
  · intro hfine hup
    obtain ⟨status, hall, hstatus⟩ := hdone hfine hup
    refine ⟨status, hall, hstatus, fun hsmall => ?_⟩
    have hexit : m.exitCode = some status := by
      cases hcase : m.exitCode with
      | none =>
        rw [hcase, hall.2.1] at hcode
        cases hcode
      | some other =>
        have hran := (hrecorded other hcase).1
        rw [hall.1] at hran
        cases hran
        rfl
    rw [RunMarkers.state, hexit]
    exact ⟨_, _, if_pos hsmall⟩

theorem run_then_probe_make :
    ∃ script probe state, buildRunScript "make".toList (History.runKey ⟨1⟩).toList = .ok script ∧
      buildRemoteRunProbeCommand [⟨⟨1⟩, .quick⟩] = .ok probe ∧
      reconcileRemoteRuns [⟨⟨1⟩, .quick⟩] (Utf8.encode (execute (Remote.host endsWith3)
        { freshSession with world := { (execute (Remote.host endsWith3) freshSession script).state.world with
          running := true } } probe).events) = [⟨⟨1⟩, state⟩] := by
  have hscript : ∃ script, buildRunScript "make".toList (History.runKey ⟨1⟩).toList = .ok script := ⟨_, rfl⟩
  obtain ⟨script, hscript⟩ := hscript
  obtain ⟨probe, state, hprobe, hread, -⟩ := @run_then_probe endsWith3 endsWith3 freshSession
    { freshSession with world :=
      { (execute (Remote.host endsWith3) freshSession script).state.world with running := true } }
    ⟨1⟩ .quick "make".toList script (by decide) hscript rfl rfl rfl rfl (fun _ _ _ => rfl) rfl rfl rfl
  exact ⟨script, probe, state, hscript, hprobe, hread⟩

end KW.Probe
