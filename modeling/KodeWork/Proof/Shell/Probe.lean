import KodeWork.Impl.Probe
import KodeWork.Proof.Shell.RunScript

/-!
# What the probe prints

The script of `build_remote_run_probe_command`, run on any machine: one line for each
request, in their order.
-/

namespace KW.Probe

open KW.Shell KW.Actions

/-! ## The script -/

def catText (name : String) : Text :=
  "cat -- \"$base/".toList ++ name.toList ++ "\" 2>/dev/null || true".toList

/-- The word that a marker is read with. -/
def catWord (name : String) : Word := [.command true (catText name)]

def panesText : Text :=
  "tmux list-panes -t \"kodework-run-$id\" -F '#\x7bpane_dead\x7d' 2>/dev/null | head -n 1".toList

def sessionName : Word := quoted "kodework-run-" ++ param "id"

def printLine (format : String) : Item (Pipeline Command) :=
  item (simpleCommand false [bare "printf", quoted format, param "id"] [])

def completedItem : Item (Pipeline Command) :=
  item (simpleCommand false
    [bare "printf", quoted "%s\\tcompleted\\t%s\\t%s\\t%s\\n", param "id", catWord "exit_code", catWord "started_at_s",
      catWord "finished_at_s"] [])

def hasSession : Pipeline Command :=
  simpleCommand false [bare "tmux", bare "has-session", bare "-t", sessionName]
    [⟨none, .great, bare "/dev/null"⟩, ⟨some ['2'], .greatAnd, bare "1"⟩]

def deadItem : Item (Pipeline Command) :=
  item (assignmentCommand "dead".toList [.command false panesText])

def paneItem : Item (Pipeline Command) :=
  item ⟨false, [.conditional
    [([item (simpleCommand false [bare "[", param "dead", bare "=", quoted "0", bare "]"] [])],
      [printLine "%s\\trunning\\n"])] [printLine "%s\\tunknown\\n"]]⟩

/-- The item that asks for a run whose mode is the word. -/
def askItem (mode : Word) : Item (Pipeline Command) :=
  item ⟨false, [.conditional
    [([item (simpleCommand false [bare "[", bare "-f", inBase "exit_code", bare "]"] [])], [completedItem]),
      ([⟨⟨simpleCommand false [bare "[", mode, bare "=", quoted "background", bare "]"] [], [(.and, hasSession)]⟩, false⟩],
        [deadItem, paneItem])]
    [printLine "%s\\tunknown\\n"]]⟩

def baseOfId : Item (Pipeline Command) :=
  item (assignmentCommand "base".toList (List.flatten [param "HOME", quoted "/.cache/kodework/runs/", param "id"]))

def askTokens (mode : Word) : List Token :=
  List.flatten [[.word (List.flatten [bareWord "base=".toList, param "HOME", quoted "/.cache/kodework/runs/",
      param "id"]), op .semi, .word (bare "if"), .word (bare "["), .word (bare "-f"), .word (inBase "exit_code"),
      .word (bare "]"), op .semi, .word (bare "then"), .word (bare "printf"),
      .word (quoted "%s\\tcompleted\\t%s\\t%s\\t%s\\n"), .word (param "id"), .word (catWord "exit_code"),
      .word (catWord "started_at_s"), .word (catWord "finished_at_s"), op .semi, .word (bare "elif"), .word (bare "[")],
    [.word mode, .word (bare "="), .word (quoted "background"), .word (bare "]"), op .andIf, .word (bare "tmux"),
      .word (bare "has-session"), .word (bare "-t"), .word sessionName, op .great, .word (bare "/dev/null"),
      .number ['2'], op .greatAnd, .word (bare "1"), op .semi, .word (bare "then"),
      .word (bareWord "dead=".toList ++ [.command false panesText]), op .semi, .word (bare "if"), .word (bare "["),
      .word (param "dead"), .word (bare "="), .word (quoted "0"), .word (bare "]"), op .semi, .word (bare "then"),
      .word (bare "printf"), .word (quoted "%s\\trunning\\n"), .word (param "id"), op .semi, .word (bare "else"),
      .word (bare "printf"), .word (quoted "%s\\tunknown\\n"), .word (param "id"), op .semi, .word (bare "fi"), op .semi,
      .word (bare "else"), .word (bare "printf"), .word (quoted "%s\\tunknown\\n"), .word (param "id"), op .semi,
      .word (bare "fi"), op .semi]]

theorem scan_askFiles : scan .gap askFiles = (.single [], (askTokens []).take 18) := by
  unfold askFiles
  rw [String.toList_append, String.toList_append, String.toList_append, List.append_assoc, List.append_assoc]
  refine (congrArg (scan .gap) (literal_cons (literal_cons (literal_cons String.toList_ofList)))).trans ?_
  decide +kernel

theorem scan_askSession (mode : ActionMode) :
    scan (.single (quotedWord (modeText mode))) askSession =
      (.gap, (askTokens (quotedWord (modeText mode))).drop 18) := by
  unfold askSession
  rw [String.toList_append, String.toList_append, String.toList_append, List.append_assoc, List.append_assoc]
  refine (congrArg (scan _) (literal_cons (literal_cons (literal_cons String.toList_ofList)))).trans ?_
  cases mode <;> decide +kernel

set_option maxRecDepth 10000 in
theorem parse_ask (mode : Word) : parse (askTokens mode) =
    (Reader.start, [.pipeline baseOfId.list.first .semi, .pipeline (askItem mode).list.first .semi]) := rfl

def idItem (key : Text) : Item (Pipeline Command) := item (assignmentCommand "id".toList (quotedWord key))

/-- The items for a request. -/
def partScript (key mode : Text) : Script := [idItem key, baseOfId, askItem (quotedWord mode)]

theorem quote_not_mem {t : Text} (h : ∀ c ∈ t, isPlain c = true) : '\'' ∉ t := by
  intro hmem
  have hplain := h _ hmem
  revert hplain
  decide

theorem complete_part (id : RunId) (mode : ActionMode) :
    Complete (probeText (History.runKey id).toList (modeText mode))
      (partScript (History.runKey id).toList (modeText mode)) := by
  have hid : scan .gap "id='".toList = (.single (bareWord "id=".toList), []) := scan_literal (by decide)
  have hend (w : Word) : scan (.single w) "'; ".toList = (.gap, [.word w, op .semi]) := rfl
  have hmode : '\'' ∉ modeText mode := by cases mode <;> decide
  have hscan : scan .gap (probeText (History.runKey id).toList (modeText mode)) =
      (.gap, [.word (bareWord "id=".toList ++ quotedWord (History.runKey id).toList), op .semi] ++
        askTokens (quotedWord (modeText mode))) := by
    have hkey := scan_trans (scan_trans hid (scan_single _ (quote_not_mem (plain_runKey id)))) (hend _)
    have hask := scan_trans (scan_trans (scan_trans hkey scan_askFiles) (scan_single [] hmode)) (scan_askSession mode)
    refine hask.trans (Prod.ext rfl ?_)
    show _ ++ List.take 18 (askTokens []) ++ [] ++ List.drop 18 (askTokens (quotedWord (modeText mode))) = _
    rw [List.append_nil, List.append_assoc]
    exact congrArg _ (List.take_append_drop 18 (askTokens (quotedWord (modeText mode))))
  have hassign : parse [.word (bareWord "id=".toList ++ quotedWord (History.runKey id).toList), op .semi] =
      (Reader.start, [.pipeline (idItem (History.runKey id).toList).list.first .semi]) := rfl
  exact ⟨_, _, hscan, transduce_trans hassign (parse_ask _), rfl, rfl⟩

def setItem : Item (Pipeline Command) := item (simpleCommand false [bare "set", bare "-f"] [])

/-- The items for a batch. -/
def probeScript (requests : List RemoteRunProbeRequest) : Script :=
  setItem :: requests.flatMap fun request => partScript (History.runKey request.runId).toList (modeText request.mode)

theorem complete_parts {requests : List RemoteRunProbeRequest} {parts : List Text}
    (h : requests.mapM probePart = .ok parts) :
    Complete parts.flatten
      (requests.flatMap fun request => partScript (History.runKey request.runId).toList (modeText request.mode)) := by
  induction requests generalizing parts with
  | nil =>
    cases h
    exact ⟨[], [], rfl, rfl, rfl, rfl⟩
  | cons request requests ih =>
    rw [List.mapM_cons] at h
    obtain ⟨part, hpart, h⟩ := ok_of_bind h
    obtain ⟨rest, hrest, h⟩ := ok_of_bind h
    cases h
    have hfirst : part = probeText (History.runKey request.runId).toList (modeText request.mode) := by
      rw [probePart] at hpart
      split at hpart
      · cases hpart
      · exact (Except.ok.inj hpart).symm
    rw [hfirst]
    exact (complete_part request.runId request.mode).append (ih hrest)

theorem read_probe {requests : List RemoteRunProbeRequest} {script : Text}
    (h : buildRemoteRunProbeCommand requests = .ok script) : readScript script = probeScript requests := by
  obtain ⟨parts, hparts, h⟩ := ok_of_bind h
  cases h
  have hset : Complete "set -f; ".toList [setItem] := by
    have hscan : scan .gap "set -f; ".toList = (.gap, [.word (bare "set"), .word (bare "-f"), op .semi]) :=
      scan_literal (by decide)
    exact ⟨_, _, hscan, rfl, rfl, rfl⟩
  exact (hset.append (complete_parts hparts)).reads.read

/-! ## Reading a marker -/

theorem read_of_scan {t : Text} {m : Mode} {out last : List Token} {reader : Reader}
    {clauses more : List (Clause (Pipeline Command))} {script : Script} (hscan : scan .gap t = (m, out))
    (hlast : m.finish = some last) (hparse : parse (out ++ last) = (reader, clauses)) (hmore : reader.finish = some more)
    (hends : ends (clauses ++ more) = true) (hscript : assemble (pipelines (clauses ++ more)) = script) :
    readScript t = script := by
  refine Reads.read ⟨last, reader, clauses, more, ?_, ?_, hmore, hends, hscript⟩
  · rw [hscan]
    exact hlast
  · rw [hscan]
    exact hparse

def silenced : Redirect := ⟨some ['2'], .great, bare "/dev/null"⟩

def catScript (name : String) : Script :=
  [⟨⟨simpleCommand false [bare "cat", bare "--", inBase name] [silenced],
    [(.or, simpleCommand false [bare "true"] [])]⟩, false⟩]

theorem read_cat {name : String} (hname : name ∈ ["exit_code", "started_at_s", "finished_at_s"]) :
    readScript (catText name) = catScript name := by
  have hscan : scan .gap (catText name) = (.bare (bare "true"), [.word (bare "cat"), .word (bare "--"),
      .word (inBase name), .number ['2'], op .great, .word (bare "/dev/null"), op .orIf]) := by
    simp only [List.mem_cons, List.not_mem_nil, or_false] at hname
    rcases hname with rfl | rfl | rfl <;> decide
  exact read_of_scan hscan rfl rfl rfl rfl rfl

def panesScript : Script :=
  [item ⟨false, [.simple ⟨[], [bare "tmux", bare "list-panes", bare "-t", sessionName, bare "-F",
      quoted "#\x7bpane_dead\x7d"], [silenced]⟩,
    .simple ⟨[], [bare "head", bare "-n", bare "1"], []⟩]⟩]

theorem read_panes : readScript panesText = panesScript := by
  have hscan : scan .gap panesText = (.bare (bare "1"), [.word (bare "tmux"), .word (bare "list-panes"),
      .word (bare "-t"), .word sessionName, .word (bare "-F"), .word (quoted "#\x7bpane_dead\x7d"), .number ['2'],
      op .great, .word (bare "/dev/null"), op .bar, .word (bare "head"), .word (bare "-n")]) :=
    scan_literal (by decide +kernel)
  exact read_of_scan hscan rfl rfl rfl rfl rfl

variable {work : Text → Remote → Reply Remote} {depth : Nat} {s : Session Remote}

theorem call_quiet {r : Remote} (work : Text → Remote → Reply Remote) (hrunning : r.running = true) {name : Text}
    (hname : Remote.Name.of name = some .silent) (args : List Text) :
    (Remote.host work).call r (name :: args) [] = ⟨r, 0, [], [], false⟩ := Remote.call_eq hrunning hname args []

/-- What is in a file, up to the ends of its last lines. -/
def fileText (r : Remote) (path : Text) : Text := ((r.files path).getD []).rdropWhile (· == '\n')

theorem run_cat {dir : Text} (work : Text → Remote → Reply Remote) (depth : Nat) (name : String)
    (hrunning : s.world.running = true) (hbase : s.parameter "base".toList = some dir) :
    (shell (Remote.host work) (depth + 1)).run s (catScript name) =
      { state := { s with last := 0 }, status := 0, ended := false
        events := (s.world.files (inDir dir name)).getD [] } := by
  have hargs : Args (shell (Remote.host work) depth) s [bare "cat", bare "--", inBase name]
      ["cat".toList, "--".toList, inDir dir name] :=
    args_cons rfl (means_bare _) (args_cons rfl (means_bare _)
      (args_cons (isField_inBase name) (means_inBase name hbase) args_nil))
  have hredirects (s : Session Remote) : redirectAll (Remote.host work) (shell (Remote.host work) depth) s .output
      .errors [silenced] = some (.targets s.world .output .null) := by
    rw [redirectAll, silenced, bare, redirectOne_null (by simp)]
    rfl
  have hcall : (Remote.host work).call s.world ["cat".toList, "--".toList, inDir dir name] [] =
      s.world.cat ["--".toList, inDir dir name] := Remote.call_eq hrunning (by decide : _ = some Remote.Name.cat) _ _
  rw [catScript, run_pair]
  cases hfile : s.world.files (inDir dir name) with
  | some content =>
    have hcat : s.world.cat ["--".toList, inDir dir name] = ⟨s.world, 0, content, [], false⟩ := by
      simp [Remote.cat, Remote.operands, hfile]
    have hfirst := pipeline_eq hargs (by decide) (hredirects s) (hcall.trans hcat) rfl rfl
    rw [hfirst]
    simp [Connector.admits, visible]
  | none =>
    have hcat : s.world.cat ["--".toList, inDir dir name] = ⟨s.world, 1, [], "cat".toList, false⟩ := by
      simp [Remote.cat, Remote.operands, hfile]
    have hfirst := pipeline_eq hargs (by decide) (hredirects s) (hcall.trans hcat) rfl rfl
    have htrue : Args (shell (Remote.host work) depth) { s with last := 1 } [bare "true"] ["true".toList] :=
      args_cons rfl (means_bare _) args_nil
    have hsecond := pipeline_call htrue (by decide) (call_quiet work hrunning (by decide) [])
    rw [hfirst]
    exact (congrArg (fun o : Printing Remote => o.behind []) hsecond).trans rfl

theorem read_run_cat {dir : Text} (work : Text → Remote → Reply Remote) (depth : Nat) (name : String)
    (hname : name ∈ ["exit_code", "started_at_s", "finished_at_s"]) {words : List Word} {args : List Text}
    (hrunning : s.world.running = true) (hbase : s.parameter "base".toList = some dir)
    (hwords : Args (shell (Remote.host work) (depth + 1)) s words args) :
    Args (shell (Remote.host work) (depth + 1)) s (catWord name :: words)
      (fileText s.world (inDir dir name) :: args) := by
  have hrun := run_cat work depth name hrunning hbase
  rw [← read_cat hname] at hrun
  exact args_command hrun rfl hwords

/-! ## The answer -/

/-- The fields joined by tabs, as a line. -/
def fieldLine (fields : List Text) : Text := ['	'].intercalate fields ++ ['
']

/-- Whether the first pane of the session is there and not dead. -/
def livePane (r : Remote) (name : Text) : Bool := (r.sessions name).bind List.head? == some false

def sessionOf (key : Text) : Text := "kodework-run-".toList ++ key

/-- The fields that are printed for a run. -/
def answer (r : Remote) (dir key : Text) (mode : ActionMode) : List Text :=
  if (r.files (inDir dir "exit_code")).isSome then
    [key, "completed".toList, fileText r (inDir dir "exit_code"), fileText r (inDir dir "started_at_s"),
      fileText r (inDir dir "finished_at_s")]
  else if mode = .background ∧ livePane r (sessionOf key) then [key, "running".toList]
  else [key, "unknown".toList]

/-- A command that prints, without redirections. -/
theorem run_printf {words : List Word} {format : Text} {args : List Text} (hrunning : s.world.running = true)
    (hargs : Args (shell (Remote.host work) depth) s words ("printf".toList :: format :: args)) :
    (shell (Remote.host work) (depth + 1)).run s [item (simpleCommand false words [])] =
      { state := { s with last := 0 }, status := 0, ended := false
        events := Remote.formatAll (args.length + 1) format args } := by
  have hcall : (Remote.host work).call s.world ("printf".toList :: format :: args) [] =
      ⟨s.world, 0, Remote.formatAll (args.length + 1) format args, [], false⟩ :=
    Remote.call_eq hrunning (by decide : _ = some Remote.Name.printf) _ _
  exact pipeline_call hargs (by decide) hcall

theorem run_printLine {key : Text} (work : Text → Remote → Reply Remote) (depth : Nat) (format : String)
    (hrunning : s.world.running = true) (hid : s.parameter "id".toList = some key) :
    (shell (Remote.host work) (depth + 1)).run s [printLine format] =
      { state := { s with last := 0 }, status := 0, ended := false
        events := Remote.formatAll 2 format.toList [key] } :=
  run_printf hrunning (args_cons rfl (means_bare _) (args_cons (isField_quotedWord _) (means_quoted _)
    (args_cons rfl (means_parameter hid true) args_nil)))

/-- The command `[`, with what it ends with. -/
theorem pipeline_test {words : List Word} {args : List Text} {holds : Prop} [Decidable holds]
    (work : Text → Remote → Reply Remote) (hrunning : s.world.running = true)
    (hargs : Args (shell (Remote.host work) depth) s words ("[".toList :: args))
    (htest : s.world.test args = s.world.reply (if holds then 0 else 1) []) :
    (shell (Remote.host work) (depth + 1)).pipeline s (simpleCommand false words []) =
      { state := { s with last := if holds then 0 else 1 }, status := if holds then 0 else 1, ended := false
        events := [] } := by
  have hcall : (Remote.host work).call s.world ("[".toList :: args) [] =
      ⟨s.world, if holds then 0 else 1, [], [], false⟩ :=
    (Remote.call_eq hrunning (by decide : _ = some Remote.Name.test) _ _).trans htest
  exact pipeline_call hargs (by decide) hcall

theorem test_eq (r : Remote) (left right : Text) :
    r.test [left, "=".toList, right, "]".toList] = r.reply (if left = right then 0 else 1) [] := by
  rw [Remote.test, if_pos ⟨rfl, rfl⟩]

theorem test_file (r : Remote) (path : Text) :
    r.test ["-f".toList, path, "]".toList] = r.reply (if (r.files path).isSome = true then 0 else 1) [] := by
  rw [Remote.test, if_pos ⟨rfl, rfl⟩]

theorem pipeline_hasSession {key : Text} (work : Text → Remote → Reply Remote) (depth : Nat)
    (hrunning : s.world.running = true) (hid : s.parameter "id".toList = some key) :
    (shell (Remote.host work) (depth + 1)).pipeline s hasSession =
      { state := { s with last := if (s.world.sessions (sessionOf key)).isSome = true then 0 else 1 }
        status := if (s.world.sessions (sessionOf key)).isSome = true then 0 else 1, ended := false, events := [] } := by
  have hname : Means (shell (Remote.host work) depth) s sessionName (sessionOf key) :=
    (means_quoted _).append (means_parameter hid true)
  have hargs : Args (shell (Remote.host work) depth) s [bare "tmux", bare "has-session", bare "-t", sessionName]
      ["tmux".toList, "has-session".toList, "-t".toList, sessionOf key] :=
    args_cons rfl (means_bare _) (args_cons rfl (means_bare _) (args_cons rfl (means_bare _)
      (args_cons (by decide) hname args_nil)))
  have hredirects : redirectAll (Remote.host work) (shell (Remote.host work) depth) s .output .errors
      [⟨none, .great, bare "/dev/null"⟩, ⟨some ['2'], .greatAnd, bare "1"⟩] = some (.targets s.world .null .null) := by
    rw [redirectAll, bare, redirectOne_null (by simp)]
    rfl
  cases hsession : s.world.sessions (sessionOf key) with
  | some panes =>
    have hcall : (Remote.host work).call s.world ["tmux".toList, "has-session".toList, "-t".toList, sessionOf key] [] =
        ⟨s.world, 0, [], [], false⟩ := by
      rw [Remote.call_eq hrunning (by decide : _ = some Remote.Name.tmux), Remote.perform, Remote.tmux,
        if_pos ⟨rfl, rfl⟩, hsession]
      rfl
    exact pipeline_eq hargs (by decide) hredirects hcall rfl rfl
  | none =>
    have hcall : (Remote.host work).call s.world ["tmux".toList, "has-session".toList, "-t".toList, sessionOf key] [] =
        ⟨s.world, 1, [], "can't find session".toList, false⟩ := by
      rw [Remote.call_eq hrunning (by decide : _ = some Remote.Name.tmux), Remote.perform, Remote.tmux,
        if_pos ⟨rfl, rfl⟩, hsession]
      rfl
    exact pipeline_eq hargs (by decide) hredirects hcall rfl rfl

/-- What is printed of the panes of a session. -/
def panesOutput (r : Remote) (name : Text) : Text :=
  ((r.sessions name).getD []).flatMap fun dead => if dead then ['1', '\n'] else ['0', '\n']

theorem run_panes {key : Text} (work : Text → Remote → Reply Remote) (depth : Nat)
    (hrunning : s.world.running = true) (hid : s.parameter "id".toList = some key) :
    (shell (Remote.host work) (depth + 1)).run s panesScript =
      { state := { s with last := 0 }, status := 0, ended := false
        events := Remote.firstLine (panesOutput s.world (sessionOf key)) } := by
  have hname : Means (shell (Remote.host work) depth) s sessionName (sessionOf key) :=
    (means_quoted _).append (means_parameter hid true)
  have hargs : Args (shell (Remote.host work) depth) s
      [bare "tmux", bare "list-panes", bare "-t", sessionName, bare "-F", quoted "#\x7bpane_dead\x7d"]
      ["tmux".toList, "list-panes".toList, "-t".toList, sessionOf key, "-F".toList, "#\x7bpane_dead\x7d".toList] :=
    args_cons rfl (means_bare _) (args_cons rfl (means_bare _) (args_cons rfl (means_bare _)
      (args_cons (by decide) hname (args_cons rfl (means_bare _) (args_cons (by decide) (means_quoted _) args_nil)))))
  have hredirects : redirectAll (Remote.host work) (shell (Remote.host work) depth) s .output .errors [silenced] =
      some (.targets s.world .output .null) := by
    rw [redirectAll, silenced, bare, redirectOne_null (by simp)]
    rfl
  have hlist : ∃ n errors, (Remote.host work).call s.world ["tmux".toList, "list-panes".toList, "-t".toList,
      sessionOf key, "-F".toList, "#\x7bpane_dead\x7d".toList] [] =
        ⟨s.world, n, panesOutput s.world (sessionOf key), errors, false⟩ := by
    rw [Remote.call_eq hrunning (by decide : _ = some Remote.Name.tmux), Remote.perform, Remote.tmux,
      if_pos ⟨rfl, rfl, rfl, rfl⟩, panesOutput]
    cases s.world.sessions (sessionOf key) with
    | some panes => exact ⟨0, [], rfl⟩
    | none => exact ⟨1, "can't find session".toList, rfl⟩
  obtain ⟨n, errors, hcall⟩ := hlist
  have hfirst := simpleOutcome_eq hargs (by decide) hredirects hcall rfl rfl
  have hhead : (Remote.host work).call s.world ["head".toList, "-n".toList, "1".toList]
      (panesOutput s.world (sessionOf key)) =
        ⟨s.world, 0, Remote.firstLine (panesOutput s.world (sessionOf key)), [], false⟩ := by
    rw [Remote.call_eq hrunning (by decide : _ = some Remote.Name.head), Remote.perform, Remote.head, if_pos rfl]
    rfl
  have hargs' : Args (shell (Remote.host work) depth) s [bare "head", bare "-n", bare "1"]
      ["head".toList, "-n".toList, "1".toList] :=
    args_cons rfl (means_bare _) (args_cons rfl (means_bare _) (args_cons rfl (means_bare _) args_nil))
  have hsecond := simpleOutcome_call hargs' (by decide) hhead
  rw [visible, if_pos rfl, if_neg (by decide), List.append_nil] at hfirst
  exact pipe_eq hfirst hsecond

/-- The shell is left on the same machine, with the same home. -/
def Left (s s' : Session Remote) : Prop := s'.world = s.world ∧ s'.vars "HOME".toList = s.vars "HOME".toList

theorem format_running (key : Text) :
    Remote.formatAll 2 "%s\\trunning\\n".toList [key] = fieldLine [key, "running".toList] := by
  simp [Remote.formatAll, Remote.formatOnce, fieldLine]

theorem format_unknown (key : Text) :
    Remote.formatAll 2 "%s\\tunknown\\n".toList [key] = fieldLine [key, "unknown".toList] := by
  simp [Remote.formatAll, Remote.formatOnce, fieldLine]

theorem prints_line {key kind : Text} {format : String} (work : Text → Remote → Reply Remote) (depth : Nat)
    (hformat : Remote.formatAll 2 format.toList [key] = fieldLine [key, kind]) (hrunning : s.world.running = true)
    (hid : s.parameter "id".toList = some key) :
    Prints (shell (Remote.host work) (depth + 1)) s [printLine format] (fieldLine [key, kind]) (Left s) := by
  refine ⟨{ s with last := 0 }, 0, ?_, rfl, rfl⟩
  rw [← hformat]
  exact run_printLine work depth _ hrunning hid

theorem prints_completed {key dir : Text} (work : Text → Remote → Reply Remote) (depth : Nat)
    (hrunning : s.world.running = true) (hid : s.parameter "id".toList = some key)
    (hbase : s.parameter "base".toList = some dir) :
    Prints (shell (Remote.host work) (depth + 2)) s [completedItem]
      (fieldLine [key, "completed".toList, fileText s.world (inDir dir "exit_code"),
        fileText s.world (inDir dir "started_at_s"), fileText s.world (inDir dir "finished_at_s")]) (Left s) := by
  have hfiles := read_run_cat work depth "exit_code" (by simp) hrunning hbase
    (read_run_cat work depth "started_at_s" (by simp) hrunning hbase
      (read_run_cat work depth "finished_at_s" (by simp) hrunning hbase args_nil))
  have hargs : Args (shell (Remote.host work) (depth + 1)) s [bare "printf", quoted "%s\\tcompleted\\t%s\\t%s\\t%s\\n",
      param "id", catWord "exit_code", catWord "started_at_s", catWord "finished_at_s"]
      ["printf".toList, "%s\\tcompleted\\t%s\\t%s\\t%s\\n".toList, key, fileText s.world (inDir dir "exit_code"),
        fileText s.world (inDir dir "started_at_s"), fileText s.world (inDir dir "finished_at_s")] :=
    args_cons rfl (means_bare _) (args_cons (isField_quotedWord _) (means_quoted _)
      (args_cons rfl (means_parameter hid true) hfiles))
  have hrun := run_printf hrunning hargs
  refine ⟨{ s with last := 0 }, 0, ?_, rfl, rfl⟩
  refine hrun.trans ?_
  congr 1
  simp [Remote.formatAll, Remote.formatOnce, fieldLine]

/-- The first line that is printed of the panes is 0 exactly if the first pane lives. -/
theorem firstLine_panes (r : Remote) (name : Text) :
    (Remote.firstLine (panesOutput r name)).rdropWhile (· == '\n') = "0".toList ↔ livePane r name = true := by
  rw [panesOutput, livePane]
  cases r.sessions name with
  | none => decide
  | some panes =>
    cases panes with
    | nil => decide
    | cons dead rest =>
      have hline : Remote.firstLine ((dead :: rest).flatMap fun dead => if dead then ['1', '\n'] else ['0', '\n']) =
          if dead then ['1', '\n'] else ['0', '\n'] := by cases dead <;> rfl
      rw [Option.getD_some, hline]
      cases dead <;> simp [List.rdropWhile]

theorem run_item {x : Interpreter Remote} (p : Pipeline Command) : x.run s [item p] = x.pipeline s p := rfl

theorem run_dead {key : Text} (work : Text → Remote → Reply Remote) (depth : Nat) (hrunning : s.world.running = true)
    (hid : s.parameter "id".toList = some key) :
    (shell (Remote.host work) (depth + 2)).run s [deadItem] =
      { state := { s with
          vars := Function.update s.vars "dead".toList
            (some ((Remote.firstLine (panesOutput s.world (sessionOf key))).rdropWhile (· == '\n')))
          last := 0 }
        status := 0, ended := false, events := [] } := by
  have hrun := run_panes work depth hrunning hid
  rw [← read_panes] at hrun
  have hvalue := expand_command false hrun
  rw [deadItem, run_item, assignment_eq hvalue]
  rfl

theorem left_update {name : Text} (hname : "HOME".toList ≠ name) (value : Text) (n : Nat) :
    Left s { s with vars := Function.update s.vars name (some value), last := n } := by
  refine ⟨rfl, ?_⟩
  show Function.update s.vars name (some value) "HOME".toList = _
  rw [Function.update_of_ne hname]

/-- What is asked of the pane of a session. -/
theorem prints_pane {key : Text} (work : Text → Remote → Reply Remote) (depth : Nat) (hrunning : s.world.running = true)
    (hid : s.parameter "id".toList = some key) :
    Prints (shell (Remote.host work) (depth + 2)) s [deadItem, paneItem]
      (fieldLine [key, if livePane s.world (sessionOf key) then "running".toList else "unknown".toList]) (Left s) := by
  have hdead : Prints (shell (Remote.host work) (depth + 2)) s [deadItem] [] fun s' => Left s s' ∧
      s'.parameter "id".toList = some key ∧ s'.parameter "dead".toList =
        some ((Remote.firstLine (panesOutput s.world (sessionOf key))).rdropWhile (· == '\n')) :=
    ⟨_, _, run_dead work depth hrunning hid, left_update (by decide) _ 0,
      (parameter_update_ne (by decide : "id".toList ≠ "dead".toList) (by rfl) 0).trans hid,
      parameter_update_self _ _ (by decide) 0⟩
  refine hdead.append (q := [paneItem]) ?_
  rintro s' ⟨hleft, hid', hvalue⟩
  have hrunning' : s'.world.running = true := by rw [hleft.1]; exact hrunning
  have hargs : Args (shell (Remote.host work) depth) s' [bare "[", param "dead", bare "=", quoted "0", bare "]"]
      ["[".toList, (Remote.firstLine (panesOutput s.world (sessionOf key))).rdropWhile (· == '\n'), "=".toList,
        "0".toList, "]".toList] :=
    args_cons rfl (means_bare _) (args_cons rfl (means_parameter hvalue true) (args_cons rfl (means_bare _)
      (args_cons (by decide) (means_quoted _) (args_cons rfl (means_bare _) args_nil))))
  have htest := pipeline_test work hrunning' hargs (test_eq _ _ _)
  refine Chooses.prints ?_
  by_cases hlive : livePane s.world (sessionOf key) = true
  · rw [if_pos ((firstLine_panes _ _).mpr hlive)] at htest
    rw [if_pos hlive]
    have hline := prints_line (s := { s' with last := 0 }) work depth (format_running key) hrunning' hid'
    obtain ⟨s'', n, hrun, hs''⟩ := hline
    exact Chooses.taken htest ⟨s'', n, hrun, fun m => ⟨hs''.1.trans hleft.1, hs''.2.trans hleft.2⟩⟩
  · rw [if_neg fun hzero => hlive ((firstLine_panes _ _).mp hzero)] at htest
    rw [if_neg hlive]
    have hline := prints_line (s := { s' with last := 1 }) work depth (format_unknown key) hrunning' hid'
    obtain ⟨s'', n, hrun, hs''⟩ := hline
    exact Chooses.skipped htest (by decide)
      (Chooses.last (by simp) ⟨s'', n, hrun, fun m => ⟨hs''.1.trans hleft.1, hs''.2.trans hleft.2⟩⟩)

/-- What is asked for a run is answered with a line. -/
theorem prints_ask {key dir : Text} (work : Text → Remote → Reply Remote) (depth : Nat) (mode : ActionMode)
    (hrunning : s.world.running = true) (hid : s.parameter "id".toList = some key)
    (hbase : s.parameter "base".toList = some dir) :
    Prints (shell (Remote.host work) (depth + 3)) s [askItem (quotedWord (modeText mode))]
      (fieldLine (answer s.world dir key mode)) (Left s) := by
  have hargs : Args (shell (Remote.host work) (depth + 1)) s [bare "[", bare "-f", inBase "exit_code", bare "]"]
      ["[".toList, "-f".toList, inDir dir "exit_code", "]".toList] :=
    args_cons rfl (means_bare _) (args_cons rfl (means_bare _) (args_cons (isField_inBase _)
      (means_inBase _ hbase) (args_cons rfl (means_bare _) args_nil)))
  have htest := pipeline_test work hrunning hargs (test_file _ _)
  refine Chooses.prints ?_
  rw [answer]
  by_cases hfile : (s.world.files (inDir dir "exit_code")).isSome = true
  · rw [if_pos hfile] at htest ⊢
    obtain ⟨s', n, hrun, hs'⟩ := prints_completed (s := { s with last := 0 }) work depth hrunning hid hbase
    exact Chooses.taken htest ⟨s', n, hrun, fun m => hs'⟩
  rw [if_neg hfile] at htest ⊢
  refine Chooses.skipped htest (by decide) ?_
  have hargs' : Args (shell (Remote.host work) (depth + 1)) ({ s with last := 1 } : Session Remote)
      [bare "[", quotedWord (modeText mode), bare "=", quoted "background", bare "]"]
      ["[".toList, modeText mode, "=".toList, "background".toList, "]".toList] :=
    args_cons rfl (means_bare _) (args_cons (isField_quotedWord _) (means_quoted _) (args_cons rfl (means_bare _)
      (args_cons (isField_quotedWord _) (means_quoted _) (args_cons rfl (means_bare _) args_nil))))
  have hmode := pipeline_test (s := { s with last := 1 }) work hrunning hargs' (test_eq _ _ _)
  have hcondition := run_pair (x := shell (Remote.host work) (depth + 2)) { s with last := 1 }
    (simpleCommand false [bare "[", quotedWord (modeText mode), bare "=", quoted "background", bare "]"] [])
    hasSession .and
  rw [hmode, if_neg Bool.false_ne_true] at hcondition
  have hunknown (n : Nat) : Chooses (shell (Remote.host work) (depth + 2)) { s with last := n } []
      [printLine "%s\\tunknown\\n"] (fieldLine [key, "unknown".toList]) fun s' => ∀ m, Left s { s' with last := m } := by
    obtain ⟨s', m, hrun, hs'⟩ := prints_line (s := { s with last := n }) work (depth + 1) (format_unknown key) hrunning hid
    exact Chooses.last (by simp) ⟨s', m, hrun, fun _ => hs'⟩
  cases mode with
  | background =>
    have hsession := pipeline_hasSession (s := { s with last := 0 }) work (depth + 1) hrunning hid
    have hsame : modeText .background = "background".toList := rfl
    rw [if_pos hsame, if_pos (by rfl), hsession] at hcondition
    by_cases hthere : (s.world.sessions (sessionOf key)).isSome = true
    · rw [if_pos hthere] at hcondition
      obtain ⟨s', m, hrun, hs'⟩ := prints_pane (s := { s with last := 0 }) work depth hrunning hid
      by_cases hlive : livePane s.world (sessionOf key) = true
      · rw [if_pos ⟨rfl, hlive⟩]
        rw [if_pos hlive] at hrun
        exact Chooses.taken hcondition ⟨s', m, hrun, fun _ => hs'⟩
      · rw [if_neg fun h => hlive h.2]
        rw [if_neg hlive] at hrun
        exact Chooses.taken hcondition ⟨s', m, hrun, fun _ => hs'⟩
    · have hdead : ¬livePane s.world (sessionOf key) = true := by
        rw [livePane, Option.not_isSome_iff_eq_none.mp hthere]
        decide
      rw [if_neg hthere] at hcondition
      rw [if_neg fun h => hdead h.2]
      exact Chooses.skipped hcondition Nat.one_ne_zero (hunknown 1)
  | quick | interactive =>
    rw [if_neg fun h => absurd h.1 (by decide)]
    exact Chooses.skipped hcondition Nat.one_ne_zero (hunknown 1)

/-! ## The run of the script -/

theorem Left.running {s' : Session Remote} (h : Left s s') (hrunning : s.world.running = true) :
    s'.world.running = true := by
  rw [h.1]
  exact hrunning

theorem Left.trans {s' s'' : Session Remote} (h : Left s s') (h' : Left s' s'') : Left s s'' :=
  ⟨h'.1.trans h.1, h'.2.trans h.2⟩

theorem Left.runDir {s' : Session Remote} (h : Left s s') (id : RunId) : runDir s' id = runDir s id := by
  rw [Actions.runDir, Actions.runDir, h.2]

/-- The line that is printed for a request. -/
def requestLine (s : Session Remote) (request : RemoteRunProbeRequest) : Text :=
  fieldLine (answer s.world (runDir s request.runId) (History.runKey request.runId).toList request.mode)

theorem Left.requestLine {s' : Session Remote} (h : Left s s') (request : RemoteRunProbeRequest) :
    requestLine s' request = requestLine s request := by
  rw [Probe.requestLine, Probe.requestLine, h.1, h.runDir]

theorem prints_part (work : Text → Remote → Reply Remote) (depth : Nat) (hrunning : s.world.running = true)
    (request : RemoteRunProbeRequest) :
    Prints (shell (Remote.host work) (depth + 3)) s
      (partScript (History.runKey request.runId).toList (modeText request.mode)) (requestLine s request) (Left s) := by
  generalize hkey : (History.runKey request.runId).toList = key
  have hid : Prints (shell (Remote.host work) (depth + 3)) s [idItem key] [] fun s' => Left s s' ∧
      s'.parameter "id".toList = some key := by
    have hmeans : Means (shell (Remote.host work) (depth + 2)) s (quotedWord key) key := means_quoted key
    exact ⟨_, 0, assignment_eq hmeans, left_update (by decide) key 0, parameter_update_self _ _ (by decide) 0⟩
  show Prints _ s ([idItem key] ++ [baseOfId, askItem (quotedWord (modeText request.mode))])
    ([] ++ requestLine s request) _
  refine hid.append ?_
  rintro s₁ ⟨hleft₁, hid₁⟩
  have hbase : Prints (shell (Remote.host work) (depth + 3)) s₁ [baseOfId] [] fun s' => Left s s' ∧
      s'.parameter "id".toList = some key ∧ s'.parameter "base".toList = some (runDir s request.runId) := by
    have hmeans : Means (shell (Remote.host work) (depth + 2)) s₁
        (param "HOME" ++ (quoted "/.cache/kodework/runs/" ++ param "id")) (runDir s₁ request.runId) := by
      rw [runDir, hkey]
      exact (means_parameter (parameter_variable (by decide)) true).append
        ((means_quoted _).append (means_parameter hid₁ true))
    refine ⟨_, 0, assignment_eq hmeans, hleft₁.trans (left_update (by decide) _ 0), ?_, ?_⟩
    · exact (parameter_update_ne (by decide : "id".toList ≠ "base".toList) (by rfl) 0).trans hid₁
    · rw [← hleft₁.runDir]
      exact parameter_update_self _ _ (by decide) 0
  show Prints _ s₁ ([baseOfId] ++ [askItem (quotedWord (modeText request.mode))]) ([] ++ requestLine s request) _
  refine hbase.append ?_
  rintro s₂ ⟨hleft₂, hid₂, hbase₂⟩
  obtain ⟨s₃, n, hrun, hleft₃⟩ := prints_ask work depth request.mode (hleft₂.running hrunning) hid₂ hbase₂
  rw [requestLine, hkey, ← hleft₂.1]
  exact ⟨s₃, n, hrun, hleft₂.trans hleft₃⟩

theorem prints_parts (work : Text → Remote → Reply Remote) (depth : Nat) (hrunning : s.world.running = true)
    (requests : List RemoteRunProbeRequest) :
    Prints (shell (Remote.host work) (depth + 3)) s
      (requests.flatMap fun request => partScript (History.runKey request.runId).toList (modeText request.mode))
      (requests.flatMap (requestLine s)) (Left s) := by
  induction requests generalizing s with
  | nil => exact prints_nil ⟨rfl, rfl⟩
  | cons request requests ih =>
    refine (prints_part work depth hrunning request).append fun s' hleft => ?_
    obtain ⟨s'', n, hrun, hleft'⟩ := ih (hleft.running hrunning)
    have hlines : requests.flatMap (requestLine s') = requests.flatMap (requestLine s) :=
      List.flatMap_congr fun request _ => hleft.requestLine request
    rw [hlines] at hrun
    exact ⟨s'', n, hrun, hleft.trans hleft'⟩

/-- The probe prints a line for each request, in their order, and changes nothing. -/
theorem execute_probe {requests : List RemoteRunProbeRequest} {script : Text}
    (h : buildRemoteRunProbeCommand requests = .ok script) (hrunning : s.world.running = true) :
    (execute (Remote.host work) s script).ended = false ∧
      (execute (Remote.host work) s script).state.world = s.world ∧
      (execute (Remote.host work) s script).events = requests.flatMap (requestLine s) := by
  have hlength : ∃ depth, script.length = depth + 3 := by
    obtain ⟨parts, -, h⟩ := ok_of_bind h
    cases h
    have hset : "set -f; ".toList.length = 8 := by decide
    rw [List.length_append, hset]
    exact ⟨_, Nat.add_comm 8 _ |>.trans (Nat.add_assoc _ 5 3).symm⟩
  obtain ⟨depth, hdepth⟩ := hlength
  have hset : Prints (shell (Remote.host work) (depth + 3)) s [setItem] [] (Left s) := by
    have hargs : Args (shell (Remote.host work) (depth + 2)) s [bare "set", bare "-f"] ["set".toList, "-f".toList] :=
      args_cons rfl (means_bare _) (args_cons rfl (means_bare _) args_nil)
    exact ⟨_, 0, pipeline_call hargs (by decide) (call_quiet work hrunning (by decide) _), rfl, rfl⟩
  have hall : Prints (shell (Remote.host work) (depth + 3)) s (probeScript requests)
      (requests.flatMap (requestLine s)) (Left s) := by
    refine hset.append fun s' hleft => ?_
    obtain ⟨s'', n, hrun, hleft'⟩ := prints_parts work depth (hleft.running hrunning) requests
    have hlines : requests.flatMap (requestLine s') = requests.flatMap (requestLine s) :=
      List.flatMap_congr fun request _ => hleft.requestLine request
    rw [hlines] at hrun
    exact ⟨s'', n, hrun, hleft.trans hleft'⟩
  obtain ⟨s', n, hrun, hleft⟩ := hall
  rw [execute, hdepth, read_probe h, hrun]
  exact ⟨rfl, hleft.1, rfl⟩

end KW.Probe
