import KodeWork.Proof.Probe

/-!
# What the cleanup takes away

The command of `cleanup_remote_run_metadata`, run on a machine on which it can fail half
way: the directory of the run goes, and nothing else does. What the probe prints of other
runs is the same as before.
-/

namespace KW.Probe

open KW.Shell KW.Actions

/-! ## The directory of a run -/

/-- The directory of a run is not on the way to the files of another. -/
theorem inTree_other {s : Session Remote} {id other : RunId} (hne : other ≠ id)
    (hlength : (History.runKey id).toList.length = 32) (hlength' : (History.runKey other).toList.length = 32)
    (name : String) : Remote.inTree (runDir s id) (inDir (runDir s other) name) = false := by
  have hkeys : ¬ (History.runKey id).toList <+: (History.runKey other).toList ++ ("/" ++ name).toList := by
    intro hprefix
    have hkey := List.prefix_of_prefix_length_le hprefix (List.prefix_append _ _) (by omega)
    exact hne (runKey_inj (hkey.eq_of_length (by omega))).symm
  have hdir (id : RunId) : runDir s id =
      ((s.vars "HOME".toList).getD [] ++ "/.cache/kodework/runs/".toList) ++ (History.runKey id).toList := by
    rw [runDir, List.append_assoc]
  rw [Remote.inTree, Bool.or_eq_false_iff, inDir, hdir id, hdir other]
  refine ⟨beq_false_of_ne fun heq => ?_, Bool.eq_false_iff.mpr fun hprefix => ?_⟩
  · rw [List.append_assoc] at heq
    exact hkeys ((List.append_cancel_left heq).symm ▸ List.prefix_refl _)
  · have hprefix := List.isPrefixOf_iff_prefix.mp hprefix
    rw [List.append_assoc, List.append_assoc _ (History.runKey other).toList] at hprefix
    exact hkeys ((List.prefix_append _ _).trans ((List.prefix_append_right_inj _).mp hprefix))

theorem inTree_own (dir : Text) (name : String) : Remote.inTree dir (inDir dir name) = true := by
  have hprefix : dir ++ ['/'] <+: inDir dir name := by
    rw [inDir, String.toList_append]
    exact ⟨name.toList, List.append_assoc _ _ _⟩
  rw [Remote.inTree, Bool.or_eq_true]
  exact .inr (List.isPrefixOf_iff_prefix.mpr hprefix)

/-! ## The command -/

def removeItem : Item (Pipeline Command) :=
  item (simpleCommand false [bare "rm", bare "-rf", bare "--", param "base"] [])

theorem buildCleanupCommand_eq {id : RunId} {script : Text} (h : buildCleanupCommand id = .ok script) :
    (History.runKey id).toList.length = 32 ∧
      script = "base=\"$HOME/.cache/kodework/runs/".toList ++ (History.runKey id).toList ++
        "\"; rm -rf -- \"$base\"".toList := by
  rw [buildCleanupCommand] at h
  split at h
  · cases h
  · case isFalse hkey =>
    refine ⟨by_contra fun hlength => hkey ?_, (Except.ok.inj h).symm⟩
    rw [decide_eq_true hlength, Bool.true_or]

theorem read_cleanup {id : RunId} {script : Text} (h : buildCleanupCommand id = .ok script) :
    readScript script = [baseItem (History.runKey id).toList] ++ [removeItem] := by
  have hbase := (plain_runBase (plain_runKey id)).complete
  have hremove : Plain "rm -rf -- \"$base\"".toList [bare "rm", bare "-rf", bare "--", param "base"] := by
    refine ⟨⟨[bare "rm", bare "-rf", bare "--"], param "base", rfl, scan_literal (by decide)⟩, ?_⟩
    rintro w ⟨⟩
    decide
  have hend : "\"; rm -rf -- \"$base\"".toList = "\"".toList ++ ("; ".toList ++ "rm -rf -- \"$base\"".toList) := by
    decide
  have happend (a k q t r : Text) : a ++ k ++ (q ++ (t ++ r)) = (a ++ (k ++ q)) ++ t ++ r := by
    simp only [List.append_assoc]
  have hreads := hbase.reads_append hremove.reads
  rw [(buildCleanupCommand_eq h).2, hend, happend]
  exact hreads.read

/-- The second machine is the first without files of the directory, and without all of them
if nothing has gone wrong. -/
structure Cleaned (dir : Text) (r r' : Remote) : Prop where
  files : ∀ p, r'.files p = r.files p ∨ Remote.inTree dir p = true ∧ r'.files p = none
  sessions : r'.sessions = r.sessions
  ran : r'.ran = r.ran
  gone : r'.troubled = false → ∀ p, Remote.inTree dir p = true → r'.files p = none

theorem cleaned_removeTrees (dir : Text) (r : Remote) (fates : List Fate) (goes : Text → Bool) (troubled running : Bool)
    (hgoes : troubled = false → ∀ p, goes p = true) :
    Cleaned dir r { ({ r with fates := fates } : Remote).removeTrees [dir] goes with
      troubled := troubled, running := running } := by
  refine ⟨fun p => ?_, rfl, rfl, fun hfine p hp => ?_⟩
  · show (if _ then none else r.files p) = r.files p ∨ _ ∧ (if _ then none else r.files p) = none
    split
    · case isTrue h =>
      rw [List.any_cons, List.any_nil, Bool.or_false, Bool.and_eq_true] at h
      exact .inr ⟨h.1, rfl⟩
    · exact .inl rfl
  · refine if_pos ?_
    rw [List.any_cons, hp, hgoes hfine p]
    rfl

theorem cleaned_rm {work : Text → Remote → Reply Remote} {r : Remote} (hrunning : r.running = true) (dir : Text) :
    Cleaned dir r ((Remote.host work).call r ["rm".toList, "-rf".toList, "--".toList, dir] []).world := by
  rw [Remote.call_eq hrunning (by decide : _ = some Remote.Name.rm), Remote.perform, Remote.rm, if_neg (by decide),
    if_pos ⟨rfl, rfl⟩, Remote.attempt]
  split
  · exact cleaned_removeTrees dir r r.fates _ r.troubled r.running fun _ _ => rfl
  · case h_2 fates _ => exact cleaned_removeTrees dir r fates _ r.troubled r.running fun _ _ => rfl
  · case h_3 part fates _ => exact cleaned_removeTrees dir r fates _ true r.running (by simp)
  · case h_4 part fates _ => exact cleaned_removeTrees dir r fates _ true false (by simp)

theorem execute_cleanup {work : Text → Remote → Reply Remote} {s : Session Remote} {id : RunId} {script : Text}
    (h : buildCleanupCommand id = .ok script) (hrunning : s.world.running = true) :
    Cleaned (runDir s id) s.world (execute (Remote.host work) s script).state.world := by
  have hlength : ∃ depth, script.length = depth + 1 := by
    have hend : "\"; rm -rf -- \"$base\"".toList.length = 19 + 1 := by decide
    rw [(buildCleanupCommand_eq h).2, List.length_append, hend]
    exact ⟨_, (Nat.add_assoc _ 19 1).symm⟩
  obtain ⟨depth, hdepth⟩ := hlength
  have hends : Ends (fun s' _ => Cleaned (runDir s id) s.world s'.world)
      (fun s' _ => Cleaned (runDir s id) s.world s'.world)
      ((shell (Remote.host work) (depth + 1)).run s ([baseItem (History.runKey id).toList] ++ [removeItem])) := by
    refine Ends.seq (R := fun s' _ => s'.world = s.world ∧ s'.parameter "base".toList = some (runDir s id))
      (ends_base ⟨rfl, parameter_update_self _ _ (by decide) 0⟩) ?_ (List.cons_ne_nil _ _)
    rintro s' - ⟨hworld, hbase⟩
    have hargs : Args (shell (Remote.host work) depth) s' [bare "rm", bare "-rf", bare "--", param "base"]
        ["rm".toList, "-rf".toList, "--".toList, runDir s id] :=
      args_cons rfl (means_bare _) (args_cons rfl (means_bare _) (args_cons rfl (means_bare _)
        (args_cons rfl (means_parameter hbase true) args_nil)))
    have hcleaned : Cleaned (runDir s id) s.world
        ((Remote.host work).call s'.world ["rm".toList, "-rf".toList, "--".toList, runDir s id] []).world := by
      rw [hworld]
      exact cleaned_rm hrunning _
    exact Ends.single (ends_call hargs (by decide) (fun _ => hcleaned) fun _ => hcleaned)
  rw [execute, hdepth, read_cleanup h]
  cases hended : (Runner.run (shell (Remote.host work) (depth + 1)) s
      ([baseItem (History.runKey id).toList] ++ [removeItem])).ended with
  | true => exact hends.stopped hended
  | false => exact hends.goes hended

/-! ## Asking behind it -/

/-- A script is built only of keys of 32 digits. -/
theorem length_of_build {requests : List RemoteRunProbeRequest} {script : Text}
    (h : buildRemoteRunProbeCommand requests = .ok script) :
    ∀ request ∈ requests, (History.runKey request.runId).toList.length = 32 := by
  obtain ⟨parts, hparts, -⟩ := ok_of_bind h
  clear h
  induction requests generalizing parts with
  | nil => exact fun request hrequest => absurd hrequest List.not_mem_nil
  | cons first requests ih =>
    rw [List.mapM_cons] at hparts
    obtain ⟨part, hpart, hrest⟩ := ok_of_bind hparts
    obtain ⟨rest, hrest, -⟩ := ok_of_bind hrest
    intro request hrequest
    rcases List.mem_cons.mp hrequest with rfl | hrequest
    · rw [probePart] at hpart
      split at hpart
      · cases hpart
      · case isFalse hkey =>
        refine by_contra fun hlength => hkey ?_
        rw [decide_eq_true hlength, Bool.true_or]
    · exact ih rest hrest request hrequest

/-- The same line is printed on machines with the same markers of the run and the same session. -/
theorem requestLine_congr {s s' : Session Remote} {request : RemoteRunProbeRequest}
    (hhome : s'.vars "HOME".toList = s.vars "HOME".toList)
    (hfiles : ∀ name, s'.world.files (inDir (runDir s request.runId) name) =
      s.world.files (inDir (runDir s request.runId) name))
    (hsessions : s'.world.sessions = s.world.sessions) : requestLine s' request = requestLine s request := by
  have hdir : runDir s' request.runId = runDir s request.runId := by rw [runDir, runDir, hhome]
  have htext (name : String) : fileText s'.world (inDir (runDir s request.runId) name) =
      fileText s.world (inDir (runDir s request.runId) name) := by rw [fileText, fileText, hfiles]
  have hlive (name : Text) : livePane s'.world name = livePane s.world name := by rw [livePane, livePane, hsessions]
  rw [requestLine, requestLine, hdir, answer, answer, hfiles, htext, htext, htext, hlive]

/-- The machine after a command, when something is asked of it again: with the files and the
sessions that the command has left. -/
structure AskedBehind (s s' : Session Remote) (r : Remote) : Prop where
  home : s'.vars "HOME".toList = s.vars "HOME".toList
  running : s'.world.running = true
  files : s'.world.files = r.files
  sessions : s'.world.sessions = r.sessions

/-- The probe of other runs prints what it printed before. -/
theorem events_behind {work work' : Text → Remote → Reply Remote} {s s' : Session Remote} {id : RunId}
    {requests : List RemoteRunProbeRequest} {cleanup probe : Text} (hcleanup : buildCleanupCommand id = .ok cleanup)
    (hprobe : buildRemoteRunProbeCommand requests = .ok probe) (hrunning : s.world.running = true)
    (hasked : AskedBehind s s' (execute (Remote.host work) s cleanup).state.world)
    (hother : ∀ request ∈ requests, request.runId ≠ id) :
    (execute (Remote.host work') s' probe).events = (execute (Remote.host work') s probe).events := by
  have hcleaned := @execute_cleanup work _ _ _ hcleanup hrunning
  obtain ⟨-, -, hbefore⟩ := @execute_probe work' s requests probe hprobe hrunning
  obtain ⟨-, -, hafter⟩ := @execute_probe work' s' requests probe hprobe hasked.running
  rw [hbefore, hafter]
  refine List.flatMap_congr fun request hrequest => requestLine_congr hasked.home (fun name => ?_) ?_
  · have hout := inTree_other (s := s) (hother request hrequest) (buildCleanupCommand_eq hcleanup).1
      (length_of_build hprobe request hrequest) name
    rw [hasked.files]
    cases hcleaned.files (inDir (runDir s request.runId) name) with
    | inl hsame => exact hsame
    | inr hgone => exact absurd (hgone.1.symm.trans hout) (by decide)
  · rw [hasked.sessions, hcleaned.sessions]

/-- The probe of the run itself finds no exit code any more. -/
theorem reconcile_behind {work work' : Text → Remote → Reply Remote} {s s' : Session Remote} {id : RunId}
    {mode : ActionMode} {cleanup probe : Text} (hid : id.uuid < 340282366920938463463374607431768211456)
    (hcleanup : buildCleanupCommand id = .ok cleanup) (hprobe : buildRemoteRunProbeCommand [⟨id, mode⟩] = .ok probe)
    (hrunning : s.world.running = true)
    (hfine : (execute (Remote.host work) s cleanup).state.world.troubled = false)
    (hasked : AskedBehind s s' (execute (Remote.host work) s cleanup).state.world) :
    reconcileRemoteRuns [⟨id, mode⟩] (Utf8.encode (execute (Remote.host work') s' probe).events) =
      [⟨id, if mode = .background ∧ livePane s.world (sessionOf (History.runKey id).toList) = true then .running
        else .unknown⟩] := by
  have hcleaned := @execute_cleanup work _ _ _ hcleanup hrunning
  have hgone : s'.world.files (inDir (runDir s' id) "exit_code") = none := by
    have hdir : runDir s' id = runDir s id := by rw [runDir, runDir, hasked.home]
    rw [hdir, hasked.files]
    exact hcleaned.gone hfine _ (inTree_own _ _)
  have hlive : livePane s'.world (sessionOf (History.runKey id).toList) =
      livePane s.world (sessionOf (History.runKey id).toList) := by
    rw [livePane, livePane, hasked.sessions, hcleaned.sessions]
  obtain ⟨script, hscript, -, hreports⟩ := @probe_reports work' s' [⟨id, mode⟩] (fun _ => ⟨none, none, none⟩)
    (by simpa using hid) (by simp) hasked.running (by simpa using ⟨hgone, by simp, by simp⟩)
  cases hprobe.symm.trans hscript
  rw [hreports, List.map_cons, List.map_nil, hlive]
  rfl

/-- The cleanup of a run on any machine, whatever fails and whenever it is cut off. It
touches nothing outside of the directory of the run and no session. A probe of other runs
prints behind it what it printed before. Where nothing has gone wrong the directory is gone,
and a probe of the run itself does not say any more that it has ended. -/
theorem cleanup_safe {work : Text → Remote → Reply Remote} {s : Session Remote} {id : RunId} {cleanup : Text}
    (hid : id.uuid < 340282366920938463463374607431768211456) (hcleanup : buildCleanupCommand id = .ok cleanup)
    (hrunning : s.world.running = true) :
    ∃ r, (execute (Remote.host work) s cleanup).state.world = r ∧ r.sessions = s.world.sessions ∧
      (∀ p, Remote.inTree (runDir s id) p = false → r.files p = s.world.files p) ∧
      (r.troubled = false → ∀ p, Remote.inTree (runDir s id) p = true → r.files p = none) ∧
      ∀ work' s', AskedBehind s s' r →
        (∀ requests probe, buildRemoteRunProbeCommand requests = .ok probe →
          (∀ request ∈ requests, request.runId ≠ id) →
            (execute (Remote.host work') s' probe).events = (execute (Remote.host work') s probe).events) ∧
        (r.troubled = false → ∀ mode probe, buildRemoteRunProbeCommand [⟨id, mode⟩] = .ok probe →
          reconcileRemoteRuns [⟨id, mode⟩] (Utf8.encode (execute (Remote.host work') s' probe).events) =
            [⟨id, if mode = .background ∧ livePane s.world (sessionOf (History.runKey id).toList) = true
              then .running else .unknown⟩]) := by
  have hcleaned := @execute_cleanup work _ _ _ hcleanup hrunning
  refine ⟨_, rfl, hcleaned.sessions, fun p hp => ?_, hcleaned.gone, fun work' s' hasked => ⟨?_, ?_⟩⟩
  · cases hcleaned.files p with
    | inl hsame => exact hsame
    | inr hgone => exact absurd (hgone.1.symm.trans hp) (by decide)
  · exact fun requests probe hprobe hother => events_behind hcleanup hprobe hrunning hasked hother
  · exact fun hfine mode probe hprobe => reconcile_behind hid hcleanup hprobe hrunning hfine hasked

/-- The first run of a machine is cleaned up: the second is left as it was. -/
theorem cleanup_safe_first :
    ∃ cleanup r, buildCleanupCommand ⟨1⟩ = .ok cleanup ∧
      (execute (Remote.host endsWith3) probedSession cleanup).state.world = r ∧
      r.sessions = probedSession.world.sessions ∧
      r.files (inDir (runDir probedSession ⟨2⟩) "exit_code") =
        probedSession.world.files (inDir (runDir probedSession ⟨2⟩) "exit_code") := by
  have hcleanup : ∃ cleanup, buildCleanupCommand ⟨1⟩ = .ok cleanup := ⟨_, rfl⟩
  obtain ⟨cleanup, hcleanup⟩ := hcleanup
  obtain ⟨r, hr, hsessions, hfiles, -⟩ := @cleanup_safe endsWith3 probedSession ⟨1⟩ cleanup (by decide) hcleanup rfl
  exact ⟨cleanup, r, hcleanup, hr, hsessions, hfiles _ (by decide)⟩

end KW.Probe
