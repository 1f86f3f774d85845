import KodeWork.Framework.Shell.Directories
import KodeWork.Proof.Shell.Guard
import KodeWork.Proof.Transfer.RemotePath

/-!
# The directory of a path, for the shell and for the backend

`shell_cd` goes to the home first and then on to the rest of a path behind `~/`;
`resolve_path` puts the two texts together. They mean the same unless the rest is read by
`cd` as something else than a path below the home: it is absolute, a lone minus sign, or
empty (`shellCd_directory_iff`).
-/

namespace KW.Actions

open KW.Shell Transfer

/-- The only parameter of the line. -/
def homeOf (home name : Text) : Text := if name = "HOME".toList then home else []

/-- What `cd` makes of the rest of a path behind `~/` is the directory below the home. -/
structure BelowHome (emptyStays : Bool) (home : Text) (start : Directory) (rest : Text) : Prop where
  empty : rest = [] → emptyStays = true
  minus : rest = ['-'] → start = Directory.follow [] home ++ [['-']]
  absolute : rest.head? = some '/' → Directory.follow [] home = []

/-! ## The line of shell_cd -/

theorem shellQuote_ok {t : Text} (h : t.any Text.isControl = false) : ∃ q, shellQuote t = .ok q := by
  refine ⟨_, if_neg ?_⟩
  intro hany
  obtain ⟨c, hc, hrefused⟩ := List.any_eq_true.mp hany
  have hcontrol : Text.isControl c = true := by
    simp only [Bool.or_eq_true, beq_iff_eq] at hrefused
    rcases hrefused with (rfl | rfl) | rfl <;> decide
  rw [List.any_eq_false] at h
  exact h c hc hcontrol

/-- What `validate_remote_path` accepts. -/
structure ValidPath (path : Text) : Prop where
  start : Addressed path
  control : path.any Text.isControl = false
  names : ∀ c ∈ path.splitOn '/', c ≠ ['.'] ∧ c ≠ ['.', '.']

theorem validPath_of_ok {path : Text} (h : validateRemotePath path = .ok ()) : ValidPath path := by
  rw [validateRemotePath] at h
  split at h
  · cases h
  · rename_i hbad
    simp only [Bool.or_eq_true, not_or, Bool.not_eq_true, Bool.not_eq_false', List.any_eq_false,
      beq_iff_eq] at hbad
    obtain ⟨⟨hstart, hcontrol⟩, hnames⟩ := hbad
    refine ⟨?_, List.any_eq_false.mpr fun c hc => Bool.eq_false_iff.mp (hcontrol c hc), fun c hc => ?_⟩
    · rcases hstart with (rfl | hstart) | hstart
      · exact .home
      · obtain ⟨rest, rfl⟩ := List.isPrefixOf_iff_prefix.mp hstart
        exact .below rest
      · obtain ⟨rest, rfl⟩ := List.isPrefixOf_iff_prefix.mp hstart
        exact .absolute rest
    · exact hnames c hc

/-- The names of the rest of a path behind `~/`. -/
theorem ValidPath.rest_names {rest : Text} (h : ValidPath ('~' :: '/' :: rest)) :
    ∀ c ∈ Directory.components rest, c ≠ ['.'] ∧ c ≠ ['.', '.'] := by
  intro c hc
  refine h.names c ?_
  have hsplit : ('~' :: '/' :: rest).splitOn '/' = ['~'] :: rest.splitOn '/' :=
    List.splitOnP_append_cons ['~'] rest rfl
  rw [hsplit]
  exact List.mem_cons_of_mem _ (List.mem_of_mem_filter hc)

/-- Plain commands joined by `&&` are one list. -/
theorem read_parts {texts : List Text} {words : List (List Word)} (h : Parts texts words) {w : List Word}
    {ws : List (List Word)} (hwords : words = w :: ws) :
    core.read (join " && ".toList texts) =
      [⟨⟨simplePipeline w, ws.map fun w => (.and, simplePipeline w)⟩, false⟩] := by
  induction h generalizing w ws with
  | nil => cases hwords
  | @cons t w' texts words ht htexts ih =>
    cases hwords
    cases htexts with
    | nil =>
      have htext : join " && ".toList [t] = t := by simp [join, List.intercalate]
      rw [htext]
      exact ht.plain.reads.read
    | cons hu hrest =>
      rw [join_cons _ _ (List.cons_ne_nil _ _), core.read_and ht.plain, ih rfl]
      rfl

/-! ## Both directories -/

theorem cdOperand_home (home : Text) : cdOperand (homeOf home) (simplePipeline cdHome) = some home := by
  show (some ([] : Text)).map (homeOf home "HOME".toList ++ ·) = some home
  rw [homeOf, if_pos rfl, Option.map_some, List.append_nil]

theorem cdOperand_to (home path : Text) : cdOperand (homeOf home) (simplePipeline (cdTo path)) = some path :=
  expand_quotedWord (homeOf home) path

/-- The directory a shell is in after the line, if all of it succeeds. -/
def reached (home : Text) (emptyStays : Bool) (start : Working) (line : Text) : Option Directory :=
  let o := (cdRunner (homeOf home) emptyStays).run start (core.read line)
  if o.status = 0 then some o.state.directory else none

variable {home path : Text} {emptyStays : Bool} {start : Working}

theorem reached_one {line : Text} {w : List Word} {operand : Text}
    (hread : core.read line = [⟨⟨simplePipeline w, []⟩, false⟩])
    (hoperand : cdOperand (homeOf home) (simplePipeline w) = some operand) :
    reached home emptyStays start line = (start.cd emptyStays operand).map (·.directory) := by
  have hrun : (cdRunner (homeOf home) emptyStays).run start (core.read line) =
      (start.cdOutcome emptyStays operand).behind [] := by
    rw [hread, ← pipeline_cd hoperand]
    rfl
  rw [reached, hrun, Working.cdOutcome]
  cases start.cd emptyStays operand <;> rfl

theorem reached_two {line : Text} {w w' : List Word} {operand operand' : Text} {middle : Working}
    (hread : core.read line = [⟨⟨simplePipeline w, [(.and, simplePipeline w')]⟩, false⟩])
    (hoperand : cdOperand (homeOf home) (simplePipeline w) = some operand)
    (hoperand' : cdOperand (homeOf home) (simplePipeline w') = some operand')
    (hmiddle : start.cd emptyStays operand = some middle) :
    reached home emptyStays start line = (middle.cd emptyStays operand').map (·.directory) := by
  have hfirst : (cdRunner (homeOf home) emptyStays).pipeline start (simplePipeline w) =
      { state := middle, status := 0, ended := false, events := [] } := by
    rw [pipeline_cd hoperand, Working.cdOutcome, hmiddle]
  have hrun : (cdRunner (homeOf home) emptyStays).run start (core.read line) =
      (middle.cdOutcome emptyStays operand').behind [] := by
    rw [hread, ← pipeline_cd hoperand']
    show ((cdRunner (homeOf home) emptyStays).andOr ((cdRunner (homeOf home) emptyStays).pipeline start
      (simplePipeline w)) [(.and, simplePipeline w')]).behind [] = _
    rw [hfirst]
    rfl
  rw [reached, hrun, Working.cdOutcome]
  cases middle.cd emptyStays operand' <;> rfl

theorem cd_absolute (h : path.head? = some '/') (s : Working) :
    s.cd emptyStays path = some ⟨Directory.follow [] path, some s.directory⟩ := by
  have hne : path ≠ [] := by
    rintro rfl
    cases h
  have hminus : path ≠ ['-'] := by
    rintro rfl
    cases h
  rw [Working.cd, if_neg hne, if_neg hminus, Directory.follow_absolute h]

/-- The rest of a path behind `~/`, from the home. -/
theorem cd_rest_iff (start : Directory) {rest : Text} (hvalid : ValidPath ('~' :: '/' :: rest)) :
    ((Working.cd emptyStays ⟨Directory.follow [] home, some start⟩ rest).map (·.directory) =
        some (Directory.follow [] (resolved home ('~' :: '/' :: rest)))) ↔
      BelowHome emptyStays home start rest := by
  have hnames (d : Directory) : (Directory.components rest).foldl Directory.enter d = d ++ Directory.components rest :=
    Directory.enterAll_of_names hvalid.rest_names d
  by_cases hempty : rest = []
  · subst hempty
    have hiff : BelowHome emptyStays home start [] ↔ emptyStays = true :=
      ⟨fun h => h.empty rfl, fun h => ⟨fun _ => h, by simp, by simp⟩⟩
    rw [hiff, Working.cd, if_pos rfl]
    cases emptyStays
    · exact iff_of_false (by simp) Bool.false_ne_true
    · exact iff_of_true rfl rfl
  have hbelow : Directory.follow [] (resolved home ('~' :: '/' :: rest)) =
      Directory.follow [] home ++ Directory.components rest := by
    rw [resolved_below hempty, ← hnames]
    exact Directory.follow_below home rest
  rw [hbelow]
  by_cases hminus : rest = ['-']
  · subst hminus
    have hiff : BelowHome emptyStays home start ['-'] ↔ start = Directory.follow [] home ++ [['-']] :=
      ⟨fun h => h.minus rfl, fun h => ⟨by simp, fun _ => h, by simp⟩⟩
    rw [hiff, Working.cd, if_neg hempty, if_pos rfl]
    exact Option.some_inj
  rw [Working.cd, if_neg hempty, if_neg hminus, Option.map_some, Option.some_inj]
  by_cases hslash : rest.head? = some '/'
  · have hiff : BelowHome emptyStays home start rest ↔ Directory.follow [] home = [] :=
      ⟨fun h => h.absolute hslash, fun h => ⟨fun heq => absurd heq hempty, fun heq => absurd heq hminus, fun _ => h⟩⟩
    rw [hiff, Directory.follow_absolute hslash, Directory.follow, ite_self, hnames, List.nil_append]
    exact List.self_eq_append_left
  · refine iff_of_true ?_ ⟨fun heq => absurd heq hempty, fun heq => absurd heq hminus, fun heq => absurd heq hslash⟩
    rw [Directory.follow, if_neg hslash, hnames]

theorem shellCd_ok (hpath : validateRemotePath path = .ok ()) : ∃ line, shellCd path = .ok line := by
  have hvalid := validPath_of_ok hpath
  obtain ⟨q, hq⟩ := shellQuote_ok hvalid.control
  have hrest : (path.drop 2).any Text.isControl = false :=
    List.any_eq_false.mpr fun c hc => List.any_eq_false.mp hvalid.control c (List.mem_of_mem_drop hc)
  obtain ⟨q', hq'⟩ := shellQuote_ok hrest
  simp only [shellCd, hpath, hq, hq', Except.map]
  split
  · exact ⟨_, rfl⟩
  · split <;> exact ⟨_, rfl⟩

theorem read_shellCd {line : Text} (h : shellCd path = .ok line) {w : List Word} {ws : List (List Word)}
    (hwords : cdWords path = w :: ws) :
    core.read line = [⟨⟨simplePipeline w, ws.map fun w => (.and, simplePipeline w)⟩, false⟩] := by
  obtain ⟨texts, hparts, -, rfl⟩ := parts_shellCd h
  exact read_parts hparts hwords

/-- A path leads the shell and the backend to one directory, exactly if it is no path behind `~/`, or the
rest of it is read by `cd` as a path below the home. -/
theorem shellCd_directory_iff (home path : Text) (emptyStays : Bool) (start : Working)
    (hpath : validateRemotePath path = .ok ()) (hhome : home.head? = some '/') :
    ∃ line, shellCd path = .ok line ∧
      (reached home emptyStays start line = some (Directory.follow [] (resolved home path)) ↔
        ∀ rest, path = '~' :: '/' :: rest → BelowHome emptyStays home start.directory rest) := by
  obtain ⟨line, hline⟩ := shellCd_ok hpath
  have hvalid := validPath_of_ok hpath
  refine ⟨line, hline, ?_⟩
  have hstart := hvalid.start
  cases hstart with
  | home =>
    have hread := read_shellCd hline (rfl : cdWords ['~'] = [cdHome])
    refine iff_of_true ?_ nofun
    rw [reached_one hread (cdOperand_home home), cd_absolute hhome]
    rfl
  | absolute t =>
    have hread := read_shellCd hline (rfl : cdWords ('/' :: t) = [cdTo ('/' :: t)])
    refine iff_of_true ?_ nofun
    rw [reached_one hread (cdOperand_to home _), cd_absolute rfl]
    rfl
  | below rest =>
    have hread := read_shellCd hline (rfl : cdWords ('~' :: '/' :: rest) = [cdHome, cdTo rest])
    rw [reached_two hread (cdOperand_home home) (cdOperand_to home rest) (cd_absolute hhome start),
      cd_rest_iff start.directory hvalid]
    constructor
    · rintro h _ ⟨⟩
      exact h
    · exact fun h => h rest rfl

/-- `~/projects` is below the home for both. -/
theorem projects_directory :
    ∃ line, shellCd "~/projects".toList = .ok line ∧
      reached "/home/u".toList false ⟨[], none⟩ line =
        some (Directory.follow [] (resolved "/home/u".toList "~/projects".toList)) := by
  obtain ⟨line, hline, hiff⟩ := shellCd_directory_iff "/home/u".toList "~/projects".toList false ⟨[], none⟩
    (by decide) (by decide)
  refine ⟨line, hline, hiff.mpr ?_⟩
  rintro rest hrest
  cases hrest
  exact ⟨nofun, nofun, nofun⟩

/-- An absolute path behind `~/` leads the shell out of the home, and a minus sign back to where it was. -/
theorem other_directory :
    (∃ line, validateRemotePath "~//etc".toList = .ok () ∧ shellCd "~//etc".toList = .ok line ∧
      reached "/home/u".toList true ⟨["srv".toList], none⟩ line = some ["etc".toList] ∧
      Directory.follow [] (resolved "/home/u".toList "~//etc".toList) ≠ ["etc".toList]) ∧
    ∃ line, validateRemotePath "~/-".toList = .ok () ∧ shellCd "~/-".toList = .ok line ∧
      reached "/home/u".toList true ⟨["srv".toList], none⟩ line = some ["srv".toList] ∧
      Directory.follow [] (resolved "/home/u".toList "~/-".toList) ≠ ["srv".toList] := by
  refine ⟨⟨_, by decide, rfl, by decide, by decide⟩, _, by decide, rfl, by decide, by decide⟩

end KW.Actions
