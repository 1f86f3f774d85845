import KodeWork.Framework.Shell.Execution

/-!
# What holds after a script

Postconditions for the shell of `Execution`. There are two of them: one for a script that
is run to its end, with its status, and one for a shell that has ended on the way (`Ends`).
Both are about the state alone; what a script prints is not in them.

There is a rule for each kind of pipeline, for `||`, for conditionals and for scripts one
behind the other. Those for commands ask what the machine does with the call (`ends_call`,
`ends_write`).
-/

namespace KW.Shell

universe u

variable {ω : Type u} {h : Host ω} {x : Interpreter ω}

/-- What holds of a run that has ended the shell, and of one that has not. -/
structure Ends (E Q : Session ω → Nat → Prop) (o : Printing ω) : Prop where
  stopped : o.ended = true → E o.state o.status
  goes : o.ended = false → Q o.state o.status

variable {E E' Q Q' R : Session ω → Nat → Prop} {o : Printing ω} {s : Session ω}

theorem Ends.mono (ho : Ends E Q o) (hstopped : ∀ s n, E s n → E' s n) (hgoes : ∀ s n, Q s n → Q' s n) :
    Ends E' Q' o := ⟨fun hended => hstopped _ _ (ho.stopped hended), fun hended => hgoes _ _ (ho.goes hended)⟩

theorem Ends.behind (ho : Ends E Q o) (es : List Char) : Ends E Q (o.behind es) := ⟨ho.stopped, ho.goes⟩

theorem ends_of_goes (hended : o.ended = false) (hq : Q o.state o.status) : Ends E Q o :=
  ⟨fun hstopped => absurd hstopped (Bool.eq_false_iff.mp hended), fun _ => hq⟩

theorem ends_of_stopped (hended : o.ended = true) (he : E o.state o.status) : Ends E Q o :=
  ⟨fun _ => he, fun hgoes => absurd hended (Bool.eq_false_iff.mp hgoes)⟩

/-! ## Lists and scripts -/

theorem run_append_of_ended {p q : Script} (hended : (x.run s p).ended = true) :
    x.run s (p ++ q) = x.run s p := by
  rw [Runner.run, Runner.items_append]
  exact Runner.items_of_ended x hended q

theorem run_append {p q : Script} (hended : (x.run s p).ended = false) (hq : q ≠ []) :
    x.run s (p ++ q) = (x.run (x.run s p).state q).behind (x.run s p).events := by
  obtain ⟨i, rest, rfl⟩ := List.exists_cons_of_ne_nil hq
  have hfirst : x.run s (p ++ i :: rest) = x.items (x.run s p) (i :: rest) := by
    rw [Runner.run, Runner.items_append]
    rfl
  rw [hfirst, Runner.items, hended, Runner.run_cons, ← Runner.items_behind]
  rfl

/-- One script behind another. -/
theorem Ends.seq {p q : Script} (hp : Ends E R (x.run s p)) (hq : ∀ s n, R s n → Ends E Q (x.run s q))
    (hne : q ≠ []) : Ends E Q (x.run s (p ++ q)) := by
  cases hended : (x.run s p).ended with
  | true =>
    rw [run_append_of_ended hended]
    exact ends_of_stopped hended (hp.stopped hended)
  | false =>
    rw [run_append hended hne]
    exact (hq _ _ (hp.goes hended)).behind _

theorem Ends.single {p : Pipeline Command} (hp : Ends E Q (x.pipeline s p)) :
    Ends E Q (x.run s [⟨⟨p, []⟩, false⟩]) := hp

theorem run_pair (s : Session ω) (p p' : Pipeline Command) (c : Connector) :
    x.run s [⟨⟨p, [(c, p')]⟩, false⟩] =
      if (x.pipeline s p).ended then x.pipeline s p
      else if c.admits (x.pipeline s p).status then
        (x.pipeline (x.pipeline s p).state p').behind (x.pipeline s p).events
      else x.pipeline s p := rfl

/-- The second pipeline runs only where the first has failed. -/
theorem Ends.or {p p' : Pipeline Command} (hp : Ends E R (x.pipeline s p)) (hzero : ∀ s, R s 0 → Q s 0)
    (hp' : ∀ s n, n ≠ 0 → R s n → Ends E Q (x.pipeline s p')) : Ends E Q (x.run s [⟨⟨p, [(.or, p')]⟩, false⟩]) := by
  rw [run_pair]
  cases hended : (x.pipeline s p).ended with
  | true => exact ends_of_stopped hended (hp.stopped hended)
  | false =>
    have hgoes := hp.goes hended
    rw [if_neg Bool.false_ne_true]
    split
    · case isTrue hadmits =>
      have hne : (x.pipeline s p).status ≠ 0 := by simpa [Connector.admits] using hadmits
      exact (hp' _ _ hne hgoes).behind _
    · case isFalse hadmits =>
      have hstatus : (x.pipeline s p).status = 0 := by simpa [Connector.admits] using hadmits
      refine ends_of_goes hended ?_
      rw [hstatus] at hgoes ⊢
      exact hzero _ hgoes

/-! ## Pipelines -/

theorem shell_pipeline (depth : Nat) (s : Session ω) (negated : Bool) (c : Command) :
    (shell h (depth + 1)).pipeline s ⟨negated, [c]⟩ = finish negated (commandOutcome h (shell h depth) s c) := rfl

/-- The status of a pipeline, from that of its command. -/
def pipelineStatus (negated : Bool) (n : Nat) : Nat := if negated then if n = 0 then 1 else 0 else n

theorem Ends.finish {negated : Bool}
    (ho : Ends E (fun s n => Q { s with last := pipelineStatus negated n } (pipelineStatus negated n)) o) :
    Ends E Q (finish negated o) := by
  rw [Shell.finish]
  split
  · case isTrue hended => exact ends_of_stopped hended (ho.stopped hended)
  · case isFalse hended => exact ends_of_goes (Bool.eq_false_iff.mpr hended) (ho.goes (Bool.eq_false_iff.mpr hended))

/-- `if` with one branch: its body runs exactly if the condition ends with status 0. -/
theorem ends_if {condition body : Script} (hcondition : Ends E R ((shell h depth).run s condition))
    (hbody : ∀ s, R s 0 → Ends E (fun s n => Q { s with last := n } n) ((shell h depth).run s body))
    (hskip : ∀ s n, n ≠ 0 → R s n → Q { s with last := 0 } 0) :
    Ends E Q ((shell h (depth + 1)).pipeline s ⟨false, [.conditional [(condition, body)] []]⟩) := by
  rw [shell_pipeline]
  refine Ends.finish ?_
  generalize hc : (shell h depth).run s condition = c at hcondition
  have hrun : commandOutcome h (shell h depth) s (.conditional [(condition, body)] []) =
      if c.ended then c
      else if c.status = 0 then ((shell h depth).run c.state body).behind c.events
      else { c with status := 0 } := by
    rw [← hc]
    rfl
  rw [hrun]
  cases hended : c.ended with
  | true => exact ends_of_stopped hended (hcondition.stopped hended)
  | false =>
    have hgoes := hcondition.goes hended
    rw [if_neg Bool.false_ne_true]
    split
    · case isTrue hstatus =>
      rw [hstatus] at hgoes
      exact (hbody _ hgoes).behind _
    · case isFalse hstatus => exact ends_of_goes rfl (hskip _ _ hstatus hgoes)

/-! ## Values -/

theorem parameter_variable {name : List Char} (hname : isNameStart (name.headD '0') = true) :
    s.parameter name = some ((s.vars name).getD []) := by
  have hstatus : name ≠ ['?'] := by
    rintro rfl
    cases hname
  have hnumber : name ≠ ['$'] := by
    rintro rfl
    cases hname
  rw [Session.parameter, if_neg hstatus, if_neg hnumber, if_pos hname]

/-- The word has a value, and there is no command in it. -/
def Means (x : Interpreter ω) (s : Session ω) (w : Word) (t : List Char) : Prop :=
  expand x s w = some ⟨t, s.world, none⟩

theorem expand_cons {p : Piece} {w : Word} {t t' : List Char} (hp : expandPiece x s p = some ⟨t, s.world, none⟩)
    (hw : Means x s w t') : Means x s (p :: w) (t ++ t') := by
  rw [Means, expand, hp, Option.bind_some]
  show (expand x s w).map _ = _
  rw [hw]
  rfl

theorem means_nil : Means x s [] [] := rfl

theorem expandPiece_char (quoted : Bool) (c : Char) :
    expandPiece x s (.char quoted c) = some ⟨[c], s.world, none⟩ := rfl

theorem means_quoted (t : List Char) : Means x s (quotedWord t) t := by
  induction t with
  | nil => rfl
  | cons c t ih => exact expand_cons (expandPiece_char true c) ih

theorem means_bare (t : List Char) : Means x s (bareWord t) t := by
  induction t with
  | nil => rfl
  | cons c t ih => exact expand_cons (expandPiece_char false c) ih

theorem means_parameter {name value : List Char} (hvalue : s.parameter name = some value) (quoted : Bool) :
    Means x s [.parameter quoted name] value := by
  have hpiece : expandPiece x s (.parameter quoted name) = some ⟨value, s.world, none⟩ := by
    rw [expandPiece, hvalue]
    rfl
  have hmeans := expand_cons hpiece (means_nil (x := x))
  rwa [List.append_nil] at hmeans

theorem expand_append (s : Session ω) (w w' : Word) :
    expand x s (w ++ w') =
      (expand x s w).bind fun a =>
        (expand x { s with world := a.world } w').map fun b =>
          ⟨a.text ++ b.text, b.world, b.status.or a.status⟩ := by
  induction w generalizing s with
  | nil =>
    rw [List.nil_append, expand, Option.bind_some]
    show _ = (expand x s w').map _
    simp
  | cons p w ih =>
    rw [List.cons_append, expand, expand, Option.bind_assoc]
    refine Option.bind_congr fun first _ => ?_
    rw [ih]
    cases expand x { s with world := first.world } w with
    | none => rfl
    | some a =>
      rw [Option.bind_some, Option.map_some, Option.bind_some, Option.map_map]
      refine Option.map_congr fun b _ => ?_
      simp [Option.or_assoc, List.append_assoc]

theorem Means.append {w w' : Word} {t t' : List Char} (hw : Means x s w t) (hw' : Means x s w' t') :
    Means x s (w ++ w') (t ++ t') := by
  rw [Means, expand_append, hw, Option.bind_some]
  show (expand x s w').map _ = _
  rw [hw']
  rfl

theorem all_quotedWord (t : List Char) : (quotedWord t).all Piece.isField = true := by
  refine List.all_eq_true.mpr fun p hp => ?_
  obtain ⟨c, -, rfl⟩ := List.mem_map.mp hp
  rfl

theorem isField_quotedWord (t : List Char) : (quotedWord t).isField = true := by
  rw [Word.isField, all_quotedWord, Bool.and_true]
  cases t with
  | nil => rfl
  | cons c t => rfl

/-- The words stand for the arguments, and there is no command in them. -/
def Args (x : Interpreter ω) (s : Session ω) (words : List Word) (args : List (List Char)) : Prop :=
  fields x s words = some (args, s.world)

theorem args_nil : Args x s [] [] := rfl

theorem args_cons {w : Word} {words : List Word} {t : List Char} {args : List (List Char)}
    (hfield : w.isField = true) (hw : Means x s w t) (hwords : Args x s words args) :
    Args x s (w :: words) (t :: args) := by
  rw [Args, fields, if_pos hfield, hw]
  show (fields x s words).map _ = _
  rw [hwords]
  rfl

/-! ## Commands -/

def simpleCommand (negated : Bool) (words : List Word) (redirects : List Redirect) : Pipeline Command :=
  ⟨negated, [.simple ⟨[], words, redirects⟩]⟩

def assignmentCommand (name : List Char) (w : Word) : Pipeline Command := ⟨false, [.simple ⟨[(name, w)], [], []⟩]⟩

theorem ends_assignment {name value : List Char} {w : Word} (hw : Means (shell h depth) s w value)
    (hq : Q { s with vars := Function.update s.vars name (some value), last := 0 } 0) :
    Ends E Q ((shell h (depth + 1)).pipeline s (assignmentCommand name w)) := by
  have hassign : assign (shell h depth) s 0 [(name, w)] =
      some ({ s with vars := Function.update s.vars name (some value) }, 0) := by
    rw [assign, hw]
    rfl
  have hsimple : simpleOutcome h (shell h depth) s [] ⟨[(name, w)], [], []⟩ =
      { state := { s with vars := Function.update s.vars name (some value) }, status := 0, ended := false
        events := [] } := by
    rw [simpleOutcome, if_pos rfl, if_pos rfl]
    simp only [hassign]
  rw [assignmentCommand, shell_pipeline, commandOutcome, hsimple]
  exact Ends.finish (ends_of_goes rfl hq)

theorem simpleOutcome_args {words : List Word} {name : List Char} {args : List (List Char)}
    {redirects : List Redirect} {input : List Char} (hargs : Args x s words (name :: args))
    (hname : name ≠ "exit".toList) :
    simpleOutcome h x s input ⟨[], words, redirects⟩ =
      redirectedOutcome h s input (name :: args) (redirectAll h x s .output .errors redirects) := by
  have hne : words ≠ [] := by
    rintro rfl
    cases hargs
  have hfields : fields x s words = some (name :: args, s.world) := hargs
  rw [simpleOutcome, if_neg hne, if_pos rfl]
  simp only [hfields, if_neg hname]

theorem ends_exit {words : List Word} {args : List (List Char)} {n : Nat}
    (hargs : Args (shell h depth) s words ("exit".toList :: args)) (hstatus : exitStatus s.last args = some n)
    (he : E s n) : Ends E Q ((shell h (depth + 1)).pipeline s (simpleCommand false words [])) := by
  have hne : words ≠ [] := by
    rintro rfl
    cases hargs
  have hfields : fields (shell h depth) s words = some ("exit".toList :: args, s.world) := hargs
  have hsimple : simpleOutcome h (shell h depth) s [] ⟨[], words, []⟩ =
      { state := s, status := n, ended := true, events := [] } := by
    rw [simpleOutcome, if_neg hne, if_pos rfl]
    simp only [hfields, if_pos, hstatus]
  rw [simpleCommand, shell_pipeline, commandOutcome, hsimple]
  exact Ends.finish (ends_of_stopped rfl he)

/-- A command without redirections: what holds after it is asked of the call. -/
theorem ends_call {negated : Bool} {words : List Word} {name : List Char} {args : List (List Char)}
    (hargs : Args (shell h depth) s words (name :: args)) (hname : name ≠ "exit".toList)
    (hstop : (h.call s.world (name :: args) []).ended = true →
      E { s with world := (h.call s.world (name :: args) []).world } (h.call s.world (name :: args) []).status)
    (hgo : (h.call s.world (name :: args) []).ended = false →
      Q { s with world := (h.call s.world (name :: args) []).world
                 last := pipelineStatus negated (h.call s.world (name :: args) []).status }
        (pipelineStatus negated (h.call s.world (name :: args) []).status)) :
    Ends E Q ((shell h (depth + 1)).pipeline s (simpleCommand negated words [])) := by
  rw [simpleCommand, shell_pipeline, commandOutcome, simpleOutcome_args hargs hname, redirectAll]
  refine Ends.finish ?_
  show Ends E _ (callOutcome h s [] (name :: args) .output .errors)
  rw [callOutcome]
  generalize h.call s.world (name :: args) [] = r at hstop hgo
  cases hended : r.ended with
  | true => exact ends_of_stopped rfl (hstop hended)
  | false => exact ends_of_goes rfl (hgo hended)

/-- What a command that prints to a file leaves, behind the call. -/
structure Written (h : Host ω) (E Q : Session ω → Nat → Prop) (s : Session ω) (path : List Char) (r : Reply ω) :
    Prop where
  stopped : r.ended = true → E { s with world := r.world } r.status
  sent : r.ended = false → Ends E Q (send h { s with world := r.world } r.status r.output (.file path))

theorem redirectAll_file {path : List Char} {w : Word} (hfield : w.isField = true) (hpath : Means x s w path)
    (hnull : path ≠ "/dev/null".toList) :
    redirectAll h x s .output .errors [⟨none, .great, w⟩] =
      some (if (h.create s.world path).ended = true ∨ (h.create s.world path).status ≠ 0 then
        .failed (h.create s.world path) else .targets (h.create s.world path).world (.file path) .errors) := by
  have hone : redirectOne h x s .output .errors ⟨none, .great, w⟩ =
      some (if (h.create s.world path).ended = true ∨ (h.create s.world path).status ≠ 0 then
        .failed (h.create s.world path) else .targets (h.create s.world path).world (.file path) .errors) := by
    have hmeans : expand x s w = some ⟨path, s.world, none⟩ := hpath
    rw [redirectOne, if_pos ⟨rfl, List.mem_cons_self, hfield⟩, hmeans, Option.map_some, if_neg hnull]
    rfl
  rw [redirectAll, hone]
  by_cases hfailed : (h.create s.world path).ended = true ∨ (h.create s.world path).status ≠ 0
  · rw [if_pos hfailed]
  · rw [if_neg hfailed]
    rfl

theorem ends_call_to_file {path : List Char} {world : ω} {args : List (List Char)}
    (hwritten : Written h E Q s path (h.call world args [])) :
    Ends E Q (callOutcome h { s with world := world } [] args (.file path) .errors) := by
  rw [callOutcome]
  generalize h.call world args [] = r at hwritten
  cases hended : r.ended with
  | true =>
    rw [if_pos rfl]
    exact ends_of_stopped rfl (hwritten.stopped hended)
  | false =>
    have hsent := hwritten.sent hended
    rw [if_neg Bool.false_ne_true]
    show Ends E Q (if (send h { s with world := r.world } r.status r.output (.file path)).ended then _ else _)
    generalize send h { s with world := r.world } r.status r.output (.file path) = o at hsent
    split
    · exact hsent
    · case isFalse hgoes =>
      have hopen : o.ended = false := Bool.eq_false_iff.mpr hgoes
      have hsame : send h o.state o.status r.errors .errors = { o with ended := false, events := [] } := rfl
      rw [hsame]
      refine Ends.behind ?_ o.events
      exact ⟨nofun, fun _ => hsent.goes hopen⟩

/-- A command that prints to a file: what holds after it is asked of the file that is
made, of the call, and of what is added to the file. -/
theorem ends_write {negated : Bool} {words : List Word} {name path : List Char} {args : List (List Char)} {w : Word}
    (hargs : Args (shell h depth) s words (name :: args)) (hname : name ≠ "exit".toList)
    (hfield : w.isField = true) (hpath : Means (shell h depth) s w path) (hnull : path ≠ "/dev/null".toList)
    (hstop : (h.create s.world path).ended = true →
      E { s with world := (h.create s.world path).world } (h.create s.world path).status)
    (hfail : (h.create s.world path).ended = false → (h.create s.world path).status ≠ 0 →
      Q { s with world := (h.create s.world path).world
                 last := pipelineStatus negated (h.create s.world path).status }
        (pipelineStatus negated (h.create s.world path).status))
    (hmade : (h.create s.world path).ended = false → (h.create s.world path).status = 0 →
      Written h E (fun s n => Q { s with last := pipelineStatus negated n } (pipelineStatus negated n)) s path
        (h.call (h.create s.world path).world (name :: args) [])) :
    Ends E Q ((shell h (depth + 1)).pipeline s (simpleCommand negated words [⟨none, .great, w⟩])) := by
  rw [simpleCommand, shell_pipeline, commandOutcome, simpleOutcome_args hargs hname,
    redirectAll_file hfield hpath hnull]
  refine Ends.finish ?_
  generalize h.create s.world path = made at hstop hfail hmade
  by_cases hfailed : made.ended = true ∨ made.status ≠ 0
  · rw [if_pos hfailed]
    show Ends E _ { state := { s with world := made.world }, status := made.status, ended := made.ended, events := [] }
    cases hended : made.ended with
    | true => exact ends_of_stopped rfl (hstop hended)
    | false => exact ends_of_goes rfl (hfail hended (hfailed.resolve_left (by simp [hended])))
  · obtain ⟨hended, hstatus⟩ := not_or.mp hfailed
    have hwritten := hmade (Bool.eq_false_iff.mpr hended) (not_not.mp hstatus)
    rw [if_neg hfailed]
    show Ends E _ (callOutcome h { s with world := made.world } [] (name :: args) (.file path) .errors)
    exact ends_call_to_file hwritten

/-! ## Commands that change nothing -/

/-- What is seen of a command. -/
def visible (out err : Target) (output errors : List Char) : List Char :=
  (if out = .output then output else []) ++ if err = .output then errors else []

def Target.isFile : Target → Bool
  | .file _ => true
  | _ => false

theorem send_eq {status : Nat} {text : List Char} {t : Target} (ht : t.isFile = false) :
    send h s status text t =
      { state := s, status := status, ended := false, events := if t = .output then text else [] } := by
  cases t with
  | file path => cases ht
  | output | errors | null => rfl

theorem callOutcome_eq {input : List Char} {args : List (List Char)} {out err : Target} {status : Nat}
    {output errors : List Char} (hcall : h.call s.world args input = ⟨s.world, status, output, errors, false⟩)
    (hout : out.isFile = false) (herr : err.isFile = false) :
    callOutcome h s input args out err =
      { state := s, status := status, ended := false, events := visible out err output errors } := by
  rw [callOutcome, hcall]
  show (if (send h s status output out).ended then send h s status output out
    else (send h (send h s status output out).state (send h s status output out).status errors err).behind
      (send h s status output out).events) = _
  rw [send_eq hout, if_neg Bool.false_ne_true, send_eq herr]
  rfl

theorem simpleOutcome_eq {words : List Word} {redirects : List Redirect} {name : List Char} {args : List (List Char)}
    {input : List Char} {out err : Target} {status : Nat} {output errors : List Char}
    (hargs : Args x s words (name :: args)) (hname : name ≠ "exit".toList)
    (hredirects : redirectAll h x s .output .errors redirects = some (.targets s.world out err))
    (hcall : h.call s.world (name :: args) input = ⟨s.world, status, output, errors, false⟩)
    (hout : out.isFile = false) (herr : err.isFile = false) :
    simpleOutcome h x s input ⟨[], words, redirects⟩ =
      { state := s, status := status, ended := false, events := visible out err output errors } := by
  rw [simpleOutcome_args hargs hname, hredirects]
  exact callOutcome_eq hcall hout herr

theorem pipeline_eq {words : List Word} {redirects : List Redirect} {name : List Char} {args : List (List Char)}
    {out err : Target} {status : Nat} {output errors : List Char}
    (hargs : Args (shell h depth) s words (name :: args)) (hname : name ≠ "exit".toList)
    (hredirects : redirectAll h (shell h depth) s .output .errors redirects = some (.targets s.world out err))
    (hcall : h.call s.world (name :: args) [] = ⟨s.world, status, output, errors, false⟩)
    (hout : out.isFile = false) (herr : err.isFile = false) :
    (shell h (depth + 1)).pipeline s (simpleCommand false words redirects) =
      { state := { s with last := status }, status := status, ended := false
        events := visible out err output errors } := by
  rw [simpleCommand, shell_pipeline, commandOutcome, simpleOutcome_eq hargs hname hredirects hcall hout herr]
  rfl

/-- A command without redirections prints what it says. -/
theorem simpleOutcome_call {words : List Word} {name : List Char} {args : List (List Char)} {input : List Char}
    {status : Nat} {output errors : List Char} (hargs : Args x s words (name :: args)) (hname : name ≠ "exit".toList)
    (hcall : h.call s.world (name :: args) input = ⟨s.world, status, output, errors, false⟩) :
    simpleOutcome h x s input ⟨[], words, []⟩ =
      { state := s, status := status, ended := false, events := output } := by
  have hvisible : visible .output .errors output errors = output := List.append_nil output
  rw [simpleOutcome_eq hargs hname rfl hcall rfl rfl, hvisible]

theorem pipeline_call {words : List Word} {name : List Char} {args : List (List Char)} {status : Nat}
    {output errors : List Char} (hargs : Args (shell h depth) s words (name :: args)) (hname : name ≠ "exit".toList)
    (hcall : h.call s.world (name :: args) [] = ⟨s.world, status, output, errors, false⟩) :
    (shell h (depth + 1)).pipeline s (simpleCommand false words []) =
      { state := { s with last := status }, status := status, ended := false, events := output } := by
  rw [simpleCommand, shell_pipeline, commandOutcome, simpleOutcome_call hargs hname hcall]
  rfl

theorem assignment_eq {name value : List Char} {w : Word} {status : Option Nat}
    (hw : expand (shell h depth) s w = some ⟨value, s.world, status⟩) :
    (shell h (depth + 1)).pipeline s (assignmentCommand name w) =
      { state := { s with vars := Function.update s.vars name (some value), last := status.getD 0 }
        status := status.getD 0, ended := false, events := [] } := by
  have hassign : assign (shell h depth) s 0 [(name, w)] =
      some ({ s with vars := Function.update s.vars name (some value) }, status.getD 0) := by
    rw [assign, hw]
    rfl
  have hsimple : simpleOutcome h (shell h depth) s [] ⟨[(name, w)], [], []⟩ =
      { state := { s with vars := Function.update s.vars name (some value) }, status := status.getD 0, ended := false
        events := [] } := by
    rw [simpleOutcome, if_pos rfl, if_pos rfl]
    simp only [hassign]
  rw [assignmentCommand, shell_pipeline, commandOutcome, hsimple]
  rfl

/-- The value of a command is what it prints, up to the ends of its last lines. -/
theorem expand_command {o : Printing ω} {body : List Char} (quoted : Bool) (hrun : x.run s (readScript body) = o) :
    expand x s [.command quoted body] =
      some ⟨o.events.rdropWhile (· == '\n'), o.state.world, some o.status⟩ := by
  rw [expand, expandPiece, hrun]
  simp [expand]

theorem args_command {o : Printing ω} {body : List Char} {words : List Word} {args : List (List Char)}
    (hrun : x.run s (readScript body) = o) (hworld : o.state.world = s.world) (hwords : Args x s words args) :
    Args x s ([.command true body] :: words) (o.events.rdropWhile (· == '\n') :: args) := by
  rw [Args, fields, if_pos (by rfl), expand_command true hrun, hworld]
  show (fields x s words).map _ = _
  rw [hwords]
  rfl

/-- A conditional whose first condition prints nothing. -/
theorem branches_eq {o : Printing ω} {s' : Session ω} {n : Nat} {condition body otherwise : Script}
    {rest : List (Script × Script)}
    (hcondition : x.run o.state condition = { state := s', status := n, ended := false, events := [] }) :
    branchesOutcome x otherwise o ((condition, body) :: rest) =
      if n = 0 then (x.run s' body).behind o.events
      else branchesOutcome x otherwise { state := s', status := n, ended := false, events := o.events } rest := by
  rw [branchesOutcome, hcondition]
  simp [Outcome.behind]

theorem redirectOne_null {fd : Option (List Char)} {out err : Target}
    (hfd : fd ∈ [none, some "1".toList, some "2".toList]) :
    redirectOne h x s out err ⟨fd, .great, bareWord "/dev/null".toList⟩ =
      some (if fd = some "2".toList then .targets s.world out .null else .targets s.world .null err) := by
  have hmeans : expand x s (bareWord "/dev/null".toList) = some ⟨"/dev/null".toList, s.world, none⟩ := means_bare _
  have hfield : (bareWord "/dev/null".toList).isField = true := by decide
  rw [redirectOne, if_pos ⟨rfl, hfd, hfield⟩, hmeans, Option.map_some]
  exact congrArg some (if_pos rfl)

/-- Two commands of which the second reads what the first prints. -/
theorem pipe_eq {c c' : Simple} {status status' : Nat} {out out' : List Char}
    (hfirst : simpleOutcome h (shell h depth) s [] c =
      { state := s, status := status, ended := false, events := out })
    (hsecond : simpleOutcome h (shell h depth) s out c' =
      { state := s, status := status', ended := false, events := out' }) :
    (shell h (depth + 1)).pipeline s ⟨false, [.simple c, .simple c']⟩ =
      { state := { s with last := status' }, status := status', ended := false, events := out' } := by
  show finish false (pipeOutcome h (shell h depth) s [] [.simple c, .simple c']) = _
  have hlast : pipeOutcome h (shell h depth) s out [.simple c'] =
      { state := s, status := status', ended := false, events := out' } := by
    rw [pipeOutcome, hsecond]
    rfl
  have hboth : pipeOutcome h (shell h depth) s [] [.simple c, .simple c'] =
      { state := s, status := status', ended := false, events := out' } := by
    rw [pipeOutcome, hfirst]
    exact hlast
  rw [hboth]
  rfl

/-- The script is run to its end and prints the text; the shell is left so. -/
def Prints (x : Interpreter ω) (s : Session ω) (script : Script) (t : List Char) (Q : Session ω → Prop) : Prop :=
  ∃ s' n, x.run s script = { state := s', status := n, ended := false, events := t } ∧ Q s'

theorem prints_nil {Q : Session ω → Prop} (hs : Q s) : Prints x s [] [] Q := ⟨s, 0, rfl, hs⟩

theorem Prints.append {p q : Script} {t t' : List Char} {P Q : Session ω → Prop} (hp : Prints x s p t P)
    (hq : ∀ s', P s' → Prints x s' q t' Q) : Prints x s (p ++ q) (t ++ t') Q := by
  obtain ⟨s', n, hrun, hs'⟩ := hp
  obtain ⟨s'', m, hrun', hs''⟩ := hq s' hs'
  cases q with
  | nil =>
    cases hrun'
    exact ⟨s', n, by rw [List.append_nil, List.append_nil, hrun], hs''⟩
  | cons i rest =>
    refine ⟨s'', m, ?_, hs''⟩
    rw [run_append (by rw [hrun]) (List.cons_ne_nil i rest), hrun, hrun']
    rfl

/-- A conditional without the conditions that have failed prints the text. -/
def Chooses (x : Interpreter ω) (s : Session ω) (branches : List (Script × Script)) (otherwise : Script)
    (t : List Char) (Q : Session ω → Prop) : Prop :=
  ∀ m, ∃ s' n, branchesOutcome x otherwise { state := s, status := m, ended := false, events := [] } branches =
    { state := s', status := n, ended := false, events := t } ∧ Q s'

theorem Chooses.taken {s' : Session ω} {condition body otherwise : Script} {rest : List (Script × Script)}
    {t : List Char} {Q : Session ω → Prop}
    (hcondition : x.run s condition = { state := s', status := 0, ended := false, events := [] })
    (hbody : Prints x s' body t Q) : Chooses x s ((condition, body) :: rest) otherwise t Q := by
  intro m
  obtain ⟨s'', n, hrun, hs''⟩ := hbody
  refine ⟨s'', n, ?_, hs''⟩
  rw [branches_eq hcondition, if_pos rfl, hrun]
  rfl

theorem Chooses.skipped {s' : Session ω} {n : Nat} {condition body otherwise : Script} {rest : List (Script × Script)}
    {t : List Char} {Q : Session ω → Prop}
    (hcondition : x.run s condition = { state := s', status := n, ended := false, events := [] }) (hn : n ≠ 0)
    (hrest : Chooses x s' rest otherwise t Q) : Chooses x s ((condition, body) :: rest) otherwise t Q := by
  intro m
  rw [branches_eq hcondition, if_neg hn]
  exact hrest n

theorem Chooses.last {otherwise : Script} {t : List Char} {Q : Session ω → Prop} (hne : otherwise ≠ [])
    (hrun : Prints x s otherwise t Q) : Chooses x s [] otherwise t Q := by
  intro m
  obtain ⟨s', n, hrun, hs'⟩ := hrun
  refine ⟨s', n, ?_, hs'⟩
  rw [branchesOutcome, if_neg hne, hrun]
  rfl

theorem Chooses.prints {branches : List (Script × Script)} {otherwise : Script} {t : List Char} {Q : Session ω → Prop}
    (hchoose : Chooses (shell h depth) s branches otherwise t fun s' => ∀ n, Q { s' with last := n }) :
    Prints (shell h (depth + 1)) s [⟨⟨⟨false, [.conditional branches otherwise]⟩, []⟩, false⟩] t Q := by
  obtain ⟨s', n, hrun, hs'⟩ := hchoose 0
  refine ⟨{ s' with last := n }, n, ?_, hs' n⟩
  show finish false (branchesOutcome (shell h depth) otherwise _ branches) = _
  rw [hrun]
  rfl

end KW.Shell
