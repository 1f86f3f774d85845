import KodeWork.Framework.Shell.Words
import KodeWork.Framework.Shell.Lists

/-!
# The programs of a shell

`Grammar` is what a shell's language is to those who only put a chain of plain commands
before a text: what the shell reads in a text, up to its end or to the first line with an
error in it, and that a plain command and `&&` before a text go before its first list.
A shell without aliases keeps it, whatever else its language has.

`core` is the part of the language with simple commands, redirections, pipelines, lists
and conditionals. It is read token by token (`turn`), with the conditionals that are open
on a stack, and puts out the pipelines of the outermost list with what links each to the
next (`Clause`).
-/

namespace KW.Shell

universe u

/-! ## Lists from their clauses -/

/-- What stands behind a pipeline. -/
inductive Link
  | join (c : Connector)
  | semi
  | background
deriving DecidableEq, Repr

inductive Clause (π : Type u)
  | pipeline (p : π) (link : Link)
  /-- the end of a line -/
  | line
deriving DecidableEq, Repr

section
variable {π : Type u}

def assemble : List (π × Link) → Program π
  | [] => []
  | (p, .semi) :: rest => ⟨⟨p, []⟩, false⟩ :: assemble rest
  | (p, .background) :: rest => ⟨⟨p, []⟩, true⟩ :: assemble rest
  | (p, .join c) :: rest =>
    match assemble rest with
    | [] => []
    | i :: items => { i with list := ⟨p, (c, i.list.first) :: i.list.rest⟩ } :: items

def pipelines : List (Clause π) → List (π × Link)
  | [] => []
  | .line :: rest => pipelines rest
  | .pipeline p link :: rest => (p, link) :: pipelines rest

/-- The list ends here. -/
def Link.ends : Link → Bool
  | .join _ => false
  | .semi | .background => true

def startsLine : List (Clause π) → Bool
  | .line :: _ => true
  | _ => false

/-- Those of the lines that are complete. -/
def committed : List (Clause π) → List (π × Link)
  | [] => []
  | .line :: rest => committed rest
  | .pipeline p link :: rest =>
    match committed rest with
    | [] => if link.ends && startsLine rest then [(p, link)] else []
    | q :: more => (p, link) :: q :: more

/-- The last list has an end. -/
def ends (clauses : List (Clause π)) : Bool := (pipelines clauses).getLast?.all fun q => q.2.ends

/-- What is run of a text: all of it, or the lines before the one with an error. -/
def program (ok : Bool) (clauses : List (Clause π)) : Program π :=
  if ok && ends clauses then assemble (pipelines clauses) else assemble (committed clauses)

theorem assemble_and (p : π) (rest : List (π × Link)) :
    assemble ((p, .join .and) :: rest) = prepend p (assemble rest) := by
  rw [assemble]
  cases assemble rest <;> rfl

theorem committed_of_pipelines_nil {clauses : List (Clause π)} (h : pipelines clauses = []) :
    committed clauses = [] := by
  induction clauses with
  | nil => rfl
  | cons clause rest ih =>
    cases clause with
    | line => exact ih h
    | pipeline p link => cases h

theorem committed_and (p : π) (clauses : List (Clause π)) :
    assemble (committed (.pipeline p (.join .and) :: clauses)) = prepend p (assemble (committed clauses)) := by
  rw [committed]
  cases committed clauses with
  | nil => rfl
  | cons q more => exact assemble_and p _

theorem ends_and (p : π) {clauses : List (Clause π)} (h : pipelines clauses ≠ []) :
    ends (.pipeline p (.join .and) :: clauses) = ends clauses := by
  rw [ends, ends, pipelines]
  cases hrest : pipelines clauses with
  | nil => exact absurd hrest h
  | cons q more => rw [List.getLast?_cons_cons]

/-- A pipeline and `&&` before a text go before its first list. -/
theorem program_and (ok : Bool) (p : π) (clauses : List (Clause π)) :
    program ok (.pipeline p (.join .and) :: clauses) = prepend p (program ok clauses) := by
  rw [program, program]
  by_cases h : pipelines clauses = []
  · -- with nothing behind it the chain is not complete
    have hends : ends (.pipeline p (.join .and) :: clauses) = false := by rw [ends, pipelines, h]; rfl
    rw [hends, Bool.and_false, if_neg Bool.false_ne_true, committed_and, committed_of_pipelines_nil h, h, ite_self]
  · rw [ends_and p h]
    split
    · exact assemble_and p _
    · exact committed_and p clauses

end

/-! ## Any language -/

/-- Words that are reserved where a command can start. -/
def reservedWords : List String :=
  ["!", "\x7b", "\x7d", "if", "then", "elif", "else", "fi", "while", "until", "for", "in", "do", "done", "case",
    "esac"]

def Word.isReserved (w : Word) : Bool := reservedWords.any fun r => w == bareWord r.toList

/-- The text is a simple command made of these words, and ends in the last of them. -/
structure Plain (t : List Char) (words : List Word) : Prop where
  scanned : ∃ init last, words = init ++ [last] ∧ scan .gap t = (.bare last, init.map .word)
  command : ∀ w ∈ words.head?, w.isReserved = false

/-- The language of a shell. -/
structure Grammar (π : Type u) where
  /-- what is run of a text, if nothing ends the shell -/
  read : List Char → Program π
  /-- a simple command -/
  simple : List Word → π
  read_nil : read [] = []
  read_and {t : List Char} {words : List Word} (h : Plain t words) (rest : List Char) :
    read (List.flatten [t, " && ".toList, rest]) = prepend (simple words) (read rest)
  read_and_end {t : List Char} {words : List Word} (h : Plain t words) :
    read (List.flatten [t, " &&".toList]) = []

/-! ## The core language -/

structure Redirect where
  fd : Option (List Char)
  operator : Operator
  target : Word
deriving DecidableEq, Repr

structure Simple where
  assignments : List (List Char × Word)
  words : List Word
  redirects : List Redirect
deriving DecidableEq, Repr

structure Pipeline (κ : Type u) where
  negated : Bool
  commands : List κ
deriving DecidableEq, Repr

inductive Command
  | simple (s : Simple)
  /-- the conditions with what is run behind each, and what is run if none of them holds -/
  | conditional (branches : List (List (Item (Pipeline Command)) × List (Item (Pipeline Command))))
      (otherwise : List (Item (Pipeline Command)))

abbrev Script := Program (Pipeline Command)

inductive Keyword
  | bang
  | «if»
  | «then»
  | elif
  | «else»
  | fi
  /-- of a construct that is not read -/
  | other
deriving DecidableEq, Repr

def Word.keyword (w : Word) : Option Keyword :=
  if w = bareWord "!".toList then some .bang
  else if w = bareWord "if".toList then some .if
  else if w = bareWord "then".toList then some .then
  else if w = bareWord "elif".toList then some .elif
  else if w = bareWord "else".toList then some .else
  else if w = bareWord "fi".toList then some .fi
  else if w.isReserved then some .other
  else none

/-- A name, then `=`: the name has been read up to here. -/
def assignmentFrom (name : List Char) : Word → Option (List Char × Word)
  | .char false '=' :: value => if name = [] then none else some (name, value)
  | .char false c :: rest =>
    if if name = [] then isNameStart c else isNameChar c then assignmentFrom (name ++ [c]) rest else none
  | _ => none

/-- The name and the value of an assignment. -/
def Word.assignment (w : Word) : Option (List Char × Word) := assignmentFrom [] w

def Simple.none : Simple := ⟨[], [], []⟩

/-- One more word. Assignments come before the name of the command. -/
def Simple.add (s : Simple) (w : Word) : Simple :=
  match s.words, w.assignment with
  | [], some a => { s with assignments := s.assignments ++ [a] }
  | words, _ => { s with words := words ++ [w] }

/-- What has been read of a command. -/
inductive Current
  | empty
  | simple (s : Simple)
  /-- digits before a redirection -/
  | number (s : Simple) (digits : List Char)
  /-- a redirection before its target -/
  | target (s : Simple) (fd : Option (List Char)) (operator : Operator)
  /-- a conditional that has ended -/
  | closed (c : Command)

/-- What has been read of a pipeline. -/
structure Level where
  negated : Bool
  piped : List Command
  current : Current

inductive Part
  | condition
  | consequent
  | otherwise
deriving DecidableEq, Repr

/-- A conditional that is being read, in a pipeline of its own. -/
structure Open where
  outer : Level
  part : Part
  branches : List (Script × Script)
  /-- the condition of the branch that is being read -/
  condition : Script
  /-- the list of the part that is being read -/
  links : List (Pipeline Command × Link)

/-- What has been read, with the open conditionals from the inside out; `none` behind
an error. -/
abbrev Reader := Option (Level × List Open)

def Level.start : Level := ⟨false, [], .empty⟩

def Reader.start : Reader := some (.start, [])

def Level.isStart (l : Level) : Bool :=
  match l.current with
  | .empty => !l.negated && l.piped.isEmpty
  | _ => false

def Level.command (l : Level) : Option Command :=
  match l.current with
  | .simple s => some (.simple s)
  | .closed c => some c
  | _ => none

def Level.pipeline (l : Level) : Option (Pipeline Command) := l.command.map fun c => ⟨l.negated, l.piped ++ [c]⟩

def Level.with (l : Level) (current : Current) : Level := { l with current := current }

/-- A pipeline ends. -/
def put (opens : List Open) (p : Pipeline Command) (link : Link) : Reader × List (Clause (Pipeline Command)) :=
  match opens with
  | [] => (Reader.start, [.pipeline p link])
  | o :: rest => (some (.start, { o with links := o.links ++ [(p, link)] } :: rest), [])

/-- The list of the part that is being read, if it can end here. -/
def Open.body (o : Open) : Option Script :=
  match o.links.getLast? with
  | some (_, link) => if link.ends then some (assemble o.links) else none
  | none => none

def Open.enter (o : Open) (part : Part) (branches : List (Script × Script)) (condition : Script) : Open :=
  { o with part := part, branches := branches, condition := condition, links := [] }

/-- A keyword that ends a part of a conditional. -/
def turnPart (k : Keyword) : List Open → Reader
  | [] => none
  | o :: rest =>
    o.body.bind fun body =>
      match k, o.part with
      | .then, .condition => some (.start, o.enter .consequent o.branches body :: rest)
      | .elif, .consequent => some (.start, o.enter .condition (o.branches ++ [(o.condition, body)]) [] :: rest)
      | .else, .consequent => some (.start, o.enter .otherwise (o.branches ++ [(o.condition, body)]) [] :: rest)
      | .fi, .consequent => some (o.outer.with (.closed (.conditional (o.branches ++ [(o.condition, body)]) [])), rest)
      | .fi, .otherwise => some (o.outer.with (.closed (.conditional o.branches body)), rest)
      | _, _ => none

def turnWord (l : Level) (opens : List Open) (w : Word) : Reader :=
  match l.current with
  | .simple s => some (l.with (.simple (s.add w)), opens)
  | .target s fd operator =>
    some (l.with (.simple { s with redirects := s.redirects ++ [⟨fd, operator, w⟩] }), opens)
  | .number _ _ | .closed _ => none
  | .empty =>
    match w.keyword with
    | none => some (l.with (.simple (Simple.none.add w)), opens)
    | some .bang => if l.isStart then some ({ l with negated := true }, opens) else none
    | some .if => some (.start, ⟨l, .condition, [], [], []⟩ :: opens)
    | some k => if l.isStart then turnPart k opens else none

def turnOperator (l : Level) (opens : List Open) (o : Operator) :
    Reader × List (Clause (Pipeline Command)) :=
  if o.redirects then
    match l.current with
    | .empty => (some (l.with (.target .none none o), opens), [])
    | .simple s => (some (l.with (.target s none o), opens), [])
    | .number s digits => (some (l.with (.target s (some digits) o), opens), [])
    | _ => (none, [])
  else
    match o, l.command, l.pipeline with
    | .andIf, _, some p => put opens p (.join .and)
    | .orIf, _, some p => put opens p (.join .or)
    | .semi, _, some p => put opens p .semi
    | .amp, _, some p => put opens p .background
    | .bar, some c, _ => (some (⟨l.negated, l.piped ++ [c], .empty⟩, opens), [])
    | _, _, _ => (none, [])

/-- The end of a line, which ends a list, or only goes on with it. -/
def turnLine (l : Level) (opens : List Open) : Reader × List (Clause (Pipeline Command)) :=
  let mark := if opens.isEmpty then [Clause.line] else []
  match l.current, l.pipeline with
  | .empty, _ => if l.negated then (none, []) else (some (l, opens), if l.piped.isEmpty then mark else [])
  | _, some p => ((put opens p .semi).1, (put opens p .semi).2 ++ mark)
  | _, none => (none, [])

/-- One token: what has been read then, and what the outermost list has more. -/
def turn : Reader → Token → Reader × List (Clause (Pipeline Command))
  | none, _ => (none, [])
  | some (l, opens), .word w => (turnWord l opens w, [])
  | some (l, opens), .number digits =>
    match l.current with
    | .empty => (some (l.with (.number .none digits), opens), [])
    | .simple s => (some (l.with (.number s digits), opens), [])
    | _ => (none, [])
  | some (l, opens), .operator o => turnOperator l opens o
  | some (l, opens), .newline => turnLine l opens

/-- What the end of the text ends, if it may end there. -/
def Reader.finish : Reader → Option (List (Clause (Pipeline Command)))
  | some (l, []) => if l.isStart then some [] else l.pipeline.map fun p => [.pipeline p .semi]
  | _ => none

def parse (ts : List Token) : Reader × List (Clause (Pipeline Command)) := transduce turn Reader.start ts

/-- All of the text is read, or what comes before an error. -/
def readTokens : Option (List Token) → List Token → Script
  | none, ts => program false (parse ts).2
  | some last, ts =>
    match (parse (ts ++ last)).1.finish with
    | some more => program true ((parse (ts ++ last)).2 ++ more)
    | none => program false (parse (ts ++ last)).2

def readScript (t : List Char) : Script := readTokens (scan .gap t).1.finish (scan .gap t).2

/-- The simple command of some words. -/
def Simple.ofWords (words : List Word) : Simple := words.foldl Simple.add .none

def simplePipeline (words : List Word) : Pipeline Command := ⟨false, [.simple (.ofWords words)]⟩

/-! ## A plain command before a text -/

theorem scan_plain {t : List Char} {words : List Word} (h : Plain t words) {behind : List Char}
    {out : List Token} {m : Mode} (hbehind : ∀ w, scan (.bare w) behind = (m, .word w :: out)) :
    scan .gap (t ++ behind) = (m, words.map .word ++ out) := by
  obtain ⟨init, last, rfl, hscan⟩ := h.scanned
  rw [scan_trans hscan (hbehind last), List.map_append, List.append_assoc]
  rfl

theorem keyword_of_not_reserved {w : Word} (h : w.isReserved = false) : w.keyword = none := by
  have hne {r : String} (hr : r ∈ reservedWords) : w ≠ bareWord r.toList := by
    rintro rfl
    have hany : Word.isReserved (bareWord r.toList) = true := List.any_eq_true.mpr ⟨r, hr, beq_self_eq_true _⟩
    rw [h] at hany
    cases hany
  rw [Word.keyword, if_neg (hne (by decide)), if_neg (hne (by decide)), if_neg (hne (by decide)),
    if_neg (hne (by decide)), if_neg (hne (by decide)), if_neg (hne (by decide)), h, if_neg Bool.false_ne_true]

theorem parse_words_from (s : Simple) (words : List Word) :
    transduce turn (some (Level.start.with (.simple s), [])) (words.map .word) =
      (some (Level.start.with (.simple (words.foldl Simple.add s)), []), []) := by
  induction words generalizing s with
  | nil => rfl
  | cons w words ih =>
    rw [List.map_cons, transduce_cons]
    exact Prod.ext (congrArg Prod.fst (ih (s.add w))) (congrArg Prod.snd (ih (s.add w)))

theorem parse_words {t : List Char} {words : List Word} (h : Plain t words) :
    parse (words.map .word) = (some (Level.start.with (.simple (.ofWords words)), []), []) := by
  obtain ⟨init, last, hwords, -⟩ := h.scanned
  cases words with
  | nil => simp at hwords
  | cons w words =>
    have hw : turn Reader.start (.word w) = (some (Level.start.with (.simple (Simple.none.add w)), []), []) := by
      show (turnWord Level.start [] w, _) = _
      rw [turnWord]
      show (match w.keyword with | none => _ | some .bang => _ | some .if => _ | some k => _, _) = _
      rw [keyword_of_not_reserved (h.command w rfl)]
    rw [parse, List.map_cons, transduce_cons, hw, parse_words_from]
    rfl

/-- A plain command and `&&` leave the reader at the start. -/
theorem parse_plain {t : List Char} {words : List Word} (h : Plain t words) (ts : List Token) :
    parse (words.map .word ++ .operator .andIf :: ts) =
      ((parse ts).1, .pipeline (simplePipeline words) (.join .and) :: (parse ts).2) :=
  transduce_trans (parse_words h) (rfl : transduce turn _ (.operator .andIf :: ts) = _)

theorem readTokens_plain {t : List Char} {words : List Word} (h : Plain t words)
    (last : Option (List Token)) (ts : List Token) :
    readTokens last (words.map .word ++ .operator .andIf :: ts) =
      prepend (simplePipeline words) (readTokens last ts) := by
  cases last with
  | none =>
    show program false (parse _).2 = prepend _ (program false (parse ts).2)
    rw [parse_plain h, program_and]
  | some more =>
    rw [readTokens, readTokens]
    have happ : words.map Token.word ++ .operator .andIf :: ts ++ more =
        words.map Token.word ++ .operator .andIf :: (ts ++ more) := by simp
    simp only [happ, parse_plain h]
    cases (parse (ts ++ more)).1.finish with
    | none => exact program_and _ _ _
    | some end' => exact program_and _ _ _

/-- The core language. -/
def core : Grammar (Pipeline Command) where
  read := readScript
  simple := simplePipeline
  read_nil := rfl
  read_and h rest := by
    have hgap (w : Word) : scan (.bare w) " && ".toList = (.gap, [.word w, .operator .andIf]) := rfl
    have hscan := scan_plain h hgap
    simp only [List.flatten_cons, List.flatten_nil, List.append_nil, ← List.append_assoc]
    rw [readScript, scan_append, hscan, List.append_assoc]
    exact readTokens_plain h _ _
  read_and_end h := by
    have hgap (w : Word) : scan (.bare w) " &&".toList = (.operator .andIf, [.word w]) := rfl
    have hscan := scan_plain h hgap
    simp only [List.flatten_cons, List.flatten_nil, List.append_nil]
    rw [readScript, hscan]
    -- the operator that the end of the text ends is the last token
    have hlast (ts : List Token) :
        readTokens (some [.operator .andIf]) ts = readTokens (some []) (ts ++ [.operator .andIf]) := by
      rw [readTokens, readTokens, List.append_nil]
    rw [List.append_nil]
    exact (hlast _).trans (readTokens_plain h (some []) [])

/-! ## One script behind another -/

theorem assemble_ne_nil {π : Type u} {l : List (π × Link)} (hl : l ≠ [])
    (h : (l.getLast?.all fun q => q.2.ends) = true) : assemble l ≠ [] := by
  induction l with
  | nil => exact absurd rfl hl
  | cons q rest ih =>
    obtain ⟨p, link⟩ := q
    cases link with
    | semi | background => rw [assemble]; exact List.cons_ne_nil _ _
    | join c =>
      cases rest with
      | nil => cases h
      | cons q' rest =>
        rw [List.getLast?_cons_cons] at h
        have hne := ih (List.cons_ne_nil q' rest) h
        rw [assemble]
        cases hrest : assemble (q' :: rest) with
        | nil => exact absurd hrest hne
        | cons i items => exact List.cons_ne_nil _ _

theorem assemble_append {π : Type u} {l : List (π × Link)} (h : (l.getLast?.all fun q => q.2.ends) = true)
    (l' : List (π × Link)) : assemble (l ++ l') = assemble l ++ assemble l' := by
  induction l with
  | nil => rfl
  | cons q rest ih =>
    obtain ⟨p, link⟩ := q
    have hrest : (rest.getLast?.all fun q => q.2.ends) = true := by
      cases rest with
      | nil => rfl
      | cons q' rest => rwa [List.getLast?_cons_cons] at h
    cases link with
    | semi | background => rw [List.cons_append, assemble, assemble, ih hrest, List.cons_append]
    | join c =>
      cases rest with
      | nil => cases h
      | cons q' rest =>
        have hne := assemble_ne_nil (List.cons_ne_nil q' rest) hrest
        rw [List.cons_append, assemble, assemble, ih hrest]
        cases hlist : assemble (q' :: rest) with
        | nil => exact absurd hlist hne
        | cons i items => rfl

theorem pipelines_append {π : Type u} (c c' : List (Clause π)) :
    pipelines (c ++ c') = pipelines c ++ pipelines c' := by
  induction c with
  | nil => rfl
  | cons clause c ih =>
    cases clause with
    | line => exact ih
    | pipeline p link => exact congrArg _ ih

theorem ends_append {π : Type u} {c c' : List (Clause π)} (h : ends c = true) (h' : ends c' = true) :
    ends (c ++ c') = true := by
  rw [ends, pipelines_append, List.getLast?_append]
  rw [ends] at h h'
  cases hlast : (pipelines c').getLast? with
  | none => exact h
  | some q => rwa [hlast] at h'

/-- The text is read as this script, and leaves the reader at the start. -/
def Complete (t : List Char) (script : Script) : Prop :=
  ∃ ts clauses, scan .gap t = (.gap, ts) ∧ parse ts = (Reader.start, clauses) ∧ ends clauses = true ∧
    assemble (pipelines clauses) = script

/-- All of the text is read, as this script. -/
def Reads (t : List Char) (script : Script) : Prop :=
  ∃ last reader clauses more, (scan .gap t).1.finish = some last ∧
    parse ((scan .gap t).2 ++ last) = (reader, clauses) ∧ reader.finish = some more ∧
    ends (clauses ++ more) = true ∧ assemble (pipelines (clauses ++ more)) = script

theorem Reads.read {t : List Char} {script : Script} (h : Reads t script) : readScript t = script := by
  obtain ⟨last, reader, clauses, more, hlast, hparse, hmore, hends, rfl⟩ := h
  rw [readScript, hlast, readTokens, hparse, hmore]
  show program true (clauses ++ more) = _
  rw [program, hends]
  rfl

theorem Complete.reads {t : List Char} {script : Script} (h : Complete t script) : Reads t script := by
  obtain ⟨ts, clauses, hscan, hparse, hends, rfl⟩ := h
  refine ⟨[], Reader.start, clauses, [], ?_, ?_, rfl, ?_, ?_⟩
  · rw [hscan]; rfl
  · rw [hscan, List.append_nil, hparse]
  · rwa [List.append_nil]
  · rw [List.append_nil]

theorem Complete.append {s t : List Char} {a b : Script} (h : Complete s a) (h' : Complete t b) :
    Complete (s ++ t) (a ++ b) := by
  obtain ⟨ts, clauses, hscan, hparse, hends, rfl⟩ := h
  obtain ⟨ts', clauses', hscan', hparse', hends', rfl⟩ := h'
  refine ⟨_, _, scan_trans hscan hscan', transduce_trans hparse hparse', ends_append hends hends', ?_⟩
  rw [pipelines_append, assemble_append hends]

theorem Complete.reads_append {s t : List Char} {a b : Script} (h : Complete s a) (h' : Reads t b) :
    Reads (s ++ t) (a ++ b) := by
  obtain ⟨ts, clauses, hscan, hparse, hends, rfl⟩ := h
  obtain ⟨last, reader, clauses', more, hlast, hparse', hmore, hends', rfl⟩ := h'
  have hscan' : scan .gap (s ++ t) = ((scan .gap t).1, ts ++ (scan .gap t).2) := scan_trans hscan rfl
  refine ⟨last, reader, clauses ++ clauses', more, ?_, ?_, hmore, ?_, ?_⟩
  · rw [hscan', hlast]
  · rw [hscan', List.append_assoc]
    exact transduce_trans hparse hparse'
  · rw [List.append_assoc]
    exact ends_append hends hends'
  · rw [List.append_assoc, pipelines_append, assemble_append hends]

/-- A plain command with its separator. -/
theorem Plain.complete {t : List Char} {words : List Word} (h : Plain t words) :
    Complete (t ++ "; ".toList) [⟨⟨simplePipeline words, []⟩, false⟩] := by
  have hgap (w : Word) : scan (.bare w) "; ".toList = (.gap, [.word w, .operator .semi]) := rfl
  have hsemi : transduce turn (some (Level.start.with (.simple (.ofWords words)), [])) [.operator .semi] =
      (Reader.start, [.pipeline (simplePipeline words) .semi]) := rfl
  exact ⟨_, _, scan_plain h hgap, transduce_trans (parse_words h) hsemi, rfl, rfl⟩

/-- A plain command at the end of the text. -/
theorem Plain.reads {t : List Char} {words : List Word} (h : Plain t words) :
    Reads t [⟨⟨simplePipeline words, []⟩, false⟩] := by
  obtain ⟨init, last, hwords, hscan⟩ := h.scanned
  have hparse := parse_words h
  rw [hwords, List.map_append] at hparse
  refine ⟨[.word last], some (Level.start.with (.simple (.ofWords words)), []), [], [.pipeline (simplePipeline words) .semi], ?_, ?_, ?_, rfl, rfl⟩
  · rw [hscan]; rfl
  · rw [hscan, hwords]; exact hparse
  · rfl

def Reader.isStart : Reader → Bool
  | some (l, []) => l.isStart
  | _ => false

/-- `Complete`, by running the reader. -/
def isComplete (t : List Char) : Bool :=
  (scan .gap t).1 == .gap && (parse (scan .gap t).2).1.isStart && ends (parse (scan .gap t).2).2

theorem Reader.eq_start {r : Reader} (h : r.isStart = true) : r = Reader.start := by
  cases r with
  | none => cases h
  | some state =>
    obtain ⟨⟨negated, piped, current⟩, opens⟩ := state
    cases opens with
    | cons o rest => cases h
    | nil =>
      cases current with
      | empty =>
        have hparts : (!negated && piped.isEmpty) = true := h
        simp only [Bool.and_eq_true, Bool.not_eq_true', List.isEmpty_iff] at hparts
        rw [hparts.1, hparts.2]
        rfl
      | simple | number | target | closed => cases h

theorem complete_of_isComplete {t : List Char} (h : isComplete t = true) : Complete t (readScript t) := by
  simp only [isComplete, Bool.and_eq_true, beq_iff_eq] at h
  obtain ⟨⟨hgap, hstart⟩, hends⟩ := h
  have hcomplete : Complete t (assemble (pipelines (parse (scan .gap t).2).2)) :=
    ⟨(scan .gap t).2, _, Prod.ext hgap rfl, Prod.ext (Reader.eq_start hstart) rfl, hends, rfl⟩
  rw [hcomplete.reads.read]
  exact hcomplete

end KW.Shell
