import Mathlib.Data.List.Basic
import Mathlib.Tactic.Common

/-!
# The words of a shell

How a POSIX shell cuts a text into tokens: one character at a time, with the mode it
is in (`step`), so that reading two texts one after the other is reading their
concatenation (`transduce_append`). A word is kept as its pieces. A piece is `quoted` if it
stands between quotes or after a backslash: no expansion, no splitting and no reserved
word is looked for there.

Line continuations, the old form of command substitution, parameters in braces and
quotes after a dollar are not read: the reader is `stuck` from there on.
-/

namespace KW.Shell

universe u v w

/-! ## Reading one thing after another -/

/-- What a machine is in and what it has put out, after a list of inputs. -/
def transduce {σ : Type u} {α : Type v} {β : Type w} (step : σ → α → σ × List β) : σ → List α → σ × List β
  | s, [] => (s, [])
  | s, a :: t => ((transduce step (step s a).1 t).1, (step s a).2 ++ (transduce step (step s a).1 t).2)

section
variable {σ : Type u} {α : Type v} {β : Type w} {step : σ → α → σ × List β}

theorem transduce_cons (s : σ) (a : α) (t : List α) :
    transduce step s (a :: t) =
      ((transduce step (step s a).1 t).1, (step s a).2 ++ (transduce step (step s a).1 t).2) := rfl

theorem transduce_append (s : σ) (t t' : List α) :
    transduce step s (t ++ t') =
      ((transduce step (transduce step s t).1 t').1,
        (transduce step s t).2 ++ (transduce step (transduce step s t).1 t').2) := by
  induction t generalizing s with
  | nil => rfl
  | cons a t ih => rw [List.cons_append, transduce_cons, ih, transduce_cons, List.append_assoc]

/-- Two lists of inputs, from what each of them does. -/
theorem transduce_trans {s₁ s₂ s₃ : σ} {t t' : List α} {out out' : List β}
    (h : transduce step s₁ t = (s₂, out)) (h' : transduce step s₂ t' = (s₃, out')) :
    transduce step s₁ (t ++ t') = (s₃, out ++ out') := by
  rw [transduce_append, h, h']

end

/-! ## Words and tokens -/

inductive Piece
  | char (quoted : Bool) (c : Char)
  | parameter (quoted : Bool) (name : List Char)
  /-- a command substitution, with the text between its brackets -/
  | command (quoted : Bool) (body : List Char)
deriving DecidableEq, Repr

abbrev Word := List Piece

/-- A word without quotes. -/
def bareWord (t : List Char) : Word := t.map (.char false)

/-- A word all of which is quoted. -/
def quotedWord (t : List Char) : Word := t.map (.char true)

/-- What a word says, if nothing in it can be expanded. -/
def Word.literal (w : Word) : Option (List Char) :=
  w.mapM fun
    | .char true c => some c
    | _ => none

inductive Operator
  | andIf
  | orIf
  | semi
  | doubleSemi
  | amp
  | bar
  | less
  | great
  | doubleLess
  | doubleGreat
  | lessAnd
  | greatAnd
  | lessGreat
  | clobber
  | leftBracket
  | rightBracket
deriving DecidableEq, Repr

inductive Token
  | word (w : Word)
  /-- digits right before a redirection -/
  | number (digits : List Char)
  | operator (o : Operator)
  | newline
deriving DecidableEq, Repr

/-! ## Characters -/

def isBlank (c : Char) : Bool := c = ' ' || c = '\t'

def isNameStart (c : Char) : Bool := c = '_' || c.isAlpha

def isNameChar (c : Char) : Bool := c = '_' || c.isAlphanum

/-- A parameter of one character that is no letter. -/
def isSpecial (c : Char) : Bool := ['?', '$', '!', '#', '@', '*', '-'].contains c || c.isDigit

def backquote : Char := Char.ofNat 0x60

/-- The operator that starts with a character. -/
def Operator.start (c : Char) : Option Operator :=
  if c = ';' then some .semi
  else if c = '&' then some .amp
  else if c = '|' then some .bar
  else if c = '<' then some .less
  else if c = '>' then some .great
  else if c = '(' then some .leftBracket
  else if c = ')' then some .rightBracket
  else none

/-- The operator that one more character makes. -/
def Operator.extend : Operator → Char → Option Operator
  | .semi, ';' => some .doubleSemi
  | .amp, '&' => some .andIf
  | .bar, '|' => some .orIf
  | .less, '<' => some .doubleLess
  | .less, '&' => some .lessAnd
  | .less, '>' => some .lessGreat
  | .great, '>' => some .doubleGreat
  | .great, '&' => some .greatAnd
  | .great, '|' => some .clobber
  | _, _ => none

def Operator.redirects : Operator → Bool
  | .less | .great | .doubleLess | .doubleGreat | .lessAnd | .greatAnd | .lessGreat | .clobber => true
  | _ => false

/-! ## The reader -/

/-- What is open inside a command substitution. -/
inductive Nest
  | bracket
  | single
  | double
  | escape
deriving DecidableEq, Repr

/-- Where the reader is. The modes inside a word carry what it has of the word. -/
inductive Mode
  /-- between two tokens -/
  | gap
  | comment
  | operator (o : Operator)
  /-- in a word, outside quotes -/
  | bare (w : Word)
  /-- after a backslash -/
  | escaped (w : Word)
  | single (w : Word)
  | double (w : Word)
  | doubleEscaped (w : Word)
  | dollar (quoted : Bool) (w : Word)
  | name (quoted : Bool) (w : Word) (n : List Char)
  | inner (quoted : Bool) (w : Word) (body : List Char) (nest : List Nest)
  | stuck
deriving DecidableEq, Repr

/-- A character of a word outside quotes that does not end it. -/
def inBare (w : Word) (c : Char) : Mode :=
  if c = '\'' then .single w
  else if c = '"' then .double w
  else if c = '\\' then .escaped w
  else if c = '$' then .dollar false w
  else if c = backquote then .stuck
  else .bare (w ++ [.char false c])

def inDouble (w : Word) (c : Char) : Mode :=
  if c = '"' then .bare w
  else if c = '\\' then .doubleEscaped w
  else if c = '$' then .dollar true w
  else if c = backquote then .stuck
  else .double (w ++ [.char true c])

/-- The digits of a word that is nothing else. -/
def Word.digits (w : Word) : Option (List Char) :=
  if w = [] then none
  else w.mapM fun
    | .char false c => if c.isDigit then some c else none
    | _ => none

/-- The token of a word that an operator ends. -/
def Word.before (w : Word) (o : Operator) : Token :=
  match o.redirects, w.digits with
  | true, some n => .number n
  | _, _ => .word w

def stepGap (c : Char) : Mode × List Token :=
  if isBlank c then (.gap, [])
  else if c = '\n' then (.gap, [.newline])
  else if c = '#' then (.comment, [])
  else
    match Operator.start c with
    | some o => (.operator o, [])
    | none => (inBare [] c, [])

def stepBare (w : Word) (c : Char) : Mode × List Token :=
  if isBlank c then (.gap, [.word w])
  else if c = '\n' then (.gap, [.word w, .newline])
  else
    match Operator.start c with
    | some o => (.operator o, [w.before o])
    | none => (inBare w c, [])

/-- In a word again, behind a piece of it. -/
def resume (quoted : Bool) (w : Word) : Mode := if quoted then .double w else .bare w

/-- The character behind a piece that it ends. -/
def stepBehind (quoted : Bool) (w : Word) (c : Char) : Mode × List Token :=
  if quoted then (inDouble w c, []) else stepBare w c

/-- A character of a command substitution. Its text is taken as it is; what is quoted or
in brackets of its own does not end it. -/
def stepInner (quoted : Bool) (w : Word) (body : List Char) (nest : List Nest) (c : Char) : Mode :=
  let more := body ++ [c]
  match nest with
  | .escape :: rest => .inner quoted w more rest
  | .single :: rest => .inner quoted w more (if c = '\'' then rest else nest)
  | .double :: rest =>
    if c = '"' then .inner quoted w more rest
    else if c = '\\' then .inner quoted w more (.escape :: nest)
    else if c = '(' && body.getLast? == some '$' then .inner quoted w more (.bracket :: nest)
    else .inner quoted w more nest
  | _ =>
    if c = ')' then
      match nest with
      | [] => resume quoted (w ++ [.command quoted body])
      | _ :: rest => .inner quoted w more rest
    else if c = '(' then .inner quoted w more (.bracket :: nest)
    else if c = '\'' then .inner quoted w more (.single :: nest)
    else if c = '"' then .inner quoted w more (.double :: nest)
    else if c = '\\' then .inner quoted w more (.escape :: nest)
    else .inner quoted w more nest

/-- One character: where the reader is then, and the tokens that have ended. -/
def step : Mode → Char → Mode × List Token
  | .gap, c => stepGap c
  | .comment, c => if c = '\n' then (.gap, [.newline]) else (.comment, [])
  | .operator o, c =>
    match o.extend c with
    | some o' => (.operator o', [])
    | none => ((stepGap c).1, .operator o :: (stepGap c).2)
  | .bare w, c => stepBare w c
  | .escaped w, c => if c = '\n' then (.stuck, []) else (.bare (w ++ [.char true c]), [])
  | .single w, c => if c = '\'' then (.bare w, []) else (.single (w ++ [.char true c]), [])
  | .double w, c => (inDouble w c, [])
  | .doubleEscaped w, c =>
    if c = '$' || c = '"' || c = '\\' || c = backquote then (.double (w ++ [.char true c]), [])
    else if c = '\n' then (.double w, [])
    else (.double (w ++ [.char true '\\', .char true c]), [])
  | .dollar quoted w, c =>
    if c = '(' then (.inner quoted w [] [], [])
    else if c = '\x7b' || (c = '\'' && !quoted) then (.stuck, [])
    else if isNameStart c then (.name quoted w [c], [])
    else if isSpecial c then (resume quoted (w ++ [.parameter quoted [c]]), [])
    else stepBehind quoted (w ++ [.char quoted '$']) c
  | .name quoted w n, c =>
    if isNameChar c then (.name quoted w (n ++ [c]), [])
    else stepBehind quoted (w ++ [.parameter quoted n]) c
  | .inner quoted w body nest, c => (stepInner quoted w body nest c, [])
  | .stuck, _ => (.stuck, [])

def scan : Mode → List Char → Mode × List Token := transduce step

/-- The token that the end of the text ends, if it may end there. -/
def Mode.finish : Mode → Option (List Token)
  | .gap | .comment => some []
  | .operator o => some [.operator o]
  | .bare w => some [.word w]
  | .dollar false w => some [.word (w ++ [.char false '$'])]
  | .name false w n => some [.word (w ++ [.parameter false n])]
  | _ => none

def tokens (t : List Char) : Option (List Token) :=
  (scan .gap t).1.finish.map fun last => (scan .gap t).2 ++ last

/-! ## Reading words -/

theorem scan_cons (m : Mode) (c : Char) (t : List Char) :
    scan m (c :: t) = ((scan (step m c).1 t).1, (step m c).2 ++ (scan (step m c).1 t).2) := rfl

theorem scan_append (m : Mode) (s t : List Char) :
    scan m (s ++ t) = ((scan (scan m s).1 t).1, (scan m s).2 ++ (scan (scan m s).1 t).2) :=
  transduce_append m s t

/-- Two texts read one after the other, from what each of them is read as. -/
theorem scan_trans {m₁ m₂ m₃ : Mode} {s t : List Char} {out out' : List Token}
    (h : scan m₁ s = (m₂, out)) (h' : scan m₂ t = (m₃, out')) : scan m₁ (s ++ t) = (m₃, out ++ out') :=
  transduce_trans h h'

theorem literal_append {t t₁ t₂ : List Char} (h : t = t₁ ++ t₂) :
    (String.ofList t).toList = (String.ofList t₁).toList ++ (String.ofList t₂).toList := by
  rw [String.toList_ofList, String.toList_ofList, String.toList_ofList, h]

theorem literal_append_append {t t₁ t₂ t₃ : List Char} (h : t = t₁ ++ t₂ ++ t₃) :
    (String.ofList t).toList = (String.ofList t₁).toList ++ (String.ofList t₂).toList ++ (String.ofList t₃).toList := by
  rw [← literal_append rfl, ← literal_append h]

theorem literal_cons {t rest rest' : List Char} (h : rest = rest') :
    (String.ofList t).toList ++ rest = t ++ rest' := by
  rw [String.toList_ofList, h]

/-- A literal, by its characters. -/
theorem scan_literal {m m' : Mode} {t : List Char} {out : List Token} (h : scan m t = (m', out)) :
    scan m (String.ofList t).toList = (m', out) := by
  rw [String.toList_ofList, h]

theorem tokens_append {s t : List Char} {out : List Token} (h : scan .gap s = (.gap, out)) :
    tokens (s ++ t) = (tokens t).map (out ++ ·) := by
  rw [tokens, tokens, scan_append, h, Option.map_map]
  simp only [Function.comp_def, List.append_assoc]

theorem literal_quotedWord (t : List Char) : Word.literal (quotedWord t) = some t := by
  induction t with
  | nil => rfl
  | cons c t ih =>
    rw [quotedWord, List.map_cons, Word.literal, List.mapM_cons]
    change (do let rest ← Word.literal (quotedWord t); some (c :: rest)) = _
    rw [ih]
    rfl

/-- Characters between single quotes stand for themselves. -/
theorem scan_single (w : Word) {t : List Char} (h : '\'' ∉ t) :
    scan (.single w) t = (.single (w ++ quotedWord t), []) := by
  induction t generalizing w with
  | nil => simp [scan, transduce, quotedWord]
  | cons c t ih =>
    obtain ⟨hc, ht⟩ := not_or.mp (mt List.mem_cons.mpr h)
    have hstep : step (.single w) c = (.single (w ++ [.char true c]), []) := if_neg (Ne.symm hc)
    rw [scan_cons, hstep, ih _ ht, List.append_assoc]
    rfl

/-- A blank ends a word. -/
theorem step_bare_blank {w : Word} {b : Char} (h : isBlank b = true) :
    step (.bare w) b = (.gap, [.word w]) := if_pos h

/-- Characters that mean nothing to the reader inside a word. -/
def isPlain (c : Char) : Bool :=
  !isBlank c && c != '\n' && (Operator.start c).isNone && c != '\'' && c != '"' && c != '\\' && c != '$' &&
    c != backquote

theorem step_bare_plain {w : Word} {c : Char} (h : isPlain c = true) :
    step (.bare w) c = (.bare (w ++ [.char false c]), []) := by
  simp only [isPlain, Bool.and_eq_true, Bool.not_eq_true', bne_iff_ne, Option.isNone_iff_eq_none] at h
  obtain ⟨⟨⟨⟨⟨⟨⟨hb, hn⟩, ho⟩, hs⟩, hd⟩, he⟩, hp⟩, hq⟩ := h
  show stepBare w c = _
  rw [stepBare, hb, ho]
  simp [hn, inBare, hs, hd, he, hp, hq]

/-- Plain characters outside quotes stand for themselves. -/
theorem scan_bare (w : Word) {t : List Char} (h : ∀ c ∈ t, isPlain c = true) :
    scan (.bare w) t = (.bare (w ++ bareWord t), []) := by
  induction t generalizing w with
  | nil => simp [scan, transduce, bareWord]
  | cons c t ih =>
    obtain ⟨hc, ht⟩ := List.forall_mem_cons.mp h
    rw [scan_cons, step_bare_plain hc, ih _ ht, List.append_assoc]
    rfl

/-- A word of plain characters. -/
theorem scan_word {c : Char} {t : List Char} (hc : c ≠ '#') (h : ∀ d ∈ c :: t, isPlain d = true) :
    scan .gap (c :: t) = (.bare (bareWord (c :: t)), []) := by
  have hstep : step .gap c = step (.bare []) c := by
    have hplain := (List.forall_mem_cons.mp h).1
    simp only [isPlain, Bool.and_eq_true, Bool.not_eq_true', bne_iff_ne, Option.isNone_iff_eq_none] at hplain
    obtain ⟨⟨⟨⟨⟨⟨⟨hb, hn⟩, ho⟩, -⟩, -⟩, -⟩, -⟩, -⟩ := hplain
    show stepGap c = stepBare [] c
    rw [stepGap, stepBare, hb, ho, if_neg hc]
    simp [hn]
  rw [scan_cons, hstep]
  exact scan_bare [] h

theorem isPlain_of_isNameChar {c : Char} (h : isNameChar c = true) : isPlain c = true := by
  have hne {d : Char} (hd : isNameChar d = false) : c ≠ d := by
    rintro rfl
    rw [h] at hd
    cases hd
  have hblank : isBlank c = false := by
    simp [isBlank, hne (d := ' ') rfl, hne (d := '\t') rfl]
  have hstart : Operator.start c = none := by
    rw [Operator.start, if_neg (hne rfl), if_neg (hne rfl), if_neg (hne rfl), if_neg (hne rfl), if_neg (hne rfl),
      if_neg (hne rfl), if_neg (hne rfl)]
  simp [isPlain, hblank, hstart, hne (d := '\n') rfl, hne (d := '\'') rfl, hne (d := '"') rfl,
    hne (d := '\\') rfl, hne (d := '$') rfl, hne (d := backquote) rfl]

/-- Plain characters between double quotes stand for themselves as well. -/
theorem scan_double (w : Word) {t : List Char} (h : ∀ c ∈ t, isPlain c = true) :
    scan (.double w) t = (.double (w ++ quotedWord t), []) := by
  induction t generalizing w with
  | nil => simp [scan, transduce, quotedWord]
  | cons c t ih =>
    obtain ⟨hc, ht⟩ := List.forall_mem_cons.mp h
    have hstep : step (.double w) c = (.double (w ++ [.char true c]), []) := by
      simp only [isPlain, Bool.and_eq_true, bne_iff_ne] at hc
      obtain ⟨⟨⟨⟨-, hd⟩, he⟩, hp⟩, hq⟩ := hc
      show (inDouble w c, []) = _
      simp [inDouble, hd, he, hp, hq]
    rw [scan_cons, hstep, ih _ ht, List.append_assoc]
    rfl

end KW.Shell
