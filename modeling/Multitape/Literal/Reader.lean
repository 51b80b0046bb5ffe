/-!
Readers of forms at the head of a text. A reader either takes a form off and leaves the rest, or
misses it. Apart from that it keeps note of the furthest place at which a named form was missed,
which is what a message about an unreadable text points at. What is taken never depends on the note.
-/

set_option autoImplicit false
set_option relaxedAutoImplicit false

namespace Multitape.Literal

/-- The forms that messages name. -/
inductive Form
  | endOfText
  | string
  | integer
  | none
  | element
  | tuple
  | symbol
  | symbolList
  | alphabetList
  | stringValue
  | integerValue
  | symbolValue
  | alphabetValue
  | tapeAlphabetsValue
deriving DecidableEq, Repr

namespace Form

/-- The name of the form in messages. -/
def name : Form → String
  | endOfText => "EOI"
  | string => "string"
  | integer => "integer"
  | none => "none"
  | element => "element"
  | tuple => "tuple"
  | symbol => "symbol"
  | symbolList => "symbol_list"
  | alphabetList => "alphabet_list"
  | stringValue => "string_value"
  | integerValue => "integer_value"
  | symbolValue => "symbol_value"
  | alphabetValue => "alphabet_value"
  | tapeAlphabetsValue => "tape_alphabets_value"

/-- All forms, in the order in which messages list them. -/
def all : List Form :=
  [endOfText, string, integer, none, element, tuple, symbol, symbolList, alphabetList, stringValue,
    integerValue, symbolValue, alphabetValue, tapeAlphabetsValue]

end Form

/-- The furthest place at which forms were missed, told by how many characters are left there, with
the forms in the order in which they were missed. -/
structure Furthest where
  left : Nat
  missed : List Form
deriving DecidableEq, Repr

namespace Furthest

/-- How many forms were missed at a place, if it is the furthest one. -/
def countAt (note : Furthest) (left : Nat) : Nat :=
  if note.left = left then note.missed.length else 0

/-- Notes that a form was missed at a place. The notes before and after the attempt tell what was
missed within it. A form that failed for want of exactly one other form at its own place leaves the
word to that one; otherwise the form stands for all that was missed there on its behalf. Nothing is
said of a place behind the furthest one. -/
def miss (before after : Furthest) (left : Nat) (form : Form) : Furthest :=
  if after.countAt left = before.countAt left + 1 then after
  else if after.left < left then after
  else if left < after.left then ⟨left, [form]⟩
  else ⟨left, after.missed.take (before.countAt left) ++ [form]⟩

end Furthest

/-- A form that was taken off: what it was, how many characters it had and what is left. -/
structure Found (α : Type) where
  value : α
  used : Nat
  rest : List Char

/-- A reader of one kind of form. It takes the form off the head of a text, if it is there. It also
says how an attempt changes the note, given how many characters the text has. -/
structure Reader (α : Type) where
  read : List Char → Option (Found α)
  note : List Char → Nat → Furthest → Furthest

/-- A stretch of a text, told by what is left of the text where it starts and where it stops. -/
structure Span where
  start : List Char
  stop : List Char
deriving DecidableEq, Repr

namespace Reader

variable {α β : Type}

/-- The form at the head of a text, and the rest. -/
def take (p : Reader α) (text : List Char) : Option (α × List Char) :=
  (p.read text).map fun found ↦ (found.value, found.rest)

/-- A reader that notes nothing, from what it takes off and how many characters that has. -/
def silent (take : List Char → Option (α × List Char)) (used : List Char → α → Nat) :
    Reader α where
  read text := (take text).map fun (a, rest) ↦ ⟨a, used text a, rest⟩
  note _ _ before := before

@[simp] theorem take_silent (take : List Char → Option (α × List Char))
    (used : List Char → α → Nat) (text : List Char) :
    (silent take used).take text = take text := by
  simp only [Reader.take, silent]
  cases take text <;> rfl

/-- Takes nothing off. -/
protected def pure (a : α) : Reader α := silent (fun text ↦ some (a, text)) fun _ _ ↦ 0

/-- Reads one form and, with what it was, the next. -/
protected def bind (p : Reader α) (next : α → Reader β) : Reader β where
  read text :=
    match p.read text with
    | none => none
    | some first =>
      ((next first.value).read first.rest).map fun second ↦
        { second with used := first.used + second.used }
  note text left before :=
    match p.read text with
    | none => p.note text left before
    | some first =>
      (next first.value).note first.rest (left - first.used) (p.note text left before)

instance : Monad Reader where
  pure := Reader.pure
  bind := Reader.bind

@[simp] theorem take_pure (a : α) (text : List Char) :
    (pure a : Reader α).take text = some (a, text) :=
  rfl

@[simp] theorem take_bind (p : Reader α) (next : α → Reader β) (text : List Char) :
    (p >>= next).take text = (p.take text).bind fun found ↦ (next found.1).take found.2 := by
  change ((Reader.bind p next).read text).map _ = _
  simp only [Reader.bind, take]
  cases p.read text with
  | none => rfl
  | some first => simp [Function.comp_def]

/-- Reads the first form or else, from the same place, the second. -/
def either (p q : Reader α) : Reader α where
  read text :=
    match p.read text with
    | none => q.read text
    | some found => some found
  note text left before :=
    match p.read text with
    | none => q.note text left (p.note text left before)
    | some _ => p.note text left before

@[simp] theorem take_either (p q : Reader α) (text : List Char) :
    (either p q).take text = (p.take text).or (q.take text) := by
  simp only [either, take]
  cases p.read text <;> rfl

/-- Reads the form if it is there. -/
def optional (p : Reader α) : Reader (Option α) where
  read text :=
    match p.read text with
    | none => some ⟨none, 0, text⟩
    | some found => some ⟨some found.value, found.used, found.rest⟩
  note := p.note

@[simp] theorem take_optional (p : Reader α) (text : List Char) :
    (optional p).take text =
      ((p.take text).map fun found ↦ (some found.1, found.2)).or (some (none, text)) := by
  simp only [optional, take]
  cases p.read text <;> rfl

/-- Takes the form off as often as it comes, but no more often than a text has characters. What was
found before is listed last one first, with how many characters it had. -/
def readMany (p : Reader α) :
    List Char → List α → Nat → List Char → Found (List α)
  | [], values, used, text => ⟨values.reverse, used, text⟩
  | _ :: times, values, used, text =>
    match p.read text with
    | none => ⟨values.reverse, used, text⟩
    | some found => p.readMany times (found.value :: values) (used + found.used) found.rest

/-- The note after as many attempts as a text has characters, or the first that fails. -/
def noteMany (p : Reader α) : List Char → List Char → Nat → Furthest → Furthest
  | [], _, _, before => before
  | _ :: times, text, left, before =>
    match p.read text with
    | none => p.note text left before
    | some found => p.noteMany times found.rest (left - found.used) (p.note text left before)

/-- Reads the form as often as it comes. A form that takes something off comes no more often than
the text has characters. -/
def many (p : Reader α) : Reader (List α) where
  read text := some (p.readMany text [] 0 text)
  note text := p.noteMany text text

/-- Notes a miss of the reader under the form's name. -/
def named (form : Form) (p : Reader α) : Reader α where
  read := p.read
  note text left before :=
    match p.read text with
    | none => Furthest.miss before (p.note text left before) left form
    | some _ => p.note text left before

@[simp] theorem take_named (form : Form) (p : Reader α) (text : List Char) :
    (named form p).take text = p.take text :=
  rfl

/-- Reads a form together with the stretch that it takes. -/
def spanned (p : Reader α) : Reader (α × Span) where
  read text := (p.read text).map fun found ↦
    ⟨(found.value, ⟨text, found.rest⟩), found.used, found.rest⟩
  note := p.note

@[simp] theorem take_spanned (p : Reader α) (text : List Char) :
    (spanned p).take text =
      (p.take text).map fun found ↦ ((found.1, ⟨text, found.2⟩), found.2) := by
  simp only [spanned, take]
  cases p.read text <;> rfl

/-- Takes a fixed word off. -/
def word (w : List Char) : Reader Unit :=
  silent (fun text ↦ if w.isPrefixOf text then some ((), text.drop w.length) else none)
    fun _ _ ↦ w.length

end Reader

end Multitape.Literal
