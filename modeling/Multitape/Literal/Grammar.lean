import Multitape.Literal.Reader

/-!
The written forms of values: a quoted string, an integer, a symbol, a list of symbols, and a list of
such lists. A symbol is a quoted string, or a tuple of one to three elements, with or without the
word `Symbol` in front; an element is a quoted string or `None`. Lists and tuples may end in a
comma. Between the parts of a form there may be a gap of spaces, tabs, line ends and comments; a
comment begins with `#` and runs to the end of its line.
-/

set_option autoImplicit false
set_option relaxedAutoImplicit false

namespace Multitape.Literal

/-- What is left of a text after the gap at its head, which may begin inside a comment. -/
def afterGap (inComment : Bool) : List Char → List Char
  | [] => []
  | c :: rest =>
    if c = '\n' ∨ c = '\r' then afterGap false rest
    else if inComment then afterGap true rest
    else if c = ' ' ∨ c = '\t' then afterGap false rest
    else if c = '#' then afterGap true rest
    else c :: rest

/-- How many characters the gap at the head of a text has, added to a number. -/
def gapLength (inComment : Bool) (n : Nat) : List Char → Nat
  | [] => n
  | c :: rest =>
    if c = '\n' ∨ c = '\r' then gapLength false (n + 1) rest
    else if inComment then gapLength true (n + 1) rest
    else if c = ' ' ∨ c = '\t' then gapLength false (n + 1) rest
    else if c = '#' then gapLength true (n + 1) rest
    else n

/-- A quoted string: what stands between the quotes, and where it stands with them. -/
structure Quote where
  content : List Char
  span : Span
deriving DecidableEq, Repr

/-- A symbol as it is written. -/
inductive SymbolForm
  | bare (quote : Quote)
  | tuple (elements : List (Option Quote)) (span : Span)
deriving DecidableEq, Repr

open Reader

/-- Takes a gap off, which may be empty. -/
def gap : Reader Unit :=
  silent (fun text ↦ some ((), afterGap false text)) fun text _ ↦ gapLength false 0 text

/-- What stands in quotes at the head of a text: single or double quotes, with anything but the same
quote between them. -/
def takeQuoted : List Char → Option (List Char × List Char)
  | [] => none
  | q :: text =>
    if q = '"' ∨ q = '\'' then
      match text.dropWhile (· ≠ q) with
      | [] => none
      | _ :: rest => some (text.takeWhile (· ≠ q), rest)
    else none

def string : Reader Quote := do
  let (content, span) ← spanned <| named .string <|
    silent takeQuoted fun _ content ↦ content.length + 2
  return ⟨content, span⟩

/-- The decimal digits at the head of a text, at least one. -/
def takeDigits (text : List Char) : Option (List Char × List Char) :=
  match text.takeWhile Char.isDigit with
  | [] => none
  | digits => some (digits, text.dropWhile Char.isDigit)

def integer : Reader (List Char × Span) := spanned <| named .integer <|
  silent takeDigits fun _ digits ↦ digits.length

def absent : Reader (Option Quote) := named .none do
  word ['N', 'o', 'n', 'e']
  return none

def element : Reader (Option Quote) := named .element <|
  either (do return some (← string)) absent

/-- A comma and the element after it. -/
def nextElement : Reader (Option Quote) := do
  word [',']
  gap
  element

def tuple : Reader (List (Option Quote)) := named .tuple do
  let _ ← optional (word ['S', 'y', 'm', 'b', 'o', 'l'])
  gap
  word ['(']
  gap
  let first ← element
  gap
  let second ← optional nextElement
  gap
  let third ← optional nextElement
  gap
  let _ ← optional (word [','])
  gap
  word [')']
  return first :: second.toList ++ third.toList

def symbol : Reader SymbolForm := named .symbol <|
  either (do let (elements, span) ← spanned tuple; return .tuple elements span)
    (do return .bare (← string))

/-- The items of a list, from the first on. -/
def items {α : Type} (item : Reader α) : Reader (List α) := do
  let first ← item
  gap
  let rest ← many do
    gap
    word [',']
    gap
    item
  gap
  let _ ← optional (word [','])
  return first :: rest

def listOf {α : Type} (item : Reader α) : Reader (List α) := do
  word ['[']
  gap
  let found ← optional (items item)
  gap
  word [']']
  return found.getD []

def symbolList : Reader (List SymbolForm) := named .symbolList (listOf symbol)

def alphabetList : Reader (List (List SymbolForm)) := named .alphabetList (listOf symbolList)

def endOfText : Reader Unit := named .endOfText <|
  silent (fun text ↦ if text.isEmpty then some ((), text) else none) fun _ _ ↦ 0

/-- A form that is all of a text, gaps at either end apart. -/
def whole {α : Type} (form : Form) (p : Reader α) : Reader α := named form do
  gap
  let a ← p
  gap
  endOfText
  return a

end Multitape.Literal
