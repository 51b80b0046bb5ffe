import Multitape.Literal.Grammar
import Multitape.Symbol

/-!
Values read from their written forms. A text that has the form may still be no value: an integer may
be too large, a string that stands for a character may hold more than one, and a tuple may lack a
base. Symbols are checked from left to right, and the characters of a tuple before its base.
-/

set_option autoImplicit false
set_option relaxedAutoImplicit false

namespace Multitape.Literal

/-- Why a text is no value. -/
inductive Fault
  /-- At a place, told by how many characters are left there, none of the forms follows. -/
  | expected (left : Nat) (forms : List Form)
  | tooLarge (span : Span)
  | notOneCharacter (content : List Char) (span : Span)
  | noBase (span : Span)
deriving DecidableEq, Repr

/-- All of the text as one form. -/
def readWhole {α : Type} (form : Form) (p : Reader α) (text : List Char) : Except Fault α :=
  match (whole form p).take text with
  | some (a, _) => .ok a
  | none =>
    let furthest := (whole form p).note text text.length ⟨text.length, []⟩
    .error (.expected furthest.left furthest.missed)

/-- The one character of a string, which must not be white space. -/
def character (quote : Quote) : Except Fault Char :=
  match quote.content with
  | [c] => if Text.isWhite c then .error (.notOneCharacter [c] quote.span) else .ok c
  | content => .error (.notOneCharacter content quote.span)

/-- The character of an element. An empty string is as good as none. -/
def elementCharacter : Option Quote → Except Fault (Option Char)
  | none => .ok none
  | some quote =>
    if quote.content.isEmpty then .ok none
    else return some (← character quote)

/-- The symbol that a form writes. A tuple lists base, above and below. -/
def symbolOf : SymbolForm → Except Fault Symbol
  | .bare quote => return .plain (← character quote)
  | .tuple elements span => do
    match ← elements.mapM elementCharacter with
    | some base :: marks => return ⟨base, (marks[0]?).join, (marks[1]?).join⟩
    | _ => .error (.noBase span)

/-- The alphabet that a list of forms writes. -/
def alphabetOf (forms : List SymbolForm) : Except Fault Alphabet :=
  return .ofList (← forms.mapM symbolOf)

/-- The largest integer that a value may be. -/
def largest : Nat := Nat.pow 2 64 - 1

/-- The number with these decimal digits. -/
def numeral (digits : List Char) : Nat :=
  digits.foldl (fun n c ↦ 10 * n + (c.toNat - 0x30)) 0

def readString (text : List Char) : Except Fault String :=
  return String.ofList (← readWhole .stringValue string text).content

def readInteger (text : List Char) : Except Fault Nat := do
  let (digits, span) ← readWhole .integerValue integer text
  let n := numeral digits
  if n ≤ largest then return n else .error (.tooLarge span)

def readSymbol (text : List Char) : Except Fault Symbol := do
  symbolOf (← readWhole .symbolValue symbol text)

def readAlphabet (text : List Char) : Except Fault Alphabet := do
  alphabetOf (← readWhole .alphabetValue symbolList text)

def readAlphabets (text : List Char) : Except Fault (List Alphabet) := do
  (← readWhole .tapeAlphabetsValue alphabetList text).mapM alphabetOf

end Multitape.Literal
