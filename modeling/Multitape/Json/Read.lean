import Multitape.Json

/-!
Values read from JSON text. White space is the space, tab, line feed and carriage return. A string
whose escapes make up no characters, as half of a surrogate pair does, is read all the same and is
broken.
-/

set_option autoImplicit false
set_option relaxedAutoImplicit false

namespace Multitape.Json

def isSpace (c : Char) : Bool := c = ' ' || c = '\t' || c = '\n' || c = '\r'

def skipSpace (text : List Char) : List Char := text.dropWhile isSpace

/-- The value of a hexadecimal digit. -/
def hexValue? (c : Char) : Option Nat :=
  if '0' ≤ c ∧ c ≤ '9' then some (c.toNat - 0x30)
  else if 'a' ≤ c ∧ c ≤ 'f' then some (c.toNat - 0x57)
  else if 'A' ≤ c ∧ c ≤ 'F' then some (c.toNat - 0x37)
  else none

/-- A part of a string as it is written. -/
inductive Unit16
  | char (c : Char)
  /-- An escape by a number of sixteen bits. -/
  | escape (n : Nat)
deriving DecidableEq, Repr

/-- The character that a letter stands for behind a backslash. -/
def shortEscape? (c : Char) : Option Char :=
  if c = '"' ∨ c = '\\' ∨ c = '/' then some c
  else if c = 'b' then some '\x08'
  else if c = 'f' then some '\x0c'
  else if c = 'n' then some '\n'
  else if c = 'r' then some '\r'
  else if c = 't' then some '\t'
  else none

/-- The number that four digits write. -/
def hex4? (a b c d : Char) : Option Nat := do
  return ((← hexValue? a) * 16 + (← hexValue? b)) * 256 + (← hexValue? c) * 16 + (← hexValue? d)

/-- The parts of a string up to its closing quote, and the text behind it. What has been found is
listed last one first. -/
def stringParts (found : List Unit16) : List Char → Option (List Unit16 × List Char)
  | '"' :: rest => some (found.reverse, rest)
  | '\\' :: 'u' :: a :: b :: c :: d :: rest =>
    match hex4? a b c d with
    | some n => stringParts (.escape n :: found) rest
    | none => none
  | '\\' :: c :: rest =>
    match shortEscape? c with
    | some e => stringParts (.char e :: found) rest
    | none => none
  | c :: rest => if c.toNat < 0x20 ∨ c = '\\' then none else stringParts (.char c :: found) rest
  | [] => none

/-- The characters that the parts make up, with what has been made up listed last one first. Two
escapes that are the halves of a pair make one character, and a half alone makes none. -/
def joinParts (made : List Char) : List Unit16 → Option (List Char)
  | [] => some made.reverse
  | .char c :: rest => joinParts (c :: made) rest
  | .escape n :: rest =>
    if n < 0xd800 ∨ 0xdfff < n then joinParts (Char.ofNat n :: made) rest
    else
      match rest with
      | .escape m :: rest =>
        if n < 0xdc00 ∧ 0xdc00 ≤ m ∧ m ≤ 0xdfff then
          joinParts (Char.ofNat (0x10000 + (n - 0xd800) * 0x400 + (m - 0xdc00)) :: made) rest
        else none
      | _ => none

/-- A string behind its opening quote. -/
def readString (text : List Char) : Option (Option String × List Char) :=
  (stringParts [] text).map fun (parts, rest) ↦ ((joinParts [] parts).map String.ofList, rest)

/-- Digits, at least one, and the text behind them. -/
def readDigits (text : List Char) : Option (List Char × List Char) :=
  match text.takeWhile Char.isDigit with
  | [] => none
  | digits => some (digits, text.dropWhile Char.isDigit)

/-- The digits before the point: a zero alone, or digits that begin with another. -/
def readWholePart (text : List Char) : Option (List Char × List Char) :=
  match readDigits text with
  | some ('0' :: _ :: _, _) => none
  | other => other

/-- The point and the digits behind it, if there is a point. -/
def readFraction : List Char → Option (List Char × List Char)
  | '.' :: rest => (readDigits rest).map fun (digits, rest) ↦ ('.' :: digits, rest)
  | text => some ([], text)

/-- The exponent, if there is one. -/
def readExponent : List Char → Option (List Char × List Char)
  | c :: rest =>
    if c = 'e' ∨ c = 'E' then
      let (sign, digits) := match rest with
        | '+' :: digits => (['+'], digits)
        | '-' :: digits => (['-'], digits)
        | digits => ([], digits)
      (readDigits digits).map fun (digits, rest) ↦ (c :: sign ++ digits, rest)
    else some ([], c :: rest)
  | [] => some ([], [])

/-- A number, as it is written. -/
def readNumber (text : List Char) : Option (String × List Char) := do
  let (sign, text) := match text with
    | '-' :: rest => (['-'], rest)
    | text => ([], text)
  let (whole, text) ← readWholePart text
  let (fraction, text) ← readFraction text
  let (exponent, text) ← readExponent text
  return (String.ofList (sign ++ whole ++ fraction ++ exponent), text)

/-- A fixed word in front of a text, taken off. -/
def dropWord? (word text : List Char) : Option (List Char) :=
  if word.isPrefixOf text then some (text.drop word.length) else none

mutual

/-- A value at the head of a text, and the text behind it. The fuel is at least as large as the text
is long. -/
def readValue : Nat → List Char → Option (Json × List Char)
  | 0, _ => none
  | fuel + 1, text =>
    match skipSpace text with
    | '"' :: rest => (readString rest).map fun (s, rest) ↦ (.string s, rest)
    | '[' :: rest =>
      match skipSpace rest with
      | ']' :: rest => some (.array [], rest)
      | rest => (readItems fuel rest).map fun (items, rest) ↦ (.array items, rest)
    | '\x7b' :: rest =>
      match skipSpace rest with
      | '\x7d' :: rest => some (.object [], rest)
      | rest => (readMembers fuel rest).map fun (members, rest) ↦ (.object members, rest)
    | 'n' :: rest => (dropWord? ['u', 'l', 'l'] rest).map fun rest ↦ (.null, rest)
    | 't' :: rest => (dropWord? ['r', 'u', 'e'] rest).map fun rest ↦ (.bool true, rest)
    | 'f' :: rest => (dropWord? ['a', 'l', 's', 'e'] rest).map fun rest ↦ (.bool false, rest)
    | text => (readNumber text).map fun (digits, rest) ↦ (.number digits, rest)

/-- The items of an array up to its bracket. -/
def readItems : Nat → List Char → Option (List Json × List Char)
  | 0, _ => none
  | fuel + 1, text => do
    let (item, rest) ← readValue fuel text
    match skipSpace rest with
    | ']' :: rest => return ([item], rest)
    | ',' :: rest =>
      let (items, rest) ← readItems fuel rest
      return (item :: items, rest)
    | _ => none

/-- The members of an object up to its brace. -/
def readMembers : Nat → List Char → Option (List (Option String × Json) × List Char)
  | 0, _ => none
  | fuel + 1, text =>
    match skipSpace text with
    | '"' :: rest => do
      let (name, rest) ← readString rest
      match skipSpace rest with
      | ':' :: rest =>
        let (value, rest) ← readValue fuel rest
        match skipSpace rest with
        | '\x7d' :: rest => return ([(name, value)], rest)
        | ',' :: rest =>
          let (members, rest) ← readMembers fuel rest
          return ((name, value) :: members, rest)
        | _ => none
      | _ => none
    | _ => none

end

/-- The value that a text writes. -/
def parse (text : List Char) : Option Json :=
  match readValue (2 * text.length + 2) text with
  | some (value, rest) => if (skipSpace rest).isEmpty then some value else none
  | none => none

end Multitape.Json
