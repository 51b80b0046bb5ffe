import Multitape.Text.Visible

/-!
Texts in double quotes, as messages show them. A quote and a backslash get a backslash, tab, line
feed and carriage return have a letter each, null is a backslash and a zero, and whatever else is
invisible is written by its code point.
-/

set_option autoImplicit false
set_option relaxedAutoImplicit false

namespace Multitape.Text

/-- A number below sixteen as a digit or a small letter. -/
def hexDigit (n : Nat) : Char :=
  Char.ofNat (if n < 10 then 0x30 + n else 0x57 + n)

/-- The hexadecimal digits of a number below `16 ^ fuel` in front of some text, without leading
zeros. -/
def hexOnto (digits : List Char) : Nat → Nat → List Char
  | 0, _ => digits
  | fuel + 1, n =>
    if n < 16 then hexDigit n :: digits
    else hexOnto (hexDigit (n % 16) :: digits) fuel (n / 16)

/-- A code point in hexadecimal. -/
def hex (n : Nat) : List Char :=
  hexOnto [] 8 n

/-- One character between double quotes. -/
def quotedChar (c : Char) : List Char :=
  if c = '"' then ['\\', '"']
  else if c = '\\' then ['\\', '\\']
  else if c = '\t' then ['\\', 't']
  else if c = '\n' then ['\\', 'n']
  else if c = '\r' then ['\\', 'r']
  else if c.toNat = 0 then ['\\', '0']
  else if isVisible c then [c]
  else ['\\', 'u', '\x7b'] ++ hex c.toNat ++ ['\x7d']

/-- The text in double quotes. -/
def quoted (text : String) : String :=
  String.ofList ('"' :: text.toList.flatMap quotedChar ++ ['"'])

/-- The texts in double quotes, between square brackets. -/
def quotedList (texts : List String) : String :=
  "[" ++ ", ".intercalate (texts.map quoted) ++ "]"

end Multitape.Text
