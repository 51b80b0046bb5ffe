import Multitape.Text.Quoted

/-!
JSON values and their text. A compact text has no white space between tokens, and an indented one
has every item of an array and every member of an object on a line of its own. Members keep their
order.
-/

set_option autoImplicit false
set_option relaxedAutoImplicit false

namespace Multitape

/-- A JSON value. Of a number it is known how it is written, and a string may be broken: its escapes
may fail to make up characters. -/
inductive Json
  | null
  | bool (b : Bool)
  | number (digits : String)
  | string (s : Option String)
  | array (items : List Json)
  | object (members : List (Option String × Json))

namespace Json

def ofString (s : String) : Json := string (some s)

def ofNat (n : Nat) : Json := number (toString n)

def ofStrings (texts : List String) : Json := array (texts.map ofString)

/-- An object with these members. -/
def record (members : List (String × Json)) : Json :=
  object (members.map fun (name, value) ↦ (some name, value))

/-- A hexadecimal number with four digits. -/
def fourDigits (n : Nat) : List Char :=
  let digits := Text.hex n
  List.replicate (4 - digits.length) '0' ++ digits

/-- One character inside a JSON string. Control characters alone need an escape, besides the quote
and the backslash. -/
def escaped (c : Char) : List Char :=
  if c = '"' then ['\\', '"']
  else if c = '\\' then ['\\', '\\']
  else if c = '\n' then ['\\', 'n']
  else if c = '\r' then ['\\', 'r']
  else if c = '\t' then ['\\', 't']
  else if c.toNat = 8 then ['\\', 'b']
  else if c.toNat = 12 then ['\\', 'f']
  else if c.toNat < 0x20 then ['\\', 'u'] ++ fourDigits c.toNat
  else [c]

/-- The text of a string. A broken string is written as an empty one. -/
def writeString (s : Option String) : List Char :=
  '"' :: (s.getD "").toList.flatMap escaped ++ ['"']

mutual

/-- The compact text of a value. -/
def compact : Json → List Char
  | null => ['n', 'u', 'l', 'l']
  | bool true => ['t', 'r', 'u', 'e']
  | bool false => ['f', 'a', 'l', 's', 'e']
  | number digits => digits.toList
  | string s => writeString s
  | array items => '[' :: compactItems items ++ [']']
  | object members => '\x7b' :: compactMembers members ++ ['\x7d']

def compactItems : List Json → List Char
  | [] => []
  | [item] => compact item
  | item :: rest => compact item ++ ',' :: compactItems rest

def compactMembers : List (Option String × Json) → List Char
  | [] => []
  | [(name, value)] => writeString name ++ ':' :: compact value
  | (name, value) :: rest => writeString name ++ ':' :: compact value ++ ',' :: compactMembers rest

end

/-- A new line at some depth. -/
def newLine (depth : Nat) : List Char := '\n' :: List.replicate (2 * depth) ' '

mutual

/-- The indented text of a value at some depth. -/
def indented (depth : Nat) : Json → List Char
  | null => ['n', 'u', 'l', 'l']
  | bool true => ['t', 'r', 'u', 'e']
  | bool false => ['f', 'a', 'l', 's', 'e']
  | number digits => digits.toList
  | string s => writeString s
  | array [] => ['[', ']']
  | array (item :: rest) =>
    '[' :: indentedItems (depth + 1) (item :: rest) ++ newLine depth ++ [']']
  | object [] => ['\x7b', '\x7d']
  | object (member :: rest) =>
    '\x7b' :: indentedMembers (depth + 1) (member :: rest) ++ newLine depth ++ ['\x7d']

def indentedItems (depth : Nat) : List Json → List Char
  | [] => []
  | [item] => newLine depth ++ indented depth item
  | item :: rest => newLine depth ++ indented depth item ++ ',' :: indentedItems depth rest

def indentedMembers (depth : Nat) : List (Option String × Json) → List Char
  | [] => []
  | [(name, value)] => newLine depth ++ writeString name ++ ':' :: ' ' :: indented depth value
  | (name, value) :: rest =>
    newLine depth ++ writeString name ++ ':' :: ' ' :: indented depth value ++
      ',' :: indentedMembers depth rest

end

end Json

end Multitape
