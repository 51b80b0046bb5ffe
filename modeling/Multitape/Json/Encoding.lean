import Multitape.Json.Read
import Multitape.Machine.Summary

/-!
The library's values as JSON, in both directions. A symbol is an object, or an array of three. A
direction or a verdict is its name, or an object whose one member has that name and is null.
-/

set_option autoImplicit false
set_option relaxedAutoImplicit false

namespace Multitape.Json

/-- A string of one character. -/
def ofChar (c : Char) : Json := ofString (String.singleton c)

/-- A string of one character, or null. -/
def ofChar? : Option Char → Json
  | none => null
  | some c => ofChar c

def ofSymbol (s : Symbol) : Json :=
  record [("base", ofChar s.base), ("above", ofChar? s.above), ("below", ofChar? s.below)]

def ofDirection (d : Direction) : Json := ofString d.name

def ofVerdict (v : Verdict) : Json := ofString v.name

def ofInfo (info : Machine.Info) : Json :=
  record [("description", ofString info.description),
    ("start_state", ofString info.startState),
    ("accept_state", ofString info.acceptState),
    ("reject_state", ofString info.rejectState),
    ("states", ofStrings info.states),
    ("input_alphabet", ofString info.inputAlphabet),
    ("tape_alphabets", ofStrings info.tapeAlphabets),
    ("blank", ofString info.blank),
    ("tape_count", ofNat info.tapeCount),
    ("rules", ofStrings info.rules)]

/-- The character of a string that has one. -/
def toChar? : Json → Option Char
  | string (some s) =>
    match s.toList with
    | [c] => some c
    | _ => none
  | _ => none

/-- The character of a string that has one, or nothing for null. -/
def toMark? : Json → Option (Option Char)
  | null => some none
  | value => (toChar? value).map some

/-- The value of a member that occurs at most once, if it occurs. -/
def member? (name : String) (members : List (Option String × Json)) : Option (Option Json) :=
  match members.filter fun m ↦ m.1 == some name with
  | [] => some none
  | [(_, value)] => some (some value)
  | _ => none

/-- A mark that may be left out. -/
def markMember? (name : String) (members : List (Option String × Json)) :
    Option (Option Char) := do
  match ← member? name members with
  | none => return none
  | some value => toMark? value

/-- The symbol that a value stands for. Members of other names do not count, but their names must
not be broken. -/
def toSymbol? : Json → Option Symbol
  | array [base, above, below] => do
    return ⟨← toChar? base, ← toMark? above, ← toMark? below⟩
  | object members =>
    if members.all fun m ↦ m.1.isSome then do
      let base ← (← member? "base" members).bind toChar?
      return ⟨base, ← markMember? "above" members, ← markMember? "below" members⟩
    else none
  | _ => none

/-- The name that a value gives. -/
def toName? : Json → Option String
  | string s => s
  | object [(name, null)] => name
  | _ => none

def toDirection? (value : Json) : Option Direction := do
  let name ← toName? value
  [Direction.left, .right, .stay].find? (·.name == name)

def toVerdict? (value : Json) : Option Verdict := do
  let name ← toName? value
  [Verdict.accept, .reject].find? (·.name == name)

end Multitape.Json
