import Multitape.Text.Lines
import Multitape.Text.WhiteSpace

/-!
The two sections of a written definition. First come assignments `key = value`, then rules, from the
first line on that begins with a `q`, large or small. Empty lines and lines that begin with `#` say
nothing. A value with more brackets opened than closed goes on in the next line; one that is still
open when the rules begin, or at the end of the text, is taken as it stands.
-/

set_option autoImplicit false
set_option relaxedAutoImplicit false

namespace Multitape.Definition

/-- A key and the text of its value. -/
structure Assignment where
  key : List Char
  value : List Char
deriving DecidableEq, Repr

/-- The assignments and the lines of the rules. -/
structure Sections where
  assignments : List Assignment
  rules : List (List Char)
deriving DecidableEq, Repr

/-- The number of brackets that are open behind a line, given how many are open before it. Brackets
between quotes do not count, nor does anything behind a `#`. A quote that is not closed ends with
the line. -/
def depthBehind (quote : Option Char) (depth : Int) : List Char → Int
  | [] => depth
  | c :: rest =>
    match quote with
    | some q => depthBehind (if c = q then none else some q) depth rest
    | none =>
      if c = '\'' ∨ c = '"' then depthBehind (some c) depth rest
      else if c = '#' then depth
      else if c = '[' ∨ c = '(' then depthBehind none (depth + 1) rest
      else if c = ']' ∨ c = ')' then depthBehind none (depth - 1) rest
      else depthBehind none depth rest

/-- An assignment whose value goes on: the lines that it has so far, last one first, and how many
brackets are open behind them. -/
structure Pending where
  key : List Char
  lines : List (List Char)
  depth : Int
deriving DecidableEq, Repr

namespace Pending

/-- Begins a value. -/
def start (a : Assignment) : Pending := ⟨a.key, [a.value], depthBehind none 0 a.value⟩

/-- Goes on with a line. -/
def add (p : Pending) (line : List Char) : Pending :=
  { p with lines := line :: p.lines, depth := depthBehind none p.depth line }

/-- The assignment as far as it goes. -/
def assignment (p : Pending) : Assignment :=
  ⟨p.key, ['\n'].intercalate p.lines.reverse⟩

end Pending

/-- The lines that say something, without the white space around them. -/
def contentLines (text : List Char) : List (List Char) :=
  ((Text.lines text).map Text.trim).filter fun line ↦ !line.isEmpty && line.head? ≠ some '#'

/-- Whether the rules begin with the line. -/
def opensRules (line : List Char) : Bool :=
  line.head? == some 'q' || line.head? == some 'Q'

/-- A line as a key and a value, parted at its first equals sign. -/
def splitAssignment? (line : List Char) : Option Assignment :=
  match line.dropWhile (· ≠ '=') with
  | [] => none
  | _ :: value => some ⟨Text.trim (line.takeWhile (· ≠ '=')), Text.trim value⟩

/-- The sections with one more assignment in front. -/
def Sections.assign (assignment : Assignment) (s : Sections) : Sections :=
  { s with assignments := assignment :: s.assignments }

/-- The sections of some content lines, the first of which may go on with a value. The error is a
line that should be an assignment and has no equals sign. -/
def sectionsFrom (pending : Option Pending) : List (List Char) → Except (List Char) Sections
  | [] => .ok ⟨(pending.map Pending.assignment).toList, []⟩
  | line :: rest =>
    if opensRules line then .ok ⟨(pending.map Pending.assignment).toList, line :: rest⟩
    else
      let next := match pending with
        | some p => some (p.add line)
        | none => (splitAssignment? line).map Pending.start
      match next with
      | none => .error line
      | some p =>
        if p.depth > 0 then sectionsFrom (some p) rest
        else (sectionsFrom none rest).map (Sections.assign p.assignment)

/-- The sections of a text. -/
def Sections.ofText (text : List Char) : Except (List Char) Sections :=
  sectionsFrom none (contentLines text)

end Multitape.Definition
