import Multitape.Literal

/-!
Faults of a value, shown in the text where they are. An excerpt names the place by line and column,
shows the line, and points at the column or underlines the stretch:

     --> num_tapes:1:1
      |
    1 | three
      | ^---
      |
      = expected integer

Of a stretch over several lines the first and the last are shown.
-/

set_option autoImplicit false
set_option relaxedAutoImplicit false

namespace Multitape.Literal

/-- Line and column of a place, both counted from one. -/
structure Place where
  line : Nat
  column : Nat
deriving DecidableEq, Repr

/-- The place behind the given characters. Only a line feed begins a new line. -/
def Place.behind (before : List Char) : Place :=
  ⟨before.count '\n' + 1, (before.reverse.takeWhile (· ≠ '\n')).length + 1⟩

/-- The place of a stretch's end. An end at the head of a line is told on the line before, one
column past its line feed. -/
def Place.ofEnd (before : List Char) : Place :=
  let place := Place.behind before
  if place.column = 1 then
    let last := Place.behind before.dropLast
    ⟨last.line, last.column + 1⟩
  else place

/-- The line in which some text breaks off, with its end: what stands before and after the break. -/
def lineAround (before after : List Char) : List Char :=
  let rest := after.takeWhile (· ≠ '\n')
  (before.reverse.takeWhile (· ≠ '\n')).reverse ++ rest ++ (after.drop rest.length).take 1

/-- A line without its end. -/
def withoutEnds (line : List Char) : List Char :=
  line.filter fun c ↦ c ≠ '\r' && c ≠ '\n'

/-- A line whose end is drawn. -/
def withEndsDrawn (line : List Char) : List Char :=
  line.map fun c ↦ if c = '\r' then '␍' else if c = '\n' then '␊' else c

/-- White space as wide as the first characters of a line. -/
def indent (line : List Char) (width : Nat) : List Char :=
  (line.take width).map fun c ↦ if c = '\t' then '\t' else ' '

/-- A hat at both ends of a stretch of columns, the second one before its end. -/
def hats (start stop : Nat) : List Char :=
  '^' :: if stop - start > 1 then List.replicate (stop - start - 2) '-' ++ ['^'] else []

/-- What is drawn under the first line of a stretch from one column to another. If the second one is
further left, they change sides and a column is added to both. -/
def underline (line : List Char) (start stop : Nat) : List Char :=
  if start > stop then indent line (stop - 2) ++ hats (stop - 1) (start + 1)
  else indent line (start - 1) ++ hats start stop

/-- An excerpt whose left margin is as wide as its line numbers. -/
def frame (key : String) (place : Place) (margin : String) (shown : List String)
    (under : List Char) (message : String) : String :=
  let head := margin ++ "--> " ++ key ++ ":" ++ toString place.line ++ ":" ++ toString place.column
  "\n".intercalate <|
    [head, margin ++ " |"] ++ shown ++
      [margin ++ " | " ++ String.ofList under, margin ++ " |", margin ++ " = " ++ message]

/-- White space as wide as a number. -/
def marginFor (n : Nat) : String :=
  String.ofList ((toString n).toList.map fun _ ↦ ' ')

/-- An excerpt that points at the place where so many characters are left. -/
def pointAt (key : String) (text : List Char) (left : Nat) (message : String) : String :=
  let before := text.take (text.length - left)
  let after := text.drop (text.length - left)
  let place := Place.behind before
  let around := lineAround before after
  let line := match after with
    | c :: _ => if c = '\n' ∨ c = '\r' then withEndsDrawn around else withoutEnds around
    | [] => withoutEnds around
  frame key place (marginFor place.line) [toString place.line ++ " | " ++ String.ofList line]
    (indent line (place.column - 1) ++ ['^', '-', '-', '-']) message

/-- An excerpt that underlines a stretch. -/
def underlineSpan (key : String) (text : List Char) (span : Span) (message : String) : String :=
  let before := text.take (text.length - span.start.length)
  let upTo := text.take (text.length - span.stop.length)
  let start := Place.behind before
  let stop := Place.ofEnd upTo
  let first := withoutEnds (lineAround before span.start)
  let last := withEndsDrawn (lineAround upTo.dropLast (text.drop (upTo.length - 1)))
  let margin := marginFor (max start.line stop.line)
  let numbered (n : Nat) (line : List Char) :=
    let digits := toString n
    String.ofList (List.replicate (margin.length - digits.length) ' ') ++ digits ++ " | " ++
      String.ofList line
  let shown :=
    if start.line = stop.line then [numbered start.line first]
    else [numbered start.line first] ++
      (if stop.line - start.line > 1 then [margin ++ " | ..."] else []) ++
      [numbered stop.line last]
  frame key start margin shown (underline first start.column stop.column) message

/-- Forms as a choice. -/
def choice : List String → String
  | [] => ""
  | [a] => a
  | [a, b] => a ++ " or " ++ b
  | names => ", ".intercalate names.dropLast ++ ", or " ++ names.getLastD ""

/-- The excerpt of the text that shows a fault of the key's value. -/
def Fault.message (key : String) (text : List Char) : Fault → String
  | expected left forms =>
    let names := (Form.all.filter fun form ↦ forms.contains form).map Form.name
    pointAt key text left ("expected " ++ choice names)
  | tooLarge span => underlineSpan key text span "number too large to fit in target type"
  | notOneCharacter content span =>
    underlineSpan key text span
      ("expected a single non-blank character, found " ++ Text.quoted (String.ofList content))
  | noBase span => underlineSpan key text span "a symbol needs a base character"

end Multitape.Literal
