import Multitape.Machine
import Multitape.Tape.Render

/-!
Configurations as lines of text. Every line is a row of a tape behind a label; the label is the
state beside the bases of the first tape and blank beside every other row, and at least six columns
wide. All rows of a tape are equally wide; if they are too wide for one tape or more, the
configuration is refused and the width of the first such tape is told.
-/

set_option autoImplicit false
set_option relaxedAutoImplicit false

namespace Multitape.Machine

/-- Rows that are wider than they may be. -/
structure TooWide where
  width : Nat
  limit : Nat
deriving DecidableEq, Repr

/-- The text with spaces behind it, to be as wide as this or wider. -/
def padTo (width : Nat) (text : List Char) : List Char :=
  text ++ List.replicate (width - text.length) ' '

/-- The line of a row behind its label. -/
def line (label row : List Char) : String :=
  String.ofList (Text.trimEnd (padTo 6 label ++ ' ' :: row))

/-- The lines of a tape that has the given number, unless its rows are too wide. -/
def tapeLines (m : Machine) (limit : Nat) (tape : Tape) (number : Nat) :
    Except TooWide (List String) :=
  let marker := m.marker.toList
  let width := tape.width marker
  if width > limit then .error ⟨width, limit⟩
  else
    let state := m.state.toList
    let space := state.map fun _ ↦ ' '
    .ok <| (tape.render marker).zipIdx.map fun (row, i) ↦
      line (if number = 0 ∧ i = tape.baseRow then state else space) row

/-- The lines of the configuration, from top to bottom. -/
def render (m : Machine) (limit : Nat) : Except TooWide (List String) := do
  return (← m.tapes.zipIdx.mapM fun (tape, number) ↦ m.tapeLines limit tape number).flatten

end Multitape.Machine
