import Multitape.Rule

/-!
What a machine is defined by: its states' labels, its alphabets, the blank of its tapes and its
rules, in the order in which they are tried. Nothing here asks that the parts fit together.
-/

set_option autoImplicit false
set_option relaxedAutoImplicit false

namespace Multitape

/-- The definition of a machine. What is left out is taken from a machine with one tape over the
binary digits that rejects everything. -/
structure Definition where
  description : String := ""
  startState : String := "q0"
  acceptState : String := "q1"
  rejectState : String := "q2"
  /-- The characters that inputs are meant to be made of. -/
  alphabet : Alphabet := .binary
  /-- The alphabet of every tape. The first tape is the one that takes the input. -/
  tapeAlphabets : List Alphabet := [.binaryWith (.plain 'B')]
  /-- The blank of every tape. -/
  blank : Symbol := .plain 'B'
  rules : List Rule := []
deriving DecidableEq, Repr

namespace Definition

def tapeCount (d : Definition) : Nat := d.tapeAlphabets.length

/-- Whether a run ends in the state. -/
def isTerminal (d : Definition) (state : String) : Bool :=
  state == d.acceptState || state == d.rejectState

/-- Adds a state at the end of a list that does not have it. -/
def addState (states : List String) (state : String) : List String :=
  if states.contains state then states else states ++ [state]

/-- The start, accept and reject states, then what further states have rules, in their order. -/
def states (d : Definition) : List String :=
  (d.rules.map Rule.source).foldl addState [d.startState, d.acceptState, d.rejectState]

end Definition

end Multitape
