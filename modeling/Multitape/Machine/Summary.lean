import Multitape.Machine

/-!
A machine told as a whole: its formal description as text, and the same facts as a record of texts
for programs that show machines.
-/

set_option autoImplicit false
set_option relaxedAutoImplicit false

namespace Multitape.Machine

/-- The formal description, with one line for each rule at its end. -/
def summary (m : Machine) : String :=
  let d := m.definition
  "\n".intercalate <|
    ["TM: " ++ d.description,
      "  Sigma:    " ++ toString d.alphabet,
      "  Gammas:   " ++ " ".intercalate (d.tapeAlphabets.map toString),
      "  Q:        " ++ ", ".intercalate d.states,
      "  q_start:  " ++ d.startState,
      "  q_accept: " ++ d.acceptState,
      "  q_reject: " ++ d.rejectState,
      "  delta:"] ++
      d.rules.map fun rule ↦ "    " ++ toString rule

/-- What there is to know of a machine's definition. -/
structure Info where
  description : String
  startState : String
  acceptState : String
  rejectState : String
  states : List String
  inputAlphabet : String
  tapeAlphabets : List String
  blank : String
  tapeCount : Nat
  rules : List String
deriving DecidableEq, Repr

def info (m : Machine) : Info :=
  let d := m.definition
  { description := d.description
    startState := d.startState
    acceptState := d.acceptState
    rejectState := d.rejectState
    states := d.states
    inputAlphabet := toString d.alphabet
    tapeAlphabets := d.tapeAlphabets.map toString
    blank := toString d.blank
    tapeCount := d.tapeCount
    rules := d.rules.map toString }

end Multitape.Machine
