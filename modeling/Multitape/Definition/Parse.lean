import Multitape.Definition.Settings

/-!
Definitions read from text. The sections come first, then the assignments in their order, then what
the tape settings must agree on, and last the rules, which are read through the tape alphabets. The
first fault in this order is the one that is told.
-/

set_option autoImplicit false
set_option relaxedAutoImplicit false

namespace Multitape.Definition

/-- Reads the rules of a machine. -/
def readRules (alphabets : List Alphabet) (acceptState rejectState : String)
    (lines : List (List Char)) : Except Rule.Fault (List Rule) :=
  lines.mapM (Rule.read alphabets acceptState rejectState)

/-- The definition with these settings and rules. -/
def Settings.complete (s : Settings) (rules : List (List Char)) : Except Fault Definition := do
  let absent : Definition := {}
  let blank := s.blank.getD absent.blank
  let alphabets ← (s.alphabets blank).mapError .mismatch
  (Settings.checkBlank blank 0 alphabets).mapError .mismatch
  let acceptState := s.acceptState.getD absent.acceptState
  let rejectState := s.rejectState.getD absent.rejectState
  if acceptState = rejectState then .error (.mismatch (.sameTerminal acceptState))
  let rules ← (readRules alphabets acceptState rejectState rules).mapError .rule
  return {
    description := s.description.getD absent.description
    startState := s.startState.getD absent.startState
    acceptState := acceptState
    rejectState := rejectState
    alphabet := s.alphabet.getD absent.alphabet
    tapeAlphabets := alphabets
    blank := blank
    rules := rules }

/-- The definition that a text writes. -/
def parse (text : List Char) : Except Fault Definition := do
  let sections ← (Sections.ofText text).mapError fun line ↦ .unknownKey (String.ofList line)
  let settings ← Settings.ofAssignments sections.assignments
  settings.complete sections.rules

end Multitape.Definition
