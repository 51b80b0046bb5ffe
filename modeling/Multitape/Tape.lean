import Multitape.Tape.Window

/-!
A tape without ends, of which only a window is kept: every cell outside it is blank. The head stands
at a cell counted from the left end of the window, and may stand outside. An instruction that
succeeds widens the window by as many blanks as its head needs to stand inside, before and after the
move. Widening to the left counts the cells anew, so that the head is then at cell 0.
-/

set_option autoImplicit false
set_option relaxedAutoImplicit false

namespace Multitape

/-- A tape and its head. -/
structure Tape where
  alphabet : Alphabet
  blank : Symbol
  window : Window
deriving DecidableEq, Repr

namespace Tape

/-- The cells of the window from left to right. -/
def contents (tape : Tape) : List Symbol := tape.window.contents

/-- The place of the head, counted from the left end of the window. -/
def head (tape : Tape) : Int := tape.window.head

/-- Exchanges window and head. The symbols may lie outside the alphabet. -/
def reset (tape : Tape) (contents : List Symbol) (head : Int) : Tape :=
  { tape with window := .of contents head }

/-- Blanks the tape and brings its head back. -/
def clear (tape : Tape) : Tape := tape.reset [] 0

/-- A blank tape with the head at its origin. -/
def new (alphabet : Alphabet) (blank : Symbol) : Tape := ⟨alphabet, blank, .of [] 0⟩

/-- The symbol in a cell. -/
def cell (tape : Tape) : Int → Symbol
  | .ofNat i => tape.contents[i]?.getD tape.blank
  | .negSucc _ => tape.blank

/-- The symbol under the head. -/
def current (tape : Tape) : Symbol :=
  match tape.window with
  | .inside focus => focus.here
  | .leftOf _ _ => tape.blank
  | .rightOf _ _ => tape.blank

theorem current_eq_cell (tape : Tape) : tape.current = tape.cell tape.head := by
  obtain ⟨alphabet, blank, window⟩ := tape
  cases window with
  | inside focus =>
    change focus.here = focus.contents[focus.before.length]?.getD blank
    simp [Focus.contents]
  | leftOf gap cells => rfl
  | rightOf cells gap =>
    change blank = cells.reverse[cells.length + gap]?.getD blank
    simp

/-- Why a tape does not take an instruction. -/
inductive Refusal
  /-- Another symbol is under the head than the one to be read. -/
  | unexpected (input : Symbol) (head : Int) (found : Symbol)
  /-- The symbol to be written is not one of the tape's. -/
  | foreign (output : Symbol) (alphabet : Alphabet)
deriving DecidableEq, Repr

namespace Refusal

def reason : Refusal → String
  | unexpected input head found =>
    "expected '" ++ toString input ++ "' under the head at " ++ toString head ++ " but found '" ++
      toString found ++ "'"
  | foreign output alphabet =>
    "'" ++ toString output ++ "' is not in the tape alphabet " ++ toString alphabet

end Refusal

/-- Reads a symbol, writes another and moves. -/
def apply (tape : Tape) (input output : Symbol) (d : Direction) : Except Refusal Tape :=
  if tape.current ≠ input then .error (.unexpected input tape.head tape.current)
  else if tape.alphabet.contains output then
    let written := { tape.window.cover tape.blank with here := output }
    .ok { tape with window := .inside (written.move tape.blank d) }
  else .error (.foreign output tape.alphabet)

end Tape

end Multitape
