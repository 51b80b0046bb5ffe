import Multitape.Definition.Parse
import Multitape.Machine.Trace

/-!
What can be asked of a machine, one thing after the other. Each request leaves a machine, also if it
fails: a step that a tape refuses leaves the tapes before it changed, a run leaves the machine where
it ended, and a text that writes no definition leaves everything as it was.
-/

set_option autoImplicit false
set_option relaxedAutoImplicit false

namespace Multitape

namespace Machine

/-- Exchanges the definition for the one that a text writes. -/
def configure (m : Machine) (text : List Char) : Except Definition.Fault Unit × Machine :=
  match Definition.parse text with
  | .error fault => (.error fault, m)
  | .ok d => (.ok (), m.redefine d)

end Machine

/-- A request to a machine. -/
inductive Operation
  | setLimit (limit : Option Nat)
  | setMarker (marker : String)
  | start (input : List Char)
  | step
  | run (input : List Char)
  | trace (input : List Char)
  | configure (text : List Char)
deriving DecidableEq, Repr

namespace Operation

/-- The machine that the request leaves. A run that needs more than `fuel` calls of `step` leaves
none. -/
def perform (fuel : Nat) (m : Machine) : Operation → Option Machine
  | setLimit limit => some (m.withLimit limit)
  | setMarker marker => some (m.withMarker marker)
  | start input => some (m.start input)
  | step => some m.step.2
  | run input => (m.run fuel input).map Prod.snd
  | trace input => (m.trace fuel input).map Machine.Trace.machine
  | configure text => some (m.configure text).2

end Operation

end Multitape
