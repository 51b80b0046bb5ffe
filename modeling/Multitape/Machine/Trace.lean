import Multitape.Machine.Render

/-!
Runs that report on their way: once at the start, and again after every step that succeeds.
-/

set_option autoImplicit false
set_option relaxedAutoImplicit false

namespace Multitape.Machine

/-- The widest row that a report shows. -/
def reportWidth : Nat := 72

/-- A configuration as it is reported. -/
structure Report where
  steps : Nat
  state : String
  rendering : Except TooWide (List String)

/-- The report on the machine as it is. -/
def report (m : Machine) : Report := ⟨m.steps, m.state, m.render reportWidth⟩

/-- A run with its reports, in order. -/
structure Trace where
  reports : List Report
  result : Except Fault Verdict
  machine : Machine

/-- Goes on until the machine halts or fails, and reports after every step. If that takes more than
`fuel` calls of `step` there is no answer. -/
def traceFrom : Nat → Machine → Option Trace
  | 0, _ => none
  | fuel + 1, m =>
    match m.step with
    | (.error fault, m) => some ⟨[], .error fault, m⟩
    | (.ok (some v), m) => some ⟨[m.report], .ok v, m⟩
    | (.ok none, m) =>
      (traceFrom fuel m).map fun trace ↦ { trace with reports := m.report :: trace.reports }

/-- Runs an input from the start and reports the initial configuration too. -/
def trace (m : Machine) (fuel : Nat) (input : List Char) : Option Trace :=
  let started := m.start input
  (started.traceFrom fuel).map fun trace ↦
    { trace with reports := started.report :: trace.reports }

end Multitape.Machine
