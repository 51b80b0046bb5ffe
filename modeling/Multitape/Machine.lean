import Multitape.Definition
import Multitape.Tape

/-!
Deterministic machines with several tapes. A step takes the first rule that fires, or the implicit
rejection if none does, and applies it to the tapes from the first to the last. A machine in a
terminal state stays as it is. A machine at its step limit refuses to go on, and a rule that a tape
refuses ends the step there, with the tapes before it already changed.
-/

set_option autoImplicit false
set_option relaxedAutoImplicit false

namespace Multitape

/-- A machine in the middle of a run. -/
structure Machine where
  definition : Definition
  tapes : List Tape
  state : String
  /-- How many transitions the run has taken. -/
  steps : Nat
  /-- How many transitions a run may take, if there is a limit. -/
  limit : Option Nat
  /-- What is drawn before the cell under a head. -/
  marker : String
deriving DecidableEq, Repr

namespace Machine

/-- Why a machine takes no step. -/
inductive Fault
  /-- A tape, counted from zero, refuses its part of a rule. -/
  | instruction (rule : Rule) (tape : Nat) (refusal : Tape.Refusal)
  | stepLimit (limit : Nat)
deriving DecidableEq, Repr

/-- The blank tapes of a definition. -/
def blankTapes (d : Definition) : List Tape :=
  d.tapeAlphabets.map fun alphabet ↦ .new alphabet d.blank

/-- A machine in its start state, with blank tapes. -/
def new (d : Definition) : Machine where
  definition := d
  tapes := blankTapes d
  state := d.startState
  steps := 0
  limit := none
  marker := ">"

/-- Exchanges the definition and keeps limit and marker. -/
def redefine (m : Machine) (d : Definition) : Machine :=
  { new d with limit := m.limit, marker := m.marker }

/-- Sets the limit, or takes it away. -/
def withLimit (m : Machine) (limit : Option Nat) : Machine := { m with limit }

/-- Sets what is drawn before the cell under a head. -/
def withMarker (m : Machine) (marker : String) : Machine := { m with marker }

/-- A new machine with a limit and a marker. -/
def fresh (d : Definition) (limit : Option Nat) (marker : String) : Machine :=
  ((new d).withLimit limit).withMarker marker

/-- Puts an input on the first tape and blanks the others. -/
def startTapes (input : List Symbol) : List Tape → List Tape
  | [] => []
  | first :: rest => first.reset input 0 :: rest.map Tape.clear

/-- Begins a run. The input is the plain symbols of its characters, whether the first tape has them
in its alphabet or not. -/
def start (m : Machine) (input : List Char) : Machine :=
  { m with
    tapes := startTapes (input.map Symbol.plain) m.tapes
    state := m.definition.startState
    steps := 0 }

/-- The symbols under the heads. -/
def symbols (m : Machine) : List Symbol := m.tapes.map Tape.current

/-- The verdict of the state. -/
def verdict (m : Machine) : Option Verdict :=
  if m.state = m.definition.acceptState then some .accept
  else if m.state = m.definition.rejectState then some .reject
  else none

def isHalted (m : Machine) : Bool := m.verdict.isSome

/-- The rule for the next step. -/
def nextRule (m : Machine) : Rule :=
  let symbols := m.symbols
  match m.definition.rules.find? fun rule ↦ rule.fires m.state symbols with
  | some rule => rule
  | none => .implicitReject m.state symbols m.definition.rejectState

/-- The limit, if the run has reached it. -/
def reachedLimit? (m : Machine) : Option Nat :=
  m.limit.filter (· ≤ m.steps)

/-- Applies instructions to tapes, the first of which has the given number. The first tape to refuse
its instruction is told, with the reason; it and the tapes behind it stay as they were. -/
def applyAll (index : Nat) :
    List Instruction → List Tape → List Tape × Option (Nat × Tape.Refusal)
  | i :: instructions, tape :: tapes =>
    match tape.apply i.input i.output i.move with
    | .error refusal => (tape :: tapes, some (index, refusal))
    | .ok changed =>
      let (rest, refused) := applyAll (index + 1) instructions tapes
      (changed :: rest, refused)
  | _, tapes => (tapes, none)

/-- Takes one transition, and gives the verdict if the machine is then in a terminal state. -/
def step (m : Machine) : Except Fault (Option Verdict) × Machine :=
  match m.verdict with
  | some v => (.ok (some v), m)
  | none =>
    match m.reachedLimit? with
    | some limit => (.error (.stepLimit limit), m)
    | none =>
      let rule := m.nextRule
      match applyAll 0 rule.instructions m.tapes with
      | (tapes, some (tape, refusal)) => (.error (.instruction rule tape refusal), { m with tapes })
      | (tapes, none) =>
        let next := { m with tapes, state := rule.target, steps := m.steps + 1 }
        (.ok next.verdict, next)

/-- Takes steps until the machine halts or fails. If that takes more than `fuel` calls of `step`
there is no answer. -/
def runFrom : Nat → Machine → Option (Except Fault Verdict × Machine)
  | 0, _ => none
  | fuel + 1, m =>
    match m.step with
    | (.error fault, m) => some (.error fault, m)
    | (.ok (some v), m) => some (.ok v, m)
    | (.ok none, m) => runFrom fuel m

/-- Runs an input from the start. -/
def run (m : Machine) (fuel : Nat) (input : List Char) :
    Option (Except Fault Verdict × Machine) :=
  (m.start input).runFrom fuel

end Machine

end Multitape
