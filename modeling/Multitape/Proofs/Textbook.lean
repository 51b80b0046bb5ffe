import Multitape.Definition
import Mathlib.Logic.Function.Basic
import Mathlib.Tactic.SplitIfs

/-!
The machine of a definition as textbooks have it. Its tapes are rows of cells without ends, given by
a symbol for every integer, and each head stands at an integer; nothing is ever widened or counted
anew. A step looks up what the first rule for the state and the symbols read says, or else the
rejection that leaves every symbol and moves every head to the right, and does it on every row. The
step is stuck if some symbol to be written is not in the alphabet of its tape. A terminal state is
never left.
-/

set_option autoImplicit false
set_option relaxedAutoImplicit false

namespace Multitape.Textbook

/-- A tape without ends. -/
structure Row where
  cells : Int → Symbol
  head : Int

namespace Row

/-- The symbol under the head. -/
def read (row : Row) : Symbol := row.cells row.head

/-- Writes the cell under the head and moves the head. -/
def act (row : Row) (output : Symbol) (d : Direction) : Row where
  cells := Function.update row.cells row.head output
  head := row.head + d.offset

/-- The row that holds some symbols from cell 0 on, under the head at cell 0. -/
def holding (blank : Symbol) (contents : List Symbol) : Row where
  cells
    | .ofNat i => contents[i]?.getD blank
    | .negSucc _ => blank
  head := 0

theorem cells_holding_mem {blank : Symbol} {contents : List Symbol} (z : Int) :
    (holding blank contents).cells z = blank ∨
      ∃ i : Nat, z = i ∧ contents[i]? = some ((holding blank contents).cells z) := by
  cases z with
  | negSucc i => exact .inl rfl
  | ofNat i =>
    cases h : contents[i]? with
    | none => exact .inl (by simp [holding, h])
    | some s => exact .inr ⟨i, rfl, by simp [holding, h]⟩

end Row

/-- A machine with `n` tapes in the middle of a run. -/
structure Configuration (n : Nat) where
  state : String
  rows : Fin n → Row
  /-- How many transitions have been taken. -/
  steps : Nat

/-- What is done in a transition of a machine with `n` tapes. -/
structure Transition (n : Nat) where
  target : String
  outputs : Fin n → Symbol
  moves : Fin n → Direction

/-- What a rule does, tape by tape. -/
def Transition.ofRule (d : Definition) (rule : Rule) : Transition d.tapeCount where
  target := rule.target
  outputs i := rule.outputs.getD i d.blank
  moves i := rule.moves.getD i .stay

variable (d : Definition)

/-- Where a run of the definition begins: the first row holds the input and the others nothing. -/
def initial (input : List Char) : Configuration d.tapeCount where
  state := d.startState
  rows i := .holding d.blank (if i.val = 0 then input.map Symbol.plain else [])
  steps := 0

/-- The transition for a state and the symbols read: that of the first rule which has both, or else
the rejection. -/
def transition (state : String) (read : Fin d.tapeCount → Symbol) : Transition d.tapeCount :=
  match d.rules.find? fun rule ↦ rule.source = state ∧ rule.inputs = List.ofFn read with
  | some rule => .ofRule d rule
  | none => { target := d.rejectState, outputs := read, moves := fun _ ↦ .right }

/-- The transition for a configuration. -/
def Configuration.transition {d : Definition} (c : Configuration d.tapeCount) :
    Transition d.tapeCount :=
  Textbook.transition d c.state fun i ↦ (c.rows i).read

/-- Every symbol to be written is in the alphabet of its tape. -/
def Transition.Permitted {d : Definition} (t : Transition d.tapeCount) : Prop :=
  ∀ i, (d.tapeAlphabets.get i).contains (t.outputs i) = true

instance {d : Definition} (t : Transition d.tapeCount) : Decidable t.Permitted :=
  inferInstanceAs (Decidable (∀ _, _))

/-- The configuration after a transition. -/
def Configuration.take {n : Nat} (c : Configuration n) (t : Transition n) : Configuration n where
  state := t.target
  rows i := (c.rows i).act (t.outputs i) (t.moves i)
  steps := c.steps + 1

/-- The next configuration, unless the machine is stuck. -/
def step (c : Configuration d.tapeCount) : Option (Configuration d.tapeCount) :=
  if c.state = d.acceptState ∨ c.state = d.rejectState then some c
  else if c.transition.Permitted then some (c.take c.transition)
  else none

/-- The configuration after a number of steps on an input, unless one of them is stuck. -/
def after (input : List Char) : Nat → Option (Configuration d.tapeCount)
  | 0 => some (initial d input)
  | k + 1 => (after input k).bind (step d)

/-- The verdict that a state stands for. -/
def verdict (state : String) : Option Verdict :=
  if state = d.acceptState then some .accept
  else if state = d.rejectState then some .reject
  else none

variable {d : Definition} {c : Configuration d.tapeCount}

/-- A terminal state is never left. -/
theorem step_of_verdict {v : Verdict} (h : verdict d c.state = some v) : step d c = some c := by
  unfold verdict at h
  unfold step
  split_ifs at h with haccept hreject
  · rw [if_pos (.inl haccept)]
  · rw [if_pos (.inr hreject)]

theorem step_of_running (h : verdict d c.state = none) :
    step d c = if c.transition.Permitted then some (c.take c.transition) else none := by
  unfold verdict at h
  unfold step
  split_ifs at h with haccept hreject
  rw [if_neg (by simp [haccept, hreject])]

end Multitape.Textbook
