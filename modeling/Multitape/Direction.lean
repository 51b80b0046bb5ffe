/-!
The ways a head can move, and the two ways a run can end.
-/

set_option autoImplicit false
set_option relaxedAutoImplicit false

namespace Multitape

/-- A head movement. -/
inductive Direction
  | left
  | right
  | stay
deriving DecidableEq, Repr

namespace Direction

/-- A move is told by its first letter, large or small: `R`, `right` and `rt` are all to the
right. -/
def ofToken? : List Char → Option Direction
  | [] => none
  | c :: _ =>
    if c = 'r' ∨ c = 'R' then some right
    else if c = 'l' ∨ c = 'L' then some left
    else if c = 's' ∨ c = 'S' then some stay
    else none

/-- How far the head goes to the right. -/
def offset : Direction → Int
  | left => -1
  | right => 1
  | stay => 0

/-- The letter of the move in a written rule. -/
def letter : Direction → Char
  | left => 'L'
  | right => 'R'
  | stay => 'S'

/-- The move in full. -/
def name : Direction → String
  | left => "Left"
  | right => "Right"
  | stay => "Stay"

instance : ToString Direction := ⟨fun d ↦ String.singleton d.letter⟩

end Direction

/-- How a run ends. -/
inductive Verdict
  | accept
  | reject
deriving DecidableEq, Repr

namespace Verdict

def name : Verdict → String
  | accept => "accept"
  | reject => "reject"

instance : ToString Verdict := ⟨name⟩

end Verdict

end Multitape
