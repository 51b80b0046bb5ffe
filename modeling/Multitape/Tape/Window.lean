import Multitape.Direction
import Multitape.Symbol

/-!
The window of a tape as the head sees it. The cells to the left of the head are listed nearest
first, so that a move touches no more than the cells next to the head. From outside, a window is its
cells from left to right (`contents`) and the place of the head, counted from the first of them
(`head`); these two determine it (`of_contents_head`) and may be anything (`contents_of`,
`head_of`).
-/

set_option autoImplicit false
set_option relaxedAutoImplicit false

namespace Multitape

/-- A window with the head on one of its cells. -/
structure Focus where
  /-- The cells to the left of the head, nearest first. -/
  before : List Symbol
  /-- The cell under the head. -/
  here : Symbol
  /-- The cells to the right of the head. -/
  after : List Symbol
deriving DecidableEq, Repr

namespace Focus

/-- The cells from left to right. -/
def contents (f : Focus) : List Symbol := f.before.reverse ++ f.here :: f.after

/-- How many cells are to the left of the head. -/
def head (f : Focus) : Nat := f.before.length

/-- Moves the head. A window that ends there gets a blank more. -/
def move (blank : Symbol) (f : Focus) : Direction → Focus
  | .left =>
    match f.before with
    | [] => ⟨[], blank, f.here :: f.after⟩
    | s :: before => ⟨before, s, f.here :: f.after⟩
  | .right =>
    match f.after with
    | [] => ⟨f.here :: f.before, blank, []⟩
    | s :: after => ⟨f.here :: f.before, s, after⟩
  | .stay => f

end Focus

/-- A window with the head anywhere. -/
inductive Window
  /-- The head is on a cell of the window. -/
  | inside (focus : Focus)
  /-- The head is to the left of the window, with so many cells between them. -/
  | leftOf (gap : Nat) (cells : List Symbol)
  /-- The head is to the right of the window, whose cells are listed last one first, with so many
  cells between them. -/
  | rightOf (cells : List Symbol) (gap : Nat)
deriving DecidableEq, Repr

namespace Window

/-- The window of some cells with the head at a place. -/
def of (contents : List Symbol) : Int → Window
  | .ofNat i =>
    match contents.drop i with
    | [] => .rightOf contents.reverse (i - contents.length)
    | here :: after => .inside ⟨(contents.take i).reverse, here, after⟩
  | .negSucc i => .leftOf i contents

/-- The cells from left to right. -/
def contents : Window → List Symbol
  | inside focus => focus.contents
  | leftOf _ cells => cells
  | rightOf cells _ => cells.reverse

/-- The place of the head, counted from the first cell. -/
def head : Window → Int
  | inside focus => .ofNat focus.head
  | leftOf gap _ => .negSucc gap
  | rightOf cells gap => .ofNat (cells.length + gap)

@[simp] theorem contents_of (contents : List Symbol) (head : Int) :
    (of contents head).contents = contents := by
  cases head with
  | negSucc i => rfl
  | ofNat i =>
    have parts := List.take_append_drop i contents
    simp only [of]
    split
    · simp [Window.contents]
    · simp_all [Window.contents, Focus.contents]

@[simp] theorem head_of (contents : List Symbol) (head : Int) :
    (of contents head).head = head := by
  cases head with
  | negSucc i => rfl
  | ofNat i =>
    simp only [of]
    split
    case h_1 past =>
      have := List.drop_eq_nil_iff.1 past
      simp [Window.head]
      omega
    case h_2 here after cut =>
      have : i < contents.length := by
        have := congrArg List.length cut
        simp at this
        omega
      simp [Window.head, Focus.head]
      omega

@[simp] theorem of_contents_head (w : Window) : of w.contents w.head = w := by
  cases w with
  | leftOf gap cells => rfl
  | rightOf cells gap =>
    have past : cells.reverse.drop (cells.length + gap) = [] := by simp
    simp only [of, Window.contents, Window.head, past]
    simp
  | inside focus =>
    have cut : focus.contents.drop focus.before.length = focus.here :: focus.after := by
      simp [Focus.contents, List.drop_left']
    simp only [of, Window.contents, Window.head, Focus.head, cut]
    simp [Focus.contents, List.take_left']

/-- Widens the window with blanks until the head is inside. To the left of an empty window lies the
origin, which then belongs to the window as well. -/
def cover (blank : Symbol) : Window → Focus
  | inside focus => focus
  | leftOf gap cells =>
    ⟨[], blank, List.replicate gap blank ++ if cells.isEmpty then [blank] else cells⟩
  | rightOf cells gap => ⟨List.replicate gap blank ++ cells, blank, []⟩

end Window

end Multitape
