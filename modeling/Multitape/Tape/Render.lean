import Multitape.Tape

/-!
A tape as rows of text. Each cell takes a column to part it from the cell before and a column for
its symbol; the head's cell has the head marker in the place of the first of these. Bases stand in
one row, and there is a row above or below it if the alphabet has marks on that side. Marker and
blanks are as wide in each row, so the rows line up and have one width (`length_of_mem_render`):

      . . .
     0 1 0 0>1 B
          ^   ^ ^
-/

set_option autoImplicit false
set_option relaxedAutoImplicit false

namespace Multitape.Tape

/-- A cell as it is drawn: whether the head is on it, and its symbol. -/
structure Drawn where
  underHead : Bool
  symbol : Symbol
deriving DecidableEq, Repr

/-- The cells that are drawn, from left to right: the window, and every cell between it and the
head. -/
def drawn (tape : Tape) : List Drawn :=
  let beside (s : Symbol) : Drawn := ⟨false, s⟩
  match tape.window with
  | .inside focus =>
    focus.before.reverse.map beside ++ ⟨true, focus.here⟩ :: focus.after.map beside
  | .leftOf gap cells =>
    ⟨true, tape.blank⟩ :: List.replicate gap (beside tape.blank) ++ cells.map beside
  | .rightOf cells gap =>
    cells.reverse.map beside ++ List.replicate gap (beside tape.blank) ++ [⟨true, tape.blank⟩]

/-- One row: a character of every cell's symbol, with something in front of the head's. -/
def row (cells : List Drawn) (before : List Char) (part : Symbol → Char) : List Char :=
  cells.flatMap fun c ↦ (if c.underHead then before else [' ']) ++ [part c.symbol]

/-- The rows of the tape, from top to bottom. -/
def render (tape : Tape) (marker : List Char) : List (List Char) :=
  let cells := tape.drawn
  let space := marker.map fun _ ↦ ' '
  let above := row cells space fun s ↦ s.above.getD ' '
  let below := row cells space fun s ↦ s.below.getD ' '
  (if tape.alphabet.hasAbove then [above] else []) ++ [row cells marker Symbol.base] ++
    (if tape.alphabet.hasBelow then [below] else [])

/-- How many rows `render` gives. -/
def height (tape : Tape) : Nat := tape.alphabet.height

/-- Which of the rows holds the bases. -/
def baseRow (tape : Tape) : Nat := tape.alphabet.hasAbove.toNat

/-- How many cells are drawn apart from the head's. -/
def besides (tape : Tape) : Nat :=
  match tape.window with
  | .inside focus => focus.before.length + focus.after.length
  | .leftOf gap cells => gap + cells.length
  | .rightOf cells gap => cells.length + gap

/-- How wide every row is. -/
def width (tape : Tape) (marker : List Char) : Nat := 2 * tape.besides + marker.length + 1

theorem length_row_beside (cells : List Drawn) (before : List Char) (part : Symbol → Char)
    (beside : ∀ c ∈ cells, c.underHead = false) :
    (row cells before part).length = 2 * cells.length := by
  induction cells with
  | nil => rfl
  | cons c cells ih =>
    have first := beside c (List.mem_cons_self ..)
    have rest := ih fun d hd ↦ beside d (List.mem_cons_of_mem _ hd)
    simp only [row, List.flatMap_cons, List.length_append, List.length_cons] at rest ⊢
    simp [first, rest]
    omega

theorem length_row_drawn (tape : Tape) (before : List Char) (part : Symbol → Char) :
    (row tape.drawn before part).length = tape.width before := by
  have append (a b : List Drawn) :
      (row (a ++ b) before part).length =
        (row a before part).length + (row b before part).length := by
    simp [row]
  have head (s : Symbol) (cells : List Drawn) :
      (row (⟨true, s⟩ :: cells) before part).length =
        before.length + 1 + (row cells before part).length := by
    simp [row]
    omega
  have nil : (row [] before part).length = 0 := rfl
  obtain ⟨alphabet, blank, window⟩ := tape
  cases window <;> simp only [drawn, width, besides, append, head, nil]
  all_goals
    repeat rw [length_row_beside _ _ _ (by simp +contextual [List.mem_replicate])]
    simp
    omega

/-- Every row is as wide as `width` says. -/
theorem length_of_mem_render {tape : Tape} {marker line : List Char}
    (mem : line ∈ tape.render marker) : line.length = tape.width marker := by
  have space : tape.width (marker.map fun _ ↦ ' ') = tape.width marker := by simp [width]
  simp only [render, List.mem_append, List.mem_singleton] at mem
  rcases mem with (above | base) | below
  · split at above <;> simp_all [length_row_drawn]
  · rw [base, length_row_drawn]
  · split at below <;> simp_all [length_row_drawn]

end Multitape.Tape
