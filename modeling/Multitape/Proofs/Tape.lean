import Multitape.Tape
import Mathlib.Logic.Function.Basic

/-!
A tape as its head sees it. `Tape.seen` counts cells from the head, so that it says nothing about
the window, whose cells are counted anew whenever it grows to the left. Widening the window does not
change what is seen (`seen_eq_view`), writing changes the cell at zero (`Focus.seen_write`) and a
move shifts everything (`Focus.seen_move`). `apply_eq_ok_iff` says when a tape takes an instruction,
and `seen_act` what is then seen.
-/

set_option autoImplicit false
set_option relaxedAutoImplicit false

namespace Multitape

/-- Seen from the head, a cell is the head's own, to its right or to its left. -/
theorem here_or_right_or_left (z : Int) :
    z = 0 ∨ (∃ i : Nat, z = i + 1) ∨ ∃ i, z = .negSucc i := by
  cases z with
  | negSucc i => exact .inr (.inr ⟨i, rfl⟩)
  | ofNat i =>
    cases i with
    | zero => exact .inl rfl
    | succ i => exact .inr (.inl ⟨i, rfl⟩)

/-! ### Windows with the head inside -/

namespace Focus

variable (blank : Symbol) (f : Focus)

/-- The symbol so many cells to the right of the head. -/
def seen (f : Focus) : Int → Symbol
  | .ofNat 0 => f.here
  | .ofNat (i + 1) => f.after[i]?.getD blank
  | .negSucc i => f.before[i]?.getD blank

@[simp] theorem seen_zero : f.seen blank 0 = f.here := rfl

@[simp] theorem seen_right (i : Nat) : f.seen blank (i + 1) = f.after[i]?.getD blank := rfl

@[simp] theorem seen_left (i : Nat) : f.seen blank (.negSucc i) = f.before[i]?.getD blank := rfl

theorem seen_write (s : Symbol) :
    ({ f with here := s } : Focus).seen blank = Function.update (f.seen blank) 0 s := by
  funext z
  obtain rfl | ⟨i, rfl⟩ | ⟨i, rfl⟩ := here_or_right_or_left z
  · simp
  · rw [Function.update_of_ne (by omega)]
    simp
  · rw [Function.update_of_ne (by omega)]
    simp

/-- The window with a symbol written under the head, and the head moved. -/
def act (output : Symbol) (d : Direction) : Focus := move blank { f with here := output } d

theorem seen_move (d : Direction) (z : Int) :
    (f.move blank d).seen blank z = f.seen blank (z + d.offset) := by
  obtain ⟨before, here, after⟩ := f
  cases d with
  | stay =>
    rw [Direction.offset, Int.add_zero]
    rfl
  | right =>
    obtain rfl | ⟨i, rfl⟩ | ⟨i, rfl⟩ := here_or_right_or_left z
    · cases after <;> rfl
    · cases after <;> rfl
    · cases i with
      | zero => cases after <;> rfl
      | succ i =>
        have hoffset : Int.negSucc (i + 1) + Direction.offset .right = .negSucc i := rfl
        rw [hoffset, seen_left, seen_left]
        cases after <;> rfl
  | left =>
    obtain rfl | ⟨i, rfl⟩ | ⟨i, rfl⟩ := here_or_right_or_left z
    · cases before <;> rfl
    · cases i with
      | zero => cases before <;> rfl
      | succ i =>
        have hoffset : ((i + 1 : Nat) + 1 : Int) + Direction.offset .left = i + 1 := by
          rw [Direction.offset]
          omega
        rw [hoffset, seen_right, seen_right]
        cases before <;> rfl
    · have hoffset : Int.negSucc i + Direction.offset .left = .negSucc (i + 1) := rfl
      rw [hoffset, seen_left, seen_left]
      cases before <;> rfl

/-! The cells of the window, counted from its left end. -/

theorem getElem?_contents_here : f.contents[f.before.length]? = some f.here := by
  simp [contents]

theorem getElem?_contents_right (i : Nat) :
    f.contents[f.before.length + (i + 1)]? = f.after[i]? := by
  simp [contents, List.getElem?_append_right]

theorem getElem?_contents_left {i : Nat} (h : i < f.before.length) :
    f.contents[f.before.length - 1 - i]? = f.before[i]? := by
  have hin : f.before.length - 1 - i < f.before.reverse.length := by
    rw [List.length_reverse]
    omega
  rw [contents, List.getElem?_append_left hin, List.getElem?_reverse (by omega)]
  congr 1
  omega

end Focus

/-! ### Tapes -/

namespace Tape

variable {tape next : Tape} {input output : Symbol} {d : Direction}

/-- The symbol so many cells to the right of the head. -/
def seen (tape : Tape) (z : Int) : Symbol := tape.cell (tape.head + z)

theorem seen_zero (tape : Tape) : tape.seen 0 = tape.current := by
  rw [seen, Int.add_zero, current_eq_cell]

/-- The cells of a tape are what is seen, counted from the window instead. -/
theorem cell_eq_seen (tape : Tape) (z : Int) : tape.cell z = tape.seen (z - tape.head) := by
  rw [seen]
  congr 1
  omega

theorem cell_of_neg {z : Int} (h : z < 0) : tape.cell z = tape.blank := by
  obtain ⟨i, rfl⟩ := Int.eq_negSucc_of_lt_zero h
  rfl

theorem cell_of_eq {z : Int} {i : Nat} (h : z = i) :
    tape.cell z = (tape.contents[i]?).getD tape.blank := by
  rw [h]
  rfl

variable (alphabet : Alphabet) (blank : Symbol)

theorem head_inside (f : Focus) : head ⟨alphabet, blank, .inside f⟩ = (f.before.length : Int) :=
  rfl

theorem contents_inside (f : Focus) : contents ⟨alphabet, blank, .inside f⟩ = f.contents :=
  rfl

theorem head_leftOf (gap : Nat) (cells : List Symbol) :
    head ⟨alphabet, blank, .leftOf gap cells⟩ = .negSucc gap :=
  rfl

theorem contents_leftOf (gap : Nat) (cells : List Symbol) :
    contents ⟨alphabet, blank, .leftOf gap cells⟩ = cells :=
  rfl

theorem head_rightOf (cells : List Symbol) (gap : Nat) :
    head ⟨alphabet, blank, .rightOf cells gap⟩ = (cells.length + gap : Nat) :=
  rfl

theorem contents_rightOf (cells : List Symbol) (gap : Nat) :
    contents ⟨alphabet, blank, .rightOf cells gap⟩ = cells.reverse :=
  rfl

theorem seen_inside (f : Focus) : seen ⟨alphabet, blank, .inside f⟩ = f.seen blank := by
  have hhead := head_inside alphabet blank f
  funext z
  rw [seen]
  obtain rfl | ⟨i, rfl⟩ | ⟨i, rfl⟩ := here_or_right_or_left z
  · rw [cell_of_eq (i := f.before.length) (by omega), contents_inside, f.getElem?_contents_here]
    rfl
  · rw [cell_of_eq (i := f.before.length + (i + 1)) (by omega), contents_inside,
      f.getElem?_contents_right]
    rfl
  · rw [Focus.seen_left]
    by_cases hin : i < f.before.length
    · rw [cell_of_eq (i := f.before.length - 1 - i) (by omega), contents_inside,
        f.getElem?_contents_left hin]
    · rw [cell_of_neg (by omega), List.getElem?_eq_none (Nat.le_of_not_lt hin)]
      rfl

theorem seen_leftOf (gap : Nat) (cells : List Symbol) :
    seen ⟨alphabet, blank, .leftOf gap cells⟩ =
      ((Window.leftOf gap cells).cover blank).seen blank := by
  have hhead := head_leftOf alphabet blank gap cells
  funext z
  rw [seen]
  obtain rfl | ⟨i, rfl⟩ | ⟨i, rfl⟩ := here_or_right_or_left z
  · rw [cell_of_neg (by omega)]
    rfl
  · rw [Focus.seen_right, Window.cover]
    by_cases hin : i < gap
    · rw [cell_of_neg (by omega), List.getElem?_append_left (by simpa using hin),
        List.getElem?_replicate_of_lt hin]
      rfl
    · rw [cell_of_eq (i := i - gap) (by omega), contents_leftOf,
        List.getElem?_append_right (by simpa using hin), List.length_replicate]
      cases cells with
      | nil => cases i - gap <;> rfl
      | cons s cells => rfl
  · rw [cell_of_neg (by omega)]
    rfl

theorem seen_rightOf (cells : List Symbol) (gap : Nat) :
    seen ⟨alphabet, blank, .rightOf cells gap⟩ =
      ((Window.rightOf cells gap).cover blank).seen blank := by
  have hhead := head_rightOf alphabet blank cells gap
  have hbehind : ∀ i, cells.reverse[cells.length + gap + i]? = none := fun i ↦
    List.getElem?_eq_none (by rw [List.length_reverse]; omega)
  funext z
  rw [seen]
  obtain rfl | ⟨i, rfl⟩ | ⟨i, rfl⟩ := here_or_right_or_left z
  · rw [cell_of_eq (i := cells.length + gap + 0) (by omega), contents_rightOf, hbehind]
    rfl
  · rw [cell_of_eq (i := cells.length + gap + (i + 1)) (by omega), contents_rightOf, hbehind]
    rfl
  · rw [Focus.seen_left, Window.cover]
    by_cases hgap : i < gap
    · rw [cell_of_eq (i := cells.length + gap - 1 - i) (by omega), contents_rightOf,
        List.getElem?_append_left (by simpa using hgap), List.getElem?_replicate_of_lt hgap,
        List.getElem?_eq_none (by rw [List.length_reverse]; omega)]
      rfl
    · rw [List.getElem?_append_right (by simpa using hgap), List.length_replicate]
      by_cases hin : i - gap < cells.length
      · rw [cell_of_eq (i := cells.length - 1 - (i - gap)) (by omega), contents_rightOf,
          List.getElem?_reverse (by omega)]
        congr 2
        omega
      · rw [cell_of_neg (by omega), List.getElem?_eq_none (Nat.le_of_not_lt hin)]
        rfl

/-- The window of the tape, widened until the head is inside. -/
def view (tape : Tape) : Focus := tape.window.cover tape.blank

/-- Before it takes an instruction, a tape widens its window until the head is inside. Nothing that
is seen depends on whether it has done so. -/
theorem seen_eq_view (tape : Tape) : tape.seen = tape.view.seen tape.blank := by
  obtain ⟨alphabet, blank, window⟩ := tape
  cases window with
  | inside f => exact seen_inside alphabet blank f
  | leftOf gap cells => exact seen_leftOf alphabet blank gap cells
  | rightOf cells gap => exact seen_rightOf alphabet blank cells gap

theorem current_eq_view (tape : Tape) : tape.current = tape.view.here := by
  rw [← seen_zero, seen_eq_view, Focus.seen_zero]

/-! ### Instructions -/

/-- The tape with a symbol written under the head, and the head moved. -/
def act (tape : Tape) (output : Symbol) (d : Direction) : Tape :=
  { tape with window := .inside (tape.view.act tape.blank output d) }

@[simp] theorem alphabet_act (tape : Tape) (output : Symbol) (d : Direction) :
    (tape.act output d).alphabet = tape.alphabet :=
  rfl

@[simp] theorem blank_act (tape : Tape) (output : Symbol) (d : Direction) :
    (tape.act output d).blank = tape.blank :=
  rfl

/-- The cell under the head is written, and then the head sees the cells from where it has moved. -/
theorem seen_act (tape : Tape) (output : Symbol) (d : Direction) (z : Int) :
    (tape.act output d).seen z = Function.update tape.seen 0 output (z + d.offset) := by
  rw [act, seen_inside, Focus.act, Focus.seen_move, Focus.seen_write, ← seen_eq_view]

/-- A tape takes an instruction if the symbol to be read is under the head and the one to be written
is in the alphabet. -/
theorem apply_eq_ok_iff : tape.apply input output d = .ok next ↔
    tape.current = input ∧ tape.alphabet.contains output = true ∧ next = tape.act output d := by
  by_cases hread : tape.current = input
  · by_cases hwrite : tape.alphabet.contains output = true
    · simp [apply, act, view, Focus.act, hread, hwrite, eq_comm]
    · simp [apply, hread, hwrite]
  · simp [apply, hread]

/-- An instruction that reads what is there is refused only for the symbol to be written. -/
theorem apply_current (tape : Tape) (output : Symbol) (d : Direction) :
    tape.apply tape.current output d =
      if tape.alphabet.contains output then .ok (tape.act output d)
      else .error (.foreign output tape.alphabet) := by
  simp [apply, act, view, Focus.act]

end Tape

end Multitape
