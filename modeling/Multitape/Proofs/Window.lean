import Multitape.Machine
import Multitape.Proofs.Tape

/-!
How far the window of a tape reaches. A window with the head inside is the stretch of cells from its
first to its last, as the head counts them (`Focus.contents_eq_stretch`). To cover the head, a
window is widened up to the head and no further (`Tape.first_of_view`, `Tape.last_of_view`), and a
move widens it by what the head leaves it by (`Focus.first_of_act`, `Focus.last_of_act`). Put
together, an instruction leaves the least window that has the old one in it, the cell that is
written and the cell to which the head goes (`apply_least_window`).
-/

set_option autoImplicit false
set_option relaxedAutoImplicit false

namespace Multitape

/-! ### Stretches of cells -/

/-- The symbols from one cell to another, both included. -/
def stretch (cells : Int → Symbol) (first last : Int) : List Symbol :=
  (List.range (last + 1 - first).toNat).map fun i : Nat ↦ cells (first + i)

@[simp] theorem length_stretch (cells : Int → Symbol) (first last : Int) :
    (stretch cells first last).length = (last + 1 - first).toNat := by
  simp [stretch]

theorem getElem?_stretch (cells : Int → Symbol) {first last : Int} {i : Nat}
    (h : first + i ≤ last) : (stretch cells first last)[i]? = some (cells (first + i)) := by
  have hi : i < (last + 1 - first).toNat := by omega
  rw [stretch, List.getElem?_map, List.getElem?_range hi, Option.map_some]

/-- Cells counted from another place. -/
theorem stretch_shift (cells : Int → Symbol) (place first last : Int) :
    stretch (fun z ↦ cells (place + z)) first last =
      stretch cells (place + first) (place + last) := by
  have hlength : (place + last + 1 - (place + first)).toNat = (last + 1 - first).toNat := by omega
  rw [stretch, stretch, hlength]
  refine List.map_congr_left fun i _ ↦ ?_
  rw [Int.add_assoc]

/-! ### Windows with the head inside -/

namespace Focus

variable (blank : Symbol) (f : Focus)

theorem length_contents : f.contents.length = f.before.length + 1 + f.after.length := by
  rw [contents, List.length_append, List.length_reverse, List.length_cons]
  omega

/-- The cells of a window are those from its first to its last, as the head counts them. -/
theorem contents_eq_stretch :
    f.contents = stretch (f.seen blank) (-f.before.length) f.after.length := by
  have hlength := f.length_contents
  refine List.ext_getElem? fun i ↦ ?_
  by_cases hin : i < f.contents.length
  · rw [getElem?_stretch _ (by omega)]
    obtain hleft | rfl | hright := Nat.lt_trichotomy i f.before.length
    · obtain ⟨k, hk⟩ : ∃ k, i + k + 1 = f.before.length := ⟨f.before.length - 1 - i, by omega⟩
      have hplace : i = f.before.length - 1 - k := by omega
      have hcell : -(f.before.length : Int) + i = .negSucc k := by omega
      rw [hcell, seen_left, hplace, f.getElem?_contents_left (by omega),
        List.getElem?_eq_getElem (by omega), Option.getD_some]
    · have hcell : -(f.before.length : Int) + f.before.length = 0 := by omega
      rw [f.getElem?_contents_here, hcell, seen_zero]
    · obtain ⟨k, rfl⟩ : ∃ k, i = f.before.length + (k + 1) :=
        ⟨i - f.before.length - 1, by omega⟩
      have hcell : -(f.before.length : Int) + (f.before.length + (k + 1) : Nat) = k + 1 := by omega
      rw [f.getElem?_contents_right, hcell, seen_right, List.getElem?_eq_getElem (by omega),
        Option.getD_some]
  · rw [List.getElem?_eq_none (by omega), List.getElem?_eq_none]
    rw [length_stretch]
    omega

variable (output : Symbol) (d : Direction)

/-- A move widens the window to the left if the head leaves it there. -/
theorem first_of_act : d.offset - ((f.act blank output d).before.length : Int) =
    min (-(f.before.length : Int)) d.offset := by
  obtain ⟨before, here, after⟩ := f
  cases d <;> cases before <;> cases after
  all_goals
    simp only [act, move, Direction.offset, List.length_cons, List.length_nil]
    omega

/-- A move widens the window to the right if the head leaves it there. -/
theorem last_of_act : d.offset + ((f.act blank output d).after.length : Int) =
    max (f.after.length : Int) d.offset := by
  obtain ⟨before, here, after⟩ := f
  cases d <;> cases before <;> cases after
  all_goals
    simp only [act, move, Direction.offset, List.length_cons, List.length_nil]
    omega

end Focus

/-! ### Tapes -/

namespace Tape

/-- How many cells from the origin on the window has when it covers the head. To the left of an
empty window lies the origin, which then belongs to it. -/
def extent (tape : Tape) : Nat :=
  if tape.contents.length = 0 ∧ tape.head < 0 then 1 else tape.contents.length

theorem first_of_view (tape : Tape) :
    tape.head - (tape.view.before.length : Int) = min 0 tape.head := by
  obtain ⟨alphabet, blank, window⟩ := tape
  cases window with
  | inside f =>
    rw [head_inside, view, Window.cover]
    omega
  | leftOf gap cells =>
    rw [head_leftOf, view, Window.cover, List.length_nil]
    omega
  | rightOf cells gap =>
    rw [head_rightOf, view, Window.cover, List.length_append, List.length_replicate]
    omega

theorem last_of_view (tape : Tape) :
    tape.head + (tape.view.after.length : Int) = max (tape.extent - 1 : Int) tape.head := by
  obtain ⟨alphabet, blank, window⟩ := tape
  cases window with
  | inside f =>
    rw [extent, head_inside, contents_inside, f.length_contents, if_neg (by omega), view,
      Window.cover]
    omega
  | leftOf gap cells =>
    rw [extent, head_leftOf, contents_leftOf, view, Window.cover, List.length_append,
      List.length_replicate]
    cases cells with
    | nil =>
      simp only [List.length_nil, List.isEmpty_nil, Int.negSucc_lt_zero, and_self, if_true,
        List.length_singleton]
      omega
    | cons s cells =>
      simp only [List.length_cons, List.isEmpty_cons, Nat.add_one_ne_zero, false_and, if_false,
        Bool.false_eq_true]
      omega
  | rightOf cells gap =>
    rw [extent, head_rightOf, contents_rightOf, List.length_reverse, if_neg (by omega), view,
      Window.cover, List.length_nil]
    omega

variable (tape : Tape) (output : Symbol) (d : Direction)

theorem head_act : (tape.act output d).head =
    ((tape.view.act tape.blank output d).before.length : Int) :=
  rfl

theorem contents_act_eq : (tape.act output d).contents =
    (tape.view.act tape.blank output d).contents :=
  rfl

/-- The first cell of the window that an instruction leaves, counted as before it. -/
theorem first_of_act : tape.head + d.offset - (tape.act output d).head =
    min 0 (min tape.head (tape.head + d.offset)) := by
  have hview := tape.first_of_view
  have hact := tape.view.first_of_act tape.blank output d
  have hhead := tape.head_act output d
  omega

theorem contents_act : (tape.act output d).contents =
    stretch (Function.update tape.cell tape.head output)
      (min 0 (min tape.head (tape.head + d.offset)))
      (max (tape.extent - 1 : Int) (max tape.head (tape.head + d.offset))) := by
  have hfirst := tape.first_of_view
  have hlast := tape.last_of_view
  have hfirst' := tape.view.first_of_act tape.blank output d
  have hlast' := tape.view.last_of_act tape.blank output d
  have hseen : (tape.view.act tape.blank output d).seen tape.blank = fun z ↦
      Function.update tape.cell tape.head output (tape.head + d.offset + z) := by
    have hinside : (tape.act output d).seen = (tape.view.act tape.blank output d).seen tape.blank :=
      seen_inside tape.alphabet tape.blank _
    funext z
    rw [← hinside, seen_act]
    by_cases hz : z + d.offset = 0
    · rw [hz, Function.update_self, show tape.head + d.offset + z = tape.head by omega,
        Function.update_self]
    · rw [Function.update_of_ne hz, Function.update_of_ne (by omega), seen]
      congr 1
      omega
  rw [contents_act_eq, Focus.contents_eq_stretch tape.blank, hseen, stretch_shift]
  congr 1 <;> omega

theorem head_act_mem_window :
    0 ≤ (tape.act output d).head ∧
      (tape.act output d).head < (tape.act output d).contents.length := by
  have hlength := (tape.view.act tape.blank output d).length_contents
  rw [head_act, contents_act_eq]
  omega

/-- A tape takes an instruction exactly if the symbol to be read is under its head and the one to be
written is in its alphabet. Its cells are then what they were, but for the one that is written, and
its window is the least one that has in it the old window, which starts at the origin, the cell that
is written and the cell to which the head goes. The head is in that window. A tape that does not
take its instruction stays as it is. -/
theorem apply_least_window (tape : Tape) (input output : Symbol) (d : Direction) :
    let target := tape.head + d.offset
    let first := min 0 (min tape.head target)
    let last := max (tape.extent - 1 : Int) (max tape.head target)
    ((∃ next, tape.apply input output d = .ok next) ↔
      tape.current = input ∧ tape.alphabet.contains output = true) ∧
    (∀ next, tape.apply input output d = .ok next →
      next.contents = stretch (Function.update tape.cell tape.head output) first last ∧
      next.head = target - first ∧ 0 ≤ next.head ∧ next.head < next.contents.length ∧
      next.alphabet = tape.alphabet ∧ next.blank = tape.blank) ∧
    ∀ refusal, tape.apply input output d = .error refusal →
      ∀ index instructions tapes,
        Machine.applyAll index (⟨input, output, d⟩ :: instructions) (tape :: tapes) =
          (tape :: tapes, some (index, refusal)) := by
  intro target first last
  refine ⟨?_, fun next h ↦ ?_, fun refusal h index instructions tapes ↦ ?_⟩
  · constructor
    · rintro ⟨next, h⟩
      obtain ⟨hread, hwrite, -⟩ := apply_eq_ok_iff.1 h
      exact ⟨hread, hwrite⟩
    · rintro ⟨hread, hwrite⟩
      exact ⟨_, apply_eq_ok_iff.2 ⟨hread, hwrite, rfl⟩⟩
  · obtain ⟨-, -, rfl⟩ := apply_eq_ok_iff.1 h
    have hfirst := tape.first_of_act output d
    obtain ⟨hleft, hright⟩ := tape.head_act_mem_window output d
    refine ⟨tape.contents_act output d, ?_, hleft, hright, rfl, rfl⟩
    change (tape.act output d).head = tape.head + d.offset -
      min 0 (min tape.head (tape.head + d.offset))
    omega
  · simp only [Machine.applyAll, h]

/-- An empty window with the head two cells to the left of the origin. The window that is left
reaches from the cell where the head goes to the origin. -/
theorem astray_least_window :
    let astray := (Tape.new (.binaryWith (.plain 'B')) (.plain 'B')).reset [] (-2)
    ∃ next, astray.apply (.plain 'B') (.plain '1') .left = .ok next ∧
      next.contents = [.plain 'B', .plain '1', .plain 'B', .plain 'B'] ∧ next.head = 0 := by
  intro astray
  obtain ⟨hsucceeds, hwindow, -⟩ := apply_least_window astray (.plain 'B') (.plain '1') .left
  obtain ⟨next, hnext⟩ := hsucceeds.2 ⟨rfl, by decide⟩
  obtain ⟨hcontents, hhead, -⟩ := hwindow next hnext
  exact ⟨next, hnext, hcontents, hhead⟩

end Tape

end Multitape
