import Multitape.Proofs.Window
import Multitape.Tape.Render
import Mathlib.Data.List.Forall2

/-!
What the rows of a tape show. The cells that are drawn are those from the first to the last of the
window and the head (`drawn_eq`), so a row has a column for each of them and one in front of it
(`row_drawn`), and all rows have one width. Conversely a row tells its columns
(`forall₂_of_row_eq`): in the row of the bases a marker that is no space tells the head's cell as
well, and in the others a mark that is no space is told from none. A row of marks is left out only
if there are no such marks (`mark_eq_of_shown`), so the rows of a tape tell all that is drawn of it.
Both together are `rows_aligned_and_faithful`.
-/

set_option autoImplicit false
set_option relaxedAutoImplicit false

namespace Multitape.Tape

/-! ### The cells that are drawn -/

section Cells

variable (tape : Tape)

/-- The first cell that is drawn: the origin, or the head's if it is further to the left. -/
def leftmost : Int := min tape.head 0

/-- The last cell that is drawn: the last of the window, or the head's if it is further to the
right. -/
def rightmost : Int := max tape.head (tape.contents.length - 1)

/-- How many cells are drawn. -/
def breadth : Nat := (tape.rightmost + 1 - tape.leftmost).toNat

theorem breadth_eq : (tape.breadth : Int) =
    max tape.head (tape.contents.length - 1) - min tape.head 0 + 1 := by
  rw [breadth, leftmost, rightmost]
  omega

/-- The cells that are drawn, as the head sees them. -/
def shown : Focus :=
  match tape.window with
  | .inside focus => focus
  | .leftOf gap cells => ⟨[], tape.blank, List.replicate gap tape.blank ++ cells⟩
  | .rightOf cells gap => ⟨List.replicate gap tape.blank ++ cells, tape.blank, []⟩

variable (alphabet : Alphabet) (blank : Symbol)

@[simp] theorem shown_inside (f : Focus) : shown ⟨alphabet, blank, .inside f⟩ = f :=
  rfl

@[simp] theorem shown_leftOf (gap : Nat) (cells : List Symbol) :
    shown ⟨alphabet, blank, .leftOf gap cells⟩ =
      ⟨[], blank, List.replicate gap blank ++ cells⟩ :=
  rfl

@[simp] theorem shown_rightOf (cells : List Symbol) (gap : Nat) :
    shown ⟨alphabet, blank, .rightOf cells gap⟩ =
      ⟨List.replicate gap blank ++ cells, blank, []⟩ :=
  rfl

theorem drawn_eq_shown : tape.drawn =
    tape.shown.before.reverse.map (Drawn.mk false) ++
      ⟨true, tape.shown.here⟩ :: tape.shown.after.map (Drawn.mk false) := by
  obtain ⟨alphabet, blank, window⟩ := tape
  cases window <;> simp [drawn]

theorem besides_eq_shown :
    tape.besides = tape.shown.before.length + tape.shown.after.length := by
  obtain ⟨alphabet, blank, window⟩ := tape
  cases window <;> simp [besides, Nat.add_comm]

theorem seen_shown : tape.shown.seen tape.blank = tape.seen := by
  obtain ⟨alphabet, blank, window⟩ := tape
  cases window with
  | inside f => exact (seen_inside alphabet blank f).symm
  | rightOf cells gap => exact (seen_rightOf alphabet blank cells gap).symm
  | leftOf gap cells =>
    rw [seen_leftOf]
    cases cells with
    | cons s cells => rfl
    | nil =>
      -- A window without cells is widened by the origin, which is blank like all that is behind it.
      have hbehind : ∀ n i : Nat, (List.replicate n blank)[i]?.getD blank = blank := by
        intro n i
        rw [List.getElem?_replicate]
        split <;> rfl
      have hshown : shown ⟨alphabet, blank, .leftOf gap []⟩ =
          ⟨[], blank, List.replicate gap blank⟩ := by
        rw [shown_leftOf, List.append_nil]
      have hcover : (Window.leftOf gap []).cover blank =
          ⟨[], blank, List.replicate (gap + 1) blank⟩ := by
        rw [List.replicate_succ']
        rfl
      rw [hshown, hcover]
      funext z
      obtain rfl | ⟨i, rfl⟩ | ⟨i, rfl⟩ := here_or_right_or_left z
      · rfl
      · rw [Focus.seen_right, Focus.seen_right, hbehind, hbehind]
      · rfl

theorem first_of_shown : tape.head - (tape.shown.before.length : Int) = tape.leftmost := by
  obtain ⟨alphabet, blank, window⟩ := tape
  cases window with
  | inside f =>
    rw [leftmost, head_inside, shown_inside]
    omega
  | leftOf gap cells =>
    rw [leftmost, head_leftOf, shown_leftOf, List.length_nil]
    omega
  | rightOf cells gap =>
    rw [leftmost, head_rightOf, shown_rightOf, List.length_append, List.length_replicate]
    omega

theorem last_of_shown : tape.head + (tape.shown.after.length : Int) = tape.rightmost := by
  obtain ⟨alphabet, blank, window⟩ := tape
  cases window with
  | inside f =>
    rw [rightmost, head_inside, contents_inside, f.length_contents, shown_inside]
    omega
  | leftOf gap cells =>
    rw [rightmost, head_leftOf, contents_leftOf, shown_leftOf, List.length_append,
      List.length_replicate]
    omega
  | rightOf cells gap =>
    rw [rightmost, head_rightOf, contents_rightOf, List.length_reverse, shown_rightOf,
      List.length_nil]
    omega

theorem contents_shown : tape.shown.contents =
    stretch tape.cell tape.leftmost tape.rightmost := by
  have hseen : tape.seen = fun z ↦ tape.cell (tape.head + z) := rfl
  rw [Focus.contents_eq_stretch tape.blank, seen_shown, hseen, stretch_shift,
    ← Int.sub_eq_add_neg, first_of_shown, last_of_shown]

theorem breadth_eq_shown :
    tape.breadth = tape.shown.before.length + 1 + tape.shown.after.length := by
  have hlength := tape.shown.length_contents
  rw [contents_shown, length_stretch] at hlength
  exact hlength

theorem getElem?_drawn (i : Nat) : tape.drawn[i]? =
    tape.shown.contents[i]?.map (Drawn.mk (decide (i = tape.shown.before.length))) := by
  rw [drawn_eq_shown]
  obtain ⟨before, here, after⟩ := tape.shown
  rw [Focus.contents]
  obtain hleft | rfl | hright := Nat.lt_trichotomy i before.length
  · have hi : i < before.reverse.length := by rwa [List.length_reverse]
    rw [List.getElem?_append_left hi, List.getElem?_append_left (by rwa [List.length_map]),
      List.getElem?_map, decide_eq_false (Nat.ne_of_lt hleft)]
  · simp
  · obtain ⟨k, rfl⟩ := Nat.exists_eq_add_of_lt hright
    have hdrawn (as : List Drawn) (c : Drawn) : (before.reverse.map (Drawn.mk false) ++
        c :: as)[before.length + (k + 1)]? = as[k]? := by
      rw [List.getElem?_append_right (by simp)]
      simp
    have hcontents : (before.reverse ++ here :: after)[before.length + (k + 1)]? = after[k]? := by
      rw [List.getElem?_append_right (by simp)]
      simp
    have hbeside : ¬before.length + (k + 1) = before.length := by omega
    rw [Nat.add_assoc, hdrawn, hcontents, List.getElem?_map, decide_eq_false hbeside]

/-- What is drawn are the cells from the first to the last, and the head on its cell. -/
theorem drawn_eq : tape.drawn = (List.range tape.breadth).map fun i : Nat ↦
    ⟨decide (tape.leftmost + i = tape.head), tape.cell (tape.leftmost + i)⟩ := by
  have hfirst := tape.first_of_shown
  refine List.ext_getElem? fun i ↦ ?_
  have hhead : (i = tape.shown.before.length) ↔ (tape.leftmost + i = tape.head) := by omega
  rw [getElem?_drawn, contents_shown, stretch, List.getElem?_map, List.getElem?_map,
    Option.map_map, ← breadth]
  cases hi : (List.range tape.breadth)[i]? with
  | none => rfl
  | some j =>
    obtain rfl : j = i := by simpa using (List.getElem?_eq_some_iff.1 hi).2.symm
    simp only [Option.map_some, Function.comp_apply, hhead]

end Cells

/-! ### Rows -/

section Rows

variable (tape : Tape)

theorem row_cons (c : Drawn) (cells : List Drawn) (before : List Char) (part : Symbol → Char) :
    row (c :: cells) before part =
      (if c.underHead then before else [' ']) ++ part c.symbol :: row cells before part := by
  simp [row]

/-- A row has a column for each cell that is drawn, and one in front of it. -/
theorem row_drawn (before : List Char) (part : Symbol → Char) :
    row tape.drawn before part = (List.range tape.breadth).flatMap fun i : Nat ↦
      (if tape.leftmost + i = tape.head then before else [' ']) ++
        [part (tape.cell (tape.leftmost + i))] := by
  rw [row, drawn_eq, List.flatMap_map]
  simp only [decide_eq_true_eq]

theorem width_eq (marker : List Char) :
    (tape.width marker : Int) = 2 * tape.breadth - 1 + marker.length := by
  rw [width, besides_eq_shown, breadth_eq_shown]
  omega

theorem length_render (marker : List Char) : (tape.render marker).length = tape.height := by
  rw [height, Alphabet.height, render]
  cases tape.alphabet.hasAbove <;> cases tape.alphabet.hasBelow <;> rfl

theorem render_baseRow (marker : List Char) :
    (tape.render marker)[tape.baseRow]? = some (row tape.drawn marker Symbol.base) := by
  rw [baseRow, render]
  cases tape.alphabet.hasAbove <;> cases tape.alphabet.hasBelow <;> rfl

/-- A row with one character in front of each cell tells what it shows of the cells, and which is
the head's if that character is no space. -/
theorem forall₂_of_row_eq {mark : Char} {part : Symbol → Char} {cells cells' : List Drawn}
    (h : row cells [mark] part = row cells' [mark] part) :
    List.Forall₂ (fun c c' ↦ part c.symbol = part c'.symbol ∧
      (mark ≠ ' ' → c.underHead = c'.underHead)) cells cells' := by
  have hfront (b : Bool) : (if b then [mark] else [' ']) = [if b then mark else ' '] := by
    cases b <;> rfl
  have htells : mark ≠ ' ' → ∀ b b' : Bool,
      (if b then mark else ' ') = (if b' then mark else ' ') → b = b' := by
    intro hne b b'
    cases b <;> cases b' <;> simp [hne, hne.symm]
  induction cells generalizing cells' with
  | nil =>
    cases cells' with
    | nil => exact .nil
    | cons c' cells' => simp [row] at h
  | cons c cells ih =>
    cases cells' with
    | nil => simp [row] at h
    | cons c' cells' =>
      rw [row_cons, row_cons, hfront, hfront, List.singleton_append, List.singleton_append,
        List.cons.injEq, List.cons.injEq] at h
      obtain ⟨hmark, hpart, hrest⟩ := h
      exact .cons ⟨hpart, fun hne ↦ htells hne _ _ hmark⟩ (ih hrest)

end Rows

/-! ### What two tapes with the same rows have in common -/

section Faithful

variable {a b : Tape} {mark : Char}

theorem columns_of_row_eq {part : Symbol → Char}
    (h : row a.drawn [mark] part = row b.drawn [mark] part) :
    a.breadth = b.breadth ∧ ∀ i : Nat, i < a.breadth →
      part (a.cell (a.leftmost + i)) = part (b.cell (b.leftmost + i)) ∧
      (mark ≠ ' ' → (a.leftmost + i = a.head ↔ b.leftmost + i = b.head)) := by
  obtain ⟨hlength, hcolumn⟩ := List.forall₂_iff_get.1 (forall₂_of_row_eq h)
  have hbreadth : a.breadth = b.breadth := by
    simpa only [drawn_eq, List.length_map, List.length_range] using hlength
  refine ⟨hbreadth, fun i hi ↦ ?_⟩
  have hcell := hcolumn i (by rwa [drawn_eq, List.length_map, List.length_range])
    (by rwa [drawn_eq, List.length_map, List.length_range, ← hbreadth])
  simpa only [drawn_eq, List.get_eq_getElem, List.getElem_map, List.getElem_range,
    decide_eq_decide] using hcell

theorem rows_of_render_eq (halphabet : a.alphabet = b.alphabet)
    (h : a.render [mark] = b.render [mark]) :
    row a.drawn [mark] Symbol.base = row b.drawn [mark] Symbol.base ∧
    (a.alphabet.hasAbove = true → row a.drawn [' '] (fun s ↦ s.above.getD ' ') =
      row b.drawn [' '] fun s ↦ s.above.getD ' ') ∧
    (a.alphabet.hasBelow = true → row a.drawn [' '] (fun s ↦ s.below.getD ' ') =
      row b.drawn [' '] fun s ↦ s.below.getD ' ') := by
  simp only [render, ← halphabet, List.map_cons, List.map_nil] at h
  cases habove : a.alphabet.hasAbove <;> cases hbelow : a.alphabet.hasBelow <;>
    simp_all

/-- The blank and the symbols of the window are in the alphabet, and none has a space for a
mark. -/
structure Drawable (tape : Tape) : Prop where
  known : ∀ s ∈ tape.blank :: tape.contents, tape.alphabet.contains s = true
  unspaced : ∀ s ∈ tape.blank :: tape.contents, s.above ≠ some ' ' ∧ s.below ≠ some ' '

theorem cell_mem (tape : Tape) (z : Int) : tape.cell z ∈ tape.blank :: tape.contents := by
  cases z with
  | negSucc i => exact List.mem_cons_self
  | ofNat i =>
    change tape.contents[i]?.getD tape.blank ∈ _
    cases hi : tape.contents[i]? with
    | none => exact List.mem_cons_self
    | some s => exact List.mem_cons_of_mem _ (List.mem_of_getElem? hi)

/-- Marks that are no spaces are told by the characters that show them. -/
theorem eq_of_getD_eq {mark mark' : Option Char} (h : mark ≠ some ' ') (h' : mark' ≠ some ' ')
    (heq : mark.getD ' ' = mark'.getD ' ') : mark = mark' := by
  cases mark with
  | none =>
    cases mark' with
    | none => rfl
    | some c' => exact absurd (congrArg some heq.symm) h'
  | some c =>
    cases mark' with
    | none => exact absurd (congrArg some heq) h
    | some c' => exact congrArg some heq

/-- A row of marks is left out only if all symbols are without such a mark. -/
theorem mark_eq_of_shown {side : Symbol → Option Char} {symbols : List Symbol} {s s' : Symbol}
    (hs : s ∈ symbols) (hs' : s' ∈ symbols) (hmark : side s ≠ some ' ')
    (hmark' : side s' ≠ some ' ')
    (hshown : (symbols.any fun s ↦ (side s).isSome) = true →
      (side s).getD ' ' = (side s').getD ' ') : side s = side s' := by
  cases hany : symbols.any fun s ↦ (side s).isSome with
  | true => exact eq_of_getD_eq hmark hmark' (hshown hany)
  | false =>
    rw [List.any_eq_false] at hany
    have hnone : side s = none := by simpa using hany s hs
    have hnone' : side s' = none := by simpa using hany s' hs'
    rw [hnone, hnone']

theorem symbol_eq_of_shown {alphabet : Alphabet} {s s' : Symbol}
    (hs : alphabet.contains s = true) (hs' : alphabet.contains s' = true)
    (hmarks : s.above ≠ some ' ' ∧ s.below ≠ some ' ')
    (hmarks' : s'.above ≠ some ' ' ∧ s'.below ≠ some ' ') (hbase : s.base = s'.base)
    (habove : alphabet.hasAbove = true → s.above.getD ' ' = s'.above.getD ' ')
    (hbelow : alphabet.hasBelow = true → s.below.getD ' ' = s'.below.getD ' ') : s = s' := by
  have hmem : s ∈ alphabet.symbols := List.contains_iff_mem.1 hs
  have hmem' : s' ∈ alphabet.symbols := List.contains_iff_mem.1 hs'
  have habove' : s.above = s'.above := mark_eq_of_shown hmem hmem' hmarks.1 hmarks'.1 habove
  have hbelow' : s.below = s'.below := mark_eq_of_shown hmem hmem' hmarks.2 hmarks'.2 hbelow
  obtain ⟨base, above, below⟩ := s
  obtain ⟨base', above', below'⟩ := s'
  simp_all

end Faithful

/-- All rows of a tape line up. There are as many as `height` says, the one of the bases is where
`baseRow` says, and all are as wide as the cells from the first to the last need. And the rows tell
all that they show. If the symbols of two tapes are in one alphabet, none of them marked with a
space, and the tapes have the same rows with a marker of one character other than a space, then the
same number of cells is drawn of both, the head is at the same of these, and each of these cells
holds the same symbol. -/
theorem rows_aligned_and_faithful :
    (∀ (tape : Tape) (marker : List Char),
      (tape.render marker).length = tape.height ∧
      (tape.render marker)[tape.baseRow]? =
        some ((List.range tape.breadth).flatMap fun i : Nat ↦
          (if tape.leftmost + i = tape.head then marker else [' ']) ++
            [(tape.cell (tape.leftmost + i)).base]) ∧
      (tape.breadth : Int) = max tape.head (tape.contents.length - 1) - min tape.head 0 + 1 ∧
      ∀ line ∈ tape.render marker, (line.length : Int) = 2 * tape.breadth - 1 + marker.length) ∧
    ∀ (a b : Tape) (mark : Char), a.alphabet = b.alphabet → a.Drawable → b.Drawable →
      mark ≠ ' ' → a.render [mark] = b.render [mark] →
      a.breadth = b.breadth ∧ a.head - a.leftmost = b.head - b.leftmost ∧
      ∀ i : Nat, i < a.breadth → a.cell (a.leftmost + i) = b.cell (b.leftmost + i) := by
  refine ⟨fun tape marker ↦ ⟨tape.length_render marker, ?_, tape.breadth_eq, ?_⟩, ?_⟩
  · rw [render_baseRow, row_drawn]
  · intro line hline
    rw [length_of_mem_render hline, width_eq]
  · intro a b mark halphabet ha hb hmark h
    obtain ⟨hbase, habove, hbelow⟩ := rows_of_render_eq halphabet h
    obtain ⟨hbreadth, hcolumn⟩ := columns_of_row_eq hbase
    refine ⟨hbreadth, ?_, fun i hi ↦ ?_⟩
    · -- The marker stands in front of the head's cell in both rows of bases.
      have hfirst := a.first_of_shown
      have hhead := (hcolumn a.shown.before.length (by rw [breadth_eq_shown]; omega)).2 hmark
      omega
    · have hcell := a.cell_mem (a.leftmost + i)
      have hcell' := b.cell_mem (b.leftmost + i)
      exact symbol_eq_of_shown (ha.known _ hcell) (halphabet ▸ hb.known _ hcell')
        (ha.unspaced _ hcell) (hb.unspaced _ hcell') (hcolumn i hi).1
        (fun hrow ↦ ((columns_of_row_eq (habove hrow)).2 i hi).1)
        (fun hrow ↦ ((columns_of_row_eq (hbelow hrow)).2 i hi).1)

/-- A head that has strayed two cells to the left of the window is drawn as one on a window with two
blanks more, though the windows differ. The cells from the head on are the same. -/
theorem astray_drawn_as_wide :
    let zero : Symbol := ⟨'0', some '.', none⟩
    let one : Symbol := ⟨'1', none, some '^'⟩
    let tape := Tape.new (.ofList [.plain 'B', .plain '1', zero, one]) (.plain 'B')
    let wide := tape.reset [.plain 'B', .plain 'B', zero] 0
    let astray := tape.reset [zero] (-2)
    astray.render ['>'] = ["     .".toList, ">B B 0".toList, "      ".toList] ∧
      wide.render ['>'] = astray.render ['>'] ∧ wide.contents ≠ astray.contents ∧
      (∀ line ∈ astray.render ['=', '>'], (line.length : Int) = 7) ∧
      wide.breadth = astray.breadth ∧
      ∀ i : Nat, i < 3 → wide.cell (wide.leftmost + i) = astray.cell (astray.leftmost + i) := by
  intro zero one tape wide astray
  obtain ⟨haligned, hfaithful⟩ := rows_aligned_and_faithful
  have hwide : wide.Drawable := ⟨by decide, by decide⟩
  have hastray : astray.Drawable := ⟨by decide, by decide⟩
  have hrows : wide.render ['>'] = astray.render ['>'] := by decide
  obtain ⟨hbreadth, -, hcells⟩ := hfaithful wide astray '>' rfl hwide hastray (by decide) hrows
  exact ⟨by decide, hrows, by decide, (haligned astray ['=', '>']).2.2.2, hbreadth, hcells⟩

end Multitape.Tape
