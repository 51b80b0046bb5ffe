import Multitape.Machine.Render
import Multitape.Proofs.Drawing
import Multitape.Proofs.Except

/-!
The lines of a configuration. The symbol of a cell stands in a column of its own, which depends on
the cell and on how wide the marker is (`column`), and in which every row of the tape shows its part
of the symbol (`getElem?_row_column`, `getElem?_render`). A line is a row behind a label, and the
labels of a machine are all equally wide, however long the name of the state (`Labelled`), so the
columns of a tape stay columns (`configuration_in_columns`). The configuration is refused exactly if
some row is too wide, and then the width of the first such tape is told.
-/

set_option autoImplicit false
set_option relaxedAutoImplicit false

namespace Multitape

namespace Tape

variable (tape : Tape)

/-! ### Rows -/

/-- The place in every row of the symbol of a drawn cell, counted from the first one, beside a
marker of the given width. -/
def column (markerWidth j : Nat) : Nat :=
  2 * j + if tape.leftmost + j < tape.head then 1 else markerWidth

/-- What the row with the given number shows of a symbol. -/
def part (i : Nat) (s : Symbol) : Char :=
  if i < tape.baseRow then s.above.getD ' '
  else if i = tape.baseRow then s.base
  else s.below.getD ' '

/-- The places of a drawn cell: one for its symbol, and before it the marker or a space. -/
def places (before : List Char) (part : Symbol → Char) (i : Nat) : List Char :=
  (if tape.leftmost + i = tape.head then before else [' ']) ++
    [part (tape.cell (tape.leftmost + i))]

/-- From one column to the next lie the symbol of the one cell and what stands before the other. -/
theorem column_succ (markerWidth j : Nat) : tape.column markerWidth (j + 1) =
    tape.column markerWidth j + 1 +
      if tape.leftmost + (j + 1 : Nat) = tape.head then markerWidth else 1 := by
  have hnext : tape.leftmost + (j + 1 : Nat) = tape.leftmost + j + 1 := by omega
  rw [column, column, hnext]
  obtain hright | hhead | hleft := Int.lt_trichotomy (tape.leftmost + j + 1) tape.head
  · rw [if_pos hright, if_pos (by omega), if_neg (by omega)]
    omega
  · rw [if_neg (by omega), if_pos (by omega), if_pos hhead]
    omega
  · rw [if_neg (by omega), if_neg (by omega), if_neg (by omega)]
    omega

/-- Up to the symbol of a cell stand the cells in front of it and what is before the symbol. -/
theorem length_flatMap_places (before : List Char) (part : Symbol → Char) (j : Nat) :
    ((List.range j).flatMap (tape.places before part)).length +
      (if tape.leftmost + j = tape.head then before.length else 1) =
        tape.column before.length j := by
  induction j with
  | zero =>
    have hfirst : tape.leftmost ≤ tape.head := by
      rw [leftmost]
      omega
    rw [List.range_zero, List.flatMap_nil, List.length_nil, column]
    split_ifs <;> omega
  | succ j ih =>
    rw [List.range_succ, List.flatMap_append, List.length_append, List.flatMap_singleton, places,
      List.length_append, List.length_singleton, apply_ite List.length, List.length_singleton,
      ← Nat.add_assoc, ih, ← column_succ]

/-- A row shows its part of the symbol of a cell in the column of the cell. -/
theorem getElem?_row_column {j : Nat} (hj : j < tape.breadth) (before : List Char)
    (part : Symbol → Char) : (row tape.drawn before part)[tape.column before.length j]? =
      some (part (tape.cell (tape.leftmost + j))) := by
  obtain ⟨later, hbreadth⟩ := Nat.exists_eq_add_of_lt hj
  have hrow : row tape.drawn before part = (List.range j).flatMap (tape.places before part) ++
      (tape.places before part j ++
        ((List.range later).map (j + 1 + ·)).flatMap (tape.places before part)) := by
    rw [row_drawn, hbreadth, Nat.add_right_comm, List.range_add, List.range_succ,
      List.flatMap_append, List.flatMap_append, List.append_assoc, List.flatMap_singleton]
    rfl
  have hplace : tape.column before.length j =
      ((List.range j).flatMap (tape.places before part)).length +
        (if tape.leftmost + j = tape.head then before else [' ']).length := by
    rw [apply_ite List.length, List.length_singleton, length_flatMap_places]
  rw [hrow, hplace, List.getElem?_append_right (Nat.le_add_right _ _), Nat.add_sub_cancel_left,
    places, List.append_assoc, List.getElem?_append_right (Nat.le_refl _), Nat.sub_self]
  rfl

/-- A row of the tape, by its number: the marker stands in the row of the bases only. -/
theorem getElem?_render {marker line : List Char} {i : Nat}
    (h : (tape.render marker)[i]? = some line) : line = row tape.drawn
      (if i = tape.baseRow then marker else marker.map fun _ ↦ ' ') (tape.part i) := by
  have habove (above : List Char) :
      (if tape.alphabet.hasAbove then [above] else []).length = tape.baseRow := by
    rw [baseRow]
    cases tape.alphabet.hasAbove <;> rfl
  have hsole {shown : Bool} {only : List Char} {k : Nat}
      (hline : (if shown then [only] else [])[k]? = some line) : line = only := by
    cases shown with
    | false => cases hline
    | true => exact List.mem_singleton.1 (List.mem_of_getElem? hline)
  obtain hbefore | rfl | hbehind := Nat.lt_trichotomy i tape.baseRow
  · have hpart : tape.part i = fun s ↦ s.above.getD ' ' := funext fun s ↦ if_pos hbefore
    rw [render, List.append_assoc, List.getElem?_append_left (by rwa [habove])] at h
    rw [if_neg (Nat.ne_of_lt hbefore), hpart]
    exact hsole h
  · have hpart : tape.part tape.baseRow = Symbol.base :=
      funext fun s ↦ (if_neg (Nat.lt_irrefl _)).trans (if_pos rfl)
    rw [render_baseRow] at h
    rw [if_pos rfl, hpart]
    exact (Option.some.inj h).symm
  · have hpart : tape.part i = fun s ↦ s.below.getD ' ' :=
      funext fun s ↦ (if_neg (Nat.lt_asymm hbehind)).trans (if_neg (Nat.ne_of_gt hbehind))
    rw [render, List.getElem?_append_right (by
      rw [List.length_append, habove]
      exact hbehind)] at h
    rw [if_neg (Nat.ne_of_gt hbehind), hpart]
    exact hsole h

/-! ### Widths -/

/-- Some row of the tape is longer than the limit. -/
def Exceeds (tape : Tape) (marker : List Char) (limit : Nat) : Prop :=
  ∃ line ∈ tape.render marker, limit < line.length

variable {tape}

theorem exceeds_iff {marker : List Char} {limit : Nat} :
    tape.Exceeds marker limit ↔ limit < tape.width marker := by
  constructor
  · rintro ⟨line, hline, hwide⟩
    rwa [length_of_mem_render hline] at hwide
  · intro hwide
    have hbase := List.mem_of_getElem? (tape.render_baseRow marker)
    exact ⟨_, hbase, by rwa [length_of_mem_render hbase]⟩

end Tape

namespace Machine

variable {m : Machine} {limit : Nat} {tape : Tape} {k i : Nat}

/-! ### Labels -/

/-- What stands in front of a row, in front of the space that parts them: the state beside the bases
of the first tape, and nothing but spaces beside every other row, always in as many places. -/
structure Labelled (m : Machine) (tape : Tape) (k i : Nat) (label : List Char) : Prop where
  width : label.length = max 6 m.state.toList.length
  state : k = 0 ∧ i = tape.baseRow → ∃ n, label = m.state.toList ++ List.replicate n ' '
  blank : ¬ (k = 0 ∧ i = tape.baseRow) → ∀ c ∈ label, c = ' '

theorem length_padTo (width : Nat) (text : List Char) :
    (padTo width text).length = max width text.length := by
  rw [padTo, List.length_append, List.length_replicate]
  omega

theorem labelled (m : Machine) (tape : Tape) (k i : Nat) :
    m.Labelled tape k i (padTo 6 (if k = 0 ∧ i = tape.baseRow then m.state.toList
      else m.state.toList.map fun _ ↦ ' ')) where
  width := by
    rw [length_padTo]
    split_ifs
    · rfl
    · rw [List.length_map]
  state h := by
    rw [if_pos h]
    exact ⟨_, rfl⟩
  blank h c hc := by
    rw [if_neg h, padTo, List.mem_append, List.mem_map] at hc
    rcases hc with ⟨_, -, rfl⟩ | hc
    · rfl
    · exact List.eq_of_mem_replicate hc

/-- Behind the label and the space the row follows. -/
theorem getElem?_behind_label {label : List Char} (h : m.Labelled tape k i label) (row : List Char)
    (place : Nat) :
    (label ++ ' ' :: row)[max 6 m.state.toList.length + 1 + place]? = row[place]? := by
  rw [← h.width, List.getElem?_append_right (by omega)]
  have hplace : label.length + 1 + place - label.length = place + 1 := by omega
  rw [hplace, List.getElem?_cons_succ]

/-! ### Lines -/

theorem tapeLines_eq_error_iff {fault : TooWide} : m.tapeLines limit tape k = .error fault ↔
    tape.Exceeds m.marker.toList limit ∧ fault = ⟨tape.width m.marker.toList, limit⟩ := by
  rw [Tape.exceeds_iff, tapeLines]
  split_ifs with hwide
  · simp [hwide, eq_comm]
  · simp [hwide]

theorem tapeLines_eq_ok_iff {block : List String} : m.tapeLines limit tape k = .ok block ↔
    ¬ tape.Exceeds m.marker.toList limit ∧
      block = (tape.render m.marker.toList).zipIdx.map fun (row, i) ↦
        line (if k = 0 ∧ i = tape.baseRow then m.state.toList
          else m.state.toList.map fun _ ↦ ' ') row := by
  rw [Tape.exceeds_iff, tapeLines]
  split_ifs with hwide
  · simp [hwide]
  · simp [hwide, eq_comm]

theorem render_eq_ok_iff {lines : List String} : m.render limit = .ok lines ↔
    ∃ blocks, (m.tapes.zipIdx.mapM fun (tape, number) ↦ m.tapeLines limit tape number) =
      .ok blocks ∧ blocks.flatten = lines := by
  unfold render
  rw [bind_eq_ok_iff]
  simp only [pure, Except.pure, Except.ok.injEq]

/-- The fault that is told is that of the first tape with a row that is too wide. -/
theorem render_eq_error_iff {fault : TooWide} : m.render limit = .error fault ↔
    ∃ (k : Nat) (tape : Tape), m.tapes[k]? = some tape ∧ tape.Exceeds m.marker.toList limit ∧
      fault = ⟨tape.width m.marker.toList, limit⟩ ∧
      ∀ j < k, ∀ other, m.tapes[j]? = some other → ¬ other.Exceeds m.marker.toList limit := by
  have hrender : m.render limit = .error fault ↔
      (m.tapes.zipIdx.mapM fun (tape, number) ↦ m.tapeLines limit tape number) = .error fault := by
    unfold render
    cases m.tapes.zipIdx.mapM fun (tape, number) ↦ m.tapeLines limit tape number with
    | error other => simp [bind, Except.bind]
    | ok blocks => simp [bind, Except.bind, pure, Except.pure]
  have hentry : ∀ (k : Nat) (tape : Tape) (number : Nat),
      m.tapes.zipIdx[k]? = some (tape, number) ↔ m.tapes[k]? = some tape ∧ number = k := by
    intro k tape number
    rw [List.getElem?_zipIdx, Option.map_eq_some_iff]
    simp only [Prod.mk.injEq, Nat.zero_add, eq_comm (a := k)]
    constructor
    · rintro ⟨_, htape, rfl, rfl⟩
      exact ⟨htape, rfl⟩
    · rintro ⟨htape, rfl⟩
      exact ⟨tape, htape, rfl, rfl⟩
  rw [hrender, mapM_eq_error_iff]
  constructor
  · rintro ⟨k, ⟨tape, number⟩, hk, hfails, hbefore⟩
    obtain ⟨htape, -⟩ := (hentry k tape number).1 hk
    obtain ⟨hwide, rfl⟩ := tapeLines_eq_error_iff.1 hfails
    refine ⟨k, tape, htape, hwide, rfl, fun j hj other hother ↦ ?_⟩
    obtain ⟨block, hblock⟩ := hbefore j hj (other, j) ((hentry j other j).2 ⟨hother, rfl⟩)
    exact (tapeLines_eq_ok_iff.1 hblock).1
  · rintro ⟨k, tape, htape, hwide, rfl, hbefore⟩
    refine ⟨k, (tape, k), (hentry k tape k).2 ⟨htape, rfl⟩, tapeLines_eq_error_iff.2 ⟨hwide, rfl⟩,
      fun j hj entry hother ↦ ?_⟩
    obtain ⟨other, number⟩ := entry
    have hfits := hbefore j hj other ((hentry j other number).1 hother).1
    exact ⟨_, tapeLines_eq_ok_iff.2 ⟨hfits, rfl⟩⟩

/-- Otherwise every tape has a block of lines. -/
theorem exists_blocks {lines : List String} (h : m.render limit = .ok lines) :
    ∃ blocks : List (List String), lines = blocks.flatten ∧ blocks.length = m.tapes.length ∧
      ∀ (k : Nat) (tape : Tape), m.tapes[k]? = some tape → ∃ block, blocks[k]? = some block ∧
        m.tapeLines limit tape k = .ok block := by
  obtain ⟨blocks, hblocks, rfl⟩ := render_eq_ok_iff.1 h
  obtain ⟨hlength, hget⟩ := List.forall₂_iff_get.1 (forall₂_of_mapM_eq_ok hblocks)
  rw [List.length_zipIdx] at hlength
  refine ⟨blocks, rfl, hlength.symm, fun k tape htape ↦ ?_⟩
  obtain ⟨hk, rfl⟩ := List.getElem?_eq_some_iff.1 htape
  have hblock := hget k (by rwa [List.length_zipIdx]) (by rwa [← hlength])
  refine ⟨blocks[k], List.getElem?_eq_getElem (by rwa [← hlength]), ?_⟩
  simpa using hblock

/-- Rendering a configuration fails exactly if some tape has a row that is longer than the limit,
and tells the limit and the width of the first such tape. If it does not, there is a block of lines
for every tape, in order, with a line for every row, from top to bottom. But for white space at its
end, the line is a label as wide as the state or six, whichever is more, then a space and then the
row. The label is the state beside the bases of the first tape, and otherwise spaces. So what a row
shows of the symbol of a cell stands in a column of the line that depends on the tape and the cell
but not on the row. -/
theorem configuration_in_columns (m : Machine) (limit : Nat) :
    ((∃ fault, m.render limit = .error fault) ↔
      ∃ tape ∈ m.tapes, ∃ row ∈ tape.render m.marker.toList, limit < row.length) ∧
    (∀ fault, m.render limit = .error fault → fault.limit = limit ∧
      ∃ (k : Nat) (tape : Tape), m.tapes[k]? = some tape ∧
        (∀ row ∈ tape.render m.marker.toList, row.length = fault.width ∧ limit < row.length) ∧
        ∀ j < k, ∀ other, m.tapes[j]? = some other →
          ∀ row ∈ other.render m.marker.toList, row.length ≤ limit) ∧
    ∀ lines, m.render limit = .ok lines → ∃ blocks : List (List String), lines = blocks.flatten ∧
      blocks.length = m.tapes.length ∧
      ∀ (k : Nat) (tape : Tape), m.tapes[k]? = some tape → ∃ block, blocks[k]? = some block ∧
        block.length = tape.height ∧
        ∀ (i : Nat) (row : List Char), (tape.render m.marker.toList)[i]? = some row →
          ∃ label, m.Labelled tape k i label ∧
            block[i]? = some (String.ofList (Text.trimEnd (label ++ ' ' :: row))) ∧
            ∀ j < tape.breadth, (label ++ ' ' :: row)[max 6 m.state.toList.length + 1 +
                tape.column m.marker.toList.length j]? =
              some (tape.part i (tape.cell (tape.leftmost + j))) := by
  refine ⟨⟨?_, ?_⟩, fun fault hfault ↦ ?_, fun lines hlines ↦ ?_⟩
  · rintro ⟨fault, hfault⟩
    obtain ⟨k, tape, htape, hwide, -⟩ := render_eq_error_iff.1 hfault
    exact ⟨tape, List.mem_of_getElem? htape, hwide⟩
  · rintro ⟨tape, htape, hwide⟩
    cases hrender : m.render limit with
    | error fault => exact ⟨fault, rfl⟩
    | ok lines =>
      obtain ⟨k, hk⟩ := List.getElem?_of_mem htape
      obtain ⟨blocks, -, -, hblocks⟩ := exists_blocks hrender
      obtain ⟨block, -, hblock⟩ := hblocks k tape hk
      exact absurd hwide (tapeLines_eq_ok_iff.1 hblock).1
  · obtain ⟨k, tape, htape, hwide, rfl, hbefore⟩ := render_eq_error_iff.1 hfault
    refine ⟨rfl, k, tape, htape, fun row hrow ↦ ?_, fun j hj other hother row hrow ↦ ?_⟩
    · have hlength := Tape.length_of_mem_render hrow
      exact ⟨hlength, by rw [hlength]; exact Tape.exceeds_iff.1 hwide⟩
    · exact Nat.le_of_not_lt fun hlong ↦ hbefore j hj other hother ⟨row, hrow, hlong⟩
  · obtain ⟨blocks, hflat, hlength, hblocks⟩ := exists_blocks hlines
    refine ⟨blocks, hflat, hlength, fun k tape htape ↦ ?_⟩
    obtain ⟨block, hk, hblock⟩ := hblocks k tape htape
    obtain ⟨-, rfl⟩ := tapeLines_eq_ok_iff.1 hblock
    refine ⟨_, hk, ?_, fun i row hrow ↦ ?_⟩
    · rw [List.length_map, List.length_zipIdx, Tape.length_render]
    · have hlabel := m.labelled tape k i
      refine ⟨_, hlabel, ?_, fun j hj ↦ ?_⟩
      · rw [List.getElem?_map, List.getElem?_zipIdx, hrow, Option.map_some, Option.map_some,
          Nat.zero_add]
        rfl
      · have hplace := getElem?_behind_label hlabel row (tape.column m.marker.toList.length j)
        rw [hplace, tape.getElem?_render hrow]
        have hcolumn := tape.getElem?_row_column hj
          (if i = tape.baseRow then m.marker.toList else m.marker.toList.map fun _ ↦ ' ')
          (tape.part i)
        have hwidth : (if i = tape.baseRow then m.marker.toList
            else m.marker.toList.map fun _ ↦ ' ').length = m.marker.toList.length := by
          split_ifs
          · rfl
          · rw [List.length_map]
        rwa [hwidth] at hcolumn

/-- A machine with a long name for its state, whose first tape has a row for marks, two cells and
the head on the second. -/
def labelledAtLength : Machine :=
  let zero : Symbol := ⟨'0', some '.', none⟩
  let tape := (Tape.new (.ofList [.plain 'B', zero]) (.plain 'B')).reset [zero, zero] 1
  let other := Tape.new (.binaryWith (.plain 'B')) (.plain 'B')
  { fresh {} none "=>" with state := "q_counting", tapes := [tape, other] }

theorem labelledAtLength_in_columns :
    (∃ fault, labelledAtLength.render 4 = .error fault ∧ fault.limit = 4) ∧
      labelledAtLength.render 5 =
        .ok ["            .  .", "q_counting  0=>0", "           =>B"] ∧
      ∃ above base : List Char, above.length = 10 ∧ base.length = 10 ∧
        (above ++ ' ' :: " .  .".toList)[15]? = some '.' ∧
        (base ++ ' ' :: " 0=>0".toList)[15]? = some '0' := by
  obtain ⟨hrefused, hfault, -⟩ := configuration_in_columns labelledAtLength 4
  obtain ⟨-, -, hlines⟩ := configuration_in_columns labelledAtLength 5
  obtain ⟨blocks, -, -, hblocks⟩ := hlines _ rfl
  obtain ⟨block, -, -, hrows⟩ := hblocks 0 _ rfl
  obtain ⟨above, habove, -, hmark⟩ := hrows 0 " .  .".toList rfl
  obtain ⟨base, hbase, -, hsymbol⟩ := hrows 1 " 0=>0".toList rfl
  refine ⟨?_, rfl, above, base, habove.width, hbase.width, hmark 1 (by decide),
    hsymbol 1 (by decide)⟩
  obtain ⟨fault, hrender⟩ :=
    hrefused.2 ⟨_, List.mem_cons_self, " 0=>0".toList, by decide, by decide⟩
  exact ⟨fault, hrender, (hfault fault hrender).1⟩

end Machine

end Multitape
