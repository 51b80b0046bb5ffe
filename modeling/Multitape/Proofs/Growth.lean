import Multitape.Proofs.History
import Multitape.Proofs.Locality
import Multitape.Proofs.Refusal
import Multitape.Proofs.Simulation
import Multitape.Proofs.Window
import Mathlib.Algebra.Group.Nat.Defs

/-!
How large the tapes of a run become. An instruction widens the window by one cell at most, once the
window has a cell at all, and leaves the head inside (`Tape.length_act_le`,
`Tape.head_act_mem_window`); the head itself goes up by one at most, since cells are only counted
anew when it would go below zero (`Tape.head_act_eq`). In a transition every tape takes an
instruction (`exists_act_of_step`), so that what transitions can have made of a tape is known from
their number (`Tape.Within`), which is kept from step to step (`Contained.step`). The windows of a
run are therefore bounded by the length of the input and the number of transitions, and no sum by
which a head moves overflows in words of 64 bits before that number does (`heads_inside_windows`).
-/

set_option autoImplicit false
set_option relaxedAutoImplicit false

namespace Multitape

theorem Direction.neg_one_le_offset (d : Direction) : -1 ≤ d.offset := by
  cases d <;> decide

/-! ### One instruction -/

namespace Tape

variable (tape : Tape) (output : Symbol) (d : Direction)

/-- The sum by which an instruction moves the head, in signed words of 64 bits, which wrap around.
The head is counted from the first cell of the window once that covers it. -/
def wordSum : Int64 := .ofInt tape.view.head + .ofInt d.offset

/-- The head goes where it is sent, and to the first cell if it is sent to the left of that. -/
theorem head_act_eq : (tape.act output d).head = max 0 (tape.view.head + d.offset) := by
  have hact := tape.view.first_of_act tape.blank output d
  have hhead := tape.head_act output d
  rw [Focus.head]
  omega

variable {tape}

/-- A head that is not to the left of the window is not counted anew before it moves. -/
theorem head_view (h : 0 ≤ tape.head) : (tape.view.head : Int) = tape.head := by
  have hfirst := tape.first_of_view
  rw [Focus.head]
  omega

theorem length_le_act (hleft : 0 ≤ tape.head) :
    tape.contents.length ≤ (tape.act output d).contents.length := by
  rw [contents_act, length_stretch, extent, if_neg (by omega)]
  omega

theorem length_act_le (hleft : 0 ≤ tape.head) (hright : tape.head < max 1 tape.contents.length) :
    (tape.act output d).contents.length ≤ max 1 tape.contents.length + 1 := by
  have hback := d.neg_one_le_offset
  have hforth := d.offset_le_one
  rw [contents_act, length_stretch, extent, if_neg (by omega)]
  omega

/-! ### What transitions make of a tape -/

/-- What so many transitions can have made of a tape that held some cells, with the head on the
first of them. Before the first transition the window may be empty. -/
structure Within (cells transitions : Nat) (tape : Tape) : Prop where
  head_nonneg : 0 ≤ tape.head
  head_le : tape.head ≤ transitions
  head_lt : tape.head < max 1 tape.contents.length
  length_le : tape.contents.length ≤ max 1 cells + transitions

namespace Within

theorem reset (tape : Tape) (contents : List Symbol) :
    (tape.reset contents 0).Within contents.length 0 := by
  have hhead : (tape.reset contents 0).head = 0 := Window.head_of contents 0
  have hcontents : (tape.reset contents 0).contents = contents := Window.contents_of contents 0
  constructor
  case head_nonneg => omega
  case head_le => omega
  case head_lt => omega
  case length_le =>
    rw [hcontents]
    omega

variable {cells transitions : Nat}

theorem act (h : tape.Within cells transitions) :
    (tape.act output d).Within cells (transitions + 1) := by
  obtain ⟨hleft, hmoved, hright, hlength⟩ := h
  obtain ⟨hleft', hright'⟩ := tape.head_act_mem_window output d
  constructor
  case head_nonneg => exact hleft'
  case head_le =>
    have hforth := d.offset_le_one
    rw [head_act_eq, head_view hleft]
    omega
  case head_lt => omega
  case length_le =>
    have hgrown := length_act_le output d hleft hright
    omega

/-- As long as the number of transitions, the next one with it, is not above the largest word, the
place of the head is that of a word and a move does not overflow. -/
theorem wordSum_eq (h : tape.Within cells transitions) (small : transitions + 1 < 2 ^ 63) :
    (Int64.ofInt tape.view.head).toInt = tape.view.head ∧
      (tape.wordSum d).toInt = tape.view.head + d.offset := by
  have hview := head_view h.head_nonneg
  have hleft := h.head_nonneg
  have hmoved := h.head_le
  have hback := d.neg_one_le_offset
  have hforth := d.offset_le_one
  constructor
  · exact Int64.toInt_ofInt_of_le (by omega) (by omega)
  · rw [wordSum, ← Int64.ofInt_add, Int64.toInt_ofInt_of_le (by omega) (by omega)]

end Within

end Tape

namespace Machine

variable {d : Definition} {m before next last : Machine} {answer : Option Verdict}

/-! ### Transitions -/

/-- A machine that still runs has taken a transition with every call. -/
theorem steps_of_advance {calls : Nat} (h : m.advance calls = .ok last)
    (running : last.verdict = none) : last.steps = m.steps + calls := by
  induction calls generalizing last with
  | zero =>
    obtain rfl : m = last := Except.ok.inj h
    rfl
  | succ calls ih =>
    obtain ⟨before, answer, hbefore, hstep⟩ := advance_succ_eq_ok_iff.1 h
    cases running_before : before.verdict with
    | none => rw [steps_of_step_ok running_before hstep, ih hbefore running_before, Nat.add_assoc]
    | some v =>
      -- the call would have left the machine halted
      cases hstep.symm.trans (step_of_verdict running_before)
      cases running.symm.trans running_before

/-- In a transition by a rule that is written for all tapes, every tape takes an instruction. -/
theorem exists_act_of_step (spans : m.nextRule.Spans m.tapes.length) (running : m.verdict = none)
    (h : m.step = (.ok answer, next)) :
    next.tapes.length = m.tapes.length ∧ ∀ (i : Nat) (tape : Tape), next.tapes[i]? = some tape →
      ∃ (earlier : Tape) (output : Symbol) (move : Direction),
        m.tapes[i]? = some earlier ∧ tape = earlier.act output move := by
  rcases m.step_cases with ⟨v, halted, -⟩ | ⟨limit, -, -, h'⟩ | ⟨tapes, -, -, applied, h'⟩ |
    ⟨tapes, tape, refusal, -, -, -, h'⟩
  · cases running.symm.trans halted
  · cases h.symm.trans h'
  · obtain rfl : next = m.moved m.nextRule tapes := congrArg Prod.snd (h.symm.trans h')
    rcases all_ok_or_first_error (outcomes m.nextRule.instructions m.tapes) with
      ⟨done, hall⟩ | ⟨done, refusal, rest, hfirst⟩
    · have hlength : done.length = m.tapes.length := by
        have hcount := (congrArg List.length hall).symm
        simpa [outcomes, Rule.instructions, spans.inputs, spans.outputs, spans.moves] using hcount
      obtain rfl : done = tapes := by
        simpa [applyAll_of_all_ok hall, hlength] using applied
      refine ⟨hlength, fun i tape htape ↦ ?_⟩
      have houtcome : (outcomes m.nextRule.instructions m.tapes)[i]? = some (.ok tape) := by
        rw [hall, List.getElem?_map, show done[i]? = some tape from htape, Option.map_some]
      obtain ⟨earlier, output, move, hearlier, -, -, happly⟩ :=
        getElem?_outcomes_eq_some_iff.1 houtcome
      exact ⟨earlier, output, move, hearlier, (Tape.apply_eq_ok_iff.1 happly).2.2⟩
    · -- a tape that refuses would have been told
      cases applied.symm.trans (applyAll_of_first_error hfirst 0)
  · cases h.symm.trans h'

/-! ### Runs -/

/-- How many cells the start of a run fills on a tape. -/
def cellsGiven (input : List Char) (i : Nat) : Nat := if i = 0 then input.length else 0

/-- A run of the definition on the input can be here, and its tapes are not larger than the
transitions can have made them. -/
structure Contained (d : Definition) (input : List Char) (m : Machine) : Prop where
  shows : ∃ c, Shows d m c
  tapes : ∀ (i : Nat) (tape : Tape), m.tapes[i]? = some tape →
    tape.Within (cellsGiven input i) m.steps

theorem contained_start (d : Definition) (limit : Option Nat) (marker : String)
    (input : List Char) : Contained d input ((fresh d limit marker).start input) := by
  refine ⟨⟨_, shows_start d input limit marker⟩, fun i tape htape ↦ ?_⟩
  obtain ⟨blank, -, rfl⟩ := Option.map_eq_some_iff.1
    ((getElem?_startTapes (input.map .plain) (blankTapes d) i).symm.trans htape)
  have hcells : cellsGiven input i = (if i = 0 then input.map Symbol.plain else []).length := by
    unfold cellsGiven
    split <;> simp
  rw [hcells]
  exact .reset blank _

namespace Contained

variable {input : List Char}

theorem spans (wellFormed : d.WellFormed) (h : Contained d input m) :
    m.tapes.length = d.tapeCount ∧ m.nextRule.Spans m.tapes.length := by
  obtain ⟨c, hshows⟩ := h.shows
  obtain ⟨tapes, htapes, -⟩ := hshows.tapes
  have hlength : m.tapes.length = d.tapeCount := by rw [htapes, List.length_ofFn]
  exact ⟨hlength, hlength ▸ (hshows.nextRule wellFormed).1⟩

theorem step (wellFormed : d.WellFormed) (h : Contained d input m)
    (hstep : m.step = (.ok answer, next)) : Contained d input next := by
  cases running : m.verdict with
  | some v =>
    cases hstep.symm.trans (step_of_verdict running)
    exact h
  | none =>
    obtain ⟨c, hshows⟩ := h.shows
    obtain ⟨after, -, hnext⟩ := hshows.of_step wellFormed hstep
    refine ⟨⟨after, hnext⟩, fun i tape htape ↦ ?_⟩
    obtain ⟨earlier, output, move, hearlier, rfl⟩ :=
      (exists_act_of_step (h.spans wellFormed).2 running hstep).2 i tape htape
    rw [steps_of_step_ok running hstep]
    exact (h.tapes i earlier hearlier).act output move

theorem advance (wellFormed : d.WellFormed) {calls : Nat} (h : Contained d input m)
    (hcalls : m.advance calls = .ok last) : Contained d input last :=
  invariant_of_advance (P := Contained d input) (fun contained ↦ contained.step wellFormed) h hcalls

end Contained

/-- Of a machine that has been asked anything before, a start makes the same as of a new one. -/
theorem start_of_reached {operations : List Operation} (reached : Reached d operations m)
    (input : List Char) : m.start input = (fresh m.definition m.limit m.marker).start input := by
  have halike := reached.alike
  refine Alike.start_eq ?_ input
  rw [halike.definition, halike.limit, halike.marker]
  exact halike

/-- Heads stay inside windows that grow at most linearly. Whatever has been asked of a machine
before, a transition that follows `k` others leaves every head on a cell of its window. The window
is then not shorter than it was and longer by one cell at most, where a window without cells counts
as one of one cell. So the first window has at most the cells of the input, counted in the same way,
and one for each transition, and any other window has at most one and one for each transition. While
the transitions, this one among them, are fewer than 2 ^ 63, and all the more while they are so
together with the cells of the input, no instruction overflows when it adds the offset of its move,
whether the transition is then taken or refused, and the sum tells where the head is left. -/
theorem heads_inside_windows {operations : List Operation} (reached : Reached d operations m)
    {text : List Char} (parsed : Definition.parse text = .ok m.definition) {input : List Char}
    {k : Nat} (taken : (m.start input).advance k = .ok before) (running : before.verdict = none) :
    (∀ answer next, before.step = (.ok answer, next) →
      next.steps = k + 1 ∧ next.tapes.length = m.definition.tapeCount ∧
      ∀ (i : Nat) (tape : Tape), next.tapes[i]? = some tape →
        0 ≤ tape.head ∧ tape.head < tape.contents.length ∧
        (∃ earlier : Tape, before.tapes[i]? = some earlier ∧
          earlier.contents.length ≤ tape.contents.length ∧
          tape.contents.length ≤ max 1 earlier.contents.length + 1) ∧
        (i = 0 → tape.contents.length ≤ max 1 input.length + (k + 1)) ∧
        (i ≠ 0 → tape.contents.length ≤ 1 + (k + 1))) ∧
    (k + 1 < 2 ^ 63 → ∀ tape ∈ before.tapes, ∀ move : Direction,
      (Int64.ofInt tape.view.head).toInt = tape.view.head ∧
      (tape.wordSum move).toInt = tape.view.head + move.offset ∧
      ∀ read output after, tape.apply read output move = .ok after →
        after.head = max 0 (tape.wordSum move).toInt) := by
  have wellFormed := Definition.wellFormed_of_parse parsed
  rw [start_of_reached reached] at taken
  have hsteps : before.steps = k := by
    rw [steps_of_advance taken running]
    exact Nat.zero_add k
  have hbefore : Contained m.definition input before :=
    (contained_start m.definition m.limit m.marker input).advance wellFormed taken
  refine ⟨fun answer next hstep ↦ ?_, fun small tape htape move ↦ ?_⟩
  · have hnext := hbefore.step wellFormed hstep
    have hsteps' : next.steps = k + 1 := by rw [steps_of_step_ok running hstep, hsteps]
    refine ⟨hsteps', (hnext.spans wellFormed).1, fun i tape htape ↦ ?_⟩
    obtain ⟨earlier, output, move, hearlier, rfl⟩ :=
      (exists_act_of_step (hbefore.spans wellFormed).2 running hstep).2 i tape htape
    obtain ⟨hleft, hright⟩ := earlier.head_act_mem_window output move
    have hwithin := hbefore.tapes i earlier hearlier
    have hgrown := Tape.length_le_act output move hwithin.head_nonneg
    have hgrown' := Tape.length_act_le output move hwithin.head_nonneg hwithin.head_lt
    have hlength := (hnext.tapes i _ htape).length_le
    rw [hsteps', cellsGiven] at hlength
    refine ⟨hleft, hright, ⟨earlier, hearlier, hgrown, hgrown'⟩, fun hi ↦ ?_, fun hi ↦ ?_⟩
    · rwa [if_pos hi] at hlength
    · rwa [if_neg hi] at hlength
  · obtain ⟨i, hi⟩ := List.mem_iff_getElem?.1 htape
    obtain ⟨hplace, hsum⟩ := (hbefore.tapes i tape hi).wordSum_eq move (by rwa [hsteps])
    refine ⟨hplace, hsum, fun read output after happly ↦ ?_⟩
    obtain ⟨-, -, rfl⟩ := Tape.apply_eq_ok_iff.1 happly
    rw [hsum, Tape.head_act_eq]

/-- A machine whose first head goes to the left and whose second goes to the right. -/
def parting : Definition where
  tapeAlphabets := [.binaryWith (.plain 'B'), .binaryWith (.plain 'B')]
  rules := [⟨"q0", [.plain '0', .plain 'B'], "q0", [.plain '0', .plain '1'], [.left, .right], none⟩,
    ⟨"q0", [.plain 'B', .plain 'B'], "q1", [.plain 'B', .plain 'B'], [.left, .right],
      some .accept⟩]

def partingText : String := "num_tapes = 2\nq0 0 B q0 0 1 l r\nq0 B B q1 B B l r"

/-- On its second run both windows are as large as they can be after two transitions. -/
theorem parting_inside_windows :
    ∃ m before next, Reached parting [.run ['0']] m ∧
      Definition.parse partingText.toList = .ok m.definition ∧
      (m.start ['0']).advance 1 = .ok before ∧
      before.step = (.ok (some .accept), next) ∧ next.steps = 2 ∧
      next.tapes.map Tape.head = [0, 2] ∧
      next.tapes.map (fun tape ↦ tape.contents.length) = [3, 3] ∧
      (∀ (i : Nat) (tape : Tape), next.tapes[i]? = some tape →
        tape.head < tape.contents.length ∧ tape.contents.length ≤ 1 + 2) ∧
      ∀ tape ∈ before.tapes, (tape.wordSum .left).toInt = tape.view.head - 1 := by
  have parsed : Definition.parse partingText.toList = .ok parting := by
    rw [partingText, String.toList_ofList]
    rfl
  obtain ⟨m, hrun, hdefinition, before, hbefore, running, next, hstep, hheads, hlengths⟩ :
      ∃ m, (Operation.run ['0']).perform 2 (new parting) = some m ∧ m.definition = parting ∧
        ∃ before, (m.start ['0']).advance 1 = .ok before ∧ before.verdict = none ∧
          ∃ next, before.step = (.ok (some .accept), next) ∧ next.tapes.map Tape.head = [0, 2] ∧
            next.tapes.map (fun tape ↦ tape.contents.length) = [3, 3] :=
    ⟨_, rfl, rfl, _, rfl, rfl, _, rfl, rfl, rfl⟩
  have reached := Reached.new.after hrun
  rw [← hdefinition] at parsed
  obtain ⟨htaken, hwords⟩ := heads_inside_windows reached parsed hbefore running
  obtain ⟨hsteps, -, htapes⟩ := htaken _ next hstep
  refine ⟨m, before, next, reached, parsed, hbefore, hstep, hsteps, hheads, hlengths,
    fun i tape htape ↦ ?_, fun tape htape ↦ (hwords (by decide) tape htape .left).2.1⟩
  obtain ⟨-, hright, -, hfirst, hothers⟩ := htapes i tape htape
  by_cases hi : i = 0
  · exact ⟨hright, hfirst hi⟩
  · exact ⟨hright, hothers hi⟩

end Machine

end Multitape
