import Multitape.Proofs.Run
import Multitape.Proofs.Tape
import Multitape.Proofs.Textbook
import Multitape.Proofs.WellFormed
import Mathlib.Data.List.OfFn

/-!
Machines keep windows, textbooks keep rows without ends, and both compute the same. A machine shows
a configuration (`Shows`) if both are in the same state after the same number of transitions and
every head sees on its tape what it sees on its row. The relation holds at the start of a run
(`shows_start`) and is kept by every step (`Shows.step`): a step of the machine is refused exactly
if the textbook step is stuck. A run is then a matter of induction (`Shows.of_advance`,
`Shows.advance_of_after`).
-/

set_option autoImplicit false
set_option relaxedAutoImplicit false

namespace Multitape

open Textbook

/-! ### One tape -/

/-- The tape and the row look the same from their heads. -/
def Tape.ShowsRow (tape : Tape) (row : Row) : Prop :=
  ∀ z, tape.seen z = row.cells (row.head + z)

namespace Tape.ShowsRow

variable {tape : Tape} {row : Row}

theorem current_eq (h : tape.ShowsRow row) : tape.current = row.read := by
  rw [← tape.seen_zero, h 0, Int.add_zero, Row.read]

/-- Counted from the window, the cells of the tape are the cells of the row, at a distance. -/
theorem cell_eq (h : tape.ShowsRow row) (z : Int) :
    tape.cell z = row.cells (row.head - tape.head + z) := by
  rw [tape.cell_eq_seen, h]
  congr 1
  omega

theorem act (h : tape.ShowsRow row) (output : Symbol) (d : Direction) :
    (tape.act output d).ShowsRow (row.act output d) := by
  intro z
  change _ = Function.update row.cells row.head output (row.head + d.offset + z)
  rw [Tape.seen_act]
  by_cases hz : z + d.offset = 0
  · rw [hz, show row.head + d.offset + z = row.head by omega, Function.update_self,
      Function.update_self]
  · rw [Function.update_of_ne hz, Function.update_of_ne (by omega), h]
    congr 1
    omega

theorem reset (alphabet : Alphabet) (blank : Symbol) (contents : List Symbol) :
    Tape.ShowsRow ⟨alphabet, blank, .of contents 0⟩ (.holding blank contents) := by
  intro z
  cases z <;> simp [seen, head, cell, Tape.contents, Row.holding]

end Tape.ShowsRow

/-! ### All tapes -/

/-- The machine is the textbook machine of the definition in this configuration, up to where its
windows begin. -/
structure Machine.Shows (d : Definition) (m : Machine) (c : Configuration d.tapeCount) : Prop where
  definition : m.definition = d
  state : m.state = c.state
  steps : m.steps = c.steps
  tapes : ∃ tapes : Fin d.tapeCount → Tape, m.tapes = List.ofFn tapes ∧
    ∀ i, (tapes i).alphabet = d.tapeAlphabets.get i ∧ (tapes i).blank = d.blank ∧
      (tapes i).ShowsRow (c.rows i)

namespace Machine

variable {d : Definition} {m : Machine} {c : Configuration d.tapeCount}

theorem Shows.symbols_eq (h : Shows d m c) : m.symbols = List.ofFn fun i ↦ (c.rows i).read := by
  obtain ⟨tapes, htapes, hrows⟩ := h.tapes
  rw [symbols, htapes, List.map_ofFn]
  congr 1
  funext i
  exact (hrows i).2.2.current_eq

theorem Shows.verdict_eq (h : Shows d m c) : m.verdict = Textbook.verdict d c.state := by
  rw [Machine.verdict, h.definition, h.state, Textbook.verdict]

theorem getElem?_startTapes (input : List Symbol) (tapes : List Tape) (i : Nat) :
    (startTapes input tapes)[i]? =
      tapes[i]?.map fun tape ↦ tape.reset (if i = 0 then input else []) 0 := by
  cases tapes with
  | nil => rfl
  | cons first rest =>
    cases i with
    | zero => rfl
    | succ i => exact List.getElem?_map

/-- The tapes of a definition, with the input on the first. -/
theorem startTapes_blankTapes (d : Definition) (input : List Symbol) :
    startTapes input (blankTapes d) = List.ofFn fun i : Fin d.tapeCount ↦
      ⟨d.tapeAlphabets.get i, d.blank, .of (if i.val = 0 then input else []) 0⟩ := by
  refine List.ext_getElem? fun i ↦ ?_
  rw [getElem?_startTapes, blankTapes, List.getElem?_map, List.getElem?_ofFn]
  by_cases hi : i < d.tapeCount
  · rw [dif_pos hi, List.getElem?_eq_getElem hi]
    rfl
  · rw [dif_neg hi, List.getElem?_eq_none (Nat.le_of_not_lt hi)]
    rfl

theorem shows_start (d : Definition) (input : List Char) (limit : Option Nat) (marker : String) :
    Shows d (({ new d with limit, marker } : Machine).start input) (initial d input) where
  definition := rfl
  state := rfl
  steps := rfl
  tapes := by
    refine ⟨_, startTapes_blankTapes d _, fun i ↦ ⟨rfl, rfl, ?_⟩⟩
    exact Tape.ShowsRow.reset _ _ _

/-! ### Steps -/

/-- The textbook looks its transition up where the machine looks up its rule. -/
theorem Shows.find?_eq (h : Shows d m c) :
    (d.rules.find? fun rule ↦
      rule.source = c.state ∧ rule.inputs = List.ofFn fun i ↦ (c.rows i).read) =
    m.definition.rules.find? (·.fires m.state m.symbols) := by
  rw [h.definition, h.state, h.symbols_eq]
  congr 1
  funext rule
  rw [Bool.eq_iff_iff, decide_eq_true_iff, Rule.fires_iff]

/-- The rule for the next step is written for as many tapes as there are, and what it does is the
textbook's transition. -/
theorem Shows.nextRule (wellFormed : d.WellFormed) (h : Shows d m c) :
    m.nextRule.Spans d.tapeCount ∧ c.transition = .ofRule d m.nextRule := by
  have hlength : m.symbols.length = d.tapeCount := by
    rw [h.symbols_eq, List.length_ofFn]
  unfold Configuration.transition Textbook.transition
  rw [h.find?_eq]
  rcases m.nextRule_cases with ⟨rule, hfind, hrule⟩ | ⟨hfind, hrule⟩
  · have hmem : rule ∈ d.rules := h.definition ▸ List.mem_of_find?_eq_some hfind
    rw [hfind, hrule]
    exact ⟨wellFormed.rules rule hmem, rfl⟩
  · rw [hfind, hrule]
    refine ⟨⟨hlength, hlength, (List.length_map _).trans hlength⟩, ?_⟩
    simp only [Transition.ofRule, Rule.implicitReject, h.symbols_eq, h.definition]
    congr 1
    · funext i
      simp
    · funext i
      simp

section Outcomes

variable {tapes : Fin d.tapeCount → Tape}

/-- What each tape makes of the next rule. -/
theorem Shows.outcomes_eq (wellFormed : d.WellFormed) (h : Shows d m c)
    (htapes : m.tapes = List.ofFn tapes)
    (halphabets : ∀ i, (tapes i).alphabet = d.tapeAlphabets.get i) :
    outcomes m.nextRule.instructions m.tapes = List.ofFn fun i ↦
      if (d.tapeAlphabets.get i).contains (c.transition.outputs i) then
        .ok ((tapes i).act (c.transition.outputs i) (c.transition.moves i))
      else .error (.foreign (c.transition.outputs i) (d.tapeAlphabets.get i)) := by
  obtain ⟨spans, htransition⟩ := h.nextRule wellFormed
  have hsymbols : m.symbols = List.ofFn fun i ↦ (tapes i).current := by
    rw [symbols, htapes, List.map_ofFn]
    rfl
  have hperform : outcomes m.nextRule.instructions m.tapes = List.ofFn fun i ↦
      (tapes i).apply (tapes i).current (c.transition.outputs i) (c.transition.moves i) := by
    rw [htransition]
    refine List.ext_getElem ?_ fun i hi hi' ↦ ?_
    · simp [outcomes, Rule.instructions, spans.inputs, spans.outputs, spans.moves, htapes]
    · simp [outcomes, Rule.instructions, htapes, inputs_nextRule, hsymbols, Transition.ofRule,
        spans.outputs, spans.moves]
  rw [hperform]
  congr 1
  funext i
  rw [Tape.apply_current, halphabets]

theorem Shows.outcomes_of_permitted (wellFormed : d.WellFormed) (h : Shows d m c)
    (htapes : m.tapes = List.ofFn tapes)
    (halphabets : ∀ i, (tapes i).alphabet = d.tapeAlphabets.get i)
    (permitted : c.transition.Permitted) :
    outcomes m.nextRule.instructions m.tapes = (List.ofFn fun i ↦
      (tapes i).act (c.transition.outputs i) (c.transition.moves i)).map .ok := by
  rw [h.outcomes_eq wellFormed htapes halphabets, List.map_ofFn]
  congr 1
  funext i
  rw [if_pos (permitted i)]
  rfl

/-- An output that is not permitted makes some tape refuse. -/
theorem Shows.outcomes_of_not_permitted (wellFormed : d.WellFormed) (h : Shows d m c)
    (htapes : m.tapes = List.ofFn tapes)
    (halphabets : ∀ i, (tapes i).alphabet = d.tapeAlphabets.get i)
    (refused : ¬ c.transition.Permitted) :
    ∃ (done : List Tape) (refusal : Tape.Refusal) (rest : List (Except Tape.Refusal Tape)),
      outcomes m.nextRule.instructions m.tapes = done.map .ok ++ .error refusal :: rest := by
  rcases all_ok_or_first_error (outcomes m.nextRule.instructions m.tapes) with ⟨done, hall⟩ | hfirst
  · -- the outcome of a symbol outside the alphabet is no tape
    obtain ⟨i, hforeign⟩ := not_forall.1 refused
    have hmem : .error (.foreign (c.transition.outputs i) (d.tapeAlphabets.get i)) ∈
        outcomes m.nextRule.instructions m.tapes := by
      rw [h.outcomes_eq wellFormed htapes halphabets]
      exact List.mem_ofFn.2 ⟨i, if_neg hforeign⟩
    rw [hall] at hmem
    obtain ⟨changed, -, hchanged⟩ := List.mem_map.1 hmem
    cases hchanged
  · exact hfirst

end Outcomes

/-- A step below the limit, in a state that is not terminal, is a textbook step; it is refused
exactly if that is stuck. -/
theorem Shows.step (wellFormed : d.WellFormed) (h : Shows d m c) (running : m.verdict = none)
    (below : m.reachedLimit? = none) :
    (c.transition.Permitted ∧ ∃ next, m.step = (.ok next.verdict, next) ∧
      Shows d next (c.take c.transition)) ∨
    (¬ c.transition.Permitted ∧ ∃ rule tape refusal next,
      m.step = (.error (.instruction rule tape refusal), next)) := by
  obtain ⟨tapes, htapes, hrows⟩ := h.tapes
  have halphabets : ∀ i, (tapes i).alphabet = d.tapeAlphabets.get i := fun i ↦ (hrows i).1
  by_cases permitted : c.transition.Permitted
  · have hall := h.outcomes_of_permitted wellFormed htapes halphabets permitted
    have happlied := applyAll_of_all_ok hall 0
    rw [List.length_ofFn, htapes, List.drop_eq_nil_of_le (by simp), List.append_nil] at happlied
    refine .inl ⟨permitted, _, step_of_applied running below (htapes ▸ happlied), ?_⟩
    refine ⟨h.definition, ?_, congrArg (· + 1) h.steps, _, rfl, fun i ↦ ⟨(hrows i).1, (hrows i).2.1,
      (hrows i).2.2.act _ _⟩⟩
    rw [(h.nextRule wellFormed).2]
    rfl
  · obtain ⟨done, refusal, rest, hfirst⟩ :=
      h.outcomes_of_not_permitted wellFormed htapes halphabets permitted
    exact .inr ⟨permitted, _, _, _, _,
      step_of_refused running below (applyAll_of_first_error hfirst 0)⟩

/-- As long as a step is not refused, the textbook takes it as well. -/
theorem Shows.of_step (wellFormed : d.WellFormed) (h : Shows d m c) {answer : Option Verdict}
    {next : Machine} (hstep : m.step = (.ok answer, next)) :
    ∃ after, Textbook.step d c = some after ∧ Shows d next after := by
  rcases m.step_cases with ⟨v, halted, hsame⟩ | ⟨limit, -, -, hlimit⟩ |
    ⟨tapes, running, below, -⟩ | ⟨tapes, tape, refusal, -, -, -, hrefused⟩
  · obtain rfl : next = m := congrArg Prod.snd (hstep.symm.trans hsame)
    exact ⟨c, Textbook.step_of_verdict (h.verdict_eq ▸ halted), h⟩
  · simp [hlimit] at hstep
  · rcases h.step wellFormed running below with
      ⟨permitted, moved, hmoved, hshows⟩ | ⟨-, rule, tape, refusal, failed, hfailed⟩
    · obtain rfl : next = moved := congrArg Prod.snd (hstep.symm.trans hmoved)
      refine ⟨_, ?_, hshows⟩
      rw [step_of_running (h.verdict_eq ▸ running), if_pos permitted]
    · simp [hfailed] at hstep
  · simp [hrefused] at hstep

/-- Without a limit, a step is refused exactly if the textbook is stuck, and otherwise it answers
with the verdict of the state that the textbook reaches. -/
theorem Shows.step_iff (wellFormed : d.WellFormed) (h : Shows d m c) (unlimited : m.limit = none) :
    ((∃ rule tape refusal, m.step.1 = .error (.instruction rule tape refusal)) ↔
      Textbook.step d c = none) ∧
    ∀ next, Textbook.step d c = some next → m.step.1 = .ok (Textbook.verdict d next.state) := by
  have below := reachedLimit?_of_unlimited unlimited
  cases running : m.verdict with
  | some v =>
    have hverdict : Textbook.verdict d c.state = some v := h.verdict_eq ▸ running
    rw [Machine.step_of_verdict running, Textbook.step_of_verdict hverdict]
    refine ⟨by simp, fun next hnext ↦ ?_⟩
    obtain rfl : c = next := Option.some.inj hnext
    rw [hverdict]
  | none =>
    have hverdict : Textbook.verdict d c.state = none := h.verdict_eq ▸ running
    rw [step_of_running hverdict]
    rcases h.step wellFormed running below with
      ⟨permitted, moved, hmoved, hshows⟩ | ⟨refused, rule, tape, refusal, failed, hfailed⟩
    · rw [if_pos permitted, hmoved]
      refine ⟨by simp, fun next hnext ↦ ?_⟩
      obtain rfl := Option.some.inj hnext
      rw [hshows.verdict_eq]
    · rw [if_neg refused, hfailed]
      exact ⟨⟨fun _ ↦ rfl, fun _ ↦ ⟨rule, tape, refusal, rfl⟩⟩, by simp⟩

/-! ### Runs -/

/-- Whatever a machine reaches by successive calls, the textbook reaches. -/
theorem Shows.of_advance (wellFormed : d.WellFormed) {input : List Char} {start last : Machine}
    (h : Shows d start (initial d input)) {calls : Nat} (hcalls : start.advance calls = .ok last) :
    ∃ c, after d input calls = some c ∧ Shows d last c := by
  induction calls generalizing last with
  | zero =>
    obtain rfl : start = last := by simpa [advance] using hcalls
    exact ⟨_, rfl, h⟩
  | succ calls ih =>
    obtain ⟨before, answer, hbefore, hstep⟩ := advance_succ_eq_ok_iff.1 hcalls
    obtain ⟨c, hc, hshows⟩ := ih hbefore
    obtain ⟨next, hnext, hshows⟩ := hshows.of_step wellFormed hstep
    exact ⟨next, by rw [after, hc, Option.bind_some, hnext], hshows⟩

/-- Whatever the textbook reaches, a machine without a limit reaches. -/
theorem Shows.advance_of_after (wellFormed : d.WellFormed) {input : List Char} {start : Machine}
    (h : Shows d start (initial d input)) (unlimited : start.limit = none) {calls : Nat}
    (hcalls : after d input calls = some c) : ∃ last, start.advance calls = .ok last := by
  induction calls generalizing c with
  | zero => exact ⟨start, rfl⟩
  | succ calls ih =>
    obtain ⟨before, hbefore, hstep⟩ := Option.bind_eq_some_iff.1 hcalls
    obtain ⟨m, hm⟩ := ih hbefore
    obtain ⟨shown, hshown, hshows⟩ := h.of_advance wellFormed hm
    obtain rfl : shown = before := Option.some.inj (hshown.symm.trans hbefore)
    have hanswer := (hshows.step_iff wellFormed ((limit_of_advance hm).trans unlimited)).2 c hstep
    exact ⟨m.step.2, advance_succ_eq_ok_iff.2 ⟨m, _, hm, Prod.ext hanswer rfl⟩⟩

/-- A machine runs as the textbook machine of its definition. On every input and after every number
of calls of `step`, a call has failed exactly if the textbook has been stuck. Until then the machine
shows the textbook's configuration, its heads read the same symbols, its next step is refused
exactly if the textbook is stuck there, and otherwise answers with the verdict of the textbook's
next state. -/
theorem runs_as_textbook {text : List Char} {d : Definition}
    (parsed : Definition.parse text = .ok d) (input : List Char) (calls : Nat) :
    ((∃ fault, ((new d).start input).advance calls = .error fault) ↔
      after d input calls = none) ∧
    ∀ m, ((new d).start input).advance calls = .ok m →
      ∃ c, after d input calls = some c ∧ Shows d m c ∧
        (m.symbols = List.ofFn fun i ↦ (c.rows i).read) ∧
        ((∃ rule tape refusal, m.step.1 = .error (.instruction rule tape refusal)) ↔
          Textbook.step d c = none) ∧
        ∀ next, Textbook.step d c = some next →
          m.step.1 = .ok (Textbook.verdict d next.state) := by
  have wellFormed := Definition.wellFormed_of_parse parsed
  have start : Shows d ((new d).start input) (initial d input) := shows_start d input none ">"
  refine ⟨⟨?_, ?_⟩, fun m hm ↦ ?_⟩
  · rintro ⟨fault, hfault⟩
    by_contra hstuck
    obtain ⟨c, hc⟩ := Option.ne_none_iff_exists'.1 hstuck
    obtain ⟨last, hlast⟩ := start.advance_of_after wellFormed rfl hc
    simp [hfault] at hlast
  · intro hstuck
    rcases hcalls : ((new d).start input).advance calls with fault | last
    · exact ⟨fault, rfl⟩
    · obtain ⟨c, hc, -⟩ := start.of_advance wellFormed hcalls
      simp [hstuck] at hc
  · obtain ⟨c, hc, hshows⟩ := start.of_advance wellFormed hm
    exact ⟨c, hc, hshows, hshows.symbols_eq,
      hshows.step_iff wellFormed (limit_of_advance hm)⟩

/-- A machine that writes over a `0` and goes left, where it has no rule. -/
def leftward : Definition where
  rules := [⟨"q0", [.plain '0'], "q3", [.plain '1'], [.left], none⟩]

/-- Two steps to the left of the input's only cell and back, with the window counted anew. -/
theorem leftward_runs_as_textbook :
    Definition.parse "q0 0 q3 1 l".toList = .ok leftward ∧
      ∃ m c, ((new leftward).start ['0']).advance 2 = .ok m ∧
        after leftward ['0'] 2 = some c ∧ Shows leftward m c := by
  have parsed : Definition.parse "q0 0 q3 1 l".toList = .ok leftward := rfl
  obtain ⟨m, hm⟩ : ∃ m, ((new leftward).start ['0']).advance 2 = .ok m := ⟨_, rfl⟩
  obtain ⟨c, hc, hshows, -⟩ := (runs_as_textbook parsed ['0'] 2).2 m hm
  exact ⟨parsed, m, c, hm, hc, hshows⟩

end Machine

end Multitape
