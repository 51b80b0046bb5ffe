import Multitape.Proofs.ForeignInput
import Multitape.Proofs.Limit
import Multitape.Proofs.StateFindings

/-!
What the finding of a start state without rules says of the runs of a machine. In such a state no
rule fires, and on an input that the first tape admits whatever is under a head may be written back
(`contains_current_of_admits`), so that the first step rejects unless the machine has halted before
it. The finding is made of every start state without rules, even of one that accepts or rejects; a
run that starts there is over before its first transition, with the verdict of that state
(`start_without_rules_rejects_iff`).
-/

set_option autoImplicit false
set_option relaxedAutoImplicit false

namespace Multitape.Machine

open Textbook

variable {d : Definition} {m : Machine} {input : List Char}

/-- On an input that the first tape admits, every head is on a symbol of its tape. -/
theorem contains_current_of_admits {calls : Nat} {c : Configuration d.tapeCount}
    (wellFormed : d.WellFormed) (h : Shows d m c) (reached : after d input calls = some c)
    (admits : d.Admits input) : ∀ tape ∈ m.tapes, tape.alphabet.contains tape.current = true := by
  have hfirst := h.not_onForeign wellFormed reached admits
  have hothers := fun tape (htape : tape ∈ m.tapes.tail) ↦
    h.contains_cell wellFormed reached htape tape.head
  unfold OnForeign at hfirst
  intro tape htape
  cases htapes : m.tapes with
  | nil =>
    rw [htapes] at htape
    cases htape
  | cons first others =>
    rw [htapes] at htape hfirst hothers
    rcases List.mem_cons.1 htape with rfl | htape
    · by_contra hforeign
      exact hfirst ⟨_, rfl, by simpa using hforeign⟩
    · rw [Tape.current_eq_cell]
      exact hothers tape htape

/-- A run that starts in a terminal state takes no transition. -/
theorem run_of_verdict {v : Verdict} (halted : (m.start input).verdict = some v) (fuel : Nat) :
    m.run (fuel + 1) input = some (.ok v, m.start input) :=
  runFrom_succ_of_verdict halted fuel

theorem start_rejects_of_no_rules (wellFormed : d.WellFormed) (marker : String)
    (admits : d.Admits input) (ruleless : d.startState ∉ d.sources)
    (running : d.isTerminal d.startState = false) :
    ∃ last, last.steps = 1 ∧
      ∀ fuel, (fresh d none marker).run (fuel + 1) input = some (.ok .reject, last) := by
  have hshows : Shows d ((fresh d none marker).start input) (initial d input) :=
    shows_start d input none marker
  have hreached : after d input 0 = some (initial d input) := rfl
  have own := contains_current_of_admits wellFormed hshows hreached admits
  have hrunning : ((fresh d none marker).start input).verdict = none :=
    verdict_eq_none_iff.2 running
  obtain ⟨last, hstep⟩ := reject_of_no_rules rfl hrunning ruleless wellFormed.terminal own
  exact ⟨last, steps_of_step_ok hrunning hstep, fun fuel ↦ runFrom_of_step_halt hstep fuel⟩

/-- If a written definition is found to have no rules for its start state, then without a limit a
run on any input that the first tape admits rejects after exactly one transition, provided that the
start state is not terminal. If it is, the run is over before its first transition, and it accepts
if the start state is the accepting one. -/
theorem start_without_rules_rejects_iff {text : List Char} {d : Definition} {state : String}
    (parsed : Definition.parse text = .ok d) (found : .startWithoutRules state ∈ d.diagnostics)
    {input : List Char} (admits : d.Admits input) (marker : String) :
    ((∃ last, last.steps = 1 ∧
        ∀ fuel, (fresh d none marker).run (fuel + 1) input = some (.ok .reject, last)) ↔
      d.startState ≠ d.acceptState ∧ d.startState ≠ d.rejectState) ∧
    (d.startState = d.acceptState → ∀ fuel, (fresh d none marker).run (fuel + 1) input =
      some (.ok .accept, (fresh d none marker).start input)) ∧
    (d.startState = d.rejectState → ∀ fuel, (fresh d none marker).run (fuel + 1) input =
      some (.ok .reject, (fresh d none marker).start input)) := by
  have wellFormed := Definition.wellFormed_of_parse parsed
  obtain ⟨ruleless, -⟩ := Definition.mem_diagnostics_iff.1 found
  have haccept : d.startState = d.acceptState →
      ((fresh d none marker).start input).verdict = some .accept := fun h ↦ if_pos h
  have hreject : d.startState = d.rejectState →
      ((fresh d none marker).start input).verdict = some .reject := fun h ↦
    (if_neg fun h' ↦ wellFormed.terminal (h'.symm.trans h)).trans (if_pos h)
  refine ⟨?_, fun h ↦ run_of_verdict (haccept h), fun h ↦ run_of_verdict (hreject h)⟩
  rw [← Definition.isTerminal_eq_false_iff]
  constructor
  · rintro ⟨last, hsteps, hrun⟩
    by_contra hterminal
    obtain ⟨v, halted⟩ : ∃ v, ((fresh d none marker).start input).verdict = some v := by
      rcases Definition.isTerminal_eq_true_iff.1 (by simpa using hterminal) with h | h
      · exact ⟨_, haccept h⟩
      · exact ⟨_, hreject h⟩
    obtain ⟨-, rfl⟩ := Prod.mk.inj (Option.some.inj ((run_of_verdict halted 0).symm.trans (hrun 0)))
    cases hsteps
  · exact start_rejects_of_no_rules wellFormed marker admits ruleless

/-- A machine with two tapes that has rules for another state than its start state. -/
def stranded : Definition where
  startState := "q7"
  tapeAlphabets := [.binaryWith (.plain 'B'), .binaryWith (.plain 'B')]
  rules := [⟨"q0", [.plain '0', .plain 'B'], "q0", [.plain '1', .plain 'B'], [.right, .stay], none⟩]

theorem stranded_rejects :
    Definition.parse "start_state = 'q7'\nnum_tapes = 2\nq0 0 B q0 1 B r s".toList = .ok stranded ∧
      .startWithoutRules "q7" ∈ stranded.diagnostics ∧ stranded.Admits ['1', 'B', '0'] ∧
      ∃ last, last.steps = 1 ∧ ∀ fuel,
        (fresh stranded none ">").run (fuel + 1) ['1', 'B', '0'] = some (.ok .reject, last) := by
  have parsed : Definition.parse
      "start_state = 'q7'\nnum_tapes = 2\nq0 0 B q0 1 B r s".toList = .ok stranded := rfl
  have found : .startWithoutRules "q7" ∈ stranded.diagnostics := by decide
  have admits : stranded.Admits ['1', 'B', '0'] := by
    rintro _ ⟨⟩
    exact List.all_eq_true.1 rfl
  obtain ⟨hrejects, -⟩ := start_without_rules_rejects_iff parsed found admits ">"
  exact ⟨parsed, found, admits, hrejects.2 (by decide)⟩

/-- A start state without rules may be the one that accepts, and then every input is accepted. -/
theorem accepting_start_without_rules :
    ¬ ∀ (text : List Char) (d : Definition) (state : String) (input : List Char),
      Definition.parse text = .ok d → .startWithoutRules state ∈ d.diagnostics → d.Admits input →
        ∃ fuel last, (fresh d none ">").run fuel input = some (.ok .reject, last) ∧
          last.steps = 1 := by
  intro h
  have admits : ({ startState := "q1" } : Definition).Admits ['0'] := by
    rintro _ ⟨⟩
    exact List.all_eq_true.1 rfl
  obtain ⟨fuel, last, hrun, -⟩ := h "start_state = \"q1\"".toList { startState := "q1" } "q1" ['0']
    rfl (by decide) admits
  cases fuel with
  | zero => cases hrun
  | succ fuel =>
    have haccepts : (fresh { startState := "q1" } none ">").run (fuel + 1) ['0'] =
        some (.ok .accept, (fresh { startState := "q1" } none ">").start ['0']) := rfl
    rw [haccepts] at hrun
    cases hrun

end Multitape.Machine
