import Multitape.Proofs.DeadRules
import Multitape.Proofs.Diagnostic
import Multitape.Proofs.Refusal

/-!
What a finding about states says of the runs of a machine. The states that are found to be
unreachable are those sources of rules, not terminal, to which no path of rules leads from the start
state; the visit that finds them ends, in whatever order it takes the states; and no run is ever in
one of them (`unreachable_exactly`).

The dead ends are the targets of rules that are not terminal and have no rules. A run is only ever
in a state of the definition or in a dead end (`mem_states_or_deadEnds`). In a dead end no
rule fires, so that the next step rejects, or is refused because a symbol that is to be written back
is foreign to its tape (`reject_of_deadEnd`, `refused_of_deadEnd`). Both findings are told in
ascending order and without repetition.
-/

set_option autoImplicit false
set_option relaxedAutoImplicit false

namespace Multitape

namespace Machine

/-- Wherever calls have led a machine, no path of rules was needed that is not there. -/
theorem Visits.not_mem_unreachable {d : Definition} {m : Machine} (h : Visits d m) :
    m.state ∉ d.unreachable := by
  intro hmem
  obtain ⟨-, hnot, hrunning⟩ := Definition.mem_unreachable_iff.1 hmem
  rcases h.state with hled | hterminal
  · exact hnot hled
  · rw [hrunning] at hterminal
    cases hterminal

end Machine

namespace Definition

/-- Every visit comes to an end, whatever the order in which it takes the states, and has then found
the states to which a path of rules leads from the start state; the reachable states are the result
of such a visit. The states found to be unreachable are listed in ascending order, and they are the
sources of rules that are not terminal and to which no such path leads. They are a finding exactly
if there are any. No machine of the definition is ever in one of them, whatever its input, its limit
and the number of calls. -/
theorem unreachable_exactly (d : Definition) :
    (WellFounded fun next walk ↦ d.Turn walk next) ∧
    (∀ walk, Relation.ReflTransGen d.Turn d.outset walk → (∀ next, ¬ d.Turn walk next) →
      ∀ state, state ∈ walk.visited ↔ Relation.ReflTransGen d.Edge d.startState state) ∧
    Relation.ReflTransGen d.Turn d.outset ⟨[], d.reachable⟩ ∧
    d.unreachable.Pairwise (· < ·) ∧
    (∀ state, state ∈ d.unreachable ↔ state ∈ d.sources ∧ state ≠ d.acceptState ∧
      state ≠ d.rejectState ∧ ¬ Relation.ReflTransGen d.Edge d.startState state) ∧
    (∀ listed, .unreachable listed ∈ d.diagnostics ↔ listed ≠ [] ∧ listed = d.unreachable) ∧
    ∀ limit marker input calls,
      (((Machine.fresh d limit marker).start input).afterCalls calls).state ∉ d.unreachable := by
  refine ⟨d.wellFounded_turn, fun walk hturns hended state ↦ ?_, d.turns_reachable,
    Text.pairwise_ascending _, fun state ↦ ?_, fun listed ↦ ?_,
    fun limit marker input calls ↦ ?_⟩
  · rw [← led_iff_path]
    exact (Explores.of_turns hturns).mem_visited_iff hended
  · have hrunning : d.isTerminal state = false ↔ state ≠ d.acceptState ∧ state ≠ d.rejectState := by
      simp [isTerminal]
    rw [mem_unreachable_iff, hrunning, led_iff_path]
    tauto
  · rw [mem_diagnostics_iff, Finds]
    constructor
    · rintro ⟨hsome, rfl⟩
      exact ⟨hsome, rfl⟩
    · rintro ⟨hsome, rfl⟩
      exact ⟨hsome, rfl⟩
  · exact ((Machine.visits_start limit marker input).afterCalls calls).not_mem_unreachable

/-- A machine with two states that lead to each other, and to which nothing else leads. -/
def secluded : Definition where
  rules := [⟨"q9", [.plain '0'], "q4", [.plain '0'], [.right], none⟩,
    ⟨"q4", [.plain '0'], "q9", [.plain '0'], [.left], none⟩,
    ⟨"q0", [.plain '0'], "q3", [.plain '0'], [.right], none⟩,
    ⟨"q9", [.plain '1'], "q3", [.plain '1'], [.right], none⟩]

theorem secluded_unreachable :
    .unreachable ["q4", "q9"] ∈ secluded.diagnostics ∧
      ∀ input calls,
        (((Machine.fresh secluded none ">").start input).afterCalls calls).state ∉
          ["q4", "q9"] := by
  obtain ⟨-, -, -, -, -, found, never⟩ := unreachable_exactly secluded
  have listed : ["q4", "q9"] = secluded.unreachable := by decide
  refine ⟨(found _).2 ⟨by simp, listed⟩, fun input calls ↦ ?_⟩
  rw [listed]
  exact never none ">" input calls

end Definition

/-! ### Dead ends -/

namespace Definition

variable {d : Definition} {state : String}

theorem mem_addState {states : List String} {added : String} :
    state ∈ addState states added ↔ state ∈ states ∨ state = added := by
  unfold addState
  split_ifs with hold
  · have hmem : added ∈ states := by simpa using hold
    constructor
    · exact .inl
    · rintro (h | rfl)
      · exact h
      · exact hmem
  · rw [List.mem_append, List.mem_singleton]

theorem mem_foldl_addState {states added : List String} :
    state ∈ added.foldl addState states ↔ state ∈ states ∨ state ∈ added := by
  induction added generalizing states with
  | nil => simp
  | cons first rest ih => rw [List.foldl_cons, ih, mem_addState, List.mem_cons, or_assoc]

/-- The states are the start, accept and reject states and those with rules. -/
theorem mem_states_iff : state ∈ d.states ↔
    (state = d.startState ∨ state = d.acceptState ∨ state = d.rejectState) ∨ state ∈ d.sources := by
  rw [states, mem_foldl_addState, sources]
  simp only [List.mem_cons, List.not_mem_nil, or_false]

theorem mem_deadEnds_iff : state ∈ d.deadEnds ↔
    (∃ rule ∈ d.rules, rule.target = state) ∧ d.isTerminal state = false ∧ state ∉ d.sources := by
  simp only [deadEnds, Text.mem_ascending, List.mem_filter, List.mem_map, Bool.and_eq_true,
    Bool.not_eq_true', List.contains_eq_mem, decide_eq_false_iff_not]

theorem isTerminal_eq_true_iff :
    d.isTerminal state = true ↔ state = d.acceptState ∨ state = d.rejectState := by
  simp [isTerminal]

theorem isTerminal_eq_false_iff :
    d.isTerminal state = false ↔ state ≠ d.acceptState ∧ state ≠ d.rejectState := by
  simp [isTerminal]

/-- A state that is led to or terminal is one of the definition's or a dead end. -/
theorem mem_states_or_deadEnds (h : d.Led state ∨ d.isTerminal state = true) :
    state ∈ d.states ∨ state ∈ d.deadEnds := by
  rw [mem_states_iff, mem_deadEnds_iff]
  by_cases hterminal : d.isTerminal state = true
  · exact .inl (.inl (.inr (isTerminal_eq_true_iff.1 hterminal)))
  · rcases h with hled | hended
    · cases hled with
      | start => exact .inl (.inl (.inl rfl))
      | @rule rule hrule _ =>
        by_cases hsource : rule.target ∈ d.sources
        · exact .inl (.inr hsource)
        · exact .inr ⟨⟨rule, hrule, rfl⟩, by simpa using hterminal, hsource⟩
    · exact absurd hended hterminal

end Definition

namespace Machine

variable {d : Definition} {m : Machine}

theorem limit_afterCalls (m : Machine) (calls : Nat) : (m.afterCalls calls).limit = m.limit := by
  induction calls generalizing m with
  | zero => rfl
  | succ calls ih =>
    have hstep : m.step = (m.step.1, m.step.2) := rfl
    exact (ih m.step.2).trans (limit_of_step hstep)

/-- In a state without rules none fires. -/
theorem nextRule_of_no_rules (h : m.state ∉ m.definition.sources) :
    m.nextRule = .implicitReject m.state m.symbols m.definition.rejectState := by
  rcases m.nextRule_cases with ⟨rule, hfind, -⟩ | ⟨-, hrule⟩
  · have hfires : rule.fires m.state m.symbols = true := by simpa using List.find?_some hfind
    refine absurd ?_ h
    rw [← (Rule.fires_iff.1 hfires).1]
    exact List.mem_map_of_mem (List.mem_of_find?_eq_some hfind)
  · exact hrule

theorem nextRule_of_deadEnd (h : m.state ∈ m.definition.deadEnds) :
    m.nextRule = .implicitReject m.state m.symbols m.definition.rejectState :=
  nextRule_of_no_rules (Definition.mem_deadEnds_iff.1 h).2.2

/-- The rejection writes back what it reads, and has a move for every tape. -/
theorem writesForeign_implicitReject_iff {source rejectState : String} {k : Nat} :
    m.WritesForeign (.implicitReject source m.symbols rejectState) k ↔
      ∃ tape, m.tapes[k]? = some tape ∧ tape.alphabet.contains tape.current = false := by
  simp only [WritesForeign, Rule.implicitReject, symbols, List.map_map, List.getElem?_map,
    Option.map_eq_some_iff]
  constructor
  · rintro ⟨tape, output, move, htape, ⟨other, hother, rfl⟩, -, hforeign⟩
    obtain rfl : tape = other := Option.some.inj (htape.symm.trans hother)
    exact ⟨tape, htape, hforeign⟩
  · rintro ⟨tape, htape, hforeign⟩
    exact ⟨tape, tape.current, .right, htape, ⟨tape, htape, rfl⟩, ⟨tape, htape, rfl⟩, hforeign⟩

/-- In a state without rules a running machine rejects, if every symbol under a head may be written
back. -/
theorem reject_of_no_rules (unlimited : m.limit = none) (running : m.verdict = none)
    (ruleless : m.state ∉ m.definition.sources)
    (distinct : m.definition.acceptState ≠ m.definition.rejectState)
    (own : ∀ tape ∈ m.tapes, tape.alphabet.contains tape.current = true) :
    ∃ next, m.step = (.ok (some .reject), next) := by
  have below := reachedLimit?_of_unlimited unlimited
  have hrule := nextRule_of_no_rules ruleless
  have hnothing : ∀ k, ¬ m.WritesForeign m.nextRule k := by
    intro k hforeign
    rw [hrule, writesForeign_implicitReject_iff] at hforeign
    obtain ⟨tape, htape, hforeign⟩ := hforeign
    rw [own tape (List.mem_of_getElem? htape)] at hforeign
    cases hforeign
  obtain ⟨tapes, hstep⟩ := step_of_nothing_foreign running below hnothing
  have hstate : (m.moved m.nextRule tapes).state = m.definition.rejectState := by
    rw [moved, hrule]
    rfl
  have hdefinition : (m.moved m.nextRule tapes).definition = m.definition := rfl
  rw [verdict, hstate, hdefinition, if_neg distinct.symm, if_pos rfl] at hstep
  exact ⟨_, hstep⟩

section DeadEnd

variable (unlimited : m.limit = none) (deadEnd : m.state ∈ m.definition.deadEnds)

include deadEnd in
theorem running_of_deadEnd : m.verdict = none :=
  verdict_eq_none_iff.2 (Definition.mem_deadEnds_iff.1 deadEnd).2.1

include unlimited deadEnd

/-- In a dead end a machine rejects, if every symbol under a head may be written back. -/
theorem reject_of_deadEnd (distinct : m.definition.acceptState ≠ m.definition.rejectState)
    (own : ∀ tape ∈ m.tapes, tape.alphabet.contains tape.current = true) :
    m.step.1 = .ok (some .reject) := by
  obtain ⟨-, -, ruleless⟩ := Definition.mem_deadEnds_iff.1 deadEnd
  obtain ⟨next, hstep⟩ :=
    reject_of_no_rules unlimited (running_of_deadEnd deadEnd) ruleless distinct own
  rw [hstep]

/-- In a dead end a machine fails, if some symbol under a head is foreign to its tape. -/
theorem refused_of_deadEnd
    (foreign : ∃ tape ∈ m.tapes, tape.alphabet.contains tape.current = false) :
    ∃ rule k refusal, m.step.1 = .error (.instruction rule k refusal) := by
  have below := reachedLimit?_of_unlimited unlimited
  obtain ⟨tape, hmem, hforeign⟩ := foreign
  obtain ⟨k, htape⟩ := List.mem_iff_getElem?.1 hmem
  refine (refused_iff_writesForeign (running_of_deadEnd deadEnd) below).2 ⟨k, ?_⟩
  rw [nextRule_of_deadEnd deadEnd, writesForeign_implicitReject_iff]
  exact ⟨tape, htape, hforeign⟩

end DeadEnd

end Machine

namespace Definition

open Machine

/-- The dead ends are told in ascending order, and they are the targets of rules that are not
terminal and are the source of no rule. A run of a machine of the definition, whatever its input,
its limit and the number of calls, is in a state of the definition or in a dead end. If the terminal
states differ, then without a limit the next step in a dead end rejects or is refused, according to
whether every symbol under a head is in the alphabet of its tape; it does not go on and does not
accept. -/
theorem deadEnds_exactly (d : Definition) :
    d.deadEnds.Pairwise (· < ·) ∧
    (∀ state, state ∈ d.deadEnds ↔ (∃ rule ∈ d.rules, rule.target = state) ∧
      state ≠ d.acceptState ∧ state ≠ d.rejectState ∧ ∀ rule ∈ d.rules, rule.source ≠ state) ∧
    (∀ listed, .deadEnds listed ∈ d.diagnostics ↔ listed ≠ [] ∧ listed = d.deadEnds) ∧
    ∀ (m : Machine) (input : List Char) (calls : Nat), m.definition = d →
      let reached := (m.start input).afterCalls calls
      (reached.state ∈ d.states ∨ reached.state ∈ d.deadEnds) ∧
      (d.acceptState ≠ d.rejectState → m.limit = none → reached.state ∈ d.deadEnds →
        ((∀ tape ∈ reached.tapes, tape.alphabet.contains tape.current = true) →
          reached.step.1 = .ok (some .reject)) ∧
        ((∃ tape ∈ reached.tapes, tape.alphabet.contains tape.current = false) →
          ∃ rule k refusal, reached.step.1 = .error (.instruction rule k refusal)) ∧
        reached.step.1 ≠ .ok none ∧ reached.step.1 ≠ .ok (some .accept)) := by
  refine ⟨Text.pairwise_ascending _, fun state ↦ ?_, fun listed ↦ ?_, ?_⟩
  · rw [mem_deadEnds_iff, isTerminal_eq_false_iff, sources, and_assoc]
    simp only [List.mem_map, not_exists, not_and]
  · rw [mem_diagnostics_iff, Finds, ne_nil_and_eq_comm]
  · rintro m input calls rfl reached
    have hstart : Visits m.definition (m.start input) := ⟨rfl, .inl .start⟩
    have hvisits : Visits m.definition reached := hstart.afterCalls calls
    refine ⟨mem_states_or_deadEnds hvisits.state, fun distinct unlimited deadEnd ↦ ?_⟩
    rw [← hvisits.definition] at distinct deadEnd
    have hlimit : reached.limit = none := ((m.start input).limit_afterCalls calls).trans unlimited
    have hrejects := reject_of_deadEnd hlimit deadEnd distinct
    have hfails := refused_of_deadEnd hlimit deadEnd
    refine ⟨hrejects, hfails, ?_⟩
    by_cases own : ∀ tape ∈ reached.tapes, tape.alphabet.contains tape.current = true
    · rw [hrejects own]
      simp
    · have hforeign : ∃ tape ∈ reached.tapes, tape.alphabet.contains tape.current = false := by
        simpa using own
      obtain ⟨rule, k, refusal, hfailed⟩ := hfails hforeign
      rw [hfailed]
      simp

/-- A machine that goes over the first character into one of two states without rules. -/
def heedless : Definition where
  rules := [⟨"q0", [.plain '0'], "q9", [.plain '0'], [.right], none⟩,
    ⟨"q0", [.plain '1'], "q10", [.plain '1'], [.right], none⟩]

/-- Behind the first character there may be one that the rejection can write back, or not. -/
theorem heedless_deadEnds :
    .deadEnds ["q10", "q9"] ∈ heedless.diagnostics ∧
      (((new heedless).start ['0', '1']).afterCalls 1).step.1 = .ok (some .reject) ∧
      ∃ rule k refusal, (((new heedless).start ['1', 'x']).afterCalls 1).step.1 =
        .error (.instruction rule k refusal) := by
  obtain ⟨-, -, found, hruns⟩ := deadEnds_exactly heedless
  have listed : ["q10", "q9"] = heedless.deadEnds := by decide
  obtain ⟨-, hfirst⟩ := hruns (new heedless) ['0', '1'] 1 rfl
  obtain ⟨-, hsecond⟩ := hruns (new heedless) ['1', 'x'] 1 rfl
  obtain ⟨hrejects, -⟩ := hfirst (by decide) rfl (by decide)
  obtain ⟨-, hfails, -⟩ := hsecond (by decide) rfl (by decide)
  exact ⟨(found _).2 ⟨by simp, listed⟩, hrejects (by decide), hfails (by decide)⟩

end Definition

end Multitape
