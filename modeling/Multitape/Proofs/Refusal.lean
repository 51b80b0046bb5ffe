import Multitape.Failure
import Multitape.Proofs.Step
import Multitape.Proofs.Tape

/-!
What a step that fails leaves behind. Whatever rule comes next reads what is under the heads, so a
tape can refuse its part of it only for the symbol to be written (`getElem?_outcomes_eq_some_iff`).
A step is therefore refused exactly if the rule writes somewhere a symbol that the tape does not
have, and it is the first such tape that refuses: the tapes before it have taken their part of the
rule, and that tape, those behind it and the rest of the machine are as they were
(`refused_at_first_foreign`).
-/

set_option autoImplicit false
set_option relaxedAutoImplicit false

namespace Multitape

namespace Machine

variable {m : Machine} {k : Nat}

/-- The rule writes on the tape in this place, where it has a move as well, a symbol that the tape
does not have. -/
def WritesForeign (m : Machine) (rule : Rule) (k : Nat) : Prop :=
  ∃ tape output move, m.tapes[k]? = some tape ∧ rule.outputs[k]? = some output ∧
    rule.moves[k]? = some move ∧ tape.alphabet.contains output = false

/-- What a tape makes of the next rule depends on the symbol to be written and on nothing else. -/
theorem getElem?_outcomes_eq_some_iff {outcome : Except Tape.Refusal Tape} :
    (outcomes m.nextRule.instructions m.tapes)[k]? = some outcome ↔
      ∃ tape output move, m.tapes[k]? = some tape ∧ m.nextRule.outputs[k]? = some output ∧
        m.nextRule.moves[k]? = some move ∧ tape.apply tape.current output move = outcome := by
  rw [outcomes, List.getElem?_zipWith_eq_some]
  constructor
  · rintro ⟨⟨input, output, move⟩, tape, hi, htape, rfl⟩
    obtain ⟨hinput, houtput, hmove⟩ := Rule.getElem?_instructions_eq_some_iff.1 hi
    obtain rfl : tape.current = input :=
      Option.some.inj ((getElem?_inputs_nextRule htape).symm.trans hinput)
    exact ⟨tape, output, move, htape, houtput, hmove, rfl⟩
  · rintro ⟨tape, output, move, htape, houtput, hmove, rfl⟩
    have hi := Rule.getElem?_instructions_eq_some_iff (i := ⟨tape.current, output, move⟩).2
      ⟨getElem?_inputs_nextRule htape, houtput, hmove⟩
    exact ⟨_, tape, hi, htape, rfl⟩

theorem writesForeign_iff :
    m.WritesForeign m.nextRule k ↔
      ∃ refusal, (outcomes m.nextRule.instructions m.tapes)[k]? = some (.error refusal) := by
  constructor
  · rintro ⟨tape, output, move, htape, houtput, hmove, hforeign⟩
    refine ⟨.foreign output tape.alphabet, getElem?_outcomes_eq_some_iff.2 ?_⟩
    refine ⟨tape, output, move, htape, houtput, hmove, ?_⟩
    rw [Tape.apply_current, if_neg (by simp [hforeign])]
  · rintro ⟨refusal, h⟩
    obtain ⟨tape, output, move, htape, houtput, hmove, happly⟩ := getElem?_outcomes_eq_some_iff.1 h
    refine ⟨tape, output, move, htape, houtput, hmove, ?_⟩
    by_contra hwrite
    rw [Tape.apply_current, if_pos (by simpa using hwrite)] at happly
    cases happly

section FirstError

variable {done : List Tape} {refusal : Tape.Refusal} {rest : List (Except Tape.Refusal Tape)}

/-- If every outcome is a tape, nothing foreign is written. -/
theorem not_writesForeign_of_all_ok
    (h : outcomes m.nextRule.instructions m.tapes = done.map .ok) (k : Nat) :
    ¬ m.WritesForeign m.nextRule k := by
  intro hforeign
  obtain ⟨refusal, hrefusal⟩ := writesForeign_iff.1 hforeign
  rw [h, List.getElem?_map] at hrefusal
  obtain ⟨tape, -, htape⟩ := Option.map_eq_some_iff.1 hrefusal
  cases htape

/-- The first outcome that is no tape is that of the first tape on which something foreign is
written. -/
theorem writesForeign_of_first_error
    (h : outcomes m.nextRule.instructions m.tapes = done.map .ok ++ .error refusal :: rest) :
    m.WritesForeign m.nextRule done.length ∧ ∀ j < done.length, ¬ m.WritesForeign m.nextRule j := by
  constructor
  · refine writesForeign_iff.2 ⟨refusal, ?_⟩
    rw [h, List.getElem?_append_right (by simp)]
    simp
  · intro j hj hforeign
    obtain ⟨other, hother⟩ := writesForeign_iff.1 hforeign
    rw [h, List.getElem?_append_left (by simpa using hj), List.getElem?_map] at hother
    obtain ⟨tape, -, htape⟩ := Option.map_eq_some_iff.1 hother
    cases htape

/-- What the step tells of the tape that refuses. -/
theorem refusal_of_first_error
    (h : outcomes m.nextRule.instructions m.tapes = done.map .ok ++ .error refusal :: rest) :
    ∃ tape output, m.tapes[done.length]? = some tape ∧
      m.nextRule.outputs[done.length]? = some output ∧ refusal = .foreign output tape.alphabet := by
  have hplace : (outcomes m.nextRule.instructions m.tapes)[done.length]? =
      some (.error refusal) := by
    rw [h, List.getElem?_append_right (by simp)]
    simp
  obtain ⟨tape, output, move, htape, houtput, -, happly⟩ :=
    getElem?_outcomes_eq_some_iff.1 hplace
  refine ⟨tape, output, htape, houtput, ?_⟩
  rw [Tape.apply_current] at happly
  split at happly
  · cases happly
  · exact (Except.error.inj happly).symm

/-- The tapes before the one that refuses have taken their part of the rule. -/
theorem applied_of_first_error
    (h : outcomes m.nextRule.instructions m.tapes = done.map .ok ++ .error refusal :: rest)
    {j : Nat} (hj : j < done.length) :
    ∃ before input output move after, m.tapes[j]? = some before ∧
      m.nextRule.inputs[j]? = some input ∧ m.nextRule.outputs[j]? = some output ∧
      m.nextRule.moves[j]? = some move ∧ before.apply input output move = .ok after ∧
      done[j]? = some after := by
  have hplace : (outcomes m.nextRule.instructions m.tapes)[j]? = some (.ok done[j]) := by
    rw [h, List.getElem?_append_left (by simpa using hj), List.getElem?_map,
      List.getElem?_eq_getElem hj, Option.map_some]
  obtain ⟨before, output, move, hbefore, houtput, hmove, happly⟩ :=
    getElem?_outcomes_eq_some_iff.1 hplace
  exact ⟨before, before.current, output, move, done[j], hbefore, getElem?_inputs_nextRule hbefore,
    houtput, hmove, happly, List.getElem?_eq_getElem hj⟩

theorem step_of_first_error (running : m.verdict = none) (below : m.reachedLimit? = none)
    (h : outcomes m.nextRule.instructions m.tapes = done.map .ok ++ .error refusal :: rest) :
    m.step = (.error (.instruction m.nextRule done.length refusal),
      { m with tapes := done ++ m.tapes.drop done.length }) := by
  have hrefused := applyAll_of_first_error h 0
  rw [Nat.zero_add] at hrefused
  exact step_of_refused running below hrefused

end FirstError

/-- A step is refused for a symbol that the next rule writes, never for the symbol to be read. -/
theorem refusal_of_step {rule : Rule} {refusal : Tape.Refusal}
    (h : m.step.1 = .error (.instruction rule k refusal)) :
    rule = m.nextRule ∧ ∃ tape output, m.tapes[k]? = some tape ∧
      m.nextRule.outputs[k]? = some output ∧ refusal = .foreign output tape.alphabet := by
  obtain ⟨running, below⟩ := running_of_refused h
  rcases all_ok_or_first_error (outcomes m.nextRule.instructions m.tapes) with
    ⟨done, hall⟩ | ⟨done, first, rest, hfirst⟩
  · rw [step_of_applied running below (applyAll_of_all_ok hall 0)] at h
    cases h
  · rw [step_of_first_error running below hfirst] at h
    obtain ⟨rfl, rfl, rfl⟩ := Fault.instruction.inj (Except.error.inj h)
    exact ⟨rfl, refusal_of_first_error hfirst⟩

/-- A machine that is running below its limit takes its next rule if that writes nothing foreign. -/
theorem step_of_nothing_foreign (running : m.verdict = none) (below : m.reachedLimit? = none)
    (nothing : ∀ k, ¬ m.WritesForeign m.nextRule k) :
    ∃ tapes, m.step = (.ok (m.moved m.nextRule tapes).verdict, m.moved m.nextRule tapes) := by
  rcases all_ok_or_first_error (outcomes m.nextRule.instructions m.tapes) with
    ⟨done, hall⟩ | ⟨done, refusal, rest, hfirst⟩
  · exact ⟨_, step_of_applied running below (applyAll_of_all_ok hall 0)⟩
  · exact absurd (writesForeign_of_first_error hfirst).1 (nothing _)

/-- A machine that is running below its limit has its next rule refused exactly if that writes
something foreign. -/
theorem refused_iff_writesForeign (running : m.verdict = none) (below : m.reachedLimit? = none) :
    (∃ rule k refusal, m.step.1 = .error (.instruction rule k refusal)) ↔
      ∃ k, m.WritesForeign m.nextRule k := by
  constructor
  · rintro ⟨rule, k, refusal, h⟩
    by_contra nothing
    obtain ⟨tapes, hstep⟩ := step_of_nothing_foreign running below (not_exists.1 nothing)
    rw [hstep] at h
    cases h
  · rintro ⟨k, hforeign⟩
    rcases all_ok_or_first_error (outcomes m.nextRule.instructions m.tapes) with
      ⟨done, hall⟩ | ⟨done, refusal, rest, hfirst⟩
    · exact absurd hforeign (not_writesForeign_of_all_ok hall k)
    · rw [step_of_first_error running below hfirst]
      exact ⟨_, _, _, rfl⟩

/-- A step is never refused for the symbol to be read. On a machine that is running below its limit,
it is refused exactly if the next rule writes on some tape a symbol which that tape does not have.
The first such tape and the rule are told. The tapes before it are as they are after their part of
the rule, and everything else is as it was. -/
theorem refused_at_first_foreign (m : Machine) :
    (∀ rule k input head found,
      m.step.1 ≠ .error (.instruction rule k (.unexpected input head found))) ∧
    (m.verdict = none → m.reachedLimit? = none →
      let rule := (m.definition.rules.find? (·.fires m.state m.symbols)).getD
        (.implicitReject m.state m.symbols m.definition.rejectState)
      ((∃ fired k refusal, m.step.1 = .error (.instruction fired k refusal)) ↔
        ∃ k, m.WritesForeign rule k) ∧
      ∀ k, m.WritesForeign rule k → (∀ j < k, ¬ m.WritesForeign rule j) →
        ∃ (tape : Tape) (output : Symbol) (tapes : List Tape),
          m.tapes[k]? = some tape ∧ rule.outputs[k]? = some output ∧
          m.step = (.error (.instruction rule k (.foreign output tape.alphabet)),
            { m with tapes }) ∧
          (Failure.run (.instruction rule k (.foreign output tape.alphabet))).message =
            "Bad instruction: " ++ (toString rule ++ " on tape " ++ toString k ++ ": " ++
              ("'" ++ toString output ++ "' is not in the tape alphabet " ++
                toString tape.alphabet)) ∧
          tapes.length = m.tapes.length ∧
          (∀ j < k, ∃ before input output move after, m.tapes[j]? = some before ∧
            rule.inputs[j]? = some input ∧ rule.outputs[j]? = some output ∧
            rule.moves[j]? = some move ∧ before.apply input output move = .ok after ∧
            tapes[j]? = some after) ∧
          ∀ j ≥ k, tapes[j]? = m.tapes[j]?) := by
  refine ⟨fun rule k input head found h ↦ ?_, fun running below ↦ ?_⟩
  · obtain ⟨-, tape, output, -, -, hforeign⟩ := refusal_of_step h
    cases hforeign
  rw [← m.nextRule_eq]
  refine ⟨refused_iff_writesForeign running below, fun k hk hleast ↦ ?_⟩
  rcases all_ok_or_first_error (outcomes m.nextRule.instructions m.tapes) with
    ⟨done, hall⟩ | ⟨done, refusal, rest, hfirst⟩
  · exact absurd hk (not_writesForeign_of_all_ok hall k)
  · obtain ⟨hforeign, hbefore⟩ := writesForeign_of_first_error hfirst
    obtain ⟨tape, output, htape, houtput, rfl⟩ := refusal_of_first_error hfirst
    have hlength : done.length < m.tapes.length := (List.getElem?_eq_some_iff.1 htape).1
    obtain rfl : k = done.length := by
      obtain hlt | heq | hgt := Nat.lt_trichotomy k done.length
      · exact absurd hk (hbefore k hlt)
      · exact heq
      · exact absurd hforeign (hleast _ hgt)
    refine ⟨tape, output, _, htape, houtput, step_of_first_error running below hfirst, rfl, ?_,
      fun j hj ↦ ?_, fun j hj ↦ ?_⟩
    · rw [List.length_append, List.length_drop]
      omega
    · obtain ⟨before, input, written, move, after, hplace, hinput, hwritten, hmove, happly,
        hafter⟩ := applied_of_first_error hfirst hj
      refine ⟨before, input, written, move, after, hplace, hinput, hwritten, hmove, happly, ?_⟩
      rw [List.getElem?_append_left hj, hafter]
    · rw [List.getElem?_append_right hj, List.getElem?_drop]
      congr 1
      omega

/-- A rule that writes something foreign on the second tape, and on the third, where it has no
move. -/
def ragged : Rule :=
  ⟨"q0", [.plain '0', .plain 'B', .plain 'B'], "q3", [.plain '1', .plain '0', .plain '0'],
    [.right, .stay], none⟩

/-- A machine with this rule. -/
def raggedly : Definition where
  tapeAlphabets := [.binaryWith (.plain 'B'), .ofList [.plain 'B'], .ofList [.plain 'B']]
  rules := [ragged]

theorem ragged_refused :
    ∃ tapes, ((new raggedly).start ['0']).step =
        (.error (.instruction ragged 1 (.foreign (.plain '0') (.ofList [.plain 'B']))),
          { (new raggedly).start ['0'] with tapes }) ∧
      tapes[1]? = ((new raggedly).start ['0']).tapes[1]? ∧
      tapes[2]? = ((new raggedly).start ['0']).tapes[2]? := by
  obtain ⟨-, hsteps⟩ := refused_at_first_foreign ((new raggedly).start ['0'])
  obtain ⟨-, hleast⟩ := hsteps rfl rfl
  have hsecond : ((new raggedly).start ['0']).WritesForeign ragged 1 :=
    ⟨_, _, _, rfl, rfl, rfl, rfl⟩
  have hfirst : ∀ j < 1, ¬ ((new raggedly).start ['0']).WritesForeign ragged j := by
    rintro j hj ⟨tape, output, move, htape, houtput, -, hforeign⟩
    obtain rfl : j = 0 := by omega
    obtain rfl := Option.some.inj htape
    obtain rfl := Option.some.inj houtput
    revert hforeign
    decide
  obtain ⟨tape, output, tapes, htape, houtput, hstep, -, -, -, hsame⟩ := hleast 1 hsecond hfirst
  obtain rfl := Option.some.inj htape
  obtain rfl := Option.some.inj houtput
  exact ⟨tapes, hstep, hsame 1 (Nat.le_refl 1), hsame 2 (by omega)⟩

end Machine

end Multitape
