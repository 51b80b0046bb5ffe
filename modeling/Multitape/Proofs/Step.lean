import Multitape.Machine

/-!
What a single call of `step` can do. `outcomes` is what each tape makes of its instruction by
itself, and `applyAll` is read off it: either every outcome is a tape and all of them are taken
(`applyAll_of_all_ok`), or the tapes before the first refusal are taken and the others stay
(`applyAll_of_first_error`). `step_cases` then lists the four ways in which a call of `step` ends:
the machine is halted, is at its limit, takes its next rule, or has it refused. Whatever holds of
all steps is derived from these four cases.
-/

set_option autoImplicit false
set_option relaxedAutoImplicit false

namespace Multitape

/-- A search ends at the only item that it can find. -/
theorem find?_eq_some_of_unique {α : Type} {items : List α} {p : α → Bool} {a : α} (mem : a ∈ items)
    (found : p a = true) (unique : ∀ b ∈ items, p b = true → b = a) : items.find? p = some a := by
  cases h : items.find? p with
  | none => exact absurd found (List.find?_eq_none.1 h a mem)
  | some b => rw [unique b (List.mem_of_find?_eq_some h) (List.find?_some h)]

theorem Rule.fires_iff {rule : Rule} {state : String} {symbols : List Symbol} :
    rule.fires state symbols = true ↔ rule.source = state ∧ rule.inputs = symbols := by
  simp [Rule.fires]

/-- An instruction is what the rule has in its place in all three lists. -/
theorem Rule.getElem?_instructions_eq_some_iff {rule : Rule} {k : Nat} {i : Instruction} :
    rule.instructions[k]? = some i ↔ rule.inputs[k]? = some i.input ∧
      rule.outputs[k]? = some i.output ∧ rule.moves[k]? = some i.move := by
  rw [instructions, List.getElem?_zipWith_eq_some]
  constructor
  · rintro ⟨⟨input, output⟩, move, hio, hmove, rfl⟩
    obtain ⟨hinput, houtput⟩ := List.getElem?_zip_eq_some.1 hio
    exact ⟨hinput, houtput, hmove⟩
  · rintro ⟨hinput, houtput, hmove⟩
    exact ⟨(i.input, i.output), i.move, List.getElem?_zip_eq_some.2 ⟨hinput, houtput⟩, hmove, rfl⟩

namespace Machine

/-! ### The rule -/

theorem nextRule_eq (m : Machine) :
    m.nextRule = (m.definition.rules.find? (·.fires m.state m.symbols)).getD
      (.implicitReject m.state m.symbols m.definition.rejectState) := by
  cases h : m.definition.rules.find? (·.fires m.state m.symbols) with
  | some rule => simp [nextRule, h]
  | none => simp [nextRule, h]

/-- The next rule is the first that fires, or the implicit rejection. -/
theorem nextRule_cases (m : Machine) :
    (∃ rule, m.definition.rules.find? (·.fires m.state m.symbols) = some rule ∧
      m.nextRule = rule) ∨
    (m.definition.rules.find? (·.fires m.state m.symbols) = none ∧
      m.nextRule = .implicitReject m.state m.symbols m.definition.rejectState) := by
  cases h : m.definition.rules.find? (·.fires m.state m.symbols) with
  | some rule => exact .inl ⟨rule, rfl, by simp [nextRule_eq, h]⟩
  | none => exact .inr ⟨rfl, by simp [nextRule_eq, h]⟩

/-- Whatever rule comes next reads the symbols under the heads. -/
theorem inputs_nextRule (m : Machine) : m.nextRule.inputs = m.symbols := by
  rcases m.nextRule_cases with ⟨rule, hfind, h⟩ | ⟨-, h⟩
  · have hfires : rule.fires m.state m.symbols = true := by simpa using List.find?_some hfind
    rw [h]
    exact (Rule.fires_iff.1 hfires).2
  · rw [h]
    rfl

theorem getElem?_inputs_nextRule {m : Machine} {k : Nat} {tape : Tape}
    (h : m.tapes[k]? = some tape) : m.nextRule.inputs[k]? = some tape.current := by
  rw [inputs_nextRule, symbols, List.getElem?_map, h, Option.map_some]

/-! ### The tapes -/

/-- What each tape makes of its instruction. -/
def outcomes (instructions : List Instruction) (tapes : List Tape) :
    List (Except Tape.Refusal Tape) :=
  List.zipWith (fun i tape ↦ tape.apply i.input i.output i.move) instructions tapes

/-- Either all outcomes are results, or there is a first error among them. -/
theorem all_ok_or_first_error {ε α : Type} (found : List (Except ε α)) :
    (∃ done : List α, found = done.map .ok) ∨
      ∃ (done : List α) (fault : ε) (rest : List (Except ε α)),
        found = done.map .ok ++ .error fault :: rest := by
  induction found with
  | nil => exact .inl ⟨[], rfl⟩
  | cons first rest ih =>
    cases first with
    | error fault => exact .inr ⟨[], fault, rest, rfl⟩
    | ok a =>
      rcases ih with ⟨done, rfl⟩ | ⟨done, fault, behind, rfl⟩
      · exact .inl ⟨a :: done, rfl⟩
      · exact .inr ⟨a :: done, fault, behind, rfl⟩

/-- If no tape refuses, every tape that has an instruction is changed by it. -/
theorem applyAll_of_all_ok {instructions : List Instruction} {tapes done : List Tape}
    (h : outcomes instructions tapes = done.map .ok) (index : Nat) :
    applyAll index instructions tapes = (done ++ tapes.drop done.length, none) := by
  induction instructions generalizing tapes done index with
  | nil =>
    have : done = [] := by simpa [outcomes] using h
    simp [applyAll, this]
  | cons i instructions ih =>
    cases tapes with
    | nil =>
      have : done = [] := by simpa [outcomes] using h
      simp [applyAll, this]
    | cons tape tapes =>
      cases done with
      | nil => simp [outcomes] at h
      | cons changed done =>
        simp only [outcomes, List.zipWith_cons_cons, List.map_cons, List.cons.injEq] at h
        simp [applyAll, h.1, ih h.2 (index + 1)]

/-- The first tape to refuse stays as it was, and so do the tapes behind it. -/
theorem applyAll_of_first_error {instructions : List Instruction} {tapes done : List Tape}
    {refusal : Tape.Refusal} {rest : List (Except Tape.Refusal Tape)}
    (h : outcomes instructions tapes = done.map .ok ++ .error refusal :: rest) (index : Nat) :
    applyAll index instructions tapes =
      (done ++ tapes.drop done.length, some (index + done.length, refusal)) := by
  induction instructions generalizing tapes done index with
  | nil => simp [outcomes] at h
  | cons i instructions ih =>
    cases tapes with
    | nil => simp [outcomes] at h
    | cons tape tapes =>
      cases done with
      | nil =>
        simp only [outcomes, List.zipWith_cons_cons, List.map_nil, List.nil_append,
          List.cons.injEq] at h
        simp [applyAll, h.1]
      | cons changed done =>
        simp only [outcomes, List.zipWith_cons_cons, List.map_cons, List.cons_append,
          List.cons.injEq] at h
        simp [applyAll, h.1, ih h.2 (index + 1)]
        omega

/-! ### The four ways a step can end -/

/-- A halted machine stays as it is. -/
theorem step_of_verdict {m : Machine} {v : Verdict} (h : m.verdict = some v) :
    m.step = (.ok (some v), m) := by
  simp [step, h]

/-- A machine at its limit stays as it is. -/
theorem step_of_limit {m : Machine} {limit : Nat} (running : m.verdict = none)
    (h : m.reachedLimit? = some limit) : m.step = (.error (.stepLimit limit), m) := by
  simp [step, running, h]

/-- The machine with its tapes changed by a rule, in the state that the rule leads to. -/
def moved (m : Machine) (rule : Rule) (tapes : List Tape) : Machine :=
  { m with tapes, state := rule.target, steps := m.steps + 1 }

theorem reachedLimit?_of_unlimited {m : Machine} (h : m.limit = none) : m.reachedLimit? = none := by
  rw [reachedLimit?, h, Option.filter_none]

theorem step_of_applied {m : Machine} {tapes : List Tape} (running : m.verdict = none)
    (below : m.reachedLimit? = none)
    (h : applyAll 0 m.nextRule.instructions m.tapes = (tapes, none)) :
    m.step = (.ok (m.moved m.nextRule tapes).verdict, m.moved m.nextRule tapes) := by
  simp [step, running, below, h, moved]

theorem step_of_refused {m : Machine} {tapes : List Tape} {tape : Nat} {refusal : Tape.Refusal}
    (running : m.verdict = none) (below : m.reachedLimit? = none)
    (h : applyAll 0 m.nextRule.instructions m.tapes = (tapes, some (tape, refusal))) :
    m.step = (.error (.instruction m.nextRule tape refusal), { m with tapes }) := by
  simp [step, running, below, h]

/-- The ways in which a call of `step` ends. -/
theorem step_cases (m : Machine) :
    (∃ v, m.verdict = some v ∧ m.step = (.ok (some v), m)) ∨
    (∃ limit, m.verdict = none ∧ m.reachedLimit? = some limit ∧
      m.step = (.error (.stepLimit limit), m)) ∨
    (∃ tapes, m.verdict = none ∧ m.reachedLimit? = none ∧
      applyAll 0 m.nextRule.instructions m.tapes = (tapes, none) ∧
      m.step = (.ok (m.moved m.nextRule tapes).verdict, m.moved m.nextRule tapes)) ∨
    (∃ tapes tape refusal, m.verdict = none ∧ m.reachedLimit? = none ∧
      applyAll 0 m.nextRule.instructions m.tapes = (tapes, some (tape, refusal)) ∧
      m.step = (.error (.instruction m.nextRule tape refusal), { m with tapes })) := by
  cases running : m.verdict with
  | some v => exact .inl ⟨v, rfl, step_of_verdict running⟩
  | none =>
    cases reached : m.reachedLimit? with
    | some limit => exact .inr (.inl ⟨limit, rfl, rfl, step_of_limit running reached⟩)
    | none =>
      rcases h : applyAll 0 m.nextRule.instructions m.tapes with ⟨tapes, _ | ⟨tape, refusal⟩⟩
      · exact .inr (.inr (.inl ⟨tapes, rfl, rfl, rfl, step_of_applied running reached h⟩))
      · exact .inr (.inr (.inr
          ⟨tapes, tape, refusal, rfl, rfl, rfl, step_of_refused running reached h⟩))

/-- A step that is refused is one of a running machine below its limit. -/
theorem running_of_refused {m : Machine} {rule : Rule} {tape : Nat} {refusal : Tape.Refusal}
    (h : m.step.1 = .error (.instruction rule tape refusal)) :
    m.verdict = none ∧ m.reachedLimit? = none := by
  rcases m.step_cases with ⟨v, -, h'⟩ | ⟨limit, -, -, h'⟩ | ⟨tapes, -, -, -, h'⟩ |
    ⟨tapes, tape, refusal, running, below, -, -⟩
  · rw [h'] at h
    cases h
  · rw [h'] at h
    cases h
  · rw [h'] at h
    cases h
  · exact ⟨running, below⟩

end Machine

end Multitape
