import Multitape.Proofs.Step

/-!
Runs as successive calls of `step`. `advance` makes a number of calls and stops at the first that
fails, where `afterCalls` goes on. Calls in succession add up (`advance_add`), a halted machine
answers every further call (`advance_of_verdict`), and `runFrom` makes the same calls until one
halts or fails (`runFrom_of_advance`). No call touches the definition, the limit, the marker, or the
alphabets of the tapes.

`HaltsWithin` says that a machine without a limit reaches a verdict in a bounded number of
transitions, none of which fails. It is proved one transition at a time, and
`HaltsWithin.runFrom_eq` turns it into the answer of `runFrom`, under every limit that leaves room
for the transitions (`step_unlimited`).
-/

set_option autoImplicit false
set_option relaxedAutoImplicit false

namespace Multitape.Machine

variable {m next last : Machine} {v : Verdict}

/-! ### What no step changes -/

/-- What a step leaves is the machine itself or differs in its tapes, its state and one more
transition. -/
theorem eq_of_step {answer : Except Fault (Option Verdict)} (h : m.step = (answer, next)) :
    next = { m with tapes := next.tapes, state := next.state, steps := next.steps } ∧
      next.steps ≤ m.steps + 1 := by
  rcases m.step_cases with ⟨v, -, h'⟩ | ⟨limit, -, -, h'⟩ | ⟨tapes, -, -, -, h'⟩ |
    ⟨tapes, tape, refusal, -, -, -, h'⟩ <;>
    obtain rfl := congrArg Prod.snd (h'.symm.trans h) <;> simp [moved]

theorem limit_of_step {answer : Except Fault (Option Verdict)} (h : m.step = (answer, next)) :
    next.limit = m.limit := by
  rw [(eq_of_step h).1]

/-! ### Calls in succession -/

/-- The machine after a number of calls of `step`, or the error of the first call that fails. -/
def advance : Nat → Machine → Except Fault Machine
  | 0, m => .ok m
  | calls + 1, m =>
    match m.step with
    | (.error fault, _) => .error fault
    | (.ok _, next) => advance calls next

theorem advance_succ_of_ok {answer : Option Verdict} (h : m.step = (.ok answer, next))
    (calls : Nat) : m.advance (calls + 1) = next.advance calls := by
  simp [advance, h]

theorem advance_succ_of_error {fault : Fault} (h : m.step = (.error fault, next))
    (calls : Nat) : m.advance (calls + 1) = .error fault := by
  simp [advance, h]

/-- The first calls and then the others. -/
theorem advance_add (first others : Nat) (m : Machine) :
    m.advance (first + others) = (m.advance first).bind (advance others) := by
  induction first generalizing m with
  | zero => simp [advance, Except.bind]
  | succ first ih =>
    rw [Nat.succ_add]
    rcases h : m.step with ⟨fault | answer, next⟩
    · rw [advance_succ_of_error h, advance_succ_of_error h]
      rfl
    · rw [advance_succ_of_ok h, advance_succ_of_ok h, ih]

/-- The last call is made on the machine that the calls before it leave. -/
theorem advance_succ_eq_ok_iff {calls : Nat} : m.advance (calls + 1) = .ok last ↔
    ∃ before answer, m.advance calls = .ok before ∧ before.step = (.ok answer, last) := by
  rw [advance_add]
  rcases hcalls : m.advance calls with fault | before
  · simp [Except.bind]
  · rcases hstep : before.step with ⟨fault | answer, next⟩
    · simp [Except.bind, advance, hstep]
    · simp [Except.bind, advance, hstep]

/-- What every step that succeeds keeps, successive calls keep. -/
theorem invariant_of_advance {P : Machine → Prop}
    (kept : ∀ {m next answer}, P m → m.step = (.ok answer, next) → P next) {calls : Nat}
    (holds : P m) (h : m.advance calls = .ok last) : P last := by
  induction calls generalizing m with
  | zero =>
    obtain rfl : m = last := by simpa [advance] using h
    exact holds
  | succ calls ih =>
    rcases hstep : m.step with ⟨fault | answer, next⟩
    · simp [advance_succ_of_error hstep] at h
    · rw [advance_succ_of_ok hstep] at h
      exact ih (kept holds hstep) h

theorem limit_of_advance {calls : Nat} (h : m.advance calls = .ok last) : last.limit = m.limit :=
  invariant_of_advance (P := fun n ↦ n.limit = m.limit)
    (fun same hstep ↦ (limit_of_step hstep).trans same) rfl h

theorem steps_le_of_advance {calls : Nat} (h : m.advance calls = .ok last) :
    last.steps ≤ m.steps + calls := by
  induction calls generalizing m with
  | zero =>
    obtain rfl : m = last := by simpa [advance] using h
    omega
  | succ calls ih =>
    rcases hstep : m.step with ⟨fault | answer, next⟩
    · simp [advance_succ_of_error hstep] at h
    · rw [advance_succ_of_ok hstep] at h
      have := ih h
      have := (eq_of_step hstep).2
      omega

/-- Calls of a halted machine change nothing. -/
theorem advance_of_verdict (h : m.verdict = some v) (calls : Nat) : m.advance calls = .ok m := by
  induction calls with
  | zero => rfl
  | succ calls ih => rw [advance_succ_of_ok (step_of_verdict h), ih]

/-- The answer of a step that succeeds is the verdict of the machine it leaves. -/
theorem verdict_of_step {answer : Option Verdict} (h : m.step = (.ok answer, next)) :
    next.verdict = answer := by
  rcases m.step_cases with ⟨v, running, h'⟩ | ⟨limit, -, -, h'⟩ | ⟨tapes, -, -, -, h'⟩ |
    ⟨tapes, tape, refusal, -, -, -, h'⟩ <;> rw [h] at h'
  · obtain ⟨rfl, rfl⟩ : answer = some v ∧ next = m := by simpa using h'
    exact running
  · simp at h'
  · obtain ⟨rfl, rfl⟩ : answer = _ ∧ next = _ := by simpa using h'
    rfl
  · simp at h'

/-- The machine after a number of calls of `step`, whether they fail or not. -/
def afterCalls : Nat → Machine → Machine
  | 0, m => m
  | calls + 1, m => afterCalls calls m.step.2

/-! ### Runs -/

theorem runFrom_of_step_error {fault : Fault} (h : m.step = (.error fault, next)) (fuel : Nat) :
    m.runFrom (fuel + 1) = some (.error fault, next) := by
  simp [runFrom, h]

theorem runFrom_of_step_halt (h : m.step = (.ok (some v), next)) (fuel : Nat) :
    m.runFrom (fuel + 1) = some (.ok v, next) := by
  simp [runFrom, h]

theorem runFrom_of_step_continue (h : m.step = (.ok none, next)) (fuel : Nat) :
    m.runFrom (fuel + 1) = next.runFrom fuel := by
  simp [runFrom, h]

theorem runFrom_succ_of_verdict (h : m.verdict = some v) (fuel : Nat) :
    m.runFrom (fuel + 1) = some (.ok v, m) :=
  runFrom_of_step_halt (step_of_verdict h) fuel

/-- A run goes on from the machine that its first calls leave. One more call must be allowed, since
a run ends with the call that halts, and a halted machine has to be asked again. -/
theorem runFrom_of_advance {calls : Nat} (h : m.advance calls = .ok next) (fuel : Nat) :
    m.runFrom (calls + (fuel + 1)) = next.runFrom (fuel + 1) := by
  induction calls generalizing m with
  | zero =>
    obtain rfl : m = next := by simpa [advance] using h
    rw [Nat.zero_add]
  | succ calls ih =>
    rcases hstep : m.step with ⟨fault | answer, after⟩
    · simp [advance_succ_of_error hstep] at h
    · rw [advance_succ_of_ok hstep] at h
      rw [show calls + 1 + (fuel + 1) = (calls + (fuel + 1)) + 1 by omega]
      cases answer with
      | none =>
        rw [runFrom_of_step_continue hstep]
        exact ih h
      | some v =>
        have halted := verdict_of_step hstep
        obtain rfl : after = next := by simpa [advance_of_verdict halted] using h
        rw [runFrom_succ_of_verdict halted, runFrom_of_step_halt hstep]

/-- A run that reaches a verdict answers with it. -/
theorem runFrom_of_halted {calls fuel : Nat} (h : m.advance calls = .ok last)
    (halted : last.verdict = some v) (enough : calls ≤ fuel) (asked : 0 < fuel) :
    m.runFrom fuel = some (.ok v, last) := by
  cases calls with
  | zero =>
    obtain ⟨fuel, rfl⟩ : ∃ others, fuel = others + 1 := ⟨fuel - 1, by omega⟩
    rw [← runFrom_succ_of_verdict halted fuel]
    simpa using runFrom_of_advance h fuel
  | succ calls =>
    obtain ⟨before, answer, hbefore, hstep⟩ := advance_succ_eq_ok_iff.1 h
    obtain ⟨others, rfl⟩ := Nat.exists_eq_add_of_le enough
    obtain rfl : answer = some v := (verdict_of_step hstep).symm.trans halted
    rw [show calls + 1 + others = calls + (others + 1) by omega, runFrom_of_advance hbefore,
      runFrom_of_step_halt hstep]

/-- What every call keeps, whether it succeeds or not, a run keeps. -/
theorem invariant_of_runFrom {P : Machine → Prop}
    (kept : ∀ {m next answer}, P m → m.step = (answer, next) → P next) {fuel : Nat}
    {answer : Except Fault Verdict} (holds : P m) (h : m.runFrom fuel = some (answer, last)) :
    P last := by
  induction fuel generalizing m with
  | zero => simp [runFrom] at h
  | succ fuel ih =>
    rcases hstep : m.step with ⟨fault | _ | v, after⟩
    · rw [runFrom_of_step_error hstep] at h
      obtain ⟨-, rfl⟩ := Prod.mk.inj (Option.some.inj h)
      exact kept holds hstep
    · rw [runFrom_of_step_continue hstep] at h
      exact ih (kept holds hstep) h
    · rw [runFrom_of_step_halt hstep] at h
      obtain ⟨-, rfl⟩ := Prod.mk.inj (Option.some.inj h)
      exact kept holds hstep

theorem limit_of_runFrom {fuel : Nat} {answer : Except Fault Verdict}
    (h : m.runFrom fuel = some (answer, last)) : last.limit = m.limit :=
  invariant_of_runFrom (P := fun n ↦ n.limit = m.limit)
    (fun same hstep ↦ (limit_of_step hstep).trans same) rfl h

/-! ### Limits -/

/-- The machine without its limit. -/
def unlimited (m : Machine) : Machine := { m with limit := none }

/-- Below its limit a machine steps as if it had none. -/
theorem step_unlimited (below : m.reachedLimit? = none) :
    m.unlimited.step = (m.step.1, m.step.2.unlimited) := by
  have below' : m.unlimited.reachedLimit? = none := rfl
  rcases m.step_cases with ⟨v, halted, h⟩ | ⟨limit, -, reached, -⟩ |
    ⟨tapes, running, -, applied, h⟩ | ⟨tapes, tape, refusal, running, -, refused, h⟩
  · rw [h]
    exact step_of_verdict (m := m.unlimited) halted
  · simp [below] at reached
  · rw [h]
    exact step_of_applied (m := m.unlimited) running below' applied
  · rw [h]
    exact step_of_refused (m := m.unlimited) running below' refused

/-- As long as the limit leaves room, the calls of a machine are those it would make without. -/
theorem advance_of_unlimited {calls : Nat} {free : Machine}
    (h : m.unlimited.advance calls = .ok free)
    (room : ∀ limit ∈ m.limit, m.steps + calls ≤ limit) :
    ∃ last, m.advance calls = .ok last ∧ last.unlimited = free := by
  induction calls generalizing m with
  | zero => exact ⟨m, rfl, by simpa [advance] using h⟩
  | succ calls ih =>
    have below : m.reachedLimit? = none := by
      cases bound : m.limit with
      | none => simp [reachedLimit?, bound]
      | some limit =>
        have := room limit bound
        simp only [reachedLimit?, bound, Option.filter_some, decide_eq_true_eq]
        rw [if_neg (by omega)]
    have free_step := step_unlimited below
    rcases hstep : m.step with ⟨fault | answer, next⟩
    · rw [hstep] at free_step
      simp [advance_succ_of_error free_step] at h
    · rw [hstep] at free_step
      rw [advance_succ_of_ok free_step] at h
      rw [advance_succ_of_ok hstep]
      refine ih h fun limit bound ↦ ?_
      have := room limit (limit_of_step hstep ▸ bound)
      have := (eq_of_step hstep).2
      omega

/-! ### Halting in bounded time -/

/-- The machine reaches the verdict in at most so many transitions, none of which fails. -/
def HaltsWithin (m : Machine) (bound : Nat) (v : Verdict) : Prop :=
  ∃ calls ≤ bound, ∃ last, m.advance calls = .ok last ∧ last.verdict = some v

namespace HaltsWithin

theorem of_verdict (h : m.verdict = some v) : m.HaltsWithin 0 v :=
  ⟨0, Nat.le_refl 0, m, rfl, h⟩

theorem mono {bound bound' : Nat} (h : m.HaltsWithin bound v) (le : bound ≤ bound') :
    m.HaltsWithin bound' v := by
  obtain ⟨calls, hcalls, halts⟩ := h
  exact ⟨calls, Nat.le_trans hcalls le, halts⟩

/-- One transition before the others. -/
theorem of_step {answer : Option Verdict} {bound : Nat} (h : m.step = (.ok answer, next))
    (rest : next.HaltsWithin bound v) : m.HaltsWithin (bound + 1) v := by
  obtain ⟨calls, hcalls, last, reached, halted⟩ := rest
  exact ⟨calls + 1, by omega, last, (advance_succ_of_ok h calls).trans reached, halted⟩

/-- Under a limit that leaves room for the transitions, the run answers with the verdict. -/
theorem runFrom_eq {bound fuel : Nat} (h : m.unlimited.HaltsWithin bound v)
    (room : ∀ limit ∈ m.limit, m.steps + bound ≤ limit) (enough : bound ≤ fuel)
    (asked : 0 < fuel) :
    ∃ last, m.runFrom fuel = some (.ok v, last) ∧ last.steps ≤ m.steps + bound := by
  obtain ⟨calls, hcalls, free, reached, halted⟩ := h
  obtain ⟨last, advanced, rfl⟩ := advance_of_unlimited reached fun limit bounded ↦ by
    have := room limit bounded
    omega
  have taken := steps_le_of_advance advanced
  exact ⟨last, runFrom_of_halted advanced halted (by omega) asked, by omega⟩

end HaltsWithin

end Multitape.Machine
