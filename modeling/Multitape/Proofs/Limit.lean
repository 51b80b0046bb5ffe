import Multitape.Proofs.Run

/-!
What a step limit does to a run. A run that ends gives the same answer however long one is willing
to wait for it (`runFrom_mono`, `Ends.unique`). Below its limit a machine makes the calls that it
would make without one, so that under a limit a run ends in one of three ways
(`run_withLimit_cases`): it halts as it would without a limit, it fails as it would without a
limit, or the limit stops it where the machine without one goes on. Which of them it is, the
unlimited run tells (`limit_cuts_run`).
-/

set_option autoImplicit false
set_option relaxedAutoImplicit false

namespace Multitape.Machine

variable {m next last : Machine} {v : Verdict} {limit : Nat}

/-! ### Waiting longer -/

theorem runFrom_mono {fuel fuel' : Nat} {ending : Except Fault Verdict × Machine}
    (h : m.runFrom fuel = some ending) (le : fuel ≤ fuel') : m.runFrom fuel' = some ending := by
  induction fuel generalizing m fuel' with
  | zero => cases h
  | succ fuel ih =>
    obtain ⟨fuel', rfl⟩ : ∃ others, fuel' = others + 1 := ⟨fuel' - 1, by omega⟩
    rcases hstep : m.step with ⟨fault | _ | v, after⟩
    · rwa [runFrom_of_step_error hstep] at h ⊢
    · rw [runFrom_of_step_continue hstep] at h ⊢
      exact ih h (by omega)
    · rwa [runFrom_of_step_halt hstep] at h ⊢

/-- A run ends in one way only. -/
theorem runFrom_unique {fuel fuel' : Nat} {ending ending' : Except Fault Verdict × Machine}
    (h : m.runFrom fuel = some ending) (h' : m.runFrom fuel' = some ending') :
    ending = ending' := by
  have long := runFrom_mono h (Nat.le_max_left fuel fuel')
  have long' := runFrom_mono h' (Nat.le_max_right fuel fuel')
  exact Option.some.inj (long.symm.trans long')

/-! ### Counting transitions -/

theorem steps_of_step_ok {answer : Option Verdict} (running : m.verdict = none)
    (h : m.step = (.ok answer, next)) : next.steps = m.steps + 1 := by
  rcases m.step_cases with ⟨v, halted, -⟩ | ⟨limit, -, -, h'⟩ | ⟨tapes, -, -, -, h'⟩ |
    ⟨tapes, tape, refusal, -, -, -, h'⟩
  · rw [running] at halted
    cases halted
  · cases h.symm.trans h'
  · cases h.symm.trans h'
    rfl
  · cases h.symm.trans h'

theorem steps_of_step_error {fault : Fault} (h : m.step = (.error fault, next)) :
    next.steps = m.steps := by
  rcases m.step_cases with ⟨v, -, h'⟩ | ⟨limit, -, -, h'⟩ | ⟨tapes, -, -, -, h'⟩ |
    ⟨tapes, tape, refusal, -, -, -, h'⟩
  · cases h.symm.trans h'
  · cases h.symm.trans h'
    rfl
  · cases h.symm.trans h'
  · cases h.symm.trans h'
    rfl

theorem running_of_step (h : m.step = (.ok none, next)) : m.verdict = none := by
  cases running : m.verdict with
  | none => rfl
  | some v => cases h.symm.trans (step_of_verdict running)

/-- No call takes a transition back. -/
theorem steps_le_of_step {answer : Except Fault (Option Verdict)} (h : m.step = (answer, next)) :
    m.steps ≤ next.steps := by
  cases answer with
  | error fault => exact Nat.le_of_eq (steps_of_step_error h).symm
  | ok answer =>
    cases running : m.verdict with
    | none =>
      have := steps_of_step_ok running h
      omega
    | some v =>
      cases h.symm.trans (step_of_verdict running)
      exact Nat.le_refl _

theorem steps_le_of_runFrom {fuel : Nat} {answer : Except Fault Verdict}
    (h : m.runFrom fuel = some (answer, last)) : m.steps ≤ last.steps :=
  invariant_of_runFrom (P := fun n ↦ m.steps ≤ n.steps)
    (fun le hstep ↦ Nat.le_trans le (steps_le_of_step hstep)) (Nat.le_refl _) h

/-- A machine that is still running takes a transition before it halts. -/
theorem steps_lt_of_runFrom {fuel : Nat} (running : m.verdict = none)
    (h : m.runFrom fuel = some (.ok v, last)) : m.steps < last.steps := by
  cases fuel with
  | zero => cases h
  | succ fuel =>
    rcases hstep : m.step with ⟨fault | _ | v', after⟩
    · rw [runFrom_of_step_error hstep] at h
      cases h
    · rw [runFrom_of_step_continue hstep] at h
      have := steps_of_step_ok running hstep
      have := steps_le_of_runFrom h
      omega
    · rw [runFrom_of_step_halt hstep] at h
      have := steps_of_step_ok running hstep
      cases h
      omega

/-! ### Under a limit -/

theorem withLimit_eq_self {bound : Option Nat} (h : m.limit = bound) : m.withLimit bound = m := by
  rw [withLimit, ← h]

theorem reachedLimit?_withLimit : (m.withLimit (some limit)).reachedLimit? =
    if limit ≤ m.steps then some limit else none := by
  rw [reachedLimit?, withLimit, Option.filter_some]
  simp only [decide_eq_true_eq]

/-- Below the limit a machine steps as it would without. -/
theorem step_withLimit (free : m.limit = none) (below : m.steps < limit) :
    (m.withLimit (some limit)).step = (m.step.1, m.step.2.withLimit (some limit)) := by
  have hbelow : (m.withLimit (some limit)).reachedLimit? = none := by
    rw [reachedLimit?_withLimit, if_neg (by omega)]
  have hfree : (m.withLimit (some limit)).unlimited = m := withLimit_eq_self free
  have hstep := step_unlimited hbelow
  rcases hwithin : (m.withLimit (some limit)).step with ⟨answer, after⟩
  have hlimit : after.limit = some limit := limit_of_step hwithin
  rw [hfree, hwithin] at hstep
  have hafter : after.unlimited.withLimit (some limit) = after := withLimit_eq_self hlimit
  rw [hstep, hafter]

/-- At the limit a machine that is running stops. -/
theorem step_at_limit (running : m.verdict = none) (reached : m.steps = limit) :
    (m.withLimit (some limit)).step = (.error (.stepLimit limit), m.withLimit (some limit)) := by
  refine step_of_limit running ?_
  rw [reachedLimit?_withLimit, if_pos (by omega)]

/-- Under a limit, with room for so many transitions, a run halts or fails as it would without a
limit, or the limit stops it behind that many transitions. -/
theorem runFrom_withLimit_cases {room : Nat} (free : m.limit = none)
    (count : m.steps + room = limit) :
    (∃ v last, m.runFrom (room + 1) = some (.ok v, last) ∧ last.steps ≤ limit ∧
      (m.withLimit (some limit)).runFrom (room + 1) = some (.ok v, last.withLimit (some limit))) ∨
    (∃ fault last, m.runFrom (room + 1) = some (.error fault, last) ∧ last.steps < limit ∧
      (m.withLimit (some limit)).runFrom (room + 1) =
        some (.error fault, last.withLimit (some limit))) ∨
    (∃ last, m.advance room = .ok last ∧ last.verdict = none ∧ last.steps = limit ∧
      (m.withLimit (some limit)).runFrom (room + 1) =
        some (.error (.stepLimit limit), last.withLimit (some limit))) := by
  induction room generalizing m with
  | zero =>
    cases running : m.verdict with
    | some v =>
      exact .inl ⟨v, m, runFrom_succ_of_verdict running 0, by omega,
        runFrom_succ_of_verdict (m := m.withLimit (some limit)) running 0⟩
    | none =>
      have hstop := step_at_limit running (show m.steps = limit by omega)
      exact .inr (.inr ⟨m, rfl, running, by omega, runFrom_of_step_error hstop 0⟩)
  | succ room ih =>
    have hwithin : (m.withLimit (some limit)).step =
        (m.step.1, m.step.2.withLimit (some limit)) := step_withLimit free (by omega)
    rcases hstep : m.step with ⟨fault | _ | v, after⟩
    · rw [hstep] at hwithin
      have := steps_of_step_error hstep
      exact .inr (.inl ⟨fault, after, runFrom_of_step_error hstep _, by omega,
        runFrom_of_step_error hwithin _⟩)
    · rw [hstep] at hwithin
      have hfree : after.limit = none := (limit_of_step hstep).trans free
      have := steps_of_step_ok (running_of_step hstep) hstep
      rw [runFrom_of_step_continue hstep, runFrom_of_step_continue hwithin,
        advance_succ_of_ok hstep]
      exact ih hfree (by omega)
    · rw [hstep] at hwithin
      have := (eq_of_step hstep).2
      exact .inl ⟨v, after, runFrom_of_step_halt hstep _, by omega,
        runFrom_of_step_halt hwithin _⟩

/-! ### Runs from the start -/

/-- The run on the input ends with this answer and leaves this machine, however long it takes. -/
def Ends (m : Machine) (input : List Char) (answer : Except Fault Verdict) (last : Machine) :
    Prop :=
  ∃ fuel, m.run fuel input = some (answer, last)

variable {input : List Char} {answer answer' : Except Fault Verdict}

theorem Ends.unique {last' : Machine} (h : m.Ends input answer last)
    (h' : m.Ends input answer' last') : answer = answer' ∧ last = last' := by
  obtain ⟨fuel, h⟩ := h
  obtain ⟨fuel', h'⟩ := h'
  exact Prod.mk.inj (runFrom_unique h h')

/-- A run that ends goes on through every machine that its first calls leave. -/
theorem Ends.runFrom {before : Machine} {calls : Nat} (h : m.Ends input answer last)
    (reached : (m.start input).advance calls = .ok before) :
    ∃ fuel, before.runFrom fuel = some (answer, last) := by
  obtain ⟨fuel, h⟩ := h
  refine ⟨fuel + 1, ?_⟩
  rw [← runFrom_of_advance reached fuel]
  exact runFrom_mono h (by omega)

/-- Under a limit a run halts or fails as it would without, or the limit stops it. -/
theorem run_withLimit_cases (m : Machine) (limit : Nat) (input : List Char) :
    (∃ v last, (m.withLimit none).Ends input (.ok v) last ∧ last.steps ≤ limit ∧
      (m.withLimit (some limit)).run (limit + 1) input =
        some (.ok v, last.withLimit (some limit))) ∨
    (∃ fault last, (m.withLimit none).Ends input (.error fault) last ∧ last.steps < limit ∧
      (m.withLimit (some limit)).run (limit + 1) input =
        some (.error fault, last.withLimit (some limit))) ∨
    (∃ last, ((m.withLimit none).start input).advance limit = .ok last ∧ last.verdict = none ∧
      last.steps = limit ∧ (m.withLimit (some limit)).run (limit + 1) input =
        some (.error (.stepLimit limit), last.withLimit (some limit))) := by
  have free : ((m.withLimit none).start input).limit = none := rfl
  have count : ((m.withLimit none).start input).steps + limit = limit := Nat.zero_add limit
  rcases runFrom_withLimit_cases free count with ⟨v, last, hfree, hsteps, hrun⟩ |
    ⟨fault, last, hfree, hsteps, hrun⟩ | stopped
  · exact .inl ⟨v, last, ⟨limit + 1, hfree⟩, hsteps, hrun⟩
  · exact .inr (.inl ⟨fault, last, ⟨limit + 1, hfree⟩, hsteps, hrun⟩)
  · exact .inr (.inr stopped)

/-- A run that halts without a limit halts in the same way under a limit that it does not pass. -/
theorem run_of_ends_ok (h : (m.withLimit none).Ends input (.ok v) last)
    (room : last.steps ≤ limit) :
    (m.withLimit (some limit)).run (limit + 1) input =
      some (.ok v, last.withLimit (some limit)) := by
  rcases m.run_withLimit_cases limit input with ⟨v', last', hfree, -, hrun⟩ |
    ⟨fault, last', hfree, -, -⟩ | ⟨before, hbefore, running, hsteps, -⟩
  · obtain ⟨hsame, rfl⟩ := h.unique hfree
    cases hsame
    exact hrun
  · cases (h.unique hfree).1
  · obtain ⟨fuel, hrest⟩ := h.runFrom hbefore
    have := steps_lt_of_runFrom running hrest
    omega

/-- A run that fails without a limit fails in the same way under a limit that it does not reach. -/
theorem run_of_ends_error {fault : Fault} (h : (m.withLimit none).Ends input (.error fault) last)
    (room : last.steps < limit) :
    (m.withLimit (some limit)).run (limit + 1) input =
      some (.error fault, last.withLimit (some limit)) := by
  rcases m.run_withLimit_cases limit input with ⟨v, last', hfree, -, -⟩ |
    ⟨fault', last', hfree, -, hrun⟩ | ⟨before, hbefore, -, hsteps, -⟩
  · cases (h.unique hfree).1
  · obtain ⟨hsame, rfl⟩ := h.unique hfree
    cases hsame
    exact hrun
  · obtain ⟨fuel, hrest⟩ := h.runFrom hbefore
    have := steps_le_of_runFrom hrest
    omega

theorem withLimit_of_ends (h : (m.withLimit none).Ends input answer last) :
    last.withLimit none = last := by
  obtain ⟨fuel, hrun⟩ := h
  exact withLimit_eq_self (limit_of_runFrom hrun)

/-- The verdicts under a limit are those without one that come before the limit is passed. -/
theorem ends_ok_withLimit_iff {bound : Option Nat} : (m.withLimit bound).Ends input (.ok v) last ↔
    ∃ free, (m.withLimit none).Ends input (.ok v) free ∧ (∀ limit ∈ bound, free.steps ≤ limit) ∧
      last = free.withLimit bound := by
  cases bound with
  | none =>
    constructor
    · intro h
      exact ⟨last, h, by simp, (withLimit_of_ends h).symm⟩
    · rintro ⟨free, hfree, -, rfl⟩
      rw [withLimit_of_ends hfree]
      exact hfree
  | some limit =>
    constructor
    · intro h
      rcases m.run_withLimit_cases limit input with ⟨v', free, hfree, room, hrun⟩ |
        ⟨fault, last', -, -, hrun⟩ | ⟨last', -, -, -, hrun⟩
      · obtain ⟨hsame, rfl⟩ := h.unique ⟨limit + 1, hrun⟩
        cases hsame
        exact ⟨free, hfree, by simpa using room, rfl⟩
      · cases (h.unique ⟨limit + 1, hrun⟩).1
      · cases (h.unique ⟨limit + 1, hrun⟩).1
    · rintro ⟨free, hfree, room, rfl⟩
      exact ⟨limit + 1, run_of_ends_ok hfree (room limit rfl)⟩

/-- A limit cuts runs short and does nothing else. A run under a limit ends within one call more
than the limit allows transitions. If the run without a limit halts within the limit, it halts in
the same way; if that one fails before the limit, it fails in the same way; and otherwise it stops
where that one is after as many transitions as the limit allows. So no higher limit changes a
verdict, and no two limits lead to different ones. -/
theorem limit_cuts_run (m : Machine) (limit : Nat) (input : List Char) :
    let free := m.withLimit none
    let limited := m.withLimit (some limit)
    (limited.run (limit + 1) input).isSome ∧
    (∀ v last, free.Ends input (.ok v) last → last.steps ≤ limit →
      limited.run (limit + 1) input = some (.ok v, last.withLimit (some limit))) ∧
    (∀ fault last, free.Ends input (.error fault) last → last.steps < limit →
      limited.run (limit + 1) input = some (.error fault, last.withLimit (some limit))) ∧
    ((¬ ∃ v last, free.Ends input (.ok v) last ∧ last.steps ≤ limit) →
      (¬ ∃ fault last, free.Ends input (.error fault) last ∧ last.steps < limit) →
      ∃ last, (free.start input).advance limit = .ok last ∧ last.steps = limit ∧
        limited.run (limit + 1) input =
          some (.error (.stepLimit limit), last.withLimit (some limit))) ∧
    (∀ (higher : Option Nat) v last, (∀ bound ∈ higher, limit ≤ bound) →
      limited.Ends input (.ok v) last →
      (m.withLimit higher).Ends input (.ok v) (last.withLimit higher)) ∧
    (∀ (bound bound' : Option Nat) v v' last last', (m.withLimit bound).Ends input (.ok v) last →
      (m.withLimit bound').Ends input (.ok v') last' → v = v') := by
  intro free limited
  have hcases := m.run_withLimit_cases limit input
  refine ⟨?_, fun v last h room ↦ run_of_ends_ok h room,
    fun fault last h room ↦ run_of_ends_error h room, ?_, ?_, ?_⟩
  · rcases hcases with ⟨v, last, -, -, hrun⟩ | ⟨fault, last, -, -, hrun⟩ | ⟨last, -, -, -, hrun⟩ <;>
      exact Option.isSome_of_eq_some hrun
  · intro nowhere_halts nowhere_fails
    rcases hcases with ⟨v, last, hfree, room, -⟩ | ⟨fault, last, hfree, room, -⟩ |
      ⟨last, hreached, -, hsteps, hrun⟩
    · exact absurd ⟨v, last, hfree, room⟩ nowhere_halts
    · exact absurd ⟨fault, last, hfree, room⟩ nowhere_fails
    · exact ⟨last, hreached, hsteps, hrun⟩
  · intro higher v last above h
    obtain ⟨free', hfree, room, rfl⟩ := ends_ok_withLimit_iff.1 h
    have hroom : ∀ bound ∈ higher, free'.steps ≤ bound :=
      fun bound hbound ↦ Nat.le_trans (room limit rfl) (above bound hbound)
    exact ends_ok_withLimit_iff.2 ⟨free', hfree, hroom, rfl⟩
  · intro bound bound' v v' last last' h h'
    obtain ⟨free, hfree, -⟩ := ends_ok_withLimit_iff.1 h
    obtain ⟨free', hfree', -⟩ := ends_ok_withLimit_iff.1 h'
    exact Except.ok.inj (hfree.unique hfree').1

/-- A machine that accepts a `1` and never ends on a `0`. -/
def waiting : Definition where
  rules := [⟨"q0", [.plain '0'], "q0", [.plain '0'], [.stay], none⟩,
    ⟨"q0", [.plain '1'], "q1", [.plain '1'], [.stay], some .accept⟩]

theorem waiting_cut :
    let m := new waiting
    let last := (m.start ['1']).step.2
    (m.withLimit none).Ends ['1'] (.ok .accept) last ∧
    (m.withLimit (some 1)).run 2 ['1'] = some (.ok .accept, last.withLimit (some 1)) ∧
    (m.withLimit (some 0)).run 1 ['1'] =
      some (.error (.stepLimit 0), (m.start ['1']).withLimit (some 0)) := by
  intro m last
  have hends : (m.withLimit none).Ends ['1'] (.ok .accept) last := ⟨1, rfl⟩
  have hsteps : last.steps = 1 := rfl
  obtain ⟨-, halts, -⟩ := limit_cuts_run m 1 ['1']
  obtain ⟨-, -, -, stops, -⟩ := limit_cuts_run m 0 ['1']
  have nowhere_halts : ¬ ∃ v last, (m.withLimit none).Ends ['1'] (.ok v) last ∧ last.steps ≤ 0 := by
    rintro ⟨v, last', h, room⟩
    rw [← (hends.unique h).2, hsteps] at room
    omega
  have nowhere_fails :
      ¬ ∃ fault last, (m.withLimit none).Ends ['1'] (.error fault) last ∧ last.steps < 0 := by
    rintro ⟨fault, last', h, room⟩
    omega
  obtain ⟨before, hbefore, -, hrun⟩ := stops nowhere_halts nowhere_fails
  obtain rfl : m.start ['1'] = before := Except.ok.inj hbefore
  exact ⟨hends, halts .accept last hends (Nat.le_of_eq hsteps), hrun⟩

end Multitape.Machine
