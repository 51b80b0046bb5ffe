import Multitape.Machine.Trace
import Multitape.Proofs.Limit
import Mathlib.Data.List.Chain

/-!
Runs that report on their way. Such a run ends as it would without reports (`map_traceFrom`), and an
observer that is called for every report is left with what it makes of all of them in their order
(`observeFrom_eq`). The reports are those of the machines that successive calls leave, from the
start up to the machine which halts or of which the next call fails (`exists_chain_of_traceFrom`).
From one of these machines to the next the number of transitions stays or grows by one, so that
every number up to the last is reported and none after a greater one (`trace_reports_run`).
-/

set_option autoImplicit false
set_option relaxedAutoImplicit false

namespace Multitape.Machine

variable {m next last : Machine}

/-! ### The run behind the reports -/

/-- A run that reports on its way ends as it would without. -/
theorem map_traceFrom (fuel : Nat) (m : Machine) :
    (m.traceFrom fuel).map (fun t ↦ (t.result, t.machine)) = m.runFrom fuel := by
  induction fuel generalizing m with
  | zero => rfl
  | succ fuel ih =>
    rcases hstep : m.step with ⟨fault | _ | v, after⟩
    · rw [runFrom_of_step_error hstep]
      simp [traceFrom, hstep]
    · rw [runFrom_of_step_continue hstep, ← ih]
      simp [traceFrom, hstep, Function.comp_def]
    · rw [runFrom_of_step_halt hstep]
      simp [traceFrom, hstep]

theorem runFrom_of_traceFrom {fuel : Nat} {t : Trace} (h : m.traceFrom fuel = some t) :
    m.runFrom fuel = some (t.result, t.machine) := by
  rw [← map_traceFrom, h, Option.map_some]

theorem traceFrom_mono {fuel fuel' : Nat} {t : Trace} (h : m.traceFrom fuel = some t)
    (le : fuel ≤ fuel') : m.traceFrom fuel' = some t := by
  induction fuel generalizing m fuel' t with
  | zero => cases h
  | succ fuel ih =>
    obtain ⟨fuel', rfl⟩ : ∃ others, fuel' = others + 1 := ⟨fuel' - 1, by omega⟩
    rcases hstep : m.step with ⟨fault | _ | v, after⟩
    · simpa [traceFrom, hstep] using h
    · obtain ⟨rest, hrest, rfl⟩ : ∃ rest, after.traceFrom fuel = some rest ∧
          { rest with reports := after.report :: rest.reports } = t := by
        simpa [traceFrom, hstep] using h
      have hlonger : after.traceFrom fuel' = some rest := ih hrest (by omega)
      simp [traceFrom, hstep, hlonger]
    · simpa [traceFrom, hstep] using h

/-- Goes on as `traceFrom` does, with an observer of the reports in the place of their list. What
the observer remembers is handed on from call to call. -/
def observeFrom {σ : Type} (observer : σ → Report → σ) :
    Nat → σ → Machine → Option (σ × Except Fault Verdict × Machine)
  | 0, _, _ => none
  | fuel + 1, memory, m =>
    match m.step with
    | (.error fault, m) => some (memory, .error fault, m)
    | (.ok (some v), m) => some (observer memory m.report, .ok v, m)
    | (.ok none, m) => observeFrom observer fuel (observer memory m.report) m

/-- Runs an input from the start under an observer, which sees the initial configuration too. -/
def observe {σ : Type} (observer : σ → Report → σ) (m : Machine) (fuel : Nat) (memory : σ)
    (input : List Char) : Option (σ × Except Fault Verdict × Machine) :=
  let started := m.start input
  observeFrom observer fuel (observer memory started.report) started

theorem observeFrom_eq {σ : Type} (observer : σ → Report → σ) (fuel : Nat) (memory : σ)
    (m : Machine) : observeFrom observer fuel memory m =
      (m.traceFrom fuel).map fun t ↦ (t.reports.foldl observer memory, t.result, t.machine) := by
  induction fuel generalizing memory m with
  | zero => rfl
  | succ fuel ih =>
    rcases hstep : m.step with ⟨fault | _ | v, after⟩
    · simp [observeFrom, traceFrom, hstep]
    · simp [observeFrom, traceFrom, hstep, ih, Function.comp_def]
    · simp [observeFrom, traceFrom, hstep]

/-! ### The machines that are reported -/

/-- A call of `step` succeeds on the one machine and leaves the other. -/
def Leaves (m next : Machine) : Prop := ∃ answer, m.step = (.ok answer, next)

theorem Leaves.steps_eq (h : m.Leaves next) :
    next.steps = m.steps ∧ next = m ∨ next.steps = m.steps + 1 := by
  obtain ⟨answer, hstep⟩ := h
  cases running : m.verdict with
  | none => exact .inr (steps_of_step_ok running hstep)
  | some v =>
    cases hstep.symm.trans (step_of_verdict running)
    exact .inl ⟨rfl, rfl⟩

/-- The trace ends with this machine: it has halted, or the next call of it fails. -/
def Trace.EndsAt (t : Trace) (last : Machine) : Prop :=
  match t.result with
  | .ok v => t.machine = last ∧ last.verdict = some v
  | .error fault => last.step = (.error fault, t.machine)

/-- What is reported are the machines that calls leave, one by one, up to the last. -/
theorem exists_chain_of_traceFrom {fuel : Nat} {t : Trace} (h : m.traceFrom fuel = some t) :
    ∃ machines, t.reports = machines.map report ∧ (m :: machines).IsChain Leaves ∧
      t.EndsAt ((m :: machines).getLast (List.cons_ne_nil _ _)) := by
  induction fuel generalizing m t with
  | zero => cases h
  | succ fuel ih =>
    rcases hstep : m.step with ⟨fault | _ | v, after⟩
    · obtain rfl : ⟨[], .error fault, after⟩ = t := by simpa [traceFrom, hstep] using h
      exact ⟨[], rfl, List.isChain_singleton _, hstep⟩
    · obtain ⟨rest, hrest, rfl⟩ : ∃ rest, after.traceFrom fuel = some rest ∧
          { rest with reports := after.report :: rest.reports } = t := by
        simpa [traceFrom, hstep] using h
      obtain ⟨machines, hreports, hchain, hends⟩ := ih hrest
      refine ⟨after :: machines, ?_, List.isChain_cons_cons.2 ⟨⟨none, hstep⟩, hchain⟩, ?_⟩
      · rw [hreports, List.map_cons]
      · rw [List.getLast_cons (List.cons_ne_nil _ _)]
        exact hends
    · obtain rfl : ⟨[after.report], .ok v, after⟩ = t := by simpa [traceFrom, hstep] using h
      refine ⟨[after], rfl, List.isChain_pair.2 ⟨some v, hstep⟩, ?_⟩
      exact ⟨rfl, verdict_of_step hstep⟩

/-! ### Successive machines -/

section Chain

variable {machines : List Machine}

/-- Successive calls that end after some transitions have got there after as many calls. -/
theorem advance_steps {calls : Nat} (h : m.advance calls = .ok last) :
    m.steps ≤ last.steps ∧ m.advance (last.steps - m.steps) = .ok last := by
  induction calls generalizing last with
  | zero =>
    obtain rfl : m = last := Except.ok.inj h
    rw [Nat.sub_self]
    exact ⟨Nat.le_refl _, rfl⟩
  | succ calls ih =>
    obtain ⟨before, answer, hbefore, hstep⟩ := advance_succ_eq_ok_iff.1 h
    obtain ⟨hle, hreached⟩ := ih hbefore
    rcases Leaves.steps_eq ⟨answer, hstep⟩ with ⟨-, rfl⟩ | hsteps
    · exact ⟨hle, hreached⟩
    · refine ⟨by omega, ?_⟩
      rw [hsteps, Nat.succ_sub hle]
      exact advance_succ_eq_ok_iff.2 ⟨before, answer, hreached, hstep⟩

theorem exists_advance_of_mem (h : (m :: machines).IsChain Leaves) (hnext : next ∈ m :: machines) :
    ∃ calls, m.advance calls = .ok next := by
  induction machines generalizing m with
  | nil =>
    rw [List.mem_singleton.1 hnext]
    exact ⟨0, rfl⟩
  | cons first rest ih =>
    obtain ⟨⟨answer, hstep⟩, hrest⟩ := List.isChain_cons_cons.1 h
    rcases List.mem_cons.1 hnext with rfl | hnext
    · exact ⟨0, rfl⟩
    · obtain ⟨calls, hcalls⟩ := ih hrest hnext
      exact ⟨calls + 1, (advance_succ_of_ok hstep calls).trans hcalls⟩

theorem pairwise_steps (h : machines.IsChain Leaves) :
    (machines.map Machine.steps).Pairwise (· ≤ ·) := by
  rw [← List.isChain_iff_pairwise, List.isChain_map]
  refine h.imp fun a b hleaves ↦ ?_
  rcases hleaves.steps_eq with ⟨hsame, -⟩ | hmore <;> omega

/-- No number of transitions between the first and the last is passed over. -/
theorem mem_map_steps (h : (m :: machines).IsChain Leaves) {i : Nat} (from_first : m.steps ≤ i)
    (to_last : i ≤ ((m :: machines).getLast (List.cons_ne_nil _ _)).steps) :
    i ∈ (m :: machines).map Machine.steps := by
  induction machines generalizing m with
  | nil =>
    rw [List.getLast_singleton] at to_last
    rw [List.map_singleton, List.mem_singleton]
    omega
  | cons first rest ih =>
    obtain ⟨hleaves, hrest⟩ := List.isChain_cons_cons.1 h
    rw [List.getLast_cons (List.cons_ne_nil _ _)] at to_last
    rw [List.map_cons, List.mem_cons]
    by_cases hi : i = m.steps
    · exact .inl hi
    · have hfirst : first.steps ≤ i := by
        rcases hleaves.steps_eq with ⟨hsame, -⟩ | hmore <;> omega
      exact .inr (ih hrest hfirst to_last)

end Chain

/-! ### Runs from the start -/

theorem map_trace (m : Machine) (fuel : Nat) (input : List Char) :
    (m.trace fuel input).map (fun t ↦ (t.result, t.machine)) = m.run fuel input := by
  rw [run, ← map_traceFrom, Machine.trace, Option.map_map]
  rfl

theorem trace_mono {fuel fuel' : Nat} {input : List Char} {t : Trace}
    (h : m.trace fuel input = some t) (le : fuel ≤ fuel') : m.trace fuel' input = some t := by
  obtain ⟨rest, hrest, rfl⟩ := Option.map_eq_some_iff.1 h
  exact Option.map_eq_some_iff.2 ⟨rest, traceFrom_mono hrest le, rfl⟩

theorem Trace.EndsAt.steps_eq {t : Trace} (h : t.EndsAt last) : t.machine.steps = last.steps := by
  unfold EndsAt at h
  split at h
  · rw [h.1]
  · exact steps_of_step_error h

/-- Reporting on its way changes nothing about a run: it gives the same result and leaves the same
machine, and so it is with any observer in the place of the list of reports. Every report is the one
of the configuration that as many calls of `step` leave as it says that transitions have been taken,
with this configuration's rows within 72 columns or its excess of width; no call has failed before
it. The numbers of transitions never fall, and all of them up to the last are reported. The last
report is of the machine that halts, or of that whose next step fails; what such a step leaves is
not reported. -/
theorem trace_reports_run (m : Machine) (fuel : Nat) (input : List Char) :
    (m.trace fuel input).map (fun t ↦ (t.result, t.machine)) = m.run fuel input ∧
    (∀ (σ : Type) (observer : σ → Report → σ) (memory : σ),
      m.observe observer fuel memory input = (m.trace fuel input).map fun t ↦
        (t.reports.foldl observer memory, t.result, t.machine)) ∧
    ∀ t, m.trace fuel input = some t →
      (∀ r ∈ t.reports, ∃ n, (m.start input).advance r.steps = .ok n ∧ n.steps = r.steps ∧
        r.state = n.state ∧ r.rendering = n.render 72) ∧
      (t.reports.map Report.steps).Pairwise (· ≤ ·) ∧
      (∀ i ≤ t.machine.steps, i ∈ t.reports.map Report.steps) ∧
      ∃ last, (m.start input).advance t.machine.steps = .ok last ∧
        t.reports.getLast? = some last.report ∧ t.EndsAt last := by
  refine ⟨?_, fun σ observer memory ↦ ?_, fun t h ↦ ?_⟩
  · rw [run, ← map_traceFrom, Machine.trace, Option.map_map]
    rfl
  · rw [observe, observeFrom_eq, Machine.trace, Option.map_map]
    rfl
  · obtain ⟨rest, hrest, rfl⟩ := Option.map_eq_some_iff.1 h
    obtain ⟨machines, hreports, hchain, hends⟩ := exists_chain_of_traceFrom hrest
    have hall : (m.start input).report :: rest.reports =
        ((m.start input) :: machines).map report := by
      rw [hreports, List.map_cons]
    have hsteps : (((m.start input) :: machines).map report).map Report.steps =
        ((m.start input) :: machines).map Machine.steps := by
      rw [List.map_map]
      rfl
    have hreached : ∀ n ∈ (m.start input) :: machines,
        (m.start input).advance n.steps = .ok n := by
      intro n hn
      obtain ⟨calls, hcalls⟩ := exists_advance_of_mem hchain hn
      exact (advance_steps hcalls).2
    dsimp only
    rw [hall, hsteps]
    refine ⟨fun r hr ↦ ?_, pairwise_steps hchain, fun i hi ↦ ?_, ?_⟩
    · obtain ⟨n, hn, rfl⟩ := List.mem_map.1 hr
      exact ⟨n, hreached n hn, rfl, rfl, rfl⟩
    · exact mem_map_steps hchain (Nat.zero_le i) (hends.steps_eq ▸ hi)
    · refine ⟨_, ?_, ?_, hends⟩
      · rw [hends.steps_eq]
        exact hreached _ (List.getLast_mem _)
      · rw [List.getLast?_map, List.getLast?_eq_some_getLast (List.cons_ne_nil _ _)]
        rfl

/-- A machine whose second transition is refused by the second tape, when the first has been
changed. -/
def faltering : Definition where
  tapeAlphabets := [.binaryWith (.plain 'B'), .ofList [.plain 'B']]
  rules := [⟨"q0", [.plain '0', .plain 'B'], "q3", [.plain '1', .plain 'B'], [.right, .stay], none⟩,
    ⟨"q3", [.plain '0', .plain 'B'], "q3", [.plain '1', .plain '0'], [.right, .stay], none⟩]

/-- The last report is of the tapes as they were before the transition that is refused. -/
theorem faltering_reported :
    ∃ t fault, ∃ last : Machine, (fresh faltering (some 5) ">").trace 2 ['0', '0'] = some t ∧
      t.result = .error fault ∧ 1 ∈ t.reports.map Report.steps ∧
      t.reports.getLast? = some last.report ∧ last.tapes ≠ t.machine.tapes := by
  obtain ⟨t, ht, ⟨fault, hfault⟩, hsteps⟩ : ∃ t,
      (fresh faltering (some 5) ">").trace 2 ['0', '0'] = some t ∧
        (∃ fault, t.result = .error fault) ∧ t.machine.steps = 1 :=
    ⟨_, rfl, ⟨_, rfl⟩, rfl⟩
  have hchanged : ∀ first : Machine,
      ((fresh faltering (some 5) ">").start ['0', '0']).advance 1 = .ok first →
        first.tapes ≠ first.step.2.tapes := by
    intro first hfirst
    obtain rfl := Except.ok.inj hfirst
    decide
  obtain ⟨-, -, hreports⟩ := trace_reports_run (fresh faltering (some 5) ">") 2 ['0', '0']
  obtain ⟨-, -, hall, last, hlast, hreport, hends⟩ := hreports t ht
  simp only [Trace.EndsAt, hfault] at hends
  have hleft : last.step.2 = t.machine := congrArg Prod.snd hends
  refine ⟨t, fault, last, ht, hfault, hall 1 (Nat.le_of_eq hsteps.symm), hreport, ?_⟩
  rw [← hleft]
  exact hchanged last (hsteps ▸ hlast)

end Multitape.Machine
