import Multitape.Definition.Parse
import Multitape.Proofs.DeadRules
import Multitape.Proofs.Trace

/-!
How often a configuration is reported. A call that succeeds on a running machine takes a transition,
so behind a running machine the numbers of transitions go up by one from report to report
(`steps_of_traceFrom`). A run that starts in a running state therefore reports its configurations in
their order and each of them once. A run that starts in a terminal state takes no transition at all,
and the call that finds the machine halted reports the configuration of the start a second time.
Which of the two it is, the definition tells (`reported_once_iff`).
-/

set_option autoImplicit false
set_option relaxedAutoImplicit false

namespace Multitape.Machine

variable {m : Machine} {fuel : Nat} {t : Trace}

/-! ### Numbers of transitions -/

/-- Behind a running machine every report tells of one more transition than the report before it,
up to the number that the run has taken in the end. -/
theorem steps_of_traceFrom (running : m.verdict = none) (h : m.traceFrom fuel = some t) :
    m.steps ≤ t.machine.steps ∧
      t.reports.map Report.steps = List.range' (m.steps + 1) (t.machine.steps - m.steps) := by
  induction fuel generalizing m t with
  | zero => cases h
  | succ fuel ih =>
    rcases hstep : m.step with ⟨fault | _ | v, after⟩
    · obtain rfl : ⟨[], .error fault, after⟩ = t := by simpa [traceFrom, hstep] using h
      have hsteps : after.steps = m.steps := steps_of_step_error hstep
      dsimp only
      rw [hsteps, Nat.sub_self]
      exact ⟨Nat.le_refl _, rfl⟩
    · obtain ⟨rest, hrest, rfl⟩ : ∃ rest, after.traceFrom fuel = some rest ∧
          { rest with reports := after.report :: rest.reports } = t := by
        simpa [traceFrom, hstep] using h
      have hsteps : after.steps = m.steps + 1 := steps_of_step_ok running hstep
      obtain ⟨hle, hnumbers⟩ := ih (verdict_of_step hstep) hrest
      have hcount : rest.machine.steps - m.steps = (rest.machine.steps - after.steps) + 1 := by
        omega
      refine ⟨by dsimp only; omega, ?_⟩
      rw [List.map_cons, hnumbers, hcount, List.range'_succ, ← hsteps]
      rfl
    · obtain rfl : ⟨[after.report], .ok v, after⟩ = t := by simpa [traceFrom, hstep] using h
      have hsteps : after.steps = m.steps + 1 := steps_of_step_ok running hstep
      dsimp only
      rw [hsteps, Nat.add_sub_cancel_left, ← hsteps]
      exact ⟨by omega, rfl⟩

/-- A halted machine is reported once more, and the run is over. -/
theorem traceFrom_of_verdict {v : Verdict} (halted : m.verdict = some v)
    (h : m.traceFrom fuel = some t) : t = ⟨[m.report], .ok v, m⟩ := by
  cases fuel with
  | zero => cases h
  | succ fuel =>
    rw [traceFrom, step_of_verdict halted] at h
    exact (Option.some.inj h).symm

/-! ### Runs from the start -/

section Start

variable {input : List Char}

theorem verdict_start_eq_none_iff :
    (m.start input).verdict = none ↔
      m.definition.isTerminal m.definition.startState = false :=
  verdict_eq_none_iff

theorem steps_of_trace (running : m.definition.isTerminal m.definition.startState = false)
    (h : m.trace fuel input = some t) :
    t.reports.map Report.steps = List.range (t.machine.steps + 1) := by
  obtain ⟨rest, hrest, rfl⟩ := Option.map_eq_some_iff.1 h
  have hstart : (m.start input).steps = 0 := rfl
  obtain ⟨-, hnumbers⟩ := steps_of_traceFrom (verdict_start_eq_none_iff.2 running) hrest
  rw [List.map_cons, hnumbers, hstart, List.range_eq_range', List.range'_succ, Nat.sub_zero]
  rfl

/-- A run that starts in a terminal state is over at once, with two reports of its start. -/
theorem trace_of_terminal (terminal : m.definition.isTerminal m.definition.startState = true)
    (h : m.trace fuel input = some t) :
    t.reports = [(m.start input).report, (m.start input).report] ∧
      t.machine = m.start input := by
  obtain ⟨rest, hrest, rfl⟩ := Option.map_eq_some_iff.1 h
  obtain ⟨v, halted⟩ : ∃ v, (m.start input).verdict = some v := by
    refine Option.ne_none_iff_exists'.1 fun running ↦ ?_
    rw [verdict_start_eq_none_iff, terminal] at running
    cases running
  obtain rfl := traceFrom_of_verdict halted hrest
  exact ⟨rfl, rfl⟩

/-- The report in each place is of the machine that as many calls leave as it tells transitions. -/
theorem exists_advance_of_getElem? (h : m.trace fuel input = some t) {i : Nat} {r : Report}
    (hr : t.reports[i]? = some r) :
    ∃ n, (m.start input).advance r.steps = .ok n ∧ r = n.report := by
  obtain ⟨rest, hrest, rfl⟩ := Option.map_eq_some_iff.1 h
  obtain ⟨machines, hreports, hchain, -⟩ := exists_chain_of_traceFrom hrest
  have hall : (m.start input).report :: rest.reports =
      ((m.start input) :: machines).map report := by
    rw [hreports, List.map_cons]
  dsimp only at hr
  rw [hall, List.getElem?_map] at hr
  obtain ⟨n, hn, rfl⟩ := Option.map_eq_some_iff.1 hr
  obtain ⟨calls, hcalls⟩ := exists_advance_of_mem hchain (List.mem_of_getElem? hn)
  exact ⟨n, (advance_steps hcalls).2, rfl⟩

end Start

/-- A run that reports on its way tells the numbers of transitions from 0 to the last in their
order, each once, exactly if it does not start in a terminal state. The report in each place is then
the one of the configuration after as many transitions. A run that starts in a terminal state takes
none, and reports the configuration of its start twice. -/
theorem reported_once_iff (m : Machine) (input : List Char) {fuel : Nat} {t : Trace}
    (h : m.trace fuel input = some t) :
    (t.reports.map Report.steps = List.range (t.machine.steps + 1) ↔
      m.definition.isTerminal m.definition.startState = false) ∧
    (m.definition.isTerminal m.definition.startState = false →
      ∀ i ≤ t.machine.steps, ∃ n, (m.start input).advance i = .ok n ∧
        t.reports[i]? = some n.report) ∧
    (m.definition.isTerminal m.definition.startState = true →
      t.reports = [(m.start input).report, (m.start input).report] ∧
        t.machine = m.start input) := by
  refine ⟨⟨fun hnumbers ↦ ?_, fun running ↦ steps_of_trace running h⟩, fun running i hi ↦ ?_,
    fun terminal ↦ trace_of_terminal terminal h⟩
  · by_contra hterminal
    obtain ⟨hreports, hmachine⟩ := trace_of_terminal (by simpa using hterminal) h
    have hsteps : t.machine.steps = 0 := by
      rw [hmachine]
      rfl
    rw [hreports, hsteps] at hnumbers
    have hlengths := congrArg List.length hnumbers
    simp at hlengths
  · have hnumbers := steps_of_trace running h
    have hplace : (t.reports.map Report.steps)[i]? = some i := by
      rw [hnumbers, List.getElem?_range (by omega)]
    rw [List.getElem?_map] at hplace
    obtain ⟨r, hr, hsteps⟩ := Option.map_eq_some_iff.1 hplace
    obtain ⟨n, hn, rfl⟩ := exists_advance_of_getElem? h hr
    rw [hsteps] at hn
    exact ⟨n, hn, hr⟩

/-- A machine that goes over two zeros and is cut short before the third. -/
def pacing : Definition where
  rules := [⟨"q0", [.plain '0'], "q0", [.plain '0'], [.right], none⟩]

theorem pacing_reported_once :
    ∃ t, (fresh pacing (some 2) ">").trace 3 ['0', '0', '0'] = some t ∧
      t.reports.map Report.steps = [0, 1, 2] ∧ t.result = .error (.stepLimit 2) := by
  obtain ⟨t, ht, hsteps, hresult⟩ : ∃ t,
      (fresh pacing (some 2) ">").trace 3 ['0', '0', '0'] = some t ∧
        t.machine.steps = 2 ∧ t.result = .error (.stepLimit 2) :=
    ⟨_, rfl, rfl, rfl⟩
  obtain ⟨hnumbers, -⟩ := reported_once_iff (fresh pacing (some 2) ">") ['0', '0', '0'] ht
  refine ⟨t, ht, ?_, hresult⟩
  rw [hnumbers.2 (by decide), hsteps]
  rfl

/-- A text may make its start state the one that accepts. The start is then reported twice. -/
theorem terminal_start_reported_twice :
    ¬ ∀ (text : List Char) (d : Definition) (limit : Option Nat) (marker : String)
        (input : List Char) (fuel : Nat) (t : Trace), Definition.parse text = .ok d →
      (fresh d limit marker).trace fuel input = some t →
        t.reports.map Report.steps = List.range (t.machine.steps + 1) := by
  intro h
  have hnumbers := h "start_state = \"q1\"".toList { startState := "q1" } none ">" ['0'] 1 _ rfl rfl
  revert hnumbers
  decide

end Multitape.Machine
