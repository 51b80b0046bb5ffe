import Multitape.Proofs.Diagnostic
import Multitape.Proofs.Reachable
import Multitape.Proofs.Run

/-!
Rules that never fire. A rule is shadowed exactly if it is not the first that fires for its own
state and symbols (`shadowedAt_eq_false_iff`). What is left of the rules without the shadowed ones,
those of terminal states and those of unreachable states are the live rules: no two of them fire for
the same state and symbols, so that their order does not matter, and in a state that a run can be in
they have the answer of the full table (`find?_of_perm_liveRules`). A run is only ever in a state
that is led to or terminal (`Visits.step`). Therefore a machine with the live rules, in whatever
order, does at every call what the machine with all of them does (`dead_rules_never_fire`).
-/

set_option autoImplicit false
set_option relaxedAutoImplicit false

namespace Multitape

/-! ### Shadowed rules -/

namespace Definition

variable {d : Definition} {rule : Rule}

/-- Whether one of the rules before a place fires for the rule. -/
def shadowedAt (d : Definition) (place : Nat) (rule : Rule) : Bool :=
  (d.rules.take place).any (·.fires rule.source rule.inputs)

/-- A rule is not shadowed exactly if it is the first to fire for its own state and symbols. -/
theorem shadowedAt_eq_false_iff {place : Nat} (h : d.rules[place]? = some rule) :
    d.shadowedAt place rule = false ↔
      d.rules.findIdx? (·.fires rule.source rule.inputs) = some place := by
  obtain ⟨hlt, hrule⟩ := List.getElem?_eq_some_iff.1 h
  have hself : rule.fires rule.source rule.inputs = true := Rule.fires_iff.2 ⟨rfl, rfl⟩
  rw [shadowedAt, List.any_eq_false, List.findIdx?_eq_some_iff_getElem]
  constructor
  · intro first
    refine ⟨hlt, by rwa [hrule], fun other before ↦ ?_⟩
    exact first _ (List.mem_take_iff_getElem.2 ⟨other, by omega, rfl⟩)
  · rintro ⟨_, -, first⟩ earlier hearlier
    obtain ⟨other, before, rfl⟩ := List.mem_take_iff_getElem.1 hearlier
    exact first other (by omega)

theorem shadowedFrom_eq (earlier rules : List Rule) : shadowedFrom earlier.reverse rules =
    ((rules.zipIdx earlier.length).filter fun entry ↦ ((earlier ++ rules).take entry.2).any
      (·.fires entry.1.source entry.1.inputs)).map Prod.fst := by
  induction rules generalizing earlier with
  | nil => rfl
  | cons rule rules ih =>
    have hrest := ih (earlier ++ [rule])
    rw [List.reverse_append, List.reverse_singleton, List.singleton_append, List.length_append,
      List.length_singleton, List.append_assoc, List.singleton_append] at hrest
    have hhere : ((earlier ++ rule :: rules).take earlier.length).any
        (·.fires rule.source rule.inputs) =
          earlier.reverse.any (·.fires rule.source rule.inputs) := by
      rw [List.take_left, List.any_reverse]
    rw [List.zipIdx_cons, shadowedFrom, hrest]
    split_ifs with hshadowed
    · rw [List.filter_cons_of_pos (by rw [hhere, hshadowed]), List.map_cons]
    · rw [List.filter_cons_of_neg (by rw [hhere]; exact hshadowed)]

/-- The rules that are found to be shadowed are those that are at their places. -/
theorem shadowed_eq (d : Definition) : d.shadowed =
    (d.rules.zipIdx.filter fun entry ↦ d.shadowedAt entry.2 entry.1).map Prod.fst :=
  shadowedFrom_eq [] d.rules

/-! ### Live rules -/

/-- The rules that can fire: not shadowed, not of a terminal state and not of a state that is
found to be unreachable. -/
def liveRules (d : Definition) : List Rule :=
  (d.rules.zipIdx.filter fun entry ↦
    !d.shadowedAt entry.2 entry.1 && !d.isTerminal entry.1.source &&
      !d.unreachable.contains entry.1.source).map Prod.fst

theorem mem_liveRules_iff : rule ∈ d.liveRules ↔
    (∃ place, d.rules[place]? = some rule ∧ d.shadowedAt place rule = false) ∧
      d.isTerminal rule.source = false ∧ rule.source ∉ d.unreachable := by
  simp only [liveRules, List.mem_map, List.mem_filter, Prod.exists, exists_and_right,
    List.mem_zipIdx_iff_getElem?, Bool.and_eq_true, Bool.not_eq_true', List.contains_eq_mem,
    decide_eq_false_iff_not]
  constructor
  · rintro ⟨other, ⟨place, hplace, ⟨hfirst, hrunning⟩, hreachable⟩, rfl⟩
    exact ⟨⟨place, hplace, hfirst⟩, hrunning, hreachable⟩
  · rintro ⟨⟨place, hplace, hfirst⟩, hrunning, hreachable⟩
    exact ⟨rule, ⟨place, hplace, ⟨hfirst, hrunning⟩, hreachable⟩, rfl⟩

variable {state : String} {symbols : List Symbol}

/-- A live rule is the one that fires for its state and symbols. -/
theorem find?_of_mem_liveRules (live : rule ∈ d.liveRules)
    (fires : rule.fires state symbols = true) :
    d.rules.find? (·.fires state symbols) = some rule := by
  obtain ⟨⟨place, hplace, hfirst⟩, -, -⟩ := mem_liveRules_iff.1 live
  obtain ⟨rfl, rfl⟩ := Rule.fires_iff.1 fires
  have hindex := (shadowedAt_eq_false_iff hplace).1 hfirst
  obtain ⟨-, hindex⟩ := List.findIdx?_eq_some_iff_findIdx_eq.1 hindex
  rw [List.find?_eq_getElem?_findIdx, hindex, hplace]

/-- The rule that fires is not shadowed at its place. -/
theorem exists_place_of_find? (found : d.rules.find? (·.fires state symbols) = some rule) :
    ∃ place, d.rules[place]? = some rule ∧ d.shadowedAt place rule = false := by
  have fires : rule.fires state symbols = true := by simpa using List.find?_some found
  obtain ⟨rfl, rfl⟩ := Rule.fires_iff.1 fires
  rw [List.find?_eq_getElem?_findIdx] at found
  have hindex : d.rules.findIdx? (·.fires rule.source rule.inputs) =
      some (d.rules.findIdx (·.fires rule.source rule.inputs)) := by
    obtain ⟨hlt, -⟩ := List.getElem?_eq_some_iff.1 found
    exact List.findIdx?_eq_some_iff_findIdx_eq.2 ⟨hlt, rfl⟩
  exact ⟨_, found, (shadowedAt_eq_false_iff found).2 hindex⟩

/-- Whatever rule fires in a state that runs and is led to is live. -/
theorem mem_liveRules_of_find? (running : d.isTerminal state = false) (led : d.Led state)
    (found : d.rules.find? (·.fires state symbols) = some rule) : rule ∈ d.liveRules := by
  have fires : rule.fires state symbols = true := by simpa using List.find?_some found
  obtain ⟨rfl, -⟩ := Rule.fires_iff.1 fires
  refine mem_liveRules_iff.2 ⟨exists_place_of_find? found, running, ?_⟩
  intro hunreachable
  exact (mem_unreachable_iff.1 hunreachable).2.1 led

/-- In a state that runs and is led to, the live rules in any order have the same answer as all the
rules in theirs. -/
theorem find?_of_perm_liveRules {rules : List Rule} (perm : rules.Perm d.liveRules)
    (running : d.isTerminal state = false) (led : d.Led state) :
    rules.find? (·.fires state symbols) = d.rules.find? (·.fires state symbols) := by
  cases found : d.rules.find? (·.fires state symbols) with
  | none =>
    rw [List.find?_eq_none]
    intro rule hrule
    obtain ⟨⟨place, hplace, -⟩, -, -⟩ := mem_liveRules_iff.1 (perm.mem_iff.1 hrule)
    exact List.find?_eq_none.1 found rule (List.mem_of_getElem? hplace)
  | some rule =>
    have hrule : rule ∈ rules := perm.mem_iff.2 (mem_liveRules_of_find? running led found)
    refine find?_eq_some_of_unique hrule (by simpa using List.find?_some found) ?_
    intro other hother fires
    have hfound := find?_of_mem_liveRules (perm.mem_iff.1 hother) fires
    exact Option.some.inj (hfound.symm.trans found)

end Definition

/-! ### Machines with other rules -/

namespace Machine

/-- The machine with another table. -/
def withRules (m : Machine) (rules : List Rule) : Machine :=
  { m with definition := { m.definition with rules } }

variable {m next : Machine} {rules : List Rule}

/-- A table that has the same rule for the configuration leads to the same step. -/
theorem step_withRules (same : m.verdict = none → rules.find? (·.fires m.state m.symbols) =
      m.definition.rules.find? (·.fires m.state m.symbols)) :
    (m.withRules rules).step = (m.step.1, m.step.2.withRules rules) := by
  have hrule (running : m.verdict = none) : (m.withRules rules).nextRule = m.nextRule := by
    rw [nextRule_eq, nextRule_eq, ← same running]
    rfl
  rcases m.step_cases with ⟨v, halted, h⟩ | ⟨limit, running, reached, h⟩ |
    ⟨tapes, running, below, applied, h⟩ | ⟨tapes, tape, refusal, running, below, refused, h⟩
  · rw [h]
    exact step_of_verdict (m := m.withRules rules) halted
  · rw [h]
    exact step_of_limit (m := m.withRules rules) running reached
  · rw [← hrule running] at applied
    rw [h, ← hrule running]
    exact step_of_applied (m := m.withRules rules) running below applied
  · rw [← hrule running] at refused
    rw [h, ← hrule running]
    exact step_of_refused (m := m.withRules rules) running below refused

/-! ### Runs -/

theorem verdict_eq_none_iff :
    m.verdict = none ↔ m.definition.isTerminal m.state = false := by
  unfold verdict Definition.isTerminal
  split_ifs with haccept hreject
  · simp [haccept]
  · simp [hreject]
  · simp [haccept, hreject]

/-- A call of `step`, whether it succeeds or not, stays in the state, or goes to the rejecting one,
or goes where the rule leads that fires. -/
theorem state_step_cases (m : Machine) : m.step.2.definition = m.definition ∧
    (m.step.2.state = m.state ∨ m.verdict = none ∧
      (m.step.2.state = m.definition.rejectState ∨
        ∃ rule, m.definition.rules.find? (·.fires m.state m.symbols) = some rule ∧
          m.step.2.state = rule.target)) := by
  rcases m.step_cases with ⟨v, -, hstep⟩ | ⟨limit, -, -, hstep⟩ | ⟨tapes, running, -, -, hstep⟩ |
    ⟨tapes, tape, refusal, -, -, -, hstep⟩ <;> rw [hstep]
  · exact ⟨rfl, .inl rfl⟩
  · exact ⟨rfl, .inl rfl⟩
  · refine ⟨rfl, .inr ⟨running, ?_⟩⟩
    change m.nextRule.target = _ ∨ ∃ rule, _ ∧ m.nextRule.target = _
    rcases m.nextRule_cases with ⟨rule, hfind, hrule⟩ | ⟨-, hrule⟩
    · exact .inr ⟨rule, hfind, by rw [hrule]⟩
    · exact .inl (by rw [hrule]; rfl)
  · exact ⟨rfl, .inl rfl⟩

/-- The machine has the definition and is in a state that a run can be in. -/
structure Visits (d : Definition) (m : Machine) : Prop where
  definition : m.definition = d
  state : d.Led m.state ∨ d.isTerminal m.state = true

variable {d : Definition}

theorem visits_start (limit : Option Nat) (marker : String) (input : List Char) :
    Visits d ((fresh d limit marker).start input) :=
  ⟨rfl, .inl .start⟩

theorem Visits.led (h : Visits d m) (running : m.verdict = none) :
    d.isTerminal m.state = false ∧ d.Led m.state := by
  have hrunning : d.isTerminal m.state = false := h.definition ▸ verdict_eq_none_iff.1 running
  rcases h.state with hled | hterminal
  · exact ⟨hrunning, hled⟩
  · rw [hrunning] at hterminal
    cases hterminal

/-- A call of `step` ends in a state that is led to or terminal, whether it succeeds or not. -/
theorem Visits.step (h : Visits d m) : Visits d m.step.2 := by
  obtain ⟨hdefinition, hstate⟩ := m.state_step_cases
  refine ⟨hdefinition.trans h.definition, ?_⟩
  rcases hstate with hsame | ⟨running, hreject | ⟨rule, hfind, htarget⟩⟩
  · exact hsame ▸ h.state
  · exact .inr (by rw [hreject, h.definition]; simp [Definition.isTerminal])
  · have hmem : rule ∈ d.rules := h.definition ▸ List.mem_of_find?_eq_some hfind
    have hfires : rule.fires m.state m.symbols = true := by simpa using List.find?_some hfind
    have hled : d.Led rule.source := (Rule.fires_iff.1 hfires).1 ▸ (h.led running).2
    exact .inl (htarget ▸ .rule hmem hled)

/-- With the live rules in any order, a call does what it does with all the rules. -/
theorem Visits.step_withRules (h : Visits d m) (perm : rules.Perm d.liveRules) :
    (m.withRules rules).step = (m.step.1, m.step.2.withRules rules) := by
  refine Machine.step_withRules fun running ↦ ?_
  obtain ⟨hrunning, hled⟩ := h.led running
  rw [h.definition]
  exact Definition.find?_of_perm_liveRules perm hrunning hled

theorem Visits.afterCalls (h : Visits d m) (calls : Nat) : Visits d (m.afterCalls calls) := by
  induction calls generalizing m with
  | zero => exact h
  | succ calls ih => exact ih h.step

theorem Visits.afterCalls_withRules (h : Visits d m) (perm : rules.Perm d.liveRules) (calls : Nat) :
    (m.withRules rules).afterCalls calls = (m.afterCalls calls).withRules rules := by
  induction calls generalizing m with
  | zero => rfl
  | succ calls ih =>
    rw [Machine.afterCalls, Machine.afterCalls, h.step_withRules perm]
    exact ih h.step

theorem Visits.runFrom_withRules (h : Visits d m) (perm : rules.Perm d.liveRules) (fuel : Nat) :
    (m.withRules rules).runFrom fuel =
      (m.runFrom fuel).map fun ending ↦ (ending.1, ending.2.withRules rules) := by
  induction fuel generalizing m with
  | zero => rfl
  | succ fuel ih =>
    have hnext := h.step
    have hwith := h.step_withRules perm
    rcases hstep : m.step with ⟨fault | _ | v, next⟩ <;> rw [hstep] at hwith hnext
    · rw [runFrom_of_step_error hstep, runFrom_of_step_error hwith]
      rfl
    · rw [runFrom_of_step_continue hstep, runFrom_of_step_continue hwith]
      exact ih hnext
    · rw [runFrom_of_step_halt hstep, runFrom_of_step_halt hwith]
      rfl

end Machine

open Machine

/-- Rules that are shadowed, or of a terminal state, or of a state found to be unreachable, never
fire: without them, and with the others in any order, a machine does the same at every call and
comes out of every run the same. The rules that are not shadowed are those that are the first to
fire for their own state and symbols. -/
theorem dead_rules_never_fire (d : Definition) {rules : List Rule} (perm : rules.Perm d.liveRules) :
    (∀ limit marker input calls,
      let m := ((fresh d limit marker).start input).afterCalls calls
      let m' := ((fresh { d with rules } limit marker).start input).afterCalls calls
      m' = m.withRules rules ∧ m'.step.1 = m.step.1) ∧
    (∀ limit marker input fuel, (fresh { d with rules } limit marker).run fuel input =
      ((fresh d limit marker).run fuel input).map fun ending ↦
        (ending.1, ending.2.withRules rules)) ∧
    (∀ place rule, d.rules[place]? = some rule → (d.shadowedAt place rule = false ↔
      d.rules.findIdx? (·.fires rule.source rule.inputs) = some place)) ∧
    (∀ listed, .shadowed listed ∈ d.diagnostics ↔ listed ≠ [] ∧
      (d.rules.zipIdx.filter fun entry ↦ d.shadowedAt entry.2 entry.1).map Prod.fst = listed) ∧
    (∀ listed, .unreachable listed ∈ d.diagnostics ↔ listed ≠ [] ∧ d.unreachable = listed) := by
  refine ⟨fun limit marker input calls ↦ ?_, fun limit marker input fuel ↦ ?_,
    fun place rule h ↦ Definition.shadowedAt_eq_false_iff h, fun listed ↦ ?_, fun listed ↦ ?_⟩
  · have hvisits : Visits d ((fresh d limit marker).start input) := visits_start limit marker input
    have hafter := hvisits.afterCalls_withRules perm calls
    intro m m'
    have hsame : m' = m.withRules rules := hafter
    refine ⟨hsame, ?_⟩
    rw [hsame, (hvisits.afterCalls calls).step_withRules perm]
  · exact (visits_start limit marker input).runFrom_withRules perm fuel
  · rw [Definition.mem_diagnostics_iff, Definition.Finds, ← d.shadowed_eq]
    exact and_congr_left fun hlisted ↦ by rw [hlisted]
  · rw [Definition.mem_diagnostics_iff, Definition.Finds]
    exact and_congr_left fun hlisted ↦ by rw [hlisted]

/-- Goes over a `0`. -/
def leave : Rule := ⟨"q0", [.plain '0'], "q3", [.plain '0'], [.right], none⟩

/-- Accepts on a `1`. -/
def arrive : Rule := ⟨"q3", [.plain '1'], "q1", [.plain '1'], [.stay], some .accept⟩

/-- A machine with two rules of use, among others: two that are shadowed, of which one shadows the
other, one of the accepting state, and two of states that lead to each other only. -/
def cluttered : Definition where
  rules := [leave, ⟨"q0", [.plain '0'], "q2", [.plain '1'], [.left], some .reject⟩,
    ⟨"q0", [.plain '0'], "q2", [.plain '1'], [.left], some .reject⟩,
    ⟨"q1", [.plain '0'], "q0", [.plain '0'], [.right], none⟩,
    ⟨"q7", [.plain '1'], "q8", [.plain '1'], [.stay], none⟩, arrive,
    ⟨"q8", [.plain '1'], "q7", [.plain '1'], [.stay], none⟩]

theorem cluttered_tidied :
    [arrive, leave].Perm cluttered.liveRules ∧
      ((fresh { cluttered with rules := [arrive, leave] } (some 5) ">").run 3 ['0', '1']).map
        Prod.fst = some (.ok .accept) := by
  have perm : [arrive, leave].Perm cluttered.liveRules := by decide
  obtain ⟨-, hrun, -⟩ := dead_rules_never_fire cluttered perm
  have haccepts : ((fresh cluttered (some 5) ">").run 3 ['0', '1']).map Prod.fst =
      some (.ok .accept) := rfl
  refine ⟨perm, ?_⟩
  rw [hrun, Option.map_map, ← haccepts]
  rfl

end Multitape
