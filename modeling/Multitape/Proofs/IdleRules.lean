import Multitape.Proofs.StateFindings

/-!
How far the finding of unreachable states takes account of the rules that are found never to fire.
Such a rule is shadowed or belongs to a terminal state (`Definition.idleAt`), and a run follows none
of them: it is only ever in a state to which the other rules lead, or in a terminal one
(`Machine.Follows.step`). The visit that finds the unreachable states follows the idle rules with
the others. A path of rules therefore either does without idle rules or has a first one, whose
source the others lead to and whose target leads on (`led_iff_firing_or_misled`), and a state to
which no path without idle rules leads is found to be unreachable exactly if no idle rule misleads
the visit in this way (`unreachable_iff_not_misled`). The definition `detour` has such a rule.
-/

set_option autoImplicit false
set_option relaxedAutoImplicit false

namespace Multitape

/-- A path through one relation is a path through another one, or has a first pair that is not in
the other one. -/
theorem path_or_first_exception {α : Type} {along : α → α → Prop} (within : α → α → Prop)
    {first last : α} (h : Relation.ReflTransGen along first last) :
    Relation.ReflTransGen within first last ∨
      ∃ here next, Relation.ReflTransGen within first here ∧ along here next ∧
        ¬ within here next ∧ Relation.ReflTransGen along next last := by
  induction h with
  | refl => exact .inl .refl
  | @tail here next _ hpair ih =>
    rcases ih with hwithin | ⟨start, exit, hbefore, hexit, hnot, hafter⟩
    · by_cases hnext : within here next
      · exact .inl (hwithin.tail hnext)
      · exact .inr ⟨here, next, hwithin, hpair, hnext, .refl⟩
    · exact .inr ⟨start, exit, hbefore, hexit, hnot, hafter.tail hpair⟩

namespace Definition

variable {d : Definition} {state : String} {rule : Rule}

/-- Whether the rule at a place is found never to fire, as a shadowed one or as one of a terminal
state. -/
def idleAt (d : Definition) (place : Nat) (rule : Rule) : Bool :=
  d.shadowedAt place rule || d.isTerminal rule.source

/-- A rule that is not found never to fire leads from the one state to the other. -/
def FiringEdge (d : Definition) (state next : String) : Prop :=
  ∃ place rule, d.rules[place]? = some rule ∧ d.idleAt place rule = false ∧
    rule.source = state ∧ rule.target = next

/-- Rules that are not found never to fire lead to the state from the start state. -/
def FiringLed (d : Definition) (state : String) : Prop :=
  Relation.ReflTransGen d.FiringEdge d.startState state

/-- The rule at a place is found never to fire, and by it a path of rules goes on to the state that
has needed no such rule until then. -/
structure Misleads (d : Definition) (place : Nat) (rule : Rule) (state : String) : Prop where
  listed : d.rules[place]? = some rule
  idle : d.idleAt place rule = true
  met : d.FiringLed rule.source
  leads : Relation.ReflTransGen d.Edge rule.target state

theorem idleAt_eq_false_iff {place : Nat} : d.idleAt place rule = false ↔
    d.shadowedAt place rule = false ∧ d.isTerminal rule.source = false :=
  Bool.or_eq_false_iff

theorem edge_of_listed {place : Nat} (listed : d.rules[place]? = some rule) :
    d.Edge rule.source rule.target :=
  ⟨rule, List.mem_of_getElem? listed, rfl, rfl⟩

theorem FiringLed.path (h : d.FiringLed state) :
    Relation.ReflTransGen d.Edge d.startState state := by
  induction h with
  | refl => exact .refl
  | tail _ hfiring ih =>
    obtain ⟨place, rule, listed, -, rfl, rfl⟩ := hfiring
    exact ih.tail (edge_of_listed listed)

/-- If a state is led to, then by firing rules alone, or an idle rule misleads to it. -/
theorem led_iff_firing_or_misled : d.Led state ↔
    d.FiringLed state ∨ ∃ place rule, d.Misleads place rule state := by
  rw [led_iff_path]
  constructor
  · intro hpath
    rcases path_or_first_exception d.FiringEdge hpath with hfiring |
      ⟨_, _, hbefore, ⟨rule, hrule, rfl, rfl⟩, hnot, hafter⟩
    · exact .inl hfiring
    · obtain ⟨place, listed⟩ := List.getElem?_of_mem hrule
      have hidle : d.idleAt place rule = true := by
        by_contra hfires
        exact hnot ⟨place, rule, listed, by simpa using hfires, rfl, rfl⟩
      exact .inr ⟨place, rule, listed, hidle, hbefore, hafter⟩
  · rintro (hfiring | ⟨place, rule, listed, -, met, leads⟩)
    · exact hfiring.path
    · exact (met.path.tail (edge_of_listed listed)).trans leads

theorem unreachable_iff_not_misled (hsource : state ∈ d.sources)
    (running : d.isTerminal state = false) (apart : ¬ d.FiringLed state) :
    state ∈ d.unreachable ↔ ∀ place rule, ¬ d.Misleads place rule state := by
  rw [mem_unreachable_iff, led_iff_firing_or_misled]
  constructor
  · rintro ⟨-, hnot, -⟩ place rule hmisled
    exact hnot (.inr ⟨place, rule, hmisled⟩)
  · intro hnone
    refine ⟨hsource, ?_, running⟩
    rintro (hfiring | ⟨place, rule, hmisled⟩)
    · exact apart hfiring
    · exact hnone place rule hmisled

/-- If neither finding about rules is made, no rule is idle. -/
theorem idleAt_eq_false_of_no_finding (unshadowed : ∀ listed, .shadowed listed ∉ d.diagnostics)
    (leaving : ∀ listed, .terminalSources listed ∉ d.diagnostics) {place : Nat}
    (listed : d.rules[place]? = some rule) : d.idleAt place rule = false := by
  have hshadowed : d.shadowed = [] := by
    by_contra hsome
    exact unshadowed _ (mem_diagnostics_iff.2 ⟨hsome, rfl⟩)
  have hterminal : d.terminalSources = [] := by
    by_contra hsome
    exact leaving _ (mem_diagnostics_iff.2 ⟨hsome, rfl⟩)
  rw [shadowed_eq, List.map_eq_nil_iff, List.filter_eq_nil_iff] at hshadowed
  rw [terminalSources, List.filter_eq_nil_iff] at hterminal
  have hplace : (rule, place) ∈ d.rules.zipIdx := List.mem_zipIdx_iff_getElem?.2 listed
  refine idleAt_eq_false_iff.2 ⟨?_, ?_⟩
  · simpa using hshadowed _ hplace
  · simpa using hterminal rule (List.mem_of_getElem? listed)

/-- The rule that fires in a state that runs is not idle. -/
theorem firingEdge_of_find? {symbols : List Symbol} (running : d.isTerminal state = false)
    (found : d.rules.find? (·.fires state symbols) = some rule) :
    d.FiringEdge state rule.target := by
  obtain ⟨place, listed, hfirst⟩ := exists_place_of_find? found
  have hfires : rule.fires state symbols = true := by simpa using List.find?_some found
  obtain ⟨rfl, -⟩ := Rule.fires_iff.1 hfires
  exact ⟨place, rule, listed, idleAt_eq_false_iff.2 ⟨hfirst, running⟩, rfl, rfl⟩

end Definition

namespace Machine

variable {d : Definition} {m : Machine}

/-- The machine has the definition and is in a state that firing rules alone lead to, or in a
terminal one. -/
structure Follows (d : Definition) (m : Machine) : Prop where
  definition : m.definition = d
  state : d.FiringLed m.state ∨ d.isTerminal m.state = true

theorem follows_start (limit : Option Nat) (marker : String) (input : List Char) :
    Follows d ((fresh d limit marker).start input) :=
  ⟨rfl, .inl .refl⟩

theorem Follows.step (h : Follows d m) : Follows d m.step.2 := by
  obtain ⟨hdefinition, hstate⟩ := m.state_step_cases
  refine ⟨hdefinition.trans h.definition, ?_⟩
  rcases hstate with hsame | ⟨hnone, hreject | ⟨rule, hfind, htarget⟩⟩
  · exact hsame ▸ h.state
  · exact .inr (by rw [hreject, h.definition]; simp [Definition.isTerminal])
  · have running : d.isTerminal m.state = false := h.definition ▸ verdict_eq_none_iff.1 hnone
    have hedge : d.FiringEdge m.state rule.target :=
      Definition.firingEdge_of_find? running (h.definition ▸ hfind)
    rcases h.state with hled | hterminal
    · exact .inl (htarget ▸ hled.tail hedge)
    · rw [running] at hterminal
      cases hterminal

/-- Every call, and so any number of calls, keeps to the firing rules. -/
theorem Follows.afterCalls (h : Follows d m) (calls : Nat) : Follows d (m.afterCalls calls) := by
  induction calls generalizing m with
  | zero => exact h
  | succ calls ih => exact ih h.step

end Machine

namespace Definition

/-- The states found to be unreachable are told exactly if there are any. What a run can be in is
led to by rules that are not idle, unless it is terminal. A state that they do not lead to, if it
has rules and is not terminal, is found to be unreachable exactly if no idle rule misleads to it; so
it is found whenever no rule is found to be shadowed or to leave a terminal state. Conversely no
state is found that firing rules lead to. -/
theorem found_unreachable_unless_misled (d : Definition) :
    (∀ listed, .unreachable listed ∈ d.diagnostics ↔ listed ≠ [] ∧ listed = d.unreachable) ∧
    (∀ limit marker input calls,
      let m := ((Machine.fresh d limit marker).start input).afterCalls calls
      d.isTerminal m.state = false → d.FiringLed m.state) ∧
    (∀ state ∈ d.unreachable, state ∈ d.sources ∧ d.isTerminal state = false ∧
      ¬ d.FiringLed state) ∧
    (∀ state ∈ d.sources, d.isTerminal state = false → ¬ d.FiringLed state →
      (state ∈ d.unreachable ↔ ∀ place rule, ¬ d.Misleads place rule state)) ∧
    ((∀ listed, .shadowed listed ∉ d.diagnostics) →
      (∀ listed, .terminalSources listed ∉ d.diagnostics) →
      ∀ state ∈ d.sources, d.isTerminal state = false → ¬ d.FiringLed state →
        state ∈ d.unreachable) := by
  refine ⟨fun listed ↦ mem_diagnostics_iff.trans ne_nil_and_eq_comm,
    fun limit marker input calls ↦ ?_, fun state hstate ↦ ?_,
    fun state ↦ unreachable_iff_not_misled,
    fun unshadowed leaving state hsource running apart ↦ ?_⟩
  · intro m running
    have hfollows := (Machine.follows_start (d := d) limit marker input).afterCalls calls
    rcases hfollows.state with hled | hterminal
    · exact hled
    · exact absurd hterminal (by rw [running]; exact Bool.false_ne_true)
  · obtain ⟨hsource, hnot, running⟩ := mem_unreachable_iff.1 hstate
    exact ⟨hsource, running, fun hfiring ↦ hnot (led_iff_firing_or_misled.2 (.inl hfiring))⟩
  · refine (unreachable_iff_not_misled hsource running apart).2 fun place rule hmisled ↦ ?_
    have hfires := idleAt_eq_false_of_no_finding unshadowed leaving hmisled.listed
    rw [hmisled.idle] at hfires
    cases hfires

/-- A machine that goes on with a `0` from its start state to accept, and has a rule of the
accepting state that leads to a state with a rule of its own. -/
def detour : Definition where
  rules := [⟨"q0", [.plain '0'], "q1", [.plain '0'], [.right], some .accept⟩,
    ⟨"q1", [.plain '0'], "q5", [.plain '0'], [.right], none⟩,
    ⟨"q5", [.plain '0'], "q5", [.plain '0'], [.right], none⟩]

/-- Of the rules of the start state and of the accepting one, only the first can fire, and it leads
to the accepting state. -/
theorem state_of_detour {state : String} (h : detour.FiringLed state) :
    state ∈ ["q0", "q1"] := by
  have hrules : ∀ entry ∈ detour.rules.zipIdx, detour.idleAt entry.2 entry.1 = false →
      entry.1.source ∈ ["q0", "q1"] → entry.1.target ∈ ["q0", "q1"] := by decide
  induction h with
  | refl => exact List.mem_cons_self
  | tail _ hfiring ih =>
    obtain ⟨place, rule, listed, hfires, rfl, rfl⟩ := hfiring
    exact hrules (rule, place) (List.mem_zipIdx_iff_getElem?.2 listed) hfires ih

theorem secluded_and_detour_found :
    (∃ state ∈ secluded.unreachable, ¬ secluded.FiringLed state) ∧
      ¬ detour.FiringLed "q5" ∧ "q5" ∉ detour.unreachable := by
  obtain ⟨-, -, -, -, found⟩ := found_unreachable_unless_misled secluded
  obtain ⟨-, -, -, misled, -⟩ := found_unreachable_unless_misled detour
  have unshadowed : ∀ listed, .shadowed listed ∉ secluded.diagnostics := by
    intro listed hlisted
    exact (mem_diagnostics_iff.1 hlisted).1 (by decide)
  have leaving : ∀ listed, .terminalSources listed ∉ secluded.diagnostics := by
    intro listed hlisted
    exact (mem_diagnostics_iff.1 hlisted).1 (by decide)
  have hsecluded : ¬ secluded.FiringLed "q4" := by
    intro h
    exact absurd (mem_reachable_iff.2 (led_iff_path.2 h.path)) (by decide)
  have hdetour : ¬ detour.FiringLed "q5" := fun h ↦ absurd (state_of_detour h) (by decide)
  refine ⟨⟨"q4", ?_, hsecluded⟩, hdetour, ?_⟩
  · exact found unshadowed leaving "q4" (by decide) (by decide) hsecluded
  · rw [misled "q5" (by decide) (by decide) hdetour]
    intro hnone
    have hfirst : detour.FiringEdge "q0" "q1" := ⟨0, _, rfl, by decide, rfl, rfl⟩
    exact hnone 1 _ ⟨rfl, by decide, .single hfirst, .refl⟩

/-- The rule of the accepting state never fires, and makes a state count as reachable. -/
theorem accepting_state_leads_on :
    Definition.parse "q0 0 q1 0 r\nq1 0 q5 0 r\nq5 0 q5 0 r".toList = .ok detour ∧
      "q5" ∈ detour.sources ∧ detour.isTerminal "q5" = false ∧ ¬ detour.FiringLed "q5" ∧
      ∀ listed, .unreachable listed ∉ detour.diagnostics := by
  refine ⟨rfl, by decide, by decide, fun h ↦ absurd (state_of_detour h) (by decide), ?_⟩
  intro listed hlisted
  exact (mem_diagnostics_iff.1 hlisted).1 (by decide)

end Definition

end Multitape
