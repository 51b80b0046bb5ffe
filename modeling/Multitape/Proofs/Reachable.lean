import Multitape.Diagnostic
import Mathlib.Data.List.Perm.Basic
import Mathlib.Logic.Relation
import Mathlib.Tactic.Tauto

/-!
What is reachable. A state is led to if it is the start state or the target of a rule whose source
is led to (`Definition.Led`), in other words if a path of rules leads there from the start state
(`led_iff_path`).

A visit takes one of the states that wait at a time, whichever it likes (`Turn`). It cannot go on
for ever: the states that wait, together with the rules of the states not yet visited, become fewer
with every turn (`remaining_lt_of_turn`). When there is no turn left, the visited states are those
that are led to (`Explores.mem_visited_iff`). The states found by visiting are found in such turns
(`turns_visit`), so they are the states that are led to and no others (`mem_reachable_iff`).
Whatever has rules and is not among them is found to be unreachable, unless it is terminal
(`mem_unreachable_iff`).
-/

set_option autoImplicit false
set_option relaxedAutoImplicit false

namespace Multitape.Definition

/-- The states that the rules lead to, from the start state on. -/
inductive Led (d : Definition) : String → Prop
  | start : Led d d.startState
  | rule {rule : Rule} : rule ∈ d.rules → Led d rule.source → Led d rule.target

/-- Some rule leads from the one state to the other. -/
def Edge (d : Definition) (state next : String) : Prop :=
  ∃ rule ∈ d.rules, rule.source = state ∧ rule.target = next

variable {d : Definition}

theorem led_iff_path {state : String} :
    d.Led state ↔ Relation.ReflTransGen d.Edge d.startState state := by
  constructor
  · intro h
    induction h with
    | start => exact .refl
    | rule hrule _ ih => exact ih.tail ⟨_, hrule, rfl, rfl⟩
  · intro h
    induction h with
    | refl => exact .start
    | tail _ hedge ih =>
      obtain ⟨rule, hrule, rfl, rfl⟩ := hedge
      exact .rule hrule ih

theorem mem_successors_iff {state next : String} : next ∈ d.successors state ↔
    ∃ rule ∈ d.rules, rule.source = state ∧ rule.target = next := by
  simp only [successors, List.mem_map, List.mem_filter, beq_iff_eq, and_assoc]

/-- How many rules belong to states that have not been visited. -/
def untried (d : Definition) (visited : List String) : Nat :=
  d.rules.countP (·.source ∉ visited)

/-- A visit of a new state puts as many states among those that wait as it tries rules. -/
theorem length_successors_add {state : String} {visited : List String} (new : state ∉ visited) :
    (d.successors state).length + d.untried (state :: visited) = d.untried visited := by
  unfold successors untried
  rw [List.length_map]
  induction d.rules with
  | nil => rfl
  | cons rule rules ih =>
    by_cases hsource : rule.source = state
    · rw [List.filter_cons_of_pos (by simp [hsource]), List.length_cons,
        List.countP_cons_of_neg (by simp [hsource]),
        List.countP_cons_of_pos (by simp [hsource, new])]
      omega
    · rw [List.filter_cons_of_neg (by simp [hsource])]
      by_cases hvisited : rule.source ∈ visited
      · rw [List.countP_cons_of_neg (by simp [hvisited]),
          List.countP_cons_of_neg (by simp [hvisited]), ih]
      · rw [List.countP_cons_of_pos (by simp [hsource, hvisited]),
          List.countP_cons_of_pos (by simp [hvisited])]
        omega

/-! ### Turns of a visit -/

/-- A visit on its way: the states that wait and those that have been visited. -/
structure Walk where
  waiting : List String
  visited : List String

/-- One turn takes any of the states that wait. If it has been visited already, that is all. If not,
it is visited, and the states that its rules lead to wait as well, except that those which have been
visited may be left out. -/
inductive Turn (d : Definition) : Walk → Walk → Prop
  | again {state : String} {waiting rest visited : List String}
      (taken : waiting.Perm (state :: rest)) (old : state ∈ visited) :
      Turn d ⟨waiting, visited⟩ ⟨rest, visited⟩
  | first {state : String} {waiting rest next more visited : List String}
      (taken : waiting.Perm (state :: rest)) (new : state ∉ visited)
      (only : more.Sublist (d.successors state))
      (all : ∀ s ∈ d.successors state, s ∉ state :: visited → s ∈ more)
      (waits : next.Perm (more ++ rest)) :
      Turn d ⟨waiting, visited⟩ ⟨next, state :: visited⟩

/-- As long as a state waits, there is another turn. -/
theorem exists_turn (d : Definition) (state : String) (waiting visited : List String) :
    ∃ next, d.Turn ⟨state :: waiting, visited⟩ next := by
  by_cases hold : state ∈ visited
  · exact ⟨_, .again (.refl _) hold⟩
  · exact ⟨_, .first (.refl _) hold (.refl _) (fun _ hs _ ↦ hs) (.refl _)⟩

theorem not_turn_nil {visited : List String} {next : Walk} : ¬ d.Turn ⟨[], visited⟩ next := by
  intro h
  cases h with
  | again taken => exact absurd taken.length_eq (by simp)
  | first taken => exact absurd taken.length_eq (by simp)

/-- The visit as it begins. -/
def outset (d : Definition) : Walk := ⟨[d.startState], []⟩

/-- How many turns there can be at most. -/
def remaining (d : Definition) (walk : Walk) : Nat :=
  walk.waiting.length + d.untried walk.visited

variable {walk next : Walk}

theorem remaining_lt_of_turn (h : d.Turn walk next) : d.remaining next < d.remaining walk := by
  cases h with
  | again taken old =>
    simp only [remaining, taken.length_eq, List.length_cons]
    omega
  | first taken new only all waits =>
    have htried := length_successors_add (d := d) new
    have hmore := only.length_le
    simp only [remaining, taken.length_eq, waits.length_eq, List.length_cons, List.length_append]
    omega

/-- No visit goes on for ever, wherever it begins. -/
theorem wellFounded_turn (d : Definition) : WellFounded fun next walk ↦ d.Turn walk next :=
  Subrelation.wf (r := InvImage (· < ·) d.remaining) remaining_lt_of_turn
    (InvImage.wf _ Nat.lt_wfRel.wf)

/-- What every turn keeps: the states in sight are led to, the start state is among them, and so are
the states that the visited ones lead to. -/
structure Explores (d : Definition) (walk : Walk) : Prop where
  led : ∀ s, s ∈ walk.waiting ∨ s ∈ walk.visited → d.Led s
  start : d.startState ∈ walk.waiting ∨ d.startState ∈ walk.visited
  ahead : ∀ s ∈ walk.visited, ∀ next ∈ d.successors s, next ∈ walk.waiting ∨ next ∈ walk.visited

namespace Explores

theorem outset (d : Definition) : d.Explores d.outset where
  led := by
    rintro s (hs | hs)
    · rw [List.mem_singleton.1 hs]
      exact .start
    · cases hs
  start := .inl List.mem_cons_self
  ahead := by
    intro s hs
    cases hs

theorem turn (h : d.Explores walk) (hturn : d.Turn walk next) : d.Explores next := by
  obtain ⟨led, start, ahead⟩ := h
  cases hturn with
  | again taken old =>
    simp only [taken.mem_iff, List.mem_cons] at led start ahead
    refine ⟨fun s hs ↦ led s (by tauto), ?_, fun s hs t ht ↦ ?_⟩
    · rcases start with (rfl | hstart) | hstart
      · exact .inr old
      · exact .inl hstart
      · exact .inr hstart
    · rcases ahead s hs t ht with (rfl | hnext) | hnext
      · exact .inr old
      · exact .inl hnext
      · exact .inr hnext
  | @first state waiting rest next more visited taken new only all waits =>
    simp only [taken.mem_iff, List.mem_cons] at led start ahead
    have hstate : d.Led state := led state (.inl (.inl rfl))
    refine ⟨fun s hs ↦ ?_, ?_, fun s hs t ht ↦ ?_⟩ <;>
      simp only [waits.mem_iff, List.mem_append, List.mem_cons] at *
    · rcases hs with (hmore | hrest) | rfl | hvisited
      · obtain ⟨rule, hrule, rfl, rfl⟩ := mem_successors_iff.1 (only.subset hmore)
        exact .rule hrule hstate
      · exact led s (.inl (.inr hrest))
      · exact hstate
      · exact led s (.inr hvisited)
    · tauto
    · rcases hs with rfl | hs
      · have := all t ht
        tauto
      · have := ahead s hs t ht
        tauto

/-- Where the turns from the outset lead, the states in sight are the right ones. -/
theorem of_turns (h : Relation.ReflTransGen d.Turn d.outset walk) : d.Explores walk := by
  induction h with
  | refl => exact Explores.outset d
  | tail _ hturn ih => exact ih.turn hturn

/-- When there is no turn left, the visited states are those that are led to. -/
theorem mem_visited_iff (h : d.Explores walk) (ended : ∀ next, ¬ d.Turn walk next)
    {state : String} : state ∈ walk.visited ↔ d.Led state := by
  obtain ⟨waiting, visited⟩ := walk
  obtain rfl : waiting = [] := by
    cases waiting with
    | nil => rfl
    | cons state waiting =>
      obtain ⟨next, hturn⟩ := exists_turn d state waiting visited
      exact absurd hturn (ended next)
  obtain ⟨led, start, ahead⟩ := h
  simp only [List.not_mem_nil, false_or] at led start ahead
  constructor
  · exact led state
  · intro h
    induction h with
    | start => exact start
    | rule hrule _ ih => exact ahead _ ih _ (mem_successors_iff.2 ⟨_, hrule, rfl, rfl⟩)

end Explores

/-! ### What is found -/

theorem visit_nil (fuel : Nat) (visited : List String) : d.visit fuel [] visited = visited := by
  cases fuel <;> rfl

theorem visit_of_visited {fuel : Nat} {state : String} {waiting visited : List String}
    (old : state ∈ visited) :
    d.visit (fuel + 1) (state :: waiting) visited = d.visit fuel waiting visited := by
  rw [visit, if_pos (by simpa using old)]

theorem visit_of_new {fuel : Nat} {state : String} {waiting visited : List String}
    (new : state ∉ visited) : d.visit (fuel + 1) (state :: waiting) visited =
      d.visit fuel (d.successors state ++ waiting) (state :: visited) := by
  rw [visit, if_neg (by simpa using new)]

/-- With calls enough, visiting takes turns until nothing waits any more. -/
theorem turns_visit {fuel : Nat} {waiting visited : List String}
    (enough : d.remaining ⟨waiting, visited⟩ ≤ fuel) :
    Relation.ReflTransGen d.Turn ⟨waiting, visited⟩ ⟨[], d.visit fuel waiting visited⟩ := by
  induction fuel generalizing waiting visited with
  | zero =>
    have hnone : waiting.length + d.untried visited ≤ 0 := enough
    obtain rfl : waiting = [] := List.eq_nil_of_length_eq_zero (by omega)
    rw [visit_nil]
  | succ fuel ih =>
    cases waiting with
    | nil => rw [visit_nil]
    | cons state waiting =>
      by_cases hold : state ∈ visited
      · have hturn : d.Turn ⟨state :: waiting, visited⟩ ⟨waiting, visited⟩ := .again (.refl _) hold
        have := remaining_lt_of_turn hturn
        rw [visit_of_visited hold]
        exact .head hturn (ih (by omega))
      · have hturn : d.Turn ⟨state :: waiting, visited⟩
            ⟨d.successors state ++ waiting, state :: visited⟩ :=
          .first (.refl _) hold (.refl _) (fun s hs _ ↦ hs) (.refl _)
        have := remaining_lt_of_turn hturn
        rw [visit_of_new hold]
        exact .head hturn (ih (by omega))

/-- The reachable states are what a visit from the start state ends with. -/
theorem turns_reachable (d : Definition) :
    Relation.ReflTransGen d.Turn d.outset ⟨[], d.reachable⟩ := by
  refine turns_visit ?_
  have : d.untried [] ≤ d.rules.length := List.countP_le_length
  simp only [remaining, List.length_singleton]
  omega

/-- The reachable states are those that are led to. -/
theorem mem_reachable_iff {state : String} : state ∈ d.reachable ↔ d.Led state :=
  (Explores.of_turns d.turns_reachable).mem_visited_iff fun _ ↦ not_turn_nil

/-- A state is found to be unreachable if it has rules, is not terminal and is not led to. -/
theorem mem_unreachable_iff {state : String} : state ∈ d.unreachable ↔
    state ∈ d.sources ∧ ¬ d.Led state ∧ d.isTerminal state = false := by
  simp only [unreachable, Text.mem_ascending, List.mem_filter, Bool.and_eq_true, Bool.not_eq_true',
    List.contains_eq_mem, decide_eq_false_iff_not, mem_reachable_iff]

end Multitape.Definition
