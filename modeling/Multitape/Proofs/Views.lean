import Multitape.Proofs.Diagnostic
import Multitape.Proofs.Run
import Multitape.Proofs.Tape

/-!
Runs of a given definition, one transition at a time. A view is a window with the head inside, and
`Machine.Stands` says in which state a machine is and what its heads see, so that nothing else of
the machine matters. `Definition.HaltsFrom` says that every machine standing there reaches a verdict
in bounded time. It goes from a state and its views back to those before them: over a rule that
fires (`HaltsFrom.of_rule`), or from a place without a rule, where the machine rejects
(`HaltsFrom.of_no_rule`). A run from the start is `HaltsFrom.run_eq`.

The views of a head that walks over cells are `Focus.facingRight` and `Focus.facingLeft`, which name
the cells behind the head and ahead of it. A state that writes back what it reads and goes on sweeps
over them (`HaltsFrom.sweep_right`, `HaltsFrom.sweep_left`).
-/

set_option autoImplicit false
set_option relaxedAutoImplicit false

namespace Multitape

/-! ### Views -/

namespace Focus

variable (blank : Symbol)

/-- The head is on the first of the cells ahead of it; those behind it are listed nearest first. -/
def facingRight (behind ahead : List Symbol) : Focus := ⟨behind, ahead.headD blank, ahead.tail⟩

/-- The head is on the nearest of the cells to its left, and the cells behind it are to its
right. -/
def facingLeft (ahead behind : List Symbol) : Focus := ⟨ahead.tail, ahead.headD blank, behind⟩

variable {blank} (s t : Symbol) (behind ahead : List Symbol)

/-- A step ahead. -/
@[simp] theorem act_right_facingRight : (facingRight blank behind (s :: ahead)).act blank t .right =
    facingRight blank (t :: behind) ahead := by
  cases ahead <;> rfl

/-- Turning round. -/
@[simp] theorem act_left_facingRight : (facingRight blank behind (s :: ahead)).act blank t .left =
    facingLeft blank behind (t :: ahead) := by
  cases behind <;> rfl

@[simp] theorem act_stay_facingRight : (facingRight blank behind (s :: ahead)).act blank t .stay =
    facingRight blank behind (t :: ahead) :=
  rfl

@[simp] theorem act_left_facingLeft : (facingLeft blank (s :: ahead) behind).act blank t .left =
    facingLeft blank ahead (t :: behind) := by
  cases ahead <;> rfl

@[simp] theorem act_right_facingLeft : (facingLeft blank (s :: ahead) behind).act blank t .right =
    facingRight blank (t :: ahead) behind := by
  cases behind <;> rfl

@[simp] theorem act_stay_facingLeft : (facingLeft blank (s :: ahead) behind).act blank t .stay =
    facingLeft blank (t :: ahead) behind :=
  rfl

/-! Beyond the last cell there is a blank. -/

@[simp] theorem act_right_facingRight_nil : (facingRight blank behind []).act blank t .right =
    facingRight blank (t :: behind) [] :=
  rfl

@[simp] theorem act_left_facingRight_nil : (facingRight blank behind []).act blank t .left =
    facingLeft blank behind [t] := by
  cases behind <;> rfl

@[simp] theorem act_stay_facingLeft_nil : (facingLeft blank [] behind).act blank blank .stay =
    facingLeft blank [] behind :=
  rfl

/-- What each instruction makes of its view. -/
def actAll (blank : Symbol) (views : List Focus) (instructions : List Instruction) : List Focus :=
  List.zipWith (fun view i ↦ view.act blank i.output i.move) views instructions

end Focus

theorem Tape.view_act (tape : Tape) (output : Symbol) (d : Direction) :
    (tape.act output d).view = tape.view.act tape.blank output d :=
  rfl

theorem Tape.view_reset (alphabet : Alphabet) (blank : Symbol) (contents : List Symbol) :
    Tape.view ⟨alphabet, blank, .of contents 0⟩ = .facingRight blank [] contents := by
  cases contents <;> rfl

/-! ### Where a machine stands -/

/-- The machine has the definition and no limit, is in the state, and its heads see the views. -/
structure Machine.Stands (m : Machine) (d : Definition) (state : String) (views : List Focus) :
    Prop where
  definition : m.definition = d
  limit : m.limit = none
  state : m.state = state
  views : m.tapes.map Tape.view = views
  alphabets : m.tapes.map Tape.alphabet = d.tapeAlphabets
  blank : ∀ tape ∈ m.tapes, tape.blank = d.blank

/-- Each symbol is in the alphabet of its tape. -/
def Definition.Has (d : Definition) (symbols : List Symbol) : Prop :=
  List.Forall₂ (fun alphabet s ↦ alphabet.contains s = true) d.tapeAlphabets symbols

instance (d : Definition) (symbols : List Symbol) : Decidable (d.Has symbols) :=
  inferInstanceAs (Decidable (List.Forall₂ _ _ _))

/-- The parts of the definition fit together, and its rules write each tape in the symbols that it
has. -/
structure Definition.Sound (d : Definition) : Prop extends d.WellFormed where
  outputs : ∀ rule ∈ d.rules, d.Has rule.outputs

/-- A written definition is sound if there are no foreign outputs in it. -/
theorem Definition.sound_of_parse {text : List Char} {d : Definition}
    (parsed : Definition.parse text = .ok d) (clean : d.foreignOutputs = []) : d.Sound := by
  have wellFormed := wellFormed_of_parse parsed
  refine ⟨wellFormed, fun rule hrule ↦ ?_⟩
  have hlength : rule.outputs.length = d.tapeAlphabets.length :=
    (wellFormed.rules rule hrule).outputs
  refine List.forall₂_iff_get.2 ⟨hlength.symm, fun i halphabet houtput ↦ ?_⟩
  exact contains_output (clean_iff.2 clean) hrule (List.getElem?_eq_getElem houtput)
    (List.getElem?_eq_getElem halphabet)

namespace Machine

/-- A tape takes the instruction. -/
def Fits (i : Instruction) (tape : Tape) : Prop :=
  tape.current = i.input ∧ tape.alphabet.contains i.output = true

theorem applyAll_of_fits {instructions : List Instruction} {tapes : List Tape}
    (fits : List.Forall₂ Fits instructions tapes) (index : Nat) :
    applyAll index instructions tapes =
      (List.zipWith (fun i tape ↦ tape.act i.output i.move) instructions tapes, none) := by
  induction fits generalizing index with
  | nil => rfl
  | @cons i tape instructions tapes first _ ih =>
    have hfirst : tape.apply i.input i.output i.move = .ok (tape.act i.output i.move) :=
      Tape.apply_eq_ok_iff.2 ⟨first.1, first.2, rfl⟩
    simp only [applyAll, hfirst, ih, List.zipWith_cons_cons]

/-- A rule that reads what is there and writes nothing foreign is taken by every tape. -/
theorem fits_of_has {rule : Rule} {tapes : List Tape}
    (inputs : rule.inputs = tapes.map Tape.current)
    (outputs : List.Forall₂ (fun alphabet s ↦ alphabet.contains s = true)
      (tapes.map Tape.alphabet) rule.outputs)
    (moves : rule.moves.length = tapes.length) : List.Forall₂ Fits rule.instructions tapes := by
  obtain ⟨source, ins, target, outs, ds, terminal⟩ := rule
  simp only [Rule.instructions] at *
  subst inputs
  induction tapes generalizing outs ds with
  | nil => exact .nil
  | cons tape tapes ih =>
    obtain ⟨d, ds, rfl⟩ := List.exists_cons_of_length_eq_add_one moves
    obtain _ | ⟨first, others⟩ := outputs
    exact .cons ⟨rfl, first⟩ (ih _ _ others (by simpa using moves))

end Machine

namespace Machine.Stands

variable {m : Machine} {d : Definition} {state : String} {views : List Focus}

theorem symbols_eq (h : m.Stands d state views) : m.symbols = views.map Focus.here := by
  rw [← h.views, List.map_map, symbols]
  refine List.map_congr_left fun tape _ ↦ ?_
  exact tape.current_eq_view

theorem length_tapes (h : m.Stands d state views) : m.tapes.length = d.tapeCount := by
  rw [Definition.tapeCount, ← h.alphabets, List.length_map]

theorem verdict_eq_none (h : m.Stands d state views) (running : d.isTerminal state = false) :
    m.verdict = none := by
  unfold Definition.isTerminal at running
  rw [Bool.or_eq_false_iff, beq_eq_false_iff_ne, beq_eq_false_iff_ne] at running
  rw [verdict, h.definition, h.state, if_neg running.1, if_neg running.2]

/-- A step by a rule that writes nothing foreign. -/
theorem step {rule : Rule} (h : m.Stands d state views) (running : m.verdict = none)
    (next : m.nextRule = rule) (spans : rule.Spans d.tapeCount) (has : d.Has rule.outputs) :
    ∃ after, m.step = (.ok after.verdict, after) ∧
      after.Stands d rule.target (Focus.actAll d.blank views rule.instructions) := by
  have below := reachedLimit?_of_unlimited h.limit
  have hinputs : rule.inputs = m.tapes.map Tape.current := next ▸ m.inputs_nextRule
  have hmoves : rule.moves.length = m.tapes.length := spans.moves.trans h.length_tapes.symm
  have hfits : List.Forall₂ Fits rule.instructions m.tapes :=
    fits_of_has hinputs (h.alphabets ▸ has) hmoves
  have hlength := hfits.length_eq
  have happlied := applyAll_of_fits hfits 0
  rw [← next] at happlied
  refine ⟨_, step_of_applied running below happlied, h.definition, h.limit, ?_, ?_, ?_, ?_⟩
  · rw [next]
    rfl
  · change List.map Tape.view (List.zipWith _ _ _) = _
    rw [next, ← h.views, Focus.actAll]
    refine List.ext_getElem (by simp [hlength]) fun k hk hk' ↦ ?_
    have hk : k < m.tapes.length := by
      simp only [List.length_map, List.length_zipWith] at hk
      omega
    simp only [List.getElem_map, List.getElem_zipWith]
    rw [Tape.view_act, h.blank _ (List.getElem_mem hk)]
  · change List.map Tape.alphabet (List.zipWith _ _ _) = _
    rw [next, ← h.alphabets]
    refine List.ext_getElem (by simp [hlength]) fun k hk hk' ↦ ?_
    simp only [List.getElem_map, List.getElem_zipWith, Tape.alphabet_act]
  · intro tape htape
    change tape ∈ List.zipWith _ _ _ at htape
    obtain ⟨k, hk, rfl⟩ := List.mem_iff_getElem.1 htape
    rw [List.getElem_zipWith, Tape.blank_act]
    exact h.blank _ (List.getElem_mem _)

end Machine.Stands

/-! ### Halting from where a machine stands -/

namespace Definition

/-- Where the views of a run begin: the first head is on the first character of the input. -/
def startViews (d : Definition) (input : List Char) : List Focus :=
  match d.tapeAlphabets with
  | [] => []
  | _ :: others =>
    .facingRight d.blank [] (input.map .plain) :: others.map fun _ ↦ .facingRight d.blank [] []

theorem stands_start (d : Definition) (input : List Char) (marker : String) :
    (({ Machine.new d with limit := none, marker } : Machine).start input).Stands d d.startState
      (d.startViews input) where
  definition := rfl
  limit := rfl
  state := rfl
  views := by
    change (Machine.startTapes _ (Machine.blankTapes d)).map Tape.view = _
    unfold Machine.blankTapes startViews
    cases d.tapeAlphabets with
    | nil => rfl
    | cons first others =>
      simp only [Machine.startTapes, List.map_cons, List.map_map]
      congr 1
      exact Tape.view_reset _ _ _
  alphabets := by
    change (Machine.startTapes _ (Machine.blankTapes d)).map Tape.alphabet = _
    unfold Machine.blankTapes
    cases d.tapeAlphabets with
    | nil => rfl
    | cons first others =>
      simp only [Machine.startTapes, List.map_cons, List.map_map]
      congr 1
      exact List.map_id _
  blank := by
    change ∀ tape ∈ Machine.startTapes _ (Machine.blankTapes d), tape.blank = _
    unfold Machine.blankTapes
    cases d.tapeAlphabets with
    | nil => simp [Machine.startTapes]
    | cons first others => simp [Machine.startTapes, Tape.reset, Tape.clear, Tape.new]

/-- Every machine that stands there reaches the verdict in at most so many transitions. -/
def HaltsFrom (d : Definition) (state : String) (views : List Focus) (bound : Nat) (v : Verdict) :
    Prop :=
  ∀ m : Machine, m.Stands d state views → m.HaltsWithin bound v

namespace HaltsFrom

variable {d : Definition} {state : String} {views : List Focus} {bound : Nat} {v : Verdict}

theorem mono {bound' : Nat} (h : d.HaltsFrom state views bound v) (le : bound ≤ bound') :
    d.HaltsFrom state views bound' v :=
  fun m stands ↦ (h m stands).mono le

theorem of_accept : d.HaltsFrom d.acceptState views 0 .accept := by
  intro m stands
  refine .of_verdict ?_
  rw [Machine.verdict, stands.definition, stands.state, if_pos rfl]

theorem of_reject (distinct : d.acceptState ≠ d.rejectState) :
    d.HaltsFrom d.rejectState views 0 .reject := by
  intro m stands
  refine .of_verdict ?_
  rw [Machine.verdict, stands.definition, stands.state, if_neg distinct.symm, if_pos rfl]

/-- One transition before the others, by the rule that fires. -/
theorem of_rule (sound : d.Sound) {rule : Rule} {symbols : List Symbol}
    (reads : views.map Focus.here = symbols) (running : d.isTerminal state = false)
    (found : d.rules.find? (·.fires state symbols) = some rule)
    (rest : d.HaltsFrom rule.target (Focus.actAll d.blank views rule.instructions) bound v) :
    d.HaltsFrom state views (bound + 1) v := by
  intro m stands
  have hrule : rule ∈ d.rules := List.mem_of_find?_eq_some found
  have next : m.nextRule = rule := by
    rw [Machine.nextRule, stands.definition, stands.state, stands.symbols_eq, reads, found]
  obtain ⟨after, hstep, hafter⟩ := stands.step (stands.verdict_eq_none running) next
    (sound.rules rule hrule) (sound.outputs rule hrule)
  exact .of_step hstep (rest after hafter)

/-- Where no rule fires, the machine rejects. -/
theorem of_no_rule (sound : d.Sound) {symbols : List Symbol}
    (reads : views.map Focus.here = symbols) (running : d.isTerminal state = false)
    (missing : d.rules.find? (·.fires state symbols) = none) (has : d.Has symbols) :
    d.HaltsFrom state views (bound + 1) .reject := by
  intro m stands
  have next : m.nextRule = .implicitReject state symbols d.rejectState := by
    rw [Machine.nextRule, stands.definition, stands.state, stands.symbols_eq, reads, missing]
  have hlength : symbols.length = d.tapeCount := has.length_eq.symm
  have spans : (Rule.implicitReject state symbols d.rejectState).Spans d.tapeCount :=
    ⟨hlength, hlength, (List.length_map _).trans hlength⟩
  obtain ⟨after, hstep, hafter⟩ := stands.step (stands.verdict_eq_none running) next spans has
  have hreject := of_reject sound.terminal after hafter
  exact .of_step hstep (hreject.mono (Nat.zero_le bound))

/-- A run from the start answers with the verdict, under every limit that leaves room for it. -/
theorem run_eq {input : List Char} (h : d.HaltsFrom d.startState (d.startViews input) bound v)
    {limit : Option Nat} (room : ∀ l ∈ limit, bound ≤ l) (marker : String) {fuel : Nat}
    (enough : bound ≤ fuel) (asked : 0 < fuel) :
    ∃ last, ({ Machine.new d with limit, marker } : Machine).run fuel input = some (.ok v, last) ∧
      last.steps ≤ bound := by
  have free := h _ (stands_start d input marker)
  have hroom : ∀ l ∈ limit, 0 + bound ≤ l := by simpa using room
  obtain ⟨last, hrun, hsteps⟩ := Machine.HaltsWithin.runFrom_eq
    (m := ({ Machine.new d with limit, marker } : Machine).start input) free hroom enough asked
  exact ⟨last, hrun, (Nat.zero_add bound) ▸ hsteps⟩

end HaltsFrom

/-! ### A single tape -/

/-- In the state, the machine has a rule that reads the one symbol and writes the other. -/
def Takes (d : Definition) (state : String) (s : Symbol) (target : String) (t : Symbol)
    (move : Direction) : Prop :=
  d.isTerminal state = false ∧
    ∃ terminal, d.rules.find? (·.fires state [s]) = some ⟨state, [s], target, [t], [move], terminal⟩

namespace HaltsFrom

variable {d : Definition} {state target : String} {bound : Nat} {v : Verdict} {move : Direction}
variable {s t : Symbol} {cells behind ahead : List Symbol}

theorem of_takes (sound : d.Sound) {view : Focus} (reads : view.here = s)
    (takes : d.Takes state s target t move)
    (rest : d.HaltsFrom target [view.act d.blank t move] bound v) :
    d.HaltsFrom state [view] (bound + 1) v := by
  obtain ⟨running, terminal, found⟩ := takes
  have hreads : [view].map Focus.here = [s] := by rw [List.map_singleton, reads]
  exact of_rule sound hreads running found rest

/-- A state that writes back the symbols it reads and moves on comes to the end of them. -/
theorem sweep_right (sound : d.Sound) (takes : ∀ s ∈ cells, d.Takes state s state s .right)
    (rest : d.HaltsFrom state [.facingRight d.blank (cells.reverse ++ behind) ahead] bound v) :
    d.HaltsFrom state [.facingRight d.blank behind (cells ++ ahead)] (bound + cells.length) v := by
  induction cells generalizing behind with
  | nil => exact rest
  | cons s cells ih =>
    refine of_takes sound rfl (takes s List.mem_cons_self) ?_
    rw [List.cons_append, Focus.act_right_facingRight]
    refine ih (fun t ht ↦ takes t (List.mem_cons_of_mem s ht)) ?_
    simpa using rest

theorem sweep_left (sound : d.Sound) (takes : ∀ s ∈ cells, d.Takes state s state s .left)
    (rest : d.HaltsFrom state [.facingLeft d.blank ahead (cells.reverse ++ behind)] bound v) :
    d.HaltsFrom state [.facingLeft d.blank (cells ++ ahead) behind] (bound + cells.length) v := by
  induction cells generalizing behind with
  | nil => exact rest
  | cons s cells ih =>
    refine of_takes sound rfl (takes s List.mem_cons_self) ?_
    rw [List.cons_append, Focus.act_left_facingLeft]
    refine ih (fun t ht ↦ takes t (List.mem_cons_of_mem s ht)) ?_
    simpa using rest

end HaltsFrom

end Definition

end Multitape
