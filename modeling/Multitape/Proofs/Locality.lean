import Multitape.Proofs.Run
import Multitape.Proofs.Tape
import Mathlib.Data.List.Forall2

/-!
How far a run can look. Seen from its head, a tape that takes an instruction shows what it showed
before, moved by one cell at most. So two machines whose tapes differ in no cell that is less than
`n + 1` to the right of a head have the same rule for the next step, are refused it for the same
reason if at all, and differ afterwards in no cell that is less than `n` to the right of a head
(`AgreesWithin.step`). The windows of the two may begin and end where they like. On inputs that are
equal in their first cells, where the blank stands behind the end of an input, runs are therefore
equal for as many calls (`run_local`).
-/

set_option autoImplicit false
set_option relaxedAutoImplicit false

namespace Multitape

variable {n : Nat}

theorem Direction.offset_le_one (d : Direction) : d.offset ≤ 1 := by
  cases d <;> decide

/-! ### Tapes -/

namespace Tape

/-- Seen from their heads, the tapes differ in no cell that is less than `n` to the right. -/
structure AgreesWithin (n : Nat) (tape other : Tape) : Prop where
  alphabet : tape.alphabet = other.alphabet
  seen : ∀ z < (n : Int), tape.seen z = other.seen z

namespace AgreesWithin

variable {tape other : Tape}

theorem refl (n : Nat) (tape : Tape) : AgreesWithin n tape tape := ⟨rfl, fun _ _ ↦ rfl⟩

theorem of_succ (h : AgreesWithin (n + 1) tape other) : AgreesWithin n tape other :=
  ⟨h.alphabet, fun z hz ↦ h.seen z (by omega)⟩

theorem current_eq (h : AgreesWithin (n + 1) tape other) : tape.current = other.current := by
  rw [← seen_zero, ← seen_zero, h.seen 0 (by omega)]

/-- A move brings what differs nearer by one cell at most. -/
theorem act (h : AgreesWithin (n + 1) tape other) (output : Symbol) (d : Direction) :
    AgreesWithin n (tape.act output d) (other.act output d) := by
  refine ⟨h.alphabet, fun z hz ↦ ?_⟩
  have hmove := d.offset_le_one
  rw [seen_act, seen_act]
  by_cases hwritten : z + d.offset = 0
  · rw [hwritten, Function.update_self, Function.update_self]
  · rw [Function.update_of_ne hwritten, Function.update_of_ne hwritten]
    exact h.seen _ (by omega)

end AgreesWithin

end Tape

namespace Machine

/-! ### All tapes -/

/-- An instruction of the next rule reads what is under the head of its tape. -/
theorem input_eq_current {m : Machine} {i : Instruction} {tape : Tape}
    (h : (i, tape) ∈ m.nextRule.instructions.zip m.tapes) : i.input = tape.current := by
  obtain ⟨place, hplace⟩ := List.mem_iff_getElem?.1 h
  obtain ⟨hinstruction, htape⟩ := List.getElem?_zip_eq_some.1 hplace
  obtain ⟨hinput, -⟩ := Rule.getElem?_instructions_eq_some_iff.1 hinstruction
  exact Option.some.inj (hinput.symm.trans (getElem?_inputs_nextRule htape))

/-- Tapes that agree as far as a head can get in one step do the same with instructions that read
what is under the heads, and the first refusal is the same. -/
theorem applyAll_of_agree {instructions : List Instruction} {tapes others : List Tape}
    (h : List.Forall₂ (Tape.AgreesWithin (n + 1)) tapes others)
    (reads : ∀ entry ∈ instructions.zip tapes, entry.1.input = entry.2.current) (index : Nat) :
    (applyAll index instructions tapes).2 = (applyAll index instructions others).2 ∧
      List.Forall₂ (Tape.AgreesWithin n) (applyAll index instructions tapes).1
        (applyAll index instructions others).1 := by
  induction instructions generalizing tapes others index with
  | nil => exact ⟨by simp only [applyAll], by simpa only [applyAll] using h.imp fun _ _ ↦ .of_succ⟩
  | cons i instructions ih =>
    cases h with
    | nil => exact ⟨rfl, .nil⟩
    | @cons tape other tapes others hfirst hrest =>
      have hreads := reads (i, tape) List.mem_cons_self
      obtain ⟨hsame, htapes⟩ :=
        ih hrest (fun entry hentry ↦ reads entry (List.mem_cons_of_mem _ hentry)) (index + 1)
      have hinput : i.input = other.current := hreads.trans hfirst.current_eq
      have happly := tape.apply_current i.output i.move
      have happly' := other.apply_current i.output i.move
      rw [← hreads] at happly
      rw [← hinput, ← hfirst.alphabet] at happly'
      by_cases hwrite : tape.alphabet.contains i.output = true
      · rw [if_pos hwrite] at happly happly'
        simp only [applyAll, happly, happly']
        exact ⟨hsame, .cons (hfirst.act i.output i.move) htapes⟩
      · rw [if_neg hwrite] at happly happly'
        simp only [applyAll, happly, happly']
        exact ⟨trivial, .cons hfirst.of_succ (hrest.imp fun _ _ ↦ .of_succ)⟩

/-! ### Machines -/

/-- Seen from the heads, the machines differ in no cell that is less than `n` to the right. -/
structure AgreesWithin (n : Nat) (m other : Machine) : Prop where
  definition : m.definition = other.definition
  limit : m.limit = other.limit
  state : m.state = other.state
  steps : m.steps = other.steps
  tapes : List.Forall₂ (Tape.AgreesWithin n) m.tapes other.tapes

namespace AgreesWithin

variable {m other : Machine}

theorem of_succ (h : AgreesWithin (n + 1) m other) : AgreesWithin n m other :=
  ⟨h.definition, h.limit, h.state, h.steps, h.tapes.imp fun _ _ ↦ .of_succ⟩

theorem symbols_eq (h : AgreesWithin (n + 1) m other) : m.symbols = other.symbols := by
  have hsame : List.Forall₂ (fun tape other : Tape ↦ tape.current = other.current) m.tapes
      other.tapes := h.tapes.imp fun _ _ htape ↦ htape.current_eq
  rw [symbols, symbols, ← List.forall₂_eq_eq_eq, List.forall₂_map_left_iff,
    List.forall₂_map_right_iff]
  exact hsame

theorem verdict_eq (h : AgreesWithin n m other) : m.verdict = other.verdict := by
  rw [verdict, verdict, h.definition, h.state]

theorem reachedLimit?_eq (h : AgreesWithin n m other) : m.reachedLimit? = other.reachedLimit? := by
  rw [reachedLimit?, reachedLimit?, h.limit, h.steps]

theorem nextRule_eq (h : AgreesWithin (n + 1) m other) : m.nextRule = other.nextRule := by
  rw [Machine.nextRule_eq, Machine.nextRule_eq, h.definition, h.state, h.symbols_eq]

/-- A call has the same answer on both machines, and they differ then in nothing that has not come
nearer by one cell. -/
theorem step (h : AgreesWithin (n + 1) m other) :
    m.step.1 = other.step.1 ∧ AgreesWithin n m.step.2 other.step.2 := by
  obtain ⟨hrefused, htapes⟩ := applyAll_of_agree h.tapes (fun _ ↦ input_eq_current) 0
  rcases m.step_cases with ⟨v, halted, hstep⟩ | ⟨limit, running, reached, hstep⟩ |
    ⟨tapes, running, below, applied, hstep⟩ | ⟨tapes, tape, refusal, running, below, refused, hstep⟩
  · rw [hstep, step_of_verdict (h.verdict_eq ▸ halted)]
    exact ⟨rfl, h.of_succ⟩
  · rw [hstep, step_of_limit (h.verdict_eq ▸ running) (h.reachedLimit?_eq ▸ reached)]
    exact ⟨rfl, h.of_succ⟩
  · rcases happlied : applyAll 0 other.nextRule.instructions other.tapes with ⟨tapes', refused'⟩
    rw [applied, h.nextRule_eq, happlied] at hrefused htapes
    obtain rfl : none = refused' := hrefused
    rw [hstep, step_of_applied (h.verdict_eq ▸ running) (h.reachedLimit?_eq ▸ below) happlied,
      h.nextRule_eq]
    have hnext : AgreesWithin n (m.moved other.nextRule tapes)
        (other.moved other.nextRule tapes') :=
      ⟨h.definition, h.limit, rfl, congrArg (· + 1) h.steps, htapes⟩
    exact ⟨congrArg Except.ok hnext.verdict_eq, hnext⟩
  · rcases hfailed : applyAll 0 other.nextRule.instructions other.tapes with ⟨tapes', refused'⟩
    rw [refused, h.nextRule_eq, hfailed] at hrefused htapes
    obtain rfl : some (tape, refusal) = refused' := hrefused
    rw [hstep, step_of_refused (h.verdict_eq ▸ running) (h.reachedLimit?_eq ▸ below) hfailed,
      h.nextRule_eq]
    exact ⟨rfl, ⟨h.definition, h.limit, h.state, h.steps, htapes⟩⟩

theorem afterCalls {calls : Nat} (h : AgreesWithin (calls + n) m other) :
    AgreesWithin n (m.afterCalls calls) (other.afterCalls calls) := by
  induction calls generalizing m other with
  | zero =>
    rw [Nat.zero_add] at h
    exact h
  | succ calls ih =>
    rw [Nat.succ_add] at h
    exact ih h.step.2

/-- Runs that end within so many calls end with the same result after as many transitions. -/
theorem runFrom {fuel : Nat} (h : AgreesWithin fuel m other) :
    (m.runFrom fuel).map (fun ending ↦ (ending.1, ending.2.steps)) =
      (other.runFrom fuel).map fun ending ↦ (ending.1, ending.2.steps) := by
  induction fuel generalizing m other with
  | zero => rfl
  | succ fuel ih =>
    obtain ⟨hanswer, hnext⟩ := h.step
    rcases hstep : m.step with ⟨answer, next⟩
    rcases hstep' : other.step with ⟨answer', next'⟩
    rw [hstep, hstep'] at hanswer hnext
    obtain rfl : answer = answer' := hanswer
    rcases answer with fault | _ | v
    · rw [runFrom_of_step_error hstep, runFrom_of_step_error hstep', Option.map_some,
        Option.map_some, hnext.steps]
    · rw [runFrom_of_step_continue hstep, runFrom_of_step_continue hstep']
      exact ih hnext
    · rw [runFrom_of_step_halt hstep, runFrom_of_step_halt hstep', Option.map_some,
        Option.map_some, hnext.steps]

end AgreesWithin

end Machine

/-! ### Inputs -/

/-- What an input puts in a cell of the first tape. Behind its end there are blanks. -/
def Definition.inputCell (d : Definition) (input : List Char) (i : Nat) : Symbol :=
  ((input.map Symbol.plain)[i]?).getD d.blank

theorem Definition.inputCell_append_replicate {d : Definition} {b : Char}
    (hblank : d.blank = .plain b) (input : List Char) (blanks i : Nat) :
    d.inputCell (input ++ List.replicate blanks b) i = d.inputCell input i := by
  unfold inputCell
  rw [List.map_append, List.map_replicate, ← hblank]
  by_cases hi : i < (input.map Symbol.plain).length
  · rw [List.getElem?_append_left hi]
  · have hbehind : (input.map Symbol.plain).length ≤ i := Nat.le_of_not_lt hi
    rw [List.getElem?_append_right hbehind, List.getElem?_eq_none hbehind, List.getElem?_replicate]
    split <;> rfl

namespace Machine

variable {d : Definition} {u v : List Char}

theorem agreesWithin_start (same : ∀ i < n, d.inputCell u i = d.inputCell v i)
    (limit : Option Nat) (marker : String) :
    AgreesWithin n ((fresh d limit marker).start u) ((fresh d limit marker).start v) := by
  refine ⟨rfl, rfl, rfl, rfl, ?_⟩
  have htapes (input : List Char) : ((fresh d limit marker).start input).tapes =
      startTapes (input.map Symbol.plain) (blankTapes d) := rfl
  rw [htapes, htapes, blankTapes]
  cases d.tapeAlphabets with
  | nil => exact .nil
  | cons first rest =>
    refine .cons ⟨rfl, fun z hz ↦ ?_⟩ (List.forall₂_same.2 fun tape _ ↦ .refl n tape)
    have hseen (input : List Char) : ((Tape.new first d.blank).reset
        (input.map Symbol.plain) 0).seen z =
          ((Tape.new first d.blank).reset (input.map Symbol.plain) 0).cell z := by
      simp [Tape.seen, Tape.head, Tape.reset]
    rw [hseen, hseen]
    cases z with
    | negSucc i => rfl
    | ofNat i =>
      have hcell := same i (by simpa using hz)
      simpa [Definition.inputCell, Tape.cell, Tape.contents, Tape.reset, Tape.new] using hcell

/-- The result of a run, and how many transitions it has taken. -/
def resultAndSteps (m : Machine) (fuel : Nat) (input : List Char) :
    Option (Except Fault Verdict × Nat) :=
  (m.run fuel input).map fun ending ↦ (ending.1, ending.2.steps)

/-- A run depends on no more cells of its input than it has made calls. On two inputs that are equal
in their first `k` cells, the blank standing behind the end of an input, the first `k` calls of
`step` have the same answers, errors among them, read the same symbols and go through the same
states. On inputs that are equal in all cells, such as one and the same input with blanks behind it,
runs end with the same result after as many transitions. -/
theorem run_local (d : Definition) (limit : Option Nat) (marker : String) :
    (∀ (k : Nat) (u v : List Char), (∀ i < k, d.inputCell u i = d.inputCell v i) →
      let m := (fresh d limit marker).start u
      let other := (fresh d limit marker).start v
      (∀ calls < k, (m.afterCalls calls).step.1 = (other.afterCalls calls).step.1 ∧
        (m.afterCalls calls).symbols = (other.afterCalls calls).symbols) ∧
      ∀ calls ≤ k, (m.afterCalls calls).state = (other.afterCalls calls).state) ∧
    (∀ u v : List Char, (∀ i, d.inputCell u i = d.inputCell v i) → ∀ fuel,
      (fresh d limit marker).resultAndSteps fuel u =
        (fresh d limit marker).resultAndSteps fuel v) ∧
    ∀ b, d.blank = .plain b → ∀ (input : List Char) (blanks fuel : Nat),
      (fresh d limit marker).resultAndSteps fuel (input ++ List.replicate blanks b) =
        (fresh d limit marker).resultAndSteps fuel input := by
  have hruns (u v : List Char) (same : ∀ i, d.inputCell u i = d.inputCell v i) (fuel : Nat) :
      (fresh d limit marker).resultAndSteps fuel u =
        (fresh d limit marker).resultAndSteps fuel v :=
    (agreesWithin_start (fun i _ ↦ same i) limit marker).runFrom
  refine ⟨fun k u v same ↦ ⟨fun calls hcalls ↦ ?_, fun calls hcalls ↦ ?_⟩, hruns,
    fun b hblank input blanks fuel ↦ hruns _ _ (fun i ↦ ?_) fuel⟩
  · have hstart := agreesWithin_start same limit marker
    rw [show k = calls + (k - calls - 1 + 1) by omega] at hstart
    exact ⟨hstart.afterCalls.step.1, hstart.afterCalls.symbols_eq⟩
  · have hstart := agreesWithin_start same limit marker
    rw [show k = calls + (k - calls) by omega] at hstart
    exact hstart.afterCalls.state
  · exact Definition.inputCell_append_replicate hblank input blanks i

/-- A machine that goes right over every `0` and accepts at a `1`. -/
def seeking : Definition where
  rules := [⟨"q0", [.plain '0'], "q0", [.plain '0'], [.right], none⟩,
    ⟨"q0", [.plain '1'], "q1", [.plain '1'], [.stay], some .accept⟩]

/-- The third call tells apart what the first two do not. -/
theorem seeking_local :
    let m := (fresh seeking none ">").start ['0', '0', '1']
    let other := (fresh seeking none ">").start ['0', '0', 'x']
    (∀ i < 2, seeking.inputCell ['0', '0', '1'] i = seeking.inputCell ['0', '0', 'x'] i) ∧
    (∀ calls < 2, (m.afterCalls calls).step.1 = (other.afterCalls calls).step.1) ∧
    (m.afterCalls 2).step.1 ≠ (other.afterCalls 2).step.1 ∧
    (fresh seeking none ">").resultAndSteps 3 ['0', 'B'] =
      (fresh seeking none ">").resultAndSteps 3 ['0'] := by
  intro m other
  have same : ∀ i < 2,
      seeking.inputCell ['0', '0', '1'] i = seeking.inputCell ['0', '0', 'x'] i := by decide
  obtain ⟨hcalls, -, hblanks⟩ := run_local seeking none ">"
  obtain ⟨hanswers, -⟩ := hcalls 2 ['0', '0', '1'] ['0', '0', 'x'] same
  exact ⟨same, fun calls hlt ↦ (hanswers calls hlt).1, by decide, hblanks 'B' rfl ['0'] 1 3⟩

end Machine

end Multitape
