import Multitape.Machine.Operation
import Multitape.Proofs.Tape
import Multitape.Proofs.Trace

/-!
What a machine remembers of the requests made to it. No step, not even one that a tape refuses after
others have been changed, touches more than the contents and the heads of the tapes, the state and
the number of transitions (`alike_step`), and a start overwrites all of these (`Alike.start_eq`).
What is left over are the definition, the limit and the marker, each as it was last set
(`Reached.alike`). So a run is the same as on a machine of which nothing else has been asked
(`run_independent_of_history`).
-/

set_option autoImplicit false
set_option relaxedAutoImplicit false

namespace Multitape

/-! ### What is kept -/

namespace Tape

/-- An instruction leaves alphabet and blank as they are. -/
theorem clear_of_apply {tape changed : Tape} {input output : Symbol} {d : Direction}
    (h : tape.apply input output d = .ok changed) : changed.clear = tape.clear := by
  obtain ⟨-, -, rfl⟩ := apply_eq_ok_iff.1 h
  simp only [clear, reset, alphabet_act, blank_act]

@[simp] theorem reset_clear (tape : Tape) (contents : List Symbol) (head : Int) :
    tape.clear.reset contents head = tape.reset contents head :=
  rfl

@[simp] theorem clear_reset (tape : Tape) (contents : List Symbol) (head : Int) :
    (tape.reset contents head).clear = tape.clear :=
  rfl

@[simp] theorem clear_clear (tape : Tape) : tape.clear.clear = tape.clear := rfl

end Tape

namespace Machine

theorem map_clear_applyAll (index : Nat) (instructions : List Instruction) (tapes : List Tape) :
    (applyAll index instructions tapes).1.map Tape.clear = tapes.map Tape.clear := by
  induction instructions generalizing index tapes with
  | nil => simp [applyAll]
  | cons i instructions ih =>
    cases tapes with
    | nil => simp [applyAll]
    | cons tape tapes =>
      cases happly : tape.apply i.input i.output i.move with
      | error refusal => simp [applyAll, happly]
      | ok changed => simp [applyAll, happly, ih, Tape.clear_of_apply happly]

/-- Two machines differ at most in what a run changes. -/
structure Alike (m n : Machine) : Prop where
  definition : m.definition = n.definition
  limit : m.limit = n.limit
  marker : m.marker = n.marker
  tapes : m.tapes.map Tape.clear = n.tapes.map Tape.clear

namespace Alike

theorem refl (m : Machine) : m.Alike m := ⟨rfl, rfl, rfl, rfl⟩

theorem trans {m n o : Machine} (h : m.Alike n) (h' : n.Alike o) : m.Alike o :=
  ⟨h.definition.trans h'.definition, h.limit.trans h'.limit, h.marker.trans h'.marker,
    h.tapes.trans h'.tapes⟩

end Alike

theorem startTapes_map_clear (input : List Symbol) (tapes : List Tape) :
    startTapes input (tapes.map Tape.clear) = startTapes input tapes := by
  cases tapes with
  | nil => rfl
  | cons first rest => simp [startTapes]

/-- A start leaves nothing of what a run has changed. -/
theorem Alike.start_eq {m n : Machine} (h : m.Alike n) (input : List Char) :
    m.start input = n.start input := by
  have htapes : startTapes (input.map .plain) m.tapes = startTapes (input.map .plain) n.tapes := by
    rw [← startTapes_map_clear, h.tapes, startTapes_map_clear]
  rw [start, start, h.definition, h.limit, h.marker, htapes]

/-- A start keeps what no run changes. -/
theorem alike_start (m : Machine) (input : List Char) : (m.start input).Alike m := by
  refine ⟨rfl, rfl, rfl, ?_⟩
  rw [start]
  cases m.tapes with
  | nil => rfl
  | cons first rest => simp [startTapes]

/-- A step keeps what no run changes, whether it succeeds or not. -/
theorem alike_step (m : Machine) : m.step.2.Alike m := by
  rcases m.step_cases with ⟨v, -, h⟩ | ⟨limit, -, -, h⟩ | ⟨tapes, -, -, applied, h⟩ |
    ⟨tapes, tape, refusal, -, -, refused, h⟩ <;> rw [h]
  · exact Alike.refl m
  · exact Alike.refl m
  · have := map_clear_applyAll 0 m.nextRule.instructions m.tapes
    rw [applied] at this
    exact ⟨rfl, rfl, rfl, this⟩
  · have := map_clear_applyAll 0 m.nextRule.instructions m.tapes
    rw [refused] at this
    exact ⟨rfl, rfl, rfl, this⟩

theorem alike_of_runFrom {m last : Machine} {fuel : Nat} {answer : Except Fault Verdict}
    (h : m.runFrom fuel = some (answer, last)) : last.Alike m := by
  refine invariant_of_runFrom (P := fun n ↦ n.Alike m) ?_ (Alike.refl m) h
  intro n next answer halike hstep
  have hnext : next = n.step.2 := by rw [hstep]
  rw [hnext]
  exact n.alike_step.trans halike

theorem alike_of_trace {m : Machine} {fuel : Nat} {input : List Char} {t : Trace}
    (h : m.trace fuel input = some t) : t.machine.Alike m := by
  obtain ⟨rest, hrest, rfl⟩ := Option.map_eq_some_iff.1 h
  exact (alike_of_runFrom (runFrom_of_traceFrom hrest)).trans (m.alike_start input)

/-- A run starts afresh. -/
theorem Alike.trace_eq {m n : Machine} (h : m.Alike n) (fuel : Nat) (input : List Char) :
    m.trace fuel input = n.trace fuel input := by
  rw [Machine.trace, Machine.trace, h.start_eq]

theorem configure_of_parse_ok (m : Machine) {text : List Char} {d : Definition}
    (parsed : Definition.parse text = .ok d) : m.configure text = (.ok (), m.redefine d) := by
  rw [configure, parsed]

/-- A text that writes no definition changes nothing. -/
theorem configure_of_parse_error (m : Machine) {text : List Char} {fault : Definition.Fault}
    (parsed : Definition.parse text = .error fault) : m.configure text = (.error fault, m) := by
  rw [configure, parsed]

end Machine

/-! ### Histories -/

open Machine

/-- The machines that requests make of a new one, each having been answered. -/
inductive Reached (d : Definition) : List Operation → Machine → Prop
  | new : Reached d [] (.new d)
  | after {operations : List Operation} {m next : Machine} {operation : Operation} {fuel : Nat} :
      Reached d operations m → operation.perform fuel m = some next →
      Reached d (operations ++ [operation]) next

namespace Operation

/-- The limit that the request sets. -/
def limit? : Operation → Option (Option Nat)
  | setLimit limit => some limit
  | _ => none

/-- The marker that the request sets. -/
def marker? : Operation → Option String
  | setMarker marker => some marker
  | _ => none

/-- The definition that the request puts in the place of the old one. -/
def definition? : Operation → Option Definition
  | configure text => (Definition.parse text).toOption
  | _ => none

end Operation

/-- What the requests have set last, if any of them has. -/
def lastSet {α : Type} (pick : Operation → Option α) (operations : List Operation) (initial : α) :
    α :=
  (operations.filterMap pick).getLast?.getD initial

theorem lastSet_append_singleton {α : Type} (pick : Operation → Option α)
    (operations : List Operation) (operation : Operation) (initial : α) :
    lastSet pick (operations ++ [operation]) initial =
      (pick operation).getD (lastSet pick operations initial) := by
  cases h : pick operation with
  | none => simp [lastSet, h]
  | some a => simp [lastSet, h]

/-- A request sets what it says and keeps the rest of what no run changes. -/
theorem Operation.alike_of_perform {d : Definition} {limit : Option Nat} {marker : String}
    {m next : Machine} {operation : Operation} {fuel : Nat}
    (halike : m.Alike (fresh d limit marker)) (h : operation.perform fuel m = some next) :
    next.Alike (fresh (operation.definition?.getD d) (operation.limit?.getD limit)
      (operation.marker?.getD marker)) := by
  cases operation with
  | setLimit bound =>
    obtain rfl := Option.some.inj h
    exact ⟨halike.definition, rfl, halike.marker, halike.tapes⟩
  | setMarker drawn =>
    obtain rfl := Option.some.inj h
    exact ⟨halike.definition, halike.limit, rfl, halike.tapes⟩
  | start input =>
    obtain rfl := Option.some.inj h
    exact (m.alike_start input).trans halike
  | step =>
    obtain rfl := Option.some.inj h
    exact m.alike_step.trans halike
  | run input =>
    obtain ⟨⟨answer, last⟩, hrun, rfl⟩ := Option.map_eq_some_iff.1 h
    exact ((alike_of_runFrom hrun).trans (m.alike_start input)).trans halike
  | trace input =>
    obtain ⟨t, htrace, rfl⟩ := Option.map_eq_some_iff.1 h
    exact (alike_of_trace htrace).trans halike
  | configure text =>
    obtain rfl := Option.some.inj h
    cases parsed : Definition.parse text with
    | error fault =>
      rw [configure_of_parse_error m parsed, definition?, parsed]
      exact halike
    | ok d' =>
      rw [configure_of_parse_ok m parsed, definition?, parsed]
      exact ⟨rfl, halike.limit, halike.marker, rfl⟩

/-- Requests leave a machine that is new but for the last definition, limit and marker, and for what
a run changes. -/
theorem Reached.alike {d : Definition} {operations : List Operation} {m : Machine}
    (reached : Reached d operations m) :
    m.Alike (fresh (lastSet Operation.definition? operations d)
      (lastSet Operation.limit? operations none) (lastSet Operation.marker? operations ">")) := by
  induction reached with
  | new => exact Alike.refl _
  | after _ h ih =>
    simp only [lastSet_append_singleton]
    exact Operation.alike_of_perform ih h

/-- A run does not depend on what was asked of the machine before it. -/
theorem run_independent_of_history {d : Definition} {operations : List Operation} {m : Machine}
    (reached : Reached d operations m) :
    m.definition = lastSet Operation.definition? operations d ∧
    m.limit = lastSet Operation.limit? operations none ∧
    m.marker = lastSet Operation.marker? operations ">" ∧
    m.tapes.map (fun tape ↦ (tape.alphabet, tape.blank)) =
      m.definition.tapeAlphabets.map (fun alphabet ↦ (alphabet, m.definition.blank)) ∧
    (∀ text, (m.configure text).1 ≠ .ok () → (m.configure text).2 = m) ∧
    ∀ fuel input, m.run fuel input = (fresh m.definition m.limit m.marker).run fuel input ∧
      m.trace fuel input = (fresh m.definition m.limit m.marker).trace fuel input := by
  have halike := reached.alike
  have hfresh : m.Alike (fresh m.definition m.limit m.marker) := by
    rw [halike.definition, halike.limit, halike.marker]
    exact halike
  refine ⟨halike.definition, halike.limit, halike.marker, ?_, ?_, ?_⟩
  · have hcleared := congrArg (List.map fun tape : Tape ↦ (tape.alphabet, tape.blank)) hfresh.tapes
    simpa [fresh, withLimit, withMarker, new, blankTapes, Tape.clear, Tape.reset, Tape.new,
      Function.comp_def] using hcleared
  · intro text failed
    cases parsed : Definition.parse text with
    | error fault => rw [configure_of_parse_error m parsed]
    | ok d' =>
      rw [configure_of_parse_ok m parsed] at failed
      exact absurd rfl failed
  · intro fuel input
    have hstart := hfresh.start_eq input
    exact ⟨by rw [run, run, hstart], by rw [Machine.trace, Machine.trace, hstart]⟩

/-- A machine whose rule is refused by the second tape, when the first has been changed. -/
def lopsided : Definition where
  tapeAlphabets := [.binaryWith (.plain 'B'), .ofList [.plain 'B']]
  rules := [⟨"q0", [.plain '0', .plain 'B'], "q0", [.plain '1', .plain '0'], [.right, .stay], none⟩]

def lopsidedText : String :=
  "num_tapes = 2\ntape_alphabets = [['B', '0', '1'], ['B']]\nq0 0 B q0 1 0 r s"

theorem lopsided_forgets :
    ∃ m, Reached {} [.configure lopsidedText.toList, .setLimit (some 5), .run ['0'],
        .configure ['z'], .setMarker "|"] m ∧
      m.tapes ≠ blankTapes lopsided ∧ m.definition = lopsided ∧
      ∀ fuel input, m.run fuel input = (fresh lopsided (some 5) "|").run fuel input := by
  have parsed : Definition.parse lopsidedText.toList = .ok lopsided := by
    rw [lopsidedText, String.toList_ofList]
    rfl
  have unread : Definition.parse ['z'] = .error (.unknownKey "z") := rfl
  have hconfigure : (Operation.configure lopsidedText.toList).perform 0 (new {}) =
      some ((new {}).redefine lopsided) := by
    rw [Operation.perform, configure_of_parse_ok _ parsed]
  obtain ⟨m, hrun, hchanged⟩ : ∃ m,
      (Operation.run ['0']).perform 1 (((new {}).redefine lopsided).withLimit (some 5)) = some m ∧
        m.tapes ≠ blankTapes lopsided :=
    ⟨_, rfl, by decide⟩
  have hreject : (Operation.configure ['z']).perform 0 m = some m := by
    rw [Operation.perform, configure_of_parse_error _ unread]
  have hlimit : (Operation.setLimit (some 5)).perform 0 ((new {}).redefine lopsided) =
      some (((new {}).redefine lopsided).withLimit (some 5)) := rfl
  have hmarker : (Operation.setMarker "|").perform 0 m = some (m.withMarker "|") := rfl
  have reached := Reached.new.after hconfigure |>.after hlimit |>.after hrun |>.after hreject
    |>.after hmarker
  obtain ⟨hdefinition, hbound, hdrawn, -, -, hsame⟩ := run_independent_of_history reached
  have hlopsided : (m.withMarker "|").definition = lopsided := by
    rw [hdefinition]
    simp only [lastSet_append_singleton, Operation.definition?, parsed, unread, Except.toOption,
      Option.getD_none, Option.getD_some]
  refine ⟨m.withMarker "|", reached, hchanged, hlopsided, fun fuel input ↦ ?_⟩
  have hagree := (hsame fuel input).1
  rwa [hlopsided, hbound, hdrawn] at hagree

end Multitape
