import Multitape.Proofs.Diagnostic
import Multitape.Proofs.Simulation

/-!
What a machine can stumble over. The rules of a definition without a finding about foreign outputs
write nothing that a tape does not have, so a symbol that is foreign to its tape has stood there
from the start (`untouched_of_foreign`), and since the blank is in every alphabet it is a character
of the input (`input_of_foreign`). A rule never fails on such a machine; only the rejection does,
which writes back what it reads, and only for the first tape (`permitted_iff`). The analyzer and the
input together then tell every refusal (`refused_iff_onForeign`).
-/

set_option autoImplicit false
set_option relaxedAutoImplicit false

namespace Multitape

open Textbook

/-! ### Cells outside the alphabet -/

namespace Textbook

variable {d : Definition} {input : List Char} {calls : Nat} {c : Configuration d.tapeCount}
variable {i : Fin d.tapeCount} {z : Int}

/-- A step does not write a symbol that is foreign to its tape. -/
theorem cells_eq_of_step {before : Configuration d.tapeCount} (h : step d before = some c)
    (foreign : (d.tapeAlphabets.get i).contains ((c.rows i).cells z) = false) :
    (before.rows i).cells z = (c.rows i).cells z := by
  unfold step at h
  split_ifs at h with hterminal permitted
  · rw [Option.some.inj h]
  · obtain rfl := Option.some.inj h
    have hcells : ((before.take before.transition).rows i).cells z = Function.update
        (before.rows i).cells (before.rows i).head (before.transition.outputs i) z := rfl
    by_cases hz : z = (before.rows i).head
    · rw [hcells, hz, Function.update_self] at foreign
      have hwritten := permitted i
      rw [foreign] at hwritten
      cases hwritten
    · rw [hcells, Function.update_of_ne hz]

/-- A symbol that is foreign to its tape has been in its cell from the start. -/
theorem untouched_of_foreign (h : after d input calls = some c)
    (foreign : (d.tapeAlphabets.get i).contains ((c.rows i).cells z) = false) :
    ∀ earlier ≤ calls, ∃ b, after d input earlier = some b ∧
      (b.rows i).cells z = (c.rows i).cells z := by
  induction calls generalizing c with
  | zero =>
    intro earlier hearlier
    obtain rfl : earlier = 0 := by omega
    exact ⟨c, h, rfl⟩
  | succ calls ih =>
    obtain ⟨before, hbefore, hstep⟩ := Option.bind_eq_some_iff.1 h
    have hsame := cells_eq_of_step hstep foreign
    intro earlier hearlier
    by_cases hlast : earlier = calls + 1
    · exact ⟨c, hlast ▸ h, rfl⟩
    · rw [← hsame] at foreign ⊢
      exact ih hbefore foreign earlier (by omega)

/-- A symbol that is foreign to its tape is a character of the input, in its place on the first
row. -/
theorem input_of_foreign (wellFormed : d.WellFormed) (h : after d input calls = some c)
    (foreign : (d.tapeAlphabets.get i).contains ((c.rows i).cells z) = false) :
    i.val = 0 ∧ ∃ (place : Nat) (ch : Char), z = place ∧ input[place]? = some ch ∧
      (c.rows i).cells z = .plain ch := by
  obtain ⟨b, hb, hsame⟩ := untouched_of_foreign h foreign 0 (Nat.zero_le calls)
  obtain rfl : initial d input = b := Option.some.inj hb
  have hblank : (d.tapeAlphabets.get i).contains d.blank = true :=
    wellFormed.blank _ (List.get_mem _ _)
  rw [← hsame] at foreign ⊢
  have hinitial : ((initial d input).rows i).cells z =
      (Row.holding d.blank (if i.val = 0 then input.map .plain else [])).cells z := rfl
  rw [hinitial] at foreign ⊢
  rcases Row.cells_holding_mem z with hcell | ⟨place, hplace, hcell⟩
  · rw [hcell, hblank] at foreign
    cases foreign
  · by_cases hi : i.val = 0
    · rw [if_pos hi, List.getElem?_map, Option.map_eq_some_iff] at hcell
      obtain ⟨ch, hch, hsymbol⟩ := hcell
      rw [if_pos hi]
      exact ⟨hi, place, ch, hplace, hch, hsymbol.symm⟩
    · rw [if_neg hi] at hcell
      cases hcell

/-- The character has been in this place of the first row from the start. -/
def Untouched (d : Definition) (input : List Char) (calls place : Nat) (ch : Char) : Prop :=
  ∀ earlier ≤ calls, ∃ b, after d input earlier = some b ∧
    ∀ i, i.val = 0 → (b.rows i).cells place = .plain ch

end Textbook

/-- The characters of the input are symbols of the first tape. -/
def Definition.Admits (d : Definition) (input : List Char) : Prop :=
  ∀ first ∈ d.tapeAlphabets.head?, ∀ ch ∈ input, first.contains (.plain ch) = true

namespace Machine

/-- The head of the first tape stands on a symbol which that tape does not have. -/
def OnForeign (m : Machine) : Prop :=
  ∃ first ∈ m.tapes.head?, first.alphabet.contains first.current = false

variable {d : Definition} {m : Machine} {c : Configuration d.tapeCount}

/-! ### What is shown of the tapes -/

theorem Shows.alphabet_of_head? (h : Shows d m c) {first : Tape} (hfirst : first ∈ m.tapes.head?) :
    ∃ i : Fin d.tapeCount, i.val = 0 ∧ first.alphabet = d.tapeAlphabets.get i ∧
      first.current = (c.rows i).read := by
  obtain ⟨tapes, htapes, hrows⟩ := h.tapes
  rw [htapes, List.head?_eq_getElem?, Option.mem_def, List.getElem?_ofFn] at hfirst
  split_ifs at hfirst with hpos
  obtain rfl := Option.some.inj hfirst
  exact ⟨⟨0, hpos⟩, rfl, (hrows _).1, (hrows _).2.2.current_eq⟩

theorem Shows.head?_eq (h : Shows d m c) {i : Fin d.tapeCount} (hi : i.val = 0) :
    ∃ first ∈ m.tapes.head?, first.alphabet = d.tapeAlphabets.get i ∧
      first.current = (c.rows i).read := by
  obtain ⟨tapes, htapes, hrows⟩ := h.tapes
  refine ⟨tapes i, ?_, (hrows i).1, (hrows i).2.2.current_eq⟩
  rw [htapes, List.head?_eq_getElem?, Option.mem_def, List.getElem?_ofFn, dif_pos (hi ▸ i.isLt)]
  congr 2
  exact Fin.ext hi.symm

theorem Shows.onForeign_iff (h : Shows d m c) :
    m.OnForeign ↔ ∃ i : Fin d.tapeCount, i.val = 0 ∧
      (d.tapeAlphabets.get i).contains (c.rows i).read = false := by
  constructor
  · rintro ⟨first, hfirst, hforeign⟩
    obtain ⟨i, hi, halphabet, hcurrent⟩ := h.alphabet_of_head? hfirst
    rw [halphabet, hcurrent] at hforeign
    exact ⟨i, hi, hforeign⟩
  · rintro ⟨i, hi, hforeign⟩
    obtain ⟨first, hfirst, halphabet, hcurrent⟩ := h.head?_eq hi
    refine ⟨first, hfirst, ?_⟩
    rw [halphabet, hcurrent]
    exact hforeign

/-! ### Refusals -/

/-- Without foreign outputs, a transition is permitted if it is that of a rule or writes back
symbols that the tapes have. -/
theorem Shows.permitted_iff (wellFormed : d.WellFormed)
    (clean : ∀ outputs, .foreignOutputs outputs ∉ d.diagnostics) (h : Shows d m c) :
    c.transition.Permitted ↔ (∃ rule ∈ d.rules, rule.fires m.state m.symbols = true) ∨
      ∀ i, (d.tapeAlphabets.get i).contains (c.rows i).read = true := by
  unfold Configuration.transition Textbook.transition
  rw [h.find?_eq]
  rcases m.nextRule_cases with ⟨rule, hfind, -⟩ | ⟨hfind, -⟩
  · rw [h.definition] at hfind
    have hrule : rule ∈ d.rules := List.mem_of_find?_eq_some hfind
    have hfires : rule.fires m.state m.symbols = true := by simpa using List.find?_some hfind
    rw [h.definition, hfind]
    refine ⟨fun _ ↦ .inl ⟨rule, hrule, hfires⟩, fun _ i ↦ ?_⟩
    have hlength : i.val < rule.outputs.length := (wellFormed.rules rule hrule).outputs ▸ i.isLt
    have houtput : rule.outputs[i.val]? = some ((Transition.ofRule d rule).outputs i) := by
      simp only [Transition.ofRule, List.getD_eq_getElem?_getD, List.getElem?_eq_getElem hlength,
        Option.getD_some]
    exact Definition.contains_output clean hrule houtput (List.getElem?_eq_getElem i.isLt)
  · rw [h.definition] at hfind
    rw [h.definition, hfind]
    refine ⟨fun permitted ↦ .inr permitted, ?_⟩
    rintro (⟨rule, hrule, hfires⟩ | hread)
    · have hnone := List.find?_eq_none.1 hfind rule hrule
      exact absurd hfires hnone
    · exact hread

theorem Shows.refused_iff (wellFormed : d.WellFormed) (h : Shows d m c)
    (running : m.verdict = none) (below : m.reachedLimit? = none) :
    (∃ rule tape refusal, m.step.1 = .error (.instruction rule tape refusal)) ↔
      ¬ c.transition.Permitted := by
  rcases h.step wellFormed running below with
    ⟨permitted, next, hnext, -⟩ | ⟨refused, rule, tape, refusal, failed, hfailed⟩
  · rw [hnext]
    simp [permitted]
  · rw [hfailed]
    exact ⟨fun _ ↦ refused, fun _ ↦ ⟨rule, tape, refusal, rfl⟩⟩

section Reached

variable {input : List Char} {calls : Nat}

/-- What the first head reads outside its alphabet is an untouched character of the input. -/
theorem Shows.untouched_of_onForeign (wellFormed : d.WellFormed) (h : Shows d m c)
    (reached : after d input calls = some c) (foreign : m.OnForeign) :
    ∃ place ch, input[place]? = some ch ∧ Untouched d input calls place ch ∧
      (∀ i, i.val = 0 → (c.rows i).head = place) ∧
      ∀ first ∈ m.tapes.head?, first.current = .plain ch := by
  obtain ⟨i, hi, hforeign⟩ := h.onForeign_iff.1 foreign
  obtain ⟨-, place, ch, hplace, hch, hcell⟩ := input_of_foreign wellFormed reached hforeign
  have honly : ∀ j : Fin d.tapeCount, j.val = 0 → j = i := fun j hj ↦ Fin.ext (hj.trans hi.symm)
  refine ⟨place, ch, hch, ?_, ?_, ?_⟩
  · intro earlier hearlier
    obtain ⟨b, hb, hsame⟩ := untouched_of_foreign reached hforeign earlier hearlier
    refine ⟨b, hb, fun j hj ↦ ?_⟩
    rw [honly j hj, ← hplace, hsame, hcell]
  · intro j hj
    rw [honly j hj, hplace]
  · intro first hfirst
    obtain ⟨j, hj, -, hcurrent⟩ := h.alphabet_of_head? hfirst
    rw [hcurrent, honly j hj]
    exact hcell

/-- Every cell of a tape behind the first is in the alphabet of that tape. -/
theorem Shows.contains_cell (wellFormed : d.WellFormed) (h : Shows d m c)
    (reached : after d input calls = some c) {tape : Tape} (htape : tape ∈ m.tapes.tail) (z : Int) :
    tape.alphabet.contains (tape.cell z) = true := by
  obtain ⟨tapes, htapes, hrows⟩ := h.tapes
  obtain ⟨j, hj⟩ := List.mem_iff_getElem?.1 htape
  rw [List.getElem?_tail, htapes, List.getElem?_ofFn] at hj
  split_ifs at hj with hlt
  obtain rfl := Option.some.inj hj
  obtain ⟨halphabet, -, hrow⟩ := hrows ⟨j + 1, hlt⟩
  rw [halphabet, hrow.cell_eq]
  by_contra hforeign
  obtain ⟨hfirst, -⟩ := input_of_foreign wellFormed reached (Bool.eq_false_of_not_eq_true hforeign)
  cases hfirst

/-- An input that the first tape admits leaves nothing foreign under its head. -/
theorem Shows.not_onForeign (wellFormed : d.WellFormed) (h : Shows d m c)
    (reached : after d input calls = some c) (admits : d.Admits input) : ¬ m.OnForeign := by
  intro foreign
  obtain ⟨i, hi, hforeign⟩ := h.onForeign_iff.1 foreign
  obtain ⟨-, place, ch, -, hch, hcell⟩ := input_of_foreign wellFormed reached hforeign
  have hfirst : d.tapeAlphabets.get i ∈ d.tapeAlphabets.head? := by
    rw [List.head?_eq_getElem?, ← hi]
    exact List.getElem?_eq_getElem i.isLt
  have hadmitted := admits _ hfirst ch (List.mem_of_getElem? hch)
  rw [Row.read, hcell, hadmitted] at hforeign
  cases hforeign

end Reached

/-- On a machine without foreign outputs, wherever a run has got to by calls that succeed, a running
machine below its limit has its next step refused exactly if no rule fires and the first head stands
on a symbol that the first tape does not have. That symbol is then a character of the input, in its
place from the start. The other tapes hold nothing but their own symbols, and on an input that the
first tape admits no step is ever refused. -/
theorem refused_iff_onForeign {text : List Char} {d : Definition}
    (parsed : Definition.parse text = .ok d)
    (clean : ∀ outputs, .foreignOutputs outputs ∉ d.diagnostics)
    (limit : Option Nat) (marker : String) (input : List Char) {calls : Nat} {m : Machine}
    (reached : (({ new d with limit, marker } : Machine).start input).advance calls = .ok m) :
    (m.verdict = none → m.reachedLimit? = none →
      ((∃ rule tape refusal, m.step.1 = .error (.instruction rule tape refusal)) ↔
        (∀ rule ∈ d.rules, rule.fires m.state m.symbols = false) ∧ m.OnForeign)) ∧
    (m.OnForeign → ∃ c place ch, after d input calls = some c ∧ Shows d m c ∧
      input[place]? = some ch ∧ Untouched d input calls place ch ∧
      (∀ i, i.val = 0 → (c.rows i).head = place) ∧
      ∀ first ∈ m.tapes.head?, first.current = .plain ch) ∧
    (∀ tape ∈ m.tapes.tail, ∀ z, tape.alphabet.contains (tape.cell z) = true) ∧
    (d.Admits input → ∀ rule tape refusal, m.step.1 ≠ .error (.instruction rule tape refusal)) := by
  have wellFormed := Definition.wellFormed_of_parse parsed
  obtain ⟨c, hc, hshows⟩ := (shows_start d input limit marker).of_advance wellFormed reached
  have hrefused : m.verdict = none → m.reachedLimit? = none →
      ((∃ rule tape refusal, m.step.1 = .error (.instruction rule tape refusal)) ↔
        (∀ rule ∈ d.rules, rule.fires m.state m.symbols = false) ∧ m.OnForeign) := by
    intro running below
    rw [hshows.refused_iff wellFormed running below, hshows.permitted_iff wellFormed clean,
      hshows.onForeign_iff, not_or]
    refine and_congr (by simp) ?_
    rw [not_forall]
    constructor
    · rintro ⟨i, hi⟩
      have hforeign := Bool.eq_false_of_not_eq_true hi
      exact ⟨i, (input_of_foreign wellFormed hc hforeign).1, hforeign⟩
    · rintro ⟨i, -, hforeign⟩
      exact ⟨i, by simp [hforeign]⟩
  refine ⟨hrefused, fun foreign ↦ ?_, fun tape htape ↦ hshows.contains_cell wellFormed hc htape, ?_⟩
  · obtain ⟨place, ch, hstands⟩ := hshows.untouched_of_onForeign wellFormed hc foreign
    exact ⟨c, place, ch, hc, hshows, hstands⟩
  · intro admits rule tape refusal h
    obtain ⟨running, below⟩ := running_of_refused h
    obtain ⟨-, foreign⟩ := (hrefused running below).1 ⟨rule, tape, refusal, h⟩
    exact hshows.not_onForeign wellFormed hc admits foreign

/-- A machine that goes over a `0`, into a state without rules. -/
def rightward : Definition where
  rules := [⟨"q0", [.plain '0'], "q3", [.plain '0'], [.right], none⟩]

/-- Behind the `0` there is a character of the input that the tape does not have, and the rejection
may not write it back. -/
theorem rightward_refused :
    Definition.parse "q0 0 q3 0 r".toList = .ok rightward ∧
      (∀ outputs, .foreignOutputs outputs ∉ rightward.diagnostics) ∧
      ∃ m, (({ new rightward with limit := some 5, marker := ">" } : Machine).start
          ['0', 'x']).advance 1 = .ok m ∧
        ∃ rule tape refusal, m.step.1 = .error (.instruction rule tape refusal) := by
  have parsed : Definition.parse "q0 0 q3 0 r".toList = .ok rightward := rfl
  have clean : ∀ outputs, .foreignOutputs outputs ∉ rightward.diagnostics :=
    Definition.clean_iff.2 rfl
  obtain ⟨m, hm, running, below, silent, foreign⟩ : ∃ m, (({ new rightward with
      limit := some 5, marker := ">" } : Machine).start ['0', 'x']).advance 1 = .ok m ∧
      m.verdict = none ∧ m.reachedLimit? = none ∧
      (∀ rule ∈ rightward.rules, rule.fires m.state m.symbols = false) ∧ m.OnForeign :=
    ⟨_, rfl, rfl, rfl, by decide, ⟨_, rfl, rfl⟩⟩
  have hrefused := (refused_iff_onForeign parsed clean (some 5) ">" ['0', 'x'] hm).1 running below
  exact ⟨parsed, clean, m, hm, hrefused.2 ⟨silent, foreign⟩⟩

end Machine

end Multitape
