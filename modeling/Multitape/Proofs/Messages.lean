import Multitape.Proofs.Names
import Multitape.Proofs.StateFindings

/-!
What a run that fails is told by. The message shows the rule that was refused, the symbol that it
would have written and the alphabet of the tape. No symbol of a tape has a line feed in it unless
the input has (`Unbroken.step`), and no state that a run goes on from has one in its name
(`Definition.Unbroken.oneLine_of_led`), so that the message is one line (`oneLine_of_runFrom`).
-/

set_option autoImplicit false
set_option relaxedAutoImplicit false

namespace Multitape

/-! ### Texts of one line -/

namespace Text

/-- There is no line feed in the text. -/
def OneLine (text : String) : Prop := '\n' ∉ text.toList

instance (text : String) : Decidable (OneLine text) :=
  inferInstanceAs (Decidable ('\n' ∉ text.toList))

theorem oneLine_append {text more : String} :
    OneLine (text ++ more) ↔ OneLine text ∧ OneLine more := by
  rw [OneLine, String.toList_append, List.mem_append, not_or, OneLine, OneLine]

theorem oneLine_of_solid {text : String} (h : ∀ c ∈ text.toList, isWhite c = false) :
    OneLine text :=
  fun hmem ↦ absurd (h '\n' hmem) (by decide)

theorem oneLine_intercalate {separator : String} {texts : List String} (h : OneLine separator)
    (htexts : ∀ text ∈ texts, OneLine text) : OneLine (separator.intercalate texts) := by
  induction texts with
  | nil => simp [OneLine]
  | cons text texts ih =>
    obtain ⟨htext, hrest⟩ := List.forall_mem_cons.1 htexts
    cases texts with
    | nil => simpa [OneLine] using htext
    | cons next texts =>
      have hshape : separator.intercalate (text :: next :: texts) =
          text ++ separator ++ separator.intercalate (next :: texts) := by simp
      rw [hshape, oneLine_append, oneLine_append]
      exact ⟨⟨htext, h⟩, ih hrest⟩

theorem oneLine_toString_nat (n : Nat) : OneLine (toString n) := by
  change '\n' ∉ (Nat.repr n).toList
  rw [Nat.toList_repr]
  intro hmem
  exact absurd (Nat.isDigit_of_mem_toDigits (by decide) (by decide) hmem) (by decide)

end Text

open Text

/-! ### Symbols and tapes -/

/-- There is no line feed in the written form. -/
def Symbol.Unbroken (s : Symbol) : Prop := '\n' ∉ s.written

theorem Symbol.Solid.unbroken {s : Symbol} (h : s.Solid) : s.Unbroken :=
  fun hmem ↦ absurd (h '\n' hmem) (by decide)

theorem Symbol.Unbroken.oneLine {s : Symbol} (h : s.Unbroken) : OneLine (toString s) := by
  change '\n' ∉ (String.ofList s.written).toList
  rwa [String.toList_ofList]

theorem oneLine_symbols {symbols : List Symbol} (h : ∀ s ∈ symbols, s.Unbroken) :
    OneLine (", ".intercalate (symbols.map toString)) :=
  oneLine_intercalate (by decide) (List.forall_mem_map.2 fun s hs ↦ (h s hs).oneLine)

namespace Tape

/-- There is no line feed in any symbol of the alphabet or in any cell. -/
structure Unbroken (tape : Tape) : Prop where
  alphabet : ∀ s ∈ tape.alphabet.symbols, s.Unbroken
  cells : ∀ z, (tape.seen z).Unbroken

theorem Unbroken.current {tape : Tape} (h : tape.Unbroken) : tape.current.Unbroken := by
  rw [← seen_zero]
  exact h.cells 0

/-- Only a symbol of the alphabet is written. -/
theorem Unbroken.of_apply {tape changed : Tape} {input output : Symbol} {d : Direction}
    (h : tape.Unbroken) (happly : tape.apply input output d = .ok changed) : changed.Unbroken := by
  obtain ⟨-, hwrite, rfl⟩ := apply_eq_ok_iff.1 happly
  refine ⟨h.alphabet, fun z ↦ ?_⟩
  rw [seen_act]
  by_cases hz : z + d.offset = 0
  · rw [hz, Function.update_self]
    exact h.alphabet output (by simpa [Alphabet.contains] using hwrite)
  · rw [Function.update_of_ne hz]
    exact h.cells _

theorem unbroken_reset {tape : Tape} {contents : List Symbol} {head : Int}
    (alphabet : ∀ s ∈ tape.alphabet.symbols, s.Unbroken) (blank : tape.blank.Unbroken)
    (hcontents : ∀ s ∈ contents, s.Unbroken) : (tape.reset contents head).Unbroken := by
  have hcell : ∀ z, ((tape.reset contents head).cell z).Unbroken := by
    intro z
    cases z with
    | negSucc i => exact blank
    | ofNat i =>
      have hshown : (tape.reset contents head).contents = contents := Window.contents_of _ _
      change (((tape.reset contents head).contents[i]?).getD tape.blank).Unbroken
      rw [hshown]
      cases hplace : contents[i]? with
      | none => exact blank
      | some s => exact hcontents s (List.mem_of_getElem? hplace)
  exact ⟨alphabet, fun z ↦ hcell _⟩

end Tape

/-- No state that a run goes on from has a line feed in its name. -/
theorem Definition.Unbroken.oneLine_of_led {d : Definition} {state : String}
    (unbroken : d.Unbroken) (proper : d.Proper) (hled : d.Led state)
    (running : d.isTerminal state = false) : OneLine state := by
  cases hled with
  | start => exact unbroken.start
  | @rule rule hrule _ =>
    obtain ⟨haccept, hreject⟩ := Definition.isTerminal_eq_false_iff.1 running
    refine unbroken.target rule hrule ?_
    cases hterminal : rule.terminal with
    | none => rfl
    | some v =>
      cases v with
      | accept => exact absurd ((proper.rules rule hrule).accept.1 hterminal) haccept
      | reject => exact absurd ((proper.rules rule hrule).reject.1 hterminal) hreject

namespace Machine

variable {d : Definition} {m : Machine}

/-- What every instruction keeps of a tape, the instructions keep of all tapes. -/
theorem forall_mem_applyAll {P : Tape → Prop}
    (kept : ∀ {tape changed : Tape} {i : Instruction}, P tape →
      tape.apply i.input i.output i.move = .ok changed → P changed)
    {instructions : List Instruction} {tapes : List Tape} (holds : ∀ tape ∈ tapes, P tape)
    (index : Nat) : ∀ tape ∈ (applyAll index instructions tapes).1, P tape := by
  induction instructions generalizing tapes index with
  | nil => simpa [applyAll] using holds
  | cons i instructions ih =>
    cases tapes with
    | nil => simp [applyAll]
    | cons tape tapes =>
      obtain ⟨hfirst, hrest⟩ := List.forall_mem_cons.1 holds
      cases happly : tape.apply i.input i.output i.move with
      | error refusal => simpa [applyAll, happly] using holds
      | ok changed =>
        simp only [applyAll, happly]
        exact List.forall_mem_cons.2 ⟨kept hfirst happly, ih hrest (index + 1)⟩

/-- A run of the definition can be here, and there is no line feed in any symbol. -/
structure Unbroken (d : Definition) (m : Machine) : Prop extends Visits d m where
  tapes : ∀ tape ∈ m.tapes, tape.Unbroken

theorem unbroken_start (proper : d.Proper) {limit : Option Nat} {marker : String}
    {input : List Char} (h : '\n' ∉ input) : Unbroken d ((fresh d limit marker).start input) := by
  obtain ⟨hblank, -, halphabets⟩ := proper.solid
  have hinput : ∀ s ∈ input.map Symbol.plain, s.Unbroken := by
    intro s hs
    obtain ⟨c, hc, rfl⟩ := List.mem_map.1 hs
    have hne : c ≠ '\n' := fun hsame ↦ h (hsame ▸ hc)
    simpa [Symbol.Unbroken, Symbol.plain, Symbol.written] using hne.symm
  have hreset : ∀ a ∈ d.tapeAlphabets, ∀ contents : List Symbol, (∀ s ∈ contents, s.Unbroken) →
      ((Tape.new a d.blank).reset contents 0).Unbroken := fun a ha contents hcontents ↦
    Tape.unbroken_reset (fun s hs ↦ (halphabets a ha s hs).unbroken) hblank.unbroken hcontents
  refine ⟨visits_start limit marker input, fun tape htape ↦ ?_⟩
  change tape ∈ startTapes (input.map .plain) (blankTapes d) at htape
  unfold blankTapes at htape
  cases hall : d.tapeAlphabets with
  | nil =>
    rw [hall] at htape
    cases htape
  | cons first rest =>
    rw [hall] at htape hreset
    rcases List.mem_cons.1 htape with rfl | hother
    · exact hreset first List.mem_cons_self _ hinput
    · obtain ⟨_, hblankTape, rfl⟩ := List.mem_map.1 hother
      obtain ⟨a, ha, rfl⟩ := List.mem_map.1 hblankTape
      exact hreset a (.tail first ha) [] (by simp)

theorem Unbroken.step (h : Unbroken d m) : Unbroken d m.step.2 := by
  refine ⟨h.toVisits.step, ?_⟩
  have hall : ∀ tape ∈ (applyAll 0 m.nextRule.instructions m.tapes).1, tape.Unbroken :=
    forall_mem_applyAll Tape.Unbroken.of_apply h.tapes 0
  rcases m.step_cases with ⟨v, -, hstep⟩ | ⟨limit, -, -, hstep⟩ | ⟨tapes, -, -, applied, hstep⟩ |
    ⟨tapes, tape, refusal, -, -, refused, hstep⟩ <;> rw [hstep]
  · exact h.tapes
  · exact h.tapes
  · rw [applied] at hall
    exact hall
  · rw [refused] at hall
    exact hall

/-! ### Messages -/

theorem oneLine_toString_rule {rule : Rule} (source : OneLine rule.source)
    (target : OneLine rule.targetLabel) (inputs : ∀ s ∈ rule.inputs, s.Unbroken)
    (outputs : ∀ s ∈ rule.outputs, s.Unbroken) : OneLine (toString rule) := by
  have hmoves : OneLine (", ".intercalate (rule.moves.map toString)) := by
    refine oneLine_intercalate (by decide) (List.forall_mem_map.2 fun move _ ↦ ?_)
    cases move <;> decide
  have hinputs := oneLine_symbols inputs
  have houtputs := oneLine_symbols outputs
  change OneLine ("(" ++ rule.source ++ ", " ++ ", ".intercalate (rule.inputs.map toString) ++
    ") -> \x7b" ++ rule.targetLabel ++ ", " ++ ", ".intercalate (rule.outputs.map toString) ++
      ", " ++ ", ".intercalate (rule.moves.map toString) ++ "\x7d")
  simp +decide only [oneLine_append, source, target, hmoves, hinputs, houtputs]

section Written

variable (h : Unbroken d m) (proper : d.Proper) (unbroken : d.Unbroken)

include h proper unbroken

/-- The rule that comes next shows no line feed. -/
theorem oneLine_nextRule (running : m.verdict = none) :
    OneLine (toString m.nextRule) ∧ ∀ s ∈ m.nextRule.outputs, s.Unbroken := by
  rcases m.nextRule_cases with ⟨rule, hfind, hrule⟩ | ⟨-, hrule⟩
  · have hmem : rule ∈ d.rules := h.definition ▸ List.mem_of_find?_eq_some hfind
    have hproper := proper.rules rule hmem
    have houtputs : ∀ s ∈ rule.outputs, s.Unbroken :=
      fun s hs ↦ (hproper.outputs_solid s hs).unbroken
    rw [hrule]
    refine ⟨oneLine_toString_rule (oneLine_of_solid hproper.source) ?_
      (fun s hs ↦ (hproper.inputs_solid s hs).unbroken) houtputs, houtputs⟩
    unfold Rule.targetLabel
    split
    · decide
    · decide
    · next hnone => exact unbroken.target rule hmem hnone
  · obtain ⟨hrunning, hled⟩ := h.toVisits.led running
    have hsymbols : ∀ s ∈ m.symbols, s.Unbroken :=
      List.forall_mem_map.2 fun tape htape ↦ (h.tapes tape htape).current
    have hsource : OneLine m.state := unbroken.oneLine_of_led proper hled hrunning
    have htarget : OneLine "q_reject" := by decide
    rw [hrule]
    exact ⟨oneLine_toString_rule hsource htarget hsymbols hsymbols, hsymbols⟩

theorem oneLine_of_step {fault : Fault} (failed : m.step.1 = .error fault) :
    OneLine (Failure.run fault).message := by
  cases fault with
  | stepLimit limit =>
    change OneLine ("Step limit of " ++ toString limit ++ " exceeded")
    simp +decide only [oneLine_append, oneLine_toString_nat]
  | instruction rule k refusal =>
    obtain ⟨running, -⟩ := running_of_refused failed
    obtain ⟨rfl, tape, output, htape, houtput, rfl⟩ := refusal_of_step failed
    obtain ⟨hrule, houtputs⟩ := oneLine_nextRule h proper unbroken running
    have houtput := (houtputs output (List.mem_of_getElem? houtput)).oneLine
    have halphabet : OneLine (toString tape.alphabet) := by
      have hsymbols := oneLine_symbols (h.tapes tape (List.mem_of_getElem? htape)).alphabet
      change OneLine ("[" ++ ", ".intercalate (tape.alphabet.symbols.map toString) ++ "]")
      simp +decide only [oneLine_append, hsymbols]
    change OneLine ("Bad instruction: " ++ (toString m.nextRule ++ " on tape " ++ toString k ++
      ": " ++ ("'" ++ toString output ++ "' is not in the tape alphabet " ++
        toString tape.alphabet)))
    simp +decide only [oneLine_append, oneLine_toString_nat, hrule, houtput, halphabet]

end Written

/-- A run that fails is told by one line. -/
theorem oneLine_of_runFrom (h : Unbroken d m) (proper : d.Proper) (unbroken : d.Unbroken)
    {fuel : Nat} {fault : Fault} {last : Machine}
    (failed : m.runFrom fuel = some (.error fault, last)) :
    OneLine (Failure.run fault).message := by
  induction fuel generalizing m with
  | zero => cases failed
  | succ fuel ih =>
    have hnext := h.step
    rcases hstep : m.step with ⟨other | _ | v, next⟩ <;> rw [hstep] at hnext
    · rw [runFrom_of_step_error hstep] at failed
      obtain rfl := Except.error.inj (Prod.mk.inj (Option.some.inj failed)).1
      exact oneLine_of_step h proper unbroken (by rw [hstep])
    · rw [runFrom_of_step_continue hstep] at failed
      exact ih hnext failed
    · rw [runFrom_of_step_halt hstep] at failed
      cases failed

end Machine

end Multitape
