import Multitape.Diagnostic
import Multitape.Proofs.WellFormed

/-!
What the findings about a definition say of it. Each is made exactly if there is something to be
found, and lists all of it (`mem_diagnostics_iff`). `mem_foreignOutputs_iff` reads an entry of the
list of foreign outputs back as a place in a rule, and a definition without such a finding writes
every tape in the symbols that it has (`contains_output`).
-/

set_option autoImplicit false
set_option relaxedAutoImplicit false

namespace Multitape.Definition

variable {d : Definition}

/-! ### Findings -/

theorem finding_eq_some_iff {α : Type} {tell : List α → Diagnostic} {items : List α}
    {found : Diagnostic} : finding tell items = some found ↔ items ≠ [] ∧ tell items = found := by
  unfold finding
  by_cases h : items = []
  · simp [h]
  · simp [h]

/-- What a finding says of the definition: that there is something to be found, and all of it. -/
def Finds (d : Definition) : Diagnostic → Prop
  | .startWithoutRules state => d.startState ∉ d.sources ∧ d.startState = state
  | .deadEnds states => d.deadEnds ≠ [] ∧ d.deadEnds = states
  | .unreachable states => d.unreachable ≠ [] ∧ d.unreachable = states
  | .shadowed rules => d.shadowed ≠ [] ∧ d.shadowed = rules
  | .foreignOutputs outputs => d.foreignOutputs ≠ [] ∧ d.foreignOutputs = outputs
  | .terminalSources rules => d.terminalSources ≠ [] ∧ d.terminalSources = rules

theorem mem_diagnostics_iff {found : Diagnostic} : found ∈ d.diagnostics ↔ d.Finds found := by
  simp only [diagnostics, List.mem_filterMap, id_eq, List.mem_cons, List.not_mem_nil, or_false,
    exists_eq_right, eq_comm (a := some found), finding_eq_some_iff]
  cases found <;> simp [Finds]

/-! ### Foreign outputs -/

/-- A foreign output is what some rule writes on a tape that does not have it. -/
theorem mem_foreignOutputs_iff {f : ForeignOutput} :
    f ∈ d.foreignOutputs ↔ f.rule ∈ d.rules ∧ f.rule.outputs[f.tape]? = some f.output ∧
      ∃ alphabet, d.tapeAlphabets[f.tape]? = some alphabet ∧
        alphabet.contains f.output = false := by
  simp only [foreignOutputs, List.mem_flatMap, List.mem_filterMap, List.mem_zipIdx_iff_getElem?]
  constructor
  · rintro ⟨rule, hrule, ⟨⟨output, alphabet⟩, tape⟩, hplace, h⟩
    obtain ⟨houtput, halphabet⟩ := List.getElem?_zip_eq_some.1 hplace
    by_cases hcontains : alphabet.contains output = true
    · simp [hcontains] at h
    · obtain rfl : ⟨rule, output, tape⟩ = f := by simpa [hcontains] using h
      exact ⟨hrule, houtput, alphabet, halphabet, by simpa using hcontains⟩
  · rintro ⟨hrule, houtput, alphabet, halphabet, hforeign⟩
    refine ⟨f.rule, hrule, ((f.output, alphabet), f.tape), ?_, by simp [hforeign]⟩
    exact List.getElem?_zip_eq_some.2 ⟨houtput, halphabet⟩

theorem ne_nil_and_eq_comm {α : Type} {items listed : List α} :
    items ≠ [] ∧ items = listed ↔ listed ≠ [] ∧ listed = items := by
  constructor <;>
  · rintro ⟨hsome, rfl⟩
    exact ⟨hsome, rfl⟩

theorem clean_iff :
    (∀ outputs, .foreignOutputs outputs ∉ d.diagnostics) ↔ d.foreignOutputs = [] := by
  constructor
  · intro clean
    by_contra hsome
    exact clean _ (mem_diagnostics_iff.2 ⟨hsome, rfl⟩)
  · intro hnone outputs hfound
    obtain ⟨hsome, rfl⟩ := mem_diagnostics_iff.1 hfound
    exact hsome hnone

/-- The rules of a definition without a finding about foreign outputs write on each tape a symbol
that it has. -/
theorem contains_output (clean : ∀ outputs, .foreignOutputs outputs ∉ d.diagnostics) {rule : Rule}
    (hrule : rule ∈ d.rules) {tape : Nat} {output : Symbol} {alphabet : Alphabet}
    (houtput : rule.outputs[tape]? = some output)
    (halphabet : d.tapeAlphabets[tape]? = some alphabet) : alphabet.contains output = true := by
  by_contra hforeign
  have hmem : ⟨rule, output, tape⟩ ∈ d.foreignOutputs :=
    mem_foreignOutputs_iff.2 ⟨hrule, houtput, alphabet, halphabet, by simpa using hforeign⟩
  exact List.ne_nil_of_mem hmem (clean_iff.1 clean)

end Multitape.Definition
