import Multitape.Proofs.Sections
import Multitape.Proofs.Settings
import Multitape.Proofs.WellFormed

/-!
What can be said of a definition because it was written down. `Definition.Proper` says it of the
definition alone: between one tape and 64, alphabets without repetitions, terminal states that
differ, rules whose verdict agrees with their target, and no white space where the reading of a line
could not have let it through. It goes with the text as well: the rules are the lines of rules in
their order, and a number of tapes that is assigned is the number of tapes.
-/

set_option autoImplicit false
set_option relaxedAutoImplicit false

namespace Multitape

/-! ### Rules -/

namespace Rule

/-- The rule fits a machine of the definition, and nothing in it but the target can have white space
in it. -/
structure Proper (d : Definition) (rule : Rule) : Prop extends rule.Spans d.tapeCount where
  accept : rule.terminal = some .accept ↔ rule.target = d.acceptState
  reject : rule.terminal = some .reject ↔ rule.target = d.rejectState
  source_ne : rule.source ≠ ""
  source : ∀ c ∈ rule.source.toList, Text.isWhite c = false
  inputs_solid : ∀ s ∈ rule.inputs, s.Solid
  outputs_solid : ∀ s ∈ rule.outputs, s.Solid

/-- A target has a verdict exactly if it is a terminal state, and then that state's. -/
theorem terminal_of_resolveTarget {acceptState rejectState : String} {token : List Char}
    {target : String} {terminal : Option Verdict} (distinct : acceptState ≠ rejectState)
    (h : (target, terminal) = resolveTarget acceptState rejectState token) :
    (terminal = some .accept ↔ target = acceptState) ∧
      (terminal = some .reject ↔ target = rejectState) := by
  unfold resolveTarget at h
  dsimp only at h
  split_ifs at h with haccept hreject hlikeAccept hlikeReject <;> obtain ⟨rfl, rfl⟩ := h
  · simp [distinct]
  · simp [distinct.symm]
  · simp [distinct]
  · simp [distinct.symm]
  · simp [haccept, hreject]

theorem exists_of_readSymbols {alphabets : List Alphabet} {tokens : List (List Char)}
    {symbols : List Symbol} (h : readSymbols alphabets tokens = .ok symbols) :
    ∀ s ∈ symbols, ∃ alphabet, ∃ token ∈ tokens, Symbol.read alphabet token = .ok s := by
  induction alphabets generalizing tokens symbols with
  | nil =>
    obtain rfl : symbols = [] := by simpa [readSymbols, eq_comm] using h
    simp
  | cons alphabet alphabets ih =>
    cases tokens with
    | nil =>
      obtain rfl : symbols = [] := by simpa [readSymbols, eq_comm] using h
      simp
    | cons token tokens =>
      obtain ⟨first, hfirst, h⟩ := bind_eq_ok_iff.1 h
      obtain ⟨rest, hrest, h⟩ := bind_eq_ok_iff.1 h
      obtain rfl := Except.ok.inj h
      intro s hs
      rcases List.mem_cons.1 hs with rfl | hs
      · exact ⟨alphabet, token, List.mem_cons_self, mapError_eq_ok_iff.1 hfirst⟩
      · obtain ⟨other, token', htoken', hread⟩ := ih hrest s hs
        exact ⟨other, token', List.mem_cons_of_mem _ htoken', hread⟩

theorem solid_of_readSymbols {alphabets : List Alphabet} {tokens : List (List Char)}
    {symbols : List Symbol} (h : readSymbols alphabets tokens = .ok symbols)
    (solid : ∀ token ∈ tokens, ∀ c ∈ token, Text.isWhite c = false) : ∀ s ∈ symbols, s.Solid := by
  intro s hs
  obtain ⟨alphabet, token, htoken, hread⟩ := exists_of_readSymbols h s hs
  exact Symbol.solid_of_read hread (solid token htoken)

theorem proper_of_read {d : Definition} {line : List Char} {rule : Rule}
    (distinct : d.acceptState ≠ d.rejectState)
    (h : Rule.read d.tapeAlphabets d.acceptState d.rejectState line = .ok rule) :
    rule.Proper d := by
  obtain ⟨parts, hparts, hsource, hinputs, htarget, houtputs, -⟩ := parts_of_read h
  obtain ⟨htokens, -⟩ := Parts.ofTokens?_eq_some_iff.1 hparts
  have hwords : ∀ token ∈ Text.words line, token ≠ [] ∧ ∀ c ∈ token, Text.isWhite c = false :=
    fun token htoken ↦ Text.mem_words htoken
  rw [htokens] at hwords
  obtain ⟨haccept, hreject⟩ := terminal_of_resolveTarget distinct htarget
  obtain ⟨hne, hsolid⟩ := hwords parts.source (by simp)
  refine ⟨spans_of_read h, haccept, hreject, ?_, ?_, ?_, ?_⟩
  · rw [hsource]
    simpa using hne
  · rw [hsource, String.toList_ofList]
    exact hsolid
  · exact solid_of_readSymbols hinputs fun token htoken ↦ (hwords token (by simp [htoken])).2
  · exact solid_of_readSymbols houtputs fun token htoken ↦ (hwords token (by simp [htoken])).2

end Rule

/-! ### Definitions -/

namespace Definition

/-- The definition can run, and has no white space in its symbols. -/
structure Proper (d : Definition) : Prop where
  tapes : 1 ≤ d.tapeCount ∧ d.tapeCount ≤ 64
  nodup : d.alphabet.symbols.Nodup ∧ ∀ a ∈ d.tapeAlphabets, a.symbols.Nodup
  blank : ∀ a ∈ d.tapeAlphabets, a.contains d.blank = true
  terminal : d.acceptState ≠ d.rejectState
  rules : ∀ rule ∈ d.rules, rule.Proper d
  solid : d.blank.Solid ∧ d.alphabet.Solid ∧ ∀ a ∈ d.tapeAlphabets, a.Solid

theorem solid_of_complete {s : Settings} {lines : List (List Char)} {d : Definition}
    (solid : s.Solid) (h : s.complete lines = .ok d) :
    d.blank.Solid ∧ d.alphabet.Solid ∧ ∀ a ∈ d.tapeAlphabets, a.Solid := by
  obtain ⟨halphabets, -, -, -, hblank, halphabet, -⟩ := parts_of_complete h
  have hsolid : d.blank.Solid := by
    rw [hblank]
    cases hb : s.blank with
    | none => decide
    | some b => exact solid.blank b hb
  refine ⟨hsolid, ?_, ?_⟩
  · rw [halphabet]
    cases ha : s.alphabet with
    | none => decide
    | some a => exact solid.alphabet a ha
  · obtain ⟨htapes, -⟩ := Settings.alphabets_eq_ok_iff.1 halphabets
    rw [htapes]
    cases ha : s.tapeAlphabets with
    | none =>
      intro a ha
      rw [List.eq_of_mem_replicate ha]
      exact Alphabet.solid_binaryWith hsolid
    | some alphabets => exact solid.tapeAlphabets alphabets ha

theorem proper_of_parse {text : List Char} {d : Definition} (h : parse text = .ok d) :
    d.Proper := by
  have hfits := wellFormed_of_parse h
  obtain ⟨sections, settings, -, hsettings, hcomplete⟩ := parse_eq_ok_iff.1 h
  obtain ⟨halphabets, -, -, hrules, -⟩ := parts_of_complete hcomplete
  obtain ⟨-, -, hmany, -⟩ := Settings.alphabets_eq_ok_iff.1 halphabets
  refine ⟨⟨hfits.tapes, hmany⟩, ⟨d.alphabet.nodup, fun a _ ↦ a.nodup⟩, hfits.blank,
    hfits.terminal, ?_, solid_of_complete (Settings.solid_of_ofAssignments hsettings) hcomplete⟩
  intro rule hrule
  obtain ⟨line, -, hline⟩ := exists_of_mapM_eq_ok hrules hrule
  exact Rule.proper_of_read hfits.terminal hline

/-! ### The text -/

/-- The lines of rules: from the first line on that begins with a `q`, all that say something. -/
def ruleLines (text : List Char) : List (List Char) :=
  (contentLines text).dropWhile fun line ↦ !opensRules line

theorem rules_of_sectionsFrom {pending : Option Pending} {lines : List (List Char)}
    {sections : Sections} (h : sectionsFrom pending lines = .ok sections) :
    sections.rules = lines.dropWhile fun line ↦ !opensRules line := by
  induction lines generalizing pending sections with
  | nil =>
    obtain rfl := Except.ok.inj h
    rfl
  | cons line rest ih =>
    have hresume : ∀ p : Pending, p.resume rest = .ok sections →
        sections.rules = rest.dropWhile fun line ↦ !opensRules line := by
      intro p hp
      rcases Pending.resume_cases hp with ⟨-, hgoes⟩ | ⟨-, others, hothers, rfl⟩
      · exact ih hgoes
      · change others.rules = _
        exact ih hothers
    rcases sectionsFrom_cons_cases h with ⟨hopens, rfl⟩ | ⟨hopens, ⟨_, -, hp⟩ | ⟨_, -, -, hp⟩⟩
    · rw [List.dropWhile_cons_of_neg (by simpa using hopens)]
    · rw [List.dropWhile_cons_of_pos (by simpa using hopens)]
      exact hresume _ hp
    · rw [List.dropWhile_cons_of_pos (by simpa using hopens)]
      exact hresume _ hp

/-- A definition that a text writes is proper. Its rules are what the lines of rules read as, one
for each in their order, and if the text assigns a number of tapes, that is how many there are. -/
theorem proper_and_in_order_of_parse {text : List Char} {d : Definition}
    (parsed : parse text = .ok d) :
    d.Proper ∧
    List.Forall₂ (fun line rule ↦
      Rule.read d.tapeAlphabets d.acceptState d.rejectState line = .ok rule)
      (ruleLines text) d.rules ∧
    ∃ sections, Sections.ofText text = .ok sections ∧
      ∀ a ∈ sections.assignments, String.ofList a.key = "num_tapes" →
        Literal.readInteger a.value = .ok d.tapeCount := by
  obtain ⟨sections, settings, hsections, hsettings, hcomplete⟩ := parse_eq_ok_iff.1 parsed
  obtain ⟨halphabets, -, -, hrules, -⟩ := parts_of_complete hcomplete
  obtain ⟨-, -, -, hcount⟩ := Settings.alphabets_eq_ok_iff.1 halphabets
  refine ⟨proper_of_parse parsed, ?_, sections, hsections, fun a assigned named ↦ ?_⟩
  · rw [ruleLines, ← rules_of_sectionsFrom hsections]
    exact forall₂_of_mapM_eq_ok hrules
  · have hkey : Key.ofName? (String.ofList a.key) = some .tapeCount := by
      rw [named]
      rfl
    obtain ⟨-, count, hread, hstored⟩ := Settings.value?_of_assignments hsettings assigned hkey
    exact hread.trans (congrArg _ (hcount count hstored))

/-- A machine that goes over a dotted `0` and accepts. -/
def dotted : Definition where
  tapeAlphabets := [.ofList [.plain 'B', ⟨'0', some '.', none⟩], .ofList [.plain 'B', .plain '1']]
  rules := [⟨"q0", [⟨'0', some '.', none⟩, .plain 'B'], "q1", [⟨'0', some '.', none⟩, .plain '1'],
    [.right, .stay], some .accept⟩]

def dottedText : String :=
  "num_tapes = 2\ntape_alphabets = [\n[('B'), ('0', '.')], ['B', '1'] ]\nq0 .0 B  qAccept .0 1  r S"

theorem dotted_proper :
    parse dottedText.toList = .ok dotted ∧ dotted.Proper ∧
      ∃ sections, Sections.ofText dottedText.toList = .ok sections ∧
        ∃ a ∈ sections.assignments, String.ofList a.key = "num_tapes" ∧
          Literal.readInteger a.value = .ok dotted.tapeCount := by
  have parsed : parse dottedText.toList = .ok dotted := by
    rw [dottedText, String.toList_ofList]
    rfl
  obtain ⟨hproper, -, sections, hsections, hcount⟩ := proper_and_in_order_of_parse parsed
  have hassigned : ⟨['n', 'u', 'm', '_', 't', 'a', 'p', 'e', 's'], ['2']⟩ ∈
      sections.assignments := by
    have hfirst : (Sections.ofText dottedText.toList).map (·.assignments.head?) =
        .ok (some ⟨['n', 'u', 'm', '_', 't', 'a', 'p', 'e', 's'], ['2']⟩) := by
      rw [dottedText, String.toList_ofList]
      rfl
    rw [hsections] at hfirst
    exact List.mem_of_head? (Except.ok.inj hfirst)
  exact ⟨parsed, hproper, sections, hsections, _, hassigned, rfl, hcount _ hassigned rfl⟩

end Definition

end Multitape
