import Multitape.Definition.Parse
import Multitape.Proofs.Except

/-!
What every written definition promises the machine that runs it (`wellFormed_of_parse`): there is at
least one tape, every tape has the blank in its alphabet, the two terminal states differ, and every
rule has an input, an output and a move for each tape.
-/

set_option autoImplicit false
set_option relaxedAutoImplicit false

namespace Multitape

/-! ### Rules -/

namespace Rule

/-- The rule has an input, an output and a move for each of `n` tapes. -/
structure Spans (rule : Rule) (n : Nat) : Prop where
  inputs : rule.inputs.length = n
  outputs : rule.outputs.length = n
  moves : rule.moves.length = n

/-- The tokens of a line are its parts one after another, as many of each as there are tapes. -/
theorem Parts.ofTokens?_eq_some_iff {n : Nat} {tokens : List (List Char)} {parts : Parts} :
    Parts.ofTokens? n tokens = some parts ↔
      tokens = parts.source :: (parts.inputs ++ parts.target :: (parts.outputs ++ parts.moves)) ∧
        parts.inputs.length = n ∧ parts.outputs.length = n ∧ parts.moves.length = n := by
  constructor
  · intro h
    cases tokens with
    | nil => simp [Parts.ofTokens?] at h
    | cons source rest =>
      cases hdrop : rest.drop n with
      | nil => simp [Parts.ofTokens?, hdrop] at h
      | cons target last =>
        have hrest : n < rest.length := by
          have := congrArg List.length hdrop
          simp at this
          omega
        by_cases hlast : last.length = 2 * n
        · obtain rfl : _ = parts := by simpa [Parts.ofTokens?, hdrop, hlast] using h
          refine ⟨?_, ?_, ?_, ?_⟩
          · rw [List.take_append_drop, ← hdrop, List.take_append_drop]
          · simp
            omega
          · simp
            omega
          · simp
            omega
        · simp [Parts.ofTokens?, hdrop, hlast] at h
  · obtain ⟨source, inputs, target, outputs, moves⟩ := parts
    rintro ⟨rfl, hinputs, houtputs, hmoves⟩
    have hlength : (outputs ++ moves).length = 2 * n := by
      rw [List.length_append, houtputs, hmoves]
      omega
    simp only [Parts.ofTokens?, List.drop_left' hinputs, List.take_left' hinputs, hlength, if_true,
      List.drop_left' houtputs, List.take_left' houtputs]

theorem length_of_readSymbols {alphabets : List Alphabet} {tokens : List (List Char)}
    {symbols : List Symbol} (h : readSymbols alphabets tokens = .ok symbols)
    (hlength : tokens.length = alphabets.length) : symbols.length = alphabets.length := by
  induction alphabets generalizing tokens symbols with
  | nil =>
    obtain rfl : symbols = [] := by simpa [readSymbols, eq_comm] using h
    rfl
  | cons alphabet alphabets ih =>
    cases tokens with
    | nil => simp at hlength
    | cons token tokens =>
      obtain ⟨s, -, h⟩ := bind_eq_ok_iff.1 h
      obtain ⟨rest, hrest, h⟩ := bind_eq_ok_iff.1 h
      obtain rfl : s :: rest = symbols := by simpa [pure, Except.pure] using h
      simp [ih hrest (by simpa using hlength)]

theorem length_of_readMoves {line : String} {tokens : List (List Char)} {moves : List Direction}
    (h : readMoves line tokens = .ok moves) : moves.length = tokens.length := by
  induction tokens generalizing moves with
  | nil =>
    obtain rfl : moves = [] := by simpa [readMoves, eq_comm] using h
    rfl
  | cons token tokens ih =>
    cases hd : Direction.ofToken? token with
    | none => simp [readMoves, hd] at h
    | some d =>
      simp only [readMoves, hd] at h
      obtain ⟨rest, hrest, h⟩ := bind_eq_ok_iff.1 h
      obtain rfl : d :: rest = moves := by simpa [pure, Except.pure] using h
      simp [ih hrest]

/-- How the parts of a rule come from the parts of its line. -/
theorem parts_of_read {alphabets : List Alphabet} {acceptState rejectState : String}
    {line : List Char} {rule : Rule}
    (h : Rule.read alphabets acceptState rejectState line = .ok rule) :
    ∃ parts, Parts.ofTokens? alphabets.length (Text.words line) = some parts ∧
      rule.source = String.ofList parts.source ∧
      readSymbols alphabets parts.inputs = .ok rule.inputs ∧
      (rule.target, rule.terminal) = resolveTarget acceptState rejectState parts.target ∧
      readSymbols alphabets parts.outputs = .ok rule.outputs ∧
      readMoves (String.ofList (Text.trim line)) parts.moves = .ok rule.moves := by
  cases hparts : Parts.ofTokens? alphabets.length (Text.words line) with
  | none => simp [Rule.read, hparts] at h
  | some parts =>
    simp only [Rule.read, hparts] at h
    obtain ⟨inputs, hinputs, h⟩ := bind_eq_ok_iff.1 h
    obtain ⟨outputs, houtputs, h⟩ := bind_eq_ok_iff.1 h
    obtain ⟨moves, hmoves, h⟩ := bind_eq_ok_iff.1 h
    obtain rfl := Except.ok.inj h
    exact ⟨parts, rfl, rfl, hinputs, rfl, houtputs, hmoves⟩

theorem spans_of_read {alphabets : List Alphabet} {acceptState rejectState : String}
    {line : List Char} {rule : Rule}
    (h : Rule.read alphabets acceptState rejectState line = .ok rule) :
    rule.Spans alphabets.length := by
  obtain ⟨parts, hparts, -, hinputs, -, houtputs, hmoves⟩ := parts_of_read h
  obtain ⟨-, linputs, loutputs, lmoves⟩ := Parts.ofTokens?_eq_some_iff.1 hparts
  exact ⟨length_of_readSymbols hinputs linputs, length_of_readSymbols houtputs loutputs,
    (length_of_readMoves hmoves).trans lmoves⟩

end Rule

/-! ### Definitions -/

namespace Definition

/-- The parts of the definition fit together. -/
structure WellFormed (d : Definition) : Prop where
  tapes : 0 < d.tapeCount
  blank : ∀ alphabet ∈ d.tapeAlphabets, alphabet.contains d.blank = true
  terminal : d.acceptState ≠ d.rejectState
  rules : ∀ rule ∈ d.rules, rule.Spans d.tapeCount

/-- The tape alphabets are those that are declared, or as many as there are tapes over the binary
digits. They are accepted if there are neither none nor too many of them, and as many as the
declared number. -/
theorem Settings.alphabets_eq_ok_iff {s : Settings} {blank : Symbol} {alphabets : List Alphabet} :
    s.alphabets blank = .ok alphabets ↔
      alphabets = s.tapeAlphabets.getD (List.replicate (s.tapeCount.getD 1) (.binaryWith blank)) ∧
        0 < alphabets.length ∧ alphabets.length ≤ maxTapes ∧
        ∀ count ∈ s.tapeCount, count = alphabets.length := by
  unfold Settings.alphabets
  cases hcount : s.tapeCount with
  | none =>
    cases hdeclared : s.tapeAlphabets with
    | none =>
      constructor
      · intro h
        obtain rfl := Except.ok.inj h
        simp [maxTapes]
      · rintro ⟨rfl, -⟩
        rfl
    | some declared =>
      constructor
      · intro h
        dsimp only at h
        split_ifs at h with hmany hempty
        obtain rfl := Except.ok.inj h
        exact ⟨rfl, List.length_pos_iff.2 (by simpa using hempty), by omega, by simp⟩
      · rintro ⟨rfl, hpos, hmany, -⟩
        dsimp only at hpos hmany ⊢
        rw [if_neg (by omega), if_neg (by simpa using List.length_pos_iff.1 hpos)]
  | some count =>
    cases hdeclared : s.tapeAlphabets with
    | none =>
      constructor
      · intro h
        dsimp only at h
        split_ifs at h with hzero hmany
        obtain rfl := Except.ok.inj h
        simp only [List.length_replicate]
        exact ⟨rfl, by omega, by omega, by simp⟩
      · rintro ⟨rfl, hpos, hmany, -⟩
        simp only [Option.getD_none, Option.getD_some, List.length_replicate] at hpos hmany ⊢
        rw [if_neg (by omega), if_neg (by omega)]
    | some declared =>
      constructor
      · intro h
        dsimp only at h
        split_ifs at h with hzero hmany hmany' hdifferent
        obtain rfl := Except.ok.inj h
        simp only [Option.mem_def, Option.some.injEq]
        exact ⟨rfl, by omega, by omega, by rintro _ rfl; omega⟩
      · rintro ⟨rfl, hpos, hmany, hsame⟩
        simp only [Option.mem_def, Option.some.injEq, forall_eq'] at *
        rw [if_neg (by omega), if_neg (by omega), if_neg (by omega), if_neg (by omega)]

theorem Settings.contains_of_checkBlank {blank : Symbol} {tape : Nat} {alphabets : List Alphabet}
    (h : Settings.checkBlank blank tape alphabets = .ok ()) :
    ∀ alphabet ∈ alphabets, alphabet.contains blank = true := by
  induction alphabets generalizing tape with
  | nil => simp
  | cons first rest ih =>
    by_cases hfirst : first.contains blank = true
    · simp only [Settings.checkBlank, hfirst, if_true] at h
      simpa [hfirst] using ih h
    · simp [Settings.checkBlank, hfirst] at h

/-- How a definition comes from its settings and the lines of its rules. -/
theorem parts_of_complete {s : Settings} {lines : List (List Char)} {d : Definition}
    (h : s.complete lines = .ok d) :
    s.alphabets d.blank = .ok d.tapeAlphabets ∧
      Settings.checkBlank d.blank 0 d.tapeAlphabets = .ok () ∧
      d.acceptState ≠ d.rejectState ∧
      readRules d.tapeAlphabets d.acceptState d.rejectState lines = .ok d.rules ∧
      d.blank = s.blank.getD (.plain 'B') ∧ d.alphabet = s.alphabet.getD .binary ∧
      d.description = s.description.getD "" ∧ d.startState = s.startState.getD "q0" ∧
      d.acceptState = s.acceptState.getD "q1" ∧ d.rejectState = s.rejectState.getD "q2" := by
  unfold Settings.complete at h
  obtain ⟨alphabets, halphabets, h⟩ := bind_eq_ok_iff.1 h
  obtain ⟨⟨⟩, hblank, h⟩ := bind_eq_ok_iff.1 h
  dsimp only at h
  split_ifs at h with hterminal
  · obtain ⟨⟨⟩, hfails, -⟩ := bind_eq_ok_iff.1 h
    cases hfails
  · obtain ⟨rules, hrules, h⟩ := bind_eq_ok_iff.1 h
    obtain rfl := Except.ok.inj h
    exact ⟨mapError_eq_ok_iff.1 halphabets, mapError_eq_ok_iff.1 hblank, hterminal,
      mapError_eq_ok_iff.1 hrules, rfl, rfl, rfl, rfl, rfl, rfl⟩

/-- A definition that a text writes is made of the settings and the rules of its two sections. -/
theorem parse_eq_ok_iff {text : List Char} {d : Definition} : parse text = .ok d ↔
    ∃ sections settings, Sections.ofText text = .ok sections ∧
      Settings.ofAssignments sections.assignments = .ok settings ∧
      settings.complete sections.rules = .ok d := by
  unfold parse
  simp only [bind_eq_ok_iff, mapError_eq_ok_iff, exists_and_left]

theorem parse_of_sections {text : List Char} {sections : Sections}
    (h : Sections.ofText text = .ok sections) :
    parse text = Settings.ofAssignments sections.assignments >>= fun settings ↦
      settings.complete sections.rules := by
  rw [parse, h]
  rfl

theorem wellFormed_of_parse {text : List Char} {d : Definition} (h : parse text = .ok d) :
    d.WellFormed := by
  obtain ⟨sections, settings, -, -, hcomplete⟩ := parse_eq_ok_iff.1 h
  obtain ⟨halphabets, hblank, hterminal, hrules, -⟩ := parts_of_complete hcomplete
  obtain ⟨-, hpos, -⟩ := Settings.alphabets_eq_ok_iff.1 halphabets
  refine ⟨hpos, Settings.contains_of_checkBlank hblank, hterminal, ?_⟩
  intro rule hrule
  obtain ⟨line, -, hline⟩ := exists_of_mapM_eq_ok hrules hrule
  exact Rule.spans_of_read hline

end Definition

end Multitape
