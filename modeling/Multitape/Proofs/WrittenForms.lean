import Multitape.Proofs.Proper
import Multitape.Proofs.Sections
import Mathlib.Data.List.Infix

/-!
Symbols and rules as they are written. What is read from a written form is written the same way
again, apart from white space. The other way round a symbol with one mark needs the alphabet to tell
its base from the mark (`Symbol.read_written_iff`), and a target needs a name that stands for itself
(`Rule.resolveTarget_of_stands`). The words of a line do not depend on the white space between them
(`Text.words_of_spaced`), so a rule whose parts can all be read back is read from any line that has
its words on it, and no other rule is read from a line (`Rule.line_round_trip`).
-/

set_option autoImplicit false
set_option relaxedAutoImplicit false

namespace Multitape

/-! ### Words of a line -/

namespace Text

/-- A word of a line. -/
def IsWord (word : List Char) : Prop := word ≠ [] ∧ ∀ c ∈ word, isWhite c = false

instance (word : List Char) : Decidable (IsWord word) :=
  decidable_of_iff (word ≠ [] ∧ word.all (!isWhite ·) = true) (by simp [IsWord])

/-- The line has the words on it in their order, with white space between any two of them, and
perhaps before the first and behind the last. -/
inductive Spaced : List (List Char) → List Char → Prop
  | blank {gap : List Char} (white : ∀ c ∈ gap, isWhite c = true) : Spaced [] gap
  | word {gap word rest : List Char} {words : List (List Char)}
    (white : ∀ c ∈ gap, isWhite c = true)
    (apart : words ≠ [] → ∃ c ∈ rest.head?, isWhite c = true) (h : Spaced words rest) :
    Spaced (word :: words) (gap ++ (word ++ rest))

variable {gap word rest line begun : List Char}

theorem words_append_of_white (white : ∀ c ∈ gap, isWhite c = true) :
    words (gap ++ rest) = words rest := by
  induction gap with
  | nil => rfl
  | cons c gap ih =>
    obtain ⟨hc, hgap⟩ := List.forall_mem_cons.1 white
    rw [← ih hgap, words, List.cons_append, wordsFrom, if_pos hc]
    rfl

theorem wordsFrom_append_of_solid (solid : ∀ c ∈ word, isWhite c = false) :
    wordsFrom begun (word ++ rest) = wordsFrom (word.reverse ++ begun) rest := by
  induction word generalizing begun with
  | nil => rfl
  | cons c word ih =>
    obtain ⟨hc, hword⟩ := List.forall_mem_cons.1 solid
    rw [List.cons_append, wordsFrom, if_neg (by simp [hc]), ih hword]
    simp

/-- A word ends where white space follows, or nothing. -/
theorem words_append_of_isWord (h : IsWord word) (apart : ∀ c ∈ rest.head?, isWhite c = true) :
    words (word ++ rest) = word :: words rest := by
  rw [words, wordsFrom_append_of_solid h.2, List.append_nil]
  cases rest with
  | nil => simp [wordsFrom, words, h.1]
  | cons c rest =>
    have hc : isWhite c = true := apart c rfl
    simp [wordsFrom, words, hc, h.1]

theorem words_of_spaced {ws : List (List Char)} (h : Spaced ws line)
    (hwords : ∀ word ∈ ws, IsWord word) : words line = ws := by
  induction h with
  | @blank gap white =>
    rw [← List.append_nil gap, words_append_of_white white]
    rfl
  | @word gap word rest ws white apart h ih =>
    obtain ⟨hword, hws⟩ := List.forall_mem_cons.1 hwords
    have hhead : ∀ c ∈ rest.head?, isWhite c = true := by
      intro c hc
      by_cases hnil : ws = []
      · subst hnil
        cases h with
        | blank hrest => exact hrest c (List.mem_of_mem_head? hc)
      · obtain ⟨d, hd, hwhite⟩ := apart hnil
        rwa [Option.mem_unique hc hd]
    rw [words_append_of_white white, words_append_of_isWord hword hhead, ih hws]

theorem hasWord_iff {word text : List Char} : hasWord word text = true ↔ word <:+: text := by
  induction text with
  | nil => simp [hasWord]
  | cons c text ih =>
    rw [hasWord, Bool.or_eq_true, ih, List.isPrefixOf_iff_prefix, List.infix_cons_iff]

end Text

/-! ### Symbols -/

namespace Symbol

variable {alphabet : Alphabet} {s : Symbol}

theorem toList_toString (s : Symbol) : (toString s).toList = s.written := String.toList_ofList

/-- The symbol has this mark and no other. -/
def MarkedOnce (s : Symbol) (mark : Char) : Prop :=
  s.above = some mark ∧ s.below = none ∨ s.above = none ∧ s.below = some mark

/-- What holds of the mark of every symbol that has just one. -/
theorem forall_markedOnce_iff {P : Char → Prop} :
    (∀ mark, s.MarkedOnce mark → P mark) ↔
      s.isMarked = false ∨ (s.above.isSome ∧ s.below.isSome) ∨
        ∃ mark, s.MarkedOnce mark ∧ P mark := by
  obtain ⟨base, above, below⟩ := s
  cases above <;> cases below <;> simp [MarkedOnce, isMarked]

/-- A symbol is read back from its written form unless the alphabet does not tell its base from its
only mark. -/
theorem read_written_iff (solid : s.Solid) : read alphabet s.written = .ok s ↔
    ∀ mark, s.MarkedOnce mark →
      alphabet.hasBase s.base = true ∧ alphabet.hasBase mark = false := by
  obtain ⟨base, above, below⟩ := s
  rw [read, Text.trim_of_solid solid]
  cases above with
  | none =>
    cases below with
    | none => simp [written, MarkedOnce, plain]
    | some mark =>
      cases hbase : alphabet.hasBase base <;> cases hmark : alphabet.hasBase mark <;>
        simp [written, MarkedOnce, hbase, hmark]
  | some mark =>
    cases below with
    | none =>
      cases hbase : alphabet.hasBase base <;> cases hmark : alphabet.hasBase mark <;>
        simp [written, MarkedOnce, hbase, hmark]
    | some other => simp [written, MarkedOnce]

theorem hasBase_base (h : s ∈ alphabet.symbols) : alphabet.hasBase s.base = true :=
  List.any_eq_true.2 ⟨s, h, beq_self_eq_true _⟩

/-- What is read is written as it stood in the text. What is written is read back exactly if the
alphabet tells the base from the mark where there is just one mark. So the symbols of an alphabet
are all read back exactly if no only mark of theirs is also a base. -/
theorem written_form_round_trip :
    (∀ (alphabet : Alphabet) (text : List Char) (s : Symbol), read alphabet text = .ok s →
      (toString s).toList = Text.trim text) ∧
    (∀ (alphabet : Alphabet) (s : Symbol), s.Solid →
      (read alphabet (toString s).toList = .ok s ↔
        s.isMarked = false ∨ (s.above.isSome ∧ s.below.isSome) ∨
          ∃ mark, s.MarkedOnce mark ∧ alphabet.hasBase s.base = true ∧
            alphabet.hasBase mark = false)) ∧
    ∀ alphabet : Alphabet,
      (∀ s ∈ alphabet.symbols, s.Solid → read alphabet (toString s).toList = .ok s) ↔
        ∀ s ∈ alphabet.symbols, s.Solid → ∀ mark, s.MarkedOnce mark →
          alphabet.hasBase mark = false := by
  simp only [toList_toString]
  refine ⟨fun alphabet text s h ↦ written_of_read h, fun alphabet s solid ↦ ?_, fun alphabet ↦ ?_⟩
  · rw [read_written_iff solid, forall_markedOnce_iff]
  · refine forall₂_congr fun s hs ↦ forall_congr' fun solid ↦ ?_
    rw [read_written_iff solid]
    simp only [hasBase_base hs, true_and]

/-- An alphabet with dotted digits. The star is a symbol, and marks one of the others on both
sides. -/
def dottedDigits : Alphabet :=
  .ofList [.plain 'B', ⟨'0', some '.', none⟩, ⟨'1', none, some '.'⟩, .plain '*',
    ⟨'0', some '*', some '*'⟩]

theorem dottedDigits_round_trip :
    (read dottedDigits ['\t', '.', '0', ' '] = .ok ⟨'0', some '.', none⟩ ∧
      (toString (⟨'0', some '.', none⟩ : Symbol)).toList = Text.trim ['\t', '.', '0', ' ']) ∧
    ((⟨'0', some '*', none⟩ : Symbol).Solid ∧
      read dottedDigits (toString (⟨'0', some '*', none⟩ : Symbol)).toList ≠
        .ok ⟨'0', some '*', none⟩) ∧
    ∀ s ∈ dottedDigits.symbols, s.Solid → read dottedDigits (toString s).toList = .ok s := by
  obtain ⟨hread, hback, hall⟩ := written_form_round_trip
  have hdot : read dottedDigits ['\t', '.', '0', ' '] = .ok ⟨'0', some '.', none⟩ := by decide
  have hstar : (⟨'0', some '*', none⟩ : Symbol).Solid := by decide
  refine ⟨⟨hdot, hread _ _ _ hdot⟩, ⟨hstar, fun h ↦ ?_⟩, (hall _).2 fun s hs _ mark hmark ↦ ?_⟩
  · have hambiguous : dottedDigits.hasBase '*' = true := by decide
    simpa [isMarked, MarkedOnce, hambiguous] using (hback _ _ hstar).1 h
  · have hmarks : ∀ s ∈ dottedDigits.symbols,
        s.above.isSome ∧ s.below.isSome ∨
          (s.above.toList ++ s.below.toList).all (!dottedDigits.hasBase ·) = true := by decide
    rcases hmarks s hs with ⟨habove, hbelow⟩ | hmarks
    · rcases hmark with ⟨-, hnone⟩ | ⟨hnone, -⟩ <;> simp_all
    · rcases hmark with ⟨habove, hbelow⟩ | ⟨habove, hbelow⟩ <;> simpa [habove, hbelow] using hmarks

end Symbol

/-! ### Rules -/

theorem Direction.toList_toString (d : Direction) : (toString d).toList = [d.letter] := by
  cases d <;> decide

theorem Direction.ofToken?_letter (d : Direction) : ofToken? [d.letter] = some d := by
  cases d <;> rfl

namespace Rule

open Text

variable {alphabets : List Alphabet} {acceptState rejectState : String} {rule : Rule}

/-- The symbol is read back from its written form, through the alphabet. -/
structure Legible (alphabet : Alphabet) (s : Symbol) : Prop where
  solid : s.Solid
  read : Symbol.read alphabet (toString s).toList = .ok s

/-- The name of a state that rules can lead to. A terminal state has its verdict. Every other name
is a word which is not taken for one of the terminal states. -/
inductive Stands (acceptState rejectState : String) : String → Option Verdict → Prop
  | accept : Stands acceptState rejectState acceptState (some .accept)
  | reject : Stands acceptState rejectState rejectState (some .reject)
  | running {name : String} (word : IsWord name.toList) (notAccept : name ≠ acceptState)
    (notReject : name ≠ rejectState) (unlikeAccept : ¬"accept".toList <:+: lowercase name.toList)
    (unlikeReject : ¬"reject".toList <:+: lowercase name.toList) :
    Stands acceptState rejectState name none

/-- The rule has for every tape an input and an output that its alphabet reads back, and a move, and
its states are called by names that stand for them. -/
structure Writable (alphabets : List Alphabet) (acceptState rejectState : String) (rule : Rule) :
    Prop where
  source : IsWord rule.source.toList
  inputs : List.Forall₂ Legible alphabets rule.inputs
  target : Stands acceptState rejectState rule.target rule.terminal
  outputs : List.Forall₂ Legible alphabets rule.outputs
  moves : rule.moves.length = alphabets.length

/-- The words of the line that writes the rule. -/
def tokens (rule : Rule) : List (List Char) :=
  rule.source.toList :: (rule.inputs.map (fun s ↦ (toString s).toList) ++
    rule.target.toList :: (rule.outputs.map (fun s ↦ (toString s).toList) ++
      rule.moves.map fun d ↦ (toString d).toList))

/-! ### Reading what is written -/

theorem readSymbols_of_legible {symbols : List Symbol}
    (h : List.Forall₂ Legible alphabets symbols) :
    readSymbols alphabets (symbols.map fun s ↦ (toString s).toList) = .ok symbols := by
  induction h with
  | nil => rfl
  | cons hs _ ih =>
    simp only [List.map_cons, readSymbols, hs.read, ih]
    rfl

theorem readMoves_letters (line : String) (moves : List Direction) :
    readMoves line (moves.map fun d ↦ (toString d).toList) = .ok moves := by
  induction moves with
  | nil => rfl
  | cons d moves ih =>
    rw [List.map_cons, readMoves, Direction.toList_toString, Direction.ofToken?_letter]
    simp only [ih]
    rfl

theorem resolveTarget_of_stands {name : String} {terminal : Option Verdict}
    (distinct : acceptState ≠ rejectState) (h : Stands acceptState rejectState name terminal) :
    resolveTarget acceptState rejectState name.toList = (name, terminal) := by
  unfold resolveTarget
  simp only [String.ofList_toList]
  cases h with
  | accept => rw [if_pos rfl]
  | reject => rw [if_neg distinct.symm, if_pos rfl]
  | running word notAccept notReject unlikeAccept unlikeReject =>
    rw [← hasWord_iff, String.toList_ofList] at unlikeAccept unlikeReject
    rw [if_neg notAccept, if_neg notReject, if_neg unlikeAccept, if_neg unlikeReject]

theorem read_of_parts {line : List Char} {parts : Parts}
    (hparts : Parts.ofTokens? alphabets.length (words line) = some parts)
    (hsource : rule.source = String.ofList parts.source)
    (hinputs : readSymbols alphabets parts.inputs = .ok rule.inputs)
    (htarget : (rule.target, rule.terminal) = resolveTarget acceptState rejectState parts.target)
    (houtputs : readSymbols alphabets parts.outputs = .ok rule.outputs)
    (hmoves : readMoves (String.ofList (trim line)) parts.moves = .ok rule.moves) :
    Rule.read alphabets acceptState rejectState line = .ok rule := by
  simp only [Rule.read, hparts, hinputs, houtputs, hmoves, ← htarget, ← hsource]
  rfl

theorem isWord_of_solid {s : Symbol} (solid : s.Solid) : IsWord (toString s).toList := by
  rw [Symbol.toList_toString]
  exact ⟨by simp [Symbol.written], solid⟩

theorem solid_of_legible {symbols : List Symbol} (h : List.Forall₂ Legible alphabets symbols) :
    ∀ s ∈ symbols, s.Solid := by
  induction h with
  | nil => simp
  | cons hs _ ih => exact List.forall_mem_cons.2 ⟨hs.solid, ih⟩

theorem Stands.isWord {name : String} {terminal : Option Verdict}
    (haccept : IsWord acceptState.toList) (hreject : IsWord rejectState.toList)
    (h : Stands acceptState rejectState name terminal) : IsWord name.toList := by
  cases h with
  | accept => exact haccept
  | reject => exact hreject
  | running word => exact word

theorem isWord_of_mem_tokens (haccept : IsWord acceptState.toList)
    (hreject : IsWord rejectState.toList) (h : rule.Writable alphabets acceptState rejectState) :
    ∀ word ∈ rule.tokens, IsWord word := by
  have hmove : ∀ d : Direction, IsWord (toString d).toList := by
    intro d
    rw [Direction.toList_toString]
    cases d <;> decide
  intro word hword
  simp only [tokens, List.mem_cons, List.mem_append, List.mem_map] at hword
  rcases hword with rfl | ⟨s, hs, rfl⟩ | rfl | ⟨s, hs, rfl⟩ | ⟨d, -, rfl⟩
  · exact h.source
  · exact isWord_of_solid (solid_of_legible h.inputs s hs)
  · exact h.target.isWord haccept hreject
  · exact isWord_of_solid (solid_of_legible h.outputs s hs)
  · exact hmove d

theorem read_of_spaced {line : List Char} (distinct : acceptState ≠ rejectState)
    (haccept : IsWord acceptState.toList) (hreject : IsWord rejectState.toList)
    (h : rule.Writable alphabets acceptState rejectState) (spaced : Spaced rule.tokens line) :
    Rule.read alphabets acceptState rejectState line = .ok rule := by
  have hwords : words line = rule.tokens :=
    words_of_spaced spaced (isWord_of_mem_tokens haccept hreject h)
  let parts : Parts := ⟨rule.source.toList, rule.inputs.map fun s ↦ (toString s).toList,
    rule.target.toList, rule.outputs.map fun s ↦ (toString s).toList,
    rule.moves.map fun d ↦ (toString d).toList⟩
  have hparts : Parts.ofTokens? alphabets.length (words line) = some parts := by
    refine Parts.ofTokens?_eq_some_iff.2 ⟨hwords, ?_, ?_, ?_⟩
    · rw [List.length_map, h.inputs.length_eq]
    · rw [List.length_map, h.outputs.length_eq]
    · rw [List.length_map, h.moves]
  exact read_of_parts hparts String.ofList_toList.symm (readSymbols_of_legible h.inputs)
    (resolveTarget_of_stands distinct h.target).symm (readSymbols_of_legible h.outputs)
    (readMoves_letters _ _)

/-! ### Writing what is read -/

theorem stands_of_resolveTarget {token : List Char} {name : String} {terminal : Option Verdict}
    (word : IsWord token) (h : (name, terminal) = resolveTarget acceptState rejectState token) :
    Stands acceptState rejectState name terminal := by
  unfold resolveTarget at h
  dsimp only at h
  split_ifs at h with haccept hreject hlikeAccept hlikeReject <;> obtain ⟨rfl, rfl⟩ := h
  · exact .accept
  · exact .reject
  · exact .accept
  · exact .reject
  · rw [hasWord_iff] at hlikeAccept hlikeReject
    refine .running ?_ haccept hreject ?_ ?_
    · rwa [String.toList_ofList]
    · rwa [String.toList_ofList, String.toList_ofList]
    · rwa [String.toList_ofList, String.toList_ofList]

theorem legible_of_read {alphabet : Alphabet} {token : List Char} {s : Symbol}
    (word : IsWord token) (h : Symbol.read alphabet token = .ok s) : Legible alphabet s := by
  have hwritten : (toString s).toList = token := by
    rw [Symbol.toList_toString, Symbol.written_of_read h, trim_of_solid word.2]
  exact ⟨Symbol.solid_of_read h word.2, by rwa [hwritten]⟩

theorem legible_of_readSymbols {tokens : List (List Char)} {symbols : List Symbol}
    (hlength : tokens.length = alphabets.length) (hwords : ∀ token ∈ tokens, IsWord token)
    (h : readSymbols alphabets tokens = .ok symbols) : List.Forall₂ Legible alphabets symbols := by
  induction alphabets generalizing tokens symbols with
  | nil =>
    obtain rfl : symbols = [] := by simpa [readSymbols, eq_comm] using h
    exact .nil
  | cons alphabet alphabets ih =>
    cases tokens with
    | nil => simp at hlength
    | cons token tokens =>
      obtain ⟨hword, hwords⟩ := List.forall_mem_cons.1 hwords
      obtain ⟨first, hfirst, h⟩ := bind_eq_ok_iff.1 h
      obtain ⟨rest, hrest, h⟩ := bind_eq_ok_iff.1 h
      obtain rfl := Except.ok.inj h
      exact .cons (legible_of_read hword (mapError_eq_ok_iff.1 hfirst))
        (ih (by simpa using hlength) hwords hrest)

theorem writable_of_read {line : List Char}
    (h : Rule.read alphabets acceptState rejectState line = .ok rule) :
    rule.Writable alphabets acceptState rejectState := by
  obtain ⟨parts, hparts, hsource, hinputs, htarget, houtputs, hmoves⟩ := parts_of_read h
  obtain ⟨htokens, linputs, loutputs, lmoves⟩ := Parts.ofTokens?_eq_some_iff.1 hparts
  have hwords : ∀ token ∈ words line, IsWord token := fun token htoken ↦ mem_words htoken
  rw [htokens] at hwords
  refine ⟨?_, ?_, stands_of_resolveTarget (hwords parts.target (by simp)) htarget, ?_, ?_⟩
  · rw [hsource, String.toList_ofList]
    exact hwords parts.source (by simp)
  · exact legible_of_readSymbols linputs (fun token h ↦ hwords token (by simp [h])) hinputs
  · exact legible_of_readSymbols loutputs (fun token h ↦ hwords token (by simp [h])) houtputs
  · rw [length_of_readMoves hmoves, lmoves]

/-- A rule is read from every line that has its words on it, if its names and symbols are such as
rules are written with. There are no others: each rule that is read from a line is such a rule, so
it is read from the line that writes it as well. -/
theorem line_round_trip (alphabets : List Alphabet) {acceptState rejectState : String}
    (distinct : acceptState ≠ rejectState) (haccept : IsWord acceptState.toList)
    (hreject : IsWord rejectState.toList) (rule : Rule) :
    (rule.Writable alphabets acceptState rejectState → ∀ line, Spaced rule.tokens line →
      Rule.read alphabets acceptState rejectState line = .ok rule) ∧
    ∀ line, Rule.read alphabets acceptState rejectState line = .ok rule →
      rule.Writable alphabets acceptState rejectState ∧
        ∀ again, Spaced rule.tokens again →
          Rule.read alphabets acceptState rejectState again = .ok rule := by
  have hread : rule.Writable alphabets acceptState rejectState → ∀ line, Spaced rule.tokens line →
      Rule.read alphabets acceptState rejectState line = .ok rule :=
    fun h line spaced ↦ read_of_spaced distinct haccept hreject h spaced
  refine ⟨hread, fun line h ↦ ?_⟩
  have hwritable := writable_of_read h
  exact ⟨hwritable, hread hwritable⟩

/-- A rule for two tapes that marks a digit of the first and ends the run. -/
def markingRule : Rule where
  source := "q0"
  inputs := [⟨'0', some '.', none⟩, .plain '1']
  target := "yes"
  outputs := [⟨'0', some '*', some '*'⟩, .plain '0']
  moves := [.right, .stay]
  terminal := some .accept

def markingAlphabets : List Alphabet := [Symbol.dottedDigits, .binary]

theorem markingRule_round_trip :
    ("yes" ≠ "no" ∧ IsWord "yes".toList ∧ IsWord "no".toList) ∧
    Rule.read markingAlphabets "yes" "no" "q0 .0 1 qAccept *0* 0 right still".toList =
      .ok markingRule ∧
    markingRule.Writable markingAlphabets "yes" "no" ∧
    Spaced markingRule.tokens "\u00a0q0\t.0 1  yes *0* 0 R S\r".toList ∧
    Rule.read markingAlphabets "yes" "no" "\u00a0q0\t.0 1  yes *0* 0 R S\r".toList =
      .ok markingRule := by
  have haccept : IsWord "yes".toList := by
    rw [String.toList_ofList]
    decide
  have hreject : IsWord "no".toList := by
    rw [String.toList_ofList]
    decide
  have distinct : "yes" ≠ "no" := by decide
  obtain ⟨hwritten, hread⟩ :=
    line_round_trip markingAlphabets distinct haccept hreject markingRule
  have halias : Rule.read markingAlphabets "yes" "no"
      "q0 .0 1 qAccept *0* 0 right still".toList = .ok markingRule := by
    rw [String.toList_ofList]
    rfl
  have hwritable := (hread _ halias).1
  have hspaced : Spaced markingRule.tokens "\u00a0q0\t.0 1  yes *0* 0 R S\r".toList := by
    have htokens : markingRule.tokens = [['q', '0'], ['.', '0'], ['1'], ['y', 'e', 's'],
        ['*', '0', '*'], ['0'], ['R'], ['S']] := by
      simp [tokens, markingRule, Symbol.toList_toString, Symbol.written, Symbol.plain,
        Direction.toList_toString, Direction.letter]
    rw [htokens, String.toList_ofList]
    have step (gap : List Char) {c : Char} {word rest : List Char} {words : List (List Char)}
        (white : gap.all isWhite = true) (hc : isWhite c = true)
        (h : Spaced words (c :: rest)) : Spaced (word :: words) (gap ++ (word ++ c :: rest)) :=
      .word (List.all_eq_true.1 white) (fun _ ↦ ⟨c, rfl, hc⟩) h
    exact step ['\u00a0'] rfl rfl <| step ['\t'] rfl rfl <| step [' '] rfl rfl <|
      step [' ', ' '] rfl rfl <| step [' '] rfl rfl <| step [' '] rfl rfl <|
      step [' '] rfl rfl <| step [' '] rfl rfl <| .blank (List.all_eq_true.1 rfl)
  exact ⟨⟨distinct, haccept, hreject⟩, halias, hwritable, hspaced, hwritten hwritable _ hspaced⟩

end Rule

end Multitape
