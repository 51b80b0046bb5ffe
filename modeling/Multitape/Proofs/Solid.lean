import Multitape.Literal
import Multitape.Rule
import Multitape.Proofs.Except

/-!
Symbols without white space. A word of a line has no white space in it and at least one character
(`mem_words`), and the written form of a symbol that is read from it is the word itself
(`written_of_read`), so the symbols of a rule are free of white space. The symbols of a value are so
because the characters of a literal are checked one by one (`solid_of_symbolOf`).
-/

set_option autoImplicit false
set_option relaxedAutoImplicit false

namespace Multitape

/-! ### Words -/

namespace Text

theorem mem_wordsFrom {begun text word : List Char} (solid : ∀ c ∈ begun, isWhite c = false)
    (h : word ∈ wordsFrom begun text) : word ≠ [] ∧ ∀ c ∈ word, isWhite c = false := by
  induction text generalizing begun with
  | nil =>
    by_cases hempty : begun = []
    · simp [wordsFrom, hempty] at h
    · obtain rfl : word = begun.reverse := by simpa [wordsFrom, hempty] using h
      exact ⟨by simpa using hempty, by simpa using solid⟩
  | cons c rest ih =>
    by_cases hwhite : isWhite c = true
    · by_cases hempty : begun = []
      · simp only [wordsFrom, hwhite, hempty, List.isEmpty_nil, if_true] at h
        exact ih (by simp) h
      · simp only [wordsFrom, hwhite, List.isEmpty_eq_false_iff.2 hempty, if_true,
          Bool.false_eq_true, if_false, List.mem_cons] at h
        rcases h with rfl | h
        · exact ⟨by simpa using hempty, by simpa using solid⟩
        · exact ih (by simp) h
    · rw [wordsFrom, if_neg hwhite] at h
      refine ih ?_ h
      intro d hd
      rcases List.mem_cons.1 hd with rfl | hd
      · simpa using hwhite
      · exact solid d hd

/-- A word has a character, and none that is white space. -/
theorem mem_words {text word : List Char} (h : word ∈ words text) :
    word ≠ [] ∧ ∀ c ∈ word, isWhite c = false :=
  mem_wordsFrom (by simp) h

theorem mem_of_mem_trim {text : List Char} {c : Char} (h : c ∈ trim text) : c ∈ text := by
  have hend : c ∈ trimStart text := by
    have := (List.dropWhile_sublist _).subset (List.mem_reverse.1 h)
    exact List.mem_reverse.1 this
  exact (List.dropWhile_sublist _).subset hend

end Text

/-! ### Symbols -/

namespace Symbol

/-- Neither the base of the symbol nor a mark on it is white space. -/
def Solid (s : Symbol) : Prop := ∀ c ∈ s.written, Text.isWhite c = false

instance (s : Symbol) : Decidable s.Solid := List.decidableBAll _ s.written

theorem solid_iff {s : Symbol} : s.Solid ↔ Text.isWhite s.base = false ∧
    (∀ c ∈ s.above, Text.isWhite c = false) ∧ ∀ c ∈ s.below, Text.isWhite c = false := by
  simp only [Solid, written, List.mem_append, Option.mem_toList, List.mem_cons]
  constructor
  · intro h
    exact ⟨h _ (.inr (.inl rfl)), fun c hc ↦ h c (.inl hc), fun c hc ↦ h c (.inr (.inr hc))⟩
  · rintro ⟨hbase, habove, hbelow⟩ c (hc | rfl | hc)
    · exact habove c hc
    · exact hbase
    · exact hbelow c hc

theorem solid_plain {base : Char} : (plain base).Solid ↔ Text.isWhite base = false := by
  simp [solid_iff, plain]

/-- A symbol that is read is written as it stood there, without the white space around it. -/
theorem written_of_read {alphabet : Alphabet} {text : List Char} {s : Symbol}
    (h : read alphabet text = .ok s) : s.written = Text.trim text := by
  unfold read at h
  split at h
  · next base htext =>
    obtain rfl := Except.ok.inj h
    rw [htext]
    rfl
  · next first second htext =>
    split at h
    · obtain rfl := Except.ok.inj h
      rw [htext]
      rfl
    · obtain rfl := Except.ok.inj h
      rw [htext]
      rfl
    · cases h
  · next above base below htext =>
    obtain rfl := Except.ok.inj h
    rw [htext]
    rfl
  · cases h

theorem solid_of_read {alphabet : Alphabet} {text : List Char} {s : Symbol}
    (h : read alphabet text = .ok s) (solid : ∀ c ∈ text, Text.isWhite c = false) : s.Solid := by
  intro c hc
  rw [written_of_read h] at hc
  exact solid c (Text.mem_of_mem_trim hc)

end Symbol

/-- The symbols of the alphabet are free of white space. -/
def Alphabet.Solid (a : Alphabet) : Prop := ∀ s ∈ a.symbols, s.Solid

instance (a : Alphabet) : Decidable a.Solid := List.decidableBAll _ a.symbols

theorem Alphabet.solid_ofList {symbols : List Symbol} :
    (ofList symbols).Solid ↔ ∀ s ∈ symbols, s.Solid := by
  simp only [Solid, ofList, Symbol.mem_distinct]

theorem Alphabet.solid_binaryWith {blank : Symbol} (solid : blank.Solid) :
    (binaryWith blank).Solid := by
  rw [binaryWith, solid_ofList]
  intro s hs
  rcases List.mem_cons.1 hs with rfl | hs
  · exact solid
  · rcases List.mem_pair.1 hs with rfl | rfl <;> decide

/-! ### Literals -/

namespace Literal

theorem not_white_of_character {quote : Quote} {c : Char} (h : character quote = .ok c) :
    Text.isWhite c = false := by
  unfold character at h
  split at h
  · split_ifs at h with hwhite
    obtain rfl := Except.ok.inj h
    simpa using hwhite
  · cases h

theorem not_white_of_elementCharacter {element : Option Quote} {mark : Option Char}
    (h : elementCharacter element = .ok mark) : ∀ c ∈ mark, Text.isWhite c = false := by
  intro c hc
  obtain rfl := Option.mem_def.1 hc
  cases element with
  | none => simp [elementCharacter] at h
  | some quote =>
    simp only [elementCharacter] at h
    split_ifs at h with hempty
    · cases h
    · obtain ⟨c', hcharacter, h⟩ := bind_eq_ok_iff.1 h
      obtain rfl : c' = c := by simpa [pure, Except.pure] using h
      exact not_white_of_character hcharacter

theorem solid_of_symbolOf {form : SymbolForm} {s : Symbol} (h : symbolOf form = .ok s) :
    s.Solid := by
  cases form with
  | bare quote =>
    obtain ⟨c, hcharacter, h⟩ := bind_eq_ok_iff.1 h
    obtain rfl := Except.ok.inj h
    exact Symbol.solid_plain.2 (not_white_of_character hcharacter)
  | tuple elements span =>
    obtain ⟨marks, hmarks, h⟩ := bind_eq_ok_iff.1 h
    have hsolid : ∀ mark ∈ marks, ∀ c ∈ mark, Text.isWhite c = false := by
      intro mark hmark
      obtain ⟨element, -, helement⟩ := exists_of_mapM_eq_ok hmarks hmark
      exact not_white_of_elementCharacter helement
    cases marks with
    | nil => cases h
    | cons first marks =>
      cases first with
      | none => cases h
      | some base =>
        obtain rfl := Except.ok.inj h
        have hrest : ∀ i : Nat, ∀ c ∈ (marks[i]?).join, Text.isWhite c = false := by
          intro i c hc
          have hmem := List.mem_of_getElem? (Option.join_eq_some_iff.1 hc)
          exact hsolid _ (List.mem_cons_of_mem _ hmem) c rfl
        exact Symbol.solid_iff.2 ⟨hsolid _ List.mem_cons_self base rfl, hrest 0, hrest 1⟩

theorem solid_of_alphabetOf {forms : List SymbolForm} {a : Alphabet}
    (h : alphabetOf forms = .ok a) : a.Solid := by
  obtain ⟨symbols, hsymbols, h⟩ := bind_eq_ok_iff.1 h
  obtain rfl := Except.ok.inj h
  rw [Alphabet.solid_ofList]
  intro s hs
  obtain ⟨form, -, hform⟩ := exists_of_mapM_eq_ok hsymbols hs
  exact solid_of_symbolOf hform

theorem solid_of_readSymbol {text : List Char} {s : Symbol} (h : readSymbol text = .ok s) :
    s.Solid := by
  obtain ⟨form, -, h⟩ := bind_eq_ok_iff.1 h
  exact solid_of_symbolOf h

theorem solid_of_readAlphabet {text : List Char} {a : Alphabet} (h : readAlphabet text = .ok a) :
    a.Solid := by
  obtain ⟨forms, -, h⟩ := bind_eq_ok_iff.1 h
  exact solid_of_alphabetOf h

theorem solid_of_readAlphabets {text : List Char} {alphabets : List Alphabet}
    (h : readAlphabets text = .ok alphabets) : ∀ a ∈ alphabets, a.Solid := by
  obtain ⟨lists, -, h⟩ := bind_eq_ok_iff.1 h
  intro a ha
  obtain ⟨forms, -, hforms⟩ := exists_of_mapM_eq_ok h ha
  exact solid_of_alphabetOf hforms

end Literal

end Multitape
