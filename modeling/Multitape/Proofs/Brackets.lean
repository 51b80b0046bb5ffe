import Multitape.Proofs.Names
import Multitape.Proofs.Reader

/-!
The brackets of a value as the written forms count them. For the forms a quoted stretch ends at its
quote, and a comment at a line feed or a carriage return (`surplus`); here a quoted stretch also
ends with its line, which makes no difference to strings without line feeds. Every reader takes off
as many opening brackets as closing ones (`Keeps`), provided that no string that it finds has a line
feed in it. The symbols of a value are such strings, since they have no white space
(`unbroken_of_symbolOf`). So a value of any key closes every bracket that it opens, unless it is a
string over several lines (`surplus_of_read`).
-/

set_option autoImplicit false
set_option relaxedAutoImplicit false

namespace Multitape.Literal

open Reader

/-- What a place in a value lies within. -/
inductive Within
  | plain
  | quoted (quote : Char)
  | comment
deriving DecidableEq

/-- What a character adds to the number of open brackets. -/
def weight (c : Char) : Int :=
  if c = '[' ∨ c = '(' then 1 else if c = ']' ∨ c = ')' then -1 else 0

/-- How many more brackets a text opens than it closes, from a place on. -/
def surplus : Within → List Char → Int
  | _, [] => 0
  | .plain, c :: rest =>
    if c = '\'' ∨ c = '"' then surplus (.quoted c) rest
    else if c = '#' then surplus .comment rest
    else weight c + surplus .plain rest
  | .quoted q, c :: rest => surplus (if c = q ∨ c = '\n' then .plain else .quoted q) rest
  | .comment, c :: rest => surplus (if c = '\n' ∨ c = '\r' then .plain else .comment) rest

@[simp] theorem surplus_nil (within : Within) : surplus within [] = 0 := by
  cases within <;> rfl

/-- A character that begins neither a quoted stretch nor a comment counts for itself. -/
theorem surplus_plain_cons {c : Char} (hquote : ¬ (c = '\'' ∨ c = '"')) (hhash : c ≠ '#')
    (rest : List Char) : surplus .plain (c :: rest) = weight c + surplus .plain rest := by
  rw [surplus, if_neg hquote, if_neg hhash]

/-- A word without brackets, quotes and number signs counts for nothing. -/
theorem surplus_word_append {w : List Char}
    (h : ∀ c ∈ w, ¬ (c = '\'' ∨ c = '"') ∧ c ≠ '#' ∧ weight c = 0) (rest : List Char) :
    surplus .plain (w ++ rest) = surplus .plain rest := by
  induction w with
  | nil => rfl
  | cons c w ih =>
    obtain ⟨⟨hquote, hhash, hweight⟩, hw⟩ := List.forall_mem_cons.1 h
    rw [List.cons_append, surplus_plain_cons hquote hhash, hweight, ih hw, Int.zero_add]

theorem surplus_quote_cons {q : Char} (hquote : q = '\'' ∨ q = '"') (rest : List Char) :
    surplus .plain (q :: rest) = surplus (.quoted q) rest := by
  rw [surplus, if_pos hquote]

theorem surplus_quoted {q : Char} {content : List Char} (hcontent : q ∉ content)
    (unbroken : '\n' ∉ content) (rest : List Char) :
    surplus (.quoted q) (content ++ q :: rest) = surplus .plain rest := by
  induction content with
  | nil => rw [List.nil_append, surplus, if_pos (.inl rfl)]
  | cons c content ih =>
    obtain ⟨hc, hcontent⟩ := not_or.1 (List.mem_cons.not.1 hcontent)
    obtain ⟨hline, unbroken⟩ := not_or.1 (List.mem_cons.not.1 unbroken)
    rw [List.cons_append, surplus, if_neg (not_or.2 ⟨Ne.symm hc, Ne.symm hline⟩)]
    exact ih hcontent unbroken

theorem surplus_afterGap (text : List Char) :
    surplus .plain text = surplus .plain (afterGap false text) ∧
      surplus .comment text = surplus .plain (afterGap true text) := by
  -- Both together, since comments begin in gaps and end in them.
  induction text with
  | nil => exact ⟨rfl, rfl⟩
  | cons c rest ih =>
    obtain ⟨hplain, hcomment⟩ := ih
    by_cases hend : c = '\n' ∨ c = '\r'
    · have hself : surplus .plain (c :: rest) = surplus .plain rest := by
        rcases hend with rfl | rfl <;> simp [surplus, weight]
      have hended : surplus .comment (c :: rest) = surplus .plain rest := by
        rw [surplus, if_pos hend]
      rw [afterGap, afterGap, if_pos hend, if_pos hend, hself, hended]
      exact ⟨hplain, hplain⟩
    · refine ⟨?_, by rw [afterGap, if_neg hend, if_pos rfl, surplus, if_neg hend, hcomment]⟩
      rw [afterGap, if_neg hend, if_neg Bool.false_ne_true]
      split_ifs with hblank hhash
      · rw [← hplain]
        rcases hblank with rfl | rfl <;> simp [surplus, weight]
      · rw [← hcomment, hhash]
        simp [surplus]
      · rfl

/-! ### Readers -/

/-- The reader takes off as many opening brackets as closing ones if what it finds is as told. -/
def Keeps {α : Type} (p : Reader α) (P : α → Prop) : Prop :=
  ∀ text, p.Ensures text fun a rest ↦ P a → surplus .plain text = surplus .plain rest

variable {α : Type} {item : Reader α} {P : α → Prop}

theorem ensures_gap (text : List Char) :
    gap.Ensures text fun _ rest ↦ surplus .plain text = surplus .plain rest := by
  intro _ rest htake
  rw [gap, take_silent] at htake
  obtain ⟨-, rfl⟩ := Prod.mk.inj (Option.some.inj htake)
  exact (surplus_afterGap text).1

theorem ensures_word {w : List Char} {n : Int}
    (h : ∀ rest, surplus .plain (w ++ rest) = n + surplus .plain rest) (text : List Char) :
    (word w).Ensures text fun _ rest ↦ surplus .plain text = n + surplus .plain rest := by
  intro _ rest htake
  rw [word, take_silent] at htake
  split_ifs at htake with hhead
  obtain ⟨-, rfl⟩ := Prod.mk.inj (Option.some.inj htake)
  obtain ⟨rest, rfl⟩ := List.isPrefixOf_iff_prefix.1 hhead
  rw [List.drop_left, h]

/-- A bracket counts for itself. -/
theorem ensures_bracket {c : Char} (h : c ∈ ['[', '(', ']', ')']) (text : List Char) :
    (word [c]).Ensures text fun _ rest ↦ surplus .plain text = weight c + surplus .plain rest := by
  refine ensures_word (fun rest ↦ surplus_plain_cons ?_ ?_ rest) text
  · rintro (rfl | rfl) <;> simp at h
  · rintro rfl
    simp at h

theorem ensures_optional_word {w : List Char}
    (h : ∀ rest, surplus .plain (w ++ rest) = 0 + surplus .plain rest) (text : List Char) :
    (optional (word w)).Ensures text fun _ rest ↦ surplus .plain text = surplus .plain rest := by
  refine .optional (fun _ rest htake ↦ ?_) rfl
  have := ensures_word h text _ rest htake
  omega

theorem surplus_comma (rest : List Char) :
    surplus .plain ([','] ++ rest) = 0 + surplus .plain rest := by
  rw [surplus_word_append (by simp [weight]), Int.zero_add]

/-- The string has no line feed in it. -/
def Quote.Unbroken (quote : Quote) : Prop := '\n' ∉ quote.content

theorem keeps_string : Keeps string Quote.Unbroken := by
  intro text
  have htaken : (silent takeQuoted fun _ content ↦ content.length + 2).Ensures text
      fun content rest ↦ '\n' ∉ content → surplus .plain text = surplus .plain rest := by
    intro content rest htake
    rw [take_silent] at htake
    obtain ⟨q, hquote, hcontent, rfl⟩ := text_of_takeQuoted htake
    intro unbroken
    rw [surplus_quote_cons hquote.symm, surplus_quoted hcontent unbroken]
  refine Ensures.bind (Ensures.spanned (Q := fun found rest ↦ '\n' ∉ found.1 →
    surplus .plain text = surplus .plain rest) htaken.named) fun found rest hfound ↦ ?_
  exact ensures_pure hfound

theorem keeps_element : Keeps element fun e ↦ ∀ quote ∈ e, quote.Unbroken := by
  intro text
  refine Ensures.named (.either ?_ ?_)
  · refine (keeps_string text).bind fun quote rest hquote ↦ ensures_pure fun unbroken ↦ ?_
    exact hquote (unbroken quote rfl)
  · refine Ensures.named ((ensures_word (w := ['N', 'o', 'n', 'e']) (n := 0) ?_ text).bind
      fun _ rest hword ↦ ensures_pure fun _ ↦ ?_)
    · intro rest
      rw [surplus_word_append (by simp [weight]), Int.zero_add]
    · omega

theorem keeps_nextElement : Keeps nextElement fun e ↦ ∀ quote ∈ e, quote.Unbroken := by
  intro text
  refine (ensures_word surplus_comma text).bind fun _ t₁ hcomma ↦ ?_
  refine (ensures_gap t₁).bind fun _ t₂ hgap e rest htake unbroken ↦ ?_
  have helement := keeps_element t₂ e rest htake unbroken
  omega

theorem Keeps.optional {p : Reader α} (h : Keeps p P) :
    Keeps (optional p) fun found ↦ ∀ a ∈ found, P a := by
  intro text
  refine .optional (fun a rest htake hfound ↦ ?_) fun _ ↦ rfl
  exact h text a rest htake (hfound a rfl)

theorem keeps_tuple : Keeps tuple fun elements ↦ ∀ e ∈ elements, ∀ quote ∈ e, quote.Unbroken := by
  intro text
  have hname : ∀ rest : List Char, surplus .plain (['S', 'y', 'm', 'b', 'o', 'l'] ++ rest) =
      0 + surplus .plain rest := by
    intro rest
    rw [surplus_word_append (by simp [weight]), Int.zero_add]
  refine Ensures.named ?_
  refine (ensures_optional_word hname text).bind fun _ t₁ h₁ ↦ ?_
  refine (ensures_gap t₁).bind fun _ t₂ h₂ ↦ ?_
  refine (ensures_bracket (by decide) t₂).bind fun _ t₃ hopen ↦ ?_
  refine (ensures_gap t₃).bind fun _ t₄ h₄ ↦ ?_
  refine (keeps_element t₄).bind fun first t₅ hfirst ↦ ?_
  refine (ensures_gap t₅).bind fun _ t₆ h₆ ↦ ?_
  refine (keeps_nextElement.optional t₆).bind fun second t₇ hsecond ↦ ?_
  refine (ensures_gap t₇).bind fun _ t₈ h₈ ↦ ?_
  refine (keeps_nextElement.optional t₈).bind fun third t₉ hthird ↦ ?_
  refine (ensures_gap t₉).bind fun _ t₁₀ h₁₀ ↦ ?_
  refine (ensures_optional_word surplus_comma t₁₀).bind fun _ t₁₁ h₁₁ ↦ ?_
  refine (ensures_gap t₁₁).bind fun _ t₁₂ h₁₂ ↦ ?_
  refine (ensures_bracket (by decide) t₁₂).bind fun _ rest hclose ↦ ensures_pure fun unbroken ↦ ?_
  have hweights : weight '(' = 1 ∧ weight ')' = -1 := by decide
  have := hfirst (unbroken first (by simp))
  have := hsecond fun e he ↦ unbroken e (by simp [Option.mem_def.1 he])
  have := hthird fun e he ↦ unbroken e (by simp [Option.mem_def.1 he])
  omega

/-- No string of the form has a line feed in it. -/
def SymbolForm.Unbroken : SymbolForm → Prop
  | bare quote => quote.Unbroken
  | tuple elements _ => ∀ e ∈ elements, ∀ quote ∈ e, quote.Unbroken

theorem keeps_symbol : Keeps symbol SymbolForm.Unbroken := by
  intro text
  refine Ensures.named (.either ?_ ?_)
  · refine Ensures.bind (Ensures.spanned (Q := fun found rest ↦
      (∀ e ∈ found.1, ∀ quote ∈ e, quote.Unbroken) →
        surplus .plain text = surplus .plain rest) (keeps_tuple text)) fun found rest hfound ↦ ?_
    exact ensures_pure hfound
  · exact (keeps_string text).bind fun quote rest hquote ↦ ensures_pure hquote

theorem keeps_items (h : Keeps item P) : Keeps (items item) fun found ↦ ∀ a ∈ found, P a := by
  intro text
  have hnext : ∀ text, (do gap; word [',']; gap; item).Ensures text fun a rest ↦
      P a → surplus .plain text = surplus .plain rest := by
    intro text
    refine (ensures_gap text).bind fun _ t₁ h₁ ↦ ?_
    refine (ensures_word surplus_comma t₁).bind fun _ t₂ h₂ ↦ ?_
    refine (ensures_gap t₂).bind fun _ t₃ h₃ a rest htake hP ↦ ?_
    have := h t₃ a rest htake hP
    omega
  have hmany : ∀ text, (many (do gap; word [',']; gap; item)).Ensures text fun as rest ↦
      (∀ a ∈ as, P a) → surplus .plain text = surplus .plain rest := by
    intro text
    refine ensures_many (R := fun text as rest ↦ (∀ a ∈ as, P a) →
      surplus .plain text = surplus .plain rest) (fun text _ ↦ rfl)
      (fun text a next htake as rest hrest hall ↦ ?_)
    obtain ⟨ha, has⟩ := List.forall_mem_cons.1 hall
    exact (hnext text a next htake ha).trans (hrest has)
  refine (h text).bind fun first t₁ hfirst ↦ ?_
  refine (ensures_gap t₁).bind fun _ t₂ h₂ ↦ ?_
  refine (hmany t₂).bind fun others t₃ hothers ↦ ?_
  refine (ensures_gap t₃).bind fun _ t₄ h₄ ↦ ?_
  refine (ensures_optional_word surplus_comma t₄).bind fun _ rest h₅ ↦ ensures_pure fun hall ↦ ?_
  obtain ⟨ha, has⟩ := List.forall_mem_cons.1 hall
  have := hfirst ha
  have := hothers has
  omega

theorem keeps_listOf (h : Keeps item P) : Keeps (listOf item) fun found ↦ ∀ a ∈ found, P a := by
  intro text
  refine (ensures_bracket (by decide) text).bind fun _ t₁ hopen ↦ ?_
  refine (ensures_gap t₁).bind fun _ t₂ h₂ ↦ ?_
  refine ((keeps_items h).optional t₂).bind fun found t₃ hfound ↦ ?_
  refine (ensures_gap t₃).bind fun _ t₄ h₄ ↦ ?_
  refine (ensures_bracket (by decide) t₄).bind fun _ rest hclose ↦ ensures_pure fun hall ↦ ?_
  have hweights : weight '[' = 1 ∧ weight ']' = -1 := by decide
  have := hfound fun as has ↦ by rwa [Option.mem_def.1 has] at hall
  omega

theorem keeps_symbolList : Keeps symbolList fun forms ↦ ∀ form ∈ forms, form.Unbroken :=
  fun text ↦ (keeps_listOf keeps_symbol text).named

theorem keeps_alphabetList :
    Keeps alphabetList fun lists ↦ ∀ forms ∈ lists, ∀ form ∈ forms, form.Unbroken :=
  fun text ↦ (keeps_listOf keeps_symbolList text).named

theorem surplus_of_digits {digits : List Char} (h : ∀ c ∈ digits, c.isDigit = true)
    (rest : List Char) : surplus .plain (digits ++ rest) = surplus .plain rest := by
  induction digits with
  | nil => rfl
  | cons c digits ih =>
    obtain ⟨hc, hdigits⟩ := List.forall_mem_cons.1 h
    have hother : ∀ d : Char, d.isDigit = false → c ≠ d := by
      rintro d hd rfl
      rw [hc] at hd
      cases hd
    have hquote : ¬ (c = '\'' ∨ c = '"') := not_or.2 ⟨hother _ (by decide), hother _ (by decide)⟩
    have hweight : weight c = 0 := by
      rw [weight, if_neg (not_or.2 ⟨hother _ (by decide), hother _ (by decide)⟩),
        if_neg (not_or.2 ⟨hother _ (by decide), hother _ (by decide)⟩)]
    rw [List.cons_append, surplus_plain_cons hquote (hother _ (by decide)), hweight, ih hdigits]
    omega

theorem keeps_integer : Keeps integer fun _ ↦ True := by
  intro text
  refine Ensures.spanned (Ensures.named fun digits rest htake _ ↦ ?_)
  rw [take_silent, takeDigits] at htake
  split at htake
  · cases htake
  · obtain ⟨-, rfl⟩ := Prod.mk.inj (Option.some.inj htake)
    have hall : ∀ c ∈ text.takeWhile Char.isDigit, c.isDigit = true :=
      fun c hc ↦ List.mem_takeWhile_imp hc
    have hdigits := surplus_of_digits hall (text.dropWhile Char.isDigit)
    rwa [List.takeWhile_append_dropWhile] at hdigits

/-! ### Values -/

theorem surplus_of_readWhole {form : Form} {p : Reader α} (h : Keeps p P) {text : List Char} {a : α}
    (hread : readWhole form p text = .ok a) (ha : P a) : surplus .plain text = 0 := by
  have hwhole : (whole form p).Ensures text fun a _ ↦ P a → surplus .plain text = 0 := by
    refine Ensures.named ?_
    refine (ensures_gap text).bind fun _ t₁ h₁ ↦ ?_
    refine (h t₁).bind fun a t₂ h₂ ↦ ?_
    refine (ensures_gap t₂).bind fun _ t₃ h₃ ↦ ?_
    have hend : endOfText.Ensures t₃ fun _ _ ↦ t₃ = [] := by
      intro _ rest htake
      rw [endOfText, take_named, take_silent] at htake
      split_ifs at htake with hnil
      exact List.isEmpty_iff.1 hnil
    refine hend.bind fun _ rest hnil ↦ ensures_pure fun ha ↦ ?_
    rw [h₁, h₂ ha, h₃, hnil, surplus_nil]
  unfold readWhole at hread
  split at hread
  · next found rest htake =>
    obtain rfl := Except.ok.inj hread
    exact hwhole _ rest htake ha
  · cases hread

theorem unbroken_of_character {quote : Quote} {c : Char} (h : character quote = .ok c) :
    quote.Unbroken := by
  have hsolid := not_white_of_character h
  unfold character at h
  split at h
  · next d hcontent =>
    split_ifs at h
    obtain rfl := Except.ok.inj h
    intro hmem
    rw [hcontent, List.mem_singleton] at hmem
    exact absurd (hmem ▸ hsolid) (by decide)
  · cases h

theorem unbroken_of_elementCharacter {e : Option Quote} {mark : Option Char}
    (h : elementCharacter e = .ok mark) : ∀ quote ∈ e, quote.Unbroken := by
  intro quote hquote
  obtain rfl := Option.mem_def.1 hquote
  simp only [elementCharacter] at h
  split_ifs at h with hempty
  · rw [Quote.Unbroken, List.isEmpty_iff.1 hempty]
    exact List.not_mem_nil
  · obtain ⟨c, hcharacter, -⟩ := bind_eq_ok_iff.1 h
    exact unbroken_of_character hcharacter

theorem unbroken_of_symbolOf {form : SymbolForm} {s : Symbol} (h : symbolOf form = .ok s) :
    form.Unbroken := by
  cases form with
  | bare quote =>
    obtain ⟨c, hcharacter, -⟩ := bind_eq_ok_iff.1 h
    exact unbroken_of_character hcharacter
  | tuple elements span =>
    obtain ⟨marks, hmarks, -⟩ := bind_eq_ok_iff.1 h
    intro e he
    obtain ⟨mark, -, hmark⟩ := exists_value_of_mapM_eq_ok hmarks he
    exact unbroken_of_elementCharacter hmark

theorem unbroken_of_alphabetOf {forms : List SymbolForm} {a : Alphabet}
    (h : alphabetOf forms = .ok a) : ∀ form ∈ forms, form.Unbroken := by
  obtain ⟨symbols, hsymbols, -⟩ := bind_eq_ok_iff.1 h
  intro form hform
  obtain ⟨s, -, hs⟩ := exists_value_of_mapM_eq_ok hsymbols hform
  exact unbroken_of_symbolOf hs

theorem surplus_of_readString {text : List Char} {s : String} (h : readString text = .ok s)
    (unbroken : '\n' ∉ s.toList) : surplus .plain text = 0 := by
  obtain ⟨quote, hquote, h⟩ := bind_eq_ok_iff.1 h
  obtain rfl := Except.ok.inj h
  rw [String.toList_ofList] at unbroken
  exact surplus_of_readWhole keeps_string hquote unbroken

/-- What is a value of a key closes every bracket that it opens, unless it is a string over several
lines. -/
theorem surplus_of_read {key : Definition.Key} {text : List Char} {value : key.Value}
    (h : key.read text = .ok value)
    (unbroken : ∀ s, readString text = .ok s → '\n' ∉ s.toList) : surplus .plain text = 0 := by
  cases key with
  | description => exact surplus_of_readString h (unbroken value h)
  | startState => exact surplus_of_readString h (unbroken value h)
  | acceptState => exact surplus_of_readString h (unbroken value h)
  | rejectState => exact surplus_of_readString h (unbroken value h)
  | tapeCount =>
    obtain ⟨found, hfound, -⟩ := bind_eq_ok_iff.1 h
    exact surplus_of_readWhole keeps_integer hfound trivial
  | blank =>
    obtain ⟨form, hform, h⟩ := bind_eq_ok_iff.1 h
    exact surplus_of_readWhole keeps_symbol hform (unbroken_of_symbolOf h)
  | alphabet =>
    obtain ⟨forms, hforms, h⟩ := bind_eq_ok_iff.1 h
    exact surplus_of_readWhole keeps_symbolList hforms (unbroken_of_alphabetOf h)
  | tapeAlphabets =>
    obtain ⟨lists, hlists, h⟩ := bind_eq_ok_iff.1 h
    refine surplus_of_readWhole keeps_alphabetList hlists ?_
    intro forms hforms
    obtain ⟨a, -, ha⟩ := exists_value_of_mapM_eq_ok h hforms
    exact unbroken_of_alphabetOf ha

end Multitape.Literal
