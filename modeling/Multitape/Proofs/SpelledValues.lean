import Multitape.Proofs.Except
import Multitape.Proofs.Reader
import Multitape.Proofs.Spelling

/-!
Values read from what spells them. At the tokens that spell a form every reader takes exactly these
off, however the text lays them out, and what it finds is what they spell (`Reads`). This is shown
reader by reader, from words and quoted strings up to symbols (`reads_symbol`), lists of what is
read already (`reads_listOf`), and last all of a text (`readAlphabet_of_layout`,
`readAlphabets_of_layout`).
-/

set_option autoImplicit false
set_option relaxedAutoImplicit false

namespace Multitape.Literal

variable {α β : Type}

open Reader

/-! ### Gaps, words and quoted strings -/

variable {t u : Token} {ts more : List Token} {text : List Char}

theorem yields_gap {Q : Unit → List Char → Prop} (layout : Layout ts text)
    (h : ∀ rest, Facing ts rest → Q () rest) : gap.Yields text Q :=
  ⟨(), _, by simp [gap], h _ layout.facing⟩

theorem take_word_append (w rest : List Char) : (word w).take (w ++ rest) = some ((), rest) := by
  simp [word]

theorem take_word_eq_none {c d : Char} {w rest : List Char} (h : c ≠ d) :
    (word (c :: w)).take (d :: rest) = none := by
  simp [word, h]

theorem yields_word {Q : Unit → List Char → Prop} (facing : Facing (t :: ts) text)
    (h : ∀ rest, Layout ts rest → Q () rest) : (word t.text).Yields text Q := by
  cases facing with
  | cons layout => exact ⟨(), _, take_word_append _ _, h _ layout⟩

/-- The reader finds nothing to take off where the token is. -/
def Misses (p : Reader α) (t : Token) : Prop :=
  ∀ ts text, Facing (t :: ts) text → p.take text = none

theorem misses_word (h : t.text.head? ≠ u.text.head?) : Misses (word t.text) u := by
  intro ts text facing
  obtain ⟨c, -, rest, ht⟩ := t.exists_head
  obtain ⟨d, -, rest', hu⟩ := u.exists_head
  cases facing with
  | cons layout =>
    rw [ht, hu, List.cons_append]
    exact take_word_eq_none (by simpa [ht, hu] using h)

theorem Misses.bind {p : Reader α} {next : α → Reader β} (h : Misses p t) :
    Misses (p >>= next) t :=
  fun _ _ facing ↦ take_bind_eq_none (h _ _ facing)

theorem Misses.named {p : Reader α} {form : Form} (h : Misses p t) : Misses (named form p) t := h

theorem Misses.spanned {p : Reader α} (h : Misses p t) : Misses (spanned p) t := by
  intro ts text facing
  simp [h _ _ facing]

theorem Misses.either {p q : Reader α} (hp : Misses p t) (hq : Misses q t) :
    Misses (either p q) t := by
  intro ts text facing
  simp [hp _ _ facing, hq _ _ facing]

/-- A word that may be left out is taken off if it is there. -/
theorem yields_optional_word {opt : List Token} {Q : Option Unit → List Char → Prop}
    (hopt : Optionally t opt) (hne : t.text.head? ≠ u.text.head?)
    (facing : Facing (opt ++ u :: ts) text)
    (h : ∀ o rest, Layout (u :: ts) rest → Q o rest) : (optional (word t.text)).Yields text Q := by
  rcases hopt with rfl | rfl
  · exact yields_optional_of_missed (misses_word hne _ _ facing) (h _ _ facing.layout)
  · exact (yields_word facing fun rest layout ↦ h _ _ layout).optional

theorem takeQuoted_quoted {q : Char} {content : List Char} (isQuote : q = '"' ∨ q = '\'')
    (h : q ∉ content) (rest : List Char) :
    takeQuoted (q :: (content ++ q :: rest)) = some (content, rest) := by
  have hcontent : ∀ c ∈ content, decide (c ≠ q) = true := by
    intro c hc
    have hne : c ≠ q := fun heq ↦ h (heq ▸ hc)
    simpa using hne
  have htake : (content ++ q :: rest).takeWhile (· ≠ q) = content := by
    rw [List.takeWhile_append_of_pos hcontent]
    simp
  have hdrop : (content ++ q :: rest).dropWhile (· ≠ q) = q :: rest := by
    rw [List.dropWhile_append_of_pos hcontent]
    simp
  rw [takeQuoted, if_pos isQuote, hdrop, htake]

theorem yields_quoted {q : Char} {content : List Char} {Q : Quote → List Char → Prop}
    (isQuote : q = '"' ∨ q = '\'') (hmem : q ∉ content) (rest : List Char)
    (h : ∀ quote, quote.content = content → Q quote rest) :
    string.Yields (q :: (content ++ q :: rest)) Q := by
  refine Yields.bind (Yields.spanned (Yields.named ⟨content, rest, ?_, ?_⟩))
  · rw [take_silent, takeQuoted_quoted isQuote hmem]
  · exact yields_pure (h _ rfl)

theorem yields_string {q : Quotation} {Q : Quote → List Char → Prop}
    (facing : Facing (.quotation q :: ts) text)
    (h : ∀ quote rest, quote.content = q.content.toList → Layout ts rest → Q quote rest) :
    string.Yields text Q := by
  cases facing with
  | @cons _ _ rest layout =>
    rw [q.text_append]
    exact yields_quoted q.isQuote q.quote_notMem rest fun quote hquote ↦ h quote rest hquote layout

theorem misses_string (h : ∀ q, t ≠ .quotation q) : Misses string t := by
  intro ts text facing
  cases facing with
  | cons layout =>
    refine take_bind_eq_none ?_
    cases t with
    | quotation q => exact absurd rfl (h q)
    | _ => simp [takeQuoted, Token.text]

/-! ### Elements -/

theorem character_of_quotation {q : Quotation} {c : Char} {quote : Quote}
    (hc : q.content = some c) (h : quote.content = q.content.toList) : character quote = .ok c := by
  have hsolid := q.solid c (by rw [hc]; rfl)
  rw [hc] at h
  simp [character, h, hsolid]

theorem elementCharacter_of_quotation {q : Quotation} {quote : Quote}
    (h : quote.content = q.content.toList) : elementCharacter (some quote) = .ok q.content := by
  cases hc : q.content with
  | none => simp [elementCharacter, h, hc]
  | some c =>
    have hcharacter := character_of_quotation hc h
    simp [elementCharacter, h, hc, hcharacter, bind, Except.bind, pure, Except.pure]

theorem yields_element {mark : Option Char} {Q : Option Quote → List Char → Prop}
    (hmark : SpellsMark mark t) (facing : Facing (t :: ts) text)
    (h : ∀ e rest, elementCharacter e = .ok mark → Layout ts rest → Q e rest) :
    element.Yields text Q := by
  refine Yields.named ?_
  cases hmark with
  | none =>
    have hmissed : Misses string .noneWord := misses_string (by simp)
    refine Yields.either_right (hmissed.bind _ _ facing) (Yields.named (Yields.bind ?_))
    exact yields_word facing fun rest layout ↦ yields_pure (h none rest rfl layout)
  | quotation hmark =>
    refine Yields.either_left (Yields.bind ?_)
    refine yields_string facing fun quote rest hquote layout ↦ yields_pure ?_
    exact h _ rest (hmark ▸ elementCharacter_of_quotation hquote) layout

theorem misses_element_closeTuple : Misses element .closeTuple := by
  have hstring : Misses string .closeTuple := misses_string (by simp)
  have hnone : Misses (word Token.noneWord.text) .closeTuple := misses_word (by decide)
  exact (hstring.bind.either hnone.bind.named).named

theorem yields_nextElement {mark : Option Char} {Q : Option Quote → List Char → Prop}
    (hmark : SpellsMark mark t) (facing : Facing (.comma :: t :: ts) text)
    (h : ∀ e rest, elementCharacter e = .ok mark → Layout ts rest → Q e rest) :
    nextElement.Yields text Q := by
  refine Yields.bind (yields_word facing fun rest layout ↦ ?_)
  refine Yields.bind (yields_gap layout fun rest facing ↦ ?_)
  exact yields_element hmark facing h

/-- The comma at the end of a tuple stands before no element. -/
theorem take_nextElement_eq_none {trailing : List Token} (htrailing : Optionally .comma trailing)
    (facing : Facing (trailing ++ .closeTuple :: ts) text) : nextElement.take text = none := by
  rcases htrailing with rfl | rfl
  · have hcomma : Misses (word Token.comma.text) .closeTuple := misses_word (by decide)
    exact hcomma.bind _ _ facing
  · refine Yields.take_bind_eq_none (yields_word facing fun rest layout ↦ ?_)
    refine Yields.take_bind_eq_none (yields_gap layout fun rest facing ↦ ?_)
    exact misses_element_closeTuple _ _ facing

theorem yields_no_nextElement {trailing : List Token} {Q : Option (Option Quote) → List Char → Prop}
    (htrailing : Optionally .comma trailing)
    (facing : Facing (trailing ++ .closeTuple :: ts) text) (h : Q none text) :
    (optional nextElement).Yields text Q :=
  yields_optional_of_missed (take_nextElement_eq_none htrailing facing) h

/-! ### Symbols -/

/-- What stands behind the elements of a tuple. -/
theorem yields_tupleEnd {trailing : List Token} {a : α} {Q : α → List Char → Prop}
    (htrailing : Optionally .comma trailing)
    (layout : Layout (trailing ++ .closeTuple :: more) text)
    (h : ∀ rest, Layout more rest → Q a rest) :
    (do
      gap
      let _ ← optional (word [','])
      gap
      word [')']
      return a : Reader α).Yields text Q := by
  refine Yields.bind (yields_gap layout fun rest facing ↦ ?_)
  refine Yields.bind (yields_optional_word htrailing (by decide) facing fun _ rest layout ↦ ?_)
  refine Yields.bind (yields_gap layout fun rest facing ↦ ?_)
  exact Yields.bind (yields_word facing fun rest layout ↦ yields_pure (h rest layout))

/-- The elements of a tuple and what stands behind them. -/
theorem yields_elements {s : Symbol} {elements trailing : List Token}
    {Q : List (Option Quote) → List Char → Prop} (helements : SpellsElements s elements)
    (htrailing : Optionally .comma trailing)
    (facing : Facing (elements ++ (trailing ++ .closeTuple :: more)) text)
    (h : ∀ es rest, (∀ span, symbolOf (.tuple es span) = .ok s) → Layout more rest → Q es rest) :
    (do
      let first ← element
      gap
      let second ← optional nextElement
      gap
      let third ← optional nextElement
      gap
      let _ ← optional (word [','])
      gap
      word [')']
      return first :: second.toList ++ third.toList : Reader _).Yields text Q := by
  -- The second and the third reader of an element miss where no further element is written.
  cases helements with
  | base hbase =>
    refine Yields.bind (yields_element (.quotation hbase) facing fun first rest hfirst layout ↦ ?_)
    refine Yields.bind (yields_gap layout fun rest facing ↦ ?_)
    refine Yields.bind (yields_no_nextElement htrailing facing ?_)
    refine Yields.bind (yields_gap facing.layout fun rest facing ↦ ?_)
    refine Yields.bind (yields_no_nextElement htrailing facing ?_)
    refine yields_tupleEnd htrailing facing.layout fun rest layout ↦ h _ rest (fun span ↦ ?_) layout
    simp [symbolOf, hfirst, bind, Except.bind, pure, Except.pure]
  | above hbase habove =>
    refine Yields.bind (yields_element (.quotation hbase) facing fun first rest hfirst layout ↦ ?_)
    refine Yields.bind (yields_gap layout fun rest facing ↦ ?_)
    refine Yields.bind (Yields.optional ?_)
    refine yields_nextElement habove facing fun second rest hsecond layout ↦ ?_
    refine Yields.bind (yields_gap layout fun rest facing ↦ ?_)
    refine Yields.bind (yields_no_nextElement htrailing facing ?_)
    refine yields_tupleEnd htrailing facing.layout fun rest layout ↦ h _ rest (fun span ↦ ?_) layout
    simp [symbolOf, hfirst, hsecond, bind, Except.bind, pure, Except.pure]
  | below hbase habove hbelow =>
    refine Yields.bind (yields_element (.quotation hbase) facing fun first rest hfirst layout ↦ ?_)
    refine Yields.bind (yields_gap layout fun rest facing ↦ ?_)
    refine Yields.bind (Yields.optional ?_)
    refine yields_nextElement habove facing fun second rest hsecond layout ↦ ?_
    refine Yields.bind (yields_gap layout fun rest facing ↦ ?_)
    refine Yields.bind (Yields.optional ?_)
    refine yields_nextElement hbelow facing fun third rest hthird layout ↦ ?_
    refine yields_tupleEnd htrailing layout fun rest layout ↦ h _ rest (fun span ↦ ?_) layout
    simp [symbolOf, hfirst, hsecond, hthird, bind, Except.bind, pure, Except.pure]

theorem yields_tuple {s : Symbol} {Q : List (Option Quote) → List Char → Prop}
    (hs : SpellsTuple s ts) (facing : Facing (ts ++ more) text)
    (h : ∀ es rest, (∀ span, symbolOf (.tuple es span) = .ok s) → Layout more rest → Q es rest) :
    tuple.Yields text Q := by
  obtain ⟨hword, helements, htrailing⟩ := hs
  simp only [List.append_assoc, List.cons_append, List.nil_append] at facing
  refine Yields.named (Yields.bind ?_)
  refine yields_optional_word hword (by decide) facing fun _ rest layout ↦ ?_
  refine Yields.bind (yields_gap layout fun rest facing ↦ ?_)
  refine Yields.bind (yields_word facing fun rest layout ↦ ?_)
  refine Yields.bind (yields_gap layout fun rest facing ↦ ?_)
  exact yields_elements helements htrailing facing h

/-- A token that begins no tuple. -/
theorem misses_tuple (hword : Token.symbolWord.text.head? ≠ t.text.head?)
    (hopen : Token.openTuple.text.head? ≠ t.text.head?) : Misses tuple t := by
  refine Misses.named fun ts text facing ↦ ?_
  have hmissed := misses_word hword _ _ facing
  refine Yields.take_bind_eq_none (yields_optional_of_missed hmissed ?_)
  refine Yields.take_bind_eq_none (yields_gap facing.layout fun rest facing ↦ ?_)
  exact (misses_word hopen).bind _ _ facing

/-- What the reader takes off and what it leaves is told by the tokens alone. -/
def Reads (p : Reader α) (spells : β → List Token → Prop) (means : α → β → Prop) : Prop :=
  ∀ b ts more text, spells b ts → Facing (ts ++ more) text →
    p.Yields text fun a rest ↦ means a b ∧ Layout more rest

theorem Reads.named {p : Reader α} {spells : β → List Token → Prop} {means : α → β → Prop}
    {form : Form} (h : Reads p spells means) : Reads (named form p) spells means := h

/-- The form writes the symbol. -/
def Writes (form : SymbolForm) (s : Symbol) : Prop := symbolOf form = .ok s

theorem reads_symbol : Reads symbol SpellsSymbol Writes := by
  intro s ts more text hs facing
  refine Yields.named ?_
  cases hs with
  | @bare base q hbase =>
    have hword : Token.symbolWord.text.head? ≠ (Token.quotation q).text.head? := by
      rcases q.isQuote with h | h <;> simp [Token.text, h]
    have hopen : Token.openTuple.text.head? ≠ (Token.quotation q).text.head? := by
      rcases q.isQuote with h | h <;> simp [Token.text, h]
    refine Yields.either_right ((misses_tuple hword hopen).spanned.bind _ _ facing) ?_
    refine Yields.bind ?_
    refine yields_string facing fun quote rest hquote layout ↦ yields_pure ⟨?_, layout⟩
    have hcharacter := character_of_quotation hbase hquote
    simp [Writes, symbolOf, hcharacter, bind, Except.bind, pure, Except.pure]
  | tuple hs =>
    refine Yields.either_left (Yields.bind (Yields.spanned ?_))
    exact yields_tuple hs facing fun es rest hes layout ↦ yields_pure ⟨hes _, layout⟩

theorem misses_symbol_closeList : Misses symbol .closeList := by
  have htuple : Misses tuple .closeList := misses_tuple (by decide) (by decide)
  have hstring : Misses string .closeList := misses_string (by simp)
  exact (htuple.spanned.bind.either hstring.bind).named

/-! ### Lists -/

section Lists

variable {item : Reader α} {spells : β → List Token → Prop} {means : α → β → Prop}

/-- The reader of an item that is not the first. -/
def furtherItem (item : Reader α) : Reader α := do
  gap
  word [',']
  gap
  item

theorem length_le_of_spellsFurther {bs : List β} (h : SpellsFurther spells bs ts) :
    bs.length ≤ ts.length := by
  induction h with
  | none => simp
  | more _ _ ih =>
    simp only [List.length_cons, List.length_append]
    omega

theorem repeats_furtherItem {bs : List β} (hitem : Reads item spells means)
    (hmisses : Misses item .closeList) (hfurther : SpellsFurther spells bs ts)
    (layout : Layout (ts ++ .closeList :: more) text) :
    ∃ as rest trailing, Repeats (furtherItem item) text as rest ∧ List.Forall₂ means as bs ∧
      Optionally .comma trailing ∧ Layout (trailing ++ .closeList :: more) rest := by
  induction hfurther generalizing text with
  | @none trailing htrailing =>
    refine ⟨[], text, trailing, .stop ?_, .nil, htrailing, layout⟩
    refine Yields.take_bind_eq_none (yields_gap layout fun rest facing ↦ ?_)
    rcases htrailing with rfl | rfl
    · have hcomma : Misses (word Token.comma.text) .closeList := misses_word (by decide)
      exact hcomma.bind _ _ facing
    · refine Yields.take_bind_eq_none (yields_word facing fun rest layout ↦ ?_)
      exact Yields.take_bind_eq_none (yields_gap layout fun rest facing ↦ hmisses _ _ facing)
  | @more b ts bs us hb hfurther ih =>
    rw [List.cons_append, List.append_assoc] at layout
    have hfirst : (furtherItem item).Yields text fun a rest ↦
        means a b ∧ Layout (us ++ .closeList :: more) rest := by
      refine Yields.bind (yields_gap layout fun rest facing ↦ ?_)
      refine Yields.bind (yields_word facing fun rest layout ↦ ?_)
      refine Yields.bind (yields_gap layout fun rest facing ↦ ?_)
      exact hitem _ _ _ _ hb facing
    obtain ⟨a, rest, htake, ha, layout⟩ := hfirst
    obtain ⟨as, last, trailing, hrepeats, has, htrailing, layout⟩ := ih layout
    exact ⟨a :: as, last, trailing, .again htake hrepeats, .cons ha has, htrailing, layout⟩

theorem reads_listOf (hitem : Reads item spells means) (hmisses : Misses item .closeList) :
    Reads (listOf item) (SpellsList spells) (List.Forall₂ means) := by
  intro bs ts more text hbs facing
  cases hbs with
  | empty =>
    refine Yields.bind (yields_word facing fun rest layout ↦ ?_)
    refine Yields.bind (yields_gap layout fun rest facing ↦ ?_)
    refine Yields.bind (yields_optional_of_missed (hmisses.bind _ _ facing) ?_)
    refine Yields.bind (yields_gap facing.layout fun rest facing ↦ ?_)
    exact Yields.bind (yields_word facing fun rest layout ↦ yields_pure ⟨.nil, layout⟩)
  | items hb hfurther =>
    simp only [List.cons_append, List.append_assoc, List.nil_append] at facing
    refine Yields.bind (yields_word facing fun rest layout ↦ ?_)
    refine Yields.bind (yields_gap layout fun rest facing ↦ ?_)
    refine Yields.bind (Yields.optional (Yields.bind ?_))
    refine (hitem _ _ _ _ hb facing).mono fun a rest ⟨ha, layout⟩ ↦ ?_
    refine Yields.bind (yields_gap layout fun rest facing ↦ ?_)
    obtain ⟨as, last, trailing, hrepeats, has, htrailing, layout⟩ :=
      repeats_furtherItem hitem hmisses hfurther facing.layout
    -- Every further item has a comma in front, so the text has a character for each.
    have henough : as.length ≤ rest.length := by
      have := length_le_of_spellsFurther hfurther
      have := facing.layout.length_le
      rw [has.length_eq]
      rw [List.length_append] at this
      omega
    refine Yields.bind (yields_many hrepeats henough ?_)
    refine Yields.bind (yields_gap layout fun rest facing ↦ ?_)
    refine Yields.bind (yields_optional_word htrailing (by decide) facing fun _ rest layout ↦ ?_)
    refine yields_pure (Yields.bind (yields_gap layout fun rest facing ↦ ?_))
    exact Yields.bind (yields_word facing fun rest layout ↦ yields_pure ⟨.cons ha has, layout⟩)

end Lists

theorem misses_listOf_closeList {item : Reader α} : Misses (listOf item) .closeList := by
  have hopen : Misses (word Token.openList.text) .closeList := misses_word (by decide)
  exact hopen.bind

theorem reads_symbolList :
    Reads symbolList (SpellsList SpellsSymbol) (List.Forall₂ Writes) :=
  (reads_listOf reads_symbol misses_symbol_closeList).named

theorem reads_alphabetList : Reads alphabetList (SpellsList (SpellsList SpellsSymbol))
    (List.Forall₂ (List.Forall₂ Writes)) :=
  (reads_listOf reads_symbolList misses_listOf_closeList.named).named

/-! ### All of a text -/

theorem readWhole_of_layout {p : Reader α} {spells : β → List Token → Prop} {means : α → β → Prop}
    {b : β} (hp : Reads p spells means) (hb : spells b ts) (layout : Layout ts text) (form : Form) :
    ∃ a, readWhole form p text = .ok a ∧ means a b := by
  have hwhole : (whole form p).Yields text fun a _ ↦ means a b := by
    refine Yields.named (Yields.bind (yields_gap layout fun rest facing ↦ ?_))
    rw [← List.append_nil ts] at facing
    refine Yields.bind ((hp _ _ _ _ hb facing).mono fun a rest ⟨ha, layout⟩ ↦ ?_)
    refine Yields.bind (yields_gap layout fun rest facing ↦ ?_)
    cases facing
    exact Yields.bind ⟨(), [], rfl, yields_pure ha⟩
  obtain ⟨a, rest, htake, ha⟩ := hwhole
  exact ⟨a, by rw [readWhole, htake], ha⟩

theorem alphabetOf_of_writes {forms : List SymbolForm} {symbols : List Symbol}
    (h : List.Forall₂ Writes forms symbols) : alphabetOf forms = .ok (.ofList symbols) := by
  rw [alphabetOf, mapM_eq_ok_of_forall₂ h]
  rfl

/-- An alphabet is the list of symbols that the text spells, however it is laid out. -/
theorem readAlphabet_of_layout {symbols : List Symbol} (h : SpellsList SpellsSymbol symbols ts)
    (layout : Layout ts text) : readAlphabet text = .ok (.ofList symbols) := by
  obtain ⟨forms, hread, hforms⟩ := readWhole_of_layout reads_symbolList h layout .alphabetValue
  rw [readAlphabet, hread]
  exact alphabetOf_of_writes hforms

/-- Tape alphabets are the lists of symbols that the text spells, however it is laid out. -/
theorem readAlphabets_of_layout {lists : List (List Symbol)}
    (h : SpellsList (SpellsList SpellsSymbol) lists ts) (layout : Layout ts text) :
    readAlphabets text = .ok (lists.map .ofList) := by
  obtain ⟨forms, hread, hforms⟩ :=
    readWhole_of_layout reads_alphabetList h layout .tapeAlphabetsValue
  rw [readAlphabets, hread]
  refine mapM_eq_ok_of_forall₂ ?_
  rw [List.forall₂_map_right_iff]
  exact hforms.imp fun _ _ ↦ alphabetOf_of_writes

end Multitape.Literal
