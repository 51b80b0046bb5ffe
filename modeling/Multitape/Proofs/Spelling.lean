import Multitape.Literal

/-!
Symbols and lists as they may be written. A list of tokens spells a symbol, a list or a list of
lists, mostly one of several that do: a mark that is absent may be left out at the end, be written
`None` or as two quotes, a tuple may have the word `Symbol` in front, and a comma may stand behind
the last item of a list. Apart from that, a text lays the tokens out: on one or more lines, with
blanks between them and a comment at the end of a line, if any.

Whatever the layout, behind the gap at its head a text is at the first token, and behind that token
the text lays out the others (`Layout.facing`).
-/

set_option autoImplicit false
set_option relaxedAutoImplicit false

namespace Multitape.Literal

/-! ### Tokens -/

/-- A character between quotes, which is neither white space nor the quote, or no character. -/
structure Quotation where
  quote : Char
  content : Option Char
  isQuote : quote = '"' ∨ quote = '\''
  differs : quote ∉ content
  solid : ∀ c ∈ content, Text.isWhite c = false

inductive Token
  | openList
  | closeList
  | openTuple
  | closeTuple
  | comma
  | symbolWord
  | noneWord
  | quotation (q : Quotation)

namespace Token

def text : Token → List Char
  | openList => ['[']
  | closeList => [']']
  | openTuple => ['(']
  | closeTuple => [')']
  | comma => [',']
  | symbolWord => ['S', 'y', 'm', 'b', 'o', 'l']
  | noneWord => ['N', 'o', 'n', 'e']
  | quotation q => q.quote :: (q.content.toList ++ [q.quote])

/-- The characters that a token may begin with. -/
def heads : List Char := ['[', ']', '(', ')', ',', 'S', 'N', '"', '\'']

theorem exists_head (t : Token) : ∃ c ∈ heads, ∃ rest, t.text = c :: rest := by
  cases t with
  | quotation q =>
    refine ⟨q.quote, ?_, _, rfl⟩
    rcases q.isQuote with h | h <;> simp [heads, h]
  | _ => exact ⟨_, by decide, _, rfl⟩

theorem solid_text (t : Token) : ∀ c ∈ t.text, Text.isWhite c = false := by
  cases t with
  | quotation q =>
    have hquote : Text.isWhite q.quote = false := by
      rcases q.isQuote with h | h <;> rw [h] <;> decide
    intro c hc
    simp only [text, List.mem_cons, List.mem_append, Option.mem_toList, List.not_mem_nil,
      or_false] at hc
    rcases hc with rfl | hc | rfl
    · exact hquote
    · exact q.solid c hc
    · exact hquote
  | _ => simp [text, Text.isWhite]

end Token

theorem Quotation.quote_notMem (q : Quotation) : q.quote ∉ q.content.toList := by
  rw [Option.mem_toList]
  exact q.differs

theorem Quotation.text_append (q : Quotation) (rest : List Char) :
    (Token.quotation q).text ++ rest = q.quote :: (q.content.toList ++ q.quote :: rest) := by
  simp [Token.text]

/-! ### Spelling -/

/-- The token may stand there or be left out. -/
def Optionally (t : Token) (ts : List Token) : Prop := ts = [] ∨ ts = [t]

/-- The ways to write a mark that may be absent. -/
inductive SpellsMark : Option Char → Token → Prop
  | none : SpellsMark none .noneWord
  | quotation {mark : Option Char} {q : Quotation} (hmark : q.content = mark) :
    SpellsMark mark (.quotation q)

/-- What stands in a tuple: base, above and below. Marks may be left out from the end if they are
absent. -/
inductive SpellsElements : Symbol → List Token → Prop
  | base {base : Char} {q : Quotation} (hbase : q.content = some base) :
    SpellsElements ⟨base, none, none⟩ [.quotation q]
  | above {base : Char} {q : Quotation} {above : Option Char} {t : Token}
    (hbase : q.content = some base) (habove : SpellsMark above t) :
    SpellsElements ⟨base, above, none⟩ [.quotation q, .comma, t]
  | below {base : Char} {q : Quotation} {above below : Option Char} {t u : Token}
    (hbase : q.content = some base) (habove : SpellsMark above t) (hbelow : SpellsMark below u) :
    SpellsElements ⟨base, above, below⟩ [.quotation q, .comma, t, .comma, u]

inductive SpellsTuple : Symbol → List Token → Prop
  | mk {s : Symbol} {word elements trailing : List Token} (hword : Optionally .symbolWord word)
    (helements : SpellsElements s elements) (htrailing : Optionally .comma trailing) :
    SpellsTuple s (word ++ .openTuple :: (elements ++ (trailing ++ [.closeTuple])))

/-- The ways to write a symbol. -/
inductive SpellsSymbol : Symbol → List Token → Prop
  | bare {base : Char} {q : Quotation} (hbase : q.content = some base) :
    SpellsSymbol (.plain base) [.quotation q]
  | tuple {s : Symbol} {ts : List Token} (h : SpellsTuple s ts) : SpellsSymbol s ts

section Lists

variable {β : Type} (spells : β → List Token → Prop)

/-- The ways to write the items of a list from the second on. The last item may have a comma behind
it. -/
inductive SpellsFurther : List β → List Token → Prop
  | none {trailing : List Token} (htrailing : Optionally .comma trailing) :
    SpellsFurther [] trailing
  | more {b : β} {ts : List Token} {bs : List β} {us : List Token} (hitem : spells b ts)
    (hfurther : SpellsFurther bs us) : SpellsFurther (b :: bs) (.comma :: (ts ++ us))

/-- The ways to write a list, given those to write its items. -/
inductive SpellsList : List β → List Token → Prop
  | empty : SpellsList [] [.openList, .closeList]
  | items {b : β} {ts : List Token} {bs : List β} {us : List Token} (hitem : spells b ts)
    (hfurther : SpellsFurther spells bs us) :
    SpellsList (b :: bs) (.openList :: (ts ++ (us ++ [.closeList])))

end Lists

/-! ### Layout -/

/-- The line has the tokens on it, with blanks anywhere between them and perhaps a comment at the
end. -/
inductive OnLine : List Token → List Char → Prop
  | empty : OnLine [] []
  | comment {text : List Char} (h : ∀ c ∈ text, c ≠ '\n' ∧ c ≠ '\r') : OnLine [] ('#' :: text)
  | blank {c : Char} {ts : List Token} {line : List Char} (hblank : c = ' ' ∨ c = '\t')
    (h : OnLine ts line) : OnLine ts (c :: line)
  | token (t : Token) {ts : List Token} {line : List Char} (h : OnLine ts line) :
    OnLine (t :: ts) (t.text ++ line)

/-- The text has the tokens on its lines. -/
inductive Layout : List Token → List Char → Prop
  | last {ts : List Token} {line : List Char} (hline : OnLine ts line) : Layout ts line
  | next {ts us : List Token} {line ending text : List Char} (hline : OnLine ts line)
    (hending : ending = ['\n'] ∨ ending = ['\r', '\n']) (h : Layout us text) :
    Layout (ts ++ us) (line ++ (ending ++ text))

variable {c : Char} {t : Token} {ts us : List Token} {line text : List Char}

theorem isWhite_of_blank (h : c = ' ' ∨ c = '\t') : Text.isWhite c = true := by
  rcases h with rfl | rfl <;> decide

theorem OnLine.length_le (h : OnLine ts line) : ts.length ≤ line.length := by
  induction h with
  | empty => exact Nat.le_refl _
  | comment => exact Nat.zero_le _
  | blank _ _ ih => exact Nat.le_succ_of_le ih
  | token t _ ih =>
    obtain ⟨c, -, rest, ht⟩ := t.exists_head
    simp only [List.length_cons, List.length_append, ht]
    omega

theorem Layout.length_le (h : Layout ts text) : ts.length ≤ text.length := by
  induction h with
  | last hline => exact hline.length_le
  | next hline _ _ ih =>
    have := hline.length_le
    simp only [List.length_append]
    omega

theorem Layout.token (t : Token) (h : Layout ts text) : Layout (t :: ts) (t.text ++ text) := by
  cases h with
  | last hline => exact .last (hline.token t)
  | next hline hending h =>
    rw [← List.cons_append, ← List.append_assoc]
    exact .next (hline.token t) hending h

/-! ### Gaps -/

/-- The text is at the first of the tokens and lays out the others behind it, or ends where there is
no token. -/
inductive Facing : List Token → List Char → Prop
  | nil : Facing [] []
  | cons {t : Token} {ts : List Token} {text : List Char} (h : Layout ts text) :
    Facing (t :: ts) (t.text ++ text)

theorem Facing.layout (h : Facing ts text) : Layout ts text := by
  cases h with
  | nil => exact .last .empty
  | cons h => exact h.token _

theorem afterGap_token (t : Token) (text : List Char) :
    afterGap false (t.text ++ text) = t.text ++ text := by
  have hheads : ∀ c ∈ Token.heads, ¬(c = '\n' ∨ c = '\r') ∧ ¬(c = ' ' ∨ c = '\t') ∧ c ≠ '#' := by
    simp [Token.heads]
  obtain ⟨c, hc, rest, ht⟩ := t.exists_head
  obtain ⟨hend, hblank, hhash⟩ := hheads c hc
  rw [ht, List.cons_append, afterGap, if_neg hend, if_neg (by simp), if_neg hblank, if_neg hhash]

theorem afterGap_ending {ending : List Char} (hending : ending = ['\n'] ∨ ending = ['\r', '\n'])
    (inComment : Bool) (text : List Char) :
    afterGap inComment (ending ++ text) = afterGap false text := by
  rcases hending with rfl | rfl <;> simp [afterGap]

theorem afterGap_comment {comment : List Char} (h : ∀ c ∈ comment, c ≠ '\n' ∧ c ≠ '\r')
    (text : List Char) : afterGap true (comment ++ text) = afterGap true text := by
  induction comment with
  | nil => rfl
  | cons c comment ih =>
    have hc := h c List.mem_cons_self
    rw [List.cons_append, afterGap, if_neg (by simpa using hc), if_pos rfl,
      ih fun d hd ↦ h d (List.mem_cons_of_mem _ hd)]

theorem afterGap_blank (hblank : c = ' ' ∨ c = '\t') (text : List Char) :
    afterGap false (c :: text) = afterGap false text := by
  rcases hblank with rfl | rfl <;> simp [afterGap]

theorem OnLine.facing (h : OnLine ts line) : Facing ts (afterGap false line) := by
  induction h with
  | empty => exact .nil
  | comment h =>
    have hcomment := afterGap_comment h []
    rw [List.append_nil] at hcomment
    have hgap := hcomment.trans (rfl : afterGap true [] = [])
    simpa [afterGap, hgap] using Facing.nil
  | blank hblank _ ih => rwa [afterGap_blank hblank]
  | token t h =>
    rw [afterGap_token]
    exact .cons (.last h)

theorem OnLine.facing_append {ending : List Char} (hline : OnLine ts line)
    (hending : ending = ['\n'] ∨ ending = ['\r', '\n']) (h : Layout us text)
    (hfacing : Facing us (afterGap false text)) :
    Facing (ts ++ us) (afterGap false (line ++ (ending ++ text))) := by
  induction hline with
  | empty => rwa [List.nil_append, List.nil_append, afterGap_ending hending]
  | comment hcomment =>
    have hgap : ∀ text, afterGap false ('#' :: text) = afterGap true text := by
      intro text
      simp [afterGap]
    rwa [List.nil_append, List.cons_append, hgap, afterGap_comment hcomment,
      afterGap_ending hending]
  | blank hblank _ ih => rwa [List.cons_append, afterGap_blank hblank]
  | token t hline =>
    rw [List.cons_append, List.append_assoc, afterGap_token]
    exact .cons (.next hline hending h)

/-- Behind the gap at its head a text is at its first token. -/
theorem Layout.facing (h : Layout ts text) : Facing ts (afterGap false text) := by
  induction h with
  | last hline => exact hline.facing
  | next hline hending h ih => exact hline.facing_append hending h ih

end Multitape.Literal
