import Multitape.Proofs.Sections
import Multitape.Proofs.Spelling
import Mathlib.Algebra.Ring.Int.Defs

/-!
Tokens and the lines that they stand on. A line opens as many brackets as the tokens on it
(`OnLine.depthBehind_eq`), and a list leaves some bracket open up to its last token and none behind
that (`closes_of_spellsList`). What is left of a line without the white space around it has the same
tokens, and a line that says nothing has none, so the content lines of a text have all of its tokens
(`Layout.rows`). Put together again, they lay the tokens out (`Rows.layout`).
-/

set_option autoImplicit false
set_option relaxedAutoImplicit false

namespace Multitape

namespace Literal

variable {t : Token} {ts us : List Token} {line text : List Char}

/-! ### Brackets -/

/-- How many brackets the token opens. -/
def Token.depth : Token → Int
  | openList | openTuple => 1
  | closeList | closeTuple => -1
  | _ => 0

/-- How many brackets the tokens open and do not close. -/
def depth (ts : List Token) : Int := (ts.map Token.depth).sum

@[simp] theorem depth_nil : depth [] = 0 := rfl

@[simp] theorem depth_cons : depth (t :: ts) = t.depth + depth ts := rfl

/-- Of so many open brackets the last one is closed by the last token, and none of the tokens before
it. -/
inductive Closes : Int → List Token → Prop
  | done : Closes 0 []
  | step {d : Int} {t : Token} {ts : List Token} (hopen : 0 < d) (h : Closes (d + t.depth) ts) :
    Closes d (t :: ts)

theorem Closes.of_append {d : Int} (h : Closes d (ts ++ us)) : Closes (d + depth ts) us := by
  induction ts generalizing d with
  | nil => simpa using h
  | cons t ts ih =>
    cases h with
    | step _ h =>
      rw [depth_cons, ← Int.add_assoc]
      exact ih h

theorem Closes.pos_iff {d : Int} (h : Closes d ts) : 0 < d ↔ ts ≠ [] := by
  cases h with
  | done => simp
  | step hopen => simpa using hopen

/-- Where some bracket is open, the tokens leave it to those behind them to close it. -/
def Nested (ts : List Token) : Prop :=
  ∀ ⦃d : Int⦄ ⦃us : List Token⦄, 0 < d → Closes d us → Closes d (ts ++ us)

theorem nested_nil : Nested [] := fun _ _ _ h ↦ h

theorem Nested.append (hts : Nested ts) (hus : Nested us) : Nested (ts ++ us) := by
  intro d vs hopen h
  rw [List.append_assoc]
  exact hts hopen (hus hopen h)

theorem nested_singleton (ht : t.depth = 0) : Nested [t] := by
  intro d us hopen h
  rw [← Int.add_zero d, ← ht] at h
  exact .step hopen h

theorem Nested.cons (ht : t.depth = 0) (h : Nested ts) : Nested (t :: ts) :=
  (nested_singleton ht).append h

theorem Nested.bracketed {t u : Token} (ht : t.depth = 1) (hu : u.depth = -1) (h : Nested ts) :
    Nested (t :: (ts ++ [u])) := by
  intro d us hopen hus
  have hinner : 0 < d + 1 := by omega
  rw [List.cons_append, List.append_assoc]
  refine .step hopen ?_
  rw [ht]
  refine h hinner (.step hinner ?_)
  rwa [hu, Int.add_neg_cancel_right]

theorem nested_of_optionally (ht : t.depth = 0) (h : Optionally t ts) : Nested ts := by
  rcases h with rfl | rfl
  · exact nested_nil
  · exact nested_singleton ht

theorem depth_of_spellsMark {mark : Option Char} (h : SpellsMark mark t) : t.depth = 0 := by
  cases h <;> rfl

theorem nested_of_spellsElements {s : Symbol} (h : SpellsElements s ts) : Nested ts := by
  cases h with
  | base => exact nested_singleton rfl
  | above _ habove => exact .cons rfl (.cons rfl (nested_singleton (depth_of_spellsMark habove)))
  | below _ habove hbelow =>
    have hend := nested_singleton (depth_of_spellsMark hbelow)
    exact .cons rfl (.cons rfl (.cons (depth_of_spellsMark habove) (.cons rfl hend)))

theorem nested_of_spellsSymbol {s : Symbol} (h : SpellsSymbol s ts) : Nested ts := by
  cases h with
  | bare => exact nested_singleton rfl
  | tuple h =>
    obtain ⟨hword, helements, htrailing⟩ := h
    have hinner := (nested_of_spellsElements helements).append (nested_of_optionally rfl htrailing)
    rw [← List.append_assoc]
    exact (nested_of_optionally rfl hword).append (hinner.bracketed rfl rfl)

section Lists

variable {β : Type} {spells : β → List Token → Prop} {bs : List β}

theorem nested_of_spellsFurther (nested : ∀ b us, spells b us → Nested us)
    (h : SpellsFurther spells bs ts) : Nested ts := by
  induction h with
  | none htrailing => exact nested_of_optionally rfl htrailing
  | more hitem _ ih => exact .cons rfl ((nested _ _ hitem).append ih)

/-- A list is nested tokens in brackets. -/
theorem exists_of_spellsList (nested : ∀ b us, spells b us → Nested us)
    (h : SpellsList spells bs ts) : ∃ us, ts = .openList :: (us ++ [.closeList]) ∧ Nested us := by
  cases h with
  | empty => exact ⟨[], rfl, nested_nil⟩
  | items hitem hfurther =>
    refine ⟨_, by rw [List.append_assoc], ?_⟩
    exact (nested _ _ hitem).append (nested_of_spellsFurther nested hfurther)

theorem nested_of_spellsList (nested : ∀ b us, spells b us → Nested us)
    (h : SpellsList spells bs ts) : Nested ts := by
  obtain ⟨us, rfl, hus⟩ := exists_of_spellsList nested h
  exact hus.bracketed rfl rfl

/-- The last token of a list closes the first one, and no other does. -/
theorem closes_of_spellsList (nested : ∀ b us, spells b us → Nested us)
    (h : SpellsList spells bs (.openList :: ts)) : Closes 1 ts := by
  obtain ⟨us, hts, hus⟩ := exists_of_spellsList nested h
  obtain rfl : ts = us ++ [.closeList] := (List.cons.inj hts).2
  exact hus Int.one_pos (.step Int.one_pos .done)

end Lists

/-! ### One line -/

theorem OnLine.trimEnd (h : OnLine ts line) : OnLine ts (Text.trimEnd line) := by
  induction h with
  | empty => exact .empty
  | @comment text h =>
    rw [Text.trimEnd_cons_of_solid (by decide)]
    refine .comment fun c hc ↦ h c ?_
    exact List.mem_reverse.1 ((List.dropWhile_sublist _).subset (List.mem_reverse.1 hc))
  | @blank c ts line hblank h ih =>
    by_cases hnil : Text.trimEnd line = []
    · rw [Text.trimEnd_cons_of_nil hnil, if_pos (isWhite_of_blank hblank)]
      rwa [hnil] at ih
    · have hcons := Text.trimEnd_append_of_ne_nil (a := [c]) hnil
      rw [List.singleton_append, List.singleton_append] at hcons
      rw [hcons]
      exact .blank hblank ih
  | token t h ih =>
    rw [Text.trimEnd_append_of_solid t.solid_text]
    exact .token t ih

/-- Behind its blanks a line ends, or is at a comment or a token. -/
theorem OnLine.trimStart (h : OnLine ts line) :
    OnLine ts (Text.trimStart line) ∧
      (ts = [] ∧ (Text.trimStart line = [] ∨ ∃ rest, Text.trimStart line = '#' :: rest) ∨
        ∃ t ∈ ts, ∃ rest, Text.trimStart line = t.text ++ rest) := by
  induction h with
  | empty => exact ⟨.empty, .inl ⟨rfl, .inl rfl⟩⟩
  | comment h =>
    rw [Text.trimStart_cons_of_solid (by decide)]
    exact ⟨.comment h, .inl ⟨rfl, .inr ⟨_, rfl⟩⟩⟩
  | blank hblank _ ih => rwa [Text.trimStart_cons_of_white (isWhite_of_blank hblank)]
  | @token t ts line h =>
    have hstart : Text.trimStart (t.text ++ line) = t.text ++ line := by
      obtain ⟨c, -, rest, ht⟩ := t.exists_head
      have hsolid := t.solid_text c (by rw [ht]; exact List.mem_cons_self)
      rw [ht, List.cons_append, Text.trimStart_cons_of_solid hsolid]
    rw [hstart]
    exact ⟨.token t h, .inr ⟨t, List.mem_cons_self, line, rfl⟩⟩

theorem OnLine.trim (h : OnLine ts line) : OnLine ts (Text.trim line) := h.trimStart.1.trimEnd

theorem OnLine.lineFeed_notMem (h : OnLine ts line) : '\n' ∉ line := by
  induction h with
  | empty => exact List.not_mem_nil
  | comment h =>
    intro hmem
    rcases List.mem_cons.1 hmem with hc | hmem
    · cases hc
    · exact (h _ hmem).1 rfl
  | blank hblank _ ih => rcases hblank with rfl | rfl <;> simpa using ih
  | token t _ ih =>
    intro hmem
    rcases List.mem_append.1 hmem with hmem | hmem
    · exact absurd (t.solid_text _ hmem) (by decide)
    · exact ih hmem

/-- Brackets between quotes do not count. -/
theorem depthBehind_quoted {q : Char} {content : List Char} (isQuote : q = '"' ∨ q = '\'')
    (h : q ∉ content) (d : Int) (line : List Char) :
    Definition.depthBehind none d (q :: (content ++ q :: line)) =
      Definition.depthBehind none d line := by
  have hinside : Definition.depthBehind (some q) d (content ++ q :: line) =
      Definition.depthBehind none d line := by
    induction content with
    | nil => simp [Definition.depthBehind]
    | cons c content ih =>
      have hc : c ≠ q := fun heq ↦ h (heq ▸ List.mem_cons_self)
      rw [List.cons_append, Definition.depthBehind]
      simp only [hc, if_false]
      exact ih fun hmem ↦ h (List.mem_cons_of_mem _ hmem)
  rw [Definition.depthBehind]
  simp only [isQuote.symm, if_true]
  exact hinside

theorem depthBehind_append_token (t : Token) (d : Int) (line : List Char) :
    Definition.depthBehind none d (t.text ++ line) =
      Definition.depthBehind none (d + t.depth) line := by
  cases t with
  | quotation q =>
    rw [q.text_append, depthBehind_quoted q.isQuote q.quote_notMem]
    exact congrArg (Definition.depthBehind none · line) (Int.add_zero d).symm
  | _ => simp [Token.text, Token.depth, Definition.depthBehind, Int.sub_eq_add_neg]

/-- A line opens as many brackets as the tokens on it. -/
theorem OnLine.depthBehind_eq (h : OnLine ts line) (d : Int) :
    Definition.depthBehind none d line = d + depth ts := by
  induction h generalizing d with
  | empty => simp [Definition.depthBehind]
  | comment h => simp [Definition.depthBehind]
  | blank hblank _ ih =>
    rcases hblank with rfl | rfl <;> simp [Definition.depthBehind, ih]
  | token t _ ih => rw [depthBehind_append_token, ih, depth_cons, Int.add_assoc]

theorem OnLine.opensRules_eq_false (h : OnLine ts line) : Definition.opensRules line = false := by
  cases h with
  | empty => rfl
  | comment => rfl
  | blank hblank => rcases hblank with rfl | rfl <;> rfl
  | token t =>
    have hheads : ∀ c ∈ Token.heads, c ≠ 'q' ∧ c ≠ 'Q' := by simp [Token.heads]
    obtain ⟨c, hc, rest, ht⟩ := t.exists_head
    rw [ht, List.cons_append]
    simpa [Definition.opensRules] using hheads c hc

/-! ### Several lines -/

/-- Lines with some of the tokens on each. -/
inductive Rows : List Token → List (List Char) → Prop
  | nil : Rows [] []
  | cons {ts us : List Token} {row : List Char} {rows : List (List Char)} (hts : ts ≠ [])
    (hrow : OnLine ts row) (h : Rows us rows) : Rows (ts ++ us) (row :: rows)

theorem Rows.append {rows rows' : List (List Char)} (h : Rows ts rows) (h' : Rows us rows') :
    Rows (ts ++ us) (rows ++ rows') := by
  induction h with
  | nil => exact h'
  | cons hts hrow _ ih =>
    rw [List.append_assoc]
    exact .cons hts hrow ih

/-- Lines of tokens, one after another, lay the tokens out. -/
theorem Rows.layout {rows : List (List Char)} (h : Rows ts rows) :
    Layout ts (['\n'].intercalate rows) := by
  induction h with
  | nil => exact .last .empty
  | @cons ts us row rows hts hrow h ih =>
    cases rows with
    | nil =>
      cases h
      rw [List.intercalate_singleton, List.append_nil]
      exact .last hrow
    | cons next rows =>
      rw [List.intercalate_cons_cons, List.append_assoc]
      exact .next hrow (.inl rfl) ih

/-- A line that says something has a token on it, and the others have none. -/
theorem OnLine.rows (h : OnLine ts line) : Rows ts (Definition.contentLines line) := by
  have hfeed := h.lineFeed_notMem
  rcases h.trimStart.2 with ⟨rfl, hnil | ⟨rest, hhash⟩⟩ | ⟨t, ht, rest, htoken⟩
  · have hsilent : Text.trim line = [] := by
      rw [Text.trim, hnil]
      rfl
    rw [Definition.contentLines_eq_nil hfeed (.inl hsilent)]
    exact .nil
  · have hsilent : (Text.trim line).head? = some '#' := by
      rw [Text.trim, hhash, Text.trimEnd_cons_of_solid (by decide)]
      rfl
    rw [Definition.contentLines_eq_nil hfeed (.inr hsilent)]
    exact .nil
  · have hheads : ∀ c ∈ Token.heads, c ≠ '#' := by simp [Token.heads]
    obtain ⟨c, hc, last, htext⟩ := t.exists_head
    have hsome : Text.trim line = c :: (last ++ Text.trimEnd rest) := by
      rw [Text.trim, htoken, Text.trimEnd_append_of_solid t.solid_text, htext, List.cons_append]
    have hhash : (Text.trim line).head? ≠ some '#' := by simpa [hsome] using hheads c hc
    rw [Definition.contentLines_eq_singleton hfeed (by simp [hsome]) hhash]
    have hrow := Rows.cons (List.ne_nil_of_mem ht) h.trim .nil
    rwa [List.append_nil] at hrow

theorem contentLines_append_ending {ending : List Char} (hline : '\n' ∉ line)
    (hending : ending = ['\n'] ∨ ending = ['\r', '\n']) (text : List Char) :
    Definition.contentLines (line ++ (ending ++ text)) =
      Definition.contentLines line ++ Definition.contentLines text := by
  rcases hending with rfl | rfl
  · exact Definition.contentLines_append line text
  · have hsplit := Definition.contentLines_append (line ++ ['\r']) text
    rw [Definition.contentLines_return hline, List.append_assoc] at hsplit
    exact hsplit

/-- The content lines of a text that lays tokens out. -/
theorem Layout.rows (h : Layout ts text) : Rows ts (Definition.contentLines text) := by
  induction h with
  | last hline => exact hline.rows
  | next hline hending _ ih =>
    rw [contentLines_append_ending hline.lineFeed_notMem hending]
    exact hline.rows.append ih

end Literal

end Multitape
