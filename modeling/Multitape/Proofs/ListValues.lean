import Multitape.Proofs.SpelledLines
import Multitape.Proofs.SpelledValues

/-!
Lists of symbols as values. The lines of a list are gathered by counting brackets, whatever they
mean, and the value is read afterwards, whatever its lines. Both go by the tokens: the lines are
gathered up to the last token and no further (`takes_of_closes`), the value that they make lays out
the same tokens (`exists_gathers`), and from it the list is read that they spell
(`lists_gathered_and_read`).
-/

set_option autoImplicit false
set_option relaxedAutoImplicit false

namespace Multitape

namespace Definition

open Literal

/-! ### Gathering -/

/-- The lines up to the token that closes the brackets of a value belong to it. -/
theorem takes_of_closes {p : Pending} {ts : List Token} {rows : List (List Char)}
    (h : Rows ts rows) (closes : Closes p.depth ts) : p.Takes rows := by
  -- Before every line some bracket is still open, and behind the last one none is.
  induction h generalizing p with
  | nil => exact .closed (Int.not_lt.1 fun hopen ↦ closes.pos_iff.1 hopen rfl)
  | @cons ts us row rows hts hrow h ih =>
    have hdepth : (p.add row).depth = p.depth + depth ts := hrow.depthBehind_eq p.depth
    exact .line (closes.pos_iff.2 (by simp [hts])) hrow.opensRules_eq_false
      (ih (hdepth ▸ closes.of_append))

/-- The text that assigns a list to a name, from what stands behind the first bracket. -/
def assigned (key text : List Char) : List Char := key ++ (' ' :: '=' :: ' ' :: '[' :: text)

variable {key text line : List Char} {ts : List Token}

theorem assigned_append (key a b : List Char) : assigned key (a ++ b) = assigned key a ++ b := by
  simp [assigned]

/-- The line on which a list begins goes up to its last character that is not white space. -/
theorem contentLines_first_line (hkey : IsName key) (hline : OnLine ts line) :
    '\n' ∉ assigned key line ∧
      contentLines (assigned key line) = [assigned key (Text.trimEnd line)] := by
  have hfeed : '\n' ∉ assigned key line := by
    intro hmem
    rcases List.mem_append.1 hmem with hmem | hmem
    · exact absurd (hkey.solid _ hmem) (by decide)
    · exact hline.lineFeed_notMem (by simpa using hmem)
  have htrim : Text.trim (assigned key line) = assigned key (Text.trimEnd line) :=
    hkey.trim_append (by decide) [' ', '=', ' '] line
  have hsome : ∀ rest, assigned key rest ≠ [] := by simp [assigned]
  have hhash : ∀ rest, (assigned key rest).head? ≠ some '#' := by
    intro rest
    obtain ⟨c, last, hcons, -, hc, -⟩ := hkey.exists_cons
    simpa [assigned, hcons] using hc
  rw [← htrim]
  exact ⟨hfeed, contentLines_eq_singleton hfeed (htrim ▸ hsome _) (htrim ▸ hhash _)⟩

/-- The content lines of a list that is assigned to a name: the first one has the name and the
tokens that stand next to it, and the others have the other tokens. -/
theorem exists_contentLines (hkey : IsName key) (layout : Layout ts text) :
    ∃ us vs line rows, ts = us ++ vs ∧ OnLine us line ∧ Rows vs rows ∧
      contentLines (assigned key text) = assigned key line :: rows := by
  cases layout with
  | last hline =>
    obtain ⟨-, hcontent⟩ := contentLines_first_line hkey hline
    exact ⟨ts, [], _, [], (List.append_nil ts).symm, hline.trimEnd, .nil, hcontent⟩
  | @next us vs line ending text hline hending layout =>
    obtain ⟨hfeed, hcontent⟩ := contentLines_first_line hkey hline
    refine ⟨us, vs, _, contentLines text, rfl, hline.trimEnd, layout.rows, ?_⟩
    rw [assigned_append, contentLines_append_ending hfeed hending, hcontent, List.singleton_append]

/-- The text is one assignment, and no line behind it is taken for a part of that. -/
def Gathers (text : List Char) (a : Assignment) : Prop :=
  Sections.ofText text = .ok ⟨[a], []⟩ ∧
    ∀ more, Sections.ofText (text ++ '\n' :: more) = (Sections.ofText more).map (Sections.assign a)

/-- A list that is assigned to a name is gathered as one value that has the tokens of the list. -/
theorem exists_gathers (hkey : IsName key) (layout : Layout ts text) (closes : Closes 1 ts) :
    ∃ value, Gathers (assigned key text) ⟨key, value⟩ ∧ Layout (.openList :: ts) value := by
  obtain ⟨us, vs, line, rows, rfl, hline, hrows, hcontent⟩ := exists_contentLines hkey layout
  -- The value begins with what stands behind the equals sign, less the space in front of it.
  let first := Text.trim (' ' :: '[' :: line)
  have hfirst : OnLine (.openList :: us) first := (OnLine.blank (.inl rfl) (hline.token _)).trim
  have hdepth : (Pending.start ⟨key, first⟩).depth = 1 + depth us := by
    have hall := hfirst.depthBehind_eq 0
    rwa [Int.zero_add] at hall
  have hopens : opensRules (assigned key line) = false := by
    obtain ⟨c, rest, hcons, -, -, hrules⟩ := hkey.exists_cons
    rw [hcons] at hrules ⊢
    exact hrules
  have hgathered : ∀ more, sectionsFrom none (assigned key line :: rows ++ more) =
      (sectionsFrom none more).map
        (Sections.assign ⟨key, ['\n'].intercalate (first :: rows)⟩) := by
    intro more
    rw [List.cons_append, sectionsFrom_none_cons hopens (hkey.splitAssignment?_eq _),
      (takes_of_closes hrows (hdepth ▸ closes.of_append)).resume]
    rfl
  refine ⟨_, ⟨?_, fun more ↦ ?_⟩, (Rows.cons (List.cons_ne_nil _ _) hfirst hrows).layout⟩
  · have hall := hgathered []
    rw [List.append_nil] at hall
    rw [Sections.ofText, hcontent, hall]
    rfl
  · rw [Sections.ofText, contentLines_append, hcontent, hgathered]
    rfl

/-- Lists of symbols, however they are written and laid out, are gathered as one assignment, and
their alphabets are read from its value. This holds of a list of lists for the tapes and of one list
for the machine. -/
theorem lists_gathered_and_read :
    (∀ (lists : List (List Symbol)) (ts : List Token) (text : List Char),
      SpellsList (SpellsList SpellsSymbol) lists (.openList :: ts) → Layout ts text →
        ∃ value, Gathers ("tape_alphabets = [".toList ++ text) ⟨"tape_alphabets".toList, value⟩ ∧
          readAlphabets value = .ok (lists.map .ofList)) ∧
    ∀ (symbols : List Symbol) (ts : List Token) (text : List Char),
      SpellsList SpellsSymbol symbols (.openList :: ts) → Layout ts text →
        ∃ value, Gathers ("alphabet = [".toList ++ text) ⟨"alphabet".toList, value⟩ ∧
          readAlphabet value = .ok (.ofList symbols) := by
  constructor
  · intro lists ts text spelled layout
    have hkey : IsName "tape_alphabets".toList :=
      ⟨by simp [Text.isWhite], by decide, 't', rfl, by decide⟩
    have closes := closes_of_spellsList
      (fun _ _ ↦ nested_of_spellsList fun _ _ ↦ nested_of_spellsSymbol) spelled
    obtain ⟨value, hgathers, hvalue⟩ := exists_gathers hkey layout closes
    exact ⟨value, hgathers, readAlphabets_of_layout spelled hvalue⟩
  · intro symbols ts text spelled layout
    have hkey : IsName "alphabet".toList :=
      ⟨by simp [Text.isWhite], by decide, 'a', rfl, by decide⟩
    have closes := closes_of_spellsList (fun _ _ ↦ nested_of_spellsSymbol) spelled
    obtain ⟨value, hgathers, hvalue⟩ := exists_gathers hkey layout closes
    exact ⟨value, hgathers, readAlphabet_of_layout spelled hvalue⟩

/-- A character in single quotes. -/
def single (c : Char) (h : c ≠ '\'' ∧ Text.isWhite c = false := by decide) : Token :=
  .quotation ⟨'\'', some c, .inr rfl, by simpa using h.1, by simpa using h.2⟩

/-- A character in double quotes. -/
def double (c : Char) (h : c ≠ '"' ∧ Text.isWhite c = false := by decide) : Token :=
  .quotation ⟨'"', some c, .inl rfl, by simpa using h.1, by simpa using h.2⟩

/-- Double quotes with nothing between them. -/
def nothing : Token := .quotation ⟨'"', none, .inl rfl, by simp, by simp⟩

/-- Two lists, the first one of symbols that look like parts of a list or of a comment. -/
def litteredTokens : List Token :=
  [.openList, single '[', .comma, .symbolWord, .openTuple, double '#', .comma, nothing, .comma,
    .closeTuple, .comma, .openTuple, single ']', .comma, .noneWord, .comma, single '"', .closeTuple,
    .closeList, .comma, .openList, .closeList, .comma, .closeList]

def litteredText : String :=
  " # [ \"two\n['[', Symbol (\"#\", \"\",),\r\n \t\n(']',None, '\"')], # it's\n[],]"

theorem spells_littered : SpellsList (SpellsList SpellsSymbol)
    [[.plain '[', .plain '#', ⟨']', none, some '"'⟩], []] (.openList :: litteredTokens) := by
  have hbracket : SpellsSymbol (.plain '[') [single '['] := .bare rfl
  have helements : SpellsElements (.plain '#') [double '#', .comma, nothing] :=
    .above rfl (.quotation rfl)
  have hhash : SpellsTuple (.plain '#')
      [.symbolWord, .openTuple, double '#', .comma, nothing, .comma, .closeTuple] :=
    .mk (.inr rfl) helements (.inr rfl)
  have hstack : SpellsElements ⟨']', none, some '"'⟩
      [single ']', .comma, .noneWord, .comma, single '"'] := .below rfl .none (.quotation rfl)
  have hmarked : SpellsTuple ⟨']', none, some '"'⟩
      [.openTuple, single ']', .comma, .noneWord, .comma, single '"', .closeTuple] :=
    .mk (.inl rfl) hstack (.inl rfl)
  have hfirst := SpellsList.items hbracket
    (.more (.tuple hhash) (.more (.tuple hmarked) (.none (.inl rfl))))
  exact .items hfirst (.more .empty (.none (.inr rfl)))

theorem layout_littered : Layout litteredTokens litteredText.toList := by
  rw [litteredText, String.toList_ofList]
  have space {ts : List Token} {line : List Char} (h : OnLine ts line) : OnLine ts (' ' :: line) :=
    .blank (.inl rfl) h
  have first : OnLine [] [' ', '#', ' ', '[', ' ', '"', 't', 'w', 'o'] :=
    space (.comment (by simp))
  have second := OnLine.token .openList <| .token (single '[') <| .token .comma <| space <|
    .token .symbolWord <| space <| .token .openTuple <| .token (double '#') <| .token .comma <|
    space <| .token nothing <| .token .comma <| .token .closeTuple <| .token .comma .empty
  have third : OnLine [] [' ', '\t'] := space (.blank (.inr rfl) .empty)
  have comment : OnLine [] ['#', ' ', 'i', 't', '\'', 's'] := .comment (by simp)
  have fourth := OnLine.token .openTuple <| .token (single ']') <| .token .comma <|
    .token .noneWord <| .token .comma <| space <| .token (single '"') <| .token .closeTuple <|
    .token .closeList <| .token .comma <| space comment
  have fifth := OnLine.token .openList <| .token .closeList <| .token .comma <|
    .token .closeList .empty
  exact .next first (.inl rfl) <| .next second (.inr rfl) <| .next third (.inl rfl) <|
    .next fourth (.inl rfl) <| .last fifth

theorem littered_lists_gathered_and_read :
    (∃ value, Gathers ("tape_alphabets = [".toList ++ litteredText.toList)
        ⟨"tape_alphabets".toList, value⟩ ∧
      readAlphabets value = .ok [.ofList [.plain '[', .plain '#', ⟨']', none, some '"'⟩], .empty]) ∧
    ∃ value, Gathers ("alphabet = [".toList ++ "\n# ]\n'=']".toList) ⟨"alphabet".toList, value⟩ ∧
      readAlphabet value = .ok (.ofList [.plain '=']) := by
  have hequals : SpellsSymbol (.plain '=') [single '='] := .bare rfl
  have spelled := SpellsList.items hequals (.none (.inl rfl))
  have layout : Layout [single '=', .closeList] "\n# ]\n'=']".toList := by
    rw [String.toList_ofList]
    have comment : OnLine [] ['#', ' ', ']'] := .comment (by simp)
    exact .next .empty (.inl rfl) <| .next comment (.inl rfl) <|
      .last (.token _ (.token .closeList .empty))
  exact ⟨lists_gathered_and_read.1 _ _ _ spells_littered layout_littered,
    lists_gathered_and_read.2 _ _ _ spelled layout⟩

end Definition

end Multitape
