import Multitape.Proofs.Proper

/-!
Names without line feeds. The value of an assignment goes on behind a line feed only where brackets
are open in its first line (`headed_of_sectionsFrom`). A string opens none, not even if its quote is
not closed on that line, so what it holds stands on one line (`lineFeed_notMem_of_readString`). The
start state is such a string or left out, and the other states that a run can be in are words, so
none of them has a line feed in its name (`unbroken_of_parse`).
-/

set_option autoImplicit false
set_option relaxedAutoImplicit false

namespace Multitape

/-! ### Lines -/

theorem Text.lineFeed_notMem_of_mem_linesFrom {begun text line : List Char} (h : '\n' ∉ begun)
    (hline : line ∈ linesFrom begun text) : '\n' ∉ line := by
  induction text generalizing begun with
  | nil =>
    by_cases hnil : begun = []
    · simp [linesFrom, hnil] at hline
    · obtain rfl : line = begun.reverse := by simpa [linesFrom, hnil] using hline
      simpa using h
  | cons c rest ih =>
    by_cases hc : c = '\n'
    · rw [linesFrom, if_pos hc, List.mem_cons] at hline
      rcases hline with rfl | hline
      · rw [List.mem_reverse]
        unfold dropReturn
        split
        · exact fun hmem ↦ h (List.mem_cons_of_mem _ hmem)
        · exact h
      · exact ih List.not_mem_nil hline
    · rw [linesFrom, if_neg hc] at hline
      refine ih (fun hmem ↦ ?_) hline
      rcases List.mem_cons.1 hmem with hsame | hmem
      · exact hc hsame.symm
      · exact h hmem

theorem Definition.lineFeed_notMem_of_mem_contentLines {text line : List Char}
    (h : line ∈ contentLines text) : '\n' ∉ line := by
  obtain ⟨whole, hwhole, rfl⟩ := List.mem_map.1 (List.mem_filter.1 h).1
  exact fun hmem ↦ Text.lineFeed_notMem_of_mem_linesFrom List.not_mem_nil hwhole
    (Text.mem_of_mem_trim hmem)

/-! ### Strings -/

namespace Definition

theorem depthBehind_of_unclosed {q : Char} {line : List Char} (h : q ∉ line) (depth : Int) :
    depthBehind (some q) depth line = depth := by
  induction line with
  | nil => rfl
  | cons c line ih =>
    obtain ⟨hc, hline⟩ := not_or.1 (List.mem_cons.not.1 h)
    rw [depthBehind, if_neg (Ne.symm hc)]
    exact ih hline

/-- A value by its first line, without white space in front. It ends there unless brackets are
open. -/
structure Headed (value first more : List Char) : Prop where
  value : value = first ++ more
  unbroken : '\n' ∉ first
  trimmed : ∀ c ∈ first.head?, Text.isWhite c = false
  more : more = [] ∨ 0 < depthBehind none 0 first

end Definition

namespace Literal

open Reader

/-- What is taken off stands between two quotes of one kind, and has none of that kind in it. -/
theorem text_of_takeQuoted {text content rest : List Char}
    (h : takeQuoted text = some (content, rest)) :
    ∃ q, (q = '"' ∨ q = '\'') ∧ q ∉ content ∧ text = q :: (content ++ q :: rest) := by
  cases text with
  | nil => cases h
  | cons q text =>
    rw [takeQuoted] at h
    split_ifs at h with hquote
    split at h
    · cases h
    · next last behind hdrop =>
      obtain ⟨rfl, rfl⟩ := Prod.mk.inj (Option.some.inj h)
      have hlast : last = q := by
        have := List.head?_dropWhile_not (· ≠ q) text
        rw [hdrop] at this
        simpa using this
      refine ⟨q, hquote, fun hmem ↦ ?_, ?_⟩
      · simpa using List.mem_takeWhile_imp hmem
      · rw [hlast] at hdrop
        rw [← hdrop, List.takeWhile_append_dropWhile]

/-- A string that is all of a value stands at the head of the value, behind a gap. -/
theorem exists_of_readString {text : List Char} {s : String} (h : readString text = .ok s) :
    ∃ rest, takeQuoted (afterGap false text) = some (s.toList, rest) := by
  obtain ⟨quote, hquote, h⟩ := bind_eq_ok_iff.1 h
  obtain rfl := Except.ok.inj h
  unfold readWhole at hquote
  split at hquote
  · next found last htake =>
    obtain rfl := Except.ok.inj hquote
    simp only [whole, gap, string, take_named, take_bind, take_silent, take_spanned,
      Option.bind_eq_some_iff, Option.map_eq_some_iff] at htake
    obtain ⟨before, hgap, read, ⟨_, ⟨⟨content, rest⟩, htaken, rfl⟩, hread⟩, _, -, _, -, hfound⟩ :=
      htake
    obtain rfl := Option.some.inj hgap
    obtain rfl := Option.some.inj hread
    obtain ⟨rfl, -⟩ := Prod.mk.inj (Option.some.inj hfound)
    exact ⟨rest, by rw [htaken, String.toList_ofList]⟩
  · cases hquote

theorem afterGap_suffix (inComment : Bool) (text : List Char) :
    afterGap inComment text <:+ text := by
  induction text generalizing inComment with
  | nil => exact List.suffix_refl _
  | cons c rest ih =>
    rw [afterGap]
    split_ifs
    · exact (ih _).trans (List.suffix_cons _ _)
    · exact (ih _).trans (List.suffix_cons _ _)
    · exact (ih _).trans (List.suffix_cons _ _)
    · exact (ih _).trans (List.suffix_cons _ _)
    · exact List.suffix_refl _

/-- What a string holds stands on the first line of its value. -/
theorem lineFeed_notMem_of_readString {value first more : List Char} {s : String}
    (headed : Definition.Headed value first more) (h : readString value = .ok s) :
    '\n' ∉ s.toList := by
  obtain ⟨rest, htake⟩ := exists_of_readString h
  obtain ⟨q, hquote, hcontent, htext⟩ := text_of_takeQuoted htake
  rcases headed.more with rfl | hopen
  · have hpart : s.toList ⊆ first := by
      have hsuffix := (afterGap_suffix false value).subset
      rw [htext, headed.value, List.append_nil] at hsuffix
      exact fun c hc ↦ hsuffix (by simp [hc])
    exact fun hmem ↦ headed.unbroken (hpart hmem)
  · cases first with
    | nil => simp [Definition.depthBehind] at hopen
    | cons c line =>
      have hsolid : Text.isWhite c = false := headed.trimmed c rfl
      have hhash : c ≠ '#' := by
        rintro rfl
        simp [Definition.depthBehind] at hopen
      have hgap : afterGap false value = value := by
        have hblank : ¬ (c = '\n' ∨ c = '\r') ∧ ¬ (c = ' ' ∨ c = '\t') := by
          constructor <;> rintro (rfl | rfl) <;> exact absurd hsolid (by decide)
        rw [headed.value, List.cons_append, afterGap, if_neg hblank.1,
          if_neg Bool.false_ne_true, if_neg hblank.2, if_neg hhash]
      rw [hgap, headed.value, List.cons_append, List.cons.injEq] at htext
      obtain ⟨rfl, htext⟩ := htext
      have hclosed : c ∈ line := by
        by_contra hnot
        rw [Definition.depthBehind, if_pos hquote.symm,
          Definition.depthBehind_of_unclosed hnot] at hopen
        exact absurd hopen (Int.lt_irrefl 0)
      have hpart : s.toList ⊆ line := by
        rcases List.append_eq_append_iff.1 htext with ⟨behind, hheld, -⟩ | ⟨behind, hline, -⟩
        · exact absurd (hheld ▸ List.mem_append_left behind hclosed) hcontent
        · exact hline ▸ List.subset_append_left s.toList behind
      exact fun hmem ↦ headed.unbroken (List.mem_cons_of_mem c (hpart hmem))

end Literal

/-! ### Sections -/

namespace Definition

/-- The value goes on, and is headed by the first of its lines. -/
structure Pending.Open (p : Pending) (first : List Char) : Prop where
  lines : ∃ later, p.lines = later ++ [first]
  unbroken : '\n' ∉ first
  trimmed : ∀ c ∈ first.head?, Text.isWhite c = false
  depth : 0 < depthBehind none 0 first

theorem Pending.Open.headed {p : Pending} {first : List Char} (h : p.Open first) :
    ∃ more, Headed p.assignment.value first more := by
  obtain ⟨later, hlines⟩ := h.lines
  have hvalue : ∃ more, p.assignment.value = first ++ more := by
    rw [Pending.assignment, hlines, List.reverse_append, List.reverse_singleton]
    cases later.reverse with
    | nil => exact ⟨[], by simp⟩
    | cons next rest => exact ⟨['\n'] ++ ['\n'].intercalate (next :: rest), by simp⟩
  obtain ⟨more, hvalue⟩ := hvalue
  exact ⟨more, hvalue, h.unbroken, h.trimmed, .inr h.depth⟩

theorem Pending.Open.add {p : Pending} {first : List Char} (h : p.Open first) (line : List Char) :
    (p.add line).Open first := by
  obtain ⟨later, hlines⟩ := h.lines
  exact ⟨⟨line :: later, by rw [Pending.add, hlines, List.cons_append]⟩, h.unbroken, h.trimmed,
    h.depth⟩

/-- The value that an assignment begins with has no line feed in it and no white space in front. -/
theorem of_splitAssignment? {line : List Char} {a : Assignment} (unbroken : '\n' ∉ line)
    (h : splitAssignment? line = some a) :
    '\n' ∉ a.value ∧ ∀ c ∈ a.value.head?, Text.isWhite c = false := by
  unfold splitAssignment? at h
  split at h
  · cases h
  · next equals value hdrop =>
    obtain rfl := Option.some.inj h
    constructor
    · intro hmem
      have hvalue : '\n' ∈ equals :: value := List.mem_cons_of_mem _ (Text.mem_of_mem_trim hmem)
      exact unbroken ((List.dropWhile_sublist _).subset (hdrop ▸ hvalue))
    · exact fun c hc ↦ Text.isWhite_of_head?_trim hc

theorem headed_of_pending {pending : Option Pending}
    (opened : ∀ p ∈ pending, ∃ first, p.Open first) :
    ∀ a ∈ (pending.map Pending.assignment).toList, ∃ first more, Headed a.value first more := by
  intro a ha
  obtain ⟨p, hp, rfl⟩ := Option.map_eq_some_iff.1 (Option.mem_toList.1 ha)
  obtain ⟨first, hopen⟩ := opened p hp
  exact ⟨first, hopen.headed⟩

theorem headed_of_sectionsFrom {pending : Option Pending} {lines : List (List Char)}
    {sections : Sections} (unbroken : ∀ line ∈ lines, '\n' ∉ line)
    (opened : ∀ p ∈ pending, ∃ first, p.Open first)
    (h : sectionsFrom pending lines = .ok sections) :
    ∀ a ∈ sections.assignments, ∃ first more, Headed a.value first more := by
  induction lines generalizing pending sections with
  | nil =>
    obtain rfl := Except.ok.inj h
    exact headed_of_pending opened
  | cons line rest ih =>
    obtain ⟨hline, hrest⟩ := List.forall_mem_cons.1 unbroken
    have hresume : ∀ p : Pending, (0 < p.depth → ∃ first, p.Open first) →
        (∃ first more, Headed p.assignment.value first more) → p.resume rest = .ok sections →
          ∀ a ∈ sections.assignments, ∃ first more, Headed a.value first more := by
      intro p hopen hheaded hp
      rcases Pending.resume_cases hp with ⟨hdepth, hgoes⟩ | ⟨-, others, hothers, rfl⟩
      · refine ih hrest ?_ hgoes
        rintro _ ⟨⟩
        exact hopen hdepth
      · exact List.forall_mem_cons.2 ⟨hheaded, ih hrest (by simp) hothers⟩
    rcases sectionsFrom_cons_cases h with ⟨-, rfl⟩ | ⟨-, ⟨p, rfl, hp⟩ | ⟨a, rfl, ha, hp⟩⟩
    · exact headed_of_pending opened
    · obtain ⟨first, hopen⟩ := opened p rfl
      exact hresume _ (fun _ ↦ ⟨first, hopen.add line⟩) ⟨first, (hopen.add line).headed⟩ hp
    · obtain ⟨hvalue, htrimmed⟩ := of_splitAssignment? hline ha
      have hsame : (Pending.start a).assignment.value = a.value ++ [] := by
        simp [Pending.start, Pending.assignment]
      exact hresume _ (fun hdepth ↦ ⟨a.value, ⟨[], rfl⟩, hvalue, htrimmed, hdepth⟩)
        ⟨a.value, [], hsame, hvalue, htrimmed, .inl rfl⟩ hp

/-! ### Definitions -/

/-- A target that is not terminal is a word. -/
theorem solid_target_of_read {alphabets : List Alphabet} {acceptState rejectState : String}
    {line : List Char} {rule : Rule}
    (h : Rule.read alphabets acceptState rejectState line = .ok rule)
    (running : rule.terminal = none) : ∀ c ∈ rule.target.toList, Text.isWhite c = false := by
  obtain ⟨parts, hparts, -, -, htarget, -⟩ := Rule.parts_of_read h
  obtain ⟨htokens, -⟩ := Rule.Parts.ofTokens?_eq_some_iff.1 hparts
  have hword : parts.target ∈ Text.words line := by
    rw [htokens]
    simp
  rw [running] at htarget
  unfold Rule.resolveTarget at htarget
  dsimp only at htarget
  split_ifs at htarget <;> obtain ⟨hname, hterminal⟩ := Prod.mk.inj htarget
  · cases hterminal
  · cases hterminal
  · cases hterminal
  · cases hterminal
  · rw [hname, String.toList_ofList]
    exact (Text.mem_words hword).2

/-- No state that a run can go on from has a line feed in its name. -/
structure Unbroken (d : Definition) : Prop where
  start : '\n' ∉ d.startState.toList
  target : ∀ rule ∈ d.rules, rule.terminal = none → '\n' ∉ rule.target.toList

theorem unbroken_of_parse {text : List Char} {d : Definition} (h : parse text = .ok d) :
    d.Unbroken := by
  obtain ⟨sections, settings, hsections, hsettings, hcomplete⟩ := parse_eq_ok_iff.1 h
  constructor
  · obtain ⟨-, -, -, -, -, -, -, hstart, -⟩ := parts_of_complete hcomplete
    rw [hstart]
    cases hname : settings.startState with
    | none => decide
    | some name =>
      have hvalue : settings.value? .startState = some name := hname
      rcases Settings.exists_assignment_of_value? hsettings hvalue with hnone | ⟨a, ha, -, hread⟩
      · cases hnone
      · obtain ⟨first, more, headed⟩ := headed_of_sectionsFrom
          (fun line hline ↦ lineFeed_notMem_of_mem_contentLines hline) (by simp) hsections a ha
        exact Literal.lineFeed_notMem_of_readString headed hread
  · intro rule hrule running hmem
    obtain ⟨-, -, -, hrules, -⟩ := parts_of_complete hcomplete
    obtain ⟨line, -, hline⟩ := exists_of_mapM_eq_ok hrules hrule
    have hsolid := solid_target_of_read hline running '\n' hmem
    exact absurd hsolid (by decide)

end Definition

end Multitape
