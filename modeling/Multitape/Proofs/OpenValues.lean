import Multitape.Proofs.Brackets

/-!
Values that are still open where the assignments end. The sections of a text count the brackets of
a value line by line (`openBrackets`): what goes on has brackets open, and only the last value may
have some open in the end (`closed_of_sectionsFrom`). Such a value is meant to be refused when it is
read.

For the sections a comment goes to the end of its line, but for the forms that values are read in it
ends at a carriage return already. So the two do not count the same brackets, but the forms close
more brackets than the sections do only where a closing bracket stands behind a carriage return in a
comment (`openBrackets_le_surplus`). A value with open brackets is refused unless one of its lines
hides a bracket in this way (`refused_of_open`), and otherwise it may be accepted
(`open_value_accepted`).
-/

set_option autoImplicit false
set_option relaxedAutoImplicit false

namespace Multitape.Definition

open Literal

/-- How many more brackets the lines of a value open than they close. -/
def openBrackets (value : List Char) : Int :=
  (Text.lines value).foldl (depthBehind none) 0

/-- What stands behind the first `#` of a line that is not between quotes. -/
def commentOf (quote : Option Char) : List Char → List Char
  | [] => []
  | c :: rest =>
    match quote with
    | some q => commentOf (if c = q then none else some q) rest
    | none =>
      if c = '\'' ∨ c = '"' then commentOf (some c) rest
      else if c = '#' then rest
      else commentOf none rest

/-- A closing bracket. -/
def Closing (c : Char) : Prop := c = ']' ∨ c = ')'

instance : DecidablePred Closing := fun c ↦ inferInstanceAs (Decidable (c = ']' ∨ c = ')'))

/-- In the comment of the line a closing bracket stands behind a carriage return. -/
def HidesBracket (line : List Char) : Prop :=
  ∃ c ∈ (commentOf none line).dropWhile (· ≠ '\r'), Closing c

-- A search among the characters of the comment, and not among all characters.
instance : DecidablePred HidesBracket := fun line ↦
  List.decidableBEx Closing ((commentOf none line).dropWhile (· ≠ '\r'))

/-! ### Lines -/

/-- From here on the count does not depend on whether a quoted stretch or a comment was begun. -/
def CountsAlone (rest : List Char) (n : Int) : Prop := ∀ within, surplus within rest = n

variable {line rest : List Char} {n : Int}

theorem countsAlone_nil : CountsAlone [] 0 := surplus_nil

theorem countsAlone_lineFeed (rest : List Char) :
    CountsAlone ('\n' :: rest) (surplus .plain rest) := by
  intro within
  cases within <;> simp [surplus, weight]

theorem countsAlone_return (rest : List Char) :
    CountsAlone ('\r' :: '\n' :: rest) (surplus .plain rest) := by
  intro within
  have hnext := countsAlone_lineFeed rest
  cases within with
  | plain => rw [surplus_plain_cons (by decide) (by decide), hnext]; exact Int.zero_add _
  | quoted q => rw [surplus, hnext]
  | comment => rw [surplus, hnext]

/-- Without a closing bracket, a stretch closes none. -/
theorem le_surplus_of_unclosing (alone : CountsAlone rest n) (h : ∀ c ∈ line, ¬ Closing c)
    (within : Within) : n ≤ surplus within (line ++ rest) := by
  induction line generalizing within with
  | nil => exact Int.le_of_eq (alone within).symm
  | cons c line ih =>
    obtain ⟨hc, hline⟩ := List.forall_mem_cons.1 h
    cases within with
    | quoted q => exact ih hline _
    | comment => exact ih hline _
    | plain =>
      rw [List.cons_append, surplus]
      split_ifs with hquote hhash
      · exact ih hline _
      · exact ih hline _
      · have hweight : 0 ≤ weight c := by
          unfold weight
          split_ifs with hopen hclose
          · exact Int.one_nonneg
          · exact absurd hclose hc
          · exact Int.le_refl 0
        have hrest := ih hline .plain
        omega

theorem le_surplus_comment (alone : CountsAlone rest n) (unbroken : '\n' ∉ line)
    (h : ∀ c ∈ line.dropWhile (· ≠ '\r'), ¬ Closing c) :
    n ≤ surplus .comment (line ++ rest) := by
  induction line with
  | nil => exact Int.le_of_eq (alone .comment).symm
  | cons c line ih =>
    obtain ⟨hc, unbroken⟩ := not_or.1 (List.mem_cons.not.1 unbroken)
    by_cases hreturn : c = '\r'
    · rw [List.dropWhile_cons_of_neg (by simp [hreturn])] at h
      exact le_surplus_of_unclosing alone h .comment
    · rw [List.dropWhile_cons_of_pos (by simp [hreturn])] at h
      rw [List.cons_append, surplus, if_neg (not_or.2 ⟨Ne.symm hc, hreturn⟩)]
      exact ih unbroken h

/-- Where a line lies that has begun with a quote, or with none. -/
def withinOf : Option Char → Within
  | none => .plain
  | some q => .quoted q

/-- The forms count at least the brackets that the sections count on the line. -/
theorem depthBehind_add_le (depth : Int) (alone : CountsAlone rest n) (unbroken : '\n' ∉ line)
    {quote : Option Char}
    (h : ∀ c ∈ (commentOf quote line).dropWhile (· ≠ '\r'), ¬ Closing c) :
    depthBehind quote depth line + n ≤ depth + surplus (withinOf quote) (line ++ rest) := by
  induction line generalizing quote depth with
  | nil =>
    have hequal : depthBehind quote depth [] + n =
        depth + surplus (withinOf quote) ([] ++ rest) := by
      rw [depthBehind, List.nil_append, alone]
    exact Int.le_of_eq hequal
  | cons c line ih =>
    obtain ⟨hc, unbroken⟩ := not_or.1 (List.mem_cons.not.1 unbroken)
    cases quote with
    | some q =>
      by_cases hend : c = q
      · rw [commentOf, if_pos hend] at h
        rw [depthBehind, if_pos hend, List.cons_append, withinOf, surplus, if_pos (.inl hend)]
        exact ih depth unbroken h
      · rw [commentOf, if_neg hend] at h
        rw [depthBehind, if_neg hend, List.cons_append, withinOf, surplus,
          if_neg (not_or.2 ⟨hend, Ne.symm hc⟩)]
        exact ih depth unbroken h
    | none =>
      rw [commentOf] at h
      rw [depthBehind, List.cons_append, withinOf, surplus]
      by_cases hquote : c = '\'' ∨ c = '"'
      · rw [if_pos hquote] at h ⊢
        rw [if_pos hquote]
        exact ih depth unbroken h
      · rw [if_neg hquote] at h ⊢
        rw [if_neg hquote]
        by_cases hhash : c = '#'
        · -- The sections count nothing from here on, and the forms close no bracket.
          rw [if_pos hhash] at h ⊢
          rw [if_pos hhash]
          have hcomment := le_surplus_comment alone unbroken h
          omega
        · rw [if_neg hhash] at h ⊢
          rw [if_neg hhash, weight]
          have hrest : ∀ d : Int, depthBehind none d line + n ≤
              d + surplus .plain (line ++ rest) := fun d ↦ ih d unbroken h
          split_ifs
          · have := hrest (depth + 1)
            omega
          · have := hrest (depth - 1)
            omega
          · have := hrest depth
            omega

theorem exists_end_of_dropReturn (begun : List Char) :
    ∃ ending, begun.reverse = (Text.dropReturn begun).reverse ++ ending ∧
      ∀ rest, CountsAlone (ending ++ '\n' :: rest) (surplus .plain rest) := by
  unfold Text.dropReturn
  split
  · exact ⟨['\r'], by simp, countsAlone_return⟩
  · exact ⟨[], by simp, countsAlone_lineFeed⟩

theorem foldl_depthBehind_le (depth : Int) {begun text : List Char} (unbroken : '\n' ∉ begun)
    (shown : ∀ line ∈ Text.linesFrom begun text, ¬ HidesBracket line) :
    (Text.linesFrom begun text).foldl (depthBehind none) depth ≤
      depth + surplus .plain (begun.reverse ++ text) := by
  have hclosing : ∀ {line : List Char}, ¬ HidesBracket line →
      ∀ c ∈ (commentOf none line).dropWhile (· ≠ '\r'), ¬ Closing c :=
    fun h c hc hclose ↦ h ⟨c, hc, hclose⟩
  induction text generalizing begun depth with
  | nil =>
    by_cases hnil : begun = []
    · simp [Text.linesFrom, hnil]
    · have hlines : Text.linesFrom begun [] = [begun.reverse] := by simp [Text.linesFrom, hnil]
      rw [hlines] at shown ⊢
      have hline := depthBehind_add_le depth countsAlone_nil (by simpa using unbroken)
        (hclosing (shown _ List.mem_cons_self))
      rwa [Int.add_zero] at hline
  | cons c text ih =>
    by_cases hc : c = '\n'
    · subst hc
      rw [Text.linesFrom, if_pos rfl] at shown ⊢
      obtain ⟨hhead, hlater⟩ := List.forall_mem_cons.1 shown
      -- The carriage return that is not part of the line still stands in the text.
      obtain ⟨ending, hbegun, hends⟩ := exists_end_of_dropReturn begun
      have hline : '\n' ∉ (Text.dropReturn begun).reverse := by
        intro hmem
        exact unbroken (List.mem_reverse.1 (hbegun ▸ List.mem_append_left ending hmem))
      have hfirst := depthBehind_add_le depth (hends text) hline (hclosing hhead)
      have hrest := ih (depthBehind none depth (Text.dropReturn begun).reverse)
        List.not_mem_nil hlater
      rw [List.foldl_cons, hbegun, List.append_assoc]
      exact Int.le_trans hrest hfirst
    · rw [Text.linesFrom, if_neg hc] at shown ⊢
      have hbegun : '\n' ∉ c :: begun := by
        rintro (_ | ⟨_, hmem⟩)
        · exact hc rfl
        · exact unbroken hmem
      have hrest := ih depth hbegun shown
      rwa [List.reverse_cons, List.append_assoc, List.singleton_append] at hrest

/-- Where no line hides a bracket, the forms count at least the brackets that the sections count. -/
theorem openBrackets_le_surplus {value : List Char}
    (shown : ∀ line ∈ Text.lines value, ¬ HidesBracket line) :
    openBrackets value ≤ surplus .plain value := by
  have h := foldl_depthBehind_le 0 List.not_mem_nil shown
  rwa [Int.zero_add] at h

/-! ### Sections -/

/-- The line is one line and keeps its end: it has no line feed in it and no carriage return at its
end. -/
structure Whole (line : List Char) : Prop where
  unbroken : '\n' ∉ line
  ending : line.getLast? ≠ some '\r'

theorem whole_trim {text : List Char} (unbroken : '\n' ∉ text) : Whole (Text.trim text) where
  unbroken hmem := unbroken (Text.mem_of_mem_trim hmem)
  ending hlast := absurd (Text.isWhite_of_getLast?_trim hlast) (by decide)

theorem whole_of_mem_contentLines {text : List Char} (h : line ∈ contentLines text) :
    Whole line := by
  obtain ⟨written, hwritten, rfl⟩ := List.mem_map.1 (List.mem_filter.1 h).1
  exact whole_trim (Text.lineFeed_notMem_of_mem_linesFrom List.not_mem_nil hwritten)

theorem whole_of_splitAssignment? {a : Assignment} (unbroken : '\n' ∉ line)
    (h : splitAssignment? line = some a) : Whole a.value := by
  unfold splitAssignment? at h
  split at h
  · cases h
  · next equals value hdrop =>
    obtain rfl := Option.some.inj h
    refine whole_trim fun hmem ↦ unbroken ?_
    exact (List.dropWhile_sublist _).subset (hdrop ▸ List.mem_cons_of_mem equals hmem)

/-- The lines that a value is put together from are its lines, but for an empty one at the end. -/
theorem foldl_lines_intercalate {lines : List (List Char)} (whole : ∀ line ∈ lines, Whole line)
    (depth : Int) : (Text.lines (['\n'].intercalate lines)).foldl (depthBehind none) depth =
      lines.foldl (depthBehind none) depth := by
  induction lines generalizing depth with
  | nil => rfl
  | cons line lines ih =>
    obtain ⟨hline, hlines⟩ := List.forall_mem_cons.1 whole
    cases lines with
    | nil =>
      rw [List.intercalate_singleton, Text.lines, Text.linesFrom_of_line hline.unbroken]
      by_cases hnil : line = []
      · simp [hnil, depthBehind]
      · simp [hnil]
    | cons next lines =>
      rw [List.intercalate_cons_cons, List.append_assoc, List.singleton_append,
        Text.lines_line hline.unbroken hline.ending, List.foldl_cons, List.foldl_cons]
      exact ih hlines _

/-- The depth of a value that goes on is the count of its lines. -/
structure Pending.Counted (p : Pending) : Prop where
  depth : p.depth = p.lines.reverse.foldl (depthBehind none) 0
  whole : ∀ line ∈ p.lines, Whole line

theorem Pending.Counted.depth_eq {p : Pending} (h : p.Counted) :
    p.depth = openBrackets p.assignment.value := by
  rw [h.depth, openBrackets, Pending.assignment, foldl_lines_intercalate]
  exact fun line hline ↦ h.whole line (List.mem_reverse.1 hline)

theorem Pending.counted_start {a : Assignment} (whole : Whole a.value) :
    (Pending.start a).Counted where
  depth := rfl
  whole := List.forall_mem_singleton.2 whole

theorem Pending.Counted.add {p : Pending} (h : p.Counted) (whole : Whole line) :
    (p.add line).Counted where
  depth := by simp [Pending.add, h.depth]
  whole := List.forall_mem_cons.2 ⟨whole, h.whole⟩

/-- Every value but the last has been continued until no bracket was open. -/
theorem closed_of_sectionsFrom {pending : Option Pending} {lines : List (List Char)}
    {sections : Sections} (whole : ∀ line ∈ lines, Whole line)
    (counted : ∀ p ∈ pending, p.Counted) (h : sectionsFrom pending lines = .ok sections) :
    ∀ a ∈ sections.assignments.dropLast, openBrackets a.value ≤ 0 := by
  have hlast : ∀ pending : Option Pending,
      (pending.map Pending.assignment).toList.dropLast = [] := by
    intro pending
    cases pending <;> rfl
  induction lines generalizing pending sections with
  | nil =>
    obtain rfl := Except.ok.inj h
    simp [hlast]
  | cons line rest ih =>
    obtain ⟨hline, hrest⟩ := List.forall_mem_cons.1 whole
    have hresume : ∀ p : Pending, p.Counted → p.resume rest = .ok sections →
        ∀ a ∈ sections.assignments.dropLast, openBrackets a.value ≤ 0 := by
      intro p hcounted hp
      rcases Pending.resume_cases hp with ⟨-, hgoes⟩ | ⟨hdepth, others, hothers, rfl⟩
      · refine ih hrest ?_ hgoes
        rintro _ ⟨⟩
        exact hcounted
      · have hclosed := ih hrest (by simp) hothers
        intro a ha
        change a ∈ (p.assignment :: others.assignments).dropLast at ha
        by_cases hnil : others.assignments = []
        · rw [hnil] at ha
          cases ha
        · rw [List.dropLast_cons_of_ne_nil hnil] at ha
          rcases List.mem_cons.1 ha with rfl | ha
          · rwa [← hcounted.depth_eq]
          · exact hclosed a ha
    rcases sectionsFrom_cons_cases h with ⟨-, rfl⟩ | ⟨-, ⟨p, rfl, hp⟩ | ⟨a, rfl, ha, hp⟩⟩
    · simp [hlast]
    · exact hresume _ ((counted p rfl).add hline) hp
    · exact hresume _ (Pending.counted_start (whole_of_splitAssignment? hline.unbroken ha)) hp

/-! ### Refusal -/

theorem refused_of_open {text : List Char} {sections : Sections} {a : Assignment}
    (hsections : Sections.ofText text = .ok sections) (ha : a ∈ sections.assignments)
    (isOpen : 0 < openBrackets a.value) (shown : ∀ line ∈ Text.lines a.value, ¬ HidesBracket line) :
    ∃ fault, parse text = .error fault := by
  cases hparse : parse text with
  | error fault => exact ⟨fault, rfl⟩
  | ok d =>
    obtain ⟨sections', settings, hsections', hsettings, -⟩ := parse_eq_ok_iff.1 hparse
    obtain rfl := Except.ok.inj (hsections.symm.trans hsections')
    obtain ⟨key, -, value, hread⟩ := Settings.exists_read_of_assignments hsettings ha
    obtain ⟨first, more, headed⟩ := headed_of_sectionsFrom
      (fun line hline ↦ lineFeed_notMem_of_mem_contentLines hline) (by simp) hsections a ha
    have hsurplus : surplus .plain a.value = 0 :=
      surplus_of_read hread fun s hs ↦ lineFeed_notMem_of_readString headed hs
    have hcount := openBrackets_le_surplus shown
    omega

/-- Among the values of a text only the last can have brackets open in the end, and then the text is
refused, unless a line of the value hides a closing bracket behind a carriage return in its comment.
If the text is not that of a definition, but read as the value of some key, and has brackets open
itself, it is refused as well unless one of its lines hides a bracket or it is a string over several
lines. -/
theorem open_values_refused (text : List Char) :
    (∀ sections, Sections.ofText text = .ok sections →
      (∀ a ∈ sections.assignments.dropLast, openBrackets a.value ≤ 0) ∧
      ∀ a ∈ sections.assignments, 0 < openBrackets a.value →
        (∀ line ∈ Text.lines a.value, ¬ HidesBracket line) →
          ∃ fault, parse text = .error fault) ∧
    ∀ (key : Key) (value : key.Value), key.read text = .ok value →
      0 < openBrackets text → (∃ line ∈ Text.lines text, HidesBracket line) ∨
        ∃ s, readString text = .ok s ∧ '\n' ∈ s.toList := by
  refine ⟨fun sections hsections ↦ ⟨?_, fun a ha isOpen shown ↦ ?_⟩,
    fun key value hread isOpen ↦ ?_⟩
  · exact closed_of_sectionsFrom (fun line hline ↦ whole_of_mem_contentLines hline) (by simp)
      hsections
  · exact refused_of_open hsections ha isOpen shown
  · by_contra hneither
    obtain ⟨hshown, hstring⟩ := not_or.1 hneither
    have hsurplus : surplus .plain text = 0 :=
      surplus_of_read hread fun s hs hmem ↦ hstring ⟨s, hs, hmem⟩
    have hcount := openBrackets_le_surplus fun line hline hhides ↦ hshown ⟨line, hline, hhides⟩
    omega

/-- A list whose last line but one ends in a comment with a bracket in it, and a string that opens a
bracket in its second line. -/
theorem unfinished_list_refused :
    (∃ fault, parse "alphabet = [\n'0' # ]\n'1'\nq0 0 q1 0 r".toList = .error fault) ∧
      ∃ s, readString "'a\n['".toList = .ok s ∧ '\n' ∈ s.toList := by
  obtain ⟨htext, -⟩ := open_values_refused "alphabet = [\n'0' # ]\n'1'\nq0 0 q1 0 r".toList
  obtain ⟨-, hvalue⟩ := open_values_refused "'a\n['".toList
  obtain ⟨-, hrefused⟩ := htext
    ⟨[⟨"alphabet".toList, "[\n'0' # ]\n'1'".toList⟩], ["q0 0 q1 0 r".toList]⟩ rfl
  refine ⟨hrefused _ List.mem_cons_self (by decide) (by decide), ?_⟩
  rcases hvalue .description "a\n[" rfl (by decide) with hhides | hstring
  · exact absurd hhides (by decide)
  · exact hstring

/-- The carriage return ends the comment for the reader of the list, which finds the bracket behind
it, but not for the count of open brackets. -/
theorem open_value_accepted :
    ¬ ∀ text sections, Sections.ofText text = .ok sections → ∀ a ∈ sections.assignments,
      0 < openBrackets a.value → ∃ fault, parse text = .error fault := by
  intro h
  obtain ⟨fault, hfault⟩ := h "alphabet = ['0' # x\r]".toList
    ⟨[⟨"alphabet".toList, "['0' # x\r]".toList⟩], []⟩ rfl _ List.mem_cons_self (by decide)
  have haccepted : parse "alphabet = ['0' # x\r]".toList =
      .ok { alphabet := .ofList [.plain '0'] } := rfl
  rw [haccepted] at hfault
  cases hfault

end Multitape.Definition
