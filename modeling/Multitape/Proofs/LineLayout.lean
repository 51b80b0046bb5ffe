import Multitape.Definition.Parse
import Multitape.Proofs.Sections
import Mathlib.Logic.Relation

/-!
Definitions laid out anew. The layout of a text is all that may change without a change of what its
lines say: lines that are blank or comments, the white space at both ends of every line, and the way
in which lines end. Each such change leaves the content lines of the text as they are
(`LayoutEdit.contentLines_eq`), and nothing else of a text is ever looked at, so definitions and
faults alike are the same for texts that differ by any number of changes (`parse_eq_of_relaid`).
-/

set_option autoImplicit false
set_option relaxedAutoImplicit false

namespace Multitape

/-! ### Gaps at the ends of a line -/

namespace Text

variable {gap text : List Char}

theorem trim_gap_append (white : ∀ c ∈ gap, isWhite c = true) : trim (gap ++ text) = trim text := by
  rw [trim, trimStart, List.dropWhile_append_of_pos white, ← trimStart, ← trim]

theorem trim_append_gap (white : ∀ c ∈ gap, isWhite c = true) : trim (text ++ gap) = trim text := by
  induction gap generalizing text with
  | nil => rw [List.append_nil]
  | cons c gap ih =>
    obtain ⟨hc, hgap⟩ := List.forall_mem_cons.1 white
    rw [← List.singleton_append, ← List.append_assoc, ih hgap, trim_concat_of_white hc]

end Text

namespace Definition

open Text

/-- A line starts behind this part of a text. -/
def StartsLine (before : List Char) : Prop := before = [] ∨ ∃ earlier, before = earlier ++ ['\n']

/-- A line ends in front of this part of a text. -/
def EndsLine (behind : List Char) : Prop :=
  behind = [] ∨ ∃ later, behind = '\n' :: later ∨ behind = '\r' :: '\n' :: later

/-- White space that does not end a line. -/
def IsPadding (gap : List Char) : Prop := (∀ c ∈ gap, isWhite c = true) ∧ '\n' ∉ gap

/-- A line that is blank, or a comment behind some white space. -/
def IsSilent (line : List Char) : Prop := '\n' ∉ line ∧ ∀ c ∈ (trimStart line).head?, c = '#'

/-- One change to the layout of a text: a line that says nothing is put in front of another line or
behind the last one, white space is put at the start or the end of a line, or a carriage return in
front of a line feed. -/
inductive LayoutEdit : List Char → List Char → Prop
  | line {before line behind : List Char} (starts : StartsLine before) (silent : IsSilent line) :
    LayoutEdit (before ++ behind) (before ++ (line ++ '\n' :: behind))
  | lastLine {text line : List Char} (silent : IsSilent line) :
    LayoutEdit text (text ++ '\n' :: line)
  | indent {before gap behind : List Char} (starts : StartsLine before) (padding : IsPadding gap) :
    LayoutEdit (before ++ behind) (before ++ (gap ++ behind))
  | trail {before gap behind : List Char} (ends : EndsLine behind) (padding : IsPadding gap) :
    LayoutEdit (before ++ behind) (before ++ (gap ++ behind))
  | ending {before behind : List Char} :
    LayoutEdit (before ++ '\n' :: behind) (before ++ '\r' :: '\n' :: behind)

/-- The texts differ by any number of changes to the layout, each of them made or undone. -/
def Relaid : List Char → List Char → Prop := Relation.EqvGen LayoutEdit

/-! ### What a change leaves alone -/

variable {a b before behind gap line text : List Char}

theorem exists_last_line (text : List Char) :
    ∃ before line, StartsLine before ∧ '\n' ∉ line ∧ text = before ++ line := by
  by_cases h : '\n' ∈ text
  · obtain ⟨line, before, htext, hline⟩ := List.eq_append_cons_of_mem (List.mem_reverse.2 h)
    refine ⟨before.reverse ++ ['\n'], line.reverse, .inr ⟨_, rfl⟩, by simpa using hline, ?_⟩
    rw [← List.reverse_reverse text, htext]
    simp
  · exact ⟨[], text, .inl rfl, h, rfl⟩

theorem contentLines_append_of_starts (starts : StartsLine before) (behind : List Char) :
    contentLines (before ++ behind) = contentLines before ++ contentLines behind := by
  rcases starts with rfl | ⟨earlier, rfl⟩
  · rfl
  · have hearlier : contentLines (earlier ++ ['\n']) = contentLines earlier :=
      (contentLines_append earlier []).trans (List.append_nil _)
    rw [hearlier, List.append_assoc, List.singleton_append, contentLines_append]

theorem contentLines_of_silent (silent : IsSilent line) : contentLines line = [] := by
  obtain ⟨hfeed, hhash⟩ := silent
  refine contentLines_eq_nil hfeed ?_
  rw [trim]
  cases hstart : trimStart line with
  | nil => exact .inl rfl
  | cons c rest =>
    obtain rfl := hhash c (by rw [hstart]; rfl)
    rw [trimEnd_cons_of_solid (by decide)]
    exact .inr rfl

theorem contentLines_gap_append (padding : IsPadding gap) (text : List Char) :
    contentLines (gap ++ text) = contentLines text := by
  have hline : ∀ line, '\n' ∉ line → contentLines (gap ++ line) = contentLines line :=
    fun line hline ↦ contentLines_eq_of_trim_eq (by simp [padding.2, hline]) hline
      (trim_gap_append padding.1)
  by_cases h : '\n' ∈ text
  · obtain ⟨first, rest, rfl, hfirst⟩ := List.eq_append_cons_of_mem h
    rw [← List.append_assoc, contentLines_append, hline first hfirst, ← contentLines_append]
  · exact hline text h

theorem contentLines_append_gap (padding : IsPadding gap) (text : List Char) :
    contentLines (text ++ gap) = contentLines text := by
  obtain ⟨before, line, starts, hline, rfl⟩ := exists_last_line text
  have hlast : contentLines (line ++ gap) = contentLines line :=
    contentLines_eq_of_trim_eq (by simp [padding.2, hline]) hline (trim_append_gap padding.1)
  rw [List.append_assoc, contentLines_append_of_starts starts, hlast,
    ← contentLines_append_of_starts starts]

theorem isPadding_singleton {c : Char} (white : isWhite c = true) (feed : '\n' ≠ c) :
    IsPadding [c] :=
  ⟨List.forall_mem_singleton.2 white, List.not_mem_cons_of_ne_of_not_mem feed List.not_mem_nil⟩

theorem isPadding_return : IsPadding ['\r'] := isPadding_singleton rfl (by decide)

theorem contentLines_append_return (before behind : List Char) :
    contentLines (before ++ '\r' :: '\n' :: behind) = contentLines (before ++ '\n' :: behind) := by
  have hsplit := contentLines_append (before ++ ['\r']) behind
  rw [contentLines_append_gap isPadding_return, ← contentLines_append, List.append_assoc] at hsplit
  exact hsplit

theorem contentLines_append_of_ends (ends : EndsLine behind) (before : List Char) :
    contentLines (before ++ behind) = contentLines before ++ contentLines behind := by
  have hfeed : ∀ later, contentLines (before ++ '\n' :: later) =
      contentLines before ++ contentLines ('\n' :: later) := by
    intro later
    rw [contentLines_append]
    exact congrArg _ (contentLines_append [] later).symm
  rcases ends with rfl | ⟨later, rfl | rfl⟩
  · rw [List.append_nil]
    exact (List.append_nil _).symm
  · exact hfeed later
  · rw [contentLines_append_return, hfeed]
    exact congrArg _ (contentLines_append_return [] later).symm

/-- A change to the layout leaves the content lines as they are. -/
theorem LayoutEdit.contentLines_eq (h : LayoutEdit a b) : contentLines a = contentLines b := by
  cases h with
  | @line before line behind starts silent =>
    rw [contentLines_append_of_starts starts, contentLines_append_of_starts starts,
      contentLines_append, contentLines_of_silent silent, List.nil_append]
  | lastLine silent =>
    rw [contentLines_append, contentLines_of_silent silent, List.append_nil]
  | @indent before gap behind starts padding =>
    rw [contentLines_append_of_starts starts, contentLines_append_of_starts starts,
      contentLines_gap_append padding]
  | @trail before gap behind ends padding =>
    rw [← List.append_assoc, contentLines_append_of_ends ends, contentLines_append_of_ends ends,
      contentLines_append_gap padding]
  | ending => exact (contentLines_append_return _ _).symm

theorem parse_eq_of_contentLines_eq (h : contentLines a = contentLines b) : parse a = parse b := by
  rw [parse, parse, Sections.ofText, Sections.ofText, h]

/-- Texts that differ in nothing but their layout define the same machine, or have the same
fault. -/
theorem parse_eq_of_relaid {text relaid : List Char} (h : Relaid text relaid) :
    parse text = parse relaid := by
  have hcontent : contentLines text = contentLines relaid := by
    induction h with
    | rel _ _ hedit => exact hedit.contentLines_eq
    | refl _ => rfl
    | symm _ _ _ ih => exact ih.symm
    | trans _ _ _ _ _ ih ih' => exact ih.trans ih'
  exact parse_eq_of_contentLines_eq hcontent

def opening : List Char := "alphabet = [".toList

def closing : List Char := "'0']\nq0 0 q1 B r".toList

def remark : List Char := "  # zeros".toList

def compactText : List Char := opening ++ '\n' :: closing

/-- The same lines with remarks in front of them and among them, other ends and other gaps. -/
def looseText : List Char :=
  remark ++ '\r' :: '\n' :: '\t' :: (opening ++ '\u00a0' :: '\n' :: (remark ++ '\n' ::
    (closing ++ ['\n'])))

/-- What both texts define. -/
def zeros : Definition where
  alphabet := .ofList [.plain '0']
  rules := [⟨"q0", [.plain '0'], "q1", [.plain 'B'], [.right], some .accept⟩]

theorem isSilent_remark : IsSilent remark := by
  refine ⟨by decide, ?_⟩
  rintro c ⟨⟩
  rfl

theorem relaid_looseText : Relaid compactText looseText := by
  let first := remark ++ ['\r', '\n']
  let second := first ++ ('\t' :: opening)
  have heading := @LayoutEdit.line [] remark compactText (.inl rfl) isSilent_remark
  have ending := @LayoutEdit.ending remark compactText
  have indent := @LayoutEdit.indent first ['\t'] compactText
    (.inr ⟨remark ++ ['\r'], by simp [first]⟩) (isPadding_singleton rfl (by decide))
  have trail := @LayoutEdit.trail second ['\u00a0'] ('\n' :: closing) (.inr ⟨_, .inl rfl⟩)
    (isPadding_singleton rfl (by decide))
  have inside := @LayoutEdit.line (second ++ ['\u00a0', '\n']) remark closing
    (.inr ⟨second ++ ['\u00a0'], by simp⟩) isSilent_remark
  have last := @LayoutEdit.lastLine (second ++ ['\u00a0', '\n'] ++ (remark ++ '\n' :: closing)) []
    ⟨by decide, by simp [trimStart]⟩
  simp only [first, second, compactText, List.append_assoc, List.cons_append,
    List.nil_append] at heading ending indent trail inside last
  exact .trans _ _ _ (.rel _ _ heading) <| .trans _ _ _ (.rel _ _ ending) <|
    .trans _ _ _ (.rel _ _ indent) <| .trans _ _ _ (.rel _ _ trail) <|
    .trans _ _ _ (.rel _ _ inside) (.rel _ _ last)

theorem looseText_defines_zeros :
    Relaid compactText looseText ∧ parse compactText = .ok zeros ∧
      parse looseText = .ok zeros := by
  have hcompact : parse compactText = .ok zeros := by rfl
  exact ⟨relaid_looseText, hcompact, (parse_eq_of_relaid relaid_looseText).symm.trans hcompact⟩

end Definition

end Multitape
