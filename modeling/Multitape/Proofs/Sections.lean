import Multitape.Definition.Sections
import Multitape.Proofs.Except
import Mathlib.Data.List.DropRight

/-!
The sections of a text, line by line. The lines that say something are those of what stands before a
line feed and those of what stands behind it (`contentLines_append`), since a carriage return at the
end of a line is white space like any other. A line of the first section either begins an assignment
or goes on with one (`sectionsFrom_cons_cases`), and in both cases the brackets that are open behind
it decide what becomes of the next line (`Pending.resume`), so a value takes the lines up to the one
that closes its brackets (`Pending.Takes.resume`). An assignment is read off its line as it is
written there (`IsName.splitAssignment?_eq`).
-/

set_option autoImplicit false
set_option relaxedAutoImplicit false

namespace Multitape

/-! ### White space at the ends -/

namespace Text

variable {a b text : List Char} {c : Char}

theorem trimEnd_append_of_ne_nil (h : trimEnd b ≠ []) : trimEnd (a ++ b) = a ++ trimEnd b := by
  have hrest : b.reverse.dropWhile isWhite ≠ [] := fun hnil ↦ h (by rw [trimEnd, hnil]; rfl)
  rw [trimEnd, List.reverse_append, List.dropWhile_append, if_neg (by simpa using hrest),
    List.reverse_append, List.reverse_reverse, ← trimEnd]

theorem trimEnd_cons_of_nil (h : trimEnd text = []) :
    trimEnd (c :: text) = if isWhite c then [] else [c] := by
  have hrest : text.reverse.dropWhile isWhite = [] := List.reverse_eq_nil_iff.1 h
  rw [trimEnd, List.reverse_cons, List.dropWhile_append, hrest]
  by_cases hc : isWhite c = true <;> simp [hc]

theorem trimEnd_cons_of_solid (hc : isWhite c = false) :
    trimEnd (c :: text) = c :: trimEnd text := by
  by_cases h : trimEnd text = []
  · simp [trimEnd_cons_of_nil h, h, hc]
  · exact trimEnd_append_of_ne_nil (a := [c]) h

theorem trimEnd_append_of_solid (solid : ∀ c ∈ a, isWhite c = false) :
    trimEnd (a ++ b) = a ++ trimEnd b := by
  induction a with
  | nil => rfl
  | cons c a ih =>
    rw [List.cons_append, trimEnd_cons_of_solid (solid c List.mem_cons_self),
      ih fun d hd ↦ solid d (List.mem_cons_of_mem _ hd), List.cons_append]

theorem trimStart_cons_of_solid (hc : isWhite c = false) : trimStart (c :: text) = c :: text :=
  List.dropWhile_cons_of_neg (by simp [hc])

theorem trimStart_cons_of_white (hc : isWhite c = true) : trimStart (c :: text) = trimStart text :=
  List.dropWhile_cons_of_pos hc

theorem trimEnd_concat_of_white (hc : isWhite c = true) : trimEnd (text ++ [c]) = trimEnd text :=
  List.rdropWhile_concat_pos isWhite text c hc

theorem trim_concat_of_white (hc : isWhite c = true) : trim (text ++ [c]) = trim text := by
  by_cases h : trimStart text = []
  · have hall : trimStart (text ++ [c]) = [] := by
      rw [trimStart, List.dropWhile_append, show text.dropWhile isWhite = [] from h]
      simp [hc]
    rw [trim, trim, hall, h]
  · have hstart : trimStart (text ++ [c]) = trimStart text ++ [c] := by
      rw [trimStart, List.dropWhile_append, if_neg (by rwa [List.isEmpty_iff]), ← trimStart]
    rw [trim, hstart, trimEnd_concat_of_white hc, ← trim]

theorem trim_of_solid (solid : ∀ c ∈ text, isWhite c = false) : trim text = text := by
  have hstart : trimStart text = text := by
    cases text with
    | nil => rfl
    | cons c text => exact trimStart_cons_of_solid (solid c List.mem_cons_self)
  have hend := trimEnd_append_of_solid (b := []) solid
  rw [List.append_nil] at hend
  rw [trim, hstart, hend]
  exact List.append_nil text

theorem trim_dropReturn (begun : List Char) :
    trim (dropReturn begun).reverse = trim begun.reverse := by
  unfold dropReturn
  split
  · next rest => rw [List.reverse_cons, trim_concat_of_white (by decide)]
  · rfl

/-- What is trimmed does not begin with white space. -/
theorem isWhite_of_head?_trim (h : (trim text).head? = some c) : isWhite c = false := by
  have hstart : (trimStart text).head? = some c := by
    obtain ⟨rest, hrest⟩ := List.head?_eq_some_iff.1 h
    obtain ⟨behind, hbehind⟩ := List.rdropWhile_prefix isWhite (l := trimStart text)
    have htrim : trim text ++ behind = trimStart text := hbehind
    rw [← htrim, hrest, List.cons_append, List.head?_cons]
  have hhead := List.head?_dropWhile_not isWhite text
  rw [← trimStart, hstart] at hhead
  simpa using hhead

/-- What is trimmed does not end in white space. -/
theorem isWhite_of_getLast?_trim (h : (trim text).getLast? = some c) : isWhite c = false := by
  rw [trim, trimEnd, List.getLast?_reverse] at h
  have hhead := List.head?_dropWhile_not isWhite (trimStart text).reverse
  rw [h] at hhead
  simpa using hhead

/-! ### Lines -/

theorem linesFrom_append (begun a b : List Char) :
    linesFrom begun (a ++ '\n' :: b) = linesFrom begun (a ++ ['\n']) ++ lines b := by
  induction a generalizing begun with
  | nil => simp [linesFrom, lines]
  | cons c a ih =>
    by_cases hc : c = '\n'
    · simp only [List.cons_append, linesFrom, hc, if_true, ih []]
    · simp only [List.cons_append, linesFrom, hc, if_false, ih (c :: begun)]

theorem dropReturn_eq_self {line : List Char} (h : line.head? ≠ some '\r') :
    dropReturn line = line := by
  unfold dropReturn
  split
  · exact absurd rfl h
  · rfl

theorem linesFrom_line {begun line rest : List Char} (unbroken : '\n' ∉ line) :
    linesFrom begun (line ++ '\n' :: rest) =
      (dropReturn (line.reverse ++ begun)).reverse :: lines rest := by
  induction line generalizing begun with
  | nil => simp [linesFrom, lines]
  | cons c line ih =>
    have hc : c ≠ '\n' := fun hc ↦ unbroken (hc ▸ List.mem_cons_self)
    rw [List.cons_append, linesFrom, if_neg hc, ih fun hmem ↦ unbroken (.tail c hmem)]
    simp

/-- A line that does not end in a carriage return is there as it is written. -/
theorem lines_line {line : List Char} (unbroken : '\n' ∉ line) (ending : line.getLast? ≠ some '\r')
    (rest : List Char) : lines (line ++ '\n' :: rest) = line :: lines rest := by
  have hend : dropReturn (line.reverse ++ []) = line.reverse := by
    rw [List.append_nil]
    exact dropReturn_eq_self (by rwa [List.head?_reverse])
  rw [lines, linesFrom_line unbroken, hend, List.reverse_reverse]

theorem linesFrom_of_line {begun line : List Char} (h : '\n' ∉ line) :
    linesFrom begun line =
      if begun.reverse ++ line = [] then [] else [begun.reverse ++ line] := by
  induction line generalizing begun with
  | nil => simp [linesFrom]
  | cons c line ih =>
    have hc : c ≠ '\n' := fun hc ↦ h (hc ▸ List.mem_cons_self)
    rw [linesFrom, if_neg hc, ih fun hmem ↦ h (List.mem_cons_of_mem _ hmem)]
    simp

end Text

/-! ### Lines that say something -/

namespace Definition

open Text

/-- What some lines say: those that say something, without the white space around them. -/
def contents (lines : List (List Char)) : List (List Char) :=
  (lines.map trim).filter fun line ↦ !line.isEmpty && line.head? ≠ some '#'

theorem contents_append (a b : List (List Char)) :
    contents (a ++ b) = contents a ++ contents b := by
  rw [contents, List.map_append, List.filter_append, ← contents, ← contents]

theorem contents_linesFrom_concat (begun text : List Char) :
    contents (linesFrom begun (text ++ ['\n'])) = contents (linesFrom begun text) := by
  induction text generalizing begun with
  | nil =>
    by_cases h : begun = []
    · subst h
      rfl
    · simp [linesFrom, contents, trim_dropReturn, h]
  | cons c text ih =>
    by_cases hc : c = '\n'
    · simp only [List.cons_append, linesFrom, hc, if_true]
      rw [← List.singleton_append, contents_append, ih, ← contents_append, List.singleton_append]
    · simp only [List.cons_append, linesFrom, hc, if_false, ih]

/-- The content lines of a text are those before any of its line feeds, then those behind it. -/
theorem contentLines_append (a b : List Char) :
    contentLines (a ++ '\n' :: b) = contentLines a ++ contentLines b := by
  change contents (lines (a ++ '\n' :: b)) = contents (lines a) ++ contents (lines b)
  rw [lines, linesFrom_append, contents_append, contents_linesFrom_concat, ← lines]

variable {line : List Char}

theorem contentLines_of_line (h : '\n' ∉ line) : contentLines line = contents [line] := by
  change contents (linesFrom [] line) = contents [line]
  rw [linesFrom_of_line h]
  by_cases hnil : line = []
  · subst hnil
    rfl
  · simp [hnil]

/-- Of a line only what is between its gaps counts. -/
theorem contentLines_eq_of_trim_eq {other : List Char} (h : '\n' ∉ line) (h' : '\n' ∉ other)
    (same : trim line = trim other) : contentLines line = contentLines other := by
  rw [contentLines_of_line h, contentLines_of_line h']
  simp only [contents, List.map_cons, List.map_nil, same]

theorem contentLines_eq_nil (h : '\n' ∉ line)
    (hsilent : trim line = [] ∨ (trim line).head? = some '#') : contentLines line = [] := by
  rw [contentLines_of_line h]
  rcases hsilent with hsilent | hsilent <;> simp [contents, hsilent]

theorem contentLines_eq_singleton (h : '\n' ∉ line) (hsome : trim line ≠ [])
    (hhash : (trim line).head? ≠ some '#') : contentLines line = [trim line] := by
  rw [contentLines_of_line h]
  simp [contents, hsome, hhash]

/-- A carriage return before the end of a line says nothing. -/
theorem contentLines_return (h : '\n' ∉ line) :
    contentLines (line ++ ['\r']) = contentLines line :=
  contentLines_eq_of_trim_eq (by simpa using h) h (trim_concat_of_white (by decide))

/-! ### Assignments -/

namespace Pending

/-- What becomes of the lines behind an assignment that may go on. -/
def resume (p : Pending) (lines : List (List Char)) : Except (List Char) Sections :=
  if p.depth > 0 then sectionsFrom (some p) lines
  else (sectionsFrom none lines).map (Sections.assign p.assignment)

end Pending

theorem sectionsFrom_some_cons {p : Pending} (h : opensRules line = false)
    (rest : List (List Char)) :
    sectionsFrom (some p) (line :: rest) = (p.add line).resume rest := by
  rw [sectionsFrom, if_neg (by simp [h])]
  rfl

theorem sectionsFrom_none_cons {a : Assignment} (h : opensRules line = false)
    (ha : splitAssignment? line = some a) (rest : List (List Char)) :
    sectionsFrom none (line :: rest) = (Pending.start a).resume rest := by
  rw [sectionsFrom, if_neg (by simp [h])]
  simp only [ha, Option.map_some]
  rfl

/-- A line opens the rules, and then the value that goes on ends here, or it is a line of this value
or begins the next one. -/
theorem sectionsFrom_cons_cases {pending : Option Pending} {rest : List (List Char)}
    {sections : Sections} (h : sectionsFrom pending (line :: rest) = .ok sections) :
    (opensRules line = true ∧
      sections = ⟨(pending.map Pending.assignment).toList, line :: rest⟩) ∨
    opensRules line = false ∧
      ((∃ p, pending = some p ∧ (p.add line).resume rest = .ok sections) ∨
        ∃ a, pending = none ∧ splitAssignment? line = some a ∧
          (Pending.start a).resume rest = .ok sections) := by
  by_cases hopens : opensRules line = true
  · unfold sectionsFrom at h
    rw [if_pos hopens] at h
    exact .inl ⟨hopens, (Except.ok.inj h).symm⟩
  · rw [Bool.not_eq_true] at hopens
    refine .inr ⟨hopens, ?_⟩
    cases pending with
    | some p =>
      rw [sectionsFrom_some_cons hopens] at h
      exact .inl ⟨p, rfl, h⟩
    | none =>
      cases ha : splitAssignment? line with
      | none => simp [sectionsFrom, hopens, ha] at h
      | some a =>
        rw [sectionsFrom_none_cons hopens ha] at h
        exact .inr ⟨a, rfl, rfl, h⟩

namespace Pending

/-- A value goes on if brackets are open, and otherwise it is the first of the assignments. -/
theorem resume_cases {p : Pending} {lines : List (List Char)} {sections : Sections}
    (h : p.resume lines = .ok sections) :
    (0 < p.depth ∧ sectionsFrom (some p) lines = .ok sections) ∨
      p.depth ≤ 0 ∧ ∃ others, sectionsFrom none lines = .ok others ∧
        sections = others.assign p.assignment := by
  unfold resume at h
  split_ifs at h with hdepth
  · exact .inl ⟨hdepth, h⟩
  · obtain ⟨others, hothers, rfl⟩ := map_eq_ok_iff.1 h
    exact .inr ⟨Int.not_lt.1 hdepth, others, hothers, rfl⟩

/-- The lines that belong to a value: brackets are open before each of them, and none behind the
last. None of them begins the rules. -/
inductive Takes : Pending → List (List Char) → Prop
  | closed {p : Pending} (h : p.depth ≤ 0) : Takes p []
  | line {p : Pending} {line : List Char} {lines : List (List Char)} (isOpen : 0 < p.depth)
    (opens : opensRules line = false) (h : Takes (p.add line) lines) : Takes p (line :: lines)

/-- A value takes the lines that belong to it, and no more. -/
theorem Takes.resume {p : Pending} {lines : List (List Char)} (h : p.Takes lines)
    (more : List (List Char)) :
    p.resume (lines ++ more) = (sectionsFrom none more).map
      (Sections.assign ⟨p.key, ['\n'].intercalate (p.lines.reverse ++ lines)⟩) := by
  induction h with
  | @closed p h =>
    rw [Pending.resume, if_neg (by omega), List.append_nil, List.nil_append, Pending.assignment]
  | @line p line lines isOpen opens _ ih =>
    rw [Pending.resume, if_pos isOpen, List.cons_append, sectionsFrom_some_cons opens, ih]
    simp [Pending.add]

end Pending

/-- A word that an assignment may begin with: it is no comment and no rule, and it has neither white
space nor an equals sign in it. -/
structure IsName (key : List Char) : Prop where
  solid : ∀ c ∈ key, isWhite c = false
  equals : '=' ∉ key
  head : ∃ c ∈ key.head?, c ≠ '#' ∧ c ≠ 'q' ∧ c ≠ 'Q'

theorem IsName.exists_cons {key : List Char} (h : IsName key) : ∃ c rest, key = c :: rest ∧
    isWhite c = false ∧ c ≠ '#' ∧ opensRules key = false := by
  obtain ⟨c, hc, hhash, hq, hQ⟩ := h.head
  obtain ⟨rest, rfl⟩ := List.head?_eq_some_iff.1 hc
  exact ⟨c, rest, rfl, h.solid c List.mem_cons_self, hhash, by simp [opensRules, hq, hQ]⟩

theorem IsName.trim_append {key : List Char} (h : IsName key) {c : Char} (hc : isWhite c = false)
    (gap line : List Char) :
    trim (key ++ (gap ++ c :: line)) = key ++ (gap ++ c :: trimEnd line) := by
  obtain ⟨first, rest, hkey, hfirst, -, -⟩ := h.exists_cons
  have hstart : trimStart (key ++ (gap ++ c :: line)) = key ++ (gap ++ c :: line) := by
    rw [hkey, List.cons_append, trimStart_cons_of_solid hfirst]
  have hend : trimEnd (c :: line) = c :: trimEnd line := trimEnd_cons_of_solid hc
  have hne : trimEnd (c :: line) ≠ [] := by simp [hend]
  rw [trim, hstart, trimEnd_append_of_solid h.solid, trimEnd_append_of_ne_nil hne, hend]

theorem IsName.splitAssignment?_eq {key : List Char} (h : IsName key) (line : List Char) :
    splitAssignment? (key ++ (' ' :: '=' :: line)) = some ⟨key, trim line⟩ := by
  have hbefore : ∀ c ∈ key ++ [' '], decide (c ≠ '=') = true := by
    intro c hc
    rcases List.mem_append.1 hc with hc | hc
    · have hne : c ≠ '=' := fun heq ↦ h.equals (heq ▸ hc)
      simpa using hne
    · rw [List.mem_singleton.1 hc]
      rfl
  have hkey : trim (key ++ [' ']) = key := by
    rw [trim_concat_of_white (by decide), trim_of_solid h.solid]
  have hsplit : key ++ (' ' :: '=' :: line) = key ++ [' '] ++ '=' :: line := by simp
  have htake : (key ++ [' '] ++ '=' :: line).takeWhile (· ≠ '=') = key ++ [' '] := by
    rw [List.takeWhile_append_of_pos hbefore]
    simp
  have hdrop : (key ++ [' '] ++ '=' :: line).dropWhile (· ≠ '=') = '=' :: line := by
    rw [List.dropWhile_append_of_pos hbefore]
    simp
  rw [hsplit, splitAssignment?, hdrop, htake, hkey]

end Definition

end Multitape
