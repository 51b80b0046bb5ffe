import Multitape.Proofs.Sections
import Multitape.Proofs.Settings
import Multitape.Proofs.WellFormed
import Mathlib.Data.List.Perm.Basic

/-!
The order of assignments. A stretch of lines that opens and closes the brackets of one value is read
as one assignment wherever it stands (`Assigns.sectionsFrom_append`), so stretches can be put into
another order along with their assignments (`ofText_blocks`). The assignments are stored by key, one
after another but each only once, which comes to the same in any order
(`Settings.ofAssignments_of_perm`).
-/

set_option autoImplicit false
set_option relaxedAutoImplicit false

namespace Multitape.Definition

/-! ### Stretches of lines -/

/-- The text is one assignment: of its lines that say something the first begins the assignment,
and no rule, and the others are those that belong to the value. -/
inductive Assigns (text : List Char) : Assignment → Prop
  | mk {first : List Char} {later : List (List Char)} {begun : Assignment}
    (lines : contentLines text = first :: later) (opens : opensRules first = false)
    (begins : splitAssignment? first = some begun) (takes : (Pending.start begun).Takes later) :
    Assigns text ⟨begun.key, ['\n'].intercalate (begun.value :: later)⟩

theorem Assigns.sectionsFrom_append {text : List Char} {a : Assignment} (h : Assigns text a)
    (more : List (List Char)) : sectionsFrom none (contentLines text ++ more) =
      (sectionsFrom none more).map (Sections.assign a) := by
  cases h with
  | mk lines opens begins takes =>
    rw [lines, List.cons_append, sectionsFrom_none_cons opens begins, takes.resume]
    rfl

theorem contentLines_intercalate (texts : List (List Char)) :
    contentLines (['\n'].intercalate texts) = texts.flatMap contentLines := by
  induction texts with
  | nil => rfl
  | cons text texts ih =>
    cases texts with
    | nil => simp
    | cons next texts =>
      rw [List.intercalate_cons_cons, List.append_assoc, List.singleton_append,
        contentLines_append, ih, ← List.flatMap_cons]

/-- The sections with some assignments in front. -/
def Sections.assignAll (assignments : List Assignment) (s : Sections) : Sections :=
  { s with assignments := assignments ++ s.assignments }

theorem ofText_blocks {blocks : List (List Char)} {assignments : List Assignment}
    (h : List.Forall₂ Assigns blocks assignments) (lines : List (List Char)) :
    Sections.ofText (['\n'].intercalate (blocks ++ lines)) =
      (Sections.ofText (['\n'].intercalate lines)).map (Sections.assignAll assignments) := by
  simp only [Sections.ofText, contentLines_intercalate, List.flatMap_append]
  induction h with
  | nil =>
    rw [List.flatMap_nil, List.nil_append]
    cases sectionsFrom none (lines.flatMap contentLines) <;> rfl
  | cons hblock _ ih =>
    rw [List.flatMap_cons, List.append_assoc, hblock.sectionsFrom_append, ih]
    cases sectionsFrom none (lines.flatMap contentLines) <;> rfl

theorem parse_blocks_eq_ok_iff {blocks : List (List Char)} {assignments : List Assignment}
    (h : List.Forall₂ Assigns blocks assignments) (lines : List (List Char)) (d : Definition) :
    parse (['\n'].intercalate (blocks ++ lines)) = .ok d ↔
      ∃ sections settings, Sections.ofText (['\n'].intercalate lines) = .ok sections ∧
        Settings.ofAssignments (assignments ++ sections.assignments) = .ok settings ∧
        settings.complete sections.rules = .ok d := by
  simp only [parse_eq_ok_iff, ofText_blocks h, map_eq_ok_iff]
  constructor
  · rintro ⟨_, settings, ⟨sections, hsections, rfl⟩, hsettings, hcomplete⟩
    exact ⟨sections, settings, hsections, hsettings, hcomplete⟩
  · rintro ⟨sections, settings, hsections, hsettings, hcomplete⟩
    exact ⟨_, settings, ⟨sections, hsections, rfl⟩, hsettings, hcomplete⟩

/-! ### Another order -/

theorem parse_eq_ok_of_perm {blocks blocks' : List (List Char)} {assignments : List Assignment}
    (h : List.Forall₂ Assigns blocks assignments) (perm : blocks'.Perm blocks)
    {lines : List (List Char)} {d : Definition}
    (parsed : parse (['\n'].intercalate (blocks ++ lines)) = .ok d) :
    parse (['\n'].intercalate (blocks' ++ lines)) = .ok d := by
  obtain ⟨assignments', h', perm'⟩ := List.perm_comp_forall₂ perm h
  obtain ⟨sections, settings, hsections, hsettings, hcomplete⟩ :=
    (parse_blocks_eq_ok_iff h lines d).1 parsed
  refine (parse_blocks_eq_ok_iff h' lines d).2 ⟨sections, settings, hsections, ?_, hcomplete⟩
  exact Settings.ofAssignments_of_perm (perm'.symm.append_right _) hsettings

/-- The blocks of text that each assign a value define the same machine in any order, if any,
whatever lines stand behind them. They define none if they assign a key twice, nor does any other
text that does. -/
theorem parse_of_blocks_perm {blocks blocks' : List (List Char)} {assignments : List Assignment}
    (reads : List.Forall₂ Assigns blocks assignments) (perm : blocks.Perm blocks')
    (lines : List (List Char)) :
    (∀ d, parse (['\n'].intercalate (blocks ++ lines)) = .ok d ↔
      parse (['\n'].intercalate (blocks' ++ lines)) = .ok d) ∧
    (¬(assignments.map Assignment.key).Nodup →
      ∀ d, parse (['\n'].intercalate (blocks' ++ lines)) ≠ .ok d) ∧
    ∀ text sections, Sections.ofText text = .ok sections →
      ¬(sections.assignments.map Assignment.key).Nodup → ∀ d, parse text ≠ .ok d := by
  obtain ⟨assignments', reads', perm'⟩ := List.perm_comp_forall₂ perm.symm reads
  have hsame : ∀ d, parse (['\n'].intercalate (blocks ++ lines)) = .ok d ↔
      parse (['\n'].intercalate (blocks' ++ lines)) = .ok d :=
    fun d ↦ ⟨parse_eq_ok_of_perm reads perm.symm, parse_eq_ok_of_perm reads' perm⟩
  refine ⟨hsame, fun hrepeated d parsed ↦ hrepeated ?_,
    fun text sections hsections hrepeated d parsed ↦ hrepeated ?_⟩
  · obtain ⟨sections, settings, -, hsettings, -⟩ :=
      (parse_blocks_eq_ok_iff reads lines d).1 ((hsame d).2 parsed)
    have hnodup := Settings.nodup_keys_of_assignments hsettings
    rw [List.map_append] at hnodup
    exact (List.nodup_append.1 hnodup).1
  · obtain ⟨_, settings, hsections', hsettings, -⟩ := parse_eq_ok_iff.1 parsed
    obtain rfl := Except.ok.inj (hsections.symm.trans hsections')
    exact Settings.nodup_keys_of_assignments hsettings

def alphabetsBlock : List Char := "tape_alphabets = [\n# one tape\n['_', '0']]".toList

def blankBlock : List Char := "blank_symbol = ('_')".toList

def startBlock : List Char := "start_state = \"q7\"".toList

def ruleLine : List Char := "q7 0 accept _ r".toList

/-- What the blocks and the line define. -/
def erasing : Definition where
  startState := "q7"
  tapeAlphabets := [.ofList [.plain '_', .plain '0']]
  blank := .plain '_'
  rules := [⟨"q7", [.plain '0'], "q1", [.plain '_'], [.right], some .accept⟩]

theorem assigns_alphabetsBlock : Assigns alphabetsBlock
    ⟨"tape_alphabets".toList, "[\n['_', '0']]".toList⟩ := by
  have takes : (Pending.start ⟨"tape_alphabets".toList, ['[']⟩).Takes ["['_', '0']]".toList] :=
    .line (by decide) rfl (.closed (by decide))
  exact .mk rfl rfl rfl takes

theorem assigns_blankBlock : Assigns blankBlock ⟨"blank_symbol".toList, "('_')".toList⟩ := by
  have takes : (Pending.start ⟨"blank_symbol".toList, "('_')".toList⟩).Takes [] :=
    .closed (by decide)
  exact .mk rfl rfl rfl takes

theorem assigns_startBlock : Assigns startBlock ⟨"start_state".toList, "\"q7\"".toList⟩ := by
  have takes : (Pending.start ⟨"start_state".toList, "\"q7\"".toList⟩).Takes [] :=
    .closed (by decide)
  exact .mk rfl rfl rfl takes

theorem erasing_of_blocks :
    parse (['\n'].intercalate ([alphabetsBlock, blankBlock, startBlock] ++ [ruleLine])) =
      .ok erasing ∧
    parse (['\n'].intercalate ([startBlock, alphabetsBlock, blankBlock] ++ [ruleLine])) =
      .ok erasing ∧
    ∀ d, parse (['\n'].intercalate ([startBlock, startBlock, blankBlock] ++ [ruleLine])) ≠
      .ok d := by
  have parsed : parse (['\n'].intercalate
      ([alphabetsBlock, blankBlock, startBlock] ++ [ruleLine])) = .ok erasing := by rfl
  have perm : [alphabetsBlock, blankBlock, startBlock].Perm
      [startBlock, alphabetsBlock, blankBlock] :=
    @List.perm_append_comm _ [alphabetsBlock, blankBlock] [startBlock]
  obtain ⟨hsame, -, -⟩ := parse_of_blocks_perm (.cons assigns_alphabetsBlock
    (.cons assigns_blankBlock (.cons assigns_startBlock .nil))) perm [ruleLine]
  have swapped : [startBlock, blankBlock, startBlock].Perm [startBlock, startBlock, blankBlock] :=
    .cons _ (.swap _ _ _)
  obtain ⟨-, hrepeated, -⟩ := parse_of_blocks_perm (.cons assigns_startBlock
    (.cons assigns_blankBlock (.cons assigns_startBlock .nil))) swapped [ruleLine]
  exact ⟨parsed, (hsame _).1 parsed, hrepeated (by decide)⟩

end Multitape.Definition
