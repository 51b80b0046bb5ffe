import Multitape.Proofs.AssignmentOrder
import Multitape.Proofs.SpelledLines
import Multitape.Proofs.SpelledValues

/-!
Strings as values. What stands between two quotes is passed over alike by all that look at a line:
the brackets in it do not count (`depthBehind_quoted`), so its line is an assignment by itself
(`exists_assigns_quoted`), and the string that is read is what stands there, whatever comment stands
behind it (`readString_quoted`). Wherever an assignment can stand, such a line therefore adds one
assignment to the sections and changes nothing else, and where it is the only one of its key, it
changes no more of the settings than the value of that key (`quoted_string_transparent`).
-/

set_option autoImplicit false
set_option relaxedAutoImplicit false

namespace Multitape

/-! ### The value -/

namespace Literal

open Reader

variable {q : Char} {content tail : List Char}

theorem afterGap_quote (isQuote : q = '"' ∨ q = '\'') (text : List Char) :
    afterGap false (q :: text) = q :: text := by
  rcases isQuote with rfl | rfl <;> simp [afterGap]

/-- A string in quotes is what stands between them, if nothing but a comment stands behind it. -/
theorem readString_quoted (isQuote : q = '"' ∨ q = '\'') (h : q ∉ content)
    (behind : OnLine [] tail) :
    readString (q :: (content ++ q :: tail)) = .ok (String.ofList content) := by
  have hgap : gap.take (q :: (content ++ q :: tail)) = some ((), q :: (content ++ q :: tail)) := by
    rw [gap, take_silent, afterGap_quote isQuote]
  have hwhole : (whole .stringValue string).Yields (q :: (content ++ q :: tail))
      fun quote _ ↦ quote.content = content := by
    refine Yields.named (Yields.bind ⟨(), _, hgap, Yields.bind ?_⟩)
    refine yields_quoted isQuote h tail fun quote hquote ↦ Yields.bind ?_
    refine yields_gap (.last behind) fun rest facing ↦ ?_
    cases facing
    exact Yields.bind ⟨(), [], rfl, yields_pure hquote⟩
  obtain ⟨quote, rest, htake, hcontent⟩ := hwhole
  rw [readString, readWhole, htake]
  exact congrArg (fun content ↦ Except.ok (String.ofList content)) hcontent

end Literal

namespace Definition

open Literal

/-! ### Keys -/

/-- The keys whose values are strings. -/
inductive StringKey
  | description
  | startState
  | acceptState
  | rejectState
deriving DecidableEq, Repr

namespace StringKey

def key : StringKey → Key
  | description => .description
  | startState => .startState
  | acceptState => .acceptState
  | rejectState => .rejectState

/-- A string as the value of the key. -/
def value : (k : StringKey) → String → k.key.Value
  | description | startState | acceptState | rejectState => id

/-- What a definition has under the key. -/
def get (d : Definition) : StringKey → String
  | description => d.description
  | startState => d.startState
  | acceptState => d.acceptState
  | rejectState => d.rejectState

/-- The name by which a text assigns to the key. -/
def name (k : StringKey) : List Char := k.key.name.toList

variable (k : StringKey)

theorem isName_name : IsName k.name := by
  have hsolid : ∀ c ∈ k.name, Text.isWhite c = false := by
    cases k <;> simp [name, key, Key.name, Text.isWhite]
  cases k <;> exact ⟨hsolid, by decide, _, rfl, by decide⟩

theorem ofName?_name : Key.ofName? (String.ofList k.name) = some k.key := by
  cases k <;> rfl

theorem read_eq_ok {text : List Char} {s : String} (h : readString text = .ok s) :
    k.key.read text = .ok (k.value s) := by
  cases k <;> exact h

/-- A definition has under the key what is assigned to it. -/
theorem get_of_complete {settings : Settings} {lines : List (List Char)} {d : Definition}
    {s : String} (h : settings.complete lines = .ok d)
    (assigned : settings.value? k.key = some (k.value s)) : get d k = s := by
  obtain ⟨-, -, -, -, -, -, hdescription, hstart, haccept, hreject⟩ := parts_of_complete h
  cases k with
  | description => exact hdescription.trans (congrArg (Option.getD · "") assigned)
  | startState => exact hstart.trans (congrArg (Option.getD · "q0") assigned)
  | acceptState => exact haccept.trans (congrArg (Option.getD · "q1") assigned)
  | rejectState => exact hreject.trans (congrArg (Option.getD · "q2") assigned)

end StringKey

theorem Key.ofName?_ne {key : Key} {name : List Char} (h : name ≠ key.name.toList) :
    Key.ofName? (String.ofList name) ≠ some key := by
  intro hname
  have hsame : key.name = String.ofList name := by simpa using List.find?_some hname
  rw [hsame, String.toList_ofList] at h
  exact h rfl

/-! ### The line -/

/-- A line that assigns to the key what stands between the quotes, up to its end. -/
def quotedLine (k : StringKey) (q : Char) (content behind : List Char) : List Char :=
  k.name ++ ([' ', '=', ' '] ++ q :: (content ++ q :: behind))

variable {k : StringKey} {q : Char} {content tail ending : List Char}

theorem isWhite_quote (isQuote : q = '"' ∨ q = '\'') : Text.isWhite q = false := by
  rcases isQuote with rfl | rfl <;> decide

theorem trimEnd_quoted (isQuote : q = '"' ∨ q = '\'') (text behind : List Char) :
    Text.trimEnd (text ++ q :: behind) = text ++ q :: Text.trimEnd behind := by
  have hend : Text.trimEnd (q :: behind) = q :: Text.trimEnd behind :=
    Text.trimEnd_cons_of_solid (isWhite_quote isQuote)
  rw [Text.trimEnd_append_of_ne_nil (by simp [hend]), hend]

theorem trim_quotedLine (isQuote : q = '"' ∨ q = '\'') (k : StringKey)
    (content behind : List Char) :
    Text.trim (quotedLine k q content behind) = quotedLine k q content (Text.trimEnd behind) := by
  rw [quotedLine, k.isName_name.trim_append (isWhite_quote isQuote), trimEnd_quoted isQuote,
    quotedLine]

theorem lineFeed_notMem_quotedLine (isQuote : q = '"' ∨ q = '\'') (unbroken : '\n' ∉ content)
    (behind : OnLine [] tail) (k : StringKey) : '\n' ∉ quotedLine k q content tail := by
  have hname : '\n' ∉ k.name := fun hmem ↦ absurd (k.isName_name.solid _ hmem) (by decide)
  have hquote : '\n' ≠ q := by rcases isQuote with rfl | rfl <;> decide
  simp [quotedLine, hname, hquote, unbroken, behind.lineFeed_notMem]

theorem contentLines_quotedLine (isQuote : q = '"' ∨ q = '\'') (unbroken : '\n' ∉ content)
    (behind : OnLine [] tail) (k : StringKey) :
    contentLines (quotedLine k q content tail) = [quotedLine k q content (Text.trimEnd tail)] := by
  obtain ⟨c, rest, hname, -, hhash, -⟩ := k.isName_name.exists_cons
  have htrim := trim_quotedLine isQuote k content tail
  rw [contentLines_eq_singleton (lineFeed_notMem_quotedLine isQuote unbroken behind k), htrim]
  · rw [htrim]
    simp [quotedLine, hname]
  · rw [htrim]
    simpa [quotedLine, hname] using hhash

/-- The line is an assignment by itself, of a value that is read as what stands in quotes. -/
theorem exists_assigns_quoted (isQuote : q = '"' ∨ q = '\'') (hmem : q ∉ content)
    (unbroken : '\n' ∉ content) (behind : OnLine [] tail)
    (hending : ending = [] ∨ ending = ['\r']) (k : StringKey) :
    ∃ value, Assigns (quotedLine k q content tail ++ ending) ⟨k.name, value⟩ ∧
      readString value = .ok (String.ofList content) := by
  have hlines : contentLines (quotedLine k q content tail ++ ending) =
      [quotedLine k q content (Text.trimEnd tail)] := by
    rw [← contentLines_quotedLine isQuote unbroken behind k]
    rcases hending with rfl | rfl
    · rw [List.append_nil]
    · exact contentLines_return (lineFeed_notMem_quotedLine isQuote unbroken behind k)
  have hopens : opensRules (quotedLine k q content (Text.trimEnd tail)) = false := by
    obtain ⟨c, rest, hname, -, -, hrules⟩ := k.isName_name.exists_cons
    rw [hname] at hrules
    rw [quotedLine, hname]
    exact hrules
  -- What is left of the value has been trimmed twice, with its line and by itself.
  have hleft : OnLine [] (Text.trimEnd (Text.trimEnd tail)) := behind.trimEnd.trimEnd
  have hvalue : Text.trim (' ' :: q :: (content ++ q :: Text.trimEnd tail)) =
      q :: (content ++ q :: Text.trimEnd (Text.trimEnd tail)) := by
    rw [Text.trim, Text.trimStart_cons_of_white (by decide),
      Text.trimStart_cons_of_solid (isWhite_quote isQuote)]
    exact trimEnd_quoted isQuote (q :: content) _
  have hsplit := k.isName_name.splitAssignment?_eq
    (' ' :: q :: (content ++ q :: Text.trimEnd tail))
  rw [hvalue] at hsplit
  have htakes : (Pending.start
      ⟨k.name, q :: (content ++ q :: Text.trimEnd (Text.trimEnd tail))⟩).Takes [] := by
    refine .closed ?_
    rw [Pending.start, depthBehind_quoted isQuote hmem, hleft.depthBehind_eq]
    exact Int.le_refl 0
  have hassigns := Assigns.mk hlines hopens hsplit htakes
  rw [List.intercalate_singleton] at hassigns
  exact ⟨_, hassigns, readString_quoted isQuote hmem hleft⟩

/-! ### The text around it -/

/-- The lines are those of some assignments, each with all the lines of its value. -/
inductive AssignsAll : List (List Char) → List Assignment → Prop
  | nil : AssignsAll [] []
  | cons {first : List Char} {later lines : List (List Char)} {begun : Assignment}
    {assignments : List Assignment} (opens : opensRules first = false)
    (begins : splitAssignment? first = some begun) (takes : (Pending.start begun).Takes later)
    (h : AssignsAll lines assignments) :
    AssignsAll (first :: (later ++ lines))
      (⟨begun.key, ['\n'].intercalate (begun.value :: later)⟩ :: assignments)

variable {before after : List (List Char)} {assignments : List Assignment}

theorem AssignsAll.sectionsFrom_append {lines : List (List Char)}
    (h : AssignsAll lines assignments) (more : List (List Char)) :
    sectionsFrom none (lines ++ more) =
      (sectionsFrom none more).map (Sections.assignAll assignments) := by
  induction h with
  | nil =>
    rw [List.nil_append]
    cases sectionsFrom none more <;> rfl
  | cons opens begins takes _ ih =>
    rw [List.cons_append, List.append_assoc, sectionsFrom_none_cons opens begins, takes.resume, ih]
    cases sectionsFrom none more <;> rfl

/-- What stands behind assignments is read as if the text began there. -/
theorem ofText_behind (place : AssignsAll (before.flatMap contentLines) assignments)
    (after : List (List Char)) : Sections.ofText (['\n'].intercalate (before ++ after)) =
      (Sections.ofText (['\n'].intercalate after)).map (Sections.assignAll assignments) := by
  simp only [Sections.ofText, contentLines_intercalate, List.flatMap_append]
  exact place.sectionsFrom_append _

theorem ofText_inserted {block : List Char} {a : Assignment} (h : Assigns block a)
    (place : AssignsAll (before.flatMap contentLines) assignments) (after : List (List Char)) :
    Sections.ofText (['\n'].intercalate (before ++ block :: after)) =
      (Sections.ofText (['\n'].intercalate after)).map
        (Sections.assignAll (assignments ++ [a])) := by
  have hblock := ofText_blocks (.cons h .nil) after
  rw [List.singleton_append] at hblock
  rw [ofText_behind place, hblock]
  cases Sections.ofText (['\n'].intercalate after) with
  | error line => rfl
  | ok sections => simp [Except.map, Sections.assignAll]

/-- A line that assigns a string in quotes to one of the keys that take strings, wherever an
assignment can stand and whatever comment stands behind the string. There is no line feed in the
string and not that quote, and in the comment no line feed and no carriage return. The value is then
read as the string. What stands behind the line is read as if the text began there, with the line
and without it. If the key is not assigned elsewhere, the text defines what it does without the
line, but with the string assigned to the key. And if it defines a machine, that has the string
under the key. -/
theorem quoted_string_transparent (k : StringKey) {q : Char} {content tail ending : List Char}
    {before : List (List Char)} {assignments : List Assignment} (isQuote : q = '"' ∨ q = '\'')
    (hmem : q ∉ content) (unbroken : '\n' ∉ content) (behind : OnLine [] tail)
    (hending : ending = [] ∨ ending = ['\r'])
    (place : AssignsAll (before.flatMap contentLines) assignments) (after : List (List Char)) :
    let line := k.name ++ ([' ', '=', ' '] ++ q :: (content ++ q :: tail)) ++ ending
    let withLine := ['\n'].intercalate (before ++ line :: after)
    let withoutLine := ['\n'].intercalate (before ++ after)
    let later := Sections.ofText (['\n'].intercalate after)
    ∃ value, readString value = .ok (String.ofList content) ∧
      Sections.ofText withLine =
        later.map (Sections.assignAll (assignments ++ [⟨k.name, value⟩])) ∧
      Sections.ofText withoutLine = later.map (Sections.assignAll assignments) ∧
      (∀ sections, Sections.ofText withoutLine = .ok sections →
        (∀ a ∈ sections.assignments, a.key ≠ k.name) →
        parse withLine = Settings.ofAssignments sections.assignments >>= fun settings ↦
          (settings.put k.key (k.value (String.ofList content))).complete sections.rules) ∧
      ∀ d, parse withLine = .ok d → k.get d = String.ofList content := by
  intro line withLine withoutLine later
  obtain ⟨value, hassigns, hread⟩ := exists_assigns_quoted isQuote hmem unbroken behind hending k
  have hwith : Sections.ofText withLine =
      later.map (Sections.assignAll (assignments ++ [⟨k.name, value⟩])) :=
    ofText_inserted hassigns place after
  have hwithout : Sections.ofText withoutLine = later.map (Sections.assignAll assignments) :=
    ofText_behind place after
  refine ⟨value, hread, hwith, hwithout, fun sections hsections others ↦ ?_, fun d hd ↦ ?_⟩
  · obtain ⟨rest, hrest, rfl⟩ := map_eq_ok_iff.1 (hwithout.symm.trans hsections)
    rw [hrest] at hwith
    have hsplit : (Sections.assignAll (assignments ++ [⟨k.name, value⟩]) rest).assignments =
        assignments ++ ⟨k.name, value⟩ :: rest.assignments := by
      simp [Sections.assignAll]
    have hothers : ∀ b ∈ assignments ++ rest.assignments,
        Key.ofName? (String.ofList b.key) ≠ some k.key :=
      fun b hb ↦ Key.ofName?_ne (others b hb)
    have hinserted : Settings.ofAssignments (assignments ++ ⟨k.name, value⟩ :: rest.assignments) =
        (Settings.ofAssignments (assignments ++ rest.assignments)).map
          (·.put k.key (k.value (String.ofList content))) :=
      Settings.ofAssignments_insert k.ofName?_name (k.read_eq_ok hread) hothers
    rw [parse_of_sections hwith, hsplit, hinserted, map_bind]
    rfl
  · obtain ⟨sections, settings, hsections, hsettings, hcomplete⟩ := parse_eq_ok_iff.1 hd
    obtain ⟨rest, -, rfl⟩ := map_eq_ok_iff.1 (hwith.symm.trans hsections)
    have hassigned : ⟨k.name, value⟩ ∈ assignments ++ [⟨k.name, value⟩] ++ rest.assignments := by
      simp
    obtain ⟨-, stored, hstored, hvalue⟩ :=
      Settings.value?_of_assignments hsettings hassigned k.ofName?_name
    obtain rfl := Except.ok.inj ((k.read_eq_ok hread).symm.trans hstored)
    exact k.get_of_complete hcomplete hvalue

def linesBefore : List (List Char) :=
  ["# [ nothing".toList, "alphabet = ['0',".toList, "'1'] # (".toList]

def linesAfter : List (List Char) := ["start_state = \"q5\"".toList, "q5 0 accept 1 r".toList]

/-- A description that looks like brackets, a comment and another string. -/
def riddle : List Char := " [(#=\" ".toList

/-- What the lines define, with the riddle between them. -/
def riddled : Definition where
  description := String.ofList riddle
  startState := "q5"
  rules := [⟨"q5", [.plain '0'], "q1", [.plain '1'], [.right], some .accept⟩]

theorem onLine_remark : OnLine [] " # ']\" [=".toList := by
  rw [String.toList_ofList]
  exact .blank (.inl rfl) (.comment (by simp))

theorem assignsAll_linesBefore : AssignsAll (linesBefore.flatMap contentLines)
    [⟨"alphabet".toList, "['0',\n'1'] # (".toList⟩] := by
  have takes : (Pending.start ⟨"alphabet".toList, "['0',".toList⟩).Takes ["'1'] # (".toList] :=
    .line (by decide) rfl (.closed (by decide))
  exact .cons rfl rfl takes .nil

/-- The riddle is the description, and the lines around it define what they do without it. -/
theorem riddled_transparent :
    parse (['\n'].intercalate (linesBefore ++
        "description = ' [(#=\" ' # ']\" [=".toList :: linesAfter)) = .ok riddled ∧
      parse (['\n'].intercalate (linesBefore ++ linesAfter)) =
        .ok { riddled with description := "" } ∧
      StringKey.description.get riddled = String.ofList riddle := by
  have hmem : '\'' ∉ riddle := by decide
  have hunbroken : '\n' ∉ riddle := by decide
  have hwithout : Sections.ofText (['\n'].intercalate (linesBefore ++ linesAfter)) =
      .ok ⟨[⟨"alphabet".toList, "['0',\n'1'] # (".toList⟩, ⟨"start_state".toList, "\"q5\"".toList⟩],
        ["q5 0 accept 1 r".toList]⟩ := rfl
  obtain ⟨value, -, -, -, hparse, hget⟩ := quoted_string_transparent .description (.inr rfl) hmem
    hunbroken onLine_remark (.inl rfl) assignsAll_linesBefore linesAfter
  have parsed : parse (['\n'].intercalate (linesBefore ++
      "description = ' [(#=\" ' # ']\" [=".toList :: linesAfter)) = .ok riddled :=
    (hparse _ hwithout (by decide)).trans rfl
  exact ⟨parsed, rfl, hget _ parsed⟩

end Definition

end Multitape
