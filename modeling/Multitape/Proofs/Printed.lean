import Multitape.CommandLine.Session
import Multitape.Proofs.Trace

/-!
What one input makes the program write. The lines that tell of a report are fixed by what the report
holds (`Tells`, `tells_iff`): a configuration stands above a rule of dashes, and one that is too
wide is named in a line by itself. A traced run writes these lines for one report after the other,
and every run that succeeds writes its verdict behind them (`Prints`, `prints_iff`). A run that
fails is told by one line on standard error (`complaint_ofTrace`).
-/

set_option autoImplicit false
set_option relaxedAutoImplicit false

namespace Multitape.CommandLine

open Machine

/-! ### Reports -/

/-- The lines that tell of a report. A configuration that can be shown has a rule below it, with as
many dashes as the first of its lines has characters. Of one that is too wide a line has the state,
filled up to six characters, the number of steps and the reason why it is not shown. -/
inductive Tells (report : Report) : List String → Prop
  | shown {lines : List String} {rule : String} (drawn : report.rendering = .ok lines)
    (dashes : ∀ c ∈ rule.toList, c = '-')
    (long : rule.length = (lines.head?.map String.length).getD 0) : Tells report (lines ++ [rule])
  | hidden {fault : TooWide} {gap : String} (wide : report.rendering = .error fault)
    (spaces : ∀ c ∈ gap.toList, c = ' ')
    (filled : (report.state ++ gap).length = max 6 report.state.length) :
    Tells report [report.state ++ gap ++ " step " ++ toString report.steps ++ ": Tape row is " ++
      toString fault.width ++ " characters wide, the display limit is " ++ toString fault.limit]

theorem eq_ofList_replicate_iff {text : String} {c : Char} {n : Nat} :
    text = String.ofList (List.replicate n c) ↔ text.length = n ∧ ∀ a ∈ text.toList, a = c := by
  rw [← String.toList_inj, String.toList_ofList, List.eq_replicate_iff, String.length_toList]

theorem reportLines_error (steps : Nat) (state : String) (fault : TooWide) :
    reportLines ⟨steps, state, .error fault⟩ =
      [state ++ String.ofList (List.replicate (6 - state.toList.length) ' ') ++ " step " ++
        toString steps ++ ": Tape row is " ++ toString fault.width ++
        " characters wide, the display limit is " ++ toString fault.limit] := by
  have hcolon : ": Tape row is " = ": " ++ "Tape row is " := rfl
  simp only [reportLines, padTo, Failure.message, Failure.tell, Failure.tellTooWide, hcolon,
    String.ofList_append, String.ofList_toList, String.append_assoc]

/-- The lines that tell of a report are those that the program puts together. -/
theorem tells_iff {report : Report} {lines : List String} :
    Tells report lines ↔ lines = reportLines report := by
  have hrule : ∀ (drawn : List String) (rule : String),
      rule = String.ofList (List.replicate (drawn.head?.getD "").length '-') ↔
        rule.length = (drawn.head?.map String.length).getD 0 ∧ ∀ c ∈ rule.toList, c = '-' := by
    intro drawn rule
    rw [eq_ofList_replicate_iff]
    cases drawn <;> rfl
  have hgap : ∀ state gap : String,
      gap = String.ofList (List.replicate (6 - state.toList.length) ' ') ↔
        (state ++ gap).length = max 6 state.length ∧ ∀ c ∈ gap.toList, c = ' ' := by
    intro state gap
    rw [eq_ofList_replicate_iff, String.length_append, String.length_toList]
    exact and_congr_left' (by omega)
  obtain ⟨steps, state, rendering⟩ := report
  constructor
  · rintro (@⟨drawn, rule, rfl, dashes, long⟩ | @⟨fault, gap, rfl, spaces, filled⟩)
    · rw [(hrule drawn rule).2 ⟨long, dashes⟩]
      rfl
    · rw [reportLines_error, (hgap state gap).2 ⟨filled, spaces⟩]
  · rintro rfl
    cases rendering with
    | ok drawn =>
      obtain ⟨long, dashes⟩ := (hrule drawn _).1 rfl
      exact .shown rfl dashes long
    | error fault =>
      obtain ⟨filled, spaces⟩ := (hgap state _).1 rfl
      rw [reportLines_error]
      exact .hidden rfl spaces filled

theorem forall₂_tells_iff {reports : List Report} {told : List (List String)} :
    List.Forall₂ Tells reports told ↔ told = reports.map reportLines := by
  have htells : Tells = fun report lines ↦ reportLines report = lines := by
    funext report lines
    exact propext (tells_iff.trans eq_comm)
  rw [htells, ← List.forall₂_map_left_iff, List.forall₂_eq_eq_eq, eq_comm]

/-! ### Runs -/

/-- The line for the verdict of a run, if it has one. -/
def verdictLines : Except Fault Verdict → List String
  | .ok .accept => ["accept"]
  | .ok .reject => ["reject"]
  | .error _ => []

/-- What a run makes the program write to standard output: the lines that tell of its reports, if it
is traced, and behind them the line for its verdict. -/
def Prints (traced : Bool) (t : Trace) (text : String) : Prop :=
  ∃ told : List (List String), List.Forall₂ Tells (if traced then t.reports else []) told ∧
    text = Text.unlines (told.flatten ++ verdictLines t.result)

/-- The text as the program puts it together. -/
def printed (traced : Bool) (t : Trace) : String :=
  Text.unlines ((if traced then t.reports.flatMap reportLines else []) ++
    match t.result with
    | .ok v => [v.name]
    | .error _ => [])

theorem prints_iff {traced : Bool} {t : Trace} {text : String} :
    Prints traced t text ↔ text = printed traced t := by
  have hverdict : verdictLines t.result =
      match t.result with
      | .ok v => [v.name]
      | .error _ => [] := by
    rcases t.result with fault | (_ | _) <;> rfl
  simp only [Prints, forall₂_tells_iff, exists_eq_left, hverdict]
  cases traced <;> simp [printed, List.flatMap_def]

/-- The line on standard error for a run that fails. -/
def complaints (t : Trace) : List String :=
  match t.result with
  | .ok _ => []
  | .error fault => ["Error: " ++ (Failure.run fault).message]

/-! ### Inputs -/

/-- A run, as one of an input. -/
def InputRun.ofTrace (traced : Bool) (t : Trace) : InputRun :=
  ⟨printed traced t, t.result.mapError .run, t.machine⟩

theorem runInput_eq (fuel : Nat) (traced : Bool) (m : Machine) (input : List Char) :
    runInput fuel traced m input = (m.trace fuel input).map (.ofTrace traced) := by
  have hrun := m.map_trace fuel input
  cases htrace : m.trace fuel input with
  | none =>
    rw [htrace, Option.map_none] at hrun
    cases traced <;> simp [runInput, htrace, ← hrun]
  | some t =>
    rw [htrace, Option.map_some] at hrun
    obtain ⟨reports, result, last⟩ := t
    cases traced <;> cases result <;>
      simp [runInput, htrace, ← hrun, InputRun.ofTrace, printed, Except.mapError]

theorem complaint_ofTrace (traced : Bool) (t : Trace) :
    (InputRun.ofTrace traced t).complaint = Text.unlines (complaints t) := by
  cases hresult : t.result <;>
    simp [InputRun.complaint, InputRun.ofTrace, complaints, hresult, Except.mapError, Text.unlines]

end Multitape.CommandLine
