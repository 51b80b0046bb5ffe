import Multitape.Proofs.ByteLines
import Multitape.Proofs.History
import Multitape.Proofs.Loading
import Multitape.Proofs.Messages
import Multitape.Proofs.Printed
import Mathlib.Data.List.TakeWhile

/-!
Several inputs, one after the other on the same machine. Each begins on what the run before has left
of the machine, which is all that a start needs (`Alike`), so that every run is that of a new
machine, whether the runs before it have failed or not (`runEach_eq`, `runUntilFailure_append`).
Inputs that are lines and inputs that are arguments are therefore told alike up to the first that
fails (`lines_and_arguments`): arguments end there, while lines go on, with one line on standard
error for every run that fails (`oneLine_of_complaints`). Before these lines stands what the log
writes, which is about the definition and not about the inputs (`Request.Runs.logged_eq`).
-/

set_option autoImplicit false
set_option relaxedAutoImplicit false

namespace Multitape.CommandLine

open Machine Catalog

/-! ### One input after the other -/

theorem join_complaints (traced : Bool) (traces : List Trace) :
    String.join ((traces.map (InputRun.ofTrace traced)).map InputRun.complaint) =
      Text.unlines (traces.flatMap complaints) := by
  rw [List.map_map, ← String.toList_inj, String.toList_join, Text.toList_unlines,
    List.flatMap_map, List.flatMap_assoc]
  refine List.flatMap_congr fun t _ ↦ ?_
  rw [Function.comp_apply, complaint_ofTrace, Text.toList_unlines]

section Inputs

variable {first m : Machine} {fuel : Nat} {out : List Char → Trace} (traced : Bool)

/-- Every input is run as on a machine of which nothing has been asked. -/
theorem runEach_eq (halike : m.Alike first) {inputs : List (List Char)}
    (runs : ∀ input ∈ inputs, first.trace fuel input = some (out input)) :
    runEach fuel traced m inputs = some ((inputs.map out).map (.ofTrace traced)) := by
  induction inputs generalizing m with
  | nil => rfl
  | cons input inputs ih =>
    have hrun : m.trace fuel input = some (out input) :=
      (halike.trace_eq fuel input).trans (runs input List.mem_cons_self)
    have hleft : (out input).machine.Alike first := (alike_of_trace hrun).trans halike
    have hrest := ih hleft fun other hother ↦ runs other (.tail input hother)
    simp only [runEach, runInput_eq, hrun, Option.map_some, Option.bind_eq_bind, Option.bind_some,
      InputRun.ofTrace, hrest]
    rfl

/-- Inputs whose runs succeed are run as on a machine of which nothing has been asked, and what
comes behind them begins on a machine that a start cannot tell from it. -/
theorem runUntilFailure_append (halike : m.Alike first) {before : List (List Char)}
    (runs : ∀ input ∈ before, first.trace fuel input = some (out input))
    (succeed : ∀ input ∈ before, ∃ v, (out input).result = .ok v) (rest : List (List Char)) :
    ∃ left : Machine, left.Alike first ∧
      runUntilFailure fuel traced m (before ++ rest) =
        (runUntilFailure fuel traced left rest).map
          ((before.map out).map (.ofTrace traced) ++ ·) := by
  induction before generalizing m with
  | nil => exact ⟨m, halike, by simp⟩
  | cons input before ih =>
    have hrun : m.trace fuel input = some (out input) :=
      (halike.trace_eq fuel input).trans (runs input List.mem_cons_self)
    have hleft : (out input).machine.Alike first := (alike_of_trace hrun).trans halike
    obtain ⟨v, hresult⟩ := succeed input List.mem_cons_self
    obtain ⟨left, hlast, hrest⟩ := ih hleft (fun other hother ↦ runs other (.tail input hother))
      fun other hother ↦ succeed other (.tail input hother)
    refine ⟨left, hlast, ?_⟩
    simp only [List.cons_append, runUntilFailure, runInput_eq, hrun, Option.map_some,
      Option.bind_eq_bind, Option.bind_some, InputRun.ofTrace, hresult, Except.mapError, hrest]
    cases runUntilFailure fuel traced left rest with
    | none => rfl
    | some runs => simp [InputRun.ofTrace, hresult, Except.mapError]

theorem writtenBy_map_ofTrace (traces : List Trace) :
    writtenBy (traces.map (.ofTrace traced)) = String.join (traces.map (printed traced)) := by
  rw [writtenBy, List.map_map]
  rfl

/-- What lines make the program write. A line that fails is told and changes nothing about the lines
behind it. -/
theorem runLines_eq (halike : m.Alike first) {lines : List (List UInt8)} {inputs : List String}
    (read : lines.map textOf? = inputs.map some)
    (trimmed : ∀ x ∈ inputs, Text.trim x.toList = x.toList)
    (runs : ∀ x ∈ inputs, first.trace fuel x.toList = some (out x.toList)) :
    runLines fuel traced m lines =
      some ⟨0, String.join (inputs.map fun x ↦ printed traced (out x.toList)),
        Text.unlines (inputs.flatMap fun x ↦ complaints (out x.toList))⟩ := by
  have htexts : ((inputs.map some).takeWhile Option.isSome).filterMap id = inputs := by
    rw [List.takeWhile_eq_self_iff.2 (by simp), List.filterMap_map]
    exact List.filterMap_some
  have hinputs : (inputs.map fun x ↦ Text.trim x.toList) = inputs.map String.toList :=
    List.map_congr_left trimmed
  have heach : runEach fuel traced m (inputs.map String.toList) =
      some (((inputs.map String.toList).map out).map (.ofTrace traced)) :=
    runEach_eq traced halike (List.forall_mem_map.2 runs)
  simp only [runLines, read, htexts, hinputs, heach, Option.bind_eq_bind, Option.bind_some,
    writtenBy_map_ofTrace, join_complaints]
  simp [Outcome.after, Outcome.silent, List.flatMap_map, Function.comp_def]

/-- What arguments make the program write if every run succeeds. -/
theorem runInputs_of_succeed (halike : m.Alike first) {inputs : List String}
    (runs : ∀ x ∈ inputs, first.trace fuel x.toList = some (out x.toList))
    (succeed : ∀ x ∈ inputs, ∃ v, (out x.toList).result = .ok v) :
    runInputs fuel traced m inputs =
      some ⟨0, String.join (inputs.map fun x ↦ printed traced (out x.toList)), ""⟩ := by
  obtain ⟨left, -, hruns⟩ := runUntilFailure_append traced halike
    (List.forall_mem_map.2 runs) (List.forall_mem_map.2 succeed) []
  rw [List.append_nil, runUntilFailure, Option.map_some, List.append_nil] at hruns
  simp only [runInputs, hruns, Option.bind_eq_bind, Option.bind_some, writtenBy_map_ofTrace]
  split
  · next failure hlast =>
    obtain ⟨run, hrun, hresult⟩ := Option.map_eq_some_iff.1 hlast
    have hmem := List.mem_of_getLast? hrun
    simp only [List.map_map, List.mem_map] at hmem
    obtain ⟨x, hx, rfl⟩ := hmem
    obtain ⟨v, hv⟩ := succeed x hx
    simp [InputRun.ofTrace, hv, Except.mapError] at hresult
  · simp [Outcome.after, Outcome.silent, Function.comp_def]

/-- What arguments make the program write up to the first run that fails. -/
theorem runInputs_of_fail (halike : m.Alike first) {before after : List String} {x : String}
    {fault : Fault} (runs : ∀ y ∈ before ++ [x], first.trace fuel y.toList = some (out y.toList))
    (succeed : ∀ y ∈ before, ∃ v, (out y.toList).result = .ok v)
    (fails : (out x.toList).result = .error fault) :
    runInputs fuel traced m (before ++ x :: after) =
      some ⟨1, String.join ((before ++ [x]).map fun y ↦ printed traced (out y.toList)),
        "Error: " ++ (Failure.run fault).describe ++ "\n"⟩ := by
  obtain ⟨hbefore, hx⟩ := List.forall_mem_append.1 runs
  obtain ⟨left, hleft, hruns⟩ := runUntilFailure_append traced halike
    (List.forall_mem_map.2 hbefore) (List.forall_mem_map.2 succeed)
    ((x :: after).map String.toList)
  have hlast : left.trace fuel x.toList = some (out x.toList) :=
    (hleft.trace_eq fuel x.toList).trans (hx x (List.mem_singleton_self x))
  have hfails : (InputRun.ofTrace traced (out x.toList)).result = .error (.run fault) := by
    rw [InputRun.ofTrace, fails, Except.mapError]
  have hfailed : runUntilFailure fuel traced left ((x :: after).map String.toList) =
      some [.ofTrace traced (out x.toList)] := by
    simp only [List.map_cons, runUntilFailure, runInput_eq, hlast, Option.map_some,
      Option.bind_eq_bind, Option.bind_some, hfails]
    rfl
  rw [hfailed, Option.map_some] at hruns
  simp only [runInputs, List.map_append, hruns, Option.bind_eq_bind, Option.bind_some,
    List.getLast?_concat, Option.map_some, hfails, Option.pure_def]
  simp [Outcome.after, Outcome.failed, writtenBy, Function.comp_def, InputRun.ofTrace]

end Inputs

/-! ### Command lines -/

theorem foldl_addInput (inputs : List String) (r : Request) :
    inputs.foldl Request.addInput r = { r with inputs := inputs.reverse ++ r.inputs } := by
  induction inputs generalizing r with
  | nil => rfl
  | cons input inputs ih =>
    rw [List.foldl_cons, ih]
    simp [Request.addInput]

/-- What stands behind `--` is added to the inputs that are asked for before it. -/
theorem readArguments_append {r asked : Request} {open? : Option Setting} {options : List String}
    (h : readArguments r open? options = some asked) (unended : "--" ∉ options)
    (inputs : List String) :
    readArguments r open? (options ++ "--" :: inputs) =
      some { asked with inputs := inputs.reverse ++ asked.inputs } := by
  induction options generalizing r open? with
  | nil =>
    cases open? with
    | some setting => simp [readArguments] at h
    | none =>
      obtain rfl : r = asked := by simpa [readArguments] using h
      rw [List.nil_append, readArguments, if_pos rfl, foldl_addInput]
  | cons argument options ih =>
    obtain ⟨hargument, hoptions⟩ := not_or.1 (List.mem_cons.not.1 unended)
    rw [List.cons_append]
    cases open? with
    | some setting =>
      simp only [readArguments] at h ⊢
      split_ifs at h ⊢
      split at h
      · cases h
      · exact ih h hoptions
    | none =>
      simp only [readArguments, if_neg (Ne.symm hargument)] at h ⊢
      split at h
      · cases h
      · exact ih h hoptions

theorem ofArguments?_append {options : List String} {r : Request}
    (h : Request.ofArguments? options = some r) (unended : "--" ∉ options)
    (inputs : List String) :
    Request.ofArguments? (options ++ "--" :: inputs) =
      some { r with inputs := r.inputs ++ inputs } := by
  rw [Request.ofArguments?] at h ⊢
  cases hread : readArguments {} none options with
  | none => simp [hread] at h
  | some asked =>
    simp only [hread, readArguments_append hread unended] at h ⊢
    split_ifs at h ⊢
    obtain rfl := Option.some.inj h
    simp

/-- Everything behind `--` on a command line is run as an input. -/
theorem respond_append {options : List String} {r : Request}
    (h : Request.ofArguments? options = some r) (unended : "--" ∉ options) (inputs : List String)
    (log : Log) (files : String → Except PathFault ByteArray) (fuel : Nat) (stdin : ByteArray) :
    respond log (options ++ "--" :: inputs) files fuel stdin =
      { r with inputs := r.inputs ++ inputs }.respond log files fuel stdin := by
  rw [respond, ofArguments?_append h unended]

/-! ### Requests -/

/-- The request is to run inputs on a definition, under a limit, and to trace the runs or not. -/
structure Request.Runs (r : Request) (files : String → Except PathFault ByteArray) (d : Definition)
    (limit : Option Nat) (traced : Bool) : Prop where
  unlisted : r.list = false
  untold : r.info = false
  unchecked : r.check = false
  found : r.definition files = .ok d
  limited : r.maxSteps = limit
  shown : r.trace = traced

section Requests

variable {r : Request} {d : Definition} {limit : Option Nat} {traced : Bool} {log : Log}
  {files : String → Except PathFault ByteArray}

theorem Request.Runs.withInputs (h : r.Runs files d limit traced) (inputs : List String) :
    { r with inputs := inputs }.Runs files d limit traced :=
  ⟨h.unlisted, h.untold, h.unchecked, h.found, h.limited, h.shown⟩

/-- A new machine with the limit that is asked for is run. -/
theorem Request.Runs.carryOut_eq (h : r.Runs files d limit traced) (fuel : Nat)
    (stdin : ByteArray) : r.carryOut files fuel stdin =
      if r.inputs.isEmpty then
        runLines fuel traced (fresh d limit ">") (byteLinesFrom [] stdin.toList)
      else runInputs fuel traced (fresh d limit ">") r.inputs := by
  obtain ⟨unlisted, untold, unchecked, found, rfl, rfl⟩ := h
  simp only [Request.carryOut, unlisted, untold, unchecked, found]
  rfl

/-- Without inputs the lines of standard input are run, behind what the log writes. -/
theorem Request.Runs.respond_lines (h : r.Runs files d limit traced) (log : Log) (fuel : Nat)
    (stdin : ByteArray) : { r with inputs := [] }.respond log files fuel stdin =
      (runLines fuel traced (fresh d limit ">") (byteLinesFrom [] stdin.toList)).map
        (.after "" (r.logged log files)) :=
  congrArg _ ((h.withInputs []).carryOut_eq fuel stdin)

/-- Inputs that are given are run, behind what the log writes. -/
theorem Request.Runs.respond_arguments (h : r.Runs files d limit traced) (log : Log)
    {inputs : List String} (some_input : inputs ≠ []) (fuel : Nat) (stdin : ByteArray) :
    { r with inputs := inputs }.respond log files fuel stdin =
      (runInputs fuel traced (fresh d limit ">") inputs).map
        (.after "" (r.logged log files)) := by
  have hrun := (h.withInputs inputs).carryOut_eq fuel stdin
  rw [if_neg (by simpa using some_input)] at hrun
  exact congrArg _ hrun

/-- The log is about the definition in the file that is asked for, or else about the catalog. -/
theorem Request.Runs.logged_eq (h : r.Runs files d limit traced) (log : Log) :
    r.logged log files =
      String.join ((if r.file.isSome then Warning.about d else Warning.catalog).map log) := by
  have found := h.found
  unfold Request.definition at found
  unfold Request.logged Request.warnings
  cases hfile : r.file with
  | none => rw [h.unlisted]; rfl
  | some path =>
    simp only [hfile] at found
    simp only [h.unlisted, found]
    rfl

theorem after_log (logged : String) (code : Nat) (stdout stderr : String) :
    Outcome.after "" logged ⟨code, stdout, stderr⟩ = ⟨code, stdout, logged ++ stderr⟩ := by
  rw [Outcome.after, String.empty_append]

theorem logged_off : r.logged .off files = "" := by
  rw [Request.logged, ← String.toList_inj, String.toList_join]
  simp [Log.off]

end Requests

/-- The definition that is asked for has been written down. -/
theorem exists_parse_of_definition {r : Request} {d : Definition}
    {files : String → Except PathFault ByteArray} (found : r.definition files = .ok d) :
    ∃ text, Definition.parse text = .ok d := by
  have hlisted : ∀ name, (find name).map Program.definition = .ok d →
      ∃ text, Definition.parse text = .ok d := by
    intro name h
    obtain ⟨program, hprogram, rfl⟩ := map_eq_ok_iff.1 h
    exact ⟨_, (mem_programs_iff.1 (mem_programs_of_find hprogram)).2⟩
  unfold Request.definition at found
  split at found
  · next path _ _ =>
    unfold Definition.ofFile at found
    split at found
    · cases found
    · split_ifs at found
      split at found
      · cases found
      · exact ⟨_, mapError_eq_ok_iff.1 found⟩
  · exact hlisted _ found
  · exact hlisted _ found

/-- A run that fails is told by one line. -/
theorem oneLine_of_complaints {d : Definition} {limit : Option Nat} {text input : List Char}
    {fuel : Nat} {t : Trace} (parsed : Definition.parse text = .ok d) (unbroken : '\n' ∉ input)
    (h : (fresh d limit ">").trace fuel input = some t) :
    ∀ line ∈ complaints t, Text.OneLine line := by
  intro line hline
  unfold complaints at hline
  split at hline
  · cases hline
  · next fault hfailed =>
    obtain rfl := List.mem_singleton.1 hline
    have hrun := (fresh d limit ">").map_trace fuel input
    rw [h, Option.map_some, hfailed] at hrun
    have hproper := Definition.proper_of_parse parsed
    have hmessage := oneLine_of_runFrom (unbroken_start hproper unbroken) hproper
      (Definition.unbroken_of_parse parsed) hrun.symm
    exact Text.oneLine_append.2 ⟨by decide, hmessage⟩

/-! ### All inputs -/

/-- If the run of every input ends, there is a time after which all of them have ended. -/
theorem exists_enough {first : Machine} {inputs : List String}
    (returns : ∀ x ∈ inputs, ∃ fuel, (first.run fuel x.toList).isSome) :
    ∃ (out : List Char → Trace) (enough : Nat), ∀ fuel ≥ enough, ∀ x ∈ inputs,
      first.trace fuel x.toList = some (out x.toList) := by
  have hall : ∃ enough, ∀ x ∈ inputs, (first.trace enough x.toList).isSome := by
    induction inputs with
    | nil => exact ⟨0, by simp⟩
    | cons x inputs ih =>
      obtain ⟨others, hothers⟩ := ih fun y hy ↦ returns y (.tail x hy)
      obtain ⟨fuel, hfuel⟩ := returns x List.mem_cons_self
      rw [← map_trace, Option.isSome_map] at hfuel
      have hlonger : ∀ {y : String} {fuel' : Nat}, fuel' ≤ max fuel others →
          (first.trace fuel' y.toList).isSome →
            (first.trace (max fuel others) y.toList).isSome := by
        intro y fuel' le h
        obtain ⟨t, ht⟩ := Option.isSome_iff_exists.1 h
        exact Option.isSome_iff_exists.2 ⟨t, trace_mono ht le⟩
      refine ⟨max fuel others, List.forall_mem_cons.2 ⟨?_, fun y hy ↦ ?_⟩⟩
      · exact hlonger (Nat.le_max_left _ _) hfuel
      · exact hlonger (Nat.le_max_right _ _) (hothers y hy)
  obtain ⟨enough, hends⟩ := hall
  refine ⟨fun input ↦ (first.trace enough input).getD ⟨[], .ok .accept, first⟩, enough,
    fun fuel le x hx ↦ ?_⟩
  obtain ⟨t, ht⟩ := Option.isSome_iff_exists.1 (hends x hx)
  dsimp only
  rw [trace_mono ht le, ht, Option.getD_some]

/-- Inputs without white space around them, each with a run that ends on a new machine. As lines
they make the program write what the run of each of them gives, with one line on standard error for
every run that fails, and the program ends well. As arguments they make it write the same up to the
first run that fails, which is where it ends. What the log writes about the definition stands before
that and does not depend on the inputs. -/
theorem lines_and_arguments {d : Definition} {limit : Option Nat} (traced : Bool)
    {inputs : List String} (some_input : inputs ≠ [])
    (tidy : ∀ x ∈ inputs, Text.trim x.toList = x.toList ∧ '\n' ∉ x.toList)
    (returns : ∀ x ∈ inputs, ∃ fuel, ((fresh d limit ">").run fuel x.toList).isSome) :
    ∃ (ran : List Char → Trace) (out : String → String) (enough : Nat),
      (∀ x ∈ inputs, Prints traced (ran x.toList) (out x)) ∧
      Text.lines (Text.unlines inputs).toList = inputs.map String.toList ∧
      ∀ fuel ≥ enough,
        (∀ x ∈ inputs, (fresh d limit ">").trace fuel x.toList = some (ran x.toList)) ∧
        ∀ (r : Request) (files : String → Except PathFault ByteArray) (log : Log),
          r.Runs files d limit traced →
          (r.logged log files =
              String.join ((if r.file.isSome then Warning.about d else Warning.catalog).map log) ∧
            r.logged .off files = "") ∧
          (∀ piped : String, Text.lines piped.toList = inputs.map String.toList →
            { r with inputs := [] }.respond log files fuel piped.toUTF8 =
              some ⟨0, String.join (inputs.map out), r.logged log files ++
                Text.unlines (inputs.flatMap fun x ↦ complaints (ran x.toList))⟩) ∧
          (∀ x ∈ inputs, ∀ line ∈ complaints (ran x.toList), Text.OneLine line) ∧
          (∀ stdin, (∀ x ∈ inputs, ∃ v, (ran x.toList).result = .ok v) →
            { r with inputs := inputs }.respond log files fuel stdin =
              some ⟨0, String.join (inputs.map out), r.logged log files⟩) ∧
          ∀ stdin before x after fault, inputs = before ++ x :: after →
            (∀ y ∈ before, ∃ v, (ran y.toList).result = .ok v) →
            (ran x.toList).result = .error fault →
            { r with inputs := inputs }.respond log files fuel stdin =
              some ⟨1, String.join ((before ++ [x]).map out), r.logged log files ++
                ("Error: " ++ (Failure.run fault).describe ++ "\n")⟩ := by
  obtain ⟨ran, enough, hran⟩ := exists_enough returns
  refine ⟨ran, fun x ↦ printed traced (ran x.toList), enough, fun x _ ↦ prints_iff.2 rfl, ?_,
    fun fuel le ↦ ⟨hran fuel le, fun r files log h ↦ ?_⟩⟩
  · refine Text.lines_unlines fun x hx ↦ ⟨(tidy x hx).2, fun hreturn ↦ ?_⟩
    rw [← (tidy x hx).1] at hreturn
    exact absurd (Text.isWhite_of_getLast?_trim hreturn) (by decide)
  refine ⟨⟨h.logged_eq log, logged_off⟩, ?_, ?_, ?_, ?_⟩
  · intro piped hlines
    have hread : (byteLinesFrom [] piped.toUTF8.toList).map textOf? = inputs.map some := by
      rw [map_textOf?_byteLines, hlines, List.map_map]
      exact List.map_congr_left fun x _ ↦ by simp
    rw [h.respond_lines,
      runLines_eq traced (Alike.refl _) hread (fun x hx ↦ (tidy x hx).1) (hran fuel le),
      Option.map_some, after_log]
  · intro x hx
    obtain ⟨text, parsed⟩ := exists_parse_of_definition h.found
    exact oneLine_of_complaints parsed (tidy x hx).2 (hran fuel le x hx)
  · intro stdin succeed
    rw [h.respond_arguments log some_input,
      runInputs_of_succeed traced (Alike.refl _) (hran fuel le) succeed, Option.map_some, after_log,
      String.append_empty]
  · rintro stdin before x after fault rfl succeed fails
    have hpart : before ++ [x] ⊆ before ++ x :: after := by simp
    rw [h.respond_arguments log some_input,
      runInputs_of_fail traced (Alike.refl _) (fun y hy ↦ hran fuel le y (hpart hy)) succeed fails,
      Option.map_some, after_log]

/-- What is read off a run that ends in time is the same with more time. -/
theorem eq_of_map_trace {α : Type} {m : Machine} {f : Trace → α} {a : α} {enough fuel : Nat}
    {input : List Char} {t : Trace} (h : (m.trace enough input).map f = some a)
    (le : enough ≤ fuel) (ht : m.trace fuel input = some t) : f t = a := by
  obtain ⟨t', ht', rfl⟩ := Option.map_eq_some_iff.1 h
  rw [Option.some.inj (ht.symm.trans (trace_mono ht' le))]

/-- A machine that goes from a `0` to a state without rules. -/
def stranded : Definition where
  rules := [⟨"q0", [.plain '0'], "q9", [.plain '0'], [.right], none⟩,
    ⟨"q0", [.plain '1'], "q1", [.plain '1'], [.right], some .accept⟩]

def strandedText : String := "q0 0 q9 0 r\nq0 1 q1 1 r"

/-- The warning about the machine. -/
def strandedWarning : Warning :=
  ⟨"suspicious machine definition",
    [("diagnostic", "States without rules are always rejecting: [\"q9\"]")]⟩

/-- Why `a` is no input for a machine over digits. -/
def strayLetter : Fault :=
  .instruction (.implicitReject "q0" [.plain 'a'] "q2") 0 (.foreign (.plain 'a')
    (.ofList [.plain 'B', .plain '0', .plain '1']))

theorem runs_stranded (traced : Bool) :
    Request.Runs { file := some "m.tm", trace := traced } (fun _ ↦ .ok strandedText.toUTF8)
      stranded none traced where
  unlisted := rfl
  untold := rfl
  unchecked := rfl
  found := by
    have parsed : Definition.parse strandedText.toList = .ok stranded := by
      rw [strandedText, String.toList_ofList]
      rfl
    have hsmall : ¬ strandedText.utf8ByteSize > maxDefinitionBytes := by decide
    change Definition.ofFile "m.tm" (.ok strandedText.toUTF8) = _
    rw [Definition.ofFile_toUTF8, if_neg hsmall, Definition.ofText, if_neg hsmall, parsed]
    rfl
  limited := rfl
  shown := rfl

/-- Three inputs, of which the second fails. As lines they are run untraced, as arguments traced. -/
theorem stray_letter_told :
    ∃ enough, ∀ fuel ≥ enough, ∀ (log : Log) (stdin : ByteArray),
      respond log ["-f", "m.tm"] (fun _ ↦ .ok strandedText.toUTF8) fuel
          (Text.unlines ["1", "a", "0"]).toUTF8 =
        some ⟨0, "accept\nreject\n", log strandedWarning ++
          ("Error: Bad instruction: (q0, a) -> \x7bq_reject, a, R\x7d on tape 0: 'a' is not in " ++
            "the tape alphabet [B, 0, 1]\n")⟩ ∧
      respond log (["-f", "m.tm", "-t"] ++ "--" :: ["1", "a", "0"])
          (fun _ ↦ .ok strandedText.toUTF8) fuel stdin =
        some ⟨1, Text.unlines ["q0     >1", "---------", "q1      1>B", "-----------", "accept",
          "q0     >a", "---------"], log strandedWarning ++
          ("Error: " ++ (Failure.run strayLetter).describe ++ "\n")⟩ := by
  have returns : ∀ x ∈ ["1", "a", "0"], ∃ fuel,
      ((fresh stranded none ">").run fuel x.toList).isSome := by
    simp only [List.forall_mem_cons, List.not_mem_nil]
    exact ⟨⟨20, rfl⟩, ⟨20, rfl⟩, ⟨20, rfl⟩, nofun⟩
  obtain ⟨ran, out, enough, hout, hlines, hall⟩ :=
    lines_and_arguments false (by simp) (by decide) returns
  obtain ⟨ran', out', enough', hout', -, hall'⟩ :=
    lines_and_arguments true (by simp) (by decide) returns
  refine ⟨max 20 (max enough enough'), fun fuel le log stdin ↦ ?_⟩
  have hlong : 20 ≤ fuel := by omega
  have hlogged : String.join ((Warning.about stranded).map log) = log strandedWarning := by
    have habout : Warning.about stranded = [strandedWarning] := rfl
    simp [habout, String.join]
  simp only [List.forall_mem_cons, prints_iff] at hout hout'
  constructor
  · obtain ⟨hruns, htold⟩ := hall fuel (by omega)
    obtain ⟨⟨hlog, -⟩, hpiped, -⟩ := htold _ _ log (runs_stranded false)
    have hone := eq_of_map_trace (f := fun t ↦ (t.result, printed false t))
      (a := (.ok .accept, "accept\n")) rfl hlong (hruns "1" (by simp))
    have hstray := eq_of_map_trace (f := fun t ↦ (t.result, printed false t))
      (a := (.error strayLetter, "")) rfl hlong (hruns "a" (by simp))
    have hzero := eq_of_map_trace (f := fun t ↦ (t.result, printed false t))
      (a := (.ok .reject, "reject\n")) rfl hlong (hruns "0" (by simp))
    simp only [Prod.mk.injEq] at hone hstray hzero
    refine (hpiped _ hlines).trans ?_
    simp only [hlog, Option.isSome_some, if_true, hlogged, List.map_cons, List.map_nil,
      List.flatMap_cons, List.flatMap_nil, hout, complaints, hone, hstray, hzero]
    rfl
  · obtain ⟨hruns, htold⟩ := hall' fuel (by omega)
    obtain ⟨⟨hlog, -⟩, -, -, -, hfailed⟩ := htold _ _ log (runs_stranded true)
    have hone := eq_of_map_trace (f := fun t ↦ (t.result, printed true t))
      (a := (.ok .accept, Text.unlines ["q0     >1", "---------", "q1      1>B", "-----------",
        "accept"])) rfl hlong (hruns "1" (by simp))
    have hstray := eq_of_map_trace (f := fun t ↦ (t.result, printed true t))
      (a := (.error strayLetter, Text.unlines ["q0     >a", "---------"])) rfl hlong
      (hruns "a" (by simp))
    simp only [Prod.mk.injEq] at hone hstray
    have hread : Request.ofArguments? ["-f", "m.tm", "-t"] =
      some { file := some "m.tm", trace := true } := rfl
    rw [respond_append hread (by simp)]
    refine (hfailed stdin ["1"] "a" ["0"] strayLetter rfl ?_ hstray.1).trans ?_
    · exact List.forall_mem_singleton.2 ⟨_, hone.1⟩
    · simp only [hlog, Option.isSome_some, if_true, hlogged, List.singleton_append, List.map_cons,
        List.map_nil, hout', hone, hstray]
      rfl

end Multitape.CommandLine
