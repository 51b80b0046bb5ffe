import Multitape.Catalog
import Multitape.CommandLine.Request
import Multitape.Definition.Load
import Multitape.Diagnostic
import Multitape.Json.Encoding
import Multitape.Machine.Trace
import Multitape.Text.Lines

/-!
What the program writes for a command line. It lists the programs, or takes up a definition and
tells it, checks it or runs it. Inputs on the command line are run until one fails, which ends the
program; without any, every line of the standard input is one, and a line that fails is told and
the next one is run.

Whatever is found about a definition is logged as a warning when the definition is parsed, which is
before anything is run. The log goes to standard error too. How a warning is written there is up to
the library that takes the log, which puts the time of day into each line, and to the level that the
environment sets, at which there may be no lines at all; so it is a parameter (`Log`).

Scope. Events below the level of warnings, which are not written unless the environment asks for
them, are left out. So is the prompt that asks for inputs where the standard input is a terminal:
it is taken to be a file or a pipe.
-/

set_option autoImplicit false
set_option relaxedAutoImplicit false

namespace Multitape.CommandLine

/-- What the program leaves behind. -/
structure Outcome where
  code : Nat
  stdout : String
  stderr : String
deriving DecidableEq, Repr

namespace Outcome

/-- Nothing written, and no failure. -/
def silent : Outcome := ⟨0, "", ""⟩

/-- The end of a program that a failure stops. -/
def failed (description : String) : Outcome := ⟨1, "", "Error: " ++ description ++ "\n"⟩

/-- The outcome after something has been written to standard output and to standard error. -/
def after (stdout stderr : String) (rest : Outcome) : Outcome :=
  { rest with stdout := stdout ++ rest.stdout, stderr := stderr ++ rest.stderr }

end Outcome

/-- A report on a run: its configuration above a rule as long as the first line, or the reason why
it is not shown. -/
def reportLines (report : Machine.Report) : List String :=
  match report.rendering with
  | .ok lines =>
    let width := (lines.head?.getD "").length
    lines ++ [String.ofList (List.replicate width '-')]
  | .error fault =>
    [String.ofList (Machine.padTo 6 report.state.toList) ++ " step " ++ toString report.steps ++
      ": " ++ (Failure.tooWide fault).message]

/-- What one input makes the program write to standard output, and how its run ends. -/
structure InputRun where
  written : String
  result : Except Failure Verdict
  machine : Machine

/-- Runs one input, with a report on every configuration if the run is to be traced. -/
def runInput (fuel : Nat) (traced : Bool) (m : Machine) (input : List Char) : Option InputRun := do
  let (lines, result, m) ←
    if traced then do
      let trace ← m.trace fuel input
      pure (trace.reports.flatMap reportLines, trace.result, trace.machine)
    else do
      let (result, m) ← m.run fuel input
      pure ([], result, m)
  match result with
  | .ok verdict => return ⟨Text.unlines (lines ++ [verdict.name]), .ok verdict, m⟩
  | .error fault => return ⟨Text.unlines lines, .error (.run fault), m⟩

/-- What a run that failed is told by. -/
def InputRun.complaint (run : InputRun) : String :=
  match run.result with
  | .ok _ => ""
  | .error failure => "Error: " ++ failure.message ++ "\n"

/-- What runs write to standard output. -/
def writtenBy (runs : List InputRun) : String := String.join (runs.map InputRun.written)

/-- The runs of inputs, each on the machine that the one before leaves behind. -/
def runEach (fuel : Nat) (traced : Bool) (m : Machine) : List (List Char) → Option (List InputRun)
  | [] => some []
  | input :: rest => do
    let run ← runInput fuel traced m input
    return run :: (← runEach fuel traced run.machine rest)

/-- The runs of inputs up to the first that fails. -/
def runUntilFailure (fuel : Nat) (traced : Bool) (m : Machine) :
    List (List Char) → Option (List InputRun)
  | [] => some []
  | input :: rest => do
    let run ← runInput fuel traced m input
    match run.result with
    | .ok _ => return run :: (← runUntilFailure fuel traced run.machine rest)
    | .error _ => return [run]

/-- Runs inputs until one fails, which ends the program. -/
def runInputs (fuel : Nat) (traced : Bool) (m : Machine) (inputs : List String) :
    Option Outcome := do
  let runs ← runUntilFailure fuel traced m (inputs.map String.toList)
  let ending := match runs.getLast?.map InputRun.result with
    | some (.error failure) => Outcome.failed failure.describe
    | _ => .silent
  return ending.after (writtenBy runs) ""

/-- The lines of some bytes, of which the first has begun with the given ones, last one first. A
carriage return before a line feed belongs to the line's end. -/
def byteLinesFrom (begun : List UInt8) : List UInt8 → List (List UInt8)
  | [] => if begun.isEmpty then [] else [begun.reverse]
  | b :: rest =>
    if b = 10 then
      let line := match begun with
        | 13 :: line => line
        | line => line
      line.reverse :: byteLinesFrom [] rest
    else byteLinesFrom (b :: begun) rest

/-- Bytes as text. -/
def textOf? (bytes : List UInt8) : Option String :=
  String.fromUTF8? ⟨bytes.toArray⟩

/-- Runs every line, without the white space around it. A line that is no text ends the program. -/
def runLines (fuel : Nat) (traced : Bool) (m : Machine) (lines : List (List UInt8)) :
    Option Outcome := do
  let texts := lines.map textOf?
  let inputs := (texts.takeWhile Option.isSome).filterMap id
  let runs ← runEach fuel traced m (inputs.map fun text ↦ Text.trim text.toList)
  let ending := if texts.all Option.isSome then Outcome.silent else
    .failed ("Error \x7b kind: InvalidData, message: " ++
      Text.quoted PathFault.notText.message ++ " \x7d")
  return ending.after (writtenBy runs) (String.join (runs.map InputRun.complaint))

/-- A line for every program of the catalog. -/
def listing : String :=
  Text.unlines (Catalog.programs.map fun program ↦
    String.ofList (Machine.padTo 22 program.name.toList) ++ " " ++
      toString program.definition.tapeCount ++ " tape(s)  " ++ program.definition.description)

/-! ### The log -/

/-- An event that is logged as a warning: what it says, and what it is about by name. -/
structure Warning where
  message : String
  fields : List (String × String)
deriving DecidableEq, Repr

/-- What is written to standard error for a warning. -/
abbrev Log := Warning → String

/-- The log at a level at which no warnings are written. -/
def Log.off : Log := fun _ ↦ ""

/-- The warnings about a definition that has been parsed, one for each finding. -/
def Warning.about (d : Definition) : List Warning :=
  d.diagnostics.map fun finding ↦
    ⟨"suspicious machine definition", [("diagnostic", finding.message)]⟩

/-- The warning about a text of the catalog that defines no machine. -/
def Warning.unparsed (name : String) (fault : Definition.Fault) : Warning :=
  ⟨"failed to parse embedded program",
    [("name", name), ("error", (Failure.definition fault).message)]⟩

/-- The warnings about the catalog. All its texts are parsed when it is first looked into. -/
def Warning.catalog : List Warning :=
  Catalog.texts.flatMap fun (name, text) ↦
    match Definition.parse text.toList with
    | .ok d => Warning.about d
    | .error fault => [Warning.unparsed name fault]

/-- The warnings that are logged on request: those about the definition in a file, or about the
catalog if there is no file or the programs are listed. -/
def Request.warnings (r : Request) (files : String → Except PathFault ByteArray) : List Warning :=
  match r.list, r.file with
  | false, some path =>
    match Definition.ofFile path (files path) with
    | .ok d => Warning.about d
    | .error _ => []
  | _, _ => Warning.catalog

/-- What the log writes to standard error on request. -/
def Request.logged (r : Request) (log : Log) (files : String → Except PathFault ByteArray) :
    String :=
  String.join ((r.warnings files).map log)

/-! ### Requests -/

/-- The definition that is asked for. -/
def Request.definition (r : Request) (files : String → Except PathFault ByteArray) :
    Except Failure Definition :=
  match r.file, r.program with
  | some path, _ => Definition.ofFile path (files path)
  | none, some name => (Catalog.find name).map Program.definition
  | none, none => Catalog.default.map Program.definition

/-- Whether inputs are taken from standard input. -/
def Request.readsInput (r : Request) : Bool :=
  !r.list && !r.info && !r.check && r.inputs.isEmpty

/-- The findings about a definition, or that there are none. -/
def findings (d : Definition) : String :=
  match d.diagnostics with
  | [] => "No issues found\n"
  | found => Text.unlines (found.map fun finding ↦ "warning: " ++ finding.message)

/-- What the program does on request besides logging. There is no outcome if a run does not end with
the fuel. -/
def Request.carryOut (r : Request) (files : String → Except PathFault ByteArray) (fuel : Nat)
    (stdin : ByteArray) : Option Outcome :=
  if r.list then some { Outcome.silent with stdout := listing }
  else
    match r.definition files with
    | .error failure => some (.failed failure.describe)
    | .ok d =>
      let m := { Machine.new d with limit := r.maxSteps }
      if r.info then
        some { Outcome.silent with
          stdout := String.ofList ((Json.ofInfo m.info).indented 0) ++ "\n" }
      else if r.check then some { Outcome.silent with stdout := findings d }
      else if r.inputs.isEmpty then runLines fuel r.trace m (byteLinesFrom [] stdin.toList)
      else runInputs fuel r.trace m r.inputs

/-- What the program does on request. The log stands first, since it is about definitions that have
been parsed before anything is run. -/
def Request.respond (r : Request) (log : Log) (files : String → Except PathFault ByteArray)
    (fuel : Nat) (stdin : ByteArray) : Option Outcome :=
  (r.carryOut files fuel stdin).map (.after "" (r.logged log files))

/-- The outcome of a command line that is refused. -/
def refused : Outcome := ⟨2, "", "error: invalid command line\n"⟩

/-- What the program does on a command line. -/
def respond (log : Log) (arguments : List String) (files : String → Except PathFault ByteArray)
    (fuel : Nat) (stdin : ByteArray) : Option Outcome :=
  match Request.ofArguments? arguments with
  | none => some refused
  | some r => r.respond log files fuel stdin

/-- More steps than any run is waited for. -/
def patience : Nat := Nat.pow 2 62

end Multitape.CommandLine
