/-!
Command lines, read into what they ask for. An option stands anywhere before `--`, behind which all
is input. A value is glued to its option, with or without an equals sign, or is the next argument,
if that does not look like an option. Short options may share one dash. A command line is refused if
an option is unknown, has a value too many or too few, or is given twice, and if it names both a
file and a program.
-/

set_option autoImplicit false
set_option relaxedAutoImplicit false

namespace Multitape.CommandLine

/-- What a command line asks for. -/
structure Request where
  file : Option String := none
  program : Option String := none
  maxSteps : Option Nat := none
  trace : Bool := false
  info : Bool := false
  check : Bool := false
  list : Bool := false
  inputs : List String := []
deriving DecidableEq, Repr

/-- Options that stand for themselves. -/
inductive Flag
  | trace
  | info
  | check
  | list
deriving DecidableEq, Repr

/-- Options that take a value. -/
inductive Setting
  | file
  | program
  | maxSteps
deriving DecidableEq, Repr

/-- An option by its long name. -/
def longOption? (name : String) : Option (Flag ⊕ Setting) :=
  match name with
  | "trace" => some (.inl .trace)
  | "info" => some (.inl .info)
  | "check" => some (.inl .check)
  | "list" => some (.inl .list)
  | "file" => some (.inr .file)
  | "program" => some (.inr .program)
  | "max-steps" => some (.inr .maxSteps)
  | _ => none

/-- An option by its letter. -/
def shortOption? (c : Char) : Option (Flag ⊕ Setting) :=
  if c = 't' then some (.inl .trace)
  else if c = 'f' then some (.inr .file)
  else if c = 'p' then some (.inr .program)
  else none

/-- The largest number of steps that can be asked for. -/
def largestCount : Nat := Nat.pow 2 64 - 1

/-- A number in decimal digits, with or without a plus sign. -/
def readCount? (text : List Char) : Option Nat :=
  let digits := match text with
    | '+' :: rest => rest
    | all => all
  if digits.isEmpty ∨ digits.any (!·.isDigit) then none
  else
    let n := digits.foldl (fun n c ↦ 10 * n + (c.toNat - 0x30)) 0
    if n ≤ largestCount then some n else none

namespace Request

/-- Sets a flag that is not set. -/
def raise (r : Request) : Flag → Option Request
  | .trace => if r.trace then none else some { r with trace := true }
  | .info => if r.info then none else some { r with info := true }
  | .check => if r.check then none else some { r with check := true }
  | .list => if r.list then none else some { r with list := true }

/-- Gives a setting that has no value its value. -/
def set (r : Request) (setting : Setting) (value : List Char) : Option Request :=
  match setting with
  | .file =>
    if r.file.isSome ∨ value.isEmpty then none
    else some { r with file := some (String.ofList value) }
  | .program =>
    if r.program.isSome then none else some { r with program := some (String.ofList value) }
  | .maxSteps =>
    if r.maxSteps.isSome then none
    else (readCount? value).map fun n ↦ { r with maxSteps := some n }

/-- Adds an input in front of those that there are. -/
def addInput (r : Request) (input : String) : Request :=
  { r with inputs := input :: r.inputs }

end Request

/-- Whether an argument looks like an option. A dash alone does not. -/
def looksLikeOption : List Char → Bool
  | '-' :: _ :: _ => true
  | _ => false

/-- Reads the letters behind one dash. If the last of them is a setting without its value, that is
told. -/
def readLetters (r : Request) : List Char → Option (Request × Option Setting)
  | [] => some (r, none)
  | c :: rest =>
    match shortOption? c with
    | none => none
    | some (.inl flag) =>
      match r.raise flag with
      | none => none
      | some r => readLetters r rest
    | some (.inr setting) =>
      match rest with
      | [] => some (r, some setting)
      | '=' :: value => (r.set setting value).map fun r ↦ (r, none)
      | value => (r.set setting value).map fun r ↦ (r, none)

/-- Reads an argument behind two dashes. -/
def readLong (r : Request) (text : List Char) : Option (Request × Option Setting) :=
  let name := String.ofList (text.takeWhile (· ≠ '='))
  match longOption? name, text.dropWhile (· ≠ '=') with
  | some (.inl flag), [] => (r.raise flag).map fun r ↦ (r, none)
  | some (.inr setting), [] => some (r, some setting)
  | some (.inr setting), _ :: value => (r.set setting value).map fun r ↦ (r, none)
  | _, _ => none

/-- Reads one argument before `--`. While arguments are read, the inputs are listed last one
first. -/
def readArgument (r : Request) (argument : String) : Option (Request × Option Setting) :=
  match argument.toList with
  | '-' :: '-' :: text => readLong r text
  | '-' :: c :: letters => readLetters r (c :: letters)
  | _ => some (r.addInput argument, none)

/-- Reads arguments, the first of which may be the value of a setting. -/
def readArguments (r : Request) (open? : Option Setting) : List String → Option Request
  | [] => if open?.isSome then none else some r
  | argument :: rest =>
    match open? with
    | some setting =>
      if looksLikeOption argument.toList then none
      else
        match r.set setting argument.toList with
        | none => none
        | some r => readArguments r none rest
    | none =>
      if argument = "--" then some (rest.foldl Request.addInput r)
      else
        match readArgument r argument with
        | none => none
        | some (r, open?) => readArguments r open? rest

/-- What a command line asks for, unless it is refused. -/
def Request.ofArguments? (arguments : List String) : Option Request :=
  match readArguments {} none arguments with
  | none => none
  | some r =>
    if r.file.isSome && r.program.isSome then none
    else some { r with inputs := r.inputs.reverse }

end Multitape.CommandLine
