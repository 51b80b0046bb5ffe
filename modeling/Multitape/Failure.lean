import Multitape.Definition.Parse
import Multitape.FileTree
import Multitape.Machine.Render

/-!
Everything that can go wrong, as causes. Every failure has a kind and a text; programs that stop at
a failure show both at once, in the form of a record.
-/

set_option autoImplicit false
set_option relaxedAutoImplicit false

namespace Multitape

/-- The most bytes that a written definition may have. -/
def maxDefinitionBytes : Nat := 65536

/-- Why an operation gives no result. -/
inductive Failure
  | symbol (fault : Symbol.Fault)
  | rule (fault : Rule.Fault)
  | definition (fault : Definition.Fault)
  | instruction (refusal : Tape.Refusal)
  | run (fault : Machine.Fault)
  | tooWide (fault : Machine.TooWide)
  | unreadableFile (path : String) (fault : PathFault)
  | fileTooLarge (path : String) (bytes : Nat)
  | textTooLarge (bytes : Nat)
  | unreadableDirectory (path : String) (fault : PathFault)
  /-- A file of a directory holds no definition. -/
  | unloadable (path : String) (cause : Failure)
  | unknownProgram (name : String)
  | noProgramAt (index : Nat)
deriving DecidableEq, Repr

namespace Failure

/-- The failures by what they are about. -/
inductive Kind
  | malformedSymbol
  | ambiguousSymbol
  | malformedRule
  | unknownConfigKey
  | duplicateConfigKey
  | configMismatch
  | parseError
  | badInstruction
  | stepLimitExceeded
  | displayWidth
  | fileError
  | unknownProgram
deriving DecidableEq, Repr

def Kind.name : Kind → String
  | malformedSymbol => "MalformedSymbol"
  | ambiguousSymbol => "AmbiguousSymbol"
  | malformedRule => "MalformedRule"
  | unknownConfigKey => "UnknownConfigKey"
  | duplicateConfigKey => "DuplicateConfigKey"
  | configMismatch => "ConfigMismatch"
  | parseError => "ParseError"
  | badInstruction => "BadInstruction"
  | stepLimitExceeded => "StepLimitExceeded"
  | displayWidth => "DisplayWidth"
  | fileError => "FileError"
  | unknownProgram => "UnknownProgram"

/-- How a failure is told. -/
structure Telling where
  kind : Kind
  /-- What a record of the failure holds. -/
  record : String
  /-- What a reader is told. -/
  message : String
deriving DecidableEq, Repr

/-- The parts of a record by name. -/
def fields (parts : List (String × String)) : String :=
  " \x7b " ++ ", ".intercalate (parts.map fun (name, value) ↦ name ++ ": " ++ value) ++ " \x7d"

/-- A failure whose record is one text, which its message ends with. -/
def plainly (kind : Kind) (about text : String) : Telling :=
  ⟨kind, "(" ++ Text.quoted text ++ ")", about ++ text⟩

/-- A failure whose record is one text, which its message quotes. -/
def quoting (kind : Kind) (about text : String) : Telling :=
  ⟨kind, "(" ++ Text.quoted text ++ ")", about ++ Text.quoted text⟩

def tellSymbol : Symbol.Fault → Telling
  | .malformed text => quoting .malformedSymbol "Malformed symbol: " text
  | .ambiguous text => quoting .ambiguousSymbol "Ambiguous symbol: " text

def tellRuleLine (line reason : String) : Telling where
  kind := .malformedRule
  record := fields [("line", Text.quoted line), ("reason", Text.quoted reason)]
  message := "Malformed rule " ++ Text.quoted line ++ ": " ++ reason

def tellRule (fault : Rule.Fault) : Telling :=
  match fault with
  | .tokenCount line _ _ => tellRuleLine line fault.reason
  | .direction line _ => tellRuleLine line fault.reason
  | .symbol fault => tellSymbol fault

def tellDefinition : Definition.Fault → Telling
  | .unknownKey name => plainly .unknownConfigKey "Unknown configuration key: " name
  | .duplicateKey key => plainly .duplicateConfigKey "Duplicate configuration key: " key.name
  | .literal key value fault =>
    plainly .parseError "Definition parsing error: " (fault.message key.name value)
  | .mismatch mismatch => plainly .configMismatch "Configuration mismatch: " mismatch.reason
  | .rule fault => tellRule fault

def tellInstruction (reason : String) : Telling :=
  plainly .badInstruction "Bad instruction: " reason

def tellRun : Machine.Fault → Telling
  | .instruction fired tape refusal =>
    tellInstruction (toString fired ++ " on tape " ++ toString tape ++ ": " ++ refusal.reason)
  | .stepLimit limit =>
    ⟨.stepLimitExceeded, "(" ++ toString limit ++ ")",
      "Step limit of " ++ toString limit ++ " exceeded"⟩

def tellTooWide (fault : Machine.TooWide) : Telling where
  kind := .displayWidth
  record := fields [("width", toString fault.width), ("max", toString fault.limit)]
  message := "Tape row is " ++ toString fault.width ++ " characters wide, the display limit is " ++
    toString fault.limit

def tellFile (reason : String) : Telling :=
  plainly .fileError "File error: " reason

def tellProgram (name : String) : Telling :=
  plainly .unknownProgram "Unknown program: " name

/-- How the failure is told. -/
def tell : Failure → Telling
  | symbol fault => tellSymbol fault
  | rule fault => tellRule fault
  | definition fault => tellDefinition fault
  | instruction refusal => tellInstruction refusal.reason
  | run fault => tellRun fault
  | tooWide fault => tellTooWide fault
  | unreadableFile path fault =>
    tellFile ("Failed to read file " ++ path ++ ": " ++ fault.message)
  | fileTooLarge path bytes =>
    tellFile ("File " ++ path ++ " is " ++ toString bytes ++ " bytes, the limit is " ++
      toString maxDefinitionBytes)
  | textTooLarge bytes =>
    tellFile ("Definition is " ++ toString bytes ++ " bytes, the limit is " ++
      toString maxDefinitionBytes)
  | unreadableDirectory path fault =>
    tellFile ("Failed to read directory " ++ path ++ ": " ++ fault.message)
  | unloadable path cause =>
    tellFile ("Failed to load program from " ++ path ++ ": " ++ cause.tell.message)
  | unknownProgram name => tellProgram name
  | noProgramAt index => tellProgram ("index " ++ toString index ++ " out of range")

/-- What a reader is told. -/
def message (failure : Failure) : String := failure.tell.message

/-- The kind with the record. -/
def describe (failure : Failure) : String :=
  failure.tell.kind.name ++ failure.tell.record

end Failure

end Multitape
