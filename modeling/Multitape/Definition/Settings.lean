import Multitape.Definition
import Multitape.Definition.Sections
import Multitape.Literal.Excerpt

/-!
The assignments of a definition, collected by key. Each key takes one kind of value and is assigned
at most once.
-/

set_option autoImplicit false
set_option relaxedAutoImplicit false

namespace Multitape.Definition

/-- The keys of assignments. -/
inductive Key
  | description
  | alphabet
  | tapeCount
  | tapeAlphabets
  | blank
  | startState
  | acceptState
  | rejectState
deriving DecidableEq, Repr

namespace Key

def name : Key → String
  | description => "description"
  | alphabet => "alphabet"
  | tapeCount => "num_tapes"
  | tapeAlphabets => "tape_alphabets"
  | blank => "blank_symbol"
  | startState => "start_state"
  | acceptState => "accept_state"
  | rejectState => "reject_state"

def all : List Key :=
  [description, alphabet, tapeCount, tapeAlphabets, blank, startState, acceptState, rejectState]

/-- The key that has the name. -/
def ofName? (name : String) : Option Key := all.find? (·.name == name)

end Key

/-- How the tape settings of a definition disagree. -/
inductive Mismatch
  | noTapes
  | tooManyTapes (count : Nat)
  | tooManyAlphabets (count : Nat)
  | differentCounts (tapes alphabets : Nat)
  | noAlphabets
  | blankMissing (tape : Nat) (alphabet : Alphabet) (blank : Symbol)
  | sameTerminal (state : String)
deriving DecidableEq, Repr

/-- The most tapes that a machine can have. -/
def maxTapes : Nat := 64

def Mismatch.reason : Mismatch → String
  | noTapes => "num_tapes must be at least 1"
  | tooManyTapes count =>
    "num_tapes is " ++ toString count ++ ", at most " ++ toString maxTapes ++
      " tapes are supported"
  | tooManyAlphabets count =>
    toString count ++ " tape alphabets are declared, at most " ++ toString maxTapes ++
      " tapes are supported"
  | differentCounts tapes alphabets =>
    "num_tapes is " ++ toString tapes ++ " but " ++ toString alphabets ++
      " tape alphabets are declared"
  | noAlphabets => "tape_alphabets declares no tapes"
  | blankMissing tape alphabet blank =>
    "tape " ++ toString tape ++ " alphabet " ++ toString alphabet ++
      " does not contain the blank symbol '" ++ toString blank ++ "'"
  | sameTerminal state => "accept_state and reject_state are both " ++ state

/-- Why a text defines no machine. -/
inductive Fault
  | unknownKey (name : String)
  | duplicateKey (key : Key)
  | literal (key : Key) (value : List Char) (fault : Literal.Fault)
  | mismatch (mismatch : Mismatch)
  | rule (fault : Rule.Fault)
deriving DecidableEq, Repr

/-- What has been assigned. -/
structure Settings where
  description : Option String := none
  alphabet : Option Alphabet := none
  tapeCount : Option Nat := none
  tapeAlphabets : Option (List Alphabet) := none
  blank : Option Symbol := none
  startState : Option String := none
  acceptState : Option String := none
  rejectState : Option String := none
deriving DecidableEq, Repr

namespace Settings

/-- The value of a key that has none yet. The text is read first, so that a text which is no value
is the error even where the key has one. -/
def readOnce {α : Type} (key : Key) (read : List Char → Except Literal.Fault α)
    (text : List Char) (present : Option α) : Except Fault (Option α) :=
  match read text, present with
  | .error fault, _ => .error (.literal key text fault)
  | .ok _, some _ => .error (.duplicateKey key)
  | .ok value, none => .ok (some value)

/-- The settings with one more assignment. -/
def assign (s : Settings) (a : Assignment) : Except Fault Settings :=
  let name := String.ofList a.key
  match Key.ofName? name with
  | none => .error (.unknownKey name)
  | some .description => do
    return { s with
      description := ← readOnce .description Literal.readString a.value s.description }
  | some .alphabet => do
    return { s with alphabet := ← readOnce .alphabet Literal.readAlphabet a.value s.alphabet }
  | some .tapeCount => do
    return { s with tapeCount := ← readOnce .tapeCount Literal.readInteger a.value s.tapeCount }
  | some .tapeAlphabets => do
    return { s with
      tapeAlphabets := ← readOnce .tapeAlphabets Literal.readAlphabets a.value s.tapeAlphabets }
  | some .blank => do
    return { s with blank := ← readOnce .blank Literal.readSymbol a.value s.blank }
  | some .startState => do
    return { s with startState := ← readOnce .startState Literal.readString a.value s.startState }
  | some .acceptState => do
    return { s with
      acceptState := ← readOnce .acceptState Literal.readString a.value s.acceptState }
  | some .rejectState => do
    return { s with
      rejectState := ← readOnce .rejectState Literal.readString a.value s.rejectState }

/-- The settings of all assignments. -/
def ofAssignments (assignments : List Assignment) : Except Fault Settings :=
  assignments.foldlM assign {}

/-- The alphabets of the tapes. Where none are declared every tape takes the binary digits and the
blank, and there is one tape unless another number is declared. -/
def alphabets (s : Settings) (blank : Symbol) : Except Mismatch (List Alphabet) :=
  match s.tapeCount, s.tapeAlphabets with
  | none, none => .ok [.binaryWith blank]
  | some count, none =>
    if count = 0 then .error .noTapes
    else if count > maxTapes then .error (.tooManyTapes count)
    else .ok (List.replicate count (.binaryWith blank))
  | none, some alphabets =>
    if alphabets.length > maxTapes then .error (.tooManyAlphabets alphabets.length)
    else if alphabets.isEmpty then .error .noAlphabets
    else .ok alphabets
  | some count, some alphabets =>
    if count = 0 then .error .noTapes
    else if count > maxTapes then .error (.tooManyTapes count)
    else if alphabets.length > maxTapes then .error (.tooManyAlphabets alphabets.length)
    else if count ≠ alphabets.length then .error (.differentCounts count alphabets.length)
    else .ok alphabets

/-- Asks every tape, the first of which has the given number, for the blank. -/
def checkBlank (blank : Symbol) (tape : Nat) : List Alphabet → Except Mismatch Unit
  | [] => .ok ()
  | alphabet :: rest =>
    if alphabet.contains blank then checkBlank blank (tape + 1) rest
    else .error (.blankMissing tape alphabet blank)

end Settings

end Multitape.Definition
