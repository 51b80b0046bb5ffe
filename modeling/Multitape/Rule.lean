import Multitape.Direction
import Multitape.Symbol
import Multitape.Text.Lowercase

/-!
Transition rules and the line each is written on. A line for `n` tapes is a source state, `n`
symbols to read, a target state, `n` symbols to write and `n` moves, separated by white space:

    q3  0 .1  q4  .0 .1  r s

A target that has `accept` or `reject` in it, in letters of either case, stands for the machine's
accept or reject state, unless it is one of these two labels itself.
-/

set_option autoImplicit false
set_option relaxedAutoImplicit false

namespace Multitape

/-- What a rule does on one tape. -/
structure Instruction where
  input : Symbol
  output : Symbol
  move : Direction
deriving DecidableEq, Repr

/-- A transition of a machine, with one input, output and move for each tape. -/
structure Rule where
  source : String
  inputs : List Symbol
  target : String
  outputs : List Symbol
  moves : List Direction
  /-- The verdict that the target stands for. -/
  terminal : Option Verdict
deriving DecidableEq, Repr

namespace Rule

/-- What the rule does on each tape, as far as inputs, outputs and moves all reach. -/
def instructions (rule : Rule) : List Instruction :=
  List.zipWith (fun io move ↦ ⟨io.1, io.2, move⟩) (rule.inputs.zip rule.outputs) rule.moves

/-- Whether the rule is for this state and these symbols under the heads. -/
def fires (rule : Rule) (state : String) (symbols : List Symbol) : Bool :=
  rule.source == state && rule.inputs == symbols

/-- The rule where the table has none: leave every tape as it is, move every head to the right and
reject. -/
def implicitReject (source : String) (symbols : List Symbol) (rejectState : String) : Rule where
  source := source
  inputs := symbols
  target := rejectState
  outputs := symbols
  moves := symbols.map fun _ ↦ .right
  terminal := some .reject

/-- The target as rules show it: a verdict has one name, whatever the machine calls its state. -/
def targetLabel (rule : Rule) : String :=
  match rule.terminal with
  | some .accept => "q_accept"
  | some .reject => "q_reject"
  | none => rule.target

instance : ToString Rule :=
  ⟨fun rule ↦
    "(" ++ rule.source ++ ", " ++ ", ".intercalate (rule.inputs.map toString) ++ ") -> \x7b" ++
      rule.targetLabel ++ ", " ++ ", ".intercalate (rule.outputs.map toString) ++ ", " ++
      ", ".intercalate (rule.moves.map toString) ++ "\x7d"⟩

/-- Why a line is no rule. -/
inductive Fault
  | tokenCount (line : String) (expected found : Nat)
  | direction (line : String) (token : String)
  | symbol (fault : Symbol.Fault)
deriving DecidableEq, Repr

/-- What is wrong with the line, apart from its symbols. -/
def Fault.reason : Fault → String
  | tokenCount _ expected found =>
    "expected " ++ toString expected ++ " tokens, found " ++ toString found
  | direction _ token => "unsupported direction '" ++ token ++ "'"
  | symbol _ => ""

/-- The tokens of a line by their part in the rule. -/
structure Parts where
  source : List Char
  inputs : List (List Char)
  target : List Char
  outputs : List (List Char)
  moves : List (List Char)
deriving DecidableEq, Repr

/-- Sorts the tokens of a line for `n` tapes, if there are as many as it takes. -/
def Parts.ofTokens? (n : Nat) : List (List Char) → Option Parts
  | [] => none
  | source :: rest =>
    match rest.drop n with
    | [] => none
    | target :: last =>
      if last.length = 2 * n then
        some ⟨source, rest.take n, target, last.take n, last.drop n⟩
      else none

/-- Reads each symbol through the alphabet of its tape. -/
def readSymbols : List Alphabet → List (List Char) → Except Fault (List Symbol)
  | alphabet :: alphabets, token :: tokens => do
    let s ← (Symbol.read alphabet token).mapError .symbol
    return s :: (← readSymbols alphabets tokens)
  | _, _ => .ok []

/-- Reads moves. The line is the one that they stand on. -/
def readMoves (line : String) : List (List Char) → Except Fault (List Direction)
  | [] => .ok []
  | token :: tokens =>
    match Direction.ofToken? token with
    | none => .error (.direction line (String.ofList token))
    | some d => do return d :: (← readMoves line tokens)

/-- The state that a target token stands for, with its verdict if it has one. -/
def resolveTarget (acceptState rejectState : String) (token : List Char) :
    String × Option Verdict :=
  let label := String.ofList token
  let small := Text.lowercase token
  if label = acceptState then (acceptState, some .accept)
  else if label = rejectState then (rejectState, some .reject)
  else if Text.hasWord ['a', 'c', 'c', 'e', 'p', 't'] small then (acceptState, some .accept)
  else if Text.hasWord ['r', 'e', 'j', 'e', 'c', 't'] small then (rejectState, some .reject)
  else (label, none)

/-- Reads a rule of a machine with these tape alphabets and terminal states. -/
def read (alphabets : List Alphabet) (acceptState rejectState : String) (line : List Char) :
    Except Fault Rule :=
  let tokens := Text.words line
  let shown := String.ofList (Text.trim line)
  match Parts.ofTokens? alphabets.length tokens with
  | none => .error (.tokenCount shown (3 * alphabets.length + 2) tokens.length)
  | some parts => do
    let inputs ← readSymbols alphabets parts.inputs
    let outputs ← readSymbols alphabets parts.outputs
    let moves ← readMoves shown parts.moves
    let (target, terminal) := resolveTarget acceptState rejectState parts.target
    return ⟨String.ofList parts.source, inputs, target, outputs, moves, terminal⟩

end Rule

end Multitape
