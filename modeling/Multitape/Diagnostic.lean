import Multitape.Definition
import Multitape.Text.Ascending

/-!
What a definition probably does not say as its author meant it. None of these findings keeps a
machine from running.
-/

set_option autoImplicit false
set_option relaxedAutoImplicit false

namespace Multitape

/-- A symbol that a rule writes on a tape, counted from zero, which does not have it. -/
structure ForeignOutput where
  rule : Rule
  output : Symbol
  tape : Nat
deriving DecidableEq, Repr

instance : ToString ForeignOutput :=
  ⟨fun f ↦ toString f.rule ++ ": '" ++ toString f.output ++ "' on tape " ++ toString f.tape⟩

/-- A finding about a definition. -/
inductive Diagnostic
  /-- The start state has no rules. -/
  | startWithoutRules (state : String)
  /-- States that are gone to, are not terminal and have no rules. -/
  | deadEnds (states : List String)
  /-- States that have rules, are not terminal and are not led to from the start state. -/
  | unreachable (states : List String)
  /-- Rules for which an earlier rule fires. -/
  | shadowed (rules : List Rule)
  | foreignOutputs (outputs : List ForeignOutput)
  /-- Rules of a terminal state. -/
  | terminalSources (rules : List Rule)
deriving DecidableEq, Repr

namespace Definition

/-- The states that have rules, once for each. -/
def sources (d : Definition) : List String := d.rules.map Rule.source

/-- The states that the rules of a state lead to. -/
def successors (d : Definition) (state : String) : List String :=
  (d.rules.filter (·.source == state)).map Rule.target

def deadEnds (d : Definition) : List String :=
  let sources := d.sources
  Text.ascending <| (d.rules.map Rule.target).filter fun state ↦
    !d.isTerminal state && !sources.contains state

/-- Visits the states that wait and whatever they lead to, each once. A state waits once for every
rule that leads to it from a visited state, so with the start state there is one visit more than
there are rules at most. -/
def visit (d : Definition) : Nat → List String → List String → List String
  | fuel + 1, state :: waiting, visited =>
    if visited.contains state then d.visit fuel waiting visited
    else d.visit fuel (d.successors state ++ waiting) (state :: visited)
  | _, _, visited => visited

/-- The states that the rules lead to from the start state. -/
def reachable (d : Definition) : List String :=
  d.visit (d.rules.length + 1) [d.startState] []

def unreachable (d : Definition) : List String :=
  let reachable := d.reachable
  Text.ascending <| d.sources.filter fun state ↦
    !reachable.contains state && !d.isTerminal state

/-- The rules for which one of the earlier rules fires, given the rules before the listed ones. -/
def shadowedFrom (earlier : List Rule) : List Rule → List Rule
  | [] => []
  | rule :: rest =>
    if earlier.any fun e ↦ e.fires rule.source rule.inputs then
      rule :: shadowedFrom (rule :: earlier) rest
    else shadowedFrom (rule :: earlier) rest

def shadowed (d : Definition) : List Rule := shadowedFrom [] d.rules

def foreignOutputs (d : Definition) : List ForeignOutput :=
  d.rules.flatMap fun rule ↦
    (rule.outputs.zip d.tapeAlphabets).zipIdx.filterMap fun ((output, alphabet), tape) ↦
      if alphabet.contains output then none else some ⟨rule, output, tape⟩

def terminalSources (d : Definition) : List Rule :=
  d.rules.filter fun rule ↦ d.isTerminal rule.source

/-- A finding about a list, unless the list is empty. -/
def finding {α : Type} (tell : List α → Diagnostic) (items : List α) : Option Diagnostic :=
  if items.isEmpty then none else some (tell items)

/-- Everything that is found about a definition, in a fixed order. -/
def diagnostics (d : Definition) : List Diagnostic :=
  let start :=
    if d.sources.contains d.startState then none else some (.startWithoutRules d.startState)
  [start, finding .deadEnds d.deadEnds, finding .unreachable d.unreachable,
    finding .shadowed d.shadowed, finding .foreignOutputs d.foreignOutputs,
    finding .terminalSources d.terminalSources].filterMap id

end Definition

namespace Diagnostic

/-- What the finding is about, as text. -/
def items : Diagnostic → List String
  | startWithoutRules state => [state]
  | deadEnds states => states
  | unreachable states => states
  | shadowed rules => rules.map toString
  | foreignOutputs outputs => outputs.map toString
  | terminalSources rules => rules.map toString

def message (finding : Diagnostic) : String :=
  let listed := Text.quotedList finding.items
  match finding with
  | startWithoutRules state => "Start state " ++ state ++ " has no transition rules"
  | deadEnds _ => "States without rules are always rejecting: " ++ listed
  | unreachable _ => "Unreachable states detected: " ++ listed
  | shadowed _ => "Rules shadowed by an earlier rule: " ++ listed
  | foreignOutputs _ => "Rules write symbols outside the tape alphabet: " ++ listed
  | terminalSources _ => "Rules leaving a terminal state never fire: " ++ listed

end Diagnostic

end Multitape
