import Multitape.Failure
import Multitape.Text.Lines

/-!
The machines that come with the library. `starts-with-zero` accepts binary words that start with a
`0`, `zero-n-one-n` accepts as many `0`s as `1`s behind them, and `zero-n-one-n-zero-n` wants as
many `0`s again after that and has three tapes to count them.
-/

set_option autoImplicit false
set_option relaxedAutoImplicit false

namespace Multitape

/-- A machine that has a name. -/
structure Program where
  name : String
  text : String
  definition : Definition
deriving DecidableEq, Repr

namespace Catalog

def startsWithZero : String := Text.unlines [
  "# Accepts binary strings whose first symbol is a 0.",
  "description = \"\x7b w | w starts with a 0 \x7d\"",
  "alphabet    = [('0'), ('1')]",
  "",
  "q0 0 q_accept 0 r",
  "q0 1 q_reject 1 r",
  "q0 B qreject  B r"]

def zeroNOneN : String := Text.unlines [
  "# Accepts 0^n 1^n. Each pass marks the leftmost unmarked 0 and the leftmost",
  "# unmarked 1 with a dot; the input is accepted once only marked 1s remain.",
  "description    = \"\x7b 0^n 1^n | n >= 0 \x7d\"",
  "alphabet       = [('0'), ('1')]",
  "blank_symbol   = ('B')",
  "num_tapes      = 1",
  "tape_alphabets = [",
  "    [('B'), ('0'), ('1'), ('0', '.'), ('1', '.')],",
  "]",
  "start_state    = \"q0\"",
  "accept_state   = \"q1\"",
  "reject_state   = \"q2\"",
  "",
  "# mark a 0, or check that only marked 1s are left",
  "q0 0   q3       .0 r",
  "q0 .1  q5       .1 r",
  "q0 B   q_accept B  r",
  "",
  "# find the first unmarked 1 and mark it",
  "q3 0   q3       0  r",
  "q3 .1  q3       .1 r",
  "q3 1   q4       .1 l",
  "",
  "# back to the last marked 0",
  "q4 0   q4       0  l",
  "q4 .1  q4       .1 l",
  "q4 .0  q0       .0 r",
  "",
  "q5 .1  q5       .1 r",
  "q5 B   q_accept B  r"]

def zeroNOneNZeroN : String := Text.unlines [
  "# Accepts 0^n 1^n 0^n with three tapes: the leading 0s are copied onto tapes",
  "# 2 and 3, then the 1s are counted off against tape 2 and the trailing 0s",
  "# against tape 3.",
  "description    = \"\x7b 0^n 1^n 0^n | n >= 0 \x7d\"",
  "alphabet       = [('0'), ('1')]",
  "num_tapes      = 3",
  "tape_alphabets = [",
  "    [('B'), ('0'), ('1')],",
  "    [('B'), ('0'), ('1')],",
  "    [('B'), ('0'), ('1')],",
  "]",
  "",
  "q0 B B B   q_accept B B B   s s s",
  "q0 0 B B   q3       0 0 0   r r r",
  "",
  "# copy the 0s",
  "q3 0 B B   q3       0 0 0   r r r",
  "q3 1 B B   q4       1 B B   s l l",
  "",
  "# one 1 for every 0 on tape 2",
  "q4 1 0 0   q4       1 0 0   r l s",
  "q4 0 B 0   q5       0 B 0   r s l",
  "",
  "# one 0 for every 0 on tape 3",
  "q5 0 B 0   q5       0 B 0   r s l",
  "q5 B B B   q_accept B B B   r s s"]

/-- The names and texts of the machines. -/
def texts : List (String × String) :=
  [("starts-with-zero", startsWithZero), ("zero-n-one-n", zeroNOneN),
    ("zero-n-one-n-zero-n", zeroNOneNZeroN)]

/-- The machines whose texts define one, in order. -/
def programs : List Program :=
  texts.filterMap fun (name, text) ↦
    match Definition.parse text.toList with
    | .ok d => some ⟨name, text, d⟩
    | .error _ => none

def size : Nat := programs.length

def names : List String := programs.map Program.name

/-- The program of a name. -/
def find (name : String) : Except Failure Program :=
  match programs.find? (·.name == name) with
  | some program => .ok program
  | none => .error (.unknownProgram name)

/-- The program at a place, counted from zero. -/
def get (index : Nat) : Except Failure Program :=
  match programs[index]? with
  | some program => .ok program
  | none => .error (.noProgramAt index)

/-- The program that is meant where none is named. -/
def default : Except Failure Program := find "starts-with-zero"

end Catalog

end Multitape
