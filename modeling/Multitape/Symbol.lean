import Multitape.Text.Quoted
import Multitape.Text.WhiteSpace

/-!
Tape symbols and alphabets. A symbol is a base character that may carry one mark above it and one
below it. On a line its stack reads from top to bottom as left to right, so `.0` is a `0` under a
dot and `0*` is a `0` over a star. Two characters alone do not say which of them is the mark: they
are read through an alphabet, which must know exactly one of them as a base character.
-/

set_option autoImplicit false
set_option relaxedAutoImplicit false

namespace Multitape

/-- A base character with the marks stacked on it. -/
structure Symbol where
  base : Char
  above : Option Char := none
  below : Option Char := none
deriving DecidableEq, Repr

namespace Symbol

/-- A symbol without marks. -/
def plain (base : Char) : Symbol := ⟨base, none, none⟩

/-- Whether the symbol carries a mark. -/
def isMarked (s : Symbol) : Bool :=
  s.above.isSome || s.below.isSome

/-- The written form: the stack from top to bottom. -/
def written (s : Symbol) : List Char :=
  s.above.toList ++ s.base :: s.below.toList

instance : ToString Symbol := ⟨fun s ↦ String.ofList s.written⟩

/-- Drops every symbol that stands further left as well. -/
def distinct : List Symbol → List Symbol
  | [] => []
  | s :: rest => s :: (distinct rest).filter (· ≠ s)

theorem mem_distinct {s : Symbol} {symbols : List Symbol} :
    s ∈ distinct symbols ↔ s ∈ symbols := by
  induction symbols with
  | nil => rfl
  | cons first rest ih =>
    by_cases h : s = first
    · simp [distinct, h]
    · simp [distinct, h, ih]

theorem nodup_distinct (symbols : List Symbol) : (distinct symbols).Nodup := by
  induction symbols with
  | nil => exact List.nodup_nil
  | cons first rest ih =>
    refine List.nodup_cons.mpr ⟨?_, ih.filter _⟩
    simp

end Symbol

/-- Symbols in a fixed order, each once. -/
structure Alphabet where
  symbols : List Symbol
  nodup : symbols.Nodup
deriving DecidableEq, Repr

namespace Alphabet

/-- The alphabet of the listed symbols, in the order of their first appearance. -/
def ofList (symbols : List Symbol) : Alphabet where
  symbols := Symbol.distinct symbols
  nodup := Symbol.nodup_distinct symbols

/-- The alphabet without symbols. -/
def empty : Alphabet := ofList []

/-- The binary digits. -/
def binary : Alphabet := ofList [.plain '0', .plain '1']

/-- The binary digits behind a blank, which may be one of them. -/
def binaryWith (blank : Symbol) : Alphabet := ofList [blank, .plain '0', .plain '1']

def size (a : Alphabet) : Nat := a.symbols.length

def isEmpty (a : Alphabet) : Bool := a.symbols.isEmpty

def contains (a : Alphabet) (s : Symbol) : Bool := a.symbols.contains s

@[simp] theorem contains_ofList (symbols : List Symbol) (s : Symbol) :
    (ofList symbols).contains s = true ↔ s ∈ symbols := by
  simp [contains, ofList, Symbol.mem_distinct]

/-- Whether the character is the base of some symbol. -/
def hasBase (a : Alphabet) (c : Char) : Bool := a.symbols.any (·.base == c)

/-- Whether some symbol is marked above. -/
def hasAbove (a : Alphabet) : Bool := a.symbols.any (·.above.isSome)

/-- Whether some symbol is marked below. -/
def hasBelow (a : Alphabet) : Bool := a.symbols.any (·.below.isSome)

/-- How many rows of text the symbols take: one for the bases, and one for each side on which some
symbol is marked. -/
def height (a : Alphabet) : Nat := 1 + a.hasAbove.toNat + a.hasBelow.toNat

instance : ToString Alphabet :=
  ⟨fun a ↦ "[" ++ ", ".intercalate (a.symbols.map toString) ++ "]"⟩

end Alphabet

namespace Symbol

/-- Why a text is no written symbol. -/
inductive Fault
  /-- The text has no character or more than three. -/
  | malformed (text : String)
  /-- Of the two characters, both or neither are base characters. -/
  | ambiguous (text : String)
deriving DecidableEq, Repr

/-- Reads the written form of a symbol, with white space around it or not. One character is a base
and three are a mark, a base and a mark. Of two, the one that the alphabet has as a base is the
base. -/
def read (alphabet : Alphabet) (text : List Char) : Except Fault Symbol :=
  match Text.trim text with
  | [base] => .ok (plain base)
  | [first, second] =>
    match alphabet.hasBase first, alphabet.hasBase second with
    | true, false => .ok ⟨first, none, some second⟩
    | false, true => .ok ⟨second, some first, none⟩
    | _, _ => .error (.ambiguous (String.ofList [first, second]))
  | [above, base, below] => .ok ⟨base, some above, some below⟩
  | other => .error (.malformed (String.ofList other))

end Symbol

end Multitape
