/-!
A text as its lines. A line ends at a line feed, or at a carriage return and a line feed; a carriage
return anywhere else is a character like any other. A text that ends in a line feed has no further,
empty line after it.
-/

set_option autoImplicit false
set_option relaxedAutoImplicit false

namespace Multitape.Text

/-- A line read backwards, without the carriage return that stood before its line feed. -/
def dropReturn : List Char → List Char
  | '\r' :: rest => rest
  | line => line

/-- The lines of a text whose first line has already begun with the given characters, last one
first. -/
def linesFrom (begun : List Char) : List Char → List (List Char)
  | [] => if begun.isEmpty then [] else [begun.reverse]
  | c :: rest =>
    if c = '\n' then (dropReturn begun).reverse :: linesFrom [] rest
    else linesFrom (c :: begun) rest

/-- The lines of a text, in order and without their ends. -/
def lines (text : List Char) : List (List Char) :=
  linesFrom [] text

/-- The text of some lines, each with a line feed at its end. -/
def unlines (texts : List String) : String :=
  String.join (texts.map (· ++ "\n"))

end Multitape.Text
