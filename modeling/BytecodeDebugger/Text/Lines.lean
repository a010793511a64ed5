/-!
# Lines

A text is cut at line feeds. A carriage return before a line feed belongs to the line break; behind
the last line feed there is a line only if there are characters.
-/

namespace BytecodeDebugger.Text

/-- A line without the carriage return that ends it, if one does; the line is read backwards. -/
def dropReturn : List Char → List Char
  | '\r' :: rest => rest
  | line => line

/-- Cuts characters into lines, given the reversed start of the first line. -/
def linesFrom (start : List Char) : List Char → List (List Char)
  | [] => if start.isEmpty then [] else [start.reverse]
  | '\n' :: rest => (dropReturn start).reverse :: linesFrom [] rest
  | c :: rest => linesFrom (c :: start) rest

/-- The lines of a text. -/
def lines (text : String) : List String :=
  (linesFrom [] text.toList).map String.ofList

end BytecodeDebugger.Text
