/-!
# Blanks and words

The characters with the Unicode property `White_Space`, and the words between them.
-/

namespace BytecodeDebugger.Text

/-- The ranges of blank characters, in ascending order. -/
def blankRanges : List (Nat × Nat) :=
  [(0x9, 0xd), (0x20, 0x20), (0x85, 0x85), (0xa0, 0xa0), (0x1680, 0x1680), (0x2000, 0x200a),
    (0x2028, 0x2029), (0x202f, 0x202f), (0x205f, 0x205f), (0x3000, 0x3000)]

/-- Whether a character is blank. -/
def isBlank (c : Char) : Bool :=
  blankRanges.any fun (first, last) => first ≤ c.toNat && c.toNat ≤ last

/-- Cuts characters into words, given the reversed start of the first word. -/
def wordsFrom (start : List Char) : List Char → List (List Char)
  | [] => if start.isEmpty then [] else [start.reverse]
  | c :: rest =>
    if isBlank c then
      if start.isEmpty then wordsFrom [] rest else start.reverse :: wordsFrom [] rest
    else
      wordsFrom (c :: start) rest

/-- The words of a text. -/
def words (text : String) : List String :=
  (wordsFrom [] text.toList).map String.ofList

end BytecodeDebugger.Text
