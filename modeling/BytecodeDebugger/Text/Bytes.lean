/-!
# Texts and their UTF-8 bytes

Cuts of a text by byte offsets, and the text of bytes that may end within a character.
-/

namespace BytecodeDebugger.Text

/-- The number of UTF-8 bytes of characters. -/
def byteCount (chars : List Char) : Nat :=
  chars.foldr (fun c n => c.utf8Size + n) 0

/-- Cuts characters at a byte offset, if a character starts or the text ends there. -/
def cutAt? : Nat → List Char → Option (List Char × List Char)
  | 0, chars => some ([], chars)
  | _ + 1, [] => none
  | n + 1, c :: rest =>
    if c.utf8Size ≤ n + 1 then
      (cutAt? (n + 1 - c.utf8Size) rest).map fun (before, behind) => (c :: before, behind)
    else
      none

/-- The characters between two byte offsets, if they are in order and cut no character. -/
def slice? (chars : List Char) (start stop : Nat) : Option (List Char) :=
  if start ≤ stop then do
    let (_, behind) ← cutAt? start chars
    let (between, _) ← cutAt? (stop - start) behind
    pure between
  else
    none

/-- The text of bytes that start at a character, with a replacement character for a character that
the end of the bytes cuts. -/
def ofBytes (bytes : ByteArray) : String :=
  match String.fromUTF8? bytes with
  | some text => text
  | none =>
    let cut := [1, 2, 3].findSome? fun n => String.fromUTF8? (bytes.extract 0 (bytes.size - n))
    cut.getD "" ++ "\ufffd"

end BytecodeDebugger.Text
