import BytecodeDebugger.Ordered.Map

/-!
# Byte formats

A `Format` pairs the bytes of a value with the reader of such bytes. Formats of compound values are
built by the combinators below, so that a law about all of them is proved once for each combinator.

## Implementation notes

A reader takes the value from the front and returns the bytes behind it. It goes from front to back
and answers with the first thing that is wrong.
-/

namespace BytecodeDebugger.Wire

/-- What can be wrong with the bytes of a value. -/
inductive DecodeError where
  /-- The bytes end before the value does. -/
  | endOfInput
  /-- A number has too many bytes or too large a value. -/
  | badNumber
  /-- A text is not UTF-8. -/
  | badText
  /-- A number names no variant. -/
  | unknownVariant
  deriving DecidableEq

namespace DecodeError

/-- The wording of a decoding error. -/
def message : DecodeError → String
  | .endOfInput => "Hit the end of buffer, expected more data"
  | .badNumber => "Found a varint that didn't terminate. Is the usize too big for this platform?"
  | .badText => "Tried to parse invalid utf-8"
  | .unknownVariant => "Serde Deserialization Error"

end DecodeError

/-- A reader takes a value from the front and returns it with the bytes behind it. -/
abbrev Reader (α : Type) := List UInt8 → Except DecodeError (α × List UInt8)

/-- A writer of values together with a reader of what it writes. -/
structure Format (α : Type) where
  write : α → List UInt8
  read : Reader α

namespace Format

variable {α β κ : Type}

/-- One value after another. -/
def seq (f : Format α) (g : Format β) : Format (α × β) where
  write value := f.write value.1 ++ g.write value.2
  read bytes := do
    let (a, rest) ← f.read bytes
    let (b, rest) ← g.read rest
    pure ((a, b), rest)

/-- The same bytes for another type, whose values are `outOf`'s arguments. -/
def via (f : Format α) (into : α → β) (outOf : β → α) : Format β where
  write value := f.write (outOf value)
  read bytes := do
    let (a, rest) ← f.read bytes
    pure (into a, rest)

/-- The same bytes for a type that has room for some values only; the others are an error. -/
def narrow (f : Format α) (into : α → Option β) (outOf : β → α) (error : DecodeError) :
    Format β where
  write value := f.write (outOf value)
  read bytes := do
    let (a, rest) ← f.read bytes
    match into a with
    | some b => pure (b, rest)
    | none => throw error

/-- Reads so many values, one after another. -/
def readMany (read : Reader α) : Nat → Reader (List α)
  | 0, bytes => pure ([], bytes)
  | n + 1, bytes => do
    let (a, rest) ← read bytes
    let (as, rest) ← readMany read n rest
    pure (a :: as, rest)

/-- A list: the number of its members, then the members. -/
def list (count : Format Nat) (f : Format α) : Format (List α) where
  write values := count.write values.length ++ values.flatMap f.write
  read bytes := do
    let (n, rest) ← count.read bytes
    readMany f.read n rest

/-- A map: the list of its bindings, written in key order. Keys are read in any order, and of several
bindings of one key the last wins. -/
def sortedMap [Ord κ] [Std.TransOrd κ] [Std.LawfulEqOrd κ] (count : Format Nat) (key : Format κ)
    (value : Format α) : Format (SortedMap κ α) :=
  (list count (key.seq value)).via SortedMap.ofList SortedMap.entries

/-- Takes so many bytes from the front. -/
def takeBytes (n : Nat) : Reader (List UInt8) := fun bytes =>
  if n ≤ bytes.length then pure (bytes.take n, bytes.drop n) else throw .endOfInput

/-- A byte string: its length, then its bytes. -/
def byteString (count : Format Nat) : Format (List UInt8) where
  write bytes := count.write bytes.length ++ bytes
  read bytes := do
    let (n, rest) ← count.read bytes
    takeBytes n rest

/-- A text: the byte string of its UTF-8 form. -/
def text (count : Format Nat) : Format String :=
  (byteString count).narrow (fun bytes => String.fromUTF8? bytes.toByteArray)
    (fun s => s.toUTF8.data.toList) .badText

end Format

end BytecodeDebugger.Wire
