/-!
# Decimal numbers

Numbers within a bound are read from decimal digits, with an optional plus sign in front. Numbers
are written flush right in columns.
-/

namespace BytecodeDebugger.Text

/-- Why a text is not a number. -/
inductive NumberError where
  /-- There is nothing to read. -/
  | empty
  /-- A character is not a digit. -/
  | invalidDigit
  /-- The number reaches the bound. -/
  | tooLarge
  deriving DecidableEq

namespace NumberError

/-- The wording of a number error. -/
def message : NumberError → String
  | .empty => "cannot parse integer from empty string"
  | .invalidDigit => "invalid digit found in string"
  | .tooLarge => "number too large to fit in target type"

end NumberError

/-- Reads digits behind a number read so far. The first character that is not a digit, or that makes
the number reach the bound, is the error. -/
def digitsFrom (bound : Nat) (value : Nat) : List Char → Except NumberError Nat
  | [] => .ok value
  | c :: rest =>
    if c.isDigit then
      let value := 10 * value + (c.toNat - '0'.toNat)
      if value < bound then digitsFrom bound value rest else .error .tooLarge
    else
      .error .invalidDigit

/-- Reads a number below a bound. -/
def readNumber (bound : Nat) (text : String) : Except NumberError Nat :=
  match text.toList with
  | [] => .error .empty
  | ['+'] => .error .invalidDigit
  | '+' :: digits => digitsFrom bound 0 digits
  | digits => digitsFrom bound 0 digits

/-- Reads a signed number of 32 bits. -/
def readInt32 (text : String) : Except NumberError Int32 :=
  match text.toList with
  | '-' :: digits => do
    let n ← if digits.isEmpty then throw .invalidDigit else digitsFrom 0x80000001 0 digits
    pure (Int32.ofInt (-n))
  | _ => do
    let n ← readNumber 0x80000000 text
    pure (Int32.ofInt n)

/-- Puts blanks in front of a text up to a width. -/
def flushRight (width : Nat) (text : String) : String :=
  String.ofList (List.replicate (width - text.length) ' ') ++ text

end BytecodeDebugger.Text
