import BytecodeDebugger.Wire.Format

/-!
# Numbers of variable length

A number is written in groups of seven bits, the lowest group first, one group a byte. The high bit
of a byte says that another one follows. Signed numbers are folded into unsigned ones first, so that
numbers near zero have few bytes whatever their sign.

## Implementation notes

A reader allows as many bytes as the width of the number needs, and only the bits that are left over
for the last of them. Groups of zeros at the end are allowed within that limit.
-/

namespace BytecodeDebugger.Wire

/-- The number of bits of a number. -/
structure Width where
  bits : Nat

namespace Width

/-- The most bytes that a number of this width has. -/
def maxBytes (w : Width) : Nat :=
  (w.bits + 6) / 7

/-- The greatest last byte of a number with that many bytes. -/
def maxLast (w : Width) : Nat :=
  (1 <<< (w.bits % 7)) - 1

end Width

/-- The bytes of a number, the lowest group of bits first. -/
def varintBytes (n : Nat) : List UInt8 :=
  if n < 128 then [n.toUInt8] else (n % 128 + 128).toUInt8 :: varintBytes (n / 128)
termination_by n

/-- Reads a number of at most so many bytes, the last of which is at most `maxLast`. -/
def readVarint (maxLast : Nat) : Nat → Reader Nat
  | 0, _ => throw .badNumber
  | _ + 1, [] => throw .endOfInput
  | more + 1, byte :: rest =>
    if byte.toNat < 128 then
      if more = 0 ∧ maxLast < byte.toNat then throw .badNumber else pure (byte.toNat, rest)
    else do
      let (high, rest) ← readVarint maxLast more rest
      pure (byte.toNat - 128 + 128 * high, rest)

namespace Format

/-- Unsigned numbers of a width. -/
def varint (w : Width) : Format Nat where
  write := varintBytes
  read := readVarint w.maxLast w.maxBytes

/-- Numbers of sixteen bits. -/
def word16 : Format UInt16 :=
  (varint ⟨16⟩).via Nat.toUInt16 UInt16.toNat

/-- Numbers of thirty-two bits. -/
def word32 : Format UInt32 :=
  (varint ⟨32⟩).via Nat.toUInt32 UInt32.toNat

/-- Sizes, addresses and counts. -/
def count : Format Nat :=
  varint ⟨64⟩

/-- Folds a signed number into an unsigned one: 0, -1, 1, -2, … become 0, 1, 2, 3, …. -/
def fold (value : Int32) : Nat :=
  if 0 ≤ value.toInt then (2 * value.toInt).toNat else (-2 * value.toInt - 1).toNat

/-- The signed number that is folded into an unsigned one. -/
def unfold (n : Nat) : Int32 :=
  if n % 2 = 0 then Int32.ofInt (n / 2 : Nat) else Int32.ofInt (-(n / 2 : Nat) - 1)

/-- Signed numbers of thirty-two bits. -/
def signed32 : Format Int32 :=
  (varint ⟨32⟩).via unfold fold

end Format

end BytecodeDebugger.Wire
