/-!
# Words as bytes

Words are stored with the low byte first.  A word in two's complement can be widened by copying
its sign bit, and some words are the widening of a single byte.
-/

namespace Dynarec.Word

/-- The four bytes of a word, the low byte first. -/
def bytes32 (w : UInt32) : List UInt8 :=
  [w.toUInt8, (w >>> 8).toUInt8, (w >>> 16).toUInt8, (w >>> 24).toUInt8]

/-- The eight bytes of a double word, the low byte first. -/
def bytes64 (w : UInt64) : List UInt8 :=
  bytes32 w.toUInt32 ++ bytes32 (w >>> 32).toUInt32

/-- The word whose low byte comes first. -/
def ofBytes32 (b0 b1 b2 b3 : UInt8) : UInt32 :=
  b0.toUInt32 ||| b1.toUInt32 <<< 8 ||| b2.toUInt32 <<< 16 ||| b3.toUInt32 <<< 24

/-- Takes a word off the front of a byte sequence. -/
def take32? : List UInt8 → Option (UInt32 × List UInt8)
  | b0 :: b1 :: b2 :: b3 :: rest => some (ofBytes32 b0 b1 b2 b3, rest)
  | _ => none

/-- Takes a double word off the front of a byte sequence. -/
def take64? (bs : List UInt8) : Option (UInt64 × List UInt8) := do
  let (low, bs) ← take32? bs
  let (high, rest) ← take32? bs
  some (low.toUInt64 ||| high.toUInt64 <<< 32, rest)

/-- The widening of a byte in two's complement. -/
def extend8 (b : UInt8) : UInt32 :=
  if b < 0x80 then b.toUInt32 else b.toUInt32 ||| 0xffffff00

/-- The widening of a word in two's complement. -/
def extend32 (w : UInt32) : UInt64 :=
  if w < 0x80000000 then w.toUInt64 else w.toUInt64 ||| 0xffffffff00000000

/-- The low three bits of a number. -/
def octal (n : Nat) : Fin 8 :=
  ⟨n % 8, Nat.mod_lt _ (by decide)⟩

/-- Whether a word in two's complement is the widening of its low byte. -/
def fitsByte (w : UInt32) : Bool :=
  w < 0x80 || 0xffffff80 ≤ w

end Dynarec.Word
