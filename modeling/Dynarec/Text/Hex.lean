/-!
# Numbers as text

The number formats of every listing, message and answer: lower-case hexadecimal with or without a
leading `0x`, padded to a width, and the assembly convention in which a hexadecimal number ends in
`h` and starts with a decimal digit.
-/

namespace Dynarec.Text

/-- Lower-case hexadecimal digits of a number, without leading zeros. -/
def hexDigits (n : Nat) : String :=
  String.ofList (Nat.toDigits 16 n)

/-- Lower-case hexadecimal with a leading `0x`. -/
def hex (n : Nat) : String :=
  "0x" ++ hexDigits n

/-- Left-pads a text with zeros to the given width; longer texts are kept. -/
def zeroPad (width : Nat) (s : String) : String :=
  String.ofList (List.replicate (width - s.length) '0') ++ s

/-- Lower-case hexadecimal digits of a number, padded with zeros to the given width. -/
def hexPadded (width n : Nat) : String :=
  zeroPad width (hexDigits n)

/-- The two lower-case hexadecimal digits of a byte. -/
def hexByte (b : UInt8) : String :=
  hexPadded 2 b.toNat

/-- A byte sequence as lower-case hexadecimal, two digits a byte. -/
def hexBytes (bs : List UInt8) : String :=
  String.join (bs.map hexByte)

/-- The assembly form of a number: a single decimal digit as it is, anything else in lower-case
hexadecimal followed by `h`, with a `0` in front when it would start with a letter. -/
def asmNumber (n : Nat) : String :=
  if n < 10 then hexDigits n
  else
    let digits := hexDigits n
    if digits.front.isDigit then digits ++ "h" else "0" ++ digits ++ "h"

end Dynarec.Text
