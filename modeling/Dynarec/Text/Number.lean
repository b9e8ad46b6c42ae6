/-!
# Reading numbers

Unsigned numbers in base ten or sixteen.  A number has at least one digit, upper- and lower-case
hexadecimal digits mean the same, and nothing but digits may stand in it.
-/

namespace Dynarec.Text

/-- The value of a digit in the given base. -/
def digit? (base : Nat) (c : Char) : Option Nat :=
  let v? :=
    if c.isDigit then some (c.toNat - 0x30)
    else if 'a' ≤ c ∧ c ≤ 'f' then some (c.toNat - 0x61 + 10)
    else if 'A' ≤ c ∧ c ≤ 'F' then some (c.toNat - 0x41 + 10)
    else none
  v?.filter (· < base)

/-- The value of a digit sequence that continues a number whose value so far is `acc`. -/
def digitsFrom? (base : Nat) : (acc : Nat) → List Char → Option Nat
  | acc, [] => some acc
  | acc, c :: cs => (digit? base c).bind fun v => digitsFrom? base (acc * base + v) cs

/-- The number that a non-empty digit sequence denotes. -/
def digits? (base : Nat) : List Char → Option Nat
  | [] => none
  | cs => digitsFrom? base 0 cs

/-- Splits off a leading `0x` or `0X`. -/
def hexBody? : List Char → Option (List Char)
  | '0' :: 'x' :: cs => some cs
  | '0' :: 'X' :: cs => some cs
  | _ => none

/-- The number that a text denotes: hexadecimal digits after `0x` or `0X`, decimal digits
otherwise. -/
def number? (cs : List Char) : Option Nat :=
  match hexBody? cs with
  | some body => digits? 16 body
  | none => digits? 10 cs

/-- A digit sequence that may follow one plus sign. -/
def signedDigits? (base : Nat) : List Char → Option Nat
  | '+' :: cs => digits? base cs
  | cs => digits? base cs

/-- Decimal digits with an optional sign of either kind. -/
def integer? : List Char → Option Int
  | '-' :: cs => (digits? 10 cs).map fun n => -(n : Int)
  | cs => (signedDigits? 10 cs).map fun n => (n : Int)

/-- As `number?`, with an optional plus sign before the digits. -/
def signedNumber? (cs : List Char) : Option Nat :=
  match hexBody? cs with
  | some body => signedDigits? 16 body
  | none => signedDigits? 10 cs

end Dynarec.Text
