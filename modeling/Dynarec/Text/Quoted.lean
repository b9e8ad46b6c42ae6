import Dynarec.Text.Hex
import Dynarec.Text.Invisible

/-!
# Quoted characters and strings

Messages show characters and strings of the input between quotes.  The escapes are `\0`, `\t`,
`\r`, `\n` and a doubled backslash, a backslash before the quote in use, and a braced code point
for every character that cannot be seen on its own; all other characters stand for themselves.
-/

namespace Dynarec.Text

/-- The apostrophe, the quote around a single character. -/
def apostrophe : Char := Char.ofNat 0x27

/-- The double quote, the quote around a string. -/
def doubleQuote : Char := Char.ofNat 0x22

/-- The braced code point of a character. -/
def codePoint (c : Char) : String :=
  "\\u\x7b" ++ hexDigits c.toNat ++ "\x7d"

/-- One character as it is written between two `quote` characters. -/
def escapeChar (quote c : Char) : String :=
  if c = Char.ofNat 0 then "\\0"
  else if c = '\t' then "\\t"
  else if c = '\r' then "\\r"
  else if c = '\n' then "\\n"
  else if c = '\\' then "\\\\"
  else if c = quote then "\\" ++ quote.toString
  else if isInvisible c then codePoint c
  else c.toString

/-- A character between apostrophes. -/
def quoteChar (c : Char) : String :=
  apostrophe.toString ++ escapeChar apostrophe c ++ apostrophe.toString

/-- A string between double quotes. -/
def quoteString (s : String) : String :=
  doubleQuote.toString ++ String.join (s.toList.map (escapeChar doubleQuote)) ++
    doubleQuote.toString

/-- The next character of an input, or the fact that there is none. -/
def quoteNext : Option Char → String
  | none => "None"
  | some c => "Some(" ++ quoteChar c ++ ")"

end Dynarec.Text
