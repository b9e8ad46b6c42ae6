import Dynarec.Ir.Inst
import Dynarec.Text.Blank
import Dynarec.Text.Number
import Dynarec.Text.Quoted

/-!
# Reading blocks from text

Shape of the language: a text is a sequence of blocks.  A block is the word `block`, its start
address, and its instructions between braces; an instruction is the name of an opcode followed by
the operands of its signature, separated by commas, on one line.  Between tokens may stand white
space and comments, which run from a semicolon to the end of the line; inside an instruction and
in the header of a block they may not contain a newline.

Shape of the readers: each reader takes the characters that are left and gives back a value and
what is left after it, or the point at which it is stuck.  The line of an error is one more than
the number of newlines before that point.
-/

namespace Dynarec

/-- Why a text is not a sequence of blocks. -/
inductive SyntaxFault where
  | expectedSymbol (wanted : Char) (found : Option Char)
  | expectedWord (found : Option Char)
  | badNumber (token : String)
  | expectedRegister (bank : Char) (found : String)
  | registerRange (found : String)
  | expectedBlock (found : String)
  | unterminated (start : UInt32)
  | unknownOpcode (found : String)
  | immediateRange (value : Nat)
  | trailingOperand (opcode : String)
  | notOneInstruction
  deriving DecidableEq, Repr

namespace SyntaxFault

/-- The wording of a fault. -/
def message : SyntaxFault → String
  | expectedSymbol wanted found =>
    "Expected '" ++ wanted.toString ++ "' but found " ++ Text.quoteNext found
  | expectedWord (some c) => "Expected identifier but found '" ++ c.toString ++ "'"
  | expectedWord none => "Expected identifier but found EOF"
  | badNumber token => "Invalid number '" ++ token ++ "'"
  | expectedRegister bank found =>
    "Expected register " ++ bank.toString ++ "N but found '" ++ found ++ "'"
  | registerRange found => "Register '" ++ found ++ "' out of range"
  | expectedBlock found => "Expected 'block' but found '" ++ found ++ "'"
  | unterminated start => "Unterminated block " ++ Text.hex start.toNat
  | unknownOpcode found => "Unknown opcode '" ++ found ++ "'"
  | immediateRange value => "Immediate " ++ toString value ++ " out of range"
  | trailingOperand opcode => "Unexpected operand after " ++ opcode
  | notOneInstruction => "expected exactly one instruction"

end SyntaxFault

/-- A fault and the line on which it was noticed. -/
structure SyntaxError where
  line : Nat
  fault : SyntaxFault
  deriving DecidableEq, Repr

namespace SyntaxError

/-- The wording of a syntax error. -/
def message (e : SyntaxError) : String :=
  "line " ++ toString e.line ++ ": " ++ e.fault.message

end SyntaxError

namespace Reading

/-- A reader that cannot go on: what was left of the text, and the fault. -/
structure Stuck where
  rest : List Char
  fault : SyntaxFault
  deriving DecidableEq, Repr

/-- Drops white space and comments; newlines only if `lines` is set.  `comment` says whether the
text starts inside a comment. -/
def skip (lines : Bool) : (comment : Bool) → List Char → List Char
  | _, [] => []
  | true, c :: cs =>
    if c = '\n' then if lines then skip lines false cs else c :: cs
    else skip lines true cs
  | false, c :: cs =>
    if c = ';' then skip lines true cs
    else if Text.isBlank c && (lines || c ≠ '\n') then skip lines false cs
    else c :: cs

/-- Drops white space and comments up to the end of the line. -/
def skipInline (cs : List Char) : List Char :=
  skip false false cs

/-- Drops white space, comments and newlines. -/
def skipLines (cs : List Char) : List Char :=
  skip true false cs

/-- The characters of names and numbers. -/
def isWordChar (c : Char) : Bool :=
  c.isAlphanum || c = '_'

/-- Reads one given character. -/
def symbol (wanted : Char) (cs : List Char) : Except Stuck (List Char) :=
  match skipInline cs with
  | [] => .error ⟨[], .expectedSymbol wanted none⟩
  | c :: rest =>
    if c = wanted then .ok rest else .error ⟨c :: rest, .expectedSymbol wanted (some c)⟩

/-- Reads a name: a letter and the word characters after it. -/
def word (cs : List Char) : Except Stuck (List Char × List Char) :=
  match skipInline cs with
  | [] => .error ⟨[], .expectedWord none⟩
  | c :: rest =>
    if c.isAlpha then
      .ok ((c :: rest).takeWhile isWordChar, (c :: rest).dropWhile isWordChar)
    else .error ⟨c :: rest, .expectedWord (some c)⟩

/-- Reads a 32-bit number; underscores between its digits are dropped. -/
def number (cs : List Char) : Except Stuck (UInt32 × List Char) :=
  let start := skipInline cs
  let token := (start.takeWhile isWordChar).filter (· ≠ '_')
  let rest := start.dropWhile isWordChar
  match (Text.number? token).filter (· < UInt32.size) with
  | some v => .ok (UInt32.ofNat v, rest)
  | none => .error ⟨rest, .badNumber (String.ofList token)⟩

/-- The number of a register whose name is `bank` followed by decimal digits, if it fits a byte. -/
def registerNumber? (bank : Char) : List Char → Option Nat
  | [] => none
  | c :: digits => if c = bank then (Text.digits? 10 digits).filter (· < 256) else none

/-- Reads a register of the given bank. -/
def register (bank : Char) (cs : List Char) : Except Stuck (UInt8 × List Char) := do
  let (name, rest) ← word cs
  match registerNumber? bank name with
  | none => .error ⟨rest, .expectedRegister bank (String.ofList name)⟩
  | some n =>
    if n < 32 then .ok (UInt8.ofNat n, rest)
    else .error ⟨rest, .registerRange (String.ofList name)⟩

/-- Reads a number that fits a slot. -/
def immediate (cs : List Char) : Except Stuck (UInt8 × List Char) := do
  let (v, rest) ← number cs
  if v < 256 then .ok (v.toUInt8, rest)
  else .error ⟨rest, .immediateRange v.toNat⟩

/-- The operands of an instruction: its slots from the left, and its constant. -/
structure Operands where
  slots : List UInt8 := []
  constant : UInt32 := 0
  deriving DecidableEq, Repr

namespace Operands

/-- Puts a slot in front. -/
def withSlot (slot : UInt8) (o : Operands) : Operands :=
  { o with slots := slot :: o.slots }

/-- The instruction with these operands; slots that were not named are zero. -/
def toInst (op : Opcode) (o : Operands) : Inst :=
  { op
    dest := o.slots[0]?.getD 0
    src1 := o.slots[1]?.getD 0
    src2 := o.slots[2]?.getD 0
    constant := o.constant }

end Operands

/-- Reads the comma before an operand, which the first operand does not have. -/
def comma (first : Bool) (cs : List Char) : Except Stuck (List Char) :=
  if first then .ok cs else symbol ',' cs

/-- Reads the operands of a signature. -/
def operands : List OperandKind → (first : Bool) → List Char → Except Stuck (Operands × List Char)
  | [], _, cs => .ok ({}, cs)
  | .gap :: kinds, first, cs => do
    let (o, rest) ← operands kinds first cs
    .ok (o.withSlot 0, rest)
  | .const :: kinds, first, cs => do
    let cs ← comma first cs
    let (v, cs) ← number cs
    let (o, rest) ← operands kinds false cs
    .ok ({ o with constant := v }, rest)
  | .imm :: kinds, first, cs => do
    let cs ← comma first cs
    let (v, cs) ← immediate cs
    let (o, rest) ← operands kinds false cs
    .ok (o.withSlot v, rest)
  | .fpr :: kinds, first, cs => do
    let cs ← comma first cs
    let (v, cs) ← register 'f' cs
    let (o, rest) ← operands kinds false cs
    .ok (o.withSlot v, rest)
  | .gpr :: kinds, first, cs => do
    let cs ← comma first cs
    let (v, cs) ← register 'r' cs
    let (o, rest) ← operands kinds false cs
    .ok (o.withSlot v, rest)

/-- Checks that only a gap is left on the line, and drops it. -/
def lineEnd (opcode : List Char) (cs : List Char) : Except Stuck (List Char) :=
  match skipInline cs with
  | [] => .ok []
  | c :: rest =>
    if c = '\n' then .ok (c :: rest)
    else .error ⟨c :: rest, .trailingOperand (String.ofList opcode)⟩

/-- Reads one instruction up to the end of its line. -/
def inst (cs : List Char) : Except Stuck (Inst × List Char) := do
  let (name, cs) ← word cs
  match Opcode.ofName? (String.ofList name) with
  | none => .error ⟨cs, .unknownOpcode (String.ofList name)⟩
  | some op =>
    let (o, cs) ← operands op.signature true cs
    let rest ← lineEnd name cs
    .ok (o.toInst op, rest)

/-- Reads instructions up to the brace that closes a block.  Every instruction takes at least one
character, so `fuel` need only exceed the length of the text. -/
def body (start : UInt32) : (fuel : Nat) → List Char → Except Stuck (List Inst × List Char)
  | 0, cs => .error ⟨cs, .unterminated start⟩
  | fuel + 1, cs =>
    match skipLines cs with
    | [] => .error ⟨[], .unterminated start⟩
    | c :: rest =>
      if c = '\x7d' then .ok ([], rest)
      else do
        let (i, rest) ← inst (c :: rest)
        let (is, rest) ← body start fuel rest
        .ok (i :: is, rest)

/-- Reads one block. -/
def block (cs : List Char) : Except Stuck (Block × List Char) := do
  let (keyword, cs) ← word cs
  if keyword ≠ "block".toList then
    .error ⟨cs, .expectedBlock (String.ofList keyword)⟩
  else
    let (start, cs) ← number cs
    let cs ← symbol '\x7b' cs
    let (insts, rest) ← body start (cs.length + 1) cs
    .ok (⟨start, insts⟩, rest)

/-- Reads blocks up to the end of the text.  Every block takes at least one character, so `fuel`
need only exceed the length of the text. -/
def blocks : (fuel : Nat) → List Char → Except Stuck (List Block)
  | 0, _ => .ok []
  | fuel + 1, cs =>
    match skipLines cs with
    | [] => .ok []
    | c :: rest => do
      let (b, rest) ← block (c :: rest)
      let bs ← blocks fuel rest
      .ok (b :: bs)

/-- The number of newlines in a text. -/
def newlines (cs : List Char) : Nat :=
  cs.count '\n'

/-- The error of a reader that is stuck inside `text`. -/
def Stuck.error (text : List Char) (s : Stuck) : SyntaxError :=
  { line := newlines text - newlines s.rest + 1, fault := s.fault }

end Reading

namespace Block

/-- Reads a text as a sequence of blocks. -/
def parse (text : String) : Except SyntaxError (List Block) :=
  (Reading.blocks (text.toList.length + 1) text.toList).mapError (Reading.Stuck.error text.toList)

end Block

namespace Inst

/-- Reads a text as the body of a block with exactly one instruction. -/
def parse (text : String) : Except SyntaxError Inst := do
  let blocks ← Block.parse ("block 0x0 \x7b\n" ++ text ++ "\n\x7d\n")
  match blocks.getLast?.map Block.insts with
  | some [i] => .ok i
  | _ => .error ⟨1, .notOneInstruction⟩

end Inst

end Dynarec
