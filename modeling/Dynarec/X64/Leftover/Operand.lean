import Dynarec.Text.Hex
import Dynarec.X64.Reg
import Dynarec.X64.Word

/-!
# Operands of leftover code

A patch that ends inside an instruction leaves the rest of that instruction behind.  The processor
would read these bytes as whatever they spell, and a listing shows them in the same way.  This
module reads the parts that all instructions share: the marks in front of an opcode, the operand
byte with what follows it, and immediates.

Shape of the reading: a reader works on the bytes that are left.  It may run out of bytes, or meet
bytes that are no instruction; the bytes that were taken by then stay taken.  The text of an
operand can depend on the address behind the whole instruction, so texts are functions of it.
-/

namespace Dynarec.Leftover

/-- Why bytes are not read as an instruction. -/
inductive Stop where
  /-- The code ends inside the instruction. -/
  | short
  /-- No instruction is spelled like this. -/
  | undefined
  deriving DecidableEq, Repr

/-- A reader of bytes. -/
abbrev Read := EStateM Stop (List UInt8)

/-- A text that may depend on the address behind the instruction. -/
abbrev Shown := (next : UInt64) → String

/-- Takes one byte. -/
def byte : Read UInt8 := do
  match ← get with
  | b :: rest =>
    set rest
    return b
  | [] => throw .short

/-- Takes two bytes, the low one first. -/
def word : Read Nat := do
  let low ← byte
  let high ← byte
  return low.toNat + 256 * high.toNat

/-- Takes four bytes, the low one first. -/
def dword : Read UInt32 := do
  let b0 ← byte
  let b1 ← byte
  let b2 ← byte
  let b3 ← byte
  return Word.ofBytes32 b0 b1 b2 b3

/-- Takes eight bytes, the low one first. -/
def qword : Read UInt64 := do
  let low ← dword
  let high ← dword
  return low.toUInt64 ||| high.toUInt64 <<< 32

/-! ## Marks in front of an opcode -/

/-- A repetition mark. -/
inductive Repeat where
  | whileEqual
  | whileNotEqual
  deriving DecidableEq, Repr

/-- The marks in front of an opcode. -/
structure Marks where
  /-- The extension byte, which counts only right in front of the opcode. -/
  rex : Option UInt8 := none
  /-- Operands are 16 bits wide. -/
  narrow : Bool := false
  /-- Addresses are 32 bits wide. -/
  shortAddress : Bool := false
  lock : Bool := false
  repeated : Option Repeat := none
  /-- The segment that memory operands lie in, if it is one that counts. -/
  segment : Option String := none
  deriving DecidableEq, Repr

namespace Marks

/-- Adds the mark that a byte is, if it is one; an extension byte is forgotten when another mark
follows it. -/
def add? (m : Marks) (b : UInt8) : Option Marks :=
  let n := { m with rex := none }
  if b.toNat / 16 = 4 then some { m with rex := some b }
  else
    match b with
    | 0x26 | 0x2e | 0x36 | 0x3e => some n
    | 0x64 => some { n with segment := some "fs" }
    | 0x65 => some { n with segment := some "gs" }
    | 0x66 => some { n with narrow := true }
    | 0x67 => some { n with shortAddress := true }
    | 0xf0 => some { n with lock := true }
    | 0xf2 => some { n with repeated := some .whileNotEqual }
    | 0xf3 => some { n with repeated := some .whileEqual }
    | _ => none

/-- One bit of the extension byte. -/
def rexBit (m : Marks) (bit : Nat) : Bool :=
  match m.rex with
  | some b => (b.toNat >>> bit) % 2 = 1
  | none => false

/-- Operands are 64 bits wide. -/
def wide (m : Marks) : Bool := m.rexBit 3

theorem reg_lt (m : Marks) (bit : Nat) (low : Fin 8) :
    (if m.rexBit bit then 8 else 0) + low.val < 16 := by
  split <;> omega

/-- A register number from the extension bit and three bits. -/
def reg (m : Marks) (bit : Nat) (low : Fin 8) : Gpr :=
  ⟨(if m.rexBit bit then 8 else 0) + low.val, m.reg_lt bit low⟩

end Marks

/-- Takes the marks and the opcode behind them.  `fuel` bounds the number of marks. -/
def takeMarks : (fuel : Nat) → Marks → Read (Marks × UInt8)
  | 0, _ => throw .undefined
  | fuel + 1, m => do
    let b ← byte
    match m.add? b with
    | some m => takeMarks fuel m
    | none => return (m, b)

/-! ## Registers, memory and immediates -/

/-- The width of an operand. -/
inductive Width where
  | w8
  | w16
  | w32
  | w64
  deriving DecidableEq, Repr

namespace Width

/-- The word for a memory operand of this width. -/
def name : Width → String
  | w8 => "byte"
  | w16 => "word"
  | w32 => "dword"
  | w64 => "qword"

/-- The number of bits. -/
def bits : Width → Nat
  | w8 => 8
  | w16 => 16
  | w32 => 32
  | w64 => 64

end Width

namespace Marks

/-- The width of operands that are not bytes. -/
def width (m : Marks) : Width :=
  if m.wide then .w64 else if m.narrow then .w16 else .w32

/-- The width of operands that are 64 bits wide unless they are narrow. -/
def stackWidth (m : Marks) : Width :=
  if m.narrow && !m.wide then .w16 else .w64

/-- The name of a register at a width; without an extension byte, four of the byte names stand for
the second bytes of the first four registers. -/
def regName (m : Marks) (w : Width) (r : Gpr) : String :=
  match w with
  | .w8 =>
    match m.rex, r.val with
    | none, 4 => "ah"
    | none, 5 => "ch"
    | none, 6 => "dh"
    | none, 7 => "bh"
    | _, _ => r.name8
  | .w16 => r.name16
  | .w32 => r.name32
  | .w64 => r.name64

/-- The name of a register in an address. -/
def addressReg (m : Marks) (r : Gpr) : String :=
  if m.shortAddress then r.name32 else r.name64

end Marks

/-- The low three bits of a byte. -/
def low3 (b : UInt8) : Fin 8 :=
  Word.octal b.toNat

/-- The three bits of a byte above the low three. -/
def mid3 (b : UInt8) : Fin 8 :=
  Word.octal (b.toNat / 8)

/-- A number at a width, taken from its two's complement in 64 bits. -/
def atWidth (w : Width) (v : UInt64) : String :=
  Text.asmNumber (v.toNat % (1 <<< w.bits))

/-- The operand byte and what follows it: the register field and an operand that is a register or
lies in memory. -/
structure Operands where
  field : Fin 8
  /-- The register, if the operand is one. -/
  reg? : Option Gpr
  /-- The text of the operand in memory. -/
  memory : Shown

/-- A displacement as it follows the registers of an address. -/
def dispText (disp : UInt32) : String :=
  if disp = 0 then ""
  else if disp < 0x80000000 then "+" ++ Text.asmNumber disp.toNat
  else "-" ++ Text.asmNumber (UInt32.size - disp.toNat)

/-- Takes a displacement of the given mode. -/
def takeDisp (mode : Nat) : Read UInt32 := do
  match mode with
  | 1 => return Word.extend8 (← byte)
  | 2 => dword
  | _ => return 0

/-- Puts an address between brackets, behind its segment. -/
def bracket (m : Marks) (address : String) : String :=
  "[" ++ (m.segment.map (· ++ ":")).getD "" ++ address ++ "]"

/-- Takes an address that is built from a base, a scaled index and a displacement. -/
def takeIndexed (m : Marks) (mode : Nat) : Read Shown := do
  let b ← byte
  let noBase := mode = 0 ∧ low3 b = 5
  let index := m.reg 1 (mid3 b)
  let disp ← takeDisp (if noBase then 2 else mode)
  let base := m.addressReg (m.reg 0 (low3 b))
  let scale := 1 <<< (b.toNat / 64)
  let scaled := m.addressReg index ++ (if scale = 1 then "" else "*" ++ toString scale)
  let address :=
    match decide noBase, decide (index = Gpr.rsp) with
    | true, true => atWidth (if m.shortAddress then .w32 else .w64) (Word.extend32 disp)
    | true, false => scaled ++ dispText disp
    | false, true => base ++ dispText disp
    | false, false => base ++ "+" ++ scaled ++ dispText disp
  return fun _ => bracket m address

/-- Takes the operand byte and the address behind it. -/
def takeOperands (m : Marks) : Read Operands := do
  let b ← byte
  let mode := b.toNat / 64
  let field := mid3 b
  let low := low3 b
  if mode = 3 then
    return { field, reg? := some (m.reg 0 low), memory := fun _ => "" }
  else if low = 4 then
    return { field, reg? := none, memory := ← takeIndexed m mode }
  else if mode = 0 ∧ low = 5 then
    let rel ← dword
    return { field, reg? := none,
             memory := fun next =>
               bracket m ("rel " ++ atWidth (if m.shortAddress then .w32 else .w64)
                 (next + Word.extend32 rel)) }
  else
    let disp ← takeDisp mode
    let base := m.addressReg (m.reg 0 low)
    return { field, reg? := none, memory := fun _ => bracket m (base ++ dispText disp) }

namespace Operands

/-- The operand as text; in memory, without its width. -/
def plain (o : Operands) (m : Marks) (w : Width) : Shown :=
  match o.reg? with
  | some r => fun _ => m.regName w r
  | none => o.memory

/-- The operand as text; in memory, with its width. -/
def sized (o : Operands) (m : Marks) (w : Width) : Shown :=
  match o.reg? with
  | some r => fun _ => m.regName w r
  | none => fun next => w.name ++ " " ++ o.memory next

/-- The register that the field names. -/
def fieldReg (o : Operands) (m : Marks) (w : Width) : String :=
  m.regName w (m.reg 2 o.field)

/-- Whether the operand lies in memory. -/
def inMemory (o : Operands) : Bool := o.reg?.isNone

end Operands

/-- Takes an immediate of a width; the widest is four bytes long and widened. -/
def immediate (w : Width) : Read String := do
  match w with
  | .w8 => return Text.asmNumber (← byte).toNat
  | .w16 => return Text.asmNumber (← word)
  | .w32 | .w64 => return atWidth w (Word.extend32 (← dword))

/-- Takes an immediate byte that is widened to a width. -/
def shortImmediate (w : Width) : Read String := do
  return atWidth w (Word.extend32 (Word.extend8 (← byte)))

end Dynarec.Leftover
