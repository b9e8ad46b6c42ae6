import Dynarec.X64.Insn
import Dynarec.X64.Word

/-!
# Machine code of an instruction

Shape of an encoding: an optional size and register extension byte, the opcode, a byte that names
the operands, for memory operands a second such byte where the base register asks for one and the
displacement, and the immediate.

Every instruction has one encoding.  A memory operand takes the shortest displacement that holds
its value; a base register whose low number is 4 needs the second operand byte, and one whose low
number is 5 always has a displacement.  An arithmetic immediate takes one byte where its value
fits a signed byte, except with the accumulator, which has a form of its own with four bytes.
Direct branches take a 32-bit distance from the end of the instruction.
-/

namespace Dynarec

namespace Encoding

/-- The value of the extension byte: wide operands, the high bit of the register field, the high
bit of the operand field. -/
def rexValue (wide : Bool) (reg rm : Fin 16) : Nat :=
  0x40 + (if wide then 8 else 0) + (if 8 ≤ reg.val then 4 else 0) + (if 8 ≤ rm.val then 1 else 0)

/-- The extension byte, which is left out when it would say nothing. -/
def rex (wide : Bool) (reg rm : Fin 16) : List UInt8 :=
  if rexValue wide reg rm = 0x40 then [] else [UInt8.ofNat (rexValue wide reg rm)]

/-- The extension byte before a byte operand: the low bytes of the registers from number 4 on are
named only beside it. -/
def rexByte (rm : Fin 16) : List UInt8 :=
  if rm.val < 4 then [] else [UInt8.ofNat (rexValue false 0 rm)]

/-- The byte that names the operands. -/
def modrm (mode : Fin 4) (reg rm : Fin 16) : UInt8 :=
  UInt8.ofNat (mode.val * 64 + reg.val % 8 * 8 + rm.val % 8)

/-- A number in the register field. -/
def field (n : Fin 8) : Fin 16 := ⟨n.val, by omega⟩

/-- Operand bytes for a register operand. -/
def onReg (reg rm : Fin 16) : List UInt8 :=
  [modrm 3 reg rm]

/-- Operand bytes for a memory operand. -/
def onMem (reg : Fin 16) (m : Mem) : List UInt8 :=
  let sib : List UInt8 := if m.base.val % 8 = 4 then [0x24] else []
  if m.disp = 0 ∧ m.base.val % 8 ≠ 5 then modrm 0 reg m.base :: sib
  else if Word.fitsByte m.disp then modrm 1 reg m.base :: sib ++ [m.disp.toUInt8]
  else modrm 2 reg m.base :: sib ++ Word.bytes32 m.disp

/-- An arithmetic immediate after the opcode for one byte or for four bytes. -/
def aluImm (operands : List UInt8) (imm : UInt32) : List UInt8 :=
  if Word.fitsByte imm then 0x83 :: operands ++ [imm.toUInt8]
  else 0x81 :: operands ++ Word.bytes32 imm

end Encoding

namespace Insn

open Encoding

/-- The machine code of an instruction, where `rel` is the distance that a direct branch takes
from its end. -/
def bytes (rel : UInt32) : Insn → List UInt8
  | mov32 dst src => rex false src dst ++ 0x89 :: onReg src dst
  | mov32i dst imm =>
    rex false 0 dst ++ UInt8.ofNat (0xb8 + dst.val % 8) :: Word.bytes32 imm
  | load32 dst src => rex false dst src.base ++ 0x8b :: onMem dst src
  | store32 dst src => rex false src dst.base ++ 0x89 :: onMem src dst
  | store32i dst imm => rex false 0 dst.base ++ 0xc7 :: onMem 0 dst ++ Word.bytes32 imm
  | mov64 dst src => rex true src dst ++ 0x89 :: onReg src dst
  | mov64i dst imm =>
    rex true 0 dst ++ UInt8.ofNat (0xb8 + dst.val % 8) :: Word.bytes64 imm
  | alu32 op dst src =>
    rex false src dst ++ UInt8.ofNat (op.digit.val * 8 + 1) :: onReg src dst
  | alu32i op dst imm =>
    if dst = Gpr.rax then UInt8.ofNat (op.digit.val * 8 + 5) :: Word.bytes32 imm
    else rex false 0 dst ++ aluImm (onReg (field op.digit) dst) imm
  | alu32m op dst src =>
    rex false src dst.base ++ UInt8.ofNat (op.digit.val * 8 + 1) :: onMem src dst
  | alu32mi op dst imm => rex false 0 dst.base ++ aluImm (onMem (field op.digit) dst) imm
  | alu64i op dst imm =>
    if dst = Gpr.rax then
      rex true 0 dst ++ UInt8.ofNat (op.digit.val * 8 + 5) :: Word.bytes32 imm
    else rex true 0 dst ++ aluImm (onReg (field op.digit) dst) imm
  | shift32 op dst count =>
    if count = 1 then rex false 0 dst ++ 0xd1 :: onReg (field op.digit) dst
    else rex false 0 dst ++ 0xc1 :: onReg (field op.digit) dst ++ [UInt8.ofNat count.val]
  | test32 left right => rex false right left ++ 0x85 :: onReg right left
  | test32mi left imm => rex false 0 left.base ++ 0xf7 :: onMem 0 left ++ Word.bytes32 imm
  | test8i left imm =>
    if left = Gpr.rax then [0xa8, imm]
    else rexByte left ++ 0xf6 :: onReg 0 left ++ [imm]
  | test64 left right => rex true right left ++ 0x85 :: onReg right left
  | stmxcsr dst => rex false 0 dst.base ++ 0x0f :: 0xae :: onMem 3 dst
  | ldmxcsr src => rex false 0 src.base ++ 0x0f :: 0xae :: onMem 2 src
  | push src => rex false 0 src ++ [UInt8.ofNat (0x50 + src.val % 8)]
  | pop dst => rex false 0 dst ++ [UInt8.ofNat (0x58 + dst.val % 8)]
  | ret => [0xc3]
  | callReg target => rex false 0 target ++ 0xff :: onReg 2 target
  | call _ => 0xe8 :: Word.bytes32 rel
  | jmpReg target => rex false 0 target ++ 0xff :: onReg 4 target
  | jmp _ => 0xe9 :: Word.bytes32 rel
  | jcc cond _ => 0x0f :: UInt8.ofNat (0x80 + cond.digit.val) :: Word.bytes32 rel
  | int3 => [0xcc]

/-- The number of bytes of an instruction, which no branch target changes. -/
def size (i : Insn) : Nat :=
  (i.bytes 0).length

/-- The distance from one address to another as a signed 32-bit word, if it is in reach. -/
def distance? (source target : UInt64) : Option UInt32 :=
  let d := target - source
  if d < 0x80000000 ∨ 0xffffffff80000000 ≤ d then some d.toUInt32 else none

/-- The machine code of an instruction at an address; a direct branch out of reach has none. -/
def encode? (ip : UInt64) (i : Insn) : Option (List UInt8) :=
  match i.target? with
  | none => some (i.bytes 0)
  | some t => (distance? (ip + UInt64.ofNat i.size) t).map fun rel => i.bytes rel

end Insn

end Dynarec
