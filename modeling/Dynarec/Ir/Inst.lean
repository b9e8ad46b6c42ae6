import Dynarec.Ir.Opcode
import Dynarec.Text.Hex

/-!
# Instructions and blocks

An instruction is an opcode with three byte-wide slots and one 32-bit constant.  Slots and
constant are present whatever the opcode is; the signature of the opcode says which of them mean
something.  An instruction packs into one 64-bit word: opcode, destination, the two sources and
the constant from the low byte upwards.

A block is a start address in the guest and a list of instructions.
-/

namespace Dynarec

/-- One instruction: an opcode, three slots and a constant. -/
structure Inst where
  op : Opcode
  dest : UInt8 := 0
  src1 : UInt8 := 0
  src2 : UInt8 := 0
  constant : UInt32 := 0
  deriving DecidableEq, Repr, Inhabited

namespace Inst

/-- The slots from left to right. -/
def slots (i : Inst) : List UInt8 :=
  [i.dest, i.src1, i.src2]

/-- The instruction as one 64-bit word. -/
def pack (i : Inst) : UInt64 :=
  i.op.code.toUInt64 ||| i.dest.toUInt64 <<< 8 ||| i.src1.toUInt64 <<< 16 |||
    i.src2.toUInt64 <<< 24 ||| i.constant.toUInt64 <<< 32

/-- The instruction that a 64-bit word packs, if its low byte is the code of an opcode. -/
def unpack? (w : UInt64) : Option Inst :=
  (Opcode.ofCode? w.toUInt8).map fun op =>
    { op
      dest := (w >>> 8).toUInt8
      src1 := (w >>> 16).toUInt8
      src2 := (w >>> 24).toUInt8
      constant := (w >>> 32).toUInt32 }

/-- The register numbers that stand in general-purpose operands of a signature, given the slots
that are still to be used. -/
def gprsIn : List OperandKind → List UInt8 → List UInt8
  | .gpr :: kinds, slot :: slots => slot :: gprsIn kinds slots
  | .const :: kinds, slots => gprsIn kinds slots
  | _ :: kinds, _ :: slots => gprsIn kinds slots
  | _, _ => []

/-- The register numbers in the general-purpose operands of an instruction, from left to right and
as they stand in the slots. -/
def gprOperands (i : Inst) : List UInt8 :=
  gprsIn i.op.signature i.slots

/-- The texts of the operands of a signature, given the slots that are still to be used. -/
def operandTexts (constant : UInt32) : List OperandKind → List UInt8 → List String
  | .const :: kinds, slots => Text.hex constant.toNat :: operandTexts constant kinds slots
  | .gap :: kinds, _ :: slots => operandTexts constant kinds slots
  | .imm :: kinds, slot :: slots => toString slot.toNat :: operandTexts constant kinds slots
  | .fpr :: kinds, slot :: slots =>
    ("f" ++ toString slot.toNat) :: operandTexts constant kinds slots
  | .gpr :: kinds, slot :: slots =>
    ("r" ++ toString slot.toNat) :: operandTexts constant kinds slots
  | _, _ => []

/-- The instruction as text: the name of the opcode, a space, and the operands with a comma and a
space between them. -/
def text (i : Inst) : String :=
  match operandTexts i.constant i.op.signature i.slots with
  | [] => i.op.name
  | operands => i.op.name ++ " " ++ ", ".intercalate operands

end Inst

/-- A block: where it starts in the guest, and its instructions. -/
structure Block where
  start : UInt32
  insts : List Inst
  deriving DecidableEq, Repr, Inhabited

namespace Block

/-- The lines of a block: a header, the instructions indented by four blanks, a closing brace. -/
def lines (b : Block) : List String :=
  ("block " ++ Text.hex b.start.toNat ++ " \x7b") :: b.insts.map ("    " ++ ·.text) ++ ["\x7d"]

/-- The text of a list of blocks, each line ended by a newline. -/
def print (blocks : List Block) : String :=
  String.join ((blocks.flatMap lines).map (· ++ "\n"))

end Block

end Dynarec
