/-!
# Opcodes of the intermediate representation

Shape of the opcode table: every opcode has a code (its position in the table), a name, a
signature and two properties.  The signature lists the operands in the order in which they are
written.  Register and immediate operands take the three slots of an instruction from left to
right, a gap leaves one slot out, and a constant uses no slot.

An opcode is an *exit* when control may leave the block at it, and belongs to the
*floating-point unit* when it works on floating-point state.
-/

namespace Dynarec

/-- The opcodes, in the order of their codes. -/
inductive Opcode where
  | nop
  | setConst
  | mov
  | add
  | sub
  | and
  | or
  | xor
  | addConst
  | subConst
  | andConst
  | orConst
  | xorConst
  | shlImm
  | shrImm
  | sarImm
  | load32
  | store32
  | fadd
  | fmul
  | setPc
  | setPcConst
  | downcount
  | restoreRoundingMode
  | applyRoundingMode
  | updateRoundingMode
  | interpret
  | callReplacement
  | syscall
  | trap
  | exitToConst
  | exitToReg
  | exitToPc
  | exitIfEq
  | exitIfNeq
  | exitIfGtZ
  | exitIfGeZ
  | exitIfLtZ
  | exitIfLeZ
  deriving DecidableEq, Repr, Inhabited

/-- What an operand of a signature stands for. -/
inductive OperandKind where
  /-- A guest general-purpose register in the next slot. -/
  | gpr
  /-- A guest floating-point register in the next slot. -/
  | fpr
  /-- A small number in the next slot. -/
  | imm
  /-- The constant of the instruction, in no slot. -/
  | const
  /-- The next slot is left out. -/
  | gap
  deriving DecidableEq, Repr

namespace OperandKind

/-- The letter of an operand kind in the text of a signature. -/
def letter : OperandKind → Char
  | gpr => 'G'
  | fpr => 'F'
  | imm => 'I'
  | const => 'C'
  | gap => '_'

end OperandKind

namespace Opcode

/-- All opcodes in the order of their codes. -/
def all : List Opcode :=
  [nop, setConst, mov, add, sub, and, or, xor, addConst, subConst, andConst, orConst, xorConst,
   shlImm, shrImm, sarImm, load32, store32, fadd, fmul, setPc, setPcConst, downcount,
   restoreRoundingMode, applyRoundingMode, updateRoundingMode, interpret, callReplacement, syscall,
   trap, exitToConst, exitToReg, exitToPc, exitIfEq, exitIfNeq, exitIfGtZ, exitIfGeZ, exitIfLtZ,
   exitIfLeZ]

/-- The name under which an opcode is written. -/
def name : Opcode → String
  | nop => "Nop"
  | setConst => "SetConst"
  | mov => "Mov"
  | add => "Add"
  | sub => "Sub"
  | and => "And"
  | or => "Or"
  | xor => "Xor"
  | addConst => "AddConst"
  | subConst => "SubConst"
  | andConst => "AndConst"
  | orConst => "OrConst"
  | xorConst => "XorConst"
  | shlImm => "ShlImm"
  | shrImm => "ShrImm"
  | sarImm => "SarImm"
  | load32 => "Load32"
  | store32 => "Store32"
  | fadd => "FAdd"
  | fmul => "FMul"
  | setPc => "SetPc"
  | setPcConst => "SetPcConst"
  | downcount => "Downcount"
  | restoreRoundingMode => "RestoreRoundingMode"
  | applyRoundingMode => "ApplyRoundingMode"
  | updateRoundingMode => "UpdateRoundingMode"
  | interpret => "Interpret"
  | callReplacement => "CallReplacement"
  | syscall => "Syscall"
  | trap => "Break"
  | exitToConst => "ExitToConst"
  | exitToReg => "ExitToReg"
  | exitToPc => "ExitToPc"
  | exitIfEq => "ExitToConstIfEq"
  | exitIfNeq => "ExitToConstIfNeq"
  | exitIfGtZ => "ExitToConstIfGtZ"
  | exitIfGeZ => "ExitToConstIfGeZ"
  | exitIfLtZ => "ExitToConstIfLtZ"
  | exitIfLeZ => "ExitToConstIfLeZ"

/-- The operands of an opcode, in the order in which they are written. -/
def signature : Opcode → List OperandKind
  | nop | restoreRoundingMode | applyRoundingMode | updateRoundingMode | exitToPc => []
  | setConst => [.gpr, .const]
  | mov => [.gpr, .gpr]
  | add | sub | and | or | xor => [.gpr, .gpr, .gpr]
  | addConst | subConst | andConst | orConst | xorConst | load32 | store32 => [.gpr, .gpr, .const]
  | shlImm | shrImm | sarImm => [.gpr, .gpr, .imm]
  | fadd | fmul => [.fpr, .fpr, .fpr]
  | setPc | exitToReg => [.gap, .gpr]
  | setPcConst | downcount | interpret | callReplacement | syscall | trap | exitToConst => [.const]
  | exitIfEq | exitIfNeq => [.const, .gap, .gpr, .gpr]
  | exitIfGtZ | exitIfGeZ | exitIfLtZ | exitIfLeZ => [.const, .gap, .gpr]

/-- The signature of an opcode as text, one letter an operand. -/
def signatureText (op : Opcode) : String :=
  String.ofList (op.signature.map OperandKind.letter)

/-- Whether control may leave the block at this opcode. -/
def isExit : Opcode → Bool
  | callReplacement | syscall | trap | exitToConst | exitToReg | exitToPc | exitIfEq | exitIfNeq
  | exitIfGtZ | exitIfGeZ | exitIfLtZ | exitIfLeZ => true
  | _ => false

/-- Whether the opcode works on floating-point state. -/
def usesFpu : Opcode → Bool
  | fadd | fmul | restoreRoundingMode | applyRoundingMode | updateRoundingMode => true
  | _ => false

/-- The code of an opcode: its position in `Opcode.all`. -/
def code (op : Opcode) : UInt8 :=
  UInt8.ofNat (all.idxOf op)

/-- The opcode with the given code. -/
def ofCode? (code : UInt8) : Option Opcode :=
  all[code.toNat]?

/-- The opcode with the given name. -/
def ofName? (name : String) : Option Opcode :=
  all.find? fun op => op.name = name

theorem mem_all (op : Opcode) : op ∈ all := by
  cases op <;> decide

@[simp] theorem ofCode?_code (op : Opcode) : ofCode? op.code = some op := by
  cases op <;> rfl

@[simp] theorem ofName?_name (op : Opcode) : ofName? op.name = some op := by
  cases op <;> decide

end Opcode

end Dynarec
