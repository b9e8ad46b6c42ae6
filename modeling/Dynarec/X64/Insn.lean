import Dynarec.X64.Reg

/-!
# Host instructions

The forms of x86-64 instructions that compiled code is made of.  Immediates and displacements are
words in two's complement; the branch forms carry the address they go to.
-/

namespace Dynarec

/-- Two-operand arithmetic.  `cmp` subtracts and keeps only the flags. -/
inductive Alu where
  | add
  | or
  | and
  | sub
  | xor
  | cmp
  deriving DecidableEq, Repr

namespace Alu

/-- The number that selects the operation in an encoding. -/
def digit : Alu → Fin 8
  | add => 0
  | or => 1
  | and => 4
  | sub => 5
  | xor => 6
  | cmp => 7

/-- The operation selected by a number. -/
def ofDigit? : Fin 8 → Option Alu
  | 0 => some add
  | 1 => some or
  | 4 => some and
  | 5 => some sub
  | 6 => some xor
  | 7 => some cmp
  | _ => none

/-- The mnemonic of an operation. -/
def name : Alu → String
  | add => "add"
  | or => "or"
  | and => "and"
  | sub => "sub"
  | xor => "xor"
  | cmp => "cmp"

@[simp] theorem ofDigit?_digit (op : Alu) : ofDigit? op.digit = some op := by
  cases op <;> rfl

end Alu

/-- Shifts by a constant count. -/
inductive Shift where
  | shl
  | shr
  | sar
  deriving DecidableEq, Repr

namespace Shift

/-- The number that selects the shift in an encoding. -/
def digit : Shift → Fin 8
  | shl => 4
  | shr => 5
  | sar => 7

/-- The shift selected by a number. -/
def ofDigit? : Fin 8 → Option Shift
  | 4 => some shl
  | 5 => some shr
  | 7 => some sar
  | _ => none

/-- The mnemonic of a shift. -/
def name : Shift → String
  | shl => "shl"
  | shr => "shr"
  | sar => "sar"

@[simp] theorem ofDigit?_digit (op : Shift) : ofDigit? op.digit = some op := by
  cases op <;> rfl

end Shift

/-- The conditions of a conditional jump. -/
inductive Cond where
  | equal
  | notEqual
  | less
  | greater
  | lessEqual
  | greaterEqual
  | sign
  | notSign
  deriving DecidableEq, Repr

namespace Cond

/-- The condition that holds exactly when this one does not. -/
def invert : Cond → Cond
  | equal => notEqual
  | notEqual => equal
  | less => greaterEqual
  | greater => lessEqual
  | lessEqual => greater
  | greaterEqual => less
  | sign => notSign
  | notSign => sign

/-- The number of a condition in an encoding. -/
def digit : Cond → Fin 16
  | equal => 0x4
  | notEqual => 0x5
  | sign => 0x8
  | notSign => 0x9
  | less => 0xc
  | greaterEqual => 0xd
  | lessEqual => 0xe
  | greater => 0xf

/-- The condition with a number. -/
def ofDigit? : Fin 16 → Option Cond
  | 0x4 => some equal
  | 0x5 => some notEqual
  | 0x8 => some sign
  | 0x9 => some notSign
  | 0xc => some less
  | 0xd => some greaterEqual
  | 0xe => some lessEqual
  | 0xf => some greater
  | _ => none

/-- The mnemonic of the conditional jump. -/
def name : Cond → String
  | equal => "je"
  | notEqual => "jne"
  | less => "jl"
  | greater => "jg"
  | lessEqual => "jle"
  | greaterEqual => "jge"
  | sign => "js"
  | notSign => "jns"

@[simp] theorem ofDigit?_digit (c : Cond) : ofDigit? c.digit = some c := by
  cases c <;> rfl

@[simp] theorem invert_invert (c : Cond) : c.invert.invert = c := by
  cases c <;> rfl

end Cond

/-- A memory operand: a base register and a displacement in two's complement. -/
structure Mem where
  base : Gpr
  disp : UInt32
  deriving DecidableEq, Repr

/-- A host instruction.  The number in a name is the operand width in bits; `m` marks a memory
operand on the left and `i` an immediate on the right. -/
inductive Insn where
  | mov32 (dst src : Gpr)
  | mov32i (dst : Gpr) (imm : UInt32)
  | load32 (dst : Gpr) (src : Mem)
  | store32 (dst : Mem) (src : Gpr)
  | store32i (dst : Mem) (imm : UInt32)
  | mov64 (dst src : Gpr)
  | mov64i (dst : Gpr) (imm : UInt64)
  | alu32 (op : Alu) (dst src : Gpr)
  | alu32i (op : Alu) (dst : Gpr) (imm : UInt32)
  | alu32m (op : Alu) (dst : Mem) (src : Gpr)
  | alu32mi (op : Alu) (dst : Mem) (imm : UInt32)
  | alu64i (op : Alu) (dst : Gpr) (imm : UInt32)
  | shift32 (op : Shift) (dst : Gpr) (count : Fin 32)
  | test32 (left right : Gpr)
  | test32mi (left : Mem) (imm : UInt32)
  | test8i (left : Gpr) (imm : UInt8)
  | test64 (left right : Gpr)
  | stmxcsr (dst : Mem)
  | ldmxcsr (src : Mem)
  | push (src : Gpr)
  | pop (dst : Gpr)
  | ret
  | callReg (target : Gpr)
  | call (target : UInt64)
  | jmpReg (target : Gpr)
  | jmp (target : UInt64)
  | jcc (cond : Cond) (target : UInt64)
  | int3
  deriving DecidableEq, Repr

namespace Insn

/-- The address a direct branch goes to. -/
def target? : Insn → Option UInt64
  | call t => some t
  | jmp t => some t
  | jcc _ t => some t
  | _ => none

/-- The instruction with the target of a direct branch replaced. -/
def mapTarget (f : UInt64 → UInt64) : Insn → Insn
  | call t => call (f t)
  | jmp t => jmp (f t)
  | jcc c t => jcc c (f t)
  | i => i

end Insn

end Dynarec
