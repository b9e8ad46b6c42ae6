import Dynarec.X64.Assembler

/-!
# Asking for instructions

The caller of the assembler asks for instructions by the names of their registers.  A name need not
be that of a general-purpose register; then nothing is emitted.  A shift is asked for with a byte,
of which the low five bits count.  A direct branch goes to an address or to a label.

`Emission.insn` is the instruction that is asked for, given where its target is.
-/

namespace Dynarec

/-- Where a direct branch is to go. -/
inductive BranchTarget where
  | address (a : UInt64)
  | label (l : Label)
  deriving DecidableEq, Repr

namespace BranchTarget

/-- The target as the assembler takes it. -/
def symbol : BranchTarget → UInt64
  | address a => a
  | label l => l.symbol

end BranchTarget

/-- A memory operand with a register name for its base. -/
structure MemName where
  base : HostReg
  disp : UInt32
  deriving DecidableEq, Repr

namespace MemName

/-- The memory operand that is named. -/
def mem (m : MemName) : Except EncodingError Mem := do
  return { base := ← m.base.gpr, disp := m.disp }

end MemName

/-- An instruction as it is asked for.  The names are those of `Insn`. -/
inductive Emission where
  | mov32 (dst src : HostReg)
  | mov32i (dst : HostReg) (imm : UInt32)
  | load32 (dst : HostReg) (src : MemName)
  | store32 (dst : MemName) (src : HostReg)
  | store32i (dst : MemName) (imm : UInt32)
  | mov64 (dst src : HostReg)
  | mov64i (dst : HostReg) (imm : UInt64)
  | alu32 (op : Alu) (dst src : HostReg)
  | alu32i (op : Alu) (dst : HostReg) (imm : UInt32)
  | alu32m (op : Alu) (dst : MemName) (src : HostReg)
  | alu32mi (op : Alu) (dst : MemName) (imm : UInt32)
  | alu64i (op : Alu) (dst : HostReg) (imm : UInt32)
  | shift32 (op : Shift) (dst : HostReg) (amount : UInt8)
  | test32 (left right : HostReg)
  | test32mi (left : MemName) (imm : UInt32)
  | test8i (left : HostReg) (imm : UInt8)
  | test64 (left right : HostReg)
  | stmxcsr (dst : MemName)
  | ldmxcsr (src : MemName)
  | push (src : HostReg)
  | pop (dst : HostReg)
  | ret
  | callReg (target : HostReg)
  | call (target : BranchTarget)
  | jmpReg (target : HostReg)
  | jmp (target : BranchTarget)
  | jcc (cond : Cond) (target : BranchTarget)
  deriving DecidableEq, Repr

namespace Emission

theorem amount_mod_lt (amount : UInt8) : amount.toNat % 32 < 32 :=
  Nat.mod_lt _ (by decide)

/-- The instruction that is asked for, where `go` says where a branch target is. -/
def insn (go : BranchTarget → UInt64) : Emission → Except EncodingError Insn
  | mov32 dst src => return .mov32 (← dst.gpr) (← src.gpr)
  | mov32i dst imm => return .mov32i (← dst.gpr) imm
  | load32 dst src => return .load32 (← dst.gpr) (← src.mem)
  | store32 dst src => return .store32 (← dst.mem) (← src.gpr)
  | store32i dst imm => return .store32i (← dst.mem) imm
  | mov64 dst src => return .mov64 (← dst.gpr) (← src.gpr)
  | mov64i dst imm => return .mov64i (← dst.gpr) imm
  | alu32 op dst src => return .alu32 op (← dst.gpr) (← src.gpr)
  | alu32i op dst imm => return .alu32i op (← dst.gpr) imm
  | alu32m op dst src => return .alu32m op (← dst.mem) (← src.gpr)
  | alu32mi op dst imm => return .alu32mi op (← dst.mem) imm
  | alu64i op dst imm => return .alu64i op (← dst.gpr) imm
  | shift32 op dst amount =>
    return .shift32 op (← dst.gpr) ⟨amount.toNat % 32, amount_mod_lt amount⟩
  | test32 left right => return .test32 (← left.gpr) (← right.gpr)
  | test32mi left imm => return .test32mi (← left.mem) imm
  | test8i left imm => return .test8i (← left.gpr) imm
  | test64 left right => return .test64 (← left.gpr) (← right.gpr)
  | stmxcsr dst => return .stmxcsr (← dst.mem)
  | ldmxcsr src => return .ldmxcsr (← src.mem)
  | push src => return .push (← src.gpr)
  | pop dst => return .pop (← dst.gpr)
  | ret => return .ret
  | callReg target => return .callReg (← target.gpr)
  | call target => return .call (go target)
  | jmpReg target => return .jmpReg (← target.gpr)
  | jmp target => return .jmp (go target)
  | jcc cond target => return .jcc cond (go target)

end Emission

namespace Assembler

/-- Appends the instruction that is asked for. -/
def emission (a : Assembler) (e : Emission) : Except EncodingError Assembler := do
  return a.emit (← e.insn BranchTarget.symbol)

end Assembler

end Dynarec
