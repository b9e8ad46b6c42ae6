import Std.Data.TreeMap
import Dynarec.Guest.Context
import Dynarec.X64.Decode

/-!
# The host processor

The meaning of host instructions: registers, the flags that conditional jumps look at, the
floating-point control word, the stack, and the guest context as the only other memory.

Shape of the memory: compiled code reads and writes words of the guest context, which lies at a
fixed address, and pushes and pops double words on the stack.  Any other access is a fault, as is
the breakpoint that fills unused code.
-/

namespace Dynarec

/-- The address of the guest context. -/
def contextBase : UInt64 := 0x3000000000

/-- The flags that conditional jumps look at. -/
structure Flags where
  zero : Bool := false
  sign : Bool := false
  overflow : Bool := false
  deriving DecidableEq, Repr

namespace Flags

/-- Whether a condition holds. -/
def holds (f : Flags) : Cond → Bool
  | .equal => f.zero
  | .notEqual => !f.zero
  | .less => f.sign != f.overflow
  | .greaterEqual => f.sign == f.overflow
  | .lessEqual => f.zero || f.sign != f.overflow
  | .greater => !f.zero && f.sign == f.overflow
  | .sign => f.sign
  | .notSign => !f.sign

/-- The flags after a result of a bitwise operation. -/
def ofBits {w : Nat} (v : BitVec w) : Flags :=
  { zero := v == 0, sign := v.msb, overflow := false }

/-- The flags after a sum. -/
def ofAdd {w : Nat} (a b : BitVec w) : Flags :=
  { zero := a + b == 0, sign := (a + b).msb, overflow := a.saddOverflow b }

/-- The flags after a difference. -/
def ofSub {w : Nat} (a b : BitVec w) : Flags :=
  { zero := a - b == 0, sign := (a - b).msb, overflow := a.ssubOverflow b }

end Flags

namespace Alu

/-- The result of an operation; a comparison keeps its left operand. -/
def apply {w : Nat} (op : Alu) (a b : BitVec w) : BitVec w :=
  match op with
  | add => a + b
  | or => a ||| b
  | and => a &&& b
  | sub => a - b
  | xor => a ^^^ b
  | cmp => a

/-- The flags after an operation. -/
def flags {w : Nat} (op : Alu) (a b : BitVec w) : Flags :=
  match op with
  | add => .ofAdd a b
  | sub | cmp => .ofSub a b
  | or => .ofBits (a ||| b)
  | and => .ofBits (a &&& b)
  | xor => .ofBits (a ^^^ b)

end Alu

namespace Shift

/-- The result of a shift. -/
def apply (op : Shift) (v : UInt32) (count : Fin 32) : UInt32 :=
  match op with
  | shl => ⟨v.toBitVec <<< count.val⟩
  | shr => ⟨v.toBitVec >>> count.val⟩
  | sar => ⟨v.toBitVec.sshiftRight count.val⟩

end Shift

/-- Why the processor cannot go on. -/
inductive Fault where
  /-- The bytes at the instruction pointer are not an instruction. -/
  | undecodable (ip : UInt64)
  /-- A breakpoint was executed. -/
  | breakpoint (ip : UInt64)
  /-- An access to memory outside the guest context. -/
  | badAccess (address : UInt64)
  /-- A handler was called with something else than the guest context. -/
  | badArgument (handler : UInt64)
  deriving DecidableEq, Repr

/-- The state of the processor. -/
structure Cpu where
  regs : Vector UInt64 16 := Vector.replicate 16 0
  ip : UInt64
  flags : Flags := {}
  mxcsr : UInt32 := 0x1f80
  context : Context
  /-- The double words on the stack, by address. -/
  stack : Std.TreeMap UInt64 UInt64 := ∅

namespace Cpu

/-- The value of a register. -/
def reg (c : Cpu) (r : Gpr) : UInt64 :=
  c.regs.get r

/-- The low 32 bits of a register. -/
def reg32 (c : Cpu) (r : Gpr) : UInt32 :=
  (c.reg r).toUInt32

/-- Replaces a register. -/
def setReg (c : Cpu) (r : Gpr) (v : UInt64) : Cpu :=
  { c with regs := c.regs.set r.val v r.val_lt }

/-- Replaces a register by a 32-bit value, which clears its high half. -/
def setReg32 (c : Cpu) (r : Gpr) (v : UInt32) : Cpu :=
  c.setReg r v.toUInt64

/-- The address of a memory operand. -/
def address (c : Cpu) (m : Mem) : UInt64 :=
  c.reg m.base + Word.extend32 m.disp

/-- The word at a memory operand. -/
def load (c : Cpu) (m : Mem) : Except Fault UInt32 :=
  match c.context.load? (c.address m - contextBase).toNat with
  | some v => .ok v
  | none => .error (.badAccess (c.address m))

/-- Replaces the word at a memory operand. -/
def store (c : Cpu) (m : Mem) (v : UInt32) : Except Fault Cpu :=
  match c.context.store? (c.address m - contextBase).toNat v with
  | some context => .ok { c with context }
  | none => .error (.badAccess (c.address m))

/-- Pushes a double word. -/
def push (c : Cpu) (v : UInt64) : Cpu :=
  let top := c.reg Gpr.rsp - 8
  { c.setReg Gpr.rsp top with stack := c.stack.insert top v }

/-- The double word on top of the stack. -/
def top (c : Cpu) : UInt64 :=
  c.stack.getD (c.reg Gpr.rsp) 0

/-- Drops the double word on top of the stack. -/
def drop (c : Cpu) : Cpu :=
  c.setReg Gpr.rsp (c.reg Gpr.rsp + 8)

/-- Goes on at an address. -/
def goTo (c : Cpu) (ip : UInt64) : Cpu :=
  { c with ip }

/-- Carries out an instruction; `c.ip` is already the address after it. -/
def exec (c : Cpu) : Insn → Except Fault Cpu
  | .mov32 dst src => .ok (c.setReg32 dst (c.reg32 src))
  | .mov32i dst imm => .ok (c.setReg32 dst imm)
  | .load32 dst src => (c.load src).map (c.setReg32 dst)
  | .store32 dst src => c.store dst (c.reg32 src)
  | .store32i dst imm => c.store dst imm
  | .mov64 dst src => .ok (c.setReg dst (c.reg src))
  | .mov64i dst imm => .ok (c.setReg dst imm)
  | .alu32 op dst src =>
    let a := (c.reg32 dst).toBitVec
    let b := (c.reg32 src).toBitVec
    let c := { c with flags := op.flags a b }
    .ok (if op = .cmp then c else c.setReg32 dst ⟨op.apply a b⟩)
  | .alu32i op dst imm =>
    let a := (c.reg32 dst).toBitVec
    let c := { c with flags := op.flags a imm.toBitVec }
    .ok (if op = .cmp then c else c.setReg32 dst ⟨op.apply a imm.toBitVec⟩)
  | .alu32m op dst src => do
    let a := (← c.load dst).toBitVec
    let b := (c.reg32 src).toBitVec
    let c := { c with flags := op.flags a b }
    if op = .cmp then .ok c else c.store dst ⟨op.apply a b⟩
  | .alu32mi op dst imm => do
    let a := (← c.load dst).toBitVec
    let c := { c with flags := op.flags a imm.toBitVec }
    if op = .cmp then .ok c else c.store dst ⟨op.apply a imm.toBitVec⟩
  | .alu64i op dst imm =>
    let a := (c.reg dst).toBitVec
    let b := (Word.extend32 imm).toBitVec
    let c := { c with flags := op.flags a b }
    .ok (if op = .cmp then c else c.setReg dst ⟨op.apply a b⟩)
  | .shift32 op dst count =>
    let v := op.apply (c.reg32 dst) count
    let c := if count = 0 then c else { c with flags := .ofBits v.toBitVec }
    .ok (c.setReg32 dst v)
  | .test32 left right =>
    .ok { c with flags := .ofBits ((c.reg32 left).toBitVec &&& (c.reg32 right).toBitVec) }
  | .test32mi left imm => do
    let v ← c.load left
    .ok { c with flags := .ofBits (v.toBitVec &&& imm.toBitVec) }
  | .test8i left imm =>
    .ok { c with flags := .ofBits ((c.reg left).toUInt8.toBitVec &&& imm.toBitVec) }
  | .test64 left right =>
    .ok { c with flags := .ofBits ((c.reg left).toBitVec &&& (c.reg right).toBitVec) }
  | .stmxcsr dst => c.store dst c.mxcsr
  | .ldmxcsr src => (c.load src).map fun v => { c with mxcsr := v }
  | .push src => .ok (c.push (c.reg src))
  | .pop dst => .ok (c.drop.setReg dst c.top)
  | .ret => .ok (c.drop.goTo c.top)
  | .callReg target => .ok ((c.push c.ip).goTo (c.reg target))
  | .call target => .ok ((c.push c.ip).goTo target)
  | .jmpReg target => .ok (c.goTo (c.reg target))
  | .jmp target => .ok (c.goTo target)
  | .jcc cond target => .ok (if c.flags.holds cond then c.goTo target else c)
  | .int3 => .error (.breakpoint c.ip)

/-- Carries out the instruction at the instruction pointer; `decode` gives the instruction at an
address and its length. -/
def step (decode : UInt64 → Option (Insn × Nat)) (c : Cpu) : Except Fault Cpu :=
  match decode c.ip with
  | none => .error (.undecodable c.ip)
  | some (i, size) => (c.goTo (c.ip + UInt64.ofNat size)).exec i

end Cpu

end Dynarec
