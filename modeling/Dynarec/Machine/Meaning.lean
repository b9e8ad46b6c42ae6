import Dynarec.Ir.Inst
import Dynarec.Machine.Handlers

/-!
# The meaning of blocks

What a block does to the guest, said without any machine code: its instructions are carried out
one by one on the guest context until one of them leaves the block.

Shape of the meaning: `Inst.eval` gives the state after one instruction and, if the instruction
leaves the block, how it leaves.  `Block.eval` goes through the instructions of a block and stops
at the first that leaves; no way of leaving means that the block ran past its end.  Arithmetic is
that of 32-bit words, shift amounts count modulo 32, and comparisons with zero are signed.
Instructions that have no meaning of their own are answered by the handlers.
-/

namespace Dynarec

/-- The guest as blocks see it: its context, the floating-point control word of the host, and the
state of the handlers. -/
structure Guest (σ : Type) where
  context : Context
  mxcsr : UInt32
  state : σ

/-- How control leaves a block. -/
inductive Leave where
  /-- To the block for an address. -/
  | toAddress (pc : UInt32)
  /-- To the block for the program counter, once the core has been checked. -/
  | toPc
  deriving DecidableEq, Repr

/-! ## The rounding mode -/

namespace Rounding

/-- The host control word with the rounding mode of the host. -/
def host (mxcsr : UInt32) : UInt32 :=
  mxcsr &&& ~~~Stubs.hostRoundingBits

/-- The rounding mode of the guest in the numbering of the host: one and three change places. -/
def hostMode (fcr31 : UInt32) : UInt32 :=
  let mode := fcr31 &&& 3
  if mode &&& 1 = 0 then mode else mode ^^^ 2

/-- The host control word with the rounding mode of the guest; a guest that rounds to nearest and
keeps small numbers leaves the word alone. -/
def guest (fcr31 mxcsr : UInt32) : UInt32 :=
  if fcr31 &&& Stubs.guestRoundingBits = 0 then mxcsr
  else
    host mxcsr ||| hostMode fcr31 <<< 13 |||
      (if fcr31 &&& Stubs.guestFlushToZero = 0 then 0 else Stubs.hostFlushToZero)

end Rounding

namespace Guest

variable {σ : Type}

/-- Changes the context. -/
def onContext (g : Guest σ) (f : Context → Context) : Guest σ :=
  { g with context := f g.context }

/-- Sets a register, by slot. -/
def setReg (g : Guest σ) (r : UInt8) (v : UInt32) : Guest σ :=
  g.onContext (·.setReg r v)

/-- The value of a register, by slot. -/
def reg (g : Guest σ) (r : UInt8) : UInt32 :=
  g.context.reg r

/-- Calls a handler; what it answers comes with the state after it. -/
def call (g : Guest σ) (h : Handler σ) : UInt64 × Guest σ :=
  let reply := h g.mxcsr g.context g.state
  (reply.answer, { g with context := reply.context, state := reply.state })

/-- Switches to a host control word, by way of the scratch word of the context. -/
def setMxcsr (g : Guest σ) (w : UInt32) : Guest σ :=
  { g.onContext ({ · with temp := w }) with mxcsr := w }

/-- Switches to the rounding mode of the host. -/
def restoreRounding (g : Guest σ) : Guest σ :=
  g.setMxcsr (Rounding.host g.mxcsr)

/-- Switches to the rounding mode of the guest. -/
def applyRounding (g : Guest σ) : Guest σ :=
  let fcr31 := g.context.fcr31
  if fcr31 &&& Stubs.guestRoundingBits = 0 then g
  else g.setMxcsr (Rounding.guest fcr31 g.mxcsr)

end Guest

/-! ## Instructions and blocks -/

namespace Inst

variable {σ : Type}

/-- Whether a word is below zero. -/
def isNegative (w : UInt32) : Bool :=
  0x80000000 ≤ w

/-- The amount by which a shift instruction shifts. -/
def shiftAmount (i : Inst) : UInt32 :=
  UInt32.ofNat (i.src2.toNat % 32)

/-- A right shift that keeps the sign. -/
def shiftSigned (w amount : UInt32) : UInt32 :=
  (w.toInt32 >>> amount.toInt32).toUInt32

/-- The value that an instruction on registers and constants puts into its destination. -/
def value? (i : Inst) (c : Context) : Option UInt32 :=
  let left := c.reg i.src1
  let right := c.reg i.src2
  match i.op with
  | .setConst => some i.constant
  | .mov => some left
  | .add => some (left + right)
  | .sub => some (left - right)
  | .and => some (left &&& right)
  | .or => some (left ||| right)
  | .xor => some (left ^^^ right)
  | .addConst => some (left + i.constant)
  | .subConst => some (left - i.constant)
  | .andConst => some (left &&& i.constant)
  | .orConst => some (left ||| i.constant)
  | .xorConst => some (left ^^^ i.constant)
  | .shlImm => some (left <<< i.shiftAmount)
  | .shrImm => some (left >>> i.shiftAmount)
  | .sarImm => some (shiftSigned left i.shiftAmount)
  | _ => none

/-- Whether a conditional exit is taken. -/
def taken (i : Inst) (c : Context) : Bool :=
  let left := c.reg i.src1
  match i.op with
  | .exitIfEq => left = c.reg i.src2
  | .exitIfNeq => left ≠ c.reg i.src2
  | .exitIfGtZ => !isNegative left && left ≠ 0
  | .exitIfGeZ => !isNegative left
  | .exitIfLtZ => isNegative left
  | .exitIfLeZ => isNegative left || left = 0
  | _ => false

/-- The generic handler carries out the instruction; a non-zero answer at an exit is the address
to go to. -/
def evalGeneric (h : Handlers σ) (i : Inst) (g : Guest σ) : Guest σ × Option Leave :=
  let (answer, g) := g.call (h.generic i.pack)
  let pc := answer.toUInt32
  (g, if i.op.isExit && pc ≠ 0 then some (.toAddress pc) else none)

/-- The interpreter carries out an opcode of the guest; if `notifies`, the notify handler is told
first. -/
def evalInterpret (h : Handlers σ) (notifies : Bool) (opcode : UInt32) (g : Guest σ) : Guest σ :=
  let g := if notifies then (g.call (h.notify opcode)).2 else g
  (g.call (h.interpret opcode)).2

/-- Carries out one instruction. -/
def eval (h : Handlers σ) (notifies : Bool) (i : Inst) (g : Guest σ) : Guest σ × Option Leave :=
  match i.op with
  | .nop => (g, none)
  | .setPc => (g.onContext ({ · with pc := g.reg i.src1 }), none)
  | .setPcConst => (g.onContext ({ · with pc := i.constant }), none)
  | .downcount => (g.onContext fun c => { c with downcount := c.downcount - i.constant }, none)
  | .restoreRoundingMode => (g.restoreRounding, none)
  | .applyRoundingMode => (g.applyRounding, none)
  | .interpret => (evalInterpret h notifies i.constant g, none)
  | .exitToConst => (g, some (.toAddress i.constant))
  | .exitToReg => (g, some (.toAddress (g.reg i.src1)))
  | .exitToPc => (g, some .toPc)
  | .exitIfEq | .exitIfNeq | .exitIfGtZ | .exitIfGeZ | .exitIfLtZ | .exitIfLeZ =>
    (g, if i.taken g.context then some (.toAddress i.constant) else none)
  | .load32 | .store32 | .fadd | .fmul | .updateRoundingMode | .callReplacement | .syscall
  | .trap => evalGeneric h i g
  | _ =>
    match i.value? g.context with
    | some v => (g.setReg i.dest v, none)
    | none => (g, none)

/-- Carries out instructions up to the first that leaves. -/
def evalList (h : Handlers σ) (notifies : Bool) :
    List Inst → Guest σ → Guest σ × Option Leave
  | [], g => (g, none)
  | i :: is, g =>
    match i.eval h notifies g with
    | (g, some leave) => (g, some leave)
    | (g, none) => evalList h notifies is g

end Inst

namespace Block

variable {σ : Type}

/-- Carries out a block; no way of leaving means that it ran past its end. -/
def eval (h : Handlers σ) (notifies : Bool) (b : Block) (g : Guest σ) : Guest σ × Option Leave :=
  Inst.evalList h notifies b.insts g

end Block

end Dynarec
