import Dynarec.Lower.Draft
import Dynarec.Lower.Stubs

/-!
# Machine code for instructions

`Lower.inst` emits the machine code of one instruction.  Arithmetic works on host registers;
everything that leaves the block or calls a handler first sends all guest registers back to
memory.  Instructions without code of their own are packed into a word and handed to the generic
handler.
-/

namespace Dynarec

namespace Lower

/-- The number of bytes of instructions. -/
def codeSize : List Insn → Nat
  | [] => 0
  | i :: is => i.size + codeSize is

end Lower

/-- What the code of a block depends on besides its instructions. -/
structure LowerEnv where
  config : Config
  table : HandlerTable
  stubs : Stubs
  /-- The checked entry of the compiled block that stands for a guest address. -/
  linked : UInt32 → Option UInt64
  /-- The number of bytes of code on its own.  While a block is compiled, it is found by assembling
  the code where the current piece will be. -/
  measure : List Insn → Except EncodingError Nat := fun is => .ok (Lower.codeSize is)

/-- The least number of bytes of an exit site. -/
def exitSiteLen : Nat := 16

namespace Lower

open Emit

/-- The jump of an exit: straight to a checked entry, or to the dispatcher with the guest address
in the scratch register. -/
def exitJump (stubs : Stubs) (pc : UInt32) : Option UInt64 → List Insn
  | some target => [.jmp target]
  | none => [.mov32i Gpr.scratch pc, .jmp stubs.dispatcherPc]

/-- Emits an exit to a guest address.  With linking the exit becomes a site that can be patched
later. -/
def exitTo (env : LowerEnv) (pc : UInt32) : Emit Unit := do
  let link := env.config.blockLink
  let jump := exitJump env.stubs pc (if link then env.linked pc else none)
  let site ← newLabel
  place site
  insns jump
  if link then
    let len ← Action.ofExcept (env.measure jump)
    padding (exitSiteLen - len)
    modify fun d =>
      { d with
        pieceExits := d.pieceExits ++ [{ label := site, dest := pc, len := max len exitSiteLen }] }

/-- Emits arithmetic on two registers. -/
def binary (op : Alu) (i : Inst) : Emit Unit := do
  let left ← mapReg i.src1 .read
  let right ← mapReg i.src2 .read
  if i.dest = i.src1 then
    let dest ← mapReg i.dest .readWrite
    insn (.alu32 op dest right)
  else if i.dest ≠ i.src2 then
    let dest ← mapReg i.dest .write
    insns [.mov32 dest left, .alu32 op dest right]
  else
    insns [.mov32 Gpr.scratch left, .alu32 op Gpr.scratch right]
    let dest ← mapReg i.dest .write
    insn (.mov32 dest Gpr.scratch)

/-- Maps the destination, holding the value of the first source. -/
def destFromSrc1 (i : Inst) : Emit Gpr := do
  if i.dest = i.src1 then mapReg i.dest .readWrite
  else
    let src ← mapReg i.src1 .read
    let dest ← mapReg i.dest .write
    insn (.mov32 dest src)
    return dest

/-- Emits arithmetic on a register and the constant. -/
def binaryConst (op : Alu) (i : Inst) : Emit Unit := do
  let dest ← destFromSrc1 i
  insn (.alu32i op dest i.constant)

/-- Emits a shift by the second source slot modulo 32. -/
def shiftImm (op : Shift) (i : Inst) : Emit Unit := do
  let dest ← destFromSrc1 i
  insn (.shift32 op dest ⟨i.src2.toNat % 32, Nat.mod_lt _ (by decide)⟩)

/-- Emits a call of a fixed routine, if it is there. -/
def callIf : Option UInt64 → Emit Unit
  | some stub => insn (.call stub)
  | none => return ()

/-- The call of a handler with the context and a second argument. -/
def handlerCall (second : Insn) (address : UInt64) : List Insn :=
  [.mov64 Gpr.arg1 Gpr.context, second, .mov64i Gpr.scratch address, .callReg Gpr.scratch]

/-- Emits a call of the generic handler; a non-zero answer at an exit is the guest address to go
to. -/
def generic (env : LowerEnv) (i : Inst) : Emit Unit := do
  flushAll
  callIf env.stubs.saveStatic
  insns (handlerCall (.mov64i Gpr.arg2 i.pack) env.table.generic)
  callIf env.stubs.loadStatic
  if i.op.isExit then
    insns [.test32 Gpr.scratch Gpr.scratch, .jcc .notEqual env.stubs.dispatcherPc]

/-- Emits a call of the interpreter for the constant; with diagnostics the notify handler is told
first. -/
def interpret (env : LowerEnv) (i : Inst) : Emit Unit := do
  flushAll
  callIf env.stubs.saveStatic
  let opcode := Insn.mov32i Gpr.arg2 i.constant
  match env.config.diagnostics, env.table.notify with
  | true, some notify => insns (handlerCall opcode notify)
  | _, _ => pure ()
  insns (handlerCall opcode (env.table.interpret i.constant))
  callIf env.stubs.loadStatic

/-- What a conditional exit compares its first source with. -/
inductive Against where
  | src2
  | zero
  deriving DecidableEq, Repr

/-- Emits a conditional exit to the constant. -/
def exitIf (env : LowerEnv) (against : Against) (taken : Cond) (i : Inst) : Emit Unit := do
  let left ← mapReg i.src1 .read
  let compare ←
    match against with
    | .src2 => do
      let right ← mapReg i.src2 .read
      pure (Insn.alu32 .cmp left right)
    | .zero => pure (Insn.alu32i .cmp left 0)
  flushAll
  insn compare
  let skip ← newLabel
  insn (.jcc taken.invert skip.symbol)
  exitTo env i.constant
  place skip

/-- Emits the code of one instruction. -/
def inst (env : LowerEnv) (i : Inst) : Emit Unit :=
  match i.op with
  | .nop => return ()
  | .setConst => do
    let dest ← mapReg i.dest .write
    insn (.mov32i dest i.constant)
  | .mov =>
    if i.dest = i.src1 then return ()
    else do
      let src ← mapReg i.src1 .read
      let dest ← mapReg i.dest .write
      insn (.mov32 dest src)
  | .add => binary .add i
  | .sub => binary .sub i
  | .and => binary .and i
  | .or => binary .or i
  | .xor => binary .xor i
  | .addConst => binaryConst .add i
  | .subConst => binaryConst .sub i
  | .andConst => binaryConst .and i
  | .orConst => binaryConst .or i
  | .xorConst => binaryConst .xor i
  | .shlImm => shiftImm .shl i
  | .shrImm => shiftImm .shr i
  | .sarImm => shiftImm .sar i
  | .setPc => do
    let src ← mapReg i.src1 .read
    insn (.store32 (contextWord Context.pcOffset) src)
  | .setPcConst => insn (.store32i (contextWord Context.pcOffset) i.constant)
  | .downcount =>
    insn (if env.config.staticAlloc then .alu32i .sub Gpr.downcount i.constant
      else .alu32mi .sub (contextWord Context.downcountOffset) i.constant)
  | .restoreRoundingMode => insn (.call env.stubs.restoreRounding)
  | .applyRoundingMode => insn (.call env.stubs.applyRounding)
  | .interpret => interpret env i
  | .exitToConst => do
    flushAll
    exitTo env i.constant
  | .exitToReg => do
    let src ← mapReg i.src1 .read
    insn (.mov32 Gpr.scratch src)
    flushAll
    insn (.jmp env.stubs.dispatcherPc)
  | .exitToPc => do
    flushAll
    insn (.jmp env.stubs.checkCoreState)
  | .exitIfEq => exitIf env .src2 .equal i
  | .exitIfNeq => exitIf env .src2 .notEqual i
  | .exitIfGtZ => exitIf env .zero .greater i
  | .exitIfGeZ => exitIf env .zero .greaterEqual i
  | .exitIfLtZ => exitIf env .zero .less i
  | .exitIfLeZ => exitIf env .zero .lessEqual i
  | .load32 | .store32 | .fadd | .fmul | .updateRoundingMode | .callReplacement | .syscall
  | .trap => generic env i

end Lower

end Dynarec
