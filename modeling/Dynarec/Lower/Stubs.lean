import Dynarec.Code.Cache
import Dynarec.Guest.Context
import Dynarec.X64.Assembler

/-!
# The fixed routines

Shape of the fixed code: before any block, the code cache holds the routines that all blocks
share.

* Two routines move the downcount between its register and memory; they exist only when the
  downcount is kept in a register.
* Two routines switch the rounding mode of the host off and to that of the guest.
* The *dispatcher* enters compiled code and comes back to it after every block.  The *outer loop*
  asks the platform to advance time and is entered whenever the budget is spent; then the core
  state is checked; then the block for the program counter is looked up and jumped to.
* *Quit* restores the registers of the caller and returns; the *crash handler* marks the core as
  failed and quits.

Blocks start on the page after the routines.
-/

namespace Dynarec

/-- The addresses of the handlers that compiled code calls. -/
structure HandlerTable where
  /-- Carries out an instruction that has no code of its own. -/
  generic : UInt64
  /-- The interpreter for an opcode of the guest. -/
  interpret : UInt32 → UInt64
  /-- Is told about every interpreted opcode. -/
  notify : Option UInt64 := none
  /-- Advances time. -/
  advance : UInt64
  /-- Finds the code for the program counter. -/
  resolve : UInt64
  /-- Is told about a block that runs past its end. -/
  noBlockExits : UInt64

/-- A word of the guest context as a memory operand. -/
def contextWord (offset : Nat) : Mem :=
  { base := Gpr.context, disp := UInt32.ofNat offset }

/-- Compares the downcount with zero. -/
def testDowncount (staticAlloc : Bool) : Insn :=
  if staticAlloc then .test32 Gpr.downcount Gpr.downcount
  else .alu32mi .cmp (contextWord Context.downcountOffset) 0

/-- The addresses of the fixed routines. -/
structure Stubs where
  saveStatic : Option UInt64
  loadStatic : Option UInt64
  restoreRounding : UInt64
  applyRounding : UInt64
  enter : UInt64
  /-- The outer loop, with the program counter in the scratch register. -/
  outerLoopPc : UInt64
  outerLoop : UInt64
  checkCoreState : UInt64
  /-- The dispatcher, with the program counter in the scratch register. -/
  dispatcherPc : UInt64
  dispatcher : UInt64
  dispatcherNoCheck : UInt64
  quit : UInt64
  crash : UInt64
  /-- Where the routines start. -/
  start : UInt64
  /-- Where the routines end. -/
  stop : UInt64
  /-- The offset from which on blocks are written. -/
  blocksStart : Nat
  deriving DecidableEq, Repr

namespace Stubs

/-- The control bits of the host that hold the rounding mode and flushing to zero. -/
def hostRoundingBits : UInt32 := 0xe000

/-- The control bit of the host for flushing to zero. -/
def hostFlushToZero : UInt32 := 0x8000

/-- The control bits of the guest that hold the rounding mode and flushing to zero. -/
def guestRoundingBits : UInt32 := 0x01000003

/-- The control bit of the guest for flushing to zero. -/
def guestFlushToZero : UInt32 := 0x01000000

/-! ## Labels of the routines and of the jumps inside them -/

namespace Routine

def saveStatic : Label := ⟨1⟩
def loadStatic : Label := ⟨2⟩
def restoreRounding : Label := ⟨3⟩
def applyRounding : Label := ⟨4⟩
def enter : Label := ⟨5⟩
def outerLoopPc : Label := ⟨6⟩
def outerLoop : Label := ⟨7⟩
def checkCoreState : Label := ⟨8⟩
def dispatcherPc : Label := ⟨9⟩
def dispatcher : Label := ⟨10⟩
def dispatcherNoCheck : Label := ⟨11⟩
def bail : Label := ⟨12⟩
def quit : Label := ⟨13⟩
def crash : Label := ⟨14⟩
def skip : Label := ⟨15⟩
def keepMode : Label := ⟨16⟩
def noFlush : Label := ⟨17⟩

end Routine

/-- An instruction as an item. -/
def op (i : Insn) : Item := .insn i

/-- Calls a fixed routine. -/
def callStub (l : Label) : Item := .insn (.call l.symbol)

/-- Jumps to a fixed routine. -/
def jumpStub (l : Label) : Item := .insn (.jmp l.symbol)

/-- Jumps to a fixed routine on a condition. -/
def branchStub (c : Cond) (l : Label) : Item := .insn (.jcc c l.symbol)

/-- Moves the downcount to memory, if it is kept in a register. -/
def callSave (staticAlloc : Bool) : List Item :=
  if staticAlloc then [callStub Routine.saveStatic] else []

/-- Moves the downcount to its register, if it is kept in one. -/
def callLoad (staticAlloc : Bool) : List Item :=
  if staticAlloc then [callStub Routine.loadStatic] else []

/-- The routines that move the downcount. -/
def staticItems : List Item :=
  [.mark Routine.saveStatic,
   op (.store32 (contextWord Context.downcountOffset) Gpr.downcount),
   op .ret,
   .mark Routine.loadStatic,
   op (.load32 Gpr.downcount (contextWord Context.downcountOffset)),
   op .ret]

/-- The routines that switch the rounding mode. -/
def roundingItems : List Item :=
  [.mark Routine.restoreRounding,
   op (.stmxcsr (contextWord Context.tempOffset)),
   op (.alu32mi .and (contextWord Context.tempOffset) (~~~ hostRoundingBits)),
   op (.ldmxcsr (contextWord Context.tempOffset)),
   op .ret,
   .mark Routine.applyRounding,
   op (.load32 Gpr.scratch (contextWord Context.fcr31Offset)),
   op (.alu32i .and Gpr.scratch guestRoundingBits),
   branchStub .equal Routine.skip,
   op (.stmxcsr (contextWord Context.tempOffset)),
   op (.test8i Gpr.scratch 1),
   branchStub .equal Routine.keepMode,
   op (.alu32i .xor Gpr.scratch 2),
   .mark Routine.keepMode,
   op (.shift32 .shl Gpr.scratch 13),
   op (.alu32mi .and (contextWord Context.tempOffset) (~~~ hostRoundingBits)),
   op (.alu32m .or (contextWord Context.tempOffset) Gpr.scratch),
   op (.test32mi (contextWord Context.fcr31Offset) guestFlushToZero),
   branchStub .equal Routine.noFlush,
   op (.alu32mi .or (contextWord Context.tempOffset) hostFlushToZero),
   .mark Routine.noFlush,
   op (.ldmxcsr (contextWord Context.tempOffset)),
   .mark Routine.skip,
   op .ret]

/-- The way into compiled code and the outer loop. -/
def enterItems (staticAlloc : Bool) (advance : UInt64) : List Item :=
  [.mark Routine.enter] ++
  Gpr.calleeSaved.map (fun r => op (.push r)) ++
  [op (.alu64i .sub Gpr.rsp 8),
   op (.mov64 Gpr.context Gpr.arg1)] ++
  callLoad staticAlloc ++
  [op (.load32 Gpr.scratch (contextWord Context.pcOffset)),
   .mark Routine.outerLoopPc,
   op (.store32 (contextWord Context.pcOffset) Gpr.scratch),
   .mark Routine.outerLoop] ++
  callSave staticAlloc ++
  [callStub Routine.restoreRounding,
   op (.mov64 Gpr.arg1 Gpr.context),
   op (.mov64i Gpr.scratch advance),
   op (.callReg Gpr.scratch),
   callStub Routine.applyRounding] ++
  callLoad staticAlloc ++
  [.mark Routine.checkCoreState,
   op (.alu32mi .cmp (contextWord Context.coreStateOffset) 0),
   branchStub .notEqual Routine.quit,
   op (testDowncount staticAlloc),
   branchStub .sign Routine.outerLoop,
   jumpStub Routine.dispatcherNoCheck]

/-- The dispatcher. -/
def dispatcherItems (staticAlloc : Bool) (resolve : UInt64) : List Item :=
  [.mark Routine.dispatcherPc,
   op (.store32 (contextWord Context.pcOffset) Gpr.scratch),
   .mark Routine.dispatcher,
   op (testDowncount staticAlloc),
   branchStub .sign Routine.bail,
   .mark Routine.dispatcherNoCheck,
   callStub Routine.restoreRounding] ++
  callSave staticAlloc ++
  [op (.mov64 Gpr.arg1 Gpr.context),
   op (.mov64i Gpr.scratch resolve),
   op (.callReg Gpr.scratch)] ++
  callLoad staticAlloc ++
  [op (.mov64 Gpr.scratch2 Gpr.scratch),
   callStub Routine.applyRounding,
   op (.test64 Gpr.scratch2 Gpr.scratch2),
   branchStub .equal Routine.quit,
   op (.jmpReg Gpr.scratch2),
   .mark Routine.bail,
   op (.alu32mi .cmp (contextWord Context.coreStateOffset) 0),
   branchStub .equal Routine.outerLoop]

/-- The ways out of compiled code. -/
def quitItems (staticAlloc : Bool) : List Item :=
  [.mark Routine.quit] ++
  callSave staticAlloc ++
  [callStub Routine.restoreRounding,
   op (.alu64i .add Gpr.rsp 8)] ++
  Gpr.calleeSaved.reverse.map (fun r => op (.pop r)) ++
  [op .ret,
   .mark Routine.crash,
   op (.store32i (contextWord Context.coreStateOffset) Context.coreRuntimeError),
   jumpStub Routine.quit]

/-- All fixed routines. -/
def items (staticAlloc : Bool) (table : HandlerTable) : List Item :=
  (if staticAlloc then staticItems else []) ++ roundingItems ++
    enterItems staticAlloc table.advance ++ dispatcherItems staticAlloc table.resolve ++
    quitItems staticAlloc

/-- The addresses of the routines when they are assembled at `start`.  Every label that is asked
for here has a place among the items. -/
def locate (start : UInt64) (staticAlloc : Bool) (table : HandlerTable) (blocksStart : Nat) :
    Stubs :=
  let items := items staticAlloc table
  let placed := Item.layout 0 items
  let address (l : Label) : UInt64 :=
    start + UInt64.ofNat ((Item.offsetOf? placed l.symbol).getD 0)
  { saveStatic := if staticAlloc then some (address Routine.saveStatic) else none
    loadStatic := if staticAlloc then some (address Routine.loadStatic) else none
    restoreRounding := address Routine.restoreRounding
    applyRounding := address Routine.applyRounding
    enter := address Routine.enter
    outerLoopPc := address Routine.outerLoopPc
    outerLoop := address Routine.outerLoop
    checkCoreState := address Routine.checkCoreState
    dispatcherPc := address Routine.dispatcherPc
    dispatcher := address Routine.dispatcher
    dispatcherNoCheck := address Routine.dispatcherNoCheck
    quit := address Routine.quit
    crash := address Routine.crash
    start
    stop := start + UInt64.ofNat (items.foldl (fun n item => n + item.size) 0)
    blocksStart }

/-- Writes the fixed routines at the cursor, inside an open window. -/
def write (config : Config) (table : HandlerTable) : Action CodeCache Stubs := do
  let start := (← get).cursorAddress
  let items := items config.staticAlloc table
  let code ← Action.ofExcept ((Assembler.assembleItems items start []).mapError JitError.encoding)
  let _ ← CodeCache.append code.bytes
  CodeCache.alignToPage
  let blocksStart := (← get).position.toNat
  modify (CodeCache.note (.stubsGenerated code.bytes.length blocksStart))
  return locate start config.staticAlloc table blocksStart

/-- Writes the fixed routines at the cursor. -/
def generate (config : Config) (table : HandlerTable) : Action CodeCache Stubs := do
  let window ← CodeCache.openAppend
  Action.andFinally (write config table) (CodeCache.closeWindow window)

/-- The routines with their names. -/
def named (s : Stubs) : List (UInt64 × String) :=
  [(s.restoreRounding, "restoreRoundingMode"),
   (s.applyRounding, "applyRoundingMode"),
   (s.enter, "enterDispatcher"),
   (s.outerLoopPc, "outerLoopPCInSCRATCH1"),
   (s.outerLoop, "outerLoop"),
   (s.checkCoreState, "dispatcherCheckCoreState"),
   (s.dispatcherPc, "dispatcherPCInSCRATCH1"),
   (s.dispatcher, "dispatcher"),
   (s.dispatcherNoCheck, "dispatcherNoCheck"),
   (s.quit, "quitLoop"),
   (s.crash, "crashHandler")] ++
  (s.saveStatic.map fun a => (a, "saveStaticRegisters")).toList ++
  (s.loadStatic.map fun a => (a, "loadStaticRegisters")).toList

/-- Whether an address lies in the fixed routines. -/
def contains (s : Stubs) (address : UInt64) : Bool :=
  s.start ≤ address && address < s.stop

/-- The name of the routine that an address lies in: the last one that starts at or before it. -/
def describe (s : Stubs) (address : UInt64) : Option String :=
  if s.contains address then
    (((s.named.filter fun p => p.1 ≤ address).foldl
      (fun best p =>
        match best with
        | some b => if b.1 ≤ p.1 then some p else some b
        | none => some p)
      none).map (·.2))
  else none

end Stubs

end Dynarec
