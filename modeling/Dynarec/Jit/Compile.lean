import Dynarec.Jit.Basic
import Dynarec.X64.Listing

/-!
# Compiling a block

Shape of a compiled block: with forward checks it starts with a guard that tests the downcount and
goes to the outer loop when the budget is spent; the guard is the checked entry.  Then comes the
body, which is at least as long as the code that later redirects it.  With back jumps the guard
stands behind the body and jumps back to it; without linking there is no guard, and the checked
entry is the end of the block.

Code goes into the cache one instruction at a time.  Before a block is started and after every
instruction, enough space must be left for whatever comes next; so a block that does not fit is
noticed before it runs over the end.
-/

namespace Dynarec

namespace Jit

/-- The least number of bytes of the body of a block. -/
def minBodyLen : Nat := 16

/-- The number of free bytes below which nothing more is compiled. -/
def safetyMargin : Nat := 0x800

/-- Fails when too little space is left. -/
def checkMargin : Action Jit Unit := do
  let remaining := (← get).code.remaining
  if remaining < safetyMargin then throw (.codeSpaceExhausted remaining safetyMargin)

/-- Turns the labels of the exits in a piece into offsets and stages the exits. -/
def stageExits : List (DraftExit × UInt64) → Action Jit Unit
  | [] => return ()
  | (e, address) :: rest => do
    match (← get).code.offsetOf? address with
    | none => throw (.encoding .unplacedLabel)
    | some offset =>
      note (.exitSite e.dest offset e.len)
      modify fun j =>
        { j with
          draft :=
            { j.draft with
              staged := j.draft.staged ++ [{ dest := e.dest, offset, len := e.len }] } }
      stageExits rest

/-- Assembles the items of the draft at an address, with the addresses of the wanted labels, and
empties its assembler, also when that fails. -/
def assembleAt (address : UInt64) (wanted : List Label) : Action Jit Assembled := do
  let j ← get
  let (result, asm) := j.draft.asm.assemble address wanted
  set { j with draft := { j.draft with asm } }
  Action.ofExcept (result.mapError JitError.encoding)

/-- Assembles the current piece at the cursor. -/
def assembleDraft : Action Jit Assembled := do
  let j ← get
  assembleAt j.code.cursorAddress (j.draft.pieceExits.map DraftExit.label)

/-- Moves the current piece of code into the cache. -/
def flushPiece : Action Jit Unit := do
  if (← get).draft.asm.isEmpty then return ()
  let code ← assembleDraft
  let _ ← onCode (CodeCache.append code.bytes)
  let exits := (← get).draft.pieceExits
  modify fun j => { j with draft := { j.draft with pieceExits := [] } }
  stageExits (exits.zip code.labels)

/-- Leaves for the outer loop with the start address of the block. -/
def spentBudget (env : LowerEnv) (start : UInt32) : List Insn :=
  [.mov32i Gpr.scratch start, .jmp env.stubs.outerLoopPc]

/-- Emits the guard in front of a body. -/
def frontGuard (env : LowerEnv) (start : UInt32) : Emit Unit := do
  let body ← Emit.newLabel
  Emit.insns [testDowncount env.config.staticAlloc, .jcc .notSign body.symbol]
  Emit.insns (spentBudget env start)
  Emit.place body

/-- Emits the guard behind a body that starts at an address. -/
def backGuard (env : LowerEnv) (start : UInt32) (body : UInt64) : Emit Unit :=
  Emit.insns ([testDowncount env.config.staticAlloc, .jcc .notSign body] ++ spentBudget env start)

/-- Emits the report of a block that runs past its end. -/
def missingExitGuard (env : LowerEnv) : Emit Unit :=
  Emit.insns
    [.mov64i Gpr.scratch env.table.noBlockExits, .callReg Gpr.scratch, .jmp env.stubs.crash]

/-- Emits the code of one instruction and moves it into the cache. -/
def compileInst (env : LowerEnv) (index : Nat) (i : Inst) : Action Jit Unit := do
  modify fun j => { j with draft := { j.draft with regs := j.draft.regs.setIndex index } }
  let place := (← get).code.cursorAddress
  onDraft (Lower.inst { env with measure := Assembler.measureAt place } i)
  if env.config.noGprCache then onDraft Emit.flushAll
  flushPiece

/-- The range of code of an instruction. -/
structure InstCode where
  inst : Inst
  start : Nat
  stop : Nat
  deriving DecidableEq, Repr

/-- Compiles instructions, the first of which is at a position of the block. -/
def compileInsts (env : LowerEnv) : (index : Nat) → List Inst → Action Jit (List InstCode)
  | _, [] => return []
  | index, i :: is => do
    let start := (← get).code.cursor
    compileInst env index i
    let stop := (← get).code.cursor
    checkMargin
    let rest ← compileInsts env (index + 1) is
    return { inst := i, start, stop } :: rest

/-- Lists the code of a block. -/
def listBlock (start : UInt32) (target : Nat) (code : List InstCode) : Action Jit Unit := do
  let cache := (← get).code
  note (.listingHeader start (cache.cursor - target))
  code.forM fun c => do
    note (.listingInst c.inst)
    (disassemble (CodeCache.addressOf c.start) (cache.bytes c.start (c.stop - c.start))).forM
      fun line => note (.listingLine line)

/-- Pads a body that starts at an offset to the least length of a body. -/
def padBody (target : Nat) : Action Jit Unit := do
  let len := (← get).code.cursor - target
  if len < minBodyLen then
    let _ ← onCode (CodeCache.append (List.replicate (minBodyLen - len) 0xcc))

/-- Emits a piece of code and moves it into the cache, if it is wanted. -/
def emitWhen (wanted : Bool) (x : Emit Unit) : Action Jit Unit :=
  if wanted then do
    onDraft x
    flushPiece
  else return ()

/-- Lists the code of a block, if it is one of those that are to be listed. -/
def listWhen (wanted : Bool) (start : UInt32) (target : Nat) (code : List InstCode) :
    Action Jit Unit := do
  let count := (← get).logBlocks
  if 0 < count && wanted then
    modify fun j => { j with logBlocks := count - 1 }
    listBlock start target code

/-- Writes the code of a block at the cursor, inside an open window. -/
def writeBlock (b : Block) (preload : Bool) : Action Jit Native := do
  let env := (← get).lowerEnv
  let front := (← get).code.cursor
  emitWhen env.config.usesForwardCheck (frontGuard env b.start)
  let target := (← get).code.cursor
  modify fun j => { j with draft := { j.draft with regs := j.draft.regs.start b.insts } }
  let code ← compileInsts env 0 b.insts
  emitWhen env.config.diagnostics (missingExitGuard env)
  padBody target
  let back := (← get).code.cursor
  emitWhen env.config.usesBackJump (backGuard env b.start (CodeCache.addressOf target))
  listWhen (!preload) b.start target code
  return { target, checked := if env.config.usesForwardCheck then front else back }

/-- Installs the code of a block: its entries and its staged exits replace those of any earlier
code of it. -/
def install (num : Nat) (n : Native) (j : Jit) : Jit :=
  let links := (j.links.eraseBlock num).setNative num n
  let exits := j.draft.staged.map fun e =>
    { owner := num, dest := e.dest, offset := e.offset, len := e.len : Exit }
  { j with
    blocks := j.blocks.setTarget num n.target
    links := exits.foldl Links.addExit links }

/-- Ends the work on a draft. -/
def dropDraft (j : Jit) : Jit :=
  { j with draft := .idle j.config.staticAlloc }

/-- Compiles a block.  If that fails, nothing but unused code behind the old cursor is left of the
attempt. -/
def compileBlock (num : Nat) (preload : Bool) : Action Jit Unit := do
  let j ← get
  match j.blocks.get? num with
  | none => throw (.unknownBlock num)
  | some entry =>
    let remaining := j.code.remaining
    if remaining < safetyMargin then
      note (.nearlyExhausted remaining num)
      throw (.codeSpaceExhausted remaining safetyMargin)
    modify fun j => { j with draft := { j.draft with block := some num } }
    Action.andFinally (do
      let native ← inWindow CodeCache.openAppend (writeBlock entry.block preload)
      modify (install num native)
      note (.compiled num entry.block.start native.target native.checked
        ((← get).code.cursor - native.low))) dropDraft

end Jit

end Dynarec
