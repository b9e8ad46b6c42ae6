import Dynarec.Lower.RegMap

/-!
# Code under construction

A draft is what exists of a block while it is being compiled: the items of the current piece of
code, the map of guest registers, the exits in the current piece, and the exits in the pieces that
are already in the code cache.  When nothing is being compiled the draft is idle.
-/

namespace Dynarec

/-- An exit in the current piece of code, known by its label. -/
structure DraftExit where
  label : Label
  dest : UInt32
  len : Nat
  deriving DecidableEq, Repr

/-- An exit in code that is already in the code cache. -/
structure StagedExit where
  dest : UInt32
  offset : Nat
  len : Nat
  deriving DecidableEq, Repr

/-- The code of a block under construction. -/
structure Draft where
  /-- The block that is being compiled. -/
  block : Option Nat := none
  asm : Assembler := .empty
  regs : RegMap
  /-- The exits in the current piece. -/
  pieceExits : List DraftExit := []
  /-- The exits in the pieces before. -/
  staged : List StagedExit := []
  deriving DecidableEq, Repr

namespace Draft

/-- The draft when nothing is being compiled. -/
def idle (staticAlloc : Bool) : Draft :=
  { regs := .create staticAlloc }

end Draft

/-- An action that emits code into a draft. -/
abbrev Emit := EStateM EncodingError Draft

namespace Emit

/-- Appends an instruction. -/
def insn (i : Insn) : Emit Unit :=
  modify fun d => { d with asm := d.asm.emit i }

/-- Appends instructions. -/
def insns (is : List Insn) : Emit Unit :=
  modify fun d => { d with asm := is.foldl Assembler.emit d.asm }

/-- Appends padding. -/
def padding (count : Nat) : Emit Unit :=
  modify fun d => { d with asm := d.asm.pad count }

/-- Hands out a label. -/
def newLabel : Emit Label :=
  modifyGet fun d =>
    let (l, asm) := d.asm.newLabel
    (l, { d with asm })

/-- Places a label. -/
def place (l : Label) : Emit Unit := do
  let d ← get
  match d.asm.place l with
  | .ok asm => set { d with asm }
  | .error e => throw e

/-- Puts the guest register that a slot names into a host register. -/
def mapReg (slot : UInt8) (mode : MapMode) : Emit Gpr := do
  let d ← get
  let (r, regs, code) := d.regs.map (RegMap.guestOf slot) mode
  set { d with regs }
  insns code
  match r with
  | .ok r => return r
  | .error e => throw e

/-- Sends all guest registers back to memory. -/
def flushAll : Emit Unit := do
  let d ← get
  let (regs, code) := d.regs.flushAll
  set { d with regs }
  insns code

end Emit

end Dynarec
