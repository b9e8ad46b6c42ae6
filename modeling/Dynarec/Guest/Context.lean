/-!
# The guest context

The state of the guest between two blocks: registers, program counter, the downcount (how many
more cycles may run, a signed word), the floating-point control word, a scratch word and the state
of the core.

Shape in memory: the context is a run of 32-bit words, all registers first.  `Context.load?` and
`Context.store?` are the view of the context as memory; an offset that is not the offset of a word
of the context is not in it.
-/

namespace Dynarec

/-- The number of general-purpose and of floating-point registers of the guest. -/
def guestRegs : Nat := 32

/-- The state of the guest.  The downcount is a word in two's complement; floating-point registers
are kept as their bits. -/
structure Context where
  gpr : Vector UInt32 32 := Vector.replicate 32 0
  fpr : Vector UInt32 32 := Vector.replicate 32 0
  pc : UInt32 := 0
  downcount : UInt32 := 0
  fcr31 : UInt32 := 0
  temp : UInt32 := 0
  coreState : UInt32 := 0
  deriving DecidableEq, Repr, Inhabited

namespace Context

/-- The core runs. -/
def coreRunning : UInt32 := 0

/-- The core has been asked to stop. -/
def coreStepping : UInt32 := 1

/-- The core has met an error at run time. -/
def coreRuntimeError : UInt32 := 2

/-- The register number that a slot names. -/
def regIndex (r : UInt8) : Fin 32 :=
  ⟨r.toNat % 32, Nat.mod_lt _ (by decide)⟩

/-- The offset of a general-purpose register. -/
def gprOffset (r : UInt8) : Nat := r.toNat % 32 * 4

/-- The offset of a floating-point register. -/
def fprOffset (r : UInt8) : Nat := 128 + r.toNat % 32 * 4

/-- The offset of the program counter. -/
def pcOffset : Nat := 256

/-- The offset of the downcount. -/
def downcountOffset : Nat := 260

/-- The offset of the floating-point control word. -/
def fcr31Offset : Nat := 264

/-- The offset of the scratch word. -/
def tempOffset : Nat := 268

/-- The offset of the state of the core. -/
def coreStateOffset : Nat := 272

/-- The number of bytes of a context. -/
def byteSize : Nat := 276

/-- The word at an offset. -/
def load? (c : Context) (offset : Nat) : Option UInt32 :=
  if offset % 4 ≠ 0 then none
  else if h : offset / 4 < 32 then some (c.gpr.get ⟨offset / 4, h⟩)
  else if h : offset / 4 - 32 < 32 then some (c.fpr.get ⟨offset / 4 - 32, h⟩)
  else if offset = pcOffset then some c.pc
  else if offset = downcountOffset then some c.downcount
  else if offset = fcr31Offset then some c.fcr31
  else if offset = tempOffset then some c.temp
  else if offset = coreStateOffset then some c.coreState
  else none

/-- The context with the word at an offset replaced. -/
def store? (c : Context) (offset : Nat) (v : UInt32) : Option Context :=
  if offset % 4 ≠ 0 then none
  else if h : offset / 4 < 32 then some { c with gpr := c.gpr.set (offset / 4) v h }
  else if h : offset / 4 - 32 < 32 then some { c with fpr := c.fpr.set (offset / 4 - 32) v h }
  else if offset = pcOffset then some { c with pc := v }
  else if offset = downcountOffset then some { c with downcount := v }
  else if offset = fcr31Offset then some { c with fcr31 := v }
  else if offset = tempOffset then some { c with temp := v }
  else if offset = coreStateOffset then some { c with coreState := v }
  else none

/-- The value of a general-purpose register, by slot. -/
def reg (c : Context) (r : UInt8) : UInt32 :=
  c.gpr.get (regIndex r)

/-- The context with a general-purpose register replaced, by slot. -/
def setReg (c : Context) (r : UInt8) (v : UInt32) : Context :=
  { c with gpr := c.gpr.set (regIndex r).val v }

/-- Whether the downcount is below zero. -/
def outOfBudget (c : Context) : Bool :=
  0x80000000 ≤ c.downcount

/-- A fresh context at an address with a budget. -/
def fresh (pc downcount : UInt32) : Context :=
  { pc, downcount }

end Context

end Dynarec
