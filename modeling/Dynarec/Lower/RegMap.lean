import Dynarec.Guest.Context
import Dynarec.Ir.Inst
import Dynarec.X64.Assembler

/-!
# Guest registers in host registers

While a block is compiled, guest registers live in host registers for as long as there is room.

Shape of the map: every host register that may be handed out is free or holds one guest register,
and then `dirty` says whether memory is behind.  `guest` is the inverse of `host`.  The registers
used by the current instruction are locked.  When no register is free, the guest register that is
used again last, among those that are not locked, goes back to memory; between equals the one
first met from the clock hand on loses, and the hand moves on by one.

Every operation gives the new map and the code that has to be emitted for it.
-/

namespace Dynarec

/-- A guest register, by its number. -/
abbrev GuestReg := Fin 32

/-- What an instruction does with a register that it maps. -/
inductive MapMode where
  | read
  | write
  | readWrite
  deriving DecidableEq, Repr

namespace MapMode

/-- Whether the old value is needed. -/
def reads : MapMode → Bool
  | write => false
  | _ => true

/-- Whether a new value is made. -/
def writes : MapMode → Bool
  | read => false
  | _ => true

end MapMode

/-- What a host register holds. -/
structure HostSlot where
  guest : Option GuestReg := none
  dirty : Bool := false
  deriving DecidableEq, Repr

/-- Which guest registers are in which host registers. -/
structure RegMap where
  /-- The host registers that may be handed out, in the order of preference. -/
  allocatable : List Gpr
  host : Vector HostSlot 16 := Vector.replicate 16 {}
  guest : Vector (Option Gpr) 32 := Vector.replicate 32 none
  /-- The registers that the current instruction uses. -/
  locked : RegSet := .empty
  /-- Where the search for a register to take away starts. -/
  clock : Nat := 0
  /-- The instructions of the block. -/
  insts : List Inst := []
  /-- The position of the current instruction. -/
  index : Nat := 0
  deriving DecidableEq, Repr

namespace RegMap

/-- The host registers that may be handed out; the register of the downcount is one of them unless
it is set aside. -/
def allocatableRegs (staticAlloc : Bool) : List Gpr :=
  [Gpr.rbx, Gpr.rcx, Gpr.rsi, Gpr.rdi, Gpr.r8, Gpr.r9, Gpr.r10, Gpr.r11, Gpr.r12, Gpr.r13] ++
    (if staticAlloc then [] else [Gpr.downcount])

/-- An empty map. -/
def create (staticAlloc : Bool) : RegMap :=
  { allocatable := allocatableRegs staticAlloc }

/-- An empty map for the instructions of a block. -/
def start (m : RegMap) (insts : List Inst) : RegMap :=
  { allocatable := m.allocatable, insts }

/-- Moves on to an instruction and unlocks all registers. -/
def setIndex (m : RegMap) (index : Nat) : RegMap :=
  { m with index, locked := .empty }

/-- The guest register that a slot names. -/
def guestOf (slot : UInt8) : GuestReg := Context.regIndex slot

/-- The host register that holds a guest register. -/
def mapped? (m : RegMap) (g : GuestReg) : Option Gpr :=
  m.guest.get g

/-- What a host register holds. -/
def slot (m : RegMap) (r : Gpr) : HostSlot :=
  m.host.get r

/-- Whether a guest register is in a host register and memory is behind. -/
def isDirty (m : RegMap) (g : GuestReg) : Bool :=
  match m.mapped? g with
  | some r => (m.slot r).dirty
  | none => false

/-- The number of guest registers in host registers. -/
def mappedCount (m : RegMap) : Nat :=
  m.guest.toList.countP Option.isSome

/-- The memory operand of a guest register. -/
def home (g : GuestReg) : Mem :=
  { base := Gpr.context, disp := UInt32.ofNat (g.val * 4) }

/-- Replaces what a host register holds. -/
def setSlot (m : RegMap) (r : Gpr) (s : HostSlot) : RegMap :=
  { m with host := m.host.set r.val s r.val_lt }

/-- Replaces where a guest register is. -/
def setGuest (m : RegMap) (g : GuestReg) (r : Option Gpr) : RegMap :=
  { m with guest := m.guest.set g.val r }

/-- Locks a host register for the current instruction. -/
def lock (m : RegMap) (r : Gpr) : RegMap :=
  { m with locked := m.locked.insert (.ofGpr r) }

/-- Whether a host register is locked. -/
def isLocked (m : RegMap) (r : Gpr) : Bool :=
  m.locked.contains (.ofGpr r)

/-- Empties a host register, writing its value back if memory is behind. -/
def release (m : RegMap) (r : Gpr) : RegMap × List Insn :=
  match (m.slot r).guest with
  | none => (m.setSlot r {}, [])
  | some g =>
    ((m.setGuest g none).setSlot r {},
      if (m.slot r).dirty then [.store32 (home g) r] else [])

/-- Whether an instruction names a guest register. -/
def names (g : GuestReg) (i : Inst) : Bool :=
  i.gprOperands.any fun r => r.toNat = g.val

/-- How many instructions after the next one a guest register is named again, if it is. -/
def nextUse (m : RegMap) (g : GuestReg) : Option Nat :=
  (m.insts.drop (m.index + 1)).findIdx? (names g)

/-- Whether one next use is later than another; no use at all is the latest. -/
def later : Option Nat → Option Nat → Bool
  | none, some _ => true
  | some a, some b => b < a
  | _, none => false

/-- The host registers that may be handed out, from the clock hand on. -/
def fromClock (m : RegMap) : List Gpr :=
  m.allocatable.drop m.clock ++ m.allocatable.take m.clock

/-- The host registers that may be taken away, from the clock hand on, with the next use of what
they hold. -/
def candidates (m : RegMap) : List (Option Nat × Gpr) :=
  m.fromClock.filterMap fun r =>
    if m.isLocked r then none else (m.slot r).guest.map fun g => (m.nextUse g, r)

/-- The first of the candidates whose next use is latest. -/
def latest : List (Option Nat × Gpr) → Option (Option Nat × Gpr)
  | [] => none
  | c :: cs => some (cs.foldl (fun best c => if later c.1 best.1 then c else best) c)

/-- Chooses the host register to take away and moves the clock hand on. -/
def pickVictim (m : RegMap) : Option Gpr × RegMap :=
  ((latest m.candidates).map (·.2),
    { m with clock := (m.clock + 1) % max m.allocatable.length 1 })

/-- Finds an empty host register, emptying one if there is none. -/
def allocate (m : RegMap) : Except EncodingError Gpr × RegMap × List Insn :=
  match m.allocatable.find? fun r => (m.slot r).guest.isNone with
  | some r => (.ok r, m, [])
  | none =>
    match m.pickVictim with
    | (none, m) => (.error .noFreeRegister, m, [])
    | (some r, m) =>
      let (m, code) := m.release r
      (.ok r, m, code)

/-- Puts a guest register into a host register and locks that for the current instruction. -/
def map (m : RegMap) (g : GuestReg) (mode : MapMode) :
    Except EncodingError Gpr × RegMap × List Insn :=
  match m.mapped? g with
  | some r =>
    let m := m.lock r
    (.ok r, if mode.writes then m.setSlot r { m.slot r with dirty := true } else m, [])
  | none =>
    match m.allocate with
    | (.error e, m, code) => (.error e, m, code)
    | (.ok r, m, code) =>
      let m := m.setSlot r { guest := some g, dirty := mode.writes }
      let m := (m.setGuest g (some r)).lock r
      (.ok r, m, code ++ if mode.reads then [.load32 r (home g)] else [])

/-- Sends a guest register back to memory. -/
def flush (m : RegMap) (g : GuestReg) : RegMap × List Insn :=
  match m.mapped? g with
  | some r => m.release r
  | none => (m, [])

/-- Empties the given host registers in order. -/
def releaseAll (m : RegMap) : List Gpr → RegMap × List Insn
  | [] => (m, [])
  | r :: rs =>
    let (m, code) := m.release r
    let (m, codes) := m.releaseAll rs
    (m, code ++ codes)

/-- Sends all guest registers back to memory. -/
def flushAll (m : RegMap) : RegMap × List Insn :=
  m.releaseAll (m.allocatable.filter fun r => (m.slot r).guest.isSome)

end RegMap

end Dynarec
