/-!
# Host registers

A register is named by a bank and a number in the bank.  Bank zero holds the sixteen
general-purpose registers; `HostReg.gpr?` is the only way from a name to one of them.  A `RegSet`
is a set of register names with one 64-bit word for each of the two banks it knows.
-/

namespace Dynarec

/-- The name of a host register: a bank and a number in it. -/
structure HostReg where
  bank : UInt8 := 0
  id : UInt8
  deriving DecidableEq, Repr

/-- Three-bit digits can be written as literals. -/
instance neZeroEight : @NeZero Nat Zero.ofOfNat0 8 := ⟨by decide⟩

/-- Register numbers can be written as literals. -/
instance neZeroSixteen : @NeZero Nat Zero.ofOfNat0 16 := ⟨by decide⟩

/-- Shift counts can be written as literals. -/
instance neZeroThirtyTwo : @NeZero Nat Zero.ofOfNat0 32 := ⟨by decide⟩

/-- A general-purpose host register, by its number. -/
abbrev Gpr := Fin 16

namespace Gpr

theorem val_lt (r : Gpr) : r.val < 16 := r.isLt

def rax : Gpr := 0
def rcx : Gpr := 1
def rdx : Gpr := 2
def rbx : Gpr := 3
def rsp : Gpr := 4
def rbp : Gpr := 5
def rsi : Gpr := 6
def rdi : Gpr := 7
def r8 : Gpr := 8
def r9 : Gpr := 9
def r10 : Gpr := 10
def r11 : Gpr := 11
def r12 : Gpr := 12
def r13 : Gpr := 13
def r14 : Gpr := 14
def r15 : Gpr := 15

/-- The register that points at the guest context while compiled code runs. -/
def context : Gpr := r14

/-- The register that carries a guest address out of a block, and the result of a call. -/
def scratch : Gpr := rax

/-- The second scratch register. -/
def scratch2 : Gpr := rdx

/-- The register that holds the downcount when it is kept in a register. -/
def downcount : Gpr := r15

/-- The first argument of a call. -/
def arg1 : Gpr := rdi

/-- The second argument of a call. -/
def arg2 : Gpr := rsi

/-- The registers that a called function hands back unchanged, apart from the stack pointer. -/
def calleeSaved : List Gpr := [rbx, rbp, r12, r13, r14, r15]

/-- The names of the low eight registers without their size letter. -/
def stem (r : Gpr) : String :=
  match r with
  | 0 => "ax" | 1 => "cx" | 2 => "dx" | 3 => "bx" | 4 => "sp" | 5 => "bp" | 6 => "si" | 7 => "di"
  | _ => "r" ++ toString r.val

/-- The name of a whole register. -/
def name64 (r : Gpr) : String :=
  if r.val < 8 then "r" ++ r.stem else r.stem

/-- The name of the low 32 bits of a register. -/
def name32 (r : Gpr) : String :=
  if r.val < 8 then "e" ++ r.stem else r.stem ++ "d"

/-- The name of the low 16 bits of a register. -/
def name16 (r : Gpr) : String :=
  if r.val < 8 then r.stem else r.stem ++ "w"

/-- The name of the low byte of a register. -/
def name8 (r : Gpr) : String :=
  match r with
  | 0 => "al" | 1 => "cl" | 2 => "dl" | 3 => "bl"
  | _ => if r.val < 8 then r.stem ++ "l" else r.stem ++ "b"

end Gpr

namespace HostReg

/-- The name of a general-purpose register. -/
def ofGpr (r : Gpr) : HostReg :=
  { id := UInt8.ofNat r.val }

/-- The general-purpose register with this name. -/
def gpr? (r : HostReg) : Option Gpr :=
  if h : r.bank = 0 ∧ r.id.toNat < 16 then some ⟨r.id.toNat, h.2⟩ else none

end HostReg

/-- A set of register names of bank zero and bank one with numbers below 64. -/
structure RegSet where
  bank0 : UInt64 := 0
  bank1 : UInt64 := 0
  deriving DecidableEq, Repr

namespace RegSet

/-- The set without members. -/
def empty : RegSet := {}

/-- The member word of a bank; banks that the set does not know have no members. -/
def bits (s : RegSet) (bank : UInt8) : UInt64 :=
  if bank = 0 then s.bank0 else if bank = 1 then s.bank1 else 0

/-- Applies a function to the member word of a bank; other banks are ignored. -/
def modifyBank (s : RegSet) (bank : UInt8) (f : UInt64 → UInt64) : RegSet :=
  if bank = 0 then { s with bank0 := f s.bank0 }
  else if bank = 1 then { s with bank1 := f s.bank1 }
  else s

/-- The member word with one number. -/
def bit (id : UInt8) : UInt64 :=
  1 <<< id.toUInt64

/-- Whether a register is in the set. -/
def contains (s : RegSet) (r : HostReg) : Bool :=
  r.id < 64 && (s.bits r.bank &&& bit r.id) != 0

/-- Adds a register, if the set can hold it. -/
def insert (s : RegSet) (r : HostReg) : RegSet :=
  if r.id < 64 then s.modifyBank r.bank (· ||| bit r.id) else s

/-- Removes a register. -/
def erase (s : RegSet) (r : HostReg) : RegSet :=
  if r.id < 64 then s.modifyBank r.bank (· &&& ~~~ bit r.id) else s

/-- The set of the registers in a list. -/
def ofList (rs : List HostReg) : RegSet :=
  rs.foldl insert empty

/-- The numbers of the members in a bank, in increasing order. -/
def ids (s : RegSet) (bank : UInt8) : List UInt8 :=
  ((List.range 64).map UInt8.ofNat).filter fun id => s.contains ⟨bank, id⟩

/-- The number of members in a bank. -/
def count (s : RegSet) (bank : UInt8) : Nat :=
  (s.ids bank).length

end RegSet

end Dynarec
