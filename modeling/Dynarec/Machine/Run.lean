import Dynarec.Jit.Engine
import Dynarec.Machine.Handlers

/-!
# Running compiled code

A run enters the dispatcher as a called function and ends when that function returns.  Compiled
code is carried out instruction by instruction; a call that arrives at the address of a handler is
answered by the handler.  Since compiled code need not come to an end, a run takes the number of
steps that it may take.

Shape of the code during a run: handlers do not change code, so every address has one instruction
throughout.  `Jit.decodeAt` says which; a run looks it up in a table that is filled as it goes, and
`Jit.decodeTabled_eq` says that this is the same.
-/

namespace Dynarec

/-- The address that the dispatcher returns to at the end of a run. -/
def returnAddress : UInt64 := 0

/-- The stack pointer of the caller of the dispatcher. -/
def stackTop : UInt64 := 0x7fff00000000

/-- The most bytes that an instruction has. -/
def maxInsnLen : Nat := 15

namespace Jit

variable {σ : Type}

/-- The code at an address, as far as an instruction can reach. -/
def fetch (j : Jit) (address : UInt64) : List UInt8 :=
  match j.code.offsetOf? address with
  | some offset => j.code.bytes offset maxInsnLen
  | none => []

/-- The instruction at an address and its length. -/
def decodeAt (j : Jit) (address : UInt64) : Option (Insn × Nat) :=
  let code := j.fetch address
  (Insn.decode? address code).map fun p => (p.1, code.length - p.2.length)

/-- The instructions at all offsets below the cursor, each decoded when it is first asked for. -/
def decodeTable (j : Jit) : Array (Thunk (Option (Insn × Nat))) :=
  (Array.range j.code.cursor).map fun offset =>
    Thunk.mk fun _ => j.decodeAt (CodeCache.addressOf offset)

/-- The instruction at an address, from a table where the table has it. -/
def decodeTabled (j : Jit) (table : Array (Thunk (Option (Insn × Nat)))) (address : UInt64) :
    Option (Insn × Nat) :=
  match (j.code.offsetOf? address).bind (table[·]?) with
  | some entry => entry.get
  | none => j.decodeAt address

theorem addressOf_of_offsetOf? {c : CodeCache} {address : UInt64} {offset : Nat}
    (h : c.offsetOf? address = some offset) : CodeCache.addressOf offset = address := by
  rw [CodeCache.offsetOf?] at h
  rw [CodeCache.addressOf]
  generalize codeBase = base at h ⊢
  split at h
  · rename_i inside
    have low := UInt64.le_iff_toNat_le.mp inside.1
    have bound := address.toNat_lt
    have off : offset = address.toNat - base.toNat := (Option.some.inj h).symm
    apply UInt64.toNat_inj.mp
    rw [off, UInt64.toNat_add, UInt64.toNat_ofNat']
    omega
  · cases h

/-- Looking an instruction up in the table of a run is decoding it. -/
theorem decodeTabled_eq (j : Jit) : j.decodeTabled j.decodeTable = j.decodeAt := by
  funext address
  unfold decodeTabled
  cases h : j.code.offsetOf? address with
  | none => rfl
  | some offset =>
    by_cases hlt : offset < j.code.cursor
    · have entry : j.decodeTable[offset]? =
          some (Thunk.mk fun _ => j.decodeAt (CodeCache.addressOf offset)) := by
        simp [decodeTable, hlt]
      simp only [Option.bind_some, entry]
      show j.decodeAt (CodeCache.addressOf offset) = j.decodeAt address
      rw [addressOf_of_offsetOf? h]
    · have missing : j.decodeTable[offset]? = none := by
        simp [decodeTable]
        omega
      simp only [Option.bind_some, missing]

/-- The processor at the entry of the dispatcher, called with the guest context. -/
def enterState (j : Jit) (context : Context) : Cpu :=
  let c : Cpu := { ip := j.stubs.enter, context }
  ((c.setReg Gpr.rsp stackTop).setReg Gpr.arg1 contextBase).push returnAddress

/-- One step of a run: a call of a handler, or one instruction.  A handler that is not handed the
guest context cannot go on. -/
def runStep (j : Jit) (decode : UInt64 → Option (Insn × Nat)) (h : Handlers σ) (c : Cpu) (s : σ) :
    Except Fault (Cpu × σ) :=
  match h.find? j.table c.ip (c.reg Gpr.arg2) with
  | some handler =>
    if j.table.Accepts c.ip (c.reg Gpr.arg1) then
      let reply := handler c.mxcsr c.context s
      .ok (c.afterCall reply, reply.state)
    else .error (.badArgument c.ip)
  | none => (c.step decode).map fun c => (c, s)

/-- How a run ends. -/
inductive RunEnd (σ : Type) where
  /-- The dispatcher has returned. -/
  | finished (cpu : Cpu) (state : σ)
  /-- The processor could not go on. -/
  | faulted (fault : Fault) (state : σ)
  /-- The steps are used up. -/
  | unfinished (cpu : Cpu) (state : σ)

/-- Takes at most `fuel` steps. -/
def runFrom (j : Jit) (decode : UInt64 → Option (Insn × Nat)) (h : Handlers σ) :
    (fuel : Nat) → Cpu → σ → RunEnd σ
  | 0, c, s => .unfinished c s
  | fuel + 1, c, s =>
    if c.ip = returnAddress then .finished c s
    else
      match j.runStep decode h c s with
      | .ok (c, s) => j.runFrom decode h fuel c s
      | .error fault => .faulted fault s

/-- Runs compiled code from a state of the processor, taking at most `fuel` steps. -/
def runEntered (j : Jit) (h : Handlers σ) (fuel : Nat) (c : Cpu) (state : σ) : RunEnd σ :=
  j.runFrom (j.decodeTabled j.decodeTable) h fuel c state

/-- Runs compiled code on a guest context, taking at most `fuel` steps. -/
def run (j : Jit) (h : Handlers σ) (fuel : Nat) (context : Context) (state : σ) : RunEnd σ :=
  j.runEntered h fuel (j.enterState context) state

end Jit

end Dynarec
