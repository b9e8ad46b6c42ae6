import Dynarec.Code.Host
import Dynarec.Guest.Context
import Dynarec.Lower.Stubs
import Dynarec.Machine.Cpu

/-!
# Handlers

Handlers are the functions outside compiled code that it calls: the generic handler, the
interpreter, the notify handler, and those that advance time, look up code and report a missing
exit.  A handler works on the guest context and on a state of its own, and follows the calling
convention: it is given the address of the guest context as its first argument, gives back its
answer in the result register, may leave anything in the registers that a called function need not
keep, and keeps all others.  The report of a missing exit takes no argument.
-/

namespace Dynarec

/-- What a handler leaves behind. -/
structure Reply (σ : Type) where
  context : Context
  state : σ
  /-- The answer in the result register. -/
  answer : UInt64 := 0
  /-- What the other registers that need not be kept hold. -/
  residue : Gpr → UInt64 := fun _ => 0

/-- A handler: it sees the floating-point control word, the guest context and its own state. -/
abbrev Handler (σ : Type) := (mxcsr : UInt32) → Context → σ → Reply σ

/-- The handlers that compiled code calls, by what they are for. -/
structure Handlers (σ : Type) where
  /-- Carries out a packed instruction; at an exit the answer is the address to go to, or zero. -/
  generic : (packed : UInt64) → Handler σ
  /-- Interprets an opcode of the guest. -/
  interpret : (opcode : UInt32) → Handler σ
  /-- Is told about an interpreted opcode. -/
  notify : (opcode : UInt32) → Handler σ
  /-- Advances time. -/
  advance : Handler σ
  /-- Answers with the address of the code for the program counter, or zero. -/
  resolve : Handler σ
  /-- Is told about a block that ran past its end. -/
  noBlockExits : Handler σ

namespace Handlers

variable {σ : Type}

/-- The handler at an address, given the second argument of the call. -/
def find? (h : Handlers σ) (table : HandlerTable) (address second : UInt64) : Option (Handler σ) :=
  if address = table.generic then some (h.generic second)
  else if address = table.advance then some h.advance
  else if address = table.resolve then some h.resolve
  else if address = table.noBlockExits then some h.noBlockExits
  else if some address = table.notify then some (h.notify second.toUInt32)
  else if address = table.interpret second.toUInt32 then some (h.interpret second.toUInt32)
  else none

/-- Advancing time when nothing keeps time: the core stops once the budget is spent. -/
def stopOutOfBudget (c : Context) : Context :=
  if c.outOfBudget then { c with coreState := Context.coreStepping } else c

/-- The handlers in use when none are given: they note what they were asked for, stop the core
once the budget is spent, and find no code.  `note` records a notice in the state. -/
def default (note : Notice → σ → σ) : Handlers σ where
  generic packed _ context state := { context, state := note (.noGenericHandler packed) state }
  interpret opcode _ context state := { context, state := note (.noInterpreter opcode) state }
  notify _ _ context state := { context, state }
  advance _ context state := { context := stopOutOfBudget context, state }
  resolve _ context state := { context, state }
  noBlockExits _ context state := { context, state := note .missingExit state }

end Handlers

namespace HandlerTable

/-- Whether the handler at an address can be called with this first argument. -/
def Accepts (t : HandlerTable) (address first : UInt64) : Prop :=
  address = t.noBlockExits ∨ first = contextBase

instance (t : HandlerTable) (address first : UInt64) : Decidable (t.Accepts address first) :=
  inferInstanceAs (Decidable (_ ∨ _))

/-- The address of a handler, by its place among all handlers. -/
def slot (n : Nat) : UInt64 :=
  0x2000000000 + UInt64.ofNat (16 * n)

/-- Where the handlers in use when none are given are. -/
def default : HandlerTable where
  generic := slot 8
  interpret _ := slot 9
  advance := slot 10
  resolve := slot 11
  noBlockExits := slot 12

end HandlerTable

/-- The registers that a called function need not keep, apart from the result register. -/
def callerSaved : List Gpr :=
  [Gpr.rcx, Gpr.rdx, Gpr.rsi, Gpr.rdi, Gpr.r8, Gpr.r9, Gpr.r10, Gpr.r11]

namespace Cpu

variable {σ : Type}

/-- The state after a handler has been called and has returned; the flags after a call mean
nothing. -/
def afterCall (c : Cpu) (r : Reply σ) : Cpu :=
  let c := callerSaved.foldl (fun c g => c.setReg g (r.residue g)) c
  let c := c.setReg Gpr.rax r.answer
  { c.drop.goTo c.top with context := r.context, flags := {} }

end Cpu

end Dynarec
