import Dynarec.Config
import Dynarec.Ir.Inst

/-!
# Notices

Everything that the library reports while it works.  A notice says what happened; its level, its
source and its wording are functions of it.
-/

namespace Dynarec

/-- How important a notice is, the most important first. -/
inductive Level where
  | error
  | warn
  | info
  | debug
  | trace
  deriving DecidableEq, Repr

namespace Level

/-- The rank of a level; a smaller rank is more important. -/
def rank : Level → Nat
  | error => 1
  | warn => 2
  | info => 3
  | debug => 4
  | trace => 5

/-- The name of a level. -/
def name : Level → String
  | error => "ERROR"
  | warn => "WARN"
  | info => "INFO"
  | debug => "DEBUG"
  | trace => "TRACE"

/-- All levels, the most important first. -/
def all : List Level := [error, warn, info, debug, trace]

/-- The level with a name, in any case. -/
def ofName? (s : String) : Option Level :=
  all.find? fun l => l.name = String.ofList (s.toList.map Char.toUpper)

end Level

/-- Something that happened. -/
inductive Notice where
  /-- A compiler is being set up. -/
  | creating (config : Config)
  /-- The code region has been mapped. -/
  | mapped (size : Nat) (base : UInt64) (exclusive : Bool)
  /-- A range of the code region could not be made executable again. -/
  | restoreFailed (len : Nat) (address : UInt64) (cause : PlatformFault)
  /-- The fixed routines have been written. -/
  | stubsGenerated (len blocksStart : Nat)
  /-- A block is not compiled because there is too little space. -/
  | nearlyExhausted (remaining num : Nat)
  /-- An exit site has been written. -/
  | exitSite (dest : UInt32) (offset len : Nat)
  /-- A block has been compiled. -/
  | compiled (num : Nat) (start : UInt32) (target checked len : Nat)
  /-- An exit site has been pointed at a block. -/
  | linked (offset num : Nat) (target : UInt64)
  /-- The entry of a block has been redirected. -/
  | invalidated (num : Nat) (start : UInt32) (offset : Nat)
  /-- The code cache is being emptied. -/
  | clearing (used exits : Nat)
  /-- Space ran out while a block was compiled. -/
  | outOfSpace (num : Nat)
  /-- The header of the listing of a block. -/
  | listingHeader (start : UInt32) (len : Nat)
  /-- An instruction in the listing of a block. -/
  | listingInst (inst : Inst)
  /-- A line of machine code in the listing of a block. -/
  | listingLine (line : String)
  /-- An instruction was handed to a handler that is not there. -/
  | noGenericHandler (packed : UInt64)
  /-- An opcode was handed to an interpreter that is not there. -/
  | noInterpreter (opcode : UInt32)
  /-- A block ran past its end. -/
  | missingExit
  /-- The entry of a freshly compiled block. -/
  | blockEntry (num : Nat) (start : UInt32) (entry : UInt64)
  /-- What a whole run has produced. -/
  | summary (blocks used exits : Nat)
  deriving Repr

namespace Notice

/-- The level of a notice. -/
def level : Notice → Level
  | restoreFailed .. | missingExit => .error
  | nearlyExhausted .. | clearing .. | outOfSpace .. | noGenericHandler .. | noInterpreter .. =>
    .warn
  | listingHeader .. | listingInst .. | listingLine .. | summary .. => .info
  | creating .. | mapped .. | stubsGenerated .. | compiled .. | blockEntry .. => .debug
  | exitSite .. | linked .. | invalidated .. => .trace

/-- The part of the program that a notice comes from. -/
def source : Notice → String
  | creating .. | outOfSpace .. => "irjit::jit"
  | mapped .. | restoreFailed .. => "irjit::core::memory"
  | stubsGenerated .. => "irjit::x64::fixed_code"
  | noGenericHandler .. | noInterpreter .. | missingExit => "irjit::core::hooks"
  | blockEntry .. | summary .. => "irjit_dump"
  | _ => "irjit::x64::backend"

/-- An address in the guest: eight hexadecimal digits. -/
def guestAddress (pc : UInt32) : String :=
  Text.hexPadded 8 pc.toNat

/-- The wording of a notice. -/
def text : Notice → String
  | creating config => "Creating JIT with " ++ config.text
  | mapped size base exclusive =>
    "Mapped " ++ toString (size / 1024) ++ " KiB of code space at " ++ Text.hex base.toNat ++
      " (W^X: " ++ Config.switchText exclusive ++ ")"
  | restoreFailed len address cause =>
    "Failed to restore execute permission on " ++ toString len ++ " bytes at " ++
      Text.hex address.toNat ++ ": " ++ cause.message
  | stubsGenerated len blocksStart =>
    "Generated " ++ toString len ++ " bytes of fixed code, blocks start at offset " ++
      Text.hex blocksStart
  | nearlyExhausted remaining num =>
    "Code space nearly exhausted (" ++ toString remaining ++
      " bytes left), refusing to compile block " ++ toString num
  | exitSite dest offset len =>
    "Exit to " ++ guestAddress dest ++ " at " ++ Text.hex offset ++ " (" ++ toString len ++
      " bytes)"
  | compiled num start target checked len =>
    "Compiled block " ++ toString num ++ " (pc " ++ guestAddress start ++ ") at " ++
      Text.hex target ++ ", checked entry " ++ Text.hex checked ++ ", " ++ toString len ++ " bytes"
  | linked offset num target =>
    "Linked exit at " ++ Text.hex offset ++ " to block " ++ toString num ++ " (" ++
      Text.hex target.toNat ++ ")"
  | invalidated num start offset =>
    "Invalidated block " ++ toString num ++ " (pc " ++ guestAddress start ++ ") at " ++
      Text.hex offset
  | clearing used exits =>
    "Clearing code cache (" ++ toString used ++ " bytes used, " ++ toString exits ++
      " exit sites)"
  | outOfSpace num =>
    "Out of code space compiling block " ++ toString num ++ ", clearing the cache"
  | listingHeader start len =>
    "=============== x86 (" ++ guestAddress start ++ ", " ++ toString len ++
      " bytes) ==============="
  | listingInst inst => "IR: " ++ inst.text
  | listingLine line => "  " ++ line
  | noGenericHandler packed =>
    "No generic handler installed, skipping instruction 0x" ++ Text.hexPadded 16 packed.toNat
  | noInterpreter opcode =>
    "No interpreter installed, skipping opcode 0x" ++ Text.hexPadded 8 opcode.toNat
  | missingExit => "Never exited block, invalid IR?"
  | blockEntry num start entry =>
    "Block " ++ toString num ++ " (pc " ++ guestAddress start ++ ") entry " ++
      Text.hex entry.toNat
  | summary blocks used exits =>
    toString blocks ++ " blocks, " ++ toString used ++ " bytes of block code, " ++
      toString exits ++ " exit sites"

end Notice

end Dynarec
