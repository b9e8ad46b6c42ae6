import Dynarec.Jit.Link

/-!
# Operations

The operations of the compiler as a whole.  Registering a block at an address invalidates the
block that stood there; compiling a block links it, and clears the code cache once when space runs
out.
-/

namespace Dynarec

namespace Jit

/-- Invalidates a block: it is redirected and no longer stands for its address. -/
def invalidate (num : Nat) : Action Jit Unit := do
  invalidateBlock num
  modify fun j => { j with blocks := j.blocks.invalidate num }

/-- Invalidates the block that stands for an address; the answer says whether there was one. -/
def invalidatePc (pc : UInt32) : Action Jit Bool := do
  match (← get).blocks.find? pc with
  | none => return false
  | some num =>
    invalidate num
    return true

/-- Registers a block as it is given, in place of the one that stood for its address. -/
def addBlock (e : BlockEntry) : Action Jit Nat := do
  let _ ← invalidatePc e.block.start
  modifyGet fun j =>
    let (num, blocks) := j.blocks.add e
    (num, { j with blocks })

/-- Compiles a block; when space runs out, clears the code cache and tries once more. -/
def compileOrClear (num : Nat) (preload : Bool) : Action Jit Unit :=
  tryCatch (compileBlock num preload) fun e =>
    if e.isOutOfSpace then do
      note (.outOfSpace num)
      clearAll
      compileBlock num preload
    else throw e

/-- Compiles a valid block and links it. -/
def compileAs (preload : Bool) (num : Nat) : Action Jit Unit := do
  match (← get).blocks.get? num with
  | some entry =>
    if entry.valid then
      compileOrClear num preload
      linkBlock num
    else throw (.unknownBlock num)
  | none => throw (.unknownBlock num)

/-- Compiles a block and links it. -/
def compile (num : Nat) : Action Jit Unit :=
  compileAs false num

/-- Compiles a block ahead of its use and links it; such a block is never listed. -/
def preload (num : Nat) : Action Jit Unit :=
  compileAs true num

/-- Registers a block and compiles it. -/
def addAndCompile (e : BlockEntry) : Action Jit Nat := do
  let num ← addBlock e
  compile num
  return num

/-- Empties the code cache. -/
def clearCache : Action Jit Unit :=
  clearAll

/-- The entry of the body of a valid compiled block. -/
def entryAddress (j : Jit) (num : Nat) : Option UInt64 := do
  let entry ← j.blocks.get? num
  if entry.valid then j.nativeEntry num else none

/-- The entry of the body of the compiled block that stands for an address. -/
def lookup (j : Jit) (pc : UInt32) : Option UInt64 :=
  (j.blocks.find? pc).bind j.entryAddress

end Jit

end Dynarec
