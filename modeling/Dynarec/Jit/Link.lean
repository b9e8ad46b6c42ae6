import Dynarec.Jit.Compile

/-!
# Linking and invalidating

A compiled block is linked by pointing every recorded exit to its address straight at its checked
entry, and invalidated by overwriting the start of its body with a jump to the dispatcher.  Both
patch code that is already in the cache, in place and padded to the length of the site.
-/

namespace Dynarec

namespace Jit

/-- The bytes of a patch, padded to the length of its place. -/
def padPatch (bytes : List UInt8) (len : Nat) : Except JitError (List UInt8) :=
  if len < bytes.length then .error (.patchOverflow bytes.length len)
  else .ok (bytes ++ List.replicate (len - bytes.length) 0xcc)

/-- Overwrites code in place and gives a notice of it.  The assembler of the draft makes the code,
so it has to be empty, and it is empty again before the window is asked for. -/
def overwrite (offset : Nat) (is : List Insn) (len : Nat) (n : Notice) : Action Jit Unit := do
  onDraft (Emit.insns is)
  let code ← assembleAt (CodeCache.addressOf offset) []
  let bytes ← Action.ofExcept (padPatch code.bytes len)
  inWindow (CodeCache.openWindow offset bytes.length) do
    modify fun j => { j with code := j.code.write offset bytes }
    note n

/-- Points the exit site in a range at the checked entry of a block, if the block is compiled. -/
def overwriteExit (offset len num : Nat) : Action Jit Unit := do
  match (← get).checkedEntry num with
  | none => return ()
  | some target => overwrite offset [.jmp target] len (.linked offset num target)

/-- Points exit sites at the checked entry of a block. -/
def overwriteExits (num : Nat) : List Exit → Action Jit Unit
  | [] => return ()
  | e :: es => do
    overwriteExit e.offset e.len num
    overwriteExits num es

/-- Points all recorded exits to the address of a block at the block. -/
def linkBlock (num : Nat) : Action Jit Unit := do
  let j ← get
  match j.blocks.get? num with
  | none => throw (.unknownBlock num)
  | some entry => overwriteExits num (j.links.exitsTo entry.block.start)

/-- The code that redirects a block to the dispatcher. -/
def redirect (stubs : Stubs) (start : UInt32) : List Insn :=
  [.mov32i Gpr.scratch start, .jmp stubs.dispatcherPc]

/-- Redirects a block to the dispatcher and forgets its entries, its exits and all exits to its
address.  A block at address zero is not redirected. -/
def invalidateBlock (num : Nat) : Action Jit Unit := do
  let j ← get
  match j.blocks.get? num with
  | none => throw (.unknownBlock num)
  | some entry =>
    let start := entry.block.start
    match entry.target with
    | some offset =>
      if start ≠ 0 then
        overwrite offset (redirect j.stubs start) minBodyLen (.invalidated num start offset)
    | none => pure ()
    modify fun j => { j with links := (j.links.eraseLinksTo start).eraseBlock num }

/-- Empties the code cache; all blocks stay registered. -/
def clearAll : Action Jit Unit := do
  let j ← get
  note (.clearing (j.code.cursor - j.stubs.blocksStart) j.links.exitCount)
  modify fun j =>
    { j with
      code := j.code.clear j.stubs.blocksStart
      links := .empty
      blocks := j.blocks.resetTargets }

/-- The block with the highest lower entry at or below an offset. -/
def blockAt? (j : Jit) (offset : Nat) : Option (Nat × Nat) :=
  ((j.links.natives.map fun p => (p.1, p.2.low)).filter (·.2 ≤ offset)).foldl
    (fun best p =>
      match best with
      | some b => if b.2 ≤ p.2 then some p else some b
      | none => some p)
    none

/-- What the code at an address belongs to. -/
def describe (j : Jit) (address : UInt64) : Option String :=
  match j.stubs.describe address with
  | some name => some name
  | none => do
    let offset ← j.code.offsetOf? address
    if offset < j.stubs.blocksStart ∨ j.code.cursor ≤ offset then none
    else
      let (num, low) ← j.blockAt? offset
      let entry ← j.blocks.get? num
      some ("block " ++ toString num ++ " (pc " ++ Notice.guestAddress entry.block.start ++ ") +" ++
        Text.hex (offset - low))

end Jit

end Dynarec
