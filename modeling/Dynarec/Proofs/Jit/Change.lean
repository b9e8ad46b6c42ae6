import Dynarec.Proofs.Jit.Patch

/-!
# What the operations can change

The operations of the compiler come down to a few kinds of change (`Jit.Change`): code that belongs
to no block is added behind the cursor, the cache is cleared, a block is compiled and linked, a
block is invalidated, a block is registered.  When the platform refuses a patch, linking stops
halfway; that is a kind of its own.  What holds of every state that operations lead to follows from
what each of these changes keeps.
-/

namespace Dynarec

open Lower Dynarec.Action CodeCache

/-- What a caller may hand over to be registered. -/
class Registrable (β : Type) where
  /-- The entry of the block table that is made of it. -/
  entry : β → BlockEntry

/-- A block is registered as new. -/
@[default_instance] instance : Registrable Block := ⟨BlockEntry.new⟩

theorem entry_eq_new (b : Block) : Registrable.entry b = BlockEntry.new b := rfl

/-- An entry is registered as it is; it may be a copy of one that is in the table already. -/
instance : Registrable BlockEntry := ⟨id⟩

/-- An operation of the compiler, on blocks that callers hand over in some form. -/
inductive OpWith (β : Type) where
  | addBlock (b : β)
  | compile (num : Nat)
  | preload (num : Nat)
  | addAndCompile (b : β)
  | invalidate (num : Nat)
  | invalidatePc (pc : UInt32)
  | clearCache
  deriving DecidableEq, Repr

/-- An operation that registers new blocks only. -/
abbrev Op : Type := OpWith Block

/-- The operation that registers the block of an entry as new. -/
def OpWith.renew : OpWith BlockEntry → Op
  | addBlock e => .addBlock e.block
  | compile num => .compile num
  | preload num => .preload num
  | addAndCompile e => .addAndCompile e.block
  | invalidate num => .invalidate num
  | invalidatePc pc => .invalidatePc pc
  | clearCache => .clearCache

section

variable {α β : Type} [Registrable β]

/-- What an operation registers. -/
def OpWith.registered? : OpWith α → Option α
  | addBlock b => some b
  | addAndCompile b => some b
  | _ => none

/-- Carries out an operation, whatever it answers. -/
def OpWith.run : OpWith β → Action Jit Unit
  | addBlock b => do let _ ← Jit.addBlock (Registrable.entry b)
  | compile num => Jit.compile num
  | preload num => Jit.preload num
  | addAndCompile b => do let _ ← Jit.addAndCompile (Registrable.entry b)
  | invalidate num => Jit.invalidate num
  | invalidatePc pc => do let _ ← Jit.invalidatePc pc
  | clearCache => Jit.clearCache

namespace Jit

/-- The state after an operation, whether it succeeds or fails. -/
def apply (j : Jit) (op : OpWith β) : Jit :=
  after (op.run j)

/-- The state after operations one after the other. -/
def applyAll (j : Jit) (ops : List (OpWith β)) : Jit :=
  ops.foldl apply j

end Jit

end

namespace Jit

/-- The cache has been cleared. -/
structure Cleared (j k : Jit) : Prop where
  config : k.config = j.config
  table : k.table = j.table
  stubs : k.stubs = j.stubs
  blocks : k.blocks = j.blocks.resetTargets
  links : k.links = .empty
  draft : k.draft = j.draft
  size : k.code.size = j.code.size
  cursor : k.code.cursor = min j.stubs.blocksStart j.code.size
  byte : ∀ o, k.code.byte o = j.code.byte o

/-- A block has been invalidated. -/
structure Invalidated (j k : Jit) (num : Nat) (entry : BlockEntry) : Prop where
  found : j.blocks.get? num = some entry
  config : k.config = j.config
  table : k.table = j.table
  stubs : k.stubs = j.stubs
  blocks : k.blocks = j.blocks.invalidate num
  links : k.links = (j.links.eraseLinksTo entry.block.start).eraseBlock num
  draft : k.draft = j.draft
  size : k.code.size = j.code.size
  cursor : k.code.cursor = j.code.cursor
  byte : ∀ o, (∀ t, entry.target = some t → entry.block.start ≠ 0 →
    ¬ (t ≤ o ∧ o < t + minBodyLen)) → k.code.byte o = j.code.byte o
  redirected : ∀ t, entry.target = some t → entry.block.start ≠ 0 →
    k.code.Holds t (padded (redirect j.stubs entry.block.start) minBodyLen)

/-- A change of the state, where blocks that are invalidated satisfy `allowed` and blocks that are
registered satisfy `wanted`. -/
inductive Change (allowed : BlockEntry → Prop) (wanted : Block → Prop) (j k : Jit) : Prop
  | grows (hgrows : j.Grows k) (hdraft : k.draft = j.draft)
  | cleared (hcleared : j.Cleared k)
  | linked {num : Nat} {entry : BlockEntry} {n : Native} {ps : List Piece} {l : Jit}
    (hentry : j.blocks.get? num = some entry) (hvalid : entry.valid)
    (hcompiled : j.Compiled l num entry.block n ps)
    (hlinked : l.Relinked k (l.links.exitsTo entry.block.start) (addressOf n.checked))
  | torn {num : Nat} {entry : BlockEntry} {n : Native} {ps : List Piece} {l : Jit}
    (hentry : j.blocks.get? num = some entry) (hvalid : entry.valid)
    (hcompiled : j.Compiled l num entry.block n ps)
    (hresited : l.Resited k (l.links.exitsTo entry.block.start)) (hrefused : ¬ k.Unrefused)
  | invalidated {num : Nat} {entry : BlockEntry} (hallowed : allowed entry)
    (hinvalidated : j.Invalidated k num entry)
  | added {b : Block} (hwanted : wanted b) (hfree : j.blocks.find? b.start = none)
    (hadded : k = { j with blocks := (j.blocks.add b).2 })

/-- A change, with what happened to the code region on the way. -/
structure Move (allowed : BlockEntry → Prop) (wanted : Block → Prop) (j k : Jit) : Prop where
  change : Change allowed wanted j k
  logged : j.Logged k

end Jit

end Dynarec
