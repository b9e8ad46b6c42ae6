import Std.Data.TreeMap
import Dynarec.Ir.Inst

/-!
# The block table

All blocks that were ever registered, numbered from zero, and for every guest address the block
that currently stands for it.  A block stays in the table when it is invalidated; it only no
longer stands for its address.
-/

namespace Dynarec

/-- A registered block: whether it is still valid, and where its body starts in the code cache
once it is compiled. -/
structure BlockEntry where
  block : Block
  target : Option Nat := none
  valid : Bool := true
  deriving DecidableEq, Repr

namespace BlockEntry

/-- A block as it is made: valid and not compiled. -/
def new (b : Block) : BlockEntry := { block := b }

instance : Coe Block BlockEntry := ⟨new⟩

@[simp] theorem block_new (b : Block) : (new b).block = b := rfl

@[simp] theorem valid_new (b : Block) : (new b).valid = true := rfl

/-- The entry says nothing but its block.  A copy of an entry of the table need not be new: it keeps
the place of the code that the block had, and whether it was valid. -/
structure IsNew (e : BlockEntry) : Prop where
  target : e.target = none
  valid : e.valid

instance (e : BlockEntry) : Decidable e.IsNew :=
  decidable_of_iff (e.target = none ∧ e.valid) ⟨fun h => ⟨h.1, h.2⟩, fun h => ⟨h.target, h.valid⟩⟩

/-- A new entry is the one that its block is registered under. -/
theorem IsNew.new_block {e : BlockEntry} (h : e.IsNew) : new e.block = e := by
  obtain ⟨block, target, valid⟩ := e
  obtain ⟨rfl, rfl⟩ := h
  rfl

end BlockEntry

/-- The registered blocks and the block that stands for each guest address. -/
structure Blocks where
  entries : Array BlockEntry := #[]
  byStart : Std.TreeMap UInt32 Nat := ∅

namespace Blocks

/-- A table without blocks. -/
def empty : Blocks := {}

/-- The number of registered blocks. -/
def size (t : Blocks) : Nat := t.entries.size

/-- The block with a number. -/
def get? (t : Blocks) (num : Nat) : Option BlockEntry :=
  t.entries[num]?

/-- The number of the block that stands for an address. -/
def find? (t : Blocks) (start : UInt32) : Option Nat :=
  t.byStart[start]?

/-- Registers a block under the next number, for its start address.  The entry is taken as it is
given, with its target and its validity. -/
def add (t : Blocks) (e : BlockEntry) : Nat × Blocks :=
  (t.size,
    { entries := t.entries.push e
      byStart := t.byStart.insert e.block.start t.size })

/-- Changes the entry of a block. -/
def modify (t : Blocks) (num : Nat) (f : BlockEntry → BlockEntry) : Blocks :=
  { t with entries := t.entries.modify num f }

/-- Sets where the body of a block starts. -/
def setTarget (t : Blocks) (num target : Nat) : Blocks :=
  t.modify num fun e => { e with target := some target }

/-- Marks a block as invalid, so that it no longer stands for its address. -/
def invalidate (t : Blocks) (num : Nat) : Blocks :=
  match t.get? num with
  | none => t
  | some e =>
    { entries := t.entries.modify num fun e => { e with valid := false }
      byStart :=
        if t.find? e.block.start = some num then t.byStart.erase e.block.start else t.byStart }

/-- Forgets where the bodies of all blocks start. -/
def resetTargets (t : Blocks) : Blocks :=
  { t with entries := t.entries.map fun e => { e with target := none } }

/-- The entries with their numbers. -/
def toList (t : Blocks) : List (Nat × BlockEntry) :=
  (List.range t.size).zip t.entries.toList

end Blocks

end Dynarec
