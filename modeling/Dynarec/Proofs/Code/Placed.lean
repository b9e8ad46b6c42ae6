import Dynarec.Proofs.Code.Cells

/-!
# Items in the code cache

`Item.Placed c resolve offset items` says that the cache holds a list of items from an offset on:
every label stands where it was placed, and between the labels are the instructions, with `resolve`
telling where branches go.  It is read off from front to back, so that code with labels is followed
the way it was written.

`placed_of_holds`: assembled items are placed, if no label is placed twice.
-/

namespace Dynarec

namespace Item

open CodeCache Lower

/-- The cache holds these items from an offset on. -/
def Placed (c : CodeCache) (resolve : UInt64 → UInt64) : (offset : Nat) → List Item → Prop
  | _, [] => True
  | offset, mark l :: is => resolve l.symbol = addressOf offset ∧ Placed c resolve offset is
  | offset, insn i :: is =>
    c.Holds offset [i.mapTarget resolve] ∧ Placed c resolve (offset + i.size) is
  | offset, padding n :: is =>
    c.Holds offset (List.replicate n .int3) ∧ Placed c resolve (offset + n) is

variable {c : CodeCache} {resolve : UInt64 → UInt64}

theorem placed_append {offset : Nat} {is js : List Item} :
    Placed c resolve offset (is ++ js) ↔
      Placed c resolve offset is ∧ Placed c resolve (offset + (is.map size).sum) js := by
  induction is generalizing offset with
  | nil => simp [Placed]
  | cons i is ih =>
    cases i with
    | insn i => simp [Placed, ih, size, and_assoc, Nat.add_assoc]
    | padding n => simp [Placed, ih, size, and_assoc, Nat.add_assoc]
    | mark l => simp [Placed, ih, size, and_assoc]

/-- Held items behind others are placed behind them. -/
theorem placed_rest {offset : Nat} {before rest : List Item}
    (hmarks : (0 :: symbols (before ++ rest)).Nodup)
    (hcode : c.Holds (offset + (before.map size).sum)
      (rest.flatMap (flatten (Item.resolve (addressOf offset) (layout 0 (before ++ rest)))))) :
    Placed c (Item.resolve (addressOf offset) (layout 0 (before ++ rest)))
      (offset + (before.map size).sum) rest := by
  -- `before` grows along the list, so that each label is seen between all that come before it and
  -- all that come after it
  induction rest generalizing before with
  | nil => trivial
  | cons i rest ih =>
    have hlist : before ++ i :: rest = (before ++ [i]) ++ rest := by simp
    have hsize : offset + ((before ++ [i]).map size).sum =
        offset + (before.map size).sum + i.size := by
      simp [Nat.add_assoc]
    rw [List.flatMap_cons] at hcode
    obtain ⟨hfront, hback⟩ := holds_append.mp hcode
    rw [codeSize_flatten, ← hsize] at hback
    have hrest : Placed c (Item.resolve (addressOf offset) (layout 0 (before ++ i :: rest)))
        (offset + (before.map size).sum + i.size) rest := by
      rw [← hsize, hlist]
      rw [hlist] at hback hmarks
      exact ih hmarks hback
    cases i with
    | insn i => exact ⟨hfront, hrest⟩
    | padding n => exact ⟨hfront, hrest⟩
    | mark l =>
      refine ⟨?_, hrest⟩
      rw [resolve_mark_of_nodup hmarks, addressOf_add]

/-- Assembled items are placed, if no label is placed twice. -/
theorem placed_of_holds {offset : Nat} {items : List Item} (hmarks : (0 :: symbols items).Nodup)
    (hcode : c.Holds offset
      (items.flatMap (flatten (Item.resolve (addressOf offset) (layout 0 items))))) :
    Placed c (Item.resolve (addressOf offset) (layout 0 items)) offset items := by
  have hrest : Placed c (Item.resolve (addressOf offset) (layout 0 ([] ++ items)))
      (offset + (([] : List Item).map size).sum) items :=
    placed_rest hmarks hcode
  exact hrest

end Item

end Dynarec
