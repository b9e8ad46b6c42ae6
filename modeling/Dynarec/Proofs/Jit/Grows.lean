import Dynarec.Jit.Compile
import Dynarec.Proofs.Code.Allocation

/-!
# Compiling only adds code

While a block is being compiled, the tables stay as they are and code is written behind the cursor
only.  There are three degrees of this.  The steps that write the code of a block append it and do
nothing else to the region (`Writes`), whether they succeed or fail.  Once it is complete the block
may be listed, which takes one off the number of blocks to be listed (`Appends`).  Windows open and
close around it (`Grows`).  In all cases the cache still holds what it held in front of the cursor
(`Grows.holds`), so a compilation that fails has changed nothing that matters.
-/

namespace Dynarec

open Dynarec.Action Lower

/-- The code cache has changed in a certain way, and nothing else but the draft. -/
structure Jit.Adds (R : CodeCache → CodeCache → Prop) (j k : Jit) : Prop where
  config : k.config = j.config
  table : k.table = j.table
  stubs : k.stubs = j.stubs
  blocks : k.blocks = j.blocks
  links : k.links = j.links
  code : R j.code k.code

/-- Nothing but the code behind the cursor, the draft and the notices has changed. -/
abbrev Jit.Grows : Jit → Jit → Prop :=
  Jit.Adds CodeCache.Grows

/-- Code has been appended inside a window. -/
abbrev Jit.Appends : Jit → Jit → Prop :=
  Jit.Adds CodeCache.Appends

/-- Code has been appended inside a window, and no block has been listed. -/
structure Jit.Writes (j k : Jit) : Prop extends Jit.Adds CodeCache.Appends j k where
  logBlocks : k.logBlocks = j.logBlocks

namespace Jit

section

variable {R : CodeCache → CodeCache → Prop} {j k l : Jit}

/-- Two changes of the cache, one after the other, are one change of it. -/
theorem Adds.trans (htrans : ∀ {c d e}, R c d → R d e → R c e) (hjk : j.Adds R k)
    (hkl : k.Adds R l) : j.Adds R l :=
  ⟨hkl.config.trans hjk.config, hkl.table.trans hjk.table, hkl.stubs.trans hjk.stubs,
    hkl.blocks.trans hjk.blocks, hkl.links.trans hjk.links, htrans hjk.code hkl.code⟩

theorem Grows.refl (j : Jit) : j.Grows j :=
  ⟨rfl, rfl, rfl, rfl, rfl, .refl _⟩

/-- Code that is added twice has been added. -/
theorem Grows.trans (hjk : j.Grows k) (hkl : k.Grows l) : j.Grows l :=
  Adds.trans (fun h => h.trans) hjk hkl

theorem Appends.refl (j : Jit) : j.Appends j :=
  ⟨rfl, rfl, rfl, rfl, rfl, .refl _⟩

/-- Code that is appended twice has been appended. -/
theorem Appends.trans (hjk : j.Appends k) (hkl : k.Appends l) : j.Appends l :=
  Adds.trans (fun h => h.trans) hjk hkl

/-- Appending inside a window is a way of adding code. -/
theorem Appends.grows (h : j.Appends k) : j.Grows k :=
  ⟨h.config, h.table, h.stubs, h.blocks, h.links, h.code.grows⟩

theorem Writes.refl (j : Jit) : j.Writes j :=
  ⟨Appends.refl j, rfl⟩

/-- Code that is written in two steps has been written. -/
theorem Writes.trans (hjk : j.Writes k) (hkl : k.Writes l) : j.Writes l :=
  ⟨Appends.trans hjk.toAdds hkl.toAdds, hkl.logBlocks.trans hjk.logBlocks⟩

/-- The draft does not matter. -/
theorem Writes.of_draft (j : Jit) (draft : Draft) : j.Writes { j with draft } :=
  ⟨⟨rfl, rfl, rfl, rfl, rfl, .refl _⟩, rfl⟩

end

/-! ## The actions of compiling -/

section

variable {α β : Type}

/-- Steps that write code, one after the other, write code. -/
theorem writes_bind {x : Action Jit α} {f : α → Action Jit β} (hx : Keeps Writes x)
    (hf : ∀ a, Keeps Writes (f a)) : Keeps Writes (x >>= f) :=
  Keeps.bind (R := Writes) (fun h => h.trans) hx hf

theorem writes_get : Keeps Writes (get : Action Jit Jit) :=
  Writes.refl

theorem writes_pure (a : α) : Keeps Writes (pure a : Action Jit α) :=
  Writes.refl

/-- A step that fails at once has written nothing, which counts as writing. -/
theorem writes_throw (e : JitError) : Keeps Writes (throw e : Action Jit α) :=
  Writes.refl

/-- A change of the state writes code if it does so from every state. -/
theorem writes_modify {f : Jit → Jit} (h : ∀ j : Jit, j.Writes (f j)) :
    Keeps Writes (modify f : Action Jit Unit) :=
  h

/-- A notice does not touch the code. -/
theorem writes_note (n : Notice) : Keeps Writes (note n) :=
  fun j => ⟨⟨rfl, rfl, rfl, rfl, rfl, CodeCache.appends_note n j.code⟩, rfl⟩

/-- A step of the cache that appends is one that writes code. -/
theorem writes_onCode {x : Action CodeCache α} (hx : Keeps CodeCache.Appends x) :
    Keeps Writes (onCode x) :=
  hx.onPart fun _ _ h => ⟨⟨rfl, rfl, rfl, rfl, rfl, h⟩, rfl⟩

/-- Whatever is done to the draft, no code is touched. -/
theorem writes_onDraft (x : Emit α) : Keeps Writes (onDraft x) :=
  Keeps.onPart (S := fun _ _ => True) (fun _ => trivial) fun j draft _ => .of_draft j draft

/-- Putting exits aside until the block is complete changes the draft only. -/
theorem writes_stageExits (xs : List (DraftExit × UInt64)) : Keeps Writes (stageExits xs) := by
  induction xs with
  | nil => exact writes_pure _
  | cons x xs ih =>
    refine writes_bind writes_get fun j => ?_
    split
    · exact writes_throw _
    · exact writes_bind (writes_note _) fun _ =>
        writes_bind (writes_modify fun k => .of_draft k _) fun _ => ih

/-- Assembling the draft leaves the assembler as it is left, also if it fails. -/
theorem assembleAt_apply (address : UInt64) (wanted : List Label) (j : Jit) :
    assembleAt address wanted j =
      match j.draft.asm.assemble address wanted with
      | (.ok code, asm) => .ok code { j with draft := { j.draft with asm } }
      | (.error e, asm) => .error (.encoding e) { j with draft := { j.draft with asm } } := by
  rw [assembleAt, bind_of_ok (get_apply j)]
  generalize j.draft.asm.assemble address wanted = x
  obtain ⟨result, asm⟩ := x
  cases result <;> rfl

/-- The draft is assembled for the place where the cursor is. -/
theorem assembleDraft_apply (j : Jit) :
    assembleDraft j =
      match j.draft.asm.assemble j.code.cursorAddress (j.draft.pieceExits.map DraftExit.label) with
      | (.ok code, asm) => .ok code { j with draft := { j.draft with asm } }
      | (.error e, asm) => .error (.encoding e) { j with draft := { j.draft with asm } } := by
  rw [assembleDraft, bind_of_ok (get_apply j), assembleAt_apply]

/-- Assembling the draft does not write it yet. -/
theorem writes_assembleDraft : Keeps Writes assembleDraft := by
  intro j
  rw [assembleDraft_apply]
  split <;> exact .of_draft j _

/-- A piece of a block is written behind the cursor, or nothing is. -/
theorem writes_flushPiece : Keeps Writes flushPiece := by
  refine writes_bind writes_get fun j => ?_
  split
  · exact writes_pure _
  · exact writes_bind writes_assembleDraft fun code =>
      writes_bind (writes_onCode (CodeCache.keeps_append _)) fun _ => writes_bind writes_get fun k =>
      writes_bind (writes_modify fun l => .of_draft l _) fun _ => writes_stageExits _

/-- Checking that there is room left writes nothing. -/
theorem writes_checkMargin : Keeps Writes checkMargin := by
  refine writes_bind writes_get fun j => ?_
  dsimp only
  split
  · exact writes_throw _
  · exact writes_pure _

/-- Compiling one instruction writes its pieces behind the cursor. -/
theorem writes_compileInst (env : LowerEnv) (index : Nat) (i : Inst) :
    Keeps Writes (compileInst env index i) := by
  refine writes_bind (writes_modify fun j => .of_draft j _) fun _ => writes_bind writes_get fun j =>
    writes_bind (writes_onDraft _) fun _ => ?_
  split
  · exact writes_bind (writes_onDraft _) fun _ => writes_flushPiece
  · exact writes_flushPiece

/-- Compiling instructions one after the other writes their pieces behind the cursor. -/
theorem writes_compileInsts (env : LowerEnv) (index : Nat) (is : List Inst) :
    Keeps Writes (compileInsts env index is) := by
  induction is generalizing index with
  | nil => exact writes_pure _
  | cons i is ih =>
    exact writes_bind writes_get fun j => writes_bind (writes_compileInst env index i) fun _ =>
      writes_bind writes_get fun k => writes_bind writes_checkMargin fun _ =>
      writes_bind (ih _) fun rest => writes_pure _

/-- The listing of a block goes to the log. -/
theorem writes_listBlock (start : UInt32) (target : Nat) (code : List InstCode) :
    Keeps Writes (listBlock start target code) :=
  writes_bind writes_get fun _ => writes_bind (writes_note _) fun _ =>
    Keeps.forM (R := Writes) .refl (fun h => h.trans) (fun _ => writes_bind (writes_note _) fun _ =>
      Keeps.forM (R := Writes) .refl (fun h => h.trans) (fun _ => writes_note _) _) _

/-- Filling up a short body appends to it. -/
theorem writes_padBody (target : Nat) : Keeps Writes (padBody target) := by
  refine writes_bind writes_get fun j => ?_
  dsimp only
  split
  · exact writes_bind (writes_onCode (CodeCache.keeps_append _)) fun _ => writes_pure _
  · exact writes_pure _

/-- Code that is wanted or not is appended or not. -/
theorem writes_emitWhen (wanted : Bool) (x : Emit Unit) : Keeps Writes (emitWhen wanted x) := by
  rw [emitWhen]
  split
  · exact writes_bind (writes_onDraft x) fun _ => writes_flushPiece
  · exact writes_pure _

/-! ## Listing, and windows around it all -/

/-- Steps that append code, one after the other, append code. -/
theorem keeps_bind {x : Action Jit α} {f : α → Action Jit β} (hx : Keeps Appends x)
    (hf : ∀ a, Keeps Appends (f a)) : Keeps Appends (x >>= f) :=
  Keeps.bind (R := Appends) (fun h => h.trans) hx hf

/-- A step that writes code and lists no block appends code. -/
theorem keeps_of_writes {x : Action Jit α} (hx : Keeps Writes x) : Keeps Appends x :=
  fun j => (hx j).toAdds

theorem keeps_note (n : Notice) : Keeps Appends (note n) :=
  keeps_of_writes (writes_note n)

theorem keeps_compileInst (env : LowerEnv) (index : Nat) (i : Inst) :
    Keeps Appends (compileInst env index i) :=
  keeps_of_writes (writes_compileInst env index i)

theorem keeps_compileInsts (env : LowerEnv) (index : Nat) (is : List Inst) :
    Keeps Appends (compileInsts env index is) :=
  keeps_of_writes (writes_compileInsts env index is)

theorem keeps_padBody (target : Nat) : Keeps Appends (padBody target) :=
  keeps_of_writes (writes_padBody target)

theorem keeps_emitWhen (wanted : Bool) (x : Emit Unit) : Keeps Appends (emitWhen wanted x) :=
  keeps_of_writes (writes_emitWhen wanted x)

/-- Listing a block takes one off the number of blocks to be listed, and touches no code. -/
theorem keeps_listWhen (wanted : Bool) (start : UInt32) (target : Nat) (code : List InstCode) :
    Keeps Appends (listWhen wanted start target code) := by
  refine keeps_bind Appends.refl fun j => ?_
  dsimp only
  split
  · exact keeps_bind (fun k => ⟨rfl, rfl, rfl, rfl, rfl, .refl _⟩) fun _ =>
      keeps_of_writes (writes_listBlock start target code)
  · exact Appends.refl

/-- Writing a whole block appends code, whether it succeeds or fails. -/
theorem keeps_writeBlock (b : Block) (preload : Bool) : Keeps Appends (writeBlock b preload) :=
  keeps_bind Appends.refl fun _ => keeps_bind Appends.refl fun _ =>
    keeps_bind (keeps_emitWhen _ _) fun _ => keeps_bind Appends.refl fun _ =>
    keeps_bind (fun _ => ⟨rfl, rfl, rfl, rfl, rfl, .refl _⟩) fun _ =>
    keeps_bind (keeps_compileInsts _ _ _) fun _ => keeps_bind (keeps_emitWhen _ _) fun _ =>
    keeps_bind (keeps_padBody _) fun _ => keeps_bind Appends.refl fun _ =>
    keeps_bind (keeps_emitWhen _ _) fun _ => keeps_bind (keeps_listWhen _ _ _ _) fun _ => Appends.refl

/-- Giving a notice does not fail. -/
theorem total_note (n : Notice) : Total (note n) :=
  fun j => ⟨⟨⟩, _, modify_apply _ j⟩

/-- Listing a block does not fail. -/
theorem total_listWhen (wanted : Bool) (start : UInt32) (target : Nat) (code : List InstCode) :
    Total (listWhen wanted start target code) := by
  have hget : Total (get : Action Jit Jit) := fun j => ⟨j, j, rfl⟩
  refine hget.bind fun j => ?_
  dsimp only
  split
  · refine Total.bind (fun k => ⟨⟨⟩, _, rfl⟩) fun _ => hget.bind fun _ =>
      (total_note _).bind fun _ => Total.forM (fun _ => ?_) _
    exact (total_note _).bind fun _ => Total.forM (fun _ => total_note _) _
  · exact fun k => ⟨⟨⟩, k, rfl⟩

/-- Listing comes last and does not fail, so a block that cannot be written has not been listed. -/
theorem failing_writeBlock (b : Block) (preload : Bool) :
    KeepsFailing Writes (writeBlock b preload) :=
  have step {α β : Type} {x : Action Jit α} {f : α → Action Jit β} (hx : Keeps Writes x)
      (hf : ∀ a, KeepsFailing Writes (f a)) : KeepsFailing Writes (x >>= f) :=
    KeepsFailing.bind (R := Writes) (fun h => h.trans) hx hf
  step writes_get fun _ => step writes_get fun _ => step (writes_emitWhen _ _) fun _ =>
    step writes_get fun _ => step (writes_modify fun j => .of_draft j _) fun _ =>
    step (writes_compileInsts _ _ _) fun _ => step (writes_emitWhen _ _) fun _ =>
    step (writes_padBody _) fun _ => step writes_get fun _ => step (writes_emitWhen _ _) fun _ =>
    .of_total ((total_listWhen _ _ _ _).bind fun _ k => ⟨_, k, rfl⟩)

/-- A step in a window that fails has listed no block. -/
theorem logBlocks_of_inWindow_error {opened : Action CodeCache (Option Window)}
    {x : Action Jit α} (hx : KeepsFailing Writes x) {e : JitError} {j k : Jit}
    (h : inWindow opened x j = .error e k) : k.logBlocks = j.logBlocks := by
  have hopen : Keeps (fun j k : Jit => k.logBlocks = j.logBlocks) (onCode opened) :=
    Keeps.onPart (S := fun _ _ => True) (fun _ => trivial) fun _ _ _ => rfl
  obtain hrefused | ⟨w, l, hok, hrest⟩ := bind_eq_error.mp h
  · exact hopen.of_error hrefused
  · obtain ⟨i, hfails, rfl⟩ := andFinally_eq_error.mp hrest
    exact (hx _ _ _ hfails).logBlocks.trans (hopen.of_ok hok)

/-- Appending inside a window that is opened and closed adds code. -/
theorem keeps_inWindow {x : Action Jit α} (hx : Keeps Appends x) :
    Keeps Grows (inWindow CodeCache.openAppend x) := by
  refine Keeps.bind (R := Grows) (fun h => h.trans) ?_ fun w => ?_
  · exact CodeCache.keeps_openAppend.onPart fun _ _ h => ⟨rfl, rfl, rfl, rfl, rfl, h⟩
  · refine Keeps.andFinally (R := Grows) (fun h => h.trans) (fun j => (hx j).grows) fun j => ?_
    exact ⟨rfl, rfl, rfl, rfl, rfl, CodeCache.grows_closeWindow w j.code⟩

end

end Jit

end Dynarec
