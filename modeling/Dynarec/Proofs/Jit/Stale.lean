import Dynarec.Proofs.Jit.Recorded

/-!
# Invalidating a block again

A block that is no longer valid may be invalidated again.  Its body is redirected to the dispatcher
already, and none of its entries and exits are on record, so the code, the block table and the
entries of all blocks stay exactly as they are.  But the exits to its address are forgotten once
more.  If another block has taken its place in between, these are exits that are linked to that
block, and they fall off the record while their code still jumps there.
-/

namespace Dynarec

open Lower Dynarec.Action CodeCache

namespace Jit

section

variable {j k : Jit} {num : Nat} {entry : BlockEntry}

/-- An invalid block has no exits on record. -/
theorem Tabled.exitsOf_of_invalid (ht : j.Tabled) (hfound : j.blocks.get? num = some entry)
    (hinvalid : entry.valid = false) : j.links.exitsOf num = [] := by
  refine List.eq_nil_iff_forall_not_mem.mpr fun e he => ?_
  obtain ⟨-, entry', t, ps, p, hcopy, hvalid, -⟩ := ht.recorded num e he
  cases hfound.symm.trans hcopy.found
  exact absurd (hvalid.symm.trans hinvalid) (by decide)

theorem Tabled.native?_of_invalid (ht : j.Tabled) (hfound : j.blocks.get? num = some entry)
    (hinvalid : entry.valid = false) : j.links.native? num = none := by
  cases hnative : j.links.native? num with
  | none => rfl
  | some n =>
    obtain ⟨entry', ps, hcopy, hvalid, -⟩ := (ht.native num n).mp hnative
    cases hfound.symm.trans hcopy.found
    exact absurd (hvalid.symm.trans hinvalid) (by decide)

/-- The body of an invalid block is redirected already. -/
theorem Invalidated.byte_eq (h : j.Invalidated k num entry) (hj : j.Orderly)
    (hinvalid : entry.valid = false) (o : Nat) : k.code.byte o = j.code.byte o := by
  -- Bytes of the body are written again with what they hold; other bytes are not written.
  by_cases hin : ∃ t, entry.target = some t ∧ entry.block.start ≠ 0 ∧ t ≤ o ∧ o < t + minBodyLen
  · obtain ⟨t, htarget, hzero, hlow, hhigh⟩ := hin
    obtain ⟨ps, hcopy⟩ := hj.laid.pieces num entry t h.found htarget
    exact (h.redirected t htarget hzero).byte_eq
      (hj.coded.redirected num entry t ps hcopy hinvalid hzero) hlow
      (by rw [codeSize_padded_redirect]; exact hhigh)
  · exact h.byte o fun t ht hzero hrange => hin ⟨t, ht, hzero, hrange⟩

/-- No block of a state in order that is invalid stands for its address, so invalidating it again
leaves the block table as it is. -/
theorem Invalidated.blocks_eq (h : j.Invalidated k num entry) (hj : j.Tabled)
    (hinvalid : entry.valid = false) : k.blocks = j.blocks := by
  rw [h.blocks]
  refine Blocks.invalidate_eq_self h.found hinvalid fun hfind => ?_
  obtain ⟨entry', hfound, hvalid, -⟩ := (hj.standing _ _).mp hfind
  cases h.found.symm.trans hfound
  exact absurd (hvalid.symm.trans hinvalid) (by decide)

end

/-- Invalidating an invalid block again succeeds and leaves the code, the cursor, the block table
and the entries of all blocks as they are.  Exactly the exits to its address fall off the record:
the state is the same for the lists of exits, too, just in case there are none on record. -/
theorem invalidate_stale {config : Config} {table : HandlerTable} {host host' : Host} {j k : Jit}
    {ops : List Op} {num : Nat} {entry : BlockEntry}
    (hcreate : create config table host = .ok j host') (hk : k = j.applyAll ops)
    (hunrefused : k.Unrefused) (hfound : k.blocks.get? num = some entry)
    (hinvalid : entry.valid = false) (hagain : (after (invalidate num k)).Unrefused) :
    ∃ l, invalidate num k = .ok ⟨⟩ l ∧ l.code.size = k.code.size ∧
      (∀ o, l.code.byte o = k.code.byte o) ∧ l.code.cursor = k.code.cursor ∧
      l.blocks = k.blocks ∧ (∀ m, l.links.native? m = k.links.native? m) ∧
      (∀ owner, l.links.exitsOf owner =
        (k.links.exitsOf owner).filter (·.dest ≠ entry.block.start)) ∧
      (∀ pc, l.links.exitsTo pc = if pc = entry.block.start then [] else k.links.exitsTo pc) ∧
      ((∀ owner, l.links.exitsOf owner = k.links.exitsOf owner) ↔
        k.links.exitsTo entry.block.start = []) := by
  subst hk
  have hj := orderly_applyAll hcreate hunrefused
  rcases invalidate_cases hj.laid hfound with
    ⟨l, hl, hinvalidated, -⟩ | ⟨_, _, _, hl, -, hrefused⟩
  · -- an invalid block has no exits on record, so only exits to its address go
    have hnone := hj.tabled.exitsOf_of_invalid hfound hinvalid
    have hexits : ∀ owner, l.links.exitsOf owner =
        ((j.applyAll ops).links.exitsOf owner).filter (·.dest ≠ entry.block.start) := by
      intro owner
      rw [hinvalidated.exitsOf_eq hj.tabled]
      split
      · rename_i heq
        rw [heq, hnone]
        rfl
      · rfl
    refine ⟨l, hl, hinvalidated.size, hinvalidated.byte_eq hj hinvalid, hinvalidated.cursor,
      hinvalidated.blocks_eq hj.tabled hinvalid, ?_, hexits, ?_, ?_⟩
    · intro m
      rw [hinvalidated.native?_eq]
      split
      · rename_i heq
        rw [heq, hj.tabled.native?_of_invalid hfound hinvalid]
      · rfl
    · intro pc
      rw [hinvalidated.links, ← hj.tabled.indexed.exitsTo_eraseLinksTo]
      refine congrFun (Links.eraseBlock_of_no_exits ?_).2 pc
      rw [hj.tabled.indexed.exitsOf_eraseLinksTo, hnone]
      rfl
    · rw [hj.tabled.indexed.exitsTo_eq_nil]
      refine forall_congr' fun owner => ?_
      rw [hexits, List.filter_eq_self]
      simp only [decide_eq_true_eq]
  · rw [hl] at hagain
    exact absurd hagain hrefused

/-- A block is compiled and replaced, and another one is linked to the replacement. -/
def staleOps : List Op :=
  [.addAndCompile { start := 0x2000, insts := [{ op := .exitToConst, constant := 0x1000 }] },
   .addAndCompile { start := 0x2000, insts := [{ op := .exitToConst, constant := 0x3000 }] },
   .addAndCompile { start := 0x1000, insts := [{ op := .exitToConst, constant := 0x2000 }] }]

/-- The first block is invalid, and invalidating it again leaves the code as it is. -/
theorem invalidate_stale_staleOps :
    ∃ j host entry l, create {} .default {} = .ok j host ∧ (j.applyAll staleOps).Unrefused ∧
      (j.applyAll staleOps).blocks.get? 0 = some entry ∧ entry.valid = false ∧
      invalidate 0 (j.applyAll staleOps) = .ok ⟨⟩ l ∧
      (∀ o, l.code.byte o = (j.applyAll staleOps).code.byte o) ∧
      l.blocks = (j.applyAll staleOps).blocks ∧ l.links.exitsTo entry.block.start = [] := by
  have hruns : succeeds (create {} .default {}) (fun j _ =>
      decide (j.applyAll staleOps).Unrefused &&
      decide (after (invalidate 0 (j.applyAll staleOps))).Unrefused &&
      ((j.applyAll staleOps).blocks.get? 0).any fun entry => !entry.valid) = true := by
    decide +kernel
  obtain ⟨j, host, hcreate, htests⟩ := exists_of_succeeds hruns
  simp only [Bool.and_eq_true, decide_eq_true_eq] at htests
  obtain ⟨⟨hunrefused, hagain⟩, hblock⟩ := htests
  obtain ⟨entry, hfound, hentry⟩ := Option.any_eq_true _ _ |>.mp hblock
  have hinvalid : entry.valid = false := by simpa using hentry
  obtain ⟨l, hl, -, hbyte, -, hblocks, -, -, hto, -⟩ :=
    invalidate_stale hcreate (rfl : j.applyAll staleOps = _) hunrefused hfound hinvalid hagain
  refine ⟨j, host, entry, l, hcreate, hunrefused, hfound, hinvalid, hl, hbyte, hblocks, ?_⟩
  rw [hto, if_pos rfl]

/-- The block linked to the replacement has an exit on record before the first block is invalidated
again, and none after it. -/
theorem invalidate_stale_forgets :
    ∃ j host entry l, create {} .default {} = .ok j host ∧ (j.applyAll staleOps).Unrefused ∧
      (j.applyAll staleOps).blocks.get? 0 = some entry ∧ entry.valid = false ∧
      invalidate 0 (j.applyAll staleOps) = .ok ⟨⟩ l ∧ l.Unrefused ∧
      (j.applyAll staleOps).links.exitsOf 2 ≠ [] ∧ l.links.exitsOf 2 = [] := by
  have hruns : succeeds (create {} .default {}) (fun j _ =>
      decide (j.applyAll staleOps).Unrefused &&
      ((j.applyAll staleOps).blocks.get? 0).any (fun entry => !entry.valid) &&
      succeeds (invalidate 0 (j.applyAll staleOps)) (fun _ l =>
        decide l.Unrefused && (l.links.exitsOf 2).isEmpty) &&
      !((j.applyAll staleOps).links.exitsOf 2).isEmpty) = true := by
    decide +kernel
  obtain ⟨j, host, hcreate, htests⟩ := exists_of_succeeds hruns
  simp only [Bool.and_eq_true, decide_eq_true_eq] at htests
  obtain ⟨⟨⟨hunrefused, hblock⟩, hagain⟩, hbefore⟩ := htests
  obtain ⟨entry, hfound, hentry⟩ := Option.any_eq_true _ _ |>.mp hblock
  obtain ⟨⟨⟩, l, hl, hafter⟩ := exists_of_succeeds hagain
  simp only [Bool.and_eq_true, decide_eq_true_eq, List.isEmpty_iff] at hafter
  refine ⟨j, host, entry, l, hcreate, hunrefused, hfound, by simpa using hentry, hl, hafter.1, ?_,
    hafter.2⟩
  simpa using hbefore

end Jit

end Dynarec
