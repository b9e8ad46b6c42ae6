import Dynarec.Proofs.Jit.Recorded

/-!
# Invalidated blocks

The body of a block that has been invalidated starts with a jump to the dispatcher, and keeps it
until the cache is cleared, whatever is compiled, linked, replaced or invalidated in the meantime
and whatever the platform refuses.

This is so as long as only new blocks are registered: an entry that is a copy of one in the table
can be invalid from the start, and then says that there is a redirection where there is none.

The jump may have been written over an exit site of the block itself.  It stays because the sites
that are patched later are sites on record, which belong to valid blocks, and the copies of two
blocks lie apart (`Jit.Resited.coded`); code that is added goes behind the cursor.
-/

namespace Dynarec

open Lower Dynarec.Action CodeCache

namespace Jit

section

variable {allowed : BlockEntry → Prop} {wanted : Block → Prop} {j k : Jit}

theorem Coded.changes (hc : j.Coded) (hj : j.Tidy) (h : Changes allowed wanted j k) : k.Coded := by
  induction h with
  | refl => exact hc
  | tail hbefore hlast ih => exact ih.change (hj.changes hbefore) hlast.change

end

/-- Whatever operations were carried out and whatever the platform refused, the cache holds the
guards, leads and redirections of the blocks, and the routines are where they were. -/
theorem coded_applyAll {config : Config} {table : HandlerTable} {host host' : Host} {j : Jit}
    (hcreate : create config table host = .ok j host') (ops : List Op) :
    (j.applyAll ops).Coded ∧ (j.applyAll ops).stubs = j.stubs := by
  have hj := (create_spec hcreate).orderly
  have hchanges : Changes (fun _ => True) (fun _ => True) j (j.applyAll ops) :=
    applyAll_changes hj.toTidy (permitted_true j ops) fun _ _ => trivial
  exact ⟨hj.coded.changes hj.toTidy hchanges, (logged_of_changes hchanges).stubs⟩

/-- The code that redirects a block is that of an exit to its own address that is not linked. -/
theorem padded_redirect (stubs : Stubs) (start : UInt32) :
    padded (redirect stubs start) minBodyLen = linkCode stubs start none := rfl

/-- The body of an invalid block that does not start at address zero begins with sixteen bytes that
load its address, jump to the dispatcher and fill the rest, in every state that operations lead to
that register new blocks. -/
theorem invalid_body_redirected {config : Config} {table : HandlerTable} {host host' : Host}
    {j k : Jit} {ops : List (OpWith BlockEntry)} (hcreate : create config table host = .ok j host')
    (hnew : ∀ e ∈ ops.filterMap OpWith.registered?, e.IsNew)
    (hk : k = j.applyAll ops) {num t : Nat} {entry : BlockEntry}
    (hfound : k.blocks.get? num = some entry) (hinvalid : entry.valid = false)
    (hzero : entry.block.start ≠ 0) (htarget : entry.target = some t) :
    ∃ jump, JumpBytes (addressOf (t + 5)) j.stubs.dispatcherPc jump ∧
      k.code.bytes t 16 =
        0xb8 :: Word.bytes32 entry.block.start ++ jump ++ List.replicate 6 0xcc := by
  rw [← applyAll_renew hnew] at hk
  obtain ⟨hcoded, hstubs⟩ := coded_applyAll hcreate (ops.map OpWith.renew)
  have htidy := tidy_applyAll hcreate (ops.map OpWith.renew)
  rw [← hk] at hcoded hstubs htidy
  obtain ⟨ps, hcopy⟩ := htidy.laid.pieces num entry t hfound htarget
  have hheld := hcoded.redirected num entry t ps hcopy hinvalid hzero
  rw [hstubs, padded_redirect] at hheld
  -- the bytes of an exit that is not linked are known already
  have hsite : SiteBytes j.stubs t entry.block.start none (k.code.bytes t 16) :=
    siteBytes_of_holds hheld
  generalize k.code.bytes t 16 = bs at hsite
  cases hsite with
  | unlinked hjump => exact ⟨_, hjump, rfl⟩

/-- A block that starts with an exit is compiled and replaced; then the block that both leave for is
compiled twice. -/
def replacedOps : List (OpWith BlockEntry) :=
  [.addAndCompile leaveBlock,
   .addAndCompile leaveBlock,
   .addAndCompile (.new { start := 0x2000, insts := [{ op := .exitToConst, constant := 0x1000 }] }),
   .compile 2]

/-- The platform refuses to link the replacement the first time.  The exit of the replaced block,
which was under its redirection, is not patched. -/
theorem invalid_body_redirected_replacedOps :
    ∃ j host, create {} .default { refuseProtect := [10] } = .ok j host ∧
      ¬ (j.applyAll replacedOps).Unrefused ∧
      ∃ entry t jump, (j.applyAll replacedOps).blocks.get? 0 = some entry ∧ entry.valid = false ∧
        entry.block.start = 0x1000 ∧ entry.target = some t ∧
        JumpBytes (addressOf (t + 5)) j.stubs.dispatcherPc jump ∧
        (j.applyAll replacedOps).code.bytes t 16 =
          0xb8 :: Word.bytes32 0x1000 ++ jump ++ List.replicate 6 0xcc := by
  have hruns : succeeds (create {} .default { refuseProtect := [10] }) (fun j _ =>
      decide (¬ (j.applyAll replacedOps).Unrefused) &&
      ((j.applyAll replacedOps).blocks.get? 0).any fun entry =>
        !entry.valid && entry.block.start == 0x1000 && entry.target.isSome) = true := by
    decide +kernel
  obtain ⟨j, host, hcreate, htests⟩ := exists_of_succeeds hruns
  simp only [Bool.and_eq_true, decide_eq_true_eq] at htests
  obtain ⟨hrefused, hblock⟩ := htests
  obtain ⟨entry, hfound, hentry⟩ := Option.any_eq_true _ _ |>.mp hblock
  simp only [Bool.and_eq_true, Bool.not_eq_true', beq_iff_eq] at hentry
  obtain ⟨⟨hinvalid, hstart⟩, hsome⟩ := hentry
  obtain ⟨t, htarget⟩ := Option.isSome_iff_exists.mp hsome
  have hzero : entry.block.start ≠ 0 := by
    rw [hstart]
    decide
  obtain ⟨jump, hjump, hbytes⟩ := invalid_body_redirected hcreate (by decide)
    (rfl : j.applyAll replacedOps = _) hfound hinvalid hzero htarget
  rw [hstart] at hbytes
  exact ⟨j, host, hcreate, hrefused, entry, t, jump, hfound, hinvalid, hstart, htarget, hjump,
    hbytes⟩

/-- A block is compiled and invalidated; the cache is cleared, and another block is compiled in its
place.  Then a copy of the entry that the first block had is registered. -/
def revivedOps : List (OpWith BlockEntry) :=
  [.addAndCompile leaveBlock,
   .invalidate 0,
   .clearCache,
   .addAndCompile (.new { start := 0x3000, insts := [{ op := .exitToConst, constant := 0x4000 }] }),
   .addBlock { leaveEntry with valid := false }]

/-- Blocks have to be new.  The copy of the entry of an invalid block is invalid and has a body,
which is now the code of another block. -/
theorem copied_entry_not_redirected :
    ∃ j host, create {} .default {} = .ok j host ∧ (j.applyAll revivedOps).Unrefused ∧
      (j.applyAll (revivedOps.take 2)).blocks.get? 0 = some { leaveEntry with valid := false } ∧
      ∃ entry t, (j.applyAll revivedOps).blocks.get? 2 = some entry ∧ entry.valid = false ∧
        entry.block.start = 0x1000 ∧ entry.target = some t ∧
        ¬ ∃ jump, JumpBytes (addressOf (t + 5)) j.stubs.dispatcherPc jump ∧
          (j.applyAll revivedOps).code.bytes t 16 =
            0xb8 :: Word.bytes32 0x1000 ++ jump ++ List.replicate 6 0xcc := by
  have hruns : succeeds (create {} .default {}) (fun j _ =>
      decide (j.applyAll revivedOps).Unrefused &&
      (j.applyAll (revivedOps.take 2)).blocks.get? 0 == some { leaveEntry with valid := false } &&
      (j.applyAll revivedOps).blocks.get? 2 == some { leaveEntry with valid := false } &&
      ((j.applyAll revivedOps).code.bytes 4120 16).take 3 == [0xb8, 0x00, 0x40]) = true := by
    decide +kernel
  obtain ⟨j, host, hcreate, htests⟩ := exists_of_succeeds hruns
  simp only [Bool.and_eq_true, decide_eq_true_eq, beq_iff_eq] at htests
  obtain ⟨⟨⟨hunrefused, hcopied⟩, hfound⟩, hbytes⟩ := htests
  refine ⟨j, host, hcreate, hunrefused, hcopied, _, 4120, hfound, rfl, rfl, rfl, ?_⟩
  rintro ⟨jump, -, hjump⟩
  rw [hjump] at hbytes
  cases hbytes

end Jit

end Dynarec
