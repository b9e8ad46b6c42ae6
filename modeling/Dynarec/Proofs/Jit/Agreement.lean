import Dynarec.Proofs.Jit.Ops

/-!
# The tables agree

Some facts about blocks are kept twice: whether a block is valid and which block stands for an
address, where the body of a block starts according to the block table and according to the link
table.  They are updated at different moments, and an operation may fail in between.  They agree all
the same after any operations that register new blocks, whatever the platform refused and whether or
not space ran out: that is what `Jit.Tidy` says about the tables, read without the layout of the
code.  A copy of an entry, registered again, is not new, and makes them disagree.
-/

namespace Dynarec

open Lower Dynarec.Action CodeCache

namespace Jit

section

variable {j : Jit}

/-- Two valid blocks do not start at the same address. -/
theorem Tabled.valid_unique (ht : j.Tabled) {num num' : Nat} {entry entry' : BlockEntry}
    (hfound : j.blocks.get? num = some entry) (hvalid : entry.valid)
    (hfound' : j.blocks.get? num' = some entry') (hvalid' : entry'.valid)
    (hstart : entry.block.start = entry'.block.start) : num = num' := by
  have hstands := (ht.standing _ num).mpr ⟨entry, hfound, hvalid, rfl⟩
  have hstands' := (ht.standing _ num').mpr ⟨entry', hfound', hvalid', rfl⟩
  rw [hstart] at hstands
  exact Option.some.inj (hstands.symm.trans hstands')

/-- Both tables know the same body of a valid block. -/
theorem Tidy.target_eq (hj : j.Tidy) {num : Nat} {entry : BlockEntry}
    (hfound : j.blocks.get? num = some entry) (hvalid : entry.valid) :
    entry.target = (j.links.native? num).map (·.target) := by
  cases hnative : j.links.native? num with
  | some n =>
    obtain ⟨entry', ps, hcopy, -⟩ := (hj.tabled.native num n).mp hnative
    cases hfound.symm.trans hcopy.found
    exact hcopy.target
  | none =>
    cases htarget : entry.target with
    | none => rfl
    | some t =>
      -- a valid block with a body has entries in the link table
      obtain ⟨ps, hcopy⟩ := hj.laid.pieces num entry t hfound htarget
      have hsome := (hj.tabled.native num ⟨t, checkedAt j.layoutEnv t ps⟩).mpr
        ⟨entry, ps, hcopy, hvalid, rfl⟩
      cases hnative.symm.trans hsome

/-- Looking up an address finds the body of the valid block that starts there. -/
theorem Tidy.lookup_eq_some (hj : j.Tidy) {pc : UInt32} {a : UInt64} :
    j.lookup pc = some a ↔
      ∃ num entry t, j.blocks.get? num = some entry ∧ entry.valid ∧ entry.block.start = pc ∧
        entry.target = some t ∧ a = addressOf t := by
  constructor
  · intro h
    obtain ⟨num, hfind, hentry⟩ := Option.bind_eq_some_iff.mp h
    obtain ⟨entry, hfound, hvalid, hstart⟩ := (hj.tabled.standing pc num).mp hfind
    simp only [entryAddress, hfound, Option.bind_eq_bind, Option.bind_some, hvalid, if_true] at hentry
    obtain ⟨n, hnative, rfl⟩ := Option.map_eq_some_iff.mp hentry
    refine ⟨num, entry, n.target, hfound, hvalid, hstart, ?_, rfl⟩
    rw [hj.target_eq hfound hvalid, hnative]
    rfl
  · rintro ⟨num, entry, t, hfound, hvalid, hstart, htarget, rfl⟩
    have hfind := (hj.tabled.standing pc num).mpr ⟨entry, hfound, hvalid, hstart⟩
    rw [hj.target_eq hfound hvalid] at htarget
    obtain ⟨n, hnative, rfl⟩ := Option.map_eq_some_iff.mp htarget
    rw [lookup, hfind, Option.bind_some, entryAddress, hfound]
    simp only [Option.bind_eq_bind, Option.bind_some, hvalid, if_true]
    rw [nativeEntry, hnative]
    rfl

/-- The owner of an exit on record is compiled. -/
theorem Tidy.owner_compiled (hj : j.Tidy) {owner : Nat} {e : Exit}
    (he : e ∈ j.links.exitsOf owner) : (j.links.native? owner).isSome := by
  obtain ⟨-, entry, t, ps, p, hcopy, hvalid, -⟩ := hj.tabled.recorded owner e he
  have hnative := hj.target_eq hcopy.found hvalid
  rw [hcopy.target] at hnative
  obtain ⟨n, hn, -⟩ := Option.map_eq_some_iff.mp hnative.symm
  rw [hn]
  rfl

end

/-- The tables agree after any operations that register new blocks, whether they succeeded or
failed.  A block is valid exactly if it stands for its address, so there is one valid block for an
address at most; only valid blocks are compiled; both tables know the same body of a valid block,
and looking up an address finds the body of the compiled valid block that starts there; the owner of
every exit on record is compiled. -/
theorem tables_agree {config : Config} {table : HandlerTable} {host host' : Host} {j k : Jit}
    {ops : List (OpWith BlockEntry)} (hcreate : create config table host = .ok j host')
    (hnew : ∀ e ∈ ops.filterMap OpWith.registered?, e.IsNew) (hk : k = j.applyAll ops) :
    (∀ pc num, k.blocks.find? pc = some num ↔
      ∃ entry, k.blocks.get? num = some entry ∧ entry.valid ∧ entry.block.start = pc) ∧
    (∀ num num' entry entry', k.blocks.get? num = some entry → entry.valid →
      k.blocks.get? num' = some entry' → entry'.valid → entry.block.start = entry'.block.start →
      num = num') ∧
    (∀ num n, k.links.native? num = some n →
      ∃ entry, k.blocks.get? num = some entry ∧ entry.valid) ∧
    (∀ num entry, k.blocks.get? num = some entry → entry.valid →
      entry.target = (k.links.native? num).map (·.target)) ∧
    (∀ pc a, k.lookup pc = some a ↔
      ∃ num entry t, k.blocks.get? num = some entry ∧ entry.valid ∧ entry.block.start = pc ∧
        entry.target = some t ∧ a = addressOf t) ∧
    (∀ owner, ∀ e ∈ k.links.exitsOf owner, e.owner = owner ∧ (k.links.native? owner).isSome) := by
  have hj := tidy_applyAll hcreate (ops.map OpWith.renew)
  rw [applyAll_renew hnew, ← hk] at hj
  refine ⟨hj.tabled.standing, ?_, ?_, ?_, ?_, ?_⟩
  · intro num num' entry entry' hfound hvalid hfound' hvalid'
    exact hj.tabled.valid_unique hfound hvalid hfound' hvalid'
  · intro num n hnative
    obtain ⟨entry, ps, hcopy, hvalid, -⟩ := (hj.tabled.native num n).mp hnative
    exact ⟨entry, hcopy.found, hvalid⟩
  · exact fun num entry => hj.target_eq
  · exact fun pc a => hj.lookup_eq_some
  · exact fun owner e he => ⟨(hj.tabled.indexed owner e he).1, hj.owner_compiled he⟩

/-- A block is compiled, and so is one that it leaves for; then that one is replaced. -/
def refusedOps : List (OpWith BlockEntry) :=
  [.addAndCompile leaveBlock,
   .addAndCompile (.new { start := 0x2000, insts := [{ op := .exitToConst, constant := 0x1000 }] }),
   .addAndCompile (.new { start := 0x2000, insts := [{ op := .exitToConst, constant := 0x3000 }] })]

/-- The platform refuses to link the first block to the second, and then to redirect the second; so
it is not replaced, and stays the one that stands for its address. -/
theorem tables_agree_refusedOps :
    ∃ j host, create {} .default { refuseProtect := [6, 7] } = .ok j host ∧
      ¬ (j.applyAll refusedOps).Unrefused ∧ (j.applyAll refusedOps).blocks.get? 2 = none ∧
      ∃ entry t, (j.applyAll refusedOps).blocks.get? 1 = some entry ∧ entry.valid ∧
        entry.target = some t ∧
        ((j.applyAll refusedOps).links.native? 1).map (·.target) = some t ∧
        (j.applyAll refusedOps).lookup 0x2000 = some (addressOf t) := by
  have hruns : succeeds (create {} .default { refuseProtect := [6, 7] }) (fun j _ =>
      decide (¬ (j.applyAll refusedOps).Unrefused) &&
      ((j.applyAll refusedOps).blocks.get? 2).isNone &&
      ((j.applyAll refusedOps).blocks.get? 1).any fun entry =>
        entry.valid && entry.block.start == 0x2000 && entry.target.isSome) = true := by
    decide +kernel
  obtain ⟨j, host, hcreate, htests⟩ := exists_of_succeeds hruns
  simp only [Bool.and_eq_true, decide_eq_true_eq, Option.isNone_iff_eq_none] at htests
  obtain ⟨⟨hrefused, hnone⟩, hblock⟩ := htests
  obtain ⟨entry, hfound, hentry⟩ := Option.any_eq_true _ _ |>.mp hblock
  simp only [Bool.and_eq_true, beq_iff_eq] at hentry
  obtain ⟨⟨hvalid, hstart⟩, hsome⟩ := hentry
  obtain ⟨t, htarget⟩ := Option.isSome_iff_exists.mp hsome
  obtain ⟨-, -, -, hsame, hlookup, -⟩ :=
    tables_agree hcreate (by decide) (rfl : j.applyAll refusedOps = _)
  refine ⟨j, host, hcreate, hrefused, hnone, entry, t, hfound, hvalid, htarget, ?_, ?_⟩
  · exact (hsame 1 entry hfound hvalid).symm.trans htarget
  · exact (hlookup 0x2000 (addressOf t)).mpr ⟨1, entry, t, hfound, hvalid, hstart, htarget, rfl⟩

/-- A block is compiled, and a copy of its entry is registered. -/
def secondEntryOps : List (OpWith BlockEntry) :=
  [.addAndCompile leaveBlock, .addBlock leaveEntry]

/-- A block is compiled and invalidated, and a copy of its entry is registered. -/
def invalidEntryOps : List (OpWith BlockEntry) :=
  [.addAndCompile leaveBlock, .invalidate 0, .addBlock { leaveEntry with valid := false }]

/-- Blocks have to be new.  The copy of the entry of a compiled block has a body that the link table
does not know, and the copy of the entry of an invalid block stands for its address. -/
theorem copied_entry_tables_disagree :
    ∃ j host, create {} .default {} = .ok j host ∧
      (j.applyAll (secondEntryOps.take 1)).blocks.get? 0 = some leaveEntry ∧
      (j.applyAll secondEntryOps).blocks.get? 1 = some leaveEntry ∧ leaveEntry.valid ∧
      leaveEntry.target ≠ ((j.applyAll secondEntryOps).links.native? 1).map (·.target) ∧
      (j.applyAll (invalidEntryOps.take 2)).blocks.get? 0 = some { leaveEntry with valid := false } ∧
      (j.applyAll invalidEntryOps).blocks.find? 0x1000 = some 1 ∧
      ¬ ∃ entry, (j.applyAll invalidEntryOps).blocks.get? 1 = some entry ∧ entry.valid ∧
        entry.block.start = 0x1000 := by
  have hruns : succeeds (create {} .default {}) (fun j _ =>
      (j.applyAll (secondEntryOps.take 1)).blocks.get? 0 == some leaveEntry &&
      (j.applyAll secondEntryOps).blocks.get? 1 == some leaveEntry &&
      ((j.applyAll secondEntryOps).links.native? 1).isNone &&
      (j.applyAll (invalidEntryOps.take 2)).blocks.get? 0 == some { leaveEntry with valid := false } &&
      (j.applyAll invalidEntryOps).blocks.find? 0x1000 == some 1 &&
      (j.applyAll invalidEntryOps).blocks.get? 1 == some { leaveEntry with valid := false }) =
        true := by
    decide +kernel
  obtain ⟨j, host, hcreate, htests⟩ := exists_of_succeeds hruns
  simp only [Bool.and_eq_true, Option.isNone_iff_eq_none, beq_iff_eq] at htests
  obtain ⟨⟨⟨⟨⟨hcopied, hfound⟩, hnone⟩, hcopied'⟩, hfind⟩, hfound'⟩ := htests
  refine ⟨j, host, hcreate, hcopied, hfound, rfl, ?_, hcopied', hfind, ?_⟩
  · rw [hnone]
    decide
  · rintro ⟨entry, hentry, hvalid, -⟩
    cases hfound'.symm.trans hentry
    cases hvalid

end Jit

end Dynarec
