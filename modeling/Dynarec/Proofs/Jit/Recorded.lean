import Dynarec.Proofs.Jit.Ops

/-!
# Exits on record

After any operations that were not refused, the bytes of an exit on record are exactly those of a
jump to the checked entry of the block that stands for its destination, or of a jump to the
dispatcher if no compiled block does.  The invariant behind it is `Jit.RecordsLinked`; what is left
to do here is to read instructions as bytes.
-/

namespace Dynarec

open Lower Dynarec.Action CodeCache

/-- The bytes of a direct jump at an address, which counts its distance from its end. -/
def JumpBytes (source target : UInt64) (bs : List UInt8) : Prop :=
  ∃ rel, source + 5 + Word.extend32 rel = target ∧ bs = 0xe9 :: Word.bytes32 rel

namespace Insn

theorem jumpBytes_of_encode? {ip target : UInt64} {bs : List UInt8}
    (h : (jmp target).encode? ip = some bs) : JumpBytes ip target bs := by
  obtain ⟨rel, hrel, rfl⟩ := Option.map_eq_some_iff.mp h
  exact ⟨rel, add_extend32_of_distance? hrel, rfl⟩

end Insn

/-- The bytes of an exit site at an offset that leaves for a guest address: what stands for the
address says whether it is linked. -/
inductive SiteBytes (stubs : Stubs) (offset : Nat) (dest : UInt32) :
    Option Native → List UInt8 → Prop
  | linked {n : Native} {jump : List UInt8}
    (hjump : JumpBytes (addressOf offset) (addressOf n.checked) jump) :
    SiteBytes stubs offset dest (some n) (jump ++ List.replicate 11 0xcc)
  | unlinked {jump : List UInt8}
    (hjump : JumpBytes (addressOf (offset + 5)) stubs.dispatcherPc jump) :
    SiteBytes stubs offset dest none
      (0xb8 :: Word.bytes32 dest ++ jump ++ List.replicate 6 0xcc)

namespace Lower

/-- The instructions of an exit site are its bytes. -/
theorem siteBytes_of_holds {c : CodeCache} {stubs : Stubs} {offset : Nat} {dest : UInt32}
    {n : Option Native}
    (h : c.Holds offset (linkCode stubs dest (n.map fun n => addressOf n.checked))) :
    SiteBytes stubs offset dest n (c.bytes offset exitSiteLen) := by
  have hcode := h.code
  rw [codeSize_linkCode] at hcode
  cases n with
  | some n =>
    -- the jump is five bytes long, and fillers take up the rest
    have hlisted : Insn.encodeList? (addressOf offset)
        (.jmp (addressOf n.checked) :: List.replicate 11 .int3) =
          some (c.bytes offset exitSiteLen) := hcode
    obtain ⟨jump, pads, hjump, hpads, hbytes⟩ := Insn.encodeList?_cons_eq_some.mp hlisted
    rw [Insn.encodeList?_replicate_int3] at hpads
    cases hpads
    rw [hbytes]
    exact .linked (Insn.jumpBytes_of_encode? hjump)
  | none =>
    have hlisted : Insn.encodeList? (addressOf offset)
        (.mov32i Gpr.scratch dest :: .jmp stubs.dispatcherPc :: List.replicate 6 .int3) =
          some (c.bytes offset exitSiteLen) := hcode
    obtain ⟨move, rest, hmove, hrest, hbytes⟩ := Insn.encodeList?_cons_eq_some.mp hlisted
    obtain ⟨jump, pads, hjump, hpads, rfl⟩ := Insn.encodeList?_cons_eq_some.mp hrest
    rw [Insn.encodeList?_replicate_int3] at hpads
    cases hpads
    cases hmove
    -- the distance is measured from the jump, which is behind the move
    have hsource : addressOf offset + UInt64.ofNat (Insn.mov32i Gpr.scratch dest).size =
        addressOf (offset + 5) := (addressOf_add offset 5).symm
    rw [hsource] at hjump
    rw [hbytes, ← List.append_assoc]
    exact .unlinked (Insn.jumpBytes_of_encode? hjump)

end Lower

namespace Jit

/-- The entries of the block that stands for a guest address, if it is compiled. -/
def nativeAt (j : Jit) (pc : UInt32) : Option Native :=
  (j.blocks.find? pc).bind j.links.native?

theorem linkTarget_eq_nativeAt (j : Jit) (pc : UInt32) :
    j.linkTarget pc = (j.nativeAt pc).map fun n => addressOf n.checked := by
  rw [linkTarget, nativeAt]
  cases j.blocks.find? pc with
  | none => rfl
  | some num =>
    rw [Option.bind_some, Option.bind_some, checkedEntry, Links.checked?, Option.map_map]
    rfl

/-- A state that operations lead to is in order. -/
theorem orderly_applyAll {config : Config} {table : HandlerTable} {host host' : Host} {j : Jit}
    (hcreate : create config table host = .ok j host') {ops : List Op}
    (hunrefused : (j.applyAll ops).Unrefused) : (j.applyAll ops).Orderly :=
  have hj := (create_spec hcreate).orderly
  hj.changes (applyAll_changes hj.toTidy (permitted_true j ops) fun _ => id) hunrefused

/-- Every exit on record is linked exactly as it should be, as long as only new blocks are
registered: its site has sixteen bytes, and they are those of a jump to the checked entry of the
compiled block that stands for its destination, or of a jump to the dispatcher if there is none. -/
theorem recorded_exits_linked {config : Config} {table : HandlerTable} {host host' : Host} {j : Jit}
    (hcreate : create config table host = .ok j host') (ops : List (OpWith BlockEntry))
    (hnew : ∀ e ∈ ops.filterMap OpWith.registered?, e.IsNew)
    (hunrefused : (j.applyAll ops).Unrefused) :
    ∀ owner, ∀ e ∈ (j.applyAll ops).links.exitsOf owner, e.owner = owner ∧ e.len = 16 ∧
      SiteBytes (j.applyAll ops).stubs e.offset e.dest ((j.applyAll ops).nativeAt e.dest)
        ((j.applyAll ops).code.bytes e.offset 16) := by
  rw [← applyAll_renew hnew] at hunrefused ⊢
  have horder := orderly_applyAll hcreate hunrefused
  intro owner e he
  obtain ⟨-, -, -, -, -, -, -, -, -, -, hlen⟩ := horder.tabled.recorded owner e he
  refine ⟨(horder.tabled.indexed owner e he).1, hlen, ?_⟩
  have hheld := horder.linked owner e he trivial
  rw [linkTarget_eq_nativeAt] at hheld
  exact siteBytes_of_holds hheld

/-- A block is compiled, another one that it leaves for is compiled, replaced and compiled again. -/
def replaceOps : List (OpWith BlockEntry) :=
  [.addAndCompile (.new { start := 0x1000, insts := [{ op := .exitToConst, constant := 0x2000 }] }),
   .addAndCompile (.new { start := 0x2000, insts := [{ op := .exitToConst, constant := 0x1000 }] }),
   .addBlock (.new { start := 0x2000, insts := [{ op := .exitToConst, constant := 0x3000 }] }),
   .compile 0,
   .compile 2]

/-- The first block is linked to the replacement, which goes to the dispatcher. -/
theorem recorded_exits_linked_replaceOps :
    ∃ j host, create {} .default {} = .ok j host ∧ (j.applyAll replaceOps).Unrefused ∧
      ∃ e ∈ (j.applyAll replaceOps).links.exitsOf 0, ∃ e' ∈ (j.applyAll replaceOps).links.exitsOf 2,
      ∃ n, (j.applyAll replaceOps).nativeAt 0x2000 = some n ∧
        SiteBytes (j.applyAll replaceOps).stubs e.offset 0x2000 (some n)
          ((j.applyAll replaceOps).code.bytes e.offset 16) ∧
        SiteBytes (j.applyAll replaceOps).stubs e'.offset 0x3000 none
          ((j.applyAll replaceOps).code.bytes e'.offset 16) := by
  have hruns : succeeds (create {} .default {}) (fun j _ =>
      decide (j.applyAll replaceOps).Unrefused &&
      ((j.applyAll replaceOps).nativeAt 0x2000).isSome &&
      ((j.applyAll replaceOps).nativeAt 0x3000).isNone &&
      ((j.applyAll replaceOps).links.exitsOf 0).any (·.dest = 0x2000) &&
      ((j.applyAll replaceOps).links.exitsOf 2).any (·.dest = 0x3000)) = true := by
    decide +kernel
  obtain ⟨j, host, hcreate, htests⟩ := exists_of_succeeds hruns
  simp only [Bool.and_eq_true, decide_eq_true_eq, List.any_eq_true] at htests
  obtain ⟨⟨⟨⟨hunrefused, hsome⟩, hnone⟩, e, he, hdest⟩, e', he', hdest'⟩ := htests
  obtain ⟨n, hn⟩ := Option.isSome_iff_exists.mp hsome
  have hlinked := recorded_exits_linked hcreate replaceOps (by decide) hunrefused
  obtain ⟨-, -, hsite⟩ := hlinked 0 e he
  obtain ⟨-, -, hsite'⟩ := hlinked 2 e' he'
  rw [hdest, hn] at hsite
  rw [hdest', Option.isNone_iff_eq_none.mp hnone] at hsite'
  exact ⟨j, host, hcreate, hunrefused, e, he, e', he', n, hn, hsite, hsite'⟩

/-- A block is compiled; the cache is cleared, and another block is compiled in its place.  Then a
copy of the entry that the first block had is registered and invalidated. -/
def copyOps : List (OpWith BlockEntry) :=
  [.addAndCompile leaveBlock,
   .clearCache,
   .addAndCompile (.new { start := 0x3000, insts := [{ op := .exitToConst, constant := 0x4000 }] }),
   .addBlock leaveEntry,
   .invalidate 2]

/-- Blocks have to be new.  A copy of the entry of a compiled block says where code was that is
gone, and invalidating the copy writes over the exit that is there now. -/
theorem copied_entry_overwrites_exit :
    ∃ j host, create {} .default {} = .ok j host ∧ (j.applyAll copyOps).Unrefused ∧
      (j.applyAll (copyOps.take 1)).blocks.get? 0 = some leaveEntry ∧
      ∃ e ∈ (j.applyAll copyOps).links.exitsOf 1, e.dest = 0x4000 ∧
        ¬ SiteBytes (j.applyAll copyOps).stubs e.offset e.dest ((j.applyAll copyOps).nativeAt e.dest)
          ((j.applyAll copyOps).code.bytes e.offset 16) := by
  have hruns : succeeds (create {} .default {}) (fun j _ =>
      decide (j.applyAll copyOps).Unrefused &&
      (j.applyAll (copyOps.take 1)).blocks.get? 0 == some leaveEntry &&
      ((j.applyAll copyOps).links.exitsOf 1).any fun e => e.dest == 0x4000 &&
        ((j.applyAll copyOps).code.bytes e.offset 16).take 3 == [0xb8, 0x00, 0x10]) = true := by
    decide +kernel
  obtain ⟨j, host, hcreate, htests⟩ := exists_of_succeeds hruns
  simp only [Bool.and_eq_true, decide_eq_true_eq, List.any_eq_true, beq_iff_eq] at htests
  obtain ⟨⟨hunrefused, hcopied⟩, e, he, hdest, hbytes⟩ := htests
  refine ⟨j, host, hcreate, hunrefused, hcopied, e, he, hdest, fun hsite => ?_⟩
  rw [hdest] at hsite
  -- neither a jump nor the load of 0x4000 begins with the bytes of the load of 0x1000
  generalize (j.applyAll copyOps).nativeAt 0x4000 = native,
    (j.applyAll copyOps).code.bytes e.offset 16 = bs at hsite hbytes
  cases hsite with
  | linked hjump =>
    obtain ⟨rel, -, rfl⟩ := hjump
    cases hbytes
  | unlinked hjump => cases hbytes

end Jit

end Dynarec
