import Dynarec.Proofs.Jit.Failure
import Dynarec.Proofs.Jit.Outcome

/-!
# Clearing the cache and trying again

When space runs out for a block, the cache is cleared and the block is compiled once more.  That is
enough: if the platform refuses nothing, a block is compiled unless there is too little space for it
in an empty cache too (`retry_is_complete`).

Whether a block can be compiled depends on the space alone (`HasRoom`), and as the code of a block
is equally long everywhere, a block that has room somewhere has room further down
(`HasRoom.of_add`).  So the cache is never cleared in vain, unless no clearing would help.
-/

namespace Dynarec

open Lower Dynarec.Action CodeCache

namespace Jit

/-- There is as much space for a block from an offset on as is asked for: before it, and behind each
of its pieces. -/
def HasRoom (env : LowerEnv) (size low : Nat) (b : Block) : Prop :=
  safetyMargin ≤ size - low ∧
    ∃ ps, blockPieces env b (low + frontLen env) = some ps ∧ Roomy env.config size ps

/-- A block that has room has room further down. -/
theorem HasRoom.of_add {env : LowerEnv} {size low d : Nat} {b : Block}
    (h : HasRoom env size (low + d) b) : HasRoom env size low b := by
  obtain ⟨hmargin, ps, hps, hroomy⟩ := h
  refine ⟨by omega, ?_⟩
  rw [blockPieces, Nat.add_right_comm, pieces_add] at hps
  obtain ⟨qs, hqs, rfl⟩ := Option.map_eq_some_iff.mp hps
  refine ⟨qs, hqs, fun q hq => ?_⟩
  have hshifted := hroomy _ (List.mem_map_of_mem hq)
  rw [Piece.stop_shift] at hshifted
  omega

/-- Only one block has code, which starts where the code of blocks does, and all exits on record are
its own. -/
structure OnlyCompiled (k : Jit) (num : Nat) : Prop where
  native : ∀ m, (k.links.native? m).isSome ↔ m = num
  low : ∀ n, k.links.native? num = some n → copyLow k.layoutEnv n.target = k.stubs.blocksStart
  exits : ∀ m ≠ num, k.links.exitsOf m = []
  owned : ∀ pc, ∀ e ∈ k.links.exitsTo pc, e.owner = num

/-- No block has code, and no exits are on record. -/
structure NoneCompiled (k : Jit) : Prop where
  links : k.links = .empty
  target : ∀ m entry, k.blocks.get? m = some entry → entry.target = none

/-- Code has been added for a block behind all other code, and the code and the exits of the other
blocks are as before. -/
structure OthersKept (j k : Jit) (num : Nat) : Prop where
  low : ∀ n, k.links.native? num = some n → copyLow k.layoutEnv n.target = j.code.cursor
  cursor : j.code.cursor ≤ k.code.cursor
  native : ∀ m ≠ num, k.links.native? m = j.links.native? m
  exits : ∀ m ≠ num, k.links.exitsOf m = j.links.exitsOf m
  target : ∀ m ≠ num, k.blocks.get? m = j.blocks.get? m

/-- The same blocks are registered, and they are as valid. -/
structure SameBlocks (j k : Jit) : Prop where
  registered : ∀ m, (k.blocks.get? m).map (fun e => (e.block, e.valid)) =
    (j.blocks.get? m).map fun e => (e.block, e.valid)
  standing : ∀ pc, k.blocks.find? pc = j.blocks.find? pc

/-- One attempt to compile a block and to link it. -/
def attempt (preload : Bool) (num : Nat) : Action Jit Unit := do
  compileBlock num preload
  linkBlock num

section

variable {i j k l : Jit} {num : Nat} {entry : BlockEntry}

theorem SameBlocks.trans (hij : i.SameBlocks j) (hjk : j.SameBlocks k) : i.SameBlocks k :=
  ⟨fun m => (hjk.registered m).trans (hij.registered m),
    fun pc => (hjk.standing pc).trans (hij.standing pc)⟩

theorem SameBlocks.of_blocks (h : k.blocks = j.blocks) : j.SameBlocks k :=
  ⟨fun m => by rw [h], fun pc => by rw [h]⟩

theorem sameBlocks_of_resetTargets (h : k.blocks = j.blocks.resetTargets) : j.SameBlocks k where
  registered m := by
    rw [h, Blocks.get?_resetTargets, Option.map_map]
    rfl
  standing pc := by rw [h, Blocks.find?_resetTargets]

theorem Compiled.sameBlocks {n : Native} {b : Block} {ps : List Piece}
    (h : j.Compiled l num b n ps) : j.SameBlocks l where
  registered m := by
    rw [h.blocks, Blocks.get?_setTarget]
    split
    · rw [Option.map_map]
      rfl
    · rfl
  standing pc := by rw [h.blocks, Blocks.find?_setTarget]

/-- Whether a block can be compiled is a matter of space, if the platform refuses nothing. -/
theorem compileBlock_of_unrefused (hj : j.Ready) (hfound : j.blocks.get? num = some entry)
    (preload : Bool) (hunrefused : (after (compileBlock num preload j)).Unrefused) :
    (HasRoom j.layoutEnv j.code.size j.code.cursor entry.block ∧
        ∃ k, compileBlock num preload j = .ok ⟨⟩ k) ∨
      (¬ HasRoom j.layoutEnv j.code.size j.code.cursor entry.block ∧
        ∃ r q k, compileBlock num preload j = .error (.codeSpaceExhausted r q) k) := by
  obtain ⟨ps, hps, hends⟩ := compileBlock_ends hj hfound preload
  rw [blockPieces_lowerEnv] at hps
  generalize compileBlock num preload j = result at hends hunrefused
  cases hends with
  | full hfull _ => exact .inr ⟨fun hroom => absurd hroom.1 (Nat.not_le.mpr hfull), _, _, _, rfl⟩
  | refused _ hrefused => exact absurd hunrefused hrefused
  | short _ hshort _ =>
    refine .inr ⟨fun hroom => ?_, _, _, _, rfl⟩
    obtain ⟨ps', hps', hroomy⟩ := hroom.2
    cases hps.symm.trans hps'
    obtain ⟨done, rest, rfl, -⟩ := hshort.first
    exact absurd (hroomy _ (by simp)) (Nat.not_le.mpr hshort.short)
  | written hroom hroomy => exact .inl ⟨⟨hroom, ps, hps, hroomy⟩, _, rfl⟩

/-- An attempt fails only where there is no room for the block, if the platform refuses nothing. -/
theorem attempt_of_unrefused (hj : j.Tidy) (hfound : j.blocks.get? num = some entry)
    (hvalid : entry.valid) (preload : Bool)
    (hunrefused : (after (attempt preload num j)).Unrefused) :
    (HasRoom j.layoutEnv j.code.size j.code.cursor entry.block ∧
        ∃ l n ps k, compileBlock num preload j = .ok ⟨⟩ l ∧ j.Compiled l num entry.block n ps ∧
          attempt preload num j = .ok ⟨⟩ k ∧ l.Resited k (l.links.exitsTo entry.block.start)) ∨
      (¬ HasRoom j.layoutEnv j.code.size j.code.cursor entry.block ∧
        ∃ r q k, compileBlock num preload j = .error (.codeSpaceExhausted r q) k ∧
          attempt preload num j = .error (.codeSpaceExhausted r q) k) := by
  cases h : compileBlock num preload j with
  | error e k =>
    rw [attempt, bind_of_error h] at hunrefused
    rcases compileBlock_of_unrefused hj.laid.ready hfound preload
      (by rw [h]; exact hunrefused) with ⟨-, l, hl⟩ | ⟨hroom, r, q, l, hl⟩
    · cases h.symm.trans hl
    · cases h.symm.trans hl
      exact .inr ⟨hroom, r, q, _, rfl, by rw [attempt, bind_of_error h]⟩
  | ok _ l =>
    obtain ⟨entry', n, ps, hfound', hcompiled⟩ := compileBlock_spec hj.laid.ready.reaches
      hj.laid.ready.high hj.laid.ready.size_le hj.laid.ready.draft h
    cases hfound.symm.trans hfound'
    obtain ⟨hlogged, hlinked⟩ := linkBlock_cases hj hfound hvalid hcompiled
    rw [attempt, bind_of_ok h] at hunrefused
    rcases compileBlock_of_unrefused hj.laid.ready hfound preload
      (by rw [h]; exact hunrefused.of_later hlogged.later) with ⟨hroom, -⟩ | ⟨-, r, q, k, hk⟩
    · rcases hlinked with ⟨k, hk, hrelinked⟩ | ⟨_, _, k, done, left, hk, -, -, -, hrefused⟩
      · exact .inl ⟨hroom, l, n, ps, k, rfl, hcompiled, by rw [attempt, bind_of_ok h, hk],
          hrelinked.toResited⟩
      · -- linking stops on the way only if it is refused
        rw [hk] at hunrefused
        exact absurd hunrefused hrefused
    · cases h.symm.trans hk

theorem compileAs_eq_attempt (hfound : j.blocks.get? num = some entry) (hvalid : entry.valid)
    {preload : Bool} (h : compileOrClear num preload j = compileBlock num preload i) :
    compileAs preload num j = attempt preload num i := by
  rw [compileAs, bind_of_ok (get_apply j)]
  simp only [hfound, if_pos hvalid]
  rw [attempt, bind_apply, bind_apply, h]

/-- A block that is compiled at once leaves the other blocks as they are. -/
theorem Compiled.othersKept {n : Native} {b : Block} {ps : List Piece} {es : List Exit}
    (h : j.Compiled l num b n ps) (hlinked : l.Resited k es) : j.OthersKept k num where
  low n' hn' := by
    rw [hlinked.links, h.native?_eq, if_pos rfl] at hn'
    cases hn'
    rw [hlinked.layoutEnv_eq, h.layoutEnv_eq]
    exact h.low
  cursor := by
    rw [hlinked.cursor]
    exact h.code.cursor
  native m hm := by rw [hlinked.links, h.native?_eq, if_neg hm]
  exits m hm := by rw [hlinked.links, h.exitsOf_eq, if_neg hm]
  target m hm := by rw [hlinked.blocks, h.blocks, Blocks.get?_setTarget, if_neg hm]

/-- A block that is compiled in an empty cache is the only one there. -/
theorem Compiled.onlyCompiled {n : Native} {ps : List Piece} {es : List Exit} (hj : j.Tidy)
    (hfound : j.blocks.get? num = some entry) (hvalid : entry.valid)
    (h : j.Compiled l num entry.block n ps) (hlinked : l.Resited k es) (hempty : j.links = .empty)
    (hstart : j.code.cursor = j.stubs.blocksStart) : k.OnlyCompiled num := by
  have hnative : ∀ m, k.links.native? m = if m = num then some n else none := by
    intro m
    rw [hlinked.links, h.native?_eq, hempty]
    rfl
  have hexits : ∀ m ≠ num, k.links.exitsOf m = [] := by
    intro m hm
    rw [hlinked.links, h.exitsOf_eq, if_neg hm, hempty, Links.exitsOf_empty]
  refine ⟨fun m => ?_, fun n' hn' => ?_, hexits, fun pc e he => ?_⟩
  · rw [hnative]
    split <;> simp_all
  · rw [hnative, if_pos rfl] at hn'
    cases hn'
    rw [hlinked.layoutEnv_eq, h.layoutEnv_eq, hlinked.stubs, h.stubs, ← hstart]
    exact h.low
  · have hindexed := (hj.tabled.compiled hfound hvalid h).indexed
    rw [hlinked.links] at he hexits
    by_contra howner
    have hmem := (hindexed.mem_exitsTo.mp he).1
    rw [hexits _ howner] at hmem
    cases hmem

/-- Whatever was written before, in an empty cache there is the same room for a block. -/
theorem Tidy.emptied (hj : j.Tidy) (hfound : j.blocks.get? num = some entry) (hgrows : j.Grows l)
    (hdraft : l.draft = j.draft) (hcleared : l.Cleared i) :
    i.Tidy ∧ i.blocks.get? num = some { entry with target := none } ∧
      i.code.cursor = i.stubs.blocksStart ∧
      (HasRoom i.layoutEnv i.code.size i.code.cursor entry.block ↔
        HasRoom j.layoutEnv j.code.size j.stubs.blocksStart entry.block) := by
  have hl : l.Tidy := ⟨hj.laid.grows hgrows hdraft, hj.tabled.grows hgrows⟩
  have hstart : i.code.cursor = l.stubs.blocksStart := by
    rw [hcleared.cursor]
    exact Nat.min_eq_left (Nat.le_trans hl.laid.ready.low hl.laid.ready.high)
  refine ⟨(hl.cleared hcleared).toTidy, ?_, by rw [hstart, hcleared.stubs], ?_⟩
  · rw [hcleared.blocks, Blocks.get?_resetTargets, hgrows.blocks, hfound]
    rfl
  · rw [hstart, hcleared.size, hgrows.code.size, hgrows.stubs,
      layoutEnv_eq (hcleared.config.trans hgrows.config) (hcleared.table.trans hgrows.table)
        (hcleared.stubs.trans hgrows.stubs)]

/-- Without space running out, a block is compiled and linked where it is. -/
theorem Tidy.compileAs_once (hj : j.Tidy) (hfound : j.blocks.get? num = some entry)
    (hvalid : entry.valid) {preload : Bool}
    (honce : ¬ ∃ e k, compileBlock num preload j = .error e k ∧ e.isOutOfSpace)
    (hunrefused : (after (compileAs preload num j)).Unrefused) :
    HasRoom j.layoutEnv j.code.size j.stubs.blocksStart entry.block ∧
      ∃ l k, compileBlock num preload j = .ok ⟨⟩ l ∧ compileAs preload num j = .ok ⟨⟩ k ∧
        j.OthersKept k num ∧ j.SameBlocks k := by
  rw [compileAs_eq_attempt hfound hvalid (compileOrClear_of_not_exhausted honce)] at hunrefused ⊢
  rcases attempt_of_unrefused hj hfound hvalid preload hunrefused with
    ⟨hroom, l, n, ps, k, hl, hcompiled, hk, hlinked⟩ | ⟨-, r, q, k, hk, -⟩
  · rw [← Nat.add_sub_cancel' hj.laid.ready.low] at hroom
    exact ⟨hroom.of_add, l, k, hl, hk, hcompiled.othersKept hlinked,
      hcompiled.sameBlocks.trans (.of_blocks hlinked.blocks)⟩
  · exact absurd ⟨_, k, hk, rfl⟩ honce

/-- After space has run out, the cache is empty when a block is compiled. -/
theorem Tidy.compileAs_again (hj : j.Tidy) (hfound : j.blocks.get? num = some entry)
    (hvalid : entry.valid) {preload : Bool} {e : JitError}
    (hfails : compileBlock num preload j = .error e l) (hspace : e.isOutOfSpace)
    (hunrefused : (after (compileAs preload num j)).Unrefused) :
    (HasRoom j.layoutEnv j.code.size j.stubs.blocksStart entry.block ∧
        ∃ k, compileAs preload num j = .ok ⟨⟩ k ∧ k.OnlyCompiled num ∧ j.SameBlocks k) ∨
      (¬ HasRoom j.layoutEnv j.code.size j.stubs.blocksStart entry.block ∧
        ∃ r q k, compileAs preload num j = .error (.codeSpaceExhausted r q) k ∧
          k.NoneCompiled ∧ j.SameBlocks k) := by
  obtain ⟨l, i, hgrows, hdraft, -, hcleared, -, hagain⟩ :=
    compileOrClear_of_exhausted hj.laid hfails hspace
  rw [compileAs_eq_attempt hfound hvalid hagain] at hunrefused ⊢
  obtain ⟨hi, hfound', hlow, hroom⟩ := hj.emptied hfound hgrows hdraft hcleared
  have hblocks : i.blocks = j.blocks.resetTargets := by rw [hcleared.blocks, hgrows.blocks]
  rw [← hroom]
  rcases attempt_of_unrefused hi hfound' hvalid preload hunrefused with
    ⟨hfits, l', n, ps, k, -, hcompiled, hk, hlinked⟩ | ⟨hfits, r, q, k, hblock, hk⟩
  · exact .inl ⟨hfits, k, hk,
      hcompiled.onlyCompiled hi hfound' hvalid hlinked hcleared.links hlow,
      (sameBlocks_of_resetTargets hblocks).trans
        (hcompiled.sameBlocks.trans (.of_blocks hlinked.blocks))⟩
  · have hfailed := (compileBlock_error hi.laid.ready.draft hblock).1
    refine .inr ⟨hfits, r, q, k, hk, ⟨hfailed.links.trans hcleared.links, fun m e' he' => ?_⟩,
      (sameBlocks_of_resetTargets hblocks).trans (.of_blocks hfailed.blocks)⟩
    rw [hfailed.blocks, hblocks, Blocks.get?_resetTargets] at he'
    obtain ⟨e'', -, rfl⟩ := Option.map_eq_some_iff.mp he'
    rfl

/-- In an empty cache a block can be compiled if it has room there. -/
theorem Tidy.compileBlock_emptied (hj : j.Tidy) (hfound : j.blocks.get? num = some entry)
    (hcleared : j.Cleared i) {preload : Bool}
    (hunrefused : (after (compileBlock num preload i)).Unrefused) :
    (∃ e k, compileBlock num preload i = .error e k) ↔
      ¬ HasRoom j.layoutEnv j.code.size j.stubs.blocksStart entry.block := by
  obtain ⟨hi, hfound', -, hroom⟩ := hj.emptied hfound (.refl j) rfl hcleared
  rw [← hroom]
  rcases compileBlock_of_unrefused hi.laid.ready hfound' preload hunrefused with
    ⟨hroom, k, hk⟩ | ⟨hroom, r, q, k, hk⟩
  · simp [hk, hroom]
  · simp [hk, hroom]

end

/-- If the platform refuses nothing, a valid block is compiled unless it has no room in an empty
cache either.  The cache is cleared if and only if space runs out at first.  If it is, the block is
the only one with code then, or, where space runs out again, nothing has code and nothing is on
record.  The blocks are registered all the same. -/
theorem retry_is_complete {config : Config} {table : HandlerTable} {host host' : Host} {j₀ j : Jit}
    (hcreate : create config table host = .ok j₀ host') (hj : j₀.Evolves j) {num : Nat}
    {entry : BlockEntry} (hfound : j.blocks.get? num = some entry) (hvalid : entry.valid)
    (preload : Bool) (hunrefused : (after (compileAs preload num j)).Unrefused) :
    (∀ i, j.Cleared i → (after (compileBlock num preload i)).Unrefused →
      ((∃ r q k, compileAs preload num j = .error (.codeSpaceExhausted r q) k) ↔
        ∃ e k, compileBlock num preload i = .error e k)) ∧
    (((∃ l, compileBlock num preload j = .ok ⟨⟩ l) ∧
        ∃ k, compileAs preload num j = .ok ⟨⟩ k ∧ j.OthersKept k num) ∨
      ((∃ r q l, compileBlock num preload j = .error (.codeSpaceExhausted r q) l) ∧
        ((∃ k, compileAs preload num j = .ok ⟨⟩ k ∧ k.OnlyCompiled num) ∨
          ∃ r q k, compileAs preload num j = .error (.codeSpaceExhausted r q) k ∧
            k.NoneCompiled))) ∧
    j.SameBlocks (after (compileAs preload num j)) := by
  have htidy := tidy_of_evolves hcreate hj
  by_cases hspace : ∃ e l, compileBlock num preload j = .error e l ∧ e.isOutOfSpace
  · obtain ⟨e, l, hfails, hspace⟩ := hspace
    have hfirst : ∃ r q l, compileBlock num preload j = .error (.codeSpaceExhausted r q) l := by
      cases e <;> first | exact ⟨_, _, _, hfails⟩ | cases hspace
    rcases htidy.compileAs_again hfound hvalid hfails hspace hunrefused with
      ⟨hroom, k, hk, honly, hsame⟩ | ⟨hroom, r, q, k, hk, hnone, hsame⟩
    · refine ⟨fun i hi hgranted => ?_, .inr ⟨hfirst, .inl ⟨k, hk, honly⟩⟩, by rwa [hk]⟩
      rw [htidy.compileBlock_emptied hfound hi hgranted, hk]
      simp [hroom]
    · refine ⟨fun i hi hgranted => ?_, .inr ⟨hfirst, .inr ⟨r, q, k, hk, hnone⟩⟩, by rwa [hk]⟩
      rw [htidy.compileBlock_emptied hfound hi hgranted, hk]
      simp [hroom]
  · obtain ⟨hroom, l, k, hl, hk, hkept, hsame⟩ :=
      htidy.compileAs_once hfound hvalid hspace hunrefused
    refine ⟨fun i hi hgranted => ?_, .inl ⟨⟨l, hl⟩, k, hk, hkept⟩, by rwa [hk]⟩
    rw [htidy.compileBlock_emptied hfound hi hgranted, hk]
    simp [hroom]

/-- A block with many exits is compiled, and another one like it is registered. -/
def twinOps : List Op :=
  [.addAndCompile { start := 0x1000,
                    insts := List.replicate 40 { op := .exitIfGtZ, constant := 0x2000 } },
   .addBlock { start := 0x2000,
               insts := List.replicate 40 { op := .exitIfGtZ, constant := 0x1000 } }]

/-- Two pages have room for one of the two blocks only, so the cache is cleared for the second one,
which is the only one with code after that. -/
theorem retry_is_complete_twinOps :
    ∃ j host k, create { codeSpace := 0x2000 } .default {} = .ok j host ∧
      (∃ r q l, compileBlock 1 false (j.applyAll twinOps) = .error (.codeSpaceExhausted r q) l) ∧
      compileAs false 1 (j.applyAll twinOps) = .ok ⟨⟩ k ∧ k.OnlyCompiled 1 ∧
      (j.applyAll twinOps).SameBlocks k := by
  have hruns : succeeds (create { codeSpace := 0x2000 } .default {}) (fun j _ =>
      fails (compileBlock 1 false (j.applyAll twinOps)) (fun _ _ => true) &&
      succeeds (compileAs false 1 (j.applyAll twinOps)) (fun _ k => decide k.Unrefused) &&
      ((j.applyAll twinOps).blocks.get? 1).any (·.valid)) = true := by
    decide +kernel
  obtain ⟨j, host, hcreate, htests⟩ := exists_of_succeeds hruns
  simp only [Bool.and_eq_true] at htests
  obtain ⟨⟨hfails, hcompiles⟩, hentry⟩ := htests
  obtain ⟨e, l, hfails, -⟩ := exists_of_fails hfails
  obtain ⟨⟨⟩, k, hcompiles, hunrefused⟩ := exists_of_succeeds hcompiles
  obtain ⟨entry, hfound, hvalid⟩ := (Option.any_eq_true ..).mp hentry
  have hevolves : j.Evolves (j.applyAll twinOps) := (Evolves.refl.apply _).apply _
  obtain ⟨-, hends, hsame⟩ := retry_is_complete hcreate hevolves hfound hvalid false
    (by rw [hcompiles]; exact of_decide_eq_true hunrefused)
  rw [hcompiles] at hsame
  rcases hends with ⟨⟨l', hl'⟩, -⟩ | ⟨hfirst, ⟨k', hk', honly⟩ | ⟨r, q, k', hk', -⟩⟩
  · cases hfails.symm.trans hl'
  · cases hcompiles.symm.trans hk'
    exact ⟨j, host, k, hcreate, hfirst, hcompiles, honly, hsame⟩
  · cases hcompiles.symm.trans hk'

end Jit

end Dynarec
