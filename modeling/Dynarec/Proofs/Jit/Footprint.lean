import Dynarec.Proofs.Jit.Bodies
import Dynarec.Proofs.Jit.Retry

/-!
# Which bytes an operation may change

All code shares one region, and operations write to it in three places: behind the cursor, at the
exit sites that are on record for an address, and at the start of the body of a block.  `Op.Touches`
names for each operation the bytes that it may change, from the tables of the state it starts in.
Whatever the history of the state, and whether the operation succeeds or fails, all other bytes keep
their values.

The fixed routines are in front of all of these places, so that they stay as they were written.
-/

namespace Dynarec

open Lower Dynarec.Action CodeCache

namespace Jit

/-- The bytes that are overwritten when a block is redirected: the start of its body, if it is
compiled and its address is not zero. -/
def Redirects (j : Jit) (num o : Nat) : Prop :=
  ∃ entry t, j.blocks.get? num = some entry ∧ entry.target = some t ∧ entry.block.start ≠ 0 ∧
    t ≤ o ∧ o < t + minBodyLen

/-- The bytes that may change when a valid block is compiled: behind the cursor, at the exit sites
of other blocks that are on record for its address, and anywhere behind the fixed routines if the
cache has to be cleared for it. -/
def Recompiles (j : Jit) (preload : Bool) (num o : Nat) : Prop :=
  ∃ entry, j.blocks.get? num = some entry ∧ entry.valid ∧ j.stubs.blocksStart ≤ o ∧
    (j.outgrows preload num ∨ j.code.cursor ≤ o ∨
      ∃ owner ≠ num, ∃ e ∈ j.links.exitsOf owner, e.dest = entry.block.start ∧
        e.offset ≤ o ∧ o < e.offset + e.len)

/-- The bytes that may change when the block that stands for an address gives way. -/
def Displaces (j : Jit) (pc : UInt32) (o : Nat) : Prop :=
  ∃ num, j.blocks.find? pc = some num ∧ j.Redirects num o

end Jit

/-- The bytes that an operation may change. -/
def Op.Touches (j : Jit) : Op → Nat → Prop
  | .addBlock b, o => j.Displaces b.start o
  | .compile num, o => j.Recompiles false num o
  | .preload num, o => j.Recompiles true num o
  | .addAndCompile b, o => j.Displaces b.start o ∨
    ∃ num k, Jit.addBlock b j = .ok num k ∧ k.Recompiles false num o
  | .invalidate num, o => j.Redirects num o
  | .invalidatePc pc, o => j.Displaces pc o
  | .clearCache, _ => False

namespace Jit

section

variable {j k : Jit} {allowed : BlockEntry → Prop} {wanted : Block → Prop}

/-! ## The fixed routines -/

/-- Patching exits that are on record changes bytes of blocks only. -/
theorem Tidy.byte_of_resited (hj : j.Tidy) {start : UInt32}
    (h : j.Resited k (j.links.exitsTo start)) {o : Nat} (ho : o < j.stubs.blocksStart) :
    k.code.byte o = j.code.byte o := by
  refine h.byte o fun e he => ?_
  obtain ⟨-, hlow, -⟩ := hj.site_bounds (hj.tabled.indexed.mem_exitsTo.mp he).1
  omega

/-- No change reaches the fixed routines. -/
theorem Tidy.byte_of_change (hj : j.Tidy) (h : Change allowed wanted j k) {o : Nat}
    (ho : o < j.stubs.blocksStart) : k.code.byte o = j.code.byte o := by
  have hcursor := hj.laid.ready.low
  have hlinked {num : Nat} {entry : BlockEntry} {n : Native} {ps : List Piece} {l : Jit}
      (hfound : j.blocks.get? num = some entry) (hvalid : entry.valid)
      (hcompiled : j.Compiled l num entry.block n ps)
      (hresited : l.Resited k (l.links.exitsTo entry.block.start)) :
      k.code.byte o = j.code.byte o := by
    have hl : l.Tidy :=
      ⟨hj.laid.compiled hfound hcompiled, hj.tabled.compiled hfound hvalid hcompiled⟩
    rw [hl.byte_of_resited hresited (by rw [hcompiled.stubs]; exact ho)]
    exact hcompiled.code.byte o (by omega)
  cases h with
  | grows hgrows _ => exact hgrows.code.byte o (by omega)
  | cleared hcleared => exact hcleared.byte o
  | linked hfound hvalid hcompiled hrelinked =>
    exact hlinked hfound hvalid hcompiled hrelinked.toResited
  | torn hfound hvalid hcompiled hresited _ => exact hlinked hfound hvalid hcompiled hresited
  | invalidated _ hinvalidated =>
    refine hinvalidated.byte o fun t ht _ => ?_
    have hlow := (hj.laid.redirect_bounds hinvalidated.found ht).1
    omega
  | added _ _ hadded => rw [hadded]

theorem Tidy.byte_of_changes (hj : j.Tidy) (h : Changes allowed wanted j k) {o : Nat}
    (ho : o < j.stubs.blocksStart) : k.code.byte o = j.code.byte o := by
  induction h with
  | refl => rfl
  | tail hfirst hlast ih =>
    rw [(hj.changes hfirst).byte_of_change hlast.change
      (by rw [(logged_of_changes hfirst).stubs]; exact ho)]
    exact ih

/-! ## Invalidating and registering -/

theorem Tidy.byte_of_invalidate (hj : j.Tidy) {num o : Nat} (ho : ¬ j.Redirects num o) :
    (after (invalidate num j)).code.byte o = j.code.byte o := by
  cases hfound : j.blocks.get? num with
  | none =>
    rw [invalidate_unknown hfound]
    rfl
  | some entry =>
    rcases invalidate_cases hj.laid hfound with ⟨k, hk, hinvalidated, -⟩ | ⟨_, _, host, hk, -⟩
    · rw [hk]
      exact hinvalidated.byte o fun t ht hzero hinside => ho ⟨entry, t, hfound, ht, hzero, hinside⟩
    · rw [hk]
      rfl

theorem Tidy.byte_of_invalidatePc (hj : j.Tidy) {pc : UInt32} {o : Nat} (ho : ¬ j.Displaces pc o) :
    (after (invalidatePc pc j)).code.byte o = j.code.byte o := by
  rw [invalidatePc, bind_of_ok (get_apply j)]
  cases hfind : j.blocks.find? pc with
  | none => rfl
  | some num =>
    simp only
    rw [after_bind_pure]
    exact hj.byte_of_invalidate fun hredirects => ho ⟨num, hfind, hredirects⟩

/-- Registering a block changes no byte once the block before it has given way. -/
theorem Tidy.byte_of_addBlock (hj : j.Tidy) {b : Block} {o : Nat} (ho : ¬ j.Displaces b.start o) :
    (after (addBlock b j)).code.byte o = j.code.byte o := by
  rw [← hj.byte_of_invalidatePc ho, addBlock, BlockEntry.block_new]
  cases hdisplaced : invalidatePc b.start j with
  | error e k => rw [bind_of_error hdisplaced, after_error, after_error]
  | ok found k => rw [bind_of_ok hdisplaced]; rfl

/-! ## Compiling -/

/-- Compiling a block where there is space, and linking it. -/
theorem Tidy.byte_of_attempt (hj : j.Tidy) {num : Nat} {entry : BlockEntry} {preload : Bool}
    (hfound : j.blocks.get? num = some entry) (hvalid : entry.valid) {o : Nat}
    (hcursor : o < j.code.cursor)
    (hsites : ∀ owner ≠ num, ∀ e ∈ j.links.exitsOf owner, e.dest = entry.block.start →
      ¬ (e.offset ≤ o ∧ o < e.offset + e.len)) :
    (after (attempt preload num j)).code.byte o = j.code.byte o := by
  rw [attempt]
  cases h : compileBlock num preload j with
  | error e k =>
    rw [bind_of_error h]
    exact (compileBlock_error hj.laid.ready.draft h).1.code.byte o hcursor
  | ok _ l =>
    obtain ⟨entry', n, ps, hfound', hcompiled⟩ := compileBlock_spec hj.laid.ready.reaches
      hj.laid.ready.high hj.laid.ready.size_le hj.laid.ready.draft h
    cases hfound.symm.trans hfound'
    have hl : l.Tidy :=
      ⟨hj.laid.compiled hfound hcompiled, hj.tabled.compiled hfound hvalid hcompiled⟩
    rw [bind_of_ok h, ← hcompiled.code.byte o hcursor]
    -- the block's own exits are behind the old cursor; the others were on record before
    have houtside : ∀ e ∈ l.links.exitsTo entry.block.start,
        ¬ (e.offset ≤ o ∧ o < e.offset + exitSiteLen) := by
      intro e he
      obtain ⟨hmem, hdest⟩ := hl.tabled.indexed.mem_exitsTo.mp he
      obtain ⟨hlen, -, -⟩ := hl.site_bounds hmem
      by_cases howner : e.owner = num
      · rw [howner] at hmem
        obtain ⟨-, p, hp, -, hoffset, -⟩ := hcompiled.mem_exitsOf_self hmem
        have hstart := (piece_bounds hcompiled.written.pieces hp).1
        have hsite := p.start_le_site
        have hlow := hcompiled.low
        have hle := copyLow_le j.lowerEnv n.target
        omega
      · rw [hcompiled.exitsOf_eq, if_neg howner] at hmem
        rw [← hlen]
        exact hsites _ howner e hmem hdest
    rcases (linkBlock_cases hj hfound hvalid hcompiled).2 with
      ⟨k, hk, hlinked⟩ | ⟨_, _, k, done, left, hk, hexits, -, hlinked, -⟩
    · rw [hk]
      exact hlinked.byte o houtside
    · rw [hk]
      refine hlinked.byte o fun e he => houtside e ?_
      rw [hexits]
      exact List.mem_append_left _ he

theorem Tidy.byte_of_compileAs (hj : j.Tidy) {preload : Bool} {num o : Nat}
    (ho : ¬ j.Recompiles preload num o) :
    (after (compileAs preload num j)).code.byte o = j.code.byte o := by
  by_cases hlow : o < j.stubs.blocksStart
  · exact hj.byte_of_changes (compileAs_changes (fun _ => True) (fun _ => True) hj preload num) hlow
  cases hfound : j.blocks.get? num with
  | none =>
    rw [compileAs, bind_of_ok (get_apply j), hfound]
    rfl
  | some entry =>
    by_cases hvalid : entry.valid
    · have hnot : ∀ {p : Prop}, (p → j.outgrows preload num ∨ j.code.cursor ≤ o ∨
          ∃ owner ≠ num, ∃ e ∈ j.links.exitsOf owner, e.dest = entry.block.start ∧
            e.offset ≤ o ∧ o < e.offset + e.len) → ¬ p := fun h hp =>
        ho ⟨entry, hfound, hvalid, Nat.not_lt.mp hlow, h hp⟩
      have hfits : j.outgrows preload num = false := eq_false_of_ne_true (hnot .inl)
      rw [compileAs_eq_attempt hfound hvalid (compileOrClear_of_fits hfound hvalid hfits)]
      exact hj.byte_of_attempt hfound hvalid (Nat.not_le.mp (hnot (.inr ∘ .inl)))
        fun owner howner e he hdest => hnot fun hinside =>
          .inr (.inr ⟨owner, howner, e, he, hdest, hinside⟩)
    · rw [compileAs, bind_of_ok (get_apply j), hfound]
      simp only [if_neg hvalid]
      rfl

/-! ## Operations -/

/-- An operation changes none of the bytes that it does not touch. -/
theorem Tidy.byte_of_apply (hj : j.Tidy) {op : Op} {o : Nat} (ho : ¬ op.Touches j o) :
    (j.apply op).code.byte o = j.code.byte o := by
  cases op with
  | addBlock b =>
    rw [apply, OpWith.run, after_bind_pure]
    exact hj.byte_of_addBlock ho
  | compile num => exact hj.byte_of_compileAs ho
  | preload num => exact hj.byte_of_compileAs ho
  | addAndCompile b =>
    -- what registering the block touches is part of what the operation touches
    have hadd := hj.byte_of_addBlock fun hdisplaces => ho (.inl hdisplaces)
    rw [apply, OpWith.run, after_bind_pure, addAndCompile, entry_eq_new, ← hadd]
    cases h : Jit.addBlock b j with
    | error e k => rw [bind_of_error h]
    | ok num k =>
      have hchanges : Changes (fun _ => True) (fun _ => True) j (after (Jit.addBlock b j)) :=
        addBlock_changes hj trivial fun _ _ => trivial
      rw [h] at hchanges
      rw [bind_of_ok h, after_bind_pure]
      exact (hj.changes hchanges).byte_of_compileAs fun hrecompiles =>
        ho (.inr ⟨num, k, h, hrecompiles⟩)
  | invalidate num => exact hj.byte_of_invalidate ho
  | invalidatePc pc =>
    rw [apply, OpWith.run, after_bind_pure]
    exact hj.byte_of_invalidatePc ho
  | clearCache => rfl

end

/-- Only the intended bytes change.  In every state that operations lead to, whatever the platform
refused, the bytes in front of the blocks are as they were at the start, and the next operation
changes none of the bytes that it does not touch, whether it succeeds or fails. -/
theorem only_touched_bytes_change {config : Config} {table : HandlerTable} {host host' : Host}
    {j₀ j : Jit} (hcreate : create config table host = .ok j₀ host') (hj : j₀.Evolves j) :
    j.stubs = j₀.stubs ∧
    (∀ o < j.stubs.blocksStart, j.code.byte o = j₀.code.byte o) ∧
    ∀ (op : Op) o, ¬ op.Touches j o → (j.apply op).code.byte o = j.code.byte o := by
  have hj₀ := (create_spec hcreate).orderly.toTidy
  have hchanges := hj.changes hj₀
  have hstubs := (logged_of_changes hchanges).stubs
  refine ⟨hstubs, fun o ho => ?_, fun op o ho => (hj₀.changes hchanges).byte_of_apply ho⟩
  rw [hstubs] at ho
  exact hj₀.byte_of_changes hchanges ho

/-- The second of two blocks is compiled again.  A byte of the first one changes, so it belongs to
the exit site that leads to the second. -/
theorem only_touched_bytes_change_chainOps :
    ∃ j host o, create {} .default {} = .ok j host ∧
      o < (j.applyAll chainOps).code.cursor ∧
      ((j.applyAll chainOps).apply (.compile 1)).code.byte o ≠ (j.applyAll chainOps).code.byte o ∧
      Op.Touches (j.applyAll chainOps) (.compile 1) o := by
  have hruns : succeeds (create {} .default {}) (fun j _ =>
      decide (4121 < (j.applyAll chainOps).code.cursor) &&
      decide (((j.applyAll chainOps).apply (.compile 1)).code.byte 4121 ≠
        (j.applyAll chainOps).code.byte 4121)) = true := by
    decide +kernel
  obtain ⟨j, host, hcreate, htests⟩ := exists_of_succeeds hruns
  rw [Bool.and_eq_true, decide_eq_true_eq, decide_eq_true_eq] at htests
  obtain ⟨hinside, hchanged⟩ := htests
  have hevolves : j.Evolves (j.applyAll chainOps) := (Evolves.refl.apply _).apply _
  obtain ⟨-, -, hframe⟩ := only_touched_bytes_change hcreate hevolves
  refine ⟨j, host, 4121, hcreate, hinside, hchanged, Classical.not_not.mp fun hnot => ?_⟩
  exact hchanged (hframe (.compile 1) 4121 hnot)

end Jit

end Dynarec
