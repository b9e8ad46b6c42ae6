import Dynarec.Proofs.Jit.Ops

/-!
# What a failed compilation leaves behind

A block can fail to compile at any point: it is not registered, space runs out before it or behind
any of its instructions, the platform refuses a window.  The part that writes the code keeps its
work in the draft until the block is complete, so when it fails the tables are as they were, the
draft is empty and a block compiled later has its own exits on record and no others
(`failed_block_leaves_no_trace`).

Compiling and linking as a whole is not like that.  The new code is installed before the exits to
the block are patched, and the platform can refuse any of the patches.  Then the block is half
installed (`HalfInstalled`): its entries are the new ones, the exits in front of the refused one
lead there, and the others still lead to the old code.  `failed_compile_outcomes` says that there is
no other way for a failure to show, unless the cache was cleared.
-/

namespace Dynarec

open Lower Dynarec.Action CodeCache

namespace Jit

/-- One state leads to another by operations, and by setting the number of blocks to be listed. -/
inductive Evolves (j : Jit) : Jit → Prop
  | refl : Evolves j j
  | apply {k : Jit} (h : Evolves j k) (op : Op) : Evolves j (k.apply op)
  | list {k : Jit} (h : Evolves j k) (count : UInt32) : Evolves j { k with logBlocks := count }

/-- Whatever a client does makes changes. -/
theorem Evolves.changes {j k : Jit} (h : j.Evolves k) (hj : j.Tidy) :
    Changes (fun _ => True) (fun _ => True) j k := by
  induction h with
  | refl => exact .refl
  | apply _ op ih => exact ih.trans (Op.changes (hj.changes ih) (by simp) (by simp))
  | list _ count ih =>
    exact ih.tail ⟨.grows ⟨rfl, rfl, rfl, rfl, rfl, .refl _⟩ rfl, .of_events rfl rfl rfl rfl⟩

/-- Whatever a client does after creating an engine leaves it tidy. -/
theorem tidy_of_evolves {config : Config} {table : HandlerTable} {host host' : Host} {j k : Jit}
    (hcreate : create config table host = .ok j host') (h : j.Evolves k) : k.Tidy :=
  have hj := (create_spec hcreate).orderly.toTidy
  hj.changes (h.changes hj)

/-! ## Writing the code of a block -/

/-- What a failed attempt to compile a block leaves: the tables, the number of blocks to be listed
and the code in front of the cursor are as before, and no work on the block is left over. -/
structure Untouched (j k : Jit) : Prop where
  config : k.config = j.config
  stubs : k.stubs = j.stubs
  blocks : k.blocks = j.blocks
  links : k.links = j.links
  logBlocks : k.logBlocks = j.logBlocks
  byte : ∀ o < j.code.cursor, k.code.byte o = j.code.byte o
  cursor : j.code.cursor ≤ k.code.cursor
  block : k.draft.block = none
  asm : k.draft.asm = .empty
  pieceExits : k.draft.pieceExits = []
  staged : k.draft.staged = []

/-- A block has been compiled, and exactly its exits have been put on record for it.  Those of other
blocks have stayed, unless the cache was cleared for it. -/
def Records (j l : Jit) (num : Nat) : Prop :=
  ∃ entry n ps, j.blocks.get? num = some entry ∧ l.links.native? num = some n ∧
    blockPieces l.layoutEnv entry.block n.target = some ps ∧
    ps.map Piece.inst = entry.block.insts ∧
    (l.links.exitsOf num = (stagedOf l.config ps).map fun e =>
      { owner := num, dest := e.dest, offset := e.offset, len := e.len : Exit }) ∧
    ((∀ owner ≠ num, l.links.exitsOf owner = j.links.exitsOf owner) ∨
      ∀ owner ≠ num, l.links.exitsOf owner = [])

section

variable {j k l : Jit} {num : Nat} {entry : BlockEntry} {n : Native} {ps : List Piece}

/-- Compiling that fails touches nothing that is on record. -/
theorem Tidy.untouched (hj : j.Tidy) {preload : Bool} {e : JitError}
    (h : compileBlock num preload j = .error e k) : j.Untouched k := by
  obtain ⟨hgrows, hdraft, hunlisted⟩ := compileBlock_error hj.laid.ready.draft h
  exact
    { config := hgrows.config, stubs := hgrows.stubs, blocks := hgrows.blocks, links := hgrows.links,
      logBlocks := hunlisted, byte := hgrows.code.byte, cursor := hgrows.code.cursor,
      block := by rw [hdraft]; rfl, asm := by rw [hdraft]; rfl,
      pieceExits := by rw [hdraft]; rfl, staged := by rw [hdraft]; rfl }

theorem Tidy.untouched_refl (hj : j.Tidy) : j.Untouched j := by
  have hdraft := hj.laid.ready.draft
  exact
    { config := rfl, stubs := rfl, blocks := rfl, links := rfl, logBlocks := rfl,
      byte := fun _ _ => rfl, cursor := Nat.le_refl _,
      block := by rw [hdraft]; rfl, asm := by rw [hdraft]; rfl,
      pieceExits := by rw [hdraft]; rfl, staged := by rw [hdraft]; rfl }

/-- Compiling a block puts its code on record. -/
theorem Compiled.records (h : j.Compiled l num entry.block n ps)
    (hfound : j.blocks.get? num = some entry) : j.Records l num := by
  have hpieces : blockPieces l.layoutEnv entry.block n.target = some ps :=
    (h.copy_self hfound).pieces
  refine ⟨entry, n, ps, hfound, by rw [h.native?_eq, if_pos rfl], hpieces, map_inst_pieces hpieces,
    by rw [h.exitsOf_eq, if_pos rfl, h.config], .inl fun owner howner => ?_⟩
  rw [h.exitsOf_eq, if_neg howner]

/-- So it does in a tidy state. -/
theorem Tidy.records_compileBlock (hj : j.Tidy) {preload : Bool}
    (h : compileBlock num preload j = .ok ⟨⟩ l) : j.Records l num := by
  obtain ⟨entry, n, ps, hfound, hcompiled⟩ := compileBlock_spec hj.laid.ready.reaches
    hj.laid.ready.high hj.laid.ready.size_le hj.laid.ready.draft h
  exact hcompiled.records hfound

/-- What is on record does not depend on an attempt that failed before. -/
theorem Records.of_attempted {i : Jit} (h : i.Records l num) (hattempt : j.Attempted i) :
    j.Records l num := by
  obtain ⟨entry', n, ps, hfound', hnative, hpieces, hinsts, hself, hothers⟩ := h
  obtain ⟨entry, hfound, -, hblock⟩ := hattempt.found hfound'
  rw [hblock] at hpieces hinsts
  refine ⟨entry, n, ps, hfound, hnative, hpieces, hinsts, hself, ?_⟩
  rcases hattempt.eq_or_cleared with rfl | ⟨-, hempty⟩
  · exact hothers
  · -- a cleared cache has no exits on record
    right
    intro owner howner
    rcases hothers with hothers | hothers
    · rw [hothers owner howner, hempty, Links.exitsOf_empty]
    · exact hothers owner howner

/-- Linking changes code, not what is on record. -/
theorem Records.resited {es : List Exit} (h : j.Records l num) (hresited : l.Resited k es) :
    j.Records k num := by
  rw [Records, hresited.links, hresited.layoutEnv_eq, hresited.config]
  exact h

/-- So it does with a second attempt and with links. -/
theorem Tidy.records_compileAs (hj : j.Tidy) {preload : Bool}
    (h : compileAs preload num j = .ok ⟨⟩ l) : j.Records l num := by
  have hends := compileAs_ends hj preload num
  rw [h] at hends
  cases hends with
  | linked hattempt hfound _ hcompiled hlinked =>
    exact ((hcompiled.records hfound).of_attempted hattempt).resited hlinked.toResited

end

/-- A block that fails to compile leaves no trace.  The tables, the number of blocks to be listed
and the code in front of the cursor are as before, and so is all code if there was no space to start
in; nothing of the block is left in the draft.  Whatever is compiled after that, or by the second
attempt of the same operation, has exactly its own exits on record. -/
theorem failed_block_leaves_no_trace {config : Config} {table : HandlerTable} {host host' : Host}
    {j₀ j k : Jit} (hcreate : create config table host = .ok j₀ host') (hj : j₀.Evolves j)
    {num : Nat} {preload : Bool} {e : JitError} (hfails : compileBlock num preload j = .error e k) :
    j.Untouched k ∧
    (j.code.remaining < safetyMargin →
      k.code.cursor = j.code.cursor ∧ ∀ o, k.code.byte o = j.code.byte o) ∧
    ∀ i, i = j ∨ k.Evolves i → ∀ m ahead l,
      (compileBlock m ahead i = .ok ⟨⟩ l ∨ compileAs ahead m i = .ok ⟨⟩ l) → i.Records l m := by
  have htidy := tidy_of_evolves hcreate hj
  obtain ⟨hgrows, hdraft, -⟩ := compileBlock_error htidy.laid.ready.draft hfails
  have hk : k.Tidy := ⟨htidy.laid.grows hgrows (hdraft.trans htidy.laid.ready.draft.symm),
    htidy.tabled.grows hgrows⟩
  refine ⟨htidy.untouched hfails, fun hmargin => compileBlock_error_of_margin hmargin hfails, ?_⟩
  intro i hi m ahead l hcompiles
  have hi : i.Tidy := by
    rcases hi with rfl | hevolves
    · exact htidy
    · exact hk.changes (hevolves.changes hk)
  rcases hcompiles with hblock | hwhole
  · exact hi.records_compileBlock hblock
  · exact hi.records_compileAs hwhole

/-- A block is compiled, and one with many exits is registered. -/
def longOps : List Op :=
  [.addAndCompile { start := 0x1000, insts := [{ op := .exitToConst, constant := 0x2000 }] },
   .addBlock { start := 0x2000,
               insts := List.replicate 90 { op := .exitIfGtZ, constant := 0x1000 } }]

/-- Two pages are too few for the long block, with most of its exits staged already.  None of them
is on record when the short one is compiled after that, for which the cache is cleared. -/
theorem failed_block_leaves_no_trace_longOps :
    ∃ j host e k l, create { codeSpace := 0x2000 } .default {} = .ok j host ∧
      compileBlock 1 false (j.applyAll longOps) = .error e k ∧ e.isOutOfSpace ∧
      (j.applyAll longOps).code.cursor < k.code.cursor ∧ (j.applyAll longOps).Untouched k ∧
      compileAs false 0 k = .ok ⟨⟩ l ∧ k.Records l 0 := by
  have hruns : succeeds (create { codeSpace := 0x2000 } .default {}) (fun j _ =>
      fails (compileBlock 1 false (j.applyAll longOps)) fun e k =>
        e.isOutOfSpace && decide ((j.applyAll longOps).code.cursor < k.code.cursor) &&
        succeeds (compileAs false 0 k) fun _ _ => true) = true := by
    decide +kernel
  obtain ⟨j, host, hcreate, hfails⟩ := exists_of_succeeds hruns
  obtain ⟨e, k, hfails, htests⟩ := exists_of_fails hfails
  simp only [Bool.and_eq_true, decide_eq_true_eq] at htests
  obtain ⟨⟨hspace, hmoved⟩, hcompiles⟩ := htests
  obtain ⟨⟨⟩, l, hcompiles, -⟩ := exists_of_succeeds hcompiles
  have hevolves : j.Evolves (j.applyAll longOps) := (Evolves.refl.apply _).apply _
  obtain ⟨huntouched, -, hlater⟩ := failed_block_leaves_no_trace hcreate hevolves hfails
  exact ⟨j, host, e, k, l, hcreate, hfails, hspace, hmoved, huntouched, hcompiles,
    hlater k (.inr .refl) 0 false l (.inr hcompiles)⟩

/-! ## Compiling and linking as a whole -/

/-- A block was compiled in a state `i`, and linking it stopped at an exit that the platform refused
to patch.  Its entries and its own exits are the new ones.  Of the exits to its address, those in
`done` lead to the new code; the others lead to the code that the block had in `i`, or to the
dispatcher if it had none. -/
structure HalfInstalled (i k : Jit) (num : Nat) (start : UInt32) (n : Native)
    (done left : List Exit) : Prop where
  entryAddress : k.entryAddress num = some (addressOf n.target)
  native : k.links.native? num = some n
  behind : i.code.cursor ≤ n.target
  records : i.Records k num
  sites : k.links.exitsTo start = done ++ left
  missed : left ≠ []
  linked : ∀ e ∈ done, k.code.Holds e.offset (linkCode k.stubs start (some (addressOf n.checked)))
  stale : i.RecordsLinked (fun _ => True) → ∀ e ∈ left, e ∉ done →
    k.code.Holds e.offset (linkCode k.stubs start (i.checkedEntry num))

section

variable {j k l : Jit} {num : Nat} {entry : BlockEntry} {n : Native} {ps : List Piece}

/-- Exits to a valid block are linked to its checked entry. -/
theorem Tabled.linkTarget_eq (ht : j.Tabled) (hfound : j.blocks.get? num = some entry)
    (hvalid : entry.valid) : j.linkTarget entry.block.start = j.checkedEntry num := by
  rw [linkTarget, (ht.standing _ num).mpr ⟨entry, hfound, hvalid, rfl⟩, Option.bind_some]

/-- The entry of a valid block is the one on record. -/
theorem entryAddress_eq (hfound : j.blocks.get? num = some entry) (hvalid : entry.valid) :
    j.entryAddress num = j.nativeEntry num := by
  rw [entryAddress, hfound]
  exact if_pos hvalid

/-- A block without code has no entry. -/
theorem entryAddress_of_none (hnative : j.links.native? num = none) :
    j.entryAddress num = none := by
  rw [entryAddress, nativeEntry, hnative]
  cases j.blocks.get? num with
  | none => rfl
  | some entry => exact ite_self none

/-- An exit on record is known by its site. -/
theorem Tidy.exit_eq (hj : j.Tidy) {owner owner' : Nat} {e e' : Exit}
    (he : e ∈ j.links.exitsOf owner) (he' : e' ∈ j.links.exitsOf owner')
    (hoffset : e.offset = e'.offset) (hdest : e.dest = e'.dest) (howner : owner = owner') :
    e = e' := by
  have hfirst := (hj.tabled.indexed owner e he).1
  have hsecond := (hj.tabled.indexed owner' e' he').1
  have hlen := (hj.site_bounds he).1
  have hlen' := (hj.site_bounds he').1
  obtain ⟨o, d, offset, len⟩ := e
  obtain ⟨o', d', offset', len'⟩ := e'
  simp_all

/-- An exit that is not among those patched keeps its jump. -/
theorem Relinked.holds_other {done : List Exit} {a : UInt64} (h : l.Relinked k done a) (hl : l.Tidy)
    {start : UInt32} (hdone : done ⊆ l.links.exitsTo start) {owner : Nat} {e : Exit}
    (he : e ∈ l.links.exitsOf owner) (hnot : e ∉ done) {pc : UInt32} {target : Option UInt64}
    (hheld : l.code.Holds e.offset (linkCode l.stubs pc target)) :
    k.code.Holds e.offset (linkCode k.stubs pc target) := by
  rw [h.stubs]
  refine hheld.congr h.size fun o hlow hhigh => h.byte o fun e' he' => ?_
  obtain ⟨hmem', -⟩ := hl.tabled.indexed.mem_exitsTo.mp (hdone he')
  rw [codeSize_linkCode] at hhigh
  -- two sites on record are apart, unless they are the same
  rcases hl.laid.apart_exits hl.tabled he hmem' with ⟨hoffset, hdest, howner⟩ | hapart
  · obtain rfl := hl.exit_eq he hmem' hoffset hdest howner
    exact absurd he' hnot
  · omega

/-- Linking that stops halfway leaves the block half installed. -/
theorem Compiled.halfInstalled {done left : List Exit} (h : j.Compiled l num entry.block n ps)
    (hj : j.Tidy) (hfound : j.blocks.get? num = some entry) (hvalid : entry.valid)
    (hsites : l.links.exitsTo entry.block.start = done ++ left) (hleft : left ≠ [])
    (hlinked : l.Relinked k done (addressOf n.checked)) :
    j.HalfInstalled k num entry.block.start n done left := by
  have hl : l.Tidy := ⟨hj.laid.compiled hfound h, hj.tabled.compiled hfound hvalid h⟩
  have hnative : k.links.native? num = some n := by rw [hlinked.links, h.native?_eq, if_pos rfl]
  refine
    { entryAddress := ?_, native := hnative, behind := ?_,
      records := (h.records hfound).resited hlinked.toResited,
      sites := by rw [hlinked.links, hsites], missed := hleft, linked := hlinked.held, stale := ?_ }
  · have hfound' := (h.copy_self hfound).found
    rw [← hlinked.blocks] at hfound'
    rw [entryAddress_eq hfound' hvalid, nativeEntry, hnative]
    rfl
  · rw [← h.low]
    exact copyLow_le _ _
  · intro hrecords e he hnot
    -- an exit that was not reached still holds what it was linked to before
    have hmem : e ∈ l.links.exitsTo entry.block.start := by
      rw [hsites]
      exact List.mem_append_right _ he
    obtain ⟨hrecord, hdest⟩ := hl.tabled.indexed.mem_exitsTo.mp hmem
    have hheld := h.holds_site hrecords hj.laid hj.tabled hrecord
    rw [hdest, hj.tabled.linkTarget_eq hfound hvalid] at hheld
    have hdone : done ⊆ l.links.exitsTo entry.block.start := by
      rw [hsites]
      exact List.subset_append_left done left
    exact hlinked.holds_other hl hdone hrecord hnot hheld

end

/-- What a failed operation that compiles and links a block leaves.  Either the block is as before
and, unless the platform refused something earlier, all exits on record lead where they should; or
the cache has been cleared and the block has no code; or the platform refused to patch an exit, and
the block is half installed. -/
theorem failed_compile_outcomes {config : Config} {table : HandlerTable} {host host' : Host}
    {j₀ j k : Jit} (hcreate : create config table host = .ok j₀ host') (hj : j₀.Evolves j)
    {num : Nat} {preload : Bool} {e : JitError} (hfails : compileAs preload num j = .error e k) :
    (j.Untouched k ∧ k.entryAddress num = j.entryAddress num ∧
      (j.Unrefused → k.RecordsLinked fun _ => True)) ∨
    (k.blocks = j.blocks.resetTargets ∧ k.links = .empty ∧ k.entryAddress num = none) ∨
    ∃ i entry n done left,
      (i = j ∨ (i.blocks = j.blocks.resetTargets ∧ i.links = .empty)) ∧
      (j.Unrefused → i.RecordsLinked fun _ => True) ∧
      j.blocks.get? num = some entry ∧ entry.valid ∧
      i.HalfInstalled k num entry.block.start n done left ∧ ¬ k.Unrefused := by
  have htidy := tidy_of_evolves hcreate hj
  have horderly (hunrefused : j.Unrefused) : j.Orderly :=
    have hj₀ := (create_spec hcreate).orderly
    hj₀.changes (hj.changes hj₀.toTidy) hunrefused
  have hends := compileAs_ends htidy preload num
  rw [hfails] at hends
  cases hends with
  | unknown => exact .inl ⟨htidy.untouched_refl, rfl, fun h => (horderly h).linked⟩
  | @unwritten i _ _ hattempt hblock =>
    -- the last attempt failed, in the state given or with an empty cache
    obtain ⟨hgrows, -, -⟩ := compileBlock_error (hattempt.tidy htidy).laid.ready.draft hblock
    rcases hattempt.eq_or_cleared with rfl | ⟨hblocks, hempty⟩
    · refine .inl ⟨htidy.untouched hblock, ?_, fun h => ?_⟩
      · rw [entryAddress, entryAddress, nativeEntry, nativeEntry, hgrows.blocks, hgrows.links]
      · exact (horderly h).linked.grows htidy.laid htidy.tabled hgrows
    · have hlinks : k.links = .empty := hgrows.links.trans hempty
      exact .inr (.inl ⟨hgrows.blocks.trans hblocks, hlinks,
        entryAddress_of_none (by rw [hlinks, Links.native?_empty])⟩)
  | @torn i l _ entry n _ _ done left hattempt hfound hvalid hcompiled hsites hleft hlinked
      hrefused =>
    -- the block is written and installed, and some of the exits to it are linked
    obtain ⟨entry', hfound', hvalid', hblock⟩ := hattempt.found hfound
    have hhalf := hcompiled.halfInstalled (hattempt.tidy htidy) hfound hvalid hsites hleft hlinked
    rw [hblock] at hhalf
    refine .inr (.inr ⟨i, entry', n, done, left, hattempt.eq_or_cleared, fun hunrefused => ?_,
      hfound', hvalid'.symm.trans hvalid, hhalf, hrefused⟩)
    rcases hattempt.eq_or_cleared with rfl | ⟨-, hempty⟩
    · exact (horderly hunrefused).linked
    · intro owner e he
      rw [hempty, Links.exitsOf_empty] at he
      cases he

/-- A block is compiled, and one that it leaves for. -/
def chainOps : List Op :=
  [.addAndCompile { start := 0x1000, insts := [{ op := .exitToConst, constant := 0x2000 }] },
   .addAndCompile { start := 0x2000, insts := [{ op := .exitToConst, constant := 0x3000 }] }]

/-- The second block is compiled again, and the platform refuses to link the first one to it: the
first one still jumps to the old code of the second. -/
theorem failed_compile_outcomes_chainOps :
    ∃ j host e k old new x, create {} .default { refuseProtect := [10] } = .ok j host ∧
      compileAs false 1 (j.applyAll chainOps) = .error e k ∧
      (j.applyAll chainOps).checkedEntry 1 = some old ∧ k.checkedEntry 1 = some new ∧ old ≠ new ∧
      k.links.exitsTo 0x2000 = [x] ∧
      k.code.Holds x.offset (linkCode k.stubs 0x2000 (some old)) := by
  have hruns : succeeds (create {} .default { refuseProtect := [10] }) (fun j _ =>
      decide (j.applyAll chainOps).Unrefused &&
      decide (((j.applyAll chainOps).blocks.get? 1).map (·.block.start) = some 0x2000) &&
      fails (compileAs false 1 (j.applyAll chainOps)) fun _ k =>
        decide (k.entryAddress 1 ≠ (j.applyAll chainOps).entryAddress 1) &&
        decide (k.entryAddress 1 ≠ none) && decide (k.links.exitsOf 0 ≠ []) &&
        decide ((k.links.exitsTo 0x2000).length = 1) &&
        ((j.applyAll chainOps).checkedEntry 1).any fun old =>
          (k.checkedEntry 1).any fun new => decide (old ≠ new)) = true := by
    decide +kernel
  obtain ⟨j, host, hcreate, htests⟩ := exists_of_succeeds hruns
  simp only [Bool.and_eq_true, decide_eq_true_eq] at htests
  obtain ⟨⟨hunrefused, hstart⟩, hfails⟩ := htests
  obtain ⟨e, k, hfails, htests⟩ := exists_of_fails hfails
  simp only [Bool.and_eq_true, decide_eq_true_eq, Option.any_eq_true] at htests
  obtain ⟨⟨⟨⟨hmoved, hsome⟩, hexits⟩, hone⟩, old, hold, new, hnew, hchecked⟩ := htests
  have hevolves : j.Evolves (j.applyAll chainOps) := (Evolves.refl.apply _).apply _
  rcases failed_compile_outcomes hcreate hevolves hfails with
    ⟨-, hsame, -⟩ | ⟨-, -, hnone⟩ |
    ⟨i, entry, n, done, left, hfrom, hrecords, hfound, -, hhalf, -⟩
  · exact absurd hsame hmoved
  · exact absurd hnone hsome
  · have hstart' : entry.block.start = 0x2000 := by
      rw [hfound] at hstart
      exact Option.some.inj hstart
    rw [hstart'] at hhalf
    rcases hfrom with rfl | ⟨-, hempty⟩
    · obtain ⟨x, hx⟩ := List.length_eq_one_iff.mp hone
      -- the only exit to the second block is the one that was refused
      obtain ⟨rfl, rfl⟩ : done = [] ∧ left = [x] := by
        have hsplit := hhalf.sites.symm.trans hx
        rcases List.append_eq_singleton_iff.mp hsplit with hcase | ⟨-, hnil⟩
        · exact hcase
        · exact absurd hnil hhalf.missed
      have hstale := hhalf.stale (hrecords hunrefused) x List.mem_cons_self List.not_mem_nil
      rw [hold] at hstale
      exact ⟨j, host, e, k, old, new, x, hcreate, hfails, hold, hnew, hchecked, hx, hstale⟩
    · -- with an empty cache nothing but the block itself would have exits on record
      obtain ⟨-, -, -, -, -, -, -, -, hothers | hothers⟩ := hhalf.records
      · exact absurd ((hothers 0 (by decide)).trans (by rw [hempty, Links.exitsOf_empty])) hexits
      · exact absurd (hothers 0 (by decide)) hexits

/-- Nothing was refused before, and the failed operation has not cleared the cache, but the block
has another entry than before. -/
theorem compile_half_installs :
    ∃ j host e k, create {} .default { refuseProtect := [10] } = .ok j host ∧
      (j.applyAll chainOps).Unrefused ∧ compile 1 (j.applyAll chainOps) = .error e k ∧
      k.links.exitsOf 0 ≠ [] ∧ k.entryAddress 1 ≠ none ∧
      k.entryAddress 1 ≠ (j.applyAll chainOps).entryAddress 1 ∧
      k.links.native? 1 ≠ (j.applyAll chainOps).links.native? 1 ∧
      k.links.exitsOf 1 ≠ (j.applyAll chainOps).links.exitsOf 1 := by
  have hruns : succeeds (create {} .default { refuseProtect := [10] }) (fun j _ =>
      decide (j.applyAll chainOps).Unrefused &&
      fails (compile 1 (j.applyAll chainOps)) fun _ k => decide (k.links.exitsOf 0 ≠ [] ∧
        k.entryAddress 1 ≠ none ∧ k.entryAddress 1 ≠ (j.applyAll chainOps).entryAddress 1 ∧
        k.links.native? 1 ≠ (j.applyAll chainOps).links.native? 1 ∧
        k.links.exitsOf 1 ≠ (j.applyAll chainOps).links.exitsOf 1)) = true := by
    decide +kernel
  obtain ⟨j, host, hcreate, htests⟩ := exists_of_succeeds hruns
  rw [Bool.and_eq_true, decide_eq_true_eq] at htests
  obtain ⟨hunrefused, hfails⟩ := htests
  obtain ⟨e, k, hfails, htests⟩ := exists_of_fails hfails
  exact ⟨j, host, e, k, hcreate, hunrefused, hfails, decide_eq_true_eq.mp htests⟩

end Jit

end Dynarec
