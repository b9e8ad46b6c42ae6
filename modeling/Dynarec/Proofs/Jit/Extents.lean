import Dynarec.Proofs.Jit.Setup

/-!
# Code stays in its place

The code of a compiled block is one range, from the lower of its entries to where it ends, with the
body and the guard apart in it (`Jit.extent?`).  After any operations, whatever the platform
refused, these ranges lie behind the fixed routines and below the cursor, apart from each other, and
the exit sites on record lie apart from each other in the bodies of their owners (`Jit.WellLaid`).
So whatever is written stays inside the region, and what is patched is long enough for the patch.
The operations register new blocks; an entry with the place of code in another cache may be
redirected beyond the end of this one.
-/

namespace Dynarec

open Lower Dynarec.Action CodeCache

/-- Where the code of a compiled block is: its body and its guard, empty without linking. -/
structure Extent where
  low : Nat
  body : Nat
  bodyStop : Nat
  guard : Nat
  guardStop : Nat
  stop : Nat
  deriving DecidableEq, Repr

namespace Jit

/-- Where the code of a compiled block is. -/
def extent? (j : Jit) (num : Nat) : Option Extent := do
  let n ← j.links.native? num
  let entry ← j.blocks.get? num
  let ps ← blockPieces j.lowerEnv entry.block n.target
  return {
    low := n.low
    body := n.target
    bodyStop := bodyEnd j.lowerEnv n.target ps
    guard := n.checked
    guardStop := n.checked + if j.config.blockLink then guardLen j.lowerEnv else 0
    stop := copyStop j.lowerEnv n.target ps }

/-- The code of compiled blocks and their exits on record are where they should be. -/
structure WellLaid (j : Jit) : Prop where
  cursor : j.stubs.blocksStart ≤ j.code.cursor ∧ j.code.cursor ≤ j.code.size
  extent : ∀ num n, j.links.native? num = some n → ∃ x, j.extent? num = some x ∧
    x.low = min n.target n.checked ∧ x.body = n.target ∧ x.guard = n.checked
  inside : ∀ num x, j.extent? num = some x →
    j.stubs.blocksStart ≤ x.low ∧ x.low < x.stop ∧ x.stop ≤ j.code.cursor
  apart : ∀ num num' x x', j.extent? num = some x → j.extent? num' = some x' → num ≠ num' →
    x.stop ≤ x'.low ∨ x'.stop ≤ x.low
  body : ∀ num x, j.extent? num = some x → x.body + 16 ≤ x.bodyStop ∧ x.bodyStop ≤ x.stop
  guard : ∀ num x, j.extent? num = some x → x.low ≤ x.guard ∧ x.guardStop ≤ x.stop ∧
    (x.guardStop ≤ x.body ∨ x.bodyStop ≤ x.guard)
  sites : ∀ owner, ∀ e ∈ j.links.exitsOf owner, 16 ≤ e.len ∧
    ∃ x, j.extent? owner = some x ∧ x.body ≤ e.offset ∧ e.offset + e.len ≤ x.bodyStop
  disjoint : j.links.exitLists.flatten.Pairwise fun e f =>
    e.offset + e.len ≤ f.offset ∨ f.offset + f.len ≤ e.offset

section

variable {j k l : Jit} {num : Nat} {n : Native} {x : Extent}

/-- The extent of a block is read off its copy. -/
theorem Tidy.extent?_eq (hj : j.Tidy) (hnative : j.links.native? num = some n) :
    ∃ entry ps, j.Copy num entry n.target ps ∧ n.checked = checkedAt j.layoutEnv n.target ps ∧
      j.extent? num = some
        { low := n.low
          body := n.target
          bodyStop := bodyEnd j.layoutEnv n.target ps
          guard := n.checked
          guardStop := n.checked + if j.config.blockLink then guardLen j.layoutEnv else 0
          stop := copyStop j.layoutEnv n.target ps } := by
  obtain ⟨entry, ps, hcopy, -, hchecked⟩ := (hj.tabled.native num n).mp hnative
  refine ⟨entry, ps, hcopy, hchecked, ?_⟩
  have hps := hcopy.pieces
  rw [← blockPieces_lowerEnv] at hps
  simp only [extent?, hnative, hcopy.found, hps, Option.bind_eq_bind, Option.bind_some]
  rfl

theorem exists_native_of_extent? (h : j.extent? num = some x) :
    ∃ n, j.links.native? num = some n := by
  obtain ⟨n, hnative, -⟩ := Option.bind_eq_some_iff.mp h
  exact ⟨n, hnative⟩

/-- The lower of the entries of a block is where its code starts. -/
theorem low_eq_copyLow {env : LowerEnv} {ps : List Piece}
    (hchecked : n.checked = checkedAt env n.target ps) : n.low = copyLow env n.target := by
  have hle := copyLow_le env n.target
  have hbody := (le_bodyEnd env n.target ps).1
  rw [Native.low, hchecked, checkedAt]
  split
  · exact Nat.min_eq_right hle
  · rename_i hforward
    rw [copyLow, if_neg hforward]
    exact Nat.min_eq_left (by omega)

/-- Without linking, there is no guard and the checked entry is the end of the body. -/
theorem checkedAt_of_not_blockLink {env : LowerEnv} (hlink : ¬ env.config.blockLink) (t : Nat)
    (ps : List Piece) : checkedAt env t ps = bodyEnd env t ps := by
  have hforward : env.config.usesForwardCheck = false := by
    simp [Config.usesForwardCheck, hlink]
  rw [checkedAt, hforward]
  rfl

theorem Tidy.guard_bounds (hj : j.Tidy) {entry : BlockEntry} {t : Nat} {ps : List Piece}
    (hcopy : j.Copy num entry t ps) :
    copyLow j.layoutEnv t ≤ checkedAt j.layoutEnv t ps ∧
      (checkedAt j.layoutEnv t ps + if j.config.blockLink then guardLen j.layoutEnv else 0) ≤
        copyStop j.layoutEnv t ps ∧
      ((checkedAt j.layoutEnv t ps + if j.config.blockLink then guardLen j.layoutEnv else 0) ≤ t ∨
        bodyEnd j.layoutEnv t ps ≤ checkedAt j.layoutEnv t ps) := by
  by_cases hlink : j.config.blockLink
  · rw [if_pos hlink]
    exact Lower.guard_bounds j.layoutEnv hlink (hj.laid.low _ _ _ _ hcopy).2 ps
  · have hle := copyLow_le j.layoutEnv t
    have hbody := (le_bodyEnd j.layoutEnv t ps).1
    have hstop := bodyEnd_le_copyStop j.layoutEnv t ps
    rw [if_neg hlink, checkedAt_of_not_blockLink hlink]
    omega

/-- An exit on record lies in the body of its owner. -/
theorem Tidy.site_in_body (hj : j.Tidy) {owner : Nat} {e : Exit} (he : e ∈ j.links.exitsOf owner) :
    16 ≤ e.len ∧ ∃ x, j.extent? owner = some x ∧ x.body ≤ e.offset ∧
      e.offset + e.len ≤ x.bodyStop := by
  obtain ⟨hlink, entry, t, ps, p, hcopy, hvalid, hp, hdest, hoffset, hlen⟩ :=
    hj.tabled.recorded owner e he
  have hnative := (hj.tabled.native owner ⟨t, checkedAt j.layoutEnv t ps⟩).mpr
    ⟨entry, ps, hcopy, hvalid, rfl⟩
  obtain ⟨entry', ps', hcopy', -, hextent⟩ := hj.extent?_eq hnative
  obtain ⟨-, -, rfl⟩ := hcopy.unique hcopy'
  have hbounds : _ ∧ p.stop j.config ≤ _ := piece_bounds hcopy.pieces hp
  rw [stop_of_blockLink hlink hdest] at hbounds
  have hsite := p.start_le_site
  refine ⟨Nat.le_of_eq hlen.symm, _, hextent, ?_, ?_⟩
  · dsimp only
    omega
  · dsimp only
    omega

/-- Any two exits on record lie apart. -/
theorem Tidy.exits_disjoint (hj : j.Tidy) : j.links.exitLists.flatten.Pairwise fun e f =>
    e.offset + e.len ≤ f.offset ∨ f.offset + f.len ≤ e.offset := by
  have hexits : ∀ p ∈ j.links.byOwner.toList, j.links.exitsOf p.1 = p.2 := by
    rintro ⟨owner, es⟩ hp
    have hget := Std.TreeMap.mem_toList_iff_getElem?_eq_some.mp hp
    rw [Links.exitsOf, Std.TreeMap.getD_eq_getD_getElem?, hget]
    rfl
  -- Exits of one owner are in order; exits of two owners lie in bodies that are apart.
  rw [List.pairwise_flatten, Links.exitLists, List.pairwise_map]
  refine ⟨fun es hes => ?_, ?_⟩
  · obtain ⟨⟨owner, es⟩, hp, rfl⟩ := List.mem_map.mp hes
    have heq := hexits _ hp
    dsimp only at heq ⊢
    rw [← heq]
    refine (hj.tabled.ordered owner).imp_of_mem fun {e f} he _ hle => .inl ?_
    rw [(hj.site_bounds he).1]
    exact hle
  · refine Std.TreeMap.distinct_keys_toList.imp_of_mem fun {p q} hp hq hne e he f hf => ?_
    rw [← hexits p hp] at he
    rw [← hexits q hq] at hf
    rw [(hj.site_bounds he).1, (hj.site_bounds hf).1]
    rcases hj.laid.apart_exits hj.tabled he hf with ⟨-, -, howner⟩ | hapart
    · exact absurd (Nat.compare_eq_eq.mpr howner) hne
    · exact hapart

theorem Tidy.wellLaid (hj : j.Tidy) : j.WellLaid where
  cursor := ⟨hj.laid.ready.low, hj.laid.ready.high⟩
  extent num n hnative := by
    obtain ⟨entry, ps, -, -, hextent⟩ := hj.extent?_eq hnative
    exact ⟨_, hextent, rfl, rfl, rfl⟩
  inside num x hx := by
    -- the extent on record is that of the copy, for which `Laid` says where it is
    obtain ⟨n, hnative⟩ := exists_native_of_extent? hx
    obtain ⟨entry, ps, hcopy, hchecked, hextent⟩ := hj.extent?_eq hnative
    cases hextent.symm.trans hx
    have hlow := (hj.laid.low _ _ _ _ hcopy).1
    have hle := copyLow_le j.layoutEnv n.target
    have hbody := (le_bodyEnd j.layoutEnv n.target ps).1
    have hstop := bodyEnd_le_copyStop j.layoutEnv n.target ps
    have hhigh := hj.laid.high _ _ _ _ hcopy
    simp only [low_eq_copyLow hchecked, minBodyLen] at hbody ⊢
    omega
  apart num num' x x' hx hx' hne := by
    obtain ⟨n, hnative⟩ := exists_native_of_extent? hx
    obtain ⟨n', hnative'⟩ := exists_native_of_extent? hx'
    obtain ⟨entry, ps, hcopy, hchecked, hextent⟩ := hj.extent?_eq hnative
    obtain ⟨entry', ps', hcopy', hchecked', hextent'⟩ := hj.extent?_eq hnative'
    cases hextent.symm.trans hx
    cases hextent'.symm.trans hx'
    simp only [low_eq_copyLow hchecked, low_eq_copyLow hchecked']
    exact hj.laid.apart _ _ _ _ _ _ _ _ hcopy hcopy' hne
  body num x hx := by
    obtain ⟨n, hnative⟩ := exists_native_of_extent? hx
    obtain ⟨entry, ps, -, -, hextent⟩ := hj.extent?_eq hnative
    cases hextent.symm.trans hx
    exact ⟨(le_bodyEnd j.layoutEnv n.target ps).1, bodyEnd_le_copyStop j.layoutEnv n.target ps⟩
  guard num x hx := by
    obtain ⟨n, hnative⟩ := exists_native_of_extent? hx
    obtain ⟨entry, ps, hcopy, hchecked, hextent⟩ := hj.extent?_eq hnative
    cases hextent.symm.trans hx
    simp only [low_eq_copyLow hchecked, hchecked]
    exact hj.guard_bounds hcopy
  sites owner e he := hj.site_in_body he
  disjoint := hj.exits_disjoint

/-- Compiling a block gives it the bytes between the old cursor and the new one. -/
theorem Compiled.extent (hj : j.Tidy) {entry : BlockEntry} {ps : List Piece}
    (hfound : j.blocks.get? num = some entry) (hvalid : entry.valid)
    (h : j.Compiled l num entry.block n ps) :
    ∃ x, l.extent? num = some x ∧ x.low = j.code.cursor ∧ x.stop = l.code.cursor := by
  have hl : l.Tidy := ⟨hj.laid.compiled hfound h, hj.tabled.compiled hfound hvalid h⟩
  have hnative : l.links.native? num = some n := by rw [h.native?_eq, if_pos rfl]
  obtain ⟨entry', ps', hcopy, hchecked, hextent⟩ := hl.extent?_eq hnative
  obtain ⟨-, -, rfl⟩ := (h.copy_self hfound).unique hcopy
  refine ⟨_, hextent, ?_, ?_⟩
  · dsimp only
    rw [low_eq_copyLow hchecked, h.layoutEnv_eq]
    exact h.low
  · dsimp only
    rw [h.layoutEnv_eq]
    exact h.cursor.symm

/-- Between compiling a block and linking it, the state is tidy. -/
theorem Tidy.compileOrClear (hj : j.Tidy) {entry : BlockEntry} {preload : Bool}
    (hfound : j.blocks.get? num = some entry) (hvalid : entry.valid)
    (h : compileOrClear num preload j = .ok ⟨⟩ l) : l.Tidy := by
  rcases compileOrClear_cases hj preload hfound with
    ⟨i, e, k, hfails, -⟩ | ⟨i, l', entry', n, ps, hok, hattempt, hfound', hvalid', hcompiled, -⟩
  · cases h.symm.trans hfails
  · cases h.symm.trans hok
    have hi := hattempt.tidy hj
    exact ⟨hi.laid.compiled hfound' hcompiled,
      hi.tabled.compiled hfound' (hvalid'.trans hvalid) hcompiled⟩

end

/-- Code stays in its place, whatever operations were carried out, as long as they register new
blocks, and whatever the platform refused.  The code of compiled blocks and the exits on record are
where they should be, also after a block has been compiled and before the exits to it are patched;
every write stays inside the region; and a block takes the bytes between the cursors before and
after it is compiled. -/
theorem code_well_laid {config : Config} {table : HandlerTable} {host host' : Host} {j k : Jit}
    {ops : List (OpWith BlockEntry)} (hcreate : create config table host = .ok j host')
    (hnew : ∀ e ∈ ops.filterMap OpWith.registered?, e.IsNew) (hk : k = j.applyAll ops) :
    k.WellLaid ∧
    (∃ es, k.code.host.events = es ++ host.events ∧
      ∀ offset len, .write offset len ∈ es → offset + len ≤ k.code.size) ∧
    (∀ num entry preload l, k.blocks.get? num = some entry → entry.valid →
      compileOrClear num preload k = .ok ⟨⟩ l →
        l.WellLaid ∧ ∀ e ∈ l.links.exitsTo entry.block.start,
          16 ≤ e.len ∧ e.offset + e.len ≤ l.code.size) ∧
    (∀ num entry preload l, k.blocks.get? num = some entry → entry.valid →
      compileBlock num preload k = .ok ⟨⟩ l →
        ∃ x, l.extent? num = some x ∧ x.low = k.code.cursor ∧ x.stop = l.code.cursor) := by
  rw [← applyAll_renew hnew] at hk
  subst hk
  have hk := tidy_applyAll hcreate (ops.map OpWith.renew)
  refine ⟨hk.wellLaid, ?_, ?_, ?_⟩
  · obtain ⟨es, hes, hcreated⟩ := create_traced config table host
    obtain ⟨hsize, fs, hfs, hran⟩ := applyAll_traced hcreate (ops.map OpWith.renew)
    rw [hcreate] at hes
    refine ⟨fs.reverse ++ es.reverse, ?_, fun offset len hmem => ?_⟩
    · rw [hfs, List.append_assoc]
      exact congrArg (fs.reverse ++ ·) hes
    · rw [hsize]
      rcases List.mem_append.mp hmem with hmem | hmem
      · exact (hran.writes offset len (List.mem_reverse.mp hmem)).2
      · exact (hcreated.writes offset len (List.mem_reverse.mp hmem)).2
  · intro num entry preload l hfound hvalid h
    have hl := hk.compileOrClear hfound hvalid h
    refine ⟨hl.wellLaid, fun e he => ?_⟩
    obtain ⟨hlen, -, hhigh⟩ := hl.site_bounds (hl.tabled.indexed.mem_exitsTo.mp he).1
    rw [hlen]
    exact ⟨Nat.le_refl _, Nat.le_trans hhigh hl.laid.ready.high⟩
  · intro num entry preload l hfound hvalid h
    obtain ⟨entry', n, ps, hfound', hcompiled⟩ := compileBlock_spec hk.laid.ready.reaches
      hk.laid.ready.high hk.laid.ready.size_le hk.laid.ready.draft h
    cases hfound.symm.trans hfound'
    exact hcompiled.extent hk hfound hvalid

/-- Two blocks that leave for each other. -/
def mutualOps : List (OpWith BlockEntry) :=
  [.addAndCompile leaveBlock,
   .addAndCompile (.new { start := 0x2000, insts := [{ op := .exitToConst, constant := 0x1000 }] })]

/-- The platform refuses to link the first block to the second.  Both have their place, and the exit
of the first one is in its body. -/
theorem code_well_laid_mutualOps :
    ∃ j host, create {} .default { refuseProtect := [6] } = .ok j host ∧
      ¬ (j.applyAll mutualOps).Unrefused ∧
      ∃ x y, (j.applyAll mutualOps).extent? 0 = some x ∧
        (j.applyAll mutualOps).extent? 1 = some y ∧ (x.stop ≤ y.low ∨ y.stop ≤ x.low) ∧
        ∃ e ∈ (j.applyAll mutualOps).links.exitsOf 0,
          x.body ≤ e.offset ∧ e.offset + e.len ≤ x.bodyStop := by
  have hruns : succeeds (create {} .default { refuseProtect := [6] }) (fun j _ =>
      decide (¬ (j.applyAll mutualOps).Unrefused) &&
      ((j.applyAll mutualOps).links.native? 0).isSome &&
      ((j.applyAll mutualOps).links.native? 1).isSome &&
      !((j.applyAll mutualOps).links.exitsOf 0).isEmpty) = true := by
    decide +kernel
  obtain ⟨j, host, hcreate, htests⟩ := exists_of_succeeds hruns
  simp only [Bool.and_eq_true, decide_eq_true_eq, Bool.not_eq_true', List.isEmpty_eq_false_iff]
    at htests
  obtain ⟨⟨⟨hrefused, hfirst⟩, hsecond⟩, hexits⟩ := htests
  obtain ⟨n, hn⟩ := Option.isSome_iff_exists.mp hfirst
  obtain ⟨n', hn'⟩ := Option.isSome_iff_exists.mp hsecond
  obtain ⟨e, he⟩ := List.exists_mem_of_ne_nil _ hexits
  obtain ⟨hlaid, -⟩ := code_well_laid hcreate (by decide) (rfl : j.applyAll mutualOps = _)
  obtain ⟨x, hx, -⟩ := hlaid.extent 0 n hn
  obtain ⟨y, hy, -⟩ := hlaid.extent 1 n' hn'
  obtain ⟨-, x', hx', hsite⟩ := hlaid.sites 0 e he
  cases hx.symm.trans hx'
  have hapart := hlaid.apart 0 1 x y hx hy (by decide)
  exact ⟨j, host, hcreate, hrefused, x, y, hx, hy, hapart, e, he, hsite⟩

/-- The settings of a cache of one page, which the fixed routines fill, without protection. -/
def onePage : Config := { codeSpace := 4096, wxExclusive := false }

/-- A copy of an entry is registered and invalidated. -/
def foreignOps : List (OpWith BlockEntry) :=
  [.addBlock leaveEntry, .invalidate 0]

/-- Blocks have to be new.  An entry that is copied from a larger cache has its body beyond the end
of a cache of one page, and is redirected there. -/
theorem copied_entry_written_outside :
    (∃ i host, create {} .default {} = .ok i host ∧
      (i.applyAll [.addAndCompile leaveBlock]).blocks.get? 0 = some leaveEntry) ∧
    ∃ j host, create onePage .default {} = .ok j host ∧ ∃ offset len,
      .write offset len ∈ (j.applyAll foreignOps).code.host.events ∧
      (j.applyAll foreignOps).code.size < offset + len := by
  have hcompiles : succeeds (create {} .default {}) (fun i _ =>
      (i.applyAll [.addAndCompile leaveBlock]).blocks.get? 0 == some leaveEntry) = true := by
    decide +kernel
  have hruns : succeeds (create onePage .default {}) (fun j _ =>
      (j.applyAll foreignOps).code.host.events.contains (.write 4120 16) &&
      (j.applyAll foreignOps).code.size == 4096) = true := by
    decide +kernel
  obtain ⟨i, host, hcreate, hcopied⟩ := exists_of_succeeds hcompiles
  obtain ⟨j, host', hcreate', htests⟩ := exists_of_succeeds hruns
  simp only [Bool.and_eq_true, List.contains_iff_mem, beq_iff_eq] at htests
  refine ⟨⟨i, host, hcreate, beq_iff_eq.mp hcopied⟩, j, host', hcreate', 4120, 16, htests.1, ?_⟩
  rw [htests.2]
  decide

end Jit

end Dynarec
