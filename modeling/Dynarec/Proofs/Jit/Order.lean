import Dynarec.Proofs.Jit.Layout

/-!
# Every change keeps the state in order

One section for each kind of change.  For each, the copies after the change are told in terms of
those before it; then the parts of `Jit.Orderly` follow, since a change writes only where it should:
behind the cursor, on the start of one body, or on exit sites.  Where code lies and what the tables
say about it (`Jit.Tidy`) is kept even if the platform refuses a patch; what the code does is not.
-/

namespace Dynarec

open Lower Dynarec.Action CodeCache

namespace Jit

/-! ## Code behind the cursor -/

section

variable {j k : Jit}

/-- Adding code does not change what code is lowered for. -/
theorem Grows.layoutEnv_eq (h : j.Grows k) : k.layoutEnv = j.layoutEnv :=
  Jit.layoutEnv_eq h.config h.table h.stubs

/-- Adding code makes no new copies of blocks. -/
theorem Grows.copy (h : j.Grows k) {num : Nat} {entry : BlockEntry} {t : Nat} {ps : List Piece}
    (hk : k.Copy num entry t ps) : j.Copy num entry t ps :=
  hk.congr h.layoutEnv_eq.symm (by rw [h.blocks])

/-- What exits are linked to is read off the tables. -/
theorem linkTarget_congr (hblocks : k.blocks = j.blocks) (hlinks : k.links = j.links) :
    k.linkTarget = j.linkTarget := by
  have hchecked : k.checkedEntry = j.checkedEntry := by
    funext num
    rw [checkedEntry, checkedEntry, hlinks]
  funext pc
  rw [linkTarget, linkTarget, hblocks, hchecked]

/-- A change to the code of one block changes only what exits to its start are linked to. -/
theorem Tabled.linkTarget_congr (hj : j.Tabled) {num : Nat} {entry : BlockEntry}
    (hfound : j.blocks.get? num = some entry) {pc : UInt32} (hpc : pc ≠ entry.block.start)
    (hfind : k.blocks.find? pc = j.blocks.find? pc)
    (hnative : ∀ m, m ≠ num → k.links.native? m = j.links.native? m) :
    k.linkTarget pc = j.linkTarget pc := by
  rw [linkTarget, linkTarget, hfind]
  cases hm : j.blocks.find? pc with
  | none => rfl
  | some m =>
    have hne : m ≠ num := by
      rintro rfl
      obtain ⟨e, hfound', -, hstart⟩ := (hj.standing pc m).mp hm
      cases hfound.symm.trans hfound'
      exact hpc hstart.symm
    rw [Option.bind_some, Option.bind_some, checkedEntry, checkedEntry, Links.checked?,
      Links.checked?, hnative m hne]

/-- A redirection takes as many bytes as the shortest body has. -/
theorem codeSize_padded_redirect (stubs : Stubs) (start : UInt32) :
    codeSize (padded (redirect stubs start) minBodyLen) = minBodyLen :=
  rfl

/-- The start of a body, which can be redirected, lies in front of the cursor. -/
theorem Laid.body_le_cursor (hl : j.Laid) {num : Nat} {entry : BlockEntry} {t : Nat}
    {ps : List Piece} (hcopy : j.Copy num entry t ps) : t + minBodyLen ≤ j.code.cursor := by
  have hbody := (le_bodyEnd j.layoutEnv t ps).1
  have hstop := bodyEnd_le_copyStop j.layoutEnv t ps
  have hhigh := hl.high num entry t ps hcopy
  omega

/-- Copies stay where they are as long as every block that has one has had it before. -/
theorem Laid.congr (hl : j.Laid) (hready : k.Ready) (hconfig : k.config = j.config)
    (htable : k.table = j.table) (hstubs : k.stubs = j.stubs) (hsize : k.code.size = j.code.size)
    (hcursor : j.code.cursor ≤ k.code.cursor)
    (hblocks : ∀ num entry t, k.blocks.get? num = some entry → entry.target = some t →
      ∃ entry', j.blocks.get? num = some entry' ∧ entry'.target = some t ∧
        entry'.block = entry.block) : k.Laid := by
  have henv : k.layoutEnv = j.layoutEnv := Jit.layoutEnv_eq hconfig htable hstubs
  have hcopy : ∀ {num entry t ps}, k.Copy num entry t ps → ∃ entry', j.Copy num entry' t ps := by
    intro num entry t ps h
    obtain ⟨entry', hfound, htarget, hblock⟩ := hblocks num entry t h.found h.target
    exact ⟨entry', hfound, htarget, by rw [hblock, ← henv]; exact h.pieces⟩
  refine ⟨hready, hl.paged.congr hstubs hsize, fun num entry t hfound htarget => ?_,
    fun num entry t ps h => ?_, fun num entry t ps h => ?_,
    fun num entry t ps num' entry' t' ps' h h' hne => ?_⟩
  · obtain ⟨entry', hfound', htarget', hblock⟩ := hblocks num entry t hfound htarget
    obtain ⟨ps, hpieces⟩ := hl.pieces num entry' t hfound' htarget'
    exact ⟨ps, hfound, htarget, by rw [henv, ← hblock]; exact hpieces.pieces⟩
  · obtain ⟨entry', h⟩ := hcopy h
    rw [henv, hconfig, hstubs]
    exact hl.low num entry' t ps h
  · obtain ⟨entry', h⟩ := hcopy h
    rw [henv]
    exact Nat.le_trans (hl.high num entry' t ps h) hcursor
  · obtain ⟨e, h⟩ := hcopy h
    obtain ⟨e', h'⟩ := hcopy h'
    rw [henv]
    exact hl.apart num e t ps num' e' t' ps' h h' hne

/-- Code behind the cursor is behind all copies. -/
theorem Laid.grows (hl : j.Laid) (h : j.Grows k) (hdraft : k.draft = j.draft) : k.Laid :=
  hl.congr (hl.ready.grows h hdraft) h.config h.table h.stubs h.code.size h.code.cursor
    fun _ entry _ hfound htarget => ⟨entry, by rw [← h.blocks]; exact hfound, htarget, rfl⟩

/-- Adding code leaves the tables, and so what they say. -/
theorem Tabled.grows (ht : j.Tabled) (h : j.Grows k) : k.Tabled where
  standing start num := by
    rw [h.blocks]
    exact ht.standing start num
  native num n := by
    rw [h.links, ht.native num n, h.layoutEnv_eq]
    constructor
    · rintro ⟨entry, ps, hcopy, hrest⟩
      exact ⟨entry, ps, hcopy.congr h.layoutEnv_eq (by rw [h.blocks]), hrest⟩
    · rintro ⟨entry, ps, hcopy, hrest⟩
      exact ⟨entry, ps, h.copy hcopy, hrest⟩
  indexed := by
    rw [h.links]
    exact ht.indexed
  recorded owner e he := by
    rw [h.links] at he
    obtain ⟨hlink, entry, t, ps, p, hcopy, hrest⟩ := ht.recorded owner e he
    exact ⟨by rw [h.config]; exact hlink, entry, t, ps, p,
      hcopy.congr h.layoutEnv_eq (by rw [h.blocks]), hrest⟩
  ordered := by
    rw [h.links]
    exact ht.ordered

/-- What the copies hold is in front of the cursor, and stays. -/
theorem Coded.grows (hc : j.Coded) (hl : j.Laid) (h : j.Grows k) : k.Coded where
  guards hlink num entry t ps hk := by
    rw [h.config] at hlink
    have hcopy := h.copy hk
    rw [h.layoutEnv_eq]
    refine h.code.holds (hc.guards hlink num entry t ps hcopy) ?_
    have hguard := guard_bounds j.layoutEnv hlink (hl.low num entry t ps hcopy).2 ps
    have hhigh := hl.high num entry t ps hcopy
    rw [codeSize_guardCode]
    omega
  leads num entry t ps hk hvalid p hp := by
    have hcopy := h.copy hk
    rw [h.config]
    refine h.code.holds (hc.leads num entry t ps hcopy hvalid p hp) ?_
    rw [codeSize_code]
    exact Nat.le_trans (p.site_le_stop j.config) (hl.stop_le_cursor hcopy hp)
  redirected num entry t ps hk hinvalid hzero := by
    have hcopy := h.copy hk
    rw [h.stubs]
    refine h.code.holds (hc.redirected num entry t ps hcopy hinvalid hzero) ?_
    rw [codeSize_padded_redirect]
    exact hl.body_le_cursor hcopy

/-- The exits on record are in front of the cursor, and stay linked. -/
theorem RecordsLinked.grows {dests : UInt32 → Prop} (hr : j.RecordsLinked dests) (hl : j.Laid)
    (ht : j.Tabled) (h : j.Grows k) : k.RecordsLinked dests := by
  intro owner e he hdest
  rw [h.links] at he
  rw [h.stubs, linkTarget_congr h.blocks h.links]
  refine h.code.holds (hr owner e he hdest) ?_
  obtain ⟨hlink, entry, t, ps, p, hcopy, -, hp, hdest', hoffset, -⟩ := ht.recorded owner e he
  have hend := hl.stop_le_cursor hcopy hp
  rw [stop_of_blockLink hlink hdest'] at hend
  rw [codeSize_linkCode, hoffset]
  exact hend

end

/-! ## Tables only -/

section

variable {j k : Jit}

/-- Adding code keeps the state in order. -/
theorem Orderly.grows (hj : j.Orderly) (h : j.Grows k) (hdraft : k.draft = j.draft) : k.Orderly :=
  ⟨⟨hj.laid.grows h hdraft, hj.tabled.grows h⟩, hj.coded.grows hj.laid h,
    hj.linked.grows hj.laid hj.tabled h⟩

/-- After a clear, blocks can be compiled again. -/
theorem Ready.cleared (hj : j.Ready) (h : j.Cleared k) : k.Ready := by
  have hlow := hj.low
  have hhigh := hj.high
  refine hj.congr h.config h.table h.stubs h.size (fun o _ => h.byte o) ?_ ?_ ?_ ?_
  · rw [h.cursor]
    omega
  · rw [h.cursor]
    omega
  · intro num n hn
    rw [h.links, Links.native?_empty] at hn
    cases hn
  · rw [h.draft]
    exact hj.draft

/-- A cleared cache has no code of any block. -/
theorem Cleared.target_eq (h : j.Cleared k) {num : Nat} {entry : BlockEntry}
    (hfound : k.blocks.get? num = some entry) : entry.target = none := by
  rw [h.blocks, Blocks.get?_resetTargets] at hfound
  obtain ⟨entry', -, rfl⟩ := Option.map_eq_some_iff.mp hfound
  rfl

/-- Clearing the cache puts the state in order. -/
theorem Tidy.cleared (hj : j.Tidy) (h : j.Cleared k) : k.Orderly := by
  refine orderly_of_no_code (hj.laid.ready.cleared h) (hj.laid.paged.congr h.stubs h.size)
    (fun start num => ?_) (fun num entry hfound => h.target_eq hfound) h.links
  · rw [h.blocks, Blocks.find?_resetTargets, hj.tabled.standing start num, Blocks.get?_resetTargets]
    constructor
    · rintro ⟨entry, hfound, hrest⟩
      exact ⟨{ entry with target := none }, by rw [hfound]; rfl, hrest⟩
    · rintro ⟨entry, hfound, hrest⟩
      obtain ⟨entry', hfound', rfl⟩ := Option.map_eq_some_iff.mp hfound
      exact ⟨entry', hfound', hrest⟩

/-- Registering a block changes no copy. -/
theorem copy_add {b : Block} {num : Nat} {entry : BlockEntry} {t : Nat} {ps : List Piece} :
    ({ j with blocks := (j.blocks.add b).2 } : Jit).Copy num entry t ps ↔ j.Copy num entry t ps := by
  constructor
  · intro h
    have hfound := h.found
    have htarget := h.target
    dsimp only at hfound
    rw [Blocks.get?_add] at hfound
    split at hfound
    · cases hfound
      cases htarget
    · exact ⟨hfound, htarget, h.pieces⟩
  · intro h
    refine ⟨?_, h.target, h.pieces⟩
    dsimp only
    rw [Blocks.get?_add, if_neg]
    · exact h.found
    · rintro rfl
      cases j.blocks.get?_size.symm.trans h.found

/-- A block that is registered is not compiled yet, so no exit is linked to it. -/
theorem linkTarget_add {b : Block} (hj : j.Tabled) (hfree : j.blocks.find? b.start = none) :
    ({ j with blocks := (j.blocks.add b).2 } : Jit).linkTarget = j.linkTarget := by
  funext pc
  show ((j.blocks.add b).2.find? pc).bind j.checkedEntry = (j.blocks.find? pc).bind j.checkedEntry
  rw [Blocks.find?_add, BlockEntry.block_new]
  split
  · rename_i heq
    subst heq
    rw [hfree]
    show j.checkedEntry j.blocks.size = none
    have hnative : j.links.native? j.blocks.size = none := by
      cases hn : j.links.native? j.blocks.size with
      | none => rfl
      | some n =>
        obtain ⟨entry, ps, hcopy, -⟩ := (hj.native _ n).mp hn
        cases j.blocks.get?_size.symm.trans hcopy.found
    rw [checkedEntry, Links.checked?, hnative]
    rfl
  · rfl

/-- The new block stands for its address, and all others for theirs. -/
theorem standing_add {b : Block} (hj : j.Tabled) (hfree : j.blocks.find? b.start = none)
    (start : UInt32) (num : Nat) :
    (j.blocks.add b).2.find? start = some num ↔
      ∃ entry, (j.blocks.add b).2.get? num = some entry ∧ entry.valid ∧
        entry.block.start = start := by
  rw [Blocks.find?_add, Blocks.get?_add, BlockEntry.block_new]
  by_cases hnum : num = j.blocks.size
  · subst hnum
    rw [if_pos rfl]
    by_cases hstart : start = b.start
    · subst hstart
      simp
    · rw [if_neg hstart, hj.standing start]
      constructor
      · rintro ⟨entry, hfound, -⟩
        cases j.blocks.get?_size.symm.trans hfound
      · rintro ⟨entry, hfound, -, hblock⟩
        cases hfound
        exact absurd hblock.symm hstart
  · rw [if_neg hnum, ← hj.standing start num]
    split
    · rename_i hstart
      subst hstart
      rw [hfree]
      simp [Ne.symm hnum]
    · rfl

/-- Registering a block, whatever stands for its address, moves no copy. -/
theorem Laid.added (hl : j.Laid) (b : Block) :
    ({ j with blocks := (j.blocks.add b).2 } : Jit).Laid := by
  refine hl.congr (hl.ready.setBlocks _) rfl rfl rfl rfl (Nat.le_refl _)
    fun num entry t hfound htarget => ?_
  rw [Blocks.get?_add] at hfound
  split at hfound
  · cases hfound
    cases htarget
  · exact ⟨entry, hfound, htarget, rfl⟩

/-- Registering a block at a free address keeps the state tidy. -/
theorem Tidy.added (hj : j.Tidy) {b : Block} (hfree : j.blocks.find? b.start = none) :
    ({ j with blocks := (j.blocks.add b).2 } : Jit).Tidy where
  laid := hj.laid.added b
  tabled :=
    { standing := standing_add hj.tabled hfree
      native := by
        intro num n
        refine (hj.tabled.native num n).trans ?_
        simp only [copy_add]
        rfl
      indexed := hj.tabled.indexed
      recorded := by
        intro owner e he
        obtain ⟨hlink, entry, t, ps, p, hcopy, hrest⟩ := hj.tabled.recorded owner e he
        exact ⟨hlink, entry, t, ps, p, copy_add.mpr hcopy, hrest⟩
      ordered := hj.tabled.ordered }

/-- Registering a block changes no code. -/
theorem Coded.added (hc : j.Coded) (b : Block) :
    ({ j with blocks := (j.blocks.add b).2 } : Jit).Coded where
  guards hlink num entry t ps h := hc.guards hlink num entry t ps (copy_add.mp h)
  leads num entry t ps h := hc.leads num entry t ps (copy_add.mp h)
  redirected num entry t ps h := hc.redirected num entry t ps (copy_add.mp h)

/-- Registering a block at a free address keeps the state in order. -/
theorem Orderly.added (hj : j.Orderly) {b : Block} (hfree : j.blocks.find? b.start = none) :
    ({ j with blocks := (j.blocks.add b).2 } : Jit).Orderly where
  toTidy := hj.toTidy.added hfree
  coded := hj.coded.added b
  linked := by
    intro owner e he _
    rw [linkTarget_add hj.tabled hfree]
    exact hj.linked owner e he trivial

end

/-! ## Invalidating a block -/

namespace Invalidated

variable {j k : Jit} {num : Nat} {entry : BlockEntry}

/-- Invalidating does not change what code is lowered for. -/
theorem layoutEnv_eq (h : j.Invalidated k num entry) : k.layoutEnv = j.layoutEnv :=
  Jit.layoutEnv_eq h.config h.table h.stubs

/-- All copies stay; only the block is no longer valid. -/
theorem copy (h : j.Invalidated k num entry) {m : Nat} {e : BlockEntry} {t : Nat} {ps : List Piece}
    (hk : k.Copy m e t ps) :
    ∃ e', j.Copy m e' t ps ∧ e.block = e'.block ∧ (m ≠ num → e = e') ∧
      (m = num → e.valid = false) := by
  have hfound := hk.found
  have hpieces := hk.pieces
  rw [h.layoutEnv_eq] at hpieces
  rw [h.blocks, Blocks.get?_invalidate] at hfound
  split at hfound
  · rename_i hm
    obtain ⟨e', hfound', rfl⟩ := Option.map_eq_some_iff.mp hfound
    exact ⟨e', ⟨hfound', hk.target, hpieces⟩, rfl, fun hne => absurd hm hne, fun _ => rfl⟩
  · rename_i hm
    exact ⟨e, ⟨hfound, hk.target, hpieces⟩, rfl, fun _ => rfl, fun heq => absurd heq hm⟩

/-- The copy of a valid block is that of another block. -/
theorem copy_of_valid (h : j.Invalidated k num entry) {m : Nat} {e : BlockEntry} {t : Nat}
    {ps : List Piece} (hk : k.Copy m e t ps) (hvalid : e.valid) :
    m ≠ num ∧ j.Copy m e t ps := by
  obtain ⟨e', hcopy, -, hother, hsame⟩ := h.copy hk
  have hm : m ≠ num := by
    intro heq
    rw [hsame heq] at hvalid
    cases hvalid
  obtain rfl := hother hm
  exact ⟨hm, hcopy⟩

/-- The copies of the other blocks stay. -/
theorem copy_other (h : j.Invalidated k num entry) {m : Nat} {e : BlockEntry} {t : Nat}
    {ps : List Piece} (hj : j.Copy m e t ps) (hm : m ≠ num) : k.Copy m e t ps :=
  hj.congr h.layoutEnv_eq (by rw [h.blocks, Blocks.get?_invalidate, if_neg hm])

/-- The exits on record: those of other blocks that do not lead to the address of the block. -/
theorem exitsOf_eq (h : j.Invalidated k num entry) (hj : j.Tabled) (owner : Nat) :
    k.links.exitsOf owner =
      if owner = num then []
      else (j.links.exitsOf owner).filter (·.dest ≠ entry.block.start) := by
  rw [h.links, Links.exitsOf_eraseBlock, hj.indexed.exitsOf_eraseLinksTo]

/-- The exits of the block and the exits to it fall off the record. -/
theorem mem_exitsOf (h : j.Invalidated k num entry) (hj : j.Tabled) {owner : Nat} {e : Exit} :
    e ∈ k.links.exitsOf owner ↔
      owner ≠ num ∧ e ∈ j.links.exitsOf owner ∧ e.dest ≠ entry.block.start := by
  rw [h.exitsOf_eq hj]
  split
  · rename_i heq
    simp [heq]
  · rename_i hne
    simp [hne]

/-- The block is no longer compiled. -/
theorem native?_eq (h : j.Invalidated k num entry) (m : Nat) :
    k.links.native? m = if m = num then none else j.links.native? m := by
  rw [h.links, Links.native?_eraseBlock, Links.native?_eraseLinksTo]

/-- The block no longer stands for its address, if it did. -/
theorem find?_eq (h : j.Invalidated k num entry) (start : UInt32) :
    k.blocks.find? start =
      if j.blocks.find? start = some num ∧ entry.block.start = start then none
      else j.blocks.find? start := by
  rw [h.blocks, Blocks.find?_invalidate, h.found]
  simp

/-- Links to other addresses do not change. -/
theorem linkTarget_eq (h : j.Invalidated k num entry) (hj : j.Tabled) {pc : UInt32}
    (hpc : pc ≠ entry.block.start) : k.linkTarget pc = j.linkTarget pc := by
  have hfind : k.blocks.find? pc = j.blocks.find? pc := by
    rw [h.find?_eq, if_neg]
    exact fun hboth => hpc hboth.2.symm
  refine hj.linkTarget_congr h.found hpc hfind fun m hm => ?_
  rw [h.native?_eq, if_neg hm]

/-- Code outside the start of the body stays. -/
theorem holds (h : j.Invalidated k num entry) {o : Nat} {is : List Insn} (hheld : j.code.Holds o is)
    (hapart : ∀ t, entry.target = some t → o + codeSize is ≤ t ∨ t + minBodyLen ≤ o) :
    k.code.Holds o is := by
  refine hheld.congr h.size fun x hlow hhigh => h.byte x fun t ht _ => ?_
  have := hapart t ht
  omega

/-- Bodies of other blocks stay. -/
theorem holds_body (h : j.Invalidated k num entry) (hj : j.Laid) {m : Nat} {e : BlockEntry}
    {t : Nat} {ps : List Piece} (hcopy : j.Copy m e t ps) (hm : m ≠ num) {o : Nat} {is : List Insn}
    (hheld : j.code.Holds o is) (hlow : t ≤ o) (hhigh : o + codeSize is ≤ bodyEnd j.layoutEnv t ps) :
    k.code.Holds o is := by
  refine h.holds hheld fun t' ht' => ?_
  obtain ⟨ps', hcopy'⟩ := hj.pieces num entry t' h.found ht'
  have hlow' := copyLow_le j.layoutEnv t'
  have hlow'' := copyLow_le j.layoutEnv t
  have hbody' := (le_bodyEnd j.layoutEnv t' ps').1
  have hstop := bodyEnd_le_copyStop j.layoutEnv t ps
  have hstop' := bodyEnd_le_copyStop j.layoutEnv t' ps'
  have hapart := hj.apart _ _ _ _ _ _ _ _ hcopy hcopy' hm
  omega

/-- Pieces of other blocks stay. -/
theorem holds_piece (h : j.Invalidated k num entry) (hj : j.Laid) {m : Nat} {e : BlockEntry}
    {t : Nat} {ps : List Piece} (hcopy : j.Copy m e t ps) (hm : m ≠ num) {p : Piece} (hp : p ∈ ps)
    {o : Nat} {is : List Insn} (hheld : j.code.Holds o is) (hlow : p.start ≤ o)
    (hhigh : o + codeSize is ≤ p.stop j.config) : k.code.Holds o is := by
  have hbounds : _ ∧ p.stop j.config ≤ _ := piece_bounds hcopy.pieces hp
  exact h.holds_body hj hcopy hm hheld (Nat.le_trans hbounds.1 hlow) (Nat.le_trans hhigh hbounds.2)

/-- All guards stay. -/
theorem holds_guard (h : j.Invalidated k num entry) (hj : j.Laid) (hlink : j.config.blockLink)
    {m : Nat} {e : BlockEntry} {t : Nat} {ps : List Piece} (hcopy : j.Copy m e t ps)
    {is : List Insn} (hlen : codeSize is = guardLen j.layoutEnv)
    (hheld : j.code.Holds (checkedAt j.layoutEnv t ps) is) :
    k.code.Holds (checkedAt j.layoutEnv t ps) is := by
  refine h.holds hheld fun t' ht' => ?_
  obtain ⟨ps', hcopy'⟩ := hj.pieces num entry t' h.found ht'
  have hguard := guard_bounds j.layoutEnv hlink (hj.low _ _ _ _ hcopy).2 ps
  have hlow' := copyLow_le j.layoutEnv t'
  have hbody' := (le_bodyEnd j.layoutEnv t' ps').1
  have hstop' := bodyEnd_le_copyStop j.layoutEnv t' ps'
  by_cases hm : m = num
  · subst hm
    obtain ⟨rfl, rfl, rfl⟩ := hcopy.unique hcopy'
    omega
  · have hapart := hj.apart _ _ _ _ _ _ _ _ hcopy hcopy' hm
    omega

end Invalidated

section

variable {j k : Jit} {num : Nat} {entry : BlockEntry}

/-- Marking a block as invalid moves no copy. -/
theorem Laid.retired (hl : j.Laid) (num : Nat) :
    ({ j with blocks := j.blocks.invalidate num } : Jit).Laid := by
  refine hl.congr (hl.ready.setBlocks _) rfl rfl rfl rfl (Nat.le_refl _)
    fun m e t hfound htarget => ?_
  rw [Blocks.get?_invalidate] at hfound
  split at hfound
  · obtain ⟨e', hfound', rfl⟩ := Option.map_eq_some_iff.mp hfound
    exact ⟨e', hfound', htarget, rfl⟩
  · exact ⟨e, hfound, htarget, rfl⟩

/-- After an invalidation, blocks can be compiled. -/
theorem Ready.invalidated (hj : j.Laid) (h : j.Invalidated k num entry) : k.Ready := by
  refine hj.ready.congr h.config h.table h.stubs h.size (fun o ho => h.byte o ?_) ?_ ?_ ?_ ?_
  · intro t ht _
    obtain ⟨ps, hcopy⟩ := hj.pieces num entry t h.found ht
    have hlow := (hj.low _ _ _ _ hcopy).1
    have hle := copyLow_le j.layoutEnv t
    have hroutines := hj.ready.routines
    omega
  · rw [h.cursor]
    exact hj.ready.low
  · rw [h.cursor]
    exact hj.ready.high
  · intro m n hn
    rw [h.native?_eq] at hn
    split at hn
    · cases hn
    · exact hj.ready.entries m n hn
  · rw [h.draft]
    exact hj.ready.draft

/-- Invalidating a block leaves the copies where they are, that of the block included. -/
theorem Laid.invalidated (hj : j.Laid) (h : j.Invalidated k num entry) : k.Laid := by
  refine (hj.retired num).congr (Ready.invalidated hj h) h.config h.table h.stubs h.size
    (Nat.le_of_eq h.cursor.symm) fun m e t hfound htarget => ?_
  rw [h.blocks] at hfound
  exact ⟨e, hfound, htarget, rfl⟩

/-- Invalidating a block takes it out of all tables at once. -/
theorem Tabled.invalidated (hj : j.Tabled) (h : j.Invalidated k num entry) : k.Tabled where
  standing start m := by
    rw [h.find?_eq, h.blocks, Blocks.get?_invalidate]
    by_cases hm : m = num
    · subst hm
      rw [if_pos rfl, h.found]
      constructor
      · -- if the block still stood for its address, the address would have been its own
        intro hfind
        split at hfind
        · cases hfind
        · rename_i hnot
          obtain ⟨e, hfound, -, hstart⟩ := (hj.standing start m).mp hfind
          cases h.found.symm.trans hfound
          exact absurd ⟨hfind, hstart⟩ hnot
      · rintro ⟨e, he, hvalid, -⟩
        cases he
        cases hvalid
    · rw [if_neg hm, ← hj.standing start m]
      split
      · rename_i hboth
        rw [hboth.1]
        simp [Ne.symm hm]
      · rfl
  native m n := by
    rw [h.native?_eq, h.layoutEnv_eq]
    by_cases hm : m = num
    · rw [if_pos hm]
      constructor
      · intro hn
        cases hn
      · -- a valid copy under this number would have to be another block's
        rintro ⟨e, ps, hk, hvalid, -⟩
        exact absurd hm (h.copy_of_valid hk hvalid).1
    · rw [if_neg hm, hj.native m n]
      constructor
      · rintro ⟨e, ps, hcopy, hrest⟩
        exact ⟨e, ps, h.copy_other hcopy hm, hrest⟩
      · rintro ⟨e, ps, hk, hvalid, hrest⟩
        exact ⟨e, ps, (h.copy_of_valid hk hvalid).2, hvalid, hrest⟩
  indexed := by
    rw [h.links]
    exact (hj.indexed.eraseLinksTo _).eraseBlock _
  recorded owner e he := by
    obtain ⟨howner, hmem, -⟩ := (h.mem_exitsOf hj).mp he
    obtain ⟨hlink, e', t, ps, p, hcopy, hrest⟩ := hj.recorded owner e hmem
    exact ⟨by rw [h.config]; exact hlink, e', t, ps, p, h.copy_other hcopy howner, hrest⟩
  ordered owner := by
    rw [h.exitsOf_eq hj]
    split
    · exact .nil
    · exact (hj.ordered owner).sublist List.filter_sublist

/-- The body of the block is redirected, and the code of the others is not touched. -/
theorem Coded.invalidated (hc : j.Coded) (hj : j.Laid) (h : j.Invalidated k num entry) :
    k.Coded where
  guards hlink m e t ps hk := by
    rw [h.config] at hlink
    obtain ⟨e', hcopy, hblock, -⟩ := h.copy hk
    rw [h.layoutEnv_eq, hblock]
    exact h.holds_guard hj hlink hcopy (codeSize_guardCode _ _ _)
      (hc.guards hlink m e' t ps hcopy)
  leads m e t ps hk hvalid p hp := by
    obtain ⟨hm, hcopy⟩ := h.copy_of_valid hk hvalid
    rw [h.config]
    refine h.holds_piece hj hcopy hm hp (hc.leads m e t ps hcopy hvalid p hp) (Nat.le_refl _) ?_
    rw [codeSize_code]
    exact p.site_le_stop j.config
  redirected m e t ps hk hinvalid hzero := by
    obtain ⟨e', hcopy, hblock, hother, -⟩ := h.copy hk
    rw [hblock] at hzero
    rw [h.stubs, hblock]
    by_cases hm : m = num
    · subst hm
      obtain rfl : e' = entry := Option.some.inj (hcopy.found.symm.trans h.found)
      exact h.redirected t hcopy.target hzero
    · obtain rfl := hother hm
      refine h.holds_body hj hcopy hm (hc.redirected m e t ps hcopy hinvalid hzero)
        (Nat.le_refl _) ?_
      rw [codeSize_padded_redirect]
      exact (le_bodyEnd j.layoutEnv t ps).1

/-- Invalidating a block, valid or not, keeps the state in order. -/
theorem Orderly.invalidated (hj : j.Orderly) (h : j.Invalidated k num entry) : k.Orderly where
  laid := hj.laid.invalidated h
  tabled := hj.tabled.invalidated h
  coded := hj.coded.invalidated hj.laid h
  linked := by
    intro owner e he _
    obtain ⟨howner, hmem, hdest⟩ := (h.mem_exitsOf hj.tabled).mp he
    obtain ⟨hlink, e', t, ps, p, hcopy, -, hp, hdest', hoffset, -⟩ :=
      hj.tabled.recorded owner e hmem
    rw [h.stubs, h.linkTarget_eq hj.tabled hdest]
    refine h.holds_piece hj.laid hcopy howner hp (hj.linked owner e hmem trivial) ?_ ?_
    · rw [hoffset]
      exact p.start_le_site
    · rw [codeSize_linkCode, hoffset]
      exact Nat.le_of_eq (stop_of_blockLink hlink hdest').symm

end

/-! ## Compiling a block -/

namespace Compiled

variable {j l : Jit} {num : Nat} {entry : BlockEntry} {n : Native} {ps : List Piece}

theorem layoutEnv_eq {b : Block} (h : j.Compiled l num b n ps) : l.layoutEnv = j.layoutEnv :=
  Jit.layoutEnv_eq h.config h.table h.stubs

/-- The new copy. -/
theorem copy_self (h : j.Compiled l num entry.block n ps) (hfound : j.blocks.get? num = some entry) :
    l.Copy num { entry with target := some n.target } n.target ps := by
  refine ⟨?_, rfl, ?_⟩
  · rw [h.blocks, Blocks.get?_setTarget, if_pos rfl, hfound]
    rfl
  · rw [h.layoutEnv_eq, ← blockPieces_lowerEnv]
    exact h.written.pieces

/-- Compiling a block does not touch the copies of the others. -/
theorem copy_other {b : Block} (h : j.Compiled l num b n ps) {m : Nat} {e : BlockEntry} {t : Nat}
    {ps' : List Piece} (hm : m ≠ num) : l.Copy m e t ps' ↔ j.Copy m e t ps' := by
  have hfound : l.blocks.get? m = j.blocks.get? m := by
    rw [h.blocks, Blocks.get?_setTarget, if_neg hm]
  exact ⟨fun hl => hl.congr h.layoutEnv_eq.symm hfound.symm,
    fun hj => hj.congr h.layoutEnv_eq hfound⟩

/-- Every copy is the new one or an old one of another block. -/
theorem copy_cases (h : j.Compiled l num entry.block n ps) (hfound : j.blocks.get? num = some entry)
    {m : Nat} {e : BlockEntry} {t : Nat} {ps' : List Piece} (hl : l.Copy m e t ps') :
    (m = num ∧ e = { entry with target := some n.target } ∧ t = n.target ∧ ps' = ps) ∨
      (m ≠ num ∧ j.Copy m e t ps') := by
  by_cases hm : m = num
  · subst hm
    exact .inl ⟨rfl, (h.copy_self hfound).unique hl⟩
  · exact .inr ⟨hm, (h.copy_other hm).mp hl⟩

/-- The block has its new entries, and the others keep theirs. -/
theorem native?_eq {b : Block} (h : j.Compiled l num b n ps) (m : Nat) :
    l.links.native? m = if m = num then some n else j.links.native? m := by
  rw [h.links, Links.native?_foldl_addExit, Links.native?_setNative, Links.native?_eraseBlock]
  split <;> rfl

/-- The exits on record: the new ones of the block, and those of other blocks. -/
theorem exitsOf_eq {b : Block} (h : j.Compiled l num b n ps) (owner : Nat) :
    l.links.exitsOf owner =
      if owner = num then (stagedOf j.config ps).map fun e =>
        { owner := num, dest := e.dest, offset := e.offset, len := e.len : Exit }
      else j.links.exitsOf owner := by
  have howner : ∀ e ∈ (stagedOf j.config ps).map fun e =>
      { owner := num, dest := e.dest, offset := e.offset, len := e.len : Exit }, e.owner = num := by
    intro e he
    obtain ⟨e', -, rfl⟩ := List.mem_map.mp he
    rfl
  rw [h.links, Links.exitsOf_foldl_addExit _ howner, Links.exitsOf_setNative,
    Links.exitsOf_eraseBlock]
  split <;> simp

/-- The exits of the block on record are those of its pieces, if exits are linked. -/
theorem mem_exitsOf_self {b : Block} (h : j.Compiled l num b n ps) {e : Exit}
    (he : e ∈ l.links.exitsOf num) :
    j.config.blockLink ∧ ∃ p ∈ ps, p.inst.exitDest? = some e.dest ∧ e.offset = p.site ∧
      e.len = exitSiteLen := by
  rw [h.exitsOf_eq, if_pos rfl] at he
  obtain ⟨e', he', rfl⟩ := List.mem_map.mp he
  rw [stagedOf] at he'
  split at he'
  · rename_i hlink
    obtain ⟨p, hp, hdest⟩ := List.mem_filterMap.mp he'
    obtain ⟨pc, hpc, rfl⟩ := Option.map_eq_some_iff.mp hdest
    exact ⟨hlink, p, hp, hpc, rfl, rfl⟩
  · cases he'

/-- The exits of the block are staged in the order of its code. -/
theorem ordered_staged {b : Block} (h : j.Compiled l num b n ps) :
    ((stagedOf j.config ps).map fun e =>
      { owner := num, dest := e.dest, offset := e.offset, len := e.len : Exit }).Pairwise
        fun e f => e.offset + exitSiteLen ≤ f.offset := by
  rw [stagedOf]
  split
  · rename_i hlink
    rw [List.pairwise_map, List.pairwise_filterMap]
    refine (stacked_pieces h.written.pieces).pairwise.imp fun {p q} hstop e he f hf => ?_
    obtain ⟨pc, hpc, rfl⟩ := Option.map_eq_some_iff.mp he
    obtain ⟨pc', -, rfl⟩ := Option.map_eq_some_iff.mp hf
    rw [stop_of_blockLink (show j.lowerEnv.config.blockLink from hlink) hpc] at hstop
    exact Nat.le_trans hstop q.start_le_site
  · exact .nil

end Compiled

section

variable {j l : Jit} {num : Nat} {entry : BlockEntry} {n : Native} {ps : List Piece}

/-- The new copy lies between the old cursor and the new one. -/
theorem Laid.compiled (hj : j.Laid) (hfound : j.blocks.get? num = some entry)
    (h : j.Compiled l num entry.block n ps) : l.Laid where
  ready := by
    have hlow := hj.ready.low
    have hroutines := hj.ready.routines
    have hinside := h.code.inside hj.ready.high
    rw [h.code.size] at hinside
    refine hj.ready.congr h.config h.table h.stubs h.code.size
      (fun o ho => h.code.byte o (by omega)) (Nat.le_trans hlow h.code.cursor) hinside ?_ h.draft
    intro m n' hn
    rw [h.native?_eq] at hn
    split at hn
    · cases hn
      have hchecked := checkedAt_le_copyStop j.lowerEnv n.target ps
      rw [h.cursor] at hinside
      rw [h.written.checked]
      omega
    · exact hj.ready.entries m n' hn
  paged := hj.paged.congr h.stubs h.code.size
  pieces m e t hfound' htarget := by
    by_cases hm : m = num
    · subst hm
      rw [h.blocks, Blocks.get?_setTarget, if_pos rfl, hfound] at hfound'
      cases hfound'
      cases htarget
      exact ⟨ps, h.copy_self hfound⟩
    · rw [h.blocks, Blocks.get?_setTarget, if_neg hm] at hfound'
      obtain ⟨ps', hcopy⟩ := hj.pieces m e t hfound' htarget
      exact ⟨ps', (h.copy_other hm).mpr hcopy⟩
  low m e t ps' hl := by
    rw [h.layoutEnv_eq, h.config, h.stubs]
    obtain ⟨-, -, rfl, -⟩ | ⟨-, hcopy⟩ := h.copy_cases hfound hl
    · have hlow : copyLow j.layoutEnv n.target = j.code.cursor := h.low
      rw [hlow]
      exact ⟨hj.ready.low, h.written.low⟩
    · exact hj.low m e t ps' hcopy
  high m e t ps' hl := by
    rw [h.layoutEnv_eq]
    obtain ⟨-, -, rfl, rfl⟩ | ⟨-, hcopy⟩ := h.copy_cases hfound hl
    · exact Nat.le_of_eq h.cursor.symm
    · exact Nat.le_trans (hj.high m e t ps' hcopy) h.code.cursor
  apart m e t ps₁ m' e' t' ps₂ hl hl' hne := by
    -- the new copy is behind the old cursor, and all others are in front of it
    have hlow : copyLow j.layoutEnv n.target = j.code.cursor := h.low
    rw [h.layoutEnv_eq]
    obtain ⟨hm, -, rfl, -⟩ | ⟨-, hcopy⟩ := h.copy_cases hfound hl <;>
      obtain ⟨hm', -, rfl, -⟩ | ⟨-, hcopy'⟩ := h.copy_cases hfound hl'
    · exact absurd (hm.trans hm'.symm) hne
    · right
      rw [hlow]
      exact hj.high _ _ _ _ hcopy'
    · left
      rw [hlow]
      exact hj.high _ _ _ _ hcopy
    · exact hj.apart _ _ _ _ _ _ _ _ hcopy hcopy' hne

/-- The tables say of the new copy what they said of the old one. -/
theorem Tabled.compiled (hj : j.Tabled) (hfound : j.blocks.get? num = some entry)
    (hvalid : entry.valid) (h : j.Compiled l num entry.block n ps) : l.Tabled where
  standing start m := by
    rw [h.blocks, Blocks.find?_setTarget, hj.standing start m, Blocks.get?_setTarget]
    split
    · rename_i hm
      subst hm
      rw [hfound]
      simp
    · rfl
  native m n' := by
    rw [h.native?_eq, h.layoutEnv_eq]
    by_cases hm : m = num
    · subst hm
      rw [if_pos rfl]
      constructor
      · intro heq
        cases heq
        exact ⟨_, ps, h.copy_self hfound, hvalid, h.written.checked⟩
      · -- the copy under this number is the new one, and it has one checked entry only
        rintro ⟨e, ps', hl, -, hchecked⟩
        obtain ⟨-, htarget, rfl⟩ := (h.copy_self hfound).unique hl
        have hchecked' : n.checked = checkedAt j.layoutEnv n.target ps' := h.written.checked
        obtain ⟨target, checked⟩ := n
        obtain ⟨target', checked'⟩ := n'
        cases htarget
        exact congrArg (fun c => some (⟨target, c⟩ : Native)) (hchecked'.trans hchecked.symm)
    · rw [if_neg hm, hj.native m n']
      simp only [h.copy_other hm]
  indexed := by
    rw [h.links]
    exact ((hj.indexed.eraseBlock num).setNative num n).foldl_addExit _
  recorded owner e he := by
    by_cases howner : owner = num
    · subst howner
      obtain ⟨hlink, p, hp, hrest⟩ := h.mem_exitsOf_self he
      exact ⟨by rw [h.config]; exact hlink, _, _, ps, p, h.copy_self hfound, hvalid, hp, hrest⟩
    · rw [h.exitsOf_eq, if_neg howner] at he
      obtain ⟨hlink, e', t, ps', p, hcopy, hrest⟩ := hj.recorded owner e he
      exact ⟨by rw [h.config]; exact hlink, e', t, ps', p, (h.copy_other howner).mpr hcopy, hrest⟩
  ordered owner := by
    rw [h.exitsOf_eq]
    split
    · exact h.ordered_staged
    · exact hj.ordered owner

/-- The new copy has its guard and its leads. -/
theorem Coded.compiled (hc : j.Coded) (hj : j.Laid) (hfound : j.blocks.get? num = some entry)
    (hvalid : entry.valid) (h : j.Compiled l num entry.block n ps) : l.Coded where
  guards hlink m e t ps' hl := by
    rw [h.config] at hlink
    rw [h.layoutEnv_eq]
    obtain ⟨-, rfl, rfl, rfl⟩ | ⟨-, hcopy⟩ := h.copy_cases hfound hl
    · have hchecked : n.checked = checkedAt j.layoutEnv n.target ps' := h.written.checked
      rw [← hchecked]
      exact h.written.guard hlink
    · -- other copies end below the cursor, where nothing has been written
      refine h.code.holds (hc.guards hlink m e t ps' hcopy) ?_
      have hguard := guard_bounds j.layoutEnv hlink (hj.low m e t ps' hcopy).2 ps'
      have hhigh := hj.high m e t ps' hcopy
      rw [codeSize_guardCode]
      omega
  leads m e t ps' hl hvalid' p hp := by
    rw [h.config]
    obtain ⟨-, rfl, rfl, rfl⟩ | ⟨-, hcopy⟩ := h.copy_cases hfound hl
    · exact (h.written.held p hp).lead
    · refine h.code.holds (hc.leads m e t ps' hcopy hvalid' p hp) ?_
      rw [codeSize_code]
      exact Nat.le_trans (p.site_le_stop j.config) (hj.stop_le_cursor hcopy hp)
  redirected m e t ps' hl hinvalid hzero := by
    obtain ⟨-, rfl, -, -⟩ | ⟨-, hcopy⟩ := h.copy_cases hfound hl
    · exact absurd (hvalid.symm.trans hinvalid) (by decide)
    · rw [h.stubs]
      refine h.code.holds (hc.redirected m e t ps' hcopy hinvalid hzero) ?_
      rw [codeSize_padded_redirect]
      exact hj.body_le_cursor hcopy

/-- Links to other addresses do not change. -/
theorem Compiled.linkTarget_eq (h : j.Compiled l num entry.block n ps) (hj : j.Tabled)
    (hfound : j.blocks.get? num = some entry) {pc : UInt32} (hpc : pc ≠ entry.block.start) :
    l.linkTarget pc = j.linkTarget pc := by
  have hfind : l.blocks.find? pc = j.blocks.find? pc := by
    rw [h.blocks, Blocks.find?_setTarget]
  refine hj.linkTarget_congr hfound hpc hfind fun m hm => ?_
  rw [h.native?_eq, if_neg hm]

/-- Until it is linked, every exit on record jumps where it would have before the block was
compiled. -/
theorem Compiled.holds_site (h : j.Compiled l num entry.block n ps)
    (hr : j.RecordsLinked fun _ => True) (hl : j.Laid) (ht : j.Tabled) {owner : Nat} {e : Exit}
    (he : e ∈ l.links.exitsOf owner) :
    l.code.Holds e.offset (linkCode l.stubs e.dest (j.linkTarget e.dest)) := by
  rw [h.stubs]
  by_cases howner : owner = num
  · subst howner
    obtain ⟨hlink, p, hp, hpc, hoffset, -⟩ := h.mem_exitsOf_self he
    have hsite := (h.written.held p hp).site e.dest hpc
    rw [siteCode, if_pos (show j.lowerEnv.config.blockLink from hlink)] at hsite
    rw [hoffset]
    exact hsite
  · rw [h.exitsOf_eq, if_neg howner] at he
    refine h.code.holds (hr owner e he trivial) ?_
    obtain ⟨hlink, e', t, ps', p, hcopy, -, hp, hdest', hoffset, -⟩ := ht.recorded owner e he
    have hend := hl.stop_le_cursor hcopy hp
    rw [stop_of_blockLink hlink hdest'] at hend
    rw [codeSize_linkCode, hoffset]
    exact hend

/-- Compiling a block leaves all exits linked but those to the block itself. -/
theorem RecordsLinked.compiled (hr : j.RecordsLinked fun _ => True) (hl : j.Laid) (ht : j.Tabled)
    (hfound : j.blocks.get? num = some entry) (h : j.Compiled l num entry.block n ps) :
    l.RecordsLinked (· ≠ entry.block.start) := by
  intro owner e he hdest
  rw [h.linkTarget_eq ht hfound hdest]
  exact h.holds_site hr hl ht he

end

/-! ## Linking a block -/

section

variable {j k : Jit}

/-- Two exits on record have the same site or lie apart. -/
theorem Laid.apart_exits (hl : j.Laid) (ht : j.Tabled) {owner owner' : Nat} {e e' : Exit}
    (he : e ∈ j.links.exitsOf owner) (he' : e' ∈ j.links.exitsOf owner') :
    (e.offset = e'.offset ∧ e.dest = e'.dest ∧ owner = owner') ∨
      e.offset + exitSiteLen ≤ e'.offset ∨ e'.offset + exitSiteLen ≤ e.offset := by
  obtain ⟨hlink, _, _, _, p, hcopy, -, hp, hdest, hoffset, -⟩ := ht.recorded owner e he
  obtain ⟨-, _, _, _, p', hcopy', -, hp', hdest', hoffset', -⟩ := ht.recorded owner' e' he'
  have hstop := stop_of_blockLink hlink hdest
  have hstop' := stop_of_blockLink hlink hdest'
  have hstart := p.start_le_site
  have hstart' := p'.start_le_site
  rcases hl.apart_pieces hcopy hp hcopy' hp' with ⟨howner, rfl⟩ | hapart
  · exact .inl ⟨hoffset.trans hoffset'.symm, Option.some.inj (hdest.symm.trans hdest'), howner⟩
  · omega

end

namespace Resited

variable {j k : Jit} {start : UInt32}

theorem layoutEnv_eq {es : List Exit} (h : j.Resited k es) : k.layoutEnv = j.layoutEnv :=
  Jit.layoutEnv_eq h.config h.table h.stubs

/-- Patching exits makes no copies. -/
theorem copy {es : List Exit} (h : j.Resited k es) {num : Nat} {entry : BlockEntry} {t : Nat}
    {ps : List Piece} : k.Copy num entry t ps ↔ j.Copy num entry t ps :=
  ⟨fun hk => hk.congr h.layoutEnv_eq.symm (by rw [h.blocks]),
    fun hj => hj.congr h.layoutEnv_eq (by rw [h.blocks])⟩

/-- Code outside the exit sites of valid blocks stays. -/
theorem holds (h : j.Resited k (j.links.exitsTo start)) (ht : j.Tabled) {o : Nat}
    {is : List Insn} (hheld : j.code.Holds o is)
    (hapart : ∀ num entry t ps p pc, j.Copy num entry t ps → entry.valid → p ∈ ps →
      p.inst.exitDest? = some pc → j.config.blockLink →
      o + codeSize is ≤ p.site ∨ p.stop j.config ≤ o) : k.code.Holds o is := by
  refine hheld.congr h.size fun x hlow hhigh => h.byte x fun e he => ?_
  have hmem := (ht.indexed.mem_exitsTo.mp he).1
  obtain ⟨hlink, entry, t, ps, p, hcopy, hvalid, hp, hdest, hoffset, -⟩ :=
    ht.recorded e.owner e hmem
  have hstop := stop_of_blockLink hlink hdest
  have := hapart _ _ _ _ p e.dest hcopy hvalid hp hdest hlink
  omega

/-- Patching exits of blocks moves no copy. -/
theorem laid_of_low {es : List Exit} (h : j.Resited k es) (hj : j.Laid)
    (hes : ∀ e ∈ es, j.stubs.blocksStart ≤ e.offset) : k.Laid := by
  have hready : k.Ready := by
    refine hj.ready.congr h.config h.table h.stubs h.size (fun o ho => h.byte o fun e he => ?_)
      ?_ ?_ ?_ ?_
    · have hlow := hes e he
      have hroutines := hj.ready.routines
      omega
    · rw [h.cursor]
      exact hj.ready.low
    · rw [h.cursor]
      exact hj.ready.high
    · rw [h.links]
      exact hj.ready.entries
    · rw [h.draft]
      exact hj.ready.draft
  exact hj.congr hready h.config h.table h.stubs h.size (Nat.le_of_eq h.cursor.symm)
    fun _ entry _ hfound htarget => ⟨entry, by rw [← h.blocks]; exact hfound, htarget, rfl⟩

/-- Patching exits does not move copies. -/
theorem laid (h : j.Resited k (j.links.exitsTo start)) (hj : j.Laid) (ht : j.Tabled) :
    k.Laid := by
  refine h.laid_of_low hj fun e he => ?_
  have hmem := (ht.indexed.mem_exitsTo.mp he).1
  obtain ⟨hlink, entry, t, ps, p, hcopy, -, hp, hdest, hoffset, -⟩ := ht.recorded e.owner e hmem
  rw [hoffset]
  exact (hj.site_bounds hcopy hp hlink hdest).1

/-- Patching exits changes no table. -/
theorem tabled {es : List Exit} (h : j.Resited k es) (ht : j.Tabled) : k.Tabled where
  standing start num := by
    rw [h.blocks]
    exact ht.standing start num
  native num n := by
    rw [h.links, ht.native num n, h.layoutEnv_eq]
    simp only [h.copy]
  indexed := by
    rw [h.links]
    exact ht.indexed
  recorded owner e he := by
    rw [h.links] at he
    rw [h.config]
    simp only [h.copy]
    exact ht.recorded owner e he
  ordered := by
    rw [h.links]
    exact ht.ordered

/-- Exit sites are no part of guards, leads and redirections of other blocks. -/
theorem coded (h : j.Resited k (j.links.exitsTo start)) (hj : j.Laid) (ht : j.Tabled)
    (hc : j.Coded) : k.Coded where
  guards hlink num entry t ps hk := by
    rw [h.config] at hlink
    have hcopy := h.copy.mp hk
    rw [h.layoutEnv_eq]
    refine h.holds ht (hc.guards hlink num entry t ps hcopy) ?_
    intro num' entry' t' ps' p pc hcopy' _ hp _ _
    have hapart := hj.apart_guard hlink hcopy hcopy' hp
    have hsite := p.start_le_site
    rw [codeSize_guardCode]
    omega
  leads num entry t ps hk hvalid p hp := by
    have hcopy := h.copy.mp hk
    rw [h.config]
    refine h.holds ht (hc.leads num entry t ps hcopy hvalid p hp) ?_
    intro num' entry' t' ps' p' pc hcopy' _ hp' _ _
    rw [codeSize_code]
    have hsite' := p'.start_le_site
    have hstop := p.site_le_stop j.config
    rcases hj.apart_pieces hcopy hp hcopy' hp' with ⟨-, rfl⟩ | hapart
    · exact .inl (Nat.le_refl _)
    · rw [Piece.site] at hstop
      omega
  redirected num entry t ps hk hinvalid hzero := by
    have hcopy := h.copy.mp hk
    rw [h.stubs]
    refine h.holds ht (hc.redirected num entry t ps hcopy hinvalid hzero) ?_
    intro num' entry' t' ps' p pc hcopy' hvalid' hp _ _
    -- sites on record are in valid blocks, and this block is not one
    have hne : num ≠ num' := by
      rintro rfl
      obtain ⟨rfl, -⟩ := hcopy.unique hcopy'
      exact absurd (hvalid'.symm.trans hinvalid) (by decide)
    have hbounds : _ ∧ p.stop j.config ≤ _ := piece_bounds hcopy'.pieces hp
    have hsite := p.start_le_site
    have hbody := (le_bodyEnd j.layoutEnv t ps).1
    have hstop := bodyEnd_le_copyStop j.layoutEnv t ps
    have hlow := copyLow_le j.layoutEnv t
    have hstop' := bodyEnd_le_copyStop j.layoutEnv t' ps'
    have hlow' := copyLow_le j.layoutEnv t'
    have hapart := hj.apart _ _ _ _ _ _ _ _ hcopy hcopy' hne
    rw [codeSize_padded_redirect]
    omega

end Resited

section

variable {j k : Jit}

/-- Linking points the exits that were not linked yet where they should jump. -/
theorem Relinked.recordsLinked {start : UInt32} {a : UInt64}
    (h : j.Relinked k (j.links.exitsTo start) a) (hj : j.Laid) (ht : j.Tabled)
    (hr : j.RecordsLinked (· ≠ start)) (htarget : j.linkTarget start = some a) :
    k.RecordsLinked fun _ => True := by
  intro owner e he _
  rw [h.links] at he
  rw [h.stubs, linkTarget_congr h.blocks h.links]
  by_cases hdest : e.dest = start
  · have hmem : e ∈ j.links.exitsTo start := by
      refine ht.indexed.mem_exitsTo.mpr ⟨?_, hdest⟩
      rw [(ht.indexed owner e he).1]
      exact he
    rw [hdest, htarget]
    exact h.held e hmem
  · refine (hr owner e he hdest).congr h.size fun x hlow hhigh => h.byte x fun e' he' => ?_
    obtain ⟨hmem', hdest'⟩ := ht.indexed.mem_exitsTo.mp he'
    rw [codeSize_linkCode] at hhigh
    rcases hj.apart_exits ht he hmem' with ⟨-, hsame, -⟩ | hapart
    · exact absurd (hsame.trans hdest') hdest
    · omega

end

/-! ## Every change -/

section

variable {j k l : Jit} {num : Nat} {entry : BlockEntry} {n : Native} {ps : List Piece}

/-- A valid block that has been compiled is what exits to its address link to. -/
theorem Compiled.linkTarget_self (h : j.Compiled l num entry.block n ps) (hj : j.Tabled)
    (hfound : j.blocks.get? num = some entry) (hvalid : entry.valid) :
    l.linkTarget entry.block.start = some (addressOf n.checked) := by
  have hstands := (hj.standing entry.block.start num).mpr ⟨entry, hfound, hvalid, rfl⟩
  rw [linkTarget, h.blocks, Blocks.find?_setTarget, hstands, Option.bind_some, checkedEntry,
    Links.checked?, h.native?_eq, if_pos rfl]
  rfl

/-- Compiling a block and linking the exits to it keeps the state in order. -/
theorem Orderly.compiled (hj : j.Orderly) (hfound : j.blocks.get? num = some entry)
    (hvalid : entry.valid) (h : j.Compiled l num entry.block n ps)
    (hlinked : l.Relinked k (l.links.exitsTo entry.block.start) (addressOf n.checked)) :
    k.Orderly := by
  have hlaid := hj.laid.compiled hfound h
  have htabled := hj.tabled.compiled hfound hvalid h
  have hcoded := hj.coded.compiled hj.laid hfound hvalid h
  have hrest := hj.linked.compiled hj.laid hj.tabled hfound h
  exact ⟨⟨hlinked.laid hlaid htabled, hlinked.tabled htabled⟩, hlinked.coded hlaid htabled hcoded,
    hlinked.recordsLinked hlaid htabled hrest (h.linkTarget_self hj.tabled hfound hvalid)⟩

/-- Every change keeps the state tidy. -/
theorem Tidy.change {allowed : BlockEntry → Prop} {wanted : Block → Prop} (hj : j.Tidy)
    (h : Change allowed wanted j k) : k.Tidy := by
  cases h with
  | grows hgrows hdraft => exact ⟨hj.laid.grows hgrows hdraft, hj.tabled.grows hgrows⟩
  | cleared hcleared => exact (hj.cleared hcleared).toTidy
  | linked hentry hvalid hcompiled hlinked =>
    have htabled := hj.tabled.compiled hentry hvalid hcompiled
    exact ⟨hlinked.laid (hj.laid.compiled hentry hcompiled) htabled, hlinked.tabled htabled⟩
  | torn hentry hvalid hcompiled hresited =>
    have htabled := hj.tabled.compiled hentry hvalid hcompiled
    exact ⟨hresited.laid (hj.laid.compiled hentry hcompiled) htabled, hresited.tabled htabled⟩
  | invalidated _ hinvalidated =>
    exact ⟨hj.laid.invalidated hinvalidated, hj.tabled.invalidated hinvalidated⟩
  | added _ hfree hadded =>
    subst hadded
    exact hj.added hfree

/-- Every change keeps guards, leads and redirections, one that the platform breaks off included:
patches go to exit sites of valid blocks. -/
theorem Coded.change {allowed : BlockEntry → Prop} {wanted : Block → Prop} (hc : j.Coded)
    (hj : j.Tidy) (h : Change allowed wanted j k) : k.Coded := by
  cases h with
  | grows hgrows hdraft => exact hc.grows hj.laid hgrows
  | cleared hcleared => exact (hj.cleared hcleared).coded
  | linked hentry hvalid hcompiled hlinked =>
    exact hlinked.coded (hj.laid.compiled hentry hcompiled)
      (hj.tabled.compiled hentry hvalid hcompiled) (hc.compiled hj.laid hentry hvalid hcompiled)
  | torn hentry hvalid hcompiled hresited =>
    exact hresited.coded (hj.laid.compiled hentry hcompiled)
      (hj.tabled.compiled hentry hvalid hcompiled) (hc.compiled hj.laid hentry hvalid hcompiled)
  | invalidated _ hinvalidated => exact hc.invalidated hj.laid hinvalidated
  | @added b _ _ hadded =>
    subst hadded
    exact hc.added b

/-- Every change that is not refused keeps the state in order. -/
theorem Orderly.change {allowed : BlockEntry → Prop} {wanted : Block → Prop} (hj : j.Orderly)
    (h : Change allowed wanted j k) (hunrefused : k.Unrefused) : k.Orderly := by
  cases h with
  | grows hgrows hdraft => exact hj.grows hgrows hdraft
  | cleared hcleared => exact hj.toTidy.cleared hcleared
  | linked hentry hvalid hcompiled hlinked => exact hj.compiled hentry hvalid hcompiled hlinked
  | torn _ _ _ _ hrefused => exact absurd hunrefused hrefused
  | invalidated _ hinvalidated => exact hj.invalidated hinvalidated
  | added _ hfree hadded =>
    subst hadded
    exact hj.added hfree

end

end Jit

end Dynarec
