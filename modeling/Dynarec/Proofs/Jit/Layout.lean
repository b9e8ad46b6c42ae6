import Dynarec.Proofs.Jit.Change

/-!
# Where the code of all blocks lies

Every registered block with a target has code in the cache (`Jit.Copy`): its current copy if it is
valid, its last one if it is not.  Four things are kept by every change of the state:

* `Jit.Laid`: the copies lie behind the fixed routines, below the cursor, and apart from each other;
* `Jit.Tabled`: the tables agree with them: a valid block stands for its address, a valid block with
  code has entries, and the exits on record are exit sites of valid blocks;
* `Jit.Coded`: the cache holds the guards of all copies, and the leads of those of valid blocks;
* `Jit.RecordsLinked`: the exits on record jump where they should.

Older copies of blocks that have been compiled again are not mentioned: nothing leads to them.
-/

namespace Dynarec

open Lower Dynarec.Action CodeCache

/-! ## Extents -/

namespace Lower

variable {env : LowerEnv} {t : Nat} {ps : List Piece}

theorem copyLow_le (env : LowerEnv) (t : Nat) : copyLow env t ≤ t := by
  rw [copyLow]
  split
  · exact Nat.sub_le _ _
  · exact Nat.le_refl _

/-- A body has room for a redirection and for all its pieces. -/
theorem le_bodyEnd (env : LowerEnv) (t : Nat) (ps : List Piece) :
    t + Jit.minBodyLen ≤ bodyEnd env t ps ∧ endOf env.config t ps ≤ bodyEnd env t ps := by
  rw [bodyEnd]
  omega

theorem bodyEnd_le_copyStop (env : LowerEnv) (t : Nat) (ps : List Piece) :
    bodyEnd env t ps ≤ copyStop env t ps :=
  Nat.le_add_right _ _

/-- The guard of a body is in front of it or behind it. -/
theorem guard_bounds (env : LowerEnv) (hlink : env.config.blockLink)
    (hlow : env.config.usesForwardCheck → guardLen env ≤ t) (ps : List Piece) :
    copyLow env t ≤ checkedAt env t ps ∧
      checkedAt env t ps + guardLen env ≤ copyStop env t ps ∧
      (checkedAt env t ps + guardLen env ≤ t ∨ bodyEnd env t ps ≤ checkedAt env t ps) := by
  have hbody := (le_bodyEnd env t ps).1
  have hstop := bodyEnd_le_copyStop env t ps
  cases hforward : env.config.usesForwardCheck with
  | true =>
    have hlow' := hlow hforward
    have hchecked : checkedAt env t ps = t - guardLen env := by
      rw [checkedAt, copyLow, hforward]
      rfl
    have hcopyLow : copyLow env t = t - guardLen env := by
      rw [copyLow, hforward]
      rfl
    omega
  | false =>
    -- the guard stands behind the body if it does not stand in front
    have hback := Jit.usesBackJump_of_blockLink hlink hforward
    have hchecked : checkedAt env t ps = bodyEnd env t ps := by
      rw [checkedAt, hforward]
      rfl
    have hcopyStop : copyStop env t ps = bodyEnd env t ps + guardLen env := by
      rw [copyStop, if_pos hback]
    have hcopyLow := copyLow_le env t
    omega

/-- The checked entry is inside the code of its block. -/
theorem checkedAt_le_copyStop (env : LowerEnv) (t : Nat) (ps : List Piece) :
    checkedAt env t ps ≤ copyStop env t ps := by
  have hlow := copyLow_le env t
  have hbody := (le_bodyEnd env t ps).1
  have hstop := bodyEnd_le_copyStop env t ps
  rw [checkedAt]
  split <;> omega

/-- The pieces of a block are in its body. -/
theorem piece_bounds {b : Block} (hps : blockPieces env b t = some ps) {p : Piece} (hp : p ∈ ps) :
    t ≤ p.start ∧ p.stop env.config ≤ bodyEnd env t ps := by
  have hbounds := (stacked_pieces hps).bounds hp
  exact ⟨hbounds.1, Nat.le_trans hbounds.2 (le_bodyEnd env t ps).2⟩

end Lower

namespace Jit

/-- What the layout of code depends on. -/
def layoutEnv (j : Jit) : LowerEnv :=
  { j.lowerEnv with linked := fun _ => none }

/-- States with the same settings and stubs lay code out alike. -/
theorem layoutEnv_eq {j k : Jit} (hconfig : k.config = j.config) (htable : k.table = j.table)
    (hstubs : k.stubs = j.stubs) : k.layoutEnv = j.layoutEnv := by
  simp only [layoutEnv, lowerEnv, hconfig, htable, hstubs]

/-- Links do not matter to where the pieces lie. -/
theorem blockPieces_lowerEnv (j : Jit) (b : Block) (t : Nat) :
    blockPieces j.lowerEnv b t = blockPieces j.layoutEnv b t :=
  (pieces_linked j.lowerEnv (fun _ => none) b.insts 0 t _).symm

/-- A registered block and its code: where its body starts, and its pieces. -/
structure Copy (j : Jit) (num : Nat) (entry : BlockEntry) (t : Nat) (ps : List Piece) : Prop where
  found : j.blocks.get? num = some entry
  target : entry.target = some t
  pieces : blockPieces j.layoutEnv entry.block t = some ps

/-- A block has one copy. -/
theorem Copy.unique {j : Jit} {num : Nat} {entry entry' : BlockEntry} {t t' : Nat}
    {ps ps' : List Piece} (h : j.Copy num entry t ps) (h' : j.Copy num entry' t' ps') :
    entry' = entry ∧ t' = t ∧ ps' = ps := by
  obtain rfl : entry' = entry := Option.some.inj (h'.found.symm.trans h.found)
  obtain rfl : t' = t := Option.some.inj (h'.target.symm.trans h.target)
  exact ⟨rfl, rfl, Option.some.inj (h'.pieces.symm.trans h.pieces)⟩

/-- Where the copies of blocks are. -/
structure Laid (j : Jit) : Prop where
  ready : j.Ready
  paged : j.Paged
  pieces : ∀ num entry t, j.blocks.get? num = some entry → entry.target = some t →
    ∃ ps, j.Copy num entry t ps
  low : ∀ num entry t ps, j.Copy num entry t ps →
    j.stubs.blocksStart ≤ copyLow j.layoutEnv t ∧
      (j.config.usesForwardCheck → guardLen j.layoutEnv ≤ t)
  high : ∀ num entry t ps, j.Copy num entry t ps → copyStop j.layoutEnv t ps ≤ j.code.cursor
  apart : ∀ num entry t ps num' entry' t' ps', j.Copy num entry t ps → j.Copy num' entry' t' ps' →
    num ≠ num' →
    copyStop j.layoutEnv t ps ≤ copyLow j.layoutEnv t' ∨
      copyStop j.layoutEnv t' ps' ≤ copyLow j.layoutEnv t

/-- The tables agree with the copies of blocks. -/
structure Tabled (j : Jit) : Prop where
  standing : ∀ start num, j.blocks.find? start = some num ↔
    ∃ entry, j.blocks.get? num = some entry ∧ entry.valid ∧ entry.block.start = start
  native : ∀ num n, j.links.native? num = some n ↔
    ∃ entry ps, j.Copy num entry n.target ps ∧ entry.valid ∧
      n.checked = checkedAt j.layoutEnv n.target ps
  indexed : j.links.Indexed
  recorded : ∀ owner, ∀ e ∈ j.links.exitsOf owner, j.config.blockLink ∧
    ∃ entry t ps p, j.Copy owner entry t ps ∧ entry.valid ∧ p ∈ ps ∧
      p.inst.exitDest? = some e.dest ∧ e.offset = p.site ∧ e.len = exitSiteLen
  ordered : ∀ owner, (j.links.exitsOf owner).Pairwise fun e f => e.offset + exitSiteLen ≤ f.offset

/-- The copies of blocks lie apart and the tables agree with them.  That holds whatever the platform
refuses. -/
structure Tidy (j : Jit) : Prop where
  laid : j.Laid
  tabled : j.Tabled

/-- The cache holds the guards of copies, the leads of those of valid blocks and the redirections of
those of invalid ones. -/
structure Coded (j : Jit) : Prop where
  guards : j.config.blockLink → ∀ num entry t ps, j.Copy num entry t ps →
    j.code.Holds (checkedAt j.layoutEnv t ps) (guardCode j.layoutEnv entry.block.start (addressOf t))
  leads : ∀ num entry t ps, j.Copy num entry t ps → entry.valid → j.LeadsHeld ps
  redirected : ∀ num entry t ps, j.Copy num entry t ps → entry.valid = false →
    entry.block.start ≠ 0 → j.code.Holds t (padded (redirect j.stubs entry.block.start) minBodyLen)

/-- The exits on record to these addresses jump where they should. -/
def RecordsLinked (j : Jit) (dests : UInt32 → Prop) : Prop :=
  ∀ owner, ∀ e ∈ j.links.exitsOf owner, dests e.dest →
    j.code.Holds e.offset (linkCode j.stubs e.dest (j.linkTarget e.dest))

/-- The state is in order. -/
structure Orderly (j : Jit) : Prop extends Tidy j where
  coded : j.Coded
  linked : j.RecordsLinked fun _ => True

/-! ## What lies apart -/

section

variable {j k : Jit} {num num' : Nat} {entry entry' : BlockEntry} {t t' : Nat}
  {ps ps' : List Piece} {p p' : Piece}

/-- Which code a block has depends on the layout and on its own entry. -/
theorem Copy.congr (h : j.Copy num entry t ps) (henv : k.layoutEnv = j.layoutEnv)
    (hfound : k.blocks.get? num = j.blocks.get? num) : k.Copy num entry t ps :=
  ⟨hfound.trans h.found, h.target, by rw [henv]; exact h.pieces⟩

/-- The pieces of a block lie below the cursor. -/
theorem Laid.stop_le_cursor (hl : j.Laid) (h : j.Copy num entry t ps) (hp : p ∈ ps) :
    p.stop j.config ≤ j.code.cursor := by
  have hbounds : _ ∧ p.stop j.config ≤ _ := piece_bounds h.pieces hp
  have hstop := bodyEnd_le_copyStop j.layoutEnv t ps
  have hhigh := hl.high _ _ _ _ h
  omega

/-- The piece of an exit that can be linked ends with its exit site. -/
theorem stop_of_blockLink {config : Config} (hlink : config.blockLink) {pc : UInt32}
    (hdest : p.inst.exitDest? = some pc) : p.stop config = p.site + exitSiteLen := by
  rw [Piece.stop_of_exitDest hdest, siteLen, if_pos hlink]

/-- An exit site that can be linked is among the code of blocks. -/
theorem Laid.site_bounds (hl : j.Laid) (h : j.Copy num entry t ps) (hp : p ∈ ps)
    (hlink : j.config.blockLink) {pc : UInt32} (hdest : p.inst.exitDest? = some pc) :
    j.stubs.blocksStart ≤ p.site ∧ p.site + exitSiteLen ≤ j.code.cursor := by
  have hstop := hl.stop_le_cursor h hp
  rw [stop_of_blockLink hlink hdest] at hstop
  have hlow := (hl.low _ _ _ _ h).1
  have hle := copyLow_le j.layoutEnv t
  have hstart := (piece_bounds h.pieces hp).1
  have hsite := p.start_le_site
  exact ⟨by omega, hstop⟩

/-- Two pieces are the same or lie apart. -/
theorem Laid.apart_pieces (hl : j.Laid) (h : j.Copy num entry t ps) (hp : p ∈ ps)
    (h' : j.Copy num' entry' t' ps') (hp' : p' ∈ ps') :
    (num = num' ∧ p = p') ∨ p.stop j.config ≤ p'.start ∨ p'.stop j.config ≤ p.start := by
  by_cases hnum : num = num'
  · subst hnum
    obtain ⟨rfl, rfl, rfl⟩ := h.unique h'
    rcases (stacked_pieces h.pieces).apart hp hp' with heq | hapart
    · exact .inl ⟨rfl, heq⟩
    · exact .inr hapart
  · have hbounds : _ ∧ p.stop j.config ≤ _ := piece_bounds h.pieces hp
    have hbounds' : _ ∧ p'.stop j.config ≤ _ := piece_bounds h'.pieces hp'
    have hlow := copyLow_le j.layoutEnv t
    have hlow' := copyLow_le j.layoutEnv t'
    have hstop := bodyEnd_le_copyStop j.layoutEnv t ps
    have hstop' := bodyEnd_le_copyStop j.layoutEnv t' ps'
    have hapart := hl.apart _ _ _ _ _ _ _ _ h h' hnum
    omega

/-- A guard and a piece lie apart. -/
theorem Laid.apart_guard (hl : j.Laid) (hlink : j.config.blockLink) (h : j.Copy num entry t ps)
    (h' : j.Copy num' entry' t' ps') (hp' : p' ∈ ps') :
    checkedAt j.layoutEnv t ps + guardLen j.layoutEnv ≤ p'.start ∨
      p'.stop j.config ≤ checkedAt j.layoutEnv t ps := by
  have hguard := guard_bounds j.layoutEnv hlink (hl.low _ _ _ _ h).2 ps
  have hbounds' : _ ∧ p'.stop j.config ≤ _ := piece_bounds h'.pieces hp'
  by_cases hnum : num = num'
  · subst hnum
    obtain ⟨rfl, rfl, rfl⟩ := h.unique h'
    omega
  · have hlow' := copyLow_le j.layoutEnv t'
    have hstop' := bodyEnd_le_copyStop j.layoutEnv t' ps'
    have hapart := hl.apart _ _ _ _ _ _ _ _ h h' hnum
    omega

end

/-! ## States without code -/

section

variable {j : Jit}

/-- Without code, nothing can overlap. -/
theorem laid_of_no_code (hready : j.Ready) (hpaged : j.Paged)
    (hnone : ∀ num entry, j.blocks.get? num = some entry → entry.target = none) : j.Laid := by
  have hcopy : ∀ {num entry t ps}, ¬ j.Copy num entry t ps := by
    intro num entry t ps h
    cases (hnone num entry h.found).symm.trans h.target
  refine ⟨hready, hpaged, fun num entry t hfound htarget => ?_, fun num entry t ps h => absurd h hcopy,
    fun num entry t ps h => absurd h hcopy, fun num entry t ps _ _ _ _ h => absurd h hcopy⟩
  cases (hnone num entry hfound).symm.trans htarget

/-- Without code, a state is in order when blocks stand for their addresses. -/
theorem orderly_of_no_code (hready : j.Ready) (hpaged : j.Paged)
    (hstanding : ∀ start num, j.blocks.find? start = some num ↔
      ∃ entry, j.blocks.get? num = some entry ∧ entry.valid ∧ entry.block.start = start)
    (hnone : ∀ num entry, j.blocks.get? num = some entry → entry.target = none)
    (hlinks : j.links = .empty) : j.Orderly := by
  have hcopy : ∀ {num entry t ps}, ¬ j.Copy num entry t ps := by
    intro num entry t ps h
    cases (hnone num entry h.found).symm.trans h.target
  have hexits : ∀ {owner e}, e ∉ j.links.exitsOf owner := by
    intro owner e he
    rw [hlinks, Links.exitsOf_empty] at he
    cases he
  refine ⟨⟨laid_of_no_code hready hpaged hnone, ⟨hstanding, ?_, ?_, ?_, ?_⟩⟩, ⟨?_, ?_, ?_⟩, ?_⟩
  · intro num n
    rw [hlinks, Links.native?_empty]
    constructor
    · intro h
      cases h
    · rintro ⟨entry, ps, h, -⟩
      exact absurd h hcopy
  · rw [hlinks]
    exact Links.Indexed.empty
  · exact fun owner e he => absurd he hexits
  · intro owner
    rw [hlinks, Links.exitsOf_empty]
    exact .nil
  · exact fun _ num entry t ps h => absurd h hcopy
  · exact fun num entry t ps h => absurd h hcopy
  · exact fun num entry t ps h => absurd h hcopy
  · exact fun owner e he => absurd he hexits

/-- A state that has been set up is in order. -/
theorem Created.orderly {config : Config} {table : HandlerTable} (hj : Created config table j) :
    j.Orderly := by
  have hnone : ∀ num, j.blocks.get? num = none := by
    intro num
    rw [hj.blocks]
    rfl
  have hfind : ∀ start, j.blocks.find? start = none := by
    intro start
    rw [hj.blocks]
    exact Std.TreeMap.getElem?_emptyc
  refine orderly_of_no_code hj.ready ⟨hj.whole, hj.stubs.aligned⟩ (fun start num => ?_)
    (fun num entry hfound => ?_) hj.links
  · rw [hfind, hnone]
    simp
  · cases (hnone num).symm.trans hfound

end

end Jit

end Dynarec
