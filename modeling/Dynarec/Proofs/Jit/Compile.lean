import Dynarec.Proofs.Jit.Grows
import Dynarec.Proofs.Lower.Sites

/-!
# What compiling a block leaves in the cache

The code of a block goes into the cache piece by piece.  Each piece is assembled at the cursor, so
that the cache holds it there (`flushPiece_spec`, `compileInst_spec`), and nothing that comes later
touches it (`Jit.Grows`).  Put together, the cache holds the code of the block where `Lower.pieces`
says it lies, with its guards around it (`Jit.Written`), and the exits that were staged are the exit
sites of the pieces.
-/

namespace Dynarec

open Dynarec.Action Lower CodeCache

/-! ## Moving a piece into the cache -/

namespace Jit

/-- The draft has no piece of code in it. -/
structure Settled (d : Draft) : Prop where
  asm : d.asm = .empty
  pieceExits : d.pieceExits = []

/-- The machine code of the items of a draft at an offset. -/
def draftCode (d : Draft) (offset : Nat) : List Insn :=
  d.asm.items.flatMap
    (Item.flatten (Item.resolve (addressOf offset) (Item.layout 0 d.asm.items)))

/-- The code of a draft takes the sum of the sizes of its items. -/
theorem codeSize_draftCode (d : Draft) (offset : Nat) :
    codeSize (draftCode d offset) = (d.asm.items.map Item.size).sum :=
  Item.codeSize_flatMap_flatten _ _

variable {j k : Jit}

/-- Up to the exits, a piece is assembled and written at the cursor. -/
theorem flushPiece_eq_ok (hcursor : j.code.cursor ≤ j.code.size) (hsize : j.code.size ≤ 2 ^ 31)
    (hitems : j.draft.asm.items ≠ []) (hflush : flushPiece j = .ok ⟨⟩ k) :
    ∃ (labels : List UInt64) (l : Jit),
      (j.draft.pieceExits.map DraftExit.label).mapM
          (Assembler.labelAddress (addressOf j.code.cursor) (Item.layout 0 j.draft.asm.items)) =
        .ok labels ∧
      l.code.Holds j.code.cursor (draftCode j.draft j.code.cursor) ∧
      l.code.cursor = j.code.cursor + codeSize (draftCode j.draft j.code.cursor) ∧
      l.code.size = j.code.size ∧
      l.draft = { j.draft with asm := .empty, pieceExits := [] } ∧
      stageExits (j.draft.pieceExits.zip labels) l = .ok ⟨⟩ k := by
  have hempty : j.draft.asm.isEmpty = false := by
    rw [Assembler.isEmpty, List.isEmpty_eq_false_iff]
    exact hitems
  rw [flushPiece, bind_of_ok (get_apply j), hempty, if_neg (by simp)] at hflush
  obtain ⟨code, j₁, hassemble, hflush⟩ := bind_eq_ok.mp hflush
  rw [assembleDraft_apply, Assembler.assemble, hempty, if_neg (by simp)] at hassemble
  split at hassemble
  · rename_i heq
    cases hassemble
    obtain ⟨hcode, rfl⟩ := Prod.mk.inj heq
    rw [cursorAddress_eq (Nat.le_trans hcursor hsize)] at hcode
    obtain ⟨hbytes, hlabels⟩ := Assembler.assembleItems_eq_ok.mp hcode
    obtain ⟨_, j₂, hcache, hstage⟩ := bind_eq_ok.mp hflush
    obtain ⟨c, happend, rfl⟩ := onPart_eq_ok.mp hcache
    obtain ⟨rfl, hfits, rfl⟩ := CodeCache.append_eq_ok.mp happend
    rw [bind_of_ok (get_apply _), bind_of_ok (modify_apply _ _)] at hstage
    -- the code was assembled at the cursor, and there it is written
    have hlen : code.bytes.length = codeSize (draftCode j.draft j.code.cursor) :=
      Insn.length_of_encodeList? hbytes
    have hroom : code.bytes.length ≤ j.code.size - j.code.cursor := hfits
    have hinside : j.code.cursor + code.bytes.length ≤ j.code.size := by omega
    refine ⟨code.labels,
      { j with
        code := { j.code.write j.code.cursor code.bytes with
          cursor := j.code.cursor + code.bytes.length }
        draft := { j.draft with asm := .empty, pieceExits := [] } },
      hlabels, ?_, ?_, rfl, rfl, hstage⟩
    · exact (holds_write hbytes hinside).congr rfl fun _ _ _ => rfl
    · rw [← hlen]
  · cases hassemble

/-- A piece without exits. -/
theorem flushPiece_spec (hcursor : j.code.cursor ≤ j.code.size) (hsize : j.code.size ≤ 2 ^ 31)
    (hempty : j.draft.asm.items = [] → j.draft.asm = .empty) (hexits : j.draft.pieceExits = [])
    (hflush : flushPiece j = .ok ⟨⟩ k) :
    k.code.Holds j.code.cursor (draftCode j.draft j.code.cursor) ∧
      k.code.cursor = j.code.cursor + codeSize (draftCode j.draft j.code.cursor) ∧
      k.draft = { j.draft with asm := .empty } := by
  by_cases hitems : j.draft.asm.items = []
  · have hasm := hempty hitems
    rw [flushPiece, bind_of_ok (get_apply j), hasm] at hflush
    cases hflush
    have hcode : draftCode j.draft j.code.cursor = [] := by
      rw [draftCode, hitems]
      rfl
    rw [hcode]
    exact ⟨holds_nil hcursor, rfl, by rw [← hasm]⟩
  · obtain ⟨labels, l, hlabels, hheld, hmoved, -, hdraft, hstage⟩ :=
      flushPiece_eq_ok hcursor hsize hitems hflush
    rw [hexits] at hstage
    cases hstage
    refine ⟨hheld, hmoved, ?_⟩
    rw [hdraft]
    dsimp only
    rw [hexits]

/-- A piece with one exit, whose label is among the items. -/
theorem flushPiece_spec_exit {e : DraftExit} {before after : List Item}
    (hcursor : j.code.cursor ≤ j.code.size) (hsize : j.code.size ≤ 2 ^ 31)
    (hitems : j.draft.asm.items = before ++ .mark e.label :: after)
    (hbefore : .mark e.label ∉ before) (hexits : j.draft.pieceExits = [e])
    (hflush : flushPiece j = .ok ⟨⟩ k) :
    k.code.Holds j.code.cursor (draftCode j.draft j.code.cursor) ∧
      k.code.cursor = j.code.cursor + codeSize (draftCode j.draft j.code.cursor) ∧
      k.draft = { j.draft with
        asm := .empty
        pieceExits := []
        staged := j.draft.staged ++ [
          { dest := e.dest
            offset := j.code.cursor + (before.map Item.size).sum
            len := e.len }] } := by
  obtain ⟨labels, l, hlabels, hheld, hmoved, hlsize, hdraft, hstage⟩ :=
    flushPiece_eq_ok hcursor hsize (by rw [hitems]; simp) hflush
  -- the label of the exit is behind the items in front of it
  have hlabel := Assembler.labelAddress_mark after hbefore (addressOf j.code.cursor)
  rw [← hitems] at hlabel
  rw [hexits, List.map_cons, List.map_nil, List.mapM_cons, hlabel] at hlabels
  cases hlabels
  have haddress : addressOf j.code.cursor + UInt64.ofNat (before.map Item.size).sum =
      addressOf (j.code.cursor + (before.map Item.size).sum) :=
    (addressOf_add _ _).symm
  rw [hexits, haddress] at hstage
  have hle : j.code.cursor + (before.map Item.size).sum ≤ 2 ^ 31 := by
    have hinside := hheld.inside
    rw [codeSize_draftCode, hitems, List.map_append, List.sum_append, hlsize] at hinside
    omega
  rw [List.zip_cons_cons, stageExits, bind_of_ok (get_apply l)] at hstage
  cases hoffset : l.code.offsetOf? (addressOf (j.code.cursor + (before.map Item.size).sum)) with
  | none =>
    simp only [hoffset] at hstage
    cases hstage
  | some offset =>
    simp only [hoffset] at hstage
    obtain rfl := eq_of_offsetOf?_addressOf hle hoffset
    cases hstage
    exact ⟨hheld.congr rfl fun _ _ _ => rfl, hmoved, by simp [hdraft]⟩

/-! ## One instruction -/

/-- The cache holds a piece. -/
structure PieceHeld (env : LowerEnv) (c : CodeCache) (p : Piece) : Prop where
  lead : c.Holds p.start (p.code env.config)
  site : ∀ pc, p.inst.exitDest? = some pc → c.Holds p.site (siteCode env pc)

/-- A piece is held if its lead and its site are held one behind the other. -/
theorem pieceHeld_iff {env : LowerEnv} {c : CodeCache} {p : Piece} :
    PieceHeld env c p ↔ c.Holds p.start (p.whole env) := by
  have hsite : p.start + codeSize (p.code env.config) = p.site := by
    rw [Piece.code, codeSize_map_mapTarget, Piece.site]
  rw [Piece.whole, holds_append, hsite]
  cases hdest : p.inst.exitDest? with
  | none =>
    constructor
    · intro h
      have hinside := h.lead.inside
      rw [hsite] at hinside
      exact ⟨h.lead, holds_nil hinside⟩
    · intro h
      exact ⟨h.1, by simp [hdest]⟩
  | some pc =>
    constructor
    · intro h
      exact ⟨h.lead, h.site pc hdest⟩
    · intro h
      refine ⟨h.1, fun pc' hpc => ?_⟩
      cases hdest.symm.trans hpc
      exact h.2

/-- The cache holds the leads of pieces. -/
def LeadsHeld (j : Jit) (ps : List Piece) : Prop :=
  ∀ p ∈ ps, j.code.Holds p.start (p.code j.config)

/-- The exits that are staged for pieces. -/
def stagedOf (config : Config) (ps : List Piece) : List StagedExit :=
  if config.blockLink then
    ps.filterMap fun p => p.inst.exitDest?.map fun pc =>
      { dest := pc, offset := p.site, len := exitSiteLen }
  else []

/-- Pieces stage their exits in order. -/
theorem stagedOf_append (config : Config) (ps qs : List Piece) :
    stagedOf config (ps ++ qs) = stagedOf config ps ++ stagedOf config qs := by
  simp only [stagedOf]
  split
  · exact List.filterMap_append
  · rfl

/-- What compiling one instruction leaves: its piece is in the cache, and its exit is staged. -/
structure Placed (env : LowerEnv) (j k : Jit) (p : Piece) : Prop where
  held : PieceHeld env k.code p
  start : p.start = j.code.cursor
  cursor : k.code.cursor = p.stop env.config
  settled : Settled k.draft
  staged : k.draft.staged = j.draft.staged ++ stagedOf env.config [p]

variable {env : LowerEnv} {i : Inst} {n : RegMap} {lead : List Insn}

/-- The machine code of the piece of an instruction. -/
theorem draftCode_finish (henv : Reaches env) {m : RegMap} (hmakes : Makes env i m lead n)
    {d : Draft} (hasm : d.asm = .empty) (offset : Nat) :
    draftCode (d.finish env i lead n) offset =
      ({ inst := i, start := offset, lead } : Piece).whole env := by
  rw [Piece.whole, draftCode, Draft.finish]
  cases hdest : i.exitDest? with
  | none =>
    have hfar : BranchesFar lead := hmakes.branchesFar hdest
    have hitems : (d.put lead n).asm.items = lead.map .insn := by
      rw [Draft.put, hasm]
      rfl
    rw [Piece.code, map_skipTo_of_branchesFar hfar]
    simp only [hitems, Option.map_none, Option.getD_none, List.append_nil]
    exact flatten_insns hfar _
  | some pc =>
    rw [Piece.code, Piece.stop_of_exitDest hdest]
    exact flatten_exitItems henv hmakes _

/-- A piece without an exit site. -/
theorem placed_of_none (henv : Reaches env) (hcursor : j.code.cursor ≤ j.code.size)
    (hsize : j.code.size ≤ 2 ^ 31) (hdest : i.exitDest? = none) {m : RegMap}
    (hmakes : Makes env i m lead n) {d : Draft} (hsettled : Settled d)
    (hdraft : j.draft = d.finish env i lead n) (hflush : flushPiece j = .ok ⟨⟩ k) :
    Placed env j k { inst := i, start := j.code.cursor, lead } ∧ k.draft.regs = n := by
  have hcode := draftCode_finish henv hmakes hsettled.asm j.code.cursor
  rw [← hdraft] at hcode
  rw [Draft.finish, hdest] at hdraft
  have hexits : j.draft.pieceExits = [] := by
    rw [hdraft]
    exact hsettled.pieceExits
  have hempty : j.draft.asm.items = [] → j.draft.asm = .empty := by
    intro hnil
    rw [hdraft, Draft.put, hsettled.asm] at hnil ⊢
    exact congrArg (fun items => ({ items, labels := 0 } : Assembler)) hnil
  obtain ⟨hheld, hmoved, hk⟩ := flushPiece_spec hcursor hsize hempty hexits hflush
  rw [hcode] at hheld hmoved
  refine ⟨⟨pieceHeld_iff.mpr hheld, rfl, ?_, ⟨by rw [hk], by rw [hk]; exact hexits⟩, ?_⟩, ?_⟩
  · rw [hmoved, ← Piece.start_add_codeSize_whole]
  · simp [hk, stagedOf, hdest]
  · rw [hk, hdraft]
    rfl

/-- Moving a piece with an exit site into the cache. -/
theorem flushPiece_finish (hcursor : j.code.cursor ≤ j.code.size) (hsize : j.code.size ≤ 2 ^ 31)
    {pc : UInt32} (hdest : i.exitDest? = some pc) {d : Draft}
    (hdraft : j.draft = d.finish env i lead n) (hflush : flushPiece j = .ok ⟨⟩ k) :
    k.code.Holds j.code.cursor (draftCode j.draft j.code.cursor) ∧
      k.code.cursor = j.code.cursor + codeSize (draftCode j.draft j.code.cursor) ∧
      Settled k.draft ∧ k.draft.regs = n ∧
      k.draft.staged = j.draft.staged ++
        if env.config.blockLink then
          [{ dest := pc, offset := j.code.cursor + codeSize lead, len := exitSiteLen }] else [] := by
  rw [Draft.finish, hdest] at hdraft
  -- the label of the site stands behind the lead, wherever the exit is skipped to
  have hitems : j.draft.asm.items = lead.map .insn ++ .mark (siteLabel i) ::
      ((siteItems env pc (siteLabel i)).tail ++ siteTail i) := by
    rw [hdraft]
    simp [siteItems]
  have hregs : j.draft.regs = n := by rw [hdraft]
  cases hlink : env.config.blockLink with
  | true =>
    have hexits : j.draft.pieceExits =
        [{ label := siteLabel i, dest := pc, len := exitSiteLen }] := by
      rw [hdraft, hlink]
      rfl
    obtain ⟨hheld, hmoved, hk⟩ :=
      flushPiece_spec_exit hcursor hsize hitems (by simp) hexits hflush
    refine ⟨hheld, hmoved, ⟨by rw [hk], by rw [hk]⟩, by rw [hk]; exact hregs, ?_⟩
    rw [hk, size_insns]
    rfl
  | false =>
    have hexits : j.draft.pieceExits = [] := by
      rw [hdraft, hlink]
      rfl
    have hne : j.draft.asm.items = [] → j.draft.asm = .empty := by
      intro hnil
      rw [hitems] at hnil
      simp at hnil
    obtain ⟨hheld, hmoved, hk⟩ := flushPiece_spec hcursor hsize hne hexits hflush
    refine ⟨hheld, hmoved, ⟨by rw [hk], by rw [hk]; exact hexits⟩, by rw [hk]; exact hregs, ?_⟩
    rw [hk]
    simp

/-- A piece with an exit site. -/
theorem placed_of_some (henv : Reaches env) (hcursor : j.code.cursor ≤ j.code.size)
    (hsize : j.code.size ≤ 2 ^ 31) {pc : UInt32} (hdest : i.exitDest? = some pc) {m : RegMap}
    (hmakes : Makes env i m lead n) {d : Draft} (hasm : d.asm = .empty)
    (hdraft : j.draft = d.finish env i lead n) (hflush : flushPiece j = .ok ⟨⟩ k) :
    Placed env j k { inst := i, start := j.code.cursor, lead } ∧ k.draft.regs = n := by
  obtain ⟨hheld, hmoved, hsettled, hregs, hk⟩ :=
    flushPiece_finish hcursor hsize hdest hdraft hflush
  have hcode := draftCode_finish henv hmakes hasm j.code.cursor
  rw [← hdraft] at hcode
  rw [hcode] at hheld hmoved
  refine ⟨⟨pieceHeld_iff.mpr hheld, rfl, ?_, hsettled, ?_⟩, hregs⟩
  · rw [hmoved, ← Piece.start_add_codeSize_whole]
  · rw [hk, stagedOf]
    simp [hdest, Piece.site]

/-- An emission in the engine is the emission in its draft. -/
theorem onDraft_eq_ok {α : Type} {x : Emit α} {a : α} :
    onDraft x j = .ok a k ↔ ∃ d, x j.draft = .ok a d ∧ k = { j with draft := d } := by
  rw [onDraft, onPart_eq_ok]
  simp only [mapError_eq_ok]

/-- Exit sites are measured at the cursor. -/
abbrev measuring (env : LowerEnv) (c : CodeCache) : LowerEnv :=
  { env with measure := Assembler.measureAt c.cursorAddress }

/-- Compiling an instruction is emitting its piece and moving it into the cache. -/
theorem compileInst_eq_ok {index : Nat} (h : compileInst env index i j = .ok ⟨⟩ k) :
    ∃ d, piece (measuring env j.code) i { j.draft with regs := j.draft.regs.setIndex index } =
        .ok ⟨⟩ d ∧
      flushPiece { j with draft := d } = .ok ⟨⟩ k := by
  rw [compileInst, bind_of_ok (modify_apply _ _), bind_of_ok (get_apply _)] at h
  obtain ⟨_, j₁, hemit, hrest⟩ := bind_eq_ok.mp h
  obtain ⟨d₁, hinst, rfl⟩ := onDraft_eq_ok.mp hemit
  split at hrest
  · rename_i hcache
    obtain ⟨_, j₂, hback, hflush⟩ := bind_eq_ok.mp hrest
    obtain ⟨d₂, hall, rfl⟩ := onDraft_eq_ok.mp hback
    refine ⟨d₂, ?_, hflush⟩
    rw [piece, bind_of_ok hinst, if_pos hcache]
    exact hall
  · rename_i hcache
    refine ⟨d₁, ?_, hrest⟩
    rw [piece, bind_of_ok hinst, if_neg hcache]
    rfl

/-- Compiling one instruction. -/
theorem compileInst_spec (henv : Reaches env) (hcursor : j.code.cursor ≤ j.code.size)
    (hsize : j.code.size ≤ 2 ^ 31) (hsettled : Settled j.draft) {index : Nat}
    (h : compileInst env index i j = .ok ⟨⟩ k) :
    ∃ lead n, lead? env (j.draft.regs.setIndex index) i = some (lead, n) ∧
      Placed env j k { inst := i, start := j.code.cursor, lead } ∧ k.draft.regs = n := by
  obtain ⟨d, hpiece, hflush⟩ := compileInst_eq_ok h
  have hfar : ∀ a ∈ (measuring env j.code).stubs.targets, codeBase ≤ a := henv.stubs
  have hmeasured : Measured (measuring env j.code) i :=
    measured_of_ok (fun _ _ => eq_codeSize_of_measureAt) hpiece
  -- the size of the exit jump was measured at the cursor, which does not matter to the lead
  obtain ⟨lead, n, hmeasuring⟩ := makes_of_ok hfar hpiece
  have hmakes : Makes env i _ lead n := hmeasuring.of_linked
  have hdraft := hmakes.lowers env.linked (Assembler.measureAt j.code.cursorAddress)
    { j.draft with regs := j.draft.regs.setIndex index } hmeasured rfl hsettled.asm
    hsettled.pieceExits
  have heq := hpiece.symm.trans hdraft
  injection heq with _ heq
  refine ⟨lead, n, lead?_of_makes hmakes, ?_⟩
  cases hdest : i.exitDest? with
  | none =>
    obtain ⟨hplaced, hregs⟩ := placed_of_none (j := { j with draft := d }) henv hcursor hsize hdest
      hmakes ⟨hsettled.asm, hsettled.pieceExits⟩ heq hflush
    have hstaged : d.staged = j.draft.staged := by
      rw [heq, Draft.finish, hdest]
      rfl
    refine ⟨⟨hplaced.held, rfl, hplaced.cursor, hplaced.settled, ?_⟩, hregs⟩
    rw [← hstaged]
    exact hplaced.staged
  | some pc =>
    obtain ⟨hplaced, hregs⟩ := placed_of_some (j := { j with draft := d }) henv hcursor hsize hdest
      hmakes hsettled.asm heq hflush
    have hstaged : d.staged = j.draft.staged := by
      rw [heq, Draft.finish, hdest]
    refine ⟨⟨hplaced.held, rfl, hplaced.cursor, hplaced.settled, ?_⟩, hregs⟩
    rw [← hstaged]
    exact hplaced.staged

/-! ## All instructions -/

/-- Moving the targets of a lead does not change its size. -/
theorem codeSize_code (config : Config) (p : Piece) : codeSize (p.code config) = codeSize p.lead :=
  codeSize_map_mapTarget _ _

/-- A piece below the cursor is still held after more has been written. -/
theorem PieceHeld.grows {c d : CodeCache} {p : Piece} (h : PieceHeld env c p) (hgrows : c.Grows d)
    (hle : p.stop env.config ≤ c.cursor) : PieceHeld env d p where
  lead := by
    refine hgrows.holds h.lead ?_
    rw [codeSize_code]
    exact Nat.le_trans (p.site_le_stop env.config) hle
  site pc hdest := by
    refine hgrows.holds (h.site pc hdest) ?_
    rw [codeSize_siteCode, ← Piece.stop_of_exitDest hdest]
    exact hle

/-- Compiling instructions one after the other. -/
theorem compileInsts_spec (henv : Reaches env) {is : List Inst} {index : Nat}
    {codes : List InstCode} (hcursor : j.code.cursor ≤ j.code.size) (hsize : j.code.size ≤ 2 ^ 31)
    (hsettled : Settled j.draft) (h : compileInsts env index is j = .ok codes k) :
    ∃ ps, pieces env index j.draft.regs j.code.cursor is = some ps ∧
      (∀ p ∈ ps, PieceHeld env k.code p) ∧
      k.code.cursor = endOf env.config j.code.cursor ps ∧ Settled k.draft ∧
      k.draft.staged = j.draft.staged ++ stagedOf env.config ps := by
  induction is generalizing j index codes with
  | nil =>
    cases h
    exact ⟨[], rfl, by simp, rfl, hsettled, by simp [stagedOf]⟩
  | cons i is ih =>
    rw [compileInsts, bind_of_ok (get_apply j)] at h
    obtain ⟨_, j₁, hinst, h₁⟩ := bind_eq_ok.mp h
    rw [bind_of_ok (get_apply j₁)] at h₁
    obtain ⟨_, j₂, hmargin, h₂⟩ := bind_eq_ok.mp h₁
    obtain ⟨rest, j₃, hrest, h₃⟩ := bind_eq_ok.mp h₂
    cases h₃
    -- the check of the space that is left changes nothing
    obtain rfl : j₂ = j₁ := by
      rw [checkMargin, bind_of_ok (get_apply j₁)] at hmargin
      split at hmargin
      · cases hmargin
      · cases hmargin
        rfl
    have hgrows := Keeps.of_ok (keeps_compileInst env index i) hinst
    obtain ⟨lead, n, hlead, hplaced, rfl⟩ := compileInst_spec henv hcursor hsize hsettled hinst
    obtain ⟨ps, hps, hheld, hend, hsettled', hstaged⟩ :=
      ih (hgrows.code.inside hcursor) (by rw [hgrows.code.size]; exact hsize) hplaced.settled hrest
    rw [hplaced.cursor] at hps hend
    refine ⟨_ :: ps, pieces_cons_eq_some.mpr ⟨lead, _, ps, hlead, hps, rfl⟩, ?_, hend, hsettled', ?_⟩
    · intro p hp
      rcases List.mem_cons.mp hp with rfl | hp
      · have hrestGrows := Keeps.of_ok (keeps_compileInsts env _ _) hrest
        exact hplaced.held.grows hrestGrows.code.grows (Nat.le_of_eq hplaced.cursor.symm)
      · exact hheld p hp
    · rw [hstaged, hplaced.staged, List.append_assoc, ← stagedOf_append]
      rfl

/-! ## Guards and padding -/

/-- What is not wanted is not written. -/
theorem emitWhen_false {x : Emit Unit} (h : emitWhen false x j = .ok ⟨⟩ k) : k = j := by
  cases h
  rfl

/-- What is wanted is emitted and moved into the cache. -/
theorem emitWhen_true {x : Emit Unit} (h : emitWhen true x j = .ok ⟨⟩ k) :
    ∃ d, x j.draft = .ok ⟨⟩ d ∧ flushPiece { j with draft := d } = .ok ⟨⟩ k := by
  rw [emitWhen, if_pos rfl] at h
  obtain ⟨_, j₁, hemit, hflush⟩ := bind_eq_ok.mp h
  obtain ⟨d, hd, rfl⟩ := onDraft_eq_ok.mp hemit
  exact ⟨d, hd, hflush⟩

/-- Code without labels on its own. -/
theorem emitWhen_insns (hcursor : j.code.cursor ≤ j.code.size) (hsize : j.code.size ≤ 2 ^ 31)
    (hsettled : Settled j.draft) {x : Emit Unit} {is : List Insn} (hfar : BranchesFar is)
    (hx : ∀ d, x d = .ok ⟨⟩ (d.put is d.regs)) (h : emitWhen true x j = .ok ⟨⟩ k) :
    k.code.Holds j.code.cursor is ∧ k.code.cursor = j.code.cursor + codeSize is ∧
      k.draft = j.draft := by
  obtain ⟨d, hd, hflush⟩ := emitWhen_true h
  rw [hx] at hd
  cases hd
  have hitems : (j.draft.put is j.draft.regs).asm.items = is.map .insn := by
    rw [Draft.put, hsettled.asm]
    rfl
  have hempty : (j.draft.put is j.draft.regs).asm.items = [] →
      (j.draft.put is j.draft.regs).asm = .empty := by
    intro hnil
    rw [Draft.put, hsettled.asm] at hnil ⊢
    exact congrArg (fun items => ({ items, labels := 0 } : Assembler)) hnil
  obtain ⟨hheld, hmoved, hk⟩ := flushPiece_spec (j := { j with draft := j.draft.put is j.draft.regs })
    hcursor hsize hempty hsettled.pieceExits hflush
  have hcode : draftCode (j.draft.put is j.draft.regs) j.code.cursor = is := by
    rw [draftCode, hitems]
    exact flatten_insns hfar _
  rw [hcode] at hheld hmoved
  refine ⟨hheld, hmoved, ?_⟩
  rw [hk, ← hsettled.asm]
  rfl

/-- The items of a guard in front of a body. -/
def guardItems (env : LowerEnv) (start : UInt32) : List Item :=
  (guardCode env start skipLabel.symbol).map .insn ++ [.mark skipLabel]

/-- The items of the guard in front of a body. -/
theorem frontGuard_apply {d : Draft} (hasm : d.asm = .empty) (env : LowerEnv) (start : UInt32) :
    frontGuard env start d =
      .ok ⟨⟩ { d with asm := { items := guardItems env start, labels := 1 } } := by
  rw [frontGuard, bind_of_ok (newLabel_apply d), bind_of_ok (Emit.insns_apply _ _),
    bind_of_ok (Emit.insns_apply _ _), place_apply (by simp [Draft.put, hasm, Assembler.empty])]
  simp [Draft.put, hasm, Assembler.empty, Assembler.push, guardItems, guardCode, skipLabel]

/-- The guard has the length that is set aside for it. -/
theorem codeSize_guardCode (env : LowerEnv) (start : UInt32) (body : UInt64) :
    codeSize (guardCode env start body) = guardLen env := by
  rw [guardLen, guardCode, guardCode, Insn.codeSize_append, Insn.codeSize_append]
  rfl

/-- The machine code of a guard in front of a body. -/
theorem flatten_guardItems (henv : Reaches env) (start : UInt32) (offset : Nat) :
    (guardItems env start).flatMap
        (Item.flatten (Item.resolve (addressOf offset) (Item.layout 0 (guardItems env start)))) =
      guardCode env start (addressOf (offset + guardLen env)) := by
  have hsymbols : Item.symbols (guardItems env start) = [1] := by
    rw [guardItems, Item.symbols_append, symbols_insns]
    rfl
  have hskip : Item.resolve (addressOf offset) (Item.layout 0 (guardItems env start))
      skipLabel.symbol = addressOf (offset + guardLen env) := by
    rw [guardItems, Item.resolve_mark (Item.symbol_ne_of_notMem (by decide) (by simp [symbols_insns]))
      (by simp), size_insns, codeSize_guardCode, ← addressOf_add]
  have houter := resolve_of_far (by rw [hsymbols]; exact List.all_iff_forall_prop.mp (by decide))
    (henv.stubs env.stubs.outerLoopPc (by simp [Stubs.targets])) (addressOf offset)
  generalize Item.resolve (addressOf offset) (Item.layout 0 (guardItems env start)) = resolve
    at hskip houter ⊢
  rw [guardItems, List.flatMap_append, flatMap_flatten_insns]
  have htest := Insn.mapTarget_of_isPlain (isPlain_testDowncount env.config.staticAlloc) resolve
  have hbranch : (Insn.jcc .notSign skipLabel.symbol).mapTarget resolve =
      .jcc .notSign (addressOf (offset + guardLen env)) := congrArg (Insn.jcc .notSign) hskip
  have hjump : (Insn.jmp env.stubs.outerLoopPc).mapTarget resolve = .jmp env.stubs.outerLoopPc :=
    congrArg Insn.jmp houter
  simp only [guardCode, spentBudget, List.cons_append, List.nil_append, List.map_cons, List.map_nil,
    htest, hbranch, hjump]
  rfl

/-- The guard in front of a body goes into the cache at the cursor, with its jump to the body. -/
theorem frontGuard_spec (henv : Reaches env) (hcursor : j.code.cursor ≤ j.code.size)
    (hsize : j.code.size ≤ 2 ^ 31) (hsettled : Settled j.draft) {start : UInt32}
    (h : emitWhen true (frontGuard env start) j = .ok ⟨⟩ k) :
    k.code.Holds j.code.cursor (guardCode env start (addressOf (j.code.cursor + guardLen env))) ∧
      k.code.cursor = j.code.cursor + guardLen env ∧ k.draft = j.draft := by
  obtain ⟨d, hd, hflush⟩ := emitWhen_true h
  rw [frontGuard_apply hsettled.asm] at hd
  cases hd
  obtain ⟨hheld, hmoved, hk⟩ := flushPiece_spec
    (j := { j with
      draft := { j.draft with asm := { items := guardItems env start, labels := 1 } } })
    hcursor hsize (by simp [guardItems]) hsettled.pieceExits hflush
  rw [draftCode, flatten_guardItems henv] at hheld hmoved
  rw [codeSize_guardCode] at hmoved
  refine ⟨hheld, hmoved, ?_⟩
  rw [hk, ← hsettled.asm]

/-- The branches of the guard can be encoded wherever it is. -/
theorem branchesFar_guardCode (henv : Reaches env) (start : UInt32) {body : UInt64}
    (hbody : codeBase ≤ body) : BranchesFar (guardCode env start body) := by
  have houter : codeBase ≤ env.stubs.outerLoopPc := henv.stubs _ (by simp [Stubs.targets])
  intro i hi t ht
  simp only [guardCode, spentBudget, List.cons_append, List.nil_append, List.mem_cons,
    List.not_mem_nil, or_false] at hi
  rcases hi with rfl | rfl | rfl | rfl
  · rw [Insn.target?_of_isPlain (isPlain_testDowncount _)] at ht
    cases ht
  · cases ht
    exact hbody
  · cases ht
  · cases ht
    exact houter

/-- So can that of the check for missing exits. -/
theorem branchesFar_missingExitCode (henv : Reaches env) : BranchesFar (missingExitCode env) := by
  have hcrash : codeBase ≤ env.stubs.crash := henv.stubs _ (by simp [Stubs.targets])
  intro i hi t ht
  simp only [missingExitCode, List.mem_cons, List.not_mem_nil, or_false] at hi
  rcases hi with rfl | rfl | rfl
  · cases ht
  · cases ht
  · cases ht
    exact hcrash

/-- A body that is too short for a jump is padded with fillers, and no other. -/
theorem padBody_spec {target : Nat} (hcursor : j.code.cursor ≤ j.code.size)
    (hle : target ≤ j.code.cursor) (h : padBody target j = .ok ⟨⟩ k) :
    k.code.cursor = max (target + minBodyLen) j.code.cursor ∧ k.draft = j.draft ∧
      k.code.Holds j.code.cursor (List.replicate (k.code.cursor - j.code.cursor) .int3) := by
  rw [padBody, bind_of_ok (get_apply j)] at h
  split at h
  · rename_i hshort
    obtain ⟨_, j₁, hcache, hdone⟩ := bind_eq_ok.mp h
    obtain ⟨c, happend, rfl⟩ := onPart_eq_ok.mp hcache
    obtain ⟨rfl, hfits, rfl⟩ := CodeCache.append_eq_ok.mp happend
    cases hdone
    rw [List.length_replicate] at hfits
    have hheld : (j.code.write j.code.cursor
        (List.replicate (minBodyLen - (j.code.cursor - target)) 0xcc)).Holds j.code.cursor
          (List.replicate (minBodyLen - (j.code.cursor - target)) .int3) := by
      refine holds_write (Insn.encodeList?_replicate_int3 _ _) ?_
      rw [List.length_replicate]
      omega
    dsimp only
    rw [List.length_replicate, Nat.add_sub_cancel_left]
    exact ⟨by omega, rfl, hheld.congr rfl fun _ _ _ => rfl⟩
  · rename_i hlong
    cases h
    rw [Nat.sub_self]
    exact ⟨by omega, rfl, holds_nil hcursor⟩

/-! ## The parts of a block -/

/-- Code and draft have not changed. -/
structure Still (j k : Jit) : Prop where
  cursor : k.code.cursor = j.code.cursor
  draft : k.draft = j.draft

/-- Making a listing writes no code. -/
theorem still_listWhen (wanted : Bool) (start : UInt32) (target : Nat) (code : List InstCode) :
    Keeps Still (listWhen wanted start target code) := by
  have hrefl : ∀ j, Still j j := fun _ => ⟨rfl, rfl⟩
  have htrans : ∀ {j k l}, Still j k → Still k l → Still j l := fun hjk hkl =>
    ⟨hkl.cursor.trans hjk.cursor, hkl.draft.trans hjk.draft⟩
  have hnote : ∀ n, Keeps Still (note n) := fun _ _ => ⟨rfl, rfl⟩
  have hlist : Keeps Still (listBlock start target code) :=
    Keeps.bind (R := Still) (fun h => htrans h) hrefl fun _ =>
      Keeps.bind (R := Still) (fun h => htrans h) (hnote _) fun _ =>
      Keeps.forM (R := Still) hrefl (fun h => htrans h) (fun _ =>
        Keeps.bind (R := Still) (fun h => htrans h) (hnote _) fun _ =>
        Keeps.forM (R := Still) hrefl (fun h => htrans h) (fun _ => hnote _) _) _
  refine Keeps.bind (R := Still) (fun h => htrans h) hrefl fun j => ?_
  dsimp only
  split
  · exact Keeps.bind (R := Still) (fun h => htrans h) (fun _ => ⟨rfl, rfl⟩) fun _ => hlist
  · exact hrefl

/-- The guard in front of a body, if there is one. -/
theorem front_spec (henv : Reaches env) (hcursor : j.code.cursor ≤ j.code.size)
    (hsize : j.code.size ≤ 2 ^ 31) (hsettled : Settled j.draft) {start : UInt32}
    (h : emitWhen env.config.usesForwardCheck (frontGuard env start) j = .ok ⟨⟩ k) :
    copyLow env k.code.cursor = j.code.cursor ∧ k.draft = j.draft ∧
      (env.config.usesForwardCheck → j.code.cursor + guardLen env = k.code.cursor ∧
        k.code.Holds j.code.cursor (guardCode env start (addressOf k.code.cursor))) := by
  rw [copyLow]
  cases hforward : env.config.usesForwardCheck with
  | false =>
    rw [hforward] at h
    obtain rfl := emitWhen_false h
    exact ⟨rfl, rfl, by simp⟩
  | true =>
    rw [hforward] at h
    obtain ⟨hheld, hmoved, hdraft⟩ := frontGuard_spec henv hcursor hsize hsettled h
    rw [hmoved]
    exact ⟨Nat.add_sub_cancel .., hdraft, fun _ => ⟨rfl, hheld⟩⟩

/-- Code without labels, if it is wanted. -/
theorem emitWhen_spec (hcursor : j.code.cursor ≤ j.code.size) (hsize : j.code.size ≤ 2 ^ 31)
    (hsettled : Settled j.draft) {wanted : Bool} {x : Emit Unit} {is : List Insn}
    (hfar : BranchesFar is) (hx : ∀ d, x d = .ok ⟨⟩ (d.put is d.regs))
    (h : emitWhen wanted x j = .ok ⟨⟩ k) :
    k.code.cursor = j.code.cursor + (if wanted then codeSize is else 0) ∧ k.draft = j.draft ∧
      (wanted → k.code.Holds j.code.cursor is) := by
  cases wanted with
  | false =>
    obtain rfl := emitWhen_false h
    exact ⟨rfl, rfl, by simp⟩
  | true =>
    obtain ⟨hheld, hmoved, hdraft⟩ := emitWhen_insns hcursor hsize hsettled hfar hx h
    exact ⟨hmoved, hdraft, fun _ => hheld⟩

/-- The report of a missing exit behind the pieces, if there is one. -/
theorem diagnostics_spec (henv : Reaches env) (hcursor : j.code.cursor ≤ j.code.size)
    (hsize : j.code.size ≤ 2 ^ 31) (hsettled : Settled j.draft)
    (h : emitWhen env.config.diagnostics (missingExitGuard env) j = .ok ⟨⟩ k) :
    k.code.cursor = j.code.cursor +
        (if env.config.diagnostics then codeSize (missingExitCode env) else 0) ∧
      k.draft = j.draft ∧
      (env.config.diagnostics → k.code.Holds j.code.cursor (missingExitCode env)) :=
  emitWhen_spec hcursor hsize hsettled (branchesFar_missingExitCode henv)
    (fun d => Emit.insns_apply _ d) h

/-- The guard behind a body, if there is one. -/
theorem back_spec (henv : Reaches env) (hcursor : j.code.cursor ≤ j.code.size)
    (hsize : j.code.size ≤ 2 ^ 31) (hsettled : Settled j.draft) {start : UInt32} {body : UInt64}
    (hbody : codeBase ≤ body)
    (h : emitWhen env.config.usesBackJump (backGuard env start body) j = .ok ⟨⟩ k) :
    k.code.cursor = j.code.cursor + (if env.config.usesBackJump then guardLen env else 0) ∧
      k.draft = j.draft ∧
      (env.config.usesBackJump → k.code.Holds j.code.cursor (guardCode env start body)) := by
  rw [← codeSize_guardCode env start body]
  exact emitWhen_spec hcursor hsize hsettled (branchesFar_guardCode henv start hbody)
    (fun d => Emit.insns_apply _ d) h

/-! ## The block -/

/-- The cache holds the code of a block: its pieces, the report of a missing exit and the padding
behind them, and a guard of the body at the checked entry. -/
structure Written (env : LowerEnv) (c : CodeCache) (b : Block) (n : Native) (ps : List Piece) :
    Prop where
  pieces : blockPieces env b n.target = some ps
  checked : n.checked = checkedAt env n.target ps
  low : env.config.usesForwardCheck → guardLen env ≤ n.target
  held : ∀ p ∈ ps, PieceHeld env c p
  report : env.config.diagnostics →
    c.Holds (endOf env.config n.target ps) (missingExitCode env)
  padding : c.Holds (codeEnd env n.target ps)
    (List.replicate (bodyEnd env n.target ps - codeEnd env n.target ps) .int3)
  guard : env.config.blockLink →
    c.Holds n.checked (guardCode env b.start (addressOf n.target))

/-- A piece is held in any cache that holds the same code. -/
theorem PieceHeld.mono {c d : CodeCache} {p : Piece} (h : PieceHeld env c p)
    (hcd : ∀ {o : Nat} {is : List Insn}, c.Holds o is → d.Holds o is) : PieceHeld env d p :=
  ⟨hcd h.lead, fun pc hdest => hcd (h.site pc hdest)⟩

/-- So is the code of a block. -/
theorem Written.mono {c d : CodeCache} {b : Block} {n : Native} {ps : List Piece}
    (h : Written env c b n ps)
    (hcd : ∀ {o : Nat} {is : List Insn}, c.Holds o is → d.Holds o is) : Written env d b n ps :=
  ⟨h.pieces, h.checked, h.low, fun p hp => (h.held p hp).mono hcd,
    fun hdiagnostics => hcd (h.report hdiagnostics), hcd h.padding,
    fun hlink => hcd (h.guard hlink)⟩

/-- The states between the parts of a block. -/
theorem writeBlock_eq_ok {b : Block} {preload : Bool} {n : Native}
    (h : writeBlock b preload j = .ok n k) :
    ∃ (j₁ j₂ j₃ j₄ j₅ : Jit) (codes : List InstCode),
      emitWhen j.config.usesForwardCheck (frontGuard j.lowerEnv b.start) j = .ok ⟨⟩ j₁ ∧
      compileInsts j.lowerEnv 0 b.insts
          { j₁ with draft := { j₁.draft with regs := j₁.draft.regs.start b.insts } } =
        .ok codes j₂ ∧
      emitWhen j.config.diagnostics (missingExitGuard j.lowerEnv) j₂ = .ok ⟨⟩ j₃ ∧
      padBody j₁.code.cursor j₃ = .ok ⟨⟩ j₄ ∧
      emitWhen j.config.usesBackJump
          (backGuard j.lowerEnv b.start (addressOf j₁.code.cursor)) j₄ = .ok ⟨⟩ j₅ ∧
      listWhen (!preload) b.start j₁.code.cursor codes j₅ = .ok ⟨⟩ k ∧
      n = { target := j₁.code.cursor,
            checked := if j.config.usesForwardCheck then j.code.cursor else j₄.code.cursor } := by
  rw [writeBlock, bind_of_ok (get_apply j), bind_of_ok (get_apply j)] at h
  obtain ⟨_, j₁, hfront, h₁⟩ := bind_eq_ok.mp h
  rw [bind_of_ok (get_apply j₁), bind_of_ok (modify_apply _ _)] at h₁
  obtain ⟨codes, j₂, hinsts, h₂⟩ := bind_eq_ok.mp h₁
  obtain ⟨_, j₃, hdiagnostics, h₃⟩ := bind_eq_ok.mp h₂
  obtain ⟨_, j₄, hpad, h₄⟩ := bind_eq_ok.mp h₃
  rw [bind_of_ok (get_apply j₄)] at h₄
  obtain ⟨_, j₅, hback, h₅⟩ := bind_eq_ok.mp h₄
  obtain ⟨_, j₆, hlist, h₆⟩ := bind_eq_ok.mp h₅
  cases h₆
  exact ⟨j₁, j₂, j₃, j₄, j₅, codes, hfront, hinsts, hdiagnostics, hpad, hback, hlist, rfl⟩

/-- Linked blocks that do not check the downcount in front of their body check it behind. -/
theorem usesBackJump_of_blockLink {config : Config} (hlink : config.blockLink)
    (hforward : config.usesForwardCheck = false) : config.usesBackJump := by
  revert hlink hforward
  simp only [Config.usesForwardCheck, Config.usesBackJump]
  cases config.blockLink <;> cases config.linkStyle <;> decide

/-- The body: the pieces of the instructions, the report of a missing exit and the padding. -/
theorem body_spec (henv : Reaches env) (hcursor : j.code.cursor ≤ j.code.size)
    (hsize : j.code.size ≤ 2 ^ 31) (hsettled : Settled j.draft) {is : List Inst}
    {codes : List InstCode} {k₁ k₂ : Jit} (hinsts : compileInsts env 0 is j = .ok codes k₁)
    (hdiag : emitWhen env.config.diagnostics (missingExitGuard env) k₁ = .ok ⟨⟩ k₂)
    (hpad : padBody j.code.cursor k₂ = .ok ⟨⟩ k) :
    ∃ ps, pieces env 0 j.draft.regs j.code.cursor is = some ps ∧
      (∀ p ∈ ps, PieceHeld env k.code p) ∧
      (env.config.diagnostics →
        k.code.Holds (endOf env.config j.code.cursor ps) (missingExitCode env)) ∧
      k.code.Holds (codeEnd env j.code.cursor ps)
        (List.replicate (bodyEnd env j.code.cursor ps - codeEnd env j.code.cursor ps) .int3) ∧
      k.code.cursor = bodyEnd env j.code.cursor ps ∧ Settled k.draft ∧
      k.draft.staged = j.draft.staged ++ stagedOf env.config ps := by
  have hg₁ := Keeps.of_ok (keeps_compileInsts _ _ _) hinsts
  have hgPad := Keeps.of_ok (keeps_padBody _) hpad
  have hg₂ := (Keeps.of_ok (keeps_emitWhen _ _) hdiag).trans hgPad
  obtain ⟨ps, hps, hheld, hend, hsettled₁, hstaged⟩ :=
    compileInsts_spec henv hcursor hsize hsettled hinsts
  obtain ⟨hmoved, hd₂, hreport⟩ := diagnostics_spec henv (hg₁.code.inside hcursor)
    (by rw [hg₁.code.size]; exact hsize) hsettled₁ hdiag
  obtain ⟨hpadded, hd₃, hpadding⟩ := padBody_spec
    ((Keeps.of_ok (keeps_emitWhen _ _) hdiag).code.inside (hg₁.code.inside hcursor))
    (by rw [hmoved]; have := hg₁.code.cursor; omega) hpad
  have hdraft : k.draft = k₁.draft := hd₃.trans hd₂
  have hcodeEnd : k₂.code.cursor = codeEnd env j.code.cursor ps := by rw [hmoved, hend, codeEnd]
  have hbodyEnd : k.code.cursor = bodyEnd env j.code.cursor ps := by
    rw [hpadded, hmoved, hend, bodyEnd]
  rw [hbodyEnd, hcodeEnd] at hpadding
  refine ⟨ps, hps, fun p hp => ?_, fun hdiagnostics => ?_, hpadding, hbodyEnd,
    by rw [hdraft]; exact hsettled₁, by rw [hdraft]; exact hstaged⟩
  · refine (hheld p hp).grows hg₂.code.grows ?_
    rw [hend]
    exact ((stacked_pieces hps).bounds hp).2
  · rw [← hend]
    refine hgPad.code.grows.holds (hreport hdiagnostics) (Nat.le_of_eq ?_)
    rw [hmoved, if_pos hdiagnostics]

/-- Writing a block leaves its code at the cursor, and stages the exits of its pieces. -/
theorem writeBlock_spec (henv : Reaches j.lowerEnv) (hcursor : j.code.cursor ≤ j.code.size)
    (hsize : j.code.size ≤ 2 ^ 31) (hsettled : Settled j.draft) {b : Block} {preload : Bool}
    {n : Native} (h : writeBlock b preload j = .ok n k)
    (hregs : j.draft.regs.start b.insts =
      (RegMap.create j.config.staticAlloc).start b.insts) :
    ∃ ps, Written j.lowerEnv k.code b n ps ∧ copyLow j.lowerEnv n.target = j.code.cursor ∧
      k.code.cursor = copyStop j.lowerEnv n.target ps ∧
      k.draft.staged = j.draft.staged ++ stagedOf j.config ps := by
  obtain ⟨j₁, j₂, j₃, j₄, j₅, codes, hfront, hinsts, hdiag, hpad, hback, hlist, rfl⟩ :=
    writeBlock_eq_ok h
  have hg₁ := Keeps.of_ok (keeps_emitWhen _ _) hfront
  have hgInsts := Keeps.of_ok (keeps_compileInsts _ _ _) hinsts
  have hg₄ : j₁.Appends j₄ := Appends.trans ⟨hgInsts.config, hgInsts.table, hgInsts.stubs,
    hgInsts.blocks, hgInsts.links, hgInsts.code⟩
    ((Keeps.of_ok (keeps_emitWhen _ _) hdiag).trans (Keeps.of_ok (keeps_padBody _) hpad))
  have hg₅ := Keeps.of_ok (keeps_emitWhen _ _) hback
  have hg₆ := Keeps.of_ok (keeps_listWhen _ _ _ _) hlist
  have hin₁ := hg₁.code.inside hcursor
  obtain ⟨hlow, hd₁, hforward⟩ := front_spec henv hcursor hsize hsettled hfront
  obtain ⟨ps, hps, hheld, hreport, hpadding, hend, hsettled₄, hstaged⟩ := body_spec
    (j := { j₁ with draft := { j₁.draft with regs := j₁.draft.regs.start b.insts } })
    henv hin₁ (by rw [hg₁.code.size]; exact hsize)
    (by rw [hd₁]; exact ⟨hsettled.asm, hsettled.pieceExits⟩) hinsts hdiag hpad
  dsimp only at hps hend hstaged
  rw [hd₁, hregs] at hps
  rw [hd₁] at hstaged
  obtain ⟨hmoved, hd₅, hbehind⟩ := back_spec henv (hg₄.code.inside hin₁)
    (by rw [hg₄.code.size, hg₁.code.size]; exact hsize) hsettled₄
    (codeBase_le_addressOf (by have := hg₁.code.size; omega)) hback
  have hstill := Keeps.of_ok (still_listWhen _ _ _ _) hlist
  have hchecked : (if j.config.usesForwardCheck then j.code.cursor else j₄.code.cursor) =
      checkedAt j.lowerEnv j₁.code.cursor ps := by
    rw [checkedAt, hlow, hend]
    rfl
  refine ⟨ps, ⟨hps, hchecked, fun hforward' => ?_, fun p hp => ?_, fun hdiagnostics => ?_, ?_,
    fun hlink => ?_⟩, hlow, ?_, ?_⟩
  · exact Nat.le_of_add_left_le (Nat.le_of_eq (hforward hforward').1)
  · refine (hheld p hp).grows (hg₅.trans hg₆).code.grows ?_
    have hbound := ((stacked_pieces hps).bounds hp).2
    rw [hend, bodyEnd]
    omega
  · refine (hg₅.trans hg₆).code.grows.holds (hreport hdiagnostics) ?_
    rw [hend, bodyEnd, if_pos hdiagnostics]
    exact Nat.le_max_right _ _
  · refine (hg₅.trans hg₆).code.grows.holds hpadding ?_
    have hle : codeEnd j.lowerEnv j₁.code.cursor ps ≤ bodyEnd j.lowerEnv j₁.code.cursor ps :=
      Nat.le_max_right _ _
    rw [Insn.codeSize_replicate_int3, hend]
    exact Nat.le_of_eq (Nat.add_sub_cancel' hle)
  · dsimp only
    -- the guard is in front of the body or behind it, and what is written later leaves it alone
    cases hstyle : j.config.usesForwardCheck with
    | true =>
      obtain ⟨hlen, hguard⟩ := hforward hstyle
      rw [if_pos rfl]
      refine (hg₄.trans (hg₅.trans hg₆)).code.grows.holds hguard ?_
      rw [codeSize_guardCode]
      exact Nat.le_of_eq hlen
    | false =>
      have hstyle' := usesBackJump_of_blockLink hlink hstyle
      rw [if_neg (by simp)]
      refine hg₆.code.grows.holds (hbehind hstyle') ?_
      rw [codeSize_guardCode, hmoved]
      exact Nat.le_of_eq (by rw [if_pos hstyle'])
  · rw [hstill.cursor, hmoved, hend, copyStop]
  · rw [hstill.draft, hd₅, hstaged]
    rfl

end Jit

/-! ## Windows -/

namespace Jit

variable {j k : Jit}

/-- Inside a window nothing is different but the platform. -/
theorem inWindow_eq_ok {α : Type} {x : Action Jit α} {a : α}
    {opened : Action CodeCache (Option Window)} (hopened : Keeps CodeCache.Same opened)
    (h : inWindow opened x j = .ok a k) :
    ∃ (host host' : Host) (l : Jit), x { j with code := { j.code with host } } = .ok a l ∧
      k = { l with code := { l.code with host := host' } } := by
  obtain ⟨w, j₁, hopen, hrest⟩ := bind_eq_ok.mp h
  obtain ⟨c, hc, rfl⟩ := onPart_eq_ok.mp hopen
  have hsame := hopened j.code
  rw [hc] at hsame
  obtain ⟨host, rfl⟩ := hsame
  obtain ⟨l, hx, rfl⟩ := andFinally_eq_ok.mp hrest
  obtain ⟨host', hclosed⟩ := CodeCache.same_closeWindow w l.code
  exact ⟨host, host', l, hx, by rw [hclosed]⟩

/-- What compiling a block leaves: its code behind the old cursor, its entries and its exits. -/
structure Compiled (j k : Jit) (num : Nat) (b : Block) (n : Native) (ps : List Piece) : Prop where
  config : k.config = j.config
  table : k.table = j.table
  stubs : k.stubs = j.stubs
  code : j.code.Grows k.code
  blocks : k.blocks = j.blocks.setTarget num n.target
  links : k.links = ((stagedOf j.config ps).map fun e =>
      { owner := num, dest := e.dest, offset := e.offset, len := e.len : Exit }).foldl
    Links.addExit ((j.links.eraseBlock num).setNative num n)
  draft : k.draft = .idle j.config.staticAlloc
  written : Written j.lowerEnv k.code b n ps
  low : copyLow j.lowerEnv n.target = j.code.cursor
  cursor : k.code.cursor = copyStop j.lowerEnv n.target ps

/-- Compiling a block leaves the code of its entry's block in the cache. -/
theorem compileBlock_spec (henv : Reaches j.lowerEnv) (hcursor : j.code.cursor ≤ j.code.size)
    (hsize : j.code.size ≤ 2 ^ 31) (hdraft : j.draft = .idle j.config.staticAlloc) {num : Nat}
    {preload : Bool} (h : compileBlock num preload j = .ok ⟨⟩ k) :
    ∃ entry n ps, j.blocks.get? num = some entry ∧ Compiled j k num entry.block n ps := by
  rw [compileBlock, bind_of_ok (get_apply j)] at h
  cases hentry : j.blocks.get? num with
  | none =>
    simp only [hentry] at h
    cases h
  | some entry =>
    simp only [hentry] at h
    split at h
    · cases h
    · rw [bind_of_ok (modify_apply _ _)] at h
      obtain ⟨l, hbody, rfl⟩ := andFinally_eq_ok.mp h
      obtain ⟨n, j₁, hwindow, hinstall⟩ := bind_eq_ok.mp hbody
      cases hinstall
      obtain ⟨host, host', l, hwrite, rfl⟩ := inWindow_eq_ok CodeCache.keeps_same_openAppend hwindow
      have hgrows := Keeps.of_ok (keeps_inWindow (keeps_writeBlock entry.block preload)) hwindow
      -- the block is written with the number noted in the draft and the window open
      obtain ⟨ps, hwritten, hlow, hmoved, hstaged⟩ := writeBlock_spec
        (j := { j with
          code := { j.code with host }
          draft := { j.draft with block := some num } })
        henv hcursor hsize (by rw [hdraft]; exact ⟨rfl, rfl⟩) hwrite (by rw [hdraft]; rfl)
      have hnone : j.draft.staged = [] := by rw [hdraft]; rfl
      dsimp only at hstaged
      rw [hnone, List.nil_append] at hstaged
      have hconfig : l.config = j.config := hgrows.config
      refine ⟨entry, n, ps, rfl,
        { config := hconfig, table := hgrows.table, stubs := hgrows.stubs,
          code := hgrows.code.trans (CodeCache.appends_note _ _).grows,
          blocks := ?_, links := ?_, draft := ?_,
          written := hwritten.mono fun hheld => hheld.congr rfl fun _ _ _ => rfl,
          low := hlow, cursor := hmoved }⟩
      · exact congrArg (·.setTarget num n.target) hgrows.blocks
      · have hlinks : l.links = j.links := hgrows.links
        simp only [dropDraft, install, hlinks, hstaged]
      · exact congrArg (fun config => Draft.idle config.staticAlloc) hconfig

/-- Compiling a block that fails leaves no trace but unused code. -/
theorem compileBlock_error (hdraft : j.draft = .idle j.config.staticAlloc) {num : Nat}
    {preload : Bool} {e : JitError} (h : compileBlock num preload j = .error e k) :
    j.Grows k ∧ k.draft = .idle j.config.staticAlloc ∧ k.logBlocks = j.logBlocks := by
  rw [compileBlock, bind_of_ok (get_apply j)] at h
  cases hentry : j.blocks.get? num with
  | none =>
    simp only [hentry] at h
    cases h
    exact ⟨.refl _, hdraft, rfl⟩
  | some entry =>
    simp only [hentry] at h
    split at h
    · cases h
      exact ⟨(Keeps.of_ok (keeps_note _) rfl).grows, hdraft, rfl⟩
    · rw [bind_of_ok (modify_apply _ _)] at h
      obtain ⟨l, hbody, rfl⟩ := andFinally_eq_error.mp h
      obtain hwindow | ⟨n, j₁, -, hinstall⟩ := bind_eq_error.mp hbody
      · have hgrows := Keeps.of_error (keeps_inWindow (keeps_writeBlock entry.block preload)) hwindow
        have hunlisted := logBlocks_of_inWindow_error (failing_writeBlock entry.block preload) hwindow
        refine ⟨⟨hgrows.config, hgrows.table, hgrows.stubs, hgrows.blocks, hgrows.links,
          hgrows.code⟩, ?_, hunlisted⟩
        exact congrArg (fun config => Draft.idle config.staticAlloc) hgrows.config
      · cases hinstall

/-- Without space for a block to start in, no code is touched. -/
theorem compileBlock_error_of_margin {num : Nat} {preload : Bool} {e : JitError}
    (hmargin : j.code.remaining < safetyMargin) (h : compileBlock num preload j = .error e k) :
    k.code.cursor = j.code.cursor ∧ ∀ o, k.code.byte o = j.code.byte o := by
  rw [compileBlock, bind_of_ok (get_apply j)] at h
  cases hentry : j.blocks.get? num with
  | none =>
    simp only [hentry] at h
    cases h
    exact ⟨rfl, fun _ => rfl⟩
  | some entry =>
    simp only [hentry, if_pos hmargin] at h
    cases h
    exact ⟨rfl, fun _ => rfl⟩

end Jit

end Dynarec
