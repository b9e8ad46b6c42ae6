import Dynarec.Proofs.Code.Moved
import Dynarec.Proofs.Jit.Failure
import Dynarec.Proofs.Jit.Outcome

/-!
# The shape of a block does not depend on its surroundings

The same block can be compiled in many states: at another place, with other blocks in the cache,
with its exits linked or not.  Its code has the same length each time, with the entries and the
exits at the same places in it; and its bytes are the same, except inside exit sites and in the
distances of branches to the fixed routines (`shape_is_independent`).

All code of a block is one list of instructions (`Lower.blockCode`), made from the pieces of the
block as they would lie at the start of the region, moved to their place.  So the lists for two
places are parallel (`Lower.parallel_blockCode`), and that settles the bytes.
-/

namespace Dynarec

open Lower Dynarec.Action CodeCache

namespace Lower

/-- All code of a block with its body at an offset: the guard, the pieces, the report and the
padding, of which there may be none, and the guard behind the body. -/
def blockCode (env : LowerEnv) (b : Block) (target : Nat) (ps : List Piece) : List Insn :=
  (if env.config.usesForwardCheck then guardCode env b.start (addressOf target) else []) ++
    (ps.flatMap (Piece.whole env) ++
      ((if env.config.diagnostics then missingExitCode env else []) ++
        (List.replicate (bodyEnd env target ps - codeEnd env target ps) .int3 ++
          if env.config.usesBackJump then guardCode env b.start (addressOf target) else [])))

/-- The end of the code of a body moves with the body. -/
theorem codeEnd_shift (env : LowerEnv) (target d : Nat) (ps : List Piece) :
    codeEnd env (target + d) (ps.map (Piece.shift d)) = codeEnd env target ps + d := by
  rw [codeEnd, codeEnd, endOf_shift, Nat.add_right_comm]

/-- So does the end of its padding. -/
theorem bodyEnd_shift (env : LowerEnv) (target d : Nat) (ps : List Piece) :
    bodyEnd env (target + d) (ps.map (Piece.shift d)) = bodyEnd env target ps + d := by
  rw [bodyEnd, bodyEnd, endOf_shift]
  omega

/-- So does the end of all code of the block. -/
theorem copyStop_shift (env : LowerEnv) (target d : Nat) (ps : List Piece) :
    copyStop env (target + d) (ps.map (Piece.shift d)) = copyStop env target ps + d := by
  rw [copyStop, copyStop, bodyEnd_shift, Nat.add_right_comm]

section

variable {env : LowerEnv} {s s' o : Nat} {outside : UInt64 → Prop} {site : Nat → Prop}

/-- Code that branches to fixed addresses only is parallel to itself. -/
theorem parallel_self {is : List Insn} (h : ∀ i ∈ is, ∀ t, i.target? = some t → outside t) :
    Parallel s s' outside site o is is := by
  induction is generalizing o with
  | nil => exact .nil
  | cons i is ih =>
    refine .cons ?_ (ih fun k hk => h k (List.mem_cons_of_mem i hk))
    cases ht : i.target? with
    | none => exact .plain ht
    | some t => exact .outside ht (h i List.mem_cons_self t ht)

variable (hout : ∀ a ∈ env.stubs.targets, outside a)

include hout

/-- The guards of a body at two places are parallel. -/
theorem parallel_guardCode (linked : UInt32 → Option UInt64) (start : UInt32) (x : Nat) :
    Parallel s s' outside site o (guardCode env start (addressOf (s + x)))
      (guardCode { env with linked } start (addressOf (s' + x))) := by
  have htest : (testDowncount env.config.staticAlloc).target? = none :=
    Insn.target?_of_isPlain (isPlain_testDowncount _)
  have hstub : outside env.stubs.outerLoopPc := hout _ (by simp [Stubs.targets])
  exact .cons (.plain htest) (.cons (.inside rfl) (.cons (.plain rfl) (.cons (.outside rfl hstub)
    .nil)))

/-- So are the leads of a piece. -/
theorem parallel_lead (hfar : ∀ a ∈ env.stubs.targets, codeBase ≤ a) {lead : List Insn}
    (h : Tame env skipLabel.symbol lead) (x : Nat) :
    Parallel s s' outside site o (lead.map (Insn.mapTarget (skipTo (s + x))))
      (lead.map (Insn.mapTarget (skipTo (s' + x)))) := by
  have hstub : ∀ {a}, a ∈ env.stubs.targets → ∀ stop, skipTo stop a = a :=
    fun ha stop => skipTo_of_le (hfar _ ha) stop
  induction h generalizing o with
  | nil => exact .nil
  | @quiet i is hi _ ih =>
    have hplain : i.target? = none := Insn.target?_of_isPlain (Insn.isPlain_of_isQuiet hi)
    have hsame : ∀ f, i.mapTarget f = i := by
      intro f
      refine (Insn.mapTarget_congr fun t ht => ?_).trans i.mapTarget_id
      cases hplain.symm.trans ht
    rw [List.map_cons, List.map_cons, hsame, hsame]
    exact .cons (.plain hplain) ih
  | @call a is ha _ ih =>
    have ha := Stubs.targets_of_routines ha
    rw [List.map_cons, List.map_cons, Insn.mapTarget, Insn.mapTarget, hstub ha, hstub ha]
    exact .cons (.outside rfl (hout a ha)) ih
  | handler _ _ ih => exact .cons (.plain rfl) (.cons (.plain rfl) ih)
  | @branch cond a is ha _ ih =>
    -- a branch to the dispatcher stays, and one to the end of the piece moves with it
    rcases ha with rfl | rfl
    · have ha : env.stubs.dispatcherPc ∈ env.stubs.targets := by simp [Stubs.targets]
      rw [List.map_cons, List.map_cons, Insn.mapTarget, Insn.mapTarget, hstub ha, hstub ha]
      exact .cons (.outside rfl (hout _ ha)) ih
    · exact .cons (.inside rfl) ih
  | @jump a is ha _ ih =>
    have ha : a ∈ env.stubs.targets := by rcases ha with rfl | rfl <;> simp [Stubs.targets]
    rw [List.map_cons, List.map_cons, Insn.mapTarget, Insn.mapTarget, hstub ha, hstub ha]
    exact .cons (.outside rfl (hout a ha)) ih

/-- So are the pieces with their exit sites, linked or not. -/
theorem parallel_whole (hfar : ∀ a ∈ env.stubs.targets, codeBase ≤ a)
    (linked : UInt32 → Option UInt64) {p : Piece} (htame : Tame env skipLabel.symbol p.lead)
    (hsite : env.config.blockLink → p.inst.exitDest?.isSome → site p.site) :
    Parallel s s' outside site p.start ((p.shift s).whole env)
      ((p.shift s').whole { env with linked }) := by
  refine .append ?_ ?_
  · rw [Piece.code, Piece.code, Piece.stop_shift, Piece.stop_shift, Nat.add_comm _ s,
      Nat.add_comm _ s']
    exact parallel_lead hout hfar htame _
  · rw [Piece.code, codeSize_map_mapTarget]
    show Parallel s s' outside site p.site ((p.inst.exitDest?.map (siteCode env)).getD [])
      ((p.inst.exitDest?.map (siteCode { env with linked })).getD [])
    cases hdest : p.inst.exitDest? with
    | none => exact .nil
    | some pc =>
      show Parallel s s' outside site p.site (siteCode env pc) (siteCode { env with linked } pc)
      rw [siteCode, siteCode]
      split
      · rename_i hlink
        rw [← List.append_nil (linkCode ..), ← List.append_nil (linkCode _ _ (linked pc))]
        exact .site (hsite hlink (by rw [hdest]; rfl)) (codeSize_linkCode ..)
          (codeSize_linkCode ..) .nil
      · have hstub : outside env.stubs.dispatcherPc := hout _ (by simp [Stubs.targets])
        exact .cons (.plain rfl) (.cons (.outside rfl hstub) .nil)

/-- So are all pieces of a body, by induction along the stack. -/
theorem parallel_pieces (hfar : ∀ a ∈ env.stubs.targets, codeBase ≤ a)
    (linked : UInt32 → Option UInt64) {ps : List Piece} (hstacked : Stacked env.config o ps)
    (htame : ∀ p ∈ ps, Tame env skipLabel.symbol p.lead)
    (hsite : ∀ p ∈ ps, env.config.blockLink → p.inst.exitDest?.isSome → site p.site) :
    Parallel s s' outside site o ((ps.map (Piece.shift s)).flatMap (Piece.whole env))
      ((ps.map (Piece.shift s')).flatMap (Piece.whole { env with linked })) := by
  induction ps generalizing o with
  | nil => exact .nil
  | cons p ps ih =>
    obtain ⟨rfl, hstacked⟩ := hstacked
    refine (parallel_whole hout hfar linked (htame p List.mem_cons_self)
      (hsite p List.mem_cons_self)).append ?_
    have hstop := (p.shift s).start_add_codeSize_whole env
    rw [Piece.stop_shift] at hstop
    have hnext : p.start + codeSize ((p.shift s).whole env) = p.stop env.config := by
      have hstart : (p.shift s).start = p.start + s := rfl
      omega
    rw [hnext]
    exact ih hstacked (fun q hq => htame q (List.mem_cons_of_mem p hq))
      fun q hq => hsite q (List.mem_cons_of_mem p hq)

/-- All code of a block in two places. -/
theorem parallel_blockCode (hfar : ∀ a ∈ env.stubs.targets, codeBase ≤ a)
    (linked : UInt32 → Option UInt64) {b : Block} {ps : List Piece}
    (hps : blockPieces env b (frontLen env) = some ps)
    (hsite : ∀ p ∈ ps, env.config.blockLink → p.inst.exitDest?.isSome → site p.site) :
    Parallel s s' outside site 0
      (blockCode env b (s + frontLen env) (ps.map (Piece.shift s)))
      (blockCode { env with linked } b (s' + frontLen env) (ps.map (Piece.shift s'))) := by
  have hlen : codeSize (if env.config.usesForwardCheck then
      guardCode env b.start (addressOf (s + frontLen env)) else []) = frontLen env := by
    rw [frontLen]
    split
    · exact Jit.codeSize_guardCode ..
    · rfl
  have hpad : ∀ d, bodyEnd env (d + frontLen env) (ps.map (Piece.shift d)) -
      codeEnd env (d + frontLen env) (ps.map (Piece.shift d)) =
        bodyEnd env (frontLen env) ps - codeEnd env (frontLen env) ps := by
    intro d
    rw [Nat.add_comm d, bodyEnd_shift, codeEnd_shift]
    omega
  have hguard : ∀ (there : Bool) (o : Nat), Parallel s s' outside site o
      (if there then guardCode env b.start (addressOf (s + frontLen env)) else [])
      (if there then guardCode { env with linked } b.start (addressOf (s' + frontLen env))
        else []) := by
    intro there o
    split
    · exact parallel_guardCode hout linked b.start _
    · exact .nil
  -- guard in front, pieces, check for missing exits, padding, guard behind
  refine .append (hguard _ _) (.append ?_ (.append ?_ (.append ?_ (hguard _ _))))
  · rw [hlen, Nat.zero_add]
    exact parallel_pieces hout hfar linked (stacked_pieces hps)
      (tame_of_pieces hfar hps (RegMap.consistent_start _ _ rfl)) hsite
  · refine parallel_self fun i hi t ht => ?_
    split at hi
    · simp only [missingExitCode, List.mem_cons, List.not_mem_nil, or_false] at hi
      rcases hi with rfl | rfl | rfl
      · cases ht
      · cases ht
      · cases ht
        exact hout _ (by simp [Stubs.targets])
    · cases hi
  · show Parallel s s' outside site _ _ (List.replicate
      (bodyEnd env (s' + frontLen env) (ps.map (Piece.shift s')) -
        codeEnd env (s' + frontLen env) (ps.map (Piece.shift s'))) .int3)
    rw [hpad, hpad]
    refine parallel_self fun i hi t ht => ?_
    rw [List.eq_of_mem_replicate hi] at ht
    cases ht

end

/-- The pieces of a block, from those that it has at the start of the region. -/
theorem blockPieces_add (env : LowerEnv) (b : Block) (s : Nat) :
    blockPieces env b (s + frontLen env) =
      (blockPieces env b (frontLen env)).map (List.map (Piece.shift s)) := by
  rw [blockPieces, Nat.add_comm, pieces_add]
  rfl

/-- Behind the pieces come the check for missing exits and the padding. -/
theorem le_codeEnd (env : LowerEnv) (target : Nat) (ps : List Piece) :
    endOf env.config target ps ≤ codeEnd env target ps ∧
      codeEnd env target ps ≤ bodyEnd env target ps := by
  rw [codeEnd, bodyEnd]
  omega

end Lower

/-- A range from one offset to another holds a list of instructions. -/
def CodeCache.Spans (c : CodeCache) (o : Nat) (is : List Insn) (stop : Nat) : Prop :=
  c.Holds o is ∧ o + codeSize is = stop

/-- Code from one place to another, and on to a third. -/
theorem CodeCache.Spans.append {c : CodeCache} {o m stop : Nat} {is js : List Insn}
    (his : c.Spans o is m) (hjs : c.Spans m js stop) : c.Spans o (is ++ js) stop := by
  obtain ⟨his, rfl⟩ := his
  exact ⟨holds_append.mpr ⟨his, hjs.1⟩, by rw [Insn.codeSize_append, ← Nat.add_assoc, hjs.2]⟩

theorem CodeCache.spans_nil {c : CodeCache} {o : Nat} (h : o ≤ c.size) : c.Spans o [] o :=
  ⟨holds_nil h, rfl⟩

namespace Jit

section

variable {env : LowerEnv} {c : CodeCache} {b : Block} {n : Native} {ps : List Piece}

/-- Pieces that are held one behind the other are held as one. -/
theorem spans_pieces {o : Nat} (hstacked : Stacked env.config o ps)
    (hheld : ∀ p ∈ ps, PieceHeld env c p) (hinside : endOf env.config o ps ≤ c.size) :
    c.Spans o (ps.flatMap (Piece.whole env)) (endOf env.config o ps) := by
  induction ps generalizing o with
  | nil => exact spans_nil hinside
  | cons p ps ih =>
    obtain ⟨rfl, hstacked⟩ := hstacked
    have hhead : c.Spans p.start (p.whole env) (p.stop env.config) :=
      ⟨pieceHeld_iff.mp (hheld p List.mem_cons_self), p.start_add_codeSize_whole env⟩
    exact hhead.append (ih hstacked (fun q hq => hheld q (List.mem_cons_of_mem p hq)) hinside)

/-- What is written for a block is its code, from where it starts to where it ends. -/
theorem Written.spans_blockCode (h : Written env c b n ps)
    (hinside : copyStop env n.target ps ≤ c.size) :
    c.Spans (copyLow env n.target) (blockCode env b n.target ps) (copyStop env n.target ps) := by
  have hlow := copyLow_le env n.target
  have hbody := le_bodyEnd env n.target ps
  have hend := le_codeEnd env n.target ps
  have hstop := bodyEnd_le_copyStop env n.target ps
  -- five parts: the guard in front, pieces, the check for missing exits, padding, the guard behind
  refine .append (m := n.target) ?_ (.append
    (spans_pieces (stacked_pieces h.pieces) h.held (by omega)) (.append
      (m := codeEnd env n.target ps) ?_ (.append (m := bodyEnd env n.target ps)
        ⟨h.padding, by rw [Insn.codeSize_replicate_int3]; omega⟩ ?_)))
  · cases hforward : env.config.usesForwardCheck with
    | false =>
      have htarget : n.target ≤ c.size := by omega
      rw [copyLow, hforward]
      exact spans_nil htarget
    | true =>
      have hlink : env.config.blockLink := by
        rw [Config.usesForwardCheck, Bool.and_eq_true] at hforward
        exact hforward.1
      have hchecked : n.checked = copyLow env n.target := by
        rw [h.checked, checkedAt, if_pos hforward]
      refine ⟨hchecked ▸ h.guard hlink, ?_⟩
      have hle := h.low hforward
      rw [if_pos rfl, codeSize_guardCode, copyLow, if_pos hforward]
      omega
  · rw [codeEnd]
    split
    · rename_i hdiagnostics
      exact ⟨h.report hdiagnostics, rfl⟩
    · exact spans_nil (by omega)
  · rw [copyStop]
    split
    · rename_i hback
      rw [Config.usesBackJump, Bool.and_eq_true, decide_eq_true_eq] at hback
      have hchecked : n.checked = bodyEnd env n.target ps := by
        rw [h.checked, checkedAt, Config.usesForwardCheck, hback.2]
        simp
      exact ⟨hchecked ▸ h.guard hback.1, by rw [codeSize_guardCode]⟩
    · exact spans_nil (by omega)

end

/-- The shape of the code of a block: how long it is, and where its entries and its exits are in
it. -/
structure Shape where
  len : Nat
  target : Nat
  checked : Nat
  exits : List StagedExit

/-- Code of a shape has been added for a block. -/
structure Shape.Added (shape : Shape) (j k : Jit) (num : Nat) : Prop where
  cursor : k.code.cursor = j.code.cursor + shape.len
  native : k.links.native? num = some
    { target := j.code.cursor + shape.target, checked := j.code.cursor + shape.checked }
  exits : k.links.exitsOf num = shape.exits.map fun e =>
    { owner := num, dest := e.dest, offset := j.code.cursor + e.offset, len := e.len }

/-- An address is not in the code that has been added. -/
def Outside (j k : Jit) (t : UInt64) : Prop :=
  t < addressOf j.code.cursor ∨ addressOf k.code.cursor ≤ t

section

variable {j k : Jit} {num : Nat} {b : Block} {n : Native} {ps : List Piece}

/-- The shape of a block, from its pieces as they lie at the start of the region. -/
def shapeOf (env : LowerEnv) (ps : List Piece) : Shape where
  len := copyStop env (frontLen env) ps
  target := frontLen env
  checked := if env.config.usesForwardCheck then 0 else bodyEnd env (frontLen env) ps
  exits := stagedOf env.config ps

/-- The staged exits are the exit sites of the pieces, if links are on. -/
theorem mem_stagedOf {config : Config} {e : StagedExit} : e ∈ stagedOf config ps ↔
    config.blockLink ∧ ∃ p ∈ ps, ∃ pc, p.inst.exitDest? = some pc ∧
      { dest := pc, offset := p.site, len := exitSiteLen } = e := by
  rw [stagedOf]
  split <;> simp [*]

/-- The staged exits of a body move with the body. -/
theorem stagedOf_shift (config : Config) (s : Nat) (ps : List Piece) :
    stagedOf config (ps.map (Piece.shift s)) =
      (stagedOf config ps).map fun e => { e with offset := s + e.offset } := by
  rw [stagedOf, stagedOf]
  split
  · rw [List.filterMap_map, List.map_filterMap]
    refine List.filterMap_congr fun p _ => ?_
    show p.inst.exitDest?.map _ = _
    rw [Piece.site_shift, Nat.add_comm, Option.map_map]
    rfl
  · rfl

/-- Every staged exit has the length of a site. -/
theorem len_of_mem_stagedOf {config : Config} {e : StagedExit} (he : e ∈ stagedOf config ps) :
    e.len = exitSiteLen := by
  obtain ⟨-, p, -, pc, -, rfl⟩ := mem_stagedOf.mp he
  rfl

/-- Code that is compiled for a block has the shape of the block, and is made from the same pieces
everywhere. -/
theorem Compiled.added (h : j.Compiled k num b n ps) :
    ∃ qs, blockPieces j.lowerEnv b (frontLen j.lowerEnv) = some qs ∧
      ps = qs.map (Piece.shift j.code.cursor) ∧ n.target = j.code.cursor + frontLen j.lowerEnv ∧
      (shapeOf j.lowerEnv qs).Added j k num := by
  -- the body starts behind the guard, if that stands in front
  have htarget : n.target = j.code.cursor + frontLen j.lowerEnv := by
    have hlow := h.low
    have hguard := h.written.low
    rw [copyLow] at hlow
    rw [frontLen]
    split at hlow
    · rename_i hforward
      have hguard := hguard hforward
      rw [if_pos hforward]
      omega
    · rename_i hforward
      rw [if_neg hforward]
      exact hlow
  have hpieces := h.written.pieces
  rw [htarget, blockPieces_add] at hpieces
  obtain ⟨qs, hqs, rfl⟩ := Option.map_eq_some_iff.mp hpieces
  refine ⟨qs, hqs, rfl, htarget, ?_, ?_, ?_⟩
  · rw [h.cursor, htarget, Nat.add_comm, copyStop_shift, Nat.add_comm]
    rfl
  · have hchecked : n.checked = j.code.cursor + (shapeOf j.lowerEnv qs).checked := by
      rw [h.written.checked, checkedAt, h.low, htarget, Nat.add_comm _ (frontLen _), bodyEnd_shift,
        Nat.add_comm _ j.code.cursor, shapeOf]
      split <;> rfl
    rw [h.native?_eq, if_pos rfl, ← hchecked]
    exact congrArg (fun target => some { n with target }) htarget
  · rw [h.exitsOf_eq, if_pos rfl, stagedOf_shift, List.map_map]
    rfl

/-- All code that has been added for a block. -/
theorem Compiled.spans_blockCode (h : j.Compiled k num b n ps) (hj : j.code.cursor ≤ j.code.size) :
    k.code.Spans j.code.cursor (blockCode j.lowerEnv b n.target ps) k.code.cursor := by
  have hinside := h.code.inside hj
  rw [h.cursor] at hinside
  have hspans := h.written.spans_blockCode hinside
  rwa [h.low, ← h.cursor] at hspans

/-- The fixed routines are not in the code of a block. -/
theorem Ready.outside (hj : j.Ready) {a : UInt64} (ha : a ∈ j.stubs.targets) :
    j.Outside k a := by
  obtain ⟨o, ho, rfl⟩ := hj.installed.exists_target_lt a ha
  have hroutines := hj.routines
  have hlow := hj.low
  have hhigh := hj.high
  have hsize := hj.size_le
  left
  rw [UInt64.lt_iff_toNat_lt, toNat_addressOf (by omega), toNat_addressOf (by omega)]
  omega

end

/-- Blocks are lowered in the same way in all states of one translator, up to the links. -/
theorem lowerEnv_of_evolves {config : Config} {table : HandlerTable} {host host' : Host}
    {j₀ j j' : Jit} (hcreate : create config table host = .ok j₀ host') (hj : j₀.Evolves j)
    (hj' : j₀.Evolves j') : j'.lowerEnv = { j.lowerEnv with linked := j'.linkTarget } := by
  have hchanges := hj.changes (create_spec hcreate).orderly.toTidy
  have hchanges' := hj'.changes (create_spec hcreate).orderly.toTidy
  exact lowerEnv_eq (hchanges'.settings_eq.1.trans hchanges.settings_eq.1.symm)
    (hchanges'.settings_eq.2.trans hchanges.settings_eq.2.symm)
    ((logged_of_changes hchanges').stubs.trans (logged_of_changes hchanges).stubs.symm)

/-- The code of a block has the same shape in whatever state it is compiled, ahead of its use or
not: the same length, with the entries and the exits at the same places in it.  Its bytes are the
same too, except in exit sites and in the distances of branches to addresses outside the block,
which are the same branches at the same places. -/
theorem shape_is_independent {config : Config} {table : HandlerTable} {host host' : Host}
    {j₀ j j' k k' : Jit} (hcreate : create config table host = .ok j₀ host') (hj : j₀.Evolves j)
    (hj' : j₀.Evolves j') {num num' : Nat} {entry entry' : BlockEntry} {preload preload' : Bool}
    (hfound : j.blocks.get? num = some entry) (hfound' : j'.blocks.get? num' = some entry')
    (hblock : entry'.block = entry.block) (hk : compileBlock num preload j = .ok ⟨⟩ k)
    (hk' : compileBlock num' preload' j' = .ok ⟨⟩ k') :
    ∃ shape : Shape, shape.Added j k num ∧ shape.Added j' k' num' ∧
      (∀ e ∈ shape.exits, e.len = 16) ∧
      ∃ is is', k.code.Spans j.code.cursor is k.code.cursor ∧
        k'.code.Spans j'.code.cursor is' k'.code.cursor ∧
        ∀ x < shape.len, k.code.byte (j.code.cursor + x) = k'.code.byte (j'.code.cursor + x) ∨
          (∃ e ∈ shape.exits, e.offset ≤ x ∧ x < e.offset + e.len) ∨
          InDistance (fun t => j.Outside k t ∧ j'.Outside k' t) is is' x := by
  have htidy := tidy_of_evolves hcreate hj
  have htidy' := tidy_of_evolves hcreate hj'
  have henv := lowerEnv_of_evolves hcreate hj hj'
  obtain ⟨entry₁, n, ps, hentry, hcompiled⟩ := compileBlock_spec htidy.laid.ready.reaches
    htidy.laid.ready.high htidy.laid.ready.size_le htidy.laid.ready.draft hk
  obtain ⟨entry₁', n', ps', hentry', hcompiled'⟩ := compileBlock_spec htidy'.laid.ready.reaches
    htidy'.laid.ready.high htidy'.laid.ready.size_le htidy'.laid.ready.draft hk'
  cases hfound.symm.trans hentry
  cases hfound'.symm.trans hentry'
  rw [hblock] at hcompiled'
  have hspans := hcompiled.spans_blockCode htidy.laid.ready.high
  have hspans' := hcompiled'.spans_blockCode htidy'.laid.ready.high
  obtain ⟨qs, hqs, rfl, htarget, hadded⟩ := hcompiled.added
  obtain ⟨qs', hqs', rfl, htarget', hadded'⟩ := hcompiled'.added
  -- the same pieces, moved
  have hstubs : j'.stubs = j.stubs := congrArg LowerEnv.stubs henv
  rw [henv] at hqs' hadded' htarget' hspans'
  have hsame : blockPieces { j.lowerEnv with linked := j'.linkTarget } entry.block
      (frontLen j.lowerEnv) = blockPieces j.lowerEnv entry.block (frontLen j.lowerEnv) :=
    pieces_linked ..
  cases (hsame.symm.trans hqs').symm.trans hqs
  rw [htarget] at hspans
  rw [htarget'] at hspans'
  have hparallel : Parallel j.code.cursor j'.code.cursor
      (fun t => j.Outside k t ∧ j'.Outside k' t)
      (fun a => ∃ e ∈ stagedOf j.config qs, e.offset = a) 0
      (blockCode j.lowerEnv entry.block (j.code.cursor + frontLen j.lowerEnv)
        (qs.map (Piece.shift j.code.cursor)))
      (blockCode { j.lowerEnv with linked := j'.linkTarget } entry.block
        (j'.code.cursor + frontLen j.lowerEnv) (qs.map (Piece.shift j'.code.cursor))) := by
    refine parallel_blockCode (fun a ha => ?_) htidy.laid.ready.reaches.stubs _ hqs
      fun p hp hlink hdest => ?_
    · exact ⟨htidy.laid.ready.outside ha, htidy'.laid.ready.outside (hstubs ▸ ha)⟩
    · obtain ⟨pc, hpc⟩ := Option.isSome_iff_exists.mp hdest
      exact ⟨_, mem_stagedOf.mpr ⟨hlink, p, hp, pc, hpc, rfl⟩, rfl⟩
  have hlen : ∀ e ∈ stagedOf j.config qs, e.len = 16 := fun e => len_of_mem_stagedOf
  refine ⟨shapeOf j.lowerEnv qs, hadded, hadded', hlen, _, _, hspans, hspans', fun x hx => ?_⟩
  have hx : x < codeSize (blockCode j.lowerEnv entry.block (j.code.cursor + frontLen j.lowerEnv)
      (qs.map (Piece.shift j.code.cursor))) := by
    have hstop := hspans.2
    rw [hadded.cursor] at hstop
    omega
  have hcases := hparallel.byte_cases hspans.1 hspans'.1 hx
  rw [ByteCases, Nat.zero_add] at hcases
  refine hcases.imp_right (.imp_left ?_)
  rintro ⟨_, ⟨e, he, rfl⟩, hle, hlt⟩
  refine ⟨e, he, hle, ?_⟩
  rw [hlen e he]
  exact hlt

/-- A block with an exit that can be linked. -/
def hopBlock : Block :=
  { start := 0x1000, insts := [{ op := .exitIfGtZ, src1 := 4, constant := 0x2000 }] }

/-- The block is registered, and nothing else is. -/
def aloneOps : List Op :=
  [.addBlock hopBlock]

/-- The block is registered behind one that its exit leads to. -/
def behindOps : List Op :=
  [.addAndCompile { start := 0x2000, insts := [] }, .addBlock hopBlock]

/-- The block is compiled in an empty cache, and ahead of its use behind a block that it is linked
to.  The shape is the same, with an exit in it. -/
theorem shape_is_independent_hopBlock :
    ∃ j host k k', create {} .default {} = .ok j host ∧
      compileBlock 0 false (j.applyAll aloneOps) = .ok ⟨⟩ k ∧
      compileBlock 1 true (j.applyAll behindOps) = .ok ⟨⟩ k' ∧
      (j.applyAll aloneOps).linkTarget 0x2000 = none ∧
      (j.applyAll behindOps).linkTarget 0x2000 ≠ none ∧
      (j.applyAll aloneOps).code.cursor < (j.applyAll behindOps).code.cursor ∧
      ∃ shape : Shape, shape.exits.length = 1 ∧ shape.Added (j.applyAll aloneOps) k 0 ∧
        shape.Added (j.applyAll behindOps) k' 1 := by
  have hruns : succeeds (create {} .default {}) (fun j _ =>
      succeeds (compileBlock 0 false (j.applyAll aloneOps)) (fun _ k =>
        decide ((k.links.exitsOf 0).length = 1)) &&
      succeeds (compileBlock 1 true (j.applyAll behindOps)) (fun _ _ => true) &&
      ((j.applyAll aloneOps).blocks.get? 0).any (fun entry => decide (entry.block = hopBlock)) &&
      ((j.applyAll behindOps).blocks.get? 1).any (fun entry => decide (entry.block = hopBlock)) &&
      decide ((j.applyAll aloneOps).linkTarget 0x2000 = none) &&
      decide ((j.applyAll behindOps).linkTarget 0x2000 ≠ none) &&
      decide ((j.applyAll aloneOps).code.cursor < (j.applyAll behindOps).code.cursor)) = true := by
    decide +kernel
  obtain ⟨j, host, hcreate, htests⟩ := exists_of_succeeds hruns
  simp only [Bool.and_eq_true, decide_eq_true_eq] at htests
  obtain ⟨⟨⟨⟨⟨⟨halone, hbehind⟩, hfound⟩, hfound'⟩, hunlinked⟩, hlinked⟩, hcursor⟩ := htests
  obtain ⟨⟨⟩, k, halone, hexits⟩ := exists_of_succeeds halone
  obtain ⟨⟨⟩, k', hbehind, -⟩ := exists_of_succeeds hbehind
  obtain ⟨entry, hfound, hblock⟩ := (Option.any_eq_true ..).mp hfound
  obtain ⟨entry', hfound', hblock'⟩ := (Option.any_eq_true ..).mp hfound'
  obtain ⟨shape, hadded, hadded', -⟩ := shape_is_independent hcreate (Evolves.refl.apply _)
    ((Evolves.refl.apply _).apply _) hfound hfound'
    ((of_decide_eq_true hblock').trans (of_decide_eq_true hblock).symm) halone hbehind
  refine ⟨j, host, k, k', hcreate, halone, hbehind, hunlinked, hlinked, hcursor, shape, ?_, hadded,
    hadded'⟩
  have hlength := of_decide_eq_true hexits
  rwa [hadded.exits, List.length_map] at hlength

end Jit

end Dynarec
