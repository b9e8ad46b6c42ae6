import Dynarec.Proofs.Jit.Patch
import Dynarec.Proofs.Lower.Bounds
import Dynarec.Proofs.Lower.Tame

/-!
# How compiling a block ends

Compiling a registered block can end in few ways (`BlockEnds`): there is too little space to start
in, the platform refuses the window, too little space is left behind one of the instructions, or
the block is written.  Which of them it is depends on the size of the region, on where the pieces of
the block lie, and on the platform, and on nothing else (`compileBlock_ends`).

Nothing else can go wrong, for three reasons:

1. every instruction has a lead, and a short one (`Lower.exists_pieces`);
2. all that is branched to lies in the region, which is small enough for any branch inside it
   (`Lower.Lands`);
3. between two checks of the space that is left, less is written than a check asks for
   (`maxPiece_lt`).
-/

namespace Dynarec

open Lower Dynarec.Action CodeCache

/-! ## Blocks branch to places in the region -/

namespace Lower

/-- What the code of a block may branch to is at some place of the region. -/
structure Lands (env : LowerEnv) : Prop where
  stubs : ∀ a ∈ env.stubs.targets, ∃ o, o ≤ 2 ^ 31 ∧ a = addressOf o
  linked : ∀ pc a, env.linked pc = some a → ∃ o, o ≤ 2 ^ 31 ∧ a = addressOf o

variable {env : LowerEnv}

/-- What lies in the region is in reach. -/
theorem Lands.reaches (h : Lands env) : Reaches env where
  stubs a ha := by
    obtain ⟨o, ho, rfl⟩ := h.stubs a ha
    exact codeBase_le_addressOf ho
  linked pc a ha := by
    obtain ⟨o, ho, rfl⟩ := h.linked pc a ha
    exact codeBase_le_addressOf ho

/-- Tame code that skips to a place in the region branches to places in the region. -/
theorem Tame.branchesNear (henv : Lands env) {stop : Nat} (hstop : stop ≤ 2 ^ 31)
    {is : List Insn} (h : Tame env (addressOf stop) is) : Insn.BranchesNear is := by
  -- one instruction more, if its target is in the region
  have hmore : ∀ {k : Insn} {ks : List Insn}, (∀ t, k.target? = some t →
      ∃ n, n ≤ 2 ^ 31 ∧ t = addressOf n) → Insn.BranchesNear ks → Insn.BranchesNear (k :: ks) := by
    intro k ks hk hks i hi
    rcases List.mem_cons.mp hi with rfl | hi
    · exact hk
    · exact hks i hi
  induction h with
  | nil => exact fun i hi => absurd hi List.not_mem_nil
  | quiet hi _ ih =>
    refine hmore (fun t ht => ?_) ih
    rw [Insn.target?_of_isPlain (Insn.isPlain_of_isQuiet hi)] at ht
    cases ht
  | call ha _ ih =>
    refine hmore (fun t ht => ?_) ih
    cases ht
    exact henv.stubs _ (Stubs.targets_of_routines ha)
  | handler _ _ ih => exact hmore (fun t ht => nomatch ht) (hmore (fun t ht => nomatch ht) ih)
  | branch ha _ ih =>
    refine hmore (fun t ht => ?_) ih
    cases ht
    rcases ha with rfl | rfl
    · exact henv.stubs _ (by simp [Stubs.targets])
    · exact ⟨stop, hstop, rfl⟩
  | jump ha _ ih =>
    refine hmore (fun t ht => ?_) ih
    cases ht
    rcases ha with rfl | rfl <;> exact henv.stubs _ (by simp [Stubs.targets])

/-- Code that stays in the region, one behind the other, stays in it. -/
theorem near_append {is js : List Insn} (his : Insn.BranchesNear is) (hjs : Insn.BranchesNear js) :
    Insn.BranchesNear (is ++ js) := by
  intro i hi
  rcases List.mem_append.mp hi with hi | hi
  · exact his i hi
  · exact hjs i hi

/-- The jump of an exit stays in the region if its target is there. -/
theorem near_exitJump (henv : Lands env) (pc : UInt32) {target : Option UInt64}
    (htarget : ∀ a, target = some a → ∃ o, o ≤ 2 ^ 31 ∧ a = addressOf o) :
    Insn.BranchesNear (exitJump env.stubs pc target) :=
  fun _ hk t ht => (target_of_mem_exitJump hk ht).elim (htarget t) (henv.stubs t)

/-- So does the code of an exit site that is not linked. -/
theorem near_siteCode (henv : Lands env) (pc : UInt32) : Insn.BranchesNear (siteCode env pc) := by
  rw [siteCode]
  split
  · refine near_append (near_exitJump henv pc (henv.linked pc)) fun k hk t ht => ?_
    rw [List.eq_of_mem_replicate hk] at ht
    cases ht
  · exact near_exitJump henv pc (by simp)

/-- So does a piece with its site. -/
theorem near_whole (henv : Lands env) {p : Piece} (htame : Tame env skipLabel.symbol p.lead)
    (hstop : p.stop env.config ≤ 2 ^ 31) : Insn.BranchesNear (p.whole env) := by
  have hcode : Tame env (addressOf (p.stop env.config)) (p.code env.config) :=
    htame.map_skipTo henv.reaches.stubs _
  refine near_append (hcode.branchesNear henv hstop) ?_
  cases p.inst.exitDest? with
  | none => exact fun i hi => absurd hi List.not_mem_nil
  | some pc => exact near_siteCode henv pc

/-- So does the guard of a body. -/
theorem near_guardCode (henv : Lands env) (start : UInt32) {body : Nat} (hbody : body ≤ 2 ^ 31) :
    Insn.BranchesNear (guardCode env start (addressOf body)) := by
  intro i hi t ht
  simp only [guardCode, Jit.spentBudget, List.cons_append, List.nil_append, List.mem_cons,
    List.not_mem_nil, or_false] at hi
  rcases hi with rfl | rfl | rfl | rfl
  · rw [Insn.target?_of_isPlain (isPlain_testDowncount _)] at ht
    cases ht
  · cases ht
    exact ⟨body, hbody, rfl⟩
  · cases ht
  · cases ht
    exact henv.stubs _ (by simp [Stubs.targets])

/-- So does the check for missing exits. -/
theorem near_missingExitCode (henv : Lands env) : Insn.BranchesNear (missingExitCode env) := by
  intro i hi t ht
  simp only [missingExitCode, List.mem_cons, List.not_mem_nil, or_false] at hi
  rcases hi with rfl | rfl | rfl
  · cases ht
  · cases ht
  · cases ht
    exact henv.stubs _ (by simp [Stubs.targets])

/-! ## How long the parts of a block are -/

/-- The most bytes of a piece. -/
def maxPiece : Nat :=
  15 * maxLead + exitSiteLen

/-- The number of bytes in front of a body. -/
def frontLen (env : LowerEnv) : Nat :=
  if env.config.usesForwardCheck then guardLen env else 0

/-- A piece with a short lead is short. -/
theorem stop_le_of_lead {p : Piece} (h : p.lead.length ≤ maxLead) (config : Config) :
    p.stop config ≤ p.start + maxPiece := by
  have hlead := codeSize_le p.lead
  have hsite : (if p.inst.exitDest?.isSome then siteLen config else 0) ≤ exitSiteLen := by
    rw [siteLen]
    split
    · split <;> decide
    · exact Nat.zero_le _
  rw [Piece.stop, Piece.site, maxPiece]
  omega

/-- A guard takes 60 bytes at most. -/
theorem guardLen_le (env : LowerEnv) : guardLen env ≤ 60 :=
  codeSize_le (guardCode env 0 0)

/-- The check for missing exits takes 45 bytes at most. -/
theorem codeSize_missingExitCode_le (env : LowerEnv) : codeSize (missingExitCode env) ≤ 45 :=
  codeSize_le (missingExitCode env)

/-- So what stands in front of a body takes 60 bytes at most. -/
theorem frontLen_le (env : LowerEnv) : frontLen env ≤ 60 := by
  rw [frontLen]
  split
  · exact guardLen_le env
  · exact Nat.zero_le 60

end Lower

namespace Jit

/-- A guard and a piece are shorter than the space that is asked for before them, and so are a guard
and what comes behind the pieces. -/
theorem maxPiece_lt :
    60 + maxPiece < safetyMargin ∧ 60 + (45 + minBodyLen + 60) < safetyMargin := by
  decide

/-! ## Moving a piece into the cache -/

variable {j k : Jit} {env : LowerEnv}

/-- Exits inside the region can be staged. -/
theorem exists_stageExits (hsize : j.code.size ≤ 2 ^ 31) {xs : List (DraftExit × UInt64)}
    (hxs : ∀ x ∈ xs, ∃ o < j.code.size, x.2 = addressOf o) : ∃ k, stageExits xs j = .ok ⟨⟩ k := by
  induction xs generalizing j with
  | nil => exact ⟨j, rfl⟩
  | cons x xs ih =>
    obtain ⟨e, a⟩ := x
    obtain ⟨o, ho, rfl⟩ := hxs _ List.mem_cons_self
    rw [stageExits, bind_of_ok (get_apply j)]
    simp only [offsetOf?_addressOf hsize ho]
    exact ih hsize fun x hx => hxs x (List.mem_cons_of_mem _ hx)

/-- A label in the items of a piece that fits has an address in the region. -/
theorem exists_labels {size offset : Nat} {items : List Item} {es : List DraftExit}
    (hes : ∀ e ∈ es, ∃ before after, items = before ++ .mark e.label :: after ∧
      .mark e.label ∉ before ∧ offset + (before.map Item.size).sum < size) :
    ∃ as, (es.map DraftExit.label).mapM
        (Assembler.labelAddress (addressOf offset) (Item.layout 0 items)) = .ok as ∧
      ∀ a ∈ as, ∃ o < size, a = addressOf o := by
  induction es with
  | nil => exact ⟨[], rfl, by simp⟩
  | cons e es ih =>
    obtain ⟨as, has, hplaces⟩ := ih fun e' he' => hes e' (List.mem_cons_of_mem _ he')
    obtain ⟨before, after, hitems, hbefore, hinside⟩ := hes e List.mem_cons_self
    have hlabel := Assembler.labelAddress_mark after hbefore (addressOf offset)
    rw [← hitems, ← addressOf_add] at hlabel
    refine ⟨addressOf (offset + (before.map Item.size).sum) :: as, ?_, ?_⟩
    · rw [List.map_cons, List.mapM_cons, hlabel, has]
      rfl
    · intro a ha
      rcases List.mem_cons.mp ha with rfl | ha
      · exact ⟨_, hinside, rfl⟩
      · exact hplaces a ha

/-- A piece that fits, and branches to places in the region, is moved into the cache. -/
theorem exists_flushPiece (hsize : j.code.size ≤ 2 ^ 31)
    (hnear : Insn.BranchesNear (draftCode j.draft j.code.cursor))
    (hfits : j.code.cursor + codeSize (draftCode j.draft j.code.cursor) ≤ j.code.size)
    (hexits : ∀ e ∈ j.draft.pieceExits, ∃ before after,
      j.draft.asm.items = before ++ .mark e.label :: after ∧ .mark e.label ∉ before ∧
        j.code.cursor + (before.map Item.size).sum < j.code.size) :
    ∃ k, flushPiece j = .ok ⟨⟩ k := by
  rw [flushPiece, bind_of_ok (get_apply j)]
  cases hempty : j.draft.asm.isEmpty with
  | true => exact ⟨j, rfl⟩
  | false =>
    rw [if_neg (by simp)]
    obtain ⟨bs, hbs⟩ := Insn.exists_encodeList? hnear (Nat.le_trans hfits hsize)
    obtain ⟨as, has, hplaces⟩ := exists_labels hexits
    -- nothing that comes before staging changes the size of the region
    have hstage : ∀ l : Jit, l.code.size = j.code.size →
        ∃ k, stageExits (j.draft.pieceExits.zip as) l = .ok ⟨⟩ k := by
      intro l hl
      refine exists_stageExits (by rw [hl]; exact hsize) fun x hx => ?_
      rw [hl]
      exact hplaces x.2 (List.of_mem_zip hx).2
    have hcode : Assembler.assembleItems j.draft.asm.items j.code.cursorAddress
        (j.draft.pieceExits.map DraftExit.label) = .ok { bytes := bs, labels := as } := by
      rw [cursorAddress_eq (by omega)]
      exact Assembler.assembleItems_eq_ok.mpr ⟨hbs, has⟩
    have hassemble : assembleDraft j = .ok { bytes := bs, labels := as }
        { j with draft := { j.draft with asm := .empty } } := by
      rw [assembleDraft_apply, Assembler.assemble, hempty, if_neg (by simp), hcode]
    have happend : CodeCache.append bs j.code = .ok j.code.position
        { j.code.write j.code.cursor bs with cursor := j.code.cursor + bs.length } := by
      refine append_eq_ok.mpr ⟨rfl, ?_, rfl⟩
      rw [Insn.length_of_encodeList? hbs]
      omega
    have hcache : onCode (CodeCache.append bs) { j with draft := { j.draft with asm := .empty } } =
        .ok j.code.position _ := onPart_eq_ok.mpr ⟨_, happend, rfl⟩
    rw [bind_of_ok hassemble, bind_of_ok hcache, bind_of_ok (get_apply _),
      bind_of_ok (modify_apply _ _)]
    exact hstage _ rfl

/-- Code without labels that fits is moved into the cache. -/
theorem exists_emitWhen (hsize : j.code.size ≤ 2 ^ 31)
    (hsettled : Settled j.draft) {x : Emit Unit} {is : List Insn} (hnear : Insn.BranchesNear is)
    (hx : ∀ d, x d = .ok ⟨⟩ (d.put is d.regs)) (hfits : j.code.cursor + codeSize is ≤ j.code.size) :
    ∃ k, emitWhen true x j = .ok ⟨⟩ k := by
  have hcode : draftCode (j.draft.put is j.draft.regs) j.code.cursor = is := by
    have hitems : (j.draft.put is j.draft.regs).asm.items = is.map .insn := by
      rw [Draft.put, hsettled.asm]
      rfl
    rw [draftCode, hitems]
    exact flatten_insns hnear.far _
  rw [emitWhen, if_pos rfl, bind_of_ok (onDraft_eq_ok.mpr ⟨_, hx j.draft, rfl⟩)]
  refine exists_flushPiece hsize (by rw [hcode]; exact hnear) (by rw [hcode]; exact hfits) ?_
  intro e he
  rw [Draft.put, hsettled.pieceExits] at he
  cases he

/-- The guard in front of a body can be written if it fits. -/
theorem exists_frontGuard (hland : Lands env) (hsize : j.code.size ≤ 2 ^ 31)
    (hsettled : Settled j.draft) (start : UInt32)
    (hfits : j.code.cursor + guardLen env ≤ j.code.size) :
    ∃ k, emitWhen true (frontGuard env start) j = .ok ⟨⟩ k := by
  have hcode : draftCode { j.draft with asm := { items := guardItems env start, labels := 1 } }
      j.code.cursor = guardCode env start (addressOf (j.code.cursor + guardLen env)) :=
    flatten_guardItems hland.reaches start j.code.cursor
  rw [emitWhen, if_pos rfl,
    bind_of_ok (onDraft_eq_ok.mpr ⟨_, frontGuard_apply hsettled.asm env start, rfl⟩)]
  refine exists_flushPiece hsize ?_ ?_ ?_
  · rw [hcode]
    exact near_guardCode hland start (Nat.le_trans hfits hsize)
  · rw [hcode, codeSize_guardCode]
    exact hfits
  · intro e he
    rw [hsettled.pieceExits] at he
    cases he

/-! ## Instructions -/

/-- Exit sites can be measured wherever there is space for them. -/
theorem measured_of_room (hland : Lands env) (i : Inst)
    (hroom : j.code.cursor + exitSiteLen ≤ 2 ^ 31) : Measured (measuring env j.code) i := by
  intro hlink pc _
  have hjump : siteJump (measuring env j.code) pc = siteJump env pc := rfl
  have hlt := codeSize_siteJump_lt env pc
  have hnear : Insn.BranchesNear (siteJump env pc) := by
    rw [siteJump, if_pos hlink]
    exact near_exitJump hland pc (hland.linked pc)
  obtain ⟨bs, hbs⟩ := Insn.exists_encodeList? hnear
    (show j.code.cursor + codeSize (siteJump env pc) ≤ 2 ^ 31 by omega)
  rw [← cursorAddress_eq (by omega)] at hbs
  rw [hjump]
  exact measureAt_of_encodeList? hnear.far hbs

/-- The one exit of a piece stands behind its lead. -/
theorem exit_of_finish {d : Draft} (hexits : d.pieceExits = []) {i : Inst} {lead : List Insn}
    {n : RegMap} {e : DraftExit} (he : e ∈ (d.finish env i lead n).pieceExits) :
    env.config.blockLink ∧ i.exitDest?.isSome ∧ ∃ after,
      (d.finish env i lead n).asm.items = lead.map .insn ++ .mark e.label :: after := by
  rw [Draft.finish] at he ⊢
  cases hdest : i.exitDest? with
  | none =>
    rw [hdest, Draft.put, hexits] at he
    cases he
  | some pc =>
    rw [hdest] at he
    dsimp only at he ⊢
    split at he
    · rename_i hlink
      obtain rfl := List.mem_singleton.mp he
      exact ⟨hlink, rfl, (siteItems env pc (siteLabel i)).tail ++ siteTail i, by simp [siteItems]⟩
    · cases he

/-- Compiling an instruction is lowering it and moving its piece into the cache. -/
theorem compileInst_of_piece {index : Nat} {i : Inst} {d : Draft} {k : Jit}
    (hpiece : piece (measuring env j.code) i
      { j.draft with regs := j.draft.regs.setIndex index } = .ok ⟨⟩ d)
    (hflush : flushPiece { j with draft := d } = .ok ⟨⟩ k) :
    compileInst env index i j = .ok ⟨⟩ k := by
  obtain ⟨_, d₁, hinst, hrest⟩ := bind_eq_ok.mp hpiece
  rw [compileInst, bind_of_ok (modify_apply _ _), bind_of_ok (get_apply _),
    bind_of_ok (onDraft_eq_ok.mpr ⟨d₁, hinst, rfl⟩)]
  split at hrest
  · rename_i hcache
    rw [if_pos hcache, bind_of_ok (onDraft_eq_ok.mpr ⟨d, hrest, rfl⟩)]
    exact hflush
  · rename_i hcache
    cases hrest
    rw [if_neg hcache]
    exact hflush

/-- A finished piece moves into the cache where there is space for it. -/
theorem exists_flushPiece_finish (hland : Lands env) (hsize : j.code.size ≤ 2 ^ 31)
    (hroom : j.code.cursor + maxPiece ≤ j.code.size) {i : Inst} {m n : RegMap} {lead : List Insn}
    (hmakes : Makes env i m lead n) (htame : Tame env skipLabel.symbol lead)
    (hlen : lead.length ≤ maxLead) {d : Draft} (hasm : d.asm = .empty)
    (hexits : d.pieceExits = []) :
    ∃ k, flushPiece { j with draft := d.finish env i lead n } = .ok ⟨⟩ k := by
  have hcode := draftCode_finish hland.reaches hmakes hasm j.code.cursor
  have hstop := stop_le_of_lead (p := { inst := i, start := j.code.cursor, lead }) hlen env.config
  have hwhole := Piece.start_add_codeSize_whole env { inst := i, start := j.code.cursor, lead }
  dsimp only at hstop hwhole
  refine exists_flushPiece hsize ?_ ?_ fun e he => ?_
  · rw [hcode]
    exact near_whole hland htame (by omega)
  · rw [hcode]
    show j.code.cursor + _ ≤ j.code.size
    omega
  · obtain ⟨hlink, hdest, after, hitems⟩ := exit_of_finish hexits he
    refine ⟨lead.map .insn, after, hitems, by simp, ?_⟩
    show j.code.cursor + _ < j.code.size
    obtain ⟨pc, hpc⟩ := Option.isSome_iff_exists.mp hdest
    have hsite := Piece.stop_of_exitDest (p := { inst := i, start := j.code.cursor, lead })
      hpc env.config
    rw [siteLen, if_pos hlink, Piece.site] at hsite
    dsimp only at hsite
    have hpos : 0 < exitSiteLen := by decide
    rw [size_insns]
    omega

/-- Compiling an instruction succeeds where there is space for its piece. -/
theorem exists_compileInst (hland : Lands env) (hsize : j.code.size ≤ 2 ^ 31)
    (hsettled : Settled j.draft) (hregs : j.draft.regs.Consistent env.config.staticAlloc)
    (hroom : j.code.cursor + maxPiece ≤ j.code.size) (index : Nat) (i : Inst) :
    ∃ lead k, lead? env (j.draft.regs.setIndex index) i = some (lead, k.draft.regs) ∧
      lead.length ≤ maxLead ∧ k.draft.regs.Consistent env.config.staticAlloc ∧
      compileInst env index i j = .ok ⟨⟩ k := by
  have hindex : (j.draft.regs.setIndex index).Consistent env.config.staticAlloc :=
    hregs.congr rfl rfl rfl
  obtain ⟨lead, n, hmakes, hn, hlen⟩ := exists_makes hland.reaches.stubs i hindex
    (RegMap.locksAtMost_setIndex _ index)
  have hsite : exitSiteLen ≤ maxPiece := Nat.le_add_left _ _
  have hpiece := hmakes.lowers env.linked (Assembler.measureAt j.code.cursorAddress)
    { j.draft with regs := j.draft.regs.setIndex index } (measured_of_room hland i (by omega)) rfl
    hsettled.asm hsettled.pieceExits
  obtain ⟨k, hflush⟩ := exists_flushPiece_finish hland hsize hroom hmakes (hmakes.tame hindex).2 hlen
    hsettled.asm hsettled.pieceExits
  have hcompile := compileInst_of_piece hpiece hflush
  obtain ⟨lead', n', hlead', -, rfl⟩ :=
    compileInst_spec hland.reaches (by omega) hsize hsettled hcompile
  have hsame := (lead?_of_makes hmakes).symm.trans hlead'
  cases hsame
  exact ⟨lead, k, hlead', hlen, hn, hcompile⟩

/-- Behind each of these pieces there is enough space to go on. -/
def Roomy (config : Config) (size : Nat) (ps : List Piece) : Prop :=
  ∀ p ∈ ps, safetyMargin ≤ size - p.stop config

/-- The first piece behind which there is too little space to go on. -/
structure FirstShort (config : Config) (size : Nat) (ps : List Piece) (p : Piece) : Prop where
  first : ∃ done rest, ps = done ++ p :: rest ∧ Roomy config size done
  inside : p.stop config ≤ size
  short : size - p.stop config < safetyMargin

/-- The first piece behind which too little space is left stays the first, behind one with enough.
-/
theorem FirstShort.cons {config : Config} {size : Nat} {ps : List Piece} {p q : Piece}
    (h : FirstShort config size ps p) (hq : safetyMargin ≤ size - q.stop config) :
    FirstShort config size (q :: ps) p := by
  obtain ⟨done, rest, rfl, hdone⟩ := h.first
  refine ⟨⟨q :: done, rest, rfl, fun p' hp' => ?_⟩, h.inside, h.short⟩
  rcases List.mem_cons.mp hp' with rfl | hp'
  · exact hq
  · exact hdone p' hp'

/-- Compiling instructions goes on to the end, or to the first piece behind which there is too
little space. -/
theorem compileInsts_cases (hland : Lands env) (hsize : j.code.size ≤ 2 ^ 31)
    (hsettled : Settled j.draft) (hregs : j.draft.regs.Consistent env.config.staticAlloc)
    (hroom : j.code.cursor + maxPiece ≤ j.code.size) (index : Nat) (is : List Inst) :
    ∃ ps, pieces env index j.draft.regs j.code.cursor is = some ps ∧
      ((Roomy env.config j.code.size ps ∧ ∃ codes k, compileInsts env index is j = .ok codes k) ∨
        ∃ p k, FirstShort env.config j.code.size ps p ∧ k.code.cursor = p.stop env.config ∧
          compileInsts env index is j =
            .error (.codeSpaceExhausted (j.code.size - p.stop env.config) safetyMargin) k) := by
  induction is generalizing j index with
  | nil => exact ⟨[], rfl, .inl ⟨by simp [Roomy], [], j, rfl⟩⟩
  | cons i is ih =>
    obtain ⟨lead, k, hlead, -, hk, hcompile⟩ :=
      exists_compileInst hland hsize hsettled hregs hroom index i
    obtain ⟨lead', n, hlead', hplaced, rfl⟩ :=
      compileInst_spec hland.reaches (by omega) hsize hsettled hcompile
    cases hlead.symm.trans hlead'
    have hgrows := (Keeps.of_ok (keeps_compileInst env index i) hcompile).code
    have hinside := hgrows.inside (by omega)
    rw [hgrows.size, hplaced.cursor] at hinside
    rw [compileInsts, bind_of_ok (get_apply j), bind_of_ok hcompile, bind_of_ok (get_apply k)]
    by_cases hmargin : k.code.remaining < safetyMargin
    · -- the check behind the first instruction fails
      obtain ⟨rest, hrest, -⟩ := exists_pieces hland.reaches.stubs is (index + 1)
        (({ inst := i, start := j.code.cursor, lead } : Piece).stop env.config) hk
      have hcheck : checkMargin k =
          .error (.codeSpaceExhausted k.code.remaining safetyMargin) k := by
        rw [checkMargin, bind_of_ok (get_apply k)]
        exact if_pos hmargin ▸ rfl
      rw [bind_of_error hcheck]
      rw [remaining, hgrows.size, hplaced.cursor] at hmargin ⊢
      refine ⟨_, pieces_cons_eq_some.mpr ⟨lead, _, rest, hlead, hrest, rfl⟩, .inr ⟨_, k,
        ⟨⟨[], rest, rfl, by simp [Roomy]⟩, hinside, hmargin⟩, hplaced.cursor, rfl⟩⟩
    · have hcheck : checkMargin k = .ok ⟨⟩ k := by
        rw [checkMargin, bind_of_ok (get_apply k)]
        exact if_neg hmargin ▸ rfl
      rw [bind_of_ok hcheck]
      -- what the check has left is enough for the next piece, which is what the induction needs
      have hnext : k.code.cursor + maxPiece ≤ k.code.size := by
        have hlt := maxPiece_lt
        rw [remaining] at hmargin
        omega
      obtain ⟨rest, hrest, hcases⟩ := ih (j := k) (by rw [hgrows.size]; exact hsize)
        hplaced.settled hk hnext (index + 1)
      rw [hplaced.cursor] at hrest
      rw [remaining, hgrows.size, hplaced.cursor, Nat.not_lt] at hmargin
      refine ⟨_, pieces_cons_eq_some.mpr ⟨lead, _, rest, hlead, hrest, rfl⟩, ?_⟩
      rw [hgrows.size] at hcases
      rcases hcases with ⟨hroomy, codes, l, hl⟩ | ⟨p, l, hshort, hcursor, hl⟩
      · refine .inl ⟨fun p hp => ?_, _, l, by rw [bind_of_ok hl]; rfl⟩
        rcases List.mem_cons.mp hp with rfl | hp
        · exact hmargin
        · exact hroomy p hp
      · exact .inr ⟨p, l, hshort.cons hmargin, hcursor, bind_of_error hl⟩

/-! ## Blocks -/

/-- What stands in front of a body can be written if it fits. -/
theorem exists_front (hland : Lands env) (hsize : j.code.size ≤ 2 ^ 31) (hsettled : Settled j.draft)
    (start : UInt32) (hroom : j.code.cursor + frontLen env ≤ j.code.size) :
    ∃ k, emitWhen env.config.usesForwardCheck (frontGuard env start) j = .ok ⟨⟩ k ∧
      k.code.cursor = j.code.cursor + frontLen env := by
  rw [frontLen] at hroom ⊢
  cases hforward : env.config.usesForwardCheck with
  | false => exact ⟨j, rfl, rfl⟩
  | true =>
    rw [if_pos hforward] at hroom
    obtain ⟨k, hk⟩ := exists_frontGuard hland hsize hsettled start hroom
    have hcursor := (frontGuard_spec hland.reaches (by omega) hsize hsettled hk).2.1
    exact ⟨k, hk, by rw [if_pos rfl, hcursor]⟩

/-- A body can be padded if the padding fits. -/
theorem exists_padBody (target : Nat) (hroom : j.code.cursor + minBodyLen ≤ j.code.size) :
    ∃ k, padBody target j = .ok ⟨⟩ k := by
  rw [padBody, bind_of_ok (get_apply j)]
  split
  · have hfits : (List.replicate (minBodyLen - (j.code.cursor - target)) (0xcc : UInt8)).length ≤
        j.code.size - j.code.cursor := by
      rw [List.length_replicate]
      omega
    have hcache : onCode (CodeCache.append
        (List.replicate (minBodyLen - (j.code.cursor - target)) 0xcc)) j = .ok j.code.position _ :=
      onPart_eq_ok.mpr ⟨_, append_eq_ok.mpr ⟨rfl, hfits, rfl⟩, rfl⟩
    rw [bind_of_ok hcache]
    exact ⟨_, rfl⟩
  · exact ⟨j, rfl⟩

/-- What stands behind the pieces of a block is written, where there is as much space as is asked
for. -/
theorem exists_behind (hland : Lands env) (hsize : j.code.size ≤ 2 ^ 31)
    (hsettled : Settled j.draft) {target : Nat} (htarget : target ≤ j.code.cursor) (start : UInt32)
    (hroom : j.code.cursor + (45 + minBodyLen + 60) ≤ j.code.size) :
    ∃ k₁ k₂ k₃, emitWhen env.config.diagnostics (missingExitGuard env) j = .ok ⟨⟩ k₁ ∧
      padBody target k₁ = .ok ⟨⟩ k₂ ∧
      emitWhen env.config.usesBackJump (backGuard env start (addressOf target)) k₂ = .ok ⟨⟩ k₃ := by
  have hreport := codeSize_missingExitCode_le env
  have hguard := guardLen_le env
  obtain ⟨k₁, hk₁⟩ : ∃ k, emitWhen env.config.diagnostics (missingExitGuard env) j = .ok ⟨⟩ k := by
    cases env.config.diagnostics with
    | false => exact ⟨j, rfl⟩
    | true =>
      exact exists_emitWhen hsize hsettled (near_missingExitCode hland)
        (fun d => Emit.insns_apply _ d) (by omega)
  obtain ⟨hcursor₁, hdraft₁, -⟩ := diagnostics_spec hland.reaches (by omega) hsize hsettled hk₁
  have hsize₁ := (Keeps.of_ok (keeps_emitWhen _ _) hk₁).code.size
  -- the space for all three is there from the start, so only the cursor is followed
  have hmoved₁ : k₁.code.cursor ≤ j.code.cursor + 45 := by
    rw [hcursor₁]
    split <;> omega
  have hle₁ := (Keeps.of_ok (keeps_emitWhen _ _) hk₁).code.cursor
  obtain ⟨k₂, hk₂⟩ := exists_padBody (j := k₁) target (by omega)
  obtain ⟨hcursor₂, hdraft₂, -⟩ := padBody_spec (by omega) (by omega) hk₂
  have hsize₂ := (Keeps.of_ok (keeps_padBody _) hk₂).code.size
  have hbody : target ≤ 2 ^ 31 := by omega
  refine ⟨k₁, k₂, ?_⟩
  cases env.config.usesBackJump with
  | false => exact ⟨k₂, hk₁, hk₂, rfl⟩
  | true =>
    obtain ⟨k₃, hk₃⟩ := exists_emitWhen (j := k₂) (by omega)
      (by rw [hdraft₂, hdraft₁]; exact hsettled) (near_guardCode hland start hbody)
      (x := backGuard env start (addressOf target)) (fun d => Emit.insns_apply _ d)
      (by rw [codeSize_guardCode]; omega)
    exact ⟨k₃, hk₁, hk₂, hk₃⟩

/-- Pieces end where they start, or where one of them ends. -/
theorem endOf_cases (config : Config) (start : Nat) (ps : List Piece) :
    (ps = [] ∧ endOf config start ps = start) ∨
      ∃ p ∈ ps, endOf config start ps = p.stop config := by
  induction ps generalizing start with
  | nil => exact .inl ⟨rfl, rfl⟩
  | cons p ps ih =>
    rcases ih (p.stop config) with ⟨rfl, hend⟩ | ⟨q, hq, hend⟩
    · exact .inr ⟨p, List.mem_cons_self, rfl⟩
    · exact .inr ⟨q, List.mem_cons_of_mem p hq, hend⟩

/-- With enough space to start in, a block is written, unless there is too little space behind one
of its pieces. -/
theorem writeBlock_cases (hland : Lands j.lowerEnv) (hsize : j.code.size ≤ 2 ^ 31)
    (hsettled : Settled j.draft) {b : Block} (preload : Bool)
    (hregs : j.draft.regs.start b.insts = (RegMap.create j.config.staticAlloc).start b.insts)
    (hroom : safetyMargin ≤ j.code.remaining) :
    ∃ ps, blockPieces j.lowerEnv b (j.code.cursor + frontLen j.lowerEnv) = some ps ∧
      ((Roomy j.config j.code.size ps ∧ ∃ n k, writeBlock b preload j = .ok n k) ∨
        ∃ p k, FirstShort j.config j.code.size ps p ∧ k.code.cursor = p.stop j.config ∧
          writeBlock b preload j =
            .error (.codeSpaceExhausted (j.code.size - p.stop j.config) safetyMargin) k) := by
  have hlens := maxPiece_lt
  have hfrontLen := frontLen_le j.lowerEnv
  rw [remaining] at hroom
  obtain ⟨j₁, hfront, hcursor₁⟩ := exists_front hland hsize hsettled b.start (by omega)
  have hdraft₁ := (front_spec hland.reaches (by omega) hsize hsettled hfront).2.1
  have hsize₁ := (Keeps.of_ok (keeps_emitWhen _ _) hfront).code.size
  obtain ⟨ps, hps, hcases⟩ := compileInsts_cases
    (j := { j₁ with draft := { j₁.draft with regs := j₁.draft.regs.start b.insts } }) hland
    (by rw [hsize₁]; exact hsize) (by rw [hdraft₁]; exact ⟨hsettled.asm, hsettled.pieceExits⟩)
    (by rw [hdraft₁, hregs]; exact RegMap.consistent_start _ _ rfl)
    (by dsimp only; omega) 0 b.insts
  dsimp only at hps hcases
  rw [hsize₁] at hcases
  have hpieces : blockPieces j.lowerEnv b (j.code.cursor + frontLen j.lowerEnv) = some ps := by
    rw [hdraft₁, hregs, hcursor₁] at hps
    exact hps
  refine ⟨ps, hpieces, ?_⟩
  rw [writeBlock, bind_of_ok (get_apply j), bind_of_ok (get_apply j), bind_of_ok hfront,
    bind_of_ok (get_apply j₁), bind_of_ok (modify_apply _ _)]
  rcases hcases with ⟨hroomy, codes, j₂, hinsts⟩ | ⟨p, k, hshort, hcursor, hinsts⟩
  · left
    have hgrows := (Keeps.of_ok (keeps_compileInsts _ _ _) hinsts).code
    obtain ⟨ps', hps', -, hend, hsettled₂, -⟩ := compileInsts_spec
      (j := { j₁ with draft := { j₁.draft with regs := j₁.draft.regs.start b.insts } })
      hland.reaches (by dsimp only; omega) (by rw [hsize₁]; exact hsize)
      (by rw [hdraft₁]; exact ⟨hsettled.asm, hsettled.pieceExits⟩) hinsts
    cases hps.symm.trans hps'
    -- the last check, or the one before the block, was for what comes now
    have hleft : j₂.code.cursor + (45 + minBodyLen + 60) ≤ j₂.code.size := by
      rw [hgrows.size, hend]
      show endOf j.config j₁.code.cursor ps + (45 + minBodyLen + 60) ≤ j₁.code.size
      rcases endOf_cases j.config j₁.code.cursor ps with ⟨-, heq⟩ | ⟨p, hp, heq⟩
      · omega
      · have hp : safetyMargin ≤ j.code.size - p.stop j.config := hroomy p hp
        omega
    obtain ⟨j₃, j₄, j₅, hdiag, hpad, hback⟩ := exists_behind hland
      (by rw [hgrows.size, hsize₁]; exact hsize) hsettled₂ hgrows.cursor b.start hleft
    obtain ⟨_, j₆, hlist⟩ := total_listWhen (!preload) b.start j₁.code.cursor codes j₅
    rw [bind_of_ok hinsts, bind_of_ok hdiag, bind_of_ok hpad, bind_of_ok (get_apply j₄),
      bind_of_ok hback, bind_of_ok hlist]
    exact ⟨hroomy, _, j₆, rfl⟩
  · right
    rw [bind_of_error hinsts]
    exact ⟨p, k, hshort, hcursor, rfl⟩

/-- The ways in which compiling a registered block ends, if its pieces are `ps`. -/
inductive BlockEnds (j : Jit) (ps : List Piece) : EStateM.Result JitError Jit Unit → Prop
  | full {k : Jit} (hfull : j.code.remaining < safetyMargin)
    (hcursor : k.code.cursor = j.code.cursor) :
    BlockEnds j ps (.error (.codeSpaceExhausted j.code.remaining safetyMargin) k)
  | refused {k : Jit} {offset len : Nat} (hroom : safetyMargin ≤ j.code.remaining)
    (hrefused : ¬ k.Unrefused) : BlockEnds j ps (.error (.protection offset len .accessDenied) k)
  | short {p : Piece} {k : Jit} (hroom : safetyMargin ≤ j.code.remaining)
    (hshort : FirstShort j.config j.code.size ps p) (hcursor : k.code.cursor = p.stop j.config) :
    BlockEnds j ps (.error (.codeSpaceExhausted (j.code.size - p.stop j.config) safetyMargin) k)
  | written {k : Jit} (hroom : safetyMargin ≤ j.code.remaining)
    (hroomy : Roomy j.config j.code.size ps) : BlockEnds j ps (.ok ⟨⟩ k)

/-- Everything that the code of a ready engine branches to lies in the region. -/
theorem Ready.lands (hj : j.Ready) : Lands j.lowerEnv where
  stubs a ha := by
    obtain ⟨o, ho, rfl⟩ := hj.installed.exists_target a ha
    exact ⟨o, Nat.le_trans ho hj.size_le, rfl⟩
  linked pc a ha := by
    obtain ⟨num, -, hentry⟩ := Option.bind_eq_some_iff.mp ha
    obtain ⟨checked, hchecked, rfl⟩ := Option.map_eq_some_iff.mp hentry
    obtain ⟨n, hnative, rfl⟩ := Option.map_eq_some_iff.mp hchecked
    exact ⟨_, Nat.le_trans (hj.entries num n hnative) hj.size_le, rfl⟩

/-- Compiling a registered block ends in one of the ways that there are. -/
theorem compileBlock_ends (hj : j.Ready) {num : Nat} {entry : BlockEntry}
    (hentry : j.blocks.get? num = some entry) (preload : Bool) :
    ∃ ps, blockPieces j.lowerEnv entry.block (j.code.cursor + frontLen j.lowerEnv) = some ps ∧
      BlockEnds j ps (compileBlock num preload j) := by
  obtain ⟨ps, hps, -⟩ := exists_pieces hj.lands.reaches.stubs entry.block.insts 0
    (j.code.cursor + frontLen j.lowerEnv)
    (RegMap.consistent_start (RegMap.create j.config.staticAlloc) entry.block.insts rfl)
  refine ⟨ps, hps, ?_⟩
  rw [compileBlock, bind_of_ok (get_apply j), hentry]
  dsimp only
  by_cases hfull : j.code.remaining < safetyMargin
  · rw [if_pos hfull]
    exact .full hfull rfl
  rw [if_neg hfull, bind_of_ok (modify_apply _ _)]
  have hroom := Nat.not_lt.mp hfull
  -- the window is opened for the rest of the region
  have hopened : openAppend j.code = openWindow j.code.cursor j.code.remaining j.code := rfl
  rcases openWindow_cases j.code.cursor j.code.remaining j.code with
    ⟨w, host, hopen⟩ | ⟨o, n, host, hopen, x, hx, hrefused⟩
  · have hwindow : onCode openAppend { j with draft := { j.draft with block := some num } } =
        .ok w { j with
          code := { j.code with host }
          draft := { j.draft with block := some num } } :=
      onPart_eq_ok.mpr ⟨_, hopened.trans hopen, rfl⟩
    obtain ⟨ps', hps', hcases⟩ := writeBlock_cases
      (j := { j with code := { j.code with host }, draft := { j.draft with block := some num } })
      (b := entry.block) hj.lands hj.size_le (by rw [hj.draft]; exact ⟨rfl, rfl⟩) preload
      (by rw [hj.draft]; rfl) hroom
    cases hps.symm.trans hps'
    rcases hcases with ⟨hroomy, n, k, hk⟩ | ⟨p, k, hshort, hcursor, hk⟩
    · rw [andFinally, inWindow, bind_apply, bind_of_ok hwindow, andFinally, hk]
      exact .written hroom hroomy
    · rw [andFinally, inWindow, bind_apply, bind_of_ok hwindow, andFinally, hk]
      refine .short hroom hshort ?_
      obtain ⟨host', hclosed⟩ := same_closeWindow w k.code
      exact (congrArg CodeCache.cursor hclosed).trans hcursor
  · have hwindow : onCode openAppend { j with draft := { j.draft with block := some num } } =
        .error (.protection o n .accessDenied) { j with
          code := { j.code with host }
          draft := { j.draft with block := some num } } := by
      rw [onCode, onPart, hopened, hopen]
    rw [andFinally, inWindow, bind_apply, bind_of_error hwindow]
    exact .refused hroom fun hunrefused => absurd (hunrefused x hx) (by rw [hrefused]; decide)

end Jit

end Dynarec
