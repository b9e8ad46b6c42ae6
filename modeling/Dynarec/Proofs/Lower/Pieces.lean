import Dynarec.Proofs.Lower.Emit
import Dynarec.Proofs.Lower.Sim

/-!
# The piece of code of an instruction

What an instruction emits is a *lead*, instructions that depend on the register map and on nothing
that changes from one compilation to the next, and behind it, for exits to a known address, an exit
site (`Draft.finish`).  A conditional exit skips its site by a branch to the end of the piece; in
the lead, that branch names the first label of the piece.

* `Emit.Appends`: an action that only appends instructions, the same after whatever was emitted
  before.
* `Lower.Makes`: lead and register map after an instruction, for every draft and every link state.
* `Lower.makes_of_ok`: whatever has been lowered once has a lead.
-/

namespace Dynarec

open Lower Dynarec.Action

/-- The address to which an instruction leaves through an exit site. -/
def Inst.exitDest? (i : Inst) : Option UInt32 :=
  match i.op with
  | .exitToConst | .exitIfEq | .exitIfNeq | .exitIfGtZ | .exitIfGeZ | .exitIfLtZ | .exitIfLeZ =>
    some i.constant
  | _ => none

/-- The addresses that the code of blocks branches to. -/
def Stubs.targets (s : Stubs) : List UInt64 :=
  [s.restoreRounding, s.applyRounding, s.outerLoopPc, s.checkCoreState, s.dispatcherPc, s.crash] ++
    s.saveStatic.toList ++ s.loadStatic.toList

/-- The label at the end of a piece, which a conditional exit branches to. -/
def skipLabel : Label := ⟨1⟩

/-- The target of a branch in a piece that ends at an offset. -/
def skipTo (stop : Nat) (target : UInt64) : UInt64 :=
  if target = skipLabel.symbol then CodeCache.addressOf stop else target

/-- A branch into the code region does not go to the end of the piece. -/
theorem skipTo_of_le {t : UInt64} (h : codeBase ≤ t) (stop : Nat) : skipTo stop t = t := by
  rw [skipTo, if_neg]
  rintro rfl
  exact absurd h (by decide)

/-! ## Actions that append instructions -/

/-- Every branch in the code goes into the code region. -/
def BranchesFar (code : List Insn) : Prop :=
  ∀ i ∈ code, ∀ t, i.target? = some t → codeBase ≤ t

/-- Plain instructions do not branch at all. -/
theorem branchesFar_of_plain {code : List Insn} (h : ∀ i ∈ code, i.isPlain) : BranchesFar code := by
  intro i hi t ht
  rw [Insn.target?_of_isPlain (h i hi)] at ht
  cases ht

/-- Code whose parts branch far branches far. -/
theorem BranchesFar.append {is js : List Insn} (his : BranchesFar is) (hjs : BranchesFar js) :
    BranchesFar (is ++ js) := by
  intro i hi
  rcases List.mem_append.mp hi with hi | hi
  · exact his i hi
  · exact hjs i hi

/-- Code that does not skip anything is the same wherever it ends. -/
theorem map_skipTo_of_branchesFar {code : List Insn} (hcode : BranchesFar code) (stop : Nat) :
    code.map (Insn.mapTarget (skipTo stop)) = code := by
  calc code.map (Insn.mapTarget (skipTo stop)) = code.map fun k => k :=
      List.map_congr_left fun k hk => (Insn.mapTarget_congr fun t ht =>
        skipTo_of_le (hcode k hk t ht) stop).trans k.mapTarget_id
    _ = code := List.map_id' code

/-- Branches have one length, wherever they go. -/
@[simp] theorem codeSize_map_mapTarget (f : UInt64 → UInt64) (code : List Insn) :
    codeSize (code.map (Insn.mapTarget f)) = codeSize code := by
  induction code with
  | nil => rfl
  | cons k code ih => simp [ih]

/-- What has been put into a draft can be told from the draft. -/
theorem Draft.put_inj {d : Draft} {is js : List Insn} {m n : RegMap} (h : d.put is m = d.put js n) :
    is = js ∧ m = n := by
  have hitems := congrArg (fun e => e.asm.items) h
  have hmap : is.map Item.insn = js.map Item.insn := List.append_cancel_left hitems
  exact ⟨(List.map_inj_right fun a b hab => by injection hab).mp hmap, congrArg Draft.regs h⟩

namespace Emit

variable {α β : Type}

/-- An action that only appends instructions, the same after whatever was emitted before. -/
def Appends (x : Emit α) : Prop :=
  ∀ ⦃d a d'⦄, x d = .ok a d' → ∃ code m, d' = d.put code m ∧ BranchesFar code ∧
    ∀ e : Draft, e.regs = d.regs → x e = .ok a (e.put code m)

theorem appends_pure (a : α) : Appends (pure a) := by
  intro d b d' h
  cases h
  refine ⟨[], d.regs, d.put_nil.symm, by simp [BranchesFar], fun e he => ?_⟩
  rw [← he, e.put_nil]
  rfl

/-- Actions that append, one after the other, append. -/
theorem Appends.bind {x : Emit α} {f : α → Emit β} (hx : Appends x) (hf : ∀ a, Appends (f a)) :
    Appends (x >>= f) := by
  intro d b d' h
  obtain ⟨a, d₁, hxd, hfd⟩ := bind_eq_ok.mp h
  obtain ⟨is, m, rfl, his, hxe⟩ := hx hxd
  obtain ⟨js, n, rfl, hjs, hfe⟩ := hf a hfd
  refine ⟨is ++ js, n, d.put_put .., his.append hjs, fun e he => ?_⟩
  calc (x >>= f) e = f a (e.put is m) := bind_of_ok (hxe e he)
    _ = .ok b ((e.put is m).put js n) := hfe _ rfl
    _ = .ok b (e.put (is ++ js) n) := by rw [e.put_put]

/-- Appending instructions that branch far appends. -/
theorem appends_insns {is : List Insn} (his : BranchesFar is) : Appends (insns is) := by
  intro d a d' h
  rw [insns_apply] at h
  cases h
  refine ⟨is, d.regs, rfl, his, fun e he => ?_⟩
  rw [insns_apply, he]

theorem appends_insn {i : Insn} (hi : ∀ t, i.target? = some t → codeBase ≤ t) :
    Appends (insn i) := by
  have happends : Appends (insns [i]) := appends_insns fun k hk => by
    rw [List.mem_singleton.mp hk]
    exact hi
  exact happends

theorem appends_plain {i : Insn} (hi : i.isPlain) : Appends (insn i) :=
  appends_insn fun t ht => by
    rw [Insn.target?_of_isPlain hi] at ht
    cases ht

/-- Sending all registers back appends the stores of the map. -/
theorem appends_flushAll : Appends flushAll := by
  intro d a d' h
  rw [flushAll_apply] at h
  cases h
  refine ⟨_, _, rfl, branchesFar_of_plain (RegMap.plain_flushAll _), fun e he => ?_⟩
  rw [flushAll_apply, he]

/-- Mapping a register appends what makes room for it and what loads it. -/
theorem appends_mapReg (slot : UInt8) (mode : MapMode) : Appends (mapReg slot mode) := by
  intro d r d' h
  obtain ⟨m, code, hmap, rfl⟩ := mapReg_eq_ok.mp h
  refine ⟨code, m, rfl, branchesFar_of_plain (RegMap.plain_map hmap), fun e he => ?_⟩
  exact mapReg_eq_ok.mpr ⟨m, code, by rw [he, hmap], rfl⟩

/-- A routine is called if there is one. -/
theorem appends_callIf {stub : Option UInt64} (h : ∀ a ∈ stub.toList, codeBase ≤ a) :
    Appends (callIf stub) := by
  cases stub with
  | none => exact appends_pure _
  | some a =>
    refine appends_insn fun t ht => ?_
    cases ht
    exact h a (by simp)

end Emit

namespace Lower

open Emit

variable {env : LowerEnv} {i : Inst}

/-- Instructions with two sources append what their operands make them. -/
theorem appends_binary (op : Alu) : Appends (binary op i) := by
  refine (appends_mapReg _ _).bind fun left => (appends_mapReg _ _).bind fun right => ?_
  split
  · exact (appends_mapReg _ _).bind fun dest => appends_plain rfl
  split
  · refine (appends_mapReg _ _).bind fun dest => appends_insns (branchesFar_of_plain ?_)
    exact List.all_eq_true.mp rfl
  · refine (appends_insns (branchesFar_of_plain ?_)).bind fun _ =>
      (appends_mapReg _ _).bind fun dest => appends_plain rfl
    exact List.all_eq_true.mp rfl

/-- The destination gets the first source. -/
theorem appends_destFromSrc1 : Appends (destFromSrc1 i) := by
  rw [destFromSrc1]
  split
  · exact appends_mapReg _ _
  · exact (appends_mapReg _ _).bind fun src => (appends_mapReg _ _).bind fun dest =>
      (appends_plain rfl).bind fun _ => appends_pure dest

/-- The call of a handler goes through a register and does not branch. -/
theorem branchesFar_handlerCall {second : Insn} (hsecond : second.isPlain) (a : UInt64) :
    BranchesFar (handlerCall second a) := by
  intro k hk t ht
  simp only [handlerCall, List.mem_cons, List.not_mem_nil, or_false] at hk
  rcases hk with rfl | rfl | rfl | rfl
  · cases ht
  · rw [Insn.target?_of_isPlain hsecond] at ht
    cases ht
  · cases ht
  · cases ht

variable (hfar : ∀ a ∈ env.stubs.targets, codeBase ≤ a)

include hfar

theorem appends_save : Appends (callIf env.stubs.saveStatic) :=
  appends_callIf fun a ha => hfar a (List.mem_append_left _ (List.mem_append_right _ ha))

theorem appends_load : Appends (callIf env.stubs.loadStatic) :=
  appends_callIf fun a ha => hfar a (List.mem_append_right _ ha)

/-- The call of the generic handler is appended. -/
theorem appends_generic : Appends (generic env i) := by
  refine appends_flushAll.bind fun _ => (appends_save hfar).bind fun _ =>
    (appends_insns (branchesFar_handlerCall rfl _)).bind fun _ => (appends_load hfar).bind fun _ => ?_
  split
  · refine appends_insns fun k hk t ht => ?_
    simp only [List.mem_cons, List.not_mem_nil, or_false] at hk
    rcases hk with rfl | rfl
    · cases ht
    · cases ht
      exact hfar _ (by simp [Stubs.targets])
  · exact appends_pure _

/-- The calls of the notify handler and of the interpreter are appended. -/
theorem appends_interpret : Appends (interpret env i) := by
  have hcall : Appends (insns (handlerCall (.mov32i Gpr.arg2 i.constant)
      (env.table.interpret i.constant)) >>= fun _ => callIf env.stubs.loadStatic) :=
    (appends_insns (branchesFar_handlerCall rfl _)).bind fun _ => appends_load hfar
  refine appends_flushAll.bind fun _ => (appends_save hfar).bind fun _ => ?_
  split
  · exact (appends_insns (branchesFar_handlerCall rfl _)).bind fun _ => hcall
  · exact hcall

/-- Instructions without an exit site only append instructions. -/
theorem appends_inst (hdest : i.exitDest? = none) : Appends (inst env i) := by
  have hstub : ∀ a ∈ env.stubs.targets, ∀ t, some a = some t → codeBase ≤ t := by
    rintro a ha t ht
    cases ht
    exact hfar a ha
  rw [Inst.exitDest?] at hdest
  rw [inst]
  split <;> rename_i hop <;> rw [hop] at hdest <;> try cases hdest
  case h_1 => exact appends_pure _
  case h_2 => exact (appends_mapReg _ _).bind fun dest => appends_plain rfl
  case h_3 =>
    split
    · exact appends_pure _
    · exact (appends_mapReg _ _).bind fun src => (appends_mapReg _ _).bind fun dest =>
        appends_plain rfl
  -- arithmetic on two registers, then with a constant, then shifts
  case h_4 | h_5 | h_6 | h_7 | h_8 => exact appends_binary _
  case h_9 | h_10 | h_11 | h_12 | h_13 => exact appends_destFromSrc1.bind fun _ => appends_plain rfl
  case h_14 | h_15 | h_16 => exact appends_destFromSrc1.bind fun _ => appends_plain rfl
  -- the program counter and the downcount
  case h_17 => exact (appends_mapReg _ _).bind fun src => appends_plain rfl
  case h_18 => exact appends_plain rfl
  case h_19 => exact appends_plain (by split <;> rfl)
  case h_20 => exact appends_insn (hstub _ (by simp [Stubs.targets]))
  case h_21 => exact appends_insn (hstub _ (by simp [Stubs.targets]))
  case h_22 => exact appends_interpret hfar
  -- exits to a register and to the program counter
  case h_24 =>
    exact (appends_mapReg _ _).bind fun src => (appends_plain rfl).bind fun _ =>
      appends_flushAll.bind fun _ => appends_insn (hstub _ (by simp [Stubs.targets]))
  case h_25 =>
    exact appends_flushAll.bind fun _ => appends_insn (hstub _ (by simp [Stubs.targets]))
  all_goals exact appends_generic hfar

omit hfar

/-! ## Exit sites -/

/-- The jump of an exit site. -/
def siteJump (env : LowerEnv) (pc : UInt32) : List Insn :=
  exitJump env.stubs pc (if env.config.blockLink then env.linked pc else none)

/-- The number of bytes of an exit site. -/
def siteLen (config : Config) : Nat :=
  if config.blockLink then exitSiteLen else 10

/-- The items of an exit site. -/
def siteItems (env : LowerEnv) (pc : UInt32) (site : Label) : List Item :=
  .mark site :: ((siteJump env pc).map .insn ++
    if env.config.blockLink then [.padding (exitSiteLen - codeSize (siteJump env pc))] else [])

/-- A linked exit is one jump; one that is not takes a load too. -/
theorem codeSize_exitJump (stubs : Stubs) (pc : UInt32) (target : Option UInt64) :
    codeSize (exitJump stubs pc target) = if target.isSome then 5 else 10 := by
  cases target <;> rfl

/-- There is padding in every exit site. -/
theorem codeSize_siteJump_lt (env : LowerEnv) (pc : UInt32) :
    codeSize (siteJump env pc) < exitSiteLen := by
  rw [siteJump]
  generalize (if env.config.blockLink then env.linked pc else none) = target
  rw [codeSize_exitJump]
  cases target <;> simp [exitSiteLen]

/-- Labels are numbered one after the other. -/
theorem newLabel_apply (d : Draft) : newLabel d = .ok ⟨d.asm.labels + 1⟩
    { d with asm := { d.asm with labels := d.asm.labels + 1 } } := rfl

/-- A label that has not been placed is placed. -/
theorem place_apply {l : Label} {d : Draft} (hplaced : .mark l ∉ d.asm.items) :
    place l d = .ok ⟨⟩ { d with asm := d.asm.push (.mark l) } := by
  have hfree : d.asm.isPlaced l = false := by
    rw [Assembler.isPlaced, List.any_eq_false]
    intro k hk
    simpa using fun heq : k = .mark l => hplaced (heq ▸ hk)
  rw [place, bind_of_ok (get_apply d), Assembler.place, hfree]
  rfl

/-- The exit site of an instruction is measured as long as its jump is. -/
def Measured (env : LowerEnv) (i : Inst) : Prop :=
  env.config.blockLink → ∀ pc, i.exitDest? = some pc →
    env.measure (siteJump env pc) = .ok (codeSize (siteJump env pc))

/-- What an exit to a known address emits. -/
theorem exitTo_apply {d : Draft} (hplaced : .mark ⟨d.asm.labels + 1⟩ ∉ d.asm.items)
    {env : LowerEnv} {pc : UInt32}
    (hmeasure : env.config.blockLink →
      env.measure (siteJump env pc) = .ok (codeSize (siteJump env pc))) :
    exitTo env pc d = .ok ⟨⟩
      { d with
        asm :=
          { items := d.asm.items ++ siteItems env pc ⟨d.asm.labels + 1⟩
            labels := d.asm.labels + 1 }
        pieceExits := d.pieceExits ++
          if env.config.blockLink then
            [{ label := ⟨d.asm.labels + 1⟩, dest := pc, len := exitSiteLen }] else [] } := by
  have hlt := codeSize_siteJump_lt env pc
  have hplace : place ⟨d.asm.labels + 1⟩ { d with asm := { d.asm with labels := d.asm.labels + 1 } } =
      .ok ⟨⟩ _ := place_apply hplaced
  rw [exitTo, bind_of_ok (newLabel_apply d), bind_of_ok hplace, bind_of_ok (insns_apply _ _)]
  rw [siteJump] at hlt hmeasure
  cases hlink : env.config.blockLink with
  | false =>
    rw [if_neg (by simp)]
    simp [siteItems, siteJump, hlink, Draft.put, Assembler.push, EStateM.pure, pure]
  | true =>
    rw [if_pos rfl]
    rw [hlink] at hlt hmeasure
    rw [bind_of_ok (ofExcept_eq_ok.mpr ⟨hmeasure rfl, rfl⟩)]
    -- every jump of an exit is shorter than its site
    have hpad : exitSiteLen - codeSize (exitJump env.stubs pc (env.linked pc)) ≠ 0 := by
      simp only [if_true] at hlt
      omega
    have hmax : max (codeSize (exitJump env.stubs pc (env.linked pc))) exitSiteLen =
        exitSiteLen := by
      simp only [if_true] at hlt
      omega
    simp [siteItems, siteJump, hlink, Draft.put, Assembler.push, padding, Assembler.pad, hpad, hmax,
      bind_of_ok (modify_apply _ _), modify_apply]

/-- An exit to a known address has been measured. -/
theorem exists_measure_of_exitTo {env : LowerEnv} {pc : UInt32} {d d' : Draft}
    (h : exitTo env pc d = .ok ⟨⟩ d') (hlink : env.config.blockLink) :
    ∃ len, env.measure (siteJump env pc) = .ok len := by
  rw [exitTo, bind_of_ok (newLabel_apply d)] at h
  obtain ⟨_, d₁, -, h₁⟩ := bind_eq_ok.mp h
  rw [bind_of_ok (insns_apply _ _), if_pos hlink] at h₁
  obtain ⟨len, _, hmeasure, -⟩ := bind_eq_ok.mp h₁
  exact ⟨len, (ofExcept_eq_ok.mp hmeasure).1⟩

/-! ## Whole pieces -/

/-- Emits the piece of code of an instruction; when no guest register may stay in a host register,
all of them are sent back behind it. -/
def piece (env : LowerEnv) (i : Inst) : Emit Unit := do
  inst env i
  if env.config.noGprCache then flushAll

/-- The label of the exit site in a piece. -/
def siteLabel (i : Inst) : Label :=
  if i.op = .exitToConst then ⟨1⟩ else ⟨2⟩

/-- The items behind the exit site in a piece. -/
def siteTail (i : Inst) : List Item :=
  if i.op = .exitToConst then [] else [.mark skipLabel]

end Lower

/-- The draft with the piece of an instruction in it, which consists of a lead and, for exits to a
known address, an exit site. -/
def Draft.finish (d : Draft) (env : LowerEnv) (i : Inst) (lead : List Insn) (regs : RegMap) :
    Draft :=
  match i.exitDest? with
  | none => d.put lead regs
  | some pc =>
    { d with
      asm :=
        { items := lead.map .insn ++ siteItems env pc (siteLabel i) ++ siteTail i
          labels := (siteLabel i).id }
      regs
      pieceExits :=
        if env.config.blockLink then
          [{ label := siteLabel i, dest := pc, len := exitSiteLen }] else [] }

namespace Lower

open Emit

/-- The lead of an instruction and the register map after it: what they are made of, and that they
are the same for every draft without a piece, for every link state and for every place at which an
exit site is measured. -/
structure Makes (env : LowerEnv) (i : Inst) (m : RegMap) (lead : List Insn) (n : RegMap) : Prop where
  branches : ∀ k ∈ lead, ∀ t, k.target? = some t →
    codeBase ≤ t ∨ (i.exitDest?.isSome ∧ i.op ≠ .exitToConst ∧ t = skipLabel.symbol)
  lowers : ∀ linked measure (d : Draft), Measured { env with linked, measure } i →
    d.regs = m → d.asm = .empty → d.pieceExits = [] →
    piece { env with linked, measure } i d = .ok ⟨⟩ (d.finish { env with linked } i lead n)

variable {env : LowerEnv} {i : Inst}

/-- An instruction without an exit site measures nothing. -/
theorem Measured.of_none (hdest : i.exitDest? = none) : Measured env i := by
  intro _ pc hpc
  rw [hdest] at hpc
  cases hpc

/-- The piece of an instruction where every length is what it is. -/
theorem Makes.lowers_sized {m n : RegMap} {lead : List Insn} (h : Makes env i m lead n)
    (linked : UInt32 → Option UInt64) :
    piece { env with linked, measure := fun is => .ok (codeSize is) } i { regs := m } =
      .ok ⟨⟩ (({ regs := m } : Draft).finish { env with linked } i lead n) :=
  h.lowers linked _ { regs := m } (fun _ _ _ => rfl) rfl rfl rfl

/-- The code of an instruction without an exit site does not depend on what is linked. -/
theorem inst_linked (hdest : i.exitDest? = none) (linked : UInt32 → Option UInt64)
    (measure : List Insn → Except EncodingError Nat) :
    inst { env with linked, measure } i = inst env i := by
  rw [Inst.exitDest?] at hdest
  rw [inst, inst]
  split <;> rename_i hop <;> rw [hop] at hdest <;> cases hdest <;> rfl

/-- The lead of an instruction without an exit site. -/
theorem makes_of_appends (hfar : ∀ a ∈ env.stubs.targets, codeBase ≤ a)
    (hdest : i.exitDest? = none) {d d' : Draft} (h : piece env i d = .ok ⟨⟩ d') :
    ∃ lead n, Makes env i d.regs lead n := by
  have hflush : Appends (if env.config.noGprCache then flushAll else pure ⟨⟩) := by
    split
    · exact appends_flushAll
    · exact appends_pure _
  have happends : Appends (piece env i) := (appends_inst hfar hdest).bind fun _ => hflush
  obtain ⟨lead, n, -, hbranches, heq⟩ := happends h
  refine ⟨lead, n, fun k hk t ht => .inl (hbranches k hk t ht), fun linked measure e _ he _ _ => ?_⟩
  rw [piece, inst_linked hdest, Draft.finish, hdest]
  exact heq e he

/-- Emits the comparison of a conditional exit, with all guest registers in memory. -/
def exitTest (against : Against) (i : Inst) : Emit Unit := do
  let left ← mapReg i.src1 .read
  let compare ←
    match against with
    | .src2 => do
      let right ← mapReg i.src2 .read
      pure (Insn.alu32 .cmp left right)
    | .zero => pure (Insn.alu32i .cmp left 0)
  flushAll
  insn compare

/-- The test in front of a conditional exit is appended. -/
theorem appends_exitTest (against : Against) (i : Inst) : Appends (exitTest against i) := by
  refine (appends_mapReg _ _).bind fun left => ?_
  cases against with
  | zero => exact appends_flushAll.bind fun _ => appends_plain rfl
  | src2 =>
    exact (appends_mapReg _ _).bind fun right => appends_flushAll.bind fun _ => appends_plain rfl

/-- A conditional exit is a test, a branch over the exit, and the exit. -/
theorem exitIf_eq (env : LowerEnv) (against : Against) (taken : Cond) (i : Inst) :
    exitIf env against taken i = (do
      exitTest against i
      let skip ← newLabel
      insn (.jcc taken.invert skip.symbol)
      exitTo env i.constant
      place skip) := by
  cases against <;> simp only [exitIf, exitTest, bind_assoc, pure_bind]

/-- An exit site has no label but its own. -/
theorem mark_notMem_siteItems {l site : Label} (hne : l ≠ site) (env : LowerEnv) (pc : UInt32) :
    .mark l ∉ siteItems env pc site := by
  rw [siteItems]
  split <;> simp [hne]

/-- The piece of a conditional exit. -/
theorem exitIf_apply {against : Against} {d : Draft} {code : List Insn} {m : RegMap}
    (htest : exitTest against i d = .ok ⟨⟩ (d.put code m)) (hasm : d.asm = .empty)
    (hexits : d.pieceExits = []) (hdest : i.exitDest? = some i.constant)
    (hop : i.op ≠ .exitToConst) (hmeasured : Measured env i) (taken : Cond) :
    exitIf env against taken i d = .ok ⟨⟩
      (d.finish env i (code ++ [.jcc taken.invert skipLabel.symbol]) m) := by
  rw [exitIf_eq, bind_of_ok htest, bind_of_ok (newLabel_apply _), bind_of_ok (insn_apply _ _),
    bind_of_ok (exitTo_apply (by simp [Draft.put, hasm, Assembler.empty])
      fun hlink => hmeasured hlink _ hdest), place_apply]
  · simp [Draft.finish, hdest, Draft.put, hasm, hexits, hop, siteLabel, siteTail, Assembler.push,
      Assembler.empty, skipLabel]
  · have hne : (⟨1⟩ : Label) ≠ ⟨2⟩ := by decide
    simpa [Draft.put, hasm, Assembler.empty] using mark_notMem_siteItems hne env i.constant

/-- The piece of an exit that is always taken. -/
theorem exitToConst_apply {d : Draft} (hasm : d.asm = .empty) (hexits : d.pieceExits = [])
    (hop : i.op = .exitToConst) (hmeasured : Measured env i) :
    inst env i d = .ok ⟨⟩ (d.finish env i d.regs.flushAll.2 d.regs.flushAll.1) := by
  have hdest : i.exitDest? = some i.constant := by rw [Inst.exitDest?, hop]
  rw [inst, hop]
  show (flushAll >>= fun _ => exitTo env i.constant) d = _
  rw [bind_of_ok (flushAll_apply d),
    exitTo_apply (by simp [Draft.put, hasm, Assembler.empty]) fun hlink => hmeasured hlink _ hdest]
  simp [Draft.finish, hdest, Draft.put, hasm, hexits, hop, siteLabel, siteTail, Assembler.empty]

/-- Sending everything back behind a piece that has done so adds nothing. -/
theorem flushAll_finish {d : Draft} {lead : List Insn} {m : RegMap} {pc : UInt32}
    (hdest : i.exitDest? = some pc) (env : LowerEnv) :
    flushAll (d.finish env i lead m.flushAll.1) = .ok ⟨⟩ (d.finish env i lead m.flushAll.1) := by
  have hregs : (d.finish env i lead m.flushAll.1).regs = m.flushAll.1 := by
    rw [Draft.finish, hdest]
  have hnil := Draft.put_nil (d.finish env i lead m.flushAll.1)
  rw [hregs] at hnil
  rw [flushAll_apply, hregs, RegMap.flushAll_flushAll, hnil]

/-- What a conditional exit compares with, and when it is taken. -/
def exitCond? : Opcode → Option (Against × Cond)
  | .exitIfEq => some (.src2, .equal)
  | .exitIfNeq => some (.src2, .notEqual)
  | .exitIfGtZ => some (.zero, .greater)
  | .exitIfGeZ => some (.zero, .greaterEqual)
  | .exitIfLtZ => some (.zero, .less)
  | .exitIfLeZ => some (.zero, .lessEqual)
  | _ => none

/-- Conditional exits are lowered alike, by what they compare and when they are taken. -/
theorem inst_of_exitCond {against : Against} {taken : Cond}
    (h : exitCond? i.op = some (against, taken)) (env : LowerEnv) :
    inst env i = exitIf env against taken i := by
  rw [inst]
  cases hop : i.op <;> rw [hop] at h <;> cases h <;> rfl

/-- A conditional exit leaves for its constant. -/
theorem exitDest?_of_exitCond {against : Against} {taken : Cond}
    (h : exitCond? i.op = some (against, taken)) : i.exitDest? = some i.constant := by
  rw [Inst.exitDest?]
  cases hop : i.op <;> rw [hop] at h <;> cases h

/-- An instruction with an exit site that is not the plain exit is a conditional one. -/
theorem exitCond_of_exitDest? {pc : UInt32} (h : i.exitDest? = some pc)
    (hop : i.op ≠ .exitToConst) : ∃ against taken, exitCond? i.op = some (against, taken) := by
  rw [Inst.exitDest?] at h
  cases hi : i.op <;> rw [hi] at h hop <;> cases h <;>
    first | exact ⟨_, _, rfl⟩ | exact absurd rfl hop

/-- What the test of a conditional exit emits: registers are mapped, sent back, and compared. -/
theorem exitTest_eq_ok {against : Against} {d d' : Draft} (h : exitTest against i d = .ok ⟨⟩ d') :
    ∃ m code compare, d' = d.put (code ++ m.flushAll.2 ++ [compare]) m.flushAll.1 ∧
      match against with
      | .zero => ∃ left, d.regs.map (RegMap.guestOf i.src1) .read = (.ok left, m, code) ∧
          compare = .alu32i .cmp left 0
      | .src2 => ∃ left right m₁ is js,
          d.regs.map (RegMap.guestOf i.src1) .read = (.ok left, m₁, is) ∧
          m₁.map (RegMap.guestOf i.src2) .read = (.ok right, m, js) ∧ code = is ++ js ∧
          compare = .alu32 .cmp left right := by
  obtain ⟨left, m₁, is, hleft, h⟩ := bind_mapReg_eq_ok.mp h
  cases against with
  | zero =>
    change (flushAll >>= fun _ => insn (.alu32i .cmp left 0)) (d.put is m₁) = _ at h
    rw [bind_of_ok (flushAll_apply _), insn_apply] at h
    cases h
    exact ⟨m₁, is, _, by simp, left, hleft, rfl⟩
  | src2 =>
    obtain ⟨right, m, js, hright, h⟩ := bind_mapReg_eq_ok.mp h
    change (flushAll >>= fun _ => insn (.alu32 .cmp left right)) ((d.put is m₁).put js m) = _ at h
    rw [bind_of_ok (flushAll_apply _), insn_apply] at h
    cases h
    exact ⟨m, is ++ js, _, by simp, left, right, m₁, is, js, hleft, hright, rfl, rfl⟩

/-- The lead of an exit that is always taken sends everything back. -/
theorem makes_exitToConst (hop : i.op = .exitToConst) (env : LowerEnv) (m : RegMap) :
    Makes env i m m.flushAll.2 m.flushAll.1 where
  branches k hk t ht := .inl (branchesFar_of_plain m.plain_flushAll k hk t ht)
  lowers := by
    rintro linked measure d hmeasured rfl hasm hexits
    have hdest : i.exitDest? = some i.constant := by rw [Inst.exitDest?, hop]
    rw [piece, bind_of_ok (exitToConst_apply hasm hexits hop hmeasured)]
    split
    · exact flushAll_finish hdest _
    · rfl

/-- The lead of a conditional exit is its test and a branch over the exit site. -/
theorem makes_exitIf {against : Against} {taken : Cond}
    (hcond : exitCond? i.op = some (against, taken)) (hop : i.op ≠ .exitToConst) {d : Draft}
    {code : List Insn} {m : RegMap}
    (htest : exitTest against i d = .ok ⟨⟩ (d.put code m.flushAll.1)) (env : LowerEnv) :
    Makes env i d.regs (code ++ [.jcc taken.invert skipLabel.symbol]) m.flushAll.1 := by
  have hdest := exitDest?_of_exitCond hcond
  obtain ⟨is, n, heq, hbranches, htests⟩ := appends_exitTest against i htest
  obtain ⟨rfl, rfl⟩ := Draft.put_inj heq
  refine ⟨fun k hk t ht => ?_, fun linked measure e hmeasured he hasm hexits => ?_⟩
  · rcases List.mem_append.mp hk with hk | hk
    · exact .inl (hbranches k hk t ht)
    · obtain rfl := List.mem_singleton.mp hk
      exact .inr ⟨by rw [hdest]; rfl, hop, (Option.some.inj ht).symm⟩
  · rw [piece, inst_of_exitCond hcond,
      bind_of_ok (exitIf_apply (htests e he) hasm hexits hdest hop hmeasured taken)]
    split
    · exact flushAll_finish hdest _
    · rfl

/-- Whatever has been lowered once has a lead. -/
theorem makes_of_ok (hfar : ∀ a ∈ env.stubs.targets, codeBase ≤ a) {d d' : Draft}
    (h : piece env i d = .ok ⟨⟩ d') : ∃ lead n, Makes env i d.regs lead n := by
  cases hdest : i.exitDest? with
  | none => exact makes_of_appends hfar hdest h
  | some pc =>
    by_cases hop : i.op = .exitToConst
    · exact ⟨_, _, makes_exitToConst hop env d.regs⟩
    · obtain ⟨against, taken, hcond⟩ := exitCond_of_exitDest? hdest hop
      obtain ⟨_, d₁, hinst, -⟩ := bind_eq_ok.mp h
      rw [inst_of_exitCond hcond, exitIf_eq] at hinst
      obtain ⟨_, d₂, htest, -⟩ := bind_eq_ok.mp hinst
      obtain ⟨m, code, compare, rfl, -⟩ := exitTest_eq_ok htest
      exact ⟨_, _, makes_exitIf hcond hop htest env⟩

/-- What has been lowered has been measured. -/
theorem measured_of_ok (hsized : ∀ is len, env.measure is = .ok len → len = codeSize is)
    {d d' : Draft} (h : piece env i d = .ok ⟨⟩ d') : Measured env i := by
  intro hlink pc hdest
  -- if the exit was lowered, its jump was measured
  suffices ∃ d₁ d₂, exitTo env pc d₁ = .ok ⟨⟩ d₂ by
    obtain ⟨d₁, d₂, hexit⟩ := this
    obtain ⟨len, hlen⟩ := exists_measure_of_exitTo hexit hlink
    rw [hlen, hsized _ _ hlen]
  obtain ⟨_, d₁, hinst, -⟩ := bind_eq_ok.mp h
  by_cases hop : i.op = .exitToConst
  · have hpc : i.constant = pc := by
      rw [Inst.exitDest?, hop] at hdest
      exact Option.some.inj hdest
    rw [inst, hop] at hinst
    obtain ⟨_, d₂, -, hexit⟩ := bind_eq_ok.mp hinst
    exact ⟨d₂, d₁, hpc ▸ hexit⟩
  · obtain ⟨against, taken, hcond⟩ := exitCond_of_exitDest? hdest hop
    obtain rfl : i.constant = pc := Option.some.inj ((exitDest?_of_exitCond hcond).symm.trans hdest)
    rw [inst_of_exitCond hcond, exitIf_eq] at hinst
    obtain ⟨_, d₂, -, h₂⟩ := bind_eq_ok.mp hinst
    obtain ⟨skip, d₃, -, h₃⟩ := bind_eq_ok.mp h₂
    obtain ⟨_, d₄, -, h₄⟩ := bind_eq_ok.mp h₃
    obtain ⟨_, d₅, hexit, -⟩ := bind_eq_ok.mp h₄
    exact ⟨d₄, d₅, hexit⟩

/-- Without an exit site, the lead of an instruction branches far. -/
theorem Makes.branchesFar {m n : RegMap} {lead : List Insn} (h : Makes env i m lead n)
    (hdest : i.exitDest? = none) : BranchesFar lead := by
  intro k hk t ht
  rcases h.branches k hk t ht with hfar | ⟨hsome, -⟩
  · exact hfar
  · rw [hdest] at hsome
    cases hsome

/-- An instruction has one lead. -/
theorem Makes.unique {m n n' : RegMap} {lead lead' : List Insn} (h : Makes env i m lead n)
    (h' : Makes env i m lead' n') : lead = lead' ∧ n = n' := by
  have heq := (h.lowers_sized env.linked).symm.trans (h'.lowers_sized env.linked)
  injection heq with _ heq
  rw [Draft.finish, Draft.finish] at heq
  cases hdest : i.exitDest? with
  | none =>
    rw [hdest] at heq
    exact Draft.put_inj heq
  | some pc =>
    rw [hdest] at heq
    have hitems := congrArg (fun e => e.asm.items) heq
    have hmap : lead.map Item.insn = lead'.map Item.insn :=
      List.append_cancel_right (List.append_cancel_right hitems)
    exact ⟨(List.map_inj_right fun a b hab => by injection hab).mp hmap,
      congrArg Draft.regs heq⟩

end Lower

end Dynarec
