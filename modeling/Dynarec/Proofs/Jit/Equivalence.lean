import Mathlib.Data.List.Nodup
import Dynarec.Proofs.Jit.Visits

/-!
# Settings and order do not matter

Blocks are registered and compiled, in some order and with some settings, and then run.  The
settings decide how guest registers are kept and how blocks are entered and left, and the order
decides which exits are linked at once and which are linked later.  None of it shows: two runs of
the same blocks from the same context end with the same context, up to the scratch word, or go on
for ever both.

Shape of the argument: registering and compiling blocks with different addresses never invalidates
anything (`permitted_of_builds`), so the compiled blocks are the given ones in either case
(`Compiles.program_eq_some`), and both runs do what the program does without machine code
(`Served.finishes_iff_halts`).
-/

namespace Dynarec

open Lower Dynarec.Action CodeCache

variable {σ τ : Type}

/-- Whether an operation only registers or compiles. -/
def Op.builds : Op → Bool
  | .addBlock _ | .compile _ | .preload _ | .addAndCompile _ => true
  | .invalidate _ | .invalidatePc _ | .clearCache => false

namespace Jit

section

variable {allowed : BlockEntry → Prop} {wanted : Block → Prop} {j k : Jit}

/-! ## Which blocks there are -/

/-- All registered blocks are wanted. -/
def OnlyBlocks (wanted : Block → Prop) (j : Jit) : Prop :=
  ∀ num entry, j.blocks.get? num = some entry → wanted entry.block

theorem OnlyBlocks.setTarget (hj : j.OnlyBlocks wanted) {num t : Nat}
    (hblocks : k.blocks = j.blocks.setTarget num t) : k.OnlyBlocks wanted := by
  intro m entry hfound
  rw [hblocks, Blocks.get?_setTarget] at hfound
  split at hfound
  · obtain ⟨entry', hfound', rfl⟩ := Option.map_eq_some_iff.mp hfound
    exact hj m entry' hfound'
  · exact hj m entry hfound

/-- A change registers only blocks that are wanted. -/
theorem OnlyBlocks.change (hj : j.OnlyBlocks wanted) (h : Change allowed wanted j k) :
    k.OnlyBlocks wanted := by
  cases h with
  | grows hgrows _ =>
    intro m entry hfound
    rw [hgrows.blocks] at hfound
    exact hj m entry hfound
  | cleared hcleared =>
    intro m entry hfound
    rw [hcleared.blocks, Blocks.get?_resetTargets] at hfound
    obtain ⟨entry', hfound', rfl⟩ := Option.map_eq_some_iff.mp hfound
    exact hj m entry' hfound'
  | linked _ _ hcompiled hlinked => exact hj.setTarget (hlinked.blocks.trans hcompiled.blocks)
  | torn _ _ hcompiled hresited => exact hj.setTarget (hresited.blocks.trans hcompiled.blocks)
  | invalidated _ hinvalidated =>
    intro m entry hfound
    rw [hinvalidated.blocks, Blocks.get?_invalidate] at hfound
    split at hfound
    · obtain ⟨entry', hfound', rfl⟩ := Option.map_eq_some_iff.mp hfound
      exact hj m entry' hfound'
    · exact hj m entry hfound
  | added hwanted _ hadded =>
    subst hadded
    intro m entry hfound
    rw [Blocks.get?_add] at hfound
    split at hfound
    · cases hfound
      exact hwanted
    · exact hj m entry hfound

theorem OnlyBlocks.changes (hj : j.OnlyBlocks wanted) (h : Changes allowed wanted j k) :
    k.OnlyBlocks wanted := by
  induction h with
  | refl => exact hj
  | tail _ hlast ih => exact ih.change hlast.change

theorem OnlyBlocks.mono {wanted' : Block → Prop} (hj : j.OnlyBlocks wanted)
    (h : ∀ b, wanted b → wanted' b) : j.OnlyBlocks wanted' :=
  fun num entry hfound => h _ (hj num entry hfound)

/-- Operations keep the settings and the handlers. -/
theorem settings_applyAll {config : Config} {table : HandlerTable} {host host' : Host}
    (hcreate : create config table host = .ok j host') (ops : List Op) :
    (j.applyAll ops).config = config ∧ (j.applyAll ops).table = table := by
  have hj := create_spec hcreate
  have hsame := (applyAll_changes hj.orderly.toTidy (permitted_true j ops) fun _ => id).settings_eq
  exact ⟨hsame.1.trans hj.sameConfig, hsame.2.trans hj.sameTable⟩

/-- An address at which no block is registered has none to invalidate. -/
theorem at?_eq_none (hj : j.Tidy) {bs : List Block} (hblocks : j.OnlyBlocks (· ∈ bs)) {pc : UInt32}
    (hpc : pc ∉ bs.map (·.start)) : j.blocks.at? pc = none := by
  refine Option.eq_none_iff_forall_ne_some.mpr fun entry hat => hpc ?_
  obtain ⟨num, hfind, hfound⟩ := Option.bind_eq_some_iff.mp hat
  obtain ⟨entry', hfound', -, hstart⟩ := (hj.tabled.standing pc num).mp hfind
  cases hfound.symm.trans hfound'
  exact List.mem_map.mpr ⟨entry.block, hblocks num entry hfound, hstart⟩

/-- Registering and compiling blocks with different addresses invalidates none. -/
theorem permitted_of_builds (hj : j.Tidy) {bs : List Block} (hblocks : j.OnlyBlocks (· ∈ bs))
    {ops : List Op} (hbuilds : ∀ op ∈ ops, op.builds)
    (hdistinct : ((bs ++ ops.filterMap OpWith.registered?).map (·.start)).Nodup) :
    Permitted allowed j ops := by
  -- `bs` grows along the operations: it holds the blocks that have been registered so far
  induction ops generalizing j bs with
  | nil => trivial
  | cons op ops ih =>
    have hfilter : (op :: ops).filterMap OpWith.registered? =
        op.registered?.toList ++ ops.filterMap OpWith.registered? := by
      cases h : op.registered? <;> simp [h]
    rw [hfilter, ← List.append_assoc] at hdistinct
    have hnew : ∀ b ∈ op.registered?, b.start ∉ bs.map (·.start) := by
      intro b hb hmem
      rw [Option.mem_def.mp hb, List.append_assoc, List.map_append] at hdistinct
      exact (List.nodup_append.mp hdistinct).2.2 _ hmem _ (by simp) rfl
    have hvictim : op.victim? j = none := by
      cases op with
      | addBlock b | addAndCompile b => exact at?_eq_none hj hblocks (hnew b rfl)
      | compile | preload | clearCache => rfl
      | invalidate | invalidatePc => cases hbuilds _ List.mem_cons_self
    have hnone : ∀ entry ∈ op.victim? j, allowed entry := by
      rw [hvictim]
      intro entry hentry
      cases hentry
    have hfirst : Changes allowed (· ∈ bs ++ op.registered?.toList) j (j.apply op) :=
      Op.changes hj hnone fun b hb => List.mem_append_right _ (Option.mem_toList.mpr hb)
    have hblocks' := (hblocks.mono fun b hb => List.mem_append_left _ hb).changes hfirst
    exact ⟨hnone, ih (hj.changes hfirst) hblocks'
      (fun op' hop' => hbuilds op' (List.mem_cons_of_mem _ hop')) hdistinct⟩

end

/-! ## Blocks compiled with some settings in some order -/

/-- Operations that register the blocks of a list, in some order, and compile blocks. -/
structure Builds (ops : List Op) (blocks : List Block) : Prop where
  only : ∀ op ∈ ops, op.builds
  registered : (ops.filterMap OpWith.registered?).Perm blocks

/-- The blocks of a list have been compiled with some settings, in some order. -/
structure Compiles (config : Config) (table : HandlerTable) (blocks : List Block) (k : Jit) :
    Prop where
  built : ∃ host j host' ops, create config table host = .ok j host' ∧ Builds ops blocks ∧
    k = j.applyAll ops
  unrefused : k.Unrefused
  /-- There was room for all blocks. -/
  compiled : ∀ b ∈ blocks, (k.lookup b.start).isSome

namespace Compiles

variable {config : Config} {table : HandlerTable} {blocks : List Block} {k : Jit}

/-- Building keeps the tables in order and the links fresh, and registers just the blocks. -/
theorem state (hk : k.Compiles config table blocks) (hdistinct : (blocks.map (·.start)).Nodup) :
    k.Orderly ∧ k.Fresh ∧ k.OnlyBlocks (· ∈ blocks) := by
  obtain ⟨host, j, host', ops, hcreate, hbuilds, rfl⟩ := hk.built
  have hj := create_spec hcreate
  have hempty : j.OnlyBlocks (· ∈ ([] : List Block)) := by
    intro num entry hfound
    rw [hj.blocks] at hfound
    cases hfound
  have hpermitted : Permitted MayInvalidate j ops :=
    permitted_of_builds hj.orderly.toTidy hempty hbuilds.only
      ((hbuilds.registered.map _).nodup_iff.mpr hdistinct)
  refine ⟨orderly_applyAll hcreate hk.unrefused, fresh_applyAll hcreate hpermitted hk.unrefused, ?_⟩
  exact (hempty.mono fun b hb => nomatch hb).changes
    (applyAll_changes hj.orderly.toTidy hpermitted fun b hb => hbuilds.registered.mem_iff.mp hb)

/-- The program is the list of blocks. -/
theorem program_eq_some (hk : k.Compiles config table blocks)
    (hdistinct : (blocks.map (·.start)).Nodup) {pc : UInt32} {b : Block} :
    k.program pc = some b ↔ b ∈ blocks ∧ b.start = pc := by
  obtain ⟨horderly, -, honly⟩ := hk.state hdistinct
  have htidy := horderly.toTidy
  constructor
  · intro hb
    obtain ⟨num, entry, t, hfound, -, hstart, -, rfl⟩ := htidy.program_eq_some.mp hb
    exact ⟨honly num entry hfound, hstart⟩
  · rintro ⟨hmem, rfl⟩
    obtain ⟨a, hlookup⟩ := Option.isSome_iff_exists.mp (hk.compiled b hmem)
    obtain ⟨num, entry, t, ps, hcopy, -, -, hprogram⟩ := htidy.exists_copy hlookup
    obtain ⟨_, _, _, _, _, hstart, _, hblock⟩ := htidy.program_eq_some.mp hprogram
    -- the block found at its address is the block itself, as no other one starts there
    have hsame : entry.block = b :=
      List.inj_on_of_nodup_map hdistinct (honly num entry hcopy.found) hmem (hblock ▸ hstart)
    rw [hprogram, hsame]

theorem served (hk : k.Compiles config table blocks) (hdistinct : (blocks.map (·.start)).Nodup)
    {service : Service} (hproper : ∀ b ∈ blocks, b.Proper service) {h : Handlers σ}
    (hh : k.Attended h service) : k.Served h service := by
  obtain ⟨horderly, hfresh, -⟩ := hk.state hdistinct
  exact ⟨hh, horderly, hfresh, fun pc b hb => hproper b ((hk.program_eq_some hdistinct).mp hb).1⟩

end Compiles

/-- Settings and order do not matter.  Whatever the settings are with which the same blocks are
compiled, in whatever order, and whatever the caller of the dispatcher has in its registers, runs
from the same context end alike: if one of them ends, so does the other, and they leave the same
context but for the scratch word. -/
theorem runs_agree {blocks : List Block} {service : Service}
    (hdistinct : (blocks.map (·.start)).Nodup) (hproper : ∀ b ∈ blocks, b.Proper service)
    {config config' : Config} {table table' : HandlerTable} {k k' : Jit}
    (hk : k.Compiles config table blocks) (hk' : k'.Compiles config' table' blocks)
    {h : Handlers σ} {h' : Handlers τ} (hh : k.Attended h service) (hh' : k'.Attended h' service)
    {e e' : Cpu} (he : k.Entered e) (he' : k'.Entered e') (hcontext : e'.context = e.context)
    (hcore : e.context.coreState = 0) {fuel : Nat} {s t : σ} {c : Cpu}
    (hrun : k.runEntered h fuel e s = .finished c t) (s' : τ) :
    ∃ fuel' c' t', k'.runEntered h' fuel' e' s' = .finished c' t' ∧
      c'.context = { c.context with temp := c'.context.temp } := by
  have hprogram : k.program = k'.program := by
    funext pc
    exact Option.ext fun b =>
      (hk.program_eq_some hdistinct).trans (hk'.program_eq_some hdistinct).symm
  have hserved := hk.served hdistinct hproper hh
  have hserved' := hk'.served hdistinct hproper hh'
  have hfinishes : k.Finishes h (e, s) (c, t) := exists_runEntered_eq_finished.mp ⟨fuel, hrun⟩
  obtain ⟨d, hhalts, hd⟩ :=
    (hserved.finishes_iff_halts he hcore s c.context).mp ⟨(c, t), hfinishes, rfl⟩
  rw [hprogram, ← hcontext] at hhalts
  rw [← hcontext] at hcore
  obtain ⟨⟨c', t'⟩, hfinishes', hc'⟩ :=
    (hserved'.finishes_iff_halts he' hcore s' c.context).mpr ⟨d, hhalts, hd⟩
  obtain ⟨fuel', hrun'⟩ := exists_runEntered_eq_finished.mpr hfinishes'
  exact ⟨fuel', c', t', hrun',
    (congrArg (fun y : Context => { y with temp := c'.context.temp }) hc' :)⟩

/-! ## An instance -/

/-- Handlers that do what a service says and look up the compiled blocks. -/
def attendants (k : Jit) (service : Service) : Handlers Unit :=
  { service.handlers with
    resolve := fun _ context state => { context, state, answer := (k.lookup context.pc).getD 0 } }

theorem Compiles.attended {config : Config} {blocks : List Block} {k : Jit}
    (hk : k.Compiles config .default blocks) (service : Service) :
    k.Attended (k.attendants service) service := by
  obtain ⟨host, j, host', ops, hcreate, -, rfl⟩ := hk.built
  have horderly := orderly_applyAll hcreate hk.unrefused
  have htable : (j.applyAll ops).table = .default := (settings_applyAll hcreate ops).2
  refine ⟨?_, ?_, ⟨service.provides.generic, service.provides.interpret⟩, ?_⟩
  · rw [htable]
    exact HandlerTable.separate_default horderly.laid.ready.size_le
  · rw [htable]
    rfl
  · exact ⟨fun _ _ _ => rfl, fun _ _ _ => ⟨rfl, rfl⟩⟩

theorem exists_compiles {config : Config} {blocks : List Block} (ops : List Op)
    (hbuilds : Builds ops blocks)
    (htests : succeeds (create config .default {}) (fun j _ =>
      decide (j.applyAll ops).Unrefused &&
      blocks.all fun b => ((j.applyAll ops).lookup b.start).isSome) = true) :
    ∃ k : Jit, k.Compiles config .default blocks := by
  obtain ⟨j, host', hcreate, htests⟩ := exists_of_succeeds htests
  simp only [Bool.and_eq_true, decide_eq_true_eq, List.all_eq_true] at htests
  exact ⟨j.applyAll ops, ⟨{}, j, host', ops, hcreate, hbuilds, rfl⟩, htests.1, htests.2⟩

/-- Counts in a register and spends a part of the budget. -/
def countBlock : Block where
  start := 0x1000
  insts := [{ op := .addConst, dest := 1, src1 := 1, constant := 1 },
    { op := .downcount, constant := 10 }, { op := .exitToConst, constant := 0x2000 }]

/-- Goes back to `countBlock`, by way of the program counter. -/
def againBlock : Block where
  start := 0x2000
  insts := [{ op := .setPcConst, constant := 0x1000 }, { op := .exitToPc }]

/-- A context whose budget lasts for two rounds. -/
def countContext : Context := { pc := 0x1000, downcount := 15 }

def idleService : Service where
  generic _ v := (v, 0)
  interpret _ v := v

theorem proper_of_mem_blocks : ∀ b ∈ [countBlock, againBlock], b.Proper idleService := by
  intro b hb
  rw [List.mem_cons, List.mem_singleton] at hb
  rcases hb with rfl | rfl
  · have hexit : { op := .exitToConst, constant := 0x2000 } ∈ countBlock.insts := by decide
    exact ⟨by decide +kernel, by decide, Block.leaves_of_mem hexit (by decide) _⟩
  · have hexit : { op := .exitToPc } ∈ againBlock.insts := by decide
    exact ⟨by decide +kernel, by decide, Block.leaves_of_mem hexit (by decide) _⟩

/-- Wherever the two blocks are compiled, a run counts to two and stops with the budget spent. -/
theorem Compiles.finishes_countBlock {config : Config} {k : Jit}
    (hk : k.Compiles config .default [countBlock, againBlock]) :
    ∃ c, k.Finishes (k.attendants idleService) (k.enterState countContext, ()) (c, ()) ∧
      c.context.gpr[1] = 2 := by
  have hdistinct : ([countBlock, againBlock].map (·.start)).Nodup := by decide
  have hcount : k.program 0x1000 = some countBlock :=
    (hk.program_eq_some hdistinct).mpr ⟨by decide, rfl⟩
  have hagain : k.program 0x2000 = some againBlock :=
    (hk.program_eq_some hdistinct).mpr ⟨by decide, rfl⟩
  -- the budget lasts for three blocks, two of which count
  obtain ⟨d, hhalts, hd⟩ :
      ∃ d, k.program.Halts idleService countContext.pc countContext d ∧ d.gpr[1] = 2 :=
    ⟨_, .block rfl hcount rfl (.block rfl hagain rfl (.block rfl hcount rfl (.spent rfl))),
      by decide +kernel⟩
  have hserved := hk.served hdistinct proper_of_mem_blocks (hk.attended idleService)
  obtain ⟨⟨c, ⟨⟩⟩, hfinishes, hc⟩ :=
    (hserved.finishes_iff_halts (entered_enterState k countContext) rfl () d).mpr ⟨d, hhalts, rfl⟩
  have hgpr : c.context.gpr[1] = d.gpr[1] := (congrArg (fun y : Context => y.gpr[1]) hc :)
  exact ⟨c, hfinishes, hgpr.trans hd⟩

/-- The blocks are compiled one after the other and linked, or registered the other way round,
compiled later and not linked.  Both runs go round twice and stop with the budget spent. -/
theorem runs_agree_countBlock :
    ∃ k k' : Jit, k.Compiles {} .default [countBlock, againBlock] ∧
      k'.Compiles { blockLink := false, staticAlloc := true, noGprCache := true } .default
        [countBlock, againBlock] ∧
      ∃ fuel c fuel' c',
        k.run (k.attendants idleService) fuel countContext () = .finished c () ∧
        k'.run (k'.attendants idleService) fuel' countContext () = .finished c' () ∧
        c.context.gpr[1] = 2 ∧ c'.context = { c.context with temp := c'.context.temp } := by
  have hdistinct : ([countBlock, againBlock].map (·.start)).Nodup := by decide
  obtain ⟨k, hk⟩ : ∃ k : Jit, k.Compiles {} .default [countBlock, againBlock] :=
    exists_compiles [.addAndCompile countBlock, .addAndCompile againBlock] ⟨by decide, .refl _⟩
      (by decide +kernel)
  obtain ⟨k', hk'⟩ : ∃ k' : Jit, k'.Compiles
      { blockLink := false, staticAlloc := true, noGprCache := true } .default
      [countBlock, againBlock] :=
    exists_compiles [.addBlock againBlock, .addBlock countBlock, .compile 0, .compile 1]
      ⟨by decide, .swap _ _ _⟩ (by decide +kernel)
  obtain ⟨c, hfinishes, hgpr⟩ := hk.finishes_countBlock
  obtain ⟨fuel, hrun⟩ := exists_runEntered_eq_finished.mpr hfinishes
  obtain ⟨fuel', c', ⟨⟩, hrun', hagree⟩ := runs_agree hdistinct proper_of_mem_blocks hk hk'
    (hk.attended idleService) (hk'.attended idleService) (entered_enterState k countContext)
    (entered_enterState k' countContext) rfl rfl hrun ()
  exact ⟨k, k', hk, hk', fuel, c, fuel', c', hrun, hrun', hgpr, hagree⟩

end Jit

end Dynarec
