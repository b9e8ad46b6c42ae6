import Dynarec.Proofs.Jit.Agreement
import Dynarec.Proofs.Jit.Leads
import Dynarec.Proofs.Jit.Translate
import Dynarec.Proofs.Machine.Reference

/-!
# Compiled programs do what their blocks say

A state whose blocks are compiled and linked is a program (`Jit.program`), and a run of it does what
the program does without machine code, whatever the settings are and however the blocks are linked.

Shape of the argument:

1. wherever a block leaves, the machine goes on at the address that the guest leaves for: by way of
   the dispatcher, or by a link that leads through a guard to the body (`Served.exitLeads`);
2. so one block takes the machine from one visit to the next, in at least one step
   (`Served.visit_block`);
3. a program that halts is followed to its end, by induction on the program (`finishes_of_halts`);
   and a run that finishes cannot take steps for ever, so the program that it follows halts
   (`halts_of_finishes`).
-/

namespace Dynarec

open Lower Dynarec.Action CodeCache

variable {σ : Type}

/-! ## From guests to contexts and back -/

theorem Synced.stands {staticAlloc : Bool} {frame c : Cpu} {g : Guest σ}
    (h : Synced staticAlloc frame g c) : Stands staticAlloc frame g.context c where
  base := h.base
  context := by rw [h.context]
  downcount := h.downcount
  stack := h.stack

/-- A machine between two blocks stands for a guest. -/
theorem Stands.exists_synced {staticAlloc : Bool} {frame c : Cpu} {x : Context}
    (h : Stands staticAlloc frame x c) (s : σ) :
    ∃ g : Guest σ, g.state = s ∧ g.context.lasting = x.lasting ∧ Synced staticAlloc frame g c :=
  ⟨{ context := { c.context with downcount := x.downcount }, mxcsr := c.mxcsr, state := s }, rfl,
    h.context, h.base, rfl, h.downcount, rfl, h.stack⟩

namespace Jit

variable {j : Jit} {h : Handlers σ} {service : Service} {frame : Cpu} {x y : Context} {c : Cpu}
  {s : σ} {pc : UInt32}

/-! ## Compiled blocks as a program -/

/-- The compiled block that stands for a guest address. -/
def program (j : Jit) : Program := fun pc => do
  let entry ← j.blocks.at? pc
  let _ ← entry.target
  return entry.block

theorem Tidy.program_eq_some (hj : j.Tidy) {b : Block} :
    j.program pc = some b ↔
      ∃ num entry t, j.blocks.get? num = some entry ∧ entry.valid ∧ entry.block.start = pc ∧
        entry.target = some t ∧ entry.block = b := by
  constructor
  · intro hb
    obtain ⟨entry, hat, hentry⟩ := Option.bind_eq_some_iff.mp hb
    obtain ⟨num, hfind, hfound⟩ := Option.bind_eq_some_iff.mp hat
    obtain ⟨t, htarget, hblock⟩ := Option.bind_eq_some_iff.mp hentry
    obtain ⟨entry', hfound', hvalid, hstart⟩ := (hj.tabled.standing pc num).mp hfind
    cases hfound.symm.trans hfound'
    exact ⟨num, entry, t, hfound, hvalid, hstart, htarget, Option.some.inj hblock⟩
  · rintro ⟨num, entry, t, hfound, hvalid, hstart, htarget, rfl⟩
    have hfind := (hj.tabled.standing pc num).mpr ⟨entry, hfound, hvalid, hstart⟩
    simp only [program, Blocks.at?, hfind, Option.bind_eq_bind, Option.bind_some, hfound, htarget]
    rfl

/-- The block that is looked up is the one of the program. -/
theorem Tidy.exists_copy (hj : j.Tidy) {a : UInt64} (hlookup : j.lookup pc = some a) :
    ∃ num entry t ps, j.Copy num entry t ps ∧ entry.valid ∧ a = addressOf t ∧
      j.program pc = some entry.block := by
  obtain ⟨num, entry, t, hfound, hvalid, hstart, htarget, ha⟩ := hj.lookup_eq_some.mp hlookup
  obtain ⟨ps, hcopy⟩ := hj.laid.pieces num entry t hfound htarget
  exact ⟨num, entry, t, ps, hcopy, hvalid, ha,
    hj.program_eq_some.mpr ⟨num, entry, t, hfound, hvalid, hstart, htarget, rfl⟩⟩

theorem Tidy.program_eq_none (hj : j.Tidy) (hlookup : j.lookup pc = none) :
    j.program pc = none := by
  refine Option.eq_none_iff_forall_ne_some.mpr fun b hb => ?_
  obtain ⟨num, entry, t, hfound, hvalid, hstart, htarget, -⟩ := hj.program_eq_some.mp hb
  have hsome := hj.lookup_eq_some.mpr ⟨num, entry, t, hfound, hvalid, hstart, htarget, rfl⟩
  cases hlookup.symm.trans hsome

/-- No code is at the address that runs return to. -/
theorem Tidy.lookup_ne_zero (hj : j.Tidy) (pc : UInt32) : j.lookup pc ≠ some 0 := by
  intro hlookup
  obtain ⟨num, entry, t, ps, hcopy, -, ha, -⟩ := hj.exists_copy hlookup
  have hle := hj.laid.body_le_cursor hcopy
  have hhigh := hj.laid.ready.high
  have hsize := hj.laid.ready.size_le
  exact addressOf_ne_returnAddress (by omega) ha.symm

/-! ## Going on at a guest address -/

/-- Handlers that go with a state: they do what a service says, keep no time of their own, look up
the compiled blocks, and are not told about interpreted opcodes. -/
structure Attended (j : Jit) (h : Handlers σ) (service : Service) : Prop where
  separate : j.table.Separate j.code.size
  quiet : j.table.notify = none
  provides : h.Provides service
  dispatches : h.Dispatches j

/-- A state with compiled blocks that mean the same in whatever way they are compiled, and handlers
that go with it. -/
structure Served (j : Jit) (h : Handlers σ) (service : Service) : Prop
    extends Attended j h service where
  orderly : j.Orderly
  fresh : j.Fresh
  proper : ∀ pc b, j.program pc = some b → b.Proper service

theorem Served.separated (hj : j.Served h service) : j.Separated :=
  ⟨hj.orderly.laid.ready.size_le, hj.separate⟩

theorem Served.notifies_eq (hj : j.Served h service) : j.notifies = false := by
  rw [notifies, hj.quiet]
  exact Bool.and_false _

/-- A visit does not end in the fixed routines. -/
theorem Tidy.ip_ne_of_visited (hj : j.Tidy) (hc : j.Visited h frame pc x c) {o : Nat}
    (ho : o < j.routinesLen) : c.ip ≠ addressOf o := by
  have hroutines := hj.laid.ready.routines
  have hlow := hj.laid.ready.low
  have hhigh := hj.laid.ready.high
  have hsize := hj.laid.ready.size_le
  have hreturned : returnAddress ≠ addressOf o := Ne.symm (addressOf_ne_returnAddress (by omega))
  cases hc with
  | spent _ hip _ => exact fun heq => hreturned (hip.symm.trans heq)
  | missing _ _ hip _ => exact fun heq => hreturned (hip.symm.trans heq)
  | entered _ hlookup hip _ _ =>
    obtain ⟨num, entry, t, ps, hcopy, -, ha, -⟩ := hj.exists_copy hlookup
    have hstart := (hj.laid.low num entry t ps hcopy).1
    have hle := copyLow_le j.layoutEnv t
    have hcursor := hj.laid.body_le_cursor hcopy
    intro heq
    have hsame := addressOf_inj (by omega) (by omega) (ha.symm.trans (hip.symm.trans heq))
    omega

/-- In at least one step, running on from an address leads to a visit. -/
def VisitsFrom (j : Jit) (h : Handlers σ) (frame : Cpu) (a : UInt64) (c : Cpu) (s : σ) (pc : UInt32)
    (x : Context) : Prop :=
  ∃ d t, Relation.TransGen (j.Step h) (c.goTo a, s) (d, t) ∧ j.Visited h frame pc x d

/-- The way from a fixed routine to the end of a visit takes steps. -/
theorem Tidy.visitsFrom (hj : j.Tidy) {l : Label} {i : Insn}
    (hl : ∃ after, Item.after? l j.fixedItems = some (.insn i :: after))
    (hleads : j.Leads h (j.place l.symbol) c s fun d _ => j.Visited h frame pc x d) :
    j.VisitsFrom h frame (j.place l.symbol) c s pc x := by
  obtain ⟨o, ho, hplace⟩ := hj.laid.ready.installed.place_lt hl
  obtain ⟨d, t, hreach, hd⟩ := hleads
  refine ⟨d, t, ?_, hd⟩
  -- Without a step the machine would still be in the fixed routines, where no visit ends.
  rcases Relation.reflTransGen_iff_eq_or_transGen.mp hreach.reach with heq | htrans
  · have hip : d.ip = j.place l.symbol := by rw [(Prod.mk.inj heq).1, Cpu.ip_goTo]
    exact absurd (hip.trans hplace) (hj.ip_ne_of_visited hd ho)
  · exact htrans

/-- The dispatcher, with the address in the scratch register. -/
theorem Served.dispatcherPc (hj : j.Served h service) (hframe : Framed frame)
    (hc : Stands j.config.staticAlloc frame x c) (hcore : x.coreState = 0)
    (hpc : c.reg32 Gpr.scratch = pc) (s : σ) :
    j.VisitsFrom h frame j.stubs.dispatcherPc c s pc x := by
  have hi := hj.orderly.laid.ready.installed
  have hleads := leads_dispatcherPc (s := s) hj.separated hi hframe hj.dispatches.finds
    (hj.orderly.lookup_ne_zero pc) hc hcore hpc
  rw [hi.dispatcherPc_eq] at hleads ⊢
  exact hj.orderly.visitsFrom
    (by rw [fixedItems]; cases j.config.staticAlloc <;> exact ⟨_, rfl⟩) hleads

/-- The check of the core, with the address in memory. -/
theorem Served.checkCoreState (hj : j.Served h service) (hframe : Framed frame)
    (hc : Stands j.config.staticAlloc frame x c) (hcore : x.coreState = 0) (s : σ) :
    j.VisitsFrom h frame j.stubs.checkCoreState c s x.pc x := by
  have hi := hj.orderly.laid.ready.installed
  have hleads := leads_checkCoreState (s := s) hj.separated hi hframe hj.dispatches.finds
    (hj.orderly.lookup_ne_zero x.pc) hc hcore
  rw [hi.checkCoreState_eq] at hleads ⊢
  exact hj.orderly.visitsFrom
    (by rw [fixedItems]; cases j.config.staticAlloc <;> exact ⟨_, rfl⟩) hleads

/-- Code that redirects to the dispatcher. -/
theorem Served.redirected (hj : j.Served h service) (hframe : Framed frame) {offset : Nat}
    (hheld : j.code.Holds offset [.mov32i Gpr.rax pc, .jmp j.stubs.dispatcherPc])
    (hc : Stands j.config.staticAlloc frame x c) (hcore : x.coreState = 0) (s : σ) :
    j.VisitsFrom h frame (addressOf offset) c s pc x := by
  have hsite : j.code.Holds offset (exitJump j.stubs pc none ++ []) := hheld
  have hjump := reach_exitJump (h := h) hj.separated hsite c s
  have hc' := hc.setReg (r := Gpr.scratch) pc.toUInt64 (by decide)
  obtain ⟨d, t, htrans, hd⟩ := hj.dispatcherPc hframe hc' hcore (Cpu.reg32_setReg32_self _ _ _) s
  exact ⟨d, t, .trans_right hjump htrans, hd⟩

/-- A guard lets a machine pass that is within its budget, and sends others to the outer loop. -/
theorem Served.guarded (hj : j.Served h service) (hframe : Framed frame) {guard : Nat}
    {body : UInt64}
    (hheld : j.code.Holds guard [testDowncount j.config.staticAlloc, .jcc .notSign body,
      .mov32i Gpr.rax pc, .jmp j.stubs.outerLoopPc])
    (hc : Stands j.config.staticAlloc frame x c) (hcore : x.coreState = 0)
    (hbody : x.outOfBudget = false → ∀ d, d.ip = body → Stands j.config.staticAlloc frame x d →
      ∃ e t, j.Reach h (d, s) (e, t) ∧ j.Visited h frame pc x e) :
    ∃ e t, j.Reach h (c.goTo (addressOf guard), s) (e, t) ∧ j.Visited h frame pc x e := by
  obtain ⟨d, t, hreach, ⟨hbudget, rfl, hip, hd⟩ | hd⟩ := reachFrom_guard (s := s) hj.separated
    hj.orderly.laid.ready.installed hframe hj.dispatches.finds (hj.orderly.lookup_ne_zero pc) rfl
    hheld hc hcore
  · obtain ⟨e, t, hreach', he⟩ := hbody hbudget d hip hd
    exact ⟨e, t, hreach.reach.trans hreach', he⟩
  · exact ⟨d, t, hreach.reach, hd⟩

/-- An exit site that leads to an address takes the machine there. -/
theorem Served.exitLeads (hj : j.Served h service) (hframe : Framed frame) {offset : Nat}
    (hleads : j.ExitLeads pc offset) (hc : Stands j.config.staticAlloc frame x c)
    (hcore : x.coreState = 0) (s : σ) : j.VisitsFrom h frame (addressOf offset) c s pc x := by
  cases hleads with
  | dispatched hjump => exact hj.redirected hframe hjump hc hcore s
  | guarded hjump hguard hbody =>
    have hguarded := hj.guarded (s := s) hframe hguard hc hcore fun hbudget d hip hd => ?_
    · obtain ⟨d, t, hreach, hd⟩ := hguarded
      exact ⟨d, t, .head' (step_of_holds hj.separated h hjump rfl s) hreach, hd⟩
    · -- the guard may be that of an invalid block, whose body has been redirected
      rcases hbody with hlookup | hredirected
      · exact ⟨d, s, .refl, .entered hbudget hlookup hip (.inl rfl) hd⟩
      · obtain ⟨d', t, htrans, hd'⟩ := hj.redirected hframe hredirected hd hcore s
        rw [← hip, Cpu.goTo_ip] at htrans
        exact ⟨d', t, htrans.to_reflTransGen, hd'⟩

/-- A machine that has left a block goes on where the guest goes on. -/
theorem Served.left (hj : j.Served h service) (hframe : Framed frame) {p : Piece} {leave : Leave}
    (hsites : ∀ pc, p.inst.exitDest? = some pc → j.ExitLeads pc p.site) {g : Guest σ}
    (hsync : Synced j.config.staticAlloc frame g c) (hcore : g.context.coreState = 0)
    (hleft : j.Left p.inst p.site c leave) (s : σ) :
    j.VisitsFrom h frame c.ip c s (leave.pc g.context) g.context := by
  cases hleft with
  | site hdest hip =>
    rw [hip]
    exact hj.exitLeads hframe (hsites _ hdest) hsync.stands hcore s
  | dispatcher _ hip hpc =>
    rw [hip]
    exact hj.dispatcherPc hframe hsync.stands hcore hpc s
  | toPc hip =>
    rw [hip]
    exact hj.checkCoreState hframe hsync.stands hcore s

/-! ## From visit to visit -/

/-- The code of a block takes the machine to the address that the block leaves for. -/
theorem Served.visit_block (hj : j.Served h service) (hframe : Framed frame) {b : Block}
    (hprogram : j.program pc = some b) (hlookup : j.lookup pc = some c.ip)
    (hc : Stands j.config.staticAlloc frame y c) (hbare : y.bare = x.bare) (hcore : x.coreState = 0)
    {g' : Guest Unit} {leave : Leave}
    (heval : b.eval service.handlers false (x.entering pc) = (g', some leave)) (s : σ) :
    ∃ d t, Relation.TransGen (j.Step h) (c, s) (d, t) ∧
      j.Visited h frame (leave.pc g'.context) g'.context d := by
  obtain ⟨num, entry, t, ps, hcopy, hvalid, hip, hprogram'⟩ := hj.orderly.exists_copy hlookup
  obtain rfl := Option.some.inj (hprogram.symm.trans hprogram')
  obtain ⟨g, rfl, hlasting, hsync⟩ := hc.exists_synced s
  -- what the block does to the guest that the machine stands for
  have hproper := hj.proper pc entry.block hprogram
  obtain ⟨g₁, heval₁, hbare₁, hpc₁⟩ := Block.eval_alike hj.provides service.provides hproper.pcSet
    ((Context.bare_of_lasting hlasting).trans hbare) heval
  have hcore₁ : g₁.context.coreState = 0 :=
    (congrArg Context.coreState hbare₁ :).trans ((Block.coreState_eval heval).trans hcore)
  have hready := hj.orderly.laid.ready
  have hps : blockPieces j.lowerEnv entry.block t = some ps := by
    rw [blockPieces_lowerEnv]
    exact hcopy.pieces
  have hran := ran_block (h := h) hj.separated hready.installed hready.reaches.stubs
    hproper.slots hps
    (hj.orderly.coded.leads num entry t ps hcopy hvalid) hsync
  rw [hj.notifies_eq, heval₁, ← hip, Cpu.goTo_ip] at hran
  cases hran with
  | @leaves _ p _ _ z hleaves =>
    obtain ⟨z', hto, -, hfrom⟩ := hleaves.passes
    have hp : p ∈ ps := List.mem_of_getElem? hleaves.piece
    obtain ⟨d, u, htrans, hd⟩ := hj.left hframe
      (fun pc hdest => hj.fresh.exitLeads hj.orderly hcopy hvalid hp hdest)
      hleaves.synced hcore₁ hleaves.left z.2
    rw [Cpu.goTo_ip] at htrans
    refine ⟨d, u, .trans_right (hto.trans hfrom) htrans, ?_⟩
    rw [← hpc₁]
    exact hd.congr hbare₁

/-- A program that halts is followed to its end. -/
theorem Served.finishes_of_halts (hj : j.Served h service) (hframe : Framed frame) {d : Context}
    (hhalts : j.program.Halts service pc x d) (hcore : x.coreState = 0)
    (hc : j.Visited h frame pc x c) (s : σ) :
    ∃ z, j.Finishes h (c, s) z ∧ z.1.context.lasting = d.lasting := by
  induction hhalts generalizing c s with
  | spent hspent =>
    cases hc with
    | spent _ hip hcontext => exact ⟨(c, s), ⟨.refl, hip⟩, hcontext⟩
    | missing hbudget => simp [hspent] at hbudget
    | entered hbudget => simp [hspent] at hbudget
  | missing hbudget hmissing =>
    cases hc with
    | spent hspent => simp [hbudget] at hspent
    | missing _ _ hip hfound => exact ⟨(c, s), ⟨.refl, hip⟩, hj.dispatches.lasting_eq hfound⟩
    | entered _ hlookup =>
      obtain ⟨_, _, _, _, _, _, _, hprogram⟩ := hj.orderly.exists_copy hlookup
      cases hmissing.symm.trans hprogram
  | block hbudget hblock heval _ ih =>
    -- one block is carried out and the dispatcher visited again, where the induction goes on
    cases hc with
    | spent hspent => simp [hbudget] at hspent
    | missing _ hlookup => cases hblock.symm.trans (hj.orderly.program_eq_none hlookup)
    | entered _ hlookup hip hfound hstands =>
      obtain ⟨d', t, htrans, hd'⟩ := hj.visit_block hframe hblock (hip ▸ hlookup) hstands
        (hj.dispatches.bare_eq hfound) hcore heval s
      obtain ⟨z, hfinishes, hcontext⟩ := ih ((Block.coreState_eval heval).trans hcore) hd' t
      exact ⟨z, ⟨htrans.to_reflTransGen.trans hfinishes.1, hfinishes.2⟩, hcontext⟩

/-- A run that finishes follows a program that halts. -/
theorem Served.halts_of_finishes (hj : j.Served h service) (hframe : Framed frame) {z : Cpu × σ}
    (hfinishes : j.Finishes h (c, s) z) (hcore : x.coreState = 0) (hc : j.Visited h frame pc x c) :
    ∃ d, j.program.Halts service pc x d ∧ z.1.context.lasting = d.lasting := by
  -- The induction is on the steps that are left.  How many there are is not known, but a run that
  -- finishes cannot go on for ever, and every visit takes at least one step.
  have hacc := hfinishes.acc
  generalize hstate : (c, s) = u at hfinishes hacc
  induction hacc generalizing c s pc x with
  | intro u _ ih =>
    subst hstate
    cases hc with
    | spent hspent hip hcontext =>
      obtain rfl := Finishes.eq_of_returned hip hfinishes.1
      exact ⟨_, .spent hspent, hcontext⟩
    | missing hbudget hlookup hip hfound =>
      obtain rfl := Finishes.eq_of_returned hip hfinishes.1
      exact ⟨_, .missing hbudget (hj.orderly.program_eq_none hlookup),
        hj.dispatches.lasting_eq hfound⟩
    | entered hbudget hlookup hip hfound hstands =>
      obtain ⟨_, entry, _, _, _, _, _, hprogram⟩ := hj.orderly.exists_copy hlookup
      have hleaves := (hj.proper pc entry.block hprogram).leaves (x.entering pc)
      cases heval : entry.block.eval service.handlers false (x.entering pc) with
      | mk g leave =>
        rw [heval] at hleaves
        obtain ⟨leave, rfl⟩ := Option.isSome_iff_exists.mp hleaves
        obtain ⟨d, t, htrans, hd⟩ := hj.visit_block hframe hprogram (hip ▸ hlookup) hstands
          (hj.dispatches.bare_eq hfound) hcore heval s
        obtain ⟨e, hhalts, hcontext⟩ := ih (d, t) (Relation.transGen_swap.mpr htrans)
          ((Block.coreState_eval heval).trans hcore) hd rfl
          (hfinishes.of_reach htrans.to_reflTransGen)
        exact ⟨e, .block hbudget hprogram heval hhalts, hcontext⟩

/-- A run finishes exactly if the program halts, and both end with the same context. -/
theorem Served.finishes_iff_halts (hj : j.Served h service) {e : Cpu} (he : j.Entered e)
    (hcore : e.context.coreState = 0) (s : σ) (d : Context) :
    (∃ z, j.Finishes h (e, s) z ∧ z.1.context.lasting = d.lasting) ↔
      ∃ y, j.program.Halts service e.context.pc e.context y ∧ y.lasting = d.lasting := by
  obtain ⟨frame, hframe, c, t, hreach, hc⟩ := leads_enter hj.separated hj.orderly.laid.ready.installed
    hj.dispatches.finds he (hj.orderly.lookup_ne_zero e.context.pc) hcore s
  constructor
  · rintro ⟨z, hfinishes, hcontext⟩
    obtain ⟨y, hhalts, hend⟩ := hj.halts_of_finishes hframe (hfinishes.of_reach hreach.reach) hcore hc
    exact ⟨y, hhalts, hend.symm.trans hcontext⟩
  · rintro ⟨y, hhalts, hcontext⟩
    obtain ⟨z, hfinishes, hend⟩ := hj.finishes_of_halts hframe hhalts hcore hc t
    exact ⟨z, ⟨hreach.reach.trans hfinishes.1, hfinishes.2⟩, hend.trans hcontext⟩

end Jit

end Dynarec
