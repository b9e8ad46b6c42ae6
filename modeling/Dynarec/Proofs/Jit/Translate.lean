import Dynarec.Proofs.Jit.Ready
import Dynarec.Proofs.Lower.Performs

/-!
# Compiled code does what its block says

Shape of the argument: the pieces of a block lie one behind the other, and each does what its
instruction says (`performs_of_makes`).  So by induction on the instructions, the machine goes from
piece to piece for as long as the instructions stay in the block, and at the first that leaves, the
machine leaves by the piece of that very instruction with the whole guest in memory; if none leaves,
it comes to the end of the last piece (`ran_pieces`).

For slots of any size, the instructions are those that are carried out (`Inst.carriedOut`), which
are the instructions of the block if its register slots are below 32 (`ran_block`).
-/

namespace Dynarec

open Lower Dynarec.Action CodeCache

variable {σ : Type}

namespace Jit

/-- From `x`, the machine leaves a block by the piece `p` at position `index`: the instructions
before it stay in the block and lead to the guest `g₁`, its own leads to `g'` and leaves.  The
machine comes to the piece and from there to `y`, with the guest in memory. -/
structure LeavesBy (j : Jit) (h : Handlers σ) (frame : Cpu) (is : List Inst) (ps : List Piece)
    (g : Guest σ) (x : Cpu × σ) (index : Nat) (p : Piece) (g' : Guest σ) (leave : Leave)
    (y : Cpu × σ) : Prop where
  piece : ps[index]? = some p
  inst : is[index]? = some p.inst
  leaves : ∃ g₁, Inst.evalList h j.notifies (is.take index) g = (g₁, none) ∧
    p.inst.eval h j.notifies g₁ = (g', some leave)
  passes : ∃ z, j.Reach h x z ∧ z.1.ip = addressOf p.start ∧ j.Reach h z y
  through : ∀ lo hi, (∀ q ∈ ps, lo ≤ q.start ∧ q.stop j.config ≤ hi) → j.Through h lo hi x y
  state : y.2 = g'.state
  synced : Synced j.config.staticAlloc frame g' y.1
  left : j.Left p.inst p.site y.1 leave

/-- From `x`, the machine comes to the end of pieces at `stop`, in step with the guest. -/
structure EndsAt (j : Jit) (h : Handlers σ) (frame : Cpu) (stop : Nat) (x : Cpu × σ)
    (g' : Guest σ) (n : RegMap) (y : Cpu × σ) : Prop where
  reach : j.Reach h x y
  ip : y.1.ip = addressOf stop
  state : y.2 = g'.state
  consistent : n.Consistent j.config.staticAlloc
  sim : Sim j.config.staticAlloc frame n none g' y.1

/-- What the machine makes of instructions whose outcome for the guest is known. -/
inductive Ran (j : Jit) (h : Handlers σ) (frame : Cpu) (is : List Inst) (ps : List Piece)
    (start : Nat) (g : Guest σ) (x : Cpu × σ) : Guest σ × Option Leave → Prop
  | leaves {index : Nat} {p : Piece} {g' : Guest σ} {leave : Leave} {y : Cpu × σ}
    (hleaves : j.LeavesBy h frame is ps g x index p g' leave y) :
    Ran j h frame is ps start g x (g', some leave)
  | ends {g' : Guest σ} {n : RegMap} {y : Cpu × σ}
    (hends : j.EndsAt h frame (endOf j.config start ps) x g' n y) :
    Ran j h frame is ps start g x (g', none)

variable {j : Jit} {h : Handlers σ} {frame : Cpu}

/-- One piece: the machine goes on behind it or leaves, as the carried out instruction says. -/
theorem through_piece (hj : j.Separated) (hi : j.Installed)
    (hfar : ∀ a ∈ j.stubs.targets, codeBase ≤ a) {m n : RegMap} {i : Inst} {index : Nat}
    {lead : List Insn} (hm : m.Consistent j.config.staticAlloc)
    (hlead : lead? j.lowerEnv (m.setIndex index) i = some (lead, n)) {start : Nat}
    (hheld : j.code.Holds start (({ inst := i, start, lead } : Piece).code j.config))
    {g : Guest σ} {c : Cpu} (hsim : Sim j.config.staticAlloc frame m none g c) :
    n.Consistent j.config.staticAlloc ∧
      ∃ x, j.Through h start (({ inst := i, start, lead } : Piece).stop j.config)
          (c.goTo (addressOf start), g.state) x ∧
        j.Arrived frame i.carriedOut n ({ inst := i, start, lead } : Piece).site
          (({ inst := i, start, lead } : Piece).stop j.config) (i.carriedOut.eval h j.notifies g)
          x := by
  have hindex : (m.setIndex index).Consistent j.config.staticAlloc := hm.congr rfl rfl rfl
  have hmakes := makes_of_lead? hfar hlead
  have hperforms : j.Performs h i.carriedOut (m.setIndex index) lead n :=
    performs_of_makes hj hi hindex hmakes
  have hsite : start + codeSize lead ≤ ({ inst := i, start, lead } : Piece).stop j.config :=
    Piece.site_le_stop j.config { inst := i, start, lead }
  refine ⟨hperforms.consistent, hperforms.run frame g c start _ ?_ hheld hsite fun hdest => ?_⟩
  · exact hsim.congr_map (fun _ => rfl) fun _ => id
  · rw [Inst.exitDest?_carriedOut] at hdest
    rw [Piece.stop, hdest]
    rfl

/-- What happens behind the first piece, seen from in front of it. -/
theorem Ran.cons {i : Inst} {is : List Inst} {p : Piece} {ps : List Piece}
    {start : Nat} {g g₁ : Guest σ} {x y : Cpu × σ} {outcome : Guest σ × Option Leave}
    (hstay : i.eval h j.notifies g = (g₁, none))
    (hthrough : j.Through h p.start (p.stop j.config) x y)
    (hran : j.Ran h frame is ps (p.stop j.config) g₁ y outcome) :
    j.Ran h frame (i :: is) (p :: ps) start g x outcome := by
  cases hran with
  | @leaves index q g' leave y' hleaves =>
    obtain ⟨g₂, hbefore, hleave⟩ := hleaves.leaves
    obtain ⟨z, hto, hip, hfrom⟩ := hleaves.passes
    have hbefore' : Inst.evalList h j.notifies ((i :: is).take (index + 1)) g = (g₂, none) := by
      rw [List.take_succ_cons, Inst.evalList, hstay]
      exact hbefore
    have hleaves' : j.LeavesBy h frame (i :: is) (p :: ps) g x (index + 1) q g' leave y' := by
      refine ⟨hleaves.piece, hleaves.inst, ⟨g₂, hbefore', hleave⟩,
        ⟨z, hthrough.reach.trans hto, hip, hfrom⟩, fun lo hi hbounds => ?_, hleaves.state,
        hleaves.synced, hleaves.left⟩
      have hfirst := hbounds p List.mem_cons_self
      exact (hthrough.mono hfirst.1 hfirst.2).trans
        (hleaves.through lo hi fun r hr => hbounds r (List.mem_cons_of_mem p hr))
    exact .leaves hleaves'
  | ends hends =>
    exact .ends ⟨hthrough.reach.trans hends.reach, hends.ip, hends.state, hends.consistent,
      hends.sim⟩

/-- The pieces of instructions do what the carried out instructions say. -/
theorem ran_pieces (hj : j.Separated) (hi : j.Installed)
    (hfar : ∀ a ∈ j.stubs.targets, codeBase ≤ a) {is : List Inst} {index start : Nat} {m : RegMap}
    (hm : m.Consistent j.config.staticAlloc) {ps : List Piece}
    (hps : pieces j.lowerEnv index m start is = some ps) (hheld : j.LeadsHeld ps) {g : Guest σ}
    {c : Cpu} (hsim : Sim j.config.staticAlloc frame m none g c) :
    j.Ran h frame (is.map Inst.carriedOut) ps start g (c.goTo (addressOf start), g.state)
      (Inst.evalList h j.notifies (is.map Inst.carriedOut) g) := by
  induction is generalizing index start m ps g c with
  | nil =>
    cases hps
    exact .ends ⟨.refl, rfl, rfl, hm, hsim.goTo _⟩
  | cons i is ih =>
    obtain ⟨lead, n, rest, hlead, hrest, rfl⟩ := pieces_cons_eq_some.mp hps
    have hfront : j.code.Holds start (({ inst := i, start, lead } : Piece).code j.config) :=
      hheld { inst := i, start, lead } List.mem_cons_self
    obtain ⟨hn, x, hthrough, hstate, harrived⟩ := through_piece (h := h) hj hi hfar hm hlead
      hfront hsim
    rw [List.map_cons, Inst.evalList]
    cases heval : i.carriedOut.eval h j.notifies g with
    | mk g₁ leave =>
      rw [heval] at harrived hstate
      cases leave with
      | some leave =>
        obtain ⟨hsync, hleft⟩ := harrived
        have hstands := Inst.carriedOut_of_leaves heval
        rw [hstands] at heval hleft ⊢
        have hleaves : j.LeavesBy h frame (i :: is.map Inst.carriedOut)
            ({ inst := i, start, lead } :: rest) g (c.goTo (addressOf start), g.state) 0
            { inst := i, start, lead } g₁ leave x :=
          ⟨rfl, rfl, ⟨g, rfl, heval⟩, ⟨_, .refl, rfl, hthrough.reach⟩, fun lo hi hbounds =>
            have hfirst := hbounds _ List.mem_cons_self
            hthrough.mono hfirst.1 hfirst.2, hstate, hsync, hleft⟩
        exact .leaves hleaves
      | none =>
        -- the next piece starts where this one stops, with the registers as this one left them
        obtain ⟨hip, hsim'⟩ := harrived
        have hrun := ih hn hrest (fun p hp => hheld p (List.mem_cons_of_mem _ hp)) hsim'
        have hx : (x.1.goTo (addressOf (({ inst := i, start, lead } : Piece).stop j.config)),
            g₁.state) = x := by
          rw [← hip, ← hstate]
          rfl
        exact .cons heval hthrough (hx ▸ hrun)

/-- The code of a block, entered with the guest in memory, does what the carried out block says. -/
theorem ran_carriedOut (hj : j.Separated) (hi : j.Installed)
    (hfar : ∀ a ∈ j.stubs.targets, codeBase ≤ a) {b : Block} {target : Nat} {ps : List Piece}
    (hps : blockPieces j.lowerEnv b target = some ps) (hheld : j.LeadsHeld ps) {g : Guest σ}
    {c : Cpu} (hsync : Synced j.config.staticAlloc frame g c) :
    j.Ran h frame b.carriedOut.insts ps target g (c.goTo (addressOf target), g.state)
      (b.carriedOut.eval h j.notifies g) := by
  have hm := RegMap.consistent_start (RegMap.create j.config.staticAlloc) b.insts rfl
  exact ran_pieces hj hi hfar hm hps hheld (hsync.sim (RegMap.mapped?_start _ b.insts))

/-- With register slots below 32, it does what the block says. -/
theorem ran_block (hj : j.Separated) (hi : j.Installed)
    (hfar : ∀ a ∈ j.stubs.targets, codeBase ≤ a) {b : Block}
    (hslots : ∀ i ∈ b.insts, ∀ r ∈ i.gprOperands, r < 32) {target : Nat} {ps : List Piece}
    (hps : blockPieces j.lowerEnv b target = some ps) (hheld : j.LeadsHeld ps) {g : Guest σ}
    {c : Cpu} (hsync : Synced j.config.staticAlloc frame g c) :
    j.Ran h frame b.insts ps target g (c.goTo (addressOf target), g.state)
      (b.eval h j.notifies g) := by
  have hran := ran_carriedOut (h := h) hj hi hfar hps hheld hsync
  rw [Block.carriedOut_of_slots hslots] at hran
  exact hran

/-! ## Leaving by an exit site -/

/-- The machine behind the jump of an exit: at a checked entry, or at the dispatcher with the guest
address in the scratch register. -/
def afterJump (j : Jit) (pc : UInt32) (c : Cpu) : Option UInt64 → Cpu
  | some a => c.goTo a
  | none => (c.setReg32 Gpr.scratch pc).goTo j.stubs.dispatcherPc

theorem reach_exitJump (hj : j.Separated) {offset : Nat} {pc : UInt32} {target : Option UInt64}
    {rest : List Insn} (hheld : j.code.Holds offset (exitJump j.stubs pc target ++ rest)) (c : Cpu)
    (s : σ) :
    j.Reach h (c.goTo (addressOf offset), s) (j.afterJump pc c target, s) := by
  cases target with
  | some a => exact .single (step_of_holds hj h hheld rfl s)
  | none =>
    have hmov : j.Step h (c.goTo (addressOf offset), s)
        ((c.setReg32 Gpr.scratch pc).goTo
          (addressOf (offset + (Insn.mov32i Gpr.scratch pc).size)), s) :=
      step_of_holds hj h hheld rfl s
    exact (Relation.ReflTransGen.single hmov).tail (step_of_holds hj h hheld.tail rfl s)

end Jit

/-! ## Handlers that record their calls -/

/-- What a handler is asked to do. -/
inductive Request where
  | generic (packed : UInt64)
  | interpret (opcode : UInt32)
  | notify (opcode : UInt32)
  | advance
  | resolve
  | noBlockExits
  deriving DecidableEq, Repr

/-- A call of a handler: what it was asked to do, and the guest context that it found. -/
structure Call where
  request : Request
  context : Context
  deriving DecidableEq, Repr

/-- A handler that records its calls behind those before. -/
def Handler.recorded (f : Handler σ) (request : Request) : Handler (σ × List Call) :=
  fun mxcsr context s =>
    let reply := f mxcsr context s.1
    { context := reply.context
      state := (reply.state, s.2 ++ [{ request, context }])
      answer := reply.answer
      residue := reply.residue }

/-- Handlers that record their calls. -/
def Handlers.recorded (h : Handlers σ) : Handlers (σ × List Call) where
  generic packed := Handler.recorded (h.generic packed) (.generic packed)
  interpret opcode := Handler.recorded (h.interpret opcode) (.interpret opcode)
  notify opcode := Handler.recorded (h.notify opcode) (.notify opcode)
  advance := Handler.recorded h.advance .advance
  resolve := Handler.recorded h.resolve .resolve
  noBlockExits := Handler.recorded h.noBlockExits .noBlockExits

/-! ## Blocks -/

namespace Jit

/-- Where the machine goes when an instruction leaves its block, if `linked` gives the checked
entries that exits to known addresses jump to. -/
inductive Departs (j : Jit) (linked : UInt32 → Option UInt64) (i : Inst) (c : Cpu) : Leave → Prop
  | linked {pc : UInt32} {a : UInt64} (hdest : i.exitDest? = some pc) (hlinked : linked pc = some a)
    (hip : c.ip = a) : Departs j linked i c (.toAddress pc)
  | dispatcher {pc : UInt32} (hlinked : i.exitDest?.bind linked = none)
    (hip : c.ip = j.stubs.dispatcherPc) (hpc : c.reg32 Gpr.scratch = pc) :
    Departs j linked i c (.toAddress pc)
  | toPc (hip : c.ip = j.stubs.checkCoreState) : Departs j linked i c .toPc

/-- From `x`, the machine carries out a block up to the instruction at position `index`, comes to
the piece of that instruction and by it leaves the block, and so does the guest. -/
structure CarriesOut (j : Jit) (linked : UInt32 → Option UInt64) (h : Handlers σ) (b : Block)
    (ps : List Piece) (g : Guest σ) (x : Cpu × σ) (index : Nat) (p : Piece) (g' : Guest σ)
    (leave : Leave) (y : Cpu × σ) : Prop where
  piece : ps[index]? = some p
  inst : b.insts[index]? = some p.inst
  /-- The guest leaves by this instruction. -/
  leaves : ∃ g₁, Inst.evalList h j.notifies (b.insts.take index) g = (g₁, none) ∧
    p.inst.eval h j.notifies g₁ = (g', some leave)
  /-- The machine passes the start of its piece. -/
  passes : ∃ z, j.Reach h x z ∧ z.1.ip = addressOf p.start ∧ j.Reach h z y
  /-- The guest is in memory. -/
  guest : y.1.guest j.config.staticAlloc y.2 = g'
  departs : j.Departs linked p.inst y.1 leave

/-- Where an exit to a known address jumps in code that is compiled now. -/
def exitTarget (j : Jit) (pc : UInt32) : Option UInt64 :=
  if j.config.blockLink then j.linkTarget pc else none

variable {j k : Jit} {h : Handlers σ} {frame : Cpu}

theorem holds_siteCode {c : CodeCache} {offset : Nat} {pc : UInt32}
    (hheld : c.Holds offset (siteCode j.lowerEnv pc)) :
    ∃ rest, c.Holds offset (exitJump j.stubs pc (j.exitTarget pc) ++ rest) := by
  have hsite : siteCode j.lowerEnv pc =
      if j.config.blockLink then linkCode j.stubs pc (j.linkTarget pc)
      else exitJump j.stubs pc none := rfl
  rw [hsite] at hheld
  rw [exitTarget]
  split at hheld
  · exact ⟨_, by rw [if_pos ‹_›]; exact hheld⟩
  · exact ⟨[], by rw [if_neg ‹_›, List.append_nil]; exact hheld⟩

/-- An instruction that has left goes where its exit site says. -/
theorem departs_of_left (hk : k.Separated) (hstubs : k.stubs = j.stubs) {p : Piece}
    (hsite : ∀ pc, p.inst.exitDest? = some pc → k.code.Holds p.site (siteCode j.lowerEnv pc))
    {g : Guest σ} {c : Cpu} {leave : Leave} (hsync : Synced k.config.staticAlloc frame g c)
    (hleft : k.Left p.inst p.site c leave) (s : σ) :
    ∃ d, k.Reach h (c, s) (d, s) ∧ Synced k.config.staticAlloc frame g d ∧
      k.Departs j.exitTarget p.inst d leave := by
  cases hleft with
  | @site pc hdest hip =>
    obtain ⟨rest, hheld⟩ := holds_siteCode (hsite pc hdest)
    rw [← hstubs] at hheld
    have hgoes : c.goTo (addressOf p.site) = c := by
      rw [← hip]
      rfl
    have hreach := reach_exitJump (h := h) hk hheld c s
    rw [hgoes] at hreach
    refine ⟨_, hreach, ?_, ?_⟩
    · cases j.exitTarget pc with
      | some a => exact hsync.goTo a
      | none => exact (hsync.setScratch pc).goTo _
    · cases htarget : j.exitTarget pc with
      | some a => exact .linked hdest htarget rfl
      | none =>
        refine .dispatcher (by rw [hdest]; exact htarget) rfl ?_
        rw [afterJump, Cpu.reg32_goTo, Cpu.reg32_setReg32_self]
  | dispatcher hdest hip hpc =>
    exact ⟨c, .refl, hsync, .dispatcher (by rw [hdest]; rfl) hip hpc⟩
  | toPc hip => exact ⟨c, .refl, hsync, .toPc hip⟩

/-- Block translation is correct.  Compiling a block from any state that is ready, with any
settings, cursor and links, and with handlers outside the code region, leaves code that does what
the block says: entered at the block's target with the context register set, whatever is in the
other registers,

* if the guest leaves the block, the machine comes to the code of the very instruction by which the
  guest leaves, and leaves with exactly the guest's registers, program counter and downcount in
  memory (the downcount in its register, if it is kept in one), to the dispatcher with the address
  in the scratch register or, from an exit to a known address, to the checked entry that it is
  linked to;
* if the guest runs past the end of the block, so does the machine.

The handlers record their calls, and the records are part of the states that are equal: they are
called in the same order, for the same requests, and find the same guest in memory. -/
theorem compileBlock_translates (hj : j.Ready) (hseparate : j.table.Separate j.code.size) {num : Nat}
    {preload : Bool} (hcompile : compileBlock num preload j = .ok ⟨⟩ k) :
    ∃ entry n ps, j.blocks.get? num = some entry ∧ k.links.native? num = some n ∧
      blockPieces k.lowerEnv entry.block n.target = some ps ∧
      ((∀ i ∈ entry.block.insts, ∀ r ∈ i.gprOperands, r < 32) →
        ∀ (h : Handlers σ) (s : σ × List Call) (c : Cpu), c.reg Gpr.context = contextBase →
          (∀ g' leave,
            entry.block.eval h.recorded k.notifies (c.guest k.config.staticAlloc s) =
              (g', some leave) →
            ∃ index p y, k.CarriesOut j.exitTarget h.recorded entry.block ps
              (c.guest k.config.staticAlloc s) (c.goTo (addressOf n.target), s) index p g' leave y) ∧
          ∀ g', entry.block.eval h.recorded k.notifies (c.guest k.config.staticAlloc s) = (g', none) →
            ∃ m y, k.EndsAt h.recorded c (endOf k.config n.target ps)
              (c.goTo (addressOf n.target), s) g' m y) := by
  obtain ⟨entry, n, ps, hentry, hc⟩ := compileBlock_spec hj.reaches hj.high hj.size_le hj.draft
    hcompile
  have hk : k.Separated :=
    ⟨by rw [hc.code.size]; exact hj.size_le, by rw [hc.code.size, hc.table]; exact hseparate⟩
  have hroutines : j.routinesLen ≤ j.code.cursor := Nat.le_trans hj.routines hj.low
  have hi : k.Installed := hj.installed.grows hroutines hc.config hc.table hc.stubs hc.code
  have hfar : ∀ a ∈ k.stubs.targets, codeBase ≤ a := by
    rw [hc.stubs]
    exact hj.reaches.stubs
  -- the state behind the compiler says where the code is, and lowering once more finds the same
  have hnative : k.links.native? num = some n := by
    rw [hc.links, Links.native?_foldl_addExit, Links.native?_setNative, if_pos rfl]
  have hps : blockPieces k.lowerEnv entry.block n.target = some ps := by
    rw [lowerEnv_eq hc.config hc.table hc.stubs, blockPieces, pieces_linked]
    exact hc.written.pieces
  have hleads : k.LeadsHeld ps := by
    intro p hp
    rw [hc.config]
    exact (hc.written.held p hp).lead
  refine ⟨entry, n, ps, hentry, hnative, hps, fun hslots h s c hbase => ?_⟩
  have hsync := Cpu.synced_guest k.config.staticAlloc hbase s
  have hran := ran_block (h := h.recorded) hk hi hfar hslots hps hleads hsync
  refine ⟨fun g' leave heval => ?_, fun g' heval => ?_⟩
  · rw [heval] at hran
    cases hran with
    | @leaves index p _ _ y hleaves =>
      -- the run of the pieces leaves at a site, and the code there takes it where the links say
      obtain ⟨z, hto, hip, hfrom⟩ := hleaves.passes
      have hp : p ∈ ps := List.mem_of_getElem? hleaves.piece
      obtain ⟨d, hreach, hsync', hdeparts⟩ := departs_of_left (h := h.recorded) hk hc.stubs
        (hc.written.held p hp).site hleaves.synced hleaves.left y.2
      refine ⟨index, p, (d, y.2), hleaves.piece, hleaves.inst, hleaves.leaves,
        ⟨z, hto, hip, hfrom.trans hreach⟩, ?_, hdeparts⟩
      rw [hleaves.state]
      exact hsync'.guest_eq
  · rw [heval] at hran
    cases hran with
    | @ends _ m y hends => exact ⟨m, y, hends⟩

/-- A block that adds two constants and leaves for a known address. -/
def sumBlock : Block where
  start := 0x1000
  insts :=
    [{ op := .setConst, dest := 1, constant := 2 },
     { op := .addConst, dest := 2, src1 := 1, constant := 3 },
     { op := .exitToConst, constant := 0x2000 }]

/-- A compiled block that leaves its sum in memory and goes to the dispatcher. -/
theorem compileBlock_translates_sumBlock :
    ∃ (j k : Jit) (c : Cpu), j.Ready ∧ j.table.Separate j.code.size ∧
      compileBlock 0 false j = .ok ⟨⟩ k ∧ c.reg Gpr.context = contextBase ∧
      ∃ (n : Native) (y : Cpu × (Unit × List Call)), k.links.native? 0 = some n ∧
        k.Reach (Handlers.default fun _ s => s).recorded
          (c.goTo (addressOf n.target), ((), [])) y ∧
        (y.1.guest k.config.staticAlloc y.2).reg 2 = 5 ∧ y.2.2 = [] := by
  have hruns : succeeds (create {} .default {}) (fun j _ =>
      succeeds (compileBlock 0 false { j with blocks := (Blocks.empty.add sumBlock).2 })
        fun _ _ => true) = true := by
    decide +kernel
  obtain ⟨j, host, hcreate, hruns'⟩ := exists_of_succeeds hruns
  obtain ⟨_, k, hcompile, -⟩ := exists_of_succeeds hruns'
  have hcreated := create_spec hcreate
  have hj := hcreated.ready.setBlocks (Blocks.empty.add sumBlock).2
  have hseparate : j.table.Separate j.code.size := by
    rw [hcreated.sameTable]
    exact HandlerTable.separate_default hcreated.size_le
  obtain ⟨entry, n, ps, hentry, hnative, -, hrun⟩ :=
    compileBlock_translates hj hseparate hcompile
  obtain rfl : { block := sumBlock } = entry := Option.some.inj hentry
  let c : Cpu := ({ ip := 0, context := {} } : Cpu).setReg Gpr.context contextBase
  have hc : c.reg Gpr.context = contextBase := by decide
  obtain ⟨hleaves, -⟩ := hrun (by decide +kernel) (Handlers.default fun _ s => s) ((), []) c hc
  obtain ⟨index, p, y, hcarried⟩ := hleaves _ _ rfl
  obtain ⟨z, hto, -, hfrom⟩ := hcarried.passes
  refine ⟨_, k, c, hj, hseparate, hcompile, hc, n, y, hnative, hto.trans hfrom, ?_, ?_⟩
  · rw [hcarried.guest]
    cases k.config.staticAlloc <;> rfl
  · exact congrArg (fun g => g.state.2) hcarried.guest

end Jit

end Dynarec
