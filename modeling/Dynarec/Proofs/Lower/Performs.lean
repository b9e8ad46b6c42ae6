import Dynarec.Proofs.Lower.Calling
import Dynarec.Proofs.Lower.Pieces

/-!
# What the piece of an instruction does

From a machine in step with the guest, the lead of an instruction runs up to where the instruction
sends it: to the end of the piece, with machine and guest in step, or out of the block, with the
whole guest in memory (`Jit.Arrived`).  An exit to a known address leaves at its exit site; what is
there is a question of links, not of the instruction.

There is one lemma per kind of instruction (`does_straight`, `does_generic`, `does_interpret`, ...),
and `performs_of_makes` puts them together.
-/

namespace Dynarec

open Lower Dynarec.Action CodeCache

variable {σ : Type}

/-- Whether the notify handler is told of interpreted opcodes. -/
def Jit.notifies (j : Jit) : Bool :=
  j.config.diagnostics && j.table.notify.isSome

/-- What is carried out exits to the same address. -/
theorem Inst.exitDest?_carriedOut (i : Inst) : i.carriedOut.exitDest? = i.exitDest? := by
  rw [exitDest?, op_carriedOut, constant_carriedOut]
  rfl

/-- Exits to known addresses are carried out as they stand. -/
theorem Inst.carriedOut_of_exitDest? {i : Inst} {pc : UInt32} (h : i.exitDest? = some pc) :
    i.carriedOut = i := by
  refine carriedOut_of_not_binary ?_
  rw [exitDest?] at h
  cases hop : i.op <;> rw [hop] at h <;> first | rfl | cases h

/-- Where the machine stands when an instruction has left its block. -/
inductive Jit.Left (j : Jit) (i : Inst) (site : Nat) (c : Cpu) : Leave → Prop
  | site {pc : UInt32} (hdest : i.exitDest? = some pc) (hip : c.ip = addressOf site) :
    Left j i site c (.toAddress pc)
  | dispatcher {pc : UInt32} (hdest : i.exitDest? = none) (hip : c.ip = j.stubs.dispatcherPc)
    (hpc : c.reg32 Gpr.scratch = pc) : Left j i site c (.toAddress pc)
  | toPc (hip : c.ip = j.stubs.checkCoreState) : Left j i site c .toPc

/-- The machine has carried out an instruction, whose exit site is at `site` and whose piece ends at
`stop`: it goes on there, or has left the block. -/
def Jit.Arrived (j : Jit) (frame : Cpu) (i : Inst) (n : RegMap) (site stop : Nat)
    (outcome : Guest σ × Option Leave) (x : Cpu × σ) : Prop :=
  x.2 = outcome.1.state ∧
    match outcome.2 with
    | none => x.1.ip = addressOf stop ∧ Sim j.config.staticAlloc frame n none outcome.1 x.1
    | some leave => Synced j.config.staticAlloc frame outcome.1 x.1 ∧ j.Left i site x.1 leave

/-- A lead does what its instruction says. -/
structure Jit.Performs (j : Jit) (h : Handlers σ) (i : Inst) (m : RegMap) (lead : List Insn)
    (n : RegMap) : Prop where
  consistent : n.Consistent j.config.staticAlloc
  run : ∀ frame g c start stop, Sim j.config.staticAlloc frame m none g c →
    j.code.Holds start (lead.map (Insn.mapTarget (skipTo stop))) → start + codeSize lead ≤ stop →
    (i.exitDest? = none → stop = start + codeSize lead) →
    ∃ x, j.Through h start stop (c.goTo (addressOf start), g.state) x ∧
      j.Arrived frame i n (start + codeSize lead) stop (i.eval h j.notifies g) x

/-- Code without an exit site does what its instruction says. -/
structure Jit.Does (j : Jit) (h : Handlers σ) (i : Inst) (m : RegMap) (code : List Insn)
    (n : RegMap) : Prop where
  consistent : n.Consistent j.config.staticAlloc
  run : ∀ frame g c start, Sim j.config.staticAlloc frame m none g c → j.code.Holds start code →
    ∃ x, j.Through h start (start + codeSize code) (c.goTo (addressOf start), g.state) x ∧
      j.Arrived frame i n (start + codeSize code) (start + codeSize code) (i.eval h j.notifies g) x

/-- Machine and guest stay in step wherever the machine goes. -/
theorem Sim.goTo {staticAlloc : Bool} {frame : Cpu} {m : RegMap} {hole : Option GuestReg}
    {g : Guest σ} {c : Cpu} (h : Sim staticAlloc frame m hole g c) (a : UInt64) :
    Sim staticAlloc frame m hole g (c.goTo a) :=
  ⟨h.base, h.held, h.clean, h.home, h.downcount, h.rest, h.mxcsr, h.stack.pointer, h.stack.words⟩

/-- The guest stays in memory wherever the machine goes. -/
theorem Synced.goTo {staticAlloc : Bool} {frame : Cpu} {g : Guest σ} {c : Cpu}
    (h : Synced staticAlloc frame g c) (a : UInt64) : Synced staticAlloc frame g (c.goTo a) :=
  ⟨h.base, h.context, h.downcount, h.mxcsr, h.stack.pointer, h.stack.words⟩

section

variable {j : Jit} {h : Handlers σ} {i : Inst} {m n : RegMap} {code : List Insn}

/-- Plain code has no targets to move. -/
theorem map_mapTarget_of_plain (hcode : ∀ k ∈ code, k.isPlain) (f : UInt64 → UInt64) :
    code.map (Insn.mapTarget f) = code := by
  calc code.map (Insn.mapTarget f) = code.map fun k => k :=
      List.map_congr_left fun k hk => Insn.mapTarget_of_isPlain (hcode k hk) f
    _ = code := List.map_id' code

namespace Jit

/-! ## From runs to instructions -/

/-- Where the site is does not matter to an instruction that has none. -/
theorem Left.of_none {site : Nat} {c : Cpu} {leave : Leave} (hleft : j.Left i site c leave)
    (hdest : i.exitDest? = none) (site' : Nat) : j.Left i site' c leave := by
  cases hleft with
  | site hsome hip =>
    rw [hdest] at hsome
    cases hsome
  | dispatcher _ hip hpc => exact .dispatcher hdest hip hpc
  | toPc hip => exact .toPc hip

/-- An instruction that never leaves. -/
theorem does_of_runs (hn : n.Consistent j.config.staticAlloc)
    (hstay : ∀ g, (i.eval h j.notifies g).2 = none)
    (hrun : ∀ frame g c, Sim j.config.staticAlloc frame m none g c →
      j.Runs h code c g.state fun d t => t = (i.eval h j.notifies g).1.state ∧
        Sim j.config.staticAlloc frame n none (i.eval h j.notifies g).1 d) :
    j.Does h i m code n := by
  refine ⟨hn, fun frame g c start hsim hheld => ?_⟩
  obtain ⟨d, t, hthrough, rfl, hsim'⟩ := hrun frame g c hsim start hheld
  refine ⟨_, hthrough, rfl, ?_⟩
  rw [hstay]
  exact ⟨rfl, hsim'.goTo _⟩

/-- An instruction that never leaves and sends everything back. -/
theorem does_of_synced {k : RegMap} (hk : k.Consistent j.config.staticAlloc)
    (hstay : ∀ g, (i.eval h j.notifies g).2 = none)
    (hrun : ∀ frame g c, Sim j.config.staticAlloc frame m none g c →
      j.Runs h code c g.state fun d t => t = (i.eval h j.notifies g).1.state ∧
        Synced j.config.staticAlloc frame (i.eval h j.notifies g).1 d) :
    j.Does h i m code k.flushAll.1 := by
  refine does_of_runs hk.flushAll hstay fun frame g c hsim => (hrun frame g c hsim).mono ?_
  rintro d t ⟨ht, hsync⟩
  exact ⟨ht, hsync.sim (RegMap.mapped?_flushAll hk)⟩

/-- Sending all registers back leaves the whole guest in memory. -/
theorem runs_flushAll (hj : j.Separated) {frame : Cpu} {g : Guest σ} {c : Cpu}
    (hsim : Sim j.config.staticAlloc frame m none g c) (hm : m.Consistent j.config.staticAlloc)
    (s : σ) :
    j.Runs h m.flushAll.2 c s fun d t => t = s ∧ d.regs = c.regs ∧
      Synced j.config.staticAlloc frame g d := by
  obtain ⟨gpr, hexec, hsync⟩ := hsim.flushAll hm
  exact .plain hj m.plain_flushAll hexec ⟨rfl, rfl, hsync⟩

/-- Sending everything back behind the code of an instruction. -/
theorem Does.flush (hj : j.Separated) (hdest : i.exitDest? = none) (hdoes : j.Does h i m code n) :
    j.Does h i m (code ++ n.flushAll.2) n.flushAll.1 := by
  refine ⟨hdoes.consistent.flushAll, fun frame g c start hsim hheld => ?_⟩
  obtain ⟨⟨d, t⟩, hcode, ht, harrived⟩ := hdoes.run frame g c start hsim hheld.left
  have hstop : start + codeSize (code ++ n.flushAll.2) =
      start + codeSize code + codeSize n.flushAll.2 := by
    rw [Insn.codeSize_append, Nat.add_assoc]
  cases hleave : (i.eval h j.notifies g).2 with
  | some leave =>
    -- an instruction that leaves does not come to the stores
    rw [hleave] at harrived
    obtain ⟨hsync, hleft⟩ := harrived
    refine ⟨_, hcode.mono (Nat.le_refl _) (by omega), ht, ?_⟩
    rw [hleave]
    exact ⟨hsync, hleft.of_none hdest _⟩
  | none =>
    rw [hleave] at harrived
    obtain ⟨hip, hsim'⟩ := harrived
    obtain ⟨e, u, hflush, rfl, -, hsync⟩ :=
      runs_flushAll hj hsim' hdoes.consistent t _ hheld.right
    have hgoes : d.goTo (addressOf (start + codeSize code)) = d := by
      rw [← hip, Cpu.goTo_ip]
    rw [hgoes] at hflush
    rw [hstop]
    refine ⟨_, hcode.append hflush (Nat.le_add_right _ _) (Nat.le_add_right _ _), ht, ?_⟩
    rw [hleave]
    refine ⟨rfl, ?_⟩
    exact (hsync.goTo _).sim (RegMap.mapped?_flushAll hdoes.consistent)

/-! ## Instructions that stay in the block -/

/-- Straight instructions do not touch the state of the handlers. -/
theorem state_eval_of_isStraight (hop : i.op.isStraight) (notifies : Bool) (g : Guest σ) :
    (i.eval h notifies g).1.state = g.state := by
  rw [Inst.eval]
  split <;> rename_i hi <;> try (rw [hi] at hop; cases hop)
  all_goals first | rfl | (split <;> rfl)

/-- A straight instruction does what its code carries out. -/
theorem does_straight (hj : j.Separated) (hop : i.op.isStraight) {env : LowerEnv}
    (henv : env.config = j.config) {d : Draft}
    (hstraight : Straight env h j.notifies i d (d.put code n)) :
    j.Does h i d.regs code n := by
  obtain ⟨is, k, heq, hcarries, hstay⟩ := hstraight
  obtain ⟨rfl, rfl⟩ := Draft.put_inj heq
  rw [henv] at hcarries
  refine does_of_runs hcarries.consistent hstay fun frame g c hsim => ?_
  obtain ⟨e, hexec, hsim'⟩ := hcarries.run frame g c hsim
  exact .plain hj hcarries.plain hexec ⟨(state_eval_of_isStraight hop _ g).symm, hsim'⟩

/-- The call of the routine restores the rounding mode of the host. -/
theorem does_restoreRounding (hj : j.Separated) (hi : j.Installed)
    (hm : m.Consistent j.config.staticAlloc) (hop : i.op = .restoreRoundingMode) :
    j.Does h i m [.call j.stubs.restoreRounding] m := by
  have heval : ∀ g, i.eval h j.notifies g = (g.restoreRounding, none) := fun g => by
    rw [Inst.eval, hop]
  refine does_of_runs hm (fun g => by rw [heval]) fun frame g c hsim => ?_
  rw [heval]
  exact runs_restoreRounding hj hi hsim hm g.state

/-- The call of the routine applies the rounding mode of the guest. -/
theorem does_applyRounding (hj : j.Separated) (hi : j.Installed)
    (hm : m.Consistent j.config.staticAlloc) (hop : i.op = .applyRoundingMode) :
    j.Does h i m [.call j.stubs.applyRounding] m := by
  have heval : ∀ g, i.eval h j.notifies g = (g.applyRounding, none) := fun g => by
    rw [Inst.eval, hop]
  refine does_of_runs hm (fun g => by rw [heval]) fun frame g c hsim => ?_
  rw [heval]
  refine (runs_applyRounding hj hi hsim hm g.state).mono fun d t hq => ⟨hq.1.trans ?_, hq.2⟩
  rw [Guest.applyRounding]
  dsimp only
  split <;> rfl

/-- The code that tells the notify handler of an opcode, if it is to be told. -/
def notifyCode (j : Jit) (opcode : UInt32) : List Insn :=
  match j.config.diagnostics, j.table.notify with
  | true, some notify => handlerCall (.mov32i Gpr.arg2 opcode) notify
  | _, _ => []

/-- The code for an instruction that is interpreted. -/
theorem interpret_apply (j : Jit) (i : Inst) (d : Draft) :
    interpret j.lowerEnv i d = .ok ⟨⟩
      (d.put (d.regs.flushAll.2 ++ (callCode j.stubs.saveStatic ++ (j.notifyCode i.constant ++
        (handlerCall (.mov32i Gpr.arg2 i.constant) (j.table.interpret i.constant) ++
          callCode j.stubs.loadStatic)))) d.regs.flushAll.1) := by
  rw [interpret, bind_of_ok (Emit.flushAll_apply d), bind_of_ok (Emit.callIf_apply _ _), notifyCode]
  dsimp only [lowerEnv]
  cases hdiagnostics : j.config.diagnostics <;> cases hnotify : j.table.notify <;> dsimp only
  case true.some notify =>
    rw [bind_of_ok (Emit.insns_apply _ _), bind_of_ok (Emit.insns_apply _ _), Emit.callIf_apply]
    simp
  all_goals
    rw [bind_of_ok (Emit.insns_apply _ _), Emit.callIf_apply]
    simp

/-- Handlers that take an opcode are called with it. -/
theorem runs_opcodeHandler (hj : j.Separated) {frame : Cpu} {g : Guest σ} {c : Cpu}
    {opcode : UInt32} {a : UInt64} {f : Handler σ} (ha : a ≠ returnAddress)
    (hfind : h.find? j.table a opcode.toUInt64 = some f) (hsaved : Saved frame g c) :
    j.Runs h (handlerCall (.mov32i Gpr.arg2 opcode) a) c g.state fun d t =>
      t = (g.call f).2.state ∧ Saved frame (g.call f).2 d :=
  (runs_handler hj rfl (fun _ => rfl) ha hfind hsaved).mono fun _ _ hq => ⟨hq.1, hq.2.1⟩

/-- The notify handler is called, if there is one to call, with the guest in memory. -/
theorem runs_notifyCode (hj : j.Separated) {frame : Cpu} {g : Guest σ} {c : Cpu}
    (opcode : UInt32) (hsaved : Saved frame g c) :
    j.Runs h (j.notifyCode opcode) c g.state fun d t =>
      t = (if j.notifies then (g.call (h.notify opcode)).2 else g).state ∧
        Saved frame (if j.notifies then (g.call (h.notify opcode)).2 else g) d := by
  rw [notifyCode, notifies]
  split
  · rename_i notify hdiagnostics hnotify
    rw [hdiagnostics, hnotify]
    have hfind := h.find?_notify hj.separate hnotify opcode.toUInt64
    rw [UInt32.toUInt32_toUInt64] at hfind
    refine runs_opcodeHandler hj (hj.separate.free notify ?_).1 hfind hsaved
    simp [HandlerTable.fixed, hnotify]
  · rename_i hnone
    have hnot : (j.config.diagnostics && j.table.notify.isSome) = false := by
      rw [Bool.eq_false_iff]
      intro hboth
      rw [Bool.and_eq_true] at hboth
      obtain ⟨notify, hnotify⟩ := Option.isSome_iff_exists.mp hboth.2
      exact hnone notify hboth.1 hnotify
    rw [hnot]
    exact .nil ⟨rfl, hsaved⟩

/-- An instruction that is interpreted does what its handlers do. -/
theorem does_interpret (hj : j.Separated) (hi : j.Installed)
    (hm : m.Consistent j.config.staticAlloc) (hop : i.op = .interpret) :
    j.Does h i m (m.flushAll.2 ++ (callCode j.stubs.saveStatic ++ (j.notifyCode i.constant ++
      (handlerCall (.mov32i Gpr.arg2 i.constant) (j.table.interpret i.constant) ++
        callCode j.stubs.loadStatic)))) m.flushAll.1 := by
  have heval : ∀ g, i.eval h j.notifies g =
      (Inst.evalInterpret h j.notifies i.constant g, none) := fun g => by rw [Inst.eval, hop]
  refine does_of_synced hm (fun g => by rw [heval]) fun frame g c hsim => ?_
  rw [heval]
  refine (runs_flushAll hj hsim hm g.state).append ?_
  rintro c₁ s₁ ⟨rfl, -, hsync⟩
  refine (runs_save hj hi hsync g.state).append ?_
  rintro c₂ s₂ ⟨rfl, hsaved⟩
  refine (runs_notifyCode hj i.constant hsaved).append ?_
  rintro c₃ s₃ ⟨rfl, hsaved⟩
  have hfind := h.find?_interpret hj.separate i.constant.toUInt64
  rw [UInt32.toUInt32_toUInt64] at hfind
  refine (runs_opcodeHandler hj (hj.separate.interpreters_free _).1 hfind hsaved).append ?_
  rintro c₄ s₄ ⟨rfl, hsaved⟩
  exact (runs_load hj hi hsaved _).mono fun d t hq => ⟨hq.1, hq.2.1⟩

/-! ## Instructions that may leave the block -/

/-- A test and a branch on it. -/
theorem through_branch (hj : j.Separated) {start stop : Nat} {k : Insn} {cond : Cond} {a : UInt64}
    (hheld : j.code.Holds start [k, .jcc cond a])
    (hstop : start + codeSize [k, .jcc cond a] ≤ stop) (ha : j.Within (start + 1) (stop + 1) a)
    (hk : k.isPlain) {c : Cpu} {f : Flags} (hexec : c.exec k = .ok { c with flags := f }) (s : σ) :
    j.Through h start stop (c.goTo (addressOf start), s)
      (({ c with flags := f } : Cpu).goTo
        (if f.holds cond then a else addressOf (start + codeSize [k, .jcc cond a])), s) := by
  have hsplit : j.code.Holds start ([k] ++ [.jcc cond a]) := hheld
  have htest := through_of_execList hj h hsplit.left (by simpa using hk)
    (Cpu.execList_cons_of_ok hexec rfl) s
  have hbranch := step_jcc hj h hsplit.right { c with flags := f } s
  have hsize : start + codeSize [k, .jcc cond a] =
      start + codeSize [k] + (Insn.jcc cond a).size := by
    simp [Nat.add_assoc]
  have hpos := (Insn.jcc cond a).size_pos
  rw [hsize] at hstop ⊢
  refine (htest.mono (Nat.le_refl _) (by omega)).tail
    ⟨hbranch, within_addressOf (by omega) (by omega), ?_⟩
  rw [Cpu.ip_goTo]
  split
  · exact ha
  · exact within_addressOf (by omega) (by omega)

/-- A jump behind code that has been run. -/
theorem Through.jmp (hj : j.Separated) {start stop : Nat} {x : Cpu × σ} {d : Cpu} {s : σ}
    {a : UInt64} (hthrough : j.Through h start stop x (d.goTo (addressOf stop), s))
    (hle : start ≤ stop) (hheld : j.code.Holds stop [.jmp a]) (ha : j.Shared a) :
    j.Through h start (stop + codeSize [.jmp a]) x (d.goTo a, s) := by
  have hpos : 0 < codeSize [Insn.jmp a] := by
    rw [Insn.codeSize_cons]
    have hsize := (Insn.jmp a).size_pos
    omega
  exact (hthrough.mono (Nat.le_refl _) (Nat.le_add_right _ _)).tail
    ⟨step_of_holds hj h hheld rfl s, within_addressOf hle (by omega), .inl ha⟩

/-- The code behind the answer of the generic handler. -/
def answerCode (j : Jit) (i : Inst) : List Insn :=
  if i.op.isExit then
    [.test32 Gpr.scratch Gpr.scratch, .jcc .notEqual j.stubs.dispatcherPc] else []

/-- The code for an instruction that the generic handler carries out. -/
theorem generic_apply (j : Jit) (i : Inst) (d : Draft) :
    generic j.lowerEnv i d = .ok ⟨⟩
      (d.put (d.regs.flushAll.2 ++ (callCode j.stubs.saveStatic ++
        (handlerCall (.mov64i Gpr.arg2 i.pack) j.table.generic ++ callCode j.stubs.loadStatic)) ++
          j.answerCode i) d.regs.flushAll.1) := by
  rw [generic, bind_of_ok (Emit.flushAll_apply d), bind_of_ok (Emit.callIf_apply _ _),
    bind_of_ok (Emit.insns_apply _ _), bind_of_ok (Emit.callIf_apply _ _), answerCode]
  dsimp only [lowerEnv]
  split
  · rw [Emit.insns_apply]
    simp
  · simp [EStateM.pure, pure]

/-- The generic handler is called with the guest in memory, and its answer is left in the scratch
register. -/
theorem runs_generic (hj : j.Separated) (hi : j.Installed) (hm : m.Consistent j.config.staticAlloc)
    {frame : Cpu} {g : Guest σ} {c : Cpu} (hsim : Sim j.config.staticAlloc frame m none g c) :
    j.Runs h (m.flushAll.2 ++ (callCode j.stubs.saveStatic ++
      (handlerCall (.mov64i Gpr.arg2 i.pack) j.table.generic ++ callCode j.stubs.loadStatic)))
      c g.state fun d t => t = (g.call (h.generic i.pack)).2.state ∧
        Synced j.config.staticAlloc frame (g.call (h.generic i.pack)).2 d ∧
        d.reg Gpr.scratch = (g.call (h.generic i.pack)).1 := by
  refine (runs_flushAll hj hsim hm g.state).append ?_
  rintro c₁ s₁ ⟨rfl, -, hsync⟩
  refine (runs_save hj hi hsync g.state).append ?_
  rintro c₂ s₂ ⟨rfl, hsaved⟩
  have hfree := (hj.separate.free j.table.generic (by simp [HandlerTable.fixed])).1
  refine (runs_handler hj rfl (fun _ => rfl) hfree (h.find?_generic i.pack) hsaved).append ?_
  rintro c₃ s₃ ⟨rfl, hsaved, hanswer⟩
  refine (runs_load hj hi hsaved _).mono ?_
  rintro c₄ s₄ ⟨rfl, hsync, hscratch⟩
  exact ⟨rfl, hsync, hscratch.trans hanswer⟩

/-- An instruction that the generic handler carries out stays or leaves as the handler answers. -/
theorem does_generic (hj : j.Separated) (hi : j.Installed) (hm : m.Consistent j.config.staticAlloc)
    (hdest : i.exitDest? = none) (heval : ∀ g, i.eval h j.notifies g = Inst.evalGeneric h i g) :
    j.Does h i m (m.flushAll.2 ++ (callCode j.stubs.saveStatic ++
      (handlerCall (.mov64i Gpr.arg2 i.pack) j.table.generic ++ callCode j.stubs.loadStatic)) ++
        j.answerCode i) m.flushAll.1 := by
  refine ⟨hm.flushAll, fun frame g c start hsim hheld => ?_⟩
  obtain ⟨d, t, hcall, rfl, hsync, hscratch⟩ := runs_generic hj hi hm hsim start hheld.left
  have htail := hheld.right
  -- the answer of the handler is in the scratch register, on which the code branches
  have hanswer : (g.call (h.generic i.pack)).1.toUInt32 = d.reg32 Gpr.scratch := by
    rw [← hscratch]
    rfl
  rw [heval, Inst.evalGeneric]
  dsimp only
  rw [hanswer]
  rw [answerCode] at htail ⊢
  cases hexit : i.op.isExit with
  | false =>
    refine ⟨_, hcall.mono (Nat.le_refl _) (by simp), rfl, ?_⟩
    simp only [Bool.false_and]
    exact ⟨by simp, (hsync.goTo _).sim (RegMap.mapped?_flushAll hm)⟩
  | true =>
    rw [hexit, if_pos rfl] at htail
    have hanswered := through_branch (h := h) hj htail (Nat.le_refl _)
      (.inl hi.shared_dispatcherPc) rfl (d.exec_test_self Gpr.scratch)
      (g.call (h.generic i.pack)).2.state
    have hthrough := hcall.append hanswered (Nat.le_add_right _ _) (Nat.le_add_right _ _)
    rw [Nat.add_assoc, ← Insn.codeSize_append] at hthrough
    refine ⟨_, hthrough, rfl, ?_⟩
    have hsync' := hsync.setFlags (.ofBits (d.reg32 Gpr.scratch).toBitVec)
    have hholds : (Flags.ofBits (d.reg32 Gpr.scratch).toBitVec).holds .notEqual =
        decide (d.reg32 Gpr.scratch ≠ 0) := by
      rw [show Cond.notEqual = Cond.equal.invert from rfl, Flags.holds_invert, Flags.equal_ofBits]
      simp
    rw [hholds]
    cases hdecide : decide (d.reg32 Gpr.scratch ≠ 0) with
    | false =>
      simp only [Bool.and_false, Bool.false_eq_true, if_false, if_true]
      refine ⟨?_, (hsync'.goTo _).sim (RegMap.mapped?_flushAll hm)⟩
      rw [Insn.codeSize_append _ [Insn.test32 _ _, _], ← Nat.add_assoc]
      rfl
    | true => exact ⟨hsync'.goTo _, .dispatcher hdest rfl rfl⟩

/-- An exit to a register leaves for the dispatcher, with the address in the scratch register. -/
theorem does_exitToReg (hj : j.Separated) (hi : j.Installed)
    (hm : m.Consistent j.config.staticAlloc) (hop : i.op = .exitToReg) {r : Gpr} {k : RegMap}
    {is : List Insn} (hmap : m.map (RegMap.guestOf i.src1) .read = (.ok r, k, is)) :
    j.Does h i m (is ++ [.mov32 Gpr.scratch r] ++ k.flushAll.2 ++ [.jmp j.stubs.dispatcherPc])
      k.flushAll.1 := by
  have hdest : i.exitDest? = none := by rw [Inst.exitDest?, hop]
  have hk := hm.map hmap
  refine ⟨hk.flushAll, fun frame g c start hsim hheld => ?_⟩
  obtain ⟨c₁, hexec, hsim₁⟩ := hsim.map_reads hm hmap rfl
  have hvalue : c₁.reg32 r = g.reg i.src1 := hsim₁.held _ r (by simp) (RegMap.mapped?_map hmap)
  have hmov : c₁.exec (.mov32 Gpr.scratch r) = .ok (c₁.setReg32 Gpr.scratch (g.reg i.src1)) := by
    rw [← hvalue]
    rfl
  have hread := through_of_execList hj h hheld.left.left
    (plain_append (RegMap.plain_map hmap) (List.all_eq_true.mp rfl))
    (Cpu.execList_append_of_ok hexec (Cpu.execList_cons_of_ok hmov rfl)) g.state
  obtain ⟨d, t, hflush, rfl, hregs, hsync⟩ :=
    runs_flushAll hj (hsim₁.setScratch hk (g.reg i.src1)) hk g.state _ hheld.left.right
  have hfront := hread.append hflush (Nat.le_add_right _ _) (Nat.le_add_right _ _)
  rw [Nat.add_assoc, ← Insn.codeSize_append] at hfront
  have hjump := hfront.jmp hj (Nat.le_add_right _ _) hheld.right hi.shared_dispatcherPc
  rw [Nat.add_assoc, ← Insn.codeSize_append] at hjump
  refine ⟨_, hjump, ?_⟩
  rw [Inst.eval, hop]
  refine ⟨rfl, hsync.goTo _, .dispatcher hdest rfl ?_⟩
  -- the address was put into the scratch register before the stores, which change no register
  have hscratch :
      d.reg32 Gpr.scratch = (c₁.setReg32 Gpr.scratch (g.reg i.src1)).reg32 Gpr.scratch := by
    rw [Cpu.reg32, Cpu.reg32, Cpu.reg, Cpu.reg, hregs]
  exact hscratch.trans (Cpu.reg32_setReg32_self _ _ _)

/-- An exit to the program counter leaves for the check of the core state. -/
theorem does_exitToPc (hj : j.Separated) (hi : j.Installed)
    (hm : m.Consistent j.config.staticAlloc) (hop : i.op = .exitToPc) :
    j.Does h i m (m.flushAll.2 ++ [.jmp j.stubs.checkCoreState]) m.flushAll.1 := by
  refine ⟨hm.flushAll, fun frame g c start hsim hheld => ?_⟩
  obtain ⟨d, t, hflush, rfl, -, hsync⟩ :=
    runs_flushAll (h := h) hj hsim hm g.state start hheld.left
  have hjump := hflush.jmp hj (Nat.le_add_right _ _) hheld.right hi.shared_checkCoreState
  rw [Nat.add_assoc, ← Insn.codeSize_append] at hjump
  refine ⟨_, hjump, ?_⟩
  rw [Inst.eval, hop]
  exact ⟨rfl, hsync.goTo _, .toPc rfl⟩

end Jit

/-! ## Exits to a known address -/

/-- What a conditional exit compares its first source with. -/
def Lower.Against.value (against : Against) (i : Inst) (g : Guest σ) : UInt32 :=
  match against with
  | .src2 => g.reg i.src2
  | .zero => 0

/-- The condition of the branch is the condition of the instruction. -/
theorem holds_taken {against : Against} {taken : Cond}
    (hcond : exitCond? i.op = some (against, taken)) (g : Guest σ) :
    (Flags.ofSub (g.reg i.src1).toBitVec (against.value i g).toBitVec).holds taken =
      i.taken g.context := by
  have hzero : ∀ v : UInt32, (v.toBitVec == 0) = decide (v = 0) := Flags.equal_ofBits
  rw [Inst.taken]
  cases hop : i.op <;> rw [hop] at hcond <;> cases hcond
  case exitIfEq => exact Flags.zero_ofSub _ _
  case exitIfNeq => exact congrArg Bool.not (Flags.zero_ofSub _ _) |>.trans (by simp; rfl)
  all_goals
    rw [Against.value, Flags.ofSub_zero]
    simp only [Flags.holds, Flags.ofBits, Flags.msb_toBitVec, hzero]
    by_cases hw : g.context.reg i.src1 = 0 <;> simp [Guest.reg, hw]

/-- The code of the test of a conditional exit: it maps the sources, and what stands behind it
compares them, also when registers have been sent back in between. -/
structure Tested (staticAlloc : Bool) (m : RegMap) (against : Against) (i : Inst)
    (code : List Insn) (k : RegMap) (compare : Insn) : Prop where
  consistent : k.Consistent staticAlloc
  plain : ∀ i ∈ code, i.isPlain
  compare_plain : compare.isPlain
  run : ∀ {σ : Type} (frame : Cpu) (g : Guest σ) (c : Cpu), Sim staticAlloc frame m none g c →
    ∃ d, Cpu.execList code c = .ok d ∧ Sim staticAlloc frame k none g d ∧
      ∀ e : Cpu, e.regs = d.regs → e.exec compare = .ok { e with
        flags := .ofSub (g.reg i.src1).toBitVec (against.value i g).toBitVec }

/-- The comparison of two registers tests them. -/
theorem tested_src2 {staticAlloc : Bool} (hm : m.Consistent staticAlloc) {left right : Gpr}
    {m₁ k : RegMap} {is js : List Insn}
    (hleft : m.map (RegMap.guestOf i.src1) .read = (.ok left, m₁, is))
    (hright : m₁.map (RegMap.guestOf i.src2) .read = (.ok right, k, js)) :
    Tested staticAlloc m .src2 i (is ++ js) k (.alu32 .cmp left right) := by
  have hs := sources_of_map hm hleft hright
  refine ⟨hs.consistent, hs.plain, rfl, fun frame g c hsim => ?_⟩
  obtain ⟨d, hexec, hsim'⟩ := hs.run frame g c hsim
  refine ⟨d, hexec, hsim', fun e he => ?_⟩
  have hl : e.reg32 left = g.reg i.src1 := by
    rw [Cpu.reg32, Cpu.reg, he]
    exact hsim'.held _ _ (by simp) hs.left_mapped
  have hr : e.reg32 right = g.reg i.src2 := by
    rw [Cpu.reg32, Cpu.reg, he]
    exact hsim'.held _ _ (by simp) hs.right_mapped
  rw [Against.value, ← hl, ← hr]
  rfl

/-- The comparison of a register with zero tests it. -/
theorem tested_zero {staticAlloc : Bool} (hm : m.Consistent staticAlloc) {left : Gpr}
    {k : RegMap} {is : List Insn}
    (hleft : m.map (RegMap.guestOf i.src1) .read = (.ok left, k, is)) :
    Tested staticAlloc m .zero i is k (.alu32i .cmp left 0) := by
  refine ⟨hm.map hleft, RegMap.plain_map hleft, rfl, fun frame g c hsim => ?_⟩
  obtain ⟨d, hexec, hsim'⟩ := hsim.map_reads hm hleft rfl
  refine ⟨d, hexec, hsim', fun e he => ?_⟩
  have hl : e.reg32 left = g.reg i.src1 := by
    rw [Cpu.reg32, Cpu.reg, he]
    exact hsim'.held _ _ (by simp) (RegMap.mapped?_map hleft)
  rw [Against.value, ← hl]
  rfl

namespace Jit

/-- An exit to a constant leaves at its site with the guest in memory. -/
theorem performs_exitToConst (hj : j.Separated) (hm : m.Consistent j.config.staticAlloc)
    (hop : i.op = .exitToConst) : j.Performs h i m m.flushAll.2 m.flushAll.1 := by
  have hdest : i.exitDest? = some i.constant := by rw [Inst.exitDest?, hop]
  refine ⟨hm.flushAll, fun frame g c start stop hsim hheld hstop _ => ?_⟩
  rw [map_mapTarget_of_plain m.plain_flushAll] at hheld
  obtain ⟨d, t, hflush, rfl, -, hsync⟩ := runs_flushAll hj hsim hm g.state start hheld
  refine ⟨_, hflush.mono (Nat.le_refl _) hstop, ?_⟩
  rw [Inst.eval, hop]
  exact ⟨rfl, hsync.goTo _, .site hdest rfl⟩

/-- A conditional exit leaves at its site if the condition holds, and skips it if not. -/
theorem performs_exitIf (hj : j.Separated) {against : Against} {taken : Cond}
    (hcond : exitCond? i.op = some (against, taken)) {k : RegMap} {compare : Insn}
    (htest : Tested j.config.staticAlloc m against i code k compare) :
    j.Performs h i m (code ++ k.flushAll.2 ++ [compare] ++ [.jcc taken.invert skipLabel.symbol])
      k.flushAll.1 := by
  have hdest := exitDest?_of_exitCond hcond
  have heval : ∀ g, i.eval h j.notifies g =
      (g, if i.taken g.context then some (.toAddress i.constant) else none) := by
    intro g
    rw [Inst.eval]
    cases hop : i.op <;> rw [hop] at hcond <;> cases hcond
  refine ⟨htest.consistent.flushAll, fun frame g c start stop hsim hheld hstop _ => ?_⟩
  obtain ⟨d, hexec, hsim', hcompare⟩ := htest.run frame g c hsim
  have hplain := plain_append htest.plain k.plain_flushAll
  -- the branch goes over the exit site, to the end of the piece
  have hskip : (Insn.jcc taken.invert skipLabel.symbol).mapTarget (skipTo stop) =
      .jcc taken.invert (addressOf stop) := by
    rw [Insn.mapTarget, skipTo, if_pos rfl]
  have hlead : (code ++ k.flushAll.2 ++ [compare] ++ [Insn.jcc taken.invert skipLabel.symbol]).map
      (Insn.mapTarget (skipTo stop)) =
        code ++ k.flushAll.2 ++ [compare, .jcc taken.invert (addressOf stop)] := by
    simp [map_mapTarget_of_plain htest.plain, map_mapTarget_of_plain k.plain_flushAll,
      Insn.mapTarget_of_isPlain htest.compare_plain, hskip]
  have hsize : start + codeSize (code ++ k.flushAll.2) +
      codeSize [compare, .jcc taken.invert (addressOf stop)] =
        start + codeSize (code ++ k.flushAll.2 ++ [compare] ++
          [.jcc taken.invert skipLabel.symbol]) := by
    rw [← codeSize_map_mapTarget (skipTo stop) (_ ++ [Insn.jcc _ skipLabel.symbol]), hlead,
      Insn.codeSize_append _ [compare, _], Nat.add_assoc]
  rw [hlead] at hheld
  obtain ⟨gpr, hflush, hsync⟩ := hsim'.flushAll htest.consistent
  have hfront := through_of_execList hj h hheld.left hplain
    (Cpu.execList_append_of_ok hexec hflush) g.state
  have hpos : 0 < codeSize [compare, .jcc taken.invert (addressOf stop)] := by
    have hcmp := compare.size_pos
    rw [Insn.codeSize_cons]
    omega
  have hbranch := through_branch (h := h) hj hheld.right (by omega)
    (within_addressOf (by omega) (Nat.lt_succ_self stop)) htest.compare_plain
    (hcompare { d with context := { d.context with gpr } } rfl) g.state
  have hsync' := hsync.setFlags
    (.ofSub (g.reg i.src1).toBitVec (against.value i g).toBitVec)
  refine ⟨_, hfront.append hbranch (Nat.le_add_right _ _) (by omega), ?_⟩
  rw [heval, Flags.holds_invert, holds_taken hcond]
  cases i.taken g.context with
  | true =>
    refine ⟨rfl, hsync'.goTo _, .site hdest ?_⟩
    exact congrArg addressOf hsize
  | false => exact ⟨rfl, rfl, (hsync'.goTo _).sim (RegMap.mapped?_flushAll htest.consistent)⟩

/-- The code of an instruction without an exit site does what the carried out instruction says. -/
theorem does_inst (hj : j.Separated) (hi : j.Installed) {d d' : Draft}
    (hm : d.regs.Consistent j.config.staticAlloc) (hdest : i.exitDest? = none)
    (hlower : inst j.lowerEnv i d = .ok ⟨⟩ d') :
    ∃ code n, d' = d.put code n ∧ j.Does h i.carriedOut d.regs code n := by
  by_cases hstraight : i.op.isStraight
  · have hdone := straight_inst hstraight hm hlower h j.notifies
    obtain ⟨code, n, rfl, -, -⟩ := id hdone
    exact ⟨code, n, rfl, does_straight hj (by rwa [Inst.op_carriedOut]) rfl hdone⟩
  · -- what is left has no exit site, and calls a routine or a handler or goes to the dispatcher
    rw [Inst.carriedOut_of_not_straight (by simpa using hstraight)]
    rw [inst] at hlower
    have hnone := hdest
    rw [Inst.exitDest?] at hnone
    cases hop : i.op <;> rw [hop] at hlower hnone hstraight <;>
      first | cases hnone; done | exact absurd rfl hstraight | skip
    case restoreRoundingMode =>
      cases hlower
      exact ⟨_, _, rfl, does_restoreRounding hj hi hm hop⟩
    case applyRoundingMode =>
      cases hlower
      exact ⟨_, _, rfl, does_applyRounding hj hi hm hop⟩
    case interpret =>
      change interpret j.lowerEnv i d = _ at hlower
      rw [interpret_apply] at hlower
      cases hlower
      exact ⟨_, _, rfl, does_interpret hj hi hm hop⟩
    case exitToReg =>
      obtain ⟨src, k, is, hmap, hlower⟩ := Emit.bind_mapReg_eq_ok.mp hlower
      rw [bind_of_ok (Emit.insn_apply _ _), bind_of_ok (Emit.flushAll_apply _),
        Emit.insn_apply] at hlower
      cases hlower
      refine ⟨_, _, ?_, does_exitToReg hj hi hm hop hmap⟩
      simp [lowerEnv]
    case exitToPc =>
      change (Emit.flushAll >>= fun _ => Emit.insn (.jmp j.stubs.checkCoreState)) d = _ at hlower
      rw [bind_of_ok (Emit.flushAll_apply _), Emit.insn_apply] at hlower
      cases hlower
      exact ⟨_, _, Draft.put_put .., does_exitToPc hj hi hm hop⟩
    all_goals
      change generic j.lowerEnv i d = _ at hlower
      rw [generic_apply] at hlower
      cases hlower
      exact ⟨_, _, rfl, does_generic hj hi hm hdest fun g => by rw [Inst.eval, hop]⟩

/-- Code without an exit site, as a piece. -/
theorem Does.performs {lead : List Insn} (hdest : i.exitDest? = none)
    (hbranches : BranchesFar lead) (hdoes : j.Does h i m lead n) : j.Performs h i m lead n := by
  refine ⟨hdoes.consistent, fun frame g c start stop hsim hheld _ hstop => ?_⟩
  rw [map_skipTo_of_branchesFar hbranches] at hheld
  obtain rfl := hstop hdest
  exact hdoes.run frame g c start hsim hheld

/-- A lead does what the carried out instruction says. -/
theorem performs_of_makes (hj : j.Separated) (hi : j.Installed) {lead : List Insn}
    (hm : m.Consistent j.config.staticAlloc) (hmakes : Makes j.lowerEnv i m lead n) :
    j.Performs h i.carriedOut m lead n := by
  cases hdest : i.exitDest? with
  | some pc =>
    rw [Inst.carriedOut_of_exitDest? hdest]
    by_cases hop : i.op = .exitToConst
    · obtain ⟨rfl, rfl⟩ := hmakes.unique (makes_exitToConst hop j.lowerEnv m)
      exact performs_exitToConst hj hm hop
    · obtain ⟨against, taken, hcond⟩ := exitCond_of_exitDest? hdest hop
      -- lowering once more shows the test, and the lead is what it leaves
      obtain ⟨_, d₁, hinst, -⟩ := bind_eq_ok.mp (hmakes.lowers_sized j.linkTarget)
      rw [inst_of_exitCond hcond, exitIf_eq] at hinst
      obtain ⟨_, d₂, htest, -⟩ := bind_eq_ok.mp hinst
      obtain ⟨k, code, compare, rfl, hshape⟩ := exitTest_eq_ok htest
      obtain ⟨rfl, rfl⟩ := hmakes.unique (makes_exitIf hcond hop htest j.lowerEnv)
      refine performs_exitIf hj hcond ?_
      cases against with
      | zero =>
        obtain ⟨left, hleft, rfl⟩ := hshape
        exact tested_zero hm hleft
      | src2 =>
        obtain ⟨left, right, m₁, is, js, hleft, hright, rfl, rfl⟩ := hshape
        exact tested_src2 hm hleft hright
  | none =>
    have hlower := hmakes.lowers_sized j.linkTarget
    rw [Draft.finish, hdest] at hlower
    obtain ⟨_, d₁, hinst, hflush⟩ := bind_eq_ok.mp hlower
    obtain ⟨code, k, rfl, hdoes⟩ := does_inst (h := h) hj hi hm hdest hinst
    have hdest' : i.carriedOut.exitDest? = none := i.exitDest?_carriedOut.trans hdest
    refine Does.performs hdest' (hmakes.branchesFar hdest) ?_
    -- without a cache for registers, all of them are sent back behind the instruction
    split at hflush
    · rw [Emit.flushAll_apply, Draft.put_put] at hflush
      injection hflush with _ hflush
      obtain ⟨rfl, rfl⟩ := Draft.put_inj hflush
      exact hdoes.flush hj hdest'
    · injection hflush with _ hflush
      obtain ⟨rfl, rfl⟩ := Draft.put_inj hflush
      exact hdoes

end Jit

end

end Dynarec
