import Dynarec.Proofs.Machine.Routines

/-!
# What the dispatcher does

Compiled code is entered by way of the dispatcher, and blocks come back to it: at the dispatcher or
the outer loop with a guest address in the scratch register, or at the check of the core with the
address in memory.  Wherever the dispatcher is entered, one of three things happens
(`Jit.Visited`): the budget is spent and the run ends with a stopped core; there is no code for the
address and the run ends there; or the code for the address is entered.

Shape of the argument: `Stands` says that a machine between two blocks has a guest context in
memory, up to the scratch word, with nothing said about the control word and registers.  Every
routine that the dispatcher calls keeps it, so the dispatcher is followed item by item
(`Follows.saved`, `Follows.loaded`, `Follows.restored`, `Follows.applied`, `Follows.answered`), from
the ways out to the ways in: quitting, looking up code, checking the core, the outer loop, and the
entries.
-/

namespace Dynarec

namespace Context

/-- What lasts of a context: everything but the scratch word. -/
def lasting (c : Context) : Context :=
  { c with temp := 0 }

/-- What a block may find of a context: the scratch word and the program counter mean nothing. -/
def bare (c : Context) : Context :=
  { c with temp := 0, pc := 0 }

theorem bare_of_lasting {c d : Context} (h : c.lasting = d.lasting) : c.bare = d.bare :=
  (congrArg bare h :)

end Context

/-- Handlers that keep the dispatcher going: advancing time stops the core once the budget is spent,
and the code for the program counter is the body of the compiled block that stands for it. -/
structure Handlers.Dispatches {σ : Type} (h : Handlers σ) (j : Jit) : Prop where
  advance : ∀ mxcsr c s, (h.advance mxcsr c s).context = Handlers.stopOutOfBudget c
  resolve : ∀ mxcsr c s, (h.resolve mxcsr c s).context = c ∧
    (h.resolve mxcsr c s).answer = (j.lookup c.pc).getD 0

/-- The same, whatever looking up code does to the context apart from the program counter. -/
structure Handlers.Finds {σ : Type} (h : Handlers σ) (j : Jit) : Prop where
  advance : ∀ mxcsr c s, (h.advance mxcsr c s).context = Handlers.stopOutOfBudget c
  resolve : ∀ mxcsr c s, (h.resolve mxcsr c s).context.pc = c.pc ∧
    (h.resolve mxcsr c s).answer = (j.lookup c.pc).getD 0

/-- Looking up code for an address turns one context into another, up to the scratch word. -/
def Handlers.LookedUp {σ : Type} (h : Handlers σ) (pc : UInt32) (x y : Context) : Prop :=
  ∃ mxcsr z s, z.lasting = ({ x with pc } : Context).lasting ∧
    (h.resolve mxcsr z s).context.lasting = y.lasting

namespace Handlers

variable {σ : Type} {h : Handlers σ} {j : Jit} {pc : UInt32} {x x' y : Context}

/-- Handlers that dispatch find code. -/
theorem Dispatches.finds (hdispatches : h.Dispatches j) : h.Finds j where
  advance := hdispatches.advance
  resolve mxcsr c s := by
    obtain ⟨hcontext, hanswer⟩ := hdispatches.resolve mxcsr c s
    exact ⟨by rw [hcontext], hanswer⟩

/-- Looking up code sets the program counter and changes nothing else that lasts. -/
theorem Dispatches.lasting_eq (hdispatches : h.Dispatches j) (hfound : h.LookedUp pc x y) :
    y.lasting = ({ x with pc } : Context).lasting := by
  obtain ⟨mxcsr, z, s, hz, hy⟩ := hfound
  rw [← hy, (hdispatches.resolve mxcsr z s).1, hz]

/-- Looking up code changes nothing that a block may find. -/
theorem Dispatches.bare_eq (hdispatches : h.Dispatches j)
    (hfound : y.bare = x.bare ∨ h.LookedUp pc x y) : y.bare = x.bare := by
  rcases hfound with hbare | hfound
  · exact hbare
  · exact (Context.bare_of_lasting (hdispatches.lasting_eq hfound) :)

/-- The program counter from before does not matter. -/
theorem LookedUp.congr (hfound : h.LookedUp pc x y) (hxx' : x.bare = x'.bare) :
    h.LookedUp pc x' y := by
  obtain ⟨mxcsr, z, s, hz, hy⟩ := hfound
  exact ⟨mxcsr, z, s, hz.trans (congrArg (fun c : Context => { c with pc }) hxx' :), hy⟩

end Handlers

/-! ## Between two blocks -/

/-- The guest context is `x`, up to the scratch word: it is in memory, apart from a downcount in a
register. -/
structure Stands (staticAlloc : Bool) (frame : Cpu) (x : Context) (c : Cpu) : Prop where
  base : c.reg Gpr.context = contextBase
  context : ({ c.context with downcount := x.downcount } : Context).lasting = x.lasting
  downcount : (if staticAlloc then c.reg32 Gpr.downcount else c.context.downcount) = x.downcount
  stack : frame.SameFrame c

namespace Stands

variable {staticAlloc : Bool} {frame : Cpu} {x y : Context} {c d : Cpu}

/-- With the downcount in memory, all of the context is there. -/
theorem lasting (h : Stands false frame x c) : c.context.lasting = x.lasting := by
  have hcontext := h.context
  have hdowncount : c.context.downcount = x.downcount := h.downcount
  rw [← hdowncount] at hcontext
  exact hcontext

/-- A context that is all in memory stands there. -/
theorem of_lasting (hbase : c.reg Gpr.context = contextBase)
    (hlasting : c.context.lasting = x.lasting) (hstack : frame.SameFrame c) :
    Stands false frame x c := by
  have hdowncount : c.context.downcount = x.downcount :=
    (congrArg Context.downcount hlasting :)
  refine ⟨hbase, ?_, hdowncount, hstack⟩
  rw [← hdowncount]
  exact hlasting

/-- The scratch word does not matter. -/
theorem congr_lasting (h : Stands false frame x c) (hxy : x.lasting = y.lasting) :
    Stands false frame y c :=
  .of_lasting h.base (h.lasting.trans hxy) h.stack

/-- Code that changes only the scratch word of the context. -/
theorem effect (h : Stands staticAlloc frame x c) {changed : List Gpr} {e : Context} {m : UInt32}
    (heffect : c.Effect d changed e m) (hlasting : e.lasting = c.context.lasting)
    (hbase : Gpr.context ∉ changed) (hdowncount : Gpr.downcount ∉ changed) :
    Stands staticAlloc frame x d where
  base := by rw [heffect.regs _ hbase, h.base]
  context := by
    have hsame : ({ d.context with downcount := x.downcount } : Context).lasting =
        ({ c.context with downcount := x.downcount } : Context).lasting := by
      rw [heffect.context]
      exact congrArg (fun z : Context => { z with downcount := x.downcount }) hlasting
    rw [hsame, h.context]
  downcount := by
    have hword : d.context.downcount = c.context.downcount := by
      rw [heffect.context]
      exact (congrArg Context.downcount hlasting :)
    rw [heffect.reg32 hdowncount, hword]
    exact h.downcount
  stack := h.stack.trans heffect.frame

/-- The downcount has gone to memory. -/
theorem saved {m : UInt32} (h : Stands true frame x c)
    (heffect : c.Effect d [] { c.context with downcount := c.reg32 Gpr.downcount } m) :
    Stands false frame x d := by
  have hcount : c.reg32 Gpr.downcount = x.downcount := h.downcount
  refine .of_lasting (by rw [heffect.regs _ (by decide), h.base]) ?_ (h.stack.trans heffect.frame)
  rw [heffect.context, hcount]
  exact h.context

/-- The downcount has gone to its register. -/
theorem loaded {m : UInt32} (h : Stands false frame x c)
    (heffect : c.Effect d [Gpr.downcount] c.context m)
    (hcount : d.reg32 Gpr.downcount = c.context.downcount) : Stands true frame x d := by
  refine ⟨by rw [heffect.regs _ (by decide), h.base], ?_, ?_, h.stack.trans heffect.frame⟩
  · rw [heffect.context]
    exact h.context
  · rw [if_pos rfl, hcount]
    exact h.downcount

/-- The program counter is replaced in memory. -/
theorem setPc (h : Stands staticAlloc frame x c) (pc : UInt32) :
    Stands staticAlloc frame { x with pc } { c with context := { c.context with pc } } where
  base := h.base
  context := congrArg (fun z : Context => { z with pc }) h.context
  downcount := h.downcount
  stack := ⟨h.stack.pointer, h.stack.words⟩

theorem setFlags (h : Stands staticAlloc frame x c) (f : Flags) :
    Stands staticAlloc frame x { c with flags := f } :=
  ⟨h.base, h.context, h.downcount, h.stack.pointer, h.stack.words⟩

theorem setReg (h : Stands staticAlloc frame x c) {r : Gpr} (v : UInt64)
    (hr : r ∉ [Gpr.context, Gpr.downcount, Gpr.rsp]) :
    Stands staticAlloc frame x (c.setReg r v) := by
  simp only [List.mem_cons, List.not_mem_nil, or_false, not_or] at hr
  refine ⟨?_, h.context, ?_, ?_, h.stack.words⟩
  · rw [Cpu.reg_setReg_of_ne (Ne.symm hr.1), h.base]
  · rw [Cpu.reg32, Cpu.reg_setReg_of_ne (Ne.symm hr.2.1)]
    exact h.downcount
  · rw [Cpu.reg_setReg_of_ne (Ne.symm hr.2.2), h.stack.pointer]

theorem goTo (h : Stands staticAlloc frame x c) (a : UInt64) :
    Stands staticAlloc frame x (c.goTo a) :=
  ⟨h.base, h.context, h.downcount, h.stack.pointer, h.stack.words⟩

theorem coreState (h : Stands staticAlloc frame x c) : c.context.coreState = x.coreState :=
  (congrArg Context.coreState h.context :)

/-- The test of the downcount looks at the budget. -/
theorem exec_testDowncount (h : Stands staticAlloc frame x c) :
    ∃ f, c.exec (testDowncount staticAlloc) = .ok { c with flags := f } ∧
      f.holds .sign = x.outOfBudget := by
  have hdowncount := h.downcount
  have hsign : (Flags.ofBits x.downcount.toBitVec).holds .sign = x.outOfBudget :=
    Flags.msb_toBitVec x.downcount
  cases staticAlloc with
  | true =>
    refine ⟨_, Cpu.exec_test_self c Gpr.downcount, ?_⟩
    rw [if_pos rfl] at hdowncount
    rw [hdowncount]
    exact hsign
  | false =>
    refine ⟨_, Cpu.exec_cmp_word h.base (by decide) (Context.load?_downcount _) 0, ?_⟩
    rw [Flags.ofSub_zero]
    have hword : c.context.downcount = x.downcount := hdowncount
    rw [hword]
    exact hsign

end Stands

namespace Jit

open CodeCache Lower Stubs

variable {σ : Type} {j : Jit} {h : Handlers σ} {items : List Item} {frame : Cpu} {x y : Context}
  {c : Cpu} {s : σ} {Q : Cpu → σ → Prop}

/-! ## Routines that the dispatcher calls -/

namespace Installed

/-- The entry is the routine of that name. -/
theorem enter_eq (hi : j.Installed) : j.stubs.enter = j.place Routine.enter.symbol :=
  (congrArg Stubs.enter hi.located).trans
    (address_eq_place j (by rw [fixedItems]; cases j.config.staticAlloc <;> rfl))

/-- So is the way into the outer loop. -/
theorem outerLoopPc_eq (hi : j.Installed) :
    j.stubs.outerLoopPc = j.place Routine.outerLoopPc.symbol :=
  (congrArg Stubs.outerLoopPc hi.located).trans
    (address_eq_place j (by rw [fixedItems]; cases j.config.staticAlloc <;> rfl))

end Installed

/-- The downcount goes to memory, if it is not there. -/
theorem Follows.saved (hj : j.Separated) (hi : j.Installed)
    (hc : Stands j.config.staticAlloc frame x c)
    (hrest : ∀ d, Stands false frame x d → j.Follows h j.place items d s Q) :
    j.Follows h j.place (callSave j.config.staticAlloc ++ items) c s Q := by
  cases hstatic : j.config.staticAlloc with
  | false =>
    rw [hstatic] at hc
    exact hrest c hc
  | true =>
    rw [hstatic] at hc
    refine .call hj (calls_saveStatic hj hi hstatic hc.base) fun d t hq => ?_
    obtain ⟨rfl, heffect⟩ := hq
    exact hrest d (hc.saved heffect)

/-- The downcount goes to its register, if it is kept in one. -/
theorem Follows.loaded (hj : j.Separated) (hi : j.Installed) (hc : Stands false frame x c)
    (hrest : ∀ d, Stands j.config.staticAlloc frame x d → d.reg Gpr.scratch = c.reg Gpr.scratch →
      j.Follows h j.place items d s Q) :
    j.Follows h j.place (callLoad j.config.staticAlloc ++ items) c s Q := by
  cases hstatic : j.config.staticAlloc with
  | false =>
    rw [hstatic] at hrest
    exact hrest c hc rfl
  | true =>
    rw [hstatic] at hrest
    refine .call hj (calls_loadStatic hj hi hstatic hc.base) fun d t hq => ?_
    obtain ⟨rfl, heffect, hcount⟩ := hq
    exact hrest d (hc.loaded heffect hcount) (heffect.regs _ (by decide))

/-- The rounding mode of the host is restored. -/
theorem Follows.restored (hj : j.Separated) (hi : j.Installed) {staticAlloc : Bool}
    (hc : Stands staticAlloc frame x c)
    (hrest : ∀ d, Stands staticAlloc frame x d → j.Follows h j.place items d s Q) :
    j.Follows h j.place (callStub Routine.restoreRounding :: items) c s Q := by
  have hcalls := calls_restoreRounding (h := h) (s := s) hj hi hc.base
  rw [hi.restoreRounding_eq] at hcalls
  refine .call hj hcalls fun d t hq => ?_
  obtain ⟨rfl, heffect⟩ := hq
  exact hrest d (hc.effect heffect rfl (by simp) (by simp))

/-- The rounding mode of the guest is set. -/
theorem Follows.applied (hj : j.Separated) (hi : j.Installed) {staticAlloc : Bool}
    (hc : Stands staticAlloc frame x c)
    (hrest : ∀ d, Stands staticAlloc frame x d → d.reg Gpr.scratch2 = c.reg Gpr.scratch2 →
      j.Follows h j.place items d s Q) :
    j.Follows h j.place (callStub Routine.applyRounding :: items) c s Q := by
  have hcalls := calls_applyRounding (h := h) (s := s) hj hi hc.base
  rw [hi.applyRounding_eq] at hcalls
  refine .call hj hcalls fun d t hq => ?_
  obtain ⟨rfl, heffect⟩ := hq
  refine hrest d (hc.effect heffect ?_ (by decide) (by decide)) (heffect.regs _ (by decide))
  split <;> rfl

/-- A handler is called with the context in memory. -/
theorem Follows.answered (hj : j.Separated) {a : UInt64} {f : Handler σ} (ha : a ≠ returnAddress)
    (hfind : ∀ second, h.find? j.table a second = some f) (hc : Stands false frame x c)
    (hrest : ∀ d m e, e.lasting = x.lasting → Stands false frame (f m e s).context d →
      d.reg Gpr.scratch = (f m e s).answer → j.Follows h j.place items d (f m e s).state Q) :
    j.Follows h j.place
      ([op (.mov64 Gpr.arg1 Gpr.context), op (.mov64i Gpr.scratch a), op (.callReg Gpr.scratch)] ++
        items) c s Q := by
  refine .step hj rfl rfl (.step hj rfl rfl ?_)
  have hc' := (hc.setReg (r := Gpr.arg1) (c.reg Gpr.context) (by decide)).setReg
    (r := Gpr.scratch) a (by decide)
  generalize he : (c.setReg Gpr.arg1 (c.reg Gpr.context)).setReg Gpr.scratch a = e at hc' ⊢
  have hscratch : e.reg Gpr.scratch = a := by
    rw [← he, Cpu.reg_setReg_self]
  have hfirst : e.reg Gpr.arg1 = contextBase := by
    rw [← he, Cpu.reg_setReg_of_ne (by decide), Cpu.reg_setReg_self, hc.base]
  refine .callReg hj (hscratch ▸ calls_handler ha (hfind _) (.inr hfirst)) fun d t hq => ?_
  obtain ⟨rfl, heffect, hanswer⟩ := hq
  refine hrest d _ _ hc'.lasting (.of_lasting ?_ ?_ ?_) hanswer
  · rw [heffect.regs _ (by decide), hc'.base]
  · rw [heffect.context]
  · exact hc'.stack.trans heffect.frame

/-! ## Ending a run -/

/-- The frame of a run: behind the saved registers, the stack has the address that the dispatcher
returns to. -/
structure Framed (frame : Cpu) : Prop where
  returns : frame.stack.getD (frame.reg Gpr.rsp + 56) 0 = returnAddress

/-- Popping registers moves the stack pointer and leaves memory alone. -/
theorem execList_pops (rs : List Gpr) (hrs : Gpr.rsp ∉ rs) (c : Cpu) :
    ∃ d, Cpu.execList (rs.map .pop) c = .ok d ∧
      d.reg Gpr.rsp = c.reg Gpr.rsp + UInt64.ofNat (8 * rs.length) ∧ d.stack = c.stack ∧
      d.context = c.context ∧ d.mxcsr = c.mxcsr := by
  induction rs generalizing c with
  | nil => exact ⟨c, rfl, by simp, rfl, rfl, rfl⟩
  | cons r rs ih =>
    rw [List.mem_cons, not_or] at hrs
    obtain ⟨d, hexec, hrsp, hkept⟩ := ih hrs.2 (c.drop.setReg r c.top)
    refine ⟨d, Cpu.execList_cons_of_ok rfl hexec, ?_, hkept⟩
    rw [hrsp, Cpu.reg_setReg_of_ne hrs.1, Cpu.reg_drop_rsp, UInt64.add_assoc, List.length_cons,
      Nat.mul_succ, Nat.add_comm, UInt64.ofNat_add]
    rfl

/-- Quitting ends the run with the context in memory. -/
theorem leads_quit (hj : j.Separated) (hi : j.Installed) (hframe : Framed frame)
    (hc : Stands j.config.staticAlloc frame x c) :
    j.Leads h (j.place Routine.quit.symbol) c s fun d _ =>
      d.ip = returnAddress ∧ d.context.lasting = x.lasting := by
  refine hi.follow (callSave j.config.staticAlloc ++ ([callStub Routine.restoreRounding] ++
    ((Insn.alu64i .add Gpr.rsp 8 :: Gpr.calleeSaved.reverse.map Insn.pop).map Item.insn ++
      [op .ret])))
    (by rw [fixedItems]; cases j.config.staticAlloc <;> exact ⟨_, rfl⟩) ?_
  refine .saved hj hi hc fun d hd => .restored hj hi hd fun e he => ?_
  obtain ⟨e', hpops, hrsp, hstack, hcontext, -⟩ :=
    execList_pops Gpr.calleeSaved.reverse (by decide)
      (({ e with flags := .ofAdd (e.reg Gpr.rsp).toBitVec (8 : UInt64).toBitVec } : Cpu).setReg
        Gpr.rsp (e.reg Gpr.rsp + 8))
  refine .steps hj (by decide) (Cpu.execList_cons_of_ok rfl hpops) (.ret hj ⟨?_, ?_⟩)
  · have hpointer : e'.reg Gpr.rsp = frame.reg Gpr.rsp + 56 := by
      rw [hrsp, Cpu.reg_setReg_self, he.stack.pointer]
      show frame.reg Gpr.rsp + 8 + 48 = frame.reg Gpr.rsp + 56
      grind
    rw [Cpu.ip_goTo, Cpu.top, hpointer, hstack]
    exact (he.stack.words _ (by grind)).trans hframe.returns
  · rw [Cpu.context_goTo, Cpu.context_drop, hcontext]
    exact he.lasting

/-! ## Looking up code -/

/-- What has become of a machine that was to go on at a guest address, given the guest context. -/
inductive Visited (j : Jit) (h : Handlers σ) (frame : Cpu) (pc : UInt32) (x : Context) (c : Cpu) :
    Prop
  | spent (hspent : x.outOfBudget) (hip : c.ip = returnAddress)
    (hcontext : c.context.lasting =
      ({ x with pc, coreState := Context.coreStepping } : Context).lasting)
  | missing (hbudget : x.outOfBudget = false) (hlookup : j.lookup pc = none)
    (hip : c.ip = returnAddress) (hfound : h.LookedUp pc x c.context)
  | entered {a : UInt64} {y : Context} (hbudget : x.outOfBudget = false)
    (hlookup : j.lookup pc = some a) (hip : c.ip = a)
    (hfound : y.bare = x.bare ∨ h.LookedUp pc x y)
    (hstands : Stands j.config.staticAlloc frame y c)

/-- The dispatcher behind the check of the budget. -/
def lookupItems (staticAlloc : Bool) (resolve : UInt64) : List Item :=
  callStub Routine.restoreRounding :: (callSave staticAlloc ++
  ([op (.mov64 Gpr.arg1 Gpr.context), op (.mov64i Gpr.scratch resolve), op (.callReg Gpr.scratch)] ++
  (callLoad staticAlloc ++
  [op (.mov64 Gpr.scratch2 Gpr.scratch),
   callStub Routine.applyRounding,
   op (.test64 Gpr.scratch2 Gpr.scratch2),
   branchStub .equal Routine.quit,
   op (.jmpReg Gpr.scratch2)])))

/-- The code for the program counter is looked up and entered. -/
theorem follows_lookup (hj : j.Separated) (hi : j.Installed) (hframe : Framed frame)
    (hfinds : h.Finds j) (hnonzero : j.lookup x.pc ≠ some 0)
    (hc : Stands j.config.staticAlloc frame x c) (hbudget : x.outOfBudget = false) :
    j.Follows h j.place (lookupItems j.config.staticAlloc j.table.resolve) c s
      fun d _ => j.Visited h frame x.pc x d := by
  refine .restored hj hi hc fun d hd => .saved hj hi hd fun e he => ?_
  refine .answered hj (hj.separate.free _ (by simp [HandlerTable.fixed])).1
    (fun second => h.find?_resolve hj.separate second) he fun d₁ m z hz hd₁ hanswer => ?_
  have hpc : z.pc = x.pc := (congrArg Context.pc hz :)
  rw [(hfinds.resolve m z s).2, hpc] at hanswer
  refine .loaded hj hi hd₁ fun d₂ hd₂ hscratch => ?_
  rw [hanswer] at hscratch
  refine .step hj rfl rfl ?_
  refine .applied hj hi (hd₂.setReg (r := Gpr.scratch2) _ (by decide)) fun d₃ hd₃ hscratch2 => ?_
  rw [Cpu.reg_setReg_self, hscratch] at hscratch2
  have hequal : (Flags.ofBits ((d₃.reg Gpr.scratch2).toBitVec &&&
      (d₃.reg Gpr.scratch2).toBitVec)).holds .equal = decide (d₃.reg Gpr.scratch2 = 0) := by
    rw [BitVec.and_self, Flags.equal_ofBits64]
  -- The answer is zero just in case there is no code, as no code is at address zero.
  refine .step hj rfl rfl (.jcc hj (fun htaken => ?_) fun hstays => ?_)
  · have hzero := of_decide_eq_true (hequal.symm.trans htaken)
    rw [hscratch2] at hzero
    have hlookup : j.lookup x.pc = none := by
      cases ha : j.lookup x.pc with
      | none => rfl
      | some a =>
        rw [ha] at hzero
        exact absurd (ha.trans (congrArg some hzero)) hnonzero
    obtain ⟨d₄, t, hreach, hip, hcontext⟩ := leads_quit hj hi hframe (hd₃.setFlags _)
    exact ⟨d₄, t, hreach, .missing hbudget hlookup hip ⟨m, z, s, hz, hcontext.symm⟩⟩
  · have hset := of_decide_eq_false (hequal.symm.trans hstays)
    rw [hscratch2] at hset
    obtain ⟨a, ha⟩ : ∃ a, j.lookup x.pc = some a :=
      Option.ne_none_iff_exists'.mp fun hnone => hset (by rw [hnone]; rfl)
    rw [ha] at hscratch2
    exact .jmpReg hj ⟨_, _, .refl,
      .entered hbudget ha hscratch2 (.inr ⟨m, z, s, hz, rfl⟩) ((hd₃.setFlags _).goTo _)⟩

/-! ## The outer loop -/

/-- The check of the core. -/
def checkItems (staticAlloc : Bool) : List Item :=
  [op (.alu32mi .cmp (contextWord Context.coreStateOffset) 0),
   branchStub .notEqual Routine.quit,
   op (testDowncount staticAlloc),
   branchStub .sign Routine.outerLoop,
   jumpStub Routine.dispatcherNoCheck]

/-- The state of the core is compared with that of a core that runs. -/
theorem exec_cmp_coreState {staticAlloc : Bool} (hc : Stands staticAlloc frame x c) :
    ∃ f, c.exec (.alu32mi .cmp (contextWord Context.coreStateOffset) 0) = .ok { c with flags := f } ∧
      f.holds .equal = decide (x.coreState = 0) := by
  refine ⟨_, Cpu.exec_cmp_word hc.base (by decide) (Context.load?_coreState _) 0, ?_⟩
  rw [Flags.ofSub_zero, Flags.equal_ofBits, hc.coreState]

/-- A core that has been stopped ends the run. -/
theorem follows_check_quit (hj : j.Separated) (hi : j.Installed) (hframe : Framed frame)
    (hc : Stands j.config.staticAlloc frame x c) (hcore : x.coreState ≠ 0) :
    j.Follows h j.place (checkItems j.config.staticAlloc) c s fun d _ =>
      d.ip = returnAddress ∧ d.context.lasting = x.lasting := by
  obtain ⟨f, hexec, hequal⟩ := exec_cmp_coreState hc
  refine .step hj rfl hexec
    (.jcc hj (fun _ => leads_quit hj hi hframe (hc.setFlags f)) fun hstays => ?_)
  have hzero : (!f.holds .equal) = false := hstays
  rw [hequal] at hzero
  simp [hcore] at hzero

/-- A core that runs goes on at the program counter, or to the outer loop if its budget is spent. -/
theorem follows_check (hj : j.Separated) (hi : j.Installed) (hframe : Framed frame)
    (hfinds : h.Finds j) (hnonzero : j.lookup x.pc ≠ some 0)
    (hc : Stands j.config.staticAlloc frame x c) (hcore : x.coreState = 0)
    (hspent : x.outOfBudget → ∀ d, Stands j.config.staticAlloc frame x d →
      j.Leads h (j.place Routine.outerLoop.symbol) d s fun d _ => j.Visited h frame x.pc x d) :
    j.Follows h j.place (checkItems j.config.staticAlloc) c s fun d _ =>
      j.Visited h frame x.pc x d := by
  obtain ⟨f, hexec, hequal⟩ := exec_cmp_coreState hc
  obtain ⟨f', hexec', hsign⟩ := (hc.setFlags f).exec_testDowncount
  have hc' := (hc.setFlags f).setFlags f'
  refine .step hj rfl hexec (.jcc hj (fun htaken => ?_) fun _ => .step hj ?_ hexec' ?_)
  · -- the core runs, so the branch to the end of the run is not taken
    have hset : (!f.holds .equal) = true := htaken
    rw [hequal] at hset
    simp [hcore] at hset
  · exact isPlain_testDowncount _
  · refine .jcc hj (fun htaken => hspent (hsign.symm.trans htaken) _ hc') fun hstays => .jmp hj ?_
    refine hi.follow (lookupItems j.config.staticAlloc j.table.resolve)
      (by rw [fixedItems]; cases j.config.staticAlloc <;> exact ⟨_, rfl⟩) ?_
    exact follows_lookup hj hi hframe hfinds hnonzero hc' (hsign.symm.trans hstays)

/-- The outer loop, up to the check of the core. -/
def outerLoopItems (staticAlloc : Bool) (advance : UInt64) : List Item :=
  callSave staticAlloc ++ (callStub Routine.restoreRounding ::
  ([op (.mov64 Gpr.arg1 Gpr.context), op (.mov64i Gpr.scratch advance), op (.callReg Gpr.scratch)] ++
  (callStub Routine.applyRounding :: (callLoad staticAlloc ++
  (.mark Routine.checkCoreState :: checkItems staticAlloc)))))

/-- The outer loop advances time and goes on at the program counter, unless that stops the core. -/
theorem follows_outerLoop (hj : j.Separated) (hi : j.Installed) (hframe : Framed frame)
    (hfinds : h.Finds j) (hnonzero : j.lookup x.pc ≠ some 0)
    (hc : Stands j.config.staticAlloc frame x c) (hcore : x.coreState = 0) :
    j.Follows h j.place (outerLoopItems j.config.staticAlloc j.table.advance) c s fun d _ =>
      j.Visited h frame x.pc x d := by
  refine .saved hj hi hc fun d hd => .restored hj hi hd fun e he => ?_
  refine .answered hj (hj.separate.free _ (by simp [HandlerTable.fixed])).1
    (fun second => h.find?_advance hj.separate second) he fun d₁ m z hz hd₁ _ => ?_
  have hstopped : (h.advance m z s).context.lasting = (Handlers.stopOutOfBudget x).lasting := by
    have hbudget : z.outOfBudget = x.outOfBudget := (congrArg Context.outOfBudget hz :)
    rw [hfinds.advance, Handlers.stopOutOfBudget, Handlers.stopOutOfBudget, hbudget]
    split
    · exact (congrArg (fun y : Context => { y with coreState := Context.coreStepping }) hz :)
    · exact hz
  refine .applied hj hi (hd₁.congr_lasting hstopped) fun d₂ hd₂ _ =>
    .loaded hj hi hd₂ fun d₃ hd₃ _ => .mark ?_
  rw [Handlers.stopOutOfBudget] at hd₃
  cases hbudget : x.outOfBudget with
  | true =>
    -- time has stopped the core
    rw [hbudget, if_pos rfl] at hd₃
    intro offset hplaced
    obtain ⟨d₄, t, hreach, hip, hcontext⟩ := follows_check_quit hj hi hframe hd₃
      (show Context.coreStepping ≠ 0 by decide) offset hplaced
    exact ⟨d₄, t, hreach, .spent hbudget hip hcontext⟩
  | false =>
    rw [hbudget, if_neg (by decide)] at hd₃
    refine follows_check hj hi hframe hfinds hnonzero hd₃ hcore fun hspent => ?_
    exact absurd (hspent.symm.trans hbudget) (by decide)

/-- The outer loop leads to a visit of the address in the program counter. -/
theorem leads_outerLoop (hj : j.Separated) (hi : j.Installed) (hframe : Framed frame)
    (hfinds : h.Finds j) (hnonzero : j.lookup x.pc ≠ some 0)
    (hc : Stands j.config.staticAlloc frame x c) (hcore : x.coreState = 0) :
    j.Leads h (j.place Routine.outerLoop.symbol) c s fun d _ => j.Visited h frame x.pc x d :=
  hi.follow (outerLoopItems j.config.staticAlloc j.table.advance)
    (by rw [fixedItems]; cases j.config.staticAlloc <;> exact ⟨_, rfl⟩)
    (follows_outerLoop hj hi hframe hfinds hnonzero hc hcore)

/-! ## The ways in -/

/-- The check of the core, with the address in memory. -/
theorem leads_checkCoreState (hj : j.Separated) (hi : j.Installed) (hframe : Framed frame)
    (hfinds : h.Finds j) (hnonzero : j.lookup x.pc ≠ some 0)
    (hc : Stands j.config.staticAlloc frame x c) (hcore : x.coreState = 0) :
    j.Leads h j.stubs.checkCoreState c s fun d _ => j.Visited h frame x.pc x d := by
  rw [hi.checkCoreState_eq]
  refine hi.follow (checkItems j.config.staticAlloc)
    (by rw [fixedItems]; cases j.config.staticAlloc <;> exact ⟨_, rfl⟩) ?_
  exact follows_check hj hi hframe hfinds hnonzero hc hcore fun _ d hd =>
    leads_outerLoop hj hi hframe hfinds hnonzero hd hcore

/-- The address in the scratch register goes to memory. -/
theorem exec_storePc {staticAlloc : Bool} (hc : Stands staticAlloc frame x c) {pc : UInt32}
    (hpc : c.reg32 Gpr.scratch = pc) :
    ∃ d, c.exec (.store32 (contextWord Context.pcOffset) Gpr.scratch) = .ok d ∧
      Stands staticAlloc frame { x with pc } d := by
  subst hpc
  exact ⟨_, Cpu.exec_store_word hc.base (by decide) (Context.store?_pc _ _), hc.setPc _⟩

/-- The program counter and the scratch word do not change what is visited. -/
theorem Visited.congr {pc : UInt32} {d : Cpu} (hd : j.Visited h frame pc x d)
    (hxy : x.bare = y.bare) : j.Visited h frame pc y d := by
  have hbudget : x.outOfBudget = y.outOfBudget := (congrArg Context.outOfBudget hxy :)
  cases hd with
  | spent hspent hip hcontext =>
    refine .spent (hbudget ▸ hspent) hip (hcontext.trans ?_)
    exact (congrArg (fun z : Context => { z with pc, coreState := Context.coreStepping }) hxy :)
  | missing hbudget' hlookup hip hfound =>
    exact .missing (hbudget ▸ hbudget') hlookup hip (hfound.congr hxy)
  | entered hbudget' hlookup hip hfound hstands =>
    exact .entered (hbudget ▸ hbudget') hlookup hip
      (hfound.imp (·.trans hxy) (·.congr hxy)) hstands

theorem Leads.mono {a : UInt64} {P : Cpu → σ → Prop} (hleads : j.Leads h a c s P)
    (hpq : ∀ d t, P d t → Q d t) : j.Leads h a c s Q := by
  obtain ⟨d, t, hreach, hp⟩ := hleads
  exact ⟨d, t, hreach, hpq d t hp⟩

/-- The outer loop, with the address in the scratch register. -/
theorem leads_outerLoopPc (hj : j.Separated) (hi : j.Installed) (hframe : Framed frame)
    (hfinds : h.Finds j) {pc : UInt32} (hnonzero : j.lookup pc ≠ some 0)
    (hc : Stands j.config.staticAlloc frame x c) (hcore : x.coreState = 0)
    (hpc : c.reg32 Gpr.scratch = pc) :
    j.Leads h j.stubs.outerLoopPc c s fun d _ => j.Visited h frame pc x d := by
  rw [hi.outerLoopPc_eq]
  obtain ⟨d, hexec, hd⟩ := exec_storePc hc hpc
  have hleads : j.Leads h (j.place Routine.outerLoopPc.symbol) c s fun d _ =>
      j.Visited h frame pc { x with pc } d :=
    hi.follow (op (.store32 (contextWord Context.pcOffset) Gpr.scratch) ::
        .mark Routine.outerLoop :: outerLoopItems j.config.staticAlloc j.table.advance)
      (by rw [fixedItems]; cases j.config.staticAlloc <;> exact ⟨_, rfl⟩)
      (.step hj rfl hexec (.mark
        (follows_outerLoop hj hi hframe hfinds hnonzero hd hcore)))
  exact hleads.mono fun d _ hd => hd.congr rfl

/-- The dispatcher, with the address in the scratch register. -/
theorem leads_dispatcherPc (hj : j.Separated) (hi : j.Installed) (hframe : Framed frame)
    (hfinds : h.Finds j) {pc : UInt32} (hnonzero : j.lookup pc ≠ some 0)
    (hc : Stands j.config.staticAlloc frame x c) (hcore : x.coreState = 0)
    (hpc : c.reg32 Gpr.scratch = pc) :
    j.Leads h j.stubs.dispatcherPc c s fun d _ => j.Visited h frame pc x d := by
  rw [hi.dispatcherPc_eq]
  obtain ⟨d, hexec, hd⟩ := exec_storePc hc hpc
  obtain ⟨f, hexec', hsign⟩ := hd.exec_testDowncount
  have hd' := hd.setFlags f
  have hleads : j.Leads h (j.place Routine.dispatcherPc.symbol) c s fun d _ =>
      j.Visited h frame pc { x with pc } d := by
    refine hi.follow (op (.store32 (contextWord Context.pcOffset) Gpr.scratch) ::
        .mark Routine.dispatcher :: op (testDowncount j.config.staticAlloc) ::
        branchStub .sign Routine.bail :: .mark Routine.dispatcherNoCheck ::
        lookupItems j.config.staticAlloc j.table.resolve)
      (by rw [fixedItems]; cases j.config.staticAlloc <;> exact ⟨_, rfl⟩) ?_
    refine .step hj rfl hexec (.mark (.step hj (isPlain_testDowncount _) hexec' ?_))
    refine .jcc hj (fun _ => ?_) fun hstays => .mark ?_
    · -- the budget is spent, and the core still runs
      obtain ⟨f', hcmp, hequal⟩ := exec_cmp_coreState hd'
      refine hi.follow [op (.alu32mi .cmp (contextWord Context.coreStateOffset) 0),
          branchStub .equal Routine.outerLoop]
        (by rw [fixedItems]; cases j.config.staticAlloc <;> exact ⟨_, rfl⟩) ?_
      refine .step hj rfl hcmp (.jcc hj (fun _ => ?_) fun hstays => ?_)
      · exact leads_outerLoop hj hi hframe hfinds hnonzero (hd'.setFlags f') hcore
      · have hne := of_decide_eq_false (hequal.symm.trans hstays)
        exact absurd hcore hne
    · exact follows_lookup hj hi hframe hfinds hnonzero hd' (hsign.symm.trans hstays)
  exact hleads.mono fun d _ hd => hd.congr rfl

/-- A guard lets a machine pass that is within its budget, and sends others to the outer loop. -/
theorem reachFrom_guard (hj : j.Separated) (hi : j.Installed) (hframe : Framed frame)
    (hfinds : h.Finds j) {pc : UInt32} (hnonzero : j.lookup pc ≠ some 0) {guard : Nat}
    {body : UInt64} {code : List Insn}
    (hcode : code = [testDowncount j.config.staticAlloc, .jcc .notSign body,
      .mov32i Gpr.scratch pc, .jmp j.stubs.outerLoopPc])
    (hheld : j.code.Holds guard code) (hc : Stands j.config.staticAlloc frame x c)
    (hcore : x.coreState = 0) :
    ∃ d t, j.ReachFrom h (j.Within guard (guard + codeSize code))
        (c.goTo (addressOf guard), s) (d, t) ∧
      ((x.outOfBudget = false ∧ t = s ∧ d.ip = body ∧ Stands j.config.staticAlloc frame x d) ∨
        j.Visited h frame pc x d) := by
  obtain ⟨f, hexec, hsign⟩ := hc.exec_testDowncount
  have hc' := hc.setFlags f
  refine reachFrom_of_follows hheld ?_
  rw [hcode]
  refine .step hj (isPlain_testDowncount _) hexec (.jcc hj (fun htaken => ?_) fun _ =>
    .step hj rfl rfl (.jmp hj ?_))
  · have hpasses : (!f.holds .sign) = true := htaken
    rw [hsign, Bool.not_eq_true'] at hpasses
    exact ⟨_, s, .refl, .inl ⟨hpasses, rfl, rfl, hc'.goTo _⟩⟩
  · have hleads := leads_outerLoopPc (s := s) hj hi hframe hfinds hnonzero
      (hc'.setReg (r := Gpr.scratch) pc.toUInt64 (by decide)) hcore
      (Cpu.reg32_setReg32_self _ _ _)
    exact hleads.mono fun d _ => .inr

/-! ## Entering compiled code -/

/-- Pushing registers moves the stack pointer and changes only the words that it passes. -/
theorem execList_pushes (rs : List Gpr) (hrs : Gpr.rsp ∉ rs) (c : Cpu) :
    ∃ d, Cpu.execList (rs.map .push) c = .ok d ∧
      d.reg Gpr.rsp = c.reg Gpr.rsp - UInt64.ofNat (8 * rs.length) ∧
      (∀ r, r ≠ Gpr.rsp → d.reg r = c.reg r) ∧ d.context = c.context ∧
      ∀ a, (∀ k < rs.length, a ≠ c.reg Gpr.rsp - UInt64.ofNat (8 * (k + 1))) →
        d.stack.getD a 0 = c.stack.getD a 0 := by
  induction rs generalizing c with
  | nil => exact ⟨c, rfl, by simp, fun _ _ => rfl, rfl, fun _ _ => rfl⟩
  | cons r rs ih =>
    rw [List.mem_cons, not_or] at hrs
    obtain ⟨d, hexec, hrsp, hregs, hcontext, hstack⟩ := ih hrs.2 (c.push (c.reg r))
    -- counted from behind the first push, every word is one further up
    have hpassed : ∀ k, (c.push (c.reg r)).reg Gpr.rsp - UInt64.ofNat (8 * k) =
        c.reg Gpr.rsp - UInt64.ofNat (8 * (k + 1)) := by
      intro k
      rw [Cpu.reg_push_rsp, Nat.mul_succ, UInt64.ofNat_add]
      grind
    refine ⟨d, Cpu.execList_cons_of_ok rfl hexec, ?_, ?_, hcontext, ?_⟩
    · rw [hrsp, hpassed]
      rfl
    · intro q hq
      rw [hregs q hq, Cpu.reg_push_of_ne hq]
    · intro a ha
      rw [hstack a, Cpu.getD_stack_push, if_neg]
      · exact ha 0 (Nat.zero_lt_succ _)
      · intro k hk
        rw [hpassed]
        exact ha (k + 1) (Nat.succ_lt_succ hk)

/-- The code at the entry saves the registers of the caller and sets the context register. -/
def enterCode : List Insn :=
  Gpr.calleeSaved.map .push ++ [.alu64i .sub Gpr.rsp 8, .mov64 Gpr.context Gpr.arg1]

/-- The code at the entry moves the stack pointer below what it pushes and one word more.  The
address to return to stays on the stack. -/
theorem execList_enterCode {e : Cpu} (hbase : e.reg Gpr.arg1 = contextBase) :
    ∃ d frame, Cpu.execList (Gpr.calleeSaved.map .push) e = .ok d ∧
      Cpu.execList enterCode e = .ok frame ∧ frame.reg Gpr.rsp = e.reg Gpr.rsp - 56 ∧
      frame.stack = d.stack ∧
      frame.stack.getD (e.reg Gpr.rsp) 0 = e.stack.getD (e.reg Gpr.rsp) 0 ∧
      Stands false frame e.context frame := by
  obtain ⟨d, hpushes, hrsp, hregs, hcontext, hstack⟩ :=
    execList_pushes Gpr.calleeSaved (by decide) e
  -- the flags are named, not computed: nothing looks at them before they are set again
  obtain ⟨f, hsub⟩ : ∃ f, d.exec (.alu64i .sub Gpr.rsp 8) =
      .ok (({ d with flags := f } : Cpu).setReg Gpr.rsp (d.reg Gpr.rsp - 8)) := ⟨_, rfl⟩
  have hexec : Cpu.execList [.alu64i .sub Gpr.rsp 8, .mov64 Gpr.context Gpr.arg1] d =
      .ok ((({ d with flags := f } : Cpu).setReg Gpr.rsp (d.reg Gpr.rsp - 8)).setReg Gpr.context
        (d.reg Gpr.arg1)) := by
    refine Cpu.execList_cons_of_ok hsub (Cpu.execList_cons_of_ok ?_ rfl)
    rw [Cpu.exec, Cpu.reg_setReg_of_ne (by decide)]
    rfl
  refine ⟨d, _, hpushes, Cpu.execList_append_of_ok hpushes hexec, ?_, rfl, ?_,
    .of_lasting ?_ ?_ (.refl _)⟩
  · rw [Cpu.reg_setReg_of_ne (by decide), Cpu.reg_setReg_self, hrsp]
    show e.reg Gpr.rsp - 48 - 8 = e.reg Gpr.rsp - 56
    grind
  · -- none of the pushes reaches the address to return to
    refine hstack _ fun k hk heq => ?_
    have hnonzero : ∀ k < 6, UInt64.ofNat (8 * (k + 1)) ≠ 0 := by decide
    have hne := hnonzero k hk
    grind
  · rw [Cpu.reg_setReg_self, hregs _ (by decide), hbase]
  · exact congrArg Context.lasting hcontext

/-- What the dispatcher may rely on when it is called. -/
structure Entered (j : Jit) (e : Cpu) : Prop where
  ip : e.ip = j.stubs.enter
  base : e.reg Gpr.arg1 = contextBase
  returns : e.stack.getD (e.reg Gpr.rsp) 0 = returnAddress

/-- On entry, one word is on the stack. -/
theorem rsp_enterState (j : Jit) (x : Context) :
    (j.enterState x).reg Gpr.rsp = stackTop - 8 := by
  rw [enterState, Cpu.reg_push_rsp, Cpu.reg_setReg_of_ne (by decide), Cpu.reg_setReg_self]

/-- A run on a guest context calls the dispatcher as it should be called. -/
theorem entered_enterState (j : Jit) (x : Context) : j.Entered (j.enterState x) where
  ip := rfl
  base := by
    rw [enterState, Cpu.reg_push_of_ne (by decide), Cpu.reg_setReg_self]
  returns := by
    rw [rsp_enterState, enterState, Cpu.getD_stack_push, if_pos]
    rw [Cpu.reg_setReg_of_ne (by decide), Cpu.reg_setReg_self]

/-- A run visits the program counter of the context that it is started with. -/
theorem leads_enter (hj : j.Separated) (hi : j.Installed) (hfinds : h.Finds j) {e : Cpu}
    (he : j.Entered e) (hnonzero : j.lookup e.context.pc ≠ some 0) (hcore : e.context.coreState = 0)
    (s : σ) :
    ∃ frame, Framed frame ∧ ∃ d t, j.ReachFrom h j.Shared (e, s) (d, t) ∧
      j.Visited h frame e.context.pc e.context d := by
  obtain ⟨_, frame, -, hexec, hrsp, -, hkept, hstands⟩ := execList_enterCode he.base
  -- seven words below the return address
  have hframe : Framed frame := by
    refine ⟨?_⟩
    rw [hrsp, show e.reg Gpr.rsp - 56 + 56 = e.reg Gpr.rsp by grind]
    exact hkept.trans he.returns
  have hleads : j.Leads h (j.place Routine.enter.symbol) e s fun d _ =>
      j.Visited h frame e.context.pc e.context d := by
    refine hi.follow (enterCode.map Item.insn ++ (callLoad j.config.staticAlloc ++
        (op (.load32 Gpr.scratch (contextWord Context.pcOffset)) :: .mark Routine.outerLoopPc ::
        op (.store32 (contextWord Context.pcOffset) Gpr.scratch) :: .mark Routine.outerLoop ::
        outerLoopItems j.config.staticAlloc j.table.advance)))
      (by rw [fixedItems]; cases j.config.staticAlloc <;> exact ⟨_, rfl⟩) ?_
    refine .steps hj (by decide) hexec (.loaded hj hi hstands fun d hd _ => ?_)
    have hpc : (d.setReg32 Gpr.scratch d.context.pc).reg32 Gpr.scratch = e.context.pc := by
      rw [Cpu.reg32_setReg32_self]
      exact (congrArg Context.pc hd.context :)
    obtain ⟨d', hstore, hd'⟩ := exec_storePc (hd.setReg (r := Gpr.scratch) _ (by decide)) hpc
    refine .step hj rfl (Cpu.exec_load_word hd.base (by decide) (Context.load?_pc _) _)
      (.mark (.step hj rfl hstore (.mark ?_)))
    exact follows_outerLoop hj hi hframe hfinds hnonzero hd' hcore
  obtain ⟨d, t, hreach, hd⟩ := hleads
  rw [← hi.enter_eq, ← he.ip, Cpu.goTo_ip] at hreach
  exact ⟨frame, hframe, d, t, hreach, hd⟩

end Jit

end Dynarec
