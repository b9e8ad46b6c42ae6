import Dynarec.Proofs.Jit.Bodies
import Dynarec.Proofs.Lower.Tame
import Dynarec.Proofs.Machine.Dispatch
import Dynarec.Proofs.Machine.RoundingBits

/-!
# Stack, budget and rounding mode while compiled code runs

From the entry of the dispatcher to its return, every handler is called with the stack pointer where
the entry has put it, the register of the context is set whenever an instruction takes its value, a
body starts only within the budget, the dispatcher calls handlers in the rounding mode of the host
and goes to bodies in that of the guest, and in the end the registers of the caller are back
(`Jit.Sound`).  This is a property of all states of a run, whatever handlers do and whatever the
blocks compute; so the code is walked through from cutpoint to cutpoint (`Until`).

Shape of the argument: cutpoints are the outer loop, the starts of bodies, and the end of the run
(`Jit.Rests`).  At the first two, the machine stands in the frame that the entry has set up
(`Stands`).  The fixed routines are walked through item by item (`Jit.Goes`) in the order in which
`Proofs.Machine.Dispatch` follows them, and a call is walked through from the call to the return
(`Jit.Serves`).

A block without an exit runs off its end, if that is not checked for.  Where it comes to code that
no block has written, nothing can be said (`Jit.RunsOut`).  Where it comes to the body of another
block, nothing can be said of the budget; so a run in which the budget is watched must not do that
either.
-/

namespace Dynarec

open Lower CodeCache Stubs

/-- The downcount, where it is kept. -/
def Cpu.downcount (c : Cpu) (staticAlloc : Bool) : UInt32 :=
  if staticAlloc then c.reg32 Gpr.downcount else c.context.downcount

namespace Handlers

variable {σ : Type}

/-- Looking up code does not change the downcount. -/
def KeepsBudget (h : Handlers σ) : Prop :=
  ∀ mxcsr x s, (h.resolve mxcsr x s).context.downcount = x.downcount

/-- Looking up code finds nothing, or the body of a compiled block. -/
def Resolves (h : Handlers σ) (j : Jit) : Prop :=
  ∀ mxcsr x s, (h.resolve mxcsr x s).answer = 0 ∨ ∃ num entry t,
    j.blocks.get? num = some entry ∧ entry.target = some t ∧
      (h.resolve mxcsr x s).answer = addressOf t

end Handlers

namespace Jit

variable {σ : Type}

/-- A step comes to the end of a body, and not by a jump: the body has been run through without an
exit.  A body without code ends where it starts.  (A jump to the end of a body goes to the guard or
the body that is there.) -/
def RunsOff (j : Jit) (T : Body → Prop) (x y : Cpu) : Prop :=
  ∃ q, T q ∧ ¬ j.Redirected q ∧ y.ip = addressOf (q.stop j.config) ∧
    (q.stop j.config = q.target ∨ ∀ i n, j.decodeAt x.ip = some (i, n) → i.isJump = false)

/-- Behind the pieces of a body there is no code of its block, and no block has its code there. -/
def Last (j : Jit) (T : Body → Prop) (q : Body) : Prop :=
  q.stop j.config = copyStop j.layoutEnv q.target q.pieces ∧
    ∀ r, T r → copyLow j.layoutEnv r.target ≠ q.stop j.config

/-- A step comes to the end of such a body, and not by a jump: control leaves the code that has been
written. -/
def RunsOut (j : Jit) (T : Body → Prop) (x y : Cpu) : Prop :=
  ∃ q, T q ∧ ¬ j.Redirected q ∧ j.Last T q ∧ y.ip = addressOf (q.stop j.config) ∧
    ∀ i n, j.decodeAt x.ip = some (i, n) → i.isJump = false

/-- A step of a run that does not leave the code that has been written. -/
def StepInside (j : Jit) (h : Handlers σ) (T : Body → Prop) (x y : Cpu × σ) : Prop :=
  j.Step h x y ∧ ¬ j.RunsOut T x.1 y.1

/-- A step of a run.  If the budget is watched (`w`), then without a check for missing exits no
block runs off its end. -/
def Stays (j : Jit) (h : Handlers σ) (T : Body → Prop) (w : Prop) (x y : Cpu × σ) : Prop :=
  j.StepInside h T x y ∧ (w → j.config.diagnostics = false → ¬ j.RunsOff T x.1 y.1)

/-- An address at which a body ends, if control may not come there from the body. -/
def Ended (j : Jit) (T : Body → Prop) (w : Prop) (a : UInt64) : Prop :=
  ∃ q, T q ∧ ¬ j.Redirected q ∧ a = addressOf (q.stop j.config) ∧
    (j.Last T q ∨ w ∧ j.config.diagnostics = false)

/-- An address at which a body starts that has no code, if control may not come there. -/
def Blank (j : Jit) (T : Body → Prop) (w : Prop) (a : UInt64) : Prop :=
  w ∧ j.config.diagnostics = false ∧ ∃ q, T q ∧ ¬ j.Redirected q ∧
    a = addressOf (q.stop j.config) ∧ q.stop j.config = q.target

/-- An address at which a registered block has its body. -/
def HasBody (j : Jit) (a : UInt64) : Prop :=
  ∃ num entry t, j.blocks.get? num = some entry ∧ entry.target = some t ∧ a = addressOf t

/-- What is kept up in every state of a run that was entered with the processor `e`. -/
structure Sound (j : Jit) (T : Body → Prop) (w : Prop) (e : Cpu) (x : Cpu × σ) : Prop where
  /-- A handler is called on top of the frame of the dispatcher. -/
  aligned : j.table.Has x.1.ip → x.1.reg Gpr.rsp = e.reg Gpr.rsp - 64
  /-- The context pointer is set when it is used. -/
  based : ∀ i n, j.decodeAt x.1.ip = some (i, n) → i.uses Gpr.context →
    x.1.reg Gpr.context = contextBase
  /-- A body starts within the budget. -/
  budget : w → ∀ q, T q → x.1.ip = addressOf q.target →
    x.1.downcount j.config.staticAlloc < 0x80000000
  /-- Time is advanced and code is looked up in the rounding mode of the host, and the run ends in
  it. -/
  hosted : x.1.ip = j.table.advance ∨ x.1.ip = j.table.resolve ∨ x.1.ip = returnAddress →
    Rounding.Clear x.1.mxcsr
  /-- The dispatcher goes to bodies, in the rounding mode of the guest.  Nothing else jumps through a
  register. -/
  dispatched : ∀ r n, j.decodeAt x.1.ip = some (.jmpReg r, n) →
    Rounding.Applied x.1.context.fcr31 x.1.mxcsr ∧ j.HasBody (x.1.reg r)
  /-- In the end, the registers of the caller are back. -/
  returned : x.1.ip = returnAddress → x.1.reg Gpr.rsp = e.reg Gpr.rsp + 8 ∧
    ∀ r ∈ Gpr.calleeSaved, x.1.reg r = e.reg r

/-- The frame that the entry sets up: the registers of the caller are saved below the address to
return to. -/
structure Frames (e frame : Cpu) : Prop where
  pointer : frame.reg Gpr.rsp = e.reg Gpr.rsp - 56
  returns : frame.stack.getD (e.reg Gpr.rsp) 0 = returnAddress
  saved : ∀ k r, Gpr.calleeSaved[k]? = some r →
    frame.stack.getD (e.reg Gpr.rsp - UInt64.ofNat (8 * (k + 1))) 0 = e.reg r

/-- The cutpoints of a run. -/
inductive Rests (j : Jit) (T : Body → Prop) (w : Prop) (e frame : Cpu) : Cpu × σ → Prop
  | outer {c : Cpu} {s : σ} {x : Context} (hstands : Stands j.config.staticAlloc frame x c) :
    Rests j T w e frame (c.goTo (j.place Routine.outerLoop.symbol), s)
  | body {q : Body} {c : Cpu} {s : σ} {x : Context} (hq : T q)
    (hblank : ¬ j.Blank T w (addressOf q.target))
    (hstands : Stands j.config.staticAlloc frame x c)
    (hbudget : w → x.outOfBudget = false) :
    Rests j T w e frame (c.goTo (addressOf q.target), s)
  | returned {c : Cpu} {s : σ} (hpointer : c.reg Gpr.rsp = e.reg Gpr.rsp + 8)
    (hsaved : ∀ r ∈ Gpr.calleeSaved, c.reg r = e.reg r) (hclear : Rounding.Clear c.mxcsr) :
    Rests j T w e frame (c.goTo returnAddress, s)

/-- What is known of a run from its start. -/
structure Underway (j : Jit) (h : Handlers σ) (T : Body → Prop) (w : Prop) (e frame : Cpu) :
    Prop where
  laid : j.Laid
  separate : j.table.Separate j.code.size
  retains : j.Retains T
  resolves : h.Resolves j
  keeps : w → h.KeepsBudget
  frames : Frames e frame

section

variable {j : Jit} {h : Handlers σ} {T : Body → Prop} {w : Prop} {e frame : Cpu} {c d : Cpu} {s : σ}
  {x : Context} {items : List Item} {P : Cpu → σ → Prop}

/-- An engine with a run underway is ready. -/
theorem Underway.ready (hrun : j.Underway h T w e frame) : j.Ready :=
  hrun.laid.ready

/-- Its handlers are apart from each other and from the code. -/
theorem Underway.separated (hrun : j.Underway h T w e frame) : j.Separated :=
  ⟨hrun.ready.size_le, hrun.separate⟩

/-- Every way on from a state is sound until it comes to a cutpoint. -/
abbrev Nears (j : Jit) (h : Handlers σ) (T : Body → Prop) (w : Prop) (e frame : Cpu) :
    Cpu × σ → Prop :=
  Until (j.Stays h T w) (j.Sound T w e) (j.Rests T w e frame)

/-- The same, with a first step. -/
abbrev Advances (j : Jit) (h : Handlers σ) (T : Body → Prop) (w : Prop) (e frame : Cpu) :
    Cpu × σ → Prop :=
  Passes (j.Stays h T w) (j.Sound T w e) (j.Rests T w e frame)

/-! ## Single steps -/

/-- An instruction that does not jump does not run off the end of a body. -/
theorem Stays.not_ended {x y : Cpu × σ} (hstep : j.Stays h T w x y)
    (hjump : ∀ i n, j.decodeAt x.1.ip = some (i, n) → i.isJump = false) :
    ¬ j.Ended T w y.1.ip := by
  rintro ⟨q, hq, hlive, hip, hlast | ⟨hw, hdiagnostics⟩⟩
  · exact hstep.1.2 ⟨q, hq, hlive, hlast, hip, hjump⟩
  · exact hstep.2 hw hdiagnostics ⟨q, hq, hlive, hip, .inr hjump⟩

/-- No step leads to a body without code. -/
theorem Stays.not_blank {x y : Cpu × σ} (hstep : j.Stays h T w x y) : ¬ j.Blank T w y.1.ip := by
  rintro ⟨hw, hdiagnostics, q, hq, hlive, hip, hstop⟩
  exact hstep.2 hw hdiagnostics ⟨q, hq, hlive, hip, .inl hstop⟩

/-- Where no body starts, code is sound if it does not use the context pointer before that is set
and does not jump through a register, but as the dispatcher does. -/
theorem Underway.sound_of_holds (hrun : j.Underway h T w e frame) {offset : Nat} {i : Insn}
    {is : List Insn} (hcode : j.code.Holds offset (i :: is))
    (hbody : w → ∀ q, T q → offset = q.target →
      c.downcount j.config.staticAlloc < 0x80000000)
    (hbased : i.uses Gpr.context → c.reg Gpr.context = contextBase)
    (hmode : ∀ r, i = .jmpReg r → Rounding.Applied c.context.fcr31 c.mxcsr ∧ j.HasBody (c.reg r))
    (s : σ) : j.Sound T w e (c.goTo (addressOf offset), s) := by
  have hsize := hrun.ready.size_le
  have hlt : offset < j.code.size := by
    have hin := hcode.inside
    have hpos := i.size_pos
    rw [Insn.codeSize_cons] at hin
    omega
  -- inside the region there is no handler, nor the address that the run returns to
  have hnot := Handlers.not_has_addressOf hrun.separate hsize hlt
  have hreturn : addressOf offset ≠ returnAddress := addressOf_ne_returnAddress (by omega)
  refine ⟨fun hhas => absurd hhas hnot, fun k n hk huses => ?_, fun hwatched q hq hip => ?_, ?_,
    fun r n hr => ?_, fun hip => absurd hip hreturn⟩
  · have hdecode : j.decodeAt (addressOf offset) = some (k, n) := hk
    rw [decodeAt_of_holds hsize hcode] at hdecode
    cases hdecode
    exact hbased huses
  · have hq' := (hrun.retains.target_lt hrun.ready hq).2
    exact hbody hwatched q hq (addressOf_inj (by omega) (by omega) hip)
  · show addressOf offset = _ ∨ addressOf offset = _ ∨ addressOf offset = _ → _
    rintro (hip | hip | hip)
    · exact absurd (hip ▸ j.table.has_advance) hnot
    · exact absurd (hip ▸ j.table.has_resolve) hnot
    · exact absurd hip hreturn
  · have hdecode : j.decodeAt (addressOf offset) = some (.jmpReg r, n) := hr
    rw [decodeAt_of_holds hsize hcode] at hdecode
    cases hdecode
    exact hmode r rfl

/-- At an instruction of a fixed routine, the context and, for jumps to bodies, the rounding mode
are all there is to check. -/
theorem Underway.sound_of_routine (hrun : j.Underway h T w e frame) {offset : Nat} {i : Insn}
    (hcode : j.code.Holds offset [i]) (hle : offset + i.size ≤ j.routinesLen)
    (hbased : i.uses Gpr.context → c.reg Gpr.context = contextBase)
    (hmode : ∀ r, i = .jmpReg r → Rounding.Applied c.context.fcr31 c.mxcsr ∧ j.HasBody (c.reg r))
    (s : σ) : j.Sound T w e (c.goTo (addressOf offset), s) := by
  refine hrun.sound_of_holds hcode (fun _ q hq heq => ?_) hbased hmode s
  have hlow := (hrun.retains.target_lt hrun.ready hq).1
  have hpos := i.size_pos
  omega

/-! ## Walking through the fixed routines -/

/-- Wherever these items are placed in the fixed routines, they lead on to a cutpoint. -/
def Goes (j : Jit) (h : Handlers σ) (T : Body → Prop) (w : Prop) (e frame : Cpu)
    (items : List Item) (c : Cpu) (s : σ) : Prop :=
  ∀ offset, Item.Placed j.code j.place offset items →
    offset + (items.map Item.size).sum ≤ j.routinesLen →
      j.Advances h T w e frame (c.goTo (addressOf offset), s)

/-- A call to an address leads on to a cutpoint, if that is so from its return on, in all states
that satisfy `P`. -/
def Serves (j : Jit) (h : Handlers σ) (T : Body → Prop) (w : Prop) (e frame : Cpu) (a : UInt64)
    (c : Cpu) (s : σ) (P : Cpu → σ → Prop) : Prop :=
  ∀ back, (¬ j.Ended T w back → ∀ d t, P d t → j.Nears h T w e frame (d.goTo back, t)) →
    j.Nears h T w e frame ((c.push back).goTo a, s)

/-- A plain instruction is walked through by executing it. -/
theorem Goes.step (hrun : j.Underway h T w e frame) {i : Insn} (hplain : i.isPlain)
    (hbased : i.uses Gpr.context → c.reg Gpr.context = contextBase) (hexec : c.exec i = .ok d)
    (hrest : j.Goes h T w e frame items d s) : j.Goes h T w e frame (.insn i :: items) c s := by
  intro offset hplaced hle
  obtain ⟨hi, hitems⟩ := hplaced
  rw [List.map_cons, List.sum_cons, Item.size, ← Nat.add_assoc] at hle
  rw [Insn.mapTarget_of_isPlain hplain] at hi
  have hmode : ∀ r, i ≠ .jmpReg r := Insn.ne_jmpReg_of_isPlain hplain
  refine ⟨hrun.sound_of_routine hi (by omega) hbased (fun r hr => absurd hr (hmode r)) s,
    fun y hstep => ?_⟩
  obtain ⟨hexec', hs⟩ := hstep.1.1.exec_of_holds hrun.separated hi
  rw [Cpu.exec_goTo hplain, hexec] at hexec'
  obtain ⟨y, t⟩ := y
  cases hexec'
  cases hs
  exact (hrest _ hitems hle).until

/-- So are plain instructions that do not use the context. -/
theorem Goes.steps (hrun : j.Underway h T w e frame) {is : List Insn} (hplain : ∀ i ∈ is, i.isPlain)
    (hunused : ∀ i ∈ is, i.uses Gpr.context = false) (hexec : Cpu.execList is c = .ok d)
    (hrest : j.Goes h T w e frame items d s) :
    j.Goes h T w e frame (is.map .insn ++ items) c s := by
  induction is generalizing c with
  | nil =>
    obtain rfl : c = d := Except.ok.inj hexec
    exact hrest
  | cons i is ih =>
    obtain ⟨c₁, hi, his⟩ := Cpu.execList_cons_eq_ok.mp hexec
    refine .step hrun (hplain i List.mem_cons_self) (fun huses => ?_) hi
      (ih (fun k hk => hplain k (List.mem_cons_of_mem i hk))
        (fun k hk => hunused k (List.mem_cons_of_mem i hk)) his)
    rw [hunused i List.mem_cons_self] at huses
    cases huses

/-- So are quiet ones, since the register of the context is set and stays so. -/
theorem Goes.quiets (hrun : j.Underway h T w e frame) {is : List Insn}
    (hquiet : ∀ i ∈ is, i.isQuiet) (hc : c.reg Gpr.context = contextBase)
    (hexec : Cpu.execList is c = .ok d) (hrest : j.Goes h T w e frame items d s) :
    j.Goes h T w e frame (is.map .insn ++ items) c s := by
  induction is generalizing c with
  | nil =>
    obtain rfl : c = d := Except.ok.inj hexec
    exact hrest
  | cons i is ih =>
    obtain ⟨c₁, hi, his⟩ := Cpu.execList_cons_eq_ok.mp hexec
    have hiquiet := hquiet i List.mem_cons_self
    exact .step hrun (Insn.isPlain_of_isQuiet hiquiet) (fun _ => hc) hi
      (ih (fun k hk => hquiet k (List.mem_cons_of_mem i hk))
        ((Cpu.steady_of_isQuiet hiquiet hi).base.trans hc) his)

/-- Labels take no step. -/
theorem Goes.mark {l : Label} (hrest : j.Goes h T w e frame items c s) :
    j.Goes h T w e frame (.mark l :: items) c s := by
  intro offset hplaced hle
  rw [List.map_cons, List.sum_cons, Item.size, Nat.zero_add] at hle
  exact hrest offset hplaced.2 hle

/-- An instruction that goes elsewhere. -/
theorem Underway.advances_branch (hrun : j.Underway h T w e frame) {i : Insn} {offset : Nat}
    (hplaced : Item.Placed j.code j.place offset (.insn i :: items))
    (hle : offset + ((Item.insn i :: items).map Item.size).sum ≤ j.routinesLen)
    (hunused : (i.mapTarget j.place).uses Gpr.context = false)
    (hmode : ∀ r, i.mapTarget j.place = .jmpReg r →
      Rounding.Applied c.context.fcr31 c.mxcsr ∧ j.HasBody (c.reg r))
    (hnext : ∀ y, (c.goTo (addressOf (offset + i.size))).exec (i.mapTarget j.place) = .ok y →
      j.Stays h T w (c.goTo (addressOf offset), s) (y, s) → j.Nears h T w e frame (y, s)) :
    j.Advances h T w e frame (c.goTo (addressOf offset), s) := by
  have hsize : (i.mapTarget j.place).size = i.size := Insn.size_mapTarget ..
  rw [List.map_cons, List.sum_cons, Item.size] at hle
  refine ⟨hrun.sound_of_routine hplaced.1 (by omega) (by simp [hunused]) hmode s,
    fun y hstep => ?_⟩
  obtain ⟨hexec, hs⟩ := hstep.1.1.exec_of_holds hrun.separated hplaced.1
  obtain ⟨y, t⟩ := y
  cases hs
  rw [hsize] at hexec
  exact hnext y hexec hstep

/-- A jump goes on at its target. -/
theorem Goes.jmp (hrun : j.Underway h T w e frame) {a : UInt64}
    (hto : j.Nears h T w e frame (c.goTo (j.place a), s)) :
    j.Goes h T w e frame (.insn (.jmp a) :: items) c s := by
  intro offset hplaced hle
  refine hrun.advances_branch hplaced hle rfl (by rintro r ⟨⟩) fun y hexec _ => ?_
  cases hexec
  exact hto

/-- A conditional jump goes on at its target or behind it. -/
theorem Goes.jcc (hrun : j.Underway h T w e frame) {cond : Cond} {a : UInt64}
    (htaken : c.flags.holds cond → j.Nears h T w e frame (c.goTo (j.place a), s))
    (hrest : c.flags.holds cond = false → j.Goes h T w e frame items c s) :
    j.Goes h T w e frame (.insn (.jcc cond a) :: items) c s := by
  intro offset hplaced hle
  refine hrun.advances_branch hplaced hle rfl (by rintro r ⟨⟩) fun y hexec _ => ?_
  obtain rfl := Except.ok.inj hexec
  rw [Cpu.flags_goTo]
  rw [List.map_cons, List.sum_cons, Item.size, ← Nat.add_assoc] at hle
  cases hcond : c.flags.holds cond with
  | true => exact htaken hcond
  | false => exact (hrest hcond _ hplaced.2 hle).until

/-- A return goes on at the address on top of the stack, where no body may have run off its end. -/
theorem Goes.ret (hrun : j.Underway h T w e frame)
    (hto : ¬ j.Ended T w c.top → j.Nears h T w e frame (c.drop.goTo c.top, s)) :
    j.Goes h T w e frame (.insn .ret :: items) c s := by
  intro offset hplaced hle
  refine hrun.advances_branch hplaced hle rfl (by rintro r ⟨⟩) fun y hexec hstep => ?_
  have hended := hstep.not_ended fun i n hi => by
    rw [Cpu.ip_goTo, decodeAt_of_holds hrun.ready.size_le hplaced.1] at hi
    cases hi
    rfl
  cases hexec
  exact hto hended

/-- A jump to a body needs the rounding mode of the guest. -/
theorem Goes.jmpReg (hrun : j.Underway h T w e frame) {r : Gpr} (hr : r ≠ Gpr.context)
    (happlied : Rounding.Applied c.context.fcr31 c.mxcsr) (hbody : j.HasBody (c.reg r))
    (hto : ¬ j.Blank T w (c.reg r) → j.Nears h T w e frame (c.goTo (c.reg r), s)) :
    j.Goes h T w e frame (.insn (.jmpReg r) :: items) c s := by
  intro offset hplaced hle
  refine hrun.advances_branch hplaced hle (by simpa [Insn.mapTarget, Insn.uses] using hr)
    (by rintro r ⟨⟩; exact ⟨happlied, hbody⟩) fun y hexec hstep => ?_
  cases hexec
  exact hto hstep.not_blank

/-- A call is walked through from the call to the return, by what the callee serves. -/
theorem Goes.call (hrun : j.Underway h T w e frame) {a : UInt64}
    (hcall : j.Serves h T w e frame (j.place a) c s P)
    (hrest : ∀ d t, P d t → j.Goes h T w e frame items d t) :
    j.Goes h T w e frame (.insn (.call a) :: items) c s := by
  intro offset hplaced hle
  refine hrun.advances_branch hplaced hle rfl (by rintro r ⟨⟩) fun y hexec _ => ?_
  cases hexec
  rw [List.map_cons, List.sum_cons, Item.size, ← Nat.add_assoc] at hle
  exact hcall _ fun _ d t hp => (hrest d t hp _ hplaced.2 hle).until

/-- So is a call of an address in a register. -/
theorem Goes.callReg (hrun : j.Underway h T w e frame) {r : Gpr} (hr : r ≠ Gpr.context)
    (hcall : j.Serves h T w e frame (c.reg r) c s P)
    (hrest : ∀ d t, P d t → j.Goes h T w e frame items d t) :
    j.Goes h T w e frame (.insn (.callReg r) :: items) c s := by
  intro offset hplaced hle
  refine hrun.advances_branch hplaced hle (by simpa [Insn.mapTarget, Insn.uses] using hr)
    (by rintro r ⟨⟩) fun y hexec _ => ?_
  cases hexec
  rw [List.map_cons, List.sum_cons, Item.size, ← Nat.add_assoc] at hle
  exact hcall _ fun _ d t hp => (hrest d t hp _ hplaced.2 hle).until

/-- A routine is walked through from its label on. -/
theorem Underway.follow (hrun : j.Underway h T w e frame) {l : Label} (rest : List Item)
    (hafter : ∃ after, Item.after? l j.fixedItems = some (rest ++ after))
    (hgoes : j.Goes h T w e frame rest c s) :
    j.Advances h T w e frame (c.goTo (j.place l.symbol), s) := by
  obtain ⟨after, hafter⟩ := hafter
  obtain ⟨before, heq⟩ := Item.eq_of_after? hafter
  have hplaced := hrun.ready.installed.placed
  have hlen : j.routinesLen = (j.fixedItems.map Item.size).sum := rfl
  rw [heq] at hplaced hlen
  obtain ⟨hl, hrest⟩ := (Item.placed_append.mp hplaced).2
  rw [hl]
  refine hgoes _ (Item.placed_append.mp hrest).1 ?_
  rw [hlen]
  simp only [List.map_append, List.map_cons, List.sum_append, List.sum_cons, Item.size]
  omega

/-! ## Calls -/

/-- A handler is walked through by its answer.  Those that the dispatcher calls find the rounding
mode of the host. -/
theorem Underway.serves_handler (hrun : j.Underway h T w e frame) {a : UInt64} (ha : j.table.Has a)
    (hstack : frame.SameFrame c)
    (hhost : a = j.table.advance ∨ a = j.table.resolve → Rounding.Clear c.mxcsr) :
    j.Serves h T w e frame a c s fun d t => ∃ f, h.find? j.table a (c.reg Gpr.arg2) = some f ∧
      t = (f c.mxcsr c.context s).state ∧
      c.Effect d (Gpr.scratch :: callerSaved) (f c.mxcsr c.context s).context c.mxcsr ∧
      d.reg Gpr.scratch = (f c.mxcsr c.context s).answer := by
  intro back hback
  have hfree := hrun.separate.free_of_has ha
  have hsize := hrun.ready.size_le
  have hdecode : j.decodeAt a = none := decodeAt_of_outside hfree.2
  -- a handler is outside the code, so that only what is asked of calls has to be checked
  refine .step ⟨fun _ => ?_, fun i n hi => ?_, fun _ q hq hip => ?_, ?_, fun r n hr => ?_,
    fun hip => absurd hip hfree.1⟩ fun y hstep => ?_
  · rw [Cpu.reg_goTo, Cpu.reg_push_rsp, hstack.pointer, hrun.frames.pointer]
    grind
  · cases hdecode.symm.trans hi
  · have htarget := (hrun.retains.target_lt hrun.ready hq).2
    exact absurd hip.symm (Handlers.ne_addressOf hfree hsize htarget)
  · rintro (hip | hip | hip)
    · exact hhost (.inl hip)
    · exact hhost (.inr hip)
    · exact absurd hip hfree.1
  · cases hdecode.symm.trans hr
  · have hended := hstep.not_ended fun i n hi => by
      cases hdecode.symm.trans hi
    obtain ⟨f, hfind, -, rfl⟩ := hstep.1.1.afterCall_of_free hfree
    rw [Cpu.reg_push_of_ne (by decide)] at hfind
    rw [Cpu.mxcsr_push, Cpu.context_push] at hended ⊢
    obtain ⟨hip, heffect, hanswer⟩ := c.effect_afterCall back a (f c.mxcsr c.context s)
    rw [hip] at hended
    have hnears := hback hended _ _ ⟨f, hfind, rfl, heffect, hanswer⟩
    have hsame := Cpu.goTo_ip (((c.push back).goTo a).afterCall (f c.mxcsr c.context s))
    rw [hip] at hsame
    rw [hsame] at hnears
    exact hnears

/-- A routine is called at its label. -/
theorem Underway.serves_of_goes (hrun : j.Underway h T w e frame) {l : Label} (rest : List Item)
    (hafter : ∃ after, Item.after? l j.fixedItems = some (rest ++ after))
    (hgoes : ∀ back, (¬ j.Ended T w back → ∀ d t, P d t → j.Nears h T w e frame (d.goTo back, t)) →
      j.Goes h T w e frame rest (c.push back) s) :
    j.Serves h T w e frame (j.place l.symbol) c s P :=
  fun back hback => (hrun.follow rest hafter (hgoes back hback)).until

/-- The end of a called routine. -/
theorem Goes.back (hrun : j.Underway h T w e frame) {c₁ : Cpu} {rs : List Gpr} {back : UInt64}
    (hregs : ∀ r, r ∉ rs → c₁.reg r = (c.push back).reg r)
    (hstack : c₁.stack = (c.push back).stack) (hrsp : Gpr.rsp ∉ rs)
    (hback : ¬ j.Ended T w back → ∀ d t, P d t → j.Nears h T w e frame (d.goTo back, t))
    (hp : ∀ d, c.Effect d rs c₁.context c₁.mxcsr → (∀ r, r ≠ Gpr.rsp → d.reg r = c₁.reg r) →
      P d s) : j.Goes h T w e frame (.insn .ret :: items) c₁ s := by
  have htop : c₁.top = back := Cpu.top_of_called (hregs _ hrsp) hstack
  refine .ret hrun fun hended => ?_
  rw [htop] at hended ⊢
  exact hback hended _ _ (hp _ (Cpu.effect_of_return hregs hstack hrsp)
    fun r hr => Cpu.reg_drop_of_ne hr c₁)

/-- The downcount goes to memory. -/
theorem Underway.serves_saveStatic (hrun : j.Underway h T w e frame)
    (hstatic : j.config.staticAlloc = true) (hc : c.reg Gpr.context = contextBase) :
    j.Serves h T w e frame (j.place Routine.saveStatic.symbol) c s fun d t => t = s ∧
      c.Effect d [] { c.context with downcount := c.reg32 Gpr.downcount } c.mxcsr := by
  refine hrun.serves_of_goes
    [.insn (.store32 (contextWord Context.downcountOffset) Gpr.downcount), .insn .ret]
    (by rw [fixedItems, hstatic]; exact ⟨_, rfl⟩) fun back hback => ?_
  have hc' := context_push c back hc
  have hreg : (c.push back).reg32 Gpr.downcount = c.reg32 Gpr.downcount := by
    rw [Cpu.reg32, Cpu.reg_push_of_ne (by decide), Cpu.reg32]
  refine .step hrun rfl (fun _ => hc')
    (Cpu.exec_store_word hc' (by decide) (Context.store?_downcount _ _)) ?_
  rw [hreg]
  exact .back hrun (fun _ _ => rfl) rfl List.not_mem_nil hback fun d heffect _ => ⟨rfl, heffect⟩

/-- The downcount goes to its register. -/
theorem Underway.serves_loadStatic (hrun : j.Underway h T w e frame)
    (hstatic : j.config.staticAlloc = true) (hc : c.reg Gpr.context = contextBase) :
    j.Serves h T w e frame (j.place Routine.loadStatic.symbol) c s fun d t => t = s ∧
      c.Effect d [Gpr.downcount] c.context c.mxcsr ∧
      d.reg32 Gpr.downcount = c.context.downcount := by
  refine hrun.serves_of_goes
    [.insn (.load32 Gpr.downcount (contextWord Context.downcountOffset)), .insn .ret]
    (by rw [fixedItems, hstatic]; exact ⟨_, rfl⟩) fun back hback => ?_
  have hc' := context_push c back hc
  refine .step hrun rfl (fun _ => hc')
    (Cpu.exec_load_word hc' (by decide) (Context.load?_downcount _) _) ?_
  have hrsp : Gpr.rsp ∉ [Gpr.downcount] := by decide
  refine .back hrun (fun r hr => ?_) rfl hrsp hback fun d heffect hd => ⟨rfl, heffect, ?_⟩
  · exact Cpu.reg_setReg32_of_ne (by simpa using hr) _ _
  · rw [Cpu.reg32, hd _ (by decide)]
    exact Cpu.reg32_setReg32_self _ _ _

/-- What the routines for the rounding mode leave behind. -/
def Settles (m : UInt32) (c : Cpu) (s : σ) (d : Cpu) (t : σ) : Prop :=
  t = s ∧ ∃ x, c.Effect d [Gpr.scratch] x m ∧ x.lasting = c.context.lasting

section RoundingMode

variable {c₁ : Cpu} {back : UInt64} {m : UInt32}

/-- The end of a routine for the rounding mode. -/
theorem Goes.settled (hrun : j.Underway h T w e frame) (hin : InRoutine c back c₁)
    (hlasting : c₁.context.lasting = c.context.lasting) (hmxcsr : c₁.mxcsr = m)
    (hback : ¬ j.Ended T w back → ∀ d t, Settles m c s d t →
      j.Nears h T w e frame (d.goTo back, t)) :
    j.Goes h T w e frame (.insn .ret :: items) c₁ s :=
  .back hrun hin.regs hin.stack (by decide) hback fun d heffect _ =>
    ⟨rfl, _, hmxcsr ▸ heffect, hlasting⟩

/-- The loading of a new rounding mode comes back with the mode loaded. -/
theorem Underway.goes_loadMode (hrun : j.Underway h T w e frame)
    (hc : c.reg Gpr.context = contextBase) (hin : InRoutine c back c₁)
    (hlasting : c₁.context.lasting = c.context.lasting) (htemp : c₁.context.temp = m)
    (hback : ¬ j.Ended T w back → ∀ d t, Settles m c s d t →
      j.Nears h T w e frame (d.goTo back, t)) :
    j.Goes h T w e frame loadModeItems c₁ s := by
  refine .step hrun rfl (fun _ => hin.context hc)
    (Cpu.exec_ldmxcsr (hin.context hc) (by decide) (Context.load?_temp _)) ?_
  exact .mark (.settled hrun ⟨hin.regs, hin.stack⟩ hlasting htemp hback)

/-- Working out the mode and loading it comes back with the mode loaded. -/
theorem Underway.goes_setMode (hrun : j.Underway h T w e frame)
    (hc : c.reg Gpr.context = contextBase) (hin : InRoutine c back c₁)
    (hlasting : c₁.context.lasting = c.context.lasting)
    (hmode : modeWord c₁.context.temp (c₁.reg32 Gpr.scratch) c₁.context.fcr31 = m)
    (hback : ¬ j.Ended T w back → ∀ d t, Settles m c s d t →
      j.Nears h T w e frame (d.goTo back, t)) :
    j.Goes h T w e frame setModeItems c₁ s := by
  obtain ⟨c₂, hexec, hin₂, hcontext, hflags⟩ := execList_placeMode hc hin
  have hlasting₂ : c₂.context.lasting = c.context.lasting := by
    rw [hcontext]
    exact hlasting
  refine .quiets hrun (by decide) (hin.context hc) hexec
    (.jcc hrun (fun htaken => ?_) fun hrest => ?_)
  · rw [hflags, decide_eq_true_iff] at htaken
    rw [modeWord, if_pos htaken, UInt32.or_zero] at hmode
    refine (hrun.follow loadModeItems
      (by rw [fixedItems]; cases j.config.staticAlloc <;> exact ⟨_, rfl⟩) ?_).until
    exact hrun.goes_loadMode hc hin₂ hlasting₂ (by rw [hcontext, ← hmode]) hback
  · rw [hflags, decide_eq_false_iff_not] at hrest
    rw [modeWord, if_neg hrest] at hmode
    refine .step hrun rfl (fun _ => hin₂.context hc) (Cpu.exec_alu_word_imm (hin₂.context hc)
      (by decide) (Context.load?_temp _) (by decide) (Context.store?_temp _ _)) (.mark ?_)
    refine hrun.goes_loadMode hc ⟨hin₂.regs, hin₂.stack⟩ hlasting₂ ?_ hback
    rw [← hmode, hcontext]
    rfl

end RoundingMode

/-- The routine for it restores the rounding mode of the host. -/
theorem Underway.serves_restoreRounding (hrun : j.Underway h T w e frame)
    (hc : c.reg Gpr.context = contextBase) :
    j.Serves h T w e frame (j.place Routine.restoreRounding.symbol) c s
      (Settles (Rounding.host c.mxcsr) c s) := by
  refine hrun.serves_of_goes [.insn (.stmxcsr (contextWord Context.tempOffset)),
      .insn (.alu32mi .and (contextWord Context.tempOffset) (~~~ Stubs.hostRoundingBits)),
      .insn (.ldmxcsr (contextWord Context.tempOffset)), .insn .ret]
    (by rw [fixedItems]; cases j.config.staticAlloc <;> exact ⟨_, rfl⟩) fun back hback => ?_
  have hc' := context_push c back hc
  refine .step hrun rfl (fun _ => hc')
    (Cpu.exec_stmxcsr hc' (by decide) (Context.store?_temp _ _)) ?_
  refine .step hrun rfl (fun _ => hc') (Cpu.exec_alu_word_imm (by exact hc') (by decide)
    (Context.load?_temp _) (by decide) (Context.store?_temp _ _)) ?_
  refine .step hrun rfl (fun _ => hc')
    (Cpu.exec_ldmxcsr (by exact hc') (by decide) (Context.load?_temp _)) ?_
  exact .settled hrun ⟨fun _ _ => rfl, rfl⟩ rfl rfl hback

/-- The routine for it applies the rounding mode of the guest. -/
theorem Underway.serves_applyRounding (hrun : j.Underway h T w e frame)
    (hc : c.reg Gpr.context = contextBase) :
    j.Serves h T w e frame (j.place Routine.applyRounding.symbol) c s
      (Settles (Rounding.guest c.context.fcr31 c.mxcsr) c s) := by
  refine hrun.serves_of_goes
    ([.insn (.load32 Gpr.scratch (contextWord Context.fcr31Offset)),
      .insn (.alu32i .and Gpr.scratch Stubs.guestRoundingBits),
      .insn (.jcc .equal Stubs.Routine.skip.symbol),
      .insn (.stmxcsr (contextWord Context.tempOffset)),
      .insn (.test8i Gpr.scratch 1),
      .insn (.jcc .equal Stubs.Routine.keepMode.symbol),
      .insn (.alu32i .xor Gpr.scratch 2),
      .mark Stubs.Routine.keepMode] ++ setModeItems)
    (by rw [fixedItems]; cases j.config.staticAlloc <;> exact ⟨_, rfl⟩) fun back hback => ?_
  have hin : InRoutine c back (c.push back) := ⟨fun _ _ => rfl, rfl⟩
  obtain ⟨c₁, hexec₁, hin₁, hcontext₁, hmxcsr₁, hscratch₁, hflags₁⟩ := execList_guestBits hc hin
  rw [Cpu.context_push] at hcontext₁ hscratch₁ hflags₁
  rw [Cpu.mxcsr_push] at hmxcsr₁
  refine .quiets hrun (by decide) (hin.context hc) hexec₁
    (.jcc hrun (fun htaken => ?_) fun hrest => ?_)
  · -- the guest asks for nothing
    rw [hflags₁, decide_eq_true_iff] at htaken
    refine (hrun.follow [.insn .ret]
      (by rw [fixedItems]; cases j.config.staticAlloc <;> exact ⟨_, rfl⟩) ?_).until
    exact .settled hrun hin₁ (by rw [hcontext₁])
      (by rw [hmxcsr₁, Rounding.guest, if_pos htaken]) hback
  · rw [hflags₁, decide_eq_false_iff_not] at hrest
    obtain ⟨c₂, hexec₂, hin₂, hcontext₂, hscratch₂, hflags₂⟩ := execList_storeMode hc hin₁
    rw [hcontext₁, hmxcsr₁] at hcontext₂
    rw [hscratch₁] at hscratch₂ hflags₂
    have hlasting : c₂.context.lasting = c.context.lasting := by
      rw [hcontext₂]
      rfl
    have hmode : c₂.reg32 Gpr.scratch = c.context.fcr31 &&& Stubs.guestRoundingBits := by
      rw [Cpu.reg32, hscratch₂, UInt32.toUInt32_toUInt64]
    refine .quiets hrun (by decide) (hin₁.context hc) hexec₂
      (.jcc hrun (fun heven => ?_) fun hodd => ?_)
    · -- zero and two have the same number for guest and host
      rw [hflags₂, decide_eq_true_iff] at heven
      refine (hrun.follow setModeItems
        (by rw [fixedItems]; cases j.config.staticAlloc <;> exact ⟨_, rfl⟩) ?_).until
      refine hrun.goes_setMode hc hin₂ hlasting ?_ hback
      rw [hmode, hcontext₂]
      exact modeWord_even _ hrest heven
    · -- one and three are exchanged first
      rw [hflags₂, decide_eq_false_iff_not] at hodd
      refine .step hrun rfl (fun _ => hin₂.context hc) (Cpu.exec_xor_imm _ _ _) (.mark ?_)
      refine hrun.goes_setMode hc ((hin₂.setFlags _).setScratch _) hlasting ?_ hback
      simp only [Cpu.reg32_setReg32_self, Cpu.context_setReg32, hmode, hcontext₂]
      exact modeWord_odd _ hrest hodd

/-! ## Routines that the dispatcher calls -/

/-- The downcount goes to memory, if it is not there. -/
theorem Goes.saved (hrun : j.Underway h T w e frame) (hc : Stands j.config.staticAlloc frame x c)
    (hrest : ∀ d, Stands false frame x d → d.mxcsr = c.mxcsr → j.Goes h T w e frame items d s) :
    j.Goes h T w e frame (callSave j.config.staticAlloc ++ items) c s := by
  cases hstatic : j.config.staticAlloc with
  | false =>
    rw [hstatic] at hc
    exact hrest c hc rfl
  | true =>
    rw [hstatic] at hc
    refine .call hrun (hrun.serves_saveStatic hstatic hc.base) fun d t hq => ?_
    obtain ⟨rfl, heffect⟩ := hq
    exact hrest d (hc.saved heffect) heffect.mxcsr

/-- The downcount goes to its register, if it is kept in one. -/
theorem Goes.loaded (hrun : j.Underway h T w e frame) (hc : Stands false frame x c)
    (hrest : ∀ d, Stands j.config.staticAlloc frame x d → d.reg Gpr.scratch = c.reg Gpr.scratch →
      d.mxcsr = c.mxcsr → j.Goes h T w e frame items d s) :
    j.Goes h T w e frame (callLoad j.config.staticAlloc ++ items) c s := by
  cases hstatic : j.config.staticAlloc with
  | false =>
    rw [hstatic] at hrest
    exact hrest c hc rfl rfl
  | true =>
    rw [hstatic] at hrest
    refine .call hrun (hrun.serves_loadStatic hstatic hc.base) fun d t hq => ?_
    obtain ⟨rfl, heffect, hcount⟩ := hq
    exact hrest d (hc.loaded heffect hcount) (heffect.regs _ (by decide)) heffect.mxcsr

/-- A routine that settles the rounding mode leaves the machine standing in its frame. -/
theorem Settles.stands {staticAlloc : Bool} {m : UInt32} {t : σ} (hq : Settles m c s d t)
    (hc : Stands staticAlloc frame x c) : Stands staticAlloc frame x d := by
  obtain ⟨-, y, heffect, hlasting⟩ := hq
  exact hc.effect heffect hlasting (by decide) (by decide)

/-- The rounding mode of the host is restored. -/
theorem Goes.restored (hrun : j.Underway h T w e frame) {staticAlloc : Bool}
    (hc : Stands staticAlloc frame x c)
    (hrest : ∀ d, Stands staticAlloc frame x d → Rounding.Clear d.mxcsr →
      j.Goes h T w e frame items d s) :
    j.Goes h T w e frame (callStub Routine.restoreRounding :: items) c s := by
  refine .call hrun (hrun.serves_restoreRounding hc.base) fun d t hq => ?_
  obtain ⟨rfl, y, heffect, -⟩ := id hq
  refine hrest d (hq.stands hc) ?_
  rw [heffect.mxcsr]
  exact Rounding.clear_host c.mxcsr

/-- The rounding mode of the guest is set. -/
theorem Goes.applied (hrun : j.Underway h T w e frame) {staticAlloc : Bool}
    (hc : Stands staticAlloc frame x c) (hclear : Rounding.Clear c.mxcsr)
    (hrest : ∀ d, Stands staticAlloc frame x d → d.reg Gpr.scratch2 = c.reg Gpr.scratch2 →
      Rounding.Applied d.context.fcr31 d.mxcsr → j.Goes h T w e frame items d s) :
    j.Goes h T w e frame (callStub Routine.applyRounding :: items) c s := by
  refine .call hrun (hrun.serves_applyRounding hc.base) fun d t hq => ?_
  obtain ⟨rfl, y, heffect, hlasting⟩ := id hq
  refine hrest d (hq.stands hc) (heffect.regs _ (by decide)) ?_
  have hfcr31 : y.fcr31 = c.context.fcr31 := (congrArg Context.fcr31 hlasting :)
  rw [heffect.context, heffect.mxcsr, hfcr31]
  exact Rounding.applied_guest _ hclear

/-- A handler is called with the context in memory and in the rounding mode of the host, and leaves
another context there. -/
theorem Goes.answered (hrun : j.Underway h T w e frame) {a : UInt64} {f : Handler σ}
    (ha : j.table.Has a) (hfind : ∀ second, h.find? j.table a second = some f)
    (hc : Stands false frame x c) (hclear : Rounding.Clear c.mxcsr)
    (hrest : ∀ d m z, z.lasting = x.lasting → Stands false frame (f m z s).context d →
      d.reg Gpr.scratch = (f m z s).answer → Rounding.Clear d.mxcsr →
        j.Goes h T w e frame items d (f m z s).state) :
    j.Goes h T w e frame
      ([op (.mov64 Gpr.arg1 Gpr.context), op (.mov64i Gpr.scratch a), op (.callReg Gpr.scratch)] ++
        items) c s := by
  refine .step hrun rfl (fun _ => hc.base) rfl (.step hrun rfl (fun huses => by cases huses) rfl ?_)
  have hc' := (hc.setReg (r := Gpr.arg1) (c.reg Gpr.context) (by decide)).setReg
    (r := Gpr.scratch) a (by decide)
  have hscratch :
      ((c.setReg Gpr.arg1 (c.reg Gpr.context)).setReg Gpr.scratch a).reg Gpr.scratch = a :=
    Cpu.reg_setReg_self _ _ _
  have hclear' : Rounding.Clear
      ((c.setReg Gpr.arg1 (c.reg Gpr.context)).setReg Gpr.scratch a).mxcsr := hclear
  generalize (c.setReg Gpr.arg1 (c.reg Gpr.context)).setReg Gpr.scratch a = c₁
    at hc' hscratch hclear' ⊢
  have hserves := hrun.serves_handler (s := s) ha hc'.stack fun _ => hclear'
  rw [← hscratch] at hserves
  refine .callReg hrun (by decide) hserves fun d t hq => ?_
  obtain ⟨g, hg, rfl, heffect, hanswer⟩ := hq
  rw [hscratch, hfind] at hg
  obtain rfl : f = g := Option.some.inj hg
  refine hrest d _ _ hc'.lasting (.of_lasting ?_ (congrArg Context.lasting heffect.context) ?_)
    hanswer (heffect.mxcsr ▸ hclear')
  · rw [heffect.regs _ (by decide), hc'.base]
  · exact hc'.stack.trans heffect.frame

/-! ## Ending a run -/

end

end Jit

end Dynarec
