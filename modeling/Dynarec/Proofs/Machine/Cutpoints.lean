import Dynarec.Proofs.Machine.Routines

/-!
# Runs from cutpoint to cutpoint

What holds in every state of a run is proved by walking through the code from one *cutpoint* to the
next (`Until`): if every way on from a cutpoint keeps to good states until it comes to a cutpoint
again, then all states of a run are good (`Until.good_of_reach`).  Nothing is said about whether the
next cutpoint is reached, so that code may be walked through without knowing what it computes.

For the walk, steps are read backwards: a step from an address at which code is held carries out the
first instruction of that code (`Step.exec_of_holds`), and one from the address of a handler is its
answer (`Step.afterCall_of_free`).  Most instructions are *quiet*: they leave the stack, the stack
pointer and the register of the context alone, whatever else they do (`Cpu.steady_of_isQuiet`).
-/

namespace Dynarec

/-- Every way on from a state keeps to good states until it comes to a cutpoint, or gets stuck. -/
inductive Until {α : Type} (step : α → α → Prop) (good cut : α → Prop) : α → Prop
  | cut {x : α} (hcut : cut x) : Until step good cut x
  | step {x : α} (hgood : good x) (hnext : ∀ y, step x y → Until step good cut y) :
    Until step good cut x

/-- A state is good, and every step from it leads on to a cutpoint. -/
def Passes {α : Type} (step : α → α → Prop) (good cut : α → Prop) (x : α) : Prop :=
  good x ∧ ∀ y, step x y → Until step good cut y

section

variable {α : Type} {step : α → α → Prop} {good cut : α → Prop} {x y : α}

theorem Passes.until (h : Passes step good cut x) : Until step good cut x :=
  .step h.1 h.2

end

/-! ## Instructions that leave the stack alone -/

namespace Insn

/-- Whether a register may be changed without touching the stack or the context pointer. -/
def isLoose (r : Gpr) : Bool :=
  r != Gpr.rsp && r != Gpr.context

/-- Whether an instruction goes on with the one behind it and leaves the stack, the stack pointer
and the register of the context alone. -/
def isQuiet : Insn → Bool
  | mov32 dst _ | mov32i dst _ | load32 dst _ | mov64 dst _ | mov64i dst _ => isLoose dst
  | alu32 _ dst _ | alu32i _ dst _ | alu64i _ dst _ | shift32 _ dst _ => isLoose dst
  | store32 _ _ | store32i _ _ | alu32m _ _ _ | alu32mi _ _ _ => true
  | test32 _ _ | test32mi _ _ | test8i _ _ | test64 _ _ | stmxcsr _ | ldmxcsr _ => true
  | push _ | pop _ | ret | callReg _ | call _ | jmpReg _ | jmp _ | jcc _ _ | int3 => false

/-- Whether an instruction takes the value of a register, other than to save it on the stack. -/
def uses (r : Gpr) : Insn → Bool
  | mov32 _ src | mov64 _ src => src == r
  | mov32i _ _ | mov64i _ _ => false
  | load32 _ m | store32i m _ | alu32mi _ m _ | test32mi m _ | stmxcsr m | ldmxcsr m => m.base == r
  | store32 m src | alu32m _ m src => m.base == r || src == r
  | alu32 _ dst src | test32 dst src | test64 dst src => dst == r || src == r
  | alu32i _ dst _ | alu64i _ dst _ | shift32 _ dst _ | test8i dst _ => dst == r
  | push _ | pop _ | ret | call _ | jmp _ | jcc _ _ | int3 => false
  | callReg target | jmpReg target => target == r

/-- Whether an instruction always goes on elsewhere, and not in order to come back. -/
def isJump : Insn → Bool
  | jmp _ | jmpReg _ => true
  | _ => false

theorem isPlain_of_isQuiet {i : Insn} (h : i.isQuiet) : i.isPlain := by
  cases i <;> first | rfl | cases h

theorem ne_jmpReg_of_isPlain {i : Insn} (h : i.isPlain) (r : Gpr) : i ≠ .jmpReg r := by
  rintro rfl
  cases h

theorem ne_of_isLoose {r : Gpr} (h : isLoose r) : r ≠ Gpr.rsp ∧ r ≠ Gpr.context := by
  rw [isLoose, Bool.and_eq_true, bne_iff_ne, bne_iff_ne] at h
  exact h

end Insn

namespace Cpu

/-- The stack, the stack pointer and the register of the context are the same. -/
structure Steady (c d : Cpu) : Prop where
  pointer : d.reg Gpr.rsp = c.reg Gpr.rsp
  base : d.reg Gpr.context = c.reg Gpr.context
  stack : d.stack = c.stack

theorem steady_setReg {r : Gpr} (h : Insn.isLoose r) (c : Cpu) (v : UInt64) :
    c.Steady (c.setReg r v) := by
  obtain ⟨hrsp, hcontext⟩ := Insn.ne_of_isLoose h
  exact ⟨reg_setReg_of_ne hrsp.symm c v, reg_setReg_of_ne hcontext.symm c v, rfl⟩

theorem steady_of_store {c d : Cpu} {m : Mem} {v : UInt32} (h : c.store m v = .ok d) :
    c.Steady d := by
  rw [store] at h
  split at h
  · cases h
    exact ⟨rfl, rfl, rfl⟩
  · cases h

theorem Steady.setFlags {c d : Cpu} {f : Flags} (h : ({ c with flags := f } : Cpu).Steady d) :
    c.Steady d :=
  ⟨h.pointer, h.base, h.stack⟩

/-- Whatever a quiet instruction does, it leaves the stack and the context pointer alone. -/
theorem steady_of_isQuiet {c d : Cpu} {i : Insn} (hi : i.isQuiet) (hexec : c.exec i = .ok d) :
    c.Steady d := by
  -- all ways to change a register or memory, first behind a load
  have hload : ∀ {m : Mem} {f : UInt32 → Except Fault Cpu},
      (∀ v, f v = .ok d → c.Steady d) → (c.load m).bind f = .ok d → c.Steady d := by
    intro m f hf h
    cases hm : c.load m with
    | error e =>
      rw [hm] at h
      cases h
    | ok v =>
      rw [hm] at h
      exact hf v h
  have hset : ∀ {m : Mem} {f : UInt32 → Cpu}, (∀ v, c.Steady (f v)) →
      (c.load m).map f = .ok d → c.Steady d := by
    intro m f hf h
    refine hload (m := m) (f := fun v => .ok (f v)) (fun v hv => Except.ok.inj hv ▸ hf v) ?_
    rw [← h]
    cases c.load m <;> rfl
  have hcompare : ∀ {op : Alu} {f : Flags} {r : Gpr} {v : UInt64}, Insn.isLoose r →
      c.Steady (if op = .cmp then { c with flags := f }
        else ({ c with flags := f } : Cpu).setReg r v) := by
    intro op f r v hr
    split
    · exact ⟨rfl, rfl, rfl⟩
    · exact (steady_setReg hr { c with flags := f } v).setFlags
  cases i with
  | mov32 dst src | mov32i dst imm | mov64 dst src | mov64i dst imm =>
    cases hexec
    exact steady_setReg hi c _
  | load32 dst src => exact hset (fun v => steady_setReg hi c _) hexec
  | ldmxcsr src =>
    exact hset (f := fun v => { c with mxcsr := v }) (fun v => ⟨rfl, rfl, rfl⟩) hexec
  | store32 dst src | store32i dst imm | stmxcsr dst => exact steady_of_store hexec
  | alu32 op dst src | alu32i op dst imm | alu64i op dst imm =>
    cases hexec
    exact hcompare hi
  | shift32 op dst count =>
    simp only [exec] at hexec
    cases hexec
    split
    · exact steady_setReg hi c _
    · exact (steady_setReg hi { c with flags := _ } _).setFlags
  | test32 left right | test8i left imm | test64 left right =>
    cases hexec
    exact ⟨rfl, rfl, rfl⟩
  | test32mi left imm =>
    refine hload (fun v hv => ?_) hexec
    cases hv
    exact ⟨rfl, rfl, rfl⟩
  | alu32m op dst src | alu32mi op dst imm =>
    refine hload (fun v hv => ?_) hexec
    dsimp only at hv
    split at hv
    · cases hv
      exact ⟨rfl, rfl, rfl⟩
    · exact (steady_of_store hv).setFlags
  | push | pop | ret | callReg | call | jmpReg | jmp | jcc | int3 => cases hi

end Cpu

/-! ## Steps read backwards -/

namespace Jit

open CodeCache HandlerTable

variable {σ : Type} {j : Jit} {h : Handlers σ} {c : Cpu} {s : σ} {y : Cpu × σ}

/-- No instruction is decoded outside the region. -/
theorem decodeAt_of_outside {a : UInt64}
    (houtside : a < codeBase ∨ codeBase.toNat + j.code.size ≤ a.toNat) : j.decodeAt a = none := by
  have hoff : j.code.offsetOf? a = none := by
    rw [offsetOf?, if_neg]
    rintro ⟨hlow, hhigh⟩
    rw [UInt64.le_iff_toNat_le] at hlow
    rcases houtside with hlt | hle
    · rw [UInt64.lt_iff_toNat_lt] at hlt
      omega
    · omega
  rw [decodeAt, fetch, hoff]
  rfl

/-- A step from where an instruction is decoded carries it out. -/
theorem Step.exec_of_decodeAt (hj : j.Separated) {i : Insn} {n : Nat}
    (hdecode : j.decodeAt c.ip = some (i, n)) (hstep : j.Step h (c, s) y) :
    (c.goTo (c.ip + UInt64.ofNat n)).exec i = .ok y.1 ∧ y.2 = s := by
  have hrun := hstep.2
  have hfind : h.find? j.table c.ip (c.reg Gpr.arg2) = none := by
    rw [Option.eq_none_iff_forall_ne_some]
    intro f hf
    have hfree := hj.separate.free_of_has (Handlers.has_of_find? hf)
    cases (decodeAt_of_outside hfree.2).symm.trans hdecode
  simp only [runStep, hfind, Cpu.step, hdecode] at hrun
  cases hexec : (c.goTo (c.ip + UInt64.ofNat n)).exec i with
  | error f =>
    rw [hexec] at hrun
    cases hrun
  | ok d =>
    rw [hexec] at hrun
    cases hrun
    exact ⟨rfl, rfl⟩

/-- A step from held code carries out its first instruction. -/
theorem Step.exec_of_holds (hj : j.Separated) {offset : Nat} {i : Insn} {is : List Insn}
    (hcode : j.code.Holds offset (i :: is))
    (hstep : j.Step h (c.goTo (addressOf offset), s) y) :
    (c.goTo (addressOf (offset + i.size))).exec i = .ok y.1 ∧ y.2 = s := by
  have hdecode : j.decodeAt (c.goTo (addressOf offset)).ip = some (i, i.size) := by
    rw [Cpu.ip_goTo]
    exact decodeAt_of_holds hj.size_le hcode
  have hexec := hstep.exec_of_decodeAt hj hdecode
  rw [Cpu.ip_goTo, Cpu.goTo_goTo, ← addressOf_add] at hexec
  exact hexec

/-- A step from where a handler may be is the answer of a handler to an argument that it takes. -/
theorem Step.afterCall_of_free {a : UInt64} (hfree : Free j.code.size a)
    (hstep : j.Step h (c.goTo a, s) y) :
    ∃ f, h.find? j.table a (c.reg Gpr.arg2) = some f ∧ j.table.Accepts a (c.reg Gpr.arg1) ∧
      y = ((c.goTo a).afterCall (f c.mxcsr c.context s), (f c.mxcsr c.context s).state) := by
  have hrun := hstep.2
  rw [runStep, Cpu.ip_goTo, Cpu.reg_goTo, Cpu.reg_goTo] at hrun
  cases hfind : h.find? j.table a (c.reg Gpr.arg2) with
  | none =>
    rw [hfind] at hrun
    simp only [Cpu.step, Cpu.ip_goTo, decodeAt_of_outside hfree.2] at hrun
    cases hrun
  | some f =>
    simp only [hfind] at hrun
    split at hrun
    case isTrue hfirst => exact ⟨f, rfl, hfirst, (Except.ok.inj hrun).symm⟩
    case isFalse => cases hrun

end Jit

end Dynarec
