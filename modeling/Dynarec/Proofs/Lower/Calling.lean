import Dynarec.Proofs.Lower.Straight

/-!
# Instructions that call

The rounding routines work while guest registers are in host registers (`Sim.setRounding`).  For a
handler everything goes to memory first: guest registers by the code of the register map, the
downcount by a routine, so that the handler finds the guest context in memory (`Saved`), and what it
leaves there is the guest context after it (`runs_handler`).
-/

namespace Dynarec

open Lower Dynarec.Action

variable {σ : Type}

/-- Memory is the guest context. -/
structure Saved (frame : Cpu) (g : Guest σ) (c : Cpu) : Prop where
  base : c.reg Gpr.context = contextBase
  context : c.context = g.context
  mxcsr : c.mxcsr = g.mxcsr
  stack : frame.SameFrame c

section

variable {j : Jit} {h : Handlers σ} {staticAlloc : Bool} {frame : Cpu} {m : RegMap} {g : Guest σ}
  {c d : Cpu}

/-! ## Rounding modes -/

/-- A routine that changes nothing but the control word and the scratch word. -/
theorem Sim.setRounding (hsim : Sim staticAlloc frame m none g c) (hm : m.Consistent staticAlloc)
    {changed : List Gpr} {temp mxcsr : UInt32}
    (heffect : c.Effect d changed { c.context with temp } mxcsr)
    (hchanged : ∀ r ∈ changed, r = Gpr.scratch) :
    Sim staticAlloc frame m none { g with context := { g.context with temp }, mxcsr } d where
  base := by
    rw [heffect.regs _ fun hmem => absurd (hchanged _ hmem) (by decide), hsim.base]
  held x r hx hr := by
    have hne := RegMap.ne_of_mem_allocatable (hm.handed r x ((hm.inverse x r).mp hr))
    rw [heffect.reg32 fun hmem => hne.2.1 (hchanged _ hmem)]
    exact hsim.held x r hx hr
  clean x r hx hr hd := by
    rw [heffect.context]
    exact hsim.clean x r hx hr hd
  home x hx := by
    rw [heffect.context]
    exact hsim.home x hx
  downcount := by
    rw [heffect.context, heffect.reg32 fun hmem => absurd (hchanged _ hmem) (by decide)]
    exact hsim.downcount
  rest := by
    rw [heffect.context]
    have hrest := hsim.rest
    generalize c.context = context at hrest
    rw [hrest]
  mxcsr := heffect.mxcsr
  stack := hsim.stack.trans heffect.frame

theorem runs_restoreRounding (hj : j.Separated) (hi : j.Installed)
    (hsim : Sim staticAlloc frame m none g c) (hm : m.Consistent staticAlloc) (s : σ) :
    j.Runs h [.call j.stubs.restoreRounding] c s fun d t =>
      t = s ∧ Sim staticAlloc frame m none g.restoreRounding d := by
  refine Jit.Runs.mono (.call hj (Jit.calls_restoreRounding hj hi hsim.base)) fun d t hq => ?_
  obtain ⟨rfl, heffect⟩ := hq
  refine ⟨rfl, ?_⟩
  rw [hsim.mxcsr] at heffect
  exact hsim.setRounding hm heffect (by simp)

theorem runs_applyRounding (hj : j.Separated) (hi : j.Installed)
    (hsim : Sim staticAlloc frame m none g c) (hm : m.Consistent staticAlloc) (s : σ) :
    j.Runs h [.call j.stubs.applyRounding] c s fun d t =>
      t = s ∧ Sim staticAlloc frame m none g.applyRounding d := by
  refine Jit.Runs.mono (.call hj (Jit.calls_applyRounding hj hi hsim.base)) fun d t hq => ?_
  obtain ⟨rfl, heffect⟩ := hq
  have hfcr31 : c.context.fcr31 = g.context.fcr31 := by rw [hsim.rest]
  have htemp : c.context.temp = g.context.temp := by rw [hsim.rest]
  rw [hsim.mxcsr, hfcr31] at heffect
  refine ⟨rfl, ?_⟩
  rw [Guest.applyRounding]
  split at heffect
  · rename_i hnone
    rw [if_pos hnone]
    rw [Rounding.guest, if_pos hnone] at heffect
    have hsame : c.Effect d [Gpr.scratch] { c.context with temp := g.context.temp } g.mxcsr := by
      rw [← htemp]
      exact heffect
    exact hsim.setRounding hm hsame (by simp)
  · rename_i hset
    rw [if_neg hset]
    exact hsim.setRounding hm heffect (by simp)

/-! ## The downcount -/

/-- The code of a call of a routine, if it is there. -/
def callCode (stub : Option UInt64) : List Insn :=
  stub.toList.map .call

theorem Emit.callIf_apply (stub : Option UInt64) (d : Draft) :
    callIf stub d = .ok ⟨⟩ (d.put (callCode stub) d.regs) := by
  cases stub with
  | none => simp [callIf, callCode]
  | some a => rfl

theorem runs_save (hj : j.Separated) (hi : j.Installed)
    (hsync : Synced j.config.staticAlloc frame g c) (s : σ) :
    j.Runs h (callCode j.stubs.saveStatic) c s fun d t => t = s ∧ Saved frame g d := by
  have hcount := hsync.downcount
  rw [hi.saveStatic_eq]
  cases hstatic : j.config.staticAlloc with
  | false =>
    rw [hstatic] at hcount
    refine .nil ⟨rfl, hsync.base, ?_, hsync.mxcsr, hsync.stack⟩
    rw [hsync.context]
    have hword : c.context.downcount = g.context.downcount := hcount
    rw [hword]
  | true =>
    rw [hstatic] at hcount
    refine Jit.Runs.mono (.call hj (Jit.calls_saveStatic hj hi hstatic hsync.base)) fun d t hq => ?_
    obtain ⟨rfl, heffect⟩ := hq
    refine ⟨rfl, by rw [heffect.regs _ (by simp), hsync.base], ?_,
      heffect.mxcsr.trans hsync.mxcsr, hsync.stack.trans heffect.frame⟩
    have hword : c.reg32 Gpr.downcount = g.context.downcount := hcount
    rw [heffect.context, hword, hsync.context]

theorem runs_load (hj : j.Separated) (hi : j.Installed) (hsaved : Saved frame g c) (s : σ) :
    j.Runs h (callCode j.stubs.loadStatic) c s fun d t => t = s ∧
      Synced j.config.staticAlloc frame g d ∧ d.reg Gpr.scratch = c.reg Gpr.scratch := by
  rw [hi.loadStatic_eq]
  cases hstatic : j.config.staticAlloc with
  | false =>
    refine .nil ⟨rfl, ⟨hsaved.base, ?_, ?_, hsaved.mxcsr, hsaved.stack⟩, rfl⟩
    · rw [hsaved.context]
    · rw [hsaved.context]
      rfl
  | true =>
    refine Jit.Runs.mono (.call hj (Jit.calls_loadStatic hj hi hstatic hsaved.base)) fun d t hq => ?_
    obtain ⟨rfl, heffect, hcount⟩ := hq
    refine ⟨rfl, ⟨by rw [heffect.regs _ (by decide), hsaved.base], ?_, ?_,
      heffect.mxcsr.trans hsaved.mxcsr, hsaved.stack.trans heffect.frame⟩,
      heffect.regs _ (by decide)⟩
    · rw [heffect.context, hsaved.context]
    · rw [if_pos rfl, hcount, hsaved.context]

/-! ## Handlers -/

/-- A handler that is called with the guest context in memory does what it does to the guest. -/
theorem runs_handler (hj : j.Separated) {second : Insn} {v a : UInt64} {f : Handler σ}
    (hplain : second.isPlain) (hsecond : ∀ c : Cpu, c.exec second = .ok (c.setReg Gpr.arg2 v))
    (ha : a ≠ returnAddress) (hfind : h.find? j.table a v = some f) (hsaved : Saved frame g c) :
    j.Runs h (handlerCall second a) c g.state fun d t => t = (g.call f).2.state ∧
      Saved frame (g.call f).2 d ∧ d.reg Gpr.scratch = (g.call f).1 := by
  refine (Jit.runs_handlerCall hj hplain hsecond ha hfind hsaved.base).mono fun d t hq => ?_
  rw [hsaved.context, hsaved.mxcsr] at hq
  obtain ⟨rfl, heffect, hanswer⟩ := hq
  exact ⟨rfl, ⟨by rw [heffect.regs _ (by decide), hsaved.base], heffect.context, heffect.mxcsr,
    hsaved.stack.trans heffect.frame⟩, hanswer⟩

end

end Dynarec
