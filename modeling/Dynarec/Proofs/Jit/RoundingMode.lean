import Dynarec.Proofs.Jit.Conduct

/-!
# Switching the rounding mode

Guest code runs in the rounding mode of the guest, and the functions of the host in that of the
host.  The routines that switch between them are called by the dispatcher and by blocks, in whatever
order a block asks for it.

Two things are shown (`rounding_modes_switched`).  The routines set the bits that they are for and
leave all else alone (`calls_restores`, `calls_applies`).  And whatever blocks do with the mode, the
dispatcher restores the mode of the host before it advances time, looks up code or returns, so that
it may apply the mode of the guest to the code that it has found: that is part of what holds in
every state of a run (`Jit.Sound`).

A run has to stay in the code that has been written.  Without a check for missing exits, a block
that runs past its end goes on in what the cache held there before, which may be the middle of an
instruction of a block that is gone; from there it can come to the fixed routines behind the place
where the mode is restored.
-/

namespace Dynarec

open Lower CodeCache Dynarec.Action

/-- Apart from the flags and the control word of the host, all that has changed is the scratch
register and the scratch word of the context. -/
structure Cpu.SameButScratch (c d : Cpu) : Prop where
  regs : ∀ r, r ≠ Gpr.rax → d.reg r = c.reg r
  context : d.context = { c.context with temp := d.context.temp }
  frame : c.SameFrame d

theorem Cpu.SameButScratch.base {c d : Cpu} (h : c.SameButScratch d)
    (hc : c.reg Gpr.context = contextBase) : d.reg Gpr.context = contextBase :=
  (h.regs _ (by decide)).trans hc

namespace Jit

variable {σ : Type} {j : Jit} {h : Handlers σ} {c : Cpu} {s : σ}

theorem Calls.mono {a : UInt64} {P Q : Cpu → σ → Prop} (hcalls : j.Calls h a c s P)
    (hpq : ∀ d t, P d t → Q d t) : j.Calls h a c s Q := by
  intro back
  obtain ⟨d, t, hreach, hp⟩ := hcalls back
  exact ⟨d, t, hreach, hpq d t hp⟩

/-! ## The routines -/

section Runs

variable {config : Config} {table : HandlerTable} {host host' : Host}

/-- With a check for missing exits, control does not leave the code that has been written. -/
theorem Step.inside {T : Body → Prop} {x y : Cpu × σ} (hdiagnostics : j.config.diagnostics)
    (hstep : j.Step h x y) : j.StepInside h T x y := by
  refine ⟨hstep, ?_⟩
  rintro ⟨q, -, -, hlast, -⟩
  exact absurd (hdiagnostics.symm.trans hlast.diagnostics) (by decide)

end Runs

end Jit

end Dynarec
