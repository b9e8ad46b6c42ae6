import Dynarec.Proofs.Lower.RegMap
import Dynarec.Proofs.Machine.Routines

/-!
# Machine and guest in step

`Sim` relates the processor to the guest in the middle of a block: a guest register is in the host
register that the map says, or in memory; the downcount is in its register or in memory; the rest of
the guest context is in memory.  While an instruction is being carried out, its destination may
already have a host register but not yet a value; that register is the *hole* of the relation.

Shape of the argument: every change of the map comes with code, and running the code keeps machine
and guest in step (`Sim.release`, `Sim.map_reads`, `Sim.map_writes`, `Sim.flushAll`).  A value for
the hole closes it (`Sim.close`).  With no guest register in a host register, memory is the guest
context (`Synced`), which is what handlers and other blocks find.
-/

namespace Dynarec

open Lower

variable {σ : Type}

/-- Machine and guest in step, except for the guest register `hole`.  The stack is that of `frame`,
up to the word below its pointer. -/
structure Sim (staticAlloc : Bool) (frame : Cpu) (m : RegMap) (hole : Option GuestReg)
    (g : Guest σ) (c : Cpu) : Prop where
  base : c.reg Gpr.context = contextBase
  /-- Host registers hold what the map says. -/
  held : ∀ x r, hole ≠ some x → m.mapped? x = some r → c.reg32 r = g.context.gpr.get x
  /-- Memory is not behind where the map says so. -/
  clean : ∀ x r, hole ≠ some x → m.mapped? x = some r → (m.slot r).dirty = false →
    c.context.gpr.get x = g.context.gpr.get x
  /-- Guest registers in no host register are in memory. -/
  home : ∀ x, m.mapped? x = none → c.context.gpr.get x = g.context.gpr.get x
  downcount : (if staticAlloc then c.reg32 Gpr.downcount else c.context.downcount) =
    g.context.downcount
  /-- The rest of the guest context is in memory. -/
  rest : c.context = { g.context with gpr := c.context.gpr, downcount := c.context.downcount }
  mxcsr : c.mxcsr = g.mxcsr
  stack : frame.SameFrame c

/-- Memory is the guest context, apart from a downcount in a register. -/
structure Synced (staticAlloc : Bool) (frame : Cpu) (g : Guest σ) (c : Cpu) : Prop where
  base : c.reg Gpr.context = contextBase
  context : c.context = { g.context with downcount := c.context.downcount }
  downcount : (if staticAlloc then c.reg32 Gpr.downcount else c.context.downcount) =
    g.context.downcount
  mxcsr : c.mxcsr = g.mxcsr
  stack : frame.SameFrame c

section

variable {staticAlloc : Bool} {frame : Cpu} {m n : RegMap} {hole : Option GuestReg} {g : Guest σ}
  {c d : Cpu}

/-! ## Registers that may be handed out -/

/-- Registers that may be handed out are none of those with a fixed use. -/
theorem RegMap.ne_of_mem_allocatable {r : Gpr} (hr : r ∈ RegMap.allocatableRegs staticAlloc) :
    r ≠ Gpr.context ∧ r ≠ Gpr.scratch ∧ r ≠ Gpr.rsp ∧ (staticAlloc → r ≠ Gpr.downcount) := by
  cases staticAlloc <;>
    (revert r
     decide)

/-! ## Small changes -/

/-- Nothing in a host register: machine and guest are in step when memory is the guest context. -/
theorem Synced.sim (h : Synced staticAlloc frame g c) (hm : ∀ x, m.mapped? x = none) :
    Sim staticAlloc frame m none g c where
  base := h.base
  held x r _ hx := by
    rw [hm] at hx
    cases hx
  clean x r _ hx := by
    rw [hm] at hx
    cases hx
  home x _ := by rw [h.context]
  downcount := h.downcount
  rest := by
    have hgpr : c.context.gpr = g.context.gpr := by rw [h.context]
    rw [hgpr]
    exact h.context
  mxcsr := h.mxcsr
  stack := h.stack

/-- With no guest register in a host register, the whole guest is in memory. -/
theorem Sim.synced (h : Sim staticAlloc frame m none g c) (hm : ∀ x, m.mapped? x = none) :
    Synced staticAlloc frame g c where
  base := h.base
  context := by
    have hgpr : c.context.gpr = g.context.gpr := vector_ext_get fun x => h.home x (hm x)
    have hrest := h.rest
    rw [hgpr] at hrest
    exact hrest
  downcount := h.downcount
  mxcsr := h.mxcsr
  stack := h.stack

/-- Memory has the guest registers that are not dirty. -/
theorem Sim.written (h : Sim staticAlloc frame m none g c) {x : GuestReg}
    (hx : m.isDirty x = false) : c.context.gpr.get x = g.context.gpr.get x := by
  rw [RegMap.isDirty] at hx
  cases hmapped : m.mapped? x with
  | none => exact h.home x hmapped
  | some r =>
    rw [hmapped] at hx
    exact h.clean x r (by simp) hmapped hx

/-- The relation looks at the map only through what it says. -/
theorem Sim.congr_map (h : Sim staticAlloc frame m hole g c)
    (hmapped : ∀ x, n.mapped? x = m.mapped? x)
    (hdirty : ∀ r, (n.slot r).dirty = false → (m.slot r).dirty = false) :
    Sim staticAlloc frame n hole g c where
  base := h.base
  held x r hx hr := h.held x r hx (by rw [← hmapped]; exact hr)
  clean x r hx hr hclean := h.clean x r hx (by rw [← hmapped]; exact hr) (hdirty r hclean)
  home x hx := h.home x (by rw [← hmapped]; exact hx)
  downcount := h.downcount
  rest := h.rest
  mxcsr := h.mxcsr
  stack := h.stack

/-- The relation does not look at the flags. -/
theorem Sim.setFlags (h : Sim staticAlloc frame m hole g c) (f : Flags) :
    Sim staticAlloc frame m hole g { c with flags := f } :=
  ⟨h.base, h.held, h.clean, h.home, h.downcount, h.rest, h.mxcsr, h.stack.pointer, h.stack.words⟩

theorem Synced.setFlags (h : Synced staticAlloc frame g c) (f : Flags) :
    Synced staticAlloc frame g { c with flags := f } :=
  ⟨h.base, h.context, h.downcount, h.mxcsr, h.stack.pointer, h.stack.words⟩

/-- A register that the map does not know of may change. -/
theorem Sim.setScratch (h : Sim staticAlloc frame m hole g c) (hm : m.Consistent staticAlloc)
    (v : UInt32) : Sim staticAlloc frame m hole g (c.setReg32 Gpr.scratch v) where
  base := by rw [Cpu.reg_setReg32_of_ne (by decide), h.base]
  held x r hx hr := by
    have hne := RegMap.ne_of_mem_allocatable (hm.handed r x ((hm.inverse x r).mp hr))
    rw [Cpu.reg32_setReg32_of_ne hne.2.1]
    exact h.held x r hx hr
  clean := h.clean
  home := h.home
  downcount := by
    rw [Cpu.reg32_setReg32_of_ne (by decide)]
    exact h.downcount
  rest := h.rest
  mxcsr := h.mxcsr
  stack := ⟨by rw [Cpu.reg_setReg32_of_ne (by decide), h.stack.pointer], h.stack.words⟩

/-- The scratch register holds nothing of the guest. -/
theorem Synced.setScratch (h : Synced staticAlloc frame g c) (v : UInt32) :
    Synced staticAlloc frame g (c.setReg32 Gpr.scratch v) where
  base := by rw [Cpu.reg_setReg32_of_ne (by decide), h.base]
  context := h.context
  downcount := by
    rw [Cpu.reg32_setReg32_of_ne (by decide)]
    exact h.downcount
  mxcsr := h.mxcsr
  stack := ⟨by rw [Cpu.reg_setReg32_of_ne (by decide), h.stack.pointer], h.stack.words⟩

/-- The hole may be any register. -/
theorem Sim.open (h : Sim staticAlloc frame m none g c) (x : GuestReg) :
    Sim staticAlloc frame m (some x) g c :=
  ⟨h.base, fun y r _ => h.held y r (by simp), fun y r _ => h.clean y r (by simp), h.home,
    h.downcount, h.rest, h.mxcsr, h.stack⟩

/-! ## Emptying host registers -/

/-- Changing only guest registers in memory. -/
theorem Sim.setGprs (h : Sim staticAlloc frame m none g c) {gpr : Vector UInt32 32}
    (hmapped : ∀ x r, n.mapped? x = some r → m.mapped? x = some r)
    (hclean : ∀ x r, n.mapped? x = some r → (n.slot r).dirty = false →
      gpr.get x = g.context.gpr.get x)
    (hhome : ∀ x, n.mapped? x = none → gpr.get x = g.context.gpr.get x) :
    Sim staticAlloc frame n none g { c with context := { c.context with gpr } } where
  base := h.base
  held x r hx hr := h.held x r hx (hmapped x r hr)
  clean x r _ hr hd := hclean x r hr hd
  home := hhome
  downcount := h.downcount
  rest := by
    have hrest := h.rest
    generalize c.context = context at hrest
    rw [hrest]
  mxcsr := h.mxcsr
  stack := ⟨h.stack.pointer, h.stack.words⟩

/-- A host register is emptied by code that changes nothing but guest registers in memory. -/
theorem Sim.release (h : Sim staticAlloc frame m none g c) (hm : m.Consistent staticAlloc)
    (r : Gpr) :
    ∃ gpr, Cpu.execList (m.release r).2 c = .ok { c with context := { c.context with gpr } } ∧
      Sim staticAlloc frame (m.release r).1 none g { c with context := { c.context with gpr } } := by
  have hkept : ∀ x y, (m.release r).1.mapped? x = some y → m.mapped? x = some y ∧ y ≠ r := by
    intro x y hx
    rw [RegMap.mapped?_release hm] at hx
    split at hx
    · cases hx
    · rename_i hne
      exact ⟨hx, fun heq => hne (by rw [hx, heq])⟩
  have hslot : ∀ y, y ≠ r → (m.release r).1.slot y = m.slot y := by
    intro y hy
    rw [RegMap.slot_release, if_neg hy]
  -- Only a register that memory is behind of is stored; for all others there is no code.
  by_cases hdirty : ∃ x, m.mapped? x = some r ∧ (m.slot r).dirty = true
  · obtain ⟨x, hx, hd⟩ := hdirty
    have hguest := (hm.inverse x r).mp hx
    have hcode : (m.release r).2 = [.store32 (RegMap.home x) r] := by
      rw [RegMap.release]
      split
      · rename_i hnone
        rw [hguest] at hnone
        cases hnone
      · rename_i y hy
        obtain rfl : x = y := Option.some.inj (hguest.symm.trans hy)
        simp [hd]
    have hget : ∀ y, (c.context.gpr.set x.val (c.reg32 r)).get y =
        if y = x then g.context.gpr.get x else c.context.gpr.get y := by
      intro y
      rw [vector_get_set, h.held x r (by simp) hx]
    refine ⟨c.context.gpr.set x.val (c.reg32 r), ?_, h.setGprs (fun y z hz => (hkept y z hz).1)
      (fun y z hz hzd => ?_) fun y hy => ?_⟩
    · rw [hcode]
      refine Cpu.execList_cons_of_ok ?_ rfl
      exact Cpu.exec_store_word h.base (by omega) (Context.store?_gpr _ _ _)
    · obtain ⟨hmapped, hne⟩ := hkept y z hz
      rw [hslot z hne] at hzd
      rw [hget]
      split
      · rename_i heq
        rw [heq]
      · exact h.clean y z (by simp) hmapped hzd
    · rw [hget]
      split
      · rename_i heq
        rw [heq]
      · rename_i hne
        rw [RegMap.mapped?_release hm] at hy
        split at hy
        · rename_i heq
          exact absurd (hm.guest_inj heq hx) hne
        · exact h.home y hy
  · have hcode : (m.release r).2 = [] := by
      rw [RegMap.release]
      split
      · rfl
      · rename_i x hx
        have hd : ¬ (m.slot r).dirty = true := fun hd => hdirty ⟨x, (hm.inverse x r).mpr hx, hd⟩
        simp [hd]
    refine ⟨c.context.gpr, by rw [hcode]; rfl, h.setGprs (fun y z hz => (hkept y z hz).1)
      (fun y z hz hzd => ?_) fun y hy => ?_⟩
    · obtain ⟨hmapped, hne⟩ := hkept y z hz
      rw [hslot z hne] at hzd
      exact h.clean y z (by simp) hmapped hzd
    · rw [RegMap.mapped?_release hm] at hy
      split at hy
      · rename_i heq
        have hd : (m.slot r).dirty = false := by
          rw [← Bool.not_eq_true]
          exact fun hd => hdirty ⟨y, heq, hd⟩
        exact h.clean y r (by simp) heq hd
      · exact h.home y hy

/-- Filling an empty host register with the value that memory has. -/
theorem Sim.fill {x : GuestReg} {r : Gpr} (h : Sim staticAlloc frame m none g c)
    (hm : m.Consistent staticAlloc) (hx : m.mapped? x = none) (hr : (m.slot r).guest = none)
    (hmem : r ∈ RegMap.allocatableRegs staticAlloc) (dirty : Bool) :
    Sim staticAlloc frame (m.fill x r dirty) none g (c.setReg32 r (c.context.gpr.get x)) := by
  obtain ⟨hbase, -, hrsp, hcount⟩ := RegMap.ne_of_mem_allocatable hmem
  -- no other guest register is in `r`, which is empty
  have hother : ∀ y z, y ≠ x → m.mapped? y = some z → z ≠ r := by
    rintro y z - hy rfl
    rw [hm.inverse, hr] at hy
    cases hy
  refine ⟨?_, fun y z _ hy => ?_, fun y z _ hy hd => ?_, fun y hy => ?_, ?_, h.rest, h.mxcsr, ?_⟩
  · rw [Cpu.reg_setReg32_of_ne (Ne.symm hbase), h.base]
  · rw [RegMap.mapped?_fill] at hy
    split at hy
    · rename_i heq
      obtain rfl := Option.some.inj hy
      rw [Cpu.reg32_setReg32_self, heq, h.home x hx]
    · rename_i hne
      rw [Cpu.reg32_setReg32_of_ne (hother y z hne hy)]
      exact h.held y z (by simp) hy
  · rw [RegMap.mapped?_fill] at hy
    split at hy
    · rename_i heq
      rw [heq]
      exact h.home x hx
    · rename_i hne
      rw [RegMap.slot_fill, if_neg (hother y z hne hy)] at hd
      exact h.clean y z (by simp) hy hd
  · rw [RegMap.mapped?_fill] at hy
    split at hy
    · cases hy
    · exact h.home y hy
  · have hcounts := h.downcount
    split
    · rename_i hstatic
      rw [if_pos hstatic] at hcounts
      rw [Cpu.reg32_setReg32_of_ne (Ne.symm (hcount hstatic)), hcounts]
    · rename_i hstatic
      rw [if_neg hstatic] at hcounts
      exact hcounts
  · exact ⟨by rw [Cpu.reg_setReg32_of_ne (Ne.symm hrsp), h.stack.pointer], h.stack.words⟩

/-- Emptying registers one after the other. -/
theorem Sim.releaseAll (h : Sim staticAlloc frame m none g c) (hm : m.Consistent staticAlloc)
    (rs : List Gpr) :
    ∃ gpr, Cpu.execList (m.releaseAll rs).2 c = .ok { c with context := { c.context with gpr } } ∧
      Sim staticAlloc frame (m.releaseAll rs).1 none g
        { c with context := { c.context with gpr } } := by
  induction rs generalizing m c with
  | nil => exact ⟨c.context.gpr, rfl, h⟩
  | cons r rs ih =>
    obtain ⟨gpr, hexec, hsim⟩ := h.release hm r
    obtain ⟨gpr', hexec', hsim'⟩ := ih hsim (hm.release r)
    exact ⟨gpr', Cpu.execList_append_of_ok hexec hexec', hsim'⟩

/-- Sending all guest registers back leaves the guest context in memory. -/
theorem Sim.flushAll (h : Sim staticAlloc frame m none g c) (hm : m.Consistent staticAlloc) :
    ∃ gpr, Cpu.execList m.flushAll.2 c = .ok { c with context := { c.context with gpr } } ∧
      Synced staticAlloc frame g { c with context := { c.context with gpr } } := by
  obtain ⟨gpr, hexec, hsim⟩ := h.releaseAll hm
    (m.allocatable.filter fun r => (m.slot r).guest.isSome)
  exact ⟨gpr, hexec, hsim.synced (RegMap.mapped?_flushAll hm)⟩

/-! ## Mapping guest registers -/

/-- Making room stores the old guest register at its place, and machine and guest stay in step. -/
theorem Sim.room {r : Gpr} {pre : List Insn} (h : Sim staticAlloc frame m none g c)
    (hm : m.Consistent staticAlloc) (hroom : RegMap.Room m r n pre) :
    ∃ gpr, Cpu.execList pre c = .ok { c with context := { c.context with gpr } } ∧
      Sim staticAlloc frame n none g { c with context := { c.context with gpr } } := by
  cases hroom with
  | empty hfree => exact ⟨c.context.gpr, rfl, h⟩
  | evict clock hlocked =>
    have hclock : Sim staticAlloc frame { m with clock } none g c :=
      h.congr_map (fun _ => rfl) fun _ hd => hd
    exact hclock.release (hm.setClock clock) r

/-- Mapping a register that is in a host register already emits no code. -/
theorem Sim.map_again {x : GuestReg} {mode : MapMode} {r : Gpr} {code : List Insn}
    (h : Sim staticAlloc frame m none g c) (hx : m.mapped? x ≠ none)
    (hmap : m.map x mode = (.ok r, n, code)) : code = [] ∧ Sim staticAlloc frame n none g c := by
  rcases RegMap.map_eq_ok hmap with ⟨-, rfl, rfl⟩ | ⟨hnone, -⟩
  · refine ⟨rfl, h.congr_map (fun y => ?_) fun y hd => ?_⟩
    · split <;> rfl
    · split at hd
      · exact RegMap.clean_of_touch hd
      · exact hd
  · exact absurd hnone hx

/-- Mapping a register for its value gives it its value. -/
theorem Sim.map_reads {x : GuestReg} {mode : MapMode} {r : Gpr} {code : List Insn}
    (h : Sim staticAlloc frame m none g c) (hm : m.Consistent staticAlloc)
    (hmap : m.map x mode = (.ok r, n, code)) (hreads : mode.reads) :
    ∃ d, Cpu.execList code c = .ok d ∧ Sim staticAlloc frame n none g d := by
  rcases RegMap.map_eq_ok hmap with ⟨hx, -⟩ | ⟨hnone, hmem, k, pre, hroom, rfl, rfl⟩
  · obtain ⟨rfl, hsim⟩ := h.map_again (by rw [hx]; simp) hmap
    exact ⟨c, rfl, hsim⟩
  · obtain ⟨gpr, hexec, hsim⟩ := h.room hm hroom
    have hk := hroom.consistent hm
    rw [hm.allocatable] at hmem
    obtain ⟨hbase, -, hrsp, hcount⟩ := RegMap.ne_of_mem_allocatable hmem
    have hunmapped : k.mapped? x = none := by
      rw [hroom.mapped? hm (by rw [hnone]; simp), hnone]
    refine ⟨({ c with context := { c.context with gpr } } : Cpu).setReg32 r (gpr.get x), ?_, ?_⟩
    · rw [if_pos hreads]
      refine Cpu.execList_append_of_ok hexec (Cpu.execList_cons_of_ok ?_ rfl)
      exact Cpu.exec_load_word hsim.base (by omega) (Context.load?_gpr _ _) r
    · exact hsim.fill hk hunmapped hroom.free hmem mode.writes

/-- A host register for the hole. -/
theorem Sim.fill_hole {x : GuestReg} {r : Gpr} (h : Sim staticAlloc frame m none g c)
    (hm : m.Consistent staticAlloc) (hr : (m.slot r).guest = none) (dirty : Bool) :
    Sim staticAlloc frame (m.fill x r dirty) (some x) g c := by
  have hother : ∀ y, some x ≠ some y → (m.fill x r dirty).mapped? y = m.mapped? y := by
    intro y hy
    rw [RegMap.mapped?_fill, if_neg fun heq => hy (by rw [heq])]
  refine ⟨h.base, fun y z hy hz => ?_, fun y z hy hz hd => ?_, fun y hy => ?_, h.downcount, h.rest,
    h.mxcsr, h.stack⟩
  · rw [hother y hy] at hz
    exact h.held y z (by simp) hz
  · rw [hother y hy] at hz
    have hne : z ≠ r := by
      rintro rfl
      rw [hm.inverse, hr] at hz
      cases hz
    rw [RegMap.slot_fill, if_neg hne] at hd
    exact h.clean y z (by simp) hz hd
  · rw [RegMap.mapped?_fill] at hy
    split at hy
    · cases hy
    · exact h.home y hy

/-- Mapping a register to be written gives it a place, and leaves it as the hole. -/
theorem Sim.map_writes {x : GuestReg} {r : Gpr} {code : List Insn}
    (h : Sim staticAlloc frame m none g c) (hm : m.Consistent staticAlloc)
    (hmap : m.map x .write = (.ok r, n, code)) :
    ∃ gpr, Cpu.execList code c = .ok { c with context := { c.context with gpr } } ∧
      Sim staticAlloc frame n (some x) g { c with context := { c.context with gpr } } := by
  rcases RegMap.map_eq_ok hmap with ⟨hx, rfl, rfl⟩ | ⟨hnone, hmem, k, pre, hroom, rfl, rfl⟩
  · refine ⟨c.context.gpr, rfl, (h.open x).congr_map (fun y => rfl) fun y hd => ?_⟩
    have htouch : (((m.lock r).touch r).slot y).dirty = false := hd
    exact RegMap.clean_of_touch htouch
  · obtain ⟨gpr, hexec, hsim⟩ := h.room hm hroom
    refine ⟨gpr, by simpa [MapMode.reads] using hexec, ?_⟩
    exact hsim.fill_hole (hroom.consistent hm) hroom.free _

/-- The register of the hole may change. -/
theorem Sim.setReg {x : GuestReg} {r : Gpr} (h : Sim staticAlloc frame m (some x) g c)
    (hm : m.Consistent staticAlloc) (hr : m.mapped? x = some r) (v : UInt64) :
    Sim staticAlloc frame m (some x) g (c.setReg r v) := by
  have hmem := hm.handed r x ((hm.inverse x r).mp hr)
  obtain ⟨hbase, -, hrsp, hcount⟩ := RegMap.ne_of_mem_allocatable hmem
  refine ⟨?_, fun y z hy hz => ?_, h.clean, h.home, ?_, h.rest, h.mxcsr, ?_, h.stack.words⟩
  · rw [Cpu.reg_setReg_of_ne (Ne.symm hbase), h.base]
  · have hne : z ≠ r := fun heq => hy (congrArg some (hm.guest_inj hr (heq ▸ hz)))
    rw [Cpu.reg32_setReg_of_ne hne]
    exact h.held y z hy hz
  · have hcounts := h.downcount
    split
    · rename_i hstatic
      rw [if_pos hstatic] at hcounts
      rw [Cpu.reg32_setReg_of_ne (Ne.symm (hcount hstatic)), hcounts]
    · rename_i hstatic
      rw [if_neg hstatic] at hcounts
      exact hcounts
  · rw [Cpu.reg_setReg_of_ne (Ne.symm hrsp), h.stack.pointer]

/-- The register of the guest register that is about to be written may be changed. -/
theorem Sim.setReg32 {x : GuestReg} {r : Gpr} (h : Sim staticAlloc frame m (some x) g c)
    (hm : m.Consistent staticAlloc) (hr : m.mapped? x = some r) (v : UInt32) :
    Sim staticAlloc frame m (some x) g (c.setReg32 r v) :=
  h.setReg hm hr v.toUInt64

/-- What the register of the hole holds becomes the value of the guest register. -/
theorem Sim.close {slot : UInt8} {r : Gpr} {v : UInt32}
    (h : Sim staticAlloc frame m (some (RegMap.guestOf slot)) g c)
    (hr : m.mapped? (RegMap.guestOf slot) = some r) (hd : (m.slot r).dirty = true)
    (hv : c.reg32 r = v) : Sim staticAlloc frame m none (g.setReg slot v) c := by
  -- the register that was written has its value in `r`; memory may lag behind, as it is dirty
  have hget : ∀ y, (g.setReg slot v).context.gpr.get y =
      if y = RegMap.guestOf slot then v else g.context.gpr.get y :=
    fun y => vector_get_set g.context.gpr (RegMap.guestOf slot) y v
  refine ⟨h.base, fun y z _ hy => ?_, fun y z _ hy hclean => ?_, fun y hy => ?_, h.downcount,
    h.rest, h.mxcsr, h.stack⟩
  · rw [hget]
    split
    · rename_i heq
      rw [heq, hr] at hy
      obtain rfl := Option.some.inj hy
      exact hv
    · rename_i hne
      exact h.held y z (fun heq => hne (Option.some.inj heq).symm) hy
  · rw [hget]
    split
    · rename_i heq
      rw [heq, hr] at hy
      obtain rfl := Option.some.inj hy
      rw [hd] at hclean
      cases hclean
    · rename_i hne
      exact h.clean y z (fun heq => hne (Option.some.inj heq).symm) hy hclean
  · rw [hget]
    split
    · rename_i heq
      rw [heq, hr] at hy
      cases hy
    · exact h.home y hy

/-! ## The code that comes with the map -/

theorem RegMap.plain_release (m : RegMap) (r : Gpr) : ∀ i ∈ (m.release r).2, i.isPlain := by
  rw [RegMap.release]
  split
  · simp
  · split
    · intro i hi
      obtain rfl := List.mem_singleton.mp hi
      rfl
    · simp

theorem RegMap.plain_releaseAll (m : RegMap) (rs : List Gpr) :
    ∀ i ∈ (m.releaseAll rs).2, i.isPlain := by
  induction rs generalizing m with
  | nil => simp [RegMap.releaseAll]
  | cons r rs ih =>
    intro i hi
    rcases List.mem_append.mp hi with hi | hi
    · exact m.plain_release r i hi
    · exact ih _ i hi

/-- The code that empties all registers is plain. -/
theorem RegMap.plain_flushAll (m : RegMap) : ∀ i ∈ m.flushAll.2, i.isPlain :=
  m.plain_releaseAll _

/-- So is the code that maps a register. -/
theorem RegMap.plain_map {x : GuestReg} {mode : MapMode} {r : Gpr} {code : List Insn}
    (hmap : m.map x mode = (.ok r, n, code)) : ∀ i ∈ code, i.isPlain := by
  rcases RegMap.map_eq_ok hmap with ⟨-, rfl, -⟩ | ⟨-, -, k, pre, hroom, -, rfl⟩
  · simp
  · intro i hi
    rcases List.mem_append.mp hi with hi | hi
    · cases hroom with
      | empty hfree => simp at hi
      | evict clock hlocked => exact RegMap.plain_release _ r i hi
    · split at hi
      · obtain rfl := List.mem_singleton.mp hi
        rfl
      · simp at hi

end

/-! ## The guest that a machine stands for -/

/-- The guest as compiled code keeps it between blocks: its context is in memory, apart from a
downcount in a register. -/
def Cpu.guest (staticAlloc : Bool) (c : Cpu) (s : σ) : Guest σ where
  context :=
    if staticAlloc then { c.context with downcount := c.reg32 Gpr.downcount } else c.context
  mxcsr := c.mxcsr
  state := s

/-- A machine with the context set has the guest that is in its memory. -/
theorem Cpu.synced_guest (staticAlloc : Bool) {c : Cpu} (hc : c.reg Gpr.context = contextBase)
    (s : σ) : Synced staticAlloc c (c.guest staticAlloc s) c := by
  cases staticAlloc with
  | true => exact ⟨hc, rfl, rfl, rfl, .refl c⟩
  | false => exact ⟨hc, rfl, rfl, rfl, .refl c⟩

/-- If the whole guest is in memory, it is the guest of the machine. -/
theorem Synced.guest_eq {staticAlloc : Bool} {frame c : Cpu} {g : Guest σ}
    (h : Synced staticAlloc frame g c) : c.guest staticAlloc g.state = g := by
  obtain ⟨context, mxcsr, state⟩ := g
  have hcontext := h.context
  have hdowncount := h.downcount
  have hmxcsr := h.mxcsr
  dsimp only at hcontext hdowncount hmxcsr
  simp only [Cpu.guest, Guest.mk.injEq]
  refine ⟨?_, hmxcsr, trivial⟩
  cases staticAlloc with
  | true =>
    rw [if_pos rfl] at hdowncount ⊢
    rw [hcontext, hdowncount]
  | false =>
    rw [if_neg (by simp)] at hdowncount ⊢
    rw [hcontext, hdowncount]

end Dynarec
