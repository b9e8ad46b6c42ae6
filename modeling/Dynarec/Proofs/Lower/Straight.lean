import Dynarec.Proofs.Lower.Emit

/-!
# Instructions with straight code

Most instructions become code without branches and calls.  `Carries` says that such code keeps
machine and guest in step, while the guest changes as the instruction says; there is one theorem for
each way of lowering (`carries_binary`, `carries_binaryConst`, `carries_shiftImm`, ...).

What an instruction has mapped stays where it is until the instruction is done, because it is
locked.  Slots name registers modulo 32, but instructions are lowered by comparing slots as they
stand.  This makes a difference to arithmetic on two registers only: where the destination is the
second source by another number, the code copies the first source there before it reads the second
(`Inst.losesRight`), and so carries out the instruction with the first source in both places
(`Inst.carriedOut`).  With slots below 32 this never happens (`Inst.carriedOut_of_slots`).
-/

namespace Dynarec

open Lower Dynarec.Action

variable {σ : Type}

/-- Straight code that keeps machine and guest in step, while the guest changes by `f`. -/
structure Carries (staticAlloc : Bool) (m : RegMap) (code : List Insn) (n : RegMap)
    (f : Guest σ → Guest σ) : Prop where
  consistent : n.Consistent staticAlloc
  plain : ∀ i ∈ code, i.isPlain
  run : ∀ frame g c, Sim staticAlloc frame m none g c →
    ∃ d, Cpu.execList code c = .ok d ∧ Sim staticAlloc frame n none (f g) d

/-- Slots below 32 name different registers. -/
theorem RegMap.guestOf_inj {a b : UInt8} (ha : a < 32) (hb : b < 32)
    (h : RegMap.guestOf a = RegMap.guestOf b) : a = b := by
  have hval := congrArg Fin.val h
  simp only [RegMap.guestOf, Context.regIndex] at hval
  rw [UInt8.lt_iff_toNat_lt] at ha hb
  simp only [UInt8.reduceToNat] at ha hb
  apply UInt8.toNat_inj.mp
  omega

/-! ## Slots that name one register -/

/-- Whether an opcode is arithmetic on two registers. -/
def Opcode.isBinary : Opcode → Bool
  | .add | .sub | .and | .or | .xor => true
  | _ => false

namespace Inst

/-- Whether the code of an instruction overwrites the second source before reading it. -/
def losesRight (i : Inst) : Bool :=
  i.op.isBinary && i.dest ≠ i.src2 && RegMap.guestOf i.dest = RegMap.guestOf i.src2 &&
    RegMap.guestOf i.dest ≠ RegMap.guestOf i.src1

/-- The instruction that the code of an instruction carries out. -/
def carriedOut (i : Inst) : Inst :=
  if i.losesRight then { i with src2 := i.src1 } else i

variable {i : Inst}

/-- What it takes for the second source to be lost. -/
theorem losesRight_iff : i.losesRight ↔ i.op.isBinary ∧ i.dest ≠ i.src2 ∧
    RegMap.guestOf i.dest = RegMap.guestOf i.src2 ∧
    RegMap.guestOf i.dest ≠ RegMap.guestOf i.src1 := by
  simp [losesRight, and_assoc]

/-- Where nothing is lost, the instruction is carried out as it stands. -/
theorem carriedOut_of_not (h : ¬i.losesRight) : i.carriedOut = i :=
  if_neg h

/-- Only arithmetic on two registers can be carried out otherwise. -/
theorem carriedOut_of_not_binary (h : i.op.isBinary = false) : i.carriedOut = i :=
  carriedOut_of_not fun hloses => by simp [(losesRight_iff.mp hloses).1] at h

@[simp] theorem op_carriedOut (i : Inst) : i.carriedOut.op = i.op := by
  rw [carriedOut]
  split <;> rfl

@[simp] theorem dest_carriedOut (i : Inst) : i.carriedOut.dest = i.dest := by
  rw [carriedOut]
  split <;> rfl

@[simp] theorem src1_carriedOut (i : Inst) : i.carriedOut.src1 = i.src1 := by
  rw [carriedOut]
  split <;> rfl

@[simp] theorem constant_carriedOut (i : Inst) : i.carriedOut.constant = i.constant := by
  rw [carriedOut]
  split <;> rfl

/-- Slots below 32 name different registers unless they are equal. -/
theorem carriedOut_of_slots (hslots : ∀ r ∈ i.gprOperands, r < 32) : i.carriedOut = i := by
  refine carriedOut_of_not fun hloses => ?_
  obtain ⟨hbinary, hne, heq, -⟩ := losesRight_iff.mp hloses
  have hoperands : i.gprOperands = [i.dest, i.src1, i.src2] := by
    rw [gprOperands]
    cases hop : i.op <;> rw [hop] at hbinary <;> first | rfl | cases hbinary
  rw [hoperands] at hslots
  exact hne (RegMap.guestOf_inj (hslots _ (by simp)) (hslots _ (by simp)) heq)

end Inst

/-- The block that the code of a block carries out. -/
def Block.carriedOut (b : Block) : Block :=
  { b with insts := b.insts.map Inst.carriedOut }

/-- A block whose instructions are carried out as they stand is. -/
theorem Block.carriedOut_eq {b : Block} (h : ∀ i ∈ b.insts, i.carriedOut = i) :
    b.carriedOut = b := by
  have hinsts : b.insts.map Inst.carriedOut = b.insts :=
    (List.map_congr_left h).trans (List.map_id' _)
  rw [carriedOut, hinsts]

/-- So is a block whose slots are below 32. -/
theorem Block.carriedOut_of_slots {b : Block}
    (hslots : ∀ i ∈ b.insts, ∀ r ∈ i.gprOperands, r < 32) : b.carriedOut = b :=
  carriedOut_eq fun i hi => Inst.carriedOut_of_slots (hslots i hi)

/-- Plain code behind plain code is plain. -/
theorem plain_append {is js : List Insn} (his : ∀ i ∈ is, i.isPlain) (hjs : ∀ i ∈ js, i.isPlain) :
    ∀ i ∈ is ++ js, i.isPlain := by
  intro i hi
  rcases List.mem_append.mp hi with hi | hi
  · exact his i hi
  · exact hjs i hi

section

variable {staticAlloc : Bool} {frame : Cpu} {m m₁ m₂ n : RegMap} {d d' : Draft} {i : Inst}
  {g : Guest σ} {c : Cpu}

/-! ## Sources -/

/-- Both sources of an instruction have been mapped to be read. -/
structure Sources (staticAlloc : Bool) (m : RegMap) (x y : GuestReg) (code : List Insn)
    (n : RegMap) (left right : Gpr) : Prop where
  consistent : n.Consistent staticAlloc
  plain : ∀ i ∈ code, i.isPlain
  left_mapped : n.mapped? x = some left
  right_mapped : n.mapped? y = some right
  left_locked : n.isLocked left = true
  right_locked : n.isLocked right = true
  run : ∀ {σ : Type} (frame : Cpu) (g : Guest σ) (c : Cpu), Sim staticAlloc frame m none g c →
    ∃ d, Cpu.execList code c = .ok d ∧ Sim staticAlloc frame n none g d

/-- Two sources that are mapped one after the other are both at hand. -/
theorem sources_of_map {x y : GuestReg} {left right : Gpr} {is js : List Insn}
    (hm : m.Consistent staticAlloc) (hleft : m.map x .read = (.ok left, m₁, is))
    (hright : m₁.map y .read = (.ok right, m₂, js)) :
    Sources staticAlloc m x y (is ++ js) m₂ left right where
  consistent := (hm.map hleft).map hright
  plain := plain_append (RegMap.plain_map hleft) (RegMap.plain_map hright)
  left_mapped := by
    refine RegMap.mapped?_map_of_locked (hm.map hleft) hright (RegMap.mapped?_map hleft) ?_
    simp [RegMap.isLocked_map hleft]
  right_mapped := RegMap.mapped?_map hright
  left_locked := by simp [RegMap.isLocked_map hright, RegMap.isLocked_map hleft]
  right_locked := by simp [RegMap.isLocked_map hright]
  run frame g c h := by
    obtain ⟨d, hexec, hsim⟩ := h.map_reads hm hleft rfl
    obtain ⟨e, hexec', hsim'⟩ := hsim.map_reads (hm.map hleft) hright rfl
    exact ⟨e, Cpu.execList_append_of_ok hexec hexec', hsim'⟩

/-! ## Arithmetic on two registers -/

/-- The destination is the first source. -/
theorem carries_binary_left {op : Alu} (hop : op ≠ .cmp) {x y : UInt8} {left right dest : Gpr}
    {is js : List Insn}
    (hs : Sources staticAlloc m (RegMap.guestOf x) (RegMap.guestOf y) is m₂ left right)
    (hdest : m₂.map (RegMap.guestOf x) .readWrite = (.ok dest, n, js)) :
    Carries staticAlloc m (is ++ js ++ [.alu32 op dest right]) n fun g : Guest σ =>
      g.setReg x ⟨op.apply (g.reg x).toBitVec (g.reg y).toBitVec⟩ where
  consistent := hs.consistent.map hdest
  plain := plain_append (plain_append hs.plain (RegMap.plain_map hdest)) (List.all_eq_true.mp rfl)
  run frame g c h := by
    obtain ⟨c₁, hexec₁, hsim₁⟩ := hs.run frame g c h
    obtain ⟨c₂, hexec₂, hsim₂⟩ := hsim₁.map_reads hs.consistent hdest rfl
    have hx := RegMap.mapped?_map hdest
    have hy := RegMap.mapped?_map_of_locked hs.consistent hdest hs.right_mapped hs.right_locked
    obtain ⟨f, hexec₃⟩ := Cpu.exec_alu hop c₂ dest right
    rw [hsim₂.held _ _ (by simp) hx, hsim₂.held _ _ (by simp) hy] at hexec₃
    refine ⟨_, Cpu.execList_append_of_ok (Cpu.execList_append_of_ok hexec₁ hexec₂)
      (Cpu.execList_cons_of_ok hexec₃ rfl), ?_⟩
    have hn := hs.consistent.map hdest
    exact (((hsim₂.setFlags f).open _).setReg32 hn hx _).close hx (RegMap.dirty_map hdest rfl)
      (Cpu.reg32_setReg32_self _ _ _)

/-- The first source is copied to the destination, which may be the second source. -/
theorem carries_binary_copy {op : Alu} (hop : op ≠ .cmp) {x y z : UInt8} {left right dest : Gpr}
    {is js : List Insn}
    (hs : Sources staticAlloc m (RegMap.guestOf x) (RegMap.guestOf y) is m₂ left right)
    (hdest : m₂.map (RegMap.guestOf z) .write = (.ok dest, n, js)) :
    Carries staticAlloc m (is ++ js ++ [.mov32 dest left, .alu32 op dest right]) n
      fun g : Guest σ => g.setReg z ⟨op.apply (g.reg x).toBitVec
        (g.reg (if RegMap.guestOf z = RegMap.guestOf y then x else y)).toBitVec⟩ where
  consistent := hs.consistent.map hdest
  plain := plain_append (plain_append hs.plain (RegMap.plain_map hdest)) (List.all_eq_true.mp rfl)
  run frame g c h := by
    have hn := hs.consistent.map hdest
    obtain ⟨c₁, hexec₁, hsim₁⟩ := hs.run frame g c h
    obtain ⟨gpr, hexec₂, hsim₂⟩ := hsim₁.map_writes hs.consistent hdest
    have hy := RegMap.mapped?_map_of_locked hs.consistent hdest hs.right_mapped hs.right_locked
    have hz := RegMap.mapped?_map hdest
    -- mapping the destination may store registers, but changes none
    have hleft : ({ c₁ with context := { c₁.context with gpr } } : Cpu).reg32 left = g.reg x :=
      hsim₁.held _ _ (by simp) hs.left_mapped
    have hright : ({ c₁ with context := { c₁.context with gpr } } : Cpu).reg32 right = g.reg y :=
      hsim₁.held _ _ (by simp) hs.right_mapped
    generalize ({ c₁ with context := { c₁.context with gpr } } : Cpu) = c₂ at *
    have hread : (c₂.setReg32 dest (c₂.reg32 left)).reg32 right =
        g.reg (if RegMap.guestOf z = RegMap.guestOf y then x else y) := by
      split
      · rename_i hzy
        obtain rfl : dest = right := Option.some.inj (hz.symm.trans (hzy ▸ hy))
        rw [Cpu.reg32_setReg32_self, hleft]
      · rename_i hzy
        have hne : right ≠ dest := fun heq => hzy (hn.guest_inj hz (heq ▸ hy))
        rw [Cpu.reg32_setReg32_of_ne hne, hright]
    obtain ⟨f, hexec₃⟩ := Cpu.exec_alu hop (c₂.setReg32 dest (c₂.reg32 left)) dest right
    rw [hread, Cpu.reg32_setReg32_self, hleft] at hexec₃
    refine ⟨_, Cpu.execList_append_of_ok (Cpu.execList_append_of_ok hexec₁ hexec₂)
      (Cpu.execList_cons_of_ok (by rw [Cpu.exec, hleft]) (Cpu.execList_cons_of_ok hexec₃ rfl)), ?_⟩
    exact (((hsim₂.setReg32 hn hz _).setFlags f).setReg32 hn hz _).close hz
      (RegMap.dirty_map hdest rfl) (Cpu.reg32_setReg32_self _ _ _)

/-- The destination is the second source: the result goes by way of the scratch register. -/
theorem carries_binary_right {op : Alu} (hop : op ≠ .cmp) {x y : UInt8} {left right dest : Gpr}
    {is js : List Insn}
    (hs : Sources staticAlloc m (RegMap.guestOf x) (RegMap.guestOf y) is m₂ left right)
    (hdest : m₂.map (RegMap.guestOf y) .write = (.ok dest, n, js)) :
    Carries staticAlloc m
      (is ++ [.mov32 Gpr.scratch left, .alu32 op Gpr.scratch right] ++ js ++
        [.mov32 dest Gpr.scratch]) n
      fun g : Guest σ => g.setReg y ⟨op.apply (g.reg x).toBitVec (g.reg y).toBitVec⟩ where
  consistent := hs.consistent.map hdest
  plain := plain_append (plain_append (plain_append hs.plain (List.all_eq_true.mp rfl))
    (RegMap.plain_map hdest)) (List.all_eq_true.mp rfl)
  run frame g c h := by
    have hn := hs.consistent.map hdest
    obtain ⟨c₁, hexec₁, hsim₁⟩ := hs.run frame g c h
    have hleft := hsim₁.held _ _ (by simp) hs.left_mapped
    have hright := hsim₁.held _ _ (by simp) hs.right_mapped
    have hne : right ≠ Gpr.scratch :=
      (RegMap.ne_of_mem_allocatable (hs.consistent.handed _ _
        ((hs.consistent.inverse _ _).mp hs.right_mapped))).2.1
    obtain ⟨f, hexec₂⟩ := Cpu.exec_alu hop (c₁.setReg32 Gpr.scratch (c₁.reg32 left)) Gpr.scratch right
    rw [Cpu.reg32_setReg32_self, Cpu.reg32_setReg32_of_ne hne, hleft, hright] at hexec₂
    -- the result is in the scratch register before the destination is mapped for writing
    have hsim₂ := ((hsim₁.setScratch hs.consistent (g.context.gpr.get (RegMap.guestOf x))).setFlags
      f).setScratch hs.consistent
        ⟨op.apply (g.context.gpr.get (RegMap.guestOf x)).toBitVec
          (g.context.gpr.get (RegMap.guestOf y)).toBitVec⟩
    obtain ⟨gpr, hexec₃, hsim₃⟩ := hsim₂.map_writes hs.consistent hdest
    have hz := RegMap.mapped?_map hdest
    refine ⟨_, Cpu.execList_append_of_ok (Cpu.execList_append_of_ok (Cpu.execList_append_of_ok hexec₁
      (Cpu.execList_cons_of_ok (by rw [Cpu.exec, hleft]) (Cpu.execList_cons_of_ok hexec₂ rfl)))
      hexec₃) (Cpu.execList_cons_of_ok rfl rfl), ?_⟩
    refine (hsim₃.setReg32 hn hz _).close hz (RegMap.dirty_map hdest rfl) ?_
    rw [Cpu.reg32_setReg32_self]
    exact Cpu.reg32_setReg32_self _ _ _

/-- Which slot names what the code reads as the second source. -/
theorem reg_carriedOut_src2 (hbinary : i.op.isBinary) (hne : i.dest ≠ i.src2) (g : Guest σ) :
    g.reg i.carriedOut.src2 =
      g.reg (if RegMap.guestOf i.dest = RegMap.guestOf i.src2 then i.src1 else i.src2) := by
  rw [Inst.carriedOut]
  by_cases hright : RegMap.guestOf i.dest = RegMap.guestOf i.src2
  · rw [if_pos hright]
    split
    · rfl
    · -- the destination is both sources, so that either number will do
      rename_i hkeeps
      have hleft : RegMap.guestOf i.dest = RegMap.guestOf i.src1 := Decidable.byContradiction
        fun hleft => hkeeps (Inst.losesRight_iff.mpr ⟨hbinary, hne, hright, hleft⟩)
      exact congrArg g.context.gpr.get (hright.symm.trans hleft)
  · have hkeeps : ¬i.losesRight := fun hloses => hright (Inst.losesRight_iff.mp hloses).2.2.1
    rw [if_neg hright, if_neg hkeeps]

/-- Arithmetic on two registers is carried out, with the sources that the code reads. -/
theorem carries_binary {op : Alu} (hop : op ≠ .cmp) (hbinary : i.op.isBinary)
    (hm : d.regs.Consistent staticAlloc) (h : binary op i d = .ok ⟨⟩ d') :
    ∃ code m, d' = d.put code m ∧ Carries staticAlloc d.regs code m fun g : Guest σ =>
      g.setReg i.dest ⟨op.apply (g.reg i.src1).toBitVec (g.reg i.carriedOut.src2).toBitVec⟩ := by
  rw [binary] at h
  obtain ⟨left, m₁, is, hleft, h⟩ := Emit.bind_mapReg_eq_ok.mp h
  obtain ⟨right, m₂, js, hright, h⟩ := Emit.bind_mapReg_eq_ok.mp h
  -- the code depends on which slot numbers agree, and not on which registers they name
  have hs := sources_of_map hm hleft hright
  split at h
  · rename_i heq
    have hkeeps : i.carriedOut = i := Inst.carriedOut_of_not fun hloses =>
      (Inst.losesRight_iff.mp hloses).2.2.2 (by rw [heq])
    obtain ⟨dest, n, ks, hdest, h⟩ := Emit.bind_mapReg_eq_ok.mp h
    rw [Emit.insn_apply] at h
    cases h
    rw [hkeeps]
    rw [heq] at hdest ⊢
    exact ⟨_, n, by simp, carries_binary_left hop hs hdest⟩
  · split at h
    · rename_i hne
      obtain ⟨dest, n, ks, hdest, h⟩ := Emit.bind_mapReg_eq_ok.mp h
      rw [Emit.insns_apply] at h
      cases h
      have hcarries := carries_binary_copy (σ := σ) hop hs hdest
      simp only [← reg_carriedOut_src2 hbinary hne] at hcarries
      exact ⟨_, n, by simp, hcarries⟩
    · rename_i heq
      rw [Decidable.not_not] at heq
      have hkeeps : i.carriedOut = i := Inst.carriedOut_of_not fun hloses =>
        (Inst.losesRight_iff.mp hloses).2.1 heq
      rw [bind_of_ok (Emit.insns_apply _ _)] at h
      obtain ⟨dest, n, ks, hdest, h⟩ := Emit.bind_mapReg_eq_ok.mp h
      rw [Emit.insn_apply] at h
      cases h
      rw [hkeeps]
      rw [heq] at hdest ⊢
      exact ⟨_, n, by simp, carries_binary_right hop hs hdest⟩

/-! ## Arithmetic on a register -/

/-- The destination has a register that holds the value of the first source. -/
structure DestFrom (staticAlloc : Bool) (m : RegMap) (i : Inst) (code : List Insn) (n : RegMap)
    (r : Gpr) : Prop where
  consistent : n.Consistent staticAlloc
  plain : ∀ k ∈ code, k.isPlain
  mapped : n.mapped? (RegMap.guestOf i.dest) = some r
  dirty : (n.slot r).dirty = true
  run : ∀ {σ : Type} (frame : Cpu) (g : Guest σ) (c : Cpu), Sim staticAlloc frame m none g c →
    ∃ d, Cpu.execList code c = .ok d ∧
      Sim staticAlloc frame n (some (RegMap.guestOf i.dest)) g d ∧ d.reg32 r = g.reg i.src1

/-- The first source has been copied to the destination. -/
theorem destFrom_of_map {src dest : Gpr} {is js : List Insn}
    (hm : m.Consistent staticAlloc) (hsrc : m.map (RegMap.guestOf i.src1) .read = (.ok src, m₁, is))
    (hdest : m₁.map (RegMap.guestOf i.dest) .write = (.ok dest, n, js)) :
    DestFrom staticAlloc m i (is ++ js ++ [.mov32 dest src]) n dest where
  consistent := (hm.map hsrc).map hdest
  plain := plain_append (plain_append (RegMap.plain_map hsrc) (RegMap.plain_map hdest))
    (List.all_eq_true.mp rfl)
  mapped := RegMap.mapped?_map hdest
  dirty := RegMap.dirty_map hdest rfl
  run frame g c h := by
    obtain ⟨c₁, hexec₁, hsim₁⟩ := h.map_reads hm hsrc rfl
    obtain ⟨gpr, hexec₂, hsim₂⟩ := hsim₁.map_writes (hm.map hsrc) hdest
    have hvalue : c₁.reg32 src = g.reg i.src1 := hsim₁.held _ _ (by simp) (RegMap.mapped?_map hsrc)
    refine ⟨_, Cpu.execList_append_of_ok (Cpu.execList_append_of_ok hexec₁ hexec₂)
      (Cpu.execList_cons_of_ok rfl rfl),
      hsim₂.setReg32 ((hm.map hsrc).map hdest) (RegMap.mapped?_map hdest) _, ?_⟩
    rw [Cpu.reg32_setReg32_self]
    exact hvalue

/-- The destination holds the first source, ready to be worked on. -/
theorem destFrom_of_ok {r : Gpr} (hm : d.regs.Consistent staticAlloc)
    (h : destFromSrc1 i d = .ok r d') :
    ∃ code m, d' = d.put code m ∧ DestFrom staticAlloc d.regs i code m r := by
  rw [destFromSrc1] at h
  split at h
  · rename_i heq
    obtain ⟨n, js, hdest, rfl⟩ := Emit.mapReg_eq_ok.mp h
    refine ⟨js, n, rfl, hm.map hdest, RegMap.plain_map hdest, RegMap.mapped?_map hdest,
      RegMap.dirty_map hdest rfl, fun frame g c hsim => ?_⟩
    obtain ⟨e, hexec, hsim'⟩ := hsim.map_reads hm hdest rfl
    refine ⟨e, hexec, hsim'.open _, ?_⟩
    rw [hsim'.held _ _ (by simp) (RegMap.mapped?_map hdest), heq]
    rfl
  · obtain ⟨src, m₁, is, hsrc, h⟩ := Emit.bind_mapReg_eq_ok.mp h
    obtain ⟨dest, n, js, hdest, h⟩ := Emit.bind_mapReg_eq_ok.mp h
    rw [bind_of_ok (Emit.insn_apply _ _)] at h
    cases h
    exact ⟨_, n, by simp, destFrom_of_map hm hsrc hdest⟩

/-- One more instruction on the destination, which makes `v` of the value of the source. -/
theorem DestFrom.carries {code : List Insn} {r : Gpr} (hd : DestFrom staticAlloc m i code n r)
    {k : Insn} (hplain : k.isPlain) {v : UInt32 → UInt32}
    (hk : ∀ c : Cpu, ∃ f, c.exec k = .ok (({ c with flags := f } : Cpu).setReg32 r (v (c.reg32 r)))) :
    Carries staticAlloc m (code ++ [k]) n fun g : Guest σ =>
      g.setReg i.dest (v (g.reg i.src1)) where
  consistent := hd.consistent
  plain := plain_append hd.plain (by simpa using hplain)
  run frame g c h := by
    obtain ⟨c₁, hexec₁, hsim₁, hvalue⟩ := hd.run frame g c h
    obtain ⟨f, hexec₂⟩ := hk c₁
    refine ⟨_, Cpu.execList_append_of_ok hexec₁ (Cpu.execList_cons_of_ok hexec₂ rfl), ?_⟩
    rw [hvalue]
    exact ((hsim₁.setFlags f).setReg32 hd.consistent hd.mapped _).close hd.mapped hd.dirty
      (Cpu.reg32_setReg32_self _ _ _)

/-- Arithmetic with a constant is carried out. -/
theorem carries_binaryConst {op : Alu} (hop : op ≠ .cmp) (hm : d.regs.Consistent staticAlloc)
    (h : binaryConst op i d = .ok ⟨⟩ d') :
    ∃ code m, d' = d.put code m ∧ Carries staticAlloc d.regs code m fun g : Guest σ =>
      g.setReg i.dest ⟨op.apply (g.reg i.src1).toBitVec i.constant.toBitVec⟩ := by
  rw [binaryConst] at h
  obtain ⟨r, d₁, hdest, h⟩ := bind_eq_ok.mp h
  obtain ⟨code, m, rfl, hfrom⟩ := destFrom_of_ok hm hdest
  rw [Emit.insn_apply] at h
  cases h
  exact ⟨_, m, Draft.put_put ..,
    hfrom.carries (v := fun x => ⟨op.apply x.toBitVec i.constant.toBitVec⟩) rfl
      fun c => Cpu.exec_alu_imm hop c r i.constant⟩

/-- Shifts by a constant are carried out, with the count taken modulo 32. -/
theorem carries_shiftImm {op : Shift} (hm : d.regs.Consistent staticAlloc)
    (h : shiftImm op i d = .ok ⟨⟩ d') :
    ∃ code m, d' = d.put code m ∧ Carries staticAlloc d.regs code m fun g : Guest σ =>
      g.setReg i.dest (op.apply (g.reg i.src1) ⟨i.src2.toNat % 32, Nat.mod_lt _ (by decide)⟩) := by
  rw [shiftImm] at h
  obtain ⟨r, d₁, hdest, h⟩ := bind_eq_ok.mp h
  obtain ⟨code, m, rfl, hfrom⟩ := destFrom_of_ok hm hdest
  rw [Emit.insn_apply] at h
  cases h
  exact ⟨_, m, Draft.put_put ..,
    hfrom.carries (v := fun x => op.apply x ⟨i.src2.toNat % 32, Nat.mod_lt _ (by decide)⟩) rfl
      fun c => Cpu.exec_shift op c r _⟩

/-! ## Copies -/

theorem carries_nil (hm : m.Consistent staticAlloc) :
    Carries staticAlloc m [] m fun g : Guest σ => g :=
  ⟨hm, by simp, fun _ _ c h => ⟨c, rfl, h⟩⟩

/-- A register gets a constant. -/
theorem carries_setConst (hm : d.regs.Consistent staticAlloc) {dest : Gpr} {js : List Insn}
    (hdest : d.regs.map (RegMap.guestOf i.dest) .write = (.ok dest, n, js)) :
    Carries staticAlloc d.regs (js ++ [.mov32i dest i.constant]) n fun g : Guest σ =>
      g.setReg i.dest i.constant where
  consistent := hm.map hdest
  plain := plain_append (RegMap.plain_map hdest) (List.all_eq_true.mp rfl)
  run frame g c h := by
    obtain ⟨gpr, hexec, hsim⟩ := h.map_writes hm hdest
    have hx := RegMap.mapped?_map hdest
    refine ⟨_, Cpu.execList_append_of_ok hexec (Cpu.execList_cons_of_ok rfl rfl), ?_⟩
    exact (hsim.setReg32 (hm.map hdest) hx _).close hx (RegMap.dirty_map hdest rfl)
      (Cpu.reg32_setReg32_self _ _ _)

/-- The copied value is the value of the source. -/
theorem DestFrom.carries_copy {code : List Insn} {r : Gpr}
    (hd : DestFrom staticAlloc m i code n r) :
    Carries staticAlloc m code n fun g : Guest σ => g.setReg i.dest (g.reg i.src1) where
  consistent := hd.consistent
  plain := hd.plain
  run frame g c h := by
    obtain ⟨c₁, hexec, hsim, hvalue⟩ := hd.run frame g c h
    exact ⟨c₁, hexec, hsim.close hd.mapped hd.dirty hvalue⟩

/-- Setting a register to what it holds changes nothing. -/
theorem Guest.setReg_reg (g : Guest σ) (r : UInt8) : g.setReg r (g.reg r) = g := by
  have hgpr : g.context.gpr.set (Context.regIndex r).val (g.reg r) = g.context.gpr := by
    refine vector_ext_get fun k => ?_
    rw [vector_get_set]
    split
    · rename_i heq
      rw [heq]
      rfl
    · rfl
  show { g with context := { g.context with gpr := _ } } = g
  rw [hgpr]

/-! ## The program counter and the downcount -/

/-- Machine and guest stay in step when both program counters are set. -/
theorem Sim.setPc (h : Sim staticAlloc frame m none g c) (v : UInt32) :
    Sim staticAlloc frame m none (g.onContext ({ · with pc := v }))
      { c with context := { c.context with pc := v } } where
  base := h.base
  held := h.held
  clean := h.clean
  home := h.home
  downcount := h.downcount
  rest := by
    have hrest := h.rest
    generalize c.context = context at hrest
    rw [hrest]
    rfl
  mxcsr := h.mxcsr
  stack := ⟨h.stack.pointer, h.stack.words⟩

/-- The program counter gets a register. -/
theorem carries_setPc (hm : d.regs.Consistent staticAlloc) {src : Gpr} {is : List Insn}
    (hsrc : d.regs.map (RegMap.guestOf i.src1) .read = (.ok src, n, is)) :
    Carries staticAlloc d.regs (is ++ [.store32 (contextWord Context.pcOffset) src]) n
      fun g : Guest σ => g.onContext ({ · with pc := g.reg i.src1 }) where
  consistent := hm.map hsrc
  plain := plain_append (RegMap.plain_map hsrc) (List.all_eq_true.mp rfl)
  run frame g c h := by
    obtain ⟨c₁, hexec, hsim⟩ := h.map_reads hm hsrc rfl
    have hvalue := hsim.held _ _ (by simp) (RegMap.mapped?_map hsrc)
    refine ⟨_, Cpu.execList_append_of_ok hexec (Cpu.execList_cons_of_ok
      (Cpu.exec_store_word hsim.base (by decide) (Context.store?_pc _ _)) rfl), ?_⟩
    rw [hvalue]
    exact hsim.setPc _

/-- The program counter gets a constant. -/
theorem carries_setPcConst (hm : m.Consistent staticAlloc) (v : UInt32) :
    Carries staticAlloc m [.store32i (contextWord Context.pcOffset) v] m
      fun g : Guest σ => g.onContext ({ · with pc := v }) where
  consistent := hm
  plain := List.all_eq_true.mp rfl
  run frame g c h :=
    ⟨_, Cpu.execList_cons_of_ok (Cpu.exec_store_imm h.base (by decide) (Context.store?_pc _ _)) rfl,
      h.setPc v⟩

/-- The budget is spent, in its register or in memory. -/
theorem carries_downcount (hm : m.Consistent staticAlloc) (v : UInt32) :
    Carries staticAlloc m
      [if staticAlloc then .alu32i .sub Gpr.downcount v
        else .alu32mi .sub (contextWord Context.downcountOffset) v] m
      fun g : Guest σ => g.onContext fun c => { c with downcount := c.downcount - v } := by
  cases staticAlloc with
  | true =>
    refine ⟨hm, List.all_eq_true.mp rfl, fun frame g c h => ?_⟩
    obtain ⟨f, hexec⟩ := Cpu.exec_alu_imm (show Alu.sub ≠ .cmp by decide) c Gpr.downcount v
    have hcount : c.reg32 Gpr.downcount = g.context.downcount := h.downcount
    refine ⟨_, Cpu.execList_cons_of_ok hexec rfl, ?_⟩
    rw [hcount]
    refine ⟨?_, fun x r hx hr => ?_, h.clean, h.home, ?_, h.rest, h.mxcsr, ?_, h.stack.words⟩
    · rw [Cpu.reg_setReg32_of_ne (by decide)]
      exact h.base
    · -- the register of the downcount is not handed out
      have hne := RegMap.ne_of_mem_allocatable (hm.handed r x ((hm.inverse x r).mp hr))
      rw [Cpu.reg32_setReg32_of_ne (hne.2.2.2 rfl)]
      exact h.held x r hx hr
    · exact Cpu.reg32_setReg32_self _ _ _
    · rw [Cpu.reg_setReg32_of_ne (by decide)]
      exact h.stack.pointer
  | false =>
    refine ⟨hm, List.all_eq_true.mp rfl, fun frame g c h => ?_⟩
    have hcount : c.context.downcount = g.context.downcount := h.downcount
    refine ⟨_, Cpu.execList_cons_of_ok (Cpu.exec_alu_word_imm h.base (by decide)
      (Context.load?_downcount _) (by decide) (Context.store?_downcount _ _)) rfl, ?_⟩
    refine ⟨h.base, h.held, h.clean, h.home, ?_, ?_, h.mxcsr, h.stack.pointer, h.stack.words⟩
    · rw [hcount]
      rfl
    · have hrest := h.rest
      generalize c.context = context at hrest
      rw [hrest]
      rfl

/-! ## All of them -/

/-- Whether an opcode becomes straight code. -/
def Opcode.isStraight : Opcode → Bool
  | .nop | .setConst | .mov | .add | .sub | .and | .or | .xor | .addConst | .subConst | .andConst
  | .orConst | .xorConst | .shlImm | .shrImm | .sarImm | .setPc | .setPcConst | .downcount => true
  | _ => false

/-- Instructions with branches and calls are carried out as they stand. -/
theorem Inst.carriedOut_of_not_straight (h : i.op.isStraight = false) : i.carriedOut = i := by
  refine carriedOut_of_not_binary ?_
  cases hop : i.op <;> rw [hop] at h <;> first | rfl | cases h

/-- An instruction that leaves is carried out as it stands. -/
theorem Inst.carriedOut_of_leaves {h : Handlers σ} {notifies : Bool} {g g' : Guest σ}
    {leave : Leave} (heval : i.carriedOut.eval h notifies g = (g', some leave)) : i.carriedOut = i := by
  refine Inst.carriedOut_of_not_binary (Bool.eq_false_iff.mpr fun hbinary => ?_)
  rw [← i.op_carriedOut] at hbinary
  rw [Inst.eval] at heval
  cases hop : i.carriedOut.op <;> rw [hop] at hbinary heval <;> try cases hbinary
  all_goals
    simp only [Inst.value?, hop] at heval
    cases heval

/-- What straight code for an instruction has to do. -/
def Straight (env : LowerEnv) (hs : Handlers σ) (notifies : Bool) (i : Inst) (d d' : Draft) :
    Prop :=
  ∃ code m, d' = d.put code m ∧
    Carries env.config.staticAlloc d.regs code m (fun g => (i.eval hs notifies g).1) ∧
    ∀ g, (i.eval hs notifies g).2 = none

/-- Code that carries out what an instruction means is its straight code. -/
theorem straight_of_carries {env : LowerEnv} {hs : Handlers σ} {notifies : Bool}
    {f : Guest σ → Guest σ}
    (h : ∃ code m, d' = d.put code m ∧ Carries env.config.staticAlloc d.regs code m f)
    (heval : ∀ g, i.eval hs notifies g = (f g, none)) : Straight env hs notifies i d d' := by
  obtain ⟨code, m, rfl, hcarries⟩ := h
  have hfun : (fun g => (i.eval hs notifies g).1) = f := funext fun g => by rw [heval]
  exact ⟨code, m, rfl, hfun ▸ hcarries, fun g => by rw [heval]⟩

/-- A register gets another one, and nothing is emitted if they have the same number. -/
theorem carries_mov (hm : d.regs.Consistent staticAlloc)
    (h : (if i.dest = i.src1 then return ()
      else do
        let src ← Emit.mapReg i.src1 .read
        let dest ← Emit.mapReg i.dest .write
        Emit.insn (.mov32 dest src) : Emit Unit) d = .ok ⟨⟩ d') :
    ∃ code m, d' = d.put code m ∧ Carries staticAlloc d.regs code m fun g : Guest σ =>
      g.setReg i.dest (g.reg i.src1) := by
  split at h
  · rename_i heq
    cases h
    refine ⟨[], d.regs, d.put_nil.symm, hm, by simp, fun frame g c hsim => ⟨c, rfl, ?_⟩⟩
    rw [heq, g.setReg_reg]
    exact hsim
  · obtain ⟨src, m₁, is, hsrc, h⟩ := Emit.bind_mapReg_eq_ok.mp h
    obtain ⟨dest, n, js, hdest, h⟩ := Emit.bind_mapReg_eq_ok.mp h
    rw [Emit.insn_apply] at h
    cases h
    exact ⟨is ++ js ++ [.mov32 dest src], n, by simp, (destFrom_of_map hm hsrc hdest).carries_copy⟩

/-- All arithmetic on two registers has straight code. -/
theorem straight_binary {env : LowerEnv} (hbinary : i.op.isBinary)
    (hm : d.regs.Consistent env.config.staticAlloc) (h : Lower.inst env i d = .ok ⟨⟩ d')
    (hs : Handlers σ) (notifies : Bool) : Straight env hs notifies i.carriedOut d d' := by
  have hcarries {op : Alu} (hop : op ≠ .cmp) (h : binary op i d = .ok ⟨⟩ d') :=
    carries_binary (σ := σ) hop hbinary hm h
  rw [Lower.inst] at h
  cases hi : i.op <;> rw [hi] at hbinary h <;> try cases hbinary
  all_goals
    refine straight_of_carries (hcarries (by decide) h) fun g => ?_
    simp only [Inst.eval, Inst.op_carriedOut, hi, Inst.value?, Inst.dest_carriedOut,
      Inst.src1_carriedOut]
    rfl

/-- Straight code does what the carried out instruction says, and such an instruction never
leaves. -/
theorem straight_inst {env : LowerEnv} (hop : i.op.isStraight)
    (hm : d.regs.Consistent env.config.staticAlloc) (h : Lower.inst env i d = .ok ⟨⟩ d')
    (hs : Handlers σ) (notifies : Bool) : Straight env hs notifies i.carriedOut d d' := by
  by_cases hbinary : i.op.isBinary
  · exact straight_binary hbinary hm h hs notifies
  -- only arithmetic on two registers can be carried out otherwise, and it is settled above
  rw [Inst.carriedOut_of_not_binary (by simpa using hbinary)]
  rw [Lower.inst] at h
  cases hi : i.op <;> rw [hi] at hop hbinary h <;> first | cases hop; done | skip
  case nop =>
    cases h
    refine straight_of_carries ⟨[], d.regs, d.put_nil.symm, carries_nil hm⟩ fun g => ?_
    rw [Inst.eval, hi]
  case setConst =>
    obtain ⟨dest, n, js, hdest, h⟩ := Emit.bind_mapReg_eq_ok.mp h
    rw [Emit.insn_apply] at h
    cases h
    refine straight_of_carries ⟨_, n, Draft.put_put .., carries_setConst hm hdest⟩ fun g => ?_
    simp only [Inst.eval, hi, Inst.value?]
  case mov =>
    refine straight_of_carries (carries_mov hm h) fun g => ?_
    simp only [Inst.eval, hi, Inst.value?]
    rfl
  case add | sub | and | or | xor => exact absurd rfl hbinary
  case addConst | subConst | andConst | orConst | xorConst =>
    refine straight_of_carries (carries_binaryConst (by decide) hm h) fun g => ?_
    simp only [Inst.eval, hi, Inst.value?]
    rfl
  case shlImm =>
    refine straight_of_carries (carries_shiftImm hm h) fun g => ?_
    simp only [Inst.eval, hi, Inst.value?, Shift.apply_shl]
    rfl
  case shrImm =>
    refine straight_of_carries (carries_shiftImm hm h) fun g => ?_
    simp only [Inst.eval, hi, Inst.value?, Shift.apply_shr]
    rfl
  case sarImm =>
    refine straight_of_carries (carries_shiftImm hm h) fun g => ?_
    simp only [Inst.eval, hi, Inst.value?, Shift.apply_sar]
    rfl
  case setPc =>
    obtain ⟨src, n, is, hsrc, h⟩ := Emit.bind_mapReg_eq_ok.mp h
    rw [Emit.insn_apply] at h
    cases h
    refine straight_of_carries ⟨_, n, Draft.put_put .., carries_setPc hm hsrc⟩ fun g => ?_
    simp only [Inst.eval, hi]
  case setPcConst =>
    cases h
    refine straight_of_carries ⟨_, d.regs, rfl, carries_setPcConst hm i.constant⟩ fun g => ?_
    simp only [Inst.eval, hi]
  case downcount =>
    cases h
    refine straight_of_carries ⟨_, d.regs, rfl, carries_downcount hm i.constant⟩ fun g => ?_
    simp only [Inst.eval, hi]

end

end Dynarec
