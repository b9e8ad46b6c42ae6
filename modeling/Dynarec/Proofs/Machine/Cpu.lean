import Mathlib.Algebra.GroupWithZero.Nat
import Dynarec.Machine.Meaning

/-!
# The processor's state

Reading back what was put into the state of the processor: registers, words of the guest context,
the stack.  With these equations an instruction is carried out by rewriting.
-/

namespace Dynarec

/-- Reading a vector at one place after a change at another. -/
theorem vector_get_set {α : Type} {n : Nat} (xs : Vector α n) (i k : Fin n) (v : α) :
    (xs.set i.val v).get k = if k = i then v else xs.get k := by
  show (xs.set i.val v)[k.val] = if k = i then v else xs[k.val]
  rw [Vector.getElem_set]
  by_cases h : k = i
  · simp [h]
  · have hne : i.val ≠ k.val := fun e => h (Fin.ext e.symm)
    simp [h, hne]

/-- Vectors with the same entries are equal. -/
theorem vector_ext_get {α : Type} {n : Nat} {xs ys : Vector α n} (h : ∀ k, xs.get k = ys.get k) :
    xs = ys :=
  Vector.ext fun i hi => h ⟨i, hi⟩

namespace Context

/-! ## Words of the guest context -/

theorem load?_pc (c : Context) : c.load? pcOffset = some c.pc := rfl

theorem load?_downcount (c : Context) : c.load? downcountOffset = some c.downcount := rfl

theorem load?_fcr31 (c : Context) : c.load? fcr31Offset = some c.fcr31 := rfl

theorem load?_temp (c : Context) : c.load? tempOffset = some c.temp := rfl

theorem load?_coreState (c : Context) : c.load? coreStateOffset = some c.coreState := rfl

theorem store?_pc (c : Context) (v : UInt32) : c.store? pcOffset v = some { c with pc := v } := rfl

theorem store?_downcount (c : Context) (v : UInt32) :
    c.store? downcountOffset v = some { c with downcount := v } := rfl

theorem store?_temp (c : Context) (v : UInt32) :
    c.store? tempOffset v = some { c with temp := v } := rfl

/-- A general-purpose register of the guest is a word of the context, at four times its number. -/
theorem load?_gpr (c : Context) (g : Fin 32) : c.load? (g.val * 4) = some (c.gpr.get g) := by
  have hmod : g.val * 4 % 4 = 0 := by omega
  have hdiv : g.val * 4 / 4 = g.val := by omega
  simp only [load?, hmod, hdiv]
  simp

/-- Storing to that word sets the register. -/
theorem store?_gpr (c : Context) (g : Fin 32) (v : UInt32) :
    c.store? (g.val * 4) v = some { c with gpr := c.gpr.set g.val v } := by
  have hmod : g.val * 4 % 4 = 0 := by omega
  have hdiv : g.val * 4 / 4 = g.val := by omega
  simp only [store?, hmod, hdiv]
  simp

end Context

namespace Shift

/-! ## Shifts -/

/-- A shift count below 32 is not changed by taking it as a word. -/
theorem toNat_ofNat_count (n : Fin 32) : (UInt32.ofNat n.val).toBitVec.toNat = n.val := by
  simp
  omega

/-- Shifting left by a count of the instruction is shifting left. -/
theorem apply_shl (v : UInt32) (n : Fin 32) : shl.apply v n = v <<< UInt32.ofNat n.val := by
  apply UInt32.toBitVec_inj.mp
  rw [UInt32.toBitVec_shiftLeft, BitVec.shiftLeft_eq', BitVec.toNat_umod, toNat_ofNat_count]
  simp [apply, Nat.mod_eq_of_lt n.isLt]

/-- Shifting right by a count of the instruction is shifting right without the sign. -/
theorem apply_shr (v : UInt32) (n : Fin 32) : shr.apply v n = v >>> UInt32.ofNat n.val := by
  apply UInt32.toBitVec_inj.mp
  rw [UInt32.toBitVec_shiftRight, BitVec.ushiftRight_eq', BitVec.toNat_umod, toNat_ofNat_count]
  simp [apply, Nat.mod_eq_of_lt n.isLt]

/-- Shifting right with the sign is what the guest means by it. -/
theorem apply_sar (v : UInt32) (n : Fin 32) :
    sar.apply v n = Inst.shiftSigned v (UInt32.ofNat n.val) := by
  apply UInt32.toBitVec_inj.mp
  show _ = (v.toInt32 >>> (UInt32.ofNat n.val).toInt32).toBitVec
  have hcount : ∀ n : Fin 32, ((UInt32.ofNat n.val).toInt32.toBitVec.smod 32).toNat = n.val := by
    decide
  rw [Int32.toBitVec_shiftRight, BitVec.sshiftRight', hcount]
  rfl

end Shift

namespace Flags

/-! ## Flags -/

/-- The flags of a result say that it is equal exactly if it is zero. -/
theorem equal_ofBits (v : UInt32) : (ofBits v.toBitVec).holds .equal = decide (v = 0) := by
  rw [Bool.eq_iff_iff]
  simp [holds, ofBits, ← UInt32.toBitVec_inj]

/-- Comparing with zero is looking at the word. -/
theorem ofSub_zero (v : UInt32) : ofSub v.toBitVec (0 : UInt32).toBitVec = ofBits v.toBitVec := by
  rw [ofSub, ofBits, Flags.mk.injEq]
  refine ⟨by simp, by simp, ?_⟩
  have hlt := v.toBitVec.toInt_lt
  have hle := v.toBitVec.le_toInt
  simp [BitVec.ssubOverflow]
  omega

/-- The flags of a comparison say that it is zero exactly if both words are the same. -/
theorem zero_ofSub (a b : UInt32) : (ofSub a.toBitVec b.toBitVec).zero = decide (a = b) := by
  rw [Bool.eq_iff_iff]
  simp only [ofSub, beq_iff_eq, decide_eq_true_iff, ← UInt32.toBitVec_inj]
  constructor
  · intro hsub
    bv_omega
  · intro heq
    rw [heq]
    exact BitVec.sub_self _

/-- The highest bit of a word is its sign. -/
theorem msb_toBitVec (v : UInt32) : v.toBitVec.msb = Inst.isNegative v := by
  rw [Bool.eq_iff_iff, Inst.isNegative, decide_eq_true_iff, BitVec.msb_eq_decide,
    decide_eq_true_iff, UInt32.le_iff_toNat_le]
  rfl

/-- An inverted condition holds where the condition does not. -/
theorem holds_invert (f : Flags) (c : Cond) : f.holds c.invert = !f.holds c := by
  obtain ⟨zero, sign, overflow⟩ := f
  revert zero sign overflow
  cases c <;> decide

theorem equal_ofBits8 (v : UInt8) : (ofBits v.toBitVec).holds .equal = decide (v = 0) := by
  rw [Bool.eq_iff_iff]
  simp [holds, ofBits, ← UInt8.toBitVec_inj]

theorem equal_ofBits64 (v : UInt64) : (ofBits v.toBitVec).holds .equal = decide (v = 0) := by
  rw [Bool.eq_iff_iff]
  simp [holds, ofBits, ← UInt64.toBitVec_inj]

end Flags

namespace Cpu

/-! ## Registers -/

/-- A register that is set has its new value, and the others keep theirs. -/
theorem reg_setReg (c : Cpu) (r x : Gpr) (v : UInt64) :
    (c.setReg r v).reg x = if x = r then v else c.reg x :=
  vector_get_set c.regs r x v

@[simp] theorem reg_setReg_self (c : Cpu) (r : Gpr) (v : UInt64) : (c.setReg r v).reg r = v := by
  simp [reg_setReg]

theorem reg_setReg_of_ne {r x : Gpr} (h : x ≠ r) (c : Cpu) (v : UInt64) :
    (c.setReg r v).reg x = c.reg x := by
  simp [reg_setReg, h]

theorem reg32_setReg_self (c : Cpu) (r : Gpr) (v : UInt64) :
    (c.setReg r v).reg32 r = v.toUInt32 := by
  rw [reg32, reg_setReg_self]

theorem reg32_setReg_of_ne {r x : Gpr} (h : x ≠ r) (c : Cpu) (v : UInt64) :
    (c.setReg r v).reg32 x = c.reg32 x := by
  rw [reg32, reg_setReg_of_ne h, reg32]

@[simp] theorem reg_setReg32_self (c : Cpu) (r : Gpr) (v : UInt32) :
    (c.setReg32 r v).reg r = v.toUInt64 :=
  reg_setReg_self c r _

/-- The low half of a register that is set to a word is the word. -/
@[simp] theorem reg32_setReg32_self (c : Cpu) (r : Gpr) (v : UInt32) :
    (c.setReg32 r v).reg32 r = v := by
  simp [reg32, setReg32]

theorem reg_setReg32_of_ne {r x : Gpr} (h : x ≠ r) (c : Cpu) (v : UInt32) :
    (c.setReg32 r v).reg x = c.reg x :=
  reg_setReg_of_ne h c _

theorem reg32_setReg32_of_ne {r x : Gpr} (h : x ≠ r) (c : Cpu) (v : UInt32) :
    (c.setReg32 r v).reg32 x = c.reg32 x :=
  reg32_setReg_of_ne h c _

@[simp] theorem context_setReg (c : Cpu) (r : Gpr) (v : UInt64) :
    (c.setReg r v).context = c.context := rfl

@[simp] theorem flags_setReg (c : Cpu) (r : Gpr) (v : UInt64) :
    (c.setReg r v).flags = c.flags := rfl

@[simp] theorem mxcsr_setReg (c : Cpu) (r : Gpr) (v : UInt64) :
    (c.setReg r v).mxcsr = c.mxcsr := rfl

@[simp] theorem ip_setReg (c : Cpu) (r : Gpr) (v : UInt64) : (c.setReg r v).ip = c.ip := rfl

@[simp] theorem context_setReg32 (c : Cpu) (r : Gpr) (v : UInt32) :
    (c.setReg32 r v).context = c.context := rfl

@[simp] theorem flags_setReg32 (c : Cpu) (r : Gpr) (v : UInt32) :
    (c.setReg32 r v).flags = c.flags := rfl

@[simp] theorem mxcsr_setReg32 (c : Cpu) (r : Gpr) (v : UInt32) :
    (c.setReg32 r v).mxcsr = c.mxcsr := rfl

@[simp] theorem stack_setReg32 (c : Cpu) (r : Gpr) (v : UInt32) :
    (c.setReg32 r v).stack = c.stack := rfl

/-! ## The instruction pointer -/

@[simp] theorem goTo_goTo (c : Cpu) (a b : UInt64) : (c.goTo a).goTo b = c.goTo b := rfl

@[simp] theorem ip_goTo (c : Cpu) (a : UInt64) : (c.goTo a).ip = a := rfl

@[simp] theorem reg_goTo (c : Cpu) (a : UInt64) (r : Gpr) : (c.goTo a).reg r = c.reg r := rfl

@[simp] theorem reg32_goTo (c : Cpu) (a : UInt64) (r : Gpr) : (c.goTo a).reg32 r = c.reg32 r := rfl

@[simp] theorem context_goTo (c : Cpu) (a : UInt64) : (c.goTo a).context = c.context := rfl

@[simp] theorem flags_goTo (c : Cpu) (a : UInt64) : (c.goTo a).flags = c.flags := rfl

@[simp] theorem mxcsr_goTo (c : Cpu) (a : UInt64) : (c.goTo a).mxcsr = c.mxcsr := rfl

@[simp] theorem stack_goTo (c : Cpu) (a : UInt64) : (c.goTo a).stack = c.stack := rfl

theorem goTo_ip (c : Cpu) : c.goTo c.ip = c := rfl

/-! ## Arithmetic on registers -/

/-- Arithmetic on two registers changes the left one and the flags. -/
theorem exec_alu {op : Alu} (hop : op ≠ .cmp) (c : Cpu) (dst src : Gpr) :
    ∃ f, c.exec (.alu32 op dst src) =
      .ok (({ c with flags := f } : Cpu).setReg32 dst
        ⟨op.apply (c.reg32 dst).toBitVec (c.reg32 src).toBitVec⟩) :=
  ⟨_, by rw [exec, if_neg hop]⟩

/-- Arithmetic on a register and an immediate. -/
theorem exec_alu_imm {op : Alu} (hop : op ≠ .cmp) (c : Cpu) (dst : Gpr) (imm : UInt32) :
    ∃ f, c.exec (.alu32i op dst imm) =
      .ok (({ c with flags := f } : Cpu).setReg32 dst
        ⟨op.apply (c.reg32 dst).toBitVec imm.toBitVec⟩) :=
  ⟨_, by rw [exec, if_neg hop]⟩

/-- The bits of a register are masked. -/
theorem exec_and_imm (c : Cpu) (dst : Gpr) (imm : UInt32) :
    c.exec (.alu32i .and dst imm) =
      .ok (({ c with flags := .ofBits (c.reg32 dst &&& imm).toBitVec } : Cpu).setReg32 dst
        (c.reg32 dst &&& imm)) := rfl

/-- Bits of a register are flipped. -/
theorem exec_xor_imm (c : Cpu) (dst : Gpr) (imm : UInt32) :
    c.exec (.alu32i .xor dst imm) =
      .ok (({ c with flags := .ofBits (c.reg32 dst ^^^ imm).toBitVec } : Cpu).setReg32 dst
        (c.reg32 dst ^^^ imm)) := rfl

/-- A shift sets the register; what it does to the flags is left open. -/
theorem exec_shift (op : Shift) (c : Cpu) (dst : Gpr) (count : Fin 32) :
    ∃ f, c.exec (.shift32 op dst count) =
      .ok (({ c with flags := f } : Cpu).setReg32 dst (op.apply (c.reg32 dst) count)) := by
  rw [exec]
  split
  · exact ⟨c.flags, rfl⟩
  · exact ⟨_, rfl⟩

/-- Testing a register against itself compares it with zero. -/
theorem exec_test_self (c : Cpu) (r : Gpr) :
    c.exec (.test32 r r) = .ok { c with flags := .ofBits (c.reg32 r).toBitVec } := by
  rw [exec, BitVec.and_self]

/-! ## The guest context in memory

The lemmas take the value of a word, or the context after a change of it, as an equation of
`Context.load?` or `Context.store?`. -/

/-- The offset of a context word at its memory operand. -/
theorem address_context {c : Cpu} (h : c.reg Gpr.context = contextBase) {offset : Nat}
    (hlt : offset < 2 ^ 31) :
    (c.address ⟨Gpr.context, UInt32.ofNat offset⟩ - contextBase).toNat = offset := by
  have hsmall : UInt32.ofNat offset < 0x80000000 := by
    rw [UInt32.lt_iff_toNat_lt, UInt32.toNat_ofNat']
    simp only [UInt32.reduceToNat]
    omega
  rw [address, h, Word.extend32, if_pos hsmall, UInt64.add_comm, UInt64.add_sub_cancel,
    UInt32.toNat_toUInt64, UInt32.toNat_ofNat']
  omega

/-- A word of the context is loaded through the register that has its address. -/
theorem load_context {c : Cpu} (h : c.reg Gpr.context = contextBase) {offset : Nat} {v : UInt32}
    (hlt : offset < 2 ^ 31) (hload : c.context.load? offset = some v) :
    c.load (contextWord offset) = .ok v := by
  rw [load, contextWord, address_context h hlt, hload]

/-- A word of the context is stored through the register that has its address. -/
theorem store_context {c : Cpu} (h : c.reg Gpr.context = contextBase) {offset : Nat} {v : UInt32}
    {context : Context} (hlt : offset < 2 ^ 31)
    (hstore : c.context.store? offset v = some context) :
    c.store (contextWord offset) v = .ok { c with context } := by
  rw [store, contextWord, address_context h hlt, hstore]

section Words

variable {c : Cpu} {offset : Nat} {v : UInt32} {context : Context}

/-- A register is loaded from the context. -/
theorem exec_load_word (h : c.reg Gpr.context = contextBase) (hlt : offset < 2 ^ 31)
    (hload : c.context.load? offset = some v) (r : Gpr) :
    c.exec (.load32 r (contextWord offset)) = .ok (c.setReg32 r v) := by
  rw [exec, load_context h hlt hload]
  rfl

/-- A register is stored to the context. -/
theorem exec_store_word (h : c.reg Gpr.context = contextBase) (hlt : offset < 2 ^ 31) {r : Gpr}
    (hstore : c.context.store? offset (c.reg32 r) = some context) :
    c.exec (.store32 (contextWord offset) r) = .ok { c with context } :=
  store_context h hlt hstore

/-- A constant is stored to the context. -/
theorem exec_store_imm (h : c.reg Gpr.context = contextBase) (hlt : offset < 2 ^ 31)
    (hstore : c.context.store? offset v = some context) :
    c.exec (.store32i (contextWord offset) v) = .ok { c with context } :=
  store_context h hlt hstore

/-- The control word is stored to the context. -/
theorem exec_stmxcsr (h : c.reg Gpr.context = contextBase) (hlt : offset < 2 ^ 31)
    (hstore : c.context.store? offset c.mxcsr = some context) :
    c.exec (.stmxcsr (contextWord offset)) = .ok { c with context } :=
  store_context h hlt hstore

/-- The control word is loaded from the context. -/
theorem exec_ldmxcsr (h : c.reg Gpr.context = contextBase) (hlt : offset < 2 ^ 31)
    (hload : c.context.load? offset = some v) :
    c.exec (.ldmxcsr (contextWord offset)) = .ok { c with mxcsr := v } := by
  rw [exec, load_context h hlt hload]
  rfl

/-- Arithmetic on a word of the context and an immediate. -/
theorem exec_alu_word_imm (h : c.reg Gpr.context = contextBase) (hlt : offset < 2 ^ 31)
    (hload : c.context.load? offset = some v) {op : Alu} (hop : op ≠ .cmp) {imm : UInt32}
    (hstore : c.context.store? offset ⟨op.apply v.toBitVec imm.toBitVec⟩ = some context) :
    c.exec (.alu32mi op (contextWord offset) imm) =
      .ok { c with context, flags := op.flags v.toBitVec imm.toBitVec } := by
  have hc : ({ c with flags := op.flags v.toBitVec imm.toBitVec } : Cpu).reg Gpr.context =
      contextBase := h
  rw [exec, load_context h hlt hload]
  simp only [bind, Except.bind, if_neg hop]
  rw [store_context hc hlt hstore]

/-- Arithmetic on a word of the context and a register. -/
theorem exec_alu_word (h : c.reg Gpr.context = contextBase) (hlt : offset < 2 ^ 31)
    (hload : c.context.load? offset = some v) {op : Alu} (hop : op ≠ .cmp) {r : Gpr}
    (hstore : c.context.store? offset ⟨op.apply v.toBitVec (c.reg32 r).toBitVec⟩ = some context) :
    c.exec (.alu32m op (contextWord offset) r) =
      .ok { c with context, flags := op.flags v.toBitVec (c.reg32 r).toBitVec } := by
  have hc : ({ c with flags := op.flags v.toBitVec (c.reg32 r).toBitVec } : Cpu).reg Gpr.context =
      contextBase := h
  rw [exec, load_context h hlt hload]
  simp only [bind, Except.bind, if_neg hop]
  rw [store_context hc hlt hstore]

/-- Comparing a word of the context with an immediate. -/
theorem exec_cmp_word (h : c.reg Gpr.context = contextBase) (hlt : offset < 2 ^ 31)
    (hload : c.context.load? offset = some v) (imm : UInt32) :
    c.exec (.alu32mi .cmp (contextWord offset) imm) =
      .ok { c with flags := .ofSub v.toBitVec imm.toBitVec } := by
  rw [exec, load_context h hlt hload]
  rfl

/-- The bits of a word of the context are tested. -/
theorem exec_test_word (h : c.reg Gpr.context = contextBase) (hlt : offset < 2 ^ 31)
    (hload : c.context.load? offset = some v) (imm : UInt32) :
    c.exec (.test32mi (contextWord offset) imm) =
      .ok { c with flags := .ofBits (v.toBitVec &&& imm.toBitVec) } := by
  rw [exec, load_context h hlt hload]
  rfl

end Words

/-! ## The stack -/

/-- Pushing moves the stack pointer down by a word. -/
@[simp] theorem reg_push_rsp (c : Cpu) (v : UInt64) :
    (c.push v).reg Gpr.rsp = c.reg Gpr.rsp - 8 :=
  reg_setReg_self c Gpr.rsp _

theorem reg_push_of_ne {r : Gpr} (h : r ≠ Gpr.rsp) (c : Cpu) (v : UInt64) :
    (c.push v).reg r = c.reg r :=
  reg_setReg_of_ne h c _

@[simp] theorem context_push (c : Cpu) (v : UInt64) : (c.push v).context = c.context := rfl

@[simp] theorem mxcsr_push (c : Cpu) (v : UInt64) : (c.push v).mxcsr = c.mxcsr := rfl

/-- Pushing writes the word below the stack pointer, and leaves the rest of the stack as it was. -/
theorem getD_stack_push (c : Cpu) (v a : UInt64) :
    (c.push v).stack.getD a 0 = if a = c.reg Gpr.rsp - 8 then v else c.stack.getD a 0 := by
  show (c.stack.insert (c.reg Gpr.rsp - 8) v).getD a 0 = _
  rw [Std.TreeMap.getD_insert]
  simp only [Std.LawfulEqCmp.compare_eq_iff_eq, @eq_comm _ (c.reg Gpr.rsp - 8)]

/-- Dropping moves the stack pointer up by a word. -/
@[simp] theorem reg_drop_rsp (c : Cpu) : c.drop.reg Gpr.rsp = c.reg Gpr.rsp + 8 :=
  reg_setReg_self c Gpr.rsp _

theorem reg_drop_of_ne {r : Gpr} (h : r ≠ Gpr.rsp) (c : Cpu) : c.drop.reg r = c.reg r :=
  reg_setReg_of_ne h c _

@[simp] theorem context_drop (c : Cpu) : c.drop.context = c.context := rfl

@[simp] theorem mxcsr_drop (c : Cpu) : c.drop.mxcsr = c.mxcsr := rfl

@[simp] theorem stack_drop (c : Cpu) : c.drop.stack = c.stack := rfl

end Cpu

end Dynarec
