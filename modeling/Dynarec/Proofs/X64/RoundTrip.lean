import Mathlib.Algebra.GroupWithZero.Nat
import Mathlib.Data.Bool.AllAny
import Dynarec.X64.Decode

/-!
# Reading back what was written

`Insn.decode?_bytes`: the machine code of an instruction, whatever follows it, is read as that
instruction, and what is left is what followed.  So the code of a list of instructions can be read
in one way only, and execution sees the instructions that were emitted.

## Shape of the proof

An encoding is an optional extension byte, an opcode, operand bytes and an immediate.  There is one
lemma for each of these parts (`takeRex_rex`, `takeOperands_onReg`, `takeOperands_onMem`,
`take32?_bytes32`, ...); the theorem itself only picks the branch that the opcode selects.
-/

namespace Dynarec

/-! ## Words -/

namespace Word

/-- A byte moved up by at most three bytes stays inside a word. -/
theorem byte_shift_mod (n : Nat) {k : Nat} (hk : k ≤ 24) :
    n % 2 ^ 8 * 2 ^ k % 2 ^ 32 = 2 ^ k * (n % 2 ^ 8) := by
  have hn : n % 2 ^ 8 < 2 ^ 8 := Nat.mod_lt _ (by decide)
  have hlt : n % 2 ^ 8 * 2 ^ k < 2 ^ 32 := by
    calc n % 2 ^ 8 * 2 ^ k < 2 ^ 8 * 2 ^ k := (Nat.mul_lt_mul_right (Nat.two_pow_pos k)).mpr hn
      _ ≤ 2 ^ 8 * 2 ^ 24 := Nat.mul_le_mul_left _ (Nat.pow_le_pow_right (by decide) hk)
      _ = 2 ^ 32 := by decide
  rw [Nat.mod_eq_of_lt hlt, Nat.mul_comm]

/-- A word is put together again from its bytes. -/
theorem ofBytes32_bytes (w : UInt32) :
    ofBytes32 w.toUInt8 (w >>> 8).toUInt8 (w >>> 16).toUInt8 (w >>> 24).toUInt8 = w := by
  apply UInt32.toNat_inj.mp
  have hw := w.toNat_lt
  simp only [ofBytes32, UInt32.toNat_or, UInt32.toNat_shiftLeft, UInt8.toNat_toUInt32,
    UInt32.toNat_toUInt8, UInt32.toNat_shiftRight, UInt32.reduceToNat, Nat.reduceMod]
  simp only [Nat.shiftLeft_eq, Nat.shiftRight_eq_div_pow]
  rw [byte_shift_mod _ (by decide), byte_shift_mod _ (by decide), byte_shift_mod _ (by decide),
    Nat.or_comm, Nat.or_comm (w.toNat % 2 ^ 8),
    ← Nat.two_pow_add_eq_or_of_lt (i := 8) (by omega), Nat.or_comm (_ + _),
    ← Nat.two_pow_add_eq_or_of_lt (i := 16) (by omega),
    ← Nat.two_pow_add_eq_or_of_lt (i := 24) (by omega)]
  omega

/-- The bytes of a word are read as the word. -/
@[simp] theorem take32?_bytes32 (w : UInt32) (rest : List UInt8) :
    take32? (bytes32 w ++ rest) = some (w, rest) := by
  simp only [bytes32, List.cons_append, List.nil_append, take32?, ofBytes32_bytes]

/-- A double word is put together again from its halves. -/
theorem halves_or (w : UInt64) :
    w.toUInt32.toUInt64 ||| (w >>> 32).toUInt32.toUInt64 <<< 32 = w := by
  apply UInt64.toNat_inj.mp
  have hw := w.toNat_lt
  simp only [UInt64.toNat_or, UInt64.toNat_shiftLeft, UInt32.toNat_toUInt64,
    UInt64.toNat_toUInt32, UInt64.toNat_shiftRight, UInt64.reduceToNat, Nat.reduceMod]
  simp only [Nat.shiftLeft_eq, Nat.shiftRight_eq_div_pow]
  have high : w.toNat / 2 ^ 32 % 2 ^ 32 * 2 ^ 32 % 2 ^ 64 = 2 ^ 32 * (w.toNat / 2 ^ 32) := by
    omega
  rw [high, Nat.or_comm, ← Nat.two_pow_add_eq_or_of_lt (i := 32) (by omega)]
  omega

/-- The bytes of a double word are read as the double word. -/
@[simp] theorem take64?_bytes64 (w : UInt64) (rest : List UInt8) :
    take64? (bytes64 w ++ rest) = some (w, rest) := by
  simp only [bytes64, List.append_assoc, take64?, take32?_bytes32, Option.bind_eq_bind,
    Option.bind_some, halves_or]

/-- A word that fits a byte is the widening of its low byte. -/
theorem extend8_toUInt8 {w : UInt32} (h : fitsByte w) : extend8 w.toUInt8 = w := by
  simp only [fitsByte, Bool.or_eq_true, decide_eq_true_eq, UInt32.lt_iff_toNat_lt,
    UInt32.le_iff_toNat_le, UInt32.reduceToNat] at h
  have hw := w.toNat_lt
  have high : (w.toNat % 256 ||| 0xffffff00) = 0xffffff00 + w.toNat % 256 := by
    rw [Nat.or_comm]
    exact (Nat.two_pow_add_eq_or_of_lt (i := 8) (b := w.toNat % 256) (by omega) 0xffffff).symm
  apply UInt32.toNat_inj.mp
  unfold extend8
  split
  · rename_i hb
    simp only [UInt8.lt_iff_toNat_lt, UInt32.toNat_toUInt8, UInt8.reduceToNat] at hb
    simp
    omega
  · rename_i hb
    simp only [UInt8.lt_iff_toNat_lt, UInt32.toNat_toUInt8, UInt8.reduceToNat] at hb
    simp [high]
    omega

/-- A word that is extended keeps its sign. -/
theorem toNat_extend32 (w : UInt32) :
    (extend32 w).toNat =
      if w.toNat < 0x80000000 then w.toNat else 0xffffffff00000000 + w.toNat := by
  have hw := w.toNat_lt
  have high : (w.toNat ||| 0xffffffff00000000) = 0xffffffff00000000 + w.toNat := by
    rw [Nat.or_comm]
    exact (Nat.two_pow_add_eq_or_of_lt (i := 32) hw 0xffffffff).symm
  simp only [extend32, UInt32.lt_iff_toNat_lt, UInt32.reduceToNat]
  split
  · simp
  · simp [high]

/-- A distance in reach is the widening of its low half. -/
theorem extend32_toUInt32 {d : UInt64} (h : d < 0x80000000 ∨ 0xffffffff80000000 ≤ d) :
    extend32 d.toUInt32 = d := by
  simp only [UInt64.lt_iff_toNat_lt, UInt64.le_iff_toNat_le, UInt64.reduceToNat] at h
  have hd := d.toNat_lt
  apply UInt64.toNat_inj.mp
  rw [toNat_extend32, UInt64.toNat_toUInt32]
  split <;> omega

end Word

/-! ## Extension byte and operands -/

namespace Decoding

open Encoding

/-- The extension byte before operands with these numbers, as it is read back. -/
def rexOf (wide : Bool) (reg rm : Fin 16) : Rex where
  given := rexValue wide reg rm ≠ 0x40
  wide := wide
  reg := 8 ≤ reg.val
  rm := 8 ≤ rm.val

/-- The low three bits of a register number. -/
def low (r : Fin 16) : Fin 8 := ⟨r.val % 8, Nat.mod_lt _ (by decide)⟩

/-- The second operand byte of a memory operand, where there is one. -/
def sib (base : Fin 16) : List UInt8 := if base.val % 8 = 4 then [0x24] else []

/-- A byte that is no prefix is left where it is. -/
theorem takeRex_of_ne {b : UInt8} (hb : b.toNat / 16 ≠ 4) (rest : List UInt8) :
    takeRex (b :: rest) = ({}, b :: rest) := by
  simp [takeRex, hb]

/-- The prefix of an instruction is read, or found to be missing. -/
theorem takeRex_rex (wide : Bool) (reg rm : Fin 16) {b : UInt8} (hb : b.toNat / 16 ≠ 4)
    (rest : List UInt8) :
    takeRex (rex wide reg rm ++ b :: rest) = (rexOf wide reg rm, b :: rest) := by
  simp only [rex, rexOf, rexValue]
  cases wide <;> by_cases hreg : 8 ≤ reg.val <;> by_cases hrm : 8 ≤ rm.val <;>
    simp [takeRex, hreg, hrm, hb]

/-- So is the prefix that a byte register may need. -/
theorem takeRex_rexByte (rm : Fin 16) {b : UInt8} (hb : b.toNat / 16 ≠ 4) (rest : List UInt8) :
    takeRex (rexByte rm ++ b :: rest) =
      ({ given := 4 ≤ rm.val, rm := 8 ≤ rm.val }, b :: rest) := by
  simp only [rexByte, rexValue]
  by_cases h4 : rm.val < 4
  · have h8 : ¬ 8 ≤ rm.val := by omega
    simp [takeRex, h4, h8, hb, Nat.not_le.mpr h4]
  · by_cases h8 : 8 ≤ rm.val <;> simp [takeRex, h4, h8, Nat.not_lt.mp h4]

/-- The parts of the operand byte lie side by side. -/
theorem toNat_modrm (mode : Fin 4) (reg rm : Fin 16) :
    (modrm mode reg rm).toNat = mode.val * 64 + reg.val % 8 * 8 + rm.val % 8 := by
  simp only [modrm, UInt8.toNat_ofNat']
  omega

/-- The middle part of the operand byte is the first register. -/
theorem mid3_modrm (mode : Fin 4) (reg rm : Fin 16) : mid3 (modrm mode reg rm) = low reg := by
  simp only [mid3, Word.octal, low, toNat_modrm, Fin.mk.injEq]
  omega

/-- The low part of the operand byte is the second register. -/
theorem low3_modrm (mode : Fin 4) (reg rm : Fin 16) : low3 (modrm mode reg rm) = low rm := by
  simp only [low3, Word.octal, low, toNat_modrm, Fin.mk.injEq]
  omega

/-- A register number is its high bit and its low three bits. -/
@[simp] theorem join_low (r : Fin 16) : join (decide (8 ≤ r.val)) (low r) = r := by
  apply Fin.ext
  by_cases h : 8 ≤ r.val <;> simp [join, low, h] <;> omega

@[simp] theorem low_field (n : Fin 8) : low (field n) = n := by
  apply Fin.ext
  simp [low, field]

/-- Two register operands are read. -/
theorem takeOperands_onReg {x : Rex} {rm : Fin 16} (hx : x.rm = decide (8 ≤ rm.val))
    (reg : Fin 16) (rest : List UInt8) :
    takeOperands x (onReg reg rm ++ rest) = some (low reg, .reg rm, rest) := by
  have hmode : (modrm 3 reg rm).toNat / 64 = 3 := by
    rw [toNat_modrm]
    omega
  simp [takeOperands, onReg, hmode, mid3_modrm, low3_modrm, hx]

/-- A memory operand is read back from its operand bytes and its displacement `d`. -/
theorem takeOperands_mem {x : Rex} (mode : Fin 4) {base : Fin 16} {disp : UInt32}
    (d : List UInt8) {rest : List UInt8} (hx : x.rm = decide (8 ≤ base.val)) (hmode : mode ≠ 3)
    (hbase : mode = 0 → base.val % 8 ≠ 5)
    (hdisp : takeDisp mode.val (d ++ rest) = some (disp, rest)) (reg : Fin 16) :
    takeOperands x (modrm mode reg base :: (sib base ++ (d ++ rest))) =
      some (low reg, .mem ⟨base, disp⟩, rest) := by
  have hm : (modrm mode reg base).toNat / 64 = mode.val := by
    rw [toNat_modrm]
    omega
  have h3 : mode.val ≠ 3 := fun h => hmode (Fin.ext h)
  have hj := join_low base
  by_cases h4 : base.val % 8 = 4
  · have hl : low base = 4 := Fin.ext h4
    rw [hl] at hj
    simp [takeOperands, hm, h3, low3_modrm, mid3_modrm, hl, sib, h4, hdisp, hx, hj]
  · have hl : low base ≠ 4 := fun h => h4 (congrArg Fin.val h)
    simp [takeOperands, hm, h3, low3_modrm, mid3_modrm, hl, sib, h4, hdisp, hx]
    intro h0 h5
    exact hbase h0 (congrArg Fin.val h5)

/-- A register and a memory operand are read, whatever the displacement takes. -/
theorem takeOperands_onMem {x : Rex} {m : Mem} (hx : x.rm = decide (8 ≤ m.base.val))
    (reg : Fin 16) (rest : List UInt8) :
    takeOperands x (onMem reg m ++ rest) = some (low reg, .mem m, rest) := by
  simp only [onMem]
  split
  · rename_i h
    have hdisp : takeDisp 0 ([] ++ rest) = some (m.disp, rest) := by simp [takeDisp, h.1]
    have read := takeOperands_mem 0 [] hx (by decide) (fun _ => h.2) hdisp reg
    simpa [sib] using read
  · split
    · rename_i hfit
      have hdisp : takeDisp 1 ([m.disp.toUInt8] ++ rest) = some (m.disp, rest) := by
        simp [takeDisp, Word.extend8_toUInt8 hfit]
      have read := takeOperands_mem 1 [m.disp.toUInt8] hx (by decide)
        (fun h => absurd h (by decide)) hdisp reg
      simpa [sib] using read
    · have hdisp : takeDisp 2 (Word.bytes32 m.disp ++ rest) = some (m.disp, rest) := by
        simp [takeDisp]
      have read := takeOperands_mem 2 (Word.bytes32 m.disp) hx (by decide)
        (fun h => absurd h (by decide)) hdisp reg
      simpa [sib] using read

/-- The opcodes whose operand bytes follow at once. -/
def operandOpcodes : List UInt8 :=
  [0x01, 0x09, 0x21, 0x29, 0x31, 0x39, 0x81, 0x83, 0x85, 0x89, 0x8b, 0xc1, 0xc7, 0xd1, 0xf6, 0xf7,
   0xff]

/-- Opcodes with operands are decoded by their operands. -/
theorem decodeAfterRex_operand {b : UInt8} (hb : b ∈ operandOpcodes) (x : Rex)
    (next : List UInt8 → UInt32 → UInt64) (rest : List UInt8) :
    decodeAfterRex x next (b :: rest) = decodeOperands x b rest := by
  simp only [operandOpcodes, List.mem_cons, List.not_mem_nil, or_false] at hb
  rcases hb with rfl | rfl | rfl | rfl | rfl | rfl | rfl | rfl | rfl | rfl | rfl | rfl | rfl |
    rfl | rfl | rfl | rfl <;> rfl

/-- No opcode with operands looks like a prefix. -/
theorem operandOpcodes_ne_rex {b : UInt8} (hb : b ∈ operandOpcodes) : b.toNat / 16 ≠ 4 := by
  have hall : ∀ b ∈ operandOpcodes, b.toNat / 16 ≠ 4 := List.all_iff_forall_prop.mp (by decide)
  exact hall b hb

/-- What an opcode with two registers is decoded to. -/
theorem decodeOperands_onReg {x : Rex} {reg rm : Fin 16} (hreg : x.reg = decide (8 ≤ reg.val))
    (hrm : x.rm = decide (8 ≤ rm.val)) (b : UInt8) (rest : List UInt8) :
    decodeOperands x b (onReg reg rm ++ rest) =
      if x.wide then wideInsn b.toNat (low reg) reg rm rest
      else regInsn x b.toNat (low reg) reg rm rest := by
  rw [decodeOperands, takeOperands_onReg hrm]
  cases hw : x.wide <;> simp [hreg]

/-- What an opcode with a memory operand is decoded to. -/
theorem decodeOperands_onMem {x : Rex} {reg : Fin 16} {m : Mem}
    (hreg : x.reg = decide (8 ≤ reg.val)) (hrm : x.rm = decide (8 ≤ m.base.val))
    (hwide : x.wide = false) (b : UInt8) (rest : List UInt8) :
    decodeOperands x b (onMem reg m ++ rest) = memInsn b.toNat (low reg) reg m rest := by
  rw [decodeOperands, takeOperands_onMem hrm]
  simp [hreg, hwide]

end Decoding

/-! ## Whole instructions -/

namespace Insn

open Encoding Decoding

/-- The address that a branch in `code` reads from its distance, where `rest` follows it. -/
private def nextOf (ip : UInt64) (code : List UInt8) (rest : List UInt8) (rel : UInt32) : UInt64 :=
  ip + UInt64.ofNat (code.length - rest.length) + Word.extend32 rel

/-- Decoding takes the prefix first. -/
theorem decode?_rex (ip : UInt64) (wide : Bool) (reg rm : Fin 16) {b : UInt8}
    (hb : b.toNat / 16 ≠ 4) (rest : List UInt8) :
    decode? ip (rex wide reg rm ++ b :: rest) =
      decodeAfterRex (rexOf wide reg rm) (nextOf ip (rex wide reg rm ++ b :: rest))
        (b :: rest) := by
  rw [decode?, takeRex_rex wide reg rm hb]
  rfl

/-- An instruction with two registers is decoded by its opcode. -/
theorem decode?_onReg (ip : UInt64) (wide : Bool) (reg rm : Fin 16) {b : UInt8}
    (hb : b ∈ operandOpcodes) (rest : List UInt8) :
    decode? ip (rex wide reg rm ++ b :: (onReg reg rm ++ rest)) =
      if wide then wideInsn b.toNat (low reg) reg rm rest
      else regInsn (rexOf wide reg rm) b.toNat (low reg) reg rm rest := by
  rw [decode?_rex ip wide reg rm (operandOpcodes_ne_rex hb), decodeAfterRex_operand hb,
    decodeOperands_onReg rfl rfl]
  rfl

/-- An instruction with a memory operand is decoded by its opcode. -/
theorem decode?_onMem (ip : UInt64) (reg : Fin 16) (m : Mem) {b : UInt8}
    (hb : b ∈ operandOpcodes) (rest : List UInt8) :
    decode? ip (rex false reg m.base ++ b :: (onMem reg m ++ rest)) =
      memInsn b.toNat (low reg) reg m rest := by
  rw [decode?_rex ip false reg m.base (operandOpcodes_ne_rex hb), decodeAfterRex_operand hb,
    decodeOperands_onMem rfl rfl rfl]

/-- A number in the register field needs no extension. -/
theorem rex_field (wide : Bool) (n : Fin 8) (rm : Fin 16) :
    rex wide 0 rm = rex wide (field n) rm := by
  have : ¬ 8 ≤ (field n).val := by simp [field]
  simp [rex, rexValue, this]

/-- An arithmetic immediate on a register is read back. -/
theorem decode?_aluImm_onReg (ip : UInt64) (wide : Bool) (op : Alu) (rm : Gpr) (imm : UInt32)
    (rest : List UInt8) :
    decode? ip (rex wide 0 rm ++ (aluImm (onReg (field op.digit) rm) imm ++ rest)) =
      some (if wide then .alu64i op rm imm else .alu32i op rm imm, rest) := by
  rw [rex_field wide op.digit]
  simp only [aluImm]
  split
  · rename_i hfit
    have hext := Word.extend8_toUInt8 hfit
    rw [List.append_assoc, List.cons_append, decode?_onReg ip wide _ rm (by decide)]
    cases wide <;> simp [wideInsn, regInsn, hext]
  · rw [List.append_assoc, List.cons_append, decode?_onReg ip wide _ rm (by decide)]
    cases wide <;> simp [wideInsn, regInsn]

/-- An arithmetic immediate on memory is read back. -/
theorem decode?_aluImm_onMem (ip : UInt64) (op : Alu) (m : Mem) (imm : UInt32)
    (rest : List UInt8) :
    decode? ip (rex false 0 m.base ++ (aluImm (onMem (field op.digit) m) imm ++ rest)) =
      some (.alu32mi op m imm, rest) := by
  rw [rex_field false op.digit]
  simp only [aluImm]
  split
  · rename_i hfit
    have hext := Word.extend8_toUInt8 hfit
    rw [List.append_assoc, List.cons_append, decode?_onMem ip _ m (by decide)]
    simp [memInsn, hext]
  · rw [List.append_assoc, List.cons_append, decode?_onMem ip _ m (by decide)]
    simp [memInsn]

/-- A two-operand opcode is read back as its operation. -/
theorem alu_opcode_mem (op : Alu) : UInt8.ofNat (op.digit.val * 8 + 1) ∈ operandOpcodes := by
  cases op <;> decide

/-- The control word instructions are read back. -/
theorem decode0F_onMem {x : Rex} {m : Mem} {n : Fin 16} {i : Insn}
    (hrm : x.rm = decide (8 ≤ m.base.val)) (hi : n = 3 ∧ i = .stmxcsr m ∨ n = 2 ∧ i = .ldmxcsr m)
    (next : List UInt8 → UInt32 → UInt64) (rest : List UInt8) :
    decodeAfterRex x next (0x0f :: 0xae :: (onMem n m ++ rest)) = some (i, rest) := by
  have hread := takeOperands_onMem hrm n rest
  rcases hi with ⟨rfl, rfl⟩ | ⟨rfl, rfl⟩
  · simp [decodeAfterRex, decode0F, hread]
    rfl
  · simp [decodeAfterRex, decode0F, hread]
    rfl

/-- An opcode that holds the low three bits of a register is read back with the register. -/
theorem decode?_low {base : Nat} {wide : Bool} {rm : Gpr} {ip : UInt64} {rest : List UInt8}
    {result : Option (Insn × List UInt8)}
    (hbase : base = 0x50 ∨ base = 0x58 ∨ base = 0xb8)
    (hdecode : ∀ next, decodeAfterRex (rexOf wide 0 rm) next
      (UInt8.ofNat (base + rm.val % 8) :: rest) = result) :
    decode? ip (rex wide 0 rm ++ UInt8.ofNat (base + rm.val % 8) :: rest) = result := by
  have hb : (UInt8.ofNat (base + rm.val % 8)).toNat / 16 ≠ 4 := by
    simp only [UInt8.toNat_ofNat']
    omega
  rw [decode?_rex ip wide 0 rm hb, hdecode]

/-- The opcode of a push has the register in its low bits. -/
theorem decodeAfterRex_push (x : Rex) (next : List UInt8 → UInt32 → UInt64) (k : Fin 8)
    (rest : List UInt8) :
    decodeAfterRex x next (UInt8.ofNat (0x50 + k.val) :: rest) =
      some (.push (join x.rm k), rest) := by
  match k with
  | 0 | 1 | 2 | 3 | 4 | 5 | 6 | 7 => rfl

/-- So has that of a pop. -/
theorem decodeAfterRex_pop (x : Rex) (next : List UInt8 → UInt32 → UInt64) (k : Fin 8)
    (rest : List UInt8) :
    decodeAfterRex x next (UInt8.ofNat (0x58 + k.val) :: rest) =
      some (.pop (join x.rm k), rest) := by
  match k with
  | 0 | 1 | 2 | 3 | 4 | 5 | 6 | 7 => rfl

/-- So has that of the load of a constant, whose length the prefix gives. -/
theorem decodeAfterRex_movImm (x : Rex) (next : List UInt8 → UInt32 → UInt64) (k : Fin 8)
    (rest : List UInt8) :
    decodeAfterRex x next (UInt8.ofNat (0xb8 + k.val) :: rest) =
      if x.wide then (Word.take64? rest).map fun p => (.mov64i (join x.rm k) p.1, p.2)
      else (Word.take32? rest).map fun p => (.mov32i (join x.rm k) p.1, p.2) := by
  match k with
  | 0 | 1 | 2 | 3 | 4 | 5 | 6 | 7 =>
    cases hw : x.wide
    all_goals
      simp [decodeAfterRex, hw]
      first
        | cases Word.take32? rest <;> rfl
        | cases Word.take64? rest <;> rfl

/-- A call is decoded with the address that it goes to. -/
theorem decodeAfterRex_call (next : List UInt8 → UInt32 → UInt64) (rest : List UInt8) :
    decodeAfterRex {} next (0xe8 :: rest) =
      (Word.take32? rest).map fun p => (.call (next p.2 p.1), p.2) := by
  cases hrest : Word.take32? rest <;> simp [decodeAfterRex, hrest]

/-- So is a jump. -/
theorem decodeAfterRex_jmp (next : List UInt8 → UInt32 → UInt64) (rest : List UInt8) :
    decodeAfterRex {} next (0xe9 :: rest) =
      (Word.take32? rest).map fun p => (.jmp (next p.2 p.1), p.2) := by
  cases hrest : Word.take32? rest <;> simp [decodeAfterRex, hrest]

/-- So is a branch, with its condition in the second byte of the opcode. -/
theorem decodeAfterRex_jcc (cond : Cond) (next : List UInt8 → UInt32 → UInt64)
    (rest : List UInt8) :
    decodeAfterRex {} next (0x0f :: UInt8.ofNat (0x80 + cond.digit.val) :: rest) =
      (Word.take32? rest).map fun p => (.jcc cond (next p.2 p.1), p.2) := by
  have hbind : (Word.take32? rest).map (fun p => (Insn.jcc cond (next p.2 p.1), p.2)) =
      (Word.take32? rest).bind fun p => some (Insn.jcc cond (next p.2 p.1), p.2) := by
    cases Word.take32? rest <;> rfl
  rw [hbind]
  cases cond <;> rfl

/-- The distance in a direct branch leads to its target; `pre` is the opcode of the branch. -/
theorem decode?_branch (pre : List UInt8) {make : UInt64 → Insn} {ip target : UInt64}
    {rel : UInt32}
    (hdecode : ∀ next rest, decodeAfterRex {} next (pre ++ rest) =
      (Word.take32? rest).map fun p => (make (next p.2 p.1), p.2))
    (hpre : (pre.head?.any fun b => b.toNat / 16 ≠ 4) = true)
    (htarget : target = ip + UInt64.ofNat (pre ++ Word.bytes32 rel).length + Word.extend32 rel)
    (rest : List UInt8) :
    decode? ip (pre ++ (Word.bytes32 rel ++ rest)) = some (make target, rest) := by
  have hlen : (pre ++ (Word.bytes32 rel ++ rest)).length - rest.length =
      (pre ++ Word.bytes32 rel).length := by
    simp only [List.length_append]
    omega
  have hrex : takeRex (pre ++ (Word.bytes32 rel ++ rest)) =
      ({}, pre ++ (Word.bytes32 rel ++ rest)) := by
    cases pre with
    | nil => simp at hpre
    | cons b pre => exact takeRex_of_ne (by simpa using hpre) _
  rw [decode?, hrex]
  simp only [hdecode, Word.take32?_bytes32, Option.map_some, hlen, htarget]

/-- **Reading an instruction back.**  The machine code of an instruction is read as that
instruction, whatever follows it; `rel` is the distance that leads a direct branch from its end to
its target. -/
theorem decode?_bytes (ip : UInt64) (i : Insn) (rel : UInt32) (rest : List UInt8)
    (h : ∀ t, i.target? = some t → t = ip + UInt64.ofNat i.size + Word.extend32 rel) :
    decode? ip (i.bytes rel ++ rest) = some (i, rest) := by
  cases i with
  | mov32 dst src =>
    simp only [bytes, List.append_assoc, List.cons_append]
    rw [decode?_onReg ip false src dst (by decide)]
    rfl
  | mov32i dst imm =>
    simp only [bytes, List.append_assoc, List.cons_append]
    refine decode?_low (by simp) fun next => ?_
    have read := decodeAfterRex_movImm (rexOf false 0 dst) next (low dst)
      (Word.bytes32 imm ++ rest)
    exact read.trans (by simp [rexOf])
  | load32 dst src =>
    simp only [bytes, List.append_assoc, List.cons_append]
    rw [decode?_onMem ip dst src (by decide)]
    rfl
  | store32 dst src =>
    simp only [bytes, List.append_assoc, List.cons_append]
    rw [decode?_onMem ip src dst (by decide)]
    rfl
  | store32i dst imm =>
    simp only [bytes, List.append_assoc, List.cons_append]
    rw [decode?_onMem ip 0 dst (by decide)]
    simp [memInsn, low]
  | mov64 dst src =>
    simp only [bytes, List.append_assoc, List.cons_append]
    rw [decode?_onReg ip true src dst (by decide)]
    rfl
  | mov64i dst imm =>
    simp only [bytes, List.append_assoc, List.cons_append]
    refine decode?_low (by simp) fun next => ?_
    have read := decodeAfterRex_movImm (rexOf true 0 dst) next (low dst)
      (Word.bytes64 imm ++ rest)
    exact read.trans (by simp [rexOf])
  | alu32 op dst src =>
    simp only [bytes, List.append_assoc, List.cons_append]
    rw [decode?_onReg ip false src dst (alu_opcode_mem op)]
    cases op <;> rfl
  | alu32i op dst imm =>
    by_cases hd : dst = Gpr.rax
    · subst hd
      simp only [bytes, if_true, List.cons_append]
      cases op <;> rw [decode?, takeRex_of_ne (by decide)] <;> simp [decodeAfterRex] <;> rfl
    · simp only [bytes, hd, if_false, List.append_assoc]
      rw [decode?_aluImm_onReg]
      rfl
  | alu32m op dst src =>
    simp only [bytes, List.append_assoc, List.cons_append]
    rw [decode?_onMem ip src dst (alu_opcode_mem op)]
    cases op <;> rfl
  | alu32mi op dst imm =>
    simp only [bytes, List.append_assoc]
    rw [decode?_aluImm_onMem]
  | alu64i op dst imm =>
    by_cases hd : dst = Gpr.rax
    · subst hd
      simp only [bytes, if_true, List.append_assoc, List.cons_append]
      cases op <;> rw [decode?_rex ip true 0 _ (by decide)] <;> simp [decodeAfterRex] <;> rfl
    · simp only [bytes, hd, if_false, List.append_assoc]
      rw [decode?_aluImm_onReg]
      rfl
  | shift32 op dst count =>
    by_cases hc : count = 1
    · simp only [bytes, hc, if_true, List.append_assoc, List.cons_append]
      rw [rex_field false op.digit, decode?_onReg ip false _ dst (by decide)]
      simp [regInsn]
    · simp only [bytes, hc, if_false, List.append_assoc, List.cons_append, List.nil_append]
      rw [rex_field false op.digit, decode?_onReg ip false _ dst (by decide)]
      have hcount : count.val % 256 = count.val := Nat.mod_eq_of_lt (by omega)
      simp [regInsn, hcount]
  | test32 left right =>
    simp only [bytes, List.append_assoc, List.cons_append]
    rw [decode?_onReg ip false right left (by decide)]
    rfl
  | test32mi left imm =>
    simp only [bytes, List.append_assoc, List.cons_append]
    rw [decode?_onMem ip 0 left (by decide)]
    simp [memInsn, low]
  | test8i left imm =>
    by_cases hl : left = Gpr.rax
    · subst hl
      rfl
    · simp only [bytes, hl, if_false, List.append_assoc, List.cons_append, List.nil_append]
      rw [decode?, takeRex_rexByte left (by decide)]
      show decodeAfterRex _ _ (0xf6 :: (onReg 0 left ++ imm :: rest)) = _
      rw [decodeAfterRex_operand (by decide), decodeOperands_onReg rfl rfl]
      have hlow : 4 ≤ left.val ∨ left.val < 4 := by omega
      simp [regInsn, low, namesLowByte, hlow]
  | test64 left right =>
    simp only [bytes, List.append_assoc, List.cons_append]
    rw [decode?_onReg ip true right left (by decide)]
    rfl
  | stmxcsr dst =>
    simp only [bytes, List.append_assoc, List.cons_append]
    rw [rex_field false 3, decode?_rex ip false _ dst.base (by decide)]
    exact decode0F_onMem rfl (.inl ⟨rfl, rfl⟩) _ rest
  | ldmxcsr src =>
    simp only [bytes, List.append_assoc, List.cons_append]
    rw [rex_field false 2, decode?_rex ip false _ src.base (by decide)]
    exact decode0F_onMem rfl (.inr ⟨rfl, rfl⟩) _ rest
  | push src =>
    simp only [bytes, List.append_assoc, List.cons_append, List.nil_append]
    refine decode?_low (by simp) fun next => ?_
    have read := decodeAfterRex_push (rexOf false 0 src) next (low src) rest
    exact read.trans (by simp [rexOf])
  | pop dst =>
    simp only [bytes, List.append_assoc, List.cons_append, List.nil_append]
    refine decode?_low (by simp) fun next => ?_
    have read := decodeAfterRex_pop (rexOf false 0 dst) next (low dst) rest
    exact read.trans (by simp [rexOf])
  | ret => rfl
  | callReg target =>
    simp only [bytes, List.append_assoc, List.cons_append]
    rw [rex_field false 2, show (2 : Fin 16) = field 2 from rfl,
      decode?_onReg ip false _ target (by decide)]
    rfl
  | call target =>
    exact decode?_branch [0xe8] decodeAfterRex_call (by decide) (h target rfl) rest
  | jmpReg target =>
    simp only [bytes, List.append_assoc, List.cons_append]
    rw [rex_field false 4, show (4 : Fin 16) = field 4 from rfl,
      decode?_onReg ip false _ target (by decide)]
    rfl
  | jmp target =>
    exact decode?_branch [0xe9] decodeAfterRex_jmp (by decide) (h target rfl) rest
  | jcc cond target =>
    exact decode?_branch [0x0f, UInt8.ofNat (0x80 + cond.digit.val)]
      (decodeAfterRex_jcc cond) (by simp) (h target rfl) rest
  | int3 => rfl

end Insn

end Dynarec
