import Dynarec.X64.Encode

/-!
# Instructions from machine code

The reading side of the encoding: `Insn.decode?` takes one instruction off the front of a byte
sequence.  It knows the forms that the encoder writes and gives up on everything else.
-/

namespace Dynarec

namespace Decoding

/-- The extension byte of an instruction, or its absence. -/
structure Rex where
  given : Bool := false
  wide : Bool := false
  reg : Bool := false
  rm : Bool := false
  deriving DecidableEq, Repr

/-- Takes an extension byte off the front; the index extension is never written. -/
def takeRex : List UInt8 → Rex × List UInt8
  | b :: rest =>
    if b.toNat / 16 = 4 ∧ b.toNat / 2 % 2 = 0 then
      ({ given := true
         wide := b.toNat / 8 % 2 = 1
         reg := b.toNat / 4 % 2 = 1
         rm := b.toNat % 2 = 1 }, rest)
    else ({}, b :: rest)
  | [] => ({}, [])

/-- A register number from its high bit and its low three bits. -/
def join (high : Bool) (low : Fin 8) : Fin 16 :=
  ⟨(if high then 8 else 0) + low.val, by split <;> omega⟩

/-- The low three bits of a byte. -/
def low3 (b : UInt8) : Fin 8 :=
  Word.octal b.toNat

/-- The three bits of a byte above the low three. -/
def mid3 (b : UInt8) : Fin 8 :=
  Word.octal (b.toNat / 8)

/-- An operand that is a register or lies in memory. -/
inductive Operand where
  | reg (r : Gpr)
  | mem (m : Mem)
  deriving DecidableEq, Repr

/-- Takes a displacement of the given mode off the front. -/
def takeDisp (mode : Nat) (bs : List UInt8) : Option (UInt32 × List UInt8) :=
  match mode, bs with
  | 0, bs => some (0, bs)
  | 1, b :: rest => some (Word.extend8 b, rest)
  | 2, bs => Word.take32? bs
  | _, _ => none

/-- Takes the operand bytes off the front: the register field and the operand. -/
def takeOperands (x : Rex) : List UInt8 → Option (Fin 8 × Operand × List UInt8)
  | b :: rest =>
    let mode := b.toNat / 64
    let low := low3 b
    if mode = 3 then some (mid3 b, .reg (join x.rm low), rest)
    else if mode = 0 ∧ low = 5 then none
    else if low = 4 then
      match rest with
      | sib :: rest =>
        if sib = 0x24 then do
          let (disp, rest) ← takeDisp mode rest
          some (mid3 b, .mem ⟨join x.rm 4, disp⟩, rest)
        else none
      | [] => none
    else do
      let (disp, rest) ← takeDisp mode rest
      some (mid3 b, .mem ⟨join x.rm low, disp⟩, rest)
  | [] => none

/-- The instruction after the two-byte opcode mark. -/
def decode0F (x : Rex) (next : List UInt8 → UInt32 → UInt64) :
    List UInt8 → Option (Insn × List UInt8)
  | 0xae :: rest => do
    let (field, operand, rest) ← takeOperands x rest
    match field, operand with
    | 3, .mem m => some (.stmxcsr m, rest)
    | 2, .mem m => some (.ldmxcsr m, rest)
    | _, _ => none
  | b :: rest =>
    if b.toNat / 16 = 8 then do
      let cond ← Cond.ofDigit? ⟨b.toNat % 16, Nat.mod_lt _ (by decide)⟩
      let (rel, rest) ← Word.take32? rest
      some (.jcc cond (next rest rel), rest)
    else none
  | [] => none

/-- The instructions on whole registers whose operands follow a one-byte opcode. -/
def wideInsn (opcode : Nat) (field : Fin 8) (reg r : Gpr) (rest : List UInt8) :
    Option (Insn × List UInt8) :=
  match opcode, rest with
  | 0x89, rest => some (.mov64 r reg, rest)
  | 0x85, rest => some (.test64 r reg, rest)
  | 0x83, b :: rest => (Alu.ofDigit? field).map fun op => (.alu64i op r (Word.extend8 b), rest)
  | 0x81, rest => do
    let op ← Alu.ofDigit? field
    let (imm, rest) ← Word.take32? rest
    some (.alu64i op r imm, rest)
  | _, _ => none

/-- Whether a register number stands for the low byte of the register; without an extension byte
four numbers stand for other bytes. -/
def namesLowByte (x : Rex) (r : Gpr) : Bool :=
  x.given || r.val < 4

/-- The narrower instructions on registers whose operands follow a one-byte opcode. -/
def regInsn (x : Rex) (opcode : Nat) (field : Fin 8) (reg r : Gpr) (rest : List UInt8) :
    Option (Insn × List UInt8) :=
  match opcode, rest with
  | 0x89, rest => some (.mov32 r reg, rest)
  | 0x85, rest => some (.test32 r reg, rest)
  | 0xf6, imm :: rest =>
    if field = 0 ∧ namesLowByte x r then some (.test8i r imm, rest) else none
  | 0x83, b :: rest => (Alu.ofDigit? field).map fun op => (.alu32i op r (Word.extend8 b), rest)
  | 0x81, rest => do
    let op ← Alu.ofDigit? field
    let (imm, rest) ← Word.take32? rest
    some (.alu32i op r imm, rest)
  | 0xd1, rest => (Shift.ofDigit? field).map fun op => (.shift32 op r 1, rest)
  | 0xc1, b :: rest => do
    let op ← Shift.ofDigit? field
    if h : b.toNat < 32 then some (.shift32 op r ⟨b.toNat, h⟩, rest) else none
  | 0xff, rest =>
    if field = 2 then some (.callReg r, rest)
    else if field = 4 then some (.jmpReg r, rest)
    else none
  | n, rest =>
    if n < 0x40 ∧ n % 8 = 1 then
      (Alu.ofDigit? (Word.octal (n / 8))).map fun op => (.alu32 op r reg, rest)
    else none

/-- The instructions on memory whose operands follow a one-byte opcode. -/
def memInsn (opcode : Nat) (field : Fin 8) (reg : Gpr) (m : Mem) (rest : List UInt8) :
    Option (Insn × List UInt8) :=
  match opcode, rest with
  | 0x89, rest => some (.store32 m reg, rest)
  | 0x8b, rest => some (.load32 reg m, rest)
  | 0xc7, rest =>
    if field = 0 then (Word.take32? rest).map fun p => (.store32i m p.1, p.2) else none
  | 0xf7, rest =>
    if field = 0 then (Word.take32? rest).map fun p => (.test32mi m p.1, p.2) else none
  | 0x83, b :: rest => (Alu.ofDigit? field).map fun op => (.alu32mi op m (Word.extend8 b), rest)
  | 0x81, rest => do
    let op ← Alu.ofDigit? field
    let (imm, rest) ← Word.take32? rest
    some (.alu32mi op m imm, rest)
  | n, rest =>
    if n < 0x40 ∧ n % 8 = 1 then
      (Alu.ofDigit? (Word.octal (n / 8))).map fun op => (.alu32m op m reg, rest)
    else none

/-- The instructions whose operands follow a one-byte opcode. -/
def decodeOperands (x : Rex) (opcode : UInt8) (bs : List UInt8) : Option (Insn × List UInt8) := do
  let (field, operand, rest) ← takeOperands x bs
  let reg := join x.reg field
  match operand, x.wide with
  | .reg r, true => wideInsn opcode.toNat field reg r rest
  | .reg r, false => regInsn x opcode.toNat field reg r rest
  | .mem m, false => memInsn opcode.toNat field reg m rest
  | .mem _, true => none

/-- The instruction after its extension byte.  `next rest rel` is the address that lies `rel`
bytes after the place where `rest` begins. -/
def decodeAfterRex (x : Rex) (next : List UInt8 → UInt32 → UInt64) :
    List UInt8 → Option (Insn × List UInt8)
  | [] => none
  | b :: rest =>
    let low := join x.rm (low3 b)
    if b = 0xc3 then some (.ret, rest)
    else if b = 0xcc then some (.int3, rest)
    else if b = 0xe8 then do
      let (rel, rest) ← Word.take32? rest
      some (.call (next rest rel), rest)
    else if b = 0xe9 then do
      let (rel, rest) ← Word.take32? rest
      some (.jmp (next rest rel), rest)
    else if b = 0x0f then decode0F x next rest
    else if b.toNat / 8 = 0x50 / 8 then some (.push low, rest)
    else if b.toNat / 8 = 0x58 / 8 then some (.pop low, rest)
    else if b.toNat / 8 = 0xb8 / 8 then
      if x.wide then do
        let (imm, rest) ← Word.take64? rest
        some (.mov64i low imm, rest)
      else do
        let (imm, rest) ← Word.take32? rest
        some (.mov32i low imm, rest)
    else if b = 0xa8 then
      match rest with
      | imm :: rest => some (.test8i Gpr.rax imm, rest)
      | [] => none
    else if b.toNat < 0x40 ∧ b.toNat % 8 = 5 then do
      let op ← Alu.ofDigit? (mid3 b)
      let (imm, rest) ← Word.take32? rest
      some (if x.wide then .alu64i op Gpr.rax imm else .alu32i op Gpr.rax imm, rest)
    else decodeOperands x b rest

end Decoding

namespace Insn

open Decoding

/-- Takes one instruction off the front of the code at an address. -/
def decode? (ip : UInt64) (code : List UInt8) : Option (Insn × List UInt8) :=
  let (x, body) := takeRex code
  decodeAfterRex x
    (fun rest rel => ip + UInt64.ofNat (code.length - rest.length) + Word.extend32 rel) body

end Insn

end Dynarec
