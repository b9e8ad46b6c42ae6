import Dynarec.X64.Leftover.Operand

/-!
# The map of leftover opcodes

What the bytes behind the marks spell: the one-byte opcodes and, behind the byte `0f`, the integer
instructions among the two-byte opcodes.  Floating-point instructions are known only in their
memory forms, and those on vectors not at all.  `Leftover.piece` reads one instruction; bytes that
are none are shown as such and take as many bytes as were read to find that out.  When the code
ends inside an instruction, the rest of the code is one piece.
-/

namespace Dynarec.Leftover

/-- What an opcode and its operands spell. -/
structure Entry where
  text : Shown
  /-- The instruction may carry the lock mark. -/
  lockable : Bool := false

/-- An instruction without operands. -/
def plain (mnemonic : String) : Entry :=
  { text := fun _ => mnemonic }

/-- An instruction with one operand. -/
def unary (mnemonic : String) (operand : Shown) (lockable : Bool) : Entry :=
  { text := fun next => mnemonic ++ " " ++ operand next, lockable }

/-- An instruction with two operands. -/
def binary (mnemonic : String) (left right : Shown) (lockable : Bool) : Entry :=
  { text := fun next => mnemonic ++ " " ++ left next ++ "," ++ right next, lockable }

/-- A text that depends on nothing. -/
def fixed (text : String) : Shown := fun _ => text

/-- The mnemonics of arithmetic, by their number. -/
def aluName (n : Fin 8) : String :=
  match n with
  | 0 => "add" | 1 => "or" | 2 => "adc" | 3 => "sbb" | 4 => "and" | 5 => "sub" | 6 => "xor"
  | 7 => "cmp"

/-- The mnemonics of shifts, by their number. -/
def shiftName (n : Fin 8) : String :=
  match n with
  | 0 => "rol" | 1 => "ror" | 2 => "rcl" | 3 => "rcr" | 4 => "shl" | 5 => "shr" | 6 => "sal"
  | 7 => "sar"

/-- The endings of conditional mnemonics, by their number. -/
def condName (n : Nat) : String :=
  match n with
  | 0 => "o" | 1 => "no" | 2 => "b" | 3 => "ae" | 4 => "e" | 5 => "ne" | 6 => "be" | 7 => "a"
  | 8 => "s" | 9 => "ns" | 10 => "p" | 11 => "np" | 12 => "l" | 13 => "ge" | 14 => "le"
  | _ => "g"

/-- The segment registers, by their number. -/
def segmentName? (n : Fin 8) : Option String :=
  match n with
  | 0 => some "es" | 1 => some "cs" | 2 => some "ss" | 3 => some "ds" | 4 => some "fs"
  | 5 => some "gs" | _ => none

/-- The address a relative branch goes to. -/
def target (rel : UInt32) : Shown :=
  fun next => Text.asmNumber (next + Word.extend32 rel).toNat

/-- Takes the distance of a short branch. -/
def shortTarget : Read Shown := do
  return target (Word.extend8 (← byte))

/-- Takes the distance of a near branch. -/
def nearTarget : Read Shown := do
  return target (← dword)

/-- The width of an operand by the low bit of its opcode. -/
def widthOf (m : Marks) (opcode : Nat) : Width :=
  if opcode % 2 = 0 then .w8 else m.width

/-- Takes an operand and a register, in this order or the other. -/
def takePair (m : Marks) (mnemonic : String) (w : Width) (regFirst lockable : Bool) :
    Read Entry := do
  let o ← takeOperands m
  let reg := fixed (o.fieldReg m w)
  let operand := o.plain m w
  if regFirst then return binary mnemonic reg operand false
  else return binary mnemonic operand reg (lockable && o.inMemory)

/-- Arithmetic in its six one-byte forms. -/
def alu (m : Marks) (opcode : Nat) : Read Entry := do
  let op := Word.octal (opcode / 8)
  let name := aluName op
  let w := widthOf m opcode
  match opcode % 8 with
  | 0 | 1 => takePair m name w false (op ≠ 7)
  | 2 | 3 => takePair m name w true false
  | 4 | 5 => return binary name (fixed (m.regName w Gpr.rax)) (fixed (← immediate w)) false
  | _ => throw .undefined

/-- Arithmetic with an immediate. -/
def aluImmediate (m : Marks) (opcode : Nat) : Read Entry := do
  let w := widthOf m opcode
  let o ← takeOperands m
  let imm ← if opcode = 0x83 then shortImmediate w else immediate w
  return binary (aluName o.field) (o.sized m w) (fixed imm) (o.field ≠ 7 && o.inMemory)

/-- Shifts, by a count that is read by `count`. -/
def shiftBy (m : Marks) (opcode : Nat) (count : Read String) : Read Entry := do
  let w := widthOf m opcode
  let o ← takeOperands m
  return binary (shiftName o.field) (o.sized m w) (fixed (← count)) false

/-- The group of instructions on one operand. -/
def group3 (m : Marks) (opcode : Nat) : Read Entry := do
  let w := widthOf m opcode
  let o ← takeOperands m
  let operand := o.sized m w
  match o.field with
  | 0 | 1 => return binary "test" operand (fixed (← immediate w)) false
  | 2 => return unary "not" operand o.inMemory
  | 3 => return unary "neg" operand o.inMemory
  | 4 => return unary "mul" operand false
  | 5 => return unary "imul" operand false
  | 6 => return unary "div" operand false
  | 7 => return unary "idiv" operand false

/-- Takes an operand only if it lies in memory or may be a register. -/
def memoryOnly (o : Operands) : Read Unit :=
  if o.inMemory then return () else throw .undefined

/-- Takes the operand byte and refuses undefined register fields before the address is read. -/
def takeField (m : Marks) (defined : Fin 8 → Bool) : Read Operands := do
  match ← get with
  | b :: rest =>
    if defined (mid3 b) then takeOperands m
    else
      set rest
      throw .undefined
  | [] => throw .short

/-- Takes the operand byte and refuses registers before anything else is read. -/
def takeMemory (m : Marks) : Read Operands := do
  let o ← takeOperands m
  memoryOnly o
  return o

/-- Increments, decrements, indirect branches and pushes. -/
def group5 (m : Marks) (opcode : Nat) : Read Entry := do
  let w := widthOf m opcode
  let o ← takeField m fun f => if opcode = 0xfe then f.val < 2 else f.val < 7
  match o.field with
  | 0 => return unary "inc" (o.sized m w) o.inMemory
  | 1 => return unary "dec" (o.sized m w) o.inMemory
  | 2 => return unary "call" (o.sized m .w64) false
  | 3 =>
    memoryOnly o
    return unary "call far" (o.sized m w) false
  | 4 => return unary "jmp" (o.sized m .w64) false
  | 5 =>
    memoryOnly o
    return unary "jmp far" (o.sized m w) false
  | _ => return unary "push" (o.sized m m.stackWidth) false

/-- The ending of a string mnemonic at a width. -/
def stringLetter : Width → String
  | .w8 => "b"
  | .w16 => "w"
  | .w32 => "d"
  | .w64 => "q"

/-- String instructions with their repetition mark; `compares` says that the mark has two
meanings. -/
def stringOp (m : Marks) (stem : String) (w : Width) (compares : Bool) : Entry :=
  let mark :=
    match m.repeated, compares with
    | none, _ => ""
    | some .whileEqual, true => "repe "
    | some .whileEqual, false => "rep "
    | some .whileNotEqual, _ => "repne "
  plain (mark ++ stem ++ stringLetter w)

/-- The width of input and output operands, which are never 64 bits wide. -/
def ioWidth (m : Marks) (opcode : Nat) : Width :=
  if opcode % 2 = 0 then .w8 else if m.narrow then .w16 else .w32

/-- A mnemonic that depends on the operand width. -/
def byWidth (m : Marks) (w16 w32 w64 : String) : Entry :=
  plain (match m.width with
    | .w16 => w16
    | .w64 => w64
    | _ => w32)

/-- Takes an immediate for a move into a register, which may be eight bytes long. -/
def moveImmediate (w : Width) : Read String := do
  match w with
  | .w64 => return Text.asmNumber (← qword).toNat
  | w => immediate w

/-- The one-byte opcodes from `50` up to `8f`. -/
def lowMap (m : Marks) (opcode : Nat) : Read Entry := do
  let low : Gpr := m.reg 0 (Word.octal opcode)
  let w := widthOf m opcode
  match opcode with
  | 0x63 =>
    let o ← takeOperands m
    return binary "movsxd" (fixed (o.fieldReg m m.width)) (o.sized m .w32) false
  | 0x68 => return unary "push" (fixed (← immediate m.stackWidth)) false
  | 0x6a => return unary "push" (fixed (← shortImmediate m.stackWidth)) false
  | 0x69 | 0x6b =>
    let o ← takeOperands m
    let imm ← if opcode = 0x6b then shortImmediate m.width else immediate m.width
    let operand := o.plain m m.width
    return binary "imul" (fixed (o.fieldReg m m.width)) (fun next => operand next ++ "," ++ imm)
      false
  | 0x6c | 0x6d => return stringOp m "ins" (ioWidth m opcode) false
  | 0x6e | 0x6f => return stringOp m "outs" (ioWidth m opcode) false
  | 0x80 | 0x81 | 0x83 => aluImmediate m opcode
  | 0x84 | 0x85 => takePair m "test" w false false
  | 0x86 | 0x87 => takePair m "xchg" w false true
  | 0x88 | 0x89 => takePair m "mov" w false false
  | 0x8a | 0x8b => takePair m "mov" w true false
  | 0x8c =>
    let o ← takeOperands m
    match segmentName? o.field with
    | some s => return binary "mov" (o.plain m m.width) (fixed s) false
    | none => throw .undefined
  | 0x8d =>
    let o ← takeMemory m
    return binary "lea" (fixed (o.fieldReg m m.width)) o.memory false
  | 0x8e =>
    let o ← takeOperands m
    match segmentName? o.field with
    | some "cs" => throw .undefined
    | some s => return binary "mov" (fixed s) (o.plain m m.width) false
    | none => throw .undefined
  | 0x8f =>
    let o ← takeField m (· = 0)
    return unary "pop" (o.sized m m.stackWidth) false
  | n =>
    if n < 0x58 then return unary "push" (fixed (m.regName m.stackWidth low)) false
    else if n < 0x60 then return unary "pop" (fixed (m.regName m.stackWidth low)) false
    else if n / 16 = 7 then
      return unary ("j" ++ condName (n % 16) ++ " short") (← shortTarget) false
    else if n = 0x82 then do
      let _ ← byte
      throw .undefined
    else throw .undefined

/-- Takes an address that stands in the instruction. -/
def absolute (m : Marks) : Read Shown := do
  return fixed (bracket m (Text.asmNumber (← qword).toNat))

/-- The one-byte opcodes from `90` up to `bf`. -/
def midMap (m : Marks) (opcode : Nat) : Read Entry := do
  let low : Gpr := m.reg 0 (Word.octal opcode)
  let w := widthOf m opcode
  let acc := fixed (m.regName w Gpr.rax)
  match opcode with
  | 0x98 => return byWidth m "cbw" "cwde" "cdqe"
  | 0x99 => return byWidth m "cwd" "cdq" "cqo"
  | 0x9b => return plain "wait"
  | 0x9c => return plain (if m.narrow then "pushfw" else "pushfq")
  | 0x9d => return plain (if m.narrow then "popfw" else "popfq")
  | 0x9e => return plain "sahf"
  | 0x9f => return plain "lahf"
  | 0xa0 | 0xa1 => return binary "mov" acc (← absolute m) false
  | 0xa2 | 0xa3 => return binary "mov" (← absolute m) acc false
  | 0xa4 | 0xa5 => return stringOp m "movs" w false
  | 0xa6 | 0xa7 => return stringOp m "cmps" w true
  | 0xa8 | 0xa9 => return binary "test" acc (fixed (← immediate w)) false
  | 0xaa | 0xab => return stringOp m "stos" w false
  | 0xac | 0xad => return stringOp m "lods" w false
  | 0xae | 0xaf => return stringOp m "scas" w true
  | n =>
    if n = 0x90 && low = Gpr.rax then
      return plain (if m.repeated = some .whileEqual then "pause" else "nop")
    else if n < 0x98 then
      return binary "xchg" (fixed (m.regName m.width low)) (fixed (m.regName m.width Gpr.rax)) false
    else if 0xb0 ≤ n && n < 0xb8 then
      return binary "mov" (fixed (m.regName .w8 low)) (fixed (← immediate .w8)) false
    else if 0xb8 ≤ n then
      return binary "mov" (fixed (m.regName m.width low)) (fixed (← moveImmediate m.width)) false
    else throw .undefined

/-- The memory forms of the floating-point opcodes `d8` to `df`: mnemonic and width of the operand,
if the width is named. -/
def floatName? (opcode : Nat) (field : Fin 8) : Option (String × Option String) :=
  let arith : Fin 8 → String := fun
    | 0 => "add" | 1 => "mul" | 2 => "com" | 3 => "comp" | 4 => "sub" | 5 => "subr" | 6 => "div"
    | 7 => "divr"
  match opcode, field with
  | 0xd8, f => some ("f" ++ arith f, some "dword")
  | 0xda, f => some ("fi" ++ arith f, some "dword")
  | 0xdc, f => some ("f" ++ arith f, some "qword")
  | 0xde, f => some ("fi" ++ arith f, some "word")
  | 0xd9, 0 => some ("fld", some "dword")
  | 0xd9, 2 => some ("fst", some "dword")
  | 0xd9, 3 => some ("fstp", some "dword")
  | 0xd9, 4 => some ("fldenv", none)
  | 0xd9, 5 => some ("fldcw", none)
  | 0xd9, 6 => some ("fnstenv", none)
  | 0xd9, 7 => some ("fnstcw", none)
  | 0xdb, 0 => some ("fild", some "dword")
  | 0xdb, 1 => some ("fisttp", some "dword")
  | 0xdb, 2 => some ("fist", some "dword")
  | 0xdb, 3 => some ("fistp", some "dword")
  | 0xdb, 5 => some ("fld", some "tword")
  | 0xdb, 7 => some ("fstp", some "tword")
  | 0xdd, 0 => some ("fld", some "qword")
  | 0xdd, 1 => some ("fisttp", some "qword")
  | 0xdd, 2 => some ("fst", some "qword")
  | 0xdd, 3 => some ("fstp", some "qword")
  | 0xdd, 4 => some ("frstor", none)
  | 0xdd, 6 => some ("fnsave", none)
  | 0xdd, 7 => some ("fnstsw", none)
  | 0xdf, 0 => some ("fild", some "word")
  | 0xdf, 1 => some ("fisttp", some "word")
  | 0xdf, 2 => some ("fist", some "word")
  | 0xdf, 3 => some ("fistp", some "word")
  | 0xdf, 4 => some ("fbld", none)
  | 0xdf, 5 => some ("fild", some "qword")
  | 0xdf, 6 => some ("fbstp", none)
  | 0xdf, 7 => some ("fistp", some "qword")
  | _, _ => none

/-- Floating-point instructions on memory. -/
def float (m : Marks) (opcode : Nat) : Read Entry := do
  let o ← takeField m fun f => (floatName? opcode f).isSome
  memoryOnly o
  match floatName? opcode o.field with
  | some (name, width?) =>
    return unary name (fun next => (width?.map (· ++ " ")).getD "" ++ o.memory next) false
  | none => throw .undefined

/-- The one-byte opcodes from `c0` on. -/
def highMap (m : Marks) (opcode : Nat) : Read Entry := do
  let w := widthOf m opcode
  let io := ioWidth m opcode
  let ioReg := fixed (m.regName io Gpr.rax)
  match opcode with
  | 0xc0 | 0xc1 => shiftBy m opcode (immediate .w8)
  | 0xc2 => return unary "ret" (fixed (Text.asmNumber (← word))) false
  | 0xc3 => return plain "ret"
  | 0xc6 | 0xc7 =>
    let o ← takeField m (· = 0)
    return binary "mov" (o.sized m w) (fixed (← immediate w)) false
  | 0xc8 =>
    let size ← word
    let level ← byte
    return binary "enter" (fixed (Text.asmNumber size)) (fixed (Text.asmNumber level.toNat)) false
  | 0xc9 => return plain "leave"
  | 0xca => return unary "retf" (fixed (Text.asmNumber (← word))) false
  | 0xcb => return plain "retf"
  | 0xcc => return plain "int3"
  | 0xcd => return unary "int" (fixed (Text.asmNumber (← byte).toNat)) false
  | 0xcf => return byWidth m "iretw" "iretd" "iretq"
  | 0xd0 | 0xd1 => shiftBy m opcode (pure "1")
  | 0xd2 | 0xd3 => shiftBy m opcode (pure "cl")
  | 0xd7 => return plain "xlatb"
  | 0xd8 | 0xd9 | 0xda | 0xdb | 0xdc | 0xdd | 0xde | 0xdf => float m opcode
  | 0xe0 => return unary "loopne" (← shortTarget) false
  | 0xe1 => return unary "loope" (← shortTarget) false
  | 0xe2 => return unary "loop" (← shortTarget) false
  | 0xe3 => return unary (if m.shortAddress then "jecxz" else "jrcxz") (← shortTarget) false
  | 0xe4 | 0xe5 => return binary "in" ioReg (fixed (← immediate .w8)) false
  | 0xe6 | 0xe7 => return binary "out" (fixed (← immediate .w8)) ioReg false
  | 0xe8 => return unary "call" (← nearTarget) false
  | 0xe9 => return unary "jmp" (← nearTarget) false
  | 0xeb => return unary "jmp short" (← shortTarget) false
  | 0xec | 0xed => return binary "in" ioReg (fixed "dx") false
  | 0xee | 0xef => return binary "out" (fixed "dx") ioReg false
  | 0xf1 => return plain "int1"
  | 0xf4 => return plain "hlt"
  | 0xf5 => return plain "cmc"
  | 0xf6 | 0xf7 => group3 m opcode
  | 0xf8 => return plain "clc"
  | 0xf9 => return plain "stc"
  | 0xfa => return plain "cli"
  | 0xfb => return plain "sti"
  | 0xfc => return plain "cld"
  | 0xfd => return plain "std"
  | 0xfe | 0xff => group5 m opcode
  | _ => throw .undefined

/-- The integer instructions among the two-byte opcodes. -/
def twoByteMap (m : Marks) (opcode : Nat) : Read Entry := do
  let low : Gpr := m.reg 0 (Word.octal opcode)
  let w := widthOf m opcode
  let full := m.width
  match opcode with
  | 0x05 => return plain "syscall"
  | 0x0b => return plain "ud2"
  | 0x1f =>
    let o ← takeOperands m
    return unary "nop" (o.sized m full) false
  | 0x31 => return plain "rdtsc"
  | 0xa2 => return plain "cpuid"
  | 0xa3 => takePair m "bt" full false false
  | 0xab => takePair m "bts" full false true
  | 0xae =>
    let o ← takeField m fun f => f.val < 4
    memoryOnly o
    let name := match o.field with
      | 0 => "fxsave"
      | 1 => "fxrstor"
      | 2 => "ldmxcsr"
      | _ => "stmxcsr"
    return unary name o.memory false
  | 0xaf => takePair m "imul" full true false
  | 0xb0 | 0xb1 => takePair m "cmpxchg" w false true
  | 0xb3 => takePair m "btr" full false true
  | 0xbb => takePair m "btc" full false true
  | 0xbc => takePair m "bsf" full true false
  | 0xbd => takePair m "bsr" full true false
  | 0xb6 | 0xb7 | 0xbe | 0xbf =>
    let o ← takeOperands m
    let source : Width := if opcode % 2 = 0 then .w8 else .w16
    return binary (if opcode < 0xb8 then "movzx" else "movsx") (fixed (o.fieldReg m full))
      (o.sized m source) false
  | 0xc0 | 0xc1 => takePair m "xadd" w false true
  | n =>
    if n / 16 = 4 then takePair m ("cmov" ++ condName (n % 16)) full true false
    else if n / 16 = 8 then return unary ("j" ++ condName (n % 16) ++ " near") (← nearTarget) false
    else if n / 16 = 9 then do
      let o ← takeOperands m
      return unary ("set" ++ condName (n % 16)) (o.sized m .w8) false
    else if 0xc8 ≤ n && n < 0xd0 then return unary "bswap" (fixed (m.regName full low)) false
    else throw .undefined

/-- The instruction behind the marks. -/
def entry (m : Marks) (opcode : Nat) : Read Entry := do
  if opcode = 0x0f then twoByteMap m (← byte).toNat
  else if opcode < 0x40 then alu m opcode
  else if opcode < 0x90 then lowMap m opcode
  else if opcode < 0xc0 then midMap m opcode
  else highMap m opcode

/-- The most bytes that an instruction has. -/
def maxLen : Nat := 15

/-- One instruction; the lock mark is undefined where nothing can be locked. -/
def instruction : Read Shown := do
  let (m, opcode) ← takeMarks maxLen {}
  let e ← entry m opcode.toNat
  if m.lock then
    if e.lockable then return fun next => "lock " ++ e.text next else throw .undefined
  else return e.text

/-- Reads the code at an address: how many bytes its first piece has, and the text of the piece if
it is an instruction. -/
def piece (ip : UInt64) (code : List UInt8) : Nat × Option String :=
  let code := code.take maxLen
  match instruction code with
  | .ok text rest =>
    let size := code.length - rest.length
    (size, some (text (ip + UInt64.ofNat size)))
  | .error .undefined rest => (code.length - rest.length, none)
  | .error .short _ => (code.length, none)

end Dynarec.Leftover
