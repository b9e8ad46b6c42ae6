import Dynarec.Text.Hex
import Dynarec.X64.Decode
import Dynarec.X64.Leftover.Map

/-!
# Assembly listings

The text of an instruction is its mnemonic and its operands, the destination first.  Immediates
are shown unsigned at the width of the operation, displacements with their sign, and the size of a
memory operand is named only where no register operand gives it.  A line of a listing is the
address of the instruction in sixteen hexadecimal digits and its text.  Code in which a patch has
cut an instruction in two is listed too: what is left of the instruction is shown as the processor
would read it.
-/

namespace Dynarec

namespace Mem

/-- The text of a memory operand. -/
def text (m : Mem) : String :=
  let disp := m.disp.toNat
  let shift :=
    if disp = 0 then ""
    else if disp < 0x80000000 then "+" ++ Text.asmNumber disp
    else "-" ++ Text.asmNumber (UInt32.size - disp)
  "[" ++ m.base.name64 ++ shift ++ "]"

end Mem

namespace Insn

/-- A mnemonic with two operands. -/
def text2 (mnemonic left right : String) : String :=
  mnemonic ++ " " ++ left ++ "," ++ right

/-- The text of an instruction. -/
def text : Insn → String
  | mov32 dst src => text2 "mov" dst.name32 src.name32
  | mov32i dst imm => text2 "mov" dst.name32 (Text.asmNumber imm.toNat)
  | load32 dst src => text2 "mov" dst.name32 src.text
  | store32 dst src => text2 "mov" dst.text src.name32
  | store32i dst imm => text2 "mov" ("dword " ++ dst.text) (Text.asmNumber imm.toNat)
  | mov64 dst src => text2 "mov" dst.name64 src.name64
  | mov64i dst imm => text2 "mov" dst.name64 (Text.asmNumber imm.toNat)
  | alu32 op dst src => text2 op.name dst.name32 src.name32
  | alu32i op dst imm => text2 op.name dst.name32 (Text.asmNumber imm.toNat)
  | alu32m op dst src => text2 op.name dst.text src.name32
  | alu32mi op dst imm => text2 op.name ("dword " ++ dst.text) (Text.asmNumber imm.toNat)
  | alu64i op dst imm => text2 op.name dst.name64 (Text.asmNumber (Word.extend32 imm).toNat)
  | shift32 op dst count => text2 op.name dst.name32 (Text.asmNumber count.val)
  | test32 left right => text2 "test" left.name32 right.name32
  | test32mi left imm => text2 "test" ("dword " ++ left.text) (Text.asmNumber imm.toNat)
  | test8i left imm => text2 "test" left.name8 (Text.asmNumber imm.toNat)
  | test64 left right => text2 "test" left.name64 right.name64
  | stmxcsr dst => "stmxcsr " ++ dst.text
  | ldmxcsr src => "ldmxcsr " ++ src.text
  | push src => "push " ++ src.name64
  | pop dst => "pop " ++ dst.name64
  | ret => "ret"
  | callReg target => "call " ++ target.name64
  | call target => "call " ++ Text.asmNumber target.toNat
  | jmpReg target => "jmp " ++ target.name64
  | jmp target => "jmp " ++ Text.asmNumber target.toNat
  | jcc cond target => cond.name ++ " near " ++ Text.asmNumber target.toNat
  | int3 => "int3"

end Insn

/-- What a piece of machine code is. -/
inductive Content where
  /-- An instruction of compiled code. -/
  | insn (i : Insn)
  /-- Another instruction, spelled by what a patch left behind. -/
  | leftover (text : String)
  /-- No instruction. -/
  | undefined
  deriving DecidableEq, Repr

namespace Content

/-- The text of a piece. -/
def text : Content → String
  | insn i => i.text
  | leftover text => text
  | undefined => "(bad)"

end Content

/-- One piece of decoded machine code: its address, its length, and what it is. -/
structure Decoded where
  ip : UInt64
  size : Nat
  content : Content
  deriving DecidableEq, Repr

namespace Decoded

/-- The line of a listing. -/
def line (d : Decoded) : String :=
  Text.hexPadded 16 d.ip.toNat ++ " " ++ d.content.text

end Decoded

/-- Decodes the first piece of the code at an address. -/
def decodePiece (ip : UInt64) (code : List UInt8) : Decoded :=
  match Insn.decode? ip code with
  | some (i, rest) => ⟨ip, code.length - rest.length, .insn i⟩
  | none =>
    match Leftover.piece ip code with
    | (size, some text) => ⟨ip, size, .leftover text⟩
    | (size, none) => ⟨ip, size, .undefined⟩

/-- Decodes the code at an address from front to back.  Every piece takes at least one byte, so
`fuel` need only reach the length. -/
def decodeFrom : (fuel : Nat) → (ip : UInt64) → List UInt8 → List Decoded
  | 0, _, _ => []
  | _, _, [] => []
  | fuel + 1, ip, b :: code =>
    let d := decodePiece ip (b :: code)
    d :: decodeFrom fuel (ip + UInt64.ofNat d.size) ((b :: code).drop d.size)

/-- Decodes the code at an address from front to back. -/
def decodeAll (ip : UInt64) (code : List UInt8) : List Decoded :=
  decodeFrom code.length ip code

/-- The listing of the code at an address. -/
def disassemble (ip : UInt64) (code : List UInt8) : List String :=
  (decodeAll ip code).map Decoded.line

end Dynarec
