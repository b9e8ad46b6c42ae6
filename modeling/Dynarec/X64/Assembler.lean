import Dynarec.X64.Encode

/-!
# Assembling

Shape of a program: the assembler collects *items*: instructions, runs of padding, and marks that
take no space.  Every item has a symbolic address.  Labels are numbered from one and the mark that
places a label has the number of the label as its symbolic address; all other items have the
symbolic address zero.

A branch names its target by address.  If exactly one item has that symbolic address, the branch
goes to that item; otherwise the address is taken as it is.  So a branch to a label is a branch to
the number of the label, and a label that was never placed is a plain, very low address.
-/

namespace Dynarec

/-- Why code cannot be written. -/
inductive EncodingError where
  /-- A register name that is not a general-purpose register. -/
  | invalidRegister
  /-- A branch out of reach or a label placed twice. -/
  | assembly
  /-- A label was asked for that was never placed. -/
  | unplacedLabel
  /-- Every register that could be handed out is in use by the current instruction. -/
  | noFreeRegister
  deriving DecidableEq, Repr

namespace EncodingError

/-- The wording of an encoding error; the wording of a failed assembly is not fixed. -/
def message? : EncodingError → Option String
  | invalidRegister => some "Invalid register for operation"
  | assembly => none
  | unplacedLabel => some "Label was never placed"
  | noFreeRegister => some "No register available for allocation"

end EncodingError

namespace HostReg

/-- The general-purpose register with this name, or an error. -/
def gpr (r : HostReg) : Except EncodingError Gpr :=
  match r.gpr? with
  | some g => .ok g
  | none => .error .invalidRegister

end HostReg

/-- A label, by its number. -/
structure Label where
  id : Nat
  deriving DecidableEq, Repr

namespace Label

/-- The symbolic address of a label, which a branch to the label names as its target. -/
def symbol (l : Label) : UInt64 :=
  UInt64.ofNat l.id

end Label

/-- What an item puts into the code. -/
inductive Item where
  | insn (i : Insn)
  | padding (count : Nat)
  | mark (l : Label)
  deriving DecidableEq, Repr

namespace Item

/-- The symbolic address of an item. -/
def symbol : Item → UInt64
  | mark l => l.symbol
  | _ => 0

/-- The number of bytes of an item. -/
def size : Item → Nat
  | insn i => i.size
  | padding n => n
  | mark _ => 0

/-- The machine code of an item at an address, where `resolve` gives the real address of a branch
target. -/
def encode? (resolve : UInt64 → UInt64) (ip : UInt64) : Item → Option (List UInt8)
  | insn i => (i.mapTarget resolve).encode? ip
  | padding n => some (List.replicate n 0xcc)
  | mark _ => some []

/-- Items with their offsets, the first at `start`. -/
def layout : (start : Nat) → List Item → List (Nat × Item)
  | _, [] => []
  | start, i :: is => (start, i) :: layout (start + i.size) is

/-- The offset of the only item with a symbolic address. -/
def offsetOf? (placed : List (Nat × Item)) (symbol : UInt64) : Option Nat :=
  match placed.filter fun p => p.2.symbol = symbol with
  | [p] => some p.1
  | _ => none

/-- The real address of a branch target in code that starts at `ip`. -/
def resolve (ip : UInt64) (placed : List (Nat × Item)) (target : UInt64) : UInt64 :=
  match offsetOf? placed target with
  | some offset => ip + UInt64.ofNat offset
  | none => target

/-- The machine code of placed items that start at `ip`. -/
def encodeAll? (resolve : UInt64 → UInt64) (ip : UInt64) :
    List (Nat × Item) → Option (List UInt8)
  | [] => some []
  | (offset, i) :: rest => do
    let code ← i.encode? resolve (ip + UInt64.ofNat offset)
    let codes ← encodeAll? resolve ip rest
    some (code ++ codes)

end Item

/-- Finished code: its bytes and the addresses of the labels that were asked for. -/
structure Assembled where
  bytes : List UInt8 := []
  labels : List UInt64 := []
  deriving DecidableEq, Repr

/-- The items collected so far and the number of labels handed out. -/
structure Assembler where
  items : List Item := []
  labels : Nat := 0
  deriving DecidableEq, Repr

namespace Assembler

/-- An assembler without items and labels. -/
def empty : Assembler := {}

/-- Whether nothing has been collected. -/
def isEmpty (a : Assembler) : Bool :=
  a.items.isEmpty

/-- Appends an item. -/
def push (a : Assembler) (i : Item) : Assembler :=
  { a with items := a.items ++ [i] }

/-- Appends an instruction. -/
def emit (a : Assembler) (i : Insn) : Assembler :=
  a.push (.insn i)

/-- Appends padding; no padding is no item. -/
def pad (a : Assembler) (count : Nat) : Assembler :=
  if count = 0 then a else a.push (.padding count)

/-- Hands out a new label. -/
def newLabel (a : Assembler) : Label × Assembler :=
  (⟨a.labels + 1⟩, { a with labels := a.labels + 1 })

/-- Whether a label has been placed. -/
def isPlaced (a : Assembler) (l : Label) : Bool :=
  a.items.any fun i => i = .mark l

/-- Places a label at the end of the items; a label has one place. -/
def place (a : Assembler) (l : Label) : Except EncodingError Assembler :=
  if a.isPlaced l then .error .assembly else .ok (a.push (.mark l))

/-- The address of a label in placed items that start at `ip`. -/
def labelAddress (ip : UInt64) (placed : List (Nat × Item)) (l : Label) :
    Except EncodingError UInt64 :=
  match placed.find? fun p => p.2 = .mark l with
  | some p => .ok (ip + UInt64.ofNat p.1)
  | none => .error .unplacedLabel

/-- The code of a list of items at an address, with the addresses of the wanted labels. -/
def assembleItems (items : List Item) (ip : UInt64) (wanted : List Label) :
    Except EncodingError Assembled :=
  let placed := Item.layout 0 items
  match Item.encodeAll? (Item.resolve ip placed) ip placed with
  | none => .error .assembly
  | some bytes => do
    let labels ← wanted.mapM (labelAddress ip placed)
    .ok { bytes, labels }

/-- Turns the items into code at an address and starts over, also when that fails.  Without items
there is no code and no label has a place, and the labels handed out stay so. -/
def assemble (a : Assembler) (ip : UInt64) (wanted : List Label) :
    Except EncodingError Assembled × Assembler :=
  if a.isEmpty then
    (if wanted.isEmpty then .ok {} else .error .unplacedLabel, a)
  else (assembleItems a.items ip wanted, empty)

/-- The number of bytes of instructions on their own at an address. -/
def measureAt (ip : UInt64) (is : List Insn) : Except EncodingError Nat :=
  ((is.foldl emit empty).assemble ip []).1.map (·.bytes.length)

end Assembler

end Dynarec
