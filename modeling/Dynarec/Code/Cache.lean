import Std.Data.TreeMap
import Dynarec.Code.Action
import Dynarec.Code.Host

/-!
# The code cache

The code cache is a region of memory for machine code and a cursor.  Code is appended at the
cursor; code already there may be overwritten.  The region consists of whole pages and fresh
memory is zero.

Shape of a write: while pages may not be writable and executable at the same time, bytes are
written inside a *window*, a range of whole pages that is made writable when the window opens and
executable again when it closes.  A window that would be empty, or that is not needed because
pages may be both, is not opened at all.
-/

namespace Dynarec

/-- The number of bytes of a page. -/
def pageSize : Nat := 4096

/-- The least multiple of the page size that is not below a number. -/
def roundUpToPage (n : Nat) : Nat :=
  (n + pageSize - 1) / pageSize * pageSize

/-- The address at which the code region is mapped. -/
def codeBase : UInt64 := 0x1000000000

/-- Where the addresses that a program can use end; the last page stays free. -/
def addressSpaceEnd : Nat := 0x800000000000 - pageSize

/-- A range of whole pages that is open for writing. -/
structure Window where
  offset : Nat
  len : Nat
  deriving DecidableEq, Repr

/-- The code region with its cursor, and the platform it lives on. -/
structure CodeCache where
  /-- The number of bytes of the region, a multiple of the page size. -/
  size : Nat
  /-- No page may be writable and executable at the same time. -/
  exclusive : Bool
  /-- Where the next code goes. -/
  cursor : Nat := 0
  /-- The bytes that have been written; all others are zero. -/
  cells : Std.TreeMap Nat UInt8 := ∅
  host : Host

namespace CodeCache

/-- Why the platform does not map a region of whole pages: it may refuse any, has no room for one
that reaches beyond the end of the address space, and maps no empty one. -/
def mappingFault? (h : Host) (size : Nat) : Option PlatformFault :=
  if h.refuseMapping || addressSpaceEnd < codeBase.toNat + size then some .outOfMemory
  else if size = 0 then some .invalidArgument
  else none

/-- Maps a region of at least the given size; the cache then carries the platform with it. -/
def create (size : Nat) (exclusive : Bool) : Action Host CodeCache := do
  let size := roundUpToPage size
  match mappingFault? (← get) size with
  | some fault => throw (.codeAllocation size fault)
  | none => pure ()
  modify (·.note (.mapped size codeBase exclusive))
  return { size, exclusive, host := ← get }

/-- The byte at an offset. -/
def byte (c : CodeCache) (offset : Nat) : UInt8 :=
  c.cells.getD offset 0

/-- The bytes of a range, as far as it lies in the region. -/
def bytes (c : CodeCache) (offset len : Nat) : List UInt8 :=
  (List.range' offset (min len (c.size - offset))).map c.byte

/-- The address of an offset. -/
def addressOf (offset : Nat) : UInt64 :=
  codeBase + UInt64.ofNat offset

/-- The offset of an address in the region. -/
def offsetOf? (c : CodeCache) (address : UInt64) : Option Nat :=
  if codeBase ≤ address ∧ address.toNat < codeBase.toNat + c.size then
    some (address.toNat - codeBase.toNat)
  else none

/-- The cursor as it is given out: an offset is a word of 32 bits. -/
def position (c : CodeCache) : UInt32 :=
  UInt32.ofNat c.cursor

/-- The address of the cursor. -/
def cursorAddress (c : CodeCache) : UInt64 :=
  addressOf c.position.toNat

/-- The number of bytes behind the cursor. -/
def remaining (c : CodeCache) : Nat :=
  c.size - c.cursor

/-- Gives a notice. -/
def note (n : Notice) (c : CodeCache) : CodeCache :=
  { c with host := c.host.note n }

/-- The cells with the bytes of a list from an offset on. -/
def writeCells (cells : Std.TreeMap Nat UInt8) : (offset : Nat) → List UInt8 → Std.TreeMap Nat UInt8
  | _, [] => cells
  | offset, b :: bs => writeCells (cells.insert offset b) (offset + 1) bs

/-- Writes bytes at an offset.  The caller sees to it that they are inside the region. -/
def write (offset : Nat) (bs : List UInt8) (c : CodeCache) : CodeCache :=
  { c with
    cells := writeCells c.cells offset bs
    host := c.host.wrote offset bs.length }

/-- Fails unless a number of bytes fits behind the cursor. -/
def ensure (len : Nat) : Action CodeCache Unit := do
  let c ← get
  if c.remaining < len then throw (.codeSpaceExhausted c.remaining len)

/-- Moves the cursor over a number of bytes. -/
def reserve (len : Nat) : Action CodeCache Unit := do
  ensure len
  modify fun c => { c with cursor := c.cursor + len }

/-- Appends bytes at the cursor and gives the offset at which they start. -/
def append (bs : List UInt8) : Action CodeCache UInt32 := do
  ensure bs.length
  let c ← get
  set { c.write c.cursor bs with cursor := c.cursor + bs.length }
  return c.position

/-- Moves the cursor to the next page, unless it stands at the start of one. -/
def alignToPage : Action CodeCache Unit := do
  let c ← get
  reserve (roundUpToPage c.cursor - c.cursor)

/-- Moves the cursor to an offset, or to the end of the region if the offset lies behind it. -/
def clear (offset : Nat) (c : CodeCache) : CodeCache :=
  { c with cursor := min offset c.size }

/-- The pages that a write to a range needs. -/
def windowFor (c : CodeCache) (offset len : Nat) : Window :=
  let start := offset / pageSize * pageSize
  let stop := min (roundUpToPage (min (offset + len) c.size)) c.size
  { offset := start, len := stop - start }

/-- Opens the window for a write to a range, if one is needed. -/
def openWindow (offset len : Nat) : Action CodeCache (Option Window) := do
  let c ← get
  if !c.exclusive || len = 0 then return none
  let w := c.windowFor offset len
  let (granted, host) := c.host.protect w.offset w.len .write
  set { c with host }
  if granted then return some w
  else throw (.protection w.offset w.len .accessDenied)

/-- Opens the window for appending code. -/
def openAppend : Action CodeCache (Option Window) := do
  let c ← get
  openWindow c.cursor c.remaining

/-- Closes a window; a refusal is only noted. -/
def closeWindow (w? : Option Window) (c : CodeCache) : CodeCache :=
  match w? with
  | none => c
  | some w =>
    let (granted, host) := c.host.protect w.offset w.len .execute
    let c := { c with host }
    if granted then c else c.note (.restoreFailed w.len (addressOf w.offset) .accessDenied)

end CodeCache

end Dynarec
