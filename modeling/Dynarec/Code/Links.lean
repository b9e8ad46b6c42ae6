import Std.Data.TreeMap

/-!
# The link table

The link table knows where compiled blocks are entered and where they can be left towards a known
guest address.

Shape of the table: `native` holds the entries of every compiled block.  The exits are kept by the
block that owns them, in the order in which they were added.  A second index lists, for every
guest address, the owners that have an exit to it, each once and in the order in which they first
had one, so that a link to an address touches only the blocks concerned.  Neither index keeps an
empty list.
-/

namespace Dynarec

/-- Where a compiled block is entered: its body, and the check of the downcount that leads to the
body. -/
structure Native where
  target : Nat
  checked : Nat
  deriving DecidableEq, Repr

namespace Native

/-- The lower of the two entries. -/
def low (n : Native) : Nat := min n.target n.checked

end Native

/-- A place in compiled code at which a block is left towards a known guest address. -/
structure Exit where
  owner : Nat
  dest : UInt32
  offset : Nat
  len : Nat
  deriving DecidableEq, Repr

/-- The entries of compiled blocks and their exits. -/
structure Links where
  native : Std.TreeMap Nat Native := ∅
  byOwner : Std.TreeMap Nat (List Exit) := ∅
  ownersByDest : Std.TreeMap UInt32 (List Nat) := ∅

namespace Links

/-- A table without blocks and exits. -/
def empty : Links := {}

/-- The entries of a block. -/
def native? (t : Links) (num : Nat) : Option Native :=
  t.native[num]?

/-- The checked entry of a block. -/
def checked? (t : Links) (num : Nat) : Option Nat :=
  (t.native? num).map (·.checked)

/-- Sets the entries of a block. -/
def setNative (t : Links) (num : Nat) (n : Native) : Links :=
  { t with native := t.native.insert num n }

/-- The blocks with entries, by number. -/
def natives (t : Links) : List (Nat × Native) :=
  t.native.toList

/-- The exits of a block, in the order in which they were added. -/
def exitsOf (t : Links) (owner : Nat) : List Exit :=
  t.byOwner.getD owner []

/-- The owners of exits to an address. -/
def ownersOf (t : Links) (dest : UInt32) : List Nat :=
  t.ownersByDest.getD dest []

/-- The exits to an address, by owner. -/
def exitsTo (t : Links) (dest : UInt32) : List Exit :=
  (t.ownersOf dest).flatMap fun owner => (t.exitsOf owner).filter (·.dest = dest)

/-- The number of exits. -/
def exitCount (t : Links) : Nat :=
  (t.byOwner.toList.flatMap (·.2)).length

/-- The exits of every owner that has some, by owner. -/
def exitLists (t : Links) : List (List Exit) :=
  t.byOwner.toList.map (·.2)

/-- Binds a key to a list, or to nothing if the list is empty. -/
def put {κ α : Type} [Ord κ] (m : Std.TreeMap κ (List α)) (k : κ) (v : List α) :
    Std.TreeMap κ (List α) :=
  if v.isEmpty then m.erase k else m.insert k v

/-- Adds an exit. -/
def addExit (t : Links) (e : Exit) : Links :=
  let owners := t.ownersOf e.dest
  let owners := if owners.contains e.owner then owners else owners ++ [e.owner]
  { t with
    byOwner := t.byOwner.insert e.owner (t.exitsOf e.owner ++ [e])
    ownersByDest := t.ownersByDest.insert e.dest owners }

/-- Takes the exits to an address out of the lists of the given owners. -/
def dropDest (dest : UInt32) (byOwner : Std.TreeMap Nat (List Exit)) :
    List Nat → Std.TreeMap Nat (List Exit)
  | [] => byOwner
  | owner :: owners =>
    dropDest dest (put byOwner owner ((byOwner.getD owner []).filter (·.dest ≠ dest))) owners

/-- Removes all exits to an address. -/
def eraseLinksTo (t : Links) (dest : UInt32) : Links :=
  { t with
    byOwner := dropDest dest t.byOwner (t.ownersOf dest)
    ownersByDest := t.ownersByDest.erase dest }

/-- Takes an owner out of the lists of the addresses of the given exits. -/
def dropOwner (owner : Nat) (ownersByDest : Std.TreeMap UInt32 (List Nat)) :
    List Exit → Std.TreeMap UInt32 (List Nat)
  | [] => ownersByDest
  | e :: es =>
    dropOwner owner (put ownersByDest e.dest ((ownersByDest.getD e.dest []).filter (· ≠ owner))) es

/-- Removes the entries and all exits of a block. -/
def eraseBlock (t : Links) (num : Nat) : Links :=
  { native := t.native.erase num
    byOwner := t.byOwner.erase num
    ownersByDest := dropOwner num t.ownersByDest (t.exitsOf num) }

end Links

end Dynarec
