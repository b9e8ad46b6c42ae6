import Dynarec.Notice

/-!
# The platform

`Host` stands for the platform that the code region is asked of: which requests it will refuse,
what has been done to the region so far, and the notices that were given.  Both histories are kept
with the newest entry first.
-/

namespace Dynarec

/-- What may be done with a page besides reading it. -/
inductive Access where
  | write
  | execute
  deriving DecidableEq, Repr

/-- Something that happened to the code region. -/
inductive MemoryEvent where
  /-- The access to a range was to be changed; `granted` says whether it was. -/
  | protect (offset len : Nat) (access : Access) (granted : Bool)
  /-- Bytes were written. -/
  | write (offset len : Nat)
  deriving DecidableEq, Repr

/-- The platform: what it refuses, and what has happened. -/
structure Host where
  /-- Mapping the code region fails. -/
  refuseMapping : Bool := false
  /-- The numbers of the changes of access that fail, counted from zero. -/
  refuseProtect : List Nat := []
  /-- How many changes of access have been asked for. -/
  protectCount : Nat := 0
  /-- What happened to the code region, the newest first. -/
  events : List MemoryEvent := []
  /-- The notices given, the newest first. -/
  notices : List Notice := []
  deriving Repr

namespace Host

/-- Gives a notice. -/
def note (h : Host) (n : Notice) : Host :=
  { h with notices := n :: h.notices }

/-- Asks for a change of access; the answer says whether it was granted. -/
def protect (h : Host) (offset len : Nat) (access : Access) : Bool × Host :=
  let granted := !h.refuseProtect.contains h.protectCount
  (granted,
    { h with
      protectCount := h.protectCount + 1
      events := .protect offset len access granted :: h.events })

/-- Records that bytes were written. -/
def wrote (h : Host) (offset len : Nat) : Host :=
  { h with events := .write offset len :: h.events }

end Host

end Dynarec
