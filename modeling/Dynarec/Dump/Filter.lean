import Dynarec.Notice

/-!
# Which notices are shown

A filter is a list of directives separated by commas.  A directive names a level, or the beginning
of a source and a level.  For a notice the directive with the longest matching beginning decides;
a directive without a beginning matches every source.
-/

namespace Dynarec.Dump

/-- One directive: the beginning of the sources it speaks of, and the highest rank it lets
through. -/
structure Directive where
  source : String := ""
  rank : Nat
  deriving DecidableEq, Repr

namespace Directive

/-- The highest rank that a level word lets through. -/
def rank? (s : String) : Option Nat :=
  if String.ofList (s.toList.map Char.toUpper) = "OFF" then some 0
  else (Level.ofName? s).map Level.rank

/-- The rank that lets everything through. -/
def allRanks : Nat := Level.trace.rank

/-- Reads one directive. -/
def parse? (s : String) : Option Directive :=
  match s.splitOn "=" with
  | [word] =>
    if word.isEmpty then none
    else
      match rank? word with
      | some rank => some { rank }
      | none => some { source := word, rank := allRanks }
  | [source, level] =>
    if level.isEmpty then some { source, rank := allRanks }
    else (rank? level).map fun rank => { source, rank }
  | _ => none

end Directive

/-- The directives of a filter text; a text without directives lets errors through. -/
def directives (spec : String) : List Directive :=
  match (spec.splitOn ",").filterMap fun s => Directive.parse? s.trimAscii.toString with
  | [] => [{ rank := Level.error.rank }]
  | ds => ds

/-- Whether the directives let a notice through: the last of the longest matches decides. -/
def shows (ds : List Directive) (n : Notice) : Bool :=
  let hits := ds.filter fun d => n.source.startsWith d.source
  match hits.foldl
      (fun best d =>
        match best with
        | some b => if b.source.length ≤ d.source.length then some d else some b
        | none => some d)
      (none : Option Directive) with
  | some d => n.level.rank ≤ d.rank
  | none => false

end Dynarec.Dump
