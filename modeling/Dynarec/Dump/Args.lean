import Dynarec.Config
import Dynarec.Text.Number

/-!
# Arguments of the dump command

The command takes one input and some switches.  Arguments are read from left to right; the first
one that does not fit ends the reading.  A switch may be given once, and after `--` everything is
an input.
-/

namespace Dynarec.Dump

/-- The arguments of the command. -/
structure Args where
  file : Option String := none
  backJump : Bool := false
  noBlockLink : Bool := false
  staticAlloc : Bool := false
  diagnostics : Bool := false
  logBlocks : Option UInt32 := none
  deriving DecidableEq, Repr

/-- Why the command does not start. -/
inductive Stop where
  /-- The arguments do not fit. -/
  | usage
  /-- Help was asked for. -/
  | help
  deriving DecidableEq, Repr

namespace Args

/-- Sets a switch that has not been set before. -/
def once (given : Bool) (value : Option String) (set : Args) : Except Stop Args :=
  if given || value.isSome then .error .usage else .ok set

/-- Takes an input. -/
def withFile (a : Args) (file : String) : Except Stop Args :=
  if a.file.isSome || file.isEmpty then .error .usage else .ok { a with file := some file }

/-- Takes the number of blocks to list: an integer that fits a word, so minus zero is one. -/
def withLogBlocks (a : Args) (value : String) : Except Stop Args :=
  match a.logBlocks, (Text.integer? value.toList).filter (fun n => 0 ≤ n && n < 0x100000000) with
  | none, some n => .ok { a with logBlocks := some (UInt32.ofNat n.toNat) }
  | _, _ => .error .usage

/-- Takes the number of blocks to list from an argument of its own, which is no value if it starts
with a dash. -/
def withNextLogBlocks (a : Args) (value : String) : Except Stop Args :=
  if value.startsWith "-" then .error .usage else a.withLogBlocks value

/-- Takes a switch with the value after its equals sign, if it has one. -/
def withSwitch (a : Args) (name : String) (value : Option String) : Except Stop Args :=
  match name with
  | "back-jump" => once a.backJump value { a with backJump := true }
  | "no-blocklink" => once a.noBlockLink value { a with noBlockLink := true }
  | "static-alloc" => once a.staticAlloc value { a with staticAlloc := true }
  | "diagnostics" => once a.diagnostics value { a with diagnostics := true }
  | "help" => if value.isSome then .error .usage else .error .help
  | _ => .error .usage

/-- Splits a switch at its first equals sign. -/
def splitSwitch (cs : List Char) : String × Option String :=
  match cs.dropWhile (· ≠ '=') with
  | [] => (String.ofList cs, none)
  | _ :: value => (String.ofList (cs.takeWhile (· ≠ '=')), some (String.ofList value))

/-- Reads arguments; `inputs` says that only inputs follow. -/
def read (a : Args) : (inputs : Bool) → List String → Except Stop Args
  | _, [] => .ok a
  | true, arg :: args => do
    let a ← a.withFile arg
    a.read true args
  | false, arg :: args =>
    match arg.toList with
    | ['-', '-'] => a.read true args
    | '-' :: '-' :: switch =>
      match splitSwitch switch with
      | ("log-blocks", some value) => do
        let a ← a.withLogBlocks value
        a.read false args
      | ("log-blocks", none) =>
        match args with
        | [] => .error .usage
        | value :: args => do
          let a ← a.withNextLogBlocks value
          a.read false args
      | (name, value) => do
        let a ← a.withSwitch name value
        a.read false args
    | '-' :: 'h' :: _ => .error .help
    | '-' :: _ :: _ => .error .usage
    | _ => do
      let a ← a.withFile arg
      a.read false args

/-- Reads the arguments of the command: the input and the switches. -/
def parse (args : List String) : Except Stop (String × Args) := do
  let a ← ({} : Args).read false args
  match a.file with
  | some file => .ok (file, a)
  | none => .error .usage

/-- The settings with the switches of the command line applied. -/
def configure (a : Args) (c : Config) : Config :=
  let c := if a.backJump then { c with linkStyle := .backJump } else c
  let c := if a.noBlockLink then { c with blockLink := false } else c
  let c := if a.staticAlloc then { c with staticAlloc := true } else c
  if a.diagnostics then { c with diagnostics := true } else c

/-- How many blocks are listed: as many as the command line says, else as the settings say, else
all. -/
def logCount (a : Args) (fromSettings : Option UInt32) (blocks : Nat) : UInt32 :=
  (a.logBlocks.or fromSettings).getD (UInt32.ofNat (min blocks (UInt32.size - 1)))

end Args

end Dynarec.Dump
