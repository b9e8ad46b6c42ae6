import Dynarec.Dump.Args
import Dynarec.Dump.Filter
import Dynarec.Ir.Parse
import Dynarec.Jit.Engine
import Dynarec.Machine.Handlers

/-!
# The dump command

The command reads blocks from a text, compiles them one after the other and reports what it did:
the notices that pass the filter, and the error that ended the run, if there was one.
-/

namespace Dynarec.Dump

/-- Why an input could not be read. -/
inductive FileFault where
  | notFound
  | accessDenied
  | notDirectory
  | isDirectory
  | nameTooLong
  | notText
  deriving DecidableEq, Repr

/-- Why a run failed. -/
inductive Failure where
  | file (cause : FileFault)
  | syntaxError (cause : SyntaxError)
  | jit (cause : JitError)
  deriving DecidableEq, Repr

/-- A record as text: its name and its fields. -/
def record (name : String) (fields : List (String × String)) : String :=
  name ++ " \x7b " ++ ", ".intercalate (fields.map fun f => f.1 ++ ": " ++ f.2) ++ " \x7d"

/-- A platform failure as a record. -/
def osRecord (code : Nat) (kind message : String) : String :=
  record "Os" [("code", toString code), ("kind", kind), ("message", Text.quoteString message)]

/-- A failure to read an input as a record. -/
def FileFault.record : FileFault → String
  | notFound => osRecord 2 "NotFound" "No such file or directory"
  | accessDenied => osRecord 13 "PermissionDenied" "Permission denied"
  | notDirectory => osRecord 20 "NotADirectory" "Not a directory"
  | isDirectory => osRecord 21 "IsADirectory" "Is a directory"
  | nameTooLong => osRecord 36 "InvalidFilename" "File name too long"
  | notText =>
    Dump.record "Error"
      [("kind", "InvalidData"), ("message", Text.quoteString "stream did not contain valid UTF-8")]

/-- A failure of the platform as a record. -/
def faultRecord : PlatformFault → String
  | .outOfMemory => osRecord 12 "OutOfMemory" "Cannot allocate memory"
  | .accessDenied => osRecord 13 "PermissionDenied" "Permission denied"
  | .invalidArgument => osRecord 22 "InvalidInput" "Invalid argument"

/-- The name of an encoding error. -/
def encodingName : EncodingError → String
  | .invalidRegister => "InvalidRegister"
  | .assembly => "AssemblyError"
  | .unplacedLabel => "UnplacedLabel"
  | .noFreeRegister => "NoFreeRegister"

/-- An error as a record. -/
def errorRecord : JitError → String
  | .codeSpaceExhausted remaining required =>
    record "CodeSpaceExhausted"
      [("remaining", toString remaining), ("required", toString required)]
  | .encoding cause => "Encoding(" ++ encodingName cause ++ ")"
  | .codeAllocation size cause =>
    record "CodeAllocation" [("size", toString size), ("source", faultRecord cause)]
  | .protection offset len cause =>
    record "Protection"
      [("offset", toString offset), ("len", toString len), ("source", faultRecord cause)]
  | .patchOverflow len reserved =>
    record "PatchOverflow" [("len", toString len), ("reserved", toString reserved)]
  | .unknownBlock num => "UnknownBlock(" ++ toString num ++ ")"
  | .invalidOption key value =>
    record "InvalidOption" [("key", Text.quoteString key), ("value", Text.quoteString value)]

/-- A failure as a record. -/
def Failure.record : Failure → String
  | file cause => cause.record
  | syntaxError cause =>
    Dump.record "ParseError"
      [("line", toString cause.line), ("message", Text.quoteString cause.fault.message)]
  | jit cause => errorRecord cause

/-- Compiles blocks one after the other and notes where each is entered. -/
def compileAll : List Block → Action Jit Unit
  | [] => return ()
  | b :: bs => do
    let num ← Jit.addAndCompile b
    match (← get).entryAddress num with
    | some entry => Jit.note (.blockEntry num b.start entry)
    | none => pure ()
    compileAll bs

/-- Compiles all blocks and sums up. -/
def dumpBlocks (blocks : List Block) : Action Jit Unit := do
  compileAll blocks
  let j ← get
  Jit.note (.summary j.blocks.size (j.code.cursor - j.stubs.blocksStart) j.links.exitCount)

/-- The settings of a run: the named values that `env` knows, then the command line. -/
def configFor (a : Args) (env : String → Option String) (blocks : Nat) :
    Except JitError Config := do
  let c ← ({} : Config).overlay env
  let fromSettings := (env "IRJIT_LOG_BLOCKS").map fun _ => c.logBlocks
  return { a.configure c with logBlocks := a.logCount fromSettings blocks }

/-- Compiles blocks on a platform: the notices in order, and the failure, if there was one. -/
def compileOn (host : Host) (config : Config) (blocks : List Block) :
    List Notice × Option JitError :=
  match Jit.create config HandlerTable.default host with
  | .error e host => (host.notices.reverse, some e)
  | .ok j _ =>
    match dumpBlocks blocks j with
    | .error e j => (j.code.host.notices.reverse, some e)
    | .ok _ j => (j.code.host.notices.reverse, none)

/-- A whole run: the notices in order, and the failure, if there was one. -/
def execute (host : Host) (a : Args) (env : String → Option String)
    (input : Except FileFault String) : List Notice × Option Failure :=
  match input with
  | .error e => ([], some (.file e))
  | .ok text =>
    match Block.parse text with
    | .error e => ([], some (.syntaxError e))
    | .ok blocks =>
      match configFor a env blocks.length with
      | .error e => ([], some (.jit e))
      | .ok config =>
        let (notices, failure) := compileOn host config blocks
        (notices, failure.map .jit)

/-- What the command reports: its exit code and the lines it writes. -/
structure Report where
  exit : Nat
  lines : List String
  deriving DecidableEq, Repr

/-- The filter in use when none is set. -/
def defaultFilter : String := "info"

/-- The line of a notice. -/
def noticeLine (n : Notice) : String :=
  n.level.name ++ " " ++ n.source ++ ": " ++ n.text

/-- The report of a run. -/
def report (host : Host) (a : Args) (env : String → Option String)
    (input : Except FileFault String) : Report :=
  let (notices, failure) := execute host a env input
  let filter := directives ((env "RUST_LOG").getD defaultFilter)
  let lines := (notices.filter (shows filter)).map noticeLine
  match failure with
  | none => { exit := 0, lines }
  | some f => { exit := 1, lines := lines ++ ["Error: " ++ f.record] }

end Dynarec.Dump
