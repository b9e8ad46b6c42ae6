import Dynarec.Dump.Report

/-!
# The dump command line

Reads the arguments and the input, and writes the report to standard error.
-/

namespace Dynarec.Dump

/-- The settings that the command takes from its environment. -/
def envNames : List String :=
  Config.settings.map (·.key) ++ ["RUST_LOG"]

/-- Reads the settings from the environment of the process. -/
def readEnv : IO (String → Option String) := do
  let pairs ← envNames.mapM fun name => do
    return (name, ← IO.getEnv name)
  return fun key => (pairs.find? (·.1 = key)).bind (·.2)

/-- The fault behind a failure to read. -/
def fileFault : IO.Error → FileFault
  | .noFileOrDirectory .. => .notFound
  | .permissionDenied .. => .accessDenied
  | .inappropriateType _ code _ => if code = 20 then .notDirectory else .isDirectory
  | .invalidArgument .. => .nameTooLong
  | .illegalOperation .. => .isDirectory
  | _ => .notText

/-- Reads the input: the file with a name, or standard input for a single dash. -/
def readInput (file : String) : IO (Except FileFault String) := do
  try
    if file = "-" then
      return .ok (← (← IO.getStdin).readToEnd)
    else
      return .ok (← IO.FS.readFile file)
  catch e => return .error (fileFault e)

/-- The usage text. -/
def usage : String :=
  "Usage: irjit-dump [--back-jump] [--no-blocklink] [--static-alloc] [--diagnostics] " ++
    "[--log-blocks <LOG_BLOCKS>] <FILE>"

end Dynarec.Dump

open Dynarec Dynarec.Dump in
/-- Compiles the blocks of a text and reports the result. -/
def main (args : List String) : IO UInt32 := do
  match Args.parse args with
  | .error .help =>
    IO.println usage
    return 0
  | .error .usage =>
    IO.eprintln usage
    return 2
  | .ok (file, a) =>
    let input ← readInput file
    let r := report {} a (← readEnv) input
    r.lines.forM fun line => IO.eprintln line
    return UInt32.ofNat r.exit
