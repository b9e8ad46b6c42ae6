import Dynarec.Text.Hex
import Dynarec.X64.Assembler

/-!
# Errors

`JitError` lists the ways in which setting up, compiling, linking and invalidating can fail.
Running out of code space is the one that can be mended, by clearing the code cache and compiling
again.
-/

namespace Dynarec

/-- A failure that the platform reports. -/
inductive PlatformFault where
  | outOfMemory
  | accessDenied
  | invalidArgument
  deriving DecidableEq, Repr

namespace PlatformFault

/-- The wording of a platform failure. -/
def message : PlatformFault → String
  | outOfMemory => "Cannot allocate memory (os error 12)"
  | accessDenied => "Permission denied (os error 13)"
  | invalidArgument => "Invalid argument (os error 22)"

end PlatformFault

/-- Why an operation failed. -/
inductive JitError where
  /-- Not enough free bytes left in the code cache. -/
  | codeSpaceExhausted (remaining required : Nat)
  /-- An instruction could not be written. -/
  | encoding (cause : EncodingError)
  /-- The memory for code could not be mapped. -/
  | codeAllocation (size : Nat) (cause : PlatformFault)
  /-- The protection of a range of the code region could not be changed. -/
  | protection (offset len : Nat) (cause : PlatformFault)
  /-- A patch is longer than the place kept for it. -/
  | patchOverflow (len reserved : Nat)
  /-- No block has this number. -/
  | unknownBlock (num : Nat)
  /-- A setting has a value that it cannot have. -/
  | invalidOption (key value : String)
  deriving DecidableEq, Repr

namespace JitError

/-- Whether clearing the code cache may help. -/
def isOutOfSpace : JitError → Bool
  | codeSpaceExhausted _ _ => true
  | _ => false

/-- The wording of an error; a failed assembly has none. -/
def message? : JitError → Option String
  | codeSpaceExhausted remaining required =>
    some ("code space exhausted: " ++ toString remaining ++ " bytes left, need at least " ++
      toString required)
  | encoding cause => cause.message?.map ("instruction encoding failed: " ++ ·)
  | codeAllocation size cause =>
    some ("failed to allocate " ++ toString size ++ " bytes of executable memory: " ++
      cause.message)
  | protection offset len cause =>
    some ("failed to change protection of " ++ toString len ++ " bytes at offset " ++
      Text.hex offset ++ ": " ++ cause.message)
  | patchOverflow len reserved =>
    some ("patch of " ++ toString len ++ " bytes does not fit a " ++ toString reserved ++
      "-byte site")
  | unknownBlock num => some ("block " ++ toString num ++ " does not exist")
  | invalidOption key value => some ("invalid option " ++ key ++ "=" ++ value)

end JitError

end Dynarec
