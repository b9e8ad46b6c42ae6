import Dynarec.Error
import Dynarec.Text.Blank
import Dynarec.Text.Number

/-!
# Settings

`Config` holds every setting of the compiler.  Settings may be overlaid from named values, such as
environment variables: each known name has a kind of value (a switch or a number) and the first
name in a fixed order whose value cannot be read is an error.
-/

namespace Dynarec

/-- Where a block that is reached by a direct jump checks the downcount: in front of its body, or
behind it with a jump back. -/
inductive LinkStyle where
  | forwardCheck
  | backJump
  deriving DecidableEq, Repr

namespace LinkStyle

/-- The spelling of a link style. -/
def text : LinkStyle → String
  | forwardCheck => "ForwardCheck"
  | backJump => "BackJump"

end LinkStyle

/-- The settings of the compiler. -/
structure Config where
  /-- Exits jump straight to their target block once it is compiled. -/
  blockLink : Bool := true
  /-- Where linked blocks check the downcount. -/
  linkStyle : LinkStyle := .forwardCheck
  /-- The downcount stays in a host register while compiled code runs. -/
  staticAlloc : Bool := false
  /-- Guest registers go back to memory after every instruction. -/
  noGprCache : Bool := false
  /-- Floating-point registers go back to memory after every instruction. -/
  noFprCache : Bool := false
  /-- Compiled code reports interpreted opcodes and blocks without an exit. -/
  diagnostics : Bool := true
  /-- No page of the code region is writable and executable at the same time. -/
  wxExclusive : Bool := true
  /-- The number of bytes of the code region. -/
  codeSpace : Nat := 16 * 1024 * 1024
  /-- How many of the next compiled blocks are listed in the log. -/
  logBlocks : UInt32 := 0
  deriving DecidableEq, Repr

namespace Config

/-- The largest code region: every distance inside it fits a signed 32-bit word. -/
def maxCodeSpace : Nat := 0x7fffffff

/-- Whether linked blocks check the downcount behind their body. -/
def usesBackJump (c : Config) : Bool :=
  c.blockLink && c.linkStyle = .backJump

/-- Whether linked blocks check the downcount in front of their body. -/
def usesForwardCheck (c : Config) : Bool :=
  c.blockLink && c.linkStyle = .forwardCheck

/-- Whether a size is one that a code region can have. -/
def isCodeSpace (size : Nat) : Bool :=
  0 < size && size ≤ maxCodeSpace

/-- Checks that the code region has a size that it can have. -/
def validate (c : Config) : Except JitError Unit :=
  if isCodeSpace c.codeSpace then .ok ()
  else .error (.invalidOption "code_space_size" (toString c.codeSpace))

/-- The spellings of a switch that is on. -/
def onWords : List String := ["1", "true", "yes", "on"]

/-- The spellings of a switch that is off. -/
def offWords : List String := ["0", "false", "no", "off"]

/-- Reads a switch; white space around it and the case of letters do not matter. -/
def readSwitch (key value : String) : Except JitError Bool :=
  let word := String.ofList ((Text.trimBlanks value.toList).map Char.toLower)
  if word ∈ onWords then .ok true
  else if word ∈ offWords then .ok false
  else .error (.invalidOption key value)

/-- Reads a number that satisfies `valid`; white space around it does not matter. -/
def readNumber (valid : Nat → Bool) (key value : String) : Except JitError Nat :=
  match (Text.signedNumber? (Text.trimBlanks value.toList)).filter valid with
  | some n => .ok n
  | none => .error (.invalidOption key value)

/-- A named setting: how its value is read and put into a configuration. -/
structure Setting where
  key : String
  apply : Config → (value : String) → Except JitError Config

namespace Setting

/-- A setting that is a switch. -/
def switch (key : String) (set : Config → Bool → Config) : Setting where
  key := key
  apply c value := (readSwitch key value).map (set c)

/-- A setting that is a number. -/
def number (key : String) (valid : Nat → Bool) (set : Config → Nat → Config) : Setting where
  key := key
  apply c value := (readNumber valid key value).map (set c)

end Setting

/-- The named settings, in the order in which they are overlaid. -/
def settings : List Setting :=
  [.switch "IRJIT_BLOCKLINK" fun c v => { c with blockLink := v },
   .switch "IRJIT_BACKJUMP" fun c v =>
     { c with linkStyle := if v then .backJump else .forwardCheck },
   .switch "IRJIT_STATIC_ALLOC" fun c v => { c with staticAlloc := v },
   .switch "IRJIT_NO_REGALLOC_GPR" fun c v => { c with noGprCache := v },
   .switch "IRJIT_NO_REGALLOC_FPR" fun c v => { c with noFprCache := v },
   .switch "IRJIT_DIAGNOSTICS" fun c v => { c with diagnostics := v },
   .switch "IRJIT_WX_EXCLUSIVE" fun c v => { c with wxExclusive := v },
   .number "IRJIT_CODE_SPACE" isCodeSpace fun c v => { c with codeSpace := v },
   .number "IRJIT_LOG_BLOCKS" (· < UInt32.size) fun c v => { c with logBlocks := UInt32.ofNat v }]

/-- Overlays the named values that `lookup` knows. -/
def overlay (c : Config) (lookup : String → Option String) : Except JitError Config :=
  settings.foldlM (fun c s =>
    match lookup s.key with
    | some value => s.apply c value
    | none => .ok c) c

/-- The spelling of a switch in the text of a configuration. -/
def switchText (b : Bool) : String := if b then "true" else "false"

/-- A configuration as text, all settings in order. -/
def text (c : Config) : String :=
  "JitOptions \x7b enable_blocklink: " ++ switchText c.blockLink ++
  ", link_style: " ++ c.linkStyle.text ++
  ", use_static_alloc: " ++ switchText c.staticAlloc ++
  ", disable_regalloc_gpr: " ++ switchText c.noGprCache ++
  ", disable_regalloc_fpr: " ++ switchText c.noFprCache ++
  ", diagnostic_checks: " ++ switchText c.diagnostics ++
  ", wx_exclusive: " ++ switchText c.wxExclusive ++
  ", code_space_size: " ++ toString c.codeSpace ++
  ", log_blocks: " ++ toString c.logBlocks.toNat ++ " \x7d"

end Config

end Dynarec
