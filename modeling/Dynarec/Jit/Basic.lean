import Dynarec.Code.Blocks
import Dynarec.Code.Links
import Dynarec.Lower.Select

/-!
# The compiler's state

`Jit` holds everything that survives from one operation to the next: the settings and handler
addresses, the code cache with the fixed routines, the registered blocks, the links between them,
and the draft of the block that is being compiled.
-/

namespace Dynarec

/-- The state of the compiler. -/
structure Jit where
  config : Config
  table : HandlerTable
  code : CodeCache
  stubs : Stubs
  blocks : Blocks := .empty
  links : Links := .empty
  draft : Draft
  /-- How many of the next compiled blocks are listed. -/
  logBlocks : UInt32

namespace Jit

/-- Sets up a compiler: checks the settings, maps the code region, writes the fixed routines. -/
def build (config : Config) (table : HandlerTable) : Action Host Jit := do
  Action.ofExcept config.validate
  let code ← CodeCache.create config.codeSpace config.wxExclusive
  match Stubs.generate config table code with
  | .error e code =>
    set code.host
    throw e
  | .ok stubs code =>
    set code.host
    return { config, table, code, stubs, draft := .idle config.staticAlloc,
             logBlocks := config.logBlocks }

/-- Sets up a compiler and says so first. -/
def create (config : Config) (table : HandlerTable) : Action Host Jit := do
  modify (·.note (.creating config))
  build config table

/-- Gives a notice. -/
def note (n : Notice) : Action Jit Unit :=
  modify fun j => { j with code := j.code.note n }

/-- An action on the code cache. -/
def onCode {α : Type} (x : Action CodeCache α) : Action Jit α :=
  Action.onPart Jit.code (fun code j => { j with code }) x

/-- An action that emits code into the draft. -/
def onDraft {α : Type} (x : Emit α) : Action Jit α :=
  Action.onPart Jit.draft (fun draft j => { j with draft }) (Action.mapError JitError.encoding x)

/-- Runs an action inside a window for writing to a range. -/
def inWindow {α : Type} (openWindow : Action CodeCache (Option Window)) (x : Action Jit α) :
    Action Jit α := do
  let window ← onCode openWindow
  Action.andFinally x fun j => { j with code := j.code.closeWindow window }

/-- The entry of the body of a compiled block. -/
def nativeEntry (j : Jit) (num : Nat) : Option UInt64 :=
  (j.links.native? num).map fun n => CodeCache.addressOf n.target

/-- The checked entry of a compiled block. -/
def checkedEntry (j : Jit) (num : Nat) : Option UInt64 :=
  (j.links.checked? num).map CodeCache.addressOf

/-- The checked entry of the compiled block that stands for a guest address. -/
def linkTarget (j : Jit) (pc : UInt32) : Option UInt64 :=
  (j.blocks.find? pc).bind j.checkedEntry

/-- What the code of a block compiled now depends on. -/
def lowerEnv (j : Jit) : LowerEnv :=
  { config := j.config, table := j.table, stubs := j.stubs, linked := j.linkTarget }

end Jit

end Dynarec
