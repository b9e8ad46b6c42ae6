import Dynarec.Error

/-!
# Actions

An action works on a state and either gives a value or fails; what it did to the state stays done
in both cases.
-/

namespace Dynarec

/-- An action on a state of type `σ`. -/
abbrev Action (σ : Type) := EStateM JitError σ

namespace Action

variable {ε σ τ α : Type}

/-- An action on a part of a state. -/
def onPart (get : σ → τ) (set : τ → σ → σ) (x : EStateM ε τ α) : EStateM ε σ α := fun s =>
  match x (get s) with
  | .ok a t => .ok a (set t s)
  | .error e t => .error e (set t s)

/-- Changes the state after an action, whether it succeeds or fails. -/
def andFinally (x : EStateM ε σ α) (finish : σ → σ) : EStateM ε σ α := fun s =>
  match x s with
  | .ok a s => .ok a (finish s)
  | .error e s => .error e (finish s)

/-- A result as an action that leaves the state as it is. -/
def ofExcept (r : Except ε α) : EStateM ε σ α := fun s =>
  match r with
  | .ok a => .ok a s
  | .error e => .error e s

/-- The same action with its errors renamed. -/
def mapError {ε' : Type} (f : ε → ε') (x : EStateM ε σ α) : EStateM ε' σ α := fun s =>
  match x s with
  | .ok a s => .ok a s
  | .error e s => .error (f e) s

end Action

end Dynarec
