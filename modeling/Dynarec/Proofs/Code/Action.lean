import Dynarec.Code.Action

/-!
# Reasoning about actions

An action gives a value or fails, and in both cases leaves a state.  There are two ways to talk
about one:

* `bind_eq_ok` takes a successful action apart into its successful steps;
* `Keeps R x` says that `x` relates the state before and after by `R`, however it ends.  For a
  relation that composes, it follows step by step (`Keeps.bind`).  `KeepsFailing R x` asks for it
  only when `x` fails, so that the last steps may do more.
-/

namespace Dynarec

namespace Action

variable {ε ε' σ τ α β : Type}

/-! ## Steps -/

@[simp] theorem pure_apply (a : α) (s : σ) : (pure a : EStateM ε σ α) s = .ok a s := rfl

@[simp] theorem get_apply (s : σ) : (get : EStateM ε σ σ) s = .ok s s := rfl

@[simp] theorem set_apply (s t : σ) : (set t : EStateM ε σ PUnit) s = .ok ⟨⟩ t := rfl

@[simp] theorem modify_apply (f : σ → σ) (s : σ) :
    (modify f : EStateM ε σ PUnit) s = .ok ⟨⟩ (f s) := rfl

@[simp] theorem modifyGet_apply (f : σ → α × σ) (s : σ) :
    (modifyGet f : EStateM ε σ α) s = .ok (f s).1 (f s).2 := rfl

@[simp] theorem throw_apply (e : ε) (s : σ) : (throw e : EStateM ε σ α) s = .error e s := rfl

/-- A sequence goes on with the answer of its first step, or fails with it. -/
theorem bind_apply (x : EStateM ε σ α) (f : α → EStateM ε σ β) (s : σ) :
    (x >>= f) s =
      match x s with
      | .ok a s => f a s
      | .error e s => .error e s := by
  show EStateM.bind x f s = _
  rw [EStateM.bind]
  cases x s <;> rfl

/-- A state that an action fails in is the one that its handler starts from. -/
theorem tryCatch_apply (x : EStateM ε σ α) (handle : ε → EStateM ε σ α) (s : σ) :
    tryCatch x handle s =
      match x s with
      | .ok a t => .ok a t
      | .error e t => handle e t := by
  show EStateM.tryCatch x handle s = _
  delta EStateM.tryCatch
  cases x s <;> rfl

/-- A sequence succeeds when its steps succeed one after the other. -/
theorem bind_eq_ok {x : EStateM ε σ α} {f : α → EStateM ε σ β} {s t : σ} {b : β} :
    (x >>= f) s = .ok b t ↔ ∃ a r, x s = .ok a r ∧ f a r = .ok b t := by
  rw [bind_apply]
  cases h : x s with
  | ok a r =>
    constructor
    · intro hf
      exact ⟨a, r, rfl, hf⟩
    · rintro ⟨a', r', heq, hf⟩
      cases heq
      exact hf
  | error e r => simp

/-- Where the first step succeeds, the sequence is the rest. -/
theorem bind_of_ok {x : EStateM ε σ α} {f : α → EStateM ε σ β} {s r : σ} {a : α}
    (h : x s = .ok a r) : (x >>= f) s = f a r := by
  rw [bind_apply, h]

/-- Where the first step fails, so does the sequence. -/
theorem bind_of_error {x : EStateM ε σ α} {f : α → EStateM ε σ β} {s r : σ} {e : ε}
    (h : x s = .error e r) : (x >>= f) s = .error e r := by
  rw [bind_apply, h]

/-- A result that is lifted succeeds where the result does, and leaves the state. -/
theorem ofExcept_eq_ok {r : Except ε α} {s t : σ} {a : α} :
    (ofExcept r : EStateM ε σ α) s = .ok a t ↔ r = .ok a ∧ s = t := by
  cases r <;> simp [ofExcept]

/-- Other errors do not make more results succeed. -/
theorem mapError_except_eq_ok {f : ε → ε'} {r : Except ε α} {a : α} :
    r.mapError f = .ok a ↔ r = .ok a := by
  cases r with
  | ok b => constructor <;> (rintro ⟨⟩; rfl)
  | error e => constructor <;> rintro ⟨⟩

/-- An action on a part of the state succeeds as it does on the part. -/
theorem onPart_eq_ok {get : σ → τ} {set : τ → σ → σ} {x : EStateM ε τ α} {s t : σ} {a : α} :
    onPart get set x s = .ok a t ↔ ∃ r, x (get s) = .ok a r ∧ t = set r s := by
  rw [onPart]
  cases h : x (get s) with
  | ok b r =>
    constructor
    · intro heq
      cases heq
      exact ⟨r, rfl, rfl⟩
    · rintro ⟨r', heq, rfl⟩
      cases heq
      rfl
  | error e r => simp

/-- Other errors do not make more actions succeed. -/
theorem mapError_eq_ok {f : ε → ε'} {x : EStateM ε σ α} {s t : σ} {a : α} :
    mapError f x s = .ok a t ↔ x s = .ok a t := by
  rw [mapError]
  cases x s <;> simp

/-- What is done at the end is done after a success. -/
theorem andFinally_eq_ok {x : EStateM ε σ α} {finish : σ → σ} {s t : σ} {a : α} :
    andFinally x finish s = .ok a t ↔ ∃ r, x s = .ok a r ∧ t = finish r := by
  rw [andFinally]
  cases h : x s with
  | ok b r =>
    constructor
    · intro heq
      cases heq
      exact ⟨r, rfl, rfl⟩
    · rintro ⟨r', heq, rfl⟩
      cases heq
      rfl
  | error e r => simp

/-- What is done at the end is done after a failure too. -/
theorem andFinally_eq_error {x : EStateM ε σ α} {finish : σ → σ} {s t : σ} {e : ε} :
    andFinally x finish s = .error e t ↔ ∃ r, x s = .error e r ∧ t = finish r := by
  rw [andFinally]
  cases h : x s with
  | ok b r => simp
  | error e' r =>
    constructor
    · intro heq
      cases heq
      exact ⟨r, rfl, rfl⟩
    · rintro ⟨r', heq, rfl⟩
      cases heq
      rfl

/-- A sequence fails when its first step fails, or the rest after it. -/
theorem bind_eq_error {x : EStateM ε σ α} {f : α → EStateM ε σ β} {s t : σ} {e : ε} :
    (x >>= f) s = .error e t ↔
      x s = .error e t ∨ ∃ a r, x s = .ok a r ∧ f a r = .error e t := by
  rw [bind_apply]
  cases h : x s with
  | ok a r =>
    constructor
    · intro hf
      exact .inr ⟨a, r, rfl, hf⟩
    · rintro (heq | ⟨a', r', heq, hf⟩)
      · cases heq
      · cases heq
        exact hf
  | error e' r => simp

/-- Whether an action succeeds with an answer and a state that pass a test. -/
def succeeds (r : EStateM.Result ε σ α) (test : α → σ → Bool) : Bool :=
  match r with
  | .ok a s => test a s
  | .error _ _ => false

/-- An action that passes a test has succeeded, with an answer and a state. -/
theorem exists_of_succeeds {r : EStateM.Result ε σ α} {test : α → σ → Bool}
    (h : succeeds r test = true) : ∃ a s, r = .ok a s ∧ test a s = true := by
  cases r with
  | ok a s => exact ⟨a, s, rfl, h⟩
  | error e s => cases h

/-- Whether an action fails with an error and a state that pass a test. -/
def fails (r : EStateM.Result ε σ α) (test : ε → σ → Bool) : Bool :=
  match r with
  | .ok _ _ => false
  | .error e s => test e s

/-- An action that fails a test has failed, with an error and a state. -/
theorem exists_of_fails {r : EStateM.Result ε σ α} {test : ε → σ → Bool}
    (h : fails r test = true) : ∃ e s, r = .error e s ∧ test e s = true := by
  cases r with
  | ok a s => cases h
  | error e s => exact ⟨e, s, rfl, h⟩

/-- The answer of an action that succeeds. -/
def answer? : EStateM.Result ε σ α → Option α
  | .ok a _ => some a
  | .error _ _ => none

/-! ## What an action keeps -/

/-- The state that an action leaves, however it ends. -/
def after : EStateM.Result ε σ α → σ
  | .ok _ s => s
  | .error _ s => s

@[simp] theorem after_ok (a : α) (s : σ) : after (.ok a s : EStateM.Result ε σ α) = s := rfl

@[simp] theorem after_error (e : ε) (s : σ) : after (.error e s : EStateM.Result ε σ α) = s := rfl

/-- What an action answers does not matter to the state it leaves. -/
theorem after_bind_pure (x : EStateM ε σ α) (f : α → β) (s : σ) :
    after ((x >>= fun a => pure (f a)) s) = after (x s) := by
  rw [bind_apply]
  cases x s <;> rfl

/-- What is done at the end is done in any case. -/
@[simp] theorem after_andFinally (x : EStateM ε σ α) (finish : σ → σ) (s : σ) :
    after (andFinally x finish s) = finish (after (x s)) := by
  rw [andFinally]
  cases x s <;> rfl

/-- A sequence relates states if its first step does and, where it succeeds, the rest does. -/
theorem related_bind {R : σ → σ → Prop} (htrans : ∀ {r s t}, R r s → R s t → R r t)
    {x : EStateM ε σ α} {f : α → EStateM ε σ β} {s : σ} (hx : R s (after (x s)))
    (hf : ∀ a t, x s = .ok a t → R t (after (f a t))) : R s (after ((x >>= f) s)) := by
  rw [bind_apply]
  cases h : x s with
  | ok a t =>
    rw [h] at hx
    exact htrans hx (hf a t h)
  | error e t =>
    rw [h] at hx
    exact hx

/-- The states before and after an action are related, however it ends. -/
def Keeps (R : σ → σ → Prop) (x : EStateM ε σ α) : Prop :=
  ∀ s, R s (after (x s))

namespace Keeps

variable {R : σ → σ → Prop}

/-- What an action keeps holds after it has succeeded. -/
theorem of_ok {x : EStateM ε σ α} {a : α} {s t : σ} (hx : Keeps R x) (h : x s = .ok a t) :
    R s t := by
  have hs := hx s
  rw [h] at hs
  exact hs

/-- What an action keeps holds after it has failed. -/
theorem of_error {x : EStateM ε σ α} {e : ε} {s t : σ} (hx : Keeps R x)
    (h : x s = .error e t) : R s t := by
  have hs := hx s
  rw [h] at hs
  exact hs

theorem pure (hrefl : ∀ s, R s s) (a : α) : Keeps R (pure a : EStateM ε σ α) := hrefl

theorem get (hrefl : ∀ s, R s s) : Keeps R (get : EStateM ε σ σ) := hrefl

/-- A change of the state keeps what it keeps from every state. -/
theorem modify {f : σ → σ} (h : ∀ s, R s (f s)) : Keeps R (modify f : EStateM ε σ PUnit) := h

/-- A result that is lifted leaves the state. -/
theorem ofExcept (hrefl : ∀ s, R s s) (r : Except ε α) :
    Keeps R (ofExcept r : EStateM ε σ α) := by
  intro s
  cases r <;> exact hrefl s

/-- What two steps keep one after the other, the sequence keeps. -/
theorem bind (htrans : ∀ {r s t}, R r s → R s t → R r t) {x : EStateM ε σ α}
    {f : α → EStateM ε σ β} (hx : Keeps R x) (hf : ∀ a, Keeps R (f a)) : Keeps R (x >>= f) :=
  fun s => related_bind (R := R) (fun h => htrans h) (hx s) fun a t _ => hf a t

/-- An action for each of a list keeps what every one of them keeps. -/
theorem forM (hrefl : ∀ s, R s s) (htrans : ∀ {r s t}, R r s → R s t → R r t)
    {f : α → EStateM ε σ PUnit} (hf : ∀ a, Keeps R (f a)) (as : List α) : Keeps R (as.forM f) := by
  induction as with
  | nil => exact hrefl
  | cons a as ih => exact Keeps.bind (R := R) (fun h => htrans h) (hf a) fun _ => ih

/-- An action on a part of the state keeps what follows for the whole. -/
theorem onPart {get : σ → τ} {set : τ → σ → σ} {S : τ → τ → Prop} {x : EStateM ε τ α}
    (hx : Keeps S x) (h : ∀ s t, S (get s) t → R s (set t s)) : Keeps R (onPart get set x) := by
  intro s
  have hs := hx (get s)
  rw [Action.onPart]
  cases hxs : x (get s) with
  | ok a t =>
    rw [hxs] at hs
    exact h s t hs
  | error e t =>
    rw [hxs] at hs
    exact h s t hs

/-- An action with an end keeps what both of them keep. -/
theorem andFinally (htrans : ∀ {r s t}, R r s → R s t → R r t) {x : EStateM ε σ α}
    {finish : σ → σ} (hx : Keeps R x) (hf : ∀ s, R s (finish s)) :
    Keeps R (andFinally x finish) := by
  intro s
  have hs := hx s
  rw [Action.andFinally]
  cases hxs : x s with
  | ok a t =>
    rw [hxs] at hs
    exact htrans hs (hf t)
  | error e t =>
    rw [hxs] at hs
    exact htrans hs (hf t)

end Keeps

/-! ## Actions that fail, and actions that never do -/

/-- The action never fails. -/
def Total (x : EStateM ε σ α) : Prop :=
  ∀ s, ∃ a t, x s = .ok a t

namespace Total

/-- A sequence of steps that do not fail does not fail. -/
theorem bind {x : EStateM ε σ α} {f : α → EStateM ε σ β} (hx : Total x) (hf : ∀ a, Total (f a)) :
    Total (x >>= f) := by
  intro s
  obtain ⟨a, t, ha⟩ := hx s
  rw [bind_of_ok ha]
  exact hf a t

/-- An action for each of a list does not fail if none of them does. -/
theorem forM {f : α → EStateM ε σ PUnit} (hf : ∀ a, Total (f a)) (as : List α) :
    Total (as.forM f) := by
  induction as with
  | nil => exact fun s => ⟨⟨⟩, s, rfl⟩
  | cons a as ih => exact (hf a).bind fun _ => ih

end Total

/-- The states before and after the action are related whenever it fails. -/
def KeepsFailing (R : σ → σ → Prop) (x : EStateM ε σ α) : Prop :=
  ∀ s e t, x s = .error e t → R s t

namespace KeepsFailing

variable {R : σ → σ → Prop}

/-- An action that does not fail keeps anything when it fails. -/
theorem of_total {x : EStateM ε σ α} (hx : Total x) : KeepsFailing R x := by
  intro s e t hfails
  obtain ⟨a, r, ha⟩ := hx s
  cases ha.symm.trans hfails

/-- A sequence that fails does so in its first step or after it. -/
theorem bind (htrans : ∀ {r s t}, R r s → R s t → R r t) {x : EStateM ε σ α}
    {f : α → EStateM ε σ β} (hx : Keeps R x) (hf : ∀ a, KeepsFailing R (f a)) :
    KeepsFailing R (x >>= f) := by
  intro s e t hfails
  obtain hfirst | ⟨a, r, hok, hrest⟩ := bind_eq_error.mp hfails
  · exact hx.of_error hfirst
  · exact htrans (hx.of_ok hok) (hf a r e t hrest)

end KeepsFailing

end Action

end Dynarec
