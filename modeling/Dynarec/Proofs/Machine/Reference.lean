import Dynarec.Proofs.Machine.Dispatch

/-!
# Programs without machine code

What a program does, said with the meaning of blocks alone: the guest goes from block to block until
its budget is spent or there is no block for the address that it comes to (`Program.Halts`).

Blocks need not find the same guest: links leave an old address in the program counter, and the
scratch word holds what the last change of the rounding mode left there.  `Block.eval_alike` says
that this does not matter, as long as handlers do not look at those words and a block that leaves
for its program counter has set it.
-/

namespace Dynarec

variable {σ τ : Type}

/-! ## Handlers as functions -/

/-- What the generic handler and the interpreters see of a guest, and may change. -/
structure Visible where
  gpr : Vector UInt32 32
  fpr : Vector UInt32 32
  fcr31 : UInt32
  downcount : UInt32
  deriving DecidableEq, Repr

namespace Context

/-- The part of a context that handlers see. -/
def visible (c : Context) : Visible where
  gpr := c.gpr
  fpr := c.fpr
  fcr31 := c.fcr31
  downcount := c.downcount

/-- Replaces the part of a context that handlers see. -/
def setVisible (c : Context) (v : Visible) : Context :=
  { c with gpr := v.gpr, fpr := v.fpr, fcr31 := v.fcr31, downcount := v.downcount }

end Context

/-- What the generic handler and the interpreters do. -/
structure Service where
  /-- Carries out a packed instruction; the word is the answer. -/
  generic : (packed : UInt64) → Visible → Visible × UInt32
  /-- Interprets an opcode of the guest. -/
  interpret : (opcode : UInt32) → Visible → Visible

/-- The generic handler and the interpreters do what a service says, whatever else they find. -/
structure Handlers.Provides (h : Handlers σ) (service : Service) : Prop where
  generic : ∀ packed mxcsr c s,
    (h.generic packed mxcsr c s).context = c.setVisible (service.generic packed c.visible).1 ∧
      (h.generic packed mxcsr c s).answer.toUInt32 = (service.generic packed c.visible).2
  interpret : ∀ opcode mxcsr c s,
    (h.interpret opcode mxcsr c s).context = c.setVisible (service.interpret opcode c.visible)

/-- Handlers that do what a service says and nothing else. -/
def Service.handlers (service : Service) : Handlers Unit :=
  { Handlers.default fun _ s => s with
    generic := fun packed _ context state =>
      { context := context.setVisible (service.generic packed context.visible).1
        state
        answer := (service.generic packed context.visible).2.toUInt64 }
    interpret := fun opcode _ context state =>
      { context := context.setVisible (service.interpret opcode context.visible), state } }

/-- The handlers of a service provide it. -/
theorem Service.provides (service : Service) : service.handlers.Provides service where
  generic _ _ _ _ := ⟨rfl, UInt32.toUInt32_toUInt64 _⟩
  interpret _ _ _ _ := rfl

/-! ## Programs -/

/-- The blocks of a program, by address. -/
abbrev Program := UInt32 → Option Block

/-- The address that control leaves for, given the context. -/
def Leave.pc (c : Context) : Leave → UInt32
  | .toAddress pc => pc
  | .toPc => c.pc

/-- The guest that a block at an address finds. -/
def Context.entering (c : Context) (pc : UInt32) : Guest Unit where
  context := { c with pc }
  mxcsr := 0
  state := ()

/-- The program, continued at an address with a context, comes to an end with a context. -/
inductive Program.Halts (program : Program) (service : Service) : UInt32 → Context → Context → Prop
  | spent {pc : UInt32} {c : Context} (hspent : c.outOfBudget) :
    Halts program service pc c { c with pc, coreState := Context.coreStepping }
  | missing {pc : UInt32} {c : Context} (hbudget : c.outOfBudget = false)
    (hmissing : program pc = none) : Halts program service pc c { c with pc }
  | block {pc : UInt32} {c d : Context} {b : Block} {g : Guest Unit} {leave : Leave}
    (hbudget : c.outOfBudget = false) (hblock : program pc = some b)
    (heval : b.eval service.handlers false (c.entering pc) = (g, some leave))
    (hrest : Halts program service (leave.pc g.context) g.context d) :
    Halts program service pc c d

/-! ## Guests that a block takes for the same -/

namespace Inst

/-- Whether an instruction sets the program counter. -/
def setsPc (i : Inst) : Bool :=
  i.op = .setPc || i.op = .setPcConst

/-- Two outcomes of an instruction are the same, up to the program counter and the scratch word. -/
structure Alike (x : Guest σ × Option Leave) (y : Guest τ × Option Leave) : Prop where
  leave : x.2 = y.2
  bare : x.1.context.bare = y.1.context.bare

variable {h : Handlers σ} {h' : Handlers τ} {service : Service} {g : Guest σ} {g' : Guest τ}

/-- The generic handler acts alike on guests that differ in what means nothing. -/
theorem evalGeneric_alike (hh : h.Provides service) (hh' : h'.Provides service)
    (hbare : g.context.bare = g'.context.bare) (i : Inst) :
    Alike (i.evalGeneric h g) (i.evalGeneric h' g') := by
  have hvisible : g.context.visible = g'.context.visible := (congrArg Context.visible hbare :)
  obtain ⟨hcontext, hanswer⟩ := hh.generic i.pack g.mxcsr g.context g.state
  obtain ⟨hcontext', hanswer'⟩ := hh'.generic i.pack g'.mxcsr g'.context g'.state
  refine ⟨?_, ?_⟩
  · simp only [evalGeneric, Guest.call, hanswer, hanswer', hvisible]
  · simp only [evalGeneric, Guest.call, hcontext, hcontext', hvisible]
    exact (congrArg (fun c : Context => c.setVisible _) hbare :)

/-- Applying the rounding mode changes nothing that a block may find. -/
theorem bare_applyRounding (g : Guest σ) : g.applyRounding.context.bare = g.context.bare := by
  rw [Guest.applyRounding]
  split <;> rfl

/-- An instruction does the same to guests that differ in the program counter and the scratch word
only. -/
theorem eval_alike (hh : h.Provides service) (hh' : h'.Provides service)
    (hbare : g.context.bare = g'.context.bare) (i : Inst) :
    Alike (i.eval h false g) (i.eval h' false g') := by
  -- instructions read nothing of a context but what is the same in both
  have hreg : ∀ r, g.reg r = g'.reg r := fun r => (congrArg (fun c : Context => c.reg r) hbare :)
  rw [eval, eval]
  cases hop : i.op
  case nop | setPc | setPcConst | restoreRoundingMode | exitToConst | exitToPc =>
    exact ⟨rfl, hbare⟩
  case downcount =>
    exact ⟨rfl, (congrArg (fun c : Context => { c with downcount := c.downcount - i.constant })
      hbare :)⟩
  case applyRoundingMode =>
    refine ⟨rfl, ?_⟩
    dsimp only
    rw [bare_applyRounding, bare_applyRounding, hbare]
  case interpret =>
    refine ⟨rfl, ?_⟩
    simp only [evalInterpret, Guest.call, Bool.false_eq_true, if_false, hh.interpret, hh'.interpret]
    exact (congrArg (fun c : Context => c.setVisible (service.interpret i.constant c.visible))
      hbare :)
  case exitToReg =>
    refine ⟨?_, hbare⟩
    dsimp only
    rw [hreg]
  case exitIfEq | exitIfNeq | exitIfGtZ | exitIfGeZ | exitIfLtZ | exitIfLeZ =>
    have htaken : i.taken g.context = i.taken g'.context := (congrArg i.taken hbare :)
    refine ⟨?_, hbare⟩
    dsimp only
    rw [htaken]
  case load32 | store32 | fadd | fmul | updateRoundingMode | callReplacement | syscall | trap =>
    exact evalGeneric_alike hh hh' hbare i
  all_goals
    have hvalue : i.value? g.context = i.value? g'.context := (congrArg i.value? hbare :)
    dsimp only
    rw [hvalue]
    cases i.value? g'.context with
    | none => exact ⟨rfl, hbare⟩
    | some v => exact ⟨rfl, (congrArg (fun c : Context => c.setReg i.dest v) hbare :)⟩

/-- An instruction changes what handlers see, the scratch word and, if it says so, the program
counter. -/
theorem context_eval (hh : h.Provides service) (i : Inst) (g : Guest σ) :
    ∃ v temp pc, (i.eval h false g).1.context = { g.context.setVisible v with temp, pc } ∧
      (i.setsPc = false → pc = g.context.pc) := by
  -- what changes nothing also changes no more than it may
  have hkept : ∃ v temp pc, g.context = { g.context.setVisible v with temp, pc } ∧
      (i.setsPc = false → pc = g.context.pc) :=
    ⟨g.context.visible, g.context.temp, g.context.pc, rfl, fun _ => rfl⟩
  rw [eval]
  cases hop : i.op
  case nop | exitToConst | exitToReg | exitToPc | exitIfEq | exitIfNeq | exitIfGtZ | exitIfGeZ
      | exitIfLtZ | exitIfLeZ => exact hkept
  case setPc =>
    exact ⟨g.context.visible, g.context.temp, g.reg i.src1, rfl, fun hno => by
      simp [setsPc, hop] at hno⟩
  case setPcConst =>
    exact ⟨g.context.visible, g.context.temp, i.constant, rfl, fun hno => by
      simp [setsPc, hop] at hno⟩
  case downcount =>
    exact ⟨{ g.context.visible with downcount := g.context.downcount - i.constant }, g.context.temp,
      g.context.pc, rfl, fun _ => rfl⟩
  case restoreRoundingMode =>
    exact ⟨g.context.visible, Rounding.host g.mxcsr, g.context.pc, rfl, fun _ => rfl⟩
  case applyRoundingMode =>
    dsimp only
    rw [Guest.applyRounding]
    split
    · exact hkept
    · exact ⟨g.context.visible, Rounding.guest g.context.fcr31 g.mxcsr, g.context.pc, rfl,
        fun _ => rfl⟩
  case interpret =>
    exact ⟨service.interpret i.constant g.context.visible, g.context.temp, g.context.pc,
      hh.interpret i.constant g.mxcsr g.context g.state, fun _ => rfl⟩
  case load32 | store32 | fadd | fmul | updateRoundingMode | callReplacement | syscall | trap =>
    exact ⟨(service.generic i.pack g.context.visible).1, g.context.temp, g.context.pc,
      (hh.generic i.pack g.mxcsr g.context g.state).1, fun _ => rfl⟩
  all_goals
    dsimp only
    cases i.value? g.context with
    | none => exact hkept
    | some v =>
      exact ⟨(g.context.setReg i.dest v).visible, g.context.temp, g.context.pc, rfl, fun _ => rfl⟩

/-- No instruction changes the core state. -/
theorem coreState_eval (hh : h.Provides service) (i : Inst) (g : Guest σ) :
    (i.eval h false g).1.context.coreState = g.context.coreState := by
  obtain ⟨v, temp, pc, hcontext, -⟩ := context_eval hh i g
  rw [hcontext]
  rfl

/-- Only an instruction that sets the program counter changes it. -/
theorem pc_eval (hh : h.Provides service) {i : Inst} (hi : i.setsPc = false) (g : Guest σ) :
    (i.eval h false g).1.context.pc = g.context.pc := by
  obtain ⟨v, temp, pc, hcontext, hpc⟩ := context_eval hh i g
  rw [hcontext, ← hpc hi]

/-- Setting the program counter brings guests together. -/
theorem pc_eval_of_setsPc {i : Inst} (hi : i.setsPc) (hbare : g.context.bare = g'.context.bare) :
    (i.eval h false g).1.context.pc = (i.eval h' false g').1.context.pc := by
  have hreg : g.reg i.src1 = g'.reg i.src1 := (congrArg (fun c : Context => c.reg i.src1) hbare :)
  simp only [setsPc, Bool.or_eq_true, decide_eq_true_eq] at hi
  rcases hi with hop | hop
  · rw [eval, eval, hop]
    exact hreg
  · rw [eval, eval, hop]
    rfl

/-- Only one kind of instruction leaves for the program counter. -/
theorem op_of_toPc {i : Inst} (hleave : (i.eval h false g).2 = some .toPc) : i.op = .exitToPc := by
  rw [eval] at hleave
  cases hop : i.op <;> rw [hop] at hleave
  case load32 | store32 | fadd | fmul | updateRoundingMode | callReplacement | syscall | trap =>
    simp only [evalGeneric] at hleave
    split at hleave <;> cases hleave
  all_goals
    dsimp only at hleave
    first
    | cases hleave
    | (split at hleave <;> cases hleave)

/-- Every exit to the program counter comes after an instruction that sets it. -/
def PcSet (is : List Inst) : Prop :=
  ∀ k (_ : k < is.length), is[k].op = .exitToPc → ∃ i ∈ is.take k, i.setsPc

instance (is : List Inst) : Decidable (PcSet is) :=
  inferInstanceAs (Decidable (∀ k (_ : k < is.length), _ → _))

/-- The first instruction does not exit to a program counter that is not set. -/
theorem PcSet.head {i : Inst} {is : List Inst} (hset : PcSet (i :: is)) : i.op ≠ .exitToPc := by
  intro hop
  obtain ⟨_, hmem, -⟩ := hset 0 (Nat.zero_lt_succ _) hop
  cases hmem

/-- Neither do the others, behind one that does not set it. -/
theorem PcSet.tail {i : Inst} {is : List Inst} (hset : PcSet (i :: is)) (hi : i.setsPc = false) :
    PcSet is := by
  intro k hk hop
  obtain ⟨i', hmem, hsets⟩ := hset (k + 1) (Nat.succ_lt_succ hk) hop
  rw [List.take_succ_cons, List.mem_cons] at hmem
  rcases hmem with rfl | hmem
  · rw [hi] at hsets
    cases hsets
  · exact ⟨i', hmem, hsets⟩

/-- Instructions do the same to guests that differ in the program counter and the scratch word only.
They leave for the same address, if the guests have the same program counter or the instructions set
it before they leave for it. -/
theorem evalList_alike (hh : h.Provides service) (hh' : h'.Provides service) {is : List Inst}
    (hbare : g.context.bare = g'.context.bare) (hpc : g.context.pc = g'.context.pc ∨ PcSet is) :
    Alike (evalList h false is g) (evalList h' false is g') ∧
      ((evalList h false is g).2 = some .toPc →
        (evalList h false is g).1.context.pc = (evalList h' false is g').1.context.pc) := by
  induction is generalizing g g' with
  | nil => exact ⟨⟨rfl, hbare⟩, fun hleave => by cases hleave⟩
  | cons i is ih =>
    obtain ⟨hleave, hbare₁⟩ := eval_alike hh hh' hbare i
    -- Either the program counters have come together, or what follows still sets them first.
    have hpc₁ : (i.eval h false g).1.context.pc = (i.eval h' false g').1.context.pc ∨ PcSet is := by
      cases hi : i.setsPc with
      | true => exact .inl (pc_eval_of_setsPc hi hbare)
      | false =>
        rcases hpc with hpc | hset
        · exact .inl (by rw [pc_eval hh hi, pc_eval hh' hi, hpc])
        · exact .inr (hset.tail hi)
    have hexit : (i.eval h false g).2 = some .toPc →
        (i.eval h false g).1.context.pc = (i.eval h' false g').1.context.pc := by
      intro htoPc
      have hop := op_of_toPc htoPc
      have hi : i.setsPc = false := by simp [setsPc, hop]
      rcases hpc with hpc | hset
      · rw [pc_eval hh hi, pc_eval hh' hi, hpc]
      · exact absurd hop hset.head
    rw [evalList, evalList]
    generalize i.eval h false g = x at hleave hbare₁ hpc₁ hexit
    generalize i.eval h' false g' = y at hleave hbare₁ hpc₁ hexit
    obtain ⟨g₁, leave⟩ := x
    obtain ⟨g₁', leave'⟩ := y
    obtain rfl : leave = leave' := hleave
    cases leave with
    | some leave => exact ⟨⟨rfl, hbare₁⟩, hexit⟩
    | none => exact ih hbare₁ hpc₁

/-- Instructions one after the other do not change the core state. -/
theorem coreState_evalList (hh : h.Provides service) (is : List Inst) (g : Guest σ) :
    (evalList h false is g).1.context.coreState = g.context.coreState := by
  induction is generalizing g with
  | nil => rfl
  | cons i is ih =>
    have hcore := coreState_eval hh i g
    rw [evalList]
    generalize i.eval h false g = x at hcore
    obtain ⟨g₁, leave⟩ := x
    cases leave with
    | some leave => exact hcore
    | none => exact (ih g₁).trans hcore

end Inst

namespace Block

variable {h : Handlers σ} {h' : Handlers τ} {service : Service} {g : Guest σ} {g' : Guest τ}
  {b : Block}

/-- A block leaves alike for the same address from guests that it takes for the same. -/
theorem eval_alike (hh : h.Provides service) (hh' : h'.Provides service)
    (hset : Inst.PcSet b.insts) (hbare : g.context.bare = g'.context.bare) {g₁' : Guest τ}
    {leave : Leave} (heval : b.eval h' false g' = (g₁', some leave)) :
    ∃ g₁, b.eval h false g = (g₁, some leave) ∧ g₁.context.bare = g₁'.context.bare ∧
      leave.pc g₁.context = leave.pc g₁'.context := by
  obtain ⟨halike, hpc⟩ := Inst.evalList_alike hh hh' hbare (.inr hset)
  rw [eval] at heval
  rw [heval] at halike hpc
  rw [eval]
  generalize Inst.evalList h false b.insts g = x at halike hpc
  obtain ⟨g₁, l⟩ := x
  obtain rfl : l = some leave := halike.leave
  refine ⟨g₁, rfl, halike.bare, ?_⟩
  cases leave with
  | toAddress pc => rfl
  | toPc => exact hpc rfl

/-- So no block does. -/
theorem coreState_eval {c : Context} {pc : UInt32} {g₁ : Guest Unit} {leave : Option Leave}
    (heval : b.eval service.handlers false (c.entering pc) = (g₁, leave)) :
    g₁.context.coreState = c.coreState := by
  have hkept := Inst.coreState_evalList service.provides b.insts (c.entering pc)
  rw [eval] at heval
  rw [heval] at hkept
  exact hkept

/-- Whatever guest it finds, the block is left by one of its instructions. -/
def Leaves (b : Block) (service : Service) : Prop :=
  ∀ g, (b.eval service.handlers false g).2.isSome

/-- An exit without a condition is not passed. -/
theorem leaves_of_mem {i : Inst} (hi : i ∈ b.insts)
    (hop : i.op ∈ [Opcode.exitToConst, .exitToReg, .exitToPc]) (service : Service) :
    b.Leaves service := by
  intro g
  rw [eval]
  generalize b.insts = is at hi
  induction is generalizing g with
  | nil => cases hi
  | cons k ks ih =>
    rw [Inst.evalList]
    split
    · rfl
    · rename_i g₁ hstay
      rcases List.mem_cons.mp hi with rfl | hi
      · simp only [List.mem_cons, List.not_mem_nil, or_false] at hop
        rw [Inst.eval] at hstay
        rcases hop with hop | hop | hop <;> rw [hop] at hstay <;> cases hstay
      · exact ih g₁ hi

/-- A block that means the same in whatever way it is compiled: its registers exist, it sets the
program counter before it leaves for it, and it is always left. -/
structure Proper (b : Block) (service : Service) : Prop where
  slots : ∀ i ∈ b.insts, ∀ r ∈ i.gprOperands, r < 32
  pcSet : Inst.PcSet b.insts
  leaves : b.Leaves service

end Block

end Dynarec
