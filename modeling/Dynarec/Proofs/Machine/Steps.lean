import Mathlib.Logic.Relation
import Dynarec.Machine.Run
import Dynarec.Proofs.Code.Cells
import Dynarec.Proofs.Machine.Cpu

/-!
# Steps of a run

A run goes from one state of processor and handlers to the next.  `Jit.Step` is one step of a run
that is not over, `Jit.Reach` any number of them, and `Jit.Through` those on the way through a piece
of code.

Shape of the argument: code in the cache is a list of instructions (`CodeCache.Holds`), and the
processor at the start of the list carries out its first instruction (`step_of_holds`).  For code
without branches that is plain evaluation of the list (`Cpu.execList`, `through_of_execList`), so
that what straight code does can be said without offsets.  A call that arrives at a handler is
answered by the handler (`step_handler`), provided that handlers and code have addresses of their
own (`HandlerTable.Separate`).  On top of that, `Jit.Runs` and `Jit.Calls` compose code and calls.
-/

namespace Dynarec

/-! ## Addresses of handlers -/

namespace HandlerTable

/-- The addresses of the handlers apart from the interpreters. -/
def fixed (t : HandlerTable) : List UInt64 :=
  [t.generic, t.advance, t.resolve, t.noBlockExits] ++ t.notify.toList

/-- Whether an address is that of a handler. -/
def Has (t : HandlerTable) (a : UInt64) : Prop :=
  a ∈ t.fixed ∨ ∃ opcode, a = t.interpret opcode

/-- An address at which a handler may be: not null, and not in a code region of `size` bytes. -/
def Free (size : Nat) (a : UInt64) : Prop :=
  a ≠ returnAddress ∧ (a < codeBase ∨ codeBase.toNat + size ≤ a.toNat)

instance (size : Nat) (a : UInt64) : Decidable (Free size a) :=
  inferInstanceAs (Decidable (_ ∧ (_ ∨ _)))

/-- Handlers that serve different ends are different functions, and none of them is in the code
region, which has `size` bytes. -/
structure Separate (t : HandlerTable) (size : Nat) : Prop where
  distinct : t.fixed.Nodup
  interpreters : ∀ opcode, t.interpret opcode ∉ t.fixed
  free : ∀ a ∈ t.fixed, Free size a
  interpreters_free : ∀ opcode, Free size (t.interpret opcode)

/-- Every handler is outside the code region. -/
theorem Separate.free_of_has {t : HandlerTable} {size : Nat} (h : t.Separate size) {a : UInt64}
    (ha : t.Has a) : Free size a := by
  rcases ha with ha | ⟨opcode, rfl⟩
  · exact h.free a ha
  · exact h.interpreters_free opcode

end HandlerTable

namespace Handlers

open HandlerTable

variable {σ : Type} {t : HandlerTable} {size : Nat}

/-- No handler is where code is. -/
theorem ne_addressOf {a : UInt64} (h : Free size a) (hsize : size ≤ 2 ^ 31) {offset : Nat}
    (hlt : offset < size) : CodeCache.addressOf offset ≠ a := by
  rintro rfl
  have haddr := CodeCache.toNat_addressOf (Nat.le_trans (Nat.le_of_lt hlt) hsize)
  rcases h.2 with hlow | hhigh
  · rw [UInt64.lt_iff_toNat_lt] at hlow
    omega
  · omega

/-- No code is where a handler is. -/
theorem not_has_addressOf (hsep : t.Separate size) (hsize : size ≤ 2 ^ 31) {offset : Nat}
    (hlt : offset < size) : ¬ t.Has (CodeCache.addressOf offset) :=
  fun ha => ne_addressOf (hsep.free_of_has ha) hsize hlt rfl

/-- No handler answers inside the code region. -/
theorem find?_addressOf (h : Handlers σ) (hsep : t.Separate size) (hsize : size ≤ 2 ^ 31)
    {offset : Nat} (hlt : offset < size) (second : UInt64) :
    h.find? t (CodeCache.addressOf offset) second = none := by
  have hne : ∀ a ∈ t.fixed, CodeCache.addressOf offset ≠ a := fun a ha =>
    ne_addressOf (hsep.free a ha) hsize hlt
  have hnotify : some (CodeCache.addressOf offset) ≠ t.notify := fun heq =>
    hne _ (by simp [fixed, ← heq]) rfl
  have hinterpret := ne_addressOf (hsep.interpreters_free second.toUInt32) hsize hlt
  rw [find?, if_neg (hne _ (by simp [fixed])), if_neg (hne _ (by simp [fixed])),
    if_neg (hne _ (by simp [fixed])), if_neg (hne _ (by simp [fixed])), if_neg hnotify,
    if_neg hinterpret]

/-- The generic handler is found first. -/
theorem find?_generic (h : Handlers σ) (second : UInt64) :
    h.find? t t.generic second = some (h.generic second) := by
  rw [find?, if_pos rfl]

/-- The handler that advances time is found at its address. -/
theorem find?_advance (h : Handlers σ) (hsep : t.Separate size) (second : UInt64) :
    h.find? t t.advance second = some h.advance := by
  have hd := hsep.distinct
  simp only [fixed, List.cons_append, List.nil_append, List.nodup_cons, List.mem_cons] at hd
  rw [find?, if_neg (by grind), if_pos rfl]

/-- The handler that looks up code is found at its address. -/
theorem find?_resolve (h : Handlers σ) (hsep : t.Separate size) (second : UInt64) :
    h.find? t t.resolve second = some h.resolve := by
  have hd := hsep.distinct
  simp only [fixed, List.cons_append, List.nil_append, List.nodup_cons, List.mem_cons] at hd
  rw [find?, if_neg (by grind), if_neg (by grind), if_pos rfl]

/-- The notify handler is found at its address, if there is one. -/
theorem find?_notify (h : Handlers σ) (hsep : t.Separate size) {a : UInt64}
    (ha : t.notify = some a) (second : UInt64) :
    h.find? t a second = some (h.notify second.toUInt32) := by
  have hd := hsep.distinct
  simp only [fixed, ha, List.cons_append, List.nil_append, Option.toList_some, List.nodup_cons,
    List.mem_cons] at hd
  rw [find?, if_neg (by grind), if_neg (by grind), if_neg (by grind), if_neg (by grind),
    if_pos ha.symm]

/-- The interpreter for an opcode is found at its address. -/
theorem find?_interpret (h : Handlers σ) (hsep : t.Separate size) (second : UInt64) :
    h.find? t (t.interpret second.toUInt32) second = some (h.interpret second.toUInt32) := by
  have hn := hsep.interpreters second.toUInt32
  simp only [fixed, List.mem_append, List.mem_cons, not_or, Option.mem_toList] at hn
  rw [find?, if_neg (by grind), if_neg (by grind), if_neg (by grind), if_neg (by grind),
    if_neg (by grind), if_pos rfl]

/-- What answers at an address is a handler of the table. -/
theorem has_of_find? {h : Handlers σ} {a second : UInt64} {f : Handler σ}
    (hfind : h.find? t a second = some f) : t.Has a := by
  refine Classical.byContradiction fun hnone => ?_
  simp only [Has, fixed, List.mem_append, List.mem_cons, List.not_mem_nil, or_false,
    Option.mem_toList, not_or, not_exists] at hnone
  obtain ⟨⟨⟨hgeneric, hadvance, hresolve, hreport⟩, hnotify⟩, hinterpret⟩ := hnone
  rw [find?, if_neg hgeneric, if_neg hadvance, if_neg hresolve, if_neg hreport,
    if_neg (Ne.symm hnotify), if_neg (hinterpret _)] at hfind
  cases hfind

end Handlers

/-! ## Code without branches -/

namespace Insn

/-- Whether an instruction goes on with the one behind it and does not look at where it is. -/
def isPlain : Insn → Bool
  | ret | callReg _ | call _ | jmpReg _ | jmp _ | jcc _ _ | int3 => false
  | _ => true

/-- Plain instructions have no target. -/
theorem target?_of_isPlain {i : Insn} (h : i.isPlain) : i.target? = none := by
  cases i <;> first | rfl | cases h

/-- A branch has one target, so changing it depends on what becomes of that one. -/
theorem mapTarget_congr {i : Insn} {f g : UInt64 → UInt64}
    (h : ∀ t, i.target? = some t → f t = g t) : i.mapTarget f = i.mapTarget g := by
  cases i <;> first | rfl | exact congrArg _ (h _ rfl)

@[simp] theorem mapTarget_id (i : Insn) : i.mapTarget id = i := by
  cases i <;> rfl

/-- Moving targets leaves plain instructions alone. -/
theorem mapTarget_of_isPlain {i : Insn} (h : i.isPlain) (f : UInt64 → UInt64) :
    i.mapTarget f = i := by
  cases i <;> first | rfl | cases h

end Insn

/-- Testing the budget does not branch. -/
theorem isPlain_testDowncount (staticAlloc : Bool) : (testDowncount staticAlloc).isPlain := by
  cases staticAlloc <;> rfl

namespace Cpu

theorem load_goTo (c : Cpu) (a : UInt64) (m : Mem) : (c.goTo a).load m = c.load m := rfl

/-- A store does not depend on where the processor is. -/
theorem store_goTo (c : Cpu) (a : UInt64) (m : Mem) (v : UInt32) :
    (c.goTo a).store m v = (c.store m v).map (·.goTo a) := by
  have hmem : (c.goTo a).context.store? ((c.goTo a).address m - contextBase).toNat v =
      c.context.store? (c.address m - contextBase).toNat v := rfl
  rw [store, store, hmem]
  cases c.context.store? (c.address m - contextBase).toNat v <;> rfl

/-- A plain instruction does the same wherever it stands. -/
theorem exec_goTo {i : Insn} (h : i.isPlain) (c : Cpu) (a : UInt64) :
    (c.goTo a).exec i = (c.exec i).map (·.goTo a) := by
  -- plain instructions do not read the instruction pointer
  cases i with
  | load32 dst src =>
    simp only [exec, load_goTo]
    cases c.load src <;> rfl
  | ldmxcsr src =>
    simp only [exec, load_goTo]
    cases c.load src <;> rfl
  | store32 dst src => exact store_goTo c a dst _
  | store32i dst imm => exact store_goTo c a dst imm
  | stmxcsr dst => exact store_goTo c a dst c.mxcsr
  | alu32 op dst src => cases op <;> rfl
  | alu32i op dst imm => cases op <;> rfl
  | alu64i op dst imm => cases op <;> rfl
  | shift32 op dst count =>
    simp only [exec]
    split <;> rfl
  | test32mi left imm =>
    simp only [exec, load_goTo]
    cases c.load left <;> rfl
  | alu32m op dst src =>
    simp only [exec, load_goTo]
    cases c.load dst with
    | error f => rfl
    | ok v => cases op <;> first | rfl | exact store_goTo { c with flags := _ } a dst _
  | alu32mi op dst imm =>
    simp only [exec, load_goTo]
    cases c.load dst with
    | error f => rfl
    | ok v => cases op <;> first | rfl | exact store_goTo { c with flags := _ } a dst _
  | ret | callReg | call | jmpReg | jmp | jcc | int3 => cases h
  | mov32 | mov32i | mov64 | mov64i | test32 | test8i | test64 | push | pop => rfl

/-- Carries out instructions one after the other, without regard to where they are. -/
def execList : List Insn → Cpu → Except Fault Cpu
  | [], c => .ok c
  | i :: is, c => (c.exec i).bind (execList is)

/-- An instruction that goes well is followed by the rest. -/
theorem execList_cons_of_ok {i : Insn} {is : List Insn} {c d e : Cpu} (hi : c.exec i = .ok d)
    (his : execList is d = .ok e) : execList (i :: is) c = .ok e := by
  rw [execList, hi]
  exact his

/-- Instructions go well if the first one does and the rest does behind it. -/
theorem execList_cons_eq_ok {i : Insn} {is : List Insn} {c e : Cpu} :
    execList (i :: is) c = .ok e ↔ ∃ d, c.exec i = .ok d ∧ execList is d = .ok e := by
  rw [execList]
  cases c.exec i with
  | error f => simp [Except.bind]
  | ok d => simp [Except.bind]

/-- Instructions in two parts are carried out one part after the other. -/
theorem execList_append (is js : List Insn) (c : Cpu) :
    execList (is ++ js) c = (execList is c).bind (execList js) := by
  induction is generalizing c with
  | nil => rfl
  | cons i is ih =>
    simp only [List.cons_append, execList]
    cases c.exec i with
    | error f => rfl
    | ok d => exact ih d

/-- Code in two parts is carried out part by part. -/
theorem execList_append_of_ok {is js : List Insn} {c d e : Cpu} (his : execList is c = .ok d)
    (hjs : execList js d = .ok e) : execList (is ++ js) c = .ok e := by
  rw [execList_append, his]
  exact hjs

end Cpu

/-! ## Steps -/

namespace Jit

open CodeCache Lower

variable {σ : Type}

/-- One step of a run that is not over. -/
def Step (j : Jit) (h : Handlers σ) (x y : Cpu × σ) : Prop :=
  x.1.ip ≠ returnAddress ∧ j.runStep j.decodeAt h x.1 x.2 = .ok y

/-- Any number of steps. -/
abbrev Reach (j : Jit) (h : Handlers σ) : Cpu × σ → Cpu × σ → Prop :=
  Relation.ReflTransGen (j.Step h)

/-- A step has one outcome. -/
theorem Step.unique {j : Jit} {h : Handlers σ} {x y z : Cpu × σ} (hy : j.Step h x y)
    (hz : j.Step h x z) : y = z :=
  Except.ok.inj (hy.2.symm.trans hz.2)

/-- From one state, a run comes to its end in another. -/
def Finishes (j : Jit) (h : Handlers σ) (x y : Cpu × σ) : Prop :=
  j.Reach h x y ∧ y.1.ip = returnAddress

namespace Finishes

variable {j : Jit} {h : Handlers σ} {x y z : Cpu × σ}

/-- A run that is over stays where it is. -/
theorem eq_of_returned (hx : x.1.ip = returnAddress) (hreach : j.Reach h x y) : y = x := by
  rcases hreach.cases_head with rfl | ⟨_, hstep, -⟩
  · rfl
  · exact absurd hx hstep.1

/-- A run comes to its end from wherever it has got. -/
theorem of_reach (hfinishes : j.Finishes h x z) (hreach : j.Reach h x y) : j.Finishes h y z := by
  have hunique : Relator.RightUnique (j.Step h) := fun _ _ _ => Step.unique
  rcases Relation.ReflTransGen.total_of_right_unique hunique hreach hfinishes.1 with hyz | hzy
  · exact ⟨hyz, hfinishes.2⟩
  · obtain rfl := eq_of_returned hfinishes.2 hzy
    exact ⟨.refl, hfinishes.2⟩

/-- A run comes to one end. -/
theorem unique (hy : j.Finishes h x y) (hz : j.Finishes h x z) : y = z :=
  eq_of_returned hz.2 (hz.of_reach hz.1 |>.1.trans (hy.of_reach hz.1).1)

/-- A run that comes to its end does not go on for ever. -/
theorem acc (hfinishes : j.Finishes h x y) :
    Acc (Relation.TransGen (Function.swap (j.Step h))) x := by
  obtain ⟨hreach, hip⟩ := hfinishes
  refine Acc.transGen ?_
  -- Steps are unique, so that every way on is the one that comes to the end.
  induction hreach using Relation.ReflTransGen.head_induction_on with
  | refl => exact ⟨_, fun _ hstep => absurd hip hstep.1⟩
  | head hstep _ ih => exact ⟨_, fun _ hstep' => hstep.unique hstep' ▸ ih⟩

end Finishes

/-- A run that ends has come to its end by steps. -/
theorem finishes_of_runFrom {j : Jit} {h : Handlers σ} {fuel : Nat} {x y : Cpu × σ}
    (hrun : j.runFrom j.decodeAt h fuel x.1 x.2 = .finished y.1 y.2) : j.Finishes h x y := by
  induction fuel generalizing x with
  | zero => cases hrun
  | succ fuel ih =>
    rw [runFrom] at hrun
    split at hrun
    · rename_i hip
      obtain ⟨hcpu, hstate⟩ := RunEnd.finished.inj hrun
      obtain rfl : x = y := Prod.ext hcpu hstate
      exact ⟨.refl, hip⟩
    · rename_i hip
      split at hrun
      · rename_i c s hstep
        obtain ⟨hreach, hreturned⟩ := ih (x := (c, s)) hrun
        exact ⟨.head ⟨hip, hstep⟩ hreach, hreturned⟩
      · cases hrun

/-- Steps that come to an end are a run, if it may take enough of them. -/
theorem Finishes.exists_runFrom {j : Jit} {h : Handlers σ} {x y : Cpu × σ}
    (hfinishes : j.Finishes h x y) :
    ∃ fuel, j.runFrom j.decodeAt h fuel x.1 x.2 = .finished y.1 y.2 := by
  obtain ⟨hreach, hip⟩ := hfinishes
  induction hreach using Relation.ReflTransGen.head_induction_on with
  | refl => exact ⟨1, by rw [runFrom, if_pos hip]⟩
  | head hstep _ ih =>
    obtain ⟨fuel, hrun⟩ := ih
    refine ⟨fuel + 1, ?_⟩
    rw [runFrom, if_neg hstep.1, hstep.2]
    exact hrun

/-- A state of the processor comes to an end in steps exactly if the run from it does. -/
theorem exists_runEntered_eq_finished {j : Jit} {h : Handlers σ} {e : Cpu} {s : σ} {y : Cpu × σ} :
    (∃ fuel, j.runEntered h fuel e s = .finished y.1 y.2) ↔ j.Finishes h (e, s) y := by
  simp only [runEntered, decodeTabled_eq]
  exact ⟨fun ⟨_, hrun⟩ => finishes_of_runFrom hrun, Finishes.exists_runFrom⟩

/-- What a state must satisfy for code and handlers to be told apart: the region is not larger than
a branch can reach, and no handler is in it. -/
structure Separated (j : Jit) : Prop where
  size_le : j.code.size ≤ 2 ^ 31
  separate : j.table.Separate j.code.size

/-- No code is at the address that the dispatcher returns to. -/
theorem addressOf_ne_returnAddress {offset : Nat} (h : offset ≤ 2 ^ 31) :
    addressOf offset ≠ returnAddress := by
  intro heq
  have := congrArg UInt64.toNat heq
  rw [toNat_addressOf h] at this
  simp [codeBase, returnAddress] at this

/-- The instruction in front of held code is decoded there. -/
theorem decodeAt_of_holds {j : Jit} (hsize : j.code.size ≤ 2 ^ 31) {offset : Nat} {i : Insn}
    {is : List Insn} (hcode : j.code.Holds offset (i :: is)) :
    j.decodeAt (addressOf offset) = some (i, i.size) := by
  have hin := hcode.inside
  have hpos := i.size_pos
  have hmax := i.size_le
  simp only [Insn.codeSize_cons] at hin
  have hoff : j.code.offsetOf? (addressOf offset) = some offset :=
    offsetOf?_addressOf hsize (by omega)
  have hi := hcode.encode?_head
  -- the bytes that are read: the instruction, and what the window holds behind it
  have hread : j.code.bytes offset (min maxInsnLen (j.code.size - offset)) =
      j.code.bytes offset i.size ++ j.code.bytes (offset + i.size)
        (min maxInsnLen (j.code.size - offset) - i.size) := by
    have hsum : min maxInsnLen (j.code.size - offset) =
        i.size + (min maxInsnLen (j.code.size - offset) - i.size) := by
      simp only [maxInsnLen]
      omega
    rw [← bytes_append (by simp only [maxInsnLen]; omega), ← hsum]
  have hfetch : j.fetch (addressOf offset) =
      j.code.bytes offset i.size ++ j.code.bytes (offset + i.size)
        (min maxInsnLen (j.code.size - offset) - i.size) := by
    rw [← hread, fetch, hoff]
    simp only [CodeCache.bytes]
    congr 2
    omega
  rw [decodeAt, hfetch, Insn.decode?_of_encode? hi]
  simp [length_bytes (show offset + i.size ≤ j.code.size by omega)]

/-- The processor at the start of held code carries out its first instruction. -/
theorem step_of_holds {j : Jit} (hj : j.Separated) (h : Handlers σ) {offset : Nat} {i : Insn}
    {is : List Insn} (hcode : j.code.Holds offset (i :: is)) {c d : Cpu}
    (hexec : (c.goTo (addressOf (offset + i.size))).exec i = .ok d) (s : σ) :
    j.Step h (c.goTo (addressOf offset), s) (d, s) := by
  have hin := hcode.inside
  have hpos := i.size_pos
  have hsize := hj.size_le
  simp only [Insn.codeSize_cons] at hin
  refine ⟨addressOf_ne_returnAddress (by omega), ?_⟩
  have hfind := h.find?_addressOf hj.separate hsize (show offset < j.code.size by omega)
    ((c.goTo (addressOf offset)).reg Gpr.arg2)
  have hdec := decodeAt_of_holds hsize hcode
  simp only [runStep, Cpu.ip_goTo, hfind, Cpu.step, hdec]
  rw [Cpu.goTo_goTo, ← addressOf_add, hexec]
  rfl

/-- A conditional branch goes to its target or to what stands behind it. -/
theorem step_jcc {j : Jit} (hj : j.Separated) (h : Handlers σ) {offset : Nat} {cond : Cond}
    {a : UInt64} {is : List Insn} (hcode : j.code.Holds offset (.jcc cond a :: is)) (c : Cpu)
    (s : σ) :
    j.Step h (c.goTo (addressOf offset), s)
      (c.goTo (if c.flags.holds cond then a
        else addressOf (offset + (Insn.jcc cond a).size)), s) := by
  refine step_of_holds hj h hcode ?_ s
  show Except.ok (if c.flags.holds cond then _ else _) = _
  split <;> rfl

/-- A call that has arrived at a handler with an argument that it takes is answered by it. -/
theorem step_handler {j : Jit} {h : Handlers σ} {a : UInt64} {f : Handler σ} {c : Cpu}
    (ha : a ≠ returnAddress) (hfind : h.find? j.table a (c.reg Gpr.arg2) = some f)
    (hfirst : j.table.Accepts a (c.reg Gpr.arg1)) (s : σ) :
    j.Step h (c.goTo a, s)
      ((c.goTo a).afterCall (f c.mxcsr c.context s), (f c.mxcsr c.context s).state) := by
  refine ⟨ha, ?_⟩
  rw [runStep, Cpu.ip_goTo, Cpu.reg_goTo, Cpu.reg_goTo, hfind]
  exact if_pos hfirst

/-! ## Where a run goes

A run that goes through a piece of code is at its own instructions, in the fixed routines or at
handlers on the way, and does not come back to where the code starts. -/

/-- The fixed routines with their labels. -/
def fixedItems (j : Jit) : List Item :=
  Stubs.items j.config.staticAlloc j.table

/-- The number of bytes of the fixed routines. -/
def routinesLen (j : Jit) : Nat :=
  (j.fixedItems.map Item.size).sum

/-- An address in the fixed routines, or that of a handler. -/
def Shared (j : Jit) (a : UInt64) : Prop :=
  (∃ o < j.routinesLen, a = addressOf o) ∨ j.table.Has a

/-- A shared address, or one in the code from an offset up to another. -/
def Within (j : Jit) (lo hi : Nat) (a : UInt64) : Prop :=
  j.Shared a ∨ ∃ o, lo ≤ o ∧ o < hi ∧ a = addressOf o

/-- Any number of steps from addresses that satisfy `P`. -/
def ReachFrom (j : Jit) (h : Handlers σ) (P : UInt64 → Prop) : Cpu × σ → Cpu × σ → Prop :=
  Relation.ReflTransGen fun x y => j.Step h x y ∧ P x.1.ip

/-- Any number of steps through the code from an offset up to another. -/
def Through (j : Jit) (h : Handlers σ) (lo hi : Nat) : Cpu × σ → Cpu × σ → Prop :=
  Relation.ReflTransGen fun x y =>
    j.Step h x y ∧ j.Within lo hi x.1.ip ∧ j.Within (lo + 1) (hi + 1) y.1.ip

section Ways

variable {j : Jit} {h : Handlers σ} {P P' : UInt64 → Prop} {lo hi lo' hi' : Nat} {x y z : Cpu × σ}

/-- An offset between two others is between them as an address. -/
theorem within_addressOf {o : Nat} (hlow : lo ≤ o) (hhigh : o < hi) :
    j.Within lo hi (addressOf o) :=
  .inr ⟨o, hlow, hhigh, rfl⟩

/-- What is in a range of code is in every larger range. -/
theorem Within.mono {a : UInt64} (ha : j.Within lo hi a) (hlow : lo' ≤ lo) (hhigh : hi ≤ hi') :
    j.Within lo' hi' a := by
  rcases ha with hshared | ⟨o, hlo, hhi, rfl⟩
  · exact .inl hshared
  · exact within_addressOf (Nat.le_trans hlow hlo) (Nat.lt_of_lt_of_le hhi hhigh)

/-- Steps from certain addresses are steps. -/
theorem ReachFrom.reach (hreach : j.ReachFrom h P x y) : j.Reach h x y :=
  Relation.ReflTransGen.mono (fun _ _ hstep => hstep.1) _ _ hreach

/-- Steps from certain addresses are steps from any that include them. -/
theorem ReachFrom.mono (hreach : j.ReachFrom h P x y) (hp : ∀ a, P a → P' a) :
    j.ReachFrom h P' x y :=
  Relation.ReflTransGen.mono (fun _ _ hstep => ⟨hstep.1, hp _ hstep.2⟩) _ _ hreach

/-- Going through code is taking steps. -/
theorem Through.reach (hthrough : j.Through h lo hi x y) : j.Reach h x y :=
  Relation.ReflTransGen.mono (fun _ _ hstep => hstep.1) _ _ hthrough

/-- What goes through code goes through every larger range of it. -/
theorem Through.mono (hthrough : j.Through h lo hi x y) (hlow : lo' ≤ lo) (hhigh : hi ≤ hi') :
    j.Through h lo' hi' x y :=
  Relation.ReflTransGen.mono (fun _ _ hstep => ⟨hstep.1, hstep.2.1.mono hlow hhigh,
    hstep.2.2.mono (Nat.succ_le_succ hlow) (Nat.succ_le_succ hhigh)⟩) _ _ hthrough

/-- What goes through code twice goes through it. -/
theorem Through.trans (hxy : j.Through h lo hi x y) (hyz : j.Through h lo hi y z) :
    j.Through h lo hi x z :=
  Relation.ReflTransGen.trans hxy hyz

/-- The way through code in two parts. -/
theorem Through.append {mid : Nat} (hxy : j.Through h lo mid x y) (hyz : j.Through h mid hi y z)
    (hlow : lo ≤ mid) (hhigh : mid ≤ hi) : j.Through h lo hi x z :=
  (hxy.mono (Nat.le_refl _) hhigh).trans (hyz.mono hlow (Nat.le_refl _))

/-- A way through shared code and back is a way through the code that it comes back to. -/
theorem ReachFrom.through (hreach : j.ReachFrom h j.Shared x y)
    (hy : j.Within (lo + 1) (hi + 1) y.1.ip) :
    j.Within (lo + 1) (hi + 1) x.1.ip ∧ j.Through h lo hi x y := by
  induction hreach using Relation.ReflTransGen.head_induction_on with
  | refl => exact ⟨hy, .refl⟩
  | head hstep _ ih => exact ⟨.inl hstep.2, .head ⟨hstep.1, .inl hstep.2, ih.1⟩ ih.2⟩

end Ways

/-- Straight code is carried out as a list. -/
theorem through_of_execList {j : Jit} (hj : j.Separated) (h : Handlers σ) {offset : Nat}
    {is : List Insn} (hcode : j.code.Holds offset is) (hplain : ∀ i ∈ is, i.isPlain) {c d : Cpu}
    (hexec : Cpu.execList is c = .ok d) (s : σ) :
    j.Through h offset (offset + codeSize is) (c.goTo (addressOf offset), s)
      (d.goTo (addressOf (offset + codeSize is)), s) := by
  induction is generalizing c offset with
  | nil =>
    obtain rfl : c = d := Except.ok.inj hexec
    exact .refl
  | cons i is ih =>
    obtain ⟨e, hi, his⟩ := Cpu.execList_cons_eq_ok.mp hexec
    have hpos := i.size_pos
    have hstep : j.Step h (c.goTo (addressOf offset), s)
        (e.goTo (addressOf (offset + i.size)), s) := by
      refine step_of_holds hj h hcode ?_ s
      rw [Cpu.exec_goTo (hplain i List.mem_cons_self), hi]
      rfl
    have hrest := ih hcode.tail (fun k hk => hplain k (List.mem_cons_of_mem i hk)) his
    rw [Insn.codeSize_cons, ← Nat.add_assoc]
    exact .head ⟨hstep, within_addressOf (Nat.le_refl _) (by omega),
      within_addressOf (by omega) (by omega)⟩ (hrest.mono (by omega) (Nat.le_refl _))

/-! ## Running code to its end

`Runs` is about code that is run from its start to its end, `Calls` about code that is called and
returns.  Both say that the end is reached, in a state that satisfies a condition, and by which way;
neither says where the code is. -/

/-- Wherever this code is held, it is run to its end, in a state that satisfies `Q`. -/
def Runs (j : Jit) (h : Handlers σ) (is : List Insn) (c : Cpu) (s : σ) (Q : Cpu → σ → Prop) :
    Prop :=
  ∀ offset, j.code.Holds offset is → ∃ d t,
    j.Through h offset (offset + codeSize is) (c.goTo (addressOf offset), s)
      (d.goTo (addressOf (offset + codeSize is)), t) ∧ Q d t

/-- A call to an address returns to its caller, in a state that satisfies `Q`. -/
def Calls (j : Jit) (h : Handlers σ) (a : UInt64) (c : Cpu) (s : σ) (Q : Cpu → σ → Prop) : Prop :=
  ∀ back, ∃ d t, j.ReachFrom h j.Shared ((c.push back).goTo a, s) (d.goTo back, t) ∧ Q d t

section Runs

variable {j : Jit} {h : Handlers σ} {c : Cpu} {s : σ} {P Q : Cpu → σ → Prop}

theorem Runs.nil (hq : Q c s) : j.Runs h [] c s Q :=
  fun _ _ => ⟨c, s, .refl, hq⟩

/-- Code in two parts is run part by part. -/
theorem Runs.append {is js : List Insn} (his : j.Runs h is c s P)
    (hjs : ∀ d t, P d t → j.Runs h js d t Q) : j.Runs h (is ++ js) c s Q := by
  intro offset hcode
  obtain ⟨d, t, hfirst, hp⟩ := his offset hcode.left
  obtain ⟨e, u, hsecond, hq⟩ := hjs d t hp _ hcode.right
  rw [Insn.codeSize_append, ← Nat.add_assoc]
  exact ⟨e, u, hfirst.append hsecond (Nat.le_add_right _ _) (Nat.le_add_right _ _), hq⟩

/-- Code that comes to an end with a property comes to it with a weaker one. -/
theorem Runs.mono {is : List Insn} (his : j.Runs h is c s P) (hpq : ∀ d t, P d t → Q d t) :
    j.Runs h is c s Q := by
  intro offset hcode
  obtain ⟨d, t, hthrough, hp⟩ := his offset hcode
  exact ⟨d, t, hthrough, hpq d t hp⟩

/-- Straight code is run by evaluating it. -/
theorem Runs.plain (hj : j.Separated) {is : List Insn} (hplain : ∀ i ∈ is, i.isPlain) {d : Cpu}
    (hexec : Cpu.execList is c = .ok d) (hq : Q d s) : j.Runs h is c s Q :=
  fun _ hcode => ⟨d, s, through_of_execList hj h hcode hplain hexec s, hq⟩

/-- An instruction that calls is run by running what it calls. -/
theorem Runs.of_calls (hj : j.Separated) {i : Insn} {a : UInt64}
    (hexec : ∀ back, (c.goTo back).exec i = .ok ((c.push back).goTo a))
    (hcall : j.Calls h a c s Q) : j.Runs h [i] c s Q := by
  intro offset hcode
  have hpos := i.size_pos
  have hstep := step_of_holds hj h hcode (hexec _) s
  rw [Insn.codeSize_cons, Insn.codeSize_nil, Nat.add_zero]
  obtain ⟨d, t, hreach, hq⟩ := hcall (addressOf (offset + i.size))
  have hback : j.Within (offset + 1) (offset + i.size + 1) (addressOf (offset + i.size)) :=
    within_addressOf (by omega) (by omega)
  obtain ⟨hin, hthrough⟩ := hreach.through hback
  exact ⟨d, t, .head ⟨hstep, within_addressOf (Nat.le_refl _) (by omega), hin⟩ hthrough, hq⟩

/-- A call of a routine is run by running the routine. -/
theorem Runs.call (hj : j.Separated) {a : UInt64} (hcall : j.Calls h a c s Q) :
    j.Runs h [.call a] c s Q :=
  .of_calls hj (fun _ => rfl) hcall

/-- A call by way of a register is run by running what the register points at. -/
theorem Runs.callReg (hj : j.Separated) {r : Gpr} (hcall : j.Calls h (c.reg r) c s Q) :
    j.Runs h [.callReg r] c s Q :=
  .of_calls hj (fun _ => rfl) hcall

end Runs

end Jit

end Dynarec
