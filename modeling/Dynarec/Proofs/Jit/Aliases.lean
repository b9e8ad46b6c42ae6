import Dynarec.Proofs.Ir.Canonical
import Dynarec.Proofs.Jit.HandlerCalls

/-!
# Register numbers modulo 32

A slot is a byte, but the guest has 32 registers: slots that are equal modulo 32 name one register.
Reducing the register slots of a block does not change what the block says (`Block.eval_reduced`),
nor, for the most part, what its code does.  The exception is arithmetic on two registers whose
destination is the second source by another number and not the first: its code carries out the
instruction with the first source in both places (`Inst.carriedOut`).

So the code of a block acts like the code of the block that is carried out, with slots reduced
(`Jit.Acts.eq_of_reduced`), and where no instruction loses its second source, this is the block
itself with slots reduced.  Instructions that handlers carry out are given to them as they stand,
and so are not reduced.
-/

namespace Dynarec

open Lower Dynarec.Action CodeCache

variable {σ : Type}

/-! ## Reducing slots -/

namespace Inst

/-- The slot at a position, modulo 32 if it names a general-purpose register. -/
def reducedSlot (i : Inst) (k : Nat) (slot : UInt8) : UInt8 :=
  if (OperandKind.slotted i.op.signature)[k]? = some .gpr then slot % 32 else slot

/-- The instruction with register slots modulo 32, unless a handler carries it out. -/
def reduced (i : Inst) : Inst :=
  if i.op.callsHandler then i
  else
    { i with
      dest := i.reducedSlot 0 i.dest
      src1 := i.reducedSlot 1 i.src1
      src2 := i.reducedSlot 2 i.src2 }

variable {i : Inst} {h : Handlers σ} {notifies : Bool}

@[simp] theorem op_reduced (i : Inst) : i.reduced.op = i.op := by
  rw [reduced]
  split <;> rfl

@[simp] theorem constant_reduced (i : Inst) : i.reduced.constant = i.constant := by
  rw [reduced]
  split <;> rfl

/-- Slots modulo 32 are below 32. -/
theorem slot_mod_lt (slot : UInt8) : slot % 32 < 32 := by
  rw [UInt8.lt_iff_toNat_lt, UInt8.toNat_mod]
  exact Nat.mod_lt _ (by decide)

/-- Register slots are below 32 once they are reduced. -/
theorem gprOperands_reduced_lt (hnative : i.op.callsHandler = false) :
    ∀ r ∈ i.reduced.gprOperands, r < 32 := by
  rw [gprOperands, op_reduced, reduced, hnative]
  cases hop : i.op <;>
    simp [slots, reducedSlot, hop, Opcode.signature, OperandKind.slotted, gprsIn, slot_mod_lt]

/-- Reduced instructions are carried out as they stand. -/
theorem carriedOut_reduced (i : Inst) : i.reduced.carriedOut = i.reduced := by
  cases hnative : i.op.callsHandler with
  | false => exact carriedOut_of_slots (gprOperands_reduced_lt hnative)
  | true =>
    refine carriedOut_of_not_binary ?_
    rw [op_reduced]
    cases hop : i.op <;> rw [hop] at hnative <;> first | rfl | cases hnative

/-- A slot names the same register before and after. -/
theorem regIndex_reducedSlot (i : Inst) (k : Nat) (slot : UInt8) :
    Context.regIndex (i.reducedSlot k slot) = Context.regIndex slot := by
  rw [reducedSlot]
  split
  · refine Fin.ext ?_
    simp only [Context.regIndex, UInt8.toNat_mod]
    exact Nat.mod_mod _ 32
  · rfl

theorem regIndex_dest_reduced (i : Inst) :
    Context.regIndex i.reduced.dest = Context.regIndex i.dest := by
  rw [reduced]
  split
  · rfl
  · exact i.regIndex_reducedSlot 0 i.dest

theorem regIndex_src2_reduced (i : Inst) :
    Context.regIndex i.reduced.src2 = Context.regIndex i.src2 := by
  rw [reduced]
  split
  · rfl
  · exact i.regIndex_reducedSlot 2 i.src2

/-- A reduced instruction reads the same first source. -/
theorem reg_src1_reduced (i : Inst) (c : Context) : c.reg i.reduced.src1 = c.reg i.src1 := by
  refine congrArg c.gpr.get ?_
  rw [reduced]
  split
  · rfl
  · exact i.regIndex_reducedSlot 1 i.src1

/-- It reads the same second source. -/
theorem reg_src2_reduced (i : Inst) (c : Context) : c.reg i.reduced.src2 = c.reg i.src2 :=
  congrArg c.gpr.get i.regIndex_src2_reduced

/-- It writes the same destination. -/
theorem setReg_reduced (i : Inst) (c : Context) (v : UInt32) :
    c.setReg i.reduced.dest v = c.setReg i.dest v := by
  simp only [Context.setReg, regIndex_dest_reduced]

/-- It computes the same value. -/
theorem value?_reduced (i : Inst) (c : Context) : i.reduced.value? c = i.value? c := by
  have hamount : i.reduced.shiftAmount = i.shiftAmount :=
    congrArg (fun k : Fin 32 => UInt32.ofNat k.val) i.regIndex_src2_reduced
  rw [value?, op_reduced, constant_reduced, reg_src1_reduced, reg_src2_reduced, hamount]
  rfl

/-- It exits under the same condition. -/
theorem taken_reduced (i : Inst) (c : Context) : i.reduced.taken c = i.taken c := by
  rw [taken, op_reduced, reg_src1_reduced, reg_src2_reduced]
  rfl

/-- Reducing slots does not change what an instruction says. -/
theorem eval_reduced (i : Inst) (g : Guest σ) :
    i.reduced.eval h notifies g = i.eval h notifies g := by
  cases hnative : i.op.callsHandler with
  | true => rw [reduced, if_pos hnative]
  | false =>
    rw [eval, eval, op_reduced, constant_reduced]
    cases hop : i.op <;> rw [hop] at hnative <;> first | cases hnative; done | skip
    all_goals
      simp only [Guest.reg, Guest.setReg, reg_src1_reduced, value?_reduced, taken_reduced,
        setReg_reduced]

/-- Reducing slots does not change what instructions do. -/
theorem evalList_reduced (is : List Inst) (g : Guest σ) :
    evalList h notifies (is.map reduced) g = evalList h notifies is g := by
  induction is generalizing g with
  | nil => rfl
  | cons i is ih =>
    rw [List.map_cons, evalList, evalList, eval_reduced]
    cases i.eval h notifies g with
    | mk g₁ leave =>
      cases leave with
      | none => exact ih g₁
      | some leave => rfl

theorem exitDest?_reduced (i : Inst) : i.reduced.exitDest? = i.exitDest? := by
  rw [exitDest?, op_reduced, constant_reduced]
  rfl

/-! ## The instruction that leaves -/

/-- The guest leaves a list of instructions by the one at a position. -/
structure LeavesAt (h : Handlers σ) (notifies : Bool) (is : List Inst) (g : Guest σ) (index : Nat)
    (i : Inst) (g' : Guest σ) (leave : Leave) : Prop where
  inst : is[index]? = some i
  leaves : ∃ g₁, evalList h notifies (is.take index) g = (g₁, none) ∧
    i.eval h notifies g₁ = (g', some leave)

variable {is : List Inst} {g g' : Guest σ} {leave : Leave}

/-- The instruction that leaves at the front is the first one. -/
theorem leavesAt_zero {x : Inst} (hleaves : LeavesAt h notifies (i :: is) g 0 x g' leave) :
    x = i ∧ i.eval h notifies g = (g', some leave) := by
  obtain rfl : i = x := Option.some.inj hleaves.inst
  obtain ⟨g₁, hbefore, heval⟩ := hleaves.leaves
  cases hbefore
  exact ⟨rfl, heval⟩

/-- To leave further on, the guest gets past the first instruction. -/
theorem leavesAt_succ {x : Inst} {index : Nat}
    (hleaves : LeavesAt h notifies (i :: is) g (index + 1) x g' leave) :
    ∃ g₁, i.eval h notifies g = (g₁, none) ∧ LeavesAt h notifies is g₁ index x g' leave := by
  obtain ⟨g₂, hbefore, heval⟩ := hleaves.leaves
  rw [List.take_succ_cons, evalList] at hbefore
  split at hbefore
  · cases hbefore
  · rename_i g₁ hstays
    exact ⟨g₁, hstays, hleaves.inst, g₂, hbefore, heval⟩

/-- Where the guest leaves is where the list as a whole leaves. -/
theorem evalList_of_leavesAt {x : Inst} {index : Nat}
    (hleaves : LeavesAt h notifies is g index x g' leave) :
    evalList h notifies is g = (g', some leave) := by
  induction is generalizing g index with
  | nil => cases hleaves.inst
  | cons i is ih =>
    rw [evalList]
    cases index with
    | zero => rw [(leavesAt_zero hleaves).2]
    | succ index =>
      obtain ⟨g₁, hstays, hrest⟩ := leavesAt_succ hleaves
      rw [hstays]
      exact ih hrest

/-- At most one instruction leaves. -/
theorem leavesAt_unique {x x' : Inst} {a b : Nat} {g'' : Guest σ} {leave' : Leave}
    (hleaves : LeavesAt h notifies is g a x g' leave)
    (hleaves' : LeavesAt h notifies is g b x' g'' leave') : a = b := by
  induction is generalizing g a b with
  | nil => cases hleaves.inst
  | cons i is ih =>
    cases a with
    | zero =>
      cases b with
      | zero => rfl
      | succ b =>
        obtain ⟨g₁, hstays, -⟩ := leavesAt_succ hleaves'
        cases hstays.symm.trans (leavesAt_zero hleaves).2
    | succ a =>
      obtain ⟨g₁, hstays, hrest⟩ := leavesAt_succ hleaves
      cases b with
      | zero => cases hstays.symm.trans (leavesAt_zero hleaves').2
      | succ b =>
        obtain ⟨g₂, hstays', hrest'⟩ := leavesAt_succ hleaves'
        cases hstays.symm.trans hstays'
        exact congrArg (· + 1) (ih hrest hrest')

/-- Reduced instructions are left where they were left before. -/
theorem LeavesAt.of_reduced {x : Inst} {index : Nat}
    (hleaves : LeavesAt h notifies (is.map reduced) g index x g' leave) :
    ∃ i, x = i.reduced ∧ LeavesAt h notifies is g index i g' leave := by
  obtain ⟨g₁, hbefore, heval⟩ := hleaves.leaves
  have hinst := hleaves.inst
  rw [List.getElem?_map] at hinst
  obtain ⟨i, hi, rfl⟩ := Option.map_eq_some_iff.mp hinst
  rw [← List.map_take, evalList_reduced] at hbefore
  rw [eval_reduced] at heval
  exact ⟨i, rfl, hi, g₁, hbefore, heval⟩

end Inst

namespace Block

/-- The block with register slots modulo 32. -/
def reduced (b : Block) : Block :=
  { b with insts := b.insts.map Inst.reduced }

/-- A block with reduced slots is carried out as it stands. -/
theorem carriedOut_reduced (b : Block) : b.reduced.carriedOut = b.reduced := by
  refine carriedOut_eq fun i hi => ?_
  obtain ⟨i, -, rfl⟩ := List.mem_map.mp hi
  exact i.carriedOut_reduced

/-- Reducing slots does not change what a block says. -/
theorem eval_reduced {h : Handlers σ} {notifies : Bool} (b : Block) (g : Guest σ) :
    b.reduced.eval h notifies g = b.eval h notifies g :=
  Inst.evalList_reduced b.insts g

/-- So is a block of which no instruction loses its second source. -/
theorem carriedOut_of_not {b : Block} (hkeeps : ∀ i ∈ b.insts, ¬i.losesRight) :
    b.carriedOut = b :=
  carriedOut_eq fun i hi => Inst.carriedOut_of_not (hkeeps i hi)

end Block

/-! ## What the code of a block does -/

namespace Jit

/-- How the code of a block leaves it: by the instruction at which position, how the guest leaves
there, and where the machine goes on. -/
structure Departure where
  index : Nat
  leave : Leave
  ip : UInt64

/-- What the code of a block does to the guest in memory, entered at its target: it leaves the block
with the guest in memory, or comes to the end of the block in step with the guest.  The guest goes
with the block that is carried out, so that code acts in one way only. -/
inductive Acts (k : Jit) (linked : UInt32 → Option UInt64) (h : Handlers σ) (b : Block) (n : Native)
    (c : Cpu) (s : σ) : Option Departure → Guest σ → Prop
  | leaves {ps : List Piece} {index : Nat} {p : Piece} {g : Guest σ} {leave : Leave} {y : Cpu × σ}
    (hps : blockPieces k.lowerEnv b n.target = some ps)
    (hout : k.CarriesOut linked h b.carriedOut ps (c.guest k.config.staticAlloc s)
      (c.goTo (addressOf n.target), s) index p g leave y) :
    Acts k linked h b n c s (some { index, leave, ip := y.1.ip }) g
  | ends {ps : List Piece} {g : Guest σ} {m : RegMap} {y : Cpu × σ}
    (hps : blockPieces k.lowerEnv b n.target = some ps)
    (heval : b.carriedOut.eval h k.notifies (c.guest k.config.staticAlloc s) = (g, none))
    (hends : k.EndsAt h c (endOf k.config n.target ps) (c.goTo (addressOf n.target), s) g m y) :
    Acts k linked h b n c s none g

variable {j k k' : Jit} {h : Handlers σ} {num : Nat} {b : Block} {n n' : Native} {ps : List Piece}

/-- Whether the notify handler is called depends on configuration and handlers. -/
theorem notifies_eq (hconfig : k'.config = k.config) (htable : k'.table = k.table) :
    k'.notifies = k.notifies := by
  rw [notifies, hconfig, htable]
  rfl

/-- The code of a block acts in some way. -/
theorem acts_of_compiled (hj : j.Ready) (hseparate : j.table.Separate j.code.size)
    (hc : Compiled j k num b n ps) (h : Handlers σ) {c : Cpu}
    (hbase : c.reg Gpr.context = contextBase) (s : σ) :
    ∃ exit g, k.Acts j.exitTarget h b n c s exit g := by
  have hrunnable := Compiled.runnable hj hseparate hc
  have hran := ran_carriedOut (h := h) hrunnable.separated hrunnable.installed hrunnable.far
    hrunnable.pieces hrunnable.leads (Cpu.synced_guest k.config.staticAlloc hbase s)
  generalize houtcome : b.carriedOut.eval h k.notifies (c.guest k.config.staticAlloc s) = outcome
    at hran
  cases hran with
  | @leaves index p g leave y hleaves =>
    obtain ⟨z, hto, hip, hfrom⟩ := hleaves.passes
    have hp : p ∈ ps := List.mem_of_getElem? hleaves.piece
    obtain ⟨d, hreach, hsync, hdeparts⟩ := departs_of_left (h := h) hrunnable.separated hc.stubs
      (hc.written.held p hp).site hleaves.synced hleaves.left y.2
    refine ⟨_, g, .leaves (y := (d, y.2)) hrunnable.pieces ⟨hleaves.piece, hleaves.inst,
      hleaves.leaves, ⟨z, hto, hip, hfrom.trans hreach⟩, ?_, hdeparts⟩⟩
    rw [hleaves.state]
    exact hsync.guest_eq
  | @ends g m y hends => exact ⟨none, g, .ends hrunnable.pieces houtcome hends⟩

/-- It acts as the block that is carried out says. -/
theorem Acts.eval_eq {linked : UInt32 → Option UInt64} {c : Cpu} {s : σ} {exit : Option Departure}
    {g : Guest σ} (hacts : k.Acts linked h b n c s exit g) :
    b.carriedOut.eval h k.notifies (c.guest k.config.staticAlloc s) = (g, exit.map (·.leave)) := by
  cases hacts with
  | leaves _ hout => exact Inst.evalList_of_leavesAt ⟨hout.inst, hout.leaves⟩
  | ends _ heval => exact heval

/-- Where the machine goes on when an instruction with an exit site for `dest` leaves. -/
def goesOn (k : Jit) (linked : UInt32 → Option UInt64) (dest : Option UInt32) : Leave → UInt64
  | .toAddress _ => (dest.bind linked).getD k.stubs.dispatcherPc
  | .toPc => k.stubs.checkCoreState

/-- The machine goes on where links and stubs send it. -/
theorem Departs.ip_eq {linked : UInt32 → Option UInt64} {i : Inst} {c : Cpu} {leave : Leave}
    (hdeparts : k.Departs linked i c leave) : c.ip = k.goesOn linked i.exitDest? leave := by
  cases hdeparts with
  | linked hdest hlinked hip =>
    rw [hip, goesOn, hdest, Option.bind_some, hlinked, Option.getD_some]
  | dispatcher hlinked hip _ => rw [hip, goesOn, hlinked, Option.getD_none]
  | toPc hip => exact hip

/-- The code of a block and that of what it carries out, with slots reduced, act in the same way. -/
theorem Acts.eq_of_reduced (hconfig : k'.config = k.config) (htable : k'.table = k.table)
    (hstubs : k'.stubs = k.stubs) {linked : UInt32 → Option UInt64} {c : Cpu} {s : σ}
    {exit exit' : Option Departure} {g g' : Guest σ} (hacts : k.Acts linked h b n c s exit g)
    (hacts' : k'.Acts linked h b.carriedOut.reduced n' c s exit' g') : exit' = exit ∧ g' = g := by
  have hnotifies := notifies_eq hconfig htable
  have heval := hacts'.eval_eq
  rw [Block.carriedOut_reduced, Block.eval_reduced, hnotifies, hconfig, hacts.eval_eq] at heval
  obtain ⟨hguest, hleave⟩ := Prod.mk.inj heval
  refine ⟨?_, hguest.symm⟩
  cases hacts with
  | ends => exact Option.map_eq_none_iff.mp hleave.symm
  | @leaves ps index p g leave y _ hout =>
    cases hacts' with
    | ends => cases hleave
    | @leaves ps' index' p' g' leave' y' _ hout' =>
      obtain rfl : leave = leave' := Option.some.inj hleave
      -- both are left by an instruction of the block that is carried out
      have hleaves : Inst.LeavesAt h k'.notifies b.carriedOut.reduced.carriedOut.insts
          (c.guest k'.config.staticAlloc s) index' p'.inst g' leave := ⟨hout'.inst, hout'.leaves⟩
      rw [Block.carriedOut_reduced, hnotifies, hconfig] at hleaves
      obtain ⟨i, hreduced, hleaves'⟩ := hleaves.of_reduced
      obtain rfl := Inst.leavesAt_unique ⟨hout.inst, hout.leaves⟩ hleaves'
      obtain rfl : p.inst = i := Option.some.inj (hout.inst.symm.trans hleaves'.inst)
      have hip : y'.1.ip = y.1.ip := by
        rw [hout'.departs.ip_eq, hout.departs.ip_eq, hreduced, Inst.exitDest?_reduced]
        cases leave with
        | toAddress pc => rw [goesOn, goesOn, hstubs]
        | toPc => rw [goesOn, goesOn, hstubs]
      rw [hip]

/-! ## Blocks with reduced slots -/

/-- The same state with another block under a number. -/
def withBlock (j : Jit) (num : Nat) (b : Block) : Jit :=
  { j with blocks := j.blocks.modify num ({ · with block := b }) }

/-- The entry of the number has the other block. -/
theorem get?_withBlock {entry : BlockEntry} (hentry : j.blocks.get? num = some entry) (b : Block) :
    (j.withBlock num b).blocks.get? num = some { entry with block := b } := by
  have hget : j.blocks.entries[num]? = some entry := hentry
  show (j.blocks.entries.modify num _)[num]? = _
  rw [Array.getElem?_modify, if_pos rfl, hget]
  rfl

/-- Register numbers act modulo 32, but for one slip.  Whatever block is compiled, from whatever
state that is ready, with whatever settings and slots, its code has the same effect as the code that
the block with its native register slots reduced is compiled to in its place, where in arithmetic
that loses its second source this is the first source.  Entered from the same machine, both

* leave by the instruction at the same position, in the same way and for the same address, with the
  same guest in memory: registers, program counter, downcount and the calls of handlers;
* or come to the end of the block in step with the same guest.

If no instruction of the block loses its second source, the block that is carried out is the block
itself. -/
theorem slots_act_modulo_32 (hj : j.Ready) (hseparate : j.table.Separate j.code.size)
    {preload : Bool} {entry : BlockEntry} (hentry : j.blocks.get? num = some entry)
    (hcompile : compileBlock num preload j = .ok ⟨⟩ k)
    (hcompile' : compileBlock num preload (j.withBlock num entry.block.carriedOut.reduced) =
      .ok ⟨⟩ k') :
    ∃ n n', k.links.native? num = some n ∧ k'.links.native? num = some n' ∧
      (∀ (h : Handlers σ) (s : σ × List Call) (c : Cpu), c.reg Gpr.context = contextBase →
        ∃ exit g, k.Acts j.exitTarget h.recorded entry.block n c s exit g ∧
          k'.Acts j.exitTarget h.recorded entry.block.carriedOut.reduced n' c s exit g) ∧
      ((∀ i ∈ entry.block.insts, ¬i.losesRight) → entry.block.carriedOut = entry.block) := by
  have hj' : (j.withBlock num entry.block.carriedOut.reduced).Ready := hj.setBlocks _
  obtain ⟨e, n, ps, he, hc⟩ := compileBlock_spec hj.reaches hj.high hj.size_le hj.draft hcompile
  obtain ⟨e', n', ps', he', hc'⟩ := compileBlock_spec hj'.reaches hj'.high hj'.size_le hj'.draft
    hcompile'
  obtain rfl : entry = e := Option.some.inj (hentry.symm.trans he)
  obtain rfl := Option.some.inj ((get?_withBlock hentry _).symm.trans he')
  refine ⟨n, n', ?_, ?_, fun h s c hbase => ?_, Block.carriedOut_of_not⟩
  · rw [hc.links, Links.native?_foldl_addExit, Links.native?_setNative, if_pos rfl]
  · rw [hc'.links, Links.native?_foldl_addExit, Links.native?_setNative, if_pos rfl]
  obtain ⟨exit, g, hacts⟩ := acts_of_compiled hj hseparate hc h.recorded hbase s
  obtain ⟨exit', g', hacts'⟩ := acts_of_compiled hj' hseparate hc' h.recorded hbase s
  obtain ⟨rfl, rfl⟩ := hacts.eq_of_reduced (hc'.config.trans hc.config.symm)
    (hc'.table.trans hc.table.symm) (hc'.stubs.trans hc.stubs.symm) hacts'
  exact ⟨exit', g', hacts, hacts'⟩

/-- A block that takes register 1 from register 2 under other numbers, and leaves for one address if
the difference is zero and for another if it is not. -/
def aliasBlock : Block where
  start := 0x1000
  insts :=
    [{ op := .sub, dest := 33, src1 := 66, src2 := 1 },
     { op := .exitIfEq, src1 := 65, src2 := 96, constant := 0x2000 },
     { op := .exitToConst, constant := 0x3000 }]

/-- A machine with 3 and 10 in the registers 1 and 2 of the guest. -/
def aliasCpu : Cpu :=
  ({ ip := 0, context := (({} : Context).setReg 1 3).setReg 2 10 } : Cpu).setReg Gpr.context
    contextBase

/-- Handlers that do nothing but record their calls. -/
def aliasHandlers : Handlers (Unit × List Call) :=
  (Handlers.default fun _ s => s).recorded

/-- What is carried out finds the difference to be zero, and so takes the conditional exit. -/
theorem eval_carriedOut_aliasBlock : ∀ notifies staticAlloc : Bool,
    let outcome := aliasBlock.carriedOut.eval aliasHandlers notifies
      (aliasCpu.guest staticAlloc ((), []))
    outcome.1.reg 1 = 0 ∧ outcome.2 = some (.toAddress 0x2000) := by
  decide +kernel

/-- The block as it stands finds it to be 7, and takes the exit behind it. -/
theorem eval_aliasBlock : ∀ notifies staticAlloc : Bool,
    let outcome := aliasBlock.eval aliasHandlers notifies (aliasCpu.guest staticAlloc ((), []))
    outcome.1.reg 1 = 7 ∧ outcome.2 = some (.toAddress 0x3000) := by
  decide +kernel

/-- A fresh state, in which the block is registered and can be compiled, and so can another in its
place. -/
theorem exists_compiled_aliasBlock {b : Block}
    (hruns : succeeds (create {} .default {}) (fun j _ =>
      succeeds (compileBlock 0 false { j with blocks := (Blocks.empty.add aliasBlock).2 })
        (fun _ _ => true) &&
      succeeds (compileBlock 0 false (Jit.withBlock
        { j with blocks := (Blocks.empty.add aliasBlock).2 } 0 b)) fun _ _ => true) = true) :
    ∃ j k k' : Jit, j.Ready ∧ j.table.Separate j.code.size ∧
      j.blocks.get? 0 = some { block := aliasBlock } ∧ compileBlock 0 false j = .ok ⟨⟩ k ∧
      compileBlock 0 false (j.withBlock 0 b) = .ok ⟨⟩ k' := by
  obtain ⟨j, host, hcreate, htests⟩ := exists_of_succeeds hruns
  rw [Bool.and_eq_true] at htests
  obtain ⟨_, k, hcompile, -⟩ := exists_of_succeeds htests.1
  obtain ⟨_, k', hcompile', -⟩ := exists_of_succeeds htests.2
  have hcreated := create_spec hcreate
  have hseparate : j.table.Separate j.code.size := by
    rw [hcreated.sameTable]
    exact HandlerTable.separate_default hcreated.size_le
  exact ⟨_, k, k', hcreated.ready.setBlocks (Blocks.empty.add aliasBlock).2, hseparate, rfl,
    hcompile, hcompile'⟩

/-- The code of the block and that of what it carries out both find the difference to be zero. -/
theorem slots_act_modulo_32_aliasBlock :
    ∃ j k k' : Jit, j.Ready ∧ j.table.Separate j.code.size ∧
      j.blocks.get? 0 = some { block := aliasBlock } ∧ compileBlock 0 false j = .ok ⟨⟩ k ∧
      compileBlock 0 false (j.withBlock 0 aliasBlock.carriedOut.reduced) = .ok ⟨⟩ k' ∧
      ∃ (n n' : Native) (exit : Option Departure) (g : Guest (Unit × List Call)),
        k.Acts j.exitTarget aliasHandlers aliasBlock n aliasCpu ((), []) exit g ∧
        k'.Acts j.exitTarget aliasHandlers aliasBlock.carriedOut.reduced n' aliasCpu ((), []) exit
          g ∧
        g.reg 1 = 0 ∧ exit.map (·.leave) = some (.toAddress 0x2000) := by
  obtain ⟨j, k, k', hj, hseparate, hentry, hcompile, hcompile'⟩ :=
    exists_compiled_aliasBlock (b := aliasBlock.carriedOut.reduced) (by decide +kernel)
  obtain ⟨n, n', -, -, hsame, -⟩ := slots_act_modulo_32 hj hseparate hentry hcompile hcompile'
  obtain ⟨exit, g, hacts, hacts'⟩ := hsame (Handlers.default fun _ s => s) ((), []) aliasCpu rfl
  have heval : aliasBlock.carriedOut.eval aliasHandlers k.notifies _ = _ := hacts.eval_eq
  have hvalue := eval_carriedOut_aliasBlock k.notifies k.config.staticAlloc
  rw [heval] at hvalue
  exact ⟨j, k, k', hj, hseparate, hentry, hcompile, hcompile', n, n', exit, g, hacts, hacts',
    hvalue⟩

/-- Reducing the slots of this block changes what its code does: register 1 is 7 instead of 0, and
the code leaves for another address. -/
theorem reducing_slots_changes_exit :
    ∃ j k k' : Jit, j.Ready ∧ j.table.Separate j.code.size ∧
      j.blocks.get? 0 = some { block := aliasBlock } ∧ compileBlock 0 false j = .ok ⟨⟩ k ∧
      compileBlock 0 false (j.withBlock 0 aliasBlock.reduced) = .ok ⟨⟩ k' ∧
      ∃ (n n' : Native) (exit exit' : Option Departure) (g g' : Guest (Unit × List Call)),
        k.Acts j.exitTarget aliasHandlers aliasBlock n aliasCpu ((), []) exit g ∧
        k'.Acts j.exitTarget aliasHandlers aliasBlock.reduced n' aliasCpu ((), []) exit' g' ∧
        (g.reg 1 = 0 ∧ exit.map (·.leave) = some (.toAddress 0x2000)) ∧
        g'.reg 1 = 7 ∧ exit'.map (·.leave) = some (.toAddress 0x3000) := by
  obtain ⟨j, k, k', hj, hseparate, hentry, hcompile, hcompile'⟩ :=
    exists_compiled_aliasBlock (b := aliasBlock.reduced) (by decide +kernel)
  have hj' : (j.withBlock 0 aliasBlock.reduced).Ready := hj.setBlocks _
  obtain ⟨e, n, ps, he, hc⟩ := compileBlock_spec hj.reaches hj.high hj.size_le hj.draft hcompile
  obtain ⟨e', n', ps', he', hc'⟩ := compileBlock_spec hj'.reaches hj'.high hj'.size_le hj'.draft
    hcompile'
  obtain rfl := Option.some.inj (hentry.symm.trans he)
  obtain rfl := Option.some.inj ((get?_withBlock hentry _).symm.trans he')
  obtain ⟨exit, g, hacts⟩ := acts_of_compiled (c := aliasCpu) hj hseparate hc aliasHandlers rfl
    ((), [])
  obtain ⟨exit', g', hacts'⟩ :=
    acts_of_compiled (c := aliasCpu) hj' hseparate hc' aliasHandlers rfl ((), [])
  have hvalue := eval_carriedOut_aliasBlock k.notifies k.config.staticAlloc
  have hvalue' := eval_aliasBlock k'.notifies k'.config.staticAlloc
  rw [hacts.eval_eq] at hvalue
  rw [← Block.eval_reduced, ← Block.carriedOut_reduced, hacts'.eval_eq] at hvalue'
  exact ⟨j, k, k', hj, hseparate, hentry, hcompile, hcompile', n, n', exit, exit', g, g', hacts,
    hacts', hvalue, hvalue'⟩

end Jit

end Dynarec
