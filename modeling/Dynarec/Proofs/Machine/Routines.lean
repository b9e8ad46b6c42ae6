import Dynarec.Machine.Meaning
import Dynarec.Proofs.Code.Placed
import Dynarec.Proofs.Machine.Steps

/-!
# What calls do

Compiled blocks call fixed routines and handlers.  `Cpu.Effect` is what such a call leaves behind:
the registers that it may have changed, the guest context and the control word after it, and below
the stack pointer nothing but the word that held the return address.

Shape of the argument: the fixed routines are written with labels, so they are followed item by item
(`Jit.Follows`), from the label at which they are entered (`Installed.follow`).  For each routine
that blocks call there is one theorem on its `Jit.Calls`: `calls_saveStatic`, `calls_loadStatic`,
`calls_restoreRounding`, `calls_applyRounding`; and `calls_handler` for a handler.
-/

namespace Dynarec

namespace Cpu

/-- The stack pointer is the same, and of the stack only the word below it has changed. -/
structure SameFrame (c d : Cpu) : Prop where
  pointer : d.reg Gpr.rsp = c.reg Gpr.rsp
  words : ∀ a, a ≠ c.reg Gpr.rsp - 8 → d.stack.getD a 0 = c.stack.getD a 0

theorem SameFrame.refl (c : Cpu) : c.SameFrame c := ⟨rfl, fun _ _ => rfl⟩

/-- What keeps the frame twice keeps it. -/
theorem SameFrame.trans {c d e : Cpu} (h : c.SameFrame d) (h' : d.SameFrame e) : c.SameFrame e :=
  ⟨h'.pointer.trans h.pointer, fun a ha =>
    (h'.words a (by rw [h.pointer]; exact ha)).trans (h.words a ha)⟩

/-- What code leaves behind, apart from the flags. -/
structure Effect (c d : Cpu) (changed : List Gpr) (context : Context) (mxcsr : UInt32) : Prop where
  regs : ∀ r, r ∉ changed → d.reg r = c.reg r
  context : d.context = context
  mxcsr : d.mxcsr = mxcsr
  frame : c.SameFrame d

/-- A register that is not among the changed ones has the word that it had. -/
theorem Effect.reg32 {c d : Cpu} {rs : List Gpr} {x : Context} {m : UInt32}
    (h : c.Effect d rs x m) {r : Gpr} (hr : r ∉ rs) : d.reg32 r = c.reg32 r := by
  rw [Cpu.reg32, h.regs r hr, Cpu.reg32]

/-- Returning to the caller undoes a call, as far as the caller can see. -/
theorem effect_of_return {c d : Cpu} {back : UInt64} {rs : List Gpr}
    (hregs : ∀ r, r ∉ rs → d.reg r = (c.push back).reg r) (hstack : d.stack = (c.push back).stack)
    (hrsp : Gpr.rsp ∉ rs) : c.Effect d.drop rs d.context d.mxcsr := by
  have hpointer : d.drop.reg Gpr.rsp = c.reg Gpr.rsp := by
    rw [reg_drop_rsp, hregs _ hrsp, reg_push_rsp, UInt64.sub_add_cancel]
  refine ⟨fun r hr => ?_, rfl, rfl, hpointer, fun a ha => ?_⟩
  · by_cases h : r = Gpr.rsp
    · rw [h, hpointer]
    · rw [reg_drop_of_ne h, hregs r hr, reg_push_of_ne h]
  · rw [stack_drop, hstack, getD_stack_push, if_neg ha]

/-- The word on top of the stack of a called routine is where it returns to. -/
theorem top_of_called {c d : Cpu} {back : UInt64} (hrsp : d.reg Gpr.rsp = (c.push back).reg Gpr.rsp)
    (hstack : d.stack = (c.push back).stack) : d.top = back := by
  rw [top, hrsp, hstack, getD_stack_push, if_pos (reg_push_rsp c back)]

end Cpu

namespace Cpu

/-! ## The calling convention -/

/-- Setting registers leaves those that are not in the list. -/
theorem reg_foldl_setReg (f : Gpr → UInt64) {gs : List Gpr} {r : Gpr} (h : r ∉ gs) (c : Cpu) :
    (gs.foldl (fun c g => c.setReg g (f g)) c).reg r = c.reg r := by
  induction gs generalizing c with
  | nil => rfl
  | cons g gs ih =>
    rw [List.mem_cons, not_or] at h
    rw [List.foldl_cons, ih h.2, reg_setReg_of_ne h.1]

/-- Setting registers changes registers only. -/
theorem foldl_setReg_eq (f : Gpr → UInt64) (gs : List Gpr) (c : Cpu) :
    ∃ regs, gs.foldl (fun c g => c.setReg g (f g)) c = { c with regs } := by
  induction gs generalizing c with
  | nil => exact ⟨c.regs, rfl⟩
  | cons g gs ih =>
    obtain ⟨regs, heq⟩ := ih (c.setReg g (f g))
    exact ⟨regs, heq⟩

variable {σ : Type}

/-- What a handler that was called with a return address leaves behind. -/
theorem effect_afterCall (c : Cpu) (back a : UInt64) (r : Reply σ) :
    let d := ((c.push back).goTo a).afterCall r
    d.ip = back ∧ c.Effect d (Gpr.rax :: callerSaved) r.context c.mxcsr ∧
      d.reg Gpr.rax = r.answer := by
  obtain ⟨regs, heq⟩ := foldl_setReg_eq r.residue callerSaved ((c.push back).goTo a)
  have hkept : ∀ g, g ∉ callerSaved → regs.get g = (c.push back).reg g := by
    intro g hg
    have hreg := reg_foldl_setReg r.residue hg ((c.push back).goTo a)
    rw [heq] at hreg
    exact hreg
  -- the state after the handler, before it returns
  let e : Cpu := ({ (c.push back).goTo a with regs } : Cpu).setReg Gpr.rax r.answer
  have hregs : ∀ g, g ∉ Gpr.rax :: callerSaved → e.reg g = (c.push back).reg g := by
    intro g hg
    rw [List.mem_cons, not_or] at hg
    rw [reg_setReg_of_ne hg.1]
    exact hkept g hg.2
  have heffect := effect_of_return hregs rfl (by decide)
  have hcall : ((c.push back).goTo a).afterCall r =
      { e.drop.goTo e.top with context := r.context, flags := {} } := by
    rw [afterCall, heq]
  simp only [hcall]
  refine ⟨top_of_called (hregs _ (by decide)) rfl, ?_, ?_⟩
  · exact ⟨heffect.regs, rfl, rfl, heffect.frame.pointer, heffect.frame.words⟩
  · show e.drop.reg Gpr.rax = r.answer
    rw [reg_drop_of_ne (by decide), reg_setReg_self]

end Cpu

namespace Rounding

/-! ## Bits of the rounding mode -/

/-- A mask with the lowest bit set keeps the lowest bit. -/
theorem and_odd_mod_two (a : Nat) {b : Nat} (h : b % 2 = 1) : (a &&& b) % 2 = a % 2 := by
  rw [← Nat.and_one_is_mod, Nat.and_assoc, Nat.and_one_is_mod b, h, Nat.and_one_is_mod]

/-- Shifted into place, the control bit for flushing to zero is gone. -/
theorem guestBits_shift (f : UInt32) :
    (f &&& Stubs.guestRoundingBits) <<< 13 = (f &&& 3) <<< 13 := by
  apply UInt32.toBitVec_inj.mp
  have hbits : Stubs.guestRoundingBits.toBitVec = 3#32 ||| 0x01000000#32 := by decide
  have hgone : 0x01000000#32 <<< (13 : Nat) = 0#32 := by decide
  simp only [UInt32.toBitVec_shiftLeft, UInt32.toBitVec_and, hbits]
  show (f.toBitVec &&& (3#32 ||| 0x01000000#32)) <<< (13 : Nat) =
    (f.toBitVec &&& 3#32) <<< (13 : Nat)
  rw [BitVec.shiftLeft_and_distrib, BitVec.shiftLeft_or_distrib, hgone, BitVec.or_zero,
    ← BitVec.shiftLeft_and_distrib]

/-- The low bit of the mode is the low bit of the control word. -/
theorem oddMode_iff (f : UInt32) :
    (f &&& Stubs.guestRoundingBits).toUInt64.toUInt8 &&& 1 = 0 ↔ (f &&& 3) &&& 1 = 0 := by
  have hbyte : ((f &&& Stubs.guestRoundingBits).toUInt64.toUInt8 &&& 1).toNat = f.toNat % 2 := by
    simp only [Stubs.guestRoundingBits, UInt8.toNat_and, UInt64.toNat_toUInt8,
      UInt32.toNat_toUInt64, UInt32.toNat_and, UInt8.toNat_one, Nat.and_one_is_mod]
    rw [Nat.mod_mod_of_dvd _ (by decide), and_odd_mod_two _ (by decide)]
  have hword : ((f &&& 3) &&& 1).toNat = f.toNat % 2 := by
    simp only [UInt32.toNat_and, UInt32.toNat_one, Nat.and_one_is_mod]
    rw [and_odd_mod_two _ (by decide)]
  rw [← UInt8.toNat_inj, ← UInt32.toNat_inj, hbyte, hword]
  simp

end Rounding

namespace Jit

open CodeCache Lower

variable {σ : Type}

/-! ## Following items -/

/-- Wherever these items are placed, running them leads to a state that satisfies `Q`. -/
def Follows (j : Jit) (h : Handlers σ) (resolve : UInt64 → UInt64) (items : List Item) (c : Cpu)
    (s : σ) (Q : Cpu → σ → Prop) : Prop :=
  ∀ offset, Item.Placed j.code resolve offset items →
    ∃ d t, j.ReachFrom h (j.Within offset (offset + (items.map Item.size).sum))
      (c.goTo (addressOf offset), s) (d, t) ∧ Q d t

/-- Running on from an address, in shared code, leads to a state that satisfies `Q`. -/
def Leads (j : Jit) (h : Handlers σ) (a : UInt64) (c : Cpu) (s : σ) (Q : Cpu → σ → Prop) : Prop :=
  ∃ d t, j.ReachFrom h j.Shared (c.goTo a, s) (d, t) ∧ Q d t

section Follows

variable {j : Jit} {h : Handlers σ} {resolve : UInt64 → UInt64} {items : List Item} {c d : Cpu}
  {s : σ} {P Q : Cpu → σ → Prop}

/-- The first instruction of items that are followed. -/
theorem Follows.insn (hj : j.Separated) {i : Insn} {offset : Nat}
    (hplaced : Item.Placed j.code resolve offset (.insn i :: items))
    (hexec : (c.goTo (addressOf (offset + i.size))).exec (i.mapTarget resolve) = .ok d)
    (hrest : ∃ e t, j.ReachFrom h
      (j.Within offset (offset + ((Item.insn i :: items).map Item.size).sum)) (d, s) (e, t) ∧
        Q e t) :
    ∃ e t, j.ReachFrom h (j.Within offset (offset + ((Item.insn i :: items).map Item.size).sum))
      (c.goTo (addressOf offset), s) (e, t) ∧ Q e t := by
  obtain ⟨e, t, hreach, hq⟩ := hrest
  have hsize : (i.mapTarget resolve).size = i.size := Insn.size_mapTarget ..
  have hpos := i.size_pos
  have hstep : j.Step h (c.goTo (addressOf offset), s) (d, s) :=
    step_of_holds hj h hplaced.1 (by rw [hsize]; exact hexec) s
  refine ⟨e, t, .head ⟨hstep, within_addressOf (Nat.le_refl _) ?_⟩ hreach, hq⟩
  rw [List.map_cons, List.sum_cons, Item.size]
  omega

/-- Items behind an instruction are followed in what is placed with it. -/
theorem Follows.tail {i : Insn} {offset : Nat}
    (hplaced : Item.Placed j.code resolve offset (.insn i :: items))
    (hrest : j.Follows h resolve items c s Q) :
    ∃ e t, j.ReachFrom h (j.Within offset (offset + ((Item.insn i :: items).map Item.size).sum))
      (c.goTo (addressOf (offset + i.size)), s) (e, t) ∧ Q e t := by
  obtain ⟨e, t, hreach, hq⟩ := hrest _ hplaced.2
  refine ⟨e, t, hreach.mono fun _ ha => ha.mono (by omega) ?_, hq⟩
  rw [List.map_cons, List.sum_cons, Item.size]
  omega

/-- Going to an address that leads somewhere is going there from any code. -/
theorem Leads.within {a : UInt64} (hto : j.Leads h a c s Q) (lo hi : Nat) :
    ∃ e t, j.ReachFrom h (j.Within lo hi) (c.goTo a, s) (e, t) ∧ Q e t := by
  obtain ⟨e, t, hreach, hq⟩ := hto
  exact ⟨e, t, hreach.mono fun _ => .inl, hq⟩

/-- A plain instruction is carried out, and the items behind it are followed. -/
theorem Follows.step (hj : j.Separated) {i : Insn} (hplain : i.isPlain) (hexec : c.exec i = .ok d)
    (hrest : j.Follows h resolve items d s Q) : j.Follows h resolve (.insn i :: items) c s Q := by
  intro offset hplaced
  refine Follows.insn hj hplaced ?_ (hrest.tail hplaced)
  rw [Insn.mapTarget_of_isPlain hplain, Cpu.exec_goTo hplain, hexec]
  rfl

/-- Plain instructions are carried out, and the items behind them are followed. -/
theorem Follows.steps (hj : j.Separated) {is : List Insn} (hplain : ∀ i ∈ is, i.isPlain)
    (hexec : Cpu.execList is c = .ok d) (hrest : j.Follows h resolve items d s Q) :
    j.Follows h resolve (is.map .insn ++ items) c s Q := by
  induction is generalizing c with
  | nil =>
    obtain rfl : c = d := Except.ok.inj hexec
    exact hrest
  | cons i is ih =>
    obtain ⟨e, hi, his⟩ := Cpu.execList_cons_eq_ok.mp hexec
    exact .step hj (hplain i List.mem_cons_self) hi
      (ih (fun k hk => hplain k (List.mem_cons_of_mem i hk)) his)

/-- A label is passed. -/
theorem Follows.mark {l : Label} (hrest : j.Follows h resolve items c s Q) :
    j.Follows h resolve (.mark l :: items) c s Q := by
  intro offset hplaced
  rw [List.map_cons, List.sum_cons, Item.size, Nat.zero_add]
  exact hrest offset hplaced.2

/-- A jump goes where its target leads. -/
theorem Follows.jmp (hj : j.Separated) {a : UInt64} (hto : j.Leads h (resolve a) c s Q) :
    j.Follows h resolve (.insn (.jmp a) :: items) c s Q :=
  fun _ hplaced => Follows.insn hj hplaced rfl (hto.within _ _)

/-- A branch goes where its target leads if it is taken, and on otherwise. -/
theorem Follows.jcc (hj : j.Separated) {cond : Cond} {a : UInt64}
    (htaken : c.flags.holds cond → j.Leads h (resolve a) c s Q)
    (hrest : c.flags.holds cond = false → j.Follows h resolve items c s Q) :
    j.Follows h resolve (.insn (.jcc cond a) :: items) c s Q := by
  intro offset hplaced
  refine Follows.insn hj hplaced rfl ?_
  rw [Cpu.flags_goTo]
  cases hcond : c.flags.holds cond with
  | true => exact (htaken hcond).within _ _
  | false => exact (hrest hcond).tail hplaced

/-- A return goes to the address on top of the stack. -/
theorem Follows.ret (hj : j.Separated) (hq : Q (c.drop.goTo c.top) s) :
    j.Follows h resolve (.insn .ret :: items) c s Q :=
  fun _ hplaced => Follows.insn hj hplaced rfl ⟨_, s, .refl, hq⟩

/-- What is called returns to the items behind the call. -/
theorem Follows.of_calls (hj : j.Separated) {i : Insn} {a : UInt64}
    (hexec : ∀ back, (c.goTo back).exec (i.mapTarget resolve) = .ok ((c.push back).goTo a))
    (hcall : j.Calls h a c s P) (hrest : ∀ d t, P d t → j.Follows h resolve items d t Q) :
    j.Follows h resolve (.insn i :: items) c s Q := by
  intro offset hplaced
  refine Follows.insn hj hplaced (hexec _) ?_
  obtain ⟨d, t, hreach, hp⟩ := hcall (addressOf (offset + i.size))
  obtain ⟨e, u, hreach', hq⟩ := (hrest d t hp).tail hplaced
  exact ⟨e, u, (hreach.mono fun _ => .inl).trans hreach', hq⟩

/-- A call comes back with what it promises, and the items behind it are followed. -/
theorem Follows.call (hj : j.Separated) {a : UInt64} (hcall : j.Calls h (resolve a) c s P)
    (hrest : ∀ d t, P d t → j.Follows h resolve items d t Q) :
    j.Follows h resolve (.insn (.call a) :: items) c s Q :=
  .of_calls hj (fun _ => rfl) hcall hrest

/-- So does a call through a register. -/
theorem Follows.callReg (hj : j.Separated) {r : Gpr} (hcall : j.Calls h (c.reg r) c s P)
    (hrest : ∀ d t, P d t → j.Follows h resolve items d t Q) :
    j.Follows h resolve (.insn (.callReg r) :: items) c s Q :=
  .of_calls hj (fun _ => rfl) hcall hrest

/-- A jump through a register goes where its address leads. -/
theorem Follows.jmpReg (hj : j.Separated) {r : Gpr} (hto : j.Leads h (c.reg r) c s Q) :
    j.Follows h resolve (.insn (.jmpReg r) :: items) c s Q :=
  fun _ hplaced => Follows.insn hj hplaced rfl (hto.within _ _)

/-- Code in the cache is followed as it stands. -/
theorem reachFrom_of_follows {offset : Nat} {is : List Insn} (hheld : j.code.Holds offset is)
    (hf : j.Follows h id (is.map .insn) c s Q) :
    ∃ d t, j.ReachFrom h (j.Within offset (offset + codeSize is)) (c.goTo (addressOf offset), s)
      (d, t) ∧ Q d t := by
  have hplaced : Item.Placed j.code id offset (is.map .insn) := by
    clear hf
    induction is generalizing offset with
    | nil => trivial
    | cons i is ih =>
      have hsplit : j.code.Holds offset ([i] ++ is) := hheld
      exact ⟨i.mapTarget_id.symm ▸ hsplit.left, ih hheld.tail⟩
  have hsize : ((is.map Item.insn).map Item.size).sum = codeSize is := by
    clear hf hheld hplaced
    induction is with
    | nil => rfl
    | cons i is ih =>
      rw [List.map_cons, List.map_cons, List.sum_cons, ih]
      rfl
  rw [← hsize]
  exact hf offset hplaced

end Follows

end Jit

/-! ## The fixed routines in the cache -/

namespace Item

/-- The items behind a label. -/
def after? (l : Label) : List Item → Option (List Item)
  | [] => none
  | i :: is => if i = mark l then some is else after? l is

/-- The items behind a label are those behind its mark. -/
theorem eq_of_after? {l : Label} {items after : List Item} (h : after? l items = some after) :
    ∃ before, items = before ++ mark l :: after := by
  induction items with
  | nil => cases h
  | cons i is ih =>
    rw [after?] at h
    split at h
    · rename_i hi
      obtain rfl := Option.some.inj h
      exact ⟨[], by rw [hi]; rfl⟩
    · obtain ⟨before, rfl⟩ := ih h
      exact ⟨i :: before, rfl⟩

end Item

namespace Jit

open CodeCache Lower

variable {σ : Type}

/-- Where the labels of the fixed routines are. -/
def place (j : Jit) : UInt64 → UInt64 :=
  Item.resolve (addressOf 0) (Item.layout 0 j.fixedItems)

/-- The fixed routines are in the cache, where the state says they are. -/
structure Installed (j : Jit) : Prop where
  located :
    j.stubs = Stubs.locate (addressOf 0) j.config.staticAlloc j.table j.stubs.blocksStart
  held : j.code.Holds 0 (j.fixedItems.flatMap (Item.flatten j.place))

/-- The labels of the fixed routines are different from each other, and none is zero. -/
theorem nodup_symbols_fixedItems (j : Jit) : (0 :: Item.symbols j.fixedItems).Nodup := by
  cases hstatic : j.config.staticAlloc with
  | true =>
    have heq : Item.symbols j.fixedItems =
        [1, 2, 3, 4, 16, 17, 15, 5, 6, 7, 8, 9, 10, 11, 12, 13, 14] := by
      rw [fixedItems, hstatic]
      rfl
    rw [heq]
    decide
  | false =>
    have heq : Item.symbols j.fixedItems =
        [3, 4, 16, 17, 15, 5, 6, 7, 8, 9, 10, 11, 12, 13, 14] := by
      rw [fixedItems, hstatic]
      rfl
    rw [heq]
    decide

namespace Installed

variable {j : Jit} {h : Handlers σ} {c : Cpu} {s : σ} {Q : Cpu → σ → Prop}

/-- The fixed routines are in the cache where they were laid out. -/
theorem placed (hi : j.Installed) : Item.Placed j.code j.place 0 j.fixedItems :=
  Item.placed_of_holds j.nodup_symbols_fixedItems hi.held

/-- A routine is entered at its label. -/
theorem follow (hi : j.Installed) {l : Label} (rest : List Item)
    (hafter : ∃ after, Item.after? l j.fixedItems = some (rest ++ after))
    (hf : j.Follows h j.place rest c s Q) : j.Leads h (j.place l.symbol) c s Q := by
  obtain ⟨after, hafter⟩ := hafter
  obtain ⟨before, heq⟩ := Item.eq_of_after? hafter
  have hplaced := hi.placed
  have hlen : j.routinesLen = (j.fixedItems.map Item.size).sum := rfl
  rw [heq] at hplaced hlen
  obtain ⟨hl, hrest⟩ := (Item.placed_append.mp hplaced).2
  obtain ⟨d, t, hreach, hq⟩ := hf _ (Item.placed_append.mp hrest).1
  rw [List.map_append, List.sum_append, List.map_cons, List.sum_cons, List.map_append,
    List.sum_append] at hlen
  rw [hl]
  refine ⟨d, t, hreach.mono fun a ha => ?_, hq⟩
  rcases ha with hshared | ⟨o, -, hhigh, rfl⟩
  · exact hshared
  · exact .inl ⟨o, by omega, rfl⟩

/-- A label in front of an instruction is in front of the end of the fixed routines. -/
theorem place_lt (hi : j.Installed) {l : Label} {i : Insn}
    (hl : ∃ after, Item.after? l j.fixedItems = some (.insn i :: after)) :
    ∃ o < j.routinesLen, j.place l.symbol = addressOf o := by
  obtain ⟨after, hafter⟩ := hl
  obtain ⟨before, heq⟩ := Item.eq_of_after? hafter
  have hplaced := hi.placed
  rw [heq] at hplaced
  obtain ⟨hplace, -⟩ := (Item.placed_append.mp hplaced).2
  refine ⟨_, ?_, hplace⟩
  have hpos := i.size_pos
  rw [routinesLen, heq, List.map_append, List.sum_append, List.map_cons, List.map_cons,
    List.sum_cons, List.sum_cons]
  have hsize : (Item.insn i).size = i.size := rfl
  omega

/-- The state knows where the labels are. -/
theorem address_eq_place (j : Jit) {l : Label} (hl : (Item.after? l j.fixedItems).isSome) :
    addressOf 0 +
        UInt64.ofNat ((Item.offsetOf? (Item.layout 0 j.fixedItems) l.symbol).getD 0) =
      j.place l.symbol := by
  obtain ⟨after, hafter⟩ := Option.isSome_iff_exists.mp hl
  obtain ⟨before, heq⟩ := Item.eq_of_after? hafter
  have hmarks := j.nodup_symbols_fixedItems
  rw [heq, Item.symbols_append, Item.symbols, List.nodup_cons, List.nodup_append] at hmarks
  obtain ⟨hzero, -, hrest, hbefore⟩ := hmarks
  rw [List.nodup_cons] at hrest
  have hl0 : l.symbol ≠ 0 := by
    intro h0
    exact hzero (by simp [h0])
  have hoffset := Item.offsetOf?_mark
    (Item.symbol_ne_of_notMem hl0 fun hmem => hbefore _ hmem _ List.mem_cons_self rfl)
    (Item.symbol_ne_of_notMem hl0 hrest.1)
  rw [place, Item.resolve, heq, hoffset]
  rfl

/-- The address of a routine that there is only with a static register is its place, if there is
one. -/
theorem some_address_eq (j : Jit) {l : Label}
    (hl : j.config.staticAlloc = true → (Item.after? l j.fixedItems).isSome) :
    (if j.config.staticAlloc then some (addressOf 0 +
        UInt64.ofNat ((Item.offsetOf? (Item.layout 0 j.fixedItems) l.symbol).getD 0)) else none) =
      if j.config.staticAlloc then some (j.place l.symbol) else none := by
  split
  · rw [address_eq_place j (hl ‹_›)]
  · rfl

/-- The routines that move the downcount are there if it is kept in a register. -/
theorem saveStatic_eq (hi : j.Installed) :
    j.stubs.saveStatic =
      if j.config.staticAlloc then some (j.place Stubs.Routine.saveStatic.symbol) else none :=
  (congrArg Stubs.saveStatic hi.located).trans
    (some_address_eq j fun hstatic => by rw [fixedItems, hstatic]; rfl)

/-- Where the routine that loads the static register is, if there is one. -/
theorem loadStatic_eq (hi : j.Installed) :
    j.stubs.loadStatic =
      if j.config.staticAlloc then some (j.place Stubs.Routine.loadStatic.symbol) else none :=
  (congrArg Stubs.loadStatic hi.located).trans
    (some_address_eq j fun hstatic => by rw [fixedItems, hstatic]; rfl)

/-- Where the routine that restores the rounding mode of the host is. -/
theorem restoreRounding_eq (hi : j.Installed) :
    j.stubs.restoreRounding = j.place Stubs.Routine.restoreRounding.symbol :=
  (congrArg Stubs.restoreRounding hi.located).trans
    (address_eq_place j (by rw [fixedItems]; cases j.config.staticAlloc <;> rfl))

/-- Where the routine that applies the rounding mode of the guest is. -/
theorem applyRounding_eq (hi : j.Installed) :
    j.stubs.applyRounding = j.place Stubs.Routine.applyRounding.symbol :=
  (congrArg Stubs.applyRounding hi.located).trans
    (address_eq_place j (by rw [fixedItems]; cases j.config.staticAlloc <;> rfl))

/-- Where the check of the core is. -/
theorem checkCoreState_eq (hi : j.Installed) :
    j.stubs.checkCoreState = j.place Stubs.Routine.checkCoreState.symbol :=
  (congrArg Stubs.checkCoreState hi.located).trans
    (address_eq_place j (by rw [fixedItems]; cases j.config.staticAlloc <;> rfl))

/-- Where the dispatcher is entered with a guest address. -/
theorem dispatcherPc_eq (hi : j.Installed) :
    j.stubs.dispatcherPc = j.place Stubs.Routine.dispatcherPc.symbol :=
  (congrArg Stubs.dispatcherPc hi.located).trans
    (address_eq_place j (by rw [fixedItems]; cases j.config.staticAlloc <;> rfl))

/-- The dispatcher is shared. -/
theorem shared_dispatcherPc (hi : j.Installed) : j.Shared j.stubs.dispatcherPc := by
  obtain ⟨o, ho, hplace⟩ := hi.place_lt (l := Stubs.Routine.dispatcherPc)
    (by rw [fixedItems]; cases j.config.staticAlloc <;> exact ⟨_, rfl⟩)
  exact .inl ⟨o, ho, hi.dispatcherPc_eq.trans hplace⟩

/-- The check of the core is one of the fixed routines. -/
theorem shared_checkCoreState (hi : j.Installed) : j.Shared j.stubs.checkCoreState := by
  obtain ⟨o, ho, hplace⟩ := hi.place_lt (l := Stubs.Routine.checkCoreState)
    (by rw [fixedItems]; cases j.config.staticAlloc <;> exact ⟨_, rfl⟩)
  exact .inl ⟨o, ho, hi.checkCoreState_eq.trans hplace⟩

end Installed

/-! ## Routines that blocks call -/

section Routines

variable {j : Jit} {h : Handlers σ} {c e : Cpu} {s : σ} {Q : Cpu → σ → Prop}

/-- A routine that leads back to whoever called it can be called. -/
theorem calls_of_leads {a : UInt64}
    (hleads : ∀ back, j.Leads h a (c.push back) s fun d t => d.ip = back ∧ Q d t) :
    j.Calls h a c s Q := by
  intro back
  obtain ⟨d, t, hreach, rfl, hq⟩ := hleads back
  exact ⟨d, t, hreach, hq⟩

/-- The end of a called routine. -/
theorem Follows.back (hj : j.Separated) (rs : List Gpr) {resolve : UInt64 → UInt64}
    {items : List Item} {back : UInt64} (hregs : ∀ r, r ∉ rs → e.reg r = (c.push back).reg r)
    (hstack : e.stack = (c.push back).stack) (hrsp : Gpr.rsp ∉ rs)
    (hq : ∀ d, c.Effect d rs e.context e.mxcsr → (∀ r, r ≠ Gpr.rsp → d.reg r = e.reg r) → Q d s) :
    j.Follows h resolve (.insn .ret :: items) e s fun d t => d.ip = back ∧ Q d t := by
  refine .ret hj ⟨Cpu.top_of_called (hregs _ hrsp) hstack, hq _ ?_ fun r hr => ?_⟩
  · have heffect := Cpu.effect_of_return hregs hstack hrsp
    exact ⟨heffect.regs, heffect.context, heffect.mxcsr, heffect.frame.pointer, heffect.frame.words⟩
  · exact Cpu.reg_drop_of_ne hr e

/-- Pushing leaves the address of the context in its register. -/
theorem context_push (c : Cpu) (back : UInt64) (hc : c.reg Gpr.context = contextBase) :
    (c.push back).reg Gpr.context = contextBase := by
  rw [Cpu.reg_push_of_ne (by decide), hc]

/-- The downcount goes to memory. -/
theorem calls_saveStatic (hj : j.Separated) (hi : j.Installed)
    (hstatic : j.config.staticAlloc = true) (hc : c.reg Gpr.context = contextBase) :
    j.Calls h (j.place Stubs.Routine.saveStatic.symbol) c s fun d t => t = s ∧
      c.Effect d [] { c.context with downcount := c.reg32 Gpr.downcount } c.mxcsr := by
  refine calls_of_leads fun back =>
    hi.follow [.insn (.store32 (contextWord Context.downcountOffset) Gpr.downcount), .insn .ret]
      (by rw [fixedItems, hstatic]; exact ⟨_, rfl⟩) ?_
  have hreg : (c.push back).reg32 Gpr.downcount = c.reg32 Gpr.downcount := by
    rw [Cpu.reg32, Cpu.reg_push_of_ne (by decide), Cpu.reg32]
  refine .step hj rfl
    (Cpu.exec_store_word (context_push c back hc) (by decide) (Context.store?_downcount _ _)) ?_
  rw [hreg]
  exact .back hj [] (fun _ _ => rfl) rfl (by decide) fun d heffect _ => ⟨rfl, heffect⟩

/-- The downcount goes to its register. -/
theorem calls_loadStatic (hj : j.Separated) (hi : j.Installed)
    (hstatic : j.config.staticAlloc = true) (hc : c.reg Gpr.context = contextBase) :
    j.Calls h (j.place Stubs.Routine.loadStatic.symbol) c s fun d t => t = s ∧
      c.Effect d [Gpr.downcount] c.context c.mxcsr ∧
      d.reg32 Gpr.downcount = c.context.downcount := by
  refine calls_of_leads fun back =>
    hi.follow [.insn (.load32 Gpr.downcount (contextWord Context.downcountOffset)), .insn .ret]
      (by rw [fixedItems, hstatic]; exact ⟨_, rfl⟩) ?_
  refine .step hj rfl
    (Cpu.exec_load_word (context_push c back hc) (by decide) (Context.load?_downcount _) _) ?_
  refine .back hj [Gpr.downcount] (fun r hr => ?_) rfl (by decide)
    fun d heffect hd => ⟨rfl, heffect, ?_⟩
  · exact Cpu.reg_setReg32_of_ne (by simpa using hr) _ _
  · rw [Cpu.reg32, hd _ (by decide)]
    exact Cpu.reg32_setReg32_self _ _ _

/-- The rounding mode of the host is restored. -/
theorem calls_restoreRounding (hj : j.Separated) (hi : j.Installed)
    (hc : c.reg Gpr.context = contextBase) :
    j.Calls h j.stubs.restoreRounding c s fun d t => t = s ∧
      c.Effect d [] { c.context with temp := Rounding.host c.mxcsr } (Rounding.host c.mxcsr) := by
  rw [hi.restoreRounding_eq]
  refine calls_of_leads fun back =>
    hi.follow [.insn (.stmxcsr (contextWord Context.tempOffset)),
      .insn (.alu32mi .and (contextWord Context.tempOffset) (~~~ Stubs.hostRoundingBits)),
      .insn (.ldmxcsr (contextWord Context.tempOffset)), .insn .ret]
      (by rw [fixedItems]; cases j.config.staticAlloc <;> exact ⟨_, rfl⟩) ?_
  have hc := context_push c back hc
  refine .step hj rfl (Cpu.exec_stmxcsr hc (by decide) (Context.store?_temp _ _)) ?_
  refine .step hj rfl (Cpu.exec_alu_word_imm (by exact hc) (by decide) (Context.load?_temp _)
    (by decide) (Context.store?_temp _ _)) ?_
  refine .step hj rfl (Cpu.exec_ldmxcsr (by exact hc) (by decide) (Context.load?_temp _)) ?_
  exact .back hj [] (fun _ _ => rfl) rfl (by decide) fun d heffect _ => ⟨rfl, heffect⟩

/-- The end of the routine that sets the rounding mode of the guest. -/
def loadModeItems : List Item :=
  [.insn (.ldmxcsr (contextWord Context.tempOffset)), .mark Stubs.Routine.skip, .insn .ret]

/-- The part of that routine behind the choice of the mode. -/
def setModeItems : List Item :=
  [.insn (.shift32 .shl Gpr.scratch 13),
   .insn (.alu32mi .and (contextWord Context.tempOffset) (~~~ Stubs.hostRoundingBits)),
   .insn (.alu32m .or (contextWord Context.tempOffset) Gpr.scratch),
   .insn (.test32mi (contextWord Context.fcr31Offset) Stubs.guestFlushToZero),
   .insn (.jcc .equal Stubs.Routine.noFlush.symbol),
   .insn (.alu32mi .or (contextWord Context.tempOffset) Stubs.hostFlushToZero),
   .mark Stubs.Routine.noFlush] ++ loadModeItems

/-- Inside a called routine that has not changed any register but the scratch register. -/
structure InRoutine (c : Cpu) (back : UInt64) (e : Cpu) : Prop where
  regs : ∀ r, r ∉ [Gpr.scratch] → e.reg r = (c.push back).reg r
  stack : e.stack = (c.push back).stack

/-- Inside a routine, the register for the context is still the one of the caller. -/
theorem InRoutine.context {back : UInt64} (hin : InRoutine c back e)
    (hc : c.reg Gpr.context = contextBase) : e.reg Gpr.context = contextBase := by
  rw [hin.regs _ (by decide), context_push c back hc]

/-- Inside a routine, the scratch register may be set. -/
theorem InRoutine.setScratch {back : UInt64} (hin : InRoutine c back e) (v : UInt32) :
    InRoutine c back (e.setReg32 Gpr.scratch v) where
  regs r hr := by
    rw [Cpu.reg_setReg32_of_ne (by simpa using hr), hin.regs r hr]
  stack := hin.stack

theorem InRoutine.setFlags {back : UInt64} (hin : InRoutine c back e) (f : Flags) :
    InRoutine c back { e with flags := f } :=
  ⟨hin.regs, hin.stack⟩

theorem InRoutine.setContext {back : UInt64} (hin : InRoutine c back e) (x : Context) :
    InRoutine c back { e with context := x } :=
  ⟨hin.regs, hin.stack⟩

/-- The control word is loaded from the scratch word, and the routine returns. -/
theorem follows_loadMode (hj : j.Separated) (hc : c.reg Gpr.context = contextBase) {back : UInt64}
    (hin : InRoutine c back e)
    (hq : ∀ d, c.Effect d [Gpr.scratch] e.context e.context.temp → Q d s) :
    j.Follows h j.place loadModeItems e s fun d t => d.ip = back ∧ Q d t := by
  refine .step hj rfl
    (Cpu.exec_ldmxcsr (by exact hin.context hc) (by decide) (Context.load?_temp _)) ?_
  refine .mark (.back hj _ hin.regs hin.stack (by decide) fun d heffect _ => hq d heffect)

/-- The word that is set, given the one in the scratch word and the mode in the scratch register. -/
def modeWord (temp mode fcr31 : UInt32) : UInt32 :=
  temp &&& ~~~ Stubs.hostRoundingBits ||| mode <<< 13 |||
    (if fcr31 &&& Stubs.guestFlushToZero = 0 then 0 else Stubs.hostFlushToZero)

/-- The mode in the scratch register, shifted into place, when the routine leaves it as it is. -/
theorem modeWord_even {f : UInt32} (m : UInt32) (hset : ¬ f &&& Stubs.guestRoundingBits = 0)
    (heven : (f &&& Stubs.guestRoundingBits).toUInt64.toUInt8 &&& 1 = 0) :
    modeWord m (f &&& Stubs.guestRoundingBits) f = Rounding.guest f m := by
  rw [Rounding.oddMode_iff] at heven
  rw [modeWord, Rounding.guest, if_neg hset, Rounding.host, Rounding.hostMode, if_pos heven,
    Rounding.guestBits_shift]

/-- The same when the routine changes the mode into the numbering of the host. -/
theorem modeWord_odd {f : UInt32} (m : UInt32) (hset : ¬ f &&& Stubs.guestRoundingBits = 0)
    (hodd : ¬ (f &&& Stubs.guestRoundingBits).toUInt64.toUInt8 &&& 1 = 0) :
    modeWord m ((f &&& Stubs.guestRoundingBits) ^^^ 2) f = Rounding.guest f m := by
  rw [Rounding.oddMode_iff] at hodd
  rw [modeWord, Rounding.guest, if_neg hset, Rounding.host, Rounding.hostMode, if_neg hodd,
    UInt32.shiftLeft_xor, UInt32.shiftLeft_xor, Rounding.guestBits_shift]

/-- The mode is in its place in the scratch word, and the flags tell whether the guest keeps small
numbers. -/
theorem execList_placeMode (hc : c.reg Gpr.context = contextBase) {back : UInt64}
    (hin : InRoutine c back e) :
    ∃ d, Cpu.execList [.shift32 .shl Gpr.scratch 13,
        .alu32mi .and (contextWord Context.tempOffset) (~~~ Stubs.hostRoundingBits),
        .alu32m .or (contextWord Context.tempOffset) Gpr.scratch,
        .test32mi (contextWord Context.fcr31Offset) Stubs.guestFlushToZero] e = .ok d ∧
      InRoutine c back d ∧
      d.context = { e.context with
        temp := e.context.temp &&& ~~~ Stubs.hostRoundingBits ||| e.reg32 Gpr.scratch <<< 13 } ∧
      d.flags.holds .equal = decide (e.context.fcr31 &&& Stubs.guestFlushToZero = 0) := by
  obtain ⟨f, hshift⟩ := e.exec_shift .shl Gpr.scratch 13
  have hin₁ := (hin.setFlags f).setScratch (Shift.shl.apply (e.reg32 Gpr.scratch) 13)
  have hmode : (({ e with flags := f } : Cpu).setReg32 Gpr.scratch
      (Shift.shl.apply (e.reg32 Gpr.scratch) 13)).reg32 Gpr.scratch =
        e.reg32 Gpr.scratch <<< 13 := by
    rw [Cpu.reg32_setReg32_self, Shift.apply_shl]
    rfl
  have hcontext : (({ e with flags := f } : Cpu).setReg32 Gpr.scratch
      (Shift.shl.apply (e.reg32 Gpr.scratch) 13)).context = e.context := rfl
  generalize ({ e with flags := f } : Cpu).setReg32 Gpr.scratch
      (Shift.shl.apply (e.reg32 Gpr.scratch) 13) = e₁ at hshift hin₁ hmode hcontext
  have hc₁ := hin₁.context hc
  rw [← hmode, ← hcontext]
  exact ⟨_, Cpu.execList_cons_of_ok hshift (Cpu.execList_cons_of_ok
    (Cpu.exec_alu_word_imm hc₁ (by decide) (Context.load?_temp _) (by decide)
      (Context.store?_temp _ _)) (Cpu.execList_cons_of_ok
    (Cpu.exec_alu_word (by exact hc₁) (by decide) (Context.load?_temp _) (by decide)
      (Context.store?_temp _ _)) (Cpu.execList_cons_of_ok
    (Cpu.exec_test_word (by exact hc₁) (by decide) (Context.load?_fcr31 _) _) rfl))),
    ⟨hin₁.regs, hin₁.stack⟩, rfl, Flags.equal_ofBits _⟩

/-- The control word with the bits for the mode of the guest is put together and loaded. -/
theorem follows_setMode (hj : j.Separated) (hi : j.Installed)
    (hc : c.reg Gpr.context = contextBase) {back : UInt64} (hin : InRoutine c back e)
    (hq : ∀ d, c.Effect d [Gpr.scratch]
      { e.context with temp := modeWord e.context.temp (e.reg32 Gpr.scratch) e.context.fcr31 }
      (modeWord e.context.temp (e.reg32 Gpr.scratch) e.context.fcr31) → Q d s) :
    j.Follows h j.place setModeItems e s fun d t => d.ip = back ∧ Q d t := by
  obtain ⟨e₁, hexec, hin₁, hcontext, hflags⟩ := execList_placeMode hc hin
  refine .steps hj (by decide) hexec (.jcc hj (fun htaken => ?_) fun hrest => ?_)
  · rw [hflags, decide_eq_true_iff] at htaken
    rw [modeWord, if_pos htaken, UInt32.or_zero] at hq
    refine hi.follow loadModeItems
      (by rw [fixedItems]; cases j.config.staticAlloc <;> exact ⟨_, rfl⟩)
      (follows_loadMode hj hc hin₁ ?_)
    rw [hcontext]
    exact hq
  · rw [hflags, decide_eq_false_iff_not] at hrest
    rw [modeWord, if_neg hrest] at hq
    refine .step hj rfl (Cpu.exec_alu_word_imm (hin₁.context hc) (by decide) (Context.load?_temp _)
      (by decide) (Context.store?_temp _ _)) (.mark ?_)
    refine follows_loadMode hj hc ⟨hin₁.regs, hin₁.stack⟩ ?_
    rw [hcontext]
    exact hq

/-- The bits that the guest asks for are in the scratch register, and the flags tell whether there
are any. -/
theorem execList_guestBits (hc : c.reg Gpr.context = contextBase) {back : UInt64}
    (hin : InRoutine c back e) :
    ∃ d, Cpu.execList [.load32 Gpr.scratch (contextWord Context.fcr31Offset),
        .alu32i .and Gpr.scratch Stubs.guestRoundingBits] e = .ok d ∧
      InRoutine c back d ∧ d.context = e.context ∧ d.mxcsr = e.mxcsr ∧
      d.reg Gpr.scratch = (e.context.fcr31 &&& Stubs.guestRoundingBits).toUInt64 ∧
      d.flags.holds .equal = decide (e.context.fcr31 &&& Stubs.guestRoundingBits = 0) := by
  have hload := Cpu.exec_load_word (hin.context hc) (by decide) (Context.load?_fcr31 e.context)
    Gpr.scratch
  have hand := Cpu.exec_and_imm (e.setReg32 Gpr.scratch e.context.fcr31) Gpr.scratch
    Stubs.guestRoundingBits
  rw [Cpu.reg32_setReg32_self] at hand
  exact ⟨_, Cpu.execList_cons_of_ok hload (Cpu.execList_cons_of_ok hand rfl),
    ((hin.setScratch _).setFlags _).setScratch _, rfl, rfl, Cpu.reg_setReg32_self _ _ _,
    Flags.equal_ofBits _⟩

/-- The control word is in the scratch word, and the flags tell whether the mode is even. -/
theorem execList_storeMode (hc : c.reg Gpr.context = contextBase) {back : UInt64}
    (hin : InRoutine c back e) :
    ∃ d, Cpu.execList [.stmxcsr (contextWord Context.tempOffset), .test8i Gpr.scratch 1] e =
        .ok d ∧
      InRoutine c back d ∧ d.context = { e.context with temp := e.mxcsr } ∧
      d.reg Gpr.scratch = e.reg Gpr.scratch ∧
      d.flags.holds .equal = decide ((e.reg Gpr.scratch).toUInt8 &&& 1 = 0) := by
  have hstore := Cpu.exec_stmxcsr (hin.context hc) (by decide) (Context.store?_temp e.context _)
  exact ⟨_, Cpu.execList_cons_of_ok hstore (Cpu.execList_cons_of_ok rfl rfl),
    (hin.setContext _).setFlags _, rfl, rfl, Flags.equal_ofBits8 _⟩

/-- The rounding mode of the guest is set. -/
theorem calls_applyRounding (hj : j.Separated) (hi : j.Installed)
    (hc : c.reg Gpr.context = contextBase) :
    j.Calls h j.stubs.applyRounding c s fun d t => t = s ∧
      c.Effect d [Gpr.scratch]
        (if c.context.fcr31 &&& Stubs.guestRoundingBits = 0 then c.context
          else { c.context with temp := Rounding.guest c.context.fcr31 c.mxcsr })
        (Rounding.guest c.context.fcr31 c.mxcsr) := by
  rw [hi.applyRounding_eq]
  refine calls_of_leads fun back => hi.follow
    ([.insn (.load32 Gpr.scratch (contextWord Context.fcr31Offset)),
      .insn (.alu32i .and Gpr.scratch Stubs.guestRoundingBits),
      .insn (.jcc .equal Stubs.Routine.skip.symbol),
      .insn (.stmxcsr (contextWord Context.tempOffset)),
      .insn (.test8i Gpr.scratch 1),
      .insn (.jcc .equal Stubs.Routine.keepMode.symbol),
      .insn (.alu32i .xor Gpr.scratch 2),
      .mark Stubs.Routine.keepMode] ++ setModeItems)
    (by rw [fixedItems]; cases j.config.staticAlloc <;> exact ⟨_, rfl⟩) ?_
  have hin : InRoutine c back (c.push back) := ⟨fun _ _ => rfl, rfl⟩
  obtain ⟨e₁, hexec₁, hin₁, hcontext₁, hmxcsr₁, hscratch₁, hflags₁⟩ := execList_guestBits hc hin
  rw [Cpu.context_push] at hcontext₁ hscratch₁ hflags₁
  rw [Cpu.mxcsr_push] at hmxcsr₁
  refine .steps hj (by decide) hexec₁ (.jcc hj (fun htaken => ?_) fun hrest => ?_)
  · -- the guest asks for nothing
    rw [hflags₁, decide_eq_true_iff] at htaken
    refine hi.follow [.insn .ret]
      (by rw [fixedItems]; cases j.config.staticAlloc <;> exact ⟨_, rfl⟩) ?_
    refine .back hj _ hin₁.regs hin₁.stack (by decide) fun d heffect _ => ⟨rfl, ?_⟩
    rw [if_pos htaken, Rounding.guest, if_pos htaken, ← hcontext₁, ← hmxcsr₁]
    exact heffect
  · -- the mode is worked out in the scratch register, with one and three exchanged
    rw [hflags₁, decide_eq_false_iff_not] at hrest
    obtain ⟨e₂, hexec₂, hin₂, hcontext₂, hscratch₂, hflags₂⟩ := execList_storeMode hc hin₁
    rw [hcontext₁, hmxcsr₁] at hcontext₂
    rw [hscratch₁] at hscratch₂ hflags₂
    have hmode : e₂.reg32 Gpr.scratch = c.context.fcr31 &&& Stubs.guestRoundingBits := by
      rw [Cpu.reg32, hscratch₂, UInt32.toUInt32_toUInt64]
    refine .steps hj (by decide) hexec₂ (.jcc hj (fun heven => ?_) fun hodd => ?_)
    · -- zero and two have the same number in both
      rw [hflags₂, decide_eq_true_iff] at heven
      refine hi.follow setModeItems
        (by rw [fixedItems]; cases j.config.staticAlloc <;> exact ⟨_, rfl⟩) ?_
      refine follows_setMode hj hi hc hin₂ fun d heffect => ⟨rfl, ?_⟩
      rw [hmode, hcontext₂, modeWord_even _ hrest heven] at heffect
      rw [if_neg hrest]
      exact heffect
    · rw [hflags₂, decide_eq_false_iff_not] at hodd
      refine .step hj rfl (Cpu.exec_xor_imm _ _ _) (.mark ?_)
      refine follows_setMode hj hi hc ((hin₂.setFlags _).setScratch _) fun d heffect => ⟨rfl, ?_⟩
      simp only [Cpu.reg32_setReg32_self, Cpu.context_setReg32, hmode, hcontext₂,
        modeWord_odd _ hrest hodd] at heffect
      rw [if_neg hrest]
      exact heffect

/-! ## Handlers -/

/-- A called handler leaves its answer, and keeps the registers that a called function keeps. -/
theorem calls_handler {a : UInt64} {f : Handler σ} (ha : a ≠ returnAddress)
    (hfind : h.find? j.table a (c.reg Gpr.arg2) = some f)
    (hfirst : j.table.Accepts a (c.reg Gpr.arg1)) :
    j.Calls h a c s fun d t => t = (f c.mxcsr c.context s).state ∧
      c.Effect d (Gpr.scratch :: callerSaved) (f c.mxcsr c.context s).context c.mxcsr ∧
      d.reg Gpr.scratch = (f c.mxcsr c.context s).answer := by
  intro back
  have hstep : j.Step h ((c.push back).goTo a, s) _ :=
    step_handler ha (by rw [Cpu.reg_push_of_ne (by decide)]; exact hfind)
      (by rw [Cpu.reg_push_of_ne (by decide)]; exact hfirst) s
  rw [Cpu.mxcsr_push, Cpu.context_push] at hstep
  obtain ⟨hip, heffect, hanswer⟩ := c.effect_afterCall back a (f c.mxcsr c.context s)
  refine ⟨_, _, .single ?_, rfl, heffect, hanswer⟩
  have hback := Cpu.goTo_ip (((c.push back).goTo a).afterCall (f c.mxcsr c.context s))
  rw [hip] at hback
  rw [hback]
  exact ⟨hstep, .inr (Handlers.has_of_find? hfind)⟩

/-- The code of a call of a handler with the guest context and a second argument. -/
theorem runs_handlerCall (hj : j.Separated) {second : Insn} {v a : UInt64} {f : Handler σ}
    (hplain : second.isPlain) (hsecond : ∀ c : Cpu, c.exec second = .ok (c.setReg Gpr.arg2 v))
    (ha : a ≠ returnAddress) (hfind : h.find? j.table a v = some f)
    (hbase : c.reg Gpr.context = contextBase) :
    j.Runs h (handlerCall second a) c s fun d t => t = (f c.mxcsr c.context s).state ∧
      c.Effect d (Gpr.scratch :: callerSaved) (f c.mxcsr c.context s).context c.mxcsr ∧
      d.reg Gpr.scratch = (f c.mxcsr c.context s).answer := by
  -- the state at the call differs in registers that the call does not keep
  obtain ⟨e, he⟩ : ∃ e : Cpu, e = ((c.setReg Gpr.arg1 (c.reg Gpr.context)).setReg Gpr.arg2 v).setReg
    Gpr.scratch a := ⟨_, rfl⟩
  have hexec : Cpu.execList
      [.mov64 Gpr.arg1 Gpr.context, second, .mov64i Gpr.scratch a] c = .ok e := by
    refine Cpu.execList_cons_of_ok rfl (Cpu.execList_cons_of_ok (hsecond _) ?_)
    rw [he]
    rfl
  have hregs : ∀ r, r ∉ Gpr.scratch :: callerSaved → e.reg r = c.reg r := by
    intro r hr
    have hne : r ≠ Gpr.scratch ∧ r ≠ Gpr.arg2 ∧ r ≠ Gpr.arg1 := by
      refine ⟨?_, ?_, ?_⟩ <;> rintro rfl <;> exact hr (by decide)
    rw [he, Cpu.reg_setReg_of_ne hne.1, Cpu.reg_setReg_of_ne hne.2.1, Cpu.reg_setReg_of_ne hne.2.2]
  have harg : e.reg Gpr.arg2 = v := by
    rw [he, Cpu.reg_setReg_of_ne (by decide), Cpu.reg_setReg_self]
  have hscratch : e.reg Gpr.scratch = a := by
    rw [he, Cpu.reg_setReg_self]
  have hcontext : e.context = c.context := by rw [he]; rfl
  have hmxcsr : e.mxcsr = c.mxcsr := by rw [he]; rfl
  have hstack : e.stack = c.stack := by rw [he]; rfl
  have hfirst : e.reg Gpr.arg1 = contextBase := by
    rw [he, Cpu.reg_setReg_of_ne (by decide), Cpu.reg_setReg_of_ne (by decide), Cpu.reg_setReg_self,
      hbase]
  have hcall := calls_handler (c := e) (s := s) ha (by rw [harg]; exact hfind) (.inr hfirst)
  rw [hcontext, hmxcsr] at hcall
  have hfront : j.Runs h [.mov64 Gpr.arg1 Gpr.context, second, .mov64i Gpr.scratch a] c s
      fun d t => d = e ∧ t = s :=
    .plain hj (by simp [hplain, show (Insn.mov64 _ _).isPlain from rfl,
      show (Insn.mov64i _ _).isPlain from rfl]) hexec ⟨rfl, rfl⟩
  refine hfront.append fun d t hd => ?_
  obtain ⟨rfl, rfl⟩ := hd
  rw [← hscratch] at hcall
  refine (Runs.callReg hj hcall).mono fun d' t' hq => ?_
  obtain ⟨hstate, heffect, hanswer⟩ := hq
  have hpointer : d.reg Gpr.rsp = c.reg Gpr.rsp := hregs _ (by decide)
  refine ⟨hstate, ?_, hanswer⟩
  refine ⟨fun r hr => (heffect.regs r hr).trans (hregs r hr), heffect.context, heffect.mxcsr,
    heffect.frame.pointer.trans hpointer, fun b hb => ?_⟩
  rw [heffect.frame.words b (by rw [hpointer]; exact hb), hstack]

end Routines

end Jit

end Dynarec
