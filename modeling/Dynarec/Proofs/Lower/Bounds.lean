import Mathlib.Data.List.Perm.Subperm
import Dynarec.Proofs.Lower.Replay

/-!
# Every instruction has code, and not much of it

Lowering an instruction never fails, whatever slots it names: it asks for three host registers at
most, no others are locked then, and at least ten may be handed out.  What it emits is a small
number of instructions, since sending all guest registers back to memory takes one store for each
host register.

* `RegMap.exists_map`: a guest register is mapped as long as few registers are locked.
* `Emit.Costs`: an action that succeeds, with the registers that it locks and the instructions that
  it emits.  The actions that lowering is made of have a cost, and hence the lowering of every
  instruction (`exists_makes`).
* `Lower.exists_pieces`: every list of instructions has pieces, and their leads are short.
-/

namespace Dynarec

open Lower Dynarec.Action

namespace Lower

/-- No instruction takes more than fifteen bytes. -/
theorem codeSize_le (is : List Insn) : codeSize is ≤ 15 * is.length := by
  induction is with
  | nil => exact Nat.le_refl 0
  | cons i is ih =>
    have hsize := i.size_le
    rw [Insn.codeSize_cons, List.length_cons]
    omega

end Lower

/-! ## Host registers do not run out -/

namespace RegMap

/-- At most so many host registers are locked. -/
def LocksAtMost (m : RegMap) (count : Nat) : Prop :=
  ∃ rs : List Gpr, rs.length ≤ count ∧ ∀ r, m.isLocked r → r ∈ rs

variable {m n : RegMap} {count : Nat} {staticAlloc : Bool}

/-- At most so many is at most more. -/
theorem LocksAtMost.mono {more : Nat} (h : m.LocksAtMost count) (hle : count ≤ more) :
    m.LocksAtMost more := by
  obtain ⟨rs, hlen, hrs⟩ := h
  exact ⟨rs, Nat.le_trans hlen hle, hrs⟩

/-- How many registers are locked depends on the locks alone. -/
theorem LocksAtMost.congr (h : m.LocksAtMost count) (hlocked : ∀ r, n.isLocked r = m.isLocked r) :
    n.LocksAtMost count := by
  obtain ⟨rs, hlen, hrs⟩ := h
  exact ⟨rs, hlen, fun r hr => hrs r (by rwa [← hlocked r])⟩

/-- At the start of an instruction no register is locked. -/
theorem locksAtMost_setIndex (m : RegMap) (index : Nat) : (m.setIndex index).LocksAtMost 0 := by
  refine ⟨[], Nat.le_refl 0, fun r hr => ?_⟩
  have hnone : ∀ r, RegSet.empty.contains (.ofGpr r) = false := by decide
  exact absurd hr (by rw [isLocked, setIndex, hnone]; exact Bool.false_ne_true)

/-- No register is handed out under two names. -/
theorem nodup_allocatableRegs (staticAlloc : Bool) : (allocatableRegs staticAlloc).Nodup := by
  cases staticAlloc <;> decide

/-- Ten or eleven registers may be handed out. -/
theorem length_allocatableRegs (staticAlloc : Bool) :
    10 ≤ (allocatableRegs staticAlloc).length ∧ (allocatableRegs staticAlloc).length ≤ 11 := by
  cases staticAlloc <;> decide

/-- With few registers locked, one of those that may be handed out is not. -/
theorem LocksAtMost.exists_unlocked (h : m.LocksAtMost count) (hcount : count < 10)
    (hm : m.Consistent staticAlloc) : ∃ r ∈ m.allocatable, m.isLocked r = false := by
  obtain ⟨rs, hlen, hrs⟩ := h
  by_contra hnone
  have hsub : m.allocatable ⊆ rs := by
    intro r hr
    refine hrs r ?_
    by_contra hlocked
    exact hnone ⟨r, hr, by simpa using hlocked⟩
  rw [hm.allocatable] at hsub
  have hle := (nodup_allocatableRegs staticAlloc).subperm hsub |>.length_le
  have hten := (length_allocatableRegs staticAlloc).1
  omega

/-- Of some candidates, one is used again last. -/
theorem exists_latest {cs : List (Option Nat × Gpr)} (h : cs ≠ []) : ∃ c, latest cs = some c := by
  cases cs with
  | nil => exact absurd rfl h
  | cons c cs => exact ⟨_, rfl⟩

/-- A register that is in use and not locked can be taken away. -/
theorem exists_pickVictim {r : Gpr} (hr : r ∈ m.allocatable) (hlocked : m.isLocked r = false)
    {g : GuestReg} (hg : (m.slot r).guest = some g) : ∃ x k, m.pickVictim = (some x, k) := by
  have hclock : r ∈ m.fromClock := by
    rw [← List.take_append_drop m.clock m.allocatable] at hr
    rw [fromClock, List.mem_append]
    exact (List.mem_append.mp hr).symm
  have hmem : (m.nextUse g, r) ∈ m.candidates := by
    refine List.mem_filterMap.mpr ⟨r, hclock, ?_⟩
    rw [hlocked, if_neg Bool.false_ne_true, hg]
    rfl
  obtain ⟨c, hc⟩ := exists_latest (List.ne_nil_of_mem hmem)
  exact ⟨c.2, _, by rw [pickVictim, hc]; rfl⟩

/-- With fewer than ten registers locked, one is found. -/
theorem exists_allocate (hm : m.Consistent staticAlloc) (hlocks : m.LocksAtMost count)
    (hcount : count < 10) : ∃ r n code, m.allocate = (.ok r, n, code) := by
  rw [allocate]
  cases hfree : m.allocatable.find? fun r => (m.slot r).guest.isNone with
  | some r => exact ⟨r, m, [], rfl⟩
  | none =>
    obtain ⟨r, hr, hlocked⟩ := hlocks.exists_unlocked hcount hm
    have hused := List.find?_eq_none.mp hfree r hr
    obtain ⟨g, hg⟩ := Option.ne_none_iff_exists'.mp
      (show (m.slot r).guest ≠ none by simpa using hused)
    obtain ⟨x, k, hpick⟩ := exists_pickVictim hr hlocked hg
    exact ⟨x, (k.release x).1, (k.release x).2, by rw [hpick]⟩

/-- A guest register can be mapped as long as few registers are locked. -/
theorem exists_map (hm : m.Consistent staticAlloc) (hlocks : m.LocksAtMost count)
    (hcount : count < 10) (g : GuestReg) (mode : MapMode) :
    ∃ r n code, m.map g mode = (.ok r, n, code) := by
  rw [map]
  cases m.mapped? g with
  | some r => exact ⟨_, _, _, rfl⟩
  | none =>
    obtain ⟨r, k, code, hallocate⟩ := exists_allocate hm hlocks hcount
    exact ⟨r, _, _, by rw [hallocate]⟩

/-- Mapping a register locks one more at most. -/
theorem LocksAtMost.map {g : GuestReg} {mode : MapMode} {r : Gpr} {code : List Insn}
    (h : m.LocksAtMost count) (hmap : m.map g mode = (.ok r, n, code)) :
    n.LocksAtMost (count + 1) := by
  obtain ⟨rs, hlen, hrs⟩ := h
  refine ⟨r :: rs, Nat.succ_le_succ hlen, fun x hx => ?_⟩
  rw [isLocked_map hmap, Bool.or_eq_true, decide_eq_true_eq] at hx
  rcases hx with rfl | hx
  · exact List.mem_cons_self
  · exact List.mem_cons_of_mem r (hrs x hx)

/-! ## Short code -/

/-- Emptying a register takes one store at most. -/
theorem length_release_le (m : RegMap) (r : Gpr) : (m.release r).2.length ≤ 1 := by
  rw [release]
  split
  · exact Nat.zero_le 1
  · dsimp only
    split
    · exact Nat.le_refl 1
    · exact Nat.zero_le 1

/-- Mapping a register takes a store and a load at most. -/
theorem length_map_le {g : GuestReg} {mode : MapMode} {r : Gpr} {code : List Insn}
    (hmap : m.map g mode = (.ok r, n, code)) : code.length ≤ 2 := by
  rcases map_eq_ok hmap with ⟨_, rfl, _⟩ | ⟨_, _, k, pre, hroom, _, rfl⟩
  · exact Nat.zero_le 2
  · have hpre : pre.length ≤ 1 := by
      cases hroom with
      | empty hfree => exact Nat.zero_le 1
      | evict clock hlocked => exact length_release_le _ r
    have hload : (if mode.reads then [Insn.load32 r (home g)] else []).length ≤ 1 := by
      split
      · exact Nat.le_refl 1
      · exact Nat.zero_le 1
    rw [List.length_append]
    omega

/-- Emptying registers takes one store for each at most. -/
theorem length_releaseAll_le (m : RegMap) (rs : List Gpr) :
    (m.releaseAll rs).2.length ≤ rs.length := by
  induction rs generalizing m with
  | nil => exact Nat.le_refl 0
  | cons r rs ih =>
    have hfirst := length_release_le m r
    have hrest := ih (m.release r).1
    rw [releaseAll, List.length_cons]
    dsimp only
    rw [List.length_append]
    omega

/-- Emptying all registers takes eleven stores at most. -/
theorem Consistent.length_flushAll_le (h : m.Consistent staticAlloc) :
    m.flushAll.2.length ≤ 11 := by
  have hlen := length_releaseAll_le m (m.allocatable.filter fun r => (m.slot r).guest.isSome)
  have hfilter := List.length_filter_le (fun r => (m.slot r).guest.isSome) m.allocatable
  have heleven := (length_allocatableRegs staticAlloc).2
  rw [← h.allocatable] at heleven
  rw [RegMap.flushAll]
  omega

end RegMap

/-! ## What emitting costs -/

namespace Emit

variable {α β : Type} {staticAlloc : Bool}

/-- An action that appends instructions to any draft with few registers locked.  It succeeds, and
`locks` and `count` bound the registers that it locks and the instructions that it appends. -/
def Costs (staticAlloc : Bool) (x : Emit α) (locks count : Nat) : Prop :=
  ∀ ⦃d : Draft⦄ ⦃before : Nat⦄, d.regs.Consistent staticAlloc → d.regs.LocksAtMost before →
    before + locks ≤ 10 → ∃ a code m, x d = .ok a (d.put code m) ∧ m.Consistent staticAlloc ∧
      m.LocksAtMost (before + locks) ∧ code.length ≤ count

variable {locks locks' count count' : Nat}

/-- What costs little costs no more than more. -/
theorem Costs.mono {x : Emit α} (h : Costs staticAlloc x locks count) (hlocks : locks ≤ locks')
    (hcount : count ≤ count') : Costs staticAlloc x locks' count' := by
  intro d before hd hlocked hroom
  obtain ⟨a, code, m, hx, hm, hlocks', hlen⟩ := h hd hlocked (by omega)
  exact ⟨a, code, m, hx, hm, hlocks'.mono (by omega), Nat.le_trans hlen hcount⟩

theorem costs_pure (a : α) : Costs staticAlloc (pure a) 0 0 := by
  intro d before hd hlocked _
  exact ⟨a, [], d.regs, by rw [d.put_nil]; rfl, hd, hlocked, Nat.le_refl 0⟩

/-- The cost of a sequence is the sum of the costs. -/
theorem Costs.bind {x : Emit α} {f : α → Emit β} (hx : Costs staticAlloc x locks count)
    (hf : ∀ a, Costs staticAlloc (f a) locks' count') :
    Costs staticAlloc (x >>= f) (locks + locks') (count + count') := by
  intro d before hd hlocked hroom
  obtain ⟨a, is, m, hxd, hm, hlocks, his⟩ := hx hd hlocked (by omega)
  obtain ⟨b, js, n, hfd, hn, hlocks', hjs⟩ := hf a (d := d.put is m) hm hlocks (by omega)
  refine ⟨b, is ++ js, n, ?_, hn, hlocks'.mono (by omega), ?_⟩
  · rw [bind_of_ok hxd, hfd, d.put_put]
  · rw [List.length_append]
    omega

/-- Emitting instructions costs as many. -/
theorem costs_insns {is : List Insn} (his : is.length ≤ count) :
    Costs staticAlloc (insns is) 0 count := by
  intro d before hd hlocked _
  exact ⟨⟨⟩, is, d.regs, insns_apply is d, hd, hlocked, his⟩

theorem costs_insn (i : Insn) : Costs staticAlloc (insn i) 0 1 := by
  have hcosts : Costs staticAlloc (insns [i]) 0 1 := costs_insns (Nat.le_refl 1)
  exact hcosts

/-- Sending all registers back costs a store for each at most. -/
theorem costs_flushAll : Costs staticAlloc flushAll 0 11 := by
  intro d before hd hlocked _
  exact ⟨⟨⟩, _, _, flushAll_apply d, hd.flushAll,
    hlocked.congr (RegMap.isLocked_releaseAll _ _), hd.length_flushAll_le⟩

/-- Mapping a register costs one lock and two instructions at most. -/
theorem costs_mapReg (slot : UInt8) (mode : MapMode) :
    Costs staticAlloc (mapReg slot mode) 1 2 := by
  intro d before hd hlocked hroom
  obtain ⟨r, m, code, hmap⟩ := RegMap.exists_map hd hlocked (by omega) (RegMap.guestOf slot) mode
  exact ⟨r, code, m, mapReg_eq_ok.mpr ⟨m, code, hmap, rfl⟩, hd.map hmap, hlocked.map hmap,
    RegMap.length_map_le hmap⟩

/-- A call of a routine costs one instruction at most. -/
theorem costs_callIf (stub : Option UInt64) : Costs staticAlloc (callIf stub) 0 1 := by
  cases stub with
  | none => exact (costs_pure _).mono (Nat.le_refl 0) (Nat.zero_le 1)
  | some a => exact costs_insn (.call a)

end Emit

namespace Lower

open Emit

variable {env : LowerEnv} {i : Inst} {staticAlloc : Bool}

/-- Arithmetic on two registers maps three of them. -/
theorem costs_binary (op : Alu) : Costs staticAlloc (binary op i) 3 9 := by
  have hrest : ∀ left right : Gpr, Costs staticAlloc (if i.dest = i.src1 then do
        let dest ← mapReg i.dest .readWrite
        insn (.alu32 op dest right)
      else if i.dest ≠ i.src2 then do
        let dest ← mapReg i.dest .write
        insns [.mov32 dest left, .alu32 op dest right]
      else do
        insns [.mov32 Gpr.scratch left, .alu32 op Gpr.scratch right]
        let dest ← mapReg i.dest .write
        insn (.mov32 dest Gpr.scratch)) 1 5 := by
    intro left right
    split
    · exact ((costs_mapReg _ _).bind fun dest => costs_insn _).mono (by decide) (by decide)
    split
    · exact ((costs_mapReg _ _).bind fun dest => costs_insns (Nat.le_refl 2)).mono (by decide)
        (by decide)
    · exact (costs_insns (Nat.le_refl 2)).bind fun _ => (costs_mapReg _ _).bind fun dest => costs_insn _
  exact (costs_mapReg _ _).bind fun left => (costs_mapReg _ _).bind fun right => hrest left right

/-- Copying the first source to the destination maps two registers. -/
theorem costs_destFromSrc1 : Costs staticAlloc (destFromSrc1 i) 2 5 := by
  rw [destFromSrc1]
  split
  · exact (costs_mapReg _ _).mono (by decide) (by decide)
  · exact (costs_mapReg _ _).bind fun src => (costs_mapReg _ _).bind fun dest =>
      (costs_insn _).bind fun _ => costs_pure dest

/-- The call of a handler is four instructions. -/
theorem costs_handlerCall (second : Insn) (address : UInt64) :
    Costs staticAlloc (insns (handlerCall second address)) 0 4 :=
  costs_insns (Nat.le_refl 4)

/-- The call of the generic handler sends all registers back first. -/
theorem costs_generic : Costs staticAlloc (generic env i) 0 19 := by
  have hleave : Costs staticAlloc (if i.op.isExit then
      insns [.test32 Gpr.scratch Gpr.scratch, .jcc .notEqual env.stubs.dispatcherPc]
      else pure ⟨⟩) 0 2 := by
    split
    · exact costs_insns (Nat.le_refl 2)
    · exact (costs_pure _).mono (Nat.le_refl 0) (Nat.zero_le _)
  exact costs_flushAll.bind fun _ => (costs_callIf _).bind fun _ =>
    (costs_handlerCall _ _).bind fun _ => (costs_callIf _).bind fun _ => hleave

/-- So do the calls of the notify handler and of the interpreter. -/
theorem costs_interpret : Costs staticAlloc (interpret env i) 0 21 := by
  have hcall : Costs staticAlloc (insns (handlerCall (.mov32i Gpr.arg2 i.constant)
      (env.table.interpret i.constant)) >>= fun _ => callIf env.stubs.loadStatic) 0 5 :=
    (costs_handlerCall _ _).bind fun _ => costs_callIf _
  rw [interpret]
  split
  · exact costs_flushAll.bind fun _ => (costs_callIf _).bind fun _ =>
      (costs_handlerCall _ _).bind fun _ => hcall
  · exact (costs_flushAll.bind fun _ => (costs_callIf _).bind fun _ => hcall).mono
      (Nat.le_refl 0) (by decide)

/-- Instructions without an exit site. -/
theorem costs_inst (hdest : i.exitDest? = none) : Costs staticAlloc (inst env i) 3 21 := by
  have hfrom : ∀ f : Gpr → Insn, Costs staticAlloc (destFromSrc1 i >>= fun r => insn (f r)) 3 21 :=
    fun f => (costs_destFromSrc1.bind fun r => costs_insn (f r)).mono (by decide) (by decide)
  rw [Inst.exitDest?] at hdest
  rw [inst]
  split <;> rename_i hop <;> rw [hop] at hdest <;> try cases hdest
  case h_1 => exact (costs_pure _).mono (by decide) (by decide)
  case h_2 =>
    exact ((costs_mapReg _ _).bind fun dest => costs_insn _).mono (by decide) (by decide)
  case h_3 =>
    split
    · exact (costs_pure _).mono (by decide) (by decide)
    · exact ((costs_mapReg _ _).bind fun src => (costs_mapReg _ _).bind fun dest =>
        costs_insn _).mono (by decide) (by decide)
  case h_4 | h_5 | h_6 | h_7 | h_8 => exact (costs_binary _).mono (by decide) (by decide)
  case h_9 | h_10 | h_11 | h_12 | h_13 => exact hfrom fun r => .alu32i _ r i.constant
  case h_14 | h_15 | h_16 => exact hfrom fun r => .shift32 _ r _
  case h_17 =>
    exact ((costs_mapReg _ _).bind fun src => costs_insn _).mono (by decide) (by decide)
  case h_18 | h_19 | h_20 | h_21 => exact (costs_insn _).mono (by decide) (by decide)
  case h_22 => exact costs_interpret.mono (by decide) (by decide)
  case h_24 =>
    exact ((costs_mapReg _ _).bind fun src => (costs_insn _).bind fun _ =>
      costs_flushAll.bind fun _ => costs_insn _).mono (by decide) (by decide)
  case h_25 => exact (costs_flushAll.bind fun _ => costs_insn _).mono (by decide) (by decide)
  all_goals exact costs_generic.mono (by decide) (by decide)

/-- So does the test of a conditional exit, which maps what it compares before that. -/
theorem costs_exitTest (against : Against) : Costs staticAlloc (exitTest against i) 2 16 := by
  have hback : ∀ compare : Insn,
      Costs staticAlloc (flushAll >>= fun _ => insn compare) 0 12 := fun compare =>
    costs_flushAll.bind fun _ => costs_insn compare
  cases against with
  | zero =>
    exact ((costs_mapReg _ _).bind fun left => hback (.alu32i .cmp left 0)).mono (by decide)
      (by decide)
  | src2 =>
    exact (costs_mapReg _ _).bind fun left => (costs_mapReg _ _).bind fun right =>
      hback (.alu32 .cmp left right)

/-- The most instructions that a lead consists of. -/
def maxLead : Nat := 32

/-- Every instruction has a lead, and a short one. -/
theorem exists_makes (hfar : ∀ a ∈ env.stubs.targets, codeBase ≤ a) (i : Inst) {m : RegMap}
    (hm : m.Consistent env.config.staticAlloc) (hlocked : m.LocksAtMost 0) :
    ∃ lead n, Makes env i m lead n ∧ n.Consistent env.config.staticAlloc ∧
      lead.length ≤ maxLead := by
  cases hdest : i.exitDest? with
  | none =>
    have hflush : Costs env.config.staticAlloc
        (if env.config.noGprCache then flushAll else pure ⟨⟩) 0 11 := by
      split
      · exact costs_flushAll
      · exact (costs_pure _).mono (Nat.le_refl 0) (Nat.zero_le _)
    have hpiece : Costs env.config.staticAlloc (piece env i) 3 maxLead :=
      (costs_inst hdest).bind fun _ => hflush
    obtain ⟨_, code, n, hok, hn, -, hlen⟩ := hpiece (d := { regs := m }) hm hlocked (by decide)
    obtain ⟨lead, n', hmakes⟩ := makes_of_ok hfar hok
    -- the lead that is made is the code that was emitted
    have hlead := hok.symm.trans
      (hmakes.lowers env.linked env.measure { regs := m } (.of_none hdest) rfl rfl rfl)
    injection hlead with _ hlead
    rw [Draft.finish, hdest] at hlead
    obtain ⟨rfl, rfl⟩ := Draft.put_inj hlead
    exact ⟨code, n, hmakes, hn, hlen⟩
  | some pc =>
    by_cases hop : i.op = .exitToConst
    · exact ⟨_, _, makes_exitToConst hop env m, hm.flushAll,
        Nat.le_trans hm.length_flushAll_le (by decide)⟩
    · obtain ⟨against, taken, hcond⟩ := exitCond_of_exitDest? hdest hop
      obtain ⟨_, code, n, htest, hn, -, hlen⟩ :=
        costs_exitTest (i := i) against (d := { regs := m }) hm hlocked (by decide)
      obtain ⟨k, is, compare, heq, -⟩ := exitTest_eq_ok htest
      obtain ⟨rfl, rfl⟩ := Draft.put_inj heq
      refine ⟨_, _, makes_exitIf hcond hop htest env, hn, ?_⟩
      rw [List.length_append, List.length_singleton, maxLead]
      omega

/-- Every list of instructions has pieces, and their leads are short. -/
theorem exists_pieces (hfar : ∀ a ∈ env.stubs.targets, codeBase ≤ a) (is : List Inst)
    (index start : Nat) {m : RegMap} (hm : m.Consistent env.config.staticAlloc) :
    ∃ ps, pieces env index m start is = some ps ∧ ∀ p ∈ ps, p.lead.length ≤ maxLead := by
  induction is generalizing index start m with
  | nil => exact ⟨[], rfl, by simp⟩
  | cons i is ih =>
    have hindex : (m.setIndex index).Consistent env.config.staticAlloc := hm.congr rfl rfl rfl
    obtain ⟨lead, n, hmakes, hn, hlen⟩ :=
      exists_makes hfar i hindex (m.locksAtMost_setIndex index)
    obtain ⟨rest, hrest, hlens⟩ := ih (index + 1) _ hn
    refine ⟨_, pieces_cons_eq_some.mpr ⟨lead, n, rest, lead?_of_makes hmakes, hrest, rfl⟩, ?_⟩
    intro p hp
    rcases List.mem_cons.mp hp with rfl | hp
    · exact hlen
    · exact hlens p hp

end Lower

end Dynarec
