import Mathlib.Data.ENat.Lattice
import Mathlib.Data.List.Rotate
import Dynarec.Proofs.Ir.Canonical
import Dynarec.Proofs.Lower.Residency

/-!
# Which guest register is evicted

A guest register that is in no host register while all of these are taken has to evict another one.
`evicts_farthest_next_use` says which: of the guest registers that are not locked the one that is
used again last, and among several of these the one that the clock hand meets first.

Shape of the argument:

1. `nextUseAt` is the position of the next use, said of the block alone.  The map counts the
   instructions from the current one on, which is the same up to a constant (`nextUseAt_eq`);
2. the scan keeps the first of the candidates that are used again latest (`firstLatest_of_latest`),
   and the candidates stand in the order in which the clock hand meets them (`farthest_of_latest`,
   `getElem?_fromClock`);
3. the hand always points into the list of registers (`clock_serveAll_lt`), so that it moves on by
   one place of the cycle;
4. the block and the position in it are those of the last `start` and `setIndex`
   (`position_serveAll`).
-/

namespace Dynarec

namespace Inst

/-- The instruction names a guest register in a general-purpose operand.  All operands of a
signature but constants take the slots from left to right. -/
def Names (i : Inst) (g : GuestReg) : Prop :=
  ∃ (k : Nat) (slot : UInt8), (OperandKind.slotted i.op.signature)[k]? = some .gpr ∧
    i.slots[k]? = some slot ∧ RegMap.guestOf slot = g

/-- The registers of an instruction are the slots that its signature says are registers. -/
theorem mem_gprsIn {kinds : List OperandKind} {slots : List UInt8} {slot : UInt8} :
    slot ∈ gprsIn kinds slots ↔
      ∃ k : Nat, (OperandKind.slotted kinds)[k]? = some .gpr ∧ slots[k]? = some slot := by
  fun_induction gprsIn kinds slots with
  | case1 kinds s slots ih =>
    have hslotted : OperandKind.slotted (.gpr :: kinds) = .gpr :: OperandKind.slotted kinds := rfl
    rw [List.mem_cons, ih, hslotted]
    constructor
    · rintro (rfl | ⟨k, hk⟩)
      · exact ⟨0, rfl, rfl⟩
      · exact ⟨k + 1, hk⟩
    · rintro ⟨k, hkind, hslot⟩
      cases k with
      | zero => exact .inl (Option.some.inj hslot).symm
      | succ k => exact .inr ⟨k, hkind, hslot⟩
  | case2 kinds slots ih => exact ih
  | case3 kind kinds s slots hgpr hconst ih =>
    have hslotted : OperandKind.slotted (kind :: kinds) = kind :: OperandKind.slotted kinds :=
      List.filter_cons_of_pos (by simpa using hconst)
    rw [ih, hslotted]
    constructor
    · rintro ⟨k, hk⟩
      exact ⟨k + 1, hk⟩
    · rintro ⟨k, hkind, hslot⟩
      cases k with
      | zero => exact absurd (Option.some.inj hkind) hgpr
      | succ k => exact ⟨k, hkind, hslot⟩
  | case4 kinds slots h₁ h₂ h₃ =>
    -- one of the two lists has come to its end
    have hend : OperandKind.slotted kinds = [] ∨ slots = [] := by
      cases kinds with
      | nil => exact .inl rfl
      | cons kind kinds =>
        cases slots with
        | nil => exact .inr rfl
        | cons s slots => exact absurd rfl (h₃ kind kinds s slots rfl)
    rcases hend with hend | hend <;> simp [hend]

end Inst

namespace RegMap

/-! ## The next use -/

/-- The positions behind `index` at which a guest register is named. -/
def usesBehind (insts : List Inst) (index : Nat) (g : GuestReg) : Set Nat :=
  {p | index < p ∧ ∃ i, insts[p]? = some i ∧ i.Names g}

/-- The position of the first instruction behind `index` that names a guest register; it is infinite
if none does. -/
noncomputable def nextUseAt (insts : List Inst) (index : Nat) (g : GuestReg) : ℕ∞ :=
  ⨅ p ∈ usesBehind insts index g, (p : ℕ∞)

/-- A number of instructions; if there is no such number, it is infinite. -/
def span : Option Nat → ℕ∞
  | none => ⊤
  | some k => k

/-- A use is later if it is further away, and no use is the furthest. -/
theorem later_iff (a b : Option Nat) : later a b = true ↔ span b < span a := by
  cases a <;> cases b <;> simp [later, span]

/-- Slots below 32 name the register of their number. -/
theorem guestOf_eq_iff {slot : UInt8} (h : slot < 32) (g : GuestReg) :
    guestOf slot = g ↔ slot.toNat = g.val := by
  have hlt : slot.toNat < 32 := UInt8.lt_iff_toNat_lt.mp h
  rw [Fin.ext_iff]
  exact Eq.congr_left (Nat.mod_eq_of_lt hlt)

/-- With such slots, an instruction names a register if it is one of its operands. -/
theorem names_iff {i : Inst} (hslots : ∀ s ∈ i.gprOperands, s < 32) (g : GuestReg) :
    names g i = true ↔ i.Names g := by
  rw [names, List.any_eq_true]
  constructor
  · rintro ⟨slot, hmem, hslot⟩
    obtain ⟨k, hkind, hk⟩ := Inst.mem_gprsIn.mp hmem
    exact ⟨k, slot, hkind, hk, (guestOf_eq_iff (hslots slot hmem) g).mpr (of_decide_eq_true hslot)⟩
  · rintro ⟨k, slot, hkind, hk, hslot⟩
    have hmem : slot ∈ i.gprOperands := Inst.mem_gprsIn.mpr ⟨k, hkind, hk⟩
    exact ⟨slot, hmem, decide_eq_true ((guestOf_eq_iff (hslots slot hmem) g).mp hslot)⟩

variable {m n : RegMap} {staticAlloc : Bool} {g : GuestReg} {mode : MapMode}

/-- Counting from the current instruction on finds the first use behind it. -/
theorem nextUseAt_eq (hslots : ∀ i ∈ m.insts, ∀ s ∈ i.gprOperands, s < 32) (g : GuestReg) :
    nextUseAt m.insts m.index g = span (m.nextUse g) + (m.index + 1 : Nat) := by
  have hnames : ∀ p i, m.insts[p]? = some i → (names g i = true ↔ i.Names g) := fun p i hi =>
    names_iff (hslots i (List.mem_of_getElem? hi)) g
  cases hnext : m.nextUse g with
  | none =>
    have hnone := List.findIdx?_eq_none_iff.mp hnext
    refine le_antisymm le_top (le_iInf₂ fun p hp => ?_)
    obtain ⟨hp, i, hi, huse⟩ := hp
    have hmem : i ∈ m.insts.drop (m.index + 1) := by
      refine List.mem_of_getElem? (i := p - (m.index + 1)) ?_
      rw [List.getElem?_drop, Nat.add_sub_cancel' hp, hi]
    have hfalse := hnone i hmem
    rw [(hnames p i hi).mpr huse] at hfalse
    cases hfalse
  | some k =>
    obtain ⟨hk, huse, hbefore⟩ := List.findIdx?_eq_some_iff_getElem.mp hnext
    have hcast : span (some k) + (m.index + 1 : Nat) = ((m.index + 1 + k : Nat) : ℕ∞) := by
      rw [span, ← Nat.cast_add, Nat.add_comm]
    have hused : m.index + 1 + k ∈ usesBehind m.insts m.index g := by
      rw [List.getElem_drop] at huse
      rw [List.length_drop] at hk
      have hi : m.insts[m.index + 1 + k]? = some _ := List.getElem?_eq_getElem (by omega)
      exact ⟨by omega, _, hi, (hnames _ _ hi).mp huse⟩
    rw [hcast]
    refine le_antisymm (iInf₂_le _ hused) (le_iInf₂ fun p hp => ?_)
    obtain ⟨hp, i, hi, hnamed⟩ := hp
    refine Nat.cast_le.mpr (Nat.le_of_not_lt fun hlt => ?_)
    -- an earlier use would have been found
    have hdrop : (m.insts.drop (m.index + 1))[p - (m.index + 1)]? = some i := by
      rw [List.getElem?_drop, Nat.add_sub_cancel' hp, hi]
    obtain ⟨hlen, heq⟩ := List.getElem?_eq_some_iff.mp hdrop
    refine hbefore (p - (m.index + 1)) (by omega) ?_
    rw [heq]
    exact (hnames p i hi).mpr hnamed

/-- Next uses compare as the map compares them. -/
theorem nextUseAt_lt_iff (hslots : ∀ i ∈ m.insts, ∀ s ∈ i.gprOperands, s < 32) (x g : GuestReg) :
    nextUseAt m.insts m.index x < nextUseAt m.insts m.index g ↔
      span (m.nextUse x) < span (m.nextUse g) := by
  rw [nextUseAt_eq hslots, nextUseAt_eq hslots, ENat.add_lt_add_iff_right (ENat.natCast_ne_top _)]

/-! ## The choice -/

/-- `c` is the first of those among `cs` that are used again latest. -/
def FirstLatest (cs : List (Option Nat × Gpr)) (c : Option Nat × Gpr) : Prop :=
  ∃ before after, cs = before ++ c :: after ∧ (∀ b ∈ before, span b.1 < span c.1) ∧
    ∀ a ∈ after, span a.1 ≤ span c.1

section FirstLatest

variable {cs : List (Option Nat × Gpr)} {b c d : Option Nat × Gpr}

/-- No candidate is used later than the one that is taken. -/
theorem FirstLatest.le (h : FirstLatest cs c) (hd : d ∈ cs) : span d.1 ≤ span c.1 := by
  obtain ⟨before, after, rfl, hbefore, hafter⟩ := h
  rcases List.mem_append.mp hd with hd | hd
  · exact le_of_lt (hbefore d hd)
  · rcases List.mem_cons.mp hd with rfl | hd
    · exact le_refl _
    · exact hafter d hd

/-- One that is used again earlier than the next one is passed over. -/
theorem FirstLatest.pass (h : FirstLatest (d :: cs) c) (hlt : span b.1 < span d.1) :
    FirstLatest (b :: d :: cs) c := by
  have hbest := lt_of_lt_of_le hlt (h.le List.mem_cons_self)
  obtain ⟨before, after, hsplit, hbefore, hafter⟩ := h
  exact ⟨b :: before, after, congrArg (b :: ·) hsplit,
    List.forall_mem_cons.mpr ⟨hbest, hbefore⟩, hafter⟩

/-- One that is not used again later than the one before it changes nothing. -/
theorem FirstLatest.keep (h : FirstLatest (b :: cs) c) (hle : span d.1 ≤ span b.1) :
    FirstLatest (b :: d :: cs) c := by
  obtain ⟨before, after, hsplit, hbefore, hafter⟩ := h
  cases before with
  | nil =>
    obtain ⟨rfl, rfl⟩ := List.cons.inj hsplit
    exact ⟨[], d :: cs, rfl, hbefore, List.forall_mem_cons.mpr ⟨hle, hafter⟩⟩
  | cons e before =>
    obtain ⟨rfl, rfl⟩ := List.cons.inj hsplit
    obtain ⟨hb, hrest⟩ := List.forall_mem_cons.mp hbefore
    refine ⟨b :: d :: before, after, rfl, ?_, hafter⟩
    exact List.forall_mem_cons.mpr
      ⟨hb, List.forall_mem_cons.mpr ⟨lt_of_le_of_lt hle hb, hrest⟩⟩

/-- The scan keeps the first of those that are used again latest. -/
theorem firstLatest_of_latest (h : latest cs = some c) : FirstLatest cs c := by
  -- the best of those already seen stands in front of those still to be seen
  have hfold : ∀ (cs : List (Option Nat × Gpr)) (best : Option Nat × Gpr), FirstLatest (best :: cs)
      (cs.foldl (fun best c => if later c.1 best.1 then c else best) best) := by
    intro cs
    induction cs with
    | nil => exact fun best => ⟨[], [], rfl, by simp, by simp⟩
    | cons d cs ih =>
      intro best
      rw [List.foldl_cons]
      split
      · rename_i hlater
        exact (ih d).pass ((later_iff _ _).mp hlater)
      · rename_i hlater
        exact (ih best).keep (not_lt.mp fun hlt => hlater ((later_iff _ _).mpr hlt))
  cases cs with
  | nil => cases h
  | cons d cs =>
    rw [latest, Option.some.injEq] at h
    rw [← h]
    exact hfold cs d

end FirstLatest

variable {r : Gpr} {c : Option Nat × Gpr}

/-- A host register with the next use of what it holds, if it may be taken away. -/
def candidate (m : RegMap) (r : Gpr) : Option (Option Nat × Gpr) :=
  if m.isLocked r then none else (m.slot r).guest.map fun g => (m.nextUse g, r)

/-- Candidates are the taken registers that are not locked, each with the next use of what it holds.
-/
theorem candidate_eq_some :
    m.candidate r = some c ↔
      m.isLocked r = false ∧ ∃ g, (m.slot r).guest = some g ∧ (m.nextUse g, r) = c := by
  rw [candidate]
  split
  · rename_i hlocked
    simp [hlocked]
  · rename_i hlocked
    simp [hlocked]

/-- What the choice is made from stands in the order in which the hand meets it. -/
theorem farthest_of_latest (h : latest m.candidates = some c) :
    ∃ victim before after, m.fromClock = before ++ c.2 :: after ∧ m.isLocked c.2 = false ∧
      (m.slot c.2).guest = some victim ∧
      (∀ y ∈ before, ∀ x, m.isLocked y = false → (m.slot y).guest = some x →
        span (m.nextUse x) < span (m.nextUse victim)) ∧
      ∀ y ∈ m.fromClock, ∀ x, m.isLocked y = false → (m.slot y).guest = some x →
        span (m.nextUse x) ≤ span (m.nextUse victim) := by
  have hfirst := firstLatest_of_latest h
  obtain ⟨bs, as, hsplit, hbs, -⟩ := id hfirst
  obtain ⟨front, back, hclock, hfront, hback⟩ := List.filterMap_eq_append_iff.mp hsplit
  obtain ⟨skipped, r, after, rfl, hskipped, hr, -⟩ := List.filterMap_eq_cons_iff.mp hback
  obtain ⟨hlocked, victim, hguest, rfl⟩ := candidate_eq_some.mp hr
  refine ⟨victim, front ++ skipped, after, by rw [hclock, List.append_assoc], hlocked, hguest,
    fun y hy x hunlocked hx => ?_, fun y hy x hunlocked hx => ?_⟩
  · have hcandidate := candidate_eq_some.mpr ⟨hunlocked, x, hx, rfl⟩
    rcases List.mem_append.mp hy with hy | hy
    · refine hbs (m.nextUse x, y) ?_
      rw [← hfront]
      exact List.mem_filterMap.mpr ⟨y, hy, hcandidate⟩
    · cases (hskipped y hy).symm.trans hcandidate
  · exact hfirst.le (List.mem_filterMap.mpr ⟨y, hy, candidate_eq_some.mpr ⟨hunlocked, x, hx, rfl⟩⟩)

/-- From the hand on the registers follow each other in a cycle. -/
theorem getElem?_fromClock (hclock : m.clock < m.allocatable.length) {k : Nat}
    (hk : k < m.allocatable.length) :
    m.fromClock[k]? = m.allocatable[(m.clock + k) % m.allocatable.length]? := by
  rw [fromClock, ← List.rotate_eq_drop_append_take (Nat.le_of_lt hclock), List.getElem?_rotate hk,
    Nat.add_comm]

theorem length_fromClock (m : RegMap) : m.fromClock.length = m.allocatable.length := by
  rw [fromClock, List.length_append, Nat.add_comm, ← List.length_append, List.take_append_drop]

/-! ## The clock hand -/

@[simp] theorem clock_release (m : RegMap) (r : Gpr) : (m.release r).1.clock = m.clock := by
  rw [release]
  split <;> rfl

theorem clock_releaseAll (m : RegMap) (rs : List Gpr) : (m.releaseAll rs).1.clock = m.clock := by
  induction rs generalizing m with
  | nil => rfl
  | cons r rs ih => exact (ih _).trans (clock_release m r)

/-- The hand stays where it is or moves on by one place. -/
theorem clock_map (m : RegMap) (g : GuestReg) (mode : MapMode) :
    (m.map g mode).2.1.clock = m.clock ∨
      (m.map g mode).2.1.clock = (m.clock + 1) % max m.allocatable.length 1 := by
  -- the clock moves when a victim is looked for, found or not
  have hallocate : m.allocate.2.1.clock = m.clock ∨
      m.allocate.2.1.clock = (m.clock + 1) % max m.allocatable.length 1 := by
    rw [allocate]
    cases m.allocatable.find? fun r => (m.slot r).guest.isNone with
    | some r => exact .inl rfl
    | none =>
      cases hpick : m.pickVictim with
      | mk victim n =>
        obtain rfl : m.pickVictim.2 = n := congrArg Prod.snd hpick
        cases victim with
        | none => exact .inr rfl
        | some r => exact .inr (clock_release _ r)
  rw [map]
  cases m.mapped? g with
  | some r =>
    left
    dsimp only
    split <;> rfl
  | none =>
    cases hanswer : m.allocate with
    | mk answer x =>
      obtain ⟨n, code⟩ := x
      rw [hanswer] at hallocate
      cases answer with
      | ok r => exact hallocate
      | error e => exact hallocate

/-- The clock always points to a register. -/
theorem clock_serve_lt (h : m.WellFormed staticAlloc)
    (hclock : m.clock < (allocatableRegs staticAlloc).length) (request : MapRequest) :
    (m.serve request).clock < (allocatableRegs staticAlloc).length := by
  have hpos : 0 < (allocatableRegs staticAlloc).length := Nat.lt_of_le_of_lt (Nat.zero_le _) hclock
  cases request with
  | start insts => exact hpos
  | setIndex index => exact hclock
  | map slot mode =>
    rcases clock_map m (guestOf slot) mode with hsame | hmoved
    · rw [serve, hsame]
      exact hclock
    · rw [serve, hmoved, h.allocatable, Nat.max_eq_left hpos]
      exact Nat.mod_lt _ hpos
  | flush slot =>
    rw [serve, flush]
    split
    · rw [clock_release]
      exact hclock
    · exact hclock
  | flushAll gpr fpr =>
    rw [serve]
    split
    · rw [flushAll, clock_releaseAll]
      exact hclock
    · exact hclock

/-- The hand points into the list of registers. -/
theorem clock_serveAll_lt (h : m.WellFormed staticAlloc)
    (hclock : m.clock < (allocatableRegs staticAlloc).length) (requests : List MapRequest) :
    (m.serveAll requests).clock < (allocatableRegs staticAlloc).length := by
  induction requests generalizing m with
  | nil => exact hclock
  | cons request requests ih => exact ih (h.serve request) (clock_serve_lt h hclock request)

/-! ## The block and the position in it -/

/-- Emptying a register leaves the block and the position alone. -/
theorem position_release (m : RegMap) (r : Gpr) :
    ((m.release r).1.insts, (m.release r).1.index) = (m.insts, m.index) := by
  rw [release]
  split <;> rfl

theorem position_releaseAll (m : RegMap) (rs : List Gpr) :
    ((m.releaseAll rs).1.insts, (m.releaseAll rs).1.index) = (m.insts, m.index) := by
  induction rs generalizing m with
  | nil => rfl
  | cons r rs ih => exact (ih (m.release r).1).trans (position_release m r)

/-- Only `start` and `setIndex` change the block and the position. -/
theorem position_serve (m : RegMap) (request : MapRequest) :
    ((m.serve request).insts, (m.serve request).index) = request.position (m.insts, m.index) := by
  cases request with
  | start insts => rfl
  | setIndex index => rfl
  | map slot mode =>
    rw [serve]
    cases hmap : m.map (guestOf slot) mode with
    | mk answer x =>
      obtain ⟨n, code⟩ := x
      cases answer with
      | error e =>
        -- a request that fails moves the clock only
        obtain ⟨-, clock, rfl⟩ := map_eq_error hmap
        rfl
      | ok r =>
        rcases map_eq_ok hmap with ⟨-, -, rfl⟩ | ⟨-, -, k, pre, hroom, rfl, -⟩
        · dsimp only
          split <;> rfl
        · cases hroom with
          | empty hfree => rfl
          | evict clock hlocked => exact position_release _ r
  | flush slot =>
    rw [serve, flush]
    split
    · exact position_release m _
    · rfl
  | flushAll gpr fpr =>
    rw [serve]
    split
    · exact position_releaseAll m _
    · rfl

/-- The block and the position are those that were given last. -/
theorem position_serveAll (m : RegMap) (requests : List MapRequest) :
    ((m.serveAll requests).insts, (m.serveAll requests).index) =
      requests.foldl MapRequest.position (m.insts, m.index) := by
  induction requests generalizing m with
  | nil => rfl
  | cons request requests ih =>
    rw [List.foldl_cons, ← position_serve]
    exact ih (m.serve request)

/-! ## Making room for a guest register -/

/-- With no register free, the chosen one is emptied and filled. -/
theorem map_of_latest (hg : m.mapped? g = none)
    (hfull : ∀ r ∈ m.allocatable, (m.slot r).guest.isSome) (hc : latest m.candidates = some c)
    (mode : MapMode) :
    m.map g mode = (.ok c.2, (m.pickVictim.2.release c.2).1.fill g c.2 mode.writes,
      (m.pickVictim.2.release c.2).2 ++ if mode.reads then [.load32 c.2 (home g)] else []) := by
  have hnone : m.allocatable.find? (fun r => (m.slot r).guest.isNone) = none := by
    rw [List.find?_eq_none]
    intro r hr hfree
    rw [Option.isNone_iff_eq_none] at hfree
    have htaken := hfull r hr
    rw [hfree] at htaken
    cases htaken
  have hpick : m.pickVictim = (some c.2, m.pickVictim.2) := by
    rw [pickVictim, hc]
    rfl
  have hallocate : m.allocate =
      (.ok c.2, (m.pickVictim.2.release c.2).1, (m.pickVictim.2.release c.2).2) := by
    rw [allocate, hnone]
    dsimp only
    rw [hpick]
  rw [map, hg]
  dsimp only
  rw [hallocate]
  rfl

/-- Emptying a register stores what it holds if that has been written. -/
theorem code_release (h : (m.slot r).guest = some g) :
    (m.release r).2 = if (m.slot r).dirty then [.store32 (home g) r] else [] := by
  rw [release, h]

/-- Whatever was requested of the map since it was created, for a block whose register slots are
below 32: if a guest register is in no host register and none of these is free, but one is not
locked, then the guest register gets a host register, from which another one, the victim, goes back
to memory.

* The block and the position in it are those that the map was given last.
* The victim's register is not locked, and no guest register in an unlocked register is next used
  farther behind the current instruction; never is farthest.
* The registers that may be handed out form a cycle.  From the clock hand on, every guest register in
  an unlocked register that stands before the victim's is next used nearer than the victim.
* The hand moves on by one place.  The victim's value is stored if memory is behind, and no other
  guest register changes its place. -/
theorem evicts_farthest_next_use (staticAlloc : Bool) (requests : List MapRequest) {m : RegMap}
    (hm : m = (create staticAlloc).serveAll requests)
    (hslots : ∀ i ∈ m.insts, ∀ s ∈ i.gprOperands, s < 32) {g : GuestReg} (mode : MapMode)
    (hg : m.mapped? g = none)
    (hfull : ∀ r ∈ allocatableRegs staticAlloc, (m.slot r).guest.isSome)
    (hunlocked : ∃ r ∈ allocatableRegs staticAlloc, m.isLocked r = false) :
    (m.insts, m.index) = requests.foldl MapRequest.position ([], 0) ∧
    ∃ victim r n k,
      m.map g mode = (.ok r, n, (if m.isDirty victim then [.store32 (home victim) r] else []) ++
        if mode.reads then [.load32 r (home g)] else []) ∧
      m.mapped? victim = some r ∧ m.isLocked r = false ∧
      (∀ x y, m.mapped? x = some y → m.isLocked y = false →
        nextUseAt m.insts m.index x ≤ nextUseAt m.insts m.index victim) ∧
      k < (allocatableRegs staticAlloc).length ∧
      (allocatableRegs staticAlloc)[(m.clock + k) % (allocatableRegs staticAlloc).length]? = some r ∧
      (∀ j < k, ∀ x y, m.mapped? x = some y → m.isLocked y = false →
        (allocatableRegs staticAlloc)[(m.clock + j) % (allocatableRegs staticAlloc).length]? =
          some y →
        nextUseAt m.insts m.index x < nextUseAt m.insts m.index victim) ∧
      m.clock < (allocatableRegs staticAlloc).length ∧
      n.clock = (m.clock + 1) % (allocatableRegs staticAlloc).length ∧
      n.mapped? victim = none ∧ n.mapped? g = some r ∧
      ∀ x, x ≠ victim → x ≠ g → n.mapped? x = m.mapped? x := by
  refine ⟨hm ▸ position_serveAll (create staticAlloc) requests, ?_⟩
  have hcreate := wellFormed_create staticAlloc
  have h : m.WellFormed staticAlloc := hm ▸ hcreate.serveAll requests
  have hclock : m.clock < (allocatableRegs staticAlloc).length :=
    hm ▸ clock_serveAll_lt hcreate (by cases staticAlloc <;> decide) requests
  have halloc := h.allocatable
  -- an unlocked register is a candidate, so that the scan finds one
  obtain ⟨c, hc⟩ : ∃ c, latest m.candidates = some c := by
    refine Option.ne_none_iff_exists'.mp fun hnone => ?_
    obtain ⟨r, hr, hfree⟩ := hunlocked
    have hlocked := (candidates_eq_nil m).mp (latest_eq_none.mp hnone) r (halloc ▸ hr) (hfull r hr)
    rw [hfree] at hlocked
    cases hlocked
  obtain ⟨victim, before, after, hsplit, hlocked, hguest, hbefore, hall⟩ := farthest_of_latest hc
  have hmapped : m.mapped? victim = some c.2 := (h.inverse _ _).mpr hguest
  have hmem : ∀ x y, m.mapped? x = some y → y ∈ m.fromClock := fun x y hx =>
    (mem_fromClock m y).mpr (halloc ▸ h.handed y x ((h.inverse x y).mp hx))
  have hlength : before.length < m.allocatable.length := by
    rw [← length_fromClock, hsplit, List.length_append, List.length_cons]
    omega
  have hplace : ∀ k < m.allocatable.length, m.fromClock[k]? =
      (allocatableRegs staticAlloc)[(m.clock + k) % (allocatableRegs staticAlloc).length]? := by
    intro k hk
    rw [getElem?_fromClock (halloc ▸ hclock) hk, halloc]
  have hdirty : m.isDirty victim = (m.slot c.2).dirty := by rw [isDirty, hmapped]
  have hpos : 0 < (allocatableRegs staticAlloc).length := Nat.lt_of_le_of_lt (Nat.zero_le _) hclock
  have htick : m.pickVictim.2.Consistent staticAlloc := h.toConsistent.setClock _
  have hcode : (m.pickVictim.2.release c.2).2 =
      if m.isDirty victim then [.store32 (home victim) c.2] else [] := by
    rw [hdirty]
    exact code_release (m := m.pickVictim.2) hguest
  refine ⟨victim, c.2, _, before.length, (map_of_latest hg (halloc ▸ hfull) hc mode).trans
    (by rw [hcode]), hmapped, hlocked, fun x y hx hy => ?_, halloc ▸ hlength, ?_,
    fun j hj x y hx hy hat => ?_, hclock, ?_, ?_, ?_, fun x hvictim hne => ?_⟩
  · refine not_lt.mp fun hlt => absurd ((nextUseAt_lt_iff hslots _ _).mp hlt) (not_lt.mpr ?_)
    exact hall y (hmem x y hx) x hy ((h.inverse x y).mp hx)
  · rw [← hplace _ hlength, hsplit, List.getElem?_append_right (Nat.le_refl _), Nat.sub_self]
    rfl
  · refine (nextUseAt_lt_iff hslots _ _).mpr (hbefore y ?_ x hy ((h.inverse x y).mp hx))
    rw [← hplace j (Nat.lt_trans hj hlength), hsplit, List.getElem?_append_left hj] at hat
    exact List.mem_of_getElem? hat
  · rw [← halloc]
    exact (clock_release _ _).trans (by rw [pickVictim, Nat.max_eq_left (halloc ▸ hpos)])
  · have hne : victim ≠ g := by
      rintro rfl
      rw [hg] at hmapped
      cases hmapped
    rw [mapped?_fill, if_neg hne, mapped?_release htick]
    exact if_pos hmapped
  · rw [mapped?_fill, if_pos rfl]
  · rw [mapped?_fill, if_neg hne, mapped?_release htick]
    exact if_neg fun hx => hvictim (h.toConsistent.guest_inj hx hmapped)

/-- Ten guest registers fill the host registers.  Behind instruction 10, registers 0 and 2 are named
again.  The instruction itself uses register 1 and evicts register 3 to make room for register 20.
-/
def crowdedRequests : List MapRequest :=
  let moves := (List.range 10).map fun i =>
    ({ op := .mov, dest := UInt8.ofNat i, src1 := UInt8.ofNat i } : Inst)
  [.start (moves ++ [{ op := .add, dest := 20, src1 := 1, src2 := 21 },
      { op := .mov, dest := 0, src1 := 0 }, { op := .addConst, dest := 2, src1 := 0 }])] ++
    (List.range 10).flatMap (fun i => [.setIndex i, .map (UInt8.ofNat i) .readWrite]) ++
    [.setIndex 10, .map 1 .read, .map 20 .write]

/-- Register 21 then takes the place of register 4: the hand has moved on to register 1, which is
locked, register 2 is used again, register 20 is locked too, and register 4 comes next. -/
theorem evicts_farthest_next_use_crowdedRequests :
    ∃ m n, m = (create true).serveAll crowdedRequests ∧
      (∀ i ∈ m.insts, ∀ s ∈ i.gprOperands, s < 32) ∧ m.mapped? (guestOf 21) = none ∧
      (∀ r ∈ allocatableRegs true, (m.slot r).guest.isSome) ∧
      (∃ r ∈ allocatableRegs true, m.isLocked r = false) ∧
      m.map (guestOf 21) .read =
        (.ok Gpr.r8, n, [.store32 (home (guestOf 4)) Gpr.r8, .load32 Gpr.r8 (home (guestOf 21))]) ∧
      m.clock = 1 ∧ n.clock = 2 ∧ n.mapped? (guestOf 4) = none ∧
      ∀ x y, m.mapped? x = some y → m.isLocked y = false →
        nextUseAt m.insts m.index x ≤ nextUseAt m.insts m.index (guestOf 4) := by
  have hslots : ∀ i ∈ ((create true).serveAll crowdedRequests).insts, ∀ s ∈ i.gprOperands, s < 32 := by
    decide +kernel
  have hg : ((create true).serveAll crowdedRequests).mapped? (guestOf 21) = none := by
    decide +kernel
  have hfull : ∀ r ∈ allocatableRegs true,
      (((create true).serveAll crowdedRequests).slot r).guest.isSome := by
    decide +kernel
  have hunlocked : ∃ r ∈ allocatableRegs true,
      ((create true).serveAll crowdedRequests).isLocked r = false :=
    ⟨Gpr.rbx, by decide, by decide +kernel⟩
  obtain ⟨-, victim, r, n, k, hmap, hvictim, -, hfarthest, -, -, -, -, hclock, hgone, -⟩ :=
    evicts_farthest_next_use true crowdedRequests rfl hslots .read hg hfull hunlocked
  have hr : r = Gpr.r8 := by
    have hanswer : (((create true).serveAll crowdedRequests).map (guestOf 21) .read).1 =
        .ok Gpr.r8 := by decide +kernel
    rw [hmap] at hanswer
    exact Except.ok.inj hanswer
  subst hr
  have hfour : ((create true).serveAll crowdedRequests).mapped? (guestOf 4) = some Gpr.r8 := by
    decide +kernel
  obtain rfl := ((wellFormed_create true).serveAll crowdedRequests).guest_inj hvictim hfour
  have hdirty : ((create true).serveAll crowdedRequests).isDirty (guestOf 4) = true := by
    decide +kernel
  have hhand : ((create true).serveAll crowdedRequests).clock = 1 := by decide +kernel
  rw [hdirty] at hmap
  rw [hhand] at hclock
  exact ⟨_, n, rfl, hslots, hg, hfull, hunlocked, hmap, hhand, hclock, hgone, hfarthest⟩

end RegMap

end Dynarec
