import Dynarec.Lower.RegMap
import Dynarec.Proofs.Machine.Cpu

/-!
# The map of guest registers

`RegMap.Consistent` is the invariant of the map: the two directions of the map are inverse to each
other, and only registers that may be handed out hold anything.

Shape of the argument: a host register is emptied by `release` and filled by `fill`.  What these do
to the map is said once (`slot_release`, `mapped?_release`, `slot_fill`, `mapped?_fill`), and `map`
is made of them (`map_eq_ok`).  That the map stays consistent, and that what the current
instruction has locked stays where it is (`mapped?_map_of_locked`), follows.
-/

namespace Dynarec

/-! ## Register sets -/

namespace RegSet

/-- Masking a union of bits is the union of the masked bits. -/
theorem or_and_distrib (a b c : UInt64) : (a ||| b) &&& c = (a &&& c) ||| (b &&& c) := by
  apply UInt64.toBitVec_inj.mp
  ext i
  simp [Bool.and_or_distrib_right]

/-- Registers have bits of their own. -/
theorem bit_and_bit : ∀ a b : Gpr,
    bit (HostReg.ofGpr b).id &&& bit (HostReg.ofGpr a).id =
      if a = b then bit (HostReg.ofGpr a).id else 0 := by
  decide

/-- No register is without a bit. -/
theorem bit_ne_zero : ∀ a : Gpr, bit (HostReg.ofGpr a).id ≠ 0 := by
  decide

/-- Adding a general-purpose register adds it and no other. -/
theorem contains_insert_ofGpr (s : RegSet) (r x : Gpr) :
    (s.insert (.ofGpr r)).contains (.ofGpr x) = (decide (x = r) || s.contains (.ofGpr x)) := by
  have hid : ∀ g : Gpr, (HostReg.ofGpr g).id < 64 := by decide
  have hbank : ∀ g : Gpr, (HostReg.ofGpr g).bank = 0 := fun _ => rfl
  simp only [insert, contains, hid, hbank, if_true, modifyBank, bits, decide_true, Bool.true_and]
  rw [or_and_distrib, bit_and_bit]
  by_cases h : x = r
  · simp [h, bit_ne_zero]
  · simp [h]

end RegSet

namespace RegMap

/-! ## Reading the map -/

/-- Replacing what one host register holds leaves the others. -/
theorem slot_setSlot (m : RegMap) (r x : Gpr) (s : HostSlot) :
    (m.setSlot r s).slot x = if x = r then s else m.slot x :=
  vector_get_set m.host r x s

/-- Replacing where one guest register is leaves the others. -/
theorem mapped?_setGuest (m : RegMap) (g x : GuestReg) (r : Option Gpr) :
    (m.setGuest g r).mapped? x = if x = g then r else m.mapped? x :=
  vector_get_set m.guest g x r

@[simp] theorem slot_setGuest (m : RegMap) (g : GuestReg) (r : Option Gpr) (x : Gpr) :
    (m.setGuest g r).slot x = m.slot x := rfl

@[simp] theorem mapped?_setSlot (m : RegMap) (r : Gpr) (s : HostSlot) (x : GuestReg) :
    (m.setSlot r s).mapped? x = m.mapped? x := rfl

@[simp] theorem slot_lock (m : RegMap) (r x : Gpr) : (m.lock r).slot x = m.slot x := rfl

@[simp] theorem mapped?_lock (m : RegMap) (r : Gpr) (g : GuestReg) :
    (m.lock r).mapped? g = m.mapped? g := rfl

/-- Locking a register leaves the others as they were, locked or not. -/
theorem isLocked_lock (m : RegMap) (r x : Gpr) :
    (m.lock r).isLocked x = (decide (x = r) || m.isLocked x) :=
  RegSet.contains_insert_ofGpr m.locked r x

/-- The invariant of the map. -/
structure Consistent (m : RegMap) (staticAlloc : Bool) : Prop where
  allocatable : m.allocatable = allocatableRegs staticAlloc
  /-- A guest register is in a host register exactly if the host register holds it. -/
  inverse : ∀ g r, m.mapped? g = some r ↔ (m.slot r).guest = some g
  /-- Only registers that may be handed out hold anything. -/
  handed : ∀ r g, (m.slot r).guest = some g → r ∈ allocatableRegs staticAlloc

/-- A map that is started has no guest register in a host register. -/
theorem mapped?_start (m : RegMap) (insts : List Inst) (g : GuestReg) :
    (m.start insts).mapped? g = none := by
  simp [start, mapped?, Vector.get]

/-- A map that is started is consistent, whatever it was before. -/
theorem consistent_start (m : RegMap) (insts : List Inst) {staticAlloc : Bool}
    (h : m.allocatable = allocatableRegs staticAlloc) : (m.start insts).Consistent staticAlloc := by
  have hslot : ∀ r, (m.start insts).slot r = {} := fun r => by
    simp [start, slot, Vector.get]
  refine ⟨h, fun g r => ?_, fun r g hr => ?_⟩
  · simp [hslot, mapped?_start]
  · simp [hslot] at hr

/-- Changes that do not concern where registers are. -/
theorem Consistent.congr {m n : RegMap} {staticAlloc : Bool} (h : m.Consistent staticAlloc)
    (hallocatable : n.allocatable = m.allocatable) (hhost : n.host = m.host)
    (hguest : n.guest = m.guest) : n.Consistent staticAlloc := by
  refine ⟨hallocatable.trans h.allocatable, fun g r => ?_, fun r g hr => ?_⟩
  · rw [mapped?, slot, hhost, hguest]
    exact h.inverse g r
  · rw [slot, hhost] at hr
    exact h.handed r g hr

/-- A host register holds one guest register. -/
theorem Consistent.guest_inj {m : RegMap} {staticAlloc : Bool} (h : m.Consistent staticAlloc)
    {g x : GuestReg} {r : Gpr} (hg : m.mapped? g = some r) (hx : m.mapped? x = some r) : g = x := by
  rw [h.inverse] at hg hx
  exact Option.some.inj (hg.symm.trans hx)

/-! ## Emptying a host register -/

/-- A register that is released is empty, and the others keep what they hold. -/
theorem slot_release (m : RegMap) (r x : Gpr) :
    (m.release r).1.slot x = if x = r then {} else m.slot x := by
  rw [release]
  split
  · exact slot_setSlot m r x {}
  · rw [slot_setSlot, slot_setGuest]

/-- Emptying a host register takes the guest register that it holds out of the map. -/
theorem mapped?_release {m : RegMap} {staticAlloc : Bool} (h : m.Consistent staticAlloc) (r : Gpr)
    (g : GuestReg) :
    (m.release r).1.mapped? g = if m.mapped? g = some r then none else m.mapped? g := by
  rw [release]
  split
  · rename_i hempty
    have hne : m.mapped? g ≠ some r := by
      rw [Ne, h.inverse, hempty]
      simp
    rw [mapped?_setSlot, if_neg hne]
  · rename_i x hx
    rw [mapped?_setSlot, mapped?_setGuest]
    have hiff : m.mapped? g = some r ↔ g = x := by
      rw [h.inverse, hx, Option.some.injEq, eq_comm]
    simp only [hiff]

@[simp] theorem allocatable_release (m : RegMap) (r : Gpr) :
    (m.release r).1.allocatable = m.allocatable := by
  rw [release]
  split <;> rfl

@[simp] theorem isLocked_release (m : RegMap) (r x : Gpr) :
    (m.release r).1.isLocked x = m.isLocked x := by
  rw [release]
  split <;> rfl

/-- Emptying a register keeps the map consistent. -/
theorem Consistent.release {m : RegMap} {staticAlloc : Bool} (h : m.Consistent staticAlloc)
    (r : Gpr) : (m.release r).1.Consistent staticAlloc := by
  refine ⟨(allocatable_release m r).trans h.allocatable, fun g x => ?_, fun x g hx => ?_⟩
  · rw [mapped?_release h, slot_release]
    by_cases hx : x = r
    · rw [if_pos hx, hx]
      constructor
      · intro hg
        split at hg
        · cases hg
        · rename_i hne
          exact absurd hg hne
      · simp
    · rw [if_neg hx, ← h.inverse]
      constructor
      · intro hg
        split at hg
        · cases hg
        · exact hg
      · intro hg
        -- what is in another register is not in the one that is emptied
        have hne : m.mapped? g ≠ some r := by
          rw [hg]
          simpa using hx
        rw [if_neg hne, hg]
  · rw [slot_release] at hx
    split at hx
    · cases hx
    · exact h.handed x g hx

theorem allocatable_releaseAll (m : RegMap) (rs : List Gpr) :
    (m.releaseAll rs).1.allocatable = m.allocatable := by
  induction rs generalizing m with
  | nil => rfl
  | cons r rs ih =>
    rw [releaseAll, ih, release]
    split <;> rfl

/-- The registers of a list are emptied, and the others keep what they hold. -/
theorem slot_releaseAll (m : RegMap) (rs : List Gpr) (x : Gpr) :
    (m.releaseAll rs).1.slot x = if rs.contains x then {} else m.slot x := by
  induction rs generalizing m with
  | nil => simp [releaseAll]
  | cons r rs ih =>
    rw [releaseAll, ih, slot_release]
    by_cases hmem : x ∈ rs <;> by_cases hx : x = r <;> simp [hmem, hx]

theorem isLocked_releaseAll (m : RegMap) (rs : List Gpr) (x : Gpr) :
    (m.releaseAll rs).1.isLocked x = m.isLocked x := by
  induction rs generalizing m with
  | nil => rfl
  | cons r rs ih => exact (ih _).trans (isLocked_release m r x)

/-- Sending everything back a second time does nothing. -/
theorem flushAll_flushAll (m : RegMap) : m.flushAll.1.flushAll = (m.flushAll.1, []) := by
  have hnone : m.flushAll.1.allocatable.filter (fun r => (m.flushAll.1.slot r).guest.isSome) =
      [] := by
    rw [List.filter_eq_nil_iff]
    intro r hr hsome
    rw [flushAll, allocatable_releaseAll] at hr
    rw [flushAll, slot_releaseAll] at hsome
    split at hsome
    · cases hsome
    · rename_i hnot
      exact hnot (List.contains_iff_mem.mpr (List.mem_filter.mpr ⟨hr, hsome⟩))
  rw [flushAll, hnone, releaseAll]

/-- Emptying registers keeps the map consistent, and leaves where they are the guest registers that
are in none of them. -/
theorem mapped?_releaseAll {m : RegMap} {staticAlloc : Bool} (h : m.Consistent staticAlloc)
    (rs : List Gpr) :
    (m.releaseAll rs).1.Consistent staticAlloc ∧
      ∀ g r, (m.releaseAll rs).1.mapped? g = some r → m.mapped? g = some r ∧ r ∉ rs := by
  induction rs generalizing m with
  | nil => exact ⟨h, fun g r hg => ⟨hg, by simp⟩⟩
  | cons r rs ih =>
    obtain ⟨hconsistent, hkept⟩ := ih (h.release r)
    refine ⟨hconsistent, fun g x hx => ?_⟩
    obtain ⟨hg, hnot⟩ := hkept g x hx
    rw [mapped?_release h] at hg
    split at hg
    · cases hg
    · rename_i hne
      refine ⟨hg, fun hmem => ?_⟩
      rcases List.mem_cons.mp hmem with heq | hmem
      · exact hne (heq ▸ hg)
      · exact hnot hmem

/-- Emptying all registers keeps the map consistent. -/
theorem Consistent.flushAll {m : RegMap} {staticAlloc : Bool} (h : m.Consistent staticAlloc) :
    m.flushAll.1.Consistent staticAlloc :=
  (mapped?_releaseAll h _).1

/-- After all guest registers have been sent back, none is in a host register. -/
theorem mapped?_flushAll {m : RegMap} {staticAlloc : Bool} (h : m.Consistent staticAlloc)
    (g : GuestReg) : m.flushAll.1.mapped? g = none := by
  cases hg : m.flushAll.1.mapped? g with
  | none => rfl
  | some r =>
    obtain ⟨hmapped, hnot⟩ := (mapped?_releaseAll h _).2 g r hg
    have hguest := (h.inverse g r).mp hmapped
    refine absurd ?_ hnot
    rw [List.mem_filter, h.allocatable]
    exact ⟨h.handed r g hguest, by rw [hguest]; rfl⟩

/-! ## Making room -/

/-- `n` is `m` with the host register `r` emptied by the code `pre`: either it was empty, or what it
held has gone back to memory, which happens only to registers that are not locked. -/
inductive Room (m : RegMap) (r : Gpr) : RegMap → List Insn → Prop
  | empty (hfree : (m.slot r).guest = none) : Room m r m []
  | evict (clock : Nat) (hlocked : m.isLocked r = false) :
    Room m r ({ m with clock }.release r).1 ({ m with clock }.release r).2

/-- The candidate that is used again last is one of the candidates. -/
theorem mem_of_latest {cs : List (Option Nat × Gpr)} {c : Option Nat × Gpr}
    (h : latest cs = some c) : c ∈ cs := by
  have hfold : ∀ (cs : List (Option Nat × Gpr)) (b : Option Nat × Gpr),
      cs.foldl (fun best c => if later c.1 best.1 then c else best) b ∈ b :: cs := by
    intro cs
    induction cs with
    | nil => simp
    | cons d cs ih =>
      intro b
      rw [List.foldl_cons]
      split
      · exact List.mem_cons_of_mem b (ih d)
      · rcases List.mem_cons.mp (ih b) with heq | hmem
        · exact List.mem_cons.mpr (.inl heq)
        · exact List.mem_cons_of_mem b (List.mem_cons_of_mem d hmem)
  cases cs with
  | nil => cases h
  | cons d cs =>
    rw [latest, Option.some.injEq] at h
    rw [← h]
    exact hfold cs d

/-- The register that is taken away may be handed out and is not locked. -/
theorem pickVictim_eq_some {m n : RegMap} {r : Gpr} (h : m.pickVictim = (some r, n)) :
    r ∈ m.allocatable ∧ m.isLocked r = false ∧ ∃ clock, n = { m with clock } := by
  rw [pickVictim, Prod.mk.injEq, Option.map_eq_some_iff] at h
  obtain ⟨⟨c, hc, rfl⟩, rfl⟩ := h
  have hmem := mem_of_latest hc
  rw [candidates, List.mem_filterMap] at hmem
  obtain ⟨x, hx, hsome⟩ := hmem
  rw [fromClock, List.mem_append] at hx
  split at hsome
  · cases hsome
  · rename_i hlocked
    obtain ⟨g, _, rfl⟩ := Option.map_eq_some_iff.mp hsome
    refine ⟨?_, by simpa using hlocked, _, rfl⟩
    rcases hx with hx | hx
    · exact List.mem_of_mem_drop hx
    · exact List.mem_of_mem_take hx

/-- A register that is handed out is one that may be, and there is room in it. -/
theorem allocate_eq_ok {m n : RegMap} {r : Gpr} {code : List Insn}
    (h : m.allocate = (.ok r, n, code)) : r ∈ m.allocatable ∧ Room m r n code := by
  rw [allocate] at h
  split at h
  · rename_i x hx
    obtain ⟨rfl, rfl, rfl⟩ : x = r ∧ m = n ∧ [] = code := by simpa using h
    have hfree := List.find?_some hx
    exact ⟨List.mem_of_find?_eq_some hx, .empty (by simpa using hfree)⟩
  · split at h
    · cases h
    · rename_i x k hpick
      obtain ⟨hmem, hlocked, clock, rfl⟩ := pickVictim_eq_some hpick
      obtain ⟨rfl, rfl, rfl⟩ : x = r ∧ ({ m with clock }.release x).1 = n ∧
          ({ m with clock }.release x).2 = code := by simpa [Prod.ext_iff] using h
      exact ⟨hmem, .evict clock hlocked⟩

section Room

variable {m n : RegMap} {r : Gpr} {pre : List Insn} {staticAlloc : Bool}

/-- The clock hand does not matter. -/
theorem Consistent.setClock (h : m.Consistent staticAlloc) (clock : Nat) :
    ({ m with clock } : RegMap).Consistent staticAlloc :=
  h.congr rfl rfl rfl

/-- Making room keeps the map consistent. -/
theorem Room.consistent (hroom : Room m r n pre) (h : m.Consistent staticAlloc) :
    n.Consistent staticAlloc := by
  cases hroom with
  | empty hfree => exact h
  | evict clock hlocked => exact (h.setClock clock).release r

/-- A register in which room has been made is empty. -/
theorem Room.free (hroom : Room m r n pre) : (n.slot r).guest = none := by
  cases hroom with
  | empty hfree => exact hfree
  | evict clock hlocked => rw [slot_release, if_pos rfl]

/-- Making room locks and unlocks nothing. -/
theorem Room.isLocked (hroom : Room m r n pre) (x : Gpr) : n.isLocked x = m.isLocked x := by
  cases hroom with
  | empty hfree => rfl
  | evict clock hlocked => exact isLocked_release _ r x

/-- A guest register that is not in the emptied register stays where it is. -/
theorem Room.mapped? (hroom : Room m r n pre) (h : m.Consistent staticAlloc) {g : GuestReg}
    (hg : m.mapped? g ≠ some r) : n.mapped? g = m.mapped? g := by
  cases hroom with
  | empty hfree => rfl
  | evict clock hlocked =>
    rw [mapped?_release (h.setClock clock)]
    exact if_neg hg

/-- The other host registers hold what they held. -/
theorem Room.slot (hroom : Room m r n pre) {x : Gpr} (hx : x ≠ r) : n.slot x = m.slot x := by
  cases hroom with
  | empty hfree => rfl
  | evict clock hlocked =>
    rw [slot_release]
    exact if_neg hx

/-- A guest register in a locked register stays where it is. -/
theorem Room.mapped?_of_locked (hroom : Room m r n pre) (h : m.Consistent staticAlloc)
    {g : GuestReg} {x : Gpr} (hg : m.mapped? g = some x) (hx : m.isLocked x) :
    n.mapped? g = some x := by
  rw [hroom.mapped? h, hg]
  rw [hg]
  intro heq
  obtain rfl := Option.some.inj heq
  cases hroom with
  | empty hfree =>
    rw [h.inverse] at hg
    rw [hfree] at hg
    cases hg
  | evict clock hlocked =>
    rw [hlocked] at hx
    cases hx

end Room

/-! ## Filling a host register -/

/-- Puts a guest register into an empty host register and locks that. -/
def fill (m : RegMap) (g : GuestReg) (r : Gpr) (dirty : Bool) : RegMap :=
  ((m.setSlot r { guest := some g, dirty }).setGuest g (some r)).lock r

/-- A register that is filled holds the guest register, and the others keep what they hold. -/
theorem slot_fill (m : RegMap) (g : GuestReg) (r x : Gpr) (dirty : Bool) :
    (m.fill g r dirty).slot x = if x = r then { guest := some g, dirty } else m.slot x :=
  slot_setSlot m r x _

/-- The guest register is in that register then, and the others are where they were. -/
theorem mapped?_fill (m : RegMap) (g x : GuestReg) (r : Gpr) (dirty : Bool) :
    (m.fill g r dirty).mapped? x = if x = g then some r else m.mapped? x :=
  mapped?_setGuest _ g x _

/-- A register that is filled is locked. -/
theorem isLocked_fill (m : RegMap) (g : GuestReg) (r x : Gpr) (dirty : Bool) :
    (m.fill g r dirty).isLocked x = (decide (x = r) || m.isLocked x) :=
  isLocked_lock _ r x

/-- Putting a guest register that is nowhere into an empty register keeps the map consistent. -/
theorem Consistent.fill {m : RegMap} {staticAlloc : Bool} (h : m.Consistent staticAlloc)
    {g : GuestReg} {r : Gpr} (hg : m.mapped? g = none) (hr : (m.slot r).guest = none)
    (hmem : r ∈ allocatableRegs staticAlloc) (dirty : Bool) :
    (m.fill g r dirty).Consistent staticAlloc := by
  refine ⟨h.allocatable, fun x y => ?_, fun y x hy => ?_⟩
  · rw [mapped?_fill, slot_fill]
    by_cases hx : x = g <;> by_cases hy : y = r
    · simp [hx, hy]
    · have hne : (m.slot y).guest ≠ some g := by
        rw [Ne, ← h.inverse, hg]
        simp
      simp [hx, hy, Ne.symm hy, hne]
    · have hne : m.mapped? x ≠ some r := by
        rw [Ne, h.inverse, hr]
        simp
      simp [hx, hy, hne, Ne.symm hx]
    · simp [hx, hy, h.inverse]
  · rw [slot_fill] at hy
    split at hy
    · rename_i heq
      rw [heq]
      exact hmem
    · exact h.handed y x hy

/-- Marks what a host register holds as changed. -/
def touch (m : RegMap) (r : Gpr) : RegMap :=
  m.setSlot r { m.slot r with dirty := true }

/-- Marking a register as changed sets its mark and nothing else. -/
theorem slot_touch (m : RegMap) (r x : Gpr) :
    (m.touch r).slot x = if x = r then { m.slot r with dirty := true } else m.slot x :=
  slot_setSlot m r x _

@[simp] theorem mapped?_touch (m : RegMap) (r : Gpr) (g : GuestReg) :
    (m.touch r).mapped? g = m.mapped? g := rfl

/-- A register that is marked holds what it held. -/
theorem guest_touch (m : RegMap) (r x : Gpr) : ((m.touch r).slot x).guest = (m.slot x).guest := by
  rw [slot_touch]
  split
  · rename_i heq
    rw [heq]
  · rfl

/-- A register without the mark had none before another one was marked. -/
theorem clean_of_touch {m : RegMap} {r x : Gpr} (h : ((m.touch r).slot x).dirty = false) :
    (m.slot x).dirty = false := by
  rw [slot_touch] at h
  split at h
  · cases h
  · exact h

/-- Marking a register as changed keeps the map consistent. -/
theorem Consistent.touch {m : RegMap} {staticAlloc : Bool} (h : m.Consistent staticAlloc)
    (r : Gpr) : (m.touch r).Consistent staticAlloc := by
  refine ⟨h.allocatable, fun g x => ?_, fun x g hx => ?_⟩
  · rw [mapped?_touch, guest_touch]
    exact h.inverse g x
  · rw [guest_touch] at hx
    exact h.handed x g hx

/-! ## Mapping a guest register -/

/-- How a guest register gets into a host register: it is there already, or room is made for it. -/
theorem map_eq_ok {m n : RegMap} {g : GuestReg} {mode : MapMode} {r : Gpr} {code : List Insn}
    (h : m.map g mode = (.ok r, n, code)) :
    (m.mapped? g = some r ∧ code = [] ∧
      n = if mode.writes then (m.lock r).touch r else m.lock r) ∨
    (m.mapped? g = none ∧ r ∈ m.allocatable ∧ ∃ k pre, Room m r k pre ∧
      n = k.fill g r mode.writes ∧
      code = pre ++ if mode.reads then [.load32 r (home g)] else []) := by
  rw [map] at h
  split at h
  · rename_i x hx
    obtain ⟨rfl, rfl, rfl⟩ : x = r ∧ (if mode.writes then (m.lock x).touch x else m.lock x) = n ∧
        [] = code := by
      simpa [touch] using h
    exact .inl ⟨hx, rfl, rfl⟩
  · rename_i hnone
    split at h
    · cases h
    · rename_i x k pre hallocate
      obtain ⟨hmem, hroom⟩ := allocate_eq_ok hallocate
      obtain ⟨rfl, rfl, rfl⟩ : x = r ∧ k.fill g x mode.writes = n ∧
          (pre ++ if mode.reads then [.load32 x (home g)] else []) = code := by
        simpa [fill] using h
      exact .inr ⟨hnone, hmem, k, pre, hroom, rfl, rfl⟩

/-- Without a register to take away, only the clock hand moves on. -/
theorem map_eq_error {m n : RegMap} {g : GuestReg} {mode : MapMode} {e : EncodingError}
    {code : List Insn} (h : m.map g mode = (.error e, n, code)) :
    code = [] ∧ ∃ clock, n = { m with clock } := by
  rw [map] at h
  split at h
  · cases h
  · split at h
    · rename_i hallocate
      cases h
      rw [allocate] at hallocate
      split at hallocate
      · cases hallocate
      · split at hallocate
        · rename_i k hpick
          cases hallocate
          exact ⟨rfl, _, (congrArg Prod.snd hpick).symm⟩
        · cases hallocate
    · cases h

section Map

variable {m n : RegMap} {g : GuestReg} {mode : MapMode} {r : Gpr} {code : List Insn}
  {staticAlloc : Bool}

/-- Mapping a guest register keeps the map consistent. -/
theorem Consistent.map (h : m.Consistent staticAlloc) (hmap : m.map g mode = (.ok r, n, code)) :
    n.Consistent staticAlloc := by
  rcases map_eq_ok hmap with ⟨_, _, rfl⟩ | ⟨hnone, hmem, k, pre, hroom, rfl, _⟩
  · have hlock : (m.lock r).Consistent staticAlloc := h.congr rfl rfl rfl
    split
    · exact hlock.touch r
    · exact hlock
  · rw [h.allocatable] at hmem
    refine (hroom.consistent h).fill ?_ hroom.free hmem mode.writes
    rw [hroom.mapped? h (by rw [hnone]; simp), hnone]

/-- The guest register is where the answer says. -/
theorem mapped?_map (hmap : m.map g mode = (.ok r, n, code)) : n.mapped? g = some r := by
  rcases map_eq_ok hmap with ⟨hg, _, rfl⟩ | ⟨_, _, k, pre, _, rfl, _⟩
  · split
    · exact hg
    · exact hg
  · rw [mapped?_fill, if_pos rfl]

/-- The register that is handed out is locked then, and no other one is unlocked. -/
theorem isLocked_map (hmap : m.map g mode = (.ok r, n, code)) (x : Gpr) :
    n.isLocked x = (decide (x = r) || m.isLocked x) := by
  rcases map_eq_ok hmap with ⟨_, _, rfl⟩ | ⟨_, _, k, pre, hroom, rfl, _⟩
  · rw [← isLocked_lock]
    split <;> rfl
  · rw [isLocked_fill, hroom.isLocked]

/-- What the current instruction has locked stays where it is. -/
theorem mapped?_map_of_locked (h : m.Consistent staticAlloc)
    (hmap : m.map g mode = (.ok r, n, code)) {x : GuestReg} {y : Gpr} (hx : m.mapped? x = some y)
    (hy : m.isLocked y) : n.mapped? x = some y := by
  rcases map_eq_ok hmap with ⟨_, _, rfl⟩ | ⟨hnone, _, k, pre, hroom, rfl, _⟩
  · split
    · exact hx
    · exact hx
  · have hne : x ≠ g := by
      rintro rfl
      rw [hnone] at hx
      cases hx
    rw [mapped?_fill, if_neg hne, hroom.mapped?_of_locked h hx hy]

/-- A register that is mapped to be written is marked as changed. -/
theorem dirty_map (hmap : m.map g mode = (.ok r, n, code)) (hwrites : mode.writes) :
    (n.slot r).dirty = true := by
  rcases map_eq_ok hmap with ⟨_, _, rfl⟩ | ⟨_, _, k, pre, _, rfl, _⟩
  · rw [if_pos hwrites, slot_touch, if_pos rfl]
  · rw [slot_fill, if_pos rfl, hwrites]

/-- What has been changed in a locked register stays marked. -/
theorem dirty_map_of_locked (h : m.Consistent staticAlloc)
    (hmap : m.map g mode = (.ok r, n, code)) {x : GuestReg} {y : Gpr} (hx : m.mapped? x = some y)
    (hy : m.isLocked y) (hdirty : (m.slot y).dirty = true) : (n.slot y).dirty = true := by
  rcases map_eq_ok hmap with ⟨_, _, rfl⟩ | ⟨_, _, k, pre, hroom, rfl, _⟩
  · split
    · rw [slot_touch]
      split
      · rfl
      · exact hdirty
    · exact hdirty
  · have hne : y ≠ r := by
      rintro rfl
      have hheld := (hroom.consistent h).inverse x y |>.mp (hroom.mapped?_of_locked h hx hy)
      rw [hroom.free] at hheld
      cases hheld
    rw [slot_fill, if_neg hne, hroom.slot hne]
    exact hdirty

end Map

end RegMap

end Dynarec
