import Mathlib.Data.List.Induction
import Dynarec.Proofs.Lower.RegMap

/-!
# Where guest registers reside

The map is used by requests in any order, and a request may fail.  Whatever was requested since the
map was created, it is well formed (`RegMap.WellFormed`), and what it has handed out for the current
instruction stays where it is (`residents_stay`).

Shape of the argument:

1. every request keeps the map well formed (`WellFormed.serve`), so all of them do;
2. the locked registers are those handed out since the last `start` or `setIndex`
   (`isLocked_iff_granted`): a flush empties a register without unlocking it, and a register that is
   handed out is locked whether it was free or taken from another guest register;
3. a guest register in a locked register is moved only by a flush (`Resident.serve`), and a request
   finds no register exactly if all of them are taken and locked (`map_eq_noFreeRegister`).
-/

namespace Dynarec

/-- A request to the map of guest registers. -/
inductive MapRequest where
  | start (insts : List Inst)
  | setIndex (index : Nat)
  | map (slot : UInt8) (mode : MapMode)
  | flush (slot : UInt8)
  /-- Guest registers of two kinds go back to memory; only general-purpose ones are ever elsewhere. -/
  | flushAll (gpr fpr : Bool)
  deriving DecidableEq, Repr

namespace MapRequest

/-- The request does not unlock the registers handed out before it. -/
def keepsLocks : MapRequest → Bool
  | start _ | setIndex _ => false
  | map _ _ | flush _ | flushAll _ _ => true

/-- The request neither unlocks registers nor sends this guest register back. -/
def spares (g : GuestReg) : MapRequest → Bool
  | start _ | setIndex _ => false
  | map _ _ => true
  | flush slot => RegMap.guestOf slot ≠ g
  | flushAll gpr _ => !gpr

/-- The block and the position in it after a request: a new block starts at its first instruction.
-/
def position (p : List Inst × Nat) : MapRequest → List Inst × Nat
  | start insts => (insts, 0)
  | setIndex index => (p.1, index)
  | map _ _ | flush _ | flushAll _ _ => p

end MapRequest

namespace RegMap

/-- The map after a request, whether that succeeds or fails. -/
def serve (m : RegMap) : MapRequest → RegMap
  | .start insts => m.start insts
  | .setIndex index => m.setIndex index
  | .map slot mode => (m.map (guestOf slot) mode).2.1
  | .flush slot => (m.flush (guestOf slot)).1
  | .flushAll gpr _ => if gpr then m.flushAll.1 else m

/-- The map after requests one after the other. -/
def serveAll (m : RegMap) (requests : List MapRequest) : RegMap :=
  requests.foldl serve m

/-- One of the requests put the guest register of a slot into `r`, and `since` holds of all requests
behind it. -/
def Granted (m : RegMap) (requests : List MapRequest) (since : MapRequest → Bool) (slot : UInt8)
    (r : Gpr) : Prop :=
  ∃ early mode late, requests = early ++ .map slot mode :: late ∧
    ((m.serveAll early).map (guestOf slot) mode).1 = .ok r ∧ late.all since

/-- The two directions of the map are inverse to each other, only registers that may be handed out
hold anything, and a register that holds nothing is clean. -/
structure WellFormed (m : RegMap) (staticAlloc : Bool) : Prop extends m.Consistent staticAlloc where
  clean : ∀ r, (m.slot r).guest = none → (m.slot r).dirty = false

/-- A guest register is in a host register that is locked. -/
structure Resident (m : RegMap) (g : GuestReg) (r : Gpr) : Prop where
  mapped : m.mapped? g = some r
  locked : m.isLocked r = true

variable {m n : RegMap} {staticAlloc : Bool} {g : GuestReg} {mode : MapMode} {r : Gpr}
  {e : EncodingError} {code : List Insn}

/-! ## Well-formed maps -/

/-- At the start of a block all registers are empty. -/
theorem slot_start (m : RegMap) (insts : List Inst) (r : Gpr) : (m.start insts).slot r = {} := by
  simp [start, slot, Vector.get]

/-- A map that has just been started is well formed. -/
theorem wellFormed_start (insts : List Inst) (h : m.allocatable = allocatableRegs staticAlloc) :
    (m.start insts).WellFormed staticAlloc :=
  ⟨consistent_start m insts h, fun r _ => by rw [slot_start]⟩

/-- So is one that has just been created. -/
theorem wellFormed_create (staticAlloc : Bool) : (create staticAlloc).WellFormed staticAlloc :=
  wellFormed_start (m := create staticAlloc) [] rfl

/-- Emptying a register leaves it clean. -/
theorem WellFormed.release (h : m.WellFormed staticAlloc) (r : Gpr) :
    (m.release r).1.WellFormed staticAlloc := by
  refine ⟨h.toConsistent.release r, fun x hx => ?_⟩
  rw [slot_release] at hx ⊢
  split
  · rfl
  · rename_i hne
    rw [if_neg hne] at hx
    exact h.clean x hx

/-- Emptying registers keeps the map well formed. -/
theorem WellFormed.releaseAll (h : m.WellFormed staticAlloc) (rs : List Gpr) :
    (m.releaseAll rs).1.WellFormed staticAlloc := by
  induction rs generalizing m with
  | nil => exact h
  | cons r rs ih => exact ih (h.release r)

/-- Locks, clock and position do not matter. -/
theorem WellFormed.congr (h : m.WellFormed staticAlloc) (hallocatable : n.allocatable = m.allocatable)
    (hhost : n.host = m.host) (hguest : n.guest = m.guest) : n.WellFormed staticAlloc := by
  refine ⟨h.toConsistent.congr hallocatable hhost hguest, fun r => ?_⟩
  rw [slot, hhost]
  exact h.clean r

/-- Making room keeps the map well formed. -/
theorem Room.wellFormed {pre : List Insn} (hroom : Room m r n pre) (h : m.WellFormed staticAlloc) :
    n.WellFormed staticAlloc := by
  cases hroom with
  | empty hfree => exact h
  | evict clock hlocked =>
    have hclock : ({ m with clock } : RegMap).WellFormed staticAlloc := h.congr rfl rfl rfl
    exact hclock.release r

/-- A guest register is put into a host register, or is there already. -/
theorem WellFormed.map (h : m.WellFormed staticAlloc) (hmap : m.map g mode = (.ok r, n, code)) :
    n.WellFormed staticAlloc := by
  refine ⟨h.toConsistent.map hmap, fun x hx => ?_⟩
  rcases map_eq_ok hmap with ⟨hg, -, rfl⟩ | ⟨-, -, k, pre, hroom, rfl, -⟩
  · by_cases hwrites : mode.writes = true
    · -- only a register that holds something is marked as changed
      rw [if_pos hwrites] at hx ⊢
      rw [guest_touch, slot_lock] at hx
      have hne : x ≠ r := by
        rintro rfl
        rw [h.inverse, hx] at hg
        cases hg
      rw [slot_touch, if_neg hne]
      exact h.clean x hx
    · rw [if_neg hwrites] at hx ⊢
      exact h.clean x hx
  · by_cases hx' : x = r
    · rw [slot_fill, if_pos hx'] at hx
      cases hx
    · rw [slot_fill, if_neg hx'] at hx ⊢
      exact (hroom.wellFormed h).clean x hx

/-- Every request keeps the map well formed. -/
theorem WellFormed.serve (h : m.WellFormed staticAlloc) (request : MapRequest) :
    (m.serve request).WellFormed staticAlloc := by
  cases request with
  | start insts => exact wellFormed_start insts h.allocatable
  | setIndex index => exact h.congr rfl rfl rfl
  | map slot mode =>
    rw [RegMap.serve]
    cases hmap : m.map (guestOf slot) mode with
    | mk answer x =>
      obtain ⟨n, code⟩ := x
      cases answer with
      | ok r => exact h.map hmap
      | error e =>
        obtain ⟨-, clock, rfl⟩ := map_eq_error hmap
        exact h.congr rfl rfl rfl
  | flush slot =>
    rw [RegMap.serve, flush]
    split
    · exact h.release _
    · exact h
  | flushAll gpr fpr =>
    rw [RegMap.serve]
    split
    · exact h.releaseAll _
    · exact h

/-- So do all requests. -/
theorem WellFormed.serveAll (h : m.WellFormed staticAlloc) (requests : List MapRequest) :
    (m.serveAll requests).WellFormed staticAlloc := by
  induction requests generalizing m with
  | nil => exact h
  | cons request requests ih => exact ih (h.serve request)

/-! ## Locked registers -/

theorem contains_empty : ∀ r : Gpr, RegSet.empty.contains (.ofGpr r) = false := by
  decide

/-- At the start of a block nothing is locked. -/
theorem isLocked_start (m : RegMap) (insts : List Inst) (r : Gpr) :
    (m.start insts).isLocked r = false :=
  contains_empty r

/-- At the start of an instruction nothing is locked. -/
theorem isLocked_setIndex (m : RegMap) (index : Nat) (r : Gpr) :
    (m.setIndex index).isLocked r = false :=
  contains_empty r

/-- A request unlocks all registers, or locks the one that it hands out. -/
theorem isLocked_serve (m : RegMap) (request : MapRequest) (r : Gpr) :
    (m.serve request).isLocked r = true ↔ (m.isLocked r = true ∧ request.keepsLocks = true) ∨
      ∃ slot mode, request = .map slot mode ∧ (m.map (guestOf slot) mode).1 = .ok r := by
  cases request with
  | start insts => simp [serve, isLocked_start, MapRequest.keepsLocks]
  | setIndex index => simp [serve, isLocked_setIndex, MapRequest.keepsLocks]
  | map slot mode =>
    simp only [serve, MapRequest.keepsLocks, and_true, MapRequest.map.injEq]
    cases hmap : m.map (guestOf slot) mode with
    | mk answer x =>
      obtain ⟨n, code⟩ := x
      cases answer with
      | ok x =>
        rw [isLocked_map hmap, Bool.or_eq_true, decide_eq_true_eq, or_comm]
        refine or_congr_right ⟨?_, ?_⟩
        · rintro rfl
          exact ⟨slot, mode, ⟨rfl, rfl⟩, by rw [hmap]⟩
        · rintro ⟨_, _, ⟨rfl, rfl⟩, hanswer⟩
          rw [hmap] at hanswer
          exact (Except.ok.inj hanswer).symm
      | error e =>
        -- a request that fails moves the clock and locks nothing
        obtain ⟨-, clock, rfl⟩ := map_eq_error hmap
        refine ⟨.inl, ?_⟩
        rintro (hlocked | ⟨_, _, ⟨rfl, rfl⟩, hanswer⟩)
        · exact hlocked
        · rw [hmap] at hanswer
          cases hanswer
  | flush slot =>
    simp only [serve, MapRequest.keepsLocks, and_true, reduceCtorEq, false_and, exists_false, or_false]
    rw [flush]
    split
    · rw [isLocked_release]
    · exact Iff.rfl
  | flushAll gpr fpr =>
    simp only [serve, MapRequest.keepsLocks, and_true, reduceCtorEq, false_and, exists_false, or_false]
    split
    · rw [flushAll, isLocked_releaseAll]
    · exact Iff.rfl

theorem serveAll_concat (m : RegMap) (requests : List MapRequest) (request : MapRequest) :
    m.serveAll (requests ++ [request]) = (m.serveAll requests).serve request :=
  List.foldl_append

/-- What one more request does to the grants. -/
theorem granted_concat {requests : List MapRequest} {request : MapRequest}
    {since : MapRequest → Bool} {slot : UInt8} :
    m.Granted (requests ++ [request]) since slot r ↔
      (m.Granted requests since slot r ∧ since request = true) ∨
      ∃ mode, request = .map slot mode ∧ ((m.serveAll requests).map (guestOf slot) mode).1 = .ok r := by
  constructor
  · rintro ⟨early, mode, late, happend, hanswer, hsince⟩
    rcases List.eq_nil_or_concat late with rfl | ⟨late, request', rfl⟩
    · obtain ⟨rfl, hlast⟩ := List.append_inj' happend rfl
      exact .inr ⟨mode, List.singleton_inj.mp hlast, hanswer⟩
    · rw [List.concat_eq_append, ← List.cons_append, ← List.append_assoc] at happend
      obtain ⟨rfl, hlast⟩ := List.append_inj' happend rfl
      obtain rfl := List.singleton_inj.mp hlast
      rw [List.concat_eq_append, List.all_append, Bool.and_eq_true] at hsince
      exact .inl ⟨⟨early, mode, late, rfl, hanswer, hsince.1⟩, by simpa using hsince.2⟩
  · rintro (⟨⟨early, mode, late, rfl, hanswer, hsince⟩, hrequest⟩ | ⟨mode, rfl, hanswer⟩)
    · refine ⟨early, mode, late ++ [request], by simp, hanswer, ?_⟩
      rw [List.all_append, hsince]
      simpa using hrequest
    · exact ⟨requests, mode, [], rfl, hanswer, rfl⟩

/-- The locked registers are those handed out since registers were last unlocked. -/
theorem isLocked_iff_granted (staticAlloc : Bool) (requests : List MapRequest) (r : Gpr) :
    ((create staticAlloc).serveAll requests).isLocked r = true ↔
      ∃ slot, (create staticAlloc).Granted requests MapRequest.keepsLocks slot r := by
  induction requests using List.reverseRecOn with
  | nil =>
    have hnone : (create staticAlloc).isLocked r = false := isLocked_start (create staticAlloc) [] r
    refine ⟨fun hlocked => ?_, ?_⟩
    · exact absurd (hnone.symm.trans hlocked) (by decide)
    · rintro ⟨slot, early, mode, late, happend, -⟩
      simp at happend
  | append_singleton requests request ih =>
    rw [serveAll_concat, isLocked_serve, ih]
    simp only [granted_concat, exists_or, exists_and_right]

/-! ## Registers of the current instruction -/

/-- A guest register in a locked register stays there until it is sent back or registers are
unlocked. -/
theorem Resident.serve (hresident : m.Resident g r) (h : m.WellFormed staticAlloc)
    {request : MapRequest} (hspares : request.spares g = true) :
    (m.serve request).Resident g r := by
  -- what spares a register also keeps its lock
  have hkeeps : request.keepsLocks = true := by
    cases request with
    | start insts => exact hspares
    | setIndex index => exact hspares
    | map slot mode => rfl
    | flush slot => rfl
    | flushAll gpr fpr => rfl
  refine ⟨?_, (isLocked_serve m request r).mpr (.inl ⟨hresident.locked, hkeeps⟩)⟩
  cases request with
  | start insts => cases hspares
  | setIndex index => cases hspares
  | map slot mode =>
    rw [RegMap.serve]
    cases hmap : m.map (guestOf slot) mode with
    | mk answer x =>
      obtain ⟨n, code⟩ := x
      cases answer with
      | ok y => exact mapped?_map_of_locked h.toConsistent hmap hresident.mapped hresident.locked
      | error e =>
        obtain ⟨-, clock, rfl⟩ := map_eq_error hmap
        exact hresident.mapped
  | flush slot =>
    have hne : guestOf slot ≠ g := of_decide_eq_true hspares
    rw [RegMap.serve, flush]
    split
    · rename_i y hy
      -- the register that is emptied holds another guest register, since no two share one
      have hother : m.mapped? g ≠ some y := fun hg => hne (h.toConsistent.guest_inj hy hg)
      rw [mapped?_release h.toConsistent, if_neg hother]
      exact hresident.mapped
    · exact hresident.mapped
  | flushAll gpr fpr =>
    have hgpr : gpr = false := by simpa [MapRequest.spares] using hspares
    rw [RegMap.serve, hgpr]
    exact hresident.mapped

/-- What was handed out and not sent back since is where it was put. -/
theorem resident_of_granted (h : m.WellFormed staticAlloc) {requests : List MapRequest} {slot : UInt8}
    (hgranted : m.Granted requests (MapRequest.spares (guestOf slot)) slot r) :
    (m.serveAll requests).Resident (guestOf slot) r := by
  induction requests using List.reverseRecOn with
  | nil =>
    obtain ⟨early, mode, late, happend, -⟩ := hgranted
    simp at happend
  | append_singleton requests request ih =>
    rw [serveAll_concat]
    rcases granted_concat.mp hgranted with ⟨hbefore, hspares⟩ | ⟨mode, rfl, hanswer⟩
    · exact (ih hbefore).serve (h.serveAll requests) hspares
    · refine ⟨?_, (isLocked_serve _ _ _).mpr (.inr ⟨slot, mode, rfl, hanswer⟩)⟩
      exact mapped?_map (Prod.ext hanswer rfl)

/-! ## Running out of registers -/

/-- One of the candidates is taken, if there are any. -/
theorem latest_eq_none {cs : List (Option Nat × Gpr)} : latest cs = none ↔ cs = [] := by
  cases cs with
  | nil => exact ⟨fun _ => rfl, fun _ => rfl⟩
  | cons c cs => exact ⟨nofun, nofun⟩

/-- The clock goes round all registers that may be handed out. -/
theorem mem_fromClock (m : RegMap) (r : Gpr) : r ∈ m.fromClock ↔ r ∈ m.allocatable := by
  rw [fromClock, List.mem_append, or_comm, ← List.mem_append, List.take_append_drop]

/-- Nothing can be taken away if every register that holds something is locked. -/
theorem candidates_eq_nil (m : RegMap) :
    m.candidates = [] ↔ ∀ r ∈ m.allocatable, (m.slot r).guest.isSome → m.isLocked r = true := by
  rw [candidates, List.filterMap_eq_nil_iff]
  refine forall_congr' fun r => ?_
  rw [mem_fromClock]
  refine forall_congr' fun _ => ?_
  cases m.isLocked r <;> cases (m.slot r).guest <;> simp

/-- A guest register finds no place exactly if every register that may be handed out holds another
one and is locked. -/
theorem map_eq_noFreeRegister (hg : m.mapped? g = none) (mode : MapMode) :
    (m.map g mode).1 = .error .noFreeRegister ↔
      ∀ r ∈ m.allocatable, (m.slot r).guest.isSome ∧ m.isLocked r = true := by
  rw [map, hg]
  simp only [allocate]
  cases hfree : m.allocatable.find? fun r => (m.slot r).guest.isNone with
  | some r =>
    have hempty := List.find?_some hfree
    constructor
    · intro h
      cases h
    · intro hall
      obtain ⟨htaken, -⟩ := hall r (List.mem_of_find?_eq_some hfree)
      simp only [Option.isNone_iff_eq_none] at hempty
      rw [hempty] at htaken
      cases htaken
  | none =>
    have htaken : ∀ r ∈ m.allocatable, (m.slot r).guest.isSome := by
      simpa [Option.isSome_iff_ne_none] using hfree
    -- with all registers taken, candidates are those that are not locked
    have hlocked : m.candidates = [] ↔ ∀ r ∈ m.allocatable, (m.slot r).guest.isSome ∧
        m.isLocked r = true := by
      rw [candidates_eq_nil]
      exact forall₂_congr fun r hr =>
        ⟨fun h => ⟨htaken r hr, h (htaken r hr)⟩, fun h _ => h.2⟩
    rw [← hlocked, ← latest_eq_none]
    simp only [pickVictim]
    cases latest m.candidates with
    | none => exact ⟨fun _ => rfl, fun _ => rfl⟩
    | some c => constructor <;> intro h <;> cases h

/-- That is the only failure, and it happens to guest registers that are in no register. -/
theorem error_of_map (hmap : m.map g mode = (.error e, n, code)) :
    e = .noFreeRegister ∧ m.mapped? g = none := by
  rw [map] at hmap
  split at hmap
  · cases hmap
  · rename_i hnone
    refine ⟨?_, hnone⟩
    split at hmap
    · rename_i hallocate
      cases hmap
      rw [allocate] at hallocate
      split at hallocate
      · cases hallocate
      · split at hallocate
        · cases hallocate
          rfl
        · cases hallocate
    · cases hmap

/-! ## All requests -/

/-- The registers that are handed out are none of those that compiled code needs for itself. -/
theorem not_reserved_of_allocatable {staticAlloc : Bool} {r : Gpr}
    (hr : r ∈ allocatableRegs staticAlloc) :
    r ∉ [Gpr.rax, Gpr.rdx, Gpr.rsp, Gpr.rbp, Gpr.r14] ∧ (staticAlloc → r ≠ Gpr.r15) := by
  revert r
  cases staticAlloc <;> decide

/-- Whatever was requested of the map since it was created, and whether requests failed or not:

* a guest register is in a host register exactly if the host register holds it, only registers that
  may be handed out hold anything, and a register that holds nothing is clean;
* a guest register that was put somewhere for the current instruction and not sent back since is
  still there, and no other one is;
* the locked registers are those handed out for the current instruction, and a guest register that is
  nowhere is refused exactly if every register is taken and locked.  Nothing else makes a request
  fail, and no code is emitted then and no register changes hands. -/
theorem residents_stay (staticAlloc : Bool) (requests : List MapRequest) {m : RegMap}
    (hm : m = (create staticAlloc).serveAll requests) :
    (∀ g r, m.mapped? g = some r ↔ (m.slot r).guest = some g) ∧
    (∀ r, (m.slot r).guest.isSome → r ∈ allocatableRegs staticAlloc ∧
      r ∉ [Gpr.rax, Gpr.rdx, Gpr.rsp, Gpr.rbp, Gpr.r14] ∧ (staticAlloc → r ≠ Gpr.r15)) ∧
    (∀ r, (m.slot r).guest = none → (m.slot r).dirty = false) ∧
    (∀ slot r, (create staticAlloc).Granted requests (MapRequest.spares (guestOf slot)) slot r →
      m.mapped? (guestOf slot) = some r ∧ ∀ g, m.mapped? g = some r → g = guestOf slot) ∧
    (∀ r, m.isLocked r = true ↔
      ∃ slot, (create staticAlloc).Granted requests MapRequest.keepsLocks slot r) ∧
    (∀ g mode, m.mapped? g = none → ((m.map g mode).1 = .error .noFreeRegister ↔
      ∀ r ∈ allocatableRegs staticAlloc, (m.slot r).guest.isSome ∧ m.isLocked r = true)) ∧
    ∀ g mode e n code, m.map g mode = (.error e, n, code) →
      e = .noFreeRegister ∧ m.mapped? g = none ∧ code = [] ∧ n.host = m.host ∧ n.guest = m.guest ∧
        n.locked = m.locked := by
  subst hm
  have hcreate := wellFormed_create staticAlloc
  have h := hcreate.serveAll requests
  refine ⟨h.inverse, fun r hr => ?_, h.clean, fun slot r hgranted => ?_,
    isLocked_iff_granted staticAlloc requests, fun g mode hg => ?_, fun g mode e n code hmap => ?_⟩
  · obtain ⟨g, hg⟩ := Option.isSome_iff_exists.mp hr
    exact ⟨h.handed r g hg, not_reserved_of_allocatable (h.handed r g hg)⟩
  · have hresident := resident_of_granted hcreate hgranted
    exact ⟨hresident.mapped, fun g hg => h.toConsistent.guest_inj hg hresident.mapped⟩
  · rw [map_eq_noFreeRegister hg, h.allocatable]
  · obtain ⟨he, hnone⟩ := error_of_map hmap
    obtain ⟨hcode, clock, rfl⟩ := map_eq_error hmap
    exact ⟨he, hnone, hcode, rfl, rfl, rfl⟩

/-- One instruction asks for as many guest registers as there are host registers.  The first goes
back, so its register is free though still locked, and the next guest register gets it. -/
def fullRequests : List MapRequest :=
  [.start [], .setIndex 3] ++ (List.range 10).map (fun i => .map (UInt8.ofNat i) .readWrite) ++
    [.flush 0, .map 12 .read]

/-- Every register is taken and locked then, guest register 12 is where register 0 was, register 1
has stayed, and one more is refused. -/
theorem residents_stay_fullRequests :
    ∃ m, m = (create true).serveAll fullRequests ∧
      (create true).Granted fullRequests (MapRequest.spares (guestOf 1)) 1 Gpr.rcx ∧
      m.mapped? (guestOf 1) = some Gpr.rcx ∧ m.mapped? (guestOf 12) = some Gpr.rbx ∧
      m.mapped? (guestOf 0) = none ∧ (m.map (guestOf 0) .read).1 = .error .noFreeRegister := by
  obtain ⟨-, -, -, hstay, -, hrefused, -⟩ := residents_stay true fullRequests rfl
  have hgranted : (create true).Granted fullRequests (MapRequest.spares (guestOf 1)) 1 Gpr.rcx :=
    ⟨fullRequests.take 3, .readWrite, fullRequests.drop 4, by decide, by decide +kernel,
      by decide +kernel⟩
  have hnone : ((create true).serveAll fullRequests).mapped? (guestOf 0) = none := by
    decide +kernel
  exact ⟨_, rfl, hgranted, (hstay 1 Gpr.rcx hgranted).1, by decide +kernel, hnone,
    (hrefused (guestOf 0) .read hnone).mpr (by decide +kernel)⟩

end RegMap

end Dynarec
