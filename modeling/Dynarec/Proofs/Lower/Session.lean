import Dynarec.Proofs.Lower.Sim

/-!
# Sessions with the register map

The map hands out host registers to a client, which asks for guest registers in any order and, in
between, writes to the registers that it was given.  A `Session` carries out the emitted code at
once.  Beside the map and the processor it keeps the last value that the client gave each guest
register, the host registers that the client may write to, and the guest registers that it *owes* a
value: they have a register to be written, but nothing has been loaded into it.

A client keeps to the rules (`Session.Disciplined`) if it writes only to registers that it was given
for writing by the current instruction, and pays what it owes before it moves on or sends the
register back.  Then no value is lost or invented (`disciplined_session_keeps_values`).

Shape of the argument: whatever is in the registers, there is a guest that the machine is in step
with (`Sim`), and the emitted code keeps it so.  The client's values are those of that guest, but
for what it owes (`Session.Faithful`).  Every request keeps this (`Faithful.serve`), so all of them
do.
-/

namespace Dynarec

open Lower

/-- What a client of the register map does: the requests to the map, and writing to a register. -/
inductive MapCall where
  | setIndex (index : Nat)
  | map (slot : UInt8) (mode : MapMode)
  | flush (slot : UInt8)
  /-- Sends guest registers back; only general-purpose ones are ever in host registers. -/
  | flushAll (gpr : Bool)
  | assign (r : Gpr) (v : UInt64)
  deriving DecidableEq, Repr

/-- The state of a client and of the machine that runs the code emitted for it. -/
structure Session where
  map : RegMap
  cpu : Cpu
  /-- The last value that the client gave each guest register. -/
  value : Vector UInt32 32
  /-- The host registers that the client may write to. -/
  writable : List Gpr := []
  /-- The guest registers that the client has to give a value. -/
  owed : List GuestReg := []

theorem GuestReg.val_lt (g : GuestReg) : g.val < 32 := g.isLt

namespace Session

/-- A session at the start of a block. -/
def start (staticAlloc : Bool) (insts : List Inst) (cpu : Cpu) : Session :=
  { map := (RegMap.create staticAlloc).start insts, cpu, value := cpu.context.gpr }

/-- Runs emitted code and goes on with another map. -/
def emit (s : Session) (x : RegMap × List Insn) : Except Fault Session :=
  (Cpu.execList x.2 s.cpu).map fun cpu => { s with map := x.1, cpu }

/-- The client has been given a host register for a guest register. -/
def grant (s : Session) (g : GuestReg) (mode : MapMode) (r : Gpr) : Session :=
  { s with
    writable := if mode.writes then r :: s.writable else s.writable
    owed := if mode.reads || (s.map.mapped? g).isSome then s.owed else g :: s.owed }

/-- The client writes to a host register, and so to the guest register in it. -/
def assign (s : Session) (r : Gpr) (v : UInt64) : Session :=
  match (s.map.slot r).guest with
  | some g =>
    { s with
      cpu := s.cpu.setReg r v
      value := s.value.set g.val v.toUInt32 (GuestReg.val_lt g)
      owed := s.owed.filter (· ≠ g) }
  | none => { s with cpu := s.cpu.setReg r v }

/-- Carries out a request. -/
def serve (s : Session) : MapCall → Except Fault Session
  | .setIndex index => .ok { s with map := s.map.setIndex index, writable := [] }
  | .map slot mode =>
    match s.map.map (RegMap.guestOf slot) mode with
    | (.error _, x) => s.emit x
    | (.ok r, x) => (s.grant (RegMap.guestOf slot) mode r).emit x
  | .flush slot =>
    { s with
      writable := s.writable.filter (s.map.mapped? (RegMap.guestOf slot) ≠ some ·) }.emit
        (s.map.flush (RegMap.guestOf slot))
  | .flushAll true => { s with writable := [] }.emit s.map.flushAll
  | .flushAll false => .ok s
  | .assign r v => .ok (s.assign r v)

/-- Carries out requests one after the other. -/
def serveAll (s : Session) : List MapCall → Except Fault Session
  | [] => .ok s
  | call :: calls =>
    match s.serve call with
    | .ok t => t.serveAll calls
    | .error f => .error f

/-- What a client may do: it writes to its own registers only, and pays what it owes before it moves
on to another instruction or sends the register back. -/
def Permits (s : Session) : MapCall → Prop
  | .setIndex _ => s.owed = []
  | .map _ _ => True
  | .flush slot => RegMap.guestOf slot ∉ s.owed
  | .flushAll gpr => gpr → s.owed = []
  | .assign r _ => r ∈ s.writable

instance Permits.decidable (s : Session) : (call : MapCall) → Decidable (s.Permits call)
  | .setIndex _ => inferInstanceAs (Decidable (s.owed = []))
  | .map _ _ => inferInstanceAs (Decidable True)
  | .flush slot => inferInstanceAs (Decidable (RegMap.guestOf slot ∉ s.owed))
  | .flushAll gpr => inferInstanceAs (Decidable (gpr → s.owed = []))
  | .assign r _ => inferInstanceAs (Decidable (r ∈ s.writable))

/-- A client keeps to the rules as long as it is served. -/
def Disciplined (s : Session) : List MapCall → Prop
  | [] => True
  | call :: calls => s.Permits call ∧ ∀ t, s.serve call = .ok t → t.Disciplined calls

instance Disciplined.decidable : (s : Session) → (calls : List MapCall) →
    Decidable (s.Disciplined calls)
  | _, [] => .isTrue trivial
  | s, call :: calls =>
    match hserve : s.serve call with
    | .ok t =>
      have := decidable t calls
      decidable_of_iff (s.Permits call ∧ t.Disciplined calls) (by simp [Disciplined, hserve])
    | .error _ => decidable_of_iff (s.Permits call) (by simp [Disciplined, hserve])

/-- The value of a guest register, wherever it is. -/
def view (s : Session) (g : GuestReg) : UInt32 :=
  match s.map.mapped? g with
  | some r => s.cpu.reg32 r
  | none => s.cpu.context.gpr.get g

/-! ## The invariant -/

/-- Machine and guest are in step; the client's values are those of the guest, but for what it owes;
and it owes only what it has a register for, which is locked. -/
structure Faithful (staticAlloc : Bool) (frame : Cpu) (g : Guest Unit) (s : Session) : Prop where
  consistent : s.map.Consistent staticAlloc
  sim : Sim staticAlloc frame s.map none g s.cpu
  value : ∀ x ∉ s.owed, g.context.gpr.get x = s.value.get x
  granted : ∀ r ∈ s.writable, s.map.isLocked r ∧
    ∃ x, s.map.mapped? x = some r ∧ (s.map.slot r).dirty = true
  owed : ∀ x ∈ s.owed, ∃ r ∈ s.writable, s.map.mapped? x = some r

variable {staticAlloc : Bool} {frame : Cpu} {g : Guest Unit} {s t : Session}

/-- At the start of a session, the map is faithful to the guest in memory. -/
theorem faithful_start (staticAlloc : Bool) (insts : List Inst) {cpu : Cpu}
    (hbase : cpu.reg Gpr.context = contextBase) :
    (start staticAlloc insts cpu).Faithful staticAlloc cpu (cpu.guest staticAlloc ()) where
  consistent := RegMap.consistent_start _ insts rfl
  sim := (Cpu.synced_guest staticAlloc hbase ()).sim (RegMap.mapped?_start _ insts)
  value x _ := by
    cases staticAlloc <;> rfl
  granted r hr := by cases hr
  owed x hx := by cases hx

/-! ## One request -/

/-- It stays so from one instruction to the next, if nothing is owed. -/
theorem Faithful.setIndex (h : s.Faithful staticAlloc frame g) (howed : s.owed = []) (index : Nat) :
    Faithful staticAlloc frame g { s with map := s.map.setIndex index, writable := [] } where
  consistent := h.consistent.congr rfl rfl rfl
  sim := h.sim.congr_map (fun _ => rfl) fun _ hd => hd
  value := h.value
  granted r hr := by cases hr
  owed x hx := by
    rw [howed] at hx
    cases hx

section

variable {x : GuestReg} {mode : MapMode} {r : Gpr} {n : RegMap} {code : List Insn}

/-- A register that is granted for writing may be written. -/
theorem mem_writable_grant {y : Gpr} :
    y ∈ (s.grant x mode r).writable ↔ (mode.writes = true ∧ y = r) ∨ y ∈ s.writable := by
  cases mode <;> simp [grant, MapMode.writes]

/-- A register that is granted for writing only, and was nowhere before, is owed a value. -/
theorem mem_owed_grant {y : GuestReg} :
    y ∈ (s.grant x mode r).owed ↔
      (mode = .write ∧ s.map.mapped? x = none ∧ y = x) ∨ y ∈ s.owed := by
  cases mode <;> cases hx : s.map.mapped? x <;> simp [grant, MapMode.reads, hx]

/-- Registers that the client may write to are locked, and stay where they are when it is given
another one. -/
theorem Faithful.mapped?_map (h : s.Faithful staticAlloc frame g)
    (hmap : s.map.map x mode = (.ok r, n, code)) {y : Gpr} (hy : y ∈ s.writable) {z : GuestReg}
    (hz : s.map.mapped? z = some y) : n.mapped? z = some y :=
  RegMap.mapped?_map_of_locked h.consistent hmap hz (h.granted y hy).1

/-- A register has been handed out. -/
theorem Faithful.handOut (h : s.Faithful staticAlloc frame g)
    (hmap : s.map.map x mode = (.ok r, n, code)) {g' : Guest Unit} {c : Cpu}
    (hsim : Sim staticAlloc frame n none g' c)
    (hvalue : ∀ y ∉ (s.grant x mode r).owed, g'.context.gpr.get y = s.value.get y) :
    Faithful staticAlloc frame g' { s.grant x mode r with map := n, cpu := c } where
  consistent := h.consistent.map hmap
  sim := hsim
  value := hvalue
  granted y hy := by
    have hy : y ∈ (s.grant x mode r).writable := hy
    rcases mem_writable_grant.mp hy with ⟨hwrites, rfl⟩ | hold
    · refine ⟨?_, x, RegMap.mapped?_map hmap, RegMap.dirty_map hmap hwrites⟩
      rw [RegMap.isLocked_map hmap, decide_eq_true rfl, Bool.true_or]
    · obtain ⟨hlocked, z, hz, hdirty⟩ := h.granted y hold
      refine ⟨?_, z, h.mapped?_map hmap hold hz,
        RegMap.dirty_map_of_locked h.consistent hmap hz hlocked hdirty⟩
      rw [RegMap.isLocked_map hmap, hlocked, Bool.or_true]
  owed y hy := by
    have hy : y ∈ (s.grant x mode r).owed := hy
    show ∃ z ∈ (s.grant x mode r).writable, n.mapped? y = some z
    rcases mem_owed_grant.mp hy with ⟨rfl, -, rfl⟩ | hold
    · exact ⟨r, mem_writable_grant.mpr (.inl ⟨rfl, rfl⟩), RegMap.mapped?_map hmap⟩
    · obtain ⟨z, hz, hmapped⟩ := h.owed y hold
      exact ⟨z, mem_writable_grant.mpr (.inr hz), h.mapped?_map hmap hz hmapped⟩

end

/-- Emitted code is executed at once. -/
theorem emit_of_ok {x : RegMap × List Insn} {c : Cpu} (h : Cpu.execList x.2 s.cpu = .ok c) :
    s.emit x = .ok { s with map := x.1, cpu := c } := by
  rw [emit, h]
  rfl

/-- Asking for a guest register. -/
theorem Faithful.map (h : s.Faithful staticAlloc frame g) (slot : UInt8) (mode : MapMode) :
    ∃ t g', s.serve (.map slot mode) = .ok t ∧ t.Faithful staticAlloc frame g' := by
  rw [serve]
  split
  · rename_i e x hmap
    obtain ⟨n, code⟩ := x
    obtain ⟨rfl, clock, rfl⟩ := RegMap.map_eq_error hmap
    exact ⟨_, g, rfl, h.consistent.setClock clock, h.sim.congr_map (fun _ => rfl) fun _ hd => hd,
      h.value, h.granted, h.owed⟩
  · rename_i r x hmap
    obtain ⟨n, code⟩ := x
    by_cases hnew : mode = .write ∧ s.map.mapped? (RegMap.guestOf slot) = none
    · -- The register may hold anything; let the guest have that value until the client writes one.
      obtain ⟨rfl, hnone⟩ := hnew
      obtain ⟨gpr, hexec, hsim⟩ := h.sim.map_writes h.consistent hmap
      have hclosed := hsim.close (RegMap.mapped?_map hmap) (RegMap.dirty_map hmap rfl) rfl
      refine ⟨_, _, emit_of_ok hexec, h.handOut hmap hclosed fun y hy => ?_⟩
      have hy := not_or.mp (mt mem_owed_grant.mpr hy)
      have hne : y ≠ RegMap.guestOf slot := fun heq => hy.1 ⟨rfl, hnone, heq⟩
      refine Eq.trans ?_ (h.value y hy.2)
      exact (vector_get_set _ _ _ _).trans (if_neg hne)
    · have hsim : ∃ d, Cpu.execList code s.cpu = .ok d ∧ Sim staticAlloc frame n none g d := by
        by_cases hreads : mode.reads
        · exact h.sim.map_reads h.consistent hmap hreads
        · have hwrite : mode = .write := by
            cases mode <;> first | rfl | exact absurd rfl hreads
          obtain ⟨rfl, hsim⟩ := h.sim.map_again (fun hnone => hnew ⟨hwrite, hnone⟩) hmap
          exact ⟨s.cpu, rfl, hsim⟩
      obtain ⟨d, hexec, hsim⟩ := hsim
      refine ⟨_, g, emit_of_ok hexec, h.handOut hmap hsim fun y hy => h.value y fun hmem => ?_⟩
      exact hy (mem_owed_grant.mpr (.inr hmem))

/-- Sending a guest register back. -/
theorem Faithful.flush (h : s.Faithful staticAlloc frame g) {slot : UInt8}
    (howed : RegMap.guestOf slot ∉ s.owed) :
    ∃ t, s.serve (.flush slot) = .ok t ∧ t.Faithful staticAlloc frame g := by
  rw [serve]
  cases hx : s.map.mapped? (RegMap.guestOf slot) with
  | none =>
    have hflush : s.map.flush (RegMap.guestOf slot) = (s.map, []) := by rw [RegMap.flush, hx]
    rw [hflush]
    refine ⟨_, rfl, h.consistent, h.sim, h.value, fun r hr => h.granted r (List.mem_filter.mp hr).1,
      fun x hmem => ?_⟩
    obtain ⟨r, hr, hmapped⟩ := h.owed x hmem
    exact ⟨r, List.mem_filter.mpr ⟨hr, by simp⟩, hmapped⟩
  | some y =>
    have hflush : s.map.flush (RegMap.guestOf slot) = s.map.release y := by rw [RegMap.flush, hx]
    rw [hflush]
    obtain ⟨gpr, hexec, hsim⟩ := h.sim.release h.consistent y
    have hkept {z : GuestReg} {r : Gpr} (hz : s.map.mapped? z = some r) (hne : r ≠ y) :
        (s.map.release y).1.mapped? z = some r := by
      rw [RegMap.mapped?_release h.consistent, if_neg (by rw [hz]; simpa using hne), hz]
    refine ⟨_, emit_of_ok hexec, h.consistent.release y, hsim, h.value, fun r hr => ?_,
      fun x hmem => ?_⟩
    · obtain ⟨hr, hne⟩ := List.mem_filter.mp hr
      have hne : r ≠ y := by
        rintro rfl
        simp at hne
      obtain ⟨hlocked, z, hz, hdirty⟩ := h.granted r hr
      refine ⟨(RegMap.isLocked_release s.map y r).trans hlocked, z, hkept hz hne, ?_⟩
      have hslot := RegMap.slot_release s.map y r
      rw [if_neg hne] at hslot
      exact (congrArg HostSlot.dirty hslot).trans hdirty
    · -- no value is owed for the guest register sent back, so this one is in another host register
      obtain ⟨r, hr, hmapped⟩ := h.owed x hmem
      have hne : r ≠ y := by
        rintro rfl
        exact howed (h.consistent.guest_inj hmapped hx ▸ hmem)
      exact ⟨r, List.mem_filter.mpr ⟨hr, by simpa using Ne.symm hne⟩, hkept hmapped hne⟩

/-- Sending all guest registers back. -/
theorem Faithful.flushAll (h : s.Faithful staticAlloc frame g) (howed : s.owed = []) :
    ∃ t, s.serve (.flushAll true) = .ok t ∧ t.Faithful staticAlloc frame g := by
  obtain ⟨gpr, hexec, hsynced⟩ := h.sim.flushAll h.consistent
  refine ⟨_, emit_of_ok hexec, h.consistent.flushAll,
    hsynced.sim (RegMap.mapped?_flushAll h.consistent), h.value, fun r hr => ?_, fun x hx => ?_⟩
  · cases hr
  · rw [howed] at hx
    cases hx

/-- Every guest register has a slot. -/
theorem guestOf_ofNat : ∀ x : GuestReg, RegMap.guestOf (UInt8.ofNat x.val) = x := by
  decide

/-- Writing to a register. -/
theorem Faithful.assign (h : s.Faithful staticAlloc frame g) {r : Gpr} (hr : r ∈ s.writable)
    (v : UInt64) : ∃ g', (s.assign r v).Faithful staticAlloc frame g' := by
  obtain ⟨-, x, hx, hdirty⟩ := h.granted r hr
  have hguest := (h.consistent.inverse x r).mp hx
  have hslot := guestOf_ofNat x
  -- the guest register that `r` was granted for gets the value
  have hsim : Sim staticAlloc frame s.map none (g.setReg (UInt8.ofNat x.val) v.toUInt32)
      (s.cpu.setReg r v) := by
    rw [← hslot] at hx
    exact ((h.sim.open _).setReg h.consistent hx v).close hx hdirty (Cpu.reg32_setReg_self _ _ _)
  have hget (y : GuestReg) : (g.setReg (UInt8.ofNat x.val) v.toUInt32).context.gpr.get y =
      if y = x then v.toUInt32 else g.context.gpr.get y := by
    have hset : (g.setReg (UInt8.ofNat x.val) v.toUInt32).context.gpr.get y =
        if y = RegMap.guestOf (UInt8.ofNat x.val) then v.toUInt32 else g.context.gpr.get y :=
      vector_get_set g.context.gpr _ y _
    rwa [hslot] at hset
  rw [Session.assign, hguest]
  refine ⟨_, h.consistent, hsim, fun y hy => ?_, h.granted, fun y hy => ?_⟩
  · rw [hget, vector_get_set]
    split
    · rfl
    · rename_i hne
      exact h.value y fun hmem => hy (List.mem_filter.mpr ⟨hmem, by simpa using hne⟩)
  · exact h.owed y (List.mem_filter.mp hy).1

/-- Every request that the rules permit is carried out. -/
theorem Faithful.serve (h : s.Faithful staticAlloc frame g) {call : MapCall}
    (hcall : s.Permits call) :
    ∃ t g', s.serve call = .ok t ∧ t.Faithful staticAlloc frame g' := by
  cases call with
  | setIndex index => exact ⟨_, g, rfl, h.setIndex hcall index⟩
  | map slot mode => exact h.map slot mode
  | flush slot =>
    obtain ⟨t, hserve, ht⟩ := h.flush hcall
    exact ⟨t, g, hserve, ht⟩
  | flushAll gpr =>
    cases gpr with
    | false => exact ⟨s, g, rfl, h⟩
    | true =>
      obtain ⟨t, hserve, ht⟩ := h.flushAll (hcall rfl)
      exact ⟨t, g, hserve, ht⟩
  | assign r v =>
    obtain ⟨g', ht⟩ := h.assign hcall v
    exact ⟨_, g', rfl, ht⟩

/-! ## All requests -/

/-- Calls that keep to the rules are all served, and leave the map faithful to some guest. -/
theorem Faithful.serveAll (h : s.Faithful staticAlloc frame g) {calls : List MapCall}
    (hcalls : s.Disciplined calls) :
    ∃ t g', s.serveAll calls = .ok t ∧ t.Faithful staticAlloc frame g' := by
  induction calls generalizing s g with
  | nil => exact ⟨s, g, rfl, h⟩
  | cons call calls ih =>
    obtain ⟨t, g₁, hserve, ht⟩ := h.serve hcalls.1
    obtain ⟨u, g₂, hrest, hu⟩ := ih ht (hcalls.2 t hserve)
    refine ⟨u, g₂, ?_, hu⟩
    rw [Session.serveAll, hserve]
    exact hrest

/-- What a faithful session shows of a register is what the guest has in it. -/
theorem Faithful.view_eq (h : s.Faithful staticAlloc frame g) (x : GuestReg) :
    s.view x = g.context.gpr.get x := by
  rw [view]
  split
  · rename_i r hx
    exact h.sim.held x r (by simp) hx
  · rename_i hx
    exact h.sim.home x hx

/-- A register that is asked for its value holds it. -/
theorem Faithful.holds_view (h : s.Faithful staticAlloc frame g) {slot : UInt8} {mode : MapMode}
    {r : Gpr} {x : RegMap × List Insn} (hreads : mode.reads)
    (hmap : s.map.map (RegMap.guestOf slot) mode = (.ok r, x)) :
    ∃ t, s.serve (.map slot mode) = .ok t ∧ t.cpu.reg32 r = s.view (RegMap.guestOf slot) := by
  obtain ⟨d, hexec, hsim⟩ := h.sim.map_reads h.consistent hmap hreads
  refine ⟨{ s.grant (RegMap.guestOf slot) mode r with map := x.1, cpu := d }, ?_, ?_⟩
  · rw [Session.serve, hmap]
    exact emit_of_ok hexec
  · rw [h.view_eq]
    exact hsim.held _ r (by simp) (RegMap.mapped?_map hmap)

/-- Once all guest registers have been sent back, memory has their values. -/
theorem Faithful.flushes_view (h : s.Faithful staticAlloc frame g) :
    ∃ t, s.serve (.flushAll true) = .ok t ∧
      ∀ x, t.map.mapped? x = none ∧ t.cpu.context.gpr.get x = s.view x := by
  obtain ⟨gpr, hexec, hsynced⟩ := h.sim.flushAll h.consistent
  refine ⟨_, emit_of_ok hexec, fun x => ⟨RegMap.mapped?_flushAll h.consistent x, ?_⟩⟩
  have hgpr : gpr = g.context.gpr := congrArg Context.gpr hsynced.context
  rw [h.view_eq, ← hgpr]

/-- No value is lost or invented.  Whatever a disciplined client asks for and writes, its requests
are carried out, and then every guest register that it does not owe a value has the last one it was
given; memory is not behind for a register that is not marked; a register that is asked for its
value holds it; sending everything back leaves nothing in host registers and all values in memory;
and the client still has a register for every value that it owes. -/
theorem disciplined_session_keeps_values (staticAlloc : Bool) (insts : List Inst) {cpu : Cpu}
    (hbase : cpu.reg Gpr.context = contextBase) {calls : List MapCall}
    (hcalls : (start staticAlloc insts cpu).Disciplined calls) :
    ∃ s, (start staticAlloc insts cpu).serveAll calls = .ok s ∧
      (∀ x ∉ s.owed, s.view x = s.value.get x) ∧
      (∀ x r, s.map.mapped? x = some r → s.map.isDirty x = false →
        s.cpu.reg32 r = s.cpu.context.gpr.get x) ∧
      (∀ slot mode r m, mode.reads → s.map.map (RegMap.guestOf slot) mode = (.ok r, m) →
        ∃ t, s.serve (.map slot mode) = .ok t ∧ t.cpu.reg32 r = s.view (RegMap.guestOf slot)) ∧
      (∃ t, s.serve (.flushAll true) = .ok t ∧
        ∀ x, t.map.mapped? x = none ∧ t.cpu.context.gpr.get x = s.view x) ∧
      ∀ x ∈ s.owed, ∃ r ∈ s.writable, s.map.mapped? x = some r := by
  obtain ⟨s, g, hserve, hs⟩ := (faithful_start staticAlloc insts hbase).serveAll hcalls
  refine ⟨s, hserve, fun x hx => (hs.view_eq x).trans (hs.value x hx), fun x r hx hclean => ?_,
    fun slot mode r m hreads hmap => hs.holds_view hreads hmap, hs.flushes_view, hs.owed⟩
  rw [RegMap.isDirty, hx] at hclean
  exact (hs.sim.held x r (by simp) hx).trans (hs.sim.clean x r (by simp) hx hclean).symm

/-- A client writes to one guest register and then asks for as many others as fit, and one more. -/
def crowdCalls : List MapCall :=
  [.setIndex 0, .map 1 .write, .assign Gpr.rbx 7, .setIndex 1] ++
    (List.range 11).map fun i => .map (UInt8.ofNat (i + 2)) .read

/-- The register written first has to make room, and its value is in memory. -/
theorem disciplined_session_keeps_values_crowdCalls :
    ∃ cpu s, cpu.reg Gpr.context = contextBase ∧ (start false [] cpu).Disciplined crowdCalls ∧
      (start false [] cpu).serveAll crowdCalls = .ok s ∧ s.map.mapped? 1 = none ∧
      s.map.mapped? 12 = some Gpr.rbx ∧ s.cpu.context.gpr.get 1 = 7 := by
  let cpu : Cpu := Cpu.setReg { ip := 0, context := {} } Gpr.context contextBase
  have hbase : cpu.reg Gpr.context = contextBase := Cpu.reg_setReg_self _ _ _
  have hcalls : (start false [] cpu).Disciplined crowdCalls := by decide +kernel
  have htests : ((start false [] cpu).serveAll crowdCalls).toOption.any (fun s =>
      decide (s.owed = [] ∧ s.map.mapped? 1 = none ∧ s.map.mapped? 12 = some Gpr.rbx ∧
        s.value.get 1 = 7)) = true := by
    decide +kernel
  obtain ⟨s, hserve, hview, -⟩ := disciplined_session_keeps_values false [] hbase hcalls
  rw [hserve] at htests
  obtain ⟨howed, hmapped, hmapped', hvalue⟩ := decide_eq_true_eq.mp htests
  refine ⟨cpu, s, hbase, hcalls, hserve, hmapped, hmapped', ?_⟩
  have hview1 := hview 1 (by rw [howed]; exact List.not_mem_nil)
  rw [view, hmapped] at hview1
  exact hview1.trans hvalue

end Session

end Dynarec
