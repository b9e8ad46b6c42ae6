import Mathlib.Order.Bounds.Defs
import Dynarec.Proofs.Code.Cells
import Dynarec.Proofs.Code.Windows

/-!
# Allocation in the code cache

The cache gives out its region from the front to the back.  What one step does is said by an
equation for each (`reserve_apply`, `append_apply`, `alignToPage_apply`), and what all of them have
in common by two relations: code has been appended and nothing else written (`CodeCache.Appends`),
or windows may have been opened and closed as well (`CodeCache.Grows`).  In front of the old cursor
nothing changes.

Calls may come in any order and may fail (`CodeCache.run`).  The cursor stays inside the region
through all of them (`Mapped.run`).  Between two rewinds every call makes the cache grow, so that
what was appended lies in a row and is still there at the end (`pairwise_placed`, `intact_placed`).
-/

namespace Dynarec

open Dynarec.Action Lower

/-- Rounding up to a page gives the least multiple of the page size that is not smaller. -/
theorem isLeast_roundUpToPage (n : Nat) :
    IsLeast { m | pageSize ∣ m ∧ n ≤ m } (roundUpToPage n) :=
  ⟨⟨Nat.dvd_mul_left _ _, le_roundUpToPage n⟩, fun _ hm => roundUpToPage_le_of_dvd hm.1 hm.2⟩

/-! ## Steps -/

namespace CodeCache

/-- Asking for room fails, without a change, exactly if there is too little. -/
theorem ensure_apply (len : Nat) (c : CodeCache) :
    ensure len c =
      if c.remaining < len then .error (.codeSpaceExhausted c.remaining len) c else .ok ⟨⟩ c := by
  rw [ensure, bind_of_ok (get_apply c)]
  split <;> rfl

/-- Reserving moves the cursor over the bytes, or fails without a change. -/
theorem reserve_apply (len : Nat) (c : CodeCache) :
    reserve len c =
      if c.remaining < len then .error (.codeSpaceExhausted c.remaining len) c
      else .ok ⟨⟩ { c with cursor := c.cursor + len } := by
  have hensure := ensure_apply len c
  by_cases h : c.remaining < len
  · rw [if_pos h] at hensure ⊢
    exact bind_of_error hensure
  · rw [if_neg h] at hensure ⊢
    exact bind_of_ok hensure

/-- Appending writes the bytes at the cursor and moves it behind them, or fails without a change. -/
theorem append_apply (bs : List UInt8) (c : CodeCache) :
    append bs c =
      if c.remaining < bs.length then .error (.codeSpaceExhausted c.remaining bs.length) c
      else .ok c.position { c.write c.cursor bs with cursor := c.cursor + bs.length } := by
  have hensure := ensure_apply bs.length c
  by_cases h : c.remaining < bs.length
  · rw [if_pos h] at hensure ⊢
    exact bind_of_error hensure
  · rw [if_neg h] at hensure ⊢
    exact bind_of_ok hensure

/-- When reserving succeeds, and what it leaves. -/
theorem reserve_eq_ok {len : Nat} {c d : CodeCache} :
    reserve len c = .ok ⟨⟩ d ↔
      len ≤ c.size - c.cursor ∧ d = { c with cursor := c.cursor + len } := by
  rw [reserve_apply]
  constructor
  · intro h
    split at h
    · cases h
    · rename_i hfits
      cases h
      exact ⟨Nat.not_lt.mp hfits, rfl⟩
  · rintro ⟨hfits, rfl⟩
    exact if_neg (Nat.not_lt.mpr hfits)

/-- When appending succeeds, what it gives out and what it leaves. -/
theorem append_eq_ok {bs : List UInt8} {c d : CodeCache} {offset : UInt32} :
    append bs c = .ok offset d ↔ offset = c.position ∧ bs.length ≤ c.size - c.cursor ∧
      d = { c.write c.cursor bs with cursor := c.cursor + bs.length } := by
  rw [append_apply]
  constructor
  · intro h
    split at h
    · cases h
    · rename_i hfits
      cases h
      exact ⟨rfl, Nat.not_lt.mp hfits, rfl⟩
  · rintro ⟨rfl, hfits, rfl⟩
    exact if_neg (Nat.not_lt.mpr hfits)

/-- In a region of whole pages there is always room up to the next page. -/
theorem alignToPage_apply {c : CodeCache} (hpages : pageSize ∣ c.size)
    (hcursor : c.cursor ≤ c.size) :
    alignToPage c = .ok ⟨⟩ { c with cursor := roundUpToPage c.cursor } := by
  have hround := le_roundUpToPage c.cursor
  have hlast := roundUpToPage_le_of_dvd hpages hcursor
  rw [alignToPage, bind_of_ok (get_apply c), reserve_apply, if_neg (by rw [remaining]; omega),
    Nat.add_sub_cancel' hround]

end CodeCache

/-! ## Growth -/

/-- Code has been added behind the cursor. -/
structure CodeCache.Grows (c d : CodeCache) : Prop where
  size : d.size = c.size
  cursor : c.cursor ≤ d.cursor
  inside : c.cursor ≤ c.size → d.cursor ≤ d.size
  byte : ∀ o < c.cursor, d.byte o = c.byte o
  events : c.host.events <:+ d.host.events

/-- Code has been appended, and nothing was written but that code. -/
structure CodeCache.Appends (c d : CodeCache) : Prop where
  size : d.size = c.size
  exclusive : d.exclusive = c.exclusive
  cursor : c.cursor ≤ d.cursor
  inside : c.cursor ≤ c.size → d.cursor ≤ d.size
  byte : ∀ o < c.cursor, d.byte o = c.byte o
  events : ∃ ws, d.host.events = ws ++ c.host.events ∧ ∀ e ∈ ws, e.Within c.cursor d.cursor

namespace CodeCache

namespace Grows

variable {c d e : CodeCache}

theorem refl (c : CodeCache) : c.Grows c :=
  ⟨rfl, Nat.le_refl _, id, fun _ _ => rfl, List.suffix_refl _⟩

/-- What has grown twice has grown. -/
theorem trans (hcd : c.Grows d) (hde : d.Grows e) : c.Grows e where
  size := hde.size.trans hcd.size
  cursor := Nat.le_trans hcd.cursor hde.cursor
  inside h := hde.inside (hcd.inside h)
  byte o ho := (hde.byte o (Nat.lt_of_lt_of_le ho hcd.cursor)).trans (hcd.byte o ho)
  events := hcd.events.trans hde.events

/-- What the cache holds in front of the cursor stays. -/
theorem holds (h : c.Grows d) {offset : Nat} {is : List Insn} (hheld : c.Holds offset is)
    (hle : offset + codeSize is ≤ c.cursor) : d.Holds offset is :=
  hheld.congr h.size fun o _ ho => h.byte o (by omega)

end Grows

namespace Appends

variable {c d e : CodeCache}

theorem refl (c : CodeCache) : c.Appends c :=
  ⟨rfl, rfl, Nat.le_refl _, id, fun _ _ => rfl, [], rfl, by simp⟩

/-- What was appended in two steps was appended. -/
theorem trans (hcd : c.Appends d) (hde : d.Appends e) : c.Appends e where
  size := hde.size.trans hcd.size
  exclusive := hde.exclusive.trans hcd.exclusive
  cursor := Nat.le_trans hcd.cursor hde.cursor
  inside h := hde.inside (hcd.inside h)
  byte o ho := (hde.byte o (Nat.lt_of_lt_of_le ho hcd.cursor)).trans (hcd.byte o ho)
  events := by
    obtain ⟨ws, hws, hwithin⟩ := hcd.events
    obtain ⟨ws', hws', hwithin'⟩ := hde.events
    refine ⟨ws' ++ ws, by rw [hws', hws, List.append_assoc], fun f hf => ?_⟩
    rcases List.mem_append.mp hf with hf | hf
    · exact (hwithin' f hf).mono hcd.cursor (Nat.le_refl _)
    · exact (hwithin f hf).mono (Nat.le_refl _) hde.cursor

/-- Appending changes only bytes behind the cursor. -/
theorem grows (h : c.Appends d) : c.Grows d where
  size := h.size
  cursor := h.cursor
  inside := h.inside
  byte := h.byte
  events := by
    obtain ⟨ws, hws, -⟩ := h.events
    exact ⟨ws, hws.symm⟩

/-- What is appended is written between the cursor and the end of the region. -/
theorem wrote (h : c.Appends d) (hcursor : c.cursor ≤ c.size) : c.Wrote c.cursor c.size d := by
  have hinside := h.inside hcursor
  rw [h.size] at hinside
  exact Wrote.mono ⟨h.size, h.exclusive, h.events⟩ (Nat.le_refl _) hinside

end Appends

/-- A notice counts as appending nothing. -/
theorem appends_note (n : Notice) (c : CodeCache) : c.Appends (c.note n) :=
  ⟨rfl, rfl, Nat.le_refl _, id, fun _ _ => rfl, [], rfl, by simp⟩

/-- Appending bytes appends, whether it succeeds or fails. -/
theorem keeps_append (bs : List UInt8) : Keeps Appends (append bs) := by
  intro c
  rw [append_apply]
  split
  · exact Appends.refl c
  · rename_i hfits
    rw [remaining] at hfits
    refine ⟨rfl, rfl, Nat.le_add_right _ _, fun _ => ?_, fun o ho => byte_write_of_lt ho bs,
      [.write c.cursor bs.length], rfl, fun f hf => ?_⟩
    · show c.cursor + bs.length ≤ c.size
      omega
    · obtain rfl := List.mem_singleton.mp hf
      exact ⟨Nat.le_refl _, Nat.le_refl _⟩

/-- Reserving appends bytes that are there already. -/
theorem keeps_reserve (len : Nat) : Keeps Appends (reserve len) := by
  intro c
  rw [reserve_apply]
  split
  · exact Appends.refl c
  · rename_i hfits
    rw [remaining] at hfits
    refine ⟨rfl, rfl, Nat.le_add_right _ _, fun _ => ?_, fun _ _ => rfl, [], rfl, by simp⟩
    show c.cursor + len ≤ c.size
    omega

/-- Going on to the next page is reserving. -/
theorem keeps_alignToPage : Keeps Appends alignToPage := by
  intro c
  rw [alignToPage, bind_of_ok (get_apply c)]
  exact keeps_reserve _ c

/-- Opening a window changes protections only. -/
theorem keeps_openWindow (offset len : Nat) : Keeps Grows (openWindow offset len) := by
  intro c
  rw [openWindow, bind_of_ok (get_apply c)]
  split
  · exact Grows.refl c
  · dsimp only
    rw [bind_of_ok (set_apply c _)]
    split <;> exact ⟨rfl, Nat.le_refl _, id, fun _ _ => rfl, List.suffix_cons _ _⟩

/-- So does opening the window for appending. -/
theorem keeps_openAppend : Keeps Grows openAppend := by
  intro c
  rw [openAppend, bind_of_ok (get_apply c)]
  exact keeps_openWindow _ _ c

/-- Closing a window changes protections only. -/
theorem grows_closeWindow (w : Option Window) (c : CodeCache) : c.Grows (c.closeWindow w) := by
  cases w with
  | none => exact Grows.refl c
  | some w =>
    rw [closeWindow]
    dsimp only
    split <;> exact ⟨rfl, Nat.le_refl _, id, fun _ _ => rfl, List.suffix_cons _ _⟩

/-- Nothing but the platform has changed. -/
def Same (c d : CodeCache) : Prop :=
  ∃ host, d = { c with host }

/-- Opening a window leaves bytes and cursor, also if it is refused. -/
theorem keeps_same_openWindow (offset len : Nat) : Keeps Same (openWindow offset len) := by
  intro c
  rw [openWindow, bind_of_ok (get_apply c)]
  split
  · exact ⟨c.host, rfl⟩
  · dsimp only
    rw [bind_of_ok (set_apply c _)]
    split <;> exact ⟨_, rfl⟩

/-- So does opening the window for appending. -/
theorem keeps_same_openAppend : Keeps Same openAppend := by
  intro c
  rw [openAppend, bind_of_ok (get_apply c)]
  exact keeps_same_openWindow _ _ c

/-- Closing a window leaves bytes and cursor. -/
theorem same_closeWindow (w : Option Window) (c : CodeCache) : c.Same (c.closeWindow w) := by
  cases w with
  | none => exact ⟨c.host, rfl⟩
  | some w =>
    rw [closeWindow]
    dsimp only
    split <;> exact ⟨_, rfl⟩

end CodeCache

/-! ## Windows -/

/-- A window of whole pages of a region that contains the bytes of a range that lie in the region,
and no page without one of them. -/
structure Window.Encloses (w : Window) (size offset len : Nat) : Prop where
  aligned : pageSize ∣ w.offset
  whole : pageSize ∣ w.offset + w.len
  inside : w.offset + w.len ≤ size
  covers : ∀ o, offset ≤ o → o < offset + len → o < size → w.offset ≤ o ∧ o < w.offset + w.len
  meets : ∀ page, w.offset ≤ page * pageSize → page * pageSize < w.offset + w.len →
    ∃ o, o / pageSize = page ∧ offset ≤ o ∧ o < offset + len ∧ o < size

namespace CodeCache

/-- How a request for a window ends: none is needed, or the platform grants or refuses it. -/
inductive Opened (c : CodeCache) (offset len : Nat) :
    EStateM.Result JitError CodeCache (Option Window) → Prop
  | needless (hneedless : c.exclusive = false ∨ len = 0) : Opened c offset len (.ok none c)
  | granted {w : Window} {host : Host} (hexclusive : c.exclusive = true) (hlen : 0 < len)
    (hgranted : c.host.refuseProtect.contains c.host.protectCount = false)
    (hw : w.Encloses c.size offset len) : Opened c offset len (.ok (some w) { c with host })
  | refused {w : Window} {host : Host} (hexclusive : c.exclusive = true) (hlen : 0 < len)
    (hrefused : c.host.refuseProtect.contains c.host.protectCount = true)
    (hw : w.Encloses c.size offset len) :
    Opened c offset len (.error (.protection w.offset w.len .accessDenied) { c with host })

variable {c d : CodeCache}

/-- The window for a range has all pages of the range and no others. -/
theorem windowFor_encloses (hpages : pageSize ∣ c.size) {offset len : Nat}
    (hoffset : offset ≤ c.size) (hlen : 0 < len) :
    (c.windowFor offset len).Encloses c.size offset len := by
  -- the pages end behind the last of the bytes, `stop - 1`
  obtain ⟨stop, hstop⟩ : ∃ stop, stop = min (offset + len) c.size := ⟨_, rfl⟩
  have hstart : offset / pageSize * pageSize ≤ offset := Nat.div_mul_le_self _ _
  have hend : stop ≤ roundUpToPage stop := le_roundUpToPage stop
  have hlast : roundUpToPage stop ≤ c.size :=
    roundUpToPage_le_of_dvd hpages (hstop ▸ Nat.min_le_right _ _)
  have hle : offset ≤ stop := by omega
  have hwindow : c.windowFor offset len =
      ⟨offset / pageSize * pageSize, roundUpToPage stop - offset / pageSize * pageSize⟩ := by
    rw [windowFor, ← hstop, Nat.min_eq_left hlast]
  have hsum : offset / pageSize * pageSize +
      (roundUpToPage stop - offset / pageSize * pageSize) = roundUpToPage stop := by omega
  rw [hwindow]
  refine ⟨Nat.dvd_mul_left _ _, ?_, ?_, fun o hlow hhigh hin => ?_, fun page hlow hhigh => ?_⟩
  · rw [hsum]
    exact Nat.dvd_mul_left _ _
  · rw [hsum]
    exact hlast
  · rw [hsum]
    dsimp only
    omega
  · rw [hsum] at hhigh
    obtain ⟨pages, hsize⟩ := hpages
    simp only [roundUpToPage, pageSize] at hlow hhigh hsize ⊢
    -- the first byte of the page, unless the range starts behind it
    exact ⟨max offset (page * 4096), by omega, by omega, by omega, by omega⟩

/-- A range in the region gets a window of its own pages, or the platform refuses it. -/
theorem opened_openWindow (hpages : pageSize ∣ c.size) {offset len : Nat}
    (hoffset : offset ≤ c.size) : c.Opened offset len (openWindow offset len c) := by
  rw [openWindow_apply]
  by_cases hneedless : c.exclusive = false ∨ len = 0
  · rw [if_pos (by simpa using hneedless)]
    exact .needless hneedless
  · obtain ⟨hexclusive, hlen⟩ := not_or.mp hneedless
    rw [Bool.not_eq_false] at hexclusive
    have hw := windowFor_encloses hpages hoffset (Nat.pos_of_ne_zero hlen)
    rw [if_neg (by simp [hexclusive, hlen])]
    dsimp only
    generalize c.windowFor offset len = w at hw ⊢
    have hanswer : (c.host.protect w.offset w.len .write).1 =
        !c.host.refuseProtect.contains c.host.protectCount := rfl
    by_cases hrefused : c.host.refuseProtect.contains c.host.protectCount = true
    · rw [hrefused] at hanswer
      rw [if_neg (by rw [hanswer]; decide)]
      exact .refused hexclusive (Nat.pos_of_ne_zero hlen) hrefused hw
    · rw [Bool.not_eq_true] at hrefused
      rw [hrefused] at hanswer
      rw [if_pos (by rw [hanswer]; decide)]
      exact .granted hexclusive (Nat.pos_of_ne_zero hlen) hrefused hw

/-- The rest of the region gets a window of its own pages, or the platform refuses it. -/
theorem opened_openAppend (hpages : pageSize ∣ c.size) (hcursor : c.cursor ≤ c.size) :
    c.Opened c.cursor c.remaining (openAppend c) := by
  rw [openAppend, bind_of_ok (get_apply c)]
  exact opened_openWindow hpages hcursor

/-! ## Calls -/

/-- A call of the allocator. -/
inductive Call where
  | append (bs : List UInt8)
  | reserve (len : Nat)
  | align
  | clear (offset : Nat)
  | openAppend
  | openWindow (offset len : Nat)
  | closeWindow (w? : Option Window)

/-- The cache behind a call, which may have failed. -/
def step (c : CodeCache) : Call → CodeCache
  | .append bs => after (append bs c)
  | .reserve len => after (reserve len c)
  | .align => after (alignToPage c)
  | .clear offset => c.clear offset
  | .openAppend => after (openAppend c)
  | .openWindow offset len => after (openWindow offset len c)
  | .closeWindow w? => c.closeWindow w?

/-- The cache behind calls, one after the other. -/
def run (c : CodeCache) (calls : List Call) : CodeCache :=
  calls.foldl step c

/-- Bytes that were appended: where they start in the region, and the offset that was given out. -/
structure Extent where
  start : Nat
  offset : UInt32
  bytes : List UInt8
  deriving DecidableEq

def Extent.stop (x : Extent) : Nat :=
  x.start + x.bytes.length

/-- What a call appends, if it is an append that succeeds. -/
def placed? (c : CodeCache) : Call → Option Extent
  | .append bs => (answer? (append bs c)).map fun offset => ⟨c.cursor, offset, bs⟩
  | _ => none

/-- What calls append. -/
def placed (c : CodeCache) : List Call → List Extent
  | [] => []
  | call :: calls => (c.placed? call).toList ++ (c.step call).placed calls

/-- Bytes that were appended lie in front of the cursor, as they were given, and the offset given
out is the low half of where they start. -/
structure Extent.Intact (x : Extent) (c : CodeCache) : Prop where
  inside : x.stop ≤ c.cursor
  bytes : c.bytes x.start x.bytes.length = x.bytes
  offset : x.offset = UInt32.ofNat x.start

/-- A region for a number of bytes, with the cursor inside. -/
structure Mapped (size : Nat) (exclusive : Bool) (c : CodeCache) : Prop where
  size : c.size = roundUpToPage size
  exclusive : c.exclusive = exclusive
  cursor : c.cursor ≤ c.size

namespace Mapped

variable {size : Nat} {exclusive : Bool}

/-- A region that has just been mapped has the size that was asked for, in whole pages. -/
theorem of_create {host mapped : Host} (h : create size exclusive host = .ok c mapped) :
    c.Mapped size exclusive := by
  rw [create, bind_of_ok (get_apply host)] at h
  cases hfault : mappingFault? host (roundUpToPage size) with
  | some fault =>
    simp only [hfault] at h
    cases h
  | none =>
    simp only [hfault] at h
    cases h
    exact ⟨rfl, rfl, Nat.zero_le _⟩

/-- Appending keeps the region mapped as it is. -/
theorem of_appends (h : c.Mapped size exclusive) (hd : c.Appends d) : d.Mapped size exclusive :=
  ⟨hd.size.trans h.size, hd.exclusive.trans h.exclusive, hd.inside h.cursor⟩

/-- So does everything that leaves bytes and cursor. -/
theorem of_same (h : c.Mapped size exclusive) (hd : c.Same d) : d.Mapped size exclusive := by
  obtain ⟨host, rfl⟩ := hd
  exact ⟨h.size, h.exclusive, h.cursor⟩

/-- Every call keeps the region mapped as it is. -/
theorem step (h : c.Mapped size exclusive) (call : Call) :
    (c.step call).Mapped size exclusive := by
  cases call with
  | append bs => exact h.of_appends (keeps_append bs c)
  | reserve len => exact h.of_appends (keeps_reserve len c)
  | align => exact h.of_appends (keeps_alignToPage c)
  | clear offset => exact ⟨h.size, h.exclusive, Nat.min_le_right _ _⟩
  | openAppend => exact h.of_same (keeps_same_openAppend c)
  | openWindow offset len => exact h.of_same (keeps_same_openWindow offset len c)
  | closeWindow w? => exact h.of_same (same_closeWindow w? c)

/-- So do calls one after the other. -/
theorem run (h : c.Mapped size exclusive) (calls : List Call) :
    (c.run calls).Mapped size exclusive := by
  induction calls generalizing c with
  | nil => exact h
  | cons call calls ih => exact ih (h.step call)

/-- A region consists of whole pages. -/
theorem pages (h : c.Mapped size exclusive) : pageSize ∣ c.size := by
  rw [h.size]
  exact Nat.dvd_mul_left _ _

end Mapped

/-! ## Between rewinds -/

/-- A call that does not rewind leaves what is in front of the cursor. -/
theorem grows_step {call : Call} (h : ∀ offset, call ≠ .clear offset) : c.Grows (c.step call) := by
  cases call with
  | append bs => exact (keeps_append bs c).grows
  | reserve len => exact (keeps_reserve len c).grows
  | align => exact (keeps_alignToPage c).grows
  | clear offset => exact absurd rfl (h offset)
  | openAppend => exact keeps_openAppend c
  | openWindow offset len => exact keeps_openWindow offset len c
  | closeWindow w? => exact grows_closeWindow w? c

section

variable {call : Call} {calls : List Call}

/-- So does the first of calls that do not rewind. -/
theorem grows_head (h : ∀ offset, .clear offset ∉ call :: calls) : c.Grows (c.step call) :=
  grows_step fun offset hcall => h offset (hcall ▸ List.mem_cons_self)

/-- Calls that do not rewind leave what is in front of the cursor. -/
theorem grows_run (h : ∀ offset, .clear offset ∉ calls) : c.Grows (c.run calls) := by
  induction calls generalizing c with
  | nil => exact Grows.refl c
  | cons call calls ih =>
    exact (grows_head h).trans (ih fun offset hmem => h offset (List.mem_cons_of_mem _ hmem))

end

/-- Bytes that were appended stay while the cache grows. -/
theorem Extent.Intact.grows {x : Extent} (h : x.Intact c) (hd : c.Grows d) : x.Intact d := by
  refine ⟨Nat.le_trans h.inside hd.cursor, ?_, h.offset⟩
  rw [bytes_congr hd.size fun o _ ho => hd.byte o (Nat.lt_of_lt_of_le ho h.inside)]
  exact h.bytes

/-- What a call appends starts at the cursor and ends at the new one. -/
theorem intact_of_placed? (hcursor : c.cursor ≤ c.size) {call : Call} {x : Extent}
    (h : c.placed? call = some x) : x.start = c.cursor ∧ x.Intact (c.step call) := by
  cases call with
  | append bs =>
    obtain ⟨offset, hanswer, rfl⟩ := Option.map_eq_some_iff.mp h
    cases happend : append bs c with
    | error e d =>
      rw [happend] at hanswer
      cases hanswer
    | ok o d =>
      rw [happend] at hanswer
      cases hanswer
      have hstep : c.step (.append bs) = d := by rw [step, happend, after_ok]
      obtain ⟨rfl, hfits, rfl⟩ := append_eq_ok.mp happend
      rw [hstep]
      refine ⟨rfl, Nat.le_refl _, ?_, rfl⟩
      have hinside : c.cursor + bs.length ≤ c.size := by omega
      exact (bytes_congr rfl fun _ _ _ => rfl).trans (bytes_write hinside)
  | reserve | align | clear | openAppend | openWindow | closeWindow => cases h

section

variable {calls : List Call}

/-- What calls append is what the first one appends and what the others append behind it. -/
theorem mem_placed_cons {call : Call} {x : Extent} :
    x ∈ c.placed (call :: calls) ↔ c.placed? call = some x ∨ x ∈ (c.step call).placed calls := by
  rw [placed, List.mem_append, Option.mem_toList]

/-- What calls append starts at the cursor or behind it. -/
theorem le_start_of_mem_placed (hcursor : c.cursor ≤ c.size)
    (h : ∀ offset, .clear offset ∉ calls) {x : Extent} (hx : x ∈ c.placed calls) :
    c.cursor ≤ x.start := by
  induction calls generalizing c with
  | nil => cases hx
  | cons call calls ih =>
    have hgrows : c.Grows (c.step call) := grows_head h
    rcases mem_placed_cons.mp hx with hhead | hrest
    · exact Nat.le_of_eq (intact_of_placed? hcursor hhead).1.symm
    · exact Nat.le_trans hgrows.cursor (ih (hgrows.inside hcursor)
        (fun offset hmem => h offset (List.mem_cons_of_mem _ hmem)) hrest)

/-- What calls append lies in a row. -/
theorem pairwise_placed (hcursor : c.cursor ≤ c.size) (h : ∀ offset, .clear offset ∉ calls) :
    (c.placed calls).Pairwise fun x y => x.stop ≤ y.start := by
  induction calls generalizing c with
  | nil => exact .nil
  | cons call calls ih =>
    have hrest : ∀ offset, .clear offset ∉ calls :=
      fun offset hmem => h offset (List.mem_cons_of_mem _ hmem)
    have hinside := (grows_head h).inside hcursor
    rw [placed]
    cases hplaced : c.placed? call with
    | none => exact ih hinside hrest
    | some x =>
      refine List.Pairwise.cons (fun y hy => ?_) (ih hinside hrest)
      exact Nat.le_trans (intact_of_placed? hcursor hplaced).2.inside
        (le_start_of_mem_placed hinside hrest hy)

/-- What calls append is there at the end. -/
theorem intact_placed (hcursor : c.cursor ≤ c.size) (h : ∀ offset, .clear offset ∉ calls)
    {x : Extent} (hx : x ∈ c.placed calls) : x.Intact (c.run calls) := by
  induction calls generalizing c with
  | nil => cases hx
  | cons call calls ih =>
    have hrest : ∀ offset, .clear offset ∉ calls :=
      fun offset hmem => h offset (List.mem_cons_of_mem _ hmem)
    rcases mem_placed_cons.mp hx with hhead | htail
    · exact (intact_of_placed? hcursor hhead).2.grows (grows_run hrest)
    · exact ih ((grows_head h).inside hcursor) hrest htail

end

/-- An offset that lies in a region of less than 4 GiB is given out as it is. -/
theorem Extent.Intact.toNat_offset {x : Extent} (h : x.Intact c) (hcursor : c.cursor < 2 ^ 32) :
    x.offset.toNat = x.start := by
  have hinside := h.inside
  rw [Extent.stop] at hinside
  rw [h.offset, UInt32.toNat_ofNat']
  omega

/-- The allocator after any calls since the region was mapped, whichever of them failed.  What is
appended lies where the cursor was, in regions of every size.  The offset that is handed out for it
has 32 bits: in a region of 4 GiB or more it is truncated, and need not be where the bytes are. -/
theorem allocates_in_order {size : Nat} {exclusive : Bool} {host mapped : Host} {c d : CodeCache}
    {calls : List Call} (hcreate : create size exclusive host = .ok c mapped)
    (hrun : c.run calls = d) :
    -- the region consists of as few pages as can hold the size, and the cursor is inside
    IsLeast { n | pageSize ∣ n ∧ size ≤ n } d.size ∧ d.exclusive = exclusive ∧
      d.cursor ≤ d.size ∧ d.remaining + d.cursor = d.size ∧
      -- there is always a next page
      (∃ n, IsLeast { n | pageSize ∣ n ∧ d.cursor ≤ n } n ∧
        alignToPage d = .ok ⟨⟩ { d with cursor := n }) ∧
      -- what fits is given out, and what does not fit changes nothing
      (∀ bs, (∃ offset e, append bs d = .ok offset e) ↔ bs.length ≤ d.remaining) ∧
      (∀ bs error e, append bs d = .error error e → e = d) ∧
      (∀ len e, reserve len d = .ok ⟨⟩ e ↔
        len ≤ d.remaining ∧ e = { d with cursor := d.cursor + len }) ∧
      (∀ len error e, reserve len d = .error error e → e = d) ∧
      -- windows have the pages of the range and no others
      (∀ offset len, offset ≤ d.size → d.Opened offset len (openWindow offset len d)) ∧
      d.Opened d.cursor d.remaining (openAppend d) ∧
      -- until the next rewind, what is appended lies in a row and stays
      ∀ more, (∀ offset, .clear offset ∉ more) →
        ((d.placed more).Pairwise fun x y => x.stop ≤ y.start) ∧
        ∀ x ∈ d.placed more, d.cursor ≤ x.start ∧ x.stop ≤ d.size ∧ x.Intact (d.run more) ∧
          (d.size < 2 ^ 32 → x.offset.toNat = x.start) := by
  have hd : d.Mapped size exclusive := hrun ▸ (Mapped.of_create hcreate).run calls
  refine ⟨hd.size ▸ isLeast_roundUpToPage size, hd.exclusive, hd.cursor,
    Nat.sub_add_cancel hd.cursor,
    ⟨_, isLeast_roundUpToPage d.cursor, alignToPage_apply hd.pages hd.cursor⟩,
    fun bs => ?_, fun bs error e h => ?_, fun len e => reserve_eq_ok, fun len error e h => ?_,
    fun offset len hoffset => opened_openWindow hd.pages hoffset,
    opened_openAppend hd.pages hd.cursor, fun more hmore => ?_⟩
  · constructor
    · rintro ⟨offset, e, h⟩
      exact (append_eq_ok.mp h).2.1
    · intro hfits
      exact ⟨_, _, append_eq_ok.mpr ⟨rfl, hfits, rfl⟩⟩
  · rw [append_apply] at h
    split at h
    · cases h
      rfl
    · cases h
  · rw [reserve_apply] at h
    split at h
    · cases h
      rfl
    · cases h
  · refine ⟨pairwise_placed hd.cursor hmore, fun x hx => ?_⟩
    have hintact := intact_placed hd.cursor hmore hx
    have hend := hd.run more
    have hsize : (d.run more).size = d.size := hend.size.trans hd.size.symm
    have hcursor := hend.cursor
    rw [hsize] at hcursor
    exact ⟨le_start_of_mem_placed hd.cursor hmore hx, Nat.le_trans hintact.inside hcursor, hintact,
      fun hsmall => hintact.toNat_offset (Nat.lt_of_le_of_lt hcursor hsmall)⟩

/-- Calls that leave the cursor inside bytes that were appended. -/
def callsBefore : List Call :=
  [.openAppend, .append [0x90, 0x90], .closeWindow (some ⟨0, 8192⟩), .reserve 9000, .reserve 5000,
    .clear 1]

/-- Calls that append to a page, nothing at all, and to the next page. -/
def callsAfter : List Call :=
  [.append [0xcc], .openWindow 8192 4, .align, .append [], .append [0xc3, 0xc3]]

/-- In two pages, with one window that the platform refuses to close. -/
theorem allocates_in_order_twoPages : ∃ c mapped,
    create 5000 true { refuseProtect := [1] } = .ok c mapped ∧
    (c.run callsBefore).placed callsAfter =
      [⟨1, 1, [0xcc]⟩, ⟨4096, 4096, []⟩, ⟨4096, 4096, [0xc3, 0xc3]⟩] ∧
    ∀ x ∈ (c.run callsBefore).placed callsAfter,
      x.Intact ((c.run callsBefore).run callsAfter) := by
  have hruns : succeeds (create 5000 true { refuseProtect := [1] }) (fun c _ =>
      (c.run callsBefore).placed callsAfter =
        [⟨1, 1, [0xcc]⟩, ⟨4096, 4096, []⟩, ⟨4096, 4096, [0xc3, 0xc3]⟩]) = true := by
    decide +kernel
  obtain ⟨c, mapped, hcreate, hplaced⟩ := exists_of_succeeds hruns
  obtain ⟨-, -, -, -, -, -, -, -, -, -, -, hmore⟩ := allocates_in_order hcreate rfl
  refine ⟨c, mapped, hcreate, of_decide_eq_true hplaced, fun x hx => ?_⟩
  exact ((hmore callsAfter (by simp [callsAfter])).2 x hx).2.2.1

end CodeCache

end Dynarec
