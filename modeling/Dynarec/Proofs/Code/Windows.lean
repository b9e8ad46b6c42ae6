import Mathlib.Tactic.Common
import Dynarec.Code.Cache
import Dynarec.Proofs.Code.Action

/-!
# Windows

What happens to the code region is a sequence of events.  While no page may be writable and
executable at the same time, the events fall into windows, one after the other: pages become
writable, bytes inside them are written, the same pages become executable again (`Windows`).  A
window that the platform refuses to open is a single event.

`writableAfter` says what such a sequence amounts to, byte by byte: outside of the windows nothing
is writable (`Windows.not_writable`), and every byte that is written is writable at that moment
(`Windows.obeyed`).

`CodeCache.Logged` holds between two states of the cache when what happened in between keeps to
this.  It composes, and it holds of everything that is written inside a window
(`CodeCache.logged_window`).
-/

namespace Dynarec

open Dynarec.Action

theorem le_roundUpToPage (n : Nat) : n ≤ roundUpToPage n := by
  simp only [roundUpToPage, pageSize]
  omega

/-- Rounding up does not go beyond a page boundary. -/
theorem roundUpToPage_le_of_dvd {m n : Nat} (hm : pageSize ∣ m) (h : n ≤ m) :
    roundUpToPage n ≤ m := by
  obtain ⟨k, rfl⟩ := hm
  simp only [roundUpToPage, pageSize] at h ⊢
  omega

namespace MemoryEvent

/-- A write inside a range. -/
def Within (low high : Nat) : MemoryEvent → Prop
  | write offset len => low ≤ offset ∧ offset + len ≤ high
  | protect .. => False

theorem Within.mono {low high low' high' : Nat} {e : MemoryEvent} (h : e.Within low high)
    (hlow : low' ≤ low) (hhigh : high ≤ high') : e.Within low' high' := by
  cases e with
  | protect => exact h
  | write offset len =>
    obtain ⟨h₁, h₂⟩ := h
    exact ⟨Nat.le_trans hlow h₁, Nat.le_trans h₂ hhigh⟩

/-- Whether this left pages writable that were to be executable again. -/
def leftOpen : MemoryEvent → Bool
  | protect _ _ .execute granted => !granted
  | protect _ _ .write _ => false
  | write _ _ => false

end MemoryEvent

/-- A window consists of whole pages between two offsets. -/
structure Window.Between (low high : Nat) (w : Window) : Prop where
  aligned : pageSize ∣ w.offset
  whole : pageSize ∣ w.len
  low : low ≤ w.offset
  high : w.offset + w.len ≤ high

/-- Events, the oldest first, that are windows between two offsets, one after the other. -/
inductive Windows (low high : Nat) : List MemoryEvent → Prop
  | nil : Windows low high []
  | refused {w : Window} {es : List MemoryEvent} (hw : w.Between low high)
    (hes : Windows low high es) : Windows low high (.protect w.offset w.len .write false :: es)
  | opened {w : Window} {ws es : List MemoryEvent} (hw : w.Between low high)
    (hws : ∀ e ∈ ws, e.Within w.offset (w.offset + w.len)) (hes : Windows low high es) :
    Windows low high (.protect w.offset w.len .write true ::
      (ws ++ .protect w.offset w.len .execute true :: es))

/-- Whether a byte is writable after events, the newest first, if none was before. -/
def writableAfter : List MemoryEvent → Nat → Bool
  | [], _ => false
  | .write _ _ :: es, x => writableAfter es x
  | .protect offset len access granted :: es, x =>
    if granted ∧ offset ≤ x ∧ x < offset + len then access == .write else writableAfter es x

/-- Events, the newest first, that write only what is writable. -/
def Obeyed : List MemoryEvent → Prop
  | [] => True
  | .protect .. :: es => Obeyed es
  | .write offset len :: es =>
    (∀ x, offset ≤ x → x < offset + len → writableAfter es x = true) ∧ Obeyed es

namespace Windows

variable {low high : Nat} {es fs : List MemoryEvent}

/-- Windows one after the other. -/
theorem append (hes : Windows low high es) (hfs : Windows low high fs) :
    Windows low high (es ++ fs) := by
  induction hes with
  | nil => exact hfs
  | refused hw _ ih => exact .refused hw ih
  | opened hw hws _ ih =>
    rw [List.cons_append, List.append_assoc, List.cons_append]
    exact .opened hw hws ih

end Windows

/-! ## What is writable -/

section

variable {low high : Nat} {es before : List MemoryEvent}

/-- Writing makes nothing writable. -/
theorem writableAfter_writes {ws : List MemoryEvent} (hws : ∀ e ∈ ws, e.Within low high) (x : Nat) :
    writableAfter (ws ++ before) x = writableAfter before x := by
  induction ws with
  | nil => rfl
  | cons e ws ih =>
    have hrest := ih fun f hf => hws f (List.mem_cons_of_mem _ hf)
    cases e with
    | write => exact hrest
    | protect => exact (hws _ List.mem_cons_self).elim

/-- Writes to an open range obey the access that has been set. -/
theorem obeyed_writes {ws : List MemoryEvent} (hws : ∀ e ∈ ws, e.Within low high)
    (hopen : ∀ x, low ≤ x → x < high → writableAfter before x = true) (hbefore : Obeyed before) :
    Obeyed (ws ++ before) := by
  induction ws with
  | nil => exact hbefore
  | cons e ws ih =>
    have hrest := ih fun f hf => hws f (List.mem_cons_of_mem _ hf)
    cases e with
    | protect => exact (hws _ List.mem_cons_self).elim
    | write offset len =>
      obtain ⟨hlow, hhigh⟩ := hws _ List.mem_cons_self
      refine ⟨fun x hx hx' => ?_, hrest⟩
      have hsame : writableAfter (ws ++ before) x = writableAfter before x :=
        writableAfter_writes (fun f hf => hws f (List.mem_cons_of_mem _ hf)) x
      exact hsame.trans (hopen x (by omega) (by omega))

/-- Nothing stays writable behind windows. -/
theorem Windows.not_writable (h : Windows low high es)
    (hbefore : ∀ x, writableAfter before x = false) (x : Nat) :
    writableAfter (es.reverse ++ before) x = false := by
  induction h generalizing before with
  | nil => exact hbefore x
  | refused hw _ ih =>
    rw [List.reverse_cons, List.append_assoc]
    exact ih fun y => by simpa [writableAfter] using hbefore y
  | @opened w ws es hw hws _ ih =>
    simp only [List.reverse_cons, List.reverse_append, List.append_assoc, List.cons_append,
      List.nil_append]
    refine ih fun y => ?_
    have hwrites : ∀ e ∈ ws.reverse, e.Within w.offset (w.offset + w.len) := by simpa using hws
    rw [writableAfter]
    split
    · rfl
    · rename_i hout
      rw [writableAfter_writes hwrites, writableAfter, if_neg hout, hbefore y]

/-- Inside windows only what is writable is written. -/
theorem Windows.obeyed (h : Windows low high es) (hbefore : Obeyed before) :
    Obeyed (es.reverse ++ before) := by
  induction h generalizing before with
  | nil => exact hbefore
  | refused hw _ ih =>
    rw [List.reverse_cons, List.append_assoc]
    exact ih hbefore
  | @opened w ws es hw hws _ ih =>
    simp only [List.reverse_cons, List.reverse_append, List.append_assoc, List.cons_append,
      List.nil_append]
    refine ih ?_
    have hwrites : ∀ e ∈ ws.reverse, e.Within w.offset (w.offset + w.len) := by simpa using hws
    refine obeyed_writes hwrites ?_ (show Obeyed (.protect w.offset w.len .write true :: before) from
      hbefore)
    intro x hlow hhigh
    rw [writableAfter, if_pos ⟨rfl, hlow, hhigh⟩]
    rfl

end

/-! ## What happened between two states -/

/-- Events, the oldest first, that keep to a range and to windows.  Without exclusive pages there
are no windows; a window that the platform refuses to close is not one. -/
structure Traced (exclusive : Bool) (low high : Nat) (es : List MemoryEvent) : Prop where
  writes : ∀ offset len, .write offset len ∈ es → low ≤ offset ∧ offset + len ≤ high
  plain : exclusive = false → ∀ e ∈ es, ∃ offset len, e = .write offset len
  windows : exclusive = true → (∀ e ∈ es, e.leftOpen = false) → Windows low high es

namespace Traced

variable {exclusive : Bool} {low high : Nat} {es fs : List MemoryEvent}

theorem nil : Traced exclusive low high [] :=
  ⟨by simp, by simp, fun _ _ => .nil⟩

/-- What happens one after the other keeps to the range and to windows if each part does. -/
theorem append (hes : Traced exclusive low high es) (hfs : Traced exclusive low high fs) :
    Traced exclusive low high (es ++ fs) where
  writes offset len h := (List.mem_append.mp h).elim (hes.writes offset len) (hfs.writes offset len)
  plain h e he := (List.mem_append.mp he).elim (hes.plain h e) (hfs.plain h e)
  windows h hclosed :=
    (hes.windows h fun e he => hclosed e (List.mem_append_left _ he)).append
      (hfs.windows h fun e he => hclosed e (List.mem_append_right _ he))

/-- Writes inside a range, made without a window. -/
theorem of_writes (hes : ∀ e ∈ es, e.Within low high) : Traced false low high es where
  writes _ _ h := hes _ h
  plain _ e he := by
    cases e with
    | write offset len => exact ⟨offset, len, rfl⟩
    | protect => exact (hes _ he).elim
  windows h := by cases h

/-- A window that was refused. -/
theorem of_refused {w : Window} (hw : w.Between low high) :
    Traced true low high [.protect w.offset w.len .write false] where
  writes _ _ h := by simp at h
  plain h := by cases h
  windows _ _ := .refused hw .nil

/-- A window, which the platform may have refused to close. -/
theorem of_window {w : Window} (hw : w.Between low high) {restored : Bool}
    (hes : ∀ e ∈ es, e.Within w.offset (w.offset + w.len)) :
    Traced true low high (.protect w.offset w.len .write true ::
      (es ++ [.protect w.offset w.len .execute restored])) where
  writes offset len h := by
    have hmem : .write offset len ∈ es := by simpa using h
    exact (hes _ hmem).mono hw.low hw.high
  plain h := by cases h
  windows _ hclosed := by
    have hrestored := hclosed (.protect w.offset w.len .execute restored) (by simp)
    obtain rfl : restored = true := by simpa [MemoryEvent.leftOpen] using hrestored
    exact .opened hw hes .nil

end Traced

namespace CodeCache

/-- What happened between two states of the cache keeps to a range and to windows. -/
structure Logged (low : Nat) (c d : CodeCache) : Prop where
  size : d.size = c.size
  exclusive : d.exclusive = c.exclusive
  events : ∃ es, d.host.events = es.reverse ++ c.host.events ∧ Traced c.exclusive low c.size es

/-- Between two states of the cache bytes inside a range were written. -/
structure Wrote (low high : Nat) (c d : CodeCache) : Prop where
  size : d.size = c.size
  exclusive : d.exclusive = c.exclusive
  events : ∃ ws, d.host.events = ws ++ c.host.events ∧ ∀ e ∈ ws, e.Within low high

variable {low : Nat} {c d e : CodeCache}

theorem Logged.refl (low : Nat) (c : CodeCache) : c.Logged low c :=
  ⟨rfl, rfl, [], rfl, .nil⟩

/-- What happened goes on record in order. -/
theorem Logged.trans (hcd : c.Logged low d) (hde : d.Logged low e) : c.Logged low e := by
  obtain ⟨es, hes, htraced⟩ := hcd.events
  obtain ⟨fs, hfs, htraced'⟩ := hde.events
  rw [hcd.exclusive, hcd.size] at htraced'
  refine ⟨hde.size.trans hcd.size, hde.exclusive.trans hcd.exclusive, es ++ fs, ?_,
    htraced.append htraced'⟩
  rw [hfs, hes, List.reverse_append, List.append_assoc]

/-- Nothing happened to the region. -/
theorem Logged.of_events (hsize : d.size = c.size) (hexclusive : d.exclusive = c.exclusive)
    (hevents : d.host.events = c.host.events) : c.Logged low d :=
  ⟨hsize, hexclusive, [], hevents, .nil⟩

/-- What happened before is still on record. -/
theorem Logged.suffix (h : c.Logged low d) : c.host.events <:+ d.host.events := by
  obtain ⟨es, hes, -⟩ := h.events
  exact ⟨es.reverse, hes.symm⟩

theorem Wrote.mono {low high low' high' : Nat} (h : c.Wrote low high d) (hlow : low' ≤ low)
    (hhigh : high ≤ high') : c.Wrote low' high' d := by
  obtain ⟨ws, hws, hwithin⟩ := h.events
  exact ⟨h.size, h.exclusive, ws, hws, fun f hf => (hwithin f hf).mono hlow hhigh⟩

/-- The window for a write consists of whole pages, and the range lies in it. -/
theorem windowFor_between (hpages : pageSize ∣ c.size) (hlow : pageSize ∣ low) {offset len : Nat}
    (hle : low ≤ offset) (hinside : offset + len ≤ c.size) :
    (c.windowFor offset len).Between low c.size ∧
      (c.windowFor offset len).offset ≤ offset ∧
      offset + len ≤ (c.windowFor offset len).offset + (c.windowFor offset len).len := by
  obtain ⟨l, rfl⟩ := hlow
  have hstart : offset / pageSize * pageSize ≤ offset := Nat.div_mul_le_self _ _
  have hfirst : pageSize * l ≤ offset / pageSize * pageSize := by
    simp only [pageSize] at hle ⊢
    omega
  have hstop := le_roundUpToPage (offset + len)
  have hlast := roundUpToPage_le_of_dvd hpages hinside
  have hwindow : c.windowFor offset len =
      ⟨offset / pageSize * pageSize,
        roundUpToPage (offset + len) - offset / pageSize * pageSize⟩ := by
    rw [windowFor, Nat.min_eq_left hinside, Nat.min_eq_left hlast]
  rw [hwindow]
  refine ⟨⟨Nat.dvd_mul_left _ _, ?_, hfirst, by dsimp only; omega⟩, hstart, by dsimp only; omega⟩
  exact Nat.dvd_sub (Nat.dvd_mul_left _ _) (Nat.dvd_mul_left _ _)

/-- Opening a window asks the platform for its pages, unless none is needed. -/
theorem openWindow_apply (offset len : Nat) (c : CodeCache) :
    openWindow offset len c =
      if !c.exclusive || len = 0 then .ok none c
      else
        let w := c.windowFor offset len
        let d := { c with host := (c.host.protect w.offset w.len .write).2 }
        if (c.host.protect w.offset w.len .write).1 then .ok (some w) d
        else .error (.protection w.offset w.len .accessDenied) d := by
  rw [openWindow, bind_of_ok (get_apply c)]
  split
  · rfl
  · dsimp only
    rw [bind_of_ok (set_apply c _)]
    split <;> rfl

/-- What is written inside a window keeps to windows, and so does a window that does not open. -/
theorem logged_window (hpages : pageSize ∣ c.size) (hlow : pageSize ∣ low) {offset len : Nat}
    (hle : low ≤ offset) (hpos : 0 < len) (hinside : offset + len ≤ c.size) :
    match openWindow offset len c with
    | .error _ d => c.Logged low d
    | .ok w d => (∃ host, d = { c with host }) ∧
        ∀ e, d.Wrote offset (offset + len) e → c.Logged low (e.closeWindow w) := by
  obtain ⟨hbetween, hstart, hstop⟩ := windowFor_between hpages hlow hle hinside
  rw [openWindow_apply]
  by_cases hexclusive : c.exclusive = true
  case neg =>
    rw [Bool.not_eq_true] at hexclusive
    rw [if_pos (by simp [hexclusive])]
    refine ⟨⟨c.host, rfl⟩, fun e he => ?_⟩
    obtain ⟨ws, hws, hwithin⟩ := he.events
    refine ⟨he.size, he.exclusive, ws.reverse, by rw [List.reverse_reverse]; exact hws, ?_⟩
    rw [hexclusive]
    exact .of_writes fun f hf => (hwithin f (List.mem_reverse.mp hf)).mono hle hinside
  case pos =>
    rw [if_neg (by simp [hexclusive]; omega)]
    dsimp only
    -- from here on only the bounds of the window matter
    generalize c.windowFor offset len = w at hbetween hstart hstop ⊢
    cases hgranted : (c.host.protect w.offset w.len .write).1 with
    | false =>
      rw [if_neg (by simp)]
      refine ⟨rfl, rfl, [.protect w.offset w.len .write false], ?_, ?_⟩
      · rw [← hgranted]
        rfl
      · rw [hexclusive]
        exact .of_refused hbetween
    | true =>
      rw [if_pos rfl]
      refine ⟨⟨_, rfl⟩, fun e he => ?_⟩
      obtain ⟨ws, hws, hwithin⟩ := he.events
      have hevents : (e.closeWindow (some w)).host.events =
          .protect w.offset w.len .execute (e.host.protect w.offset w.len .execute).1 ::
            e.host.events := by
        rw [closeWindow]
        dsimp only
        split <;> rfl
      have hsame : (e.closeWindow (some w)).size = e.size ∧
          (e.closeWindow (some w)).exclusive = e.exclusive := by
        rw [closeWindow]
        dsimp only
        split <;> exact ⟨rfl, rfl⟩
      refine ⟨hsame.1.trans he.size, hsame.2.trans he.exclusive,
        .protect w.offset w.len .write true ::
          (ws.reverse ++ [.protect w.offset w.len .execute
            (e.host.protect w.offset w.len .execute).1]), ?_, ?_⟩
      · rw [hevents, hws, ← hgranted]
        simp [Host.protect]
      · rw [hexclusive]
        refine .of_window hbetween fun f hf => ?_
        exact (hwithin f (List.mem_reverse.mp hf)).mono hstart hstop

end CodeCache

end Dynarec
