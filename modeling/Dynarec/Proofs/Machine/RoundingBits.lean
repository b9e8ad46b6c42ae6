import Mathlib.Data.Nat.Bitwise
import Dynarec.Machine.Meaning

/-!
# The bits of the rounding mode

What the words are that the routines for the rounding mode set, bit by bit.  The rounding mode of
the host is in bits 13 and 14 of its control word, and bit 15 is for flushing to zero.  With the
mode of the host these bits are clear (`Rounding.Clear`); with the mode of the guest they are those
that the control word of the guest asks for (`Rounding.Applied`), if they were clear before: a guest
that asks for nothing leaves the word alone.  No other bit changes (`Rounding.SameElsewhere`).
-/

namespace Dynarec.Rounding

/-- The rounding mode in a control word of the host. -/
def modeOf (w : UInt32) : Nat :=
  w.toNat / 2 ^ 13 % 4

/-- Whether a control word of the host flushes to zero. -/
def flushes (w : UInt32) : Bool :=
  w.toNat.testBit 15

/-- A rounding mode in the other numbering: one and three change places. -/
def exchanged : Nat → Nat
  | 1 => 3
  | 3 => 1
  | mode => mode

/-- The bits for the rounding mode are clear. -/
structure Clear (w : UInt32) : Prop where
  mode : modeOf w = 0
  flush : flushes w = false

/-- The bits for the rounding mode are those that the control word of a guest asks for. -/
structure Applied (fcr31 w : UInt32) : Prop where
  mode : modeOf w = exchanged (fcr31.toNat % 4)
  flush : flushes w = fcr31.toNat.testBit 24

/-- Apart from the bits for the rounding mode, two control words are the same. -/
def SameElsewhere (m w : UInt32) : Prop :=
  ∀ i, i < 13 ∨ 15 < i → w.toNat.testBit i = m.toNat.testBit i

theorem SameElsewhere.trans {m w v : UInt32} (h : SameElsewhere m w) (h' : SameElsewhere w v) :
    SameElsewhere m v :=
  fun i hi => (h' i hi).trans (h i hi)

/-- The mode is in bits 13 and 14. -/
theorem testBit_modeOf (w : UInt32) (i : Nat) :
    (modeOf w).testBit i = (decide (i < 2) && w.toNat.testBit (13 + i)) := by
  rw [modeOf, show (4 : Nat) = 2 ^ 2 from rfl, Nat.testBit_mod_two_pow, Nat.testBit_div_two_pow,
    Nat.add_comm]

/-- Where a rounding mode is from the bits of a word. -/
theorem modeOf_eq {w : UInt32} {mode : Nat} (hlt : mode < 4)
    (hlow : w.toNat.testBit 13 = mode.testBit 0) (hhigh : w.toNat.testBit 14 = mode.testBit 1) :
    modeOf w = mode := by
  refine Nat.eq_of_testBit_eq fun i => ?_
  rw [testBit_modeOf]
  match i with
  | 0 => simpa using hlow
  | 1 => simpa using hhigh
  | i + 2 =>
    have hpow : 2 ^ 2 ≤ 2 ^ (i + 2) := Nat.pow_le_pow_right (by decide) (by omega)
    rw [Nat.testBit_lt_two_pow (Nat.lt_of_lt_of_le hlt hpow)]
    simp

/-! ## The mode of the host -/

/-- The host has these bits and the one above cleared. -/
theorem testBit_host (m : UInt32) (i : Nat) :
    (host m).toNat.testBit i = (m.toNat.testBit i && !decide (13 ≤ i ∧ i ≤ 15)) := by
  have hmask : ∀ i < 32, (~~~Stubs.hostRoundingBits).toNat.testBit i =
      !decide (13 ≤ i ∧ i ≤ 15) := by decide
  rw [host, UInt32.toNat_and, Nat.testBit_and]
  by_cases hi : i < 32
  · rw [hmask i hi]
  · have hpow : 2 ^ 32 ≤ 2 ^ i := Nat.pow_le_pow_right (by decide) (by omega)
    rw [Nat.testBit_lt_two_pow (Nat.lt_of_lt_of_le m.toNat_lt hpow), Bool.false_and, Bool.false_and]

/-- In the mode of the host, these bits are clear. -/
theorem clear_host (m : UInt32) : Clear (host m) := by
  refine ⟨modeOf_eq (by decide) ?_ ?_, ?_⟩
  · simp [testBit_host]
  · simp [testBit_host]
  · simp [flushes, testBit_host]

/-- The mode of the guest is that of the host with two numbers exchanged. -/
theorem toNat_hostMode (f : UInt32) : (hostMode f).toNat = exchanged (f.toNat % 4) := by
  have hmode : (f &&& 3).toNat = f.toNat % 4 := by
    rw [UInt32.toNat_and]
    exact Nat.and_two_pow_sub_one_eq_mod f.toNat 2
  have hcases : ∀ mode < (4 : Nat),
      (if UInt32.ofNat mode &&& 1 = 0 then UInt32.ofNat mode else UInt32.ofNat mode ^^^ 2).toNat =
        exchanged mode := by decide
  have hword : f &&& 3 = UInt32.ofNat (f.toNat % 4) := by
    rw [← hmode, UInt32.ofNat_toNat]
  rw [hostMode, hword]
  exact hcases _ (Nat.mod_lt _ (by decide))

/-- The exchange keeps to the four modes. -/
theorem exchanged_lt : ∀ mode < 4, exchanged mode < 4 := by
  decide

/-- The guest flushes to zero exactly if bit 24 is set. -/
theorem flushBit_eq_zero {f : UInt32} :
    f &&& Stubs.guestFlushToZero = 0 ↔ f.toNat.testBit 24 = false := by
  have hbit : f.toNat &&& 2 ^ 24 = (f.toNat.testBit 24).toNat * 2 ^ 24 := Nat.and_two_pow ..
  rw [← UInt32.toNat_inj, UInt32.toNat_and]
  show f.toNat &&& 2 ^ 24 = 0 ↔ _
  rw [hbit]
  cases f.toNat.testBit 24 <;> simp

/-- A guest that asks for nothing rounds to nearest and keeps small numbers. -/
theorem guestBits_eq_zero {f : UInt32} (h : f &&& Stubs.guestRoundingBits = 0) :
    f.toNat % 4 = 0 ∧ f.toNat.testBit 24 = false := by
  have hbits : ∀ i, (f.toNat &&& 0x01000003).testBit i = false := fun i => by
    have hzero := congrArg UInt32.toNat h
    rw [UInt32.toNat_and] at hzero
    have hzero' : f.toNat &&& 0x01000003 = 0 := hzero
    rw [hzero', Nat.zero_testBit]
  refine ⟨?_, ?_⟩
  · refine Nat.eq_of_testBit_eq fun i => ?_
    rw [show (4 : Nat) = 2 ^ 2 from rfl, Nat.testBit_mod_two_pow, Nat.zero_testBit]
    have hi := hbits i
    rw [Nat.testBit_and] at hi
    match i with
    | 0 => simpa using hi
    | 1 => simpa [Nat.testBit] using hi
    | i + 2 => simp
  · have hi := hbits 24
    rw [Nat.testBit_and] at hi
    simpa [Nat.testBit] using hi

/-- The word for a guest that asks for something. -/
theorem testBit_guest {f : UInt32} (m : UInt32) (h : f &&& Stubs.guestRoundingBits ≠ 0) (i : Nat) :
    (guest f m).toNat.testBit i = ((host m).toNat.testBit i ||
      (decide (13 ≤ i) && (exchanged (f.toNat % 4)).testBit (i - 13)) ||
      (decide (i = 15) && f.toNat.testBit 24)) := by
  -- three words with no bit in common: that of the host, the mode, and the flush bit
  have hlt := exchanged_lt _ (Nat.mod_lt f.toNat (by decide))
  have hshift : (hostMode f <<< 13).toNat = exchanged (f.toNat % 4) <<< 13 := by
    rw [UInt32.toNat_shiftLeft, toNat_hostMode]
    refine Nat.mod_eq_of_lt ?_
    show exchanged (f.toNat % 4) <<< 13 < 2 ^ 32
    rw [Nat.shiftLeft_eq]
    omega
  have hflush : (if f &&& Stubs.guestFlushToZero = 0 then 0 else Stubs.hostFlushToZero).toNat =
      if f.toNat.testBit 24 then 2 ^ 15 else 0 := by
    simp only [flushBit_eq_zero]
    cases f.toNat.testBit 24 <;> decide
  have hbit : (if f.toNat.testBit 24 then 2 ^ 15 else 0).testBit i =
      (decide (i = 15) && f.toNat.testBit 24) := by
    cases f.toNat.testBit 24 with
    | false => simp
    | true =>
      rw [if_pos rfl, Nat.testBit_two_pow, Bool.and_true]
      exact decide_eq_decide.mpr eq_comm
  rw [guest, if_neg h, UInt32.toNat_or, UInt32.toNat_or, Nat.testBit_or, Nat.testBit_or, hshift,
    hflush, Nat.testBit_shiftLeft, hbit]

/-- The guest's word puts its mode and its flush bit in. -/
theorem applied_guest {m : UInt32} (f : UInt32) (hm : Clear m) : Applied f (guest f m) := by
  by_cases h : f &&& Stubs.guestRoundingBits = 0
  · obtain ⟨hmode, hflush⟩ := guestBits_eq_zero h
    rw [guest, if_pos h]
    refine ⟨?_, ?_⟩
    · rw [hm.mode, hmode]
      rfl
    · rw [hm.flush, hflush]
  · have hlt := exchanged_lt _ (Nat.mod_lt f.toNat (by decide))
    refine ⟨modeOf_eq hlt ?_ ?_, ?_⟩
    · simp [testBit_guest m h, testBit_host]
    · simp [testBit_guest m h, testBit_host]
    · have hhigh : (exchanged (f.toNat % 4)).testBit 2 = false :=
        Nat.testBit_lt_two_pow hlt
      simp [flushes, testBit_guest m h, testBit_host, hhigh]

end Dynarec.Rounding
