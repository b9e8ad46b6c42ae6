import Dynarec.Text.Hex
import Dynarec.Text.Number

/-!
# Numbers are read as they are written

Digits in a base up to sixteen are read as the number that they were written for, and so are decimal
numbers and hexadecimal numbers with a leading `0x`.  The characters of a written number are letters
and digits, so that a number ends where they end.  So no two numbers are written alike.
-/

namespace Dynarec.Text

/-! ## Digits -/

/-- A base below sixteen only leaves digits out. -/
theorem digit?_eq_filter {base : Nat} (hbase : base ≤ 16) (c : Char) :
    digit? base c = (digit? 16 c).filter (· < base) := by
  have hboth : (fun v : Nat => decide (v < 16) && decide (v < base)) =
      fun v => decide (v < base) := by
    funext v
    rw [← Bool.decide_and]
    exact decide_eq_decide.mpr (by omega)
  simp only [digit?, Option.filter_filter, hboth]

/-- A digit is read as it is written. -/
theorem digit?_digitChar {base d : Nat} (hbase : base ≤ 16) (hd : d < base) :
    digit? base d.digitChar = some d := by
  have hall : ∀ d < 16, digit? 16 d.digitChar = some d := by decide
  rw [digit?_eq_filter hbase, hall d (by omega), Option.filter_some_pos (by simpa using hd)]

/-- A digit is a letter or a decimal digit. -/
theorem isAlphanum_digitChar {d : Nat} (hd : d < 16) : d.digitChar.isAlphanum := by
  have hall : ∀ d < 16, d.digitChar.isAlphanum = true := by decide
  exact hall d hd

/-- A number is written with digits of its base only. -/
theorem exists_digitChar_of_mem_toDigits {base n : Nat} (hbase : 1 < base) {c : Char}
    (h : c ∈ Nat.toDigits base n) : ∃ d < base, c = d.digitChar := by
  induction n using Nat.strongRecOn with
  | ind n ih =>
    rw [Nat.toDigits_eq_if hbase] at h
    split at h
    · rename_i hn
      exact ⟨n, hn, List.mem_singleton.mp h⟩
    · rename_i hn
      rcases List.mem_append.mp h with hfront | hlast
      · exact ih (n / base) (Nat.div_lt_self (by omega) hbase) hfront
      · exact ⟨n % base, Nat.mod_lt _ (by omega), List.mem_singleton.mp hlast⟩

/-- So it is written with letters and decimal digits only. -/
theorem isAlphanum_of_mem_toDigits {base n : Nat} (hbase : 1 < base) (hle : base ≤ 16) {c : Char}
    (h : c ∈ Nat.toDigits base n) : c.isAlphanum := by
  obtain ⟨d, hd, rfl⟩ := exists_digitChar_of_mem_toDigits hbase h
  exact isAlphanum_digitChar (by omega)

/-- Digits are read one after the other. -/
theorem digitsFrom?_append (base acc : Nat) (cs ds : List Char) :
    digitsFrom? base acc (cs ++ ds) = (digitsFrom? base acc cs).bind (digitsFrom? base · ds) := by
  induction cs generalizing acc with
  | nil => rfl
  | cons c cs ih => simp only [List.cons_append, digitsFrom?, ih, Option.bind_assoc]

/-- The induction is on the number: its last digit comes last. -/
theorem digitsFrom?_toDigits {base : Nat} (hbase : 1 < base) (hle : base ≤ 16) (n : Nat) :
    digitsFrom? base 0 (Nat.toDigits base n) = some n := by
  induction n using Nat.strongRecOn with
  | ind n ih =>
    rw [Nat.toDigits_eq_if hbase]
    split
    · rename_i hn
      simp [digitsFrom?, digit?_digitChar hle hn]
    · rename_i hn
      have hlast : digit? base (n % base).digitChar = some (n % base) :=
        digit?_digitChar hle (Nat.mod_lt _ (by omega))
      rw [digitsFrom?_append, ih (n / base) (Nat.div_lt_self (by omega) hbase)]
      simp [digitsFrom?, hlast, Nat.div_add_mod']

/-- Digits are read as the number that they were written for. -/
theorem digits?_toDigits {base : Nat} (hbase : 1 < base) (hle : base ≤ 16) (n : Nat) :
    digits? base (Nat.toDigits base n) = some n := by
  have hread := digitsFrom?_toDigits hbase hle n
  cases hdigits : Nat.toDigits base n with
  | nil => exact absurd hdigits Nat.toDigits_ne_nil
  | cons c cs => rwa [hdigits] at hread

/-! ## Numbers -/

theorem toList_hex (n : Nat) : (hex n).toList = '0' :: 'x' :: Nat.toDigits 16 n := by
  simp [hex, hexDigits]

/-- A hexadecimal number is read as it was written. -/
theorem number?_hex (n : Nat) : number? (hex n).toList = some n := by
  rw [toList_hex]
  exact digits?_toDigits (by decide) (by decide) n

/-- A decimal number does not look like a hexadecimal one. -/
theorem hexBody?_toDigits (n : Nat) : hexBody? (Nat.toDigits 10 n) = none := by
  rw [hexBody?.eq_def]
  split
  · rename_i cs hcs
    exact absurd (Nat.isDigit_of_mem_toDigits (by decide) (by decide)
      (hcs ▸ List.mem_cons_of_mem _ List.mem_cons_self)) (by decide)
  · rename_i cs hcs
    exact absurd (Nat.isDigit_of_mem_toDigits (by decide) (by decide)
      (hcs ▸ List.mem_cons_of_mem _ List.mem_cons_self)) (by decide)
  · rfl

/-- A decimal number is read as it was written. -/
theorem number?_toDigits (n : Nat) : number? (Nat.toDigits 10 n) = some n := by
  rw [number?, hexBody?_toDigits]
  exact digits?_toDigits (by decide) (by decide) n

/-! ## What is written tells the number -/

/-- Leading zeros do not matter. -/
theorem digitsFrom?_replicate_zero (n : Nat) (cs : List Char) :
    digitsFrom? 16 0 (List.replicate n '0' ++ cs) = digitsFrom? 16 0 cs := by
  induction n with
  | zero => rfl
  | succ n ih => exact ih

/-- A padded number is written with zeros in front. -/
theorem toList_hexPadded (width n : Nat) : ∃ zeros,
    (hexPadded width n).toList = List.replicate zeros '0' ++ Nat.toDigits 16 n := by
  refine ⟨width - (hexDigits n).length, ?_⟩
  simp [hexPadded, zeroPad, hexDigits]

/-- No two numbers are written alike with padding. -/
theorem hexPadded_inj {width m n : Nat} (h : hexPadded width m = hexPadded width n) : m = n := by
  obtain ⟨_, hm⟩ := toList_hexPadded width m
  obtain ⟨_, hn⟩ := toList_hexPadded width n
  have hdigits := congrArg (digitsFrom? 16 0) (hm.symm.trans ((congrArg String.toList h).trans hn))
  simpa only [digitsFrom?_replicate_zero,
    digitsFrom?_toDigits (by decide : 1 < 16) (Nat.le_refl 16), Option.some.injEq] using hdigits

/-- A padded number is written with letters and digits only. -/
theorem isAlphanum_of_mem_hexPadded {width n : Nat} {c : Char}
    (h : c ∈ (hexPadded width n).toList) : c.isAlphanum := by
  obtain ⟨zeros, htext⟩ := toList_hexPadded width n
  rw [htext] at h
  rcases List.mem_append.mp h with hzero | hdigit
  · rw [List.eq_of_mem_replicate hzero]
    decide
  · exact isAlphanum_of_mem_toDigits (by decide) (by decide) hdigit

/-- No two numbers are written alike in hexadecimal. -/
theorem hex_inj {m n : Nat} (h : hex m = hex n) : m = n := by
  have hread := congrArg (fun s => number? s.toList) h
  simpa only [number?_hex, Option.some.injEq] using hread

/-- What ends at a character that is not in it ends there in every reading. -/
theorem append_cons_inj {c : Char} {us vs us' vs' : List Char} (hu : c ∉ us) (hv : c ∉ vs)
    (h : us ++ c :: us' = vs ++ c :: vs') : us = vs ∧ us' = vs' := by
  induction us generalizing vs with
  | nil =>
    cases vs with
    | nil => exact ⟨rfl, (List.cons.inj h).2⟩
    | cons v vs => exact absurd (List.mem_cons.mpr (.inl (List.cons.inj h).1)) hv
  | cons u us ih =>
    cases vs with
    | nil => exact absurd (List.mem_cons.mpr (.inl (List.cons.inj h).1.symm)) hu
    | cons v vs =>
      obtain ⟨rfl, htail⟩ := List.cons.inj h
      obtain ⟨rfl, hrest⟩ :=
        ih (mt (List.mem_cons_of_mem _) hu) (mt (List.mem_cons_of_mem _) hv) htail
      exact ⟨rfl, hrest⟩

end Dynarec.Text
