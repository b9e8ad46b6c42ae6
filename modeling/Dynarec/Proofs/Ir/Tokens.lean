import Dynarec.Ir.Parse
import Dynarec.Proofs.Text.Numbers

/-!
# Tokens of the text form

What each reader of a token accepts, and what it gives: after white space and comments a word, a
number, a register, a small number or a symbol stands at the front of the text.  Words and numbers
run as far as there are word characters, so that what is left does not start with one (`Ends`).
-/

namespace Dynarec

namespace Reading

/-- A sequence of readers succeeds when they succeed one after the other. -/
theorem bind_eq_ok {ε α β : Type} {x : Except ε α} {f : α → Except ε β} {b : β} :
    (x >>= f) = .ok b ↔ ∃ a, x = .ok a ∧ f a = .ok b := by
  cases x with
  | error e => simp [bind, Except.bind]
  | ok a => simp [bind, Except.bind]

/-! ## White space and comments -/

/-- Word characters lie between `0` and `z`. -/
theorem toNat_of_isWordChar {c : Char} (h : isWordChar c) : 48 ≤ c.toNat ∧ c.toNat ≤ 122 := by
  delta isWordChar Char.isAlphanum Char.isAlpha Char.isUpper Char.isLower Char.isDigit at h
  simp only [Bool.or_eq_true, Bool.and_eq_true, decide_eq_true_eq, ge_iff_le,
    UInt32.le_iff_toNat_le, Char.toNat_val] at h
  have hcodes : 'A'.toNat = 65 ∧ 'Z'.toNat = 90 ∧ 'a'.toNat = 97 ∧ 'z'.toNat = 122 ∧
      '0'.toNat = 48 ∧ '9'.toNat = 57 := by decide
  rcases h with ((hupper | hlower) | hdigit) | rfl
  · omega
  · omega
  · omega
  · decide

/-- White space is outside the range of word characters. -/
theorem isBlank_of_isWordChar {c : Char} (h : isWordChar c) : Text.isBlank c = false := by
  have hrange := toNat_of_isWordChar h
  have houtside : ∀ r ∈ Text.blankRanges, r.2 < 48 ∨ 122 < r.1 := by decide
  rw [Text.isBlank, List.any_eq_false]
  intro r hr hin
  have := houtside r hr
  simp only [Bool.and_eq_true, decide_eq_true_eq] at hin
  omega

@[simp] theorem skip_blank (lines : Bool) (cs : List Char) :
    skip lines false (' ' :: cs) = skip lines false cs := by
  cases lines <;> rfl

@[simp] theorem skipLines_newline (cs : List Char) : skipLines ('\n' :: cs) = skipLines cs := rfl

/-- Nothing is skipped in front of a word. -/
theorem skip_of_isWordChar (lines : Bool) {c : Char} (h : isWordChar c) (cs : List Char) :
    skip lines false (c :: cs) = c :: cs := by
  have hcomment : c ≠ ';' := by
    rintro rfl
    exact absurd h (by decide)
  simp [skip, hcomment, isBlank_of_isWordChar h]

/-! ## Words and numbers -/

/-- The text does not go on with a word character. -/
def Ends (cs : List Char) : Prop :=
  ∀ c ∈ cs.head?, isWordChar c = false

theorem ends_cons {c : Char} {cs : List Char} : Ends (c :: cs) ↔ isWordChar c = false := by
  simp [Ends]

/-- A word is taken as a whole, and no more. -/
theorem takeWhile_of_ends {w rest : List Char} (hw : ∀ c ∈ w, isWordChar c) (hrest : Ends rest) :
    (w ++ rest).takeWhile isWordChar = w ∧ (w ++ rest).dropWhile isWordChar = rest := by
  rw [List.takeWhile_append_of_pos hw, List.dropWhile_append_of_pos hw]
  cases rest with
  | nil => simp
  | cons c cs => simp [ends_cons.mp hrest]

/-- What is left behind a word does not go on with it. -/
theorem ends_dropWhile (cs : List Char) : Ends (cs.dropWhile isWordChar) := by
  intro c hc
  have := List.head?_dropWhile_not isWordChar cs
  rw [Option.mem_def.mp hc] at this
  simpa using this

/-- Letters are word characters. -/
theorem isWordChar_of_isAlpha {c : Char} (h : c.isAlpha) : isWordChar c := by
  simp [isWordChar, Char.isAlphanum, h]

/-- A symbol is read if it is there behind the blanks. -/
theorem symbol_eq_ok {wanted : Char} {cs rest : List Char} :
    symbol wanted cs = .ok rest ↔ skipInline cs = wanted :: rest := by
  rw [symbol]
  split
  · rename_i hskip
    simp [hskip]
  · rename_i c rest' hskip
    rw [hskip]
    split
    · rename_i heq
      simp [heq]
    · rename_i hne
      simp [hne]

/-- A word starts with a letter and goes on to the last word character. -/
theorem word_eq_ok {cs w rest : List Char} :
    word cs = .ok (w, rest) ↔
      skipInline cs = w ++ rest ∧ w.head?.any Char.isAlpha ∧ w.all isWordChar ∧ Ends rest := by
  rw [word]
  split
  · rename_i hskip
    rw [hskip]
    constructor
    · intro h
      cases h
    · rintro ⟨hnil, halpha, -⟩
      rw [(List.append_eq_nil_iff.mp hnil.symm).1] at halpha
      cases halpha
  · rename_i c cs' hskip
    rw [hskip]
    split
    · rename_i halpha
      constructor
      · intro h
        obtain ⟨rfl, rfl⟩ := Prod.mk.inj (Except.ok.inj h)
        refine ⟨List.takeWhile_append_dropWhile.symm, ?_, List.all_takeWhile, ends_dropWhile _⟩
        rw [List.takeWhile_cons_of_pos (isWordChar_of_isAlpha halpha)]
        exact halpha
      · rintro ⟨hcs, -, hw, hrest⟩
        obtain ⟨htake, hdrop⟩ := takeWhile_of_ends (List.all_eq_true.mp hw) hrest
        rw [hcs, htake, hdrop]
    · rename_i halpha
      constructor
      · intro h
        cases h
      · -- the word would have to start with the character that is no letter
        rintro ⟨hcs, hfirst, -⟩
        cases w with
        | nil => cases hfirst
        | cons d w =>
          cases hcs
          exact absurd hfirst halpha

/-- A number is all word characters, which are a numeral of 32 bits once underscores are taken out.
-/
theorem number_eq_ok {cs rest : List Char} {v : UInt32} :
    number cs = .ok (v, rest) ↔
      ∃ token, skipInline cs = token ++ rest ∧ token.all isWordChar ∧ Ends rest ∧
        Text.number? (token.filter (· ≠ '_')) = some v.toNat := by
  simp only [number]
  constructor
  · intro h
    split at h
    · rename_i n hn
      obtain ⟨hnumber, hsize⟩ := Option.filter_eq_some_iff.mp hn
      obtain ⟨rfl, rfl⟩ := Prod.mk.inj (Except.ok.inj h)
      refine ⟨(skipInline cs).takeWhile isWordChar, List.takeWhile_append_dropWhile.symm,
        List.all_takeWhile, ends_dropWhile _, ?_⟩
      rw [hnumber, UInt32.toNat_ofNat_of_lt' (by simpa using hsize)]
    · cases h
  · rintro ⟨token, hcs, htoken, hrest, hnumber⟩
    have hsize : v.toNat < UInt32.size := v.toNat_lt_size
    obtain ⟨htake, hdrop⟩ := takeWhile_of_ends (List.all_eq_true.mp htoken) hrest
    rw [hcs, htake, hdrop, hnumber, Option.filter_some_pos (by simpa using hsize)]
    simp

/-! ## Registers and small numbers -/

/-- The name of a register is that of its bank and a decimal number below 256. -/
theorem registerNumber?_eq_some {bank : Char} {name : List Char} {n : Nat} :
    registerNumber? bank name = some n ↔
      ∃ digits, name = bank :: digits ∧ Text.digits? 10 digits = some n ∧ n < 256 := by
  cases name with
  | nil => simp [registerNumber?]
  | cons c digits =>
    rw [registerNumber?]
    split
    · rename_i heq
      simp [heq, Option.filter_eq_some_iff]
    · rename_i hne
      simp [hne]

/-- A register is a word of this form with a number below 32. -/
theorem register_eq_ok {bank : Char} {cs rest : List Char} {v : UInt8} :
    register bank cs = .ok (v, rest) ↔
      ∃ digits, word cs = .ok (bank :: digits, rest) ∧ Text.digits? 10 digits = some v.toNat ∧
        v.toNat < 32 := by
  rw [register, bind_eq_ok]
  constructor
  · rintro ⟨⟨name, rest'⟩, hword, h⟩
    simp only at h
    split at h
    · cases h
    · rename_i n hn
      obtain ⟨digits, rfl, hdigits, hbyte⟩ := registerNumber?_eq_some.mp hn
      split at h
      · rename_i hlt
        obtain ⟨rfl, rfl⟩ := Prod.mk.inj (Except.ok.inj h)
        have hv : (UInt8.ofNat n).toNat = n := UInt8.toNat_ofNat_of_lt' hbyte
        exact ⟨digits, hword, by rw [hv, hdigits], by rwa [hv]⟩
      · cases h
  · rintro ⟨digits, hword, hdigits, hlt⟩
    have hname : registerNumber? bank (bank :: digits) = some v.toNat :=
      registerNumber?_eq_some.mpr ⟨digits, rfl, hdigits, by omega⟩
    refine ⟨_, hword, ?_⟩
    simp only [hname, if_pos hlt]
    simp

/-- An immediate is a number below 256. -/
theorem immediate_eq_ok {cs rest : List Char} {v : UInt8} :
    immediate cs = .ok (v, rest) ↔ number cs = .ok (v.toUInt32, rest) := by
  rw [immediate, bind_eq_ok]
  constructor
  · rintro ⟨⟨n, rest'⟩, hnumber, h⟩
    simp only at h
    split at h
    · rename_i hlt
      obtain ⟨rfl, rfl⟩ := Prod.mk.inj (Except.ok.inj h)
      have hn : n.toUInt8.toUInt32 = n := by
        rw [← UInt32.toNat_inj]
        have hbyte : n.toNat < 256 := hlt
        simp [Nat.mod_eq_of_lt hbyte]
      rw [hnumber, hn]
    · cases h
  · intro h
    have hlt : v.toUInt32 < 256 := by
      rw [UInt32.lt_iff_toNat_lt, UInt8.toNat_toUInt32]
      exact v.toNat_lt_size
    refine ⟨_, h, ?_⟩
    simp only [if_pos hlt, UInt8.toUInt8_toUInt32]

/-- A line ends at a newline or at the end of the text. -/
theorem lineEnd_eq_ok {opcode cs rest : List Char} :
    lineEnd opcode cs = .ok rest ↔
      skipInline cs = rest ∧ (rest = [] ∨ ∃ r, rest = '\n' :: r) := by
  rw [lineEnd]
  split
  · rename_i hskip
    simp only [Except.ok.injEq, hskip]
    exact ⟨fun h => ⟨h, .inl h.symm⟩, fun h => h.1⟩
  · rename_i c rest' hskip
    rw [hskip]
    split
    · rename_i heq
      subst heq
      simp only [Except.ok.injEq]
      exact ⟨fun h => ⟨h, .inr ⟨_, h.symm⟩⟩, fun h => h.1⟩
    · rename_i hne
      constructor
      · intro h
        cases h
      · rintro ⟨rfl, h | ⟨r, h⟩⟩
        · cases h
        · cases h
          exact absurd rfl hne

end Reading

end Dynarec
