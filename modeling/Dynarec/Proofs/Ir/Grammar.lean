import Mathlib.Data.List.Induction
import Dynarec.Proofs.Ir.RoundTrip

/-!
# The grammar of the text form

The grammar of blocks, said without the readers: each part of a text relates what stands from its
first character on, what it denotes, and what is left behind it.  What is left is part of the
relation because a word, a number and a comment end where the text allows no more of them.

Every reader of a token skips a gap and then takes the token of the grammar (`Reading.word_iff`,
`Reading.number_iff`, `Reading.slot_iff`).  A gap of the grammar may stop anywhere, and the readers
skip all of it.  Both come to the same, since no token starts with what a gap is made of
(`Reading.skip_eq_iff`).
-/

namespace Dynarec

namespace Grammar

open Reading (isWordChar Ends)

/-! ## Gaps -/

/-- White space and comments; newlines only if `lines` is set.  A comment runs up to the end of its
line, which is no part of it. -/
inductive Gap (lines : Bool) : (text rest : List Char) → Prop
  | none {rest : List Char} : Gap lines rest rest
  | blank {c : Char} {text rest : List Char} (hblank : Text.isBlank c) (hline : c = '\n' → lines)
    (hgap : Gap lines text rest) : Gap lines (c :: text) rest
  | comment {w text rest : List Char} (hw : '\n' ∉ w) (hend : ∀ c ∈ text.head?, c = '\n')
    (hgap : Gap lines text rest) : Gap lines (';' :: (w ++ text)) rest

/-- Any number of parts, each with a gap behind it. -/
inductive Many {α : Type} (One : α → List Char → List Char → Prop) :
    List α → (text rest : List Char) → Prop
  | nil {rest : List Char} : Many One [] rest rest
  | cons {a : α} {as : List α} {text text₁ text₂ rest : List Char} (hone : One a text text₁)
    (hgap : Gap true text₁ text₂) (hmany : Many One as text₂ rest) : Many One (a :: as) text rest

/-! ## Words and numbers -/

/-- A run of letters, digits and underscores that goes as far as it can. -/
structure Run (w text rest : List Char) : Prop where
  split : text = w ++ rest
  word : w.all isWordChar
  ends : Ends rest

/-- An identifier is a run that starts with a letter. -/
structure Identifier (w text rest : List Char) : Prop extends Run w text rest where
  letter : w.head?.any Char.isAlpha

/-- The digit with a value, in upper or lower case. -/
def Digit (base : Nat) (c : Char) (d : Nat) : Prop :=
  d < base ∧ (c = d.digitChar ∨ c = d.digitChar.toUpper)

/-- At least one digit; the last one counts least. -/
inductive Digits (base : Nat) : List Char → Nat → Prop
  | one {c : Char} {d : Nat} (hdigit : Digit base c d) : Digits base [c] d
  | more {cs : List Char} {n : Nat} {c : Char} {d : Nat} (hdigits : Digits base cs n)
    (hdigit : Digit base c d) : Digits base (cs ++ [c]) (n * base + d)

/-- Hexadecimal digits with a mark in front, or decimal digits. -/
inductive Numeral : List Char → Nat → Prop
  | lowerMark {cs : List Char} {n : Nat} (hdigits : Digits 16 cs n) : Numeral ('0' :: 'x' :: cs) n
  | upperMark {cs : List Char} {n : Nat} (hdigits : Digits 16 cs n) : Numeral ('0' :: 'X' :: cs) n
  | decimal {cs : List Char} {n : Nat} (hdigits : Digits 10 cs n) : Numeral cs n

/-- A number is a run that without its underscores is a numeral of 32 bits. -/
def Number (v : UInt32) (text rest : List Char) : Prop :=
  ∃ w, Run w text rest ∧ Numeral (w.filter (· ≠ '_')) v.toNat

/-- A register is an identifier: the letter of its bank and decimal digits. -/
def Register (bank : Char) (v : UInt8) (text rest : List Char) : Prop :=
  ∃ digits, Identifier (bank :: digits) text rest ∧ Digits 10 digits v.toNat ∧ v.toNat < 32

/-! ## Instructions and blocks -/

/-- An operand that takes a slot. -/
inductive Slot : OperandKind → UInt8 → (text rest : List Char) → Prop
  | gpr {v : UInt8} {text rest : List Char} (h : Register 'r' v text rest) : Slot .gpr v text rest
  | fpr {v : UInt8} {text rest : List Char} (h : Register 'f' v text rest) : Slot .fpr v text rest
  | imm {v : UInt8} {text rest : List Char} (h : Number v.toUInt32 text rest) :
    Slot .imm v text rest

/-- What stands between the operand before, if there is one, and an operand. -/
inductive Lead : (first : Bool) → (text rest : List Char) → Prop
  | first {text rest : List Char} (hgap : Gap false text rest) : Lead true text rest
  | comma {text text₁ rest : List Char} (hcomma : Gap false text (',' :: text₁))
    (hgap : Gap false text₁ rest) : Lead false text rest

/-- The operands of a signature, with the slots and the constant of the instruction.  Slots that
the signature does not name are zero, and so is the constant. -/
inductive Operands : List OperandKind → (first : Bool) → List UInt8 → UInt32 →
    (text rest : List Char) → Prop
  | nil {first : Bool} {slots : List UInt8} {rest : List Char} (hzero : ∀ s ∈ slots, s = 0) :
    Operands [] first slots 0 rest rest
  | gap {kinds : List OperandKind} {first : Bool} {slots : List UInt8} {constant : UInt32}
    {text rest : List Char} (hrest : Operands kinds first slots constant text rest) :
    Operands (.gap :: kinds) first (0 :: slots) constant text rest
  | slot {kind : OperandKind} {kinds : List OperandKind} {first : Bool} {v : UInt8}
    {slots : List UInt8} {constant : UInt32} {text text₁ text₂ rest : List Char}
    (hlead : Lead first text text₁) (hslot : Slot kind v text₁ text₂)
    (hrest : Operands kinds false slots constant text₂ rest) :
    Operands (kind :: kinds) first (v :: slots) constant text rest
  | const {kinds : List OperandKind} {first : Bool} {slots : List UInt8} {v constant : UInt32}
    {text text₁ text₂ rest : List Char} (hlead : Lead first text text₁)
    (hnumber : Number v text₁ text₂) (hrest : Operands kinds false slots constant text₂ rest) :
    Operands (.const :: kinds) first slots v text rest

/-- An instruction is the name of its opcode and the operands of the signature, and ends with its
line or with the text. -/
def Line (i : Inst) (text rest : List Char) : Prop :=
  ∃ text₁ text₂, Identifier i.op.name.toList text text₁ ∧
    Operands i.op.signature true i.slots i.constant text₁ text₂ ∧
    Gap false text₂ rest ∧ ∀ c ∈ rest.head?, c = '\n'

/-- An instruction of a block is a line behind which the text goes on. -/
def Instruction (i : Inst) (text rest : List Char) : Prop :=
  Line i text rest ∧ rest ≠ []

/-- What stands in front of the instructions of a block. -/
def Header (start : UInt32) (text rest : List Char) : Prop :=
  ∃ text₁ text₂ text₃, Identifier "block".toList text text₁ ∧ Gap false text₁ text₂ ∧
    Number start text₂ text₃ ∧ Gap false text₃ ('\x7b' :: rest)

/-- A block is its header and its instructions between braces. -/
def BlockText (b : Block) (text rest : List Char) : Prop :=
  ∃ text₁ text₂, Header b.start text text₁ ∧ Gap true text₁ text₂ ∧
    Many Instruction b.insts text₂ ('\x7d' :: rest)

/-- A text is a gap and any number of blocks. -/
def Written (bs : List Block) (text : List Char) : Prop :=
  ∃ text₁, Gap true text text₁ ∧ Many BlockText bs text₁ []

/-! ## Digits -/

/-- Only characters of one byte are digits. -/
theorem toNat_lt_of_digit? {base : Nat} {c : Char} {d : Nat} (h : Text.digit? base c = some d) :
    c.toNat < 128 := by
  rw [Text.digit?] at h
  obtain ⟨hvalue, -⟩ := Option.filter_eq_some_iff.mp h
  delta Char.isDigit at hvalue
  simp only [Bool.and_eq_true, decide_eq_true_eq, Char.le_def, ge_iff_le, UInt32.le_iff_toNat_le,
    Char.toNat_val] at hvalue
  have hcodes : 'f'.toNat = 102 ∧ 'F'.toNat = 70 ∧ '9'.toNat = 57 := by decide
  split at hvalue
  · omega
  · split at hvalue
    · omega
    · split at hvalue
      · omega
      · cases hvalue

/-- A digit is read as the grammar says. -/
theorem digit?_eq_some {base : Nat} (hbase : base ≤ 16) {c : Char} {d : Nat} :
    Text.digit? base c = some d ↔ Digit base c d := by
  have hwritten : ∀ d < 16, Text.digit? 16 d.digitChar = some d ∧
      Text.digit? 16 d.digitChar.toUpper = some d := by decide
  have hread : ∀ n < 128, (Text.digit? 16 (Char.ofNat n)).all fun d =>
      Char.ofNat n == d.digitChar || Char.ofNat n == d.digitChar.toUpper := by decide
  rw [Text.digit?_eq_filter hbase, Option.filter_eq_some_iff]
  constructor
  · rintro ⟨hdigit, hd⟩
    have hc := hread c.toNat (toNat_lt_of_digit? hdigit)
    rw [Char.ofNat_toNat, hdigit] at hc
    exact ⟨by simpa using hd, by simpa using hc⟩
  · rintro ⟨hd, rfl | rfl⟩
    · exact ⟨(hwritten d (by omega)).1, by simpa using hd⟩
    · exact ⟨(hwritten d (by omega)).2, by simpa using hd⟩

theorem digits?_singleton (base : Nat) (c : Char) : Text.digits? base [c] = Text.digit? base c := by
  cases hdigit : Text.digit? base c <;> simp [Text.digits?, Text.digitsFrom?, hdigit]

/-- Digits are read from the front, each counting the base times what is in front of it. -/
theorem digits?_concat (base : Nat) {cs : List Char} (hcs : cs ≠ []) (c : Char) :
    Text.digits? base (cs ++ [c]) =
      (Text.digits? base cs).bind fun n => (Text.digit? base c).map (n * base + ·) := by
  have hread : ∀ {ds : List Char}, ds ≠ [] → Text.digits? base ds = Text.digitsFrom? base 0 ds := by
    intro ds hds
    obtain ⟨d, ds, rfl⟩ := List.exists_cons_of_ne_nil hds
    rfl
  rw [hread (by simp), hread hcs, Text.digitsFrom?_append]
  congr 1
  funext n
  cases hdigit : Text.digit? base c <;> simp [Text.digitsFrom?, hdigit]

/-- A numeral has at least one digit. -/
theorem Digits.ne_nil {base : Nat} {cs : List Char} {n : Nat} (h : Digits base cs n) : cs ≠ [] := by
  cases h <;> simp

/-- Digits are read as the grammar says, by induction from the back. -/
theorem digits?_eq_some {base : Nat} (hbase : base ≤ 16) {cs : List Char} {n : Nat} :
    Text.digits? base cs = some n ↔ Digits base cs n := by
  constructor
  · -- the last digit comes off the end, as in the grammar
    induction cs using List.reverseRecOn generalizing n with
    | nil => rintro ⟨⟩
    | append_singleton cs c ih =>
      intro h
      by_cases hcs : cs = []
      · subst hcs
        rw [List.nil_append, digits?_singleton] at h
        exact .one ((digit?_eq_some hbase).mp h)
      · rw [digits?_concat base hcs] at h
        obtain ⟨m, hm, h⟩ := Option.bind_eq_some_iff.mp h
        obtain ⟨d, hd, rfl⟩ := Option.map_eq_some_iff.mp h
        exact .more (ih hm) ((digit?_eq_some hbase).mp hd)
  · intro h
    induction h with
    | one hdigit => rw [digits?_singleton, (digit?_eq_some hbase).mpr hdigit]
    | more hdigits hdigit ih =>
      rw [digits?_concat base hdigits.ne_nil, ih, (digit?_eq_some hbase).mpr hdigit]
      rfl

/-- Decimal digits are not the mark of hexadecimal digits. -/
theorem Digits.hexBody?_eq_none {cs : List Char} {n : Nat} (h : Digits 10 cs n) :
    Text.hexBody? cs = none := by
  have hmem : ∀ c ∈ cs, c ≠ 'x' ∧ c ≠ 'X' := by
    have hdigit : ∀ {c : Char} {d : Nat}, Digit 10 c d → c ≠ 'x' ∧ c ≠ 'X' := by
      have hall : ∀ d < 10, (d.digitChar ≠ 'x' ∧ d.digitChar ≠ 'X') ∧
          d.digitChar.toUpper ≠ 'x' ∧ d.digitChar.toUpper ≠ 'X' := by decide
      rintro c d ⟨hd, rfl | rfl⟩
      · exact (hall d hd).1
      · exact (hall d hd).2
    induction h with
    | one h => simpa using hdigit h
    | more _ h ih =>
      intro c hc
      rcases List.mem_append.mp hc with hc | hc
      · exact ih c hc
      · exact List.mem_singleton.mp hc ▸ hdigit h
  rw [Text.hexBody?.eq_def]
  split
  · exact absurd rfl (hmem 'x' (by simp)).1
  · exact absurd rfl (hmem 'X' (by simp)).2
  · rfl

/-- A numeral is read as the grammar says, in either base. -/
theorem number?_eq_some {cs : List Char} {n : Nat} :
    Text.number? cs = some n ↔ Numeral cs n := by
  constructor
  · intro h
    rw [Text.number?, Text.hexBody?.eq_def] at h
    split at h
    · rename_i body hbody
      split at hbody
      · cases hbody
        exact .lowerMark ((digits?_eq_some (by decide)).mp h)
      · cases hbody
        exact .upperMark ((digits?_eq_some (by decide)).mp h)
      · cases hbody
    · exact .decimal ((digits?_eq_some (by decide)).mp h)
  · rintro (hdigits | hdigits | hdigits)
    · exact (digits?_eq_some (by decide)).mpr hdigits
    · exact (digits?_eq_some (by decide)).mpr hdigits
    · rw [Text.number?, hdigits.hexBody?_eq_none]
      exact (digits?_eq_some (by decide)).mpr hdigits

/-- No numeral is empty. -/
theorem Numeral.ne_nil {cs : List Char} {n : Nat} (h : Numeral cs n) : cs ≠ [] := by
  cases h with
  | lowerMark | upperMark => simp
  | decimal hdigits => exact hdigits.ne_nil

end Grammar

namespace Reading

open Grammar

/-! ## Gaps -/

/-- A comment goes on to the end of its line. -/
theorem skip_comment_append (lines : Bool) {w : List Char} (hw : '\n' ∉ w) (cs : List Char) :
    skip lines true (w ++ cs) = skip lines true cs := by
  induction w with
  | nil => rfl
  | cons c w ih =>
    rw [List.mem_cons, not_or] at hw
    rw [List.cons_append, skip, if_neg (Ne.symm hw.1), ih hw.2]

/-- At the end of the line it makes no difference whether the text was in a comment. -/
theorem skip_comment_of_lineEnd (lines : Bool) {cs : List Char} (hend : ∀ c ∈ cs.head?, c = '\n') :
    skip lines true cs = skip lines false cs := by
  cases cs with
  | nil => rfl
  | cons c cs =>
    obtain rfl := hend c rfl
    cases lines <;> rfl

/-- Skipping a gap takes all of it, wherever the grammar stops. -/
theorem skip_of_gap {lines : Bool} {cs rest : List Char} (h : Gap lines cs rest) :
    skip lines false cs = skip lines false rest := by
  induction h with
  | none => rfl
  | @blank c cs rest hblank hline _ ih =>
    have hcomment : c ≠ ';' := by
      rintro rfl
      exact absurd hblank (by decide)
    have hskips : (Text.isBlank c && (lines || decide (c ≠ '\n'))) = true := by
      by_cases hc : c = '\n'
      · simp [hblank, hline hc]
      · simp [hblank, hc]
    rw [skip, if_neg hcomment, if_pos hskips, ih]
  | comment hw hend _ ih =>
    rw [skip, if_pos rfl, skip_comment_append lines hw, skip_comment_of_lineEnd lines hend, ih]

/-- What is skipped is a gap; inside a comment, it is the rest of the comment and a gap. -/
theorem gap_skip_comment (lines : Bool) (cs : List Char) :
    Gap lines cs (skip lines false cs) ∧
      ∃ w cs', cs = w ++ cs' ∧ '\n' ∉ w ∧ (∀ c ∈ cs'.head?, c = '\n') ∧
        Gap lines cs' (skip lines true cs) := by
  -- both at once: inside a comment, what is skipped is a gap from the end of the line on
  induction cs with
  | nil => exact ⟨.none, [], [], rfl, by simp, by simp, .none⟩
  | cons c cs ih =>
    obtain ⟨hgap, w, cs', hcs, hw, hend, hcomment⟩ := ih
    constructor
    · rw [skip]
      split
      · rename_i hc
        subst hc
        rw [hcs] at hcomment ⊢
        exact .comment hw hend hcomment
      · split
        · rename_i hskips
          rw [Bool.and_eq_true, Bool.or_eq_true, decide_eq_true_eq] at hskips
          exact .blank hskips.1 (fun hc => hskips.2.resolve_right (fun hne => hne hc)) hgap
        · exact .none
    · rw [skip]
      split
      · rename_i hc
        subst hc
        refine ⟨[], '\n' :: cs, rfl, by simp, by simp, ?_⟩
        split
        · rename_i hlines
          exact .blank (by decide) (fun _ => hlines) hgap
        · exact .none
      · rename_i hc
        exact ⟨c :: w, cs', by rw [hcs, List.cons_append], by simp [Ne.symm hc, hw], hend, hcomment⟩

/-- What is skipped is a gap. -/
theorem gap_skip (lines : Bool) (cs : List Char) : Gap lines cs (skip lines false cs) :=
  (gap_skip_comment lines cs).1

/-- Skipping takes the gap that leaves nothing to skip. -/
theorem skip_eq_iff {lines : Bool} {cs rest : List Char} :
    skip lines false cs = rest ↔ Gap lines cs rest ∧ skip lines false rest = rest := by
  constructor
  · rintro rfl
    exact ⟨gap_skip lines cs, (skip_of_gap (gap_skip lines cs)).symm⟩
  · rintro ⟨hgap, hrest⟩
    rw [skip_of_gap hgap, hrest]

/-! ## Tokens -/

/-- No gap starts where a token does. -/
theorem skip_of_run {lines : Bool} {w text rest : List Char} (h : Run w text rest)
    (hw : w ≠ []) : skip lines false text = text := by
  obtain ⟨c, w, rfl⟩ := List.exists_cons_of_ne_nil hw
  rw [h.split]
  exact skip_of_isWordChar lines (List.all_eq_true.mp h.word c List.mem_cons_self) _

/-- The reader of words skips a gap and takes an identifier. -/
theorem word_iff {cs w rest : List Char} :
    word cs = .ok (w, rest) ↔ ∃ text, Gap false cs text ∧ Identifier w text rest := by
  rw [word_eq_ok]
  constructor
  · rintro ⟨hskip, hletter, hword, hends⟩
    exact ⟨w ++ rest, (skip_eq_iff.mp hskip).1, ⟨rfl, hword, hends⟩, hletter⟩
  · rintro ⟨text, hgap, hidentifier⟩
    have hne : w ≠ [] := by
      rintro rfl
      cases hidentifier.letter
    refine ⟨?_, hidentifier.letter, hidentifier.word, hidentifier.ends⟩
    rw [← hidentifier.split]
    exact skip_eq_iff.mpr ⟨hgap, skip_of_run hidentifier.toRun hne⟩

/-- The reader of numbers skips a gap and takes a number. -/
theorem number_iff {cs rest : List Char} {v : UInt32} :
    number cs = .ok (v, rest) ↔ ∃ text, Gap false cs text ∧ Number v text rest := by
  simp only [number_eq_ok, number?_eq_some]
  constructor
  · rintro ⟨w, hskip, hword, hends, hnumeral⟩
    exact ⟨w ++ rest, (skip_eq_iff.mp hskip).1, w, ⟨rfl, hword, hends⟩, hnumeral⟩
  · rintro ⟨text, hgap, w, hrun, hnumeral⟩
    have hne : w ≠ [] := by
      rintro rfl
      exact hnumeral.ne_nil rfl
    refine ⟨w, ?_, hrun.word, hrun.ends, hnumeral⟩
    rw [← hrun.split]
    exact skip_eq_iff.mpr ⟨hgap, skip_of_run hrun hne⟩

/-- The reader of registers skips a gap and takes a register of its bank. -/
theorem register_iff {bank : Char} {cs rest : List Char} {v : UInt8} :
    register bank cs = .ok (v, rest) ↔ ∃ text, Gap false cs text ∧ Register bank v text rest := by
  simp only [register_eq_ok, word_iff, digits?_eq_some (by decide : 10 ≤ 16)]
  constructor
  · rintro ⟨digits, ⟨text, hgap, hname⟩, hdigits, hlt⟩
    exact ⟨text, hgap, digits, hname, hdigits, hlt⟩
  · rintro ⟨text, hgap, digits, hname, hdigits, hlt⟩
    exact ⟨digits, ⟨text, hgap, hname⟩, hdigits, hlt⟩

/-- A symbol is not skipped. -/
theorem symbol_iff {wanted : Char} (hwanted : ∀ cs, skipInline (wanted :: cs) = wanted :: cs)
    {cs rest : List Char} : symbol wanted cs = .ok rest ↔ Gap false cs (wanted :: rest) := by
  rw [symbol_eq_ok, skipInline, skip_eq_iff]
  exact and_iff_left (hwanted rest)

/-- The reader of a slot skips a gap and takes what the slot is for. -/
theorem slot_iff {kind : OperandKind} {read : List Char → Except Stuck (UInt8 × List Char)}
    (hkind : slot? kind = some read) {cs rest : List Char} {v : UInt8} :
    read cs = .ok (v, rest) ↔ ∃ text, Gap false cs text ∧ Slot kind v text rest := by
  cases kind with
  | gpr =>
    cases hkind
    rw [register_iff]
    exact exists_congr fun text => and_congr_right fun _ => ⟨.gpr, fun | .gpr h => h⟩
  | fpr =>
    cases hkind
    rw [register_iff]
    exact exists_congr fun text => and_congr_right fun _ => ⟨.fpr, fun | .fpr h => h⟩
  | imm =>
    cases hkind
    rw [immediate_eq_ok, number_iff]
    exact exists_congr fun text => and_congr_right fun _ => ⟨.imm, fun | .imm h => h⟩
  | const => cases hkind
  | gap => cases hkind

end Reading

end Dynarec
