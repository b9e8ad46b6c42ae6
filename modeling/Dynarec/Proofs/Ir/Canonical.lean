import Dynarec.Proofs.Ir.Tokens

/-!
# Canonical instructions

The text of an instruction shows the slots and the constant that its signature names, and nothing
else.  An instruction is canonical when the text loses nothing and can be read: registers are below
32, and what the signature does not name is zero.

A canonical instruction is read from its text (`Reading.inst_text`), and every instruction that is
read is canonical (`Reading.canonical_of_inst`).  Printer and reader both walk the signature and the
slots side by side, and so does `Fits`, which both inductions carry.
-/

namespace Dynarec

namespace OperandKind

/-- What a slot may hold: a register is below 32, and a slot that no operand uses is zero. -/
def Admits : Option OperandKind → UInt8 → Prop
  | some gpr, slot => slot < 32
  | some fpr, slot => slot < 32
  | some imm, _ => True
  | _, slot => slot = 0

instance decidableAdmits :
    (kind : Option OperandKind) → (slot : UInt8) → Decidable (Admits kind slot)
  | some gpr, slot => inferInstanceAs (Decidable (slot < 32))
  | some fpr, slot => inferInstanceAs (Decidable (slot < 32))
  | some imm, _ => inferInstanceAs (Decidable True)
  | some const, slot => inferInstanceAs (Decidable (slot = 0))
  | some gap, slot => inferInstanceAs (Decidable (slot = 0))
  | none, slot => inferInstanceAs (Decidable (slot = 0))

/-- Zero may stand in any slot. -/
theorem admits_zero (kind : Option OperandKind) : Admits kind 0 := by
  match kind with
  | some gpr => exact (by decide : (0 : UInt8) < 32)
  | some fpr => exact (by decide : (0 : UInt8) < 32)
  | some imm => trivial
  | some const => rfl
  | some gap => rfl
  | none => rfl

/-- The operands of a signature that have a slot, in the order of the slots. -/
def slotted (kinds : List OperandKind) : List OperandKind :=
  kinds.filter (· ≠ const)

/-- Slots hold what the operands of a signature may have there. -/
def Fits (kinds : List OperandKind) (slots : List UInt8) : Prop :=
  ∀ (k : Nat) (slot : UInt8), slots[k]? = some slot → Admits (slotted kinds)[k]? slot

instance decidableFits (kinds : List OperandKind) (slots : List UInt8) :
    Decidable (Fits kinds slots) :=
  decidable_of_iff (∀ p ∈ slots.zipIdx, Admits (slotted kinds)[p.2]? p.1) <| by
    simp only [Fits, List.mem_zipIdx_iff_getElem?, Prod.forall]
    exact ⟨fun h k slot => h slot k, fun h slot k => h k slot⟩

theorem fits_nil_right (kinds : List OperandKind) : Fits kinds [] :=
  fun _ _ h => nomatch h

/-- A constant takes no slot. -/
theorem fits_const {kinds : List OperandKind} {slots : List UInt8} :
    Fits (const :: kinds) slots ↔ Fits kinds slots :=
  Iff.rfl

/-- All other operands take one. -/
theorem fits_cons {kind : OperandKind} (hkind : kind ≠ const) {kinds : List OperandKind}
    {slot : UInt8} {slots : List UInt8} :
    Fits (kind :: kinds) (slot :: slots) ↔ Admits (some kind) slot ∧ Fits kinds slots := by
  have hslotted : slotted (kind :: kinds) = kind :: slotted kinds :=
    List.filter_cons_of_pos (by simpa using hkind)
  constructor
  · intro h
    refine ⟨by simpa [hslotted] using h 0 slot rfl, fun k s hs => ?_⟩
    simpa [hslotted] using h (k + 1) s hs
  · rintro ⟨hslot, h⟩ k s hs
    rw [hslotted]
    cases k with
    | zero =>
      cases hs
      exact hslot
    | succ k => exact h k s hs

end OperandKind

namespace Inst

/-- The text of the instruction can be read and shows all of it. -/
structure Canonical (i : Inst) : Prop where
  slots : OperandKind.Fits i.op.signature i.slots
  constant : .const ∉ i.op.signature → i.constant = 0

instance decidableCanonical (i : Inst) : Decidable i.Canonical :=
  decidable_of_iff
    (OperandKind.Fits i.op.signature i.slots ∧ (.const ∉ i.op.signature → i.constant = 0))
    ⟨fun h => ⟨h.1, h.2⟩, fun h => ⟨h.slots, h.constant⟩⟩

example : Canonical { op := .exitIfEq, src1 := 31, src2 := 4, constant := 0x20 } := by decide

example : ¬ Canonical { op := .exitIfEq, dest := 1, src1 := 31, src2 := 4 } := by decide

end Inst

namespace Reading

open OperandKind

/-! ## Reading operands -/

/-- The reader of an operand in a slot. -/
def slot? : OperandKind → Option (List Char → Except Stuck (UInt8 × List Char))
  | .gpr => some (register 'r')
  | .fpr => some (register 'f')
  | .imm => some immediate
  | .const => none
  | .gap => none

/-- A gap is read from nothing, as zero. -/
theorem operands_gap_eq_ok {kinds : List OperandKind} {first : Bool} {cs rest : List Char}
    {o : Operands} :
    operands (.gap :: kinds) first cs = .ok (o, rest) ↔
      ∃ o', operands kinds first cs = .ok (o', rest) ∧ o = o'.withSlot 0 := by
  rw [operands, bind_eq_ok]
  constructor
  · rintro ⟨⟨o', rest'⟩, h, heq⟩
    obtain ⟨rfl, rfl⟩ := Prod.mk.inj (Except.ok.inj heq)
    exact ⟨o', h, rfl⟩
  · rintro ⟨o', h, rfl⟩
    exact ⟨_, h, rfl⟩

/-- An operand is read behind its comma, then the operands after it; `put` says where it goes. -/
theorem operand_eq_ok {α : Type} {read : List Char → Except Stuck (α × List Char)}
    (put : α → Operands → Operands) {kinds : List OperandKind} {first : Bool}
    {cs rest : List Char} {o : Operands} :
    (comma first cs >>= fun cs₁ => read cs₁ >>= fun p => operands kinds false p.2 >>= fun q =>
        .ok (put p.1 q.1, q.2)) = .ok (o, rest) ↔
      ∃ cs₁ v cs₂ o', comma first cs = .ok cs₁ ∧ read cs₁ = .ok (v, cs₂) ∧
        operands kinds false cs₂ = .ok (o', rest) ∧ o = put v o' := by
  rw [bind_eq_ok]
  constructor
  · rintro ⟨cs₁, hcomma, h⟩
    obtain ⟨⟨v, cs₂⟩, hread, h⟩ := bind_eq_ok.mp h
    obtain ⟨⟨o', rest'⟩, hrest, heq⟩ := bind_eq_ok.mp h
    obtain ⟨rfl, rfl⟩ := Prod.mk.inj (Except.ok.inj heq)
    exact ⟨cs₁, v, cs₂, o', hcomma, hread, hrest, rfl⟩
  · rintro ⟨cs₁, v, cs₂, o', hcomma, hread, hrest, rfl⟩
    exact ⟨cs₁, hcomma, bind_eq_ok.mpr ⟨_, hread, bind_eq_ok.mpr ⟨_, hrest, rfl⟩⟩⟩

/-- A constant is read as a number. -/
theorem operands_const_eq_ok {kinds : List OperandKind} {first : Bool} {cs rest : List Char}
    {o : Operands} :
    operands (.const :: kinds) first cs = .ok (o, rest) ↔
      ∃ cs₁ v cs₂ o', comma first cs = .ok cs₁ ∧ number cs₁ = .ok (v, cs₂) ∧
        operands kinds false cs₂ = .ok (o', rest) ∧ o = { o' with constant := v } :=
  operand_eq_ok fun v o => { o with constant := v }

/-- An operand in a slot is read by its reader. -/
theorem operands_slot_eq_ok {kind : OperandKind}
    {read : List Char → Except Stuck (UInt8 × List Char)} (hkind : slot? kind = some read)
    {kinds : List OperandKind} {first : Bool} {cs rest : List Char} {o : Operands} :
    operands (kind :: kinds) first cs = .ok (o, rest) ↔
      ∃ cs₁ v cs₂ o', comma first cs = .ok cs₁ ∧ read cs₁ = .ok (v, cs₂) ∧
        operands kinds false cs₂ = .ok (o', rest) ∧ o = o'.withSlot v := by
  cases kind <;> cases hkind <;> exact operand_eq_ok Operands.withSlot

/-- Every operand but constants and gaps has a reader. -/
theorem exists_slot? {kind : OperandKind} (hconst : kind ≠ .const) (hgap : kind ≠ .gap) :
    ∃ read, slot? kind = some read := by
  cases kind with
  | const => exact absurd rfl hconst
  | gap => exact absurd rfl hgap
  | _ => exact ⟨_, rfl⟩

/-- An operand that is read into a slot may stand there. -/
theorem admits_of_slot? {kind : OperandKind}
    {read : List Char → Except Stuck (UInt8 × List Char)} (hkind : slot? kind = some read)
    {cs rest : List Char} {v : UInt8} (h : read cs = .ok (v, rest)) : Admits (some kind) v := by
  cases kind with
  | gpr =>
    cases hkind
    obtain ⟨_, -, -, hlt⟩ := register_eq_ok.mp h
    exact hlt
  | fpr =>
    cases hkind
    obtain ⟨_, -, -, hlt⟩ := register_eq_ok.mp h
    exact hlt
  | imm => trivial
  | const => cases hkind
  | gap => cases hkind

/-- Operands that are read fit their signature. -/
theorem fits_of_operands {kinds : List OperandKind} {first : Bool} {cs rest : List Char}
    {o : Operands} (h : operands kinds first cs = .ok (o, rest)) :
    Fits kinds o.slots ∧ (.const ∉ kinds → o.constant = 0) := by
  induction kinds generalizing first cs o with
  | nil =>
    cases h
    exact ⟨fits_nil_right _, fun _ => rfl⟩
  | cons kind kinds ih =>
    -- a gap is zero whatever the text, a constant takes no slot, and all else is read into one
    by_cases hgap : kind = .gap
    · subst hgap
      obtain ⟨o', hrest, rfl⟩ := operands_gap_eq_ok.mp h
      obtain ⟨hfits, hconst⟩ := ih hrest
      exact ⟨(fits_cons (by decide)).mpr ⟨rfl, hfits⟩,
        fun hmem => hconst fun h => hmem (List.mem_cons_of_mem _ h)⟩
    by_cases hconst : kind = .const
    · subst hconst
      obtain ⟨cs₁, v, cs₂, o', -, -, hrest, rfl⟩ := operands_const_eq_ok.mp h
      exact ⟨fits_const.mpr (ih hrest).1, fun hmem => absurd List.mem_cons_self hmem⟩
    · obtain ⟨read, hread⟩ := exists_slot? hconst hgap
      obtain ⟨cs₁, v, cs₂, o', -, hv, hrest, rfl⟩ := (operands_slot_eq_ok hread).mp h
      obtain ⟨hfits, hzero⟩ := ih hrest
      exact ⟨(fits_cons hconst).mpr ⟨admits_of_slot? hread hv, hfits⟩,
        fun hmem => hzero fun h => hmem (List.mem_cons_of_mem _ h)⟩

/-- Slots that are not named are zero, and zero fits everywhere. -/
theorem canonical_toInst {op : Opcode} {o : Operands} (hslots : Fits op.signature o.slots)
    (hconstant : .const ∉ op.signature → o.constant = 0) : (o.toInst op).Canonical := by
  refine ⟨fun k slot hslot => ?_, hconstant⟩
  have hpadded : slot = o.slots[k]?.getD 0 := by
    match k with
    | 0 => exact (Option.some.inj hslot).symm
    | 1 => exact (Option.some.inj hslot).symm
    | 2 => exact (Option.some.inj hslot).symm
    | k + 3 => cases hslot
  rw [hpadded]
  cases hk : o.slots[k]? with
  | none => exact admits_zero _
  | some s => exact hslots k s hk

/-- Every instruction that is read is canonical. -/
theorem canonical_of_inst {cs rest : List Char} {i : Inst} (h : inst cs = .ok (i, rest)) :
    i.Canonical := by
  obtain ⟨⟨name, cs₁⟩, -, h⟩ := bind_eq_ok.mp h
  simp only at h
  split at h
  · cases h
  · obtain ⟨⟨o, cs₂⟩, hoperands, h⟩ := bind_eq_ok.mp h
    obtain ⟨rest', -, heq⟩ := bind_eq_ok.mp h
    obtain ⟨rfl, rfl⟩ := Prod.mk.inj (Except.ok.inj heq)
    obtain ⟨hslots, hconstant⟩ := fits_of_operands hoperands
    exact canonical_toInst hslots hconstant

/-! ## Operands as they are written -/

/-- Operand texts, each with what stands before it. -/
def spaced : (first : Bool) → List String → List Char
  | _, [] => []
  | true, t :: ts => ' ' :: (t.toList ++ spaced false ts)
  | false, t :: ts => ',' :: ' ' :: (t.toList ++ spaced false ts)

/-- Texts with commas between them are the first and the others, each behind its comma. -/
theorem toList_intercalate_eq (t : String) (ts : List String) :
    (", ".intercalate (t :: ts)).toList = t.toList ++ spaced false ts := by
  induction ts generalizing t with
  | nil => simp [spaced]
  | cons u us ih =>
    rw [String.intercalate_cons_cons]
    simp [ih, spaced]

/-- The text of an instruction is its name and its operands, each with what stands before it. -/
theorem toList_text (i : Inst) :
    i.text.toList =
      i.op.name.toList ++ spaced true (Inst.operandTexts i.constant i.op.signature i.slots) := by
  rw [Inst.text]
  split
  · rename_i hnone
    simp [hnone, spaced]
  · rename_i texts hsome
    cases htexts : Inst.operandTexts i.constant i.op.signature i.slots with
    | nil => exact absurd htexts hsome
    | cons t ts =>
      simp only [String.toList_append, toList_intercalate_eq, spaced]
      simp

/-- The text of an operand ends at the comma or at the end of the line. -/
theorem ends_spaced (ts : List String) {rest : List Char} (h : Ends rest) :
    Ends (spaced false ts ++ rest) := by
  cases ts with
  | nil => exact h
  | cons t ts => exact ends_cons.mpr rfl

/-- Where an operand is due, the comma is there if one is due. -/
theorem comma_spaced (first : Bool) (t : String) (ts : List String) (rest : List Char) :
    comma first (spaced first (t :: ts) ++ rest) =
      .ok (' ' :: (t.toList ++ (spaced false ts ++ rest))) := by
  cases first with
  | false =>
    rw [comma, if_neg (by simp), symbol_eq_ok, spaced, List.cons_append, List.cons_append,
      List.append_assoc]
    rfl
  | true => simp [comma, spaced]

/-- A number of letters and digits is read up to its end. -/
theorem number_of_isAlphanum {token rest : List Char} {v : UInt32} (hne : token ≠ [])
    (halnum : ∀ c ∈ token, c.isAlphanum) (hvalue : Text.number? token = some v.toNat)
    (hrest : Ends rest) : number (' ' :: (token ++ rest)) = .ok (v, rest) := by
  have hword : ∀ c ∈ token, isWordChar c := fun c hc => by simp [isWordChar, halnum c hc]
  have hkeep : token.filter (· ≠ '_') = token := by
    rw [List.filter_eq_self]
    intro c hc
    have := halnum c hc
    simp only [ne_eq, decide_not, Bool.not_eq_true', decide_eq_false_iff_not]
    rintro rfl
    exact absurd this (by decide)
  refine number_eq_ok.mpr ⟨token, ?_, List.all_eq_true.mpr hword, hrest, by rw [hkeep, hvalue]⟩
  obtain ⟨c, cs, rfl⟩ := List.exists_cons_of_ne_nil hne
  rw [skipInline, skip_blank]
  exact skip_of_isWordChar false (hword c List.mem_cons_self) _

/-- A number is read from its hexadecimal text. -/
theorem number_hex (v : UInt32) {rest : List Char} (hrest : Ends rest) :
    number (' ' :: ((Text.hex v.toNat).toList ++ rest)) = .ok (v, rest) := by
  refine number_of_isAlphanum (by simp [Text.toList_hex]) ?_ (Text.number?_hex _) hrest
  rw [Text.toList_hex]
  intro c hc
  rcases List.mem_cons.mp hc with rfl | hc
  · decide
  rcases List.mem_cons.mp hc with rfl | hc
  · decide
  · exact Text.isAlphanum_of_mem_toDigits (by decide) (by decide) hc

/-- The text of an operand in a slot. -/
def slotText : OperandKind → UInt8 → String
  | .gpr, slot => "r" ++ toString slot.toNat
  | .fpr, slot => "f" ++ toString slot.toNat
  | _, slot => toString slot.toNat

/-- A register below 32 is read from its text. -/
theorem register_text {bank : Char} (hbank : bank.isAlpha) {slot : UInt8} (hslot : slot.toNat < 32)
    {rest : List Char} (hrest : Ends rest) :
    register bank (' ' :: bank :: (Nat.toDigits 10 slot.toNat ++ rest)) = .ok (slot, rest) := by
  refine register_eq_ok.mpr ⟨Nat.toDigits 10 slot.toNat, word_eq_ok.mpr ?_,
    Text.digits?_toDigits (by decide) (by decide) _, hslot⟩
  refine ⟨?_, hbank, List.all_eq_true.mpr fun c hc => ?_, hrest⟩
  · rw [skipInline, skip_blank]
    exact skip_of_isWordChar false (isWordChar_of_isAlpha hbank) _
  · rcases List.mem_cons.mp hc with rfl | hc
    · exact isWordChar_of_isAlpha hbank
    · simp [isWordChar, Text.isAlphanum_of_mem_toDigits (by decide) (by decide) hc]

/-- Whatever may stand in a slot is read from its text. -/
theorem slot?_text {kind : OperandKind} {read : List Char → Except Stuck (UInt8 × List Char)}
    (hkind : slot? kind = some read) {slot : UInt8} (hslot : Admits (some kind) slot)
    {rest : List Char} (hrest : Ends rest) :
    read (' ' :: ((slotText kind slot).toList ++ rest)) = .ok (slot, rest) := by
  cases kind with
  | gpr =>
    cases hkind
    have hread := register_text (by decide : 'r'.isAlpha) hslot hrest
    simpa [slotText] using hread
  | fpr =>
    cases hkind
    have hread := register_text (by decide : 'f'.isAlpha) hslot hrest
    simpa [slotText] using hread
  | imm =>
    cases hkind
    have htext : (slotText .imm slot).toList = Nat.toDigits 10 slot.toNat := by simp [slotText]
    rw [htext]
    refine immediate_eq_ok.mpr (number_of_isAlphanum Nat.toDigits_ne_nil
      (fun c => Text.isAlphanum_of_mem_toDigits (by decide) (by decide)) ?_ hrest)
    rw [Text.number?_toDigits, UInt8.toNat_toUInt32]
  | const => cases hkind
  | gap => cases hkind

/-- The text of operands starts with that of the first slot. -/
theorem operandTexts_slot {kind : OperandKind}
    {read : List Char → Except Stuck (UInt8 × List Char)} (hkind : slot? kind = some read)
    (constant : UInt32) (kinds : List OperandKind) (slot : UInt8) (slots : List UInt8) :
    Inst.operandTexts constant (kind :: kinds) (slot :: slots) =
      slotText kind slot :: Inst.operandTexts constant kinds slots := by
  cases kind <;> cases hkind <;> rfl

theorem length_slotted_cons {kind : OperandKind} (hkind : kind ≠ .const)
    (kinds : List OperandKind) : (slotted (kind :: kinds)).length = (slotted kinds).length + 1 := by
  rw [slotted, List.filter_cons_of_pos (by simpa using hkind)]
  rfl

/-- Operands that fit their signature are read from their texts. -/
theorem operands_texts {kinds : List OperandKind} {slots : List UInt8} (hfits : Fits kinds slots)
    (hlength : (slotted kinds).length ≤ slots.length) (constant : UInt32) (first : Bool)
    {rest : List Char} (hrest : Ends rest) :
    ∃ o, operands kinds first (spaced first (Inst.operandTexts constant kinds slots) ++ rest) =
        .ok (o, rest) ∧
      o.slots = slots.take (slotted kinds).length ∧ (.const ∈ kinds → o.constant = constant) := by
  induction kinds generalizing slots first with
  | nil => exact ⟨{}, by simp [operands, Inst.operandTexts, spaced], by simp [slotted], by simp⟩
  | cons kind kinds ih =>
    by_cases hconst : kind = .const
    · subst hconst
      obtain ⟨o, hread, hslots, -⟩ := ih (fits_const.mp hfits) hlength false
      refine ⟨{ o with constant := constant }, ?_, hslots, fun _ => rfl⟩
      have htexts : Inst.operandTexts constant (.const :: kinds) slots =
          Text.hex constant.toNat :: Inst.operandTexts constant kinds slots := by
        cases slots <;> rfl
      rw [htexts, operands_const_eq_ok]
      exact ⟨_, _, _, o, comma_spaced .., number_hex constant (ends_spaced _ hrest), hread, rfl⟩
    -- every other operand takes the next slot
    rw [length_slotted_cons hconst] at hlength ⊢
    obtain ⟨slot, slots, rfl⟩ : ∃ slot slots', slots = slot :: slots' :=
      List.exists_cons_of_length_pos (by omega)
    obtain ⟨hslot, htail⟩ := (fits_cons hconst).mp hfits
    rw [List.length_cons] at hlength
    by_cases hgap : kind = .gap
    · subst hgap
      obtain ⟨o, hread, hslots, hconstant⟩ := ih htail (by omega) first
      refine ⟨o.withSlot 0, operands_gap_eq_ok.mpr ⟨o, hread, rfl⟩, ?_, fun h => ?_⟩
      · rw [Operands.withSlot, hslots, List.take_succ_cons, show slot = 0 from hslot]
      · exact hconstant (by simpa using h)
    · obtain ⟨read, hkind⟩ := exists_slot? hconst hgap
      obtain ⟨o, hread, hslots, hconstant⟩ := ih htail (by omega) false
      refine ⟨o.withSlot slot, ?_, ?_, fun h => hconstant ?_⟩
      · rw [operandTexts_slot hkind, operands_slot_eq_ok hkind]
        have hends := ends_spaced (Inst.operandTexts constant kinds slots) hrest
        exact ⟨_, _, _, o, comma_spaced .., slot?_text hkind hslot hends, hread, rfl⟩
      · rw [Operands.withSlot, hslots, List.take_succ_cons]
      · rcases List.mem_cons.mp h with h | h
        · exact absurd h.symm hconst
        · exact h

/-! ## Instructions as they are written -/

/-- No instruction has more than three slots. -/
theorem length_slotted_signature (op : Opcode) : (slotted op.signature).length ≤ 3 := by
  cases op <;> decide

/-- The name of an operation starts with a letter. -/
theorem exists_name_eq_cons (op : Opcode) : ∃ c cs, op.name.toList = c :: cs ∧ c.isAlpha := by
  cases op <;> exact ⟨_, _, rfl, rfl⟩

/-- It is one word. -/
theorem all_isWordChar_name (op : Opcode) : op.name.toList.all isWordChar := by
  cases op <;> rfl

/-- It is read as this word. -/
theorem word_name (op : Opcode) {rest : List Char} (hrest : Ends rest) :
    word (op.name.toList ++ rest) = .ok (op.name.toList, rest) := by
  have hword := all_isWordChar_name op
  obtain ⟨c, cs, hname, halpha⟩ := exists_name_eq_cons op
  rw [hname] at hword ⊢
  exact word_eq_ok.mpr
    ⟨skip_of_isWordChar false (isWordChar_of_isAlpha halpha) _, halpha, hword, hrest⟩

/-- What the signature does not name is zero, so that nothing is lost. -/
theorem toInst_eq {i : Inst} (h : i.Canonical) {o : Operands}
    (hslots : o.slots = i.slots.take (slotted i.op.signature).length)
    (hconstant : o.constant = i.constant) : o.toInst i.op = i := by
  have hslot : ∀ k : Nat, o.slots[k]?.getD 0 = i.slots[k]?.getD 0 := by
    intro k
    rw [hslots, List.getElem?_take]
    split
    · rfl
    · -- past the operands, so that the slot of a canonical instruction is zero
      rename_i hlt
      cases hk : i.slots[k]? with
      | none => rfl
      | some slot =>
        have hzero := h.slots k slot hk
        rw [List.getElem?_eq_none (by omega)] at hzero
        exact hzero.symm
  cases i with
  | mk op dest src1 src2 constant =>
    rw [Operands.toInst, hslot 0, hslot 1, hslot 2, hconstant]
    rfl

/-- A canonical instruction is read from its text, up to the end of the line. -/
theorem inst_text {i : Inst} (h : i.Canonical) (rest : List Char) :
    inst (i.text.toList ++ '\n' :: rest) = .ok (i, '\n' :: rest) := by
  have hrest : Ends ('\n' :: rest) := ends_cons.mpr rfl
  obtain ⟨o, hread, hslots, hconstant⟩ := operands_texts h.slots
    (length_slotted_signature i.op) i.constant true hrest
  have hzero := (fits_of_operands hread).2
  -- the constant is read if the signature names it, and zero on both sides if not
  have hinst : o.toInst i.op = i := by
    refine toInst_eq h hslots ?_
    by_cases hmem : .const ∈ i.op.signature
    · exact hconstant hmem
    · rw [hzero hmem, h.constant hmem]
  have hend : lineEnd i.op.name.toList ('\n' :: rest) = .ok ('\n' :: rest) :=
    lineEnd_eq_ok.mpr ⟨rfl, .inr ⟨rest, rfl⟩⟩
  rw [toList_text, List.append_assoc, inst]
  refine bind_eq_ok.mpr ⟨_, word_name i.op ?_, ?_⟩
  · cases Inst.operandTexts i.constant i.op.signature i.slots with
    | nil => exact hrest
    | cons t ts => exact ends_cons.mpr rfl
  · simp only [String.ofList_toList, Opcode.ofName?_name]
    exact bind_eq_ok.mpr ⟨_, hread, bind_eq_ok.mpr ⟨_, hend, by rw [hinst]⟩⟩

end Reading

end Dynarec
