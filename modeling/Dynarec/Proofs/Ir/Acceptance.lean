import Dynarec.Proofs.Ir.Grammar

/-!
# The parser accepts its grammar

A text is read as a list of blocks exactly if the grammar says that it is written for them
(`Block.parse_eq_ok_iff_written`).

## Shape of the proof

* Operands are read along the signature, and the relation is built along it too.  The reader drops
  slots that are not named and the instruction fills them with zeros, so that slots agree up to
  zeros at their end (`operands_sound`, `operands_complete`).
* An instruction may be read up to the end of the text.  No block is read then, as its brace is
  missing, so that only instructions in front of a newline count (`inst_iff`, `body_sound`).
* The readers of bodies and of texts are driven by the length of the text.  That is enough, since
  instructions and blocks take characters (`length_of_many`).
-/

namespace Dynarec

namespace Reading

open Grammar

/-! ## Operands -/

/-- The comma, if one is due, and the gap in front of the operand. -/
theorem comma_iff {first : Bool} {cs text : List Char} :
    (∃ cs₁, comma first cs = .ok cs₁ ∧ Gap false cs₁ text) ↔ Lead first cs text := by
  cases first with
  | true =>
    constructor
    · rintro ⟨cs₁, hcomma, hgap⟩
      cases hcomma
      exact .first hgap
    · rintro ⟨hgap⟩
      exact ⟨cs, rfl, hgap⟩
  | false =>
    have hsymbol : ∀ {cs₁}, comma false cs = .ok cs₁ ↔ Gap false cs (',' :: cs₁) :=
      symbol_iff fun _ => rfl
    constructor
    · rintro ⟨cs₁, hcomma, hgap⟩
      exact .comma (hsymbol.mp hcomma) hgap
    · rintro (_ | ⟨hcomma, hgap⟩)
      exact ⟨_, hsymbol.mpr hcomma, hgap⟩

/-- Operands that are read are written as the grammar has them; slots that are not named may follow
as zeros. -/
theorem operands_sound {kinds : List OperandKind} {first : Bool} {cs rest : List Char}
    {o : Reading.Operands} (h : operands kinds first cs = .ok (o, rest)) (n : Nat) :
    Grammar.Operands kinds first (o.slots ++ List.replicate n 0) o.constant cs rest := by
  induction kinds generalizing first cs o with
  | nil =>
    cases h
    exact .nil fun s hs => List.eq_of_mem_replicate hs
  | cons kind kinds ih =>
    by_cases hgap : kind = .gap
    · subst hgap
      obtain ⟨o', hrest, rfl⟩ := operands_gap_eq_ok.mp h
      exact .gap (ih hrest)
    by_cases hconst : kind = .const
    · subst hconst
      obtain ⟨cs₁, v, cs₂, o', hcomma, hnumber, hrest, rfl⟩ := operands_const_eq_ok.mp h
      obtain ⟨text, hgap, hnumber⟩ := number_iff.mp hnumber
      have hoperands := ih hrest
      exact .const (comma_iff.mp ⟨cs₁, hcomma, hgap⟩) hnumber hoperands
    · obtain ⟨read, hread⟩ := exists_slot? hconst hgap
      obtain ⟨cs₁, v, cs₂, o', hcomma, hslot, hrest, rfl⟩ := (operands_slot_eq_ok hread).mp h
      obtain ⟨text, hgap, hslot⟩ := (slot_iff hread).mp hslot
      exact .slot (comma_iff.mp ⟨cs₁, hcomma, hgap⟩) hslot (ih hrest)

/-- An operand that takes a slot has a reader. -/
theorem exists_slot?_of_slot {kind : OperandKind} {v : UInt8} {text rest : List Char}
    (h : Slot kind v text rest) : ∃ read, slot? kind = some read := by
  cases h <;> exact ⟨_, rfl⟩

/-- Operands that are written as the grammar has them are read. -/
theorem operands_complete {kinds : List OperandKind} {first : Bool} {slots : List UInt8}
    {constant : UInt32} {cs rest : List Char}
    (h : Grammar.Operands kinds first slots constant cs rest) :
    ∃ o n, operands kinds first cs = .ok (o, rest) ∧ slots = o.slots ++ List.replicate n 0 ∧
      o.constant = constant := by
  induction h with
  | @nil _ slots _ hzero => exact ⟨{}, slots.length, rfl, List.eq_replicate_of_mem hzero, rfl⟩
  | gap _ ih =>
    obtain ⟨o, n, hrest, rfl, rfl⟩ := ih
    exact ⟨o.withSlot 0, n, operands_gap_eq_ok.mpr ⟨o, hrest, rfl⟩, rfl, rfl⟩
  | slot hlead hslot _ ih =>
    obtain ⟨o, n, hrest, rfl, rfl⟩ := ih
    obtain ⟨read, hread⟩ := exists_slot?_of_slot hslot
    obtain ⟨cs₁, hcomma, hgap⟩ := comma_iff.mpr hlead
    have hslot' := (slot_iff hread).mpr ⟨_, hgap, hslot⟩
    exact ⟨o.withSlot _, n, (operands_slot_eq_ok hread).mpr ⟨_, _, _, o, hcomma, hslot', hrest, rfl⟩,
      rfl, rfl⟩
  | const hlead hnumber _ ih =>
    obtain ⟨o, n, hrest, rfl, rfl⟩ := ih
    obtain ⟨cs₁, hcomma, hgap⟩ := comma_iff.mpr hlead
    have hnumber' := number_iff.mpr ⟨_, hgap, hnumber⟩
    exact ⟨{ o with constant := _ }, n,
      operands_const_eq_ok.mpr ⟨_, _, _, o, hcomma, hnumber', hrest, rfl⟩, rfl, rfl⟩

/-- As many slots are read as the signature names. -/
theorem length_slots_of_operands {kinds : List OperandKind} {first : Bool} {cs rest : List Char}
    {o : Reading.Operands} (h : operands kinds first cs = .ok (o, rest)) :
    o.slots.length = (OperandKind.slotted kinds).length := by
  induction kinds generalizing first cs o with
  | nil =>
    cases h
    rfl
  | cons kind kinds ih =>
    by_cases hconst : kind = .const
    · subst hconst
      obtain ⟨_, _, _, o', -, -, hrest, rfl⟩ := operands_const_eq_ok.mp h
      have hslots := ih hrest
      exact hslots
    rw [length_slotted_cons hconst]
    by_cases hgap : kind = .gap
    · subst hgap
      obtain ⟨o', hrest, rfl⟩ := operands_gap_eq_ok.mp h
      exact congrArg (· + 1) (ih hrest)
    · obtain ⟨read, hread⟩ := exists_slot? hconst hgap
      obtain ⟨_, _, _, o', -, -, hrest, rfl⟩ := (operands_slot_eq_ok hread).mp h
      exact congrArg (· + 1) (ih hrest)

/-! ## Instructions -/

/-- Slots that were not named are zero. -/
theorem slots_toInst (op : Opcode) {o : Reading.Operands} (hlength : o.slots.length ≤ 3) :
    (o.toInst op).slots = o.slots ++ List.replicate (3 - o.slots.length) 0 := by
  obtain ⟨slots, constant⟩ := o
  match slots, hlength with
  | [], _ | [_], _ | [_, _], _ | [_, _, _], _ => rfl

/-- An instruction is put together from its slots and its constant. -/
theorem toInst_of_slots {i : Inst} {o : Reading.Operands} {n : Nat}
    (hslots : i.slots = o.slots ++ List.replicate n 0) (hconstant : o.constant = i.constant) :
    o.toInst i.op = i := by
  have hslot : ∀ k : Nat, o.slots[k]?.getD 0 = i.slots[k]?.getD 0 := by
    intro k
    rw [hslots, List.getElem?_append]
    split
    · rfl
    · rw [List.getElem?_eq_none (by omega), List.getElem?_replicate]
      split <;> rfl
  cases i with
  | mk op dest src1 src2 constant =>
    rw [Reading.Operands.toInst, hslot 0, hslot 1, hslot 2, hconstant]
    rfl

/-- An opcode is found by exactly its name. -/
theorem ofName?_eq_some {name : List Char} {op : Opcode} :
    Opcode.ofName? (String.ofList name) = some op ↔ op.name.toList = name := by
  constructor
  · intro h
    have hname := List.find?_some h
    rw [of_decide_eq_true hname, String.toList_ofList]
  · rintro rfl
    rw [String.ofList_toList, Opcode.ofName?_name]

/-- Reading an instruction leaves the text at a newline, or at its end. -/
theorem inst_eq_ok {cs rest : List Char} {i : Inst} :
    inst cs = .ok (i, rest) ↔
      ∃ cs₁ cs₂ o, word cs = .ok (i.op.name.toList, cs₁) ∧
        operands i.op.signature true cs₁ = .ok (o, cs₂) ∧ o.toInst i.op = i ∧
        skipInline cs₂ = rest ∧ (rest = [] ∨ ∃ r, rest = '\n' :: r) := by
  rw [inst, bind_eq_ok]
  constructor
  · rintro ⟨⟨name, cs₁⟩, hword, h⟩
    simp only at h
    split at h
    · cases h
    · rename_i op hop
      obtain ⟨⟨o, cs₂⟩, hoperands, h⟩ := bind_eq_ok.mp h
      obtain ⟨rest', hend, heq⟩ := bind_eq_ok.mp h
      obtain ⟨rfl, rfl⟩ := Prod.mk.inj (Except.ok.inj heq)
      obtain rfl := ofName?_eq_some.mp hop
      exact ⟨cs₁, cs₂, o, hword, hoperands, rfl, lineEnd_eq_ok.mp hend⟩
  · rintro ⟨cs₁, cs₂, o, hword, hoperands, hinst, hend⟩
    refine ⟨_, hword, ?_⟩
    simp only [String.ofList_toList, Opcode.ofName?_name]
    exact bind_eq_ok.mpr ⟨_, hoperands, bind_eq_ok.mpr ⟨_, lineEnd_eq_ok.mpr hend, by rw [hinst]⟩⟩

/-- An instruction is read exactly if it is written on a line, behind a gap. -/
theorem inst_line_iff {cs rest : List Char} {i : Inst} :
    inst cs = .ok (i, rest) ↔ ∃ text, Gap false cs text ∧ Line i text rest := by
  have hend : (rest = [] ∨ ∃ r, rest = '\n' :: r) ↔ ∀ c ∈ rest.head?, c = '\n' := by
    cases rest <;> simp
  rw [inst_eq_ok]
  constructor
  · rintro ⟨cs₁, cs₂, o, hword, hoperands, hinst, hskip, hnewline⟩
    obtain ⟨text, hgap, hname⟩ := word_iff.mp hword
    have hlength := length_slots_of_operands hoperands
    have hslots := slots_toInst i.op
      (Nat.le_trans (Nat.le_of_eq hlength) (length_slotted_signature i.op))
    rw [hinst] at hslots
    have hconstant : o.constant = i.constant := (congrArg Inst.constant hinst :)
    have hwritten := operands_sound hoperands (3 - o.slots.length)
    rw [← hslots, hconstant] at hwritten
    exact ⟨text, hgap, cs₁, cs₂, hname, hwritten, (skip_eq_iff.mp hskip).1, hend.mp hnewline⟩
  · rintro ⟨text, hgap, cs₁, cs₂, hname, hwritten, hrest, hnewline⟩
    obtain ⟨o, n, hoperands, hslots, hconstant⟩ := operands_complete hwritten
    refine ⟨cs₁, cs₂, o, word_iff.mpr ⟨text, hgap, hname⟩, hoperands,
      toInst_of_slots hslots hconstant, skip_eq_iff.mpr ⟨hrest, ?_⟩, hend.mpr hnewline⟩
    -- at the end of the line there is nothing to skip
    obtain rfl | ⟨r, rfl⟩ := hend.mpr hnewline <;> rfl

/-- In front of a newline, an instruction of a block is an instruction that ends with its line. -/
theorem instruction_iff_line {i : Inst} {text rest : List Char} :
    Instruction i text ('\n' :: rest) ↔ Line i text ('\n' :: rest) :=
  and_iff_left (List.cons_ne_nil _ _)

/-- With a newline behind it, it is an instruction of a block. -/
theorem inst_iff {cs rest : List Char} {i : Inst} :
    inst cs = .ok (i, '\n' :: rest) ↔
      ∃ text, Gap false cs text ∧ Instruction i text ('\n' :: rest) := by
  simp only [inst_line_iff, instruction_iff_line]

/-! ## Instructions of a block -/

/-- A gap inside a line is a gap. -/
theorem gap_lines {lines : Bool} {cs rest : List Char} (h : Gap lines cs rest) :
    Gap true cs rest := by
  induction h with
  | none => exact .none
  | blank hblank _ _ ih => exact .blank hblank (fun _ => rfl) ih
  | comment hw hend _ ih => exact .comment hw hend ih

/-- Two gaps are one gap. -/
theorem gap_trans {lines : Bool} {cs text rest : List Char} (h : Gap lines cs text)
    (hrest : Gap lines text rest) : Gap lines cs rest := by
  induction h with
  | none => exact hrest
  | blank hblank hline _ ih => exact .blank hblank hline (ih hrest)
  | comment hw hend _ ih => exact .comment hw hend (ih hrest)

/-- Identifiers start with a letter, and letters are not skipped. -/
theorem exists_cons_of_identifier {w text rest : List Char} (h : Identifier w text rest) :
    ∃ c cs, text = c :: cs ∧ isWordChar c ∧ rest.length ≤ cs.length := by
  cases w with
  | nil => cases h.letter
  | cons c w =>
    refine ⟨c, w ++ rest, h.split, isWordChar_of_isAlpha h.letter, ?_⟩
    rw [List.length_append]
    exact Nat.le_add_left _ _

/-- A body needs its closing brace. -/
theorem body_nil_ne_ok (start : UInt32) (fuel : Nat) (r : List Inst × List Char) :
    body start fuel [] ≠ .ok r := by
  cases fuel <;> exact fun h => nomatch h

/-- A body that is read is written as the grammar has it. -/
theorem body_sound {start : UInt32} {fuel : Nat} {cs rest : List Char} {is : List Inst}
    (h : body start fuel cs = .ok (is, rest)) :
    ∃ text, Gap true cs text ∧ Many Instruction is text ('\x7d' :: rest) := by
  induction fuel generalizing cs is with
  | zero => cases h
  | succ fuel ih =>
    rw [body] at h
    split at h
    · cases h
    · rename_i c cs' hskip
      have hgap : Gap true cs (c :: cs') := (skip_eq_iff.mp hskip).1
      split at h
      · rename_i hc
        cases h
        exact ⟨_, hc ▸ hgap, .nil⟩
      · obtain ⟨⟨i, cs₁⟩, hinst, h⟩ := bind_eq_ok.mp h
        obtain ⟨⟨is', rest'⟩, hbody, heq⟩ := bind_eq_ok.mp h
        obtain ⟨rfl, rfl⟩ := Prod.mk.inj (Except.ok.inj heq)
        obtain ⟨text₁, hgap₁, hmany⟩ := ih hbody
        -- an instruction that ends with the text has no brace behind it
        obtain ⟨_, _, _, -, -, -, -, rfl | ⟨r, rfl⟩⟩ := inst_eq_ok.mp hinst
        · exact absurd hbody (body_nil_ne_ok start fuel _)
        · obtain ⟨text, hinline, hwritten⟩ := inst_iff.mp hinst
          exact ⟨text, gap_trans hgap (gap_lines hinline), .cons hwritten hgap₁ hmany⟩

/-- A body that is written as the grammar has it is read. -/
theorem body_complete {start : UInt32} {is : List Inst} {fuel : Nat} (hfuel : is.length < fuel)
    {cs text rest : List Char} (hgap : Gap true cs text)
    (h : Many Instruction is text ('\x7d' :: rest)) : body start fuel cs = .ok (is, rest) := by
  obtain ⟨fuel, rfl⟩ : ∃ n, fuel = n + 1 := ⟨fuel - 1, by omega⟩
  induction is generalizing fuel cs text with
  | nil =>
    cases h
    have hskip : skipLines cs = '\x7d' :: rest := skip_eq_iff.mpr ⟨hgap, rfl⟩
    rw [body, hskip]
    rfl
  | cons i is ih =>
    rw [List.length_cons] at hfuel
    obtain ⟨fuel, rfl⟩ : ∃ n, fuel = n + 1 := ⟨fuel - 1, by omega⟩
    cases h with
    | @cons _ _ _ text₁ text₂ _ hone hgap₁ hmany =>
      have hinst := hone
      obtain ⟨⟨_, _, hname, -, -, hnewline⟩, hmore⟩ := hone
      obtain ⟨c, r, rfl⟩ := List.exists_cons_of_ne_nil hmore
      obtain rfl : c = '\n' := hnewline c rfl
      obtain ⟨c, text', rfl, hc, -⟩ := exists_cons_of_identifier hname
      have hskip : skipLines cs = c :: text' :=
        skip_eq_iff.mpr ⟨hgap, skip_of_isWordChar true hc _⟩
      have hbrace : c ≠ '\x7d' := by
        rintro rfl
        exact absurd hc (by decide)
      rw [body, hskip]
      simp only [if_neg hbrace]
      exact bind_eq_ok.mpr ⟨_, inst_iff.mpr ⟨_, .none, hinst⟩,
        bind_eq_ok.mpr ⟨_, ih hgap₁ hmany fuel (by omega), rfl⟩⟩

/-! ## What is written takes characters -/

/-- A gap takes characters from the front. -/
theorem suffix_of_gap {lines : Bool} {text rest : List Char} (h : Gap lines text rest) :
    rest <:+ text := by
  induction h with
  | none => exact List.suffix_rfl
  | blank _ _ _ ih => exact List.suffix_cons_iff.mpr (.inr ih)
  | comment _ _ _ ih => exact List.suffix_cons_iff.mpr (.inr (List.suffix_append_of_suffix ih))

theorem suffix_of_run {w text rest : List Char} (h : Run w text rest) : rest <:+ text :=
  ⟨w, h.split.symm⟩

/-- So does a number. -/
theorem suffix_of_number {v : UInt32} {text rest : List Char} (h : Number v text rest) :
    rest <:+ text := by
  obtain ⟨_, hrun, -⟩ := h
  exact suffix_of_run hrun

/-- So does an operand. -/
theorem suffix_of_slot {kind : OperandKind} {v : UInt8} {text rest : List Char}
    (h : Slot kind v text rest) : rest <:+ text := by
  cases h with
  | gpr h | fpr h =>
    obtain ⟨_, hname, -⟩ := h
    exact suffix_of_run hname.toRun
  | imm h => exact suffix_of_number h

/-- So does what stands in front of an operand. -/
theorem suffix_of_lead {first : Bool} {text rest : List Char} (h : Lead first text rest) :
    rest <:+ text := by
  cases h with
  | first hgap => exact suffix_of_gap hgap
  | comma hcomma hgap =>
    exact (suffix_of_gap hgap).trans ((List.suffix_cons ..).trans (suffix_of_gap hcomma))

/-- So do the operands of an instruction. -/
theorem suffix_of_operands {kinds : List OperandKind} {first : Bool} {slots : List UInt8}
    {constant : UInt32} {text rest : List Char}
    (h : Grammar.Operands kinds first slots constant text rest) : rest <:+ text := by
  induction h with
  | nil => exact List.suffix_rfl
  | gap _ ih => exact ih
  | slot hlead hslot _ ih => exact ih.trans ((suffix_of_slot hslot).trans (suffix_of_lead hlead))
  | const hlead hnumber _ ih =>
    exact ih.trans ((suffix_of_number hnumber).trans (suffix_of_lead hlead))

theorem length_of_gap {lines : Bool} {text rest : List Char} (h : Gap lines text rest) :
    rest.length ≤ text.length :=
  (suffix_of_gap h).length_le

theorem suffix_of_instruction {i : Inst} {text rest : List Char} (h : Instruction i text rest) :
    rest <:+ text := by
  obtain ⟨⟨text₁, text₂, hname, hoperands, hgap, -⟩, -⟩ := h
  exact (suffix_of_gap hgap).trans
    ((suffix_of_operands hoperands).trans (suffix_of_run hname.toRun))

/-- An instruction takes at least one character. -/
theorem length_of_line {i : Inst} {text rest : List Char} (h : Line i text rest) :
    rest.length < text.length := by
  obtain ⟨text₁, text₂, hname, hoperands, hgap, -⟩ := h
  obtain ⟨c, cs, rfl, -, hle⟩ := exists_cons_of_identifier hname
  have hoperands := (suffix_of_operands hoperands).length_le
  have hgap := length_of_gap hgap
  rw [List.length_cons]
  omega

/-- So does an instruction of a block. -/
theorem length_of_instruction {i : Inst} {text rest : List Char} (h : Instruction i text rest) :
    rest.length < text.length :=
  length_of_line h.1

/-- Parts one after the other take characters from the front. -/
theorem suffix_of_many {α : Type} {One : α → List Char → List Char → Prop}
    (hone : ∀ {a text rest}, One a text rest → rest <:+ text) {as : List α}
    {text rest : List Char} (h : Many One as text rest) : rest <:+ text := by
  induction h with
  | nil => exact List.suffix_rfl
  | cons hfirst hgap _ ih => exact ih.trans ((suffix_of_gap hgap).trans (hone hfirst))

/-- There are no more parts than characters. -/
theorem length_of_many {α : Type} {One : α → List Char → List Char → Prop}
    (hone : ∀ {a text rest}, One a text rest → rest.length < text.length) {as : List α}
    {text rest : List Char} (h : Many One as text rest) :
    as.length + rest.length ≤ text.length := by
  induction h with
  | nil => exact Nat.le_of_eq (Nat.zero_add _)
  | cons hfirst hgap _ ih =>
    have hfirst := hone hfirst
    have hgap := length_of_gap hgap
    rw [List.length_cons]
    omega

/-- A block takes at least one character. -/
theorem length_of_blockText {b : Block} {text rest : List Char} (h : BlockText b text rest) :
    rest.length < text.length := by
  obtain ⟨text₄, text₅, ⟨text₁, text₂, text₃, hname, hgap₁, hnumber, hgap₂⟩, hgap₃, hmany⟩ := h
  have hname := (suffix_of_run hname.toRun).length_le
  have hgap₁ := length_of_gap hgap₁
  have hnumber := (suffix_of_number hnumber).length_le
  have hgap₂ := length_of_gap hgap₂
  have hgap₃ := length_of_gap hgap₃
  have hmany := length_of_many length_of_instruction hmany
  rw [List.length_cons] at hgap₂ hmany
  omega

/-! ## Blocks -/

/-- What a block is read from, reader by reader. -/
theorem block_eq_ok {cs rest : List Char} {b : Block} :
    block cs = .ok (b, rest) ↔
      ∃ cs₁ cs₂ cs₃, word cs = .ok ("block".toList, cs₁) ∧ number cs₁ = .ok (b.start, cs₂) ∧
        symbol '\x7b' cs₂ = .ok cs₃ ∧ body b.start (cs₃.length + 1) cs₃ = .ok (b.insts, rest) := by
  rw [block, bind_eq_ok]
  constructor
  · rintro ⟨⟨keyword, cs₁⟩, hword, h⟩
    simp only at h
    split at h
    · cases h
    · rename_i hkeyword
      obtain ⟨⟨start, cs₂⟩, hnumber, h⟩ := bind_eq_ok.mp h
      obtain ⟨cs₃, hsymbol, h⟩ := bind_eq_ok.mp h
      obtain ⟨⟨is, rest'⟩, hbody, heq⟩ := bind_eq_ok.mp h
      obtain ⟨rfl, rfl⟩ := Prod.mk.inj (Except.ok.inj heq)
      obtain rfl := Decidable.of_not_not hkeyword
      exact ⟨cs₁, cs₂, cs₃, hword, hnumber, hsymbol, hbody⟩
  · rintro ⟨cs₁, cs₂, cs₃, hword, hnumber, hsymbol, hbody⟩
    refine ⟨_, hword, ?_⟩
    simp only [ne_eq, not_true_eq_false, ↓reduceIte]
    exact bind_eq_ok.mpr ⟨_, hnumber, bind_eq_ok.mpr ⟨_, hsymbol, bind_eq_ok.mpr ⟨_, hbody, rfl⟩⟩⟩

/-- A header is read exactly if it is written, behind a gap. -/
theorem header_iff {cs rest : List Char} {start : UInt32} :
    (∃ cs₁ cs₂, word cs = .ok ("block".toList, cs₁) ∧ number cs₁ = .ok (start, cs₂) ∧
        symbol '\x7b' cs₂ = .ok rest) ↔ ∃ text, Gap false cs text ∧ Header start text rest := by
  have hbrace : ∀ {cs₂ cs₃}, symbol '\x7b' cs₂ = .ok cs₃ ↔ Gap false cs₂ ('\x7b' :: cs₃) :=
    symbol_iff fun _ => rfl
  constructor
  · rintro ⟨cs₁, cs₂, hword, hnumber, hsymbol⟩
    obtain ⟨text, hgap, hname⟩ := word_iff.mp hword
    obtain ⟨text₂, hgap₂, hstart⟩ := number_iff.mp hnumber
    exact ⟨text, hgap, cs₁, text₂, cs₂, hname, hgap₂, hstart, hbrace.mp hsymbol⟩
  · rintro ⟨text, hgap, cs₁, text₂, cs₂, hname, hgap₂, hstart, hsymbol⟩
    exact ⟨cs₁, cs₂, word_iff.mpr ⟨text, hgap, hname⟩, number_iff.mpr ⟨text₂, hgap₂, hstart⟩,
      hbrace.mpr hsymbol⟩

/-- A block is read exactly if it is written, behind a gap. -/
theorem block_iff {cs rest : List Char} {b : Block} :
    block cs = .ok (b, rest) ↔ ∃ text, Gap false cs text ∧ BlockText b text rest := by
  rw [block_eq_ok]
  constructor
  · rintro ⟨cs₁, cs₂, cs₃, hword, hnumber, hsymbol, hbody⟩
    obtain ⟨text, hgap, hheader⟩ := header_iff.mp ⟨cs₁, cs₂, hword, hnumber, hsymbol⟩
    obtain ⟨text₅, hgap₅, hmany⟩ := body_sound hbody
    exact ⟨text, hgap, cs₃, text₅, hheader, hgap₅, hmany⟩
  · rintro ⟨text, hgap, cs₃, text₅, hheader, hgap₅, hmany⟩
    obtain ⟨cs₁, cs₂, hword, hnumber, hsymbol⟩ := header_iff.mpr ⟨text, hgap, hheader⟩
    have hlength := length_of_many length_of_instruction hmany
    have hle := length_of_gap hgap₅
    exact ⟨cs₁, cs₂, cs₃, hword, hnumber, hsymbol, body_complete (by omega) hgap₅ hmany⟩

/-- Blocks that are read are written as the grammar has them. -/
theorem blocks_sound {fuel : Nat} {cs : List Char} (hfuel : cs.length < fuel) {bs : List Block}
    (h : blocks fuel cs = .ok bs) : Written bs cs := by
  induction fuel generalizing cs bs with
  | zero => omega
  | succ fuel ih =>
    rw [blocks] at h
    split at h
    · rename_i hskip
      cases h
      exact ⟨[], (skip_eq_iff.mp hskip).1, .nil⟩
    · rename_i c cs' hskip
      have hgap : Gap true cs (c :: cs') := (skip_eq_iff.mp hskip).1
      obtain ⟨⟨b, cs₁⟩, hblock, h⟩ := bind_eq_ok.mp h
      obtain ⟨bs', hblocks, heq⟩ := bind_eq_ok.mp h
      obtain rfl := Except.ok.inj heq
      obtain ⟨text, hinline, hwritten⟩ := block_iff.mp hblock
      have hgap' := gap_trans hgap (gap_lines hinline)
      have hshorter := length_of_blockText hwritten
      have hle := length_of_gap hgap'
      obtain ⟨text₁, hgap₁, hmany⟩ := ih (by omega) hblocks
      exact ⟨text, hgap', .cons hwritten hgap₁ hmany⟩

/-- Blocks that are written as the grammar has them are read. -/
theorem blocks_complete {bs : List Block} {fuel : Nat} (hfuel : bs.length < fuel)
    {cs text : List Char} (hgap : Gap true cs text) (h : Many BlockText bs text []) :
    blocks fuel cs = .ok bs := by
  obtain ⟨fuel, rfl⟩ : ∃ n, fuel = n + 1 := ⟨fuel - 1, by omega⟩
  induction bs generalizing fuel cs text with
  | nil =>
    cases h
    have hskip : skipLines cs = [] := skip_eq_iff.mpr ⟨hgap, rfl⟩
    rw [blocks, hskip]
  | cons b bs ih =>
    rw [List.length_cons] at hfuel
    obtain ⟨fuel, rfl⟩ : ∃ n, fuel = n + 1 := ⟨fuel - 1, by omega⟩
    cases h with
    | @cons _ _ _ text₁ text₂ _ hone hgap₁ hmany =>
      have hblock := hone
      obtain ⟨_, _, ⟨_, _, _, hname, -⟩, -⟩ := hone
      obtain ⟨c, text', rfl, hc, -⟩ := exists_cons_of_identifier hname
      have hskip : skipLines cs = c :: text' :=
        skip_eq_iff.mpr ⟨hgap, skip_of_isWordChar true hc _⟩
      rw [blocks, hskip]
      exact bind_eq_ok.mpr ⟨_, block_iff.mpr ⟨_, .none, hblock⟩,
        bind_eq_ok.mpr ⟨_, ih hgap₁ hmany fuel (by omega), rfl⟩⟩

end Reading

/-- The parser accepts exactly its grammar: a text is read as some blocks if and only if the grammar
says that it is written for them. -/
theorem Block.parse_eq_ok_iff_written (text : String) (bs : List Block) :
    Block.parse text = .ok bs ↔ Grammar.Written bs text.toList := by
  rw [Block.parse_eq_ok]
  constructor
  · intro hread
    exact Reading.blocks_sound (Nat.lt_succ_self _) hread
  · rintro ⟨text₁, hgap, hmany⟩
    have hlength := Reading.length_of_many Reading.length_of_blockText hmany
    have hle := Reading.length_of_gap hgap
    exact Reading.blocks_complete (by omega) hgap hmany

end Dynarec
