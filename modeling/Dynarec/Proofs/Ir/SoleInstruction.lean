import Dynarec.Proofs.Ir.Acceptance

/-!
# Reading one instruction

A text is read as one instruction by putting it between the header and the closing brace of a block
and reading the whole.  So it is read if it is an instruction with gaps around it (`Grammar.Sole`).
But the text may also close the block itself, open another one and leave it to the brace behind the
text to close that; then the instruction of the last block is the answer (`Grammar.Breakout`).
Nothing else is read (`Inst.parse_eq_ok_iff`).

## Shape of the proof

* What stands behind the text starts with a newline.  Readers that stay on a line read the same
  there as at the end of the text (`LineBound`), and a gap that takes newlines reaches beyond the
  text only if the rest of the text is a gap (`skip_lines_append`).
* So a block that is closed by the brace behind the text is one whose instructions go on to the end
  of the text (`body_in_front`), and all blocks before it are in the text (`blocks_in_front`).
* The first block starts in front of the text.  Either it is the one left open, or it is closed in
  the text.
-/

namespace Dynarec

namespace Grammar

/-- One instruction, with nothing but gaps around it. -/
def Sole (i : Inst) (text : List Char) : Prop :=
  ∃ text₁ text₂, Gap true text text₁ ∧ Line i text₁ text₂ ∧ Gap true text₂ []

/-- Instructions up to the end of the text. -/
def Lines (is : List Inst) (text : List Char) : Prop :=
  ∃ text₁, Gap true text text₁ ∧ Many Line is text₁ []

/-- Any number of blocks, and the header and instructions of one that is left open. -/
def Unclosed (bs : List Block) (start : UInt32) (is : List Inst) (text : List Char) : Prop :=
  ∃ text₁ text₂ text₃, Gap true text text₁ ∧ Many BlockText bs text₁ text₂ ∧
    Header start text₂ text₃ ∧ Lines is text₃

/-- Instructions and the brace that closes the block they stand in, then blocks, the last of which
is left open and has one instruction. -/
def Breakout (i : Inst) (text : List Char) : Prop :=
  ∃ is text₁ text₂, Gap true text text₁ ∧ Many Instruction is text₁ ('\x7d' :: text₂) ∧
    ∃ bs start, Unclosed bs start [i] text₂

/-- Lines of one instruction hold it alone. -/
theorem lines_singleton {i : Inst} {text : List Char} : Lines [i] text ↔ Sole i text := by
  constructor
  · rintro ⟨text₁, hgap, hmany⟩
    cases hmany with
    | cons hline hgap₂ hrest =>
      cases hrest
      exact ⟨text₁, _, hgap, hline, hgap₂⟩
  · rintro ⟨text₁, text₂, hgap, hline, hgap₂⟩
    exact ⟨text₁, hgap, .cons hline hgap₂ .nil⟩

end Grammar

namespace Reading

open Grammar

/-! ## In front of a newline -/

/-- Blanks and comments end before the line does. -/
theorem skip_inline_append (comment : Bool) (t tail : List Char) :
    skip false comment (t ++ '\n' :: tail) = skip false comment t ++ '\n' :: tail := by
  induction t generalizing comment with
  | nil => cases comment <;> rfl
  | cons c t ih =>
    cases comment with
    | true =>
      rw [List.cons_append, skip, skip]
      split
      · rfl
      · exact ih true
    | false =>
      rw [List.cons_append, skip, skip]
      split
      · exact ih true
      · split
        · exact ih false
        · rfl

/-- A gap reaches beyond the newline only if it takes the whole text in front of it. -/
theorem skip_lines_append (comment : Bool) (t tail : List Char) :
    (skip true comment t = [] ∧ skip true comment (t ++ '\n' :: tail) = skipLines tail) ∨
      ∃ c r, skip true comment t = c :: r ∧
        skip true comment (t ++ '\n' :: tail) = c :: (r ++ '\n' :: tail) := by
  induction t generalizing comment with
  | nil => exact .inl (by cases comment <;> exact ⟨rfl, rfl⟩)
  | cons c t ih =>
    cases comment with
    | true =>
      rw [List.cons_append, skip, skip]
      split
      · exact ih false
      · exact ih true
    | false =>
      rw [List.cons_append, skip, skip]
      split
      · exact ih true
      · split
        · exact ih false
        · exact .inr ⟨c, t, rfl, rfl⟩

/-- Whether a line ends does not depend on the lines behind it. -/
theorem ends_append_newline {rest tail : List Char} : Ends (rest ++ '\n' :: tail) ↔ Ends rest := by
  cases rest with
  | nil => exact ⟨fun _ => by simp [Ends], fun _ => ends_cons.mpr rfl⟩
  | cons c rest => rw [List.cons_append, ends_cons, ends_cons]

/-- A word in front of a newline does not go beyond it. -/
theorem append_newline_eq_append {u w rest' tail : List Char} (hw : w.all isWordChar) :
    u ++ '\n' :: tail = w ++ rest' ↔ ∃ rest, u = w ++ rest ∧ rest' = rest ++ '\n' :: tail := by
  constructor
  · intro h
    induction w generalizing u with
    | nil => exact ⟨u, rfl, h.symm⟩
    | cons c w ih =>
      rw [List.all_cons, Bool.and_eq_true] at hw
      cases u with
      | nil =>
        cases h
        exact absurd hw.1 (by decide)
      | cons d u =>
        obtain ⟨rfl, htail⟩ := List.cons.inj h
        obtain ⟨rest, rfl, hrest⟩ := ih hw.2 htail
        exact ⟨rest, rfl, hrest⟩
  · rintro ⟨rest, rfl, rfl⟩
    exact List.append_assoc ..

/-- A reader that reads the same in front of a newline as at the end of the text. -/
def LineBound {α : Type} (read : List Char → Except Stuck (α × List Char)) : Prop :=
  ∀ (t tail : List Char) (a : α) (rest' : List Char), read (t ++ '\n' :: tail) = .ok (a, rest') ↔
    ∃ rest, read t = .ok (a, rest) ∧ rest' = rest ++ '\n' :: tail

/-- Words are read within their line. -/
theorem lineBound_word : LineBound word := by
  intro t tail w rest'
  simp only [word_eq_ok, skipInline, skip_inline_append]
  constructor
  · rintro ⟨hsplit, hletter, hword, hends⟩
    obtain ⟨rest, ht, rfl⟩ := (append_newline_eq_append hword).mp hsplit
    exact ⟨rest, ⟨ht, hletter, hword, ends_append_newline.mp hends⟩, rfl⟩
  · rintro ⟨rest, ⟨ht, hletter, hword, hends⟩, rfl⟩
    exact ⟨(append_newline_eq_append hword).mpr ⟨rest, ht, rfl⟩, hletter, hword,
      ends_append_newline.mpr hends⟩

/-- So are numbers. -/
theorem lineBound_number : LineBound number := by
  intro t tail v rest'
  simp only [number_eq_ok, skipInline, skip_inline_append]
  constructor
  · rintro ⟨token, hsplit, hword, hends, hnumber⟩
    obtain ⟨rest, ht, rfl⟩ := (append_newline_eq_append hword).mp hsplit
    exact ⟨rest, ⟨token, ht, hword, ends_append_newline.mp hends, hnumber⟩, rfl⟩
  · rintro ⟨rest, ⟨token, ht, hword, hends, hnumber⟩, rfl⟩
    exact ⟨token, (append_newline_eq_append hword).mpr ⟨rest, ht, rfl⟩, hword,
      ends_append_newline.mpr hends, hnumber⟩

/-- So are registers of either bank. -/
theorem lineBound_register (bank : Char) : LineBound (register bank) := by
  intro t tail v rest'
  simp only [register_eq_ok]
  constructor
  · rintro ⟨digits, hname, hdigits⟩
    obtain ⟨rest, hname', rfl⟩ := (lineBound_word ..).mp hname
    exact ⟨rest, ⟨digits, hname', hdigits⟩, rfl⟩
  · rintro ⟨rest, ⟨digits, hname, hdigits⟩, rfl⟩
    exact ⟨digits, (lineBound_word ..).mpr ⟨rest, hname, rfl⟩, hdigits⟩

/-- So are immediates. -/
theorem lineBound_immediate : LineBound immediate := by
  intro t tail v rest'
  simp only [immediate_eq_ok]
  exact lineBound_number t tail v.toUInt32 rest'

/-- So are slots. -/
theorem lineBound_slot {kind : OperandKind} {read : List Char → Except Stuck (UInt8 × List Char)}
    (hkind : slot? kind = some read) : LineBound read := by
  cases kind with
  | gpr | fpr =>
    cases hkind
    exact lineBound_register _
  | imm =>
    cases hkind
    exact lineBound_immediate
  | const | gap => cases hkind

/-- A symbol other than a newline is read within its line. -/
theorem symbol_append {wanted : Char} (hwanted : wanted ≠ '\n') {t tail rest' : List Char} :
    symbol wanted (t ++ '\n' :: tail) = .ok rest' ↔
      ∃ rest, symbol wanted t = .ok rest ∧ rest' = rest ++ '\n' :: tail := by
  simp only [symbol_eq_ok, skipInline, skip_inline_append]
  constructor
  · intro h
    cases hskip : skip false false t with
    | nil =>
      rw [hskip] at h
      cases h
      exact absurd rfl hwanted
    | cons c rest =>
      rw [hskip] at h
      cases h
      exact ⟨rest, rfl, rfl⟩
  · rintro ⟨rest, hskip, rfl⟩
    rw [hskip, List.cons_append]

/-- So is the comma between operands. -/
theorem comma_append {first : Bool} {t tail rest' : List Char} :
    comma first (t ++ '\n' :: tail) = .ok rest' ↔
      ∃ rest, comma first t = .ok rest ∧ rest' = rest ++ '\n' :: tail := by
  cases first with
  | true =>
    constructor
    · rintro ⟨⟩
      exact ⟨t, rfl, rfl⟩
    · rintro ⟨rest, ⟨⟩, rfl⟩
      rfl
  | false => exact symbol_append (by decide)

/-- An operand behind its comma and the operands after it. -/
theorem operand_append {α : Type} {read : List Char → Except Stuck (α × List Char)}
    (hread : LineBound read) {kinds : List OperandKind} (hkinds : LineBound (operands kinds false))
    (put : α → Operands → Operands) {first : Bool} {t tail rest' : List Char} {o : Operands} :
    (∃ cs₁ v cs₂ o', comma first (t ++ '\n' :: tail) = .ok cs₁ ∧ read cs₁ = .ok (v, cs₂) ∧
        operands kinds false cs₂ = .ok (o', rest') ∧ o = put v o') ↔
      ∃ rest, (∃ cs₁ v cs₂ o', comma first t = .ok cs₁ ∧ read cs₁ = .ok (v, cs₂) ∧
        operands kinds false cs₂ = .ok (o', rest) ∧ o = put v o') ∧ rest' = rest ++ '\n' :: tail := by
  constructor
  · rintro ⟨_, v, _, o', hcomma, hvalue, hrest, rfl⟩
    obtain ⟨cs₁, hcomma', rfl⟩ := comma_append.mp hcomma
    obtain ⟨cs₂, hvalue', rfl⟩ := (hread ..).mp hvalue
    obtain ⟨rest, hrest', rfl⟩ := (hkinds ..).mp hrest
    exact ⟨rest, ⟨cs₁, v, cs₂, o', hcomma', hvalue', hrest', rfl⟩, rfl⟩
  · rintro ⟨rest, ⟨cs₁, v, cs₂, o', hcomma, hvalue, hrest, rfl⟩, rfl⟩
    exact ⟨_, v, _, o', comma_append.mpr ⟨cs₁, hcomma, rfl⟩, (hread ..).mpr ⟨cs₂, hvalue, rfl⟩,
      (hkinds ..).mpr ⟨rest, hrest, rfl⟩, rfl⟩

/-- All operands of an instruction are read within their line. -/
theorem lineBound_operands (kinds : List OperandKind) (first : Bool) :
    LineBound (operands kinds first) := by
  induction kinds generalizing first with
  | nil =>
    intro t tail o rest'
    constructor
    · rintro ⟨⟩
      exact ⟨t, rfl, rfl⟩
    · rintro ⟨rest, ⟨⟩, rfl⟩
      rfl
  | cons kind kinds ih =>
    intro t tail o rest'
    by_cases hgap : kind = .gap
    · subst hgap
      simp only [operands_gap_eq_ok]
      constructor
      · rintro ⟨o', hrest, rfl⟩
        obtain ⟨rest, hrest', rfl⟩ := (ih first ..).mp hrest
        exact ⟨rest, ⟨o', hrest', rfl⟩, rfl⟩
      · rintro ⟨rest, ⟨o', hrest, rfl⟩, rfl⟩
        exact ⟨o', (ih first ..).mpr ⟨rest, hrest, rfl⟩, rfl⟩
    by_cases hconst : kind = .const
    · subst hconst
      simp only [operands_const_eq_ok]
      exact operand_append lineBound_number (ih false) fun v o => { o with constant := v }
    · obtain ⟨read, hread⟩ := exists_slot? hconst hgap
      simp only [operands_slot_eq_ok hread]
      exact operand_append (lineBound_slot hread) (ih false) Operands.withSlot

/-- An instruction ends with its line, so it may as well be the last one of the text. -/
theorem lineBound_inst : LineBound inst := by
  intro t tail i rest'
  simp only [inst_eq_ok]
  constructor
  · rintro ⟨_, _, o, hword, hoperands, hinst, rfl, hend⟩
    obtain ⟨cs₁, hword', rfl⟩ := (lineBound_word ..).mp hword
    obtain ⟨cs₂, hoperands', rfl⟩ := (lineBound_operands ..).mp hoperands
    rw [skipInline, skip_inline_append] at hend ⊢
    refine ⟨skipInline cs₂, ⟨cs₁, cs₂, o, hword', hoperands', hinst, rfl, ?_⟩, rfl⟩
    rw [skipInline]
    cases hskip : skip false false cs₂ with
    | nil => exact .inl rfl
    | cons c r =>
      rw [hskip] at hend
      rcases hend with hnil | ⟨_, hnewline⟩
      · cases hnil
      · cases hnewline
        exact .inr ⟨r, rfl⟩
  · rintro ⟨rest, ⟨cs₁, cs₂, o, hword, hoperands, hinst, hskip, hend⟩, rfl⟩
    refine ⟨_, _, o, (lineBound_word ..).mpr ⟨cs₁, hword, rfl⟩,
      (lineBound_operands ..).mpr ⟨cs₂, hoperands, rfl⟩, hinst, ?_, .inr ?_⟩
    · rw [skipInline, skip_inline_append]
      exact congrArg (· ++ '\n' :: tail) hskip
    · rcases hend with rfl | ⟨r, rfl⟩
      · exact ⟨tail, rfl⟩
      · exact ⟨r ++ '\n' :: tail, rfl⟩

/-! ## Instructions of a block -/

/-- What stands behind a text that is read as one instruction. -/
def closing : List Char := ['\n', '\x7d', '\n']

/-- Where something follows blank lines, it follows them in a longer text too. -/
theorem skipLines_append_cons {t tail r : List Char} {c : Char} (h : skipLines t = c :: r) :
    skipLines (t ++ '\n' :: tail) = c :: (r ++ '\n' :: tail) := by
  rcases skip_lines_append false t tail with ⟨hnil, -⟩ | ⟨d, r', hcons, happend⟩
  · cases h.symm.trans hnil
  · cases h.symm.trans hcons
    exact happend

/-- A body that is closed in the text is read in front of a newline, too. -/
theorem body_append {start : UInt32} {fuel : Nat} {t rest : List Char} {is : List Inst}
    (h : body start fuel t = .ok (is, rest)) (tail : List Char) :
    body start fuel (t ++ '\n' :: tail) = .ok (is, rest ++ '\n' :: tail) := by
  induction fuel generalizing t is with
  | zero => cases h
  | succ fuel ih =>
    rw [body] at h ⊢
    cases hskip : skipLines t with
    | nil =>
      rw [hskip] at h
      cases h
    | cons c r =>
      rw [hskip] at h
      rw [skipLines_append_cons hskip]
      dsimp only at h ⊢
      by_cases hc : c = '\x7d'
      · rw [if_pos hc] at h ⊢
        cases h
        rfl
      · rw [if_neg hc] at h ⊢
        obtain ⟨⟨i, rest₁⟩, hinst, h⟩ := bind_eq_ok.mp h
        obtain ⟨⟨is', rest'⟩, hbody, heq⟩ := bind_eq_ok.mp h
        cases heq
        exact bind_eq_ok.mpr ⟨_, (lineBound_inst (c :: r) tail i _).mpr ⟨rest₁, hinst, rfl⟩,
          bind_eq_ok.mpr ⟨_, ih hbody, rfl⟩⟩

/-- A body in front of the closing brace is closed in the text, or its instructions go on to the end
of the text. -/
theorem body_in_front {start : UInt32} {fuel : Nat} {t rest' : List Char} {is : List Inst}
    (h : body start fuel (t ++ closing) = .ok (is, rest')) :
    (∃ rest, body start fuel t = .ok (is, rest) ∧ rest' = rest ++ closing) ∨
      Lines is t ∧ rest' = ['\n'] := by
  induction fuel generalizing t is with
  | zero => cases h
  | succ fuel ih =>
    rw [body] at h
    rcases skip_lines_append false t ['\x7d', '\n'] with ⟨hnil, happend⟩ | ⟨c, r, hcons, happend⟩
    · -- the text is at its end, and the brace is the one behind it
      have hskip : skipLines (t ++ closing) = ['\x7d', '\n'] := happend
      rw [hskip] at h
      cases h
      exact .inr ⟨⟨[], (skip_eq_iff.mp hnil).1, .nil⟩, rfl⟩
    · have hskip : skipLines (t ++ closing) = c :: (r ++ closing) := happend
      have hskip' : skipLines t = c :: r := hcons
      have hgap : Gap true t (c :: r) := (skip_eq_iff.mp hcons).1
      rw [hskip] at h
      rw [body, hskip']
      dsimp only at h ⊢
      by_cases hc : c = '\x7d'
      · rw [if_pos hc] at h ⊢
        cases h
        exact .inl ⟨r, rfl, rfl⟩
      · rw [if_neg hc] at h ⊢
        obtain ⟨⟨i, _⟩, hinst, h⟩ := bind_eq_ok.mp h
        obtain ⟨⟨is', rest₂⟩, hbody, heq⟩ := bind_eq_ok.mp h
        cases heq
        obtain ⟨rest₁, hinst', rfl⟩ := (lineBound_inst (c :: r) _ i _).mp hinst
        rcases ih hbody with ⟨rest, hclosed, rfl⟩ | ⟨⟨text₁, hgap₁, hmany⟩, rfl⟩
        · exact .inl ⟨rest, bind_eq_ok.mpr ⟨_, hinst', bind_eq_ok.mpr ⟨_, hclosed, rfl⟩⟩, rfl⟩
        · obtain ⟨text, hinline, hline⟩ := inst_line_iff.mp hinst'
          exact .inr ⟨⟨text, gap_trans hgap (gap_lines hinline), .cons hline hgap₁ hmany⟩, rfl⟩

/-- Instructions up to the end of the text are closed by the brace behind it. -/
theorem body_of_lines {start : UInt32} {is : List Inst} {fuel : Nat} (hfuel : is.length < fuel)
    {t : List Char} (h : Lines is t) : body start fuel (t ++ closing) = .ok (is, ['\n']) := by
  obtain ⟨text, hgap, hmany⟩ := h
  obtain ⟨fuel, rfl⟩ : ∃ n, fuel = n + 1 := ⟨fuel - 1, by omega⟩
  induction is generalizing fuel t text with
  | nil =>
    cases hmany
    have hskip : skipLines (t ++ closing) = ['\x7d', '\n'] := by
      rcases skip_lines_append false t ['\x7d', '\n'] with ⟨-, happend⟩ | ⟨c, r, hcons, -⟩
      · exact happend
      · cases hcons.symm.trans (skip_eq_iff.mpr ⟨hgap, rfl⟩)
    rw [body, hskip]
    rfl
  | cons i is ih =>
    rw [List.length_cons] at hfuel
    obtain ⟨fuel, rfl⟩ : ∃ n, fuel = n + 1 := ⟨fuel - 1, by omega⟩
    cases hmany with
    | cons hline hgap₁ hmany =>
      have hinst := inst_line_iff.mpr ⟨_, .none, hline⟩
      obtain ⟨_, _, hname, -⟩ := hline
      obtain ⟨c, text', rfl, hc, -⟩ := exists_cons_of_identifier hname
      have hskip : skipLines (t ++ closing) = c :: (text' ++ closing) :=
        skipLines_append_cons (skip_eq_iff.mpr ⟨hgap, skip_of_isWordChar true hc _⟩)
      -- a line starts with a name, and so not with the brace
      have hbrace : c ≠ '\x7d' := by
        rintro rfl
        exact absurd hc (by decide)
      rw [body, hskip]
      simp only [if_neg hbrace]
      exact bind_eq_ok.mpr ⟨_, (lineBound_inst (c :: text') _ i _).mpr ⟨_, hinst, rfl⟩,
        bind_eq_ok.mpr ⟨_, ih _ hgap₁ hmany fuel (by omega), rfl⟩⟩

/-! ## Blocks -/

/-- The readers of a header stay on its line. -/
theorem header_append {cs rest' : List Char} {start : UInt32} (tail : List Char) :
    (∃ cs₁ cs₂, word (cs ++ '\n' :: tail) = .ok ("block".toList, cs₁) ∧
        number cs₁ = .ok (start, cs₂) ∧ symbol '\x7b' cs₂ = .ok rest') ↔
      ∃ rest, (∃ cs₁ cs₂, word cs = .ok ("block".toList, cs₁) ∧ number cs₁ = .ok (start, cs₂) ∧
        symbol '\x7b' cs₂ = .ok rest) ∧ rest' = rest ++ '\n' :: tail := by
  constructor
  · rintro ⟨_, _, hword, hnumber, hsymbol⟩
    obtain ⟨cs₁, hword', rfl⟩ := (lineBound_word ..).mp hword
    obtain ⟨cs₂, hnumber', rfl⟩ := (lineBound_number ..).mp hnumber
    obtain ⟨rest, hsymbol', rfl⟩ := (symbol_append (by decide)).mp hsymbol
    exact ⟨rest, ⟨cs₁, cs₂, hword', hnumber', hsymbol'⟩, rfl⟩
  · rintro ⟨rest, ⟨cs₁, cs₂, hword, hnumber, hsymbol⟩, rfl⟩
    exact ⟨_, _, (lineBound_word ..).mpr ⟨cs₁, hword, rfl⟩,
      (lineBound_number ..).mpr ⟨cs₂, hnumber, rfl⟩,
      (symbol_append (by decide)).mpr ⟨rest, hsymbol, rfl⟩⟩

/-- A block in front of the closing brace is in the text, or it is left open there. -/
theorem block_in_front {cs rest' : List Char} {b : Block}
    (h : block (cs ++ closing) = .ok (b, rest')) :
    ∃ text, Gap false cs text ∧
      ((∃ rest, BlockText b text rest ∧ rest' = rest ++ closing) ∨
        (∃ text₁, Header b.start text text₁ ∧ Lines b.insts text₁) ∧ rest' = ['\n']) := by
  obtain ⟨cs₁, cs₂, cs₃, hword, hnumber, hsymbol, hbody⟩ := block_eq_ok.mp h
  obtain ⟨rest, hreaders, rfl⟩ := (header_append _).mp ⟨cs₁, cs₂, hword, hnumber, hsymbol⟩
  obtain ⟨text, hgap, hheader⟩ := header_iff.mp hreaders
  refine ⟨text, hgap, ?_⟩
  rcases body_in_front hbody with ⟨rest₁, hclosed, rfl⟩ | ⟨hlines, rfl⟩
  · obtain ⟨text₁, hgap₁, hmany⟩ := body_sound hclosed
    exact .inl ⟨rest₁, ⟨rest, text₁, hheader, hgap₁, hmany⟩, rfl⟩
  · exact .inr ⟨⟨rest, hheader, hlines⟩, rfl⟩

/-- A block is read the same with further lines behind it. -/
theorem block_append {b : Block} {text rest : List Char} (h : BlockText b text rest)
    (tail : List Char) :
    block (text ++ '\n' :: tail) = .ok (b, rest ++ '\n' :: tail) := by
  obtain ⟨cs, text₁, hheader, hgap, hmany⟩ := h
  have hreaders := header_iff.mpr ⟨text, .none, hheader⟩
  obtain ⟨cs₁, cs₂, hword, hnumber, hsymbol⟩ := (header_append tail).mpr ⟨cs, hreaders, rfl⟩
  have hlength := length_of_many length_of_instruction hmany
  have hle := length_of_gap hgap
  refine block_eq_ok.mpr ⟨cs₁, cs₂, _, hword, hnumber, hsymbol, body_append ?_ tail⟩
  refine body_complete ?_ hgap hmany
  rw [List.length_append]
  omega

/-- After the last block there may be a newline. -/
theorem blocks_newline_nil (fuel : Nat) : blocks fuel ['\n'] = .ok [] := by
  cases fuel <;> rfl

/-- If blocks are read from a text and a closing brace behind it, the text ends within the last of
them. -/
theorem blocks_in_front {fuel : Nat} {t : List Char} (hfuel : (t ++ closing).length < fuel)
    {bs : List Block} (h : blocks fuel (t ++ closing) = .ok bs) :
    ∃ bs' start is, bs = bs' ++ [⟨start, is⟩] ∧ Unclosed bs' start is t := by
  induction fuel generalizing t bs with
  | zero => omega
  | succ fuel ih =>
    rw [blocks] at h
    rcases skip_lines_append false t ['\x7d', '\n'] with ⟨-, happend⟩ | ⟨c, r, hcons, happend⟩
    · -- a brace does not start a block
      have hskip : skipLines (t ++ closing) = ['\x7d', '\n'] := happend
      rw [hskip] at h
      cases h
    · have hskip : skipLines (t ++ closing) = (c :: r) ++ closing := happend
      have hgap : Gap true t (c :: r) := (skip_eq_iff.mp hcons).1
      rw [hskip] at h
      obtain ⟨⟨b, _⟩, hblock, h⟩ := bind_eq_ok.mp h
      obtain ⟨bs₁, hblocks, heq⟩ := bind_eq_ok.mp h
      cases heq
      change block ((c :: r) ++ closing) = _ at hblock
      obtain ⟨text, hinline, ⟨rest, hwritten, rfl⟩ | ⟨⟨text₁, hheader, hlines⟩, rfl⟩⟩ :=
        block_in_front hblock
      · have hgap' := gap_trans hgap (gap_lines hinline)
        have hshorter := length_of_blockText hwritten
        have hle := length_of_gap hgap'
        rw [List.length_append] at hfuel
        obtain ⟨bs', start, is, rfl, text₂, text₃, text₄, hgap₂, hmany, hopen⟩ :=
          ih (by rw [List.length_append]; omega) hblocks
        exact ⟨b :: bs', start, is, rfl, text, text₃, text₄, hgap', .cons hwritten hgap₂ hmany,
          hopen⟩
      · -- the block left open is closed by the brace behind the text, and nothing follows that
        obtain rfl := Except.ok.inj ((blocks_newline_nil fuel).symm.trans hblocks)
        exact ⟨[], b.start, b.insts, rfl, text, text, text₁, gap_trans hgap (gap_lines hinline),
          .nil, hheader, hlines⟩

/-- The header of a block is found behind a gap, whatever follows. -/
theorem skipLines_header_append {t text rest : List Char} {start : UInt32} (hgap : Gap true t text)
    (h : Header start text rest) (tail : List Char) :
    ∃ c cs, text = c :: cs ∧ skipLines (t ++ '\n' :: tail) = c :: (cs ++ '\n' :: tail) := by
  obtain ⟨_, _, _, hname, -⟩ := h
  obtain ⟨c, cs, rfl, hc, -⟩ := exists_cons_of_identifier hname
  exact ⟨c, cs, rfl, skipLines_append_cons (skip_eq_iff.mpr ⟨hgap, skip_of_isWordChar true hc _⟩)⟩

/-- A text that ends within a block gives that block once it is closed. -/
theorem blocks_of_unclosed {bs : List Block} {start : UInt32} {is : List Inst} {fuel : Nat}
    (hfuel : bs.length < fuel) {t : List Char} (h : Unclosed bs start is t) :
    blocks fuel (t ++ closing) = .ok (bs ++ [⟨start, is⟩]) := by
  obtain ⟨text₁, text₂, text₃, hgap, hmany, hheader, hlines⟩ := h
  -- by induction on the blocks in front; the last block is closed by the brace behind the text
  obtain ⟨fuel, rfl⟩ : ∃ n, fuel = n + 1 := ⟨fuel - 1, by omega⟩
  induction bs generalizing fuel t text₁ with
  | nil =>
    cases hmany
    obtain ⟨c, cs, rfl, hskip⟩ := skipLines_header_append hgap hheader ['\x7d', '\n']
    have hreaders := header_iff.mpr ⟨_, .none, hheader⟩
    obtain ⟨cs₁, cs₂, hword, hnumber, hsymbol⟩ :=
      (header_append ['\x7d', '\n']).mpr ⟨text₃, hreaders, rfl⟩
    have hbody : body start ((text₃ ++ closing).length + 1) (text₃ ++ closing) =
        .ok (is, ['\n']) := by
      refine body_of_lines ?_ hlines
      obtain ⟨_, hgap₃, hmany⟩ := hlines
      have hlength := length_of_many length_of_line hmany
      have hle := length_of_gap hgap₃
      rw [List.length_append]
      omega
    have hblock : block ((c :: cs) ++ closing) = .ok (⟨start, is⟩, ['\n']) :=
      block_eq_ok.mpr ⟨cs₁, cs₂, _, hword, hnumber, hsymbol, hbody⟩
    rw [blocks, closing, hskip]
    exact bind_eq_ok.mpr ⟨_, hblock, bind_eq_ok.mpr ⟨_, blocks_newline_nil fuel, rfl⟩⟩
  | cons b bs ih =>
    rw [List.length_cons] at hfuel
    obtain ⟨fuel, rfl⟩ : ∃ n, fuel = n + 1 := ⟨fuel - 1, by omega⟩
    cases hmany with
    | cons hwritten hgap₁ hmany =>
      have hblock := block_append hwritten ['\x7d', '\n']
      obtain ⟨_, _, hheader₁, -⟩ := hwritten
      obtain ⟨c, cs, rfl, hskip⟩ := skipLines_header_append hgap hheader₁ ['\x7d', '\n']
      rw [blocks, closing, hskip]
      exact bind_eq_ok.mpr ⟨_, hblock, bind_eq_ok.mpr ⟨_, ih _ hgap₁ hmany fuel (by omega), rfl⟩⟩

/-- Reading in front of the closing brace closes the block that is left open. -/
theorem blocks_append_closing_iff {fuel : Nat} {t : List Char}
    (hfuel : (t ++ closing).length < fuel) {bs : List Block} :
    blocks fuel (t ++ closing) = .ok bs ↔
      ∃ bs' start is, bs = bs' ++ [⟨start, is⟩] ∧ Unclosed bs' start is t := by
  refine ⟨blocks_in_front hfuel, ?_⟩
  rintro ⟨bs', start, is, rfl, hopen⟩
  refine blocks_of_unclosed ?_ hopen
  obtain ⟨text₁, text₂, _, hgap, hmany, -⟩ := hopen
  have hlength := length_of_many length_of_blockText hmany
  have hle := length_of_gap hgap
  rw [List.length_append] at hfuel
  omega

/-! ## The block around the text -/

/-- The header in front of a text is read as that header. -/
theorem header_headed {start start' : UInt32} {cs rest : List Char} :
    Header start (headed start' cs) rest ↔ start = start' ∧ rest = cs := by
  have hkeyword : word (headed start' cs) =
      .ok ("block".toList, ' ' :: ((Text.hex start'.toNat).toList ++ ' ' :: '\x7b' :: cs)) :=
    word_eq_ok.mpr ⟨rfl, rfl, rfl, ends_cons.mpr rfl⟩
  have hhex := number_hex start' (ends_cons.mpr rfl : Ends (' ' :: '\x7b' :: cs))
  constructor
  · intro h
    obtain ⟨_, _, hword, hnumber, hsymbol⟩ := header_iff.mpr ⟨_, .none, h⟩
    cases hkeyword.symm.trans hword
    cases hhex.symm.trans hnumber
    have hbrace : symbol '\x7b' (' ' :: '\x7b' :: cs) = .ok cs := symbol_eq_ok.mpr rfl
    exact ⟨rfl, (Except.ok.inj (hbrace.symm.trans hsymbol)).symm⟩
  · rintro ⟨rfl, rfl⟩
    obtain ⟨text, hgap, hnumber⟩ := number_iff.mp hhex
    have hname : Identifier "block".toList (headed start rest)
        (' ' :: ((Text.hex start.toNat).toList ++ ' ' :: '\x7b' :: rest)) :=
      ⟨⟨rfl, rfl, ends_cons.mpr rfl⟩, rfl⟩
    exact ⟨_, text, _, hname, hgap, hnumber, .blank (by decide) (by simp) .none⟩

/-- A block that is closed in the text is not closed by the brace behind it. -/
theorem not_lines_of_closed {is ks : List Inst} {text text₁ text₂ : List Char}
    (hgap : Gap true text text₁) (hmany : Many Instruction is text₁ ('\x7d' :: text₂)) :
    ¬ Lines ks text := by
  intro hlines
  -- with fuel for both, the body is read both ways
  have hread : body 0 (is.length + ks.length + 1) text = .ok (is, text₂) :=
    body_complete (by omega) hgap hmany
  have hclosed := body_append hread ['\x7d', '\n']
  have hopen : body 0 (is.length + ks.length + 1) (text ++ closing) = .ok (ks, ['\n']) :=
    body_of_lines (by omega) hlines
  have hrests := congrArg List.length (Prod.mk.inj (Except.ok.inj (hclosed.symm.trans hopen))).2
  simp at hrests

/-- No gap can be taken from a header. -/
theorem gap_headed {start : UInt32} {cs text : List Char} (h : Gap true (headed start cs) text) :
    text = headed start cs := by
  generalize ht : headed start cs = t at h
  cases h with
  | none => rfl
  | blank hblank _ _ =>
    cases ht
    exact absurd hblank (by decide)
  | comment => cases ht

/-- The gap in front of instructions takes the newline before it. -/
theorem exists_gap_newline_iff {One : Inst → List Char → List Char → Prop}
    (hone : ∀ i s rest, ¬ One i ('\n' :: s) rest) {is : List Inst} {s rest : List Char}
    (hrest : rest.head? ≠ some '\n') :
    (∃ text, Gap true ('\n' :: s) text ∧ Many One is text rest) ↔
      ∃ text, Gap true s text ∧ Many One is text rest := by
  constructor
  · rintro ⟨text, hgap, hmany⟩
    generalize ht : '\n' :: s = t at hgap
    cases hgap with
    | none =>
      subst ht
      cases hmany with
      | nil => exact absurd rfl hrest
      | cons hfirst _ _ => exact absurd hfirst (hone _ _ _)
    | blank _ _ hgap =>
      cases ht
      exact ⟨text, hgap, hmany⟩
    | comment => cases ht
  · rintro ⟨text, hgap, hmany⟩
    exact ⟨text, .blank (by decide) (fun _ => rfl) hgap, hmany⟩

/-- No name starts at the end of a line. -/
theorem not_identifier_newline {w s rest : List Char} : ¬ Identifier w ('\n' :: s) rest := by
  intro h
  obtain ⟨c, cs, heq, hc, -⟩ := exists_cons_of_identifier h
  cases heq
  exact absurd hc (by decide)

end Reading

namespace Grammar

open Reading

/-- Blank lines in front of instructions do not matter. -/
theorem lines_newline {is : List Inst} {s : List Char} : Lines is ('\n' :: s) ↔ Lines is s :=
  exists_gap_newline_iff (fun _ _ _ ⟨_, _, hname, _⟩ => not_identifier_newline hname) nofun

/-- Behind the header, a text goes on to its end with one instruction or closes the block. -/
theorem exists_unclosed_headed_iff {i : Inst} {s : List Char} :
    (∃ bs start, Unclosed bs start [i] (headed 0 ('\n' :: s))) ↔ Sole i s ∨ Breakout i s := by
  -- the newline behind the header is a blank line of the block
  have hclosed : ∀ {is rest}, (∃ text, Gap true ('\n' :: s) text ∧
      Many Instruction is text ('\x7d' :: rest)) ↔
      ∃ text, Gap true s text ∧ Many Instruction is text ('\x7d' :: rest) :=
    exists_gap_newline_iff (fun _ _ _ ⟨⟨_, _, hname, _⟩, _⟩ => not_identifier_newline hname)
      (by simp)
  constructor
  · rintro ⟨bs, start, text₁, text₂, text₃, hgap, hmany, hheader, hlines⟩
    obtain rfl := gap_headed hgap
    cases hmany with
    | nil =>
      obtain ⟨-, rfl⟩ := header_headed.mp hheader
      exact .inl (lines_singleton.mp (lines_newline.mp hlines))
    | cons hwritten hgap₁ hmany =>
      obtain ⟨_, text, hheader₁, hblock⟩ := hwritten
      obtain ⟨-, rfl⟩ := header_headed.mp hheader₁
      obtain ⟨text, hgap, hinsts⟩ := hclosed.mp ⟨text, hblock⟩
      exact .inr ⟨_, text, _, hgap, hinsts, _, start, _, _, _, hgap₁, hmany, hheader, hlines⟩
  · rintro (hsole |
      ⟨is, text, text₁, hgap, hinsts, bs, start, _, text₂, text₃, hgap₁, hmany, hopen⟩)
    · exact ⟨[], 0, _, _, _, .none, .nil, header_headed.mpr ⟨rfl, rfl⟩,
        lines_newline.mpr (lines_singleton.mpr hsole)⟩
    · obtain ⟨text, hblock⟩ := hclosed.mpr ⟨text, hgap, hinsts⟩
      have hwritten : BlockText ⟨0, is⟩ (headed 0 ('\n' :: s)) text₁ :=
        ⟨_, text, header_headed.mpr ⟨rfl, rfl⟩, hblock⟩
      exact ⟨⟨0, is⟩ :: bs, start, _, _, _, .none, .cons hwritten hgap₁ hmany, hopen⟩

/-- The first character behind the gap is that of the name of the opcode. -/
theorem Sole.exists_skipLines {i : Inst} {text : List Char} (h : Sole i text) :
    ∃ c cs, skipLines text = c :: cs ∧ isWordChar c := by
  obtain ⟨text₁, _, hgap, ⟨_, _, hname, -⟩, -⟩ := h
  obtain ⟨c, cs, rfl, hc, -⟩ := exists_cons_of_identifier hname
  exact ⟨c, cs, skip_eq_iff.mpr ⟨hgap, skip_of_isWordChar true hc _⟩, hc⟩

/-- A text that breaks out of its block holds a closing brace. -/
theorem Breakout.mem_brace {i : Inst} {text : List Char} (h : Breakout i text) :
    '\x7d' ∈ text := by
  obtain ⟨is, text₁, text₂, hgap, hmany, -⟩ := h
  have hsuffix := (suffix_of_many suffix_of_instruction hmany).trans (suffix_of_gap hgap)
  exact hsuffix.mem List.mem_cons_self

/-- It does not hold a sole instruction. -/
theorem Breakout.not_sole {i : Inst} {text : List Char} (h : Breakout i text) (k : Inst) :
    ¬ Sole k text := by
  obtain ⟨is, text₁, text₂, hgap, hmany, -⟩ := h
  exact fun hsole => not_lines_of_closed hgap hmany (lines_singleton.mpr hsole)

end Grammar

/-- A text is an instruction if it leaves the block that it is put in unclosed, with this
instruction in the last block. -/
theorem Inst.parse_eq_ok {text : String} {i : Inst} :
    Inst.parse text = .ok i ↔
      ∃ bs start, Grammar.Unclosed bs start [i] (Reading.headed 0 ('\n' :: text.toList)) := by
  -- the text stands in a block of its own, between a header and a brace
  have hcs : ("block 0x0 \x7b\n" ++ text ++ "\n\x7d\n").toList =
      Reading.headed 0 ('\n' :: text.toList) ++ Reading.closing := by
    simp [Reading.headed, Reading.closing, Text.toList_hex]
  have hblocks : ∀ bs, Block.parse ("block 0x0 \x7b\n" ++ text ++ "\n\x7d\n") = .ok bs ↔
      ∃ bs' start is, bs = bs' ++ [⟨start, is⟩] ∧
        Grammar.Unclosed bs' start is (Reading.headed 0 ('\n' :: text.toList)) := by
    intro bs
    rw [Block.parse_eq_ok, hcs]
    exact Reading.blocks_append_closing_iff (Nat.lt_succ_self _)
  rw [Inst.parse, Reading.bind_eq_ok]
  constructor
  · rintro ⟨bs, hbs, hlast⟩
    obtain ⟨bs', start, is, rfl, hopen⟩ := (hblocks bs).mp hbs
    rw [List.getLast?_concat] at hlast
    dsimp only [Option.map_some] at hlast
    split at hlast
    · rename_i heq
      cases heq
      cases hlast
      exact ⟨bs', start, hopen⟩
    · cases hlast
  · rintro ⟨bs, start, hopen⟩
    refine ⟨_, (hblocks _).mpr ⟨bs, start, [i], rfl, hopen⟩, ?_⟩
    rw [List.getLast?_concat]
    rfl

/-- A text is read as an instruction if and only if it is that instruction with gaps around it, or
breaks out of the block that is put around it and ends in another block with that instruction.  No
text does both, and without a closing brace no text does the second. -/
theorem Inst.parse_eq_ok_iff (text : String) (i : Inst) :
    (Inst.parse text = .ok i ↔
      Grammar.Sole i text.toList ∨ Grammar.Breakout i text.toList) ∧
    (Grammar.Breakout i text.toList →
      '\x7d' ∈ text.toList ∧ ∀ k, ¬ Grammar.Sole k text.toList) :=
  ⟨Inst.parse_eq_ok.trans Grammar.exists_unclosed_headed_iff,
    fun h => ⟨h.mem_brace, h.not_sole⟩⟩

/-- A brace, a newline and the header of another block in front of an instruction are no part of an
instruction, and yet the text is read as that instruction. -/
theorem Inst.parse_brace_block_nop :
    Inst.parse "\x7d\nblock 0 \x7b\nNop" = .ok { op := .nop } ∧
      ∀ k, ¬ Grammar.Sole k "\x7d\nblock 0 \x7b\nNop".toList := by
  refine ⟨by decide +kernel, fun k hsole => ?_⟩
  obtain ⟨c, cs, hskip, hc⟩ := hsole.exists_skipLines
  cases hskip
  exact absurd hc (by decide)

end Dynarec
