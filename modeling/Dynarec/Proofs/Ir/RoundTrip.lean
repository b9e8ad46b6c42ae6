import Dynarec.Proofs.Ir.Canonical

/-!
# Printing and reading blocks

Reading printed blocks gives the blocks back exactly when all their instructions are canonical.

## Shape of the proof

* Forwards, each reader takes what the printer wrote and leaves the rest: an instruction up to the
  end of its line, the instructions of a block up to the brace, a block up to the end of its line.
  The newline that is left in front is skipped by whatever reads next.
* Backwards, whatever is read is canonical, since that holds of each instruction.
-/

namespace Dynarec

namespace Reading

/-! ## Instructions of a block -/

/-- Blanks in front of an instruction are skipped. -/
theorem body_blank (start : UInt32) (fuel : Nat) (cs : List Char) :
    body start (fuel + 1) (' ' :: cs) = body start (fuel + 1) cs := by
  rw [body, body, skipLines, skip_blank, ← skipLines]

/-- So are newlines. -/
theorem body_newline (start : UInt32) (fuel : Nat) (cs : List Char) :
    body start (fuel + 1) ('\n' :: cs) = body start (fuel + 1) cs := by
  rw [body, body, skipLines_newline]

/-- A brace ends the instructions. -/
theorem body_brace (start : UInt32) (fuel : Nat) (rest : List Char) :
    body start (fuel + 1) ('\x7d' :: rest) = .ok ([], rest) := rfl

/-- The text of an instruction starts with a word character. -/
theorem exists_toList_text (i : Inst) : ∃ c cs, i.text.toList = c :: cs ∧ isWordChar c := by
  obtain ⟨c, cs, hname, halpha⟩ := exists_name_eq_cons i.op
  rw [toList_text, hname]
  exact ⟨c, _, rfl, isWordChar_of_isAlpha halpha⟩

/-- A canonical instruction on its line is read, and then the others. -/
theorem body_cons {i : Inst} (h : i.Canonical) {start : UInt32} {fuel : Nat}
    {cs rest : List Char} {is : List Inst} (hrest : body start fuel ('\n' :: cs) = .ok (is, rest)) :
    body start (fuel + 1) (i.text.toList ++ '\n' :: cs) = .ok (i :: is, rest) := by
  have hread := inst_text h cs
  obtain ⟨c, text, htext, hword⟩ := exists_toList_text i
  rw [htext, List.cons_append] at hread ⊢
  have hskip : skipLines (c :: (text ++ '\n' :: cs)) = c :: (text ++ '\n' :: cs) :=
    skip_of_isWordChar true hword _
  have hbrace : c ≠ '\x7d' := by
    rintro rfl
    exact absurd hword (by decide)
  rw [body, hskip]
  simp only [if_neg hbrace]
  exact bind_eq_ok.mpr ⟨_, hread, bind_eq_ok.mpr ⟨_, hrest, rfl⟩⟩

/-- The lines of instructions. -/
def bodyText : List Inst → List Char
  | [] => []
  | i :: is => ' ' :: ' ' :: ' ' :: ' ' :: (i.text.toList ++ '\n' :: bodyText is)

/-- There are at most as many instructions as characters, so that the fuel suffices. -/
theorem length_le_bodyText (is : List Inst) : is.length ≤ (bodyText is).length := by
  induction is with
  | nil => simp
  | cons i is ih =>
    simp only [bodyText, List.length_cons, List.length_append]
    omega

/-- Canonical instructions are read from their lines. -/
theorem body_bodyText {is : List Inst} (h : ∀ i ∈ is, i.Canonical) (start : UInt32) {fuel : Nat}
    (hfuel : is.length < fuel) (rest : List Char) :
    body start fuel (bodyText is ++ '\x7d' :: rest) = .ok (is, rest) := by
  induction is generalizing fuel with
  | nil =>
    obtain ⟨fuel, rfl⟩ : ∃ n, fuel = n + 1 := ⟨fuel - 1, by omega⟩
    exact body_brace start fuel rest
  | cons i is ih =>
    rw [List.length_cons] at hfuel
    obtain ⟨fuel, rfl⟩ : ∃ n, fuel = n + 2 := ⟨fuel - 2, by omega⟩
    -- an instruction leaves the newline that ends its line
    have htail : body start (fuel + 1) ('\n' :: (bodyText is ++ '\x7d' :: rest)) =
        .ok (is, rest) := by
      rw [body_newline]
      exact ih (fun j hj => h j (List.mem_cons_of_mem _ hj)) (by omega)
    simp only [bodyText, List.cons_append, List.append_assoc, body_blank]
    exact body_cons (h i List.mem_cons_self) htail

/-- All instructions that are read are canonical. -/
theorem canonical_of_body {start : UInt32} {fuel : Nat} {cs rest : List Char} {is : List Inst}
    (h : body start fuel cs = .ok (is, rest)) : ∀ i ∈ is, i.Canonical := by
  induction fuel generalizing cs is with
  | zero => cases h
  | succ fuel ih =>
    rw [body] at h
    split at h
    · cases h
    · split at h
      · cases h
        simp
      · obtain ⟨⟨i, cs₁⟩, hinst, h⟩ := bind_eq_ok.mp h
        obtain ⟨⟨is', rest'⟩, hbody, heq⟩ := bind_eq_ok.mp h
        obtain ⟨rfl, rfl⟩ := Prod.mk.inj (Except.ok.inj heq)
        intro j hj
        rcases List.mem_cons.mp hj with rfl | hj
        · exact canonical_of_inst hinst
        · exact ih hbody j hj

/-! ## Blocks -/

/-- The first line of a block up to its brace, and what follows. -/
def headed (start : UInt32) (cs : List Char) : List Char :=
  "block".toList ++ ' ' :: ((Text.hex start.toNat).toList ++ ' ' :: '\x7b' :: cs)

/-- A block is read if its instructions are. -/
theorem block_headed {start : UInt32} {cs rest : List Char} {is : List Inst}
    (h : body start (cs.length + 1) cs = .ok (is, rest)) :
    block (headed start cs) = .ok (⟨start, is⟩, rest) := by
  have hkeyword : word (headed start cs) =
      .ok ("block".toList, ' ' :: ((Text.hex start.toNat).toList ++ ' ' :: '\x7b' :: cs)) :=
    word_eq_ok.mpr ⟨rfl, rfl, rfl, ends_cons.mpr rfl⟩
  have hends : Ends (' ' :: '\x7b' :: cs) := ends_cons.mpr rfl
  have hbrace : symbol '\x7b' (' ' :: '\x7b' :: cs) = .ok cs := symbol_eq_ok.mpr rfl
  rw [block]
  refine bind_eq_ok.mpr ⟨_, hkeyword, ?_⟩
  simp only [ne_eq, not_true_eq_false, ↓reduceIte]
  exact bind_eq_ok.mpr ⟨_, number_hex start hends,
    bind_eq_ok.mpr ⟨_, hbrace, bind_eq_ok.mpr ⟨_, h, rfl⟩⟩⟩

/-- Newlines in front of a block are skipped. -/
theorem blocks_newline (fuel : Nat) (cs : List Char) :
    blocks (fuel + 1) ('\n' :: cs) = blocks (fuel + 1) cs := by
  rw [blocks, blocks, skipLines_newline]

theorem blocks_nil (fuel : Nat) : blocks fuel [] = .ok [] := by
  cases fuel <;> rfl

/-- A block is read, and then the others. -/
theorem blocks_headed {start : UInt32} {cs rest : List Char} {is : List Inst} {bs : List Block}
    {fuel : Nat} (hbody : body start (cs.length + 1) cs = .ok (is, rest))
    (hrest : blocks fuel rest = .ok bs) :
    blocks (fuel + 1) (headed start cs) = .ok (⟨start, is⟩ :: bs) := by
  have hblock := block_headed hbody
  have hskip : skipLines (headed start cs) = headed start cs := rfl
  rw [blocks, hskip]
  exact bind_eq_ok.mpr ⟨_, hblock, bind_eq_ok.mpr ⟨_, hrest, rfl⟩⟩

/-! ## Printed blocks -/

/-- The lines of a printed block. -/
theorem toList_join_insts (is : List Inst) :
    (String.join (is.map fun i => "    " ++ i.text ++ "\n")).toList = bodyText is := by
  induction is with
  | nil => rfl
  | cons i is ih =>
    rw [List.map_cons, String.join_cons, String.toList_append, ih, bodyText]
    simp

/-- The text of blocks is that of the first and then of the others. -/
theorem toList_print_cons (b : Block) (bs : List Block) :
    (Block.print (b :: bs)).toList =
      headed b.start ('\n' :: (bodyText b.insts ++ '\x7d' :: '\n' :: (Block.print bs).toList)) := by
  have hinsts : ((b.insts.map fun i => "    " ++ i.text).map (· ++ "\n")) =
      b.insts.map fun i => "    " ++ i.text ++ "\n" := List.map_map
  rw [Block.print, List.flatMap_cons, List.map_append, String.join_append, Block.lines,
    List.map_append, List.map_cons, String.join_append, String.join_cons, hinsts]
  simp only [String.toList_append, toList_join_insts, headed]
  simp [Block.print]

/-- There are at most as many blocks as characters, so that the fuel suffices. -/
theorem length_le_print (bs : List Block) : bs.length ≤ (Block.print bs).toList.length := by
  induction bs with
  | nil => simp
  | cons b bs ih =>
    simp only [toList_print_cons, headed, List.length_cons, List.length_append]
    omega

/-- Blocks of canonical instructions are read from their lines. -/
theorem blocks_print {bs : List Block} (h : ∀ b ∈ bs, ∀ i ∈ b.insts, i.Canonical) {fuel : Nat}
    (hfuel : bs.length < fuel) : blocks fuel (Block.print bs).toList = .ok bs := by
  induction bs generalizing fuel with
  | nil => exact blocks_nil fuel
  | cons b bs ih =>
    rw [List.length_cons] at hfuel
    obtain ⟨fuel, rfl⟩ : ∃ n, fuel = n + 2 := ⟨fuel - 2, by omega⟩
    have htail : blocks (fuel + 1) ('\n' :: (Block.print bs).toList) = .ok bs := by
      rw [blocks_newline]
      exact ih (fun b' hb' => h b' (List.mem_cons_of_mem _ hb')) (by omega)
    rw [toList_print_cons]
    refine blocks_headed ?_ htail
    -- the fuel is the length of the text, and every instruction has a line in it
    rw [body_newline]
    refine body_bodyText (h b List.mem_cons_self) _ ?_ _
    have hlength := length_le_bodyText b.insts
    simp only [List.length_cons, List.length_append]
    omega

/-- All instructions of a block that is read are canonical. -/
theorem canonical_of_block {cs rest : List Char} {b : Block} (h : block cs = .ok (b, rest)) :
    ∀ i ∈ b.insts, i.Canonical := by
  obtain ⟨⟨keyword, cs₁⟩, -, h⟩ := bind_eq_ok.mp h
  simp only at h
  split at h
  · cases h
  · obtain ⟨⟨start, cs₂⟩, -, h⟩ := bind_eq_ok.mp h
    obtain ⟨cs₃, -, h⟩ := bind_eq_ok.mp h
    obtain ⟨⟨is, rest'⟩, hbody, heq⟩ := bind_eq_ok.mp h
    obtain ⟨rfl, rfl⟩ := Prod.mk.inj (Except.ok.inj heq)
    exact canonical_of_body hbody

/-- So are those of all blocks that are read. -/
theorem canonical_of_blocks {fuel : Nat} {cs : List Char} {bs : List Block}
    (h : blocks fuel cs = .ok bs) : ∀ b ∈ bs, ∀ i ∈ b.insts, i.Canonical := by
  induction fuel generalizing cs bs with
  | zero =>
    cases h
    simp
  | succ fuel ih =>
    rw [blocks] at h
    split at h
    · cases h
      simp
    · obtain ⟨⟨b, cs₁⟩, hblock, h⟩ := bind_eq_ok.mp h
      obtain ⟨bs', hblocks, heq⟩ := bind_eq_ok.mp h
      obtain rfl := Except.ok.inj heq
      intro b' hb'
      rcases List.mem_cons.mp hb' with rfl | hb'
      · exact canonical_of_block hblock
      · exact ih hblocks b' hb'

end Reading

namespace Block

open Reading

/-- A text is read as blocks, with fuel for every character. -/
theorem parse_eq_ok {text : String} {bs : List Block} :
    parse text = .ok bs ↔ blocks (text.toList.length + 1) text.toList = .ok bs := by
  rw [parse]
  cases blocks (text.toList.length + 1) text.toList with
  | error e => exact ⟨fun h => (nomatch h), fun h => (nomatch h)⟩
  | ok bs' =>
    constructor
    · rintro ⟨⟩
      rfl
    · rintro ⟨⟩
      rfl

/-- All instructions of a text that is read are canonical. -/
theorem canonical_of_parse {text : String} {bs : List Block} (h : parse text = .ok bs) :
    ∀ b ∈ bs, ∀ i ∈ b.insts, i.Canonical :=
  canonical_of_blocks (parse_eq_ok.mp h)

/-- Printed blocks are read back if their instructions are canonical. -/
theorem parse_print {bs : List Block} (h : ∀ b ∈ bs, ∀ i ∈ b.insts, i.Canonical) :
    parse (print bs) = .ok bs :=
  parse_eq_ok.mpr (blocks_print h (Nat.lt_succ_of_le (length_le_print bs)))

end Block

namespace Inst

open Reading

/-- A canonical instruction is read back from its text. -/
theorem parse_text {i : Inst} (h : i.Canonical) : parse i.text = .ok i := by
  have htext : ("block 0x0 \x7b\n" ++ i.text ++ "\n\x7d\n").toList =
      headed 0 ('\n' :: (i.text.toList ++ '\n' :: ['\x7d', '\n'])) := by
    simp [headed, Text.toList_hex]
  have hblocks : Block.parse ("block 0x0 \x7b\n" ++ i.text ++ "\n\x7d\n") = .ok [⟨0, [i]⟩] := by
    rw [Block.parse_eq_ok, htext]
    have hbody : body 0 (('\n' :: (i.text.toList ++ '\n' :: ['\x7d', '\n'])).length + 1)
        ('\n' :: (i.text.toList ++ '\n' :: ['\x7d', '\n'])) = .ok ([i], ['\n']) := by
      rw [body_newline]
      exact body_cons h rfl
    exact blocks_headed hbody rfl
  rw [parse, hblocks]
  rfl

end Inst

/-- Printing and reading are inverse exactly on blocks of canonical instructions, whatever is read
is canonical, and a canonical instruction is read from its own text. -/
theorem Block.parse_print_iff_canonical :
    (∀ bs, Block.parse (Block.print bs) = .ok bs ↔ ∀ b ∈ bs, ∀ i ∈ b.insts, i.Canonical) ∧
    (∀ text bs, Block.parse text = .ok bs → ∀ b ∈ bs, ∀ i ∈ b.insts, i.Canonical) ∧
    (∀ text bs, Block.parse text = .ok bs → Block.parse (Block.print bs) = .ok bs) ∧
    ∀ i : Inst, i.Canonical → Inst.parse i.text = .ok i := by
  refine ⟨fun bs => ⟨?_, ?_⟩, ?_, ?_, ?_⟩
  · intro hparse
    exact canonical_of_parse hparse
  · intro hcanonical
    exact parse_print hcanonical
  · intro text bs hparse
    exact canonical_of_parse hparse
  · intro text bs hparse
    exact parse_print (canonical_of_parse hparse)
  · intro i hcanonical
    exact Inst.parse_text hcanonical

/-- A block with a small number of full width, a constant in front of a gap, and a block without
instructions. -/
def Block.shiftAndExit : List Block :=
  [⟨0x1000,
    [{ op := .shlImm, dest := 31, src1 := 2, src2 := 255 },
      { op := .exitIfEq, src1 := 3, src2 := 4, constant := 0xffffffff }]⟩,
    ⟨0, []⟩]

/-- A block with a shift and an exit is read back. -/
theorem Block.parse_print_shiftAndExit :
    (∀ b ∈ shiftAndExit, ∀ i ∈ b.insts, i.Canonical) ∧
      Block.parse (Block.print shiftAndExit) = .ok shiftAndExit := by
  have hcanonical : ∀ b ∈ shiftAndExit, ∀ i ∈ b.insts, i.Canonical := by decide
  exact ⟨hcanonical, (parse_print_iff_canonical.1 shiftAndExit).mpr hcanonical⟩

end Dynarec
