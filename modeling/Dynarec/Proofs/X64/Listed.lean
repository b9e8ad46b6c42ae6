import Dynarec.Lower.Select
import Dynarec.Proofs.X64.RoundTrip

/-!
# Assembled code as a list of instructions

Labels and padding are a matter of the assembler.  What it puts into the code cache is a plain list
of instructions one after the other: branches to labels have become branches to addresses, and
padding has become breakpoints.

* `Insn.encodeList?` is the machine code of such a list at an address.
* `Item.flatten` is the list that an item stands for once labels are resolved.
* `assembleItems_eq_ok`: assembling items gives the machine code of that list.
* `Item.resolve_mark`, `Item.resolve_of_absent`: a label that is placed once resolves to its place,
  and an address that no item bears stays as it is; `Item.symbols` lists what labels bear.
-/

namespace Dynarec

namespace Insn

open Encoding Lower

/-- The machine code of consecutive instructions, the first of them at `ip`. -/
def encodeList? : UInt64 → List Insn → Option (List UInt8)
  | _, [] => some []
  | ip, i :: is => do
    let code ← i.encode? ip
    let codes ← encodeList? (ip + UInt64.ofNat i.size) is
    some (code ++ codes)

/-! ## Sizes -/

/-- The size of an instruction does not depend on its displacement. -/
theorem length_bytes (i : Insn) (rel : UInt32) : (i.bytes rel).length = i.size := by
  cases i <;> rfl

/-- A memory operand takes six bytes at most, the displacement among them. -/
theorem length_onMem (reg : Fin 16) (m : Mem) : (onMem reg m).length ≤ 6 := by
  simp only [onMem]
  split <;> split <;> (try split) <;> simp [Word.bytes32]

theorem length_rex (wide : Bool) (reg rm : Fin 16) : (rex wide reg rm).length ≤ 1 := by
  simp only [rex]
  split <;> simp

theorem length_rexByte (rm : Fin 16) : (rexByte rm).length ≤ 1 := by
  simp only [rexByte]
  split <;> simp

/-- An immediate operand takes five bytes at most, with its opcode. -/
theorem length_aluImm (operands : List UInt8) (imm : UInt32) :
    (aluImm operands imm).length ≤ operands.length + 5 := by
  simp only [aluImm]
  split <;> simp [Word.bytes32]

/-- No instruction is longer than the processor reads at once. -/
theorem size_le (i : Insn) : i.size ≤ 15 := by
  cases i <;> simp only [size, bytes] <;> (try split) <;>
    simp only [List.length_append, List.length_cons, List.length_nil, onReg, Word.bytes32,
      Word.bytes64] <;>
    grind [length_rex, length_onMem, length_aluImm, length_rexByte]

/-- No instruction is without bytes. -/
theorem size_pos (i : Insn) : 0 < i.size := by
  cases i <;> simp only [size, bytes, aluImm] <;> (repeat' split) <;>
    simp only [List.length_append, List.length_cons] <;> omega

/-- Where a branch goes does not change its size. -/
@[simp] theorem size_mapTarget (f : UInt64 → UInt64) (i : Insn) : (i.mapTarget f).size = i.size := by
  cases i <;> rfl

@[simp] theorem size_int3 : Insn.int3.size = 1 := rfl

@[simp] theorem codeSize_nil : codeSize [] = 0 := rfl

@[simp] theorem codeSize_cons (i : Insn) (is : List Insn) :
    codeSize (i :: is) = i.size + codeSize is := rfl

@[simp] theorem codeSize_append (is js : List Insn) :
    codeSize (is ++ js) = codeSize is + codeSize js := by
  induction is with
  | nil => simp
  | cons i is ih => simp [ih, Nat.add_assoc]

/-- Padding takes one byte for each filler. -/
@[simp] theorem codeSize_replicate_int3 (n : Nat) : codeSize (List.replicate n .int3) = n := by
  induction n with
  | zero => rfl
  | succ n ih => simp [List.replicate_succ, ih, Nat.add_comm]

/-! ## Machine code of a list -/

/-- What is encoded has the size of the instruction. -/
theorem length_of_encode? {ip : UInt64} {i : Insn} {bs : List UInt8} (h : i.encode? ip = some bs) :
    bs.length = i.size := by
  unfold encode? at h
  split at h
  · rw [← Option.some.inj h, length_bytes]
  · obtain ⟨rel, _, rfl⟩ := Option.map_eq_some_iff.mp h
    exact length_bytes i rel

/-- Instructions are encoded one behind the other, each at its own address. -/
theorem encodeList?_cons_eq_some {ip : UInt64} {i : Insn} {is : List Insn} {bs : List UInt8} :
    encodeList? ip (i :: is) = some bs ↔
      ∃ code codes, i.encode? ip = some code ∧
        encodeList? (ip + UInt64.ofNat i.size) is = some codes ∧ bs = code ++ codes := by
  simp only [encodeList?, Option.bind_eq_bind, Option.bind_eq_some_iff, Option.some.injEq]
  constructor
  · rintro ⟨code, hcode, codes, hcodes, rfl⟩
    exact ⟨code, codes, hcode, hcodes, rfl⟩
  · rintro ⟨code, codes, hcode, hcodes, rfl⟩
    exact ⟨code, hcode, codes, hcodes, rfl⟩

/-- What is encoded has the size of the instructions. -/
theorem length_of_encodeList? {ip : UInt64} {is : List Insn} {bs : List UInt8}
    (h : encodeList? ip is = some bs) : bs.length = codeSize is := by
  induction is generalizing ip bs with
  | nil =>
    rw [encodeList?, Option.some.injEq] at h
    rw [← h]
    rfl
  | cons i is ih =>
    obtain ⟨code, codes, hcode, hcodes, rfl⟩ := encodeList?_cons_eq_some.mp h
    rw [List.length_append, length_of_encode? hcode, ih hcodes, codeSize_cons]

theorem add_ofNat_add (ip : UInt64) (m n : Nat) :
    ip + UInt64.ofNat (m + n) = ip + UInt64.ofNat m + UInt64.ofNat n := by
  rw [UInt64.ofNat_add, UInt64.add_assoc]

/-- The machine code of a list in two parts is the machine code of the parts, one behind the
other. -/
theorem encodeList?_append_eq_some {ip : UInt64} {is js : List Insn} {bs : List UInt8} :
    encodeList? ip (is ++ js) = some bs ↔
      ∃ front back, encodeList? ip is = some front ∧
        encodeList? (ip + UInt64.ofNat (codeSize is)) js = some back ∧ bs = front ++ back := by
  induction is generalizing ip bs with
  | nil => simp [encodeList?]
  | cons i is ih =>
    rw [List.cons_append, encodeList?_cons_eq_some]
    constructor
    · rintro ⟨code, codes, hcode, hcodes, rfl⟩
      obtain ⟨front, back, hfront, hback, rfl⟩ := ih.mp hcodes
      refine ⟨code ++ front, back, ?_, ?_, by simp⟩
      · exact encodeList?_cons_eq_some.mpr ⟨code, front, hcode, hfront, rfl⟩
      · rw [codeSize_cons, add_ofNat_add]
        exact hback
    · rintro ⟨front, back, hfront, hback, rfl⟩
      obtain ⟨code, codes, hcode, hcodes, rfl⟩ := encodeList?_cons_eq_some.mp hfront
      rw [codeSize_cons, add_ofNat_add] at hback
      exact ⟨code, codes ++ back, hcode, ih.mpr ⟨codes, back, hcodes, hback, rfl⟩, by simp⟩

/-- Fillers can be encoded anywhere, as bytes `0xcc`. -/
theorem encodeList?_replicate_int3 (ip : UInt64) (n : Nat) :
    encodeList? ip (List.replicate n .int3) = some (List.replicate n 0xcc) := by
  induction n generalizing ip with
  | zero => rfl
  | succ n ih =>
    rw [List.replicate_succ, List.replicate_succ, encodeList?, ih]
    rfl

/-- A distance leads from its source to its target. -/
theorem add_extend32_of_distance? {source target : UInt64} {rel : UInt32}
    (h : distance? source target = some rel) : source + Word.extend32 rel = target := by
  simp only [distance?] at h
  split at h
  · rename_i hreach
    rw [← Option.some.inj h, Word.extend32_toUInt32 hreach, UInt64.add_comm, UInt64.sub_add_cancel]
  · cases h

/-- An instruction at the front of machine code is read back, whatever follows. -/
theorem decode?_of_encode? {ip : UInt64} {i : Insn} {bs : List UInt8} (h : i.encode? ip = some bs)
    (rest : List UInt8) : decode? ip (bs ++ rest) = some (i, rest) := by
  unfold encode? at h
  split at h
  · rename_i ht
    rw [← Option.some.inj h]
    exact decode?_bytes ip i 0 rest (by simp [ht])
  · rename_i t ht
    obtain ⟨rel, hrel, rfl⟩ := Option.map_eq_some_iff.mp h
    refine decode?_bytes ip i rel rest fun t' ht' => ?_
    obtain rfl : t = t' := Option.some.inj (ht.symm.trans ht')
    exact (add_extend32_of_distance? hrel).symm

end Insn

namespace Item

open Lower

/-- The instructions that an item stands for, where `resolve` gives the address that a branch
target stands for. -/
def flatten (resolve : UInt64 → UInt64) : Item → List Insn
  | insn i => [i.mapTarget resolve]
  | padding n => List.replicate n .int3
  | mark _ => []

/-- The instructions of an item take its size. -/
@[simp] theorem codeSize_flatten (resolve : UInt64 → UInt64) (i : Item) :
    codeSize (i.flatten resolve) = i.size := by
  cases i <;> simp [flatten, size]

/-- The instructions of items take the sum of their sizes. -/
@[simp] theorem codeSize_flatMap_flatten (resolve : UInt64 → UInt64) (items : List Item) :
    codeSize (items.flatMap (flatten resolve)) = (items.map size).sum := by
  induction items with
  | nil => rfl
  | cons i items ih => simp [ih]

/-- An item is encoded as its instructions are. -/
theorem encode?_eq (resolve : UInt64 → UInt64) (ip : UInt64) (i : Item) :
    i.encode? resolve ip = Insn.encodeList? ip (i.flatten resolve) := by
  cases i with
  | insn i => simp [encode?, flatten, Insn.encodeList?]
  | padding n => simp [encode?, flatten, Insn.encodeList?_replicate_int3]
  | mark l => rfl

/-- Encoding items one by one is encoding the instructions that they stand for. -/
theorem encodeAll?_layout (resolve : UInt64 → UInt64) (ip : UInt64) (start : Nat)
    (items : List Item) :
    encodeAll? resolve ip (layout start items) =
      Insn.encodeList? (ip + UInt64.ofNat start) (items.flatMap (flatten resolve)) := by
  induction items generalizing start with
  | nil => rfl
  | cons i items ih =>
    apply Option.ext
    intro bs
    rw [layout, encodeAll?, ih, List.flatMap_cons, Insn.encodeList?_append_eq_some, codeSize_flatten,
      ← Insn.add_ofNat_add, encode?_eq]
    simp only [Option.bind_eq_bind, Option.bind_eq_some_iff, Option.some.injEq]
    constructor
    · rintro ⟨front, hfront, back, hback, rfl⟩
      exact ⟨front, back, hfront, hback, rfl⟩
    · rintro ⟨front, back, hfront, hback, rfl⟩
      exact ⟨front, hfront, back, hback, rfl⟩

/-! ## Places of labels -/

/-- Items behind others start where these end. -/
theorem layout_append (start : Nat) (is js : List Item) :
    layout start (is ++ js) = layout start is ++ layout (start + (is.map size).sum) js := by
  induction is generalizing start with
  | nil => simp [layout]
  | cons i is ih => simp [layout, ih, Nat.add_assoc]

/-- The layout keeps the items and their order. -/
theorem map_snd_layout (start : Nat) (is : List Item) : (layout start is).map (·.2) = is := by
  induction is generalizing start with
  | nil => rfl
  | cons i is ih => simp [layout, ih]

/-- An address that no item bears is found nowhere in the layout. -/
theorem filter_layout_of_absent {symbol : UInt64} {items : List Item}
    (h : ∀ i ∈ items, i.symbol ≠ symbol) (start : Nat) :
    (layout start items).filter (fun p => p.2.symbol = symbol) = [] := by
  rw [List.filter_eq_nil_iff]
  intro p hp
  have hmem : p.2 ∈ items := by
    rw [← map_snd_layout start items]
    exact List.mem_map_of_mem hp
  simpa using h p.2 hmem

/-- An address that no item bears stands for itself. -/
theorem resolve_of_absent {target : UInt64} {items : List Item}
    (h : ∀ i ∈ items, i.symbol ≠ target) (ip : UInt64) :
    resolve ip (layout 0 items) target = target := by
  rw [resolve, offsetOf?, filter_layout_of_absent h]

/-- An item that alone bears its symbolic address has its place for an offset. -/
theorem offsetOf?_symbol {i : Item} {before after : List Item}
    (hbefore : ∀ j ∈ before, j.symbol ≠ i.symbol) (hafter : ∀ j ∈ after, j.symbol ≠ i.symbol) :
    offsetOf? (layout 0 (before ++ i :: after)) i.symbol = some (before.map size).sum := by
  rw [offsetOf?, layout_append, List.filter_append, filter_layout_of_absent hbefore, layout,
    List.filter_cons_of_pos (by simp), filter_layout_of_absent hafter]
  simp

/-- A label that is placed once has its place for an offset. -/
theorem offsetOf?_mark {l : Label} {before after : List Item}
    (hbefore : ∀ i ∈ before, i.symbol ≠ l.symbol) (hafter : ∀ i ∈ after, i.symbol ≠ l.symbol) :
    offsetOf? (layout 0 (before ++ .mark l :: after)) l.symbol = some (before.map size).sum :=
  offsetOf?_symbol (i := .mark l) hbefore hafter

/-- A label that is placed once stands for its place. -/
theorem resolve_mark {l : Label} {before after : List Item}
    (hbefore : ∀ i ∈ before, i.symbol ≠ l.symbol) (hafter : ∀ i ∈ after, i.symbol ≠ l.symbol)
    (ip : UInt64) :
    resolve ip (layout 0 (before ++ .mark l :: after)) l.symbol =
      ip + UInt64.ofNat (before.map size).sum := by
  rw [resolve, offsetOf?_mark hbefore hafter]

/-! ## Symbolic addresses -/

/-- The symbolic addresses of the labels in a list of items. -/
def symbols : List Item → List UInt64
  | [] => []
  | mark l :: is => l.symbol :: symbols is
  | _ :: is => symbols is

theorem symbols_append (is js : List Item) : symbols (is ++ js) = symbols is ++ symbols js := by
  induction is with
  | nil => rfl
  | cons i is ih => cases i <;> simp [symbols, ih]

/-- An address that is not among those of the items is the address of none. -/
theorem symbol_ne_of_notMem {a : UInt64} {is : List Item} (hzero : a ≠ 0) (h : a ∉ symbols is) :
    ∀ i ∈ is, i.symbol ≠ a := by
  induction is with
  | nil => simp
  | cons i is ih =>
    intro k hk
    rcases List.mem_cons.mp hk with rfl | hk
    · cases k with
      | insn i => exact fun heq => hzero heq.symm
      | padding n => exact fun heq => hzero heq.symm
      | mark l =>
        rintro rfl
        exact h List.mem_cons_self
    · refine ih (fun hmem => h ?_) k hk
      cases i with
      | insn i => exact hmem
      | padding n => exact hmem
      | mark l => exact List.mem_cons_of_mem _ hmem

/-- An address that is not that of a label stands for itself. -/
theorem resolve_of_notMem {a : UInt64} {items : List Item} (hzero : a ≠ 0) (h : a ∉ symbols items)
    (ip : UInt64) : resolve ip (layout 0 items) a = a :=
  resolve_of_absent (symbol_ne_of_notMem hzero h) ip

/-- A label stands for its place, if no label is placed twice. -/
theorem resolve_mark_of_nodup {l : Label} {before after : List Item}
    (hmarks : (0 :: symbols (before ++ .mark l :: after)).Nodup) (ip : UInt64) :
    resolve ip (layout 0 (before ++ .mark l :: after)) l.symbol =
      ip + UInt64.ofNat (before.map size).sum := by
  rw [symbols_append, symbols, List.nodup_cons, List.nodup_append] at hmarks
  obtain ⟨hzero, -, hafter, hbefore⟩ := hmarks
  have hl : l.symbol ≠ 0 := by
    intro heq
    exact hzero (by simp [heq])
  refine resolve_mark (symbol_ne_of_notMem hl fun hmem => ?_)
    (symbol_ne_of_notMem hl (List.nodup_cons.mp hafter).1) ip
  exact hbefore _ hmem _ List.mem_cons_self rfl

end Item

namespace Assembler

/-- Assembling items gives the machine code of the instructions that they stand for, and the
addresses of the labels that were asked for. -/
theorem assembleItems_eq_ok {items : List Item} {ip : UInt64} {wanted : List Label}
    {code : Assembled} :
    assembleItems items ip wanted = .ok code ↔
      Insn.encodeList? ip
          (items.flatMap (Item.flatten (Item.resolve ip (Item.layout 0 items)))) =
        some code.bytes ∧
      wanted.mapM (labelAddress ip (Item.layout 0 items)) = .ok code.labels := by
  have hstart : ip + UInt64.ofNat 0 = ip := UInt64.add_zero ip
  rw [assembleItems, Item.encodeAll?_layout, hstart]
  cases code with
  | mk bytes labels =>
    cases Insn.encodeList? ip
        (items.flatMap (Item.flatten (Item.resolve ip (Item.layout 0 items)))) with
    | none => simp
    | some bs =>
      cases wanted.mapM (labelAddress ip (Item.layout 0 items)) with
      | error e => simp [bind, Except.bind]
      | ok ls => simp [bind, Except.bind]

/-- A label that is not placed is found nowhere. -/
theorem find?_layout_of_notMem {l : Label} {items : List Item} (h : .mark l ∉ items) (start : Nat) :
    (Item.layout start items).find? (fun p => p.2 = .mark l) = none := by
  rw [List.find?_eq_none]
  intro p hp heq
  have hmem : p.2 ∈ items := by
    rw [← Item.map_snd_layout start items]
    exact List.mem_map_of_mem hp
  simp only [decide_eq_true_eq] at heq
  exact h (heq ▸ hmem)

/-- A label that is not placed has no address. -/
theorem labelAddress_of_notMem {l : Label} {items : List Item} (h : .mark l ∉ items) (ip : UInt64) :
    labelAddress ip (Item.layout 0 items) l = .error .unplacedLabel := by
  rw [labelAddress, find?_layout_of_notMem h]

/-- The address of a label is the address of the first place where it stands. -/
theorem labelAddress_mark {l : Label} {before : List Item} (after : List Item)
    (hbefore : .mark l ∉ before) (ip : UInt64) :
    labelAddress ip (Item.layout 0 (before ++ .mark l :: after)) l =
      .ok (ip + UInt64.ofNat (before.map Item.size).sum) := by
  rw [labelAddress, Item.layout_append, List.find?_append, find?_layout_of_notMem hbefore]
  simp [Item.layout]

end Assembler

end Dynarec
