import Dynarec.Code.Cache
import Dynarec.Proofs.X64.Listed

/-!
# Code in the code cache

What a write does to the bytes of the cache, and what it means that a range of the cache holds a
list of instructions.

* `byte_write_of_lt`, `byte_write_of_le`, `bytes_write`: a write changes its range and nothing else.
* `CodeCache.Holds`: a range lies in the region and its bytes are the machine code of a list of
  instructions at that address.  It splits along the list (`holds_append`), survives every change
  outside its range (`Holds.congr`), and follows a write of the machine code (`holds_write`).
-/

namespace Dynarec

namespace CodeCache

open Lower

/-! ## Bytes -/

/-- A cell holds the byte that was written there, or else what it held before. -/
theorem getD_writeCells (cells : Std.TreeMap Nat UInt8) (offset : Nat) (bs : List UInt8) (o : Nat) :
    (writeCells cells offset bs).getD o 0 =
      if offset ≤ o then bs.getD (o - offset) (cells.getD o 0) else cells.getD o 0 := by
  induction bs generalizing cells offset with
  | nil => simp [writeCells]
  | cons b bs ih =>
    rw [writeCells, ih, Std.TreeMap.getD_insert]
    simp only [Nat.compare_eq_eq]
    rcases Nat.lt_trichotomy offset o with h | h | h
    · obtain ⟨k, hk⟩ : ∃ k, o - offset = k + 1 := ⟨o - offset - 1, by omega⟩
      have hk' : o - (offset + 1) = k := by omega
      simp [hk, hk', Nat.le_of_lt h, Nat.succ_le_of_lt h, Nat.ne_of_lt h]
    · subst h
      have hle : ¬ offset + 1 ≤ offset := by omega
      simp [hle]
    · have hle : ¬ offset ≤ o := by omega
      have hle' : ¬ offset + 1 ≤ o := by omega
      simp [hle, hle', Nat.ne_of_gt h]

/-- The same of the bytes of a cache. -/
theorem byte_write (c : CodeCache) (offset : Nat) (bs : List UInt8) (o : Nat) :
    (c.write offset bs).byte o =
      if offset ≤ o then bs.getD (o - offset) (c.byte o) else c.byte o :=
  getD_writeCells c.cells offset bs o

/-- A write changes nothing in front of its range. -/
theorem byte_write_of_lt {c : CodeCache} {offset o : Nat} (h : o < offset) (bs : List UInt8) :
    (c.write offset bs).byte o = c.byte o := by
  rw [byte_write, if_neg (by omega)]

/-- A write changes nothing behind its range. -/
theorem byte_write_of_le {c : CodeCache} {offset o : Nat} {bs : List UInt8}
    (h : offset + bs.length ≤ o) : (c.write offset bs).byte o = c.byte o := by
  rw [byte_write, if_pos (by omega), List.getD_eq_getElem?_getD,
    List.getElem?_eq_none (by omega), Option.getD_none]

/-- Inside its range, a write leaves what was written. -/
theorem byte_write_add {c : CodeCache} {offset k : Nat} {bs : List UInt8} (h : k < bs.length) :
    (c.write offset bs).byte (offset + k) = bs[k] := by
  rw [byte_write, if_pos (by omega), Nat.add_sub_cancel_left, List.getD_eq_getElem?_getD,
    List.getElem?_eq_getElem h, Option.getD_some]

@[simp] theorem size_write (c : CodeCache) (offset : Nat) (bs : List UInt8) :
    (c.write offset bs).size = c.size := rfl

@[simp] theorem cursor_write (c : CodeCache) (offset : Nat) (bs : List UInt8) :
    (c.write offset bs).cursor = c.cursor := rfl

/-- A range inside the region has as many bytes as asked for. -/
theorem length_bytes {c : CodeCache} {offset len : Nat} (h : offset + len ≤ c.size) :
    (c.bytes offset len).length = len := by
  simp [bytes]
  omega

/-- These are the bytes at its places. -/
theorem bytes_eq {c : CodeCache} {offset len : Nat} (h : offset + len ≤ c.size) :
    c.bytes offset len = (List.range' offset len).map c.byte := by
  rw [bytes, Nat.min_eq_left (by omega)]

/-- The bytes of a range depend on the cells of the range only. -/
theorem bytes_congr {c d : CodeCache} {offset len : Nat} (hsize : d.size = c.size)
    (h : ∀ o, offset ≤ o → o < offset + len → d.byte o = c.byte o) :
    d.bytes offset len = c.bytes offset len := by
  rw [bytes, bytes, hsize]
  apply List.map_congr_left
  intro o ho
  rw [List.mem_range'_1] at ho
  exact h o ho.1 (by omega)

/-- A range is read part by part. -/
theorem bytes_append {c : CodeCache} {offset m n : Nat} (h : offset + m + n ≤ c.size) :
    c.bytes offset (m + n) = c.bytes offset m ++ c.bytes (offset + m) n := by
  rw [bytes_eq (by omega), bytes_eq (by omega), bytes_eq (by omega), ← List.map_append,
    List.range'_append_1]

/-- What was written is read back. -/
theorem bytes_write {c : CodeCache} {offset : Nat} {bs : List UInt8}
    (h : offset + bs.length ≤ c.size) : (c.write offset bs).bytes offset bs.length = bs := by
  rw [bytes_eq (by simpa using h)]
  apply List.ext_getElem
  · simp
  · intro k _ hk
    rw [List.getElem_map, List.getElem_range', Nat.one_mul, byte_write_add hk]

/-! ## Addresses -/

theorem addressOf_add (m n : Nat) : addressOf (m + n) = addressOf m + UInt64.ofNat n :=
  Insn.add_ofNat_add codeBase m n

/-- Addresses in the region do not wrap. -/
theorem toNat_addressOf {offset : Nat} (h : offset ≤ 2 ^ 31) :
    (addressOf offset).toNat = codeBase.toNat + offset := by
  rw [addressOf, UInt64.toNat_add, UInt64.toNat_ofNat']
  simp only [codeBase, UInt64.reduceToNat]
  omega

/-- They are not below the base of the region. -/
theorem codeBase_le_addressOf {offset : Nat} (h : offset ≤ 2 ^ 31) :
    codeBase ≤ addressOf offset := by
  rw [UInt64.le_iff_toNat_le, toNat_addressOf h]
  omega

/-- The address of an offset in the region leads back to the offset. -/
theorem offsetOf?_addressOf {c : CodeCache} (hsize : c.size ≤ 2 ^ 31) {offset : Nat}
    (h : offset < c.size) : c.offsetOf? (addressOf offset) = some offset := by
  have hle := Nat.le_trans (Nat.le_of_lt h) hsize
  have haddr := toNat_addressOf hle
  have hlow := codeBase_le_addressOf hle
  rw [offsetOf?, haddr, if_pos ⟨hlow, by omega⟩, Nat.add_sub_cancel_left]

/-- The place of an address is the place it is the address of. -/
theorem eq_of_offsetOf?_addressOf {c : CodeCache} {offset o : Nat} (hle : offset ≤ 2 ^ 31)
    (h : c.offsetOf? (addressOf offset) = some o) : o = offset := by
  rw [offsetOf?, toNat_addressOf hle] at h
  split at h
  · rw [Nat.add_sub_cancel_left] at h
    exact (Option.some.inj h).symm
  · cases h

/-- Places in the region have different addresses. -/
theorem addressOf_inj {m n : Nat} (hm : m ≤ 2 ^ 31) (hn : n ≤ 2 ^ 31)
    (h : addressOf m = addressOf n) : m = n := by
  have := congrArg UInt64.toNat h
  rw [toNat_addressOf hm, toNat_addressOf hn] at this
  omega

/-- In a region that a branch can reach across, the cursor is given out as it is. -/
theorem toNat_position {c : CodeCache} (h : c.cursor ≤ 2 ^ 31) : c.position.toNat = c.cursor := by
  rw [position, UInt32.toNat_ofNat']
  omega

/-- The address of the cursor is that of its place. -/
theorem cursorAddress_eq {c : CodeCache} (h : c.cursor ≤ 2 ^ 31) :
    c.cursorAddress = addressOf c.cursor := by
  rw [cursorAddress, toNat_position h]

/-! ## Instructions in the cache -/

/-- A range lies in the region and its bytes are the machine code of these instructions. -/
structure Holds (c : CodeCache) (offset : Nat) (is : List Insn) : Prop where
  inside : offset + codeSize is ≤ c.size
  code : Insn.encodeList? (addressOf offset) is = some (c.bytes offset (codeSize is))

/-- Every place holds no instructions. -/
theorem holds_nil {c : CodeCache} {offset : Nat} (h : offset ≤ c.size) : c.Holds offset [] :=
  ⟨h, by simp [Insn.encodeList?, bytes]⟩

/-- A range holds a list in two parts when it holds the parts one behind the other. -/
theorem holds_append {c : CodeCache} {offset : Nat} {is js : List Insn} :
    c.Holds offset (is ++ js) ↔ c.Holds offset is ∧ c.Holds (offset + codeSize is) js := by
  constructor
  · rintro ⟨inside, code⟩
    rw [Insn.codeSize_append] at inside code
    obtain ⟨front, back, hfront, hback, heq⟩ := Insn.encodeList?_append_eq_some.mp code
    rw [bytes_append (by omega)] at heq
    have hlen : (c.bytes offset (codeSize is)).length = front.length := by
      rw [length_bytes (by omega), Insn.length_of_encodeList? hfront]
    obtain ⟨rfl, rfl⟩ := List.append_inj heq hlen
    exact ⟨⟨by omega, hfront⟩, ⟨by omega, by rw [addressOf_add]; exact hback⟩⟩
  · rintro ⟨⟨_, hfront⟩, ⟨inside, hback⟩⟩
    refine ⟨by rw [Insn.codeSize_append]; omega, ?_⟩
    rw [Insn.codeSize_append, bytes_append (by omega)]
    rw [addressOf_add] at hback
    exact Insn.encodeList?_append_eq_some.mpr ⟨_, _, hfront, hback, rfl⟩

/-- What a range holds depends on the cells of the range only. -/
theorem Holds.congr {c d : CodeCache} {offset : Nat} {is : List Insn} (h : c.Holds offset is)
    (hsize : d.size = c.size)
    (hbyte : ∀ o, offset ≤ o → o < offset + codeSize is → d.byte o = c.byte o) :
    d.Holds offset is :=
  ⟨hsize ▸ h.inside, by rw [bytes_congr hsize hbyte]; exact h.code⟩

/-- Two caches that hold the same code in a range have the same bytes there. -/
theorem Holds.byte_eq {c d : CodeCache} {offset : Nat} {is : List Insn}
    (hc : c.Holds offset is) (hd : d.Holds offset is) {o : Nat} (hlow : offset ≤ o)
    (hhigh : o < offset + codeSize is) : c.byte o = d.byte o := by
  have hbytes := Option.some.inj (hc.code.symm.trans hd.code)
  rw [bytes_eq hc.inside, bytes_eq hd.inside] at hbytes
  exact List.map_inj_left.mp hbytes o (List.mem_range'_1.mpr ⟨hlow, hhigh⟩)

/-- After its machine code has been written, a range holds a list of instructions. -/
theorem holds_write {c : CodeCache} {offset : Nat} {is : List Insn} {bs : List UInt8}
    (hcode : Insn.encodeList? (addressOf offset) is = some bs)
    (inside : offset + bs.length ≤ c.size) : (c.write offset bs).Holds offset is := by
  have hlen := Insn.length_of_encodeList? hcode
  refine ⟨by rw [← hlen]; exact inside, ?_⟩
  rw [hcode, ← hlen, bytes_write inside]

/-- The front of what a range holds. -/
theorem Holds.left {c : CodeCache} {offset : Nat} {is js : List Insn}
    (h : c.Holds offset (is ++ js)) : c.Holds offset is :=
  (holds_append.mp h).1

/-- The back of what a range holds. -/
theorem Holds.right {c : CodeCache} {offset : Nat} {is js : List Insn}
    (h : c.Holds offset (is ++ js)) : c.Holds (offset + codeSize is) js :=
  (holds_append.mp h).2

/-- What a range holds first, and what it holds behind that. -/
theorem Holds.tail {c : CodeCache} {offset : Nat} {i : Insn} {is : List Insn}
    (h : c.Holds offset (i :: is)) : c.Holds (offset + i.size) is := by
  have split : c.Holds offset ([i] ++ is) := h
  simpa using split.right

/-- The bytes in front of what a range holds are the machine code of its first instruction. -/
theorem Holds.encode?_head {c : CodeCache} {offset : Nat} {i : Insn} {is : List Insn}
    (h : c.Holds offset (i :: is)) : i.encode? (addressOf offset) = some (c.bytes offset i.size) := by
  have split : c.Holds offset ([i] ++ is) := h
  obtain ⟨code, codes, hcode, hnil, heq⟩ := Insn.encodeList?_cons_eq_some.mp split.left.code
  obtain rfl : codes = [] := by simpa [Insn.encodeList?] using hnil.symm
  have hbytes : c.bytes offset i.size = code := by simpa using heq
  rw [hcode, hbytes]

end CodeCache

end Dynarec
