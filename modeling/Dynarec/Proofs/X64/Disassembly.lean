import Mathlib.Data.List.Basic
import Dynarec.X64.Emission
import Dynarec.X64.Listing
import Dynarec.Proofs.X64.Listed

/-!
# Reading assembled code

Assembled code is read as the instructions that were asked for, in their order, one behind the other
and each with its own length; padding is read as breakpoints, and labels take no place.  A branch to
a label is read with the address that is reported for the label.

A branch to an address is read with that address, except where the address is also the symbolic
address of exactly one item, such as a placed label: labels and addresses share one space of
numbers, and the assembler then branches to the item.  `Assembler.asked` is where a branch was asked
to go and `Assembler.reached` is where it goes.

## Shape of the proof

The bytes are those of a list of instructions (`assembleItems_eq_ok`), and such bytes are read back
one instruction at a time (`Insn.decodeAll_of_encodeList?`).  What is left is to follow the calls:
the items say what was asked for (`Assembler.flatten_of_callAll`), and no label is placed twice
(`Assembler.Marked`), so that every label stands for its place.
-/

namespace Dynarec

open Lower

/-! ## Instructions one behind the other -/

namespace Insn

/-- The pieces that instructions one behind the other are read as. -/
def listed : UInt64 → List Insn → List Decoded
  | _, [] => []
  | ip, i :: is => ⟨ip, i.size, .insn i⟩ :: listed (ip + UInt64.ofNat i.size) is

/-- Instructions that are read take as many bytes as their code. -/
theorem sum_size_listed (ip : UInt64) (is : List Insn) :
    ((listed ip is).map (·.size)).sum = codeSize is := by
  induction is generalizing ip with
  | nil => rfl
  | cons i is ih => simp [listed, ih]

/-- The code of an instruction is read as the instruction, whatever stands behind it. -/
theorem decodePiece_of_encode? {ip : UInt64} {i : Insn} {bs : List UInt8}
    (h : i.encode? ip = some bs) (rest : List UInt8) :
    decodePiece ip (bs ++ rest) = ⟨ip, i.size, .insn i⟩ := by
  have hlength : (bs ++ rest).length - rest.length = i.size := by
    rw [List.length_append, length_of_encode? h, Nat.add_sub_cancel]
  rw [decodePiece, decode?_of_encode? h]
  simp only [hlength]

/-- Enough fuel reads all instructions. -/
theorem decodeFrom_of_encodeList? {ip : UInt64} {is : List Insn} {bs : List UInt8}
    (h : encodeList? ip is = some bs) {fuel : Nat} (hfuel : bs.length ≤ fuel) :
    decodeFrom fuel ip bs = listed ip is := by
  induction is generalizing ip bs fuel with
  | nil =>
    cases h
    cases fuel <;> rfl
  | cons i is ih =>
    obtain ⟨code, codes, hcode, hcodes, rfl⟩ := encodeList?_cons_eq_some.mp h
    have hsize : code.length = i.size := length_of_encode? hcode
    have hpos := i.size_pos
    have hpiece := decodePiece_of_encode? hcode codes
    rw [List.length_append] at hfuel
    -- an instruction has a first byte, so that it takes a unit of fuel and shortens the rest
    obtain ⟨b, code', rfl⟩ := List.exists_cons_of_length_pos (by omega : 0 < code.length)
    obtain ⟨fuel', rfl⟩ : ∃ fuel', fuel = fuel' + 1 := ⟨fuel - 1, by omega⟩
    rw [List.cons_append] at hpiece ⊢
    simp only [decodeFrom, hpiece, listed]
    have hrest : ((b :: (code' ++ codes)).drop i.size) = codes := by
      rw [← List.cons_append, List.drop_left' hsize]
    rw [hrest, ih hcodes (by omega)]

/-- Machine code is read back as the instructions that it was made of. -/
theorem decodeAll_of_encodeList? {ip : UInt64} {is : List Insn} {bs : List UInt8}
    (h : encodeList? ip is = some bs) : decodeAll ip bs = listed ip is :=
  decodeFrom_of_encodeList? h (Nat.le_refl _)

end Insn

/-! ## Calls of the assembler -/

/-- A call that adds to the code or handles labels. -/
inductive AsmCall where
  | emission (e : Emission)
  | pad (count : Nat)
  | newLabel
  | place (l : Label)
  deriving DecidableEq, Repr

namespace Emission

/-- The target of a direct branch. -/
def target? : Emission → Option BranchTarget
  | call t => some t
  | jmp t => some t
  | jcc _ t => some t
  | _ => none

/-- Moving targets twice is moving them once by both. -/
theorem insn_comp (f : UInt64 → UInt64) (go : BranchTarget → UInt64) (e : Emission) :
    e.insn (f ∘ go) = Insn.mapTarget f <$> e.insn go := by
  cases e <;> simp [insn, Insn.mapTarget]

/-- What is emitted depends on where its own target goes. -/
theorem insn_congr {go go' : BranchTarget → UInt64} {e : Emission}
    (h : ∀ t, e.target? = some t → go t = go' t) : e.insn go = e.insn go' := by
  cases e with
  | call t => simp only [insn, h t rfl]
  | jmp t => simp only [insn, h t rfl]
  | jcc c t => simp only [insn, h t rfl]
  | _ => rfl

end Emission

namespace AsmCall

/-- The instructions that a call asks for, where `go` says where branches go. -/
def code (go : BranchTarget → UInt64) : AsmCall → List Insn
  | emission e => (e.insn go).toOption.toList
  | pad count => List.replicate count .int3
  | newLabel => []
  | place _ => []

/-- Where a call asks to branch to. -/
def target? : AsmCall → Option BranchTarget
  | emission e => e.target?
  | _ => none

/-- The label that a call names. -/
def label? : AsmCall → Option Label
  | place l => some l
  | emission e => match e.target? with
    | some (.label l) => some l
    | _ => none
  | _ => none

/-- An emission that branches to a label names it. -/
theorem label?_emission {e : Emission} {l : Label} (h : e.target? = some (.label l)) :
    (emission e).label? = some l := by
  simp only [label?, h]

/-- The code of a call depends on where its own target goes. -/
theorem code_congr {go go' : BranchTarget → UInt64} {c : AsmCall}
    (h : ∀ t, c.target? = some t → go t = go' t) : c.code go = c.code go' := by
  cases c with
  | emission e => rw [code, code, Emission.insn_congr h]
  | _ => rfl

end AsmCall

namespace Label

/-- Labels are numbered from one, by words. -/
def Proper (l : Label) : Prop :=
  0 < l.id ∧ l.id < UInt64.size

/-- The symbolic address of a label is its number. -/
theorem toNat_symbol {l : Label} (h : l.Proper) : l.symbol.toNat = l.id :=
  UInt64.toNat_ofNat_of_lt' h.2

/-- No label has the symbolic address of other items. -/
theorem symbol_ne_zero {l : Label} (h : l.Proper) : l.symbol ≠ 0 := by
  intro heq
  have hzero := toNat_symbol h
  rw [heq] at hzero
  exact absurd hzero (Nat.ne_of_lt h.1)

/-- Labels have symbolic addresses of their own. -/
theorem symbol_inj {l m : Label} (hl : l.Proper) (hm : m.Proper) (h : l.symbol = m.symbol) :
    l = m := by
  have hid := toNat_symbol hl
  rw [h, toNat_symbol hm] at hid
  cases l
  cases m
  exact congrArg Label.mk hid.symm

end Label

namespace Item

/-- A symbolic address that is borne is borne by a placed label. -/
theorem exists_mark_of_mem_symbols {items : List Item} {s : UInt64} (h : s ∈ symbols items) :
    ∃ l, mark l ∈ items ∧ l.symbol = s := by
  induction items with
  | nil => cases h
  | cons i items ih =>
    cases i with
    | mark l =>
      rcases List.mem_cons.mp h with rfl | h
      · exact ⟨l, List.mem_cons_self, rfl⟩
      · obtain ⟨m, hm, hs⟩ := ih h
        exact ⟨m, List.mem_cons_of_mem _ hm, hs⟩
    | _ =>
      obtain ⟨m, hm, hs⟩ := ih h
      exact ⟨m, List.mem_cons_of_mem _ hm, hs⟩

end Item

namespace Assembler

/-- The assembler after a call. -/
def call (a : Assembler) : AsmCall → Except EncodingError Assembler
  | .emission e => a.emission e
  | .pad count => .ok (a.pad count)
  | .newLabel => .ok a.newLabel.2
  | .place l => a.place l

/-- The assembler after calls one after the other, all of which succeed. -/
def callAll (a : Assembler) : List AsmCall → Except EncodingError Assembler
  | [] => .ok a
  | c :: cs => do
    let b ← a.call c
    b.callAll cs

/-- Calls succeed one after the other. -/
theorem callAll_cons_eq_ok {a b : Assembler} {c : AsmCall} {cs : List AsmCall} :
    a.callAll (c :: cs) = .ok b ↔ ∃ m, a.call c = .ok m ∧ m.callAll cs = .ok b := by
  rw [callAll]
  cases a.call c with
  | error e => simp [bind, Except.bind]
  | ok m => simp [bind, Except.bind]

/-- An emission succeeds if its operands can be encoded, and appends one instruction. -/
theorem emission_eq_ok {a b : Assembler} {e : Emission} :
    a.emission e = .ok b ↔ ∃ i, e.insn BranchTarget.symbol = .ok i ∧ b = a.emit i := by
  rw [emission]
  cases e.insn BranchTarget.symbol with
  | error e => simp [bind, Except.bind]
  | ok i => simp [bind, Except.bind, pure, Except.pure, eq_comm]

/-! ### What the items stand for -/

/-- A call appends its code to the items. -/
theorem flatten_of_call {a b : Assembler} {c : AsmCall} (h : a.call c = .ok b)
    (f : UInt64 → UInt64) :
    b.items.flatMap (Item.flatten f) =
      a.items.flatMap (Item.flatten f) ++ c.code (f ∘ BranchTarget.symbol) := by
  cases c with
  | emission e =>
    obtain ⟨i, hinsn, rfl⟩ := emission_eq_ok.mp h
    -- the item keeps the symbolic target, and resolving it is asking for the resolved one
    have hcode : e.insn (f ∘ BranchTarget.symbol) = .ok (i.mapTarget f) := by
      rw [Emission.insn_comp, hinsn]
      rfl
    simp [emit, push, AsmCall.code, hcode, Item.flatten, Except.toOption]
  | pad count =>
    cases h
    rw [pad, AsmCall.code]
    split
    · rename_i hzero
      simp [hzero]
    · simp [push, Item.flatten]
  | newLabel =>
    cases h
    simp [newLabel, AsmCall.code]
  | place l =>
    rw [call, place] at h
    split at h
    · cases h
    · cases h
      simp [push, AsmCall.code, Item.flatten]

/-- So do calls one after the other. -/
theorem flatten_of_callAll {a b : Assembler} {cs : List AsmCall} (h : a.callAll cs = .ok b)
    (f : UInt64 → UInt64) :
    b.items.flatMap (Item.flatten f) =
      a.items.flatMap (Item.flatten f) ++ cs.flatMap (AsmCall.code (f ∘ BranchTarget.symbol)) := by
  induction cs generalizing a with
  | nil =>
    cases h
    simp
  | cons c cs ih =>
    obtain ⟨m, hm, hrest⟩ := callAll_cons_eq_ok.mp h
    rw [ih hrest, flatten_of_call hm, List.flatMap_cons, List.append_assoc]

/-- Every emission among calls that succeed is an instruction. -/
theorem insn_of_callAll {a b : Assembler} {cs : List AsmCall} (h : a.callAll cs = .ok b)
    {e : Emission} (he : .emission e ∈ cs) : ∃ i, e.insn BranchTarget.symbol = .ok i := by
  induction cs generalizing a with
  | nil => cases he
  | cons c cs ih =>
    obtain ⟨m, hm, hrest⟩ := callAll_cons_eq_ok.mp h
    rcases List.mem_cons.mp he with rfl | he
    · obtain ⟨i, hi, -⟩ := emission_eq_ok.mp hm
      exact ⟨i, hi⟩
    · exact ih hrest he

/-! ### Where labels stand -/

/-- Placed labels are proper, and no two of them bear the same symbolic address. -/
structure Marked (a : Assembler) : Prop where
  proper : ∀ l, Item.mark l ∈ a.items → l.Proper
  nodup : (0 :: Item.symbols a.items).Nodup

/-- Without items there is no label that is placed twice. -/
theorem marked_of_isEmpty {a : Assembler} (h : a.isEmpty) : a.Marked := by
  have hitems : a.items = [] := List.isEmpty_iff.mp h
  refine ⟨fun l hl => ?_, ?_⟩
  · rw [hitems] at hl
    cases hl
  · rw [hitems]
    simp [Item.symbols]

/-- The number of a label that is not placed is not taken. -/
theorem Marked.notMem_symbols {a : Assembler} (h : a.Marked) {l : Label} (hl : l.Proper)
    (habsent : Item.mark l ∉ a.items) : l.symbol ∉ Item.symbols a.items := by
  intro hmem
  obtain ⟨m, hm, hsymbol⟩ := Item.exists_mark_of_mem_symbols hmem
  obtain rfl := Label.symbol_inj (h.proper m hm) hl hsymbol
  exact habsent hm

/-- Items that are no labels change nothing about labels. -/
theorem Marked.push {a : Assembler} (h : a.Marked) {i : Item} (hi : ∀ l, i ≠ .mark l) :
    (a.push i).Marked := by
  have hsymbols : Item.symbols [i] = [] := by
    cases i with
    | mark l => exact absurd rfl (hi l)
    | insn i => rfl
    | padding n => rfl
  refine ⟨fun l hl => ?_, ?_⟩
  · rcases List.mem_append.mp hl with hold | hnew
    · exact h.proper l hold
    · exact absurd (List.mem_singleton.mp hnew).symm (hi l)
  · rw [Assembler.push, Item.symbols_append, hsymbols, List.append_nil]
    exact h.nodup

/-- Placing a label that has not been placed keeps labels apart. -/
theorem Marked.place {a b : Assembler} (h : a.Marked) {l : Label} (hl : l.Proper)
    (hplace : a.place l = .ok b) : b.Marked := by
  rw [Assembler.place] at hplace
  split at hplace
  · cases hplace
  · rename_i hfree
    cases hplace
    have habsent : Item.mark l ∉ a.items := by
      intro hmem
      exact hfree (List.any_eq_true.mpr ⟨_, hmem, by simp⟩)
    refine ⟨fun m hm => ?_, ?_⟩
    · rcases List.mem_append.mp hm with hold | hnew
      · exact h.proper m hold
      · cases List.mem_singleton.mp hnew
        exact hl
    · obtain ⟨hzero, hnodup⟩ := List.nodup_cons.mp h.nodup
      rw [Assembler.push, Item.symbols_append]
      have hsingle : (Item.symbols [.mark l]).Nodup := by simp [Item.symbols]
      -- the new symbolic address is not zero, and none of the old ones
      refine List.nodup_cons.mpr ⟨fun hmem => ?_,
        List.nodup_append.mpr ⟨hnodup, hsingle, fun s hs s' hs' => ?_⟩⟩
      · rcases List.mem_append.mp hmem with hold | hnew
        · exact hzero hold
        · exact Label.symbol_ne_zero hl (List.mem_singleton.mp hnew).symm
      · obtain rfl := List.mem_singleton.mp hs'
        rintro rfl
        exact h.notMem_symbols hl habsent hs

/-- Every call keeps placed labels apart. -/
theorem Marked.call {a b : Assembler} (h : a.Marked) {c : AsmCall}
    (hlabel : ∀ l, c.label? = some l → l.Proper) (hcall : a.call c = .ok b) : b.Marked := by
  cases c with
  | emission e =>
    obtain ⟨i, -, rfl⟩ := emission_eq_ok.mp hcall
    exact h.push fun l heq => nomatch heq
  | pad count =>
    cases hcall
    rw [pad]
    split
    · exact h
    · exact h.push fun l heq => nomatch heq
  | newLabel =>
    cases hcall
    exact ⟨h.proper, h.nodup⟩
  | place l => exact h.place (hlabel l rfl) hcall

/-- So do calls one after the other. -/
theorem Marked.callAll {a b : Assembler} (h : a.Marked) {cs : List AsmCall}
    (hlabels : ∀ c ∈ cs, ∀ l, c.label? = some l → l.Proper) (hcalls : a.callAll cs = .ok b) :
    b.Marked := by
  induction cs generalizing a with
  | nil =>
    cases hcalls
    exact h
  | cons c cs ih =>
    obtain ⟨m, hm, hrest⟩ := callAll_cons_eq_ok.mp hcalls
    exact ih (h.call (hlabels c List.mem_cons_self) hm)
      (fun c' hc' => hlabels c' (List.mem_cons_of_mem _ hc')) hrest

/-! ### Where branches go -/

/-- The address that is reported for a label of code that starts at `ip`; a label that has not been
placed is taken for its number. -/
def reported (a : Assembler) (ip : UInt64) (l : Label) : UInt64 :=
  match labelAddress ip (Item.layout 0 a.items) l with
  | .ok address => address
  | .error _ => l.symbol

/-- Where a branch is asked to go. -/
def asked (a : Assembler) (ip : UInt64) : BranchTarget → UInt64
  | .address t => t
  | .label l => a.reported ip l

/-- Where a branch goes: to an address, but to the item that alone bears the address if there is
one. -/
def reached (a : Assembler) (ip : UInt64) : BranchTarget → UInt64
  | .address t => Item.resolve ip (Item.layout 0 a.items) t
  | .label l => a.reported ip l

/-- Exactly one item bears an address. -/
def Bears (a : Assembler) (t : UInt64) : Prop :=
  ∃ i, a.items.filter (fun i => i.symbol = t) = [i]

/-- A branch to an address that no item bears alone goes there. -/
theorem reached_of_not_bears {a : Assembler} {t : UInt64} (h : ¬ a.Bears t) (ip : UInt64) :
    a.reached ip (.address t) = t := by
  have hfilter : a.items.filter (fun i => i.symbol = t) =
      ((Item.layout 0 a.items).filter fun p => p.2.symbol = t).map (·.2) := by
    calc a.items.filter (fun i => i.symbol = t)
        = ((Item.layout 0 a.items).map (·.2)).filter (fun i => i.symbol = t) := by
          rw [Item.map_snd_layout]
      _ = ((Item.layout 0 a.items).filter fun p => p.2.symbol = t).map (·.2) := List.filter_map
  have hnone : Item.offsetOf? (Item.layout 0 a.items) t = none := by
    rw [Item.offsetOf?]
    split
    · rename_i p hp
      refine absurd ⟨p.2, ?_⟩ h
      rw [hfilter, hp]
      rfl
    · rfl
  rw [reached, Item.resolve, hnone]

/-- A branch to the symbolic address of one item goes to the item. -/
theorem reached_symbol {a : Assembler} {i : Item} {before after : List Item}
    (hitems : a.items = before ++ i :: after) (hone : ∀ j ∈ before ++ after, j.symbol ≠ i.symbol)
    (ip : UInt64) :
    a.reached ip (.address i.symbol) = ip + UInt64.ofNat (before.map Item.size).sum := by
  rw [reached, Item.resolve, hitems, Item.offsetOf?_symbol
    (fun j hj => hone j (List.mem_append_left _ hj))
    (fun j hj => hone j (List.mem_append_right _ hj))]

/-- A label stands for the address that is reported for it. -/
theorem Marked.resolve_symbol {a : Assembler} (h : a.Marked) {l : Label} (hl : l.Proper)
    (ip : UInt64) : Item.resolve ip (Item.layout 0 a.items) l.symbol = a.reported ip l := by
  rw [reported]
  by_cases hmem : Item.mark l ∈ a.items
  · obtain ⟨before, after, hitems, hfirst⟩ := List.eq_append_cons_of_mem hmem
    have hnodup := h.nodup
    rw [hitems] at hnodup ⊢
    rw [labelAddress_mark after hfirst, Item.resolve_mark_of_nodup hnodup]
  · rw [labelAddress_of_notMem hmem,
      Item.resolve_of_notMem (Label.symbol_ne_zero hl) (h.notMem_symbols hl hmem)]

/-- Branches go where they reach. -/
theorem Marked.resolve_target {a : Assembler} (h : a.Marked) {t : BranchTarget}
    (ht : ∀ l, t = .label l → l.Proper) (ip : UInt64) :
    Item.resolve ip (Item.layout 0 a.items) t.symbol = a.reached ip t := by
  cases t with
  | address t => rfl
  | label l => exact h.resolve_symbol (ht l rfl) ip

/-- The assembler sends branches where `reached` says. -/
theorem insn_reached {a : Assembler} (h : a.Marked) {e : Emission}
    (hlabel : ∀ l, e.target? = some (.label l) → l.Proper) (ip : UInt64) :
    e.insn (Item.resolve ip (Item.layout 0 a.items) ∘ BranchTarget.symbol) =
      e.insn (a.reached ip) :=
  Emission.insn_congr fun _ ht => h.resolve_target (fun l hl => hlabel l (hl ▸ ht)) ip

/-- So it does with all code of a call. -/
theorem code_resolve {a : Assembler} (h : a.Marked) {c : AsmCall}
    (hlabel : ∀ l, c.label? = some l → l.Proper) (ip : UInt64) :
    c.code (Item.resolve ip (Item.layout 0 a.items) ∘ BranchTarget.symbol) =
      c.code (a.reached ip) := by
  cases c with
  | emission e =>
    rw [AsmCall.code, AsmCall.code,
      insn_reached h fun l hl => hlabel l (AsmCall.label?_emission hl)]
  | _ => rfl

/-- Where no address that is asked for is borne by an item, branches go where they are asked to. -/
theorem code_asked {a : Assembler} {c : AsmCall}
    (h : ∀ t, c.target? = some (.address t) → ¬ a.Bears t) (ip : UInt64) :
    c.code (a.reached ip) = c.code (a.asked ip) := by
  refine AsmCall.code_congr fun t ht => ?_
  cases t with
  | address t => exact reached_of_not_bears (h t ht) ip
  | label l => rfl

/-! ### Assembled code -/

/-- Assembling succeeds where assembling the items does. -/
theorem assemble_eq_ok {a : Assembler} {ip : UInt64} {wanted : List Label} {out : Assembled}
    (h : (a.assemble ip wanted).1 = .ok out) : assembleItems a.items ip wanted = .ok out := by
  rw [assemble] at h
  split at h
  · rename_i hempty
    rw [List.isEmpty_iff.mp hempty]
    cases wanted with
    | nil => exact h
    | cons l wanted => cases h
  · exact h

/-- The reported addresses are those of the placed labels. -/
theorem eq_map_reported {a : Assembler} {ip : UInt64} {wanted : List Label} {labels : List UInt64}
    (h : wanted.mapM (labelAddress ip (Item.layout 0 a.items)) = .ok labels) :
    labels = wanted.map (a.reported ip) ∧ ∀ l ∈ wanted, .mark l ∈ a.items := by
  induction wanted generalizing labels with
  | nil =>
    cases h
    exact ⟨rfl, fun l hl => nomatch hl⟩
  | cons l wanted ih =>
    rw [List.mapM_cons] at h
    cases hl : labelAddress ip (Item.layout 0 a.items) l with
    | error e =>
      rw [hl] at h
      cases h
    | ok address =>
      rw [hl] at h
      cases hrest : wanted.mapM (labelAddress ip (Item.layout 0 a.items)) with
      | error e =>
        rw [hrest] at h
        cases h
      | ok rest =>
        rw [hrest] at h
        cases h
        obtain ⟨hmap, hmem⟩ := ih hrest
        refine ⟨by simp [reported, hl, ← hmap], fun m hm => ?_⟩
        rcases List.mem_cons.mp hm with rfl | hm
        · refine Decidable.byContradiction fun habsent => ?_
          rw [labelAddress_of_notMem habsent] at hl
          cases hl
        · exact hmem m hm

/-- Assembled code is read as the instructions that were asked for, in their order.  A branch to a
label goes to the address that is reported for the label.  A branch to an address goes there, unless
exactly one item bears that address: then it goes to the item. -/
theorem decodeAll_assemble {a b : Assembler} {cs : List AsmCall} {ip : UInt64}
    {wanted : List Label} {out : Assembled} (hstart : a.isEmpty)
    (hlabels : ∀ c ∈ cs, ∀ l, c.label? = some l → l.Proper) (hcalls : a.callAll cs = .ok b)
    (hout : (b.assemble ip wanted).1 = .ok out) :
    decodeAll ip out.bytes = Insn.listed ip (cs.flatMap (AsmCall.code (b.reached ip))) ∧
    (∀ e, .emission e ∈ cs → ∃ i, e.insn (b.reached ip) = .ok i) ∧
    ((∀ c ∈ cs, ∀ t, c.target? = some (.address t) → ¬ b.Bears t) →
      decodeAll ip out.bytes = Insn.listed ip (cs.flatMap (AsmCall.code (b.asked ip)))) ∧
    (∀ before i after, b.items = before ++ i :: after →
      (∀ j ∈ before ++ after, j.symbol ≠ i.symbol) →
      b.reached ip (.address i.symbol) = ip + UInt64.ofNat (before.map Item.size).sum) ∧
    ((decodeAll ip out.bytes).map (·.size)).sum = out.bytes.length ∧
    out.labels = wanted.map (b.reported ip) ∧ ∀ l ∈ wanted, .mark l ∈ b.items := by
  have hmarked : b.Marked := (marked_of_isEmpty hstart).callAll hlabels hcalls
  have hflatten := flatten_of_callAll hcalls (Item.resolve ip (Item.layout 0 b.items))
  obtain ⟨hbytes, haddresses⟩ := assembleItems_eq_ok.mp (assemble_eq_ok hout)
  have hcode : cs.flatMap (AsmCall.code
      (Item.resolve ip (Item.layout 0 b.items) ∘ BranchTarget.symbol)) =
        cs.flatMap (AsmCall.code (b.reached ip)) :=
    List.flatMap_congr fun c hc => code_resolve hmarked (hlabels c hc) ip
  -- nothing was there before the calls, so that the bytes are those of what the calls ask for
  have hempty : a.items = [] := List.isEmpty_iff.mp hstart
  rw [hflatten, hempty, List.flatMap_nil, List.nil_append, hcode] at hbytes
  have hread := Insn.decodeAll_of_encodeList? hbytes
  refine ⟨hread, fun e he => ?_, fun hplain => ?_, fun before i after hitems hone =>
    reached_symbol hitems hone ip, ?_, eq_map_reported haddresses⟩
  · obtain ⟨i, hi⟩ := insn_of_callAll hcalls he
    rw [← insn_reached hmarked fun l hl => hlabels _ he l (AsmCall.label?_emission hl),
      Emission.insn_comp, hi]
    exact ⟨_, rfl⟩
  · rw [hread, List.flatMap_congr fun c hc => code_asked (hplain c hc) ip]
  · rw [hread, Insn.sum_size_listed, Insn.length_of_encodeList? hbytes]

/-- A loop with operands that have forms of their own: a base that needs a second operand byte, a
base that needs a displacement, a byte register that needs a prefix byte, and a shift by 33. -/
def loopCalls : List AsmCall :=
  [.newLabel,
    .emission (.load32 (.ofGpr .rbp) ⟨.ofGpr .r12, 0⟩),
    .place ⟨1⟩,
    .emission (.store32i ⟨.ofGpr .r13, 0⟩ 0x80),
    .emission (.shift32 .shl (.ofGpr .r9) 33),
    .emission (.test8i (.ofGpr .rsi) 1),
    .emission (.jcc .notEqual (.label ⟨1⟩)),
    .emission (.jmp (.address 0x2000)),
    .pad 2]

/-- The assembler after `loopCalls`. -/
def loopAssembler : Assembler where
  items :=
    [.insn (.load32 .rbp ⟨.r12, 0⟩), .mark ⟨1⟩, .insn (.store32i ⟨.r13, 0⟩ 0x80),
      .insn (.shift32 .shl .r9 1), .insn (.test8i .rsi 1), .insn (.jcc .notEqual 1),
      .insn (.jmp 0x2000), .padding 2]
  labels := 1

/-- The loop as code. -/
def loopCode : Assembled where
  bytes :=
    [0x41, 0x8b, 0x2c, 0x24, 0x41, 0xc7, 0x45, 0x00, 0x80, 0x00, 0x00, 0x00, 0x41, 0xd1, 0xe1,
      0x40, 0xf6, 0xc6, 0x01, 0x0f, 0x85, 0xeb, 0xff, 0xff, 0xff, 0xe9, 0xe2, 0x0f, 0x00, 0x00,
      0xcc, 0xcc]
  labels := [0x1004]

/-- No item of the loop bears the address that it leaves for. -/
theorem not_bears_loopAssembler : ¬ loopAssembler.Bears 0x2000 := by
  rintro ⟨i, hi⟩
  have hnone : loopAssembler.items.filter (fun i => i.symbol = 0x2000) = [] := by decide
  rw [hnone] at hi
  cases hi

/-- A loop with memory operands, a shift, a byte test, a branch back and a jump out, read back with
its padding. -/
theorem decodeAll_assemble_loopCalls :
    empty.callAll loopCalls = .ok loopAssembler ∧
    (loopAssembler.assemble 0x1000 [⟨1⟩]).1 = .ok loopCode ∧
    decodeAll 0x1000 loopCode.bytes = Insn.listed 0x1000
      [.load32 .rbp ⟨.r12, 0⟩, .store32i ⟨.r13, 0⟩ 0x80, .shift32 .shl .r9 1, .test8i .rsi 1,
        .jcc .notEqual 0x1004, .jmp 0x2000, .int3, .int3] := by
  have hcalls : empty.callAll loopCalls = .ok loopAssembler := by decide
  have hout : (loopAssembler.assemble 0x1000 [⟨1⟩]).1 = .ok loopCode := by decide
  have hone : Label.Proper ⟨1⟩ := ⟨by decide, by decide⟩
  have hlabels : ∀ c ∈ loopCalls, ∀ l, c.label? = some l → l.Proper := by
    simp [loopCalls, AsmCall.label?, Emission.target?, hone]
  have hplain : ∀ c ∈ loopCalls, ∀ t, c.target? = some (.address t) → ¬ loopAssembler.Bears t := by
    simp [loopCalls, AsmCall.target?, Emission.target?, not_bears_loopAssembler]
  exact ⟨hcalls, hout, (decodeAll_assemble rfl hlabels hcalls hout).2.2.1 hplain⟩

/-- A branch to the address 1 goes to the label with the number 1, once that is placed. -/
theorem decodeAll_assemble_one :
    ∃ b out, empty.callAll [.newLabel, .place ⟨1⟩, .emission (.jmp (.address 1))] = .ok b ∧
      (b.assemble 0x1000 [⟨1⟩]).1 = .ok out ∧
      decodeAll 0x1000 out.bytes = [⟨0x1000, 5, .insn (.jmp 0x1000)⟩] ∧
      decodeAll 0x1000 out.bytes ≠ [⟨0x1000, 5, .insn (.jmp (b.asked 0x1000 (.address 1)))⟩] :=
  ⟨_, _, rfl, rfl, by decide, by decide⟩

end Assembler

end Dynarec
