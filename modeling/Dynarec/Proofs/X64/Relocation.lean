import Mathlib.Data.List.Basic
import Dynarec.Proofs.X64.Disassembly

/-!
# The same program at two addresses

A program that is assembled at two addresses gives the same code but for the displacements of
branches that lead out of it.  `Assembler.assemble_relocates` says this of every sequence of calls,
and when assembling fails.

A branch to a label that has been placed moves with the code, and so does a branch to an address
that is also the symbolic address of exactly one item.  All other targets stay where they are
(`Assembler.Stays`): addresses, and labels that were never placed, which are taken for addresses.

## Shape of the proof

Code is compared call by call.  What moves at all moves by the distance `d` between the two
addresses, so that the code of a call is the same unless it branches to a target that stays
(`AsmCall.encode_moved`), and then the displacements differ by `d` (`AsmCall.encode_stays`).  Both
are carried along the calls (`site_of_ne`, `words_at_site`).
-/

namespace Dynarec

open Lower

/-! ## Reach -/

namespace Word

/-- A displacement is the low half of what it is extended to. -/
theorem toUInt32_extend32 (w : UInt32) : (extend32 w).toUInt32 = w := by
  have hw := w.toNat_lt
  apply UInt32.toNat_inj.mp
  rw [UInt64.toNat_toUInt32, toNat_extend32]
  split <;> omega

/-- A displacement leads less than 2 GiB forward or 2 GiB back. -/
theorem extend32_reach (w : UInt32) :
    extend32 w < 0x80000000 ∨ 0xffffffff80000000 ≤ extend32 w := by
  simp only [UInt64.lt_iff_toNat_lt, UInt64.le_iff_toNat_le, UInt64.reduceToNat, toNat_extend32]
  split <;> omega

end Word

namespace Insn

/-- A signed displacement of 32 bits leads from one address to another. -/
def InReach (source target : UInt64) : Prop :=
  ∃ rel : UInt32, source + Word.extend32 rel = target

/-- The displacement of a branch is the one that leads to its target. -/
theorem distance?_eq_some_iff {source target : UInt64} {rel : UInt32} :
    distance? source target = some rel ↔ source + Word.extend32 rel = target := by
  refine ⟨add_extend32_of_distance?, ?_⟩
  rintro rfl
  have hdistance : source + Word.extend32 rel - source = Word.extend32 rel := by
    rw [UInt64.add_comm, UInt64.add_sub_cancel]
  simp only [distance?, hdistance]
  rw [if_pos (Word.extend32_reach rel), Word.toUInt32_extend32]

/-- There is none exactly if the target is out of reach. -/
theorem distance?_eq_none_iff {source target : UInt64} :
    distance? source target = none ↔ ¬ InReach source target := by
  rw [Option.eq_none_iff_forall_ne_some, InReach, not_exists]
  exact forall_congr' fun rel => not_congr distance?_eq_some_iff

/-- The displacement is the low half of the distance. -/
theorem eq_of_distance? {source target : UInt64} {rel : UInt32}
    (h : distance? source target = some rel) : rel = (target - source).toUInt32 := by
  simp only [distance?] at h
  split at h
  · exact (Option.some.inj h).symm
  · cases h

end Insn

/-! ## The code of one call -/

namespace Insn

/-- An instruction that no change of targets changes is no direct branch. -/
theorem target?_eq_none_of_mapTarget {i : Insn} (h : ∀ f, i.mapTarget f = i) : i.target? = none := by
  have hnext : ∀ t : UInt64, t + 1 ≠ t := by
    intro t ht
    have hone : t + 1 - t = t - t := by rw [ht]
    rw [UInt64.add_comm, UInt64.add_sub_cancel, UInt64.sub_self] at hone
    cases hone
  cases i with
  | call t => exact absurd (Insn.call.inj (h (· + 1))) (hnext t)
  | jmp t => exact absurd (Insn.jmp.inj (h (· + 1))) (hnext t)
  | jcc c t => exact absurd (Insn.jcc.inj (h (· + 1))).2 (hnext t)
  | _ => rfl

end Insn

namespace Emission

variable {e : Emission} {t : BranchTarget}

/-- The bytes of a direct branch in front of its displacement. -/
def opcode : Emission → List UInt8
  | call _ => [0xe8]
  | jmp _ => [0xe9]
  | jcc cond _ => [0x0f, UInt8.ofNat (0x80 + cond.digit.val)]
  | _ => []

/-- A direct branch is its opcode and its displacement. -/
theorem insn_of_target? (h : e.target? = some t) (go : BranchTarget → UInt64) :
    ∃ i, e.insn go = .ok i ∧ i.target? = some (go t) ∧
      ∀ rel, i.bytes rel = e.opcode ++ Word.bytes32 rel := by
  cases e with
  | call a =>
    cases h
    exact ⟨_, rfl, rfl, fun _ => rfl⟩
  | jmp a =>
    cases h
    exact ⟨_, rfl, rfl, fun _ => rfl⟩
  | jcc cond a =>
    cases h
    exact ⟨_, rfl, rfl, fun _ => rfl⟩
  | _ => cases h

/-- An emission without target is the same wherever targets go. -/
theorem insn_eq_of_target?_none (h : e.target? = none) (go go' : BranchTarget → UInt64) :
    e.insn go = e.insn go' :=
  insn_congr fun t ht => by
    rw [h] at ht
    cases ht

/-- An instruction that is asked for without a target is no direct branch. -/
theorem target?_of_insn (h : e.target? = none) {go : BranchTarget → UInt64} {i : Insn}
    (hi : e.insn go = .ok i) : i.target? = none := by
  refine Insn.target?_eq_none_of_mapTarget fun f => ?_
  have hmap := insn_comp f go e
  rw [insn_eq_of_target?_none h (f ∘ go) go, hi] at hmap
  exact (Except.ok.inj hmap).symm

end Emission

namespace AsmCall

variable {c : AsmCall} {t : BranchTarget}

/-- The bytes of a branch in front of its displacement. -/
def opcode : AsmCall → List UInt8
  | emission e => e.opcode
  | _ => []

/-- The number of bytes that a call adds to the code. -/
def size (c : AsmCall) : Nat :=
  codeSize (c.code BranchTarget.symbol)

/-- The code of a branch is its opcode and its displacement. -/
theorem code_of_target? (h : c.target? = some t) (go : BranchTarget → UInt64) :
    ∃ i, c.code go = [i] ∧ i.target? = some (go t) ∧
      ∀ rel, i.bytes rel = c.opcode ++ Word.bytes32 rel := by
  cases c with
  | emission e =>
    obtain ⟨i, hi, htarget, hbytes⟩ := Emission.insn_of_target? h go
    exact ⟨i, by rw [code, hi]; rfl, htarget, hbytes⟩
  | _ => cases h

/-- So is the code of a call without target. -/
theorem code_eq_of_target?_none (h : c.target? = none) (go go' : BranchTarget → UInt64) :
    c.code go = c.code go' :=
  code_congr fun t ht => by
    rw [h] at ht
    cases ht

/-- A call with a target emits its opcode and four bytes of displacement. -/
theorem codeSize_of_target? (h : c.target? = some t) (go : BranchTarget → UInt64) :
    codeSize (c.code go) = c.opcode.length + 4 := by
  obtain ⟨i, hcode, -, hbytes⟩ := code_of_target? h go
  rw [hcode, Insn.codeSize_cons, Insn.codeSize_nil, Nat.add_zero, Insn.size, hbytes,
    List.length_append]
  rfl

/-- This is also its size. -/
theorem size_of_target? (h : c.target? = some t) : c.size = c.opcode.length + 4 :=
  codeSize_of_target? h _

/-- The size of the code does not depend on where branches go. -/
theorem codeSize_code (c : AsmCall) (go : BranchTarget → UInt64) : codeSize (c.code go) = c.size := by
  cases h : c.target? with
  | none => rw [size, code_eq_of_target?_none h go BranchTarget.symbol]
  | some t => rw [codeSize_of_target? h, size_of_target? h]

/-- Code without a branch is the same everywhere. -/
theorem encode_of_target?_none (h : c.target? = none) :
    ∃ bs, ∀ ip go, Insn.encodeList? ip (c.code go) = some bs := by
  cases c with
  | emission e =>
    cases hinsn : e.insn BranchTarget.symbol with
    | error err =>
      refine ⟨[], fun ip go => ?_⟩
      rw [code, Emission.insn_eq_of_target?_none h go BranchTarget.symbol, hinsn]
      rfl
    | ok i =>
      have htarget := Emission.target?_of_insn h hinsn
      refine ⟨i.bytes 0, fun ip go => ?_⟩
      rw [code, Emission.insn_eq_of_target?_none h go BranchTarget.symbol, hinsn]
      refine Insn.encodeList?_cons_eq_some.mpr ⟨i.bytes 0, [], ?_, rfl, by rw [List.append_nil]⟩
      rw [Insn.encode?, htarget]
  | pad count => exact ⟨_, fun ip go => Insn.encodeList?_replicate_int3 ip count⟩
  | newLabel => exact ⟨[], fun ip go => rfl⟩
  | place l => exact ⟨[], fun ip go => rfl⟩

/-- A branch has code exactly if its target is in reach of its end. -/
theorem encode_of_target? (h : c.target? = some t) {ip : UInt64} {go : BranchTarget → UInt64} :
    Insn.encodeList? ip (c.code go) =
      (Insn.distance? (ip + UInt64.ofNat c.size) (go t)).map fun rel =>
        c.opcode ++ Word.bytes32 rel := by
  obtain ⟨i, hcode, htarget, hbytes⟩ := code_of_target? h go
  have hsize : i.size = c.size := by
    rw [← codeSize_code c go, hcode, Insn.codeSize_cons, Insn.codeSize_nil, Nat.add_zero]
  have hencode : i.encode? ip = (Insn.distance? (ip + UInt64.ofNat c.size) (go t)).map fun rel =>
      c.opcode ++ Word.bytes32 rel := by
    rw [Insn.encode?, htarget, hsize]
    simp only [hbytes]
  rw [hcode, Insn.encodeList?, hencode]
  cases Insn.distance? (ip + UInt64.ofNat c.size) (go t) with
  | none => rfl
  | some rel => simp [Insn.encodeList?]

/-- A branch whose target moves with it has the same code everywhere. -/
theorem encode_moved {d ip : UInt64} {go go' : BranchTarget → UInt64}
    (hgo : ∀ t, c.target? = some t → go' t = go t + d) :
    Insn.encodeList? (ip + d) (c.code go') = Insn.encodeList? ip (c.code go) := by
  cases h : c.target? with
  | none =>
    obtain ⟨bs, hbs⟩ := encode_of_target?_none h
    rw [hbs, hbs]
  | some t =>
    have hdistance : Insn.distance? (ip + d + UInt64.ofNat c.size) (go t + d) =
        Insn.distance? (ip + UInt64.ofNat c.size) (go t) := by
      have hcancel : go t + d - (ip + d + UInt64.ofNat c.size) =
          go t - (ip + UInt64.ofNat c.size) := by
        grind
      rw [Insn.distance?, Insn.distance?, hcancel]
    rw [encode_of_target? h, encode_of_target? h, hgo t h, hdistance]

/-- A branch whose target stays has displacements that differ by what it moves. -/
theorem encode_stays (h : c.target? = some t) {d ip : UInt64} {go go' : BranchTarget → UInt64}
    (hgo : go' t = go t) {bs bs' : List UInt8}
    (hbs : Insn.encodeList? ip (c.code go) = some bs)
    (hbs' : Insn.encodeList? (ip + d) (c.code go') = some bs') :
    ∃ rel rel', bs = c.opcode ++ Word.bytes32 rel ∧ bs' = c.opcode ++ Word.bytes32 rel' ∧
      rel - rel' = d.toUInt32 := by
  rw [encode_of_target? h] at hbs hbs'
  obtain ⟨rel, hrel, rfl⟩ := Option.map_eq_some_iff.mp hbs
  obtain ⟨rel', hrel', rfl⟩ := Option.map_eq_some_iff.mp hbs'
  refine ⟨rel, rel', rfl, rfl, ?_⟩
  rw [Insn.eq_of_distance? hrel, Insn.eq_of_distance? hrel', hgo, ← UInt64.toUInt32_sub]
  congr 1
  grind

/-! ## The code of calls one after the other -/

/-- The number of bytes that calls add to the code. -/
def codeLength : List AsmCall → Nat
  | [] => 0
  | c :: cs => c.size + codeLength cs

/-- The calls ask for a branch to a target, whose displacement has its four bytes from an offset
on. -/
def SiteAt (cs : List AsmCall) (site : Nat) (t : BranchTarget) : Prop :=
  ∃ before c after, cs = before ++ c :: after ∧ c.target? = some t ∧
    site + 4 = codeLength before + c.size

variable {cs : List AsmCall} {site : Nat}

/-- A displacement is that of the first call, or of one behind it. -/
theorem siteAt_cons :
    SiteAt (c :: cs) site t ↔
      (c.target? = some t ∧ site = c.opcode.length) ∨ ∃ o, SiteAt cs o t ∧ site = c.size + o := by
  constructor
  · rintro ⟨before, c', after, hcs, htarget, hsite⟩
    cases before with
    | nil =>
      obtain ⟨rfl, rfl⟩ := List.cons.inj hcs
      rw [codeLength, size_of_target? htarget] at hsite
      exact .inl ⟨htarget, by omega⟩
    | cons c'' before =>
      obtain ⟨rfl, rfl⟩ := List.cons.inj hcs
      rw [codeLength] at hsite
      have hsize := size_of_target? htarget
      refine .inr ⟨site - c.size, ⟨before, c', after, rfl, htarget, ?_⟩, ?_⟩ <;> omega
  · rintro (⟨htarget, rfl⟩ | ⟨o, ⟨before, c', after, rfl, htarget, hsite⟩, rfl⟩)
    · refine ⟨[], c, cs, rfl, htarget, ?_⟩
      rw [codeLength, size_of_target? htarget, Nat.zero_add]
    · refine ⟨c :: before, c', after, rfl, htarget, ?_⟩
      rw [codeLength]
      omega

theorem not_siteAt_nil : ¬ SiteAt [] site t := by
  rintro ⟨before, c, after, hcs, -⟩
  simp at hcs

/-- A displacement lies inside the code. -/
theorem SiteAt.le (h : SiteAt cs site t) : site + 4 ≤ codeLength cs := by
  induction cs generalizing site with
  | nil => exact absurd h not_siteAt_nil
  | cons c cs ih =>
    rw [codeLength]
    rcases siteAt_cons.mp h with ⟨htarget, rfl⟩ | ⟨o, hsite, rfl⟩
    · rw [size_of_target? htarget]
      omega
    · have := ih hsite
      omega

/-- The length of the code of calls does not depend on where targets go. -/
theorem codeSize_flatMap_code (cs : List AsmCall) (go : BranchTarget → UInt64) :
    codeSize (cs.flatMap (code go)) = codeLength cs := by
  induction cs with
  | nil => rfl
  | cons c cs ih => rw [List.flatMap_cons, Insn.codeSize_append, codeSize_code, ih, codeLength]

/-- The code of calls is encoded call by call. -/
theorem encode_cons_eq_some {ip : UInt64} {go : BranchTarget → UInt64} {bs : List UInt8} :
    Insn.encodeList? ip ((c :: cs).flatMap (code go)) = some bs ↔
      ∃ front back, Insn.encodeList? ip (c.code go) = some front ∧
        Insn.encodeList? (ip + UInt64.ofNat c.size) (cs.flatMap (code go)) = some back ∧
        bs = front ++ back := by
  rw [List.flatMap_cons, Insn.encodeList?_append_eq_some, codeSize_code]

/-- The code of a call cannot be encoded exactly if its target is out of reach. -/
theorem encode_eq_none {ip : UInt64} {go : BranchTarget → UInt64} :
    Insn.encodeList? ip (c.code go) = none ↔
      ∃ t, c.target? = some t ∧ ¬ Insn.InReach (ip + UInt64.ofNat c.size) (go t) := by
  cases h : c.target? with
  | none =>
    obtain ⟨bs, hbs⟩ := encode_of_target?_none h
    simp [hbs]
  | some t => simp [encode_of_target? h, Insn.distance?_eq_none_iff]

/-- Calls have no code exactly if one of them branches out of reach. -/
theorem encode_flatMap_eq_none {ip : UInt64} {go : BranchTarget → UInt64} :
    Insn.encodeList? ip (cs.flatMap (code go)) = none ↔
      ∃ site t, SiteAt cs site t ∧ ¬ Insn.InReach (ip + UInt64.ofNat (site + 4)) (go t) := by
  induction cs generalizing ip with
  | nil =>
    refine ⟨fun h => (by cases h), ?_⟩
    rintro ⟨site, t, hsite, -⟩
    exact absurd hsite not_siteAt_nil
  | cons c cs ih =>
    -- a list has no code if its first call has none or the others have none
    have hsplit : Insn.encodeList? ip ((c :: cs).flatMap (code go)) = none ↔
        Insn.encodeList? ip (c.code go) = none ∨
        Insn.encodeList? (ip + UInt64.ofNat c.size) (cs.flatMap (code go)) = none := by
      simp only [Option.eq_none_iff_forall_ne_some, ne_eq, encode_cons_eq_some]
      constructor
      · intro h
        by_contra hboth
        push Not at hboth
        obtain ⟨⟨front, hfront⟩, back, hback⟩ := hboth
        exact h _ ⟨front, back, hfront, hback, rfl⟩
      · rintro (h | h) bs ⟨front, back, hfront, hback, -⟩
        · exact h front hfront
        · exact h back hback
    rw [hsplit, encode_eq_none, ih]
    constructor
    · rintro (⟨t, htarget, hfar⟩ | ⟨o, t, hsite, hfar⟩)
      · refine ⟨c.opcode.length, t, siteAt_cons.mpr (.inl ⟨htarget, rfl⟩), ?_⟩
        rw [← size_of_target? htarget]
        exact hfar
      · refine ⟨c.size + o, t, siteAt_cons.mpr (.inr ⟨o, hsite, rfl⟩), ?_⟩
        rw [Nat.add_assoc, Insn.add_ofNat_add]
        exact hfar
    · rintro ⟨site, t, hsite, hfar⟩
      rcases siteAt_cons.mp hsite with ⟨htarget, rfl⟩ | ⟨o, hrest, rfl⟩
      · rw [← size_of_target? htarget] at hfar
        exact .inl ⟨t, htarget, hfar⟩
      · rw [Nat.add_assoc, Insn.add_ofNat_add] at hfar
        exact .inr ⟨o, t, hrest, hfar⟩

/-! ## The code of the same calls at two addresses -/

/-- Two ways to resolve targets, for code that is moved by `d`: some targets stay, and all others
move with the code. -/
structure Moved (d : UInt64) (stays : BranchTarget → Prop) (go go' : BranchTarget → UInt64) :
    Prop where
  same : ∀ t, stays t → go' t = go t
  moves : ∀ t, ¬ stays t → go' t = go t + d

section Moved

variable {d ip : UInt64} {stays : BranchTarget → Prop} {go go' : BranchTarget → UInt64}
  {bs bs' : List UInt8}

/-- What is encoded has the length of the calls. -/
theorem length_of_encode {ip : UInt64}
    (h : Insn.encodeList? ip (cs.flatMap (code go)) = some bs) : bs.length = codeLength cs := by
  rw [Insn.length_of_encodeList? h, codeSize_flatMap_code]

/-- The same for one call. -/
theorem length_of_encode_code {ip : UInt64}
    (h : Insn.encodeList? ip (c.code go) = some bs) : bs.length = c.size := by
  rw [Insn.length_of_encodeList? h, codeSize_code]

/-- Where the code differs, there is the displacement of a branch to a target that stays. -/
theorem site_of_ne (hmoved : Moved d stays go go')
    (hbs : Insn.encodeList? ip (cs.flatMap (code go)) = some bs)
    (hbs' : Insn.encodeList? (ip + d) (cs.flatMap (code go')) = some bs') {k : Nat}
    (hk : bs[k]? ≠ bs'[k]?) :
    ∃ site t, SiteAt cs site t ∧ stays t ∧ site ≤ k ∧ k < site + 4 := by
  induction cs generalizing ip bs bs' k with
  | nil =>
    cases hbs
    cases hbs'
    exact absurd rfl hk
  | cons c cs ih =>
    obtain ⟨front, back, hfront, hback, rfl⟩ := encode_cons_eq_some.mp hbs
    obtain ⟨front', back', hfront', hback', rfl⟩ := encode_cons_eq_some.mp hbs'
    have hlen := length_of_encode_code hfront
    have hlen' := length_of_encode_code hfront'
    by_cases hlt : k < c.size
    · rw [List.getElem?_append_left (by omega), List.getElem?_append_left (by omega)] at hk
      by_cases hstays : ∃ t, c.target? = some t ∧ stays t
      · obtain ⟨t, htarget, hstays⟩ := hstays
        obtain ⟨rel, rel', rfl, rfl, -⟩ :=
          encode_stays htarget (hmoved.same t hstays) hfront hfront'
        have hsize := size_of_target? htarget
        refine ⟨c.opcode.length, t, siteAt_cons.mpr (.inl ⟨htarget, rfl⟩), hstays, ?_, by omega⟩
        refine Nat.le_of_not_lt fun hopcode => hk ?_
        rw [List.getElem?_append_left hopcode, List.getElem?_append_left hopcode]
      · -- the code is the same if the call does not branch to a target that stays
        have hsame : Insn.encodeList? (ip + d) (c.code go') = Insn.encodeList? ip (c.code go) :=
          encode_moved fun t htarget => hmoved.moves t fun hstay => hstays ⟨t, htarget, hstay⟩
        rw [hfront, hfront'] at hsame
        exact absurd (by rw [Option.some.inj hsame]) hk
    · rw [List.getElem?_append_right (by omega), List.getElem?_append_right (by omega), hlen,
        hlen'] at hk
      have hmove : ip + d + UInt64.ofNat c.size = ip + UInt64.ofNat c.size + d := by grind
      rw [hmove] at hback'
      obtain ⟨o, t, hsite, hstay, hlow, hhigh⟩ := ih hback hback' hk
      exact ⟨c.size + o, t, siteAt_cons.mpr (.inr ⟨o, hsite, rfl⟩), hstay, by omega, by omega⟩

/-- The displacements of a branch to a target that stays differ by what the code is moved. -/
theorem words_at_site (hmoved : Moved d stays go go')
    (hbs : Insn.encodeList? ip (cs.flatMap (code go)) = some bs)
    (hbs' : Insn.encodeList? (ip + d) (cs.flatMap (code go')) = some bs')
    (hsite : SiteAt cs site t) (hstay : stays t) :
    ∃ rel rel', (bs.drop site).take 4 = Word.bytes32 rel ∧
      (bs'.drop site).take 4 = Word.bytes32 rel' ∧ rel - rel' = d.toUInt32 := by
  induction cs generalizing ip bs bs' site with
  | nil => exact absurd hsite not_siteAt_nil
  | cons c cs ih =>
    obtain ⟨front, back, hfront, hback, rfl⟩ := encode_cons_eq_some.mp hbs
    obtain ⟨front', back', hfront', hback', rfl⟩ := encode_cons_eq_some.mp hbs'
    rcases siteAt_cons.mp hsite with ⟨htarget, rfl⟩ | ⟨o, hrest, rfl⟩
    · obtain ⟨rel, rel', rfl, rfl, hdiff⟩ :=
        encode_stays htarget (hmoved.same t hstay) hfront hfront'
      refine ⟨rel, rel', ?_, ?_, hdiff⟩
      · rw [List.append_assoc, List.drop_left]
        rfl
      · rw [List.append_assoc, List.drop_left]
        rfl
    · have hmove : ip + d + UInt64.ofNat c.size = ip + UInt64.ofNat c.size + d := by grind
      rw [hmove] at hback'
      rw [← List.drop_drop, ← List.drop_drop, List.drop_left' (length_of_encode_code hfront),
        List.drop_left' (length_of_encode_code hfront')]
      exact ih hback hback' hrest

end Moved

end AsmCall

namespace Assembler

/-! ## Calls that may fail -/

/-- The assembler after a call, which changes nothing if it fails. -/
def attempt (a : Assembler) (c : AsmCall) : Assembler :=
  match a.call c with
  | .ok b => b
  | .error _ => a

/-- The assembler after calls one after the other, some of which may fail. -/
def attemptAll (a : Assembler) (cs : List AsmCall) : Assembler :=
  cs.foldl attempt a

variable {a b : Assembler} {c : AsmCall} {cs : List AsmCall} {t : BranchTarget}

/-- A call that fails asks for no code. -/
theorem code_of_call_error {err : EncodingError} (h : a.call c = .error err)
    (go : BranchTarget → UInt64) : c.code go = [] := by
  cases c with
  | emission e =>
    cases htarget : e.target? with
    | some t =>
      obtain ⟨i, hi, -⟩ := Emission.insn_of_target? htarget BranchTarget.symbol
      rw [call, emission_eq_ok.mpr ⟨i, hi, rfl⟩] at h
      cases h
    | none =>
      rw [AsmCall.code, Emission.insn_eq_of_target?_none htarget go BranchTarget.symbol]
      cases hinsn : e.insn BranchTarget.symbol with
      | error err => rfl
      | ok i =>
        rw [call, emission_eq_ok.mpr ⟨i, hinsn, rfl⟩] at h
        cases h
  | pad count => cases h
  | newLabel => cases h
  | place l => rfl

/-- A call that may fail appends its code to the items. -/
theorem flatten_attempt (a : Assembler) (c : AsmCall) (f : UInt64 → UInt64) :
    (a.attempt c).items.flatMap (Item.flatten f) =
      a.items.flatMap (Item.flatten f) ++ c.code (f ∘ BranchTarget.symbol) := by
  rw [attempt]
  cases h : a.call c with
  | ok b => exact flatten_of_call h f
  | error err => rw [code_of_call_error h, List.append_nil]

/-- So do calls one after the other. -/
theorem flatten_attemptAll (a : Assembler) (cs : List AsmCall) (f : UInt64 → UInt64) :
    (a.attemptAll cs).items.flatMap (Item.flatten f) =
      a.items.flatMap (Item.flatten f) ++ cs.flatMap (AsmCall.code (f ∘ BranchTarget.symbol)) := by
  induction cs generalizing a with
  | nil => simp [attemptAll]
  | cons c cs ih =>
    have hrest := ih (a.attempt c)
    rw [flatten_attempt, List.append_assoc, ← List.flatMap_cons] at hrest
    exact hrest

/-- Calls that may fail keep placed labels apart. -/
theorem Marked.attemptAll (h : a.Marked)
    (hlabels : ∀ c ∈ cs, ∀ l, c.label? = some l → l.Proper) : (a.attemptAll cs).Marked := by
  induction cs generalizing a with
  | nil => exact h
  | cons c cs ih =>
    refine ih ?_ fun c' hc' => hlabels c' (List.mem_cons_of_mem _ hc')
    rw [attempt]
    cases hcall : a.call c with
    | ok b => exact h.call (hlabels c List.mem_cons_self) hcall
    | error err => exact h

/-! ## Targets that stay and targets that move -/

/-- The target of a branch does not move with the code: an address that not exactly one item bears,
or a label that was never placed. -/
def Stays (a : Assembler) : BranchTarget → Prop
  | .address t => ¬ a.Bears t
  | .label l => .mark l ∉ a.items

/-- A branch to a target that stays goes to its symbolic address, wherever the code is. -/
theorem Stays.reached (h : a.Stays t) (ip : UInt64) : a.reached ip t = t.symbol := by
  cases t with
  | address t => exact reached_of_not_bears h ip
  | label l =>
    rw [Assembler.reached, reported, labelAddress_of_notMem h]
    rfl

/-- A target that does not stay is a place in the code. -/
theorem reached_of_not_stays (h : ¬ a.Stays t) :
    ∃ offset ≤ (a.items.map Item.size).sum, ∀ ip, a.reached ip t = ip + UInt64.ofNat offset := by
  have hle : ∀ {before i after}, a.items = before ++ i :: after →
      (before.map Item.size).sum ≤ (a.items.map Item.size).sum := by
    intro before i after hitems
    rw [hitems, List.map_append, List.sum_append]
    omega
  cases t with
  | address t =>
    obtain ⟨i, hi⟩ := not_not.mp h
    obtain ⟨before, after, hitems, hbefore, hsymbol, hafter⟩ := List.filter_eq_cons_iff.mp hi
    rw [List.filter_eq_nil_iff] at hafter
    -- exactly one item bears the address, so the branch is taken for one to the item
    have hborne : i.symbol = t := of_decide_eq_true hsymbol
    refine ⟨_, hle hitems, fun ip => ?_⟩
    rw [← hborne]
    refine reached_symbol hitems (fun j hj heq => ?_) ip
    have hj' : decide (j.symbol = t) = true := decide_eq_true (heq.trans hborne)
    rcases List.mem_append.mp hj with hj | hj
    · exact hbefore j hj hj'
    · exact hafter j hj hj'
  | label l =>
    obtain ⟨before, after, hitems, hfirst⟩ := List.eq_append_cons_of_mem (not_not.mp h)
    refine ⟨_, hle hitems, fun ip => ?_⟩
    rw [Assembler.reached, reported, hitems, labelAddress_mark after hfirst]

/-- All other targets move with the code. -/
theorem moved_reached (a : Assembler) (ip d : UInt64) :
    AsmCall.Moved d a.Stays (a.reached ip) (a.reached (ip + d)) where
  same t h := by rw [h.reached, h.reached]
  moves t h := by
    obtain ⟨offset, -, hreached⟩ := reached_of_not_stays h
    rw [hreached, hreached]
    grind

/-- Places of code up to two gigabytes reach each other. -/
theorem inReach_of_le {ip : UInt64} {m n : Nat} (hpos : 0 < m) (hm : m ≤ 0x80000000)
    (hn : n ≤ 0x80000000) : Insn.InReach (ip + UInt64.ofNat m) (ip + UInt64.ofNat n) := by
  by_contra hfar
  have hnone := Insn.distance?_eq_none_iff.mpr hfar
  have hdistance : ip + UInt64.ofNat n - (ip + UInt64.ofNat m) =
      UInt64.ofNat n - UInt64.ofNat m := by
    grind
  simp only [Insn.distance?, hdistance, UInt64.lt_iff_toNat_lt, UInt64.le_iff_toNat_le,
    UInt64.toNat_sub, UInt64.toNat_ofNat', UInt64.reduceToNat] at hnone
  rw [if_pos (by omega)] at hnone
  cases hnone

/-! ## Assembling -/

/-- Assembling gives the code of the items. -/
theorem fst_assemble (a : Assembler) (ip : UInt64) (wanted : List Label) :
    (a.assemble ip wanted).1 = assembleItems a.items ip wanted := by
  rw [assemble]
  split
  · rename_i hempty
    rw [List.isEmpty_iff.mp hempty]
    cases wanted with
    | nil => rfl
    | cons l wanted => rfl
  · rfl

/-- An assembler is empty after assembling. -/
theorem isEmpty_assemble (a : Assembler) (ip : UInt64) (wanted : List Label) :
    (a.assemble ip wanted).2.isEmpty = true := by
  rw [assemble]
  split
  · assumption
  · rfl

/-- Labels have addresses if all of them have been placed. -/
theorem mapM_labelAddress_error {ip : UInt64} {wanted : List Label} :
    (∃ e, wanted.mapM (labelAddress ip (Item.layout 0 a.items)) = .error e) ↔
      ∃ l ∈ wanted, .mark l ∉ a.items := by
  induction wanted with
  | nil => simp [pure, Except.pure]
  | cons l wanted ih =>
    rw [List.mapM_cons]
    by_cases hl : Item.mark l ∈ a.items
    · obtain ⟨before, after, hitems, hfirst⟩ := List.eq_append_cons_of_mem hl
      have haddress := labelAddress_mark after hfirst ip
      rw [← hitems] at haddress
      rw [haddress]
      simp only [List.mem_cons, exists_eq_or_imp, hl, not_true_eq_false, false_or, ← ih]
      cases wanted.mapM (labelAddress ip (Item.layout 0 a.items)) <;>
        simp [bind, Except.bind, pure, Except.pure]
    · rw [labelAddress_of_notMem hl]
      exact ⟨fun _ => ⟨l, List.mem_cons_self, hl⟩, fun _ => ⟨_, rfl⟩⟩

/-- What calls leave behind stands for what they ask for. -/
theorem flatten_eq_code (hstart : a.isEmpty)
    (hlabels : ∀ c ∈ cs, ∀ l, c.label? = some l → l.Proper) (ip : UInt64) :
    (a.attemptAll cs).items.flatMap
        (Item.flatten (Item.resolve ip (Item.layout 0 (a.attemptAll cs).items))) =
      cs.flatMap (AsmCall.code ((a.attemptAll cs).reached ip)) := by
  have hmarked := (marked_of_isEmpty hstart).attemptAll hlabels
  rw [flatten_attemptAll, List.isEmpty_iff.mp hstart, List.flatMap_nil, List.nil_append]
  exact List.flatMap_congr fun c hc => code_resolve hmarked (hlabels c hc) ip

/-- The items of the calls take the length of the calls. -/
theorem sum_size_attemptAll (hstart : a.isEmpty) (cs : List AsmCall) :
    ((a.attemptAll cs).items.map Item.size).sum = AsmCall.codeLength cs := by
  rw [← Item.codeSize_flatMap_flatten id, flatten_attemptAll, List.isEmpty_iff.mp hstart,
    List.flatMap_nil, List.nil_append, AsmCall.codeSize_flatMap_code]

/-- Assembling items fails where there is no machine code, or a label that is asked for has no
address. -/
theorem assembleItems_eq_error {items : List Item} {ip : UInt64} {wanted : List Label} :
    (∃ e, assembleItems items ip wanted = .error e) ↔
      Insn.encodeList? ip
          (items.flatMap (Item.flatten (Item.resolve ip (Item.layout 0 items)))) = none ∨
      ∃ e, wanted.mapM (labelAddress ip (Item.layout 0 items)) = .error e := by
  have hstart : ip + UInt64.ofNat 0 = ip := UInt64.add_zero ip
  rw [assembleItems, Item.encodeAll?_layout, hstart]
  cases Insn.encodeList? ip
      (items.flatMap (Item.flatten (Item.resolve ip (Item.layout 0 items)))) with
  | none => simp
  | some bs =>
    cases wanted.mapM (labelAddress ip (Item.layout 0 items)) with
    | error e => simp [bind, Except.bind]
    | ok ls => simp [bind, Except.bind]

/-- A program that is assembled at two addresses.  For every sequence of calls, also of calls that
fail, from an assembler without items on, and all labels that are asked for:

* where assembling succeeds at both addresses, the code has the same length and the labels have the
  same offsets;
* the code differs only in the displacements of branches to targets that stay, and there by the
  difference of the two addresses;
* assembling fails exactly if a branch does not reach its target or a label that is asked for was
  never placed;
* in code up to two gigabytes, targets that move with the code are reached, so that only a branch to
  an address out of reach or to a label that was never placed makes assembling fail;
* a target that stays is the address itself, or the number of the label;
* the assembler is left without items. -/
theorem assemble_relocates {a b : Assembler} {cs : List AsmCall} (hstart : a.isEmpty)
    (hlabels : ∀ c ∈ cs, ∀ l, c.label? = some l → l.Proper) (hb : b = a.attemptAll cs)
    (wanted : List Label) :
    (∀ ip₁ ip₂ out₁ out₂, (b.assemble ip₁ wanted).1 = .ok out₁ →
      (b.assemble ip₂ wanted).1 = .ok out₂ →
      out₁.bytes.length = out₂.bytes.length ∧
      out₁.labels.map (· - ip₁) = out₂.labels.map (· - ip₂) ∧
      (∀ k : Nat, out₁.bytes[k]? ≠ out₂.bytes[k]? →
        ∃ site t, AsmCall.SiteAt cs site t ∧ b.Stays t ∧ site ≤ k ∧ k < site + 4) ∧
      ∀ site t, AsmCall.SiteAt cs site t → b.Stays t →
        ∃ rel₁ rel₂, (out₁.bytes.drop site).take 4 = Word.bytes32 rel₁ ∧
          (out₂.bytes.drop site).take 4 = Word.bytes32 rel₂ ∧
          rel₁ - rel₂ = (ip₂ - ip₁).toUInt32) ∧
    (∀ ip, (∃ e, (b.assemble ip wanted).1 = .error e) ↔
      (∃ site t, AsmCall.SiteAt cs site t ∧
        ¬ Insn.InReach (ip + UInt64.ofNat (site + 4)) (b.reached ip t)) ∨
      ∃ l ∈ wanted, .mark l ∉ b.items) ∧
    (AsmCall.codeLength cs ≤ 0x80000000 → ∀ ip site t, AsmCall.SiteAt cs site t → ¬ b.Stays t →
      Insn.InReach (ip + UInt64.ofNat (site + 4)) (b.reached ip t)) ∧
    (∀ ip t, b.Stays t → b.reached ip t = t.symbol) ∧
    ∀ ip, (b.assemble ip wanted).2.isEmpty := by
  subst hb
  have hcode := flatten_eq_code hstart hlabels
  refine ⟨fun ip₁ ip₂ out₁ out₂ h₁ h₂ => ?_, fun ip => ?_, fun hlength ip site t hsite hmoves => ?_,
    fun ip t hstays => hstays.reached ip, fun ip => isEmpty_assemble _ ip wanted⟩
  · rw [fst_assemble, assembleItems_eq_ok, hcode] at h₁ h₂
    obtain ⟨hbytes₁, hmap₁⟩ := h₁
    obtain ⟨hbytes₂, hmap₂⟩ := h₂
    obtain ⟨hout₁, hplaced⟩ := eq_map_reported hmap₁
    obtain ⟨hout₂, -⟩ := eq_map_reported hmap₂
    -- the second address is the first one moved by the difference
    obtain ⟨d, rfl⟩ : ∃ d, ip₂ = ip₁ + d := ⟨ip₂ - ip₁, by grind⟩
    have hd : ip₁ + d - ip₁ = d := by grind
    have hmoved := moved_reached (a.attemptAll cs) ip₁ d
    refine ⟨?_, ?_, fun k hk => AsmCall.site_of_ne hmoved hbytes₁ hbytes₂ hk,
      fun site t hsite hstays => ?_⟩
    · rw [AsmCall.length_of_encode hbytes₁, AsmCall.length_of_encode hbytes₂]
    · rw [hout₁, hout₂, List.map_map, List.map_map]
      refine List.map_congr_left fun l hl => ?_
      have hmoves := hmoved.moves (.label l) fun hstays => hstays (hplaced l hl)
      have hshift : (a.attemptAll cs).reported (ip₁ + d) l =
          (a.attemptAll cs).reported ip₁ l + d := hmoves
      rw [Function.comp_apply, Function.comp_apply, hshift]
      grind
    · rw [hd]
      exact AsmCall.words_at_site hmoved hbytes₁ hbytes₂ hsite hstays
  · rw [fst_assemble, assembleItems_eq_error, hcode, AsmCall.encode_flatMap_eq_none,
      mapM_labelAddress_error]
  · obtain ⟨offset, hle, hreached⟩ := reached_of_not_stays hmoves
    rw [sum_size_attemptAll hstart] at hle
    have hend := hsite.le
    rw [hreached]
    exact inReach_of_le (by omega) (by omega) (by omega)

/-- A branch over a call to its label, a call that fails because its register is none of the
general-purpose ones, and a branch to a label that is never placed. -/
def detourCalls : List AsmCall :=
  [.newLabel, .newLabel,
    .emission (.jcc .notEqual (.label ⟨1⟩)),
    .emission (.push ⟨1, 0⟩),
    .emission (.call (.address 0x2000)),
    .place ⟨1⟩,
    .emission (.jmp (.label ⟨2⟩)),
    .pad 1]

/-- At two addresses, the displacements of the call differ by the difference of the addresses, and
so do those of the branch to the label that has no place. -/
theorem assemble_relocates_detourCalls :
    ∃ b out₁ out₂, b = empty.attemptAll detourCalls ∧
      (b.assemble 0x1000 [⟨1⟩]).1 = .ok out₁ ∧ (b.assemble 0x5000 [⟨1⟩]).1 = .ok out₂ ∧
      AsmCall.SiteAt detourCalls 7 (.address 0x2000) ∧ b.Stays (.address 0x2000) ∧
      AsmCall.SiteAt detourCalls 12 (.label ⟨2⟩) ∧ b.Stays (.label ⟨2⟩) ∧
      out₁.labels.map (· - 0x1000) = out₂.labels.map (· - 0x5000) ∧
      ∀ site ∈ [7, 12], ∃ rel₁ rel₂, (out₁.bytes.drop site).take 4 = Word.bytes32 rel₁ ∧
        (out₂.bytes.drop site).take 4 = Word.bytes32 rel₂ ∧ rel₁ - rel₂ = 0x4000 := by
  have hone : Label.Proper ⟨1⟩ := ⟨by decide, by decide⟩
  have htwo : Label.Proper ⟨2⟩ := ⟨by decide, by decide⟩
  have hlabels : ∀ c ∈ detourCalls, ∀ l, c.label? = some l → l.Proper := by
    simp [detourCalls, AsmCall.label?, Emission.target?, hone, htwo]
  have haddress : (empty.attemptAll detourCalls).Stays (.address 0x2000) := by
    rintro ⟨i, hi⟩
    have hnone : (empty.attemptAll detourCalls).items.filter (fun i => i.symbol = 0x2000) = [] := by
      decide
    rw [hnone] at hi
    cases hi
  have hlabel : (empty.attemptAll detourCalls).Stays (.label ⟨2⟩) := by
    intro hmem
    have hnone : (empty.attemptAll detourCalls).items.contains (.mark ⟨2⟩) = false := by decide
    rw [List.contains_iff_mem.mpr hmem] at hnone
    cases hnone
  have hcall : AsmCall.SiteAt detourCalls 7 (.address 0x2000) :=
    ⟨detourCalls.take 4, _, detourCalls.drop 5, rfl, rfl, by decide⟩
  have hjump : AsmCall.SiteAt detourCalls 12 (.label ⟨2⟩) :=
    ⟨detourCalls.take 6, _, detourCalls.drop 7, rfl, rfl, by decide⟩
  obtain ⟨hpair, -⟩ := assemble_relocates (a := empty) rfl hlabels rfl [⟨1⟩]
  obtain ⟨-, hoffsets, -, hwords⟩ := hpair 0x1000 0x5000 _ _ rfl rfl
  refine ⟨_, _, _, rfl, rfl, rfl, hcall, haddress, hjump, hlabel, hoffsets, ?_⟩
  rw [List.forall_mem_cons, List.forall_mem_singleton]
  exact ⟨hwords 7 _ hcall haddress, hwords 12 _ hjump hlabel⟩

/-- A branch to the address 1 does not lead out of code in which the label with the number 1 is
placed.  So its displacement is the same at two addresses, and does not differ by their
difference. -/
theorem relocation_keeps_label_number :
    ∃ b out₁ out₂ rel₁ rel₂,
      b = empty.attemptAll [.newLabel, .place ⟨1⟩, .emission (.jmp (.address 1))] ∧
      (b.assemble 0x1000 [⟨1⟩]).1 = .ok out₁ ∧ (b.assemble 0x2000 [⟨1⟩]).1 = .ok out₂ ∧
      out₁.bytes = 0xe9 :: Word.bytes32 rel₁ ∧ out₂.bytes = 0xe9 :: Word.bytes32 rel₂ ∧
      rel₁ - rel₂ ≠ ((0x2000 : UInt64) - 0x1000).toUInt32 :=
  ⟨_, _, _, 0xfffffffb, 0xfffffffb, rfl, rfl, rfl, rfl, rfl, by decide⟩

end Assembler

end Dynarec
