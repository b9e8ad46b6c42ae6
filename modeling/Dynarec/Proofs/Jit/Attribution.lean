import Dynarec.Proofs.Jit.Bodies
import Dynarec.Proofs.Jit.Extents
import Dynarec.Proofs.Text.Numbers

/-!
# Whose code an address is in

An address among the blocks is attributed to the block on record whose code starts nearest at or
below it (`Jit.Nearest`).  Where that code ends is not asked.  So an address in code on record is
attributed to its own block.  But code that is left behind, by blocks that have been invalidated or
compiled again and by compiling that was broken off, is attributed to the block on record in front
of it, if there is one.

## Shape of the proof

* The choice is a fold over the table of entries that keeps the highest start (`foldl_higher`).  No
  two blocks on record start at one place, so there is one nearest (`Tidy.nearest_unique`).
* The wording has a space behind the number and a bracket behind the address, so it says which block
  and which distance were meant (`label_inj`).
* All code that was ever a block's is among the bodies in the cache, and these lie apart
  (`Jit.Retains`).  So of two bodies that start at one place, both are the same.
-/

namespace Dynarec

open Lower Dynarec.Action CodeCache

namespace Jit

/-- The wording for an address in the code of a block. -/
def label (num : Nat) (start : UInt32) (distance : Nat) : String :=
  "block " ++ toString num ++ " (pc " ++ Notice.guestAddress start ++ ") +" ++ Text.hex distance

/-- Of the blocks on record whose code starts at or below an offset, the one that starts nearest. -/
structure Nearest (j : Jit) (o num : Nat) (x : Extent) : Prop where
  extent : j.extent? num = some x
  low : x.low ≤ o
  highest : ∀ num' x', j.extent? num' = some x' → x'.low ≤ o → x'.low ≤ x.low

/-- The text of a description, part by part. -/
theorem toList_label (num : Nat) (start : UInt32) (d : Nat) :
    (label num start d).toList = "block ".toList ++ (Nat.toDigits 10 num ++ ' ' ::
      ("(pc ".toList ++ ((Notice.guestAddress start).toList ++ ')' ::
        (" +".toList ++ (Text.hex d).toList)))) := by
  simp [label]

/-- Different places have different descriptions. -/
theorem label_inj {num num' : Nat} {start start' : UInt32} {d d' : Nat}
    (h : label num start d = label num' start' d') : num = num' ∧ start = start' ∧ d = d' := by
  have hspace : ∀ n, ' ' ∉ Nat.toDigits 10 n := fun n hmem =>
    absurd (Text.isAlphanum_of_mem_toDigits (by decide) (by decide) hmem) (by decide)
  have hbracket : ∀ pc, ')' ∉ (Notice.guestAddress pc).toList := fun pc hmem =>
    absurd (Text.isAlphanum_of_mem_hexPadded hmem) (by decide)
  have hlists := congrArg String.toList h
  rw [toList_label, toList_label] at hlists
  obtain ⟨hnum, hrest⟩ := Text.append_cons_inj (hspace num) (hspace num')
    (List.append_cancel_left hlists)
  obtain ⟨hstart, htail⟩ := Text.append_cons_inj (hbracket start) (hbracket start')
    (List.append_cancel_left hrest)
  refine ⟨?_, ?_, Text.hex_inj (String.toList_inj.mp (List.append_cancel_left htail))⟩
  · have hdigits := congrArg (Text.digits? 10) hnum
    simpa only [Text.digits?_toDigits (by decide : 1 < 10) (by decide : 10 ≤ 16),
      Option.some.injEq] using hdigits
  · exact UInt32.toNat_inj.mp (Text.hexPadded_inj (String.toList_inj.mp hstart))

/-! ## The nearest start -/

/-- Of two, the one that is not lower; the later one, if they are level. -/
def higher (best : Option (Nat × Nat)) (p : Nat × Nat) : Option (Nat × Nat) :=
  best.elim (some p) fun b => if b.2 ≤ p.2 then some p else some b

/-- Of the blocks that start no higher, the search takes the one that starts highest. -/
theorem blockAt?_eq_foldl (j : Jit) (o : Nat) : j.blockAt? o =
    ((j.links.natives.map fun p => (p.1, p.2.low)).filter (·.2 ≤ o)).foldl higher none := by
  rw [blockAt?]
  congr 1
  funext best p
  cases best <;> rfl

/-- The search finds one that starts highest. -/
theorem foldl_higher (ps : List (Nat × Nat)) (b : Nat × Nat) :
    ∃ p, ps.foldl higher (some b) = some p ∧ p ∈ b :: ps ∧ ∀ q ∈ b :: ps, q.2 ≤ p.2 := by
  induction ps generalizing b with
  | nil => exact ⟨b, rfl, List.mem_cons_self, by simp⟩
  | cons q ps ih =>
    rw [List.foldl_cons, higher, Option.elim_some]
    split
    · rename_i hle
      obtain ⟨p, hfold, hmem, hall⟩ := ih q
      refine ⟨p, hfold, List.mem_cons_of_mem _ hmem, List.forall_mem_cons.mpr ⟨?_, hall⟩⟩
      exact Nat.le_trans hle (hall q List.mem_cons_self)
    · rename_i hlt
      obtain ⟨p, hfold, hmem, hall⟩ := ih b
      obtain ⟨hbest, hrest⟩ := List.forall_mem_cons.mp hall
      refine ⟨p, hfold, ?_, ?_⟩
      · rcases List.mem_cons.mp hmem with rfl | hmem
        · exact List.mem_cons_self
        · exact List.mem_cons_of_mem _ (List.mem_cons_of_mem _ hmem)
      · exact List.forall_mem_cons.mpr ⟨hbest, List.forall_mem_cons.mpr ⟨by omega, hrest⟩⟩

section

variable {j k : Jit} {o num num' : Nat} {x x' : Extent}

/-- The listed entries are those on record. -/
theorem mem_natives {n : Native} : (num, n) ∈ j.links.natives ↔ j.links.native? num = some n :=
  Std.TreeMap.mem_toList_iff_getElem?_eq_some

/-- The block that an offset is attributed to is on record and starts nearest. -/
theorem blockAt?_cases (j : Jit) (o : Nat) :
    (j.blockAt? o = none ∧ ∀ num n, j.links.native? num = some n → o < n.low) ∨
      ∃ num n, j.blockAt? o = some (num, n.low) ∧ j.links.native? num = some n ∧ n.low ≤ o ∧
        ∀ num' n', j.links.native? num' = some n' → n'.low ≤ o → n'.low ≤ n.low := by
  -- the candidates are the blocks that start no higher than the place
  have hmem : ∀ p, p ∈ (j.links.natives.map fun p => (p.1, p.2.low)).filter (·.2 ≤ o) ↔
      ∃ n, j.links.native? p.1 = some n ∧ n.low = p.2 ∧ p.2 ≤ o := by
    rintro ⟨num, low⟩
    rw [List.mem_filter, List.mem_map, decide_eq_true_eq]
    constructor
    · rintro ⟨⟨⟨num, n⟩, hn, heq⟩, hle⟩
      cases heq
      exact ⟨n, mem_natives.mp hn, rfl, hle⟩
    · rintro ⟨n, hn, rfl, hle⟩
      exact ⟨⟨(num, n), mem_natives.mpr hn, rfl⟩, hle⟩
  rw [blockAt?_eq_foldl]
  cases hstarts : (j.links.natives.map fun p => (p.1, p.2.low)).filter (·.2 ≤ o) with
  | nil =>
    refine .inl ⟨rfl, fun num n hn => Nat.lt_of_not_le fun hle => ?_⟩
    have h := (hmem (num, n.low)).mpr ⟨n, hn, rfl, hle⟩
    rw [hstarts] at h
    cases h
  | cons q qs =>
    obtain ⟨p, hfold, hp, hall⟩ := foldl_higher qs q
    rw [hstarts] at hmem
    obtain ⟨n, hn, hlow, hle⟩ := (hmem p).mp hp
    refine .inr ⟨p.1, n, ?_, hn, hlow ▸ hle, fun num' n' hn' hle' => ?_⟩
    · rw [hlow]
      exact hfold
    · rw [hlow]
      exact hall _ ((hmem (num', n'.low)).mpr ⟨n', hn', rfl, hle'⟩)

/-- Blocks on record that start at one place are one. -/
theorem Tidy.eq_of_low (hj : j.Tidy) (hx : j.extent? num = some x) (hx' : j.extent? num' = some x')
    (hlow : x.low = x'.low) : num = num' ∧ x = x' := by
  have hinside := hj.wellLaid.inside num x hx
  have hinside' := hj.wellLaid.inside num' x' hx'
  have hnum : num = num' := by
    by_contra hne
    have hapart := hj.wellLaid.apart num num' x x' hx hx' hne
    omega
  subst hnum
  exact ⟨rfl, Option.some.inj (hx.symm.trans hx')⟩

/-- At most one block is nearest to a place. -/
theorem Tidy.nearest_unique (hj : j.Tidy) (h : j.Nearest o num x) (h' : j.Nearest o num' x') :
    num = num' ∧ x = x' :=
  hj.eq_of_low h.extent h'.extent
    (Nat.le_antisymm (h'.highest num x h.extent h.low) (h.highest num' x' h'.extent h'.low))

/-- In the code of a block on record, that block is nearest. -/
theorem Tidy.nearest_of_mem (hj : j.Tidy) (hx : j.extent? num = some x) (hlow : x.low ≤ o)
    (hstop : o < x.stop) : j.Nearest o num x := by
  -- a block that starts between would start inside the code of this one
  refine ⟨hx, hlow, fun num' x' hx' hlow' => Nat.le_of_not_lt fun hlt => ?_⟩
  have hne : num ≠ num' := by
    rintro rfl
    cases hx.symm.trans hx'
    exact Nat.lt_irrefl _ hlt
  have hinside := hj.wellLaid.inside num' x' hx'
  have hapart := hj.wellLaid.apart num num' x x' hx hx' hne
  omega

/-! ## The answer -/

/-- Addresses among the blocks are in no fixed routine. -/
theorem Ready.stubs_describe (hj : j.Ready) (hlow : j.stubs.blocksStart ≤ o)
    (hhigh : o < j.code.cursor) : j.stubs.describe (addressOf o) = none := by
  have hfold : ∀ (items : List Item) (n : Nat),
      items.foldl (fun n item => n + item.size) n = n + (items.map Item.size).sum := by
    intro items
    induction items with
    | nil => exact fun n => rfl
    | cons item items ih =>
      intro n
      rw [List.foldl_cons, ih, List.map_cons, List.sum_cons, Nat.add_assoc]
  have hstop : j.stubs.stop = addressOf j.routinesLen := by
    have hlocated := congrArg Stubs.stop hj.installed.located
    rw [hlocated]
    show addressOf 0 + UInt64.ofNat (j.fixedItems.foldl (fun n item => n + item.size) 0) = _
    rw [hfold, ← addressOf_add, Nat.zero_add, Nat.zero_add]
    rfl
  have hroutines := hj.routines
  have hcursor := hj.high
  have hsize := hj.size_le
  rw [Stubs.describe, if_neg]
  rw [Stubs.contains, hstop, Bool.and_eq_true, decide_eq_true_eq, decide_eq_true_eq, not_and,
    UInt64.lt_iff_toNat_lt, toNat_addressOf (by omega), toNat_addressOf (by omega)]
  omega

/-- A place in the code of blocks is described by the nearest block and the distance from its start.
-/
theorem Ready.describe_eq (hj : j.Ready) (hlow : j.stubs.blocksStart ≤ o)
    (hhigh : o < j.code.cursor) :
    j.describe (addressOf o) = (j.blockAt? o).bind fun p => (j.blocks.get? p.1).map fun entry =>
      label p.1 entry.block.start (o - p.2) := by
  rw [describe, hj.stubs_describe hlow hhigh]
  dsimp only
  rw [offsetOf?_addressOf hj.size_le (Nat.lt_of_lt_of_le hhigh hj.high), Option.bind_eq_bind,
    Option.bind_some, if_neg (by omega)]
  cases j.blockAt? o with
  | none => rfl
  | some p =>
    cases hget : j.blocks.get? p.1 <;> simp [hget, label]

/-- An address among the blocks is attributed to the block on record that starts nearest. -/
theorem Tidy.describe_cases (hj : j.Tidy) (hlow : j.stubs.blocksStart ≤ o)
    (hhigh : o < j.code.cursor) :
    (j.describe (addressOf o) = none ∧ ∀ num x, j.extent? num = some x → o < x.low) ∨
      ∃ num x entry, j.Nearest o num x ∧ j.blocks.get? num = some entry ∧ entry.valid ∧
        j.describe (addressOf o) = some (label num entry.block.start (o - x.low)) := by
  -- the extents on record start where the search looks
  have hentries : ∀ {num x}, j.extent? num = some x → ∃ n, j.links.native? num = some n ∧
      x.low = n.low := by
    intro num x hx
    obtain ⟨n, hn⟩ := exists_native_of_extent? hx
    obtain ⟨_, _, -, -, hextent⟩ := hj.extent?_eq hn
    cases hextent.symm.trans hx
    exact ⟨n, hn, rfl⟩
  rw [hj.laid.ready.describe_eq hlow hhigh]
  rcases blockAt?_cases j o with ⟨hnone, hall⟩ | ⟨num, n, hblock, hn, hle, hall⟩
  · refine .inl ⟨by rw [hnone]; rfl, fun num x hx => ?_⟩
    obtain ⟨n, hn, heq⟩ := hentries hx
    rw [heq]
    exact hall num n hn
  · obtain ⟨entry, ps, hcopy, -, hextent⟩ := hj.extent?_eq hn
    obtain ⟨entry', _, hcopy', hvalid, -⟩ := (hj.tabled.native num n).mp hn
    cases hcopy.found.symm.trans hcopy'.found
    refine .inr ⟨num, _, entry, ⟨hextent, hle, fun num' x' hx' hle' => ?_⟩, hcopy.found, hvalid, ?_⟩
    · obtain ⟨n', hn', heq⟩ := hentries hx'
      rw [heq] at hle' ⊢
      exact hall num' n' hn' hle'
    · rw [hblock, Option.bind_some, hcopy.found]
      rfl

/-! ## Code that is left behind -/

variable {T : Body → Prop} {q r : Body}

/-- The code of a body, with its guard, takes in an offset. -/
def Covers (j : Jit) (q : Body) (o : Nat) : Prop :=
  copyLow j.layoutEnv q.target ≤ o ∧ o < copyStop j.layoutEnv q.target q.pieces

/-- A body is the code on record of its block. -/
def Current (j : Jit) (q : Body) : Prop :=
  ∃ n, j.links.native? q.num = some n ∧ n.target = q.target

/-- A body covers its start. -/
theorem covers_target (j : Jit) (q : Body) : j.Covers q q.target := by
  obtain ⟨hlow, hpos, hbody, -, hstop⟩ := q.bounds j.layoutEnv
  exact ⟨hlow, by omega⟩

/-- No two bodies cover one place. -/
theorem Retains.eq_of_covers (hr : j.Retains T) (hq : T q) (hT : T r) (hcovers : j.Covers q o)
    (hcovers' : j.Covers r o) : q = r := by
  obtain ⟨hlow, hstop⟩ := hcovers
  obtain ⟨hlow', hstop'⟩ := hcovers'
  rcases hr.apart q r hq hT with heq | hbefore | hbehind
  · exact heq
  · omega
  · omega

/-- The code on record of a block is a body. -/
theorem Tidy.exists_body (hj : j.Tidy) (hr : j.Retains T) (hx : j.extent? num = some x) :
    ∃ q entry, T q ∧ j.Current q ∧ q.num = num ∧ j.blocks.get? num = some entry ∧
      entry.block = q.block ∧ x.low = copyLow j.layoutEnv q.target ∧
      x.stop = copyStop j.layoutEnv q.target q.pieces := by
  obtain ⟨n, hn⟩ := exists_native_of_extent? hx
  obtain ⟨entry, ps, hcopy, hchecked, hextent⟩ := hj.extent?_eq hn
  cases hextent.symm.trans hx
  exact ⟨⟨num, entry.block, n.target, ps⟩, entry, hr.copies _ _ _ _ hcopy, ⟨n, hn, rfl⟩, rfl,
    hcopy.found, rfl, low_eq_copyLow hchecked, rfl⟩

/-- The extent on record of a current body is its own. -/
theorem Tidy.exists_extent (hj : j.Tidy) (hr : j.Retains T) (hq : T q) (hcurrent : j.Current q) :
    ∃ x entry, j.extent? q.num = some x ∧ j.blocks.get? q.num = some entry ∧
      entry.block = q.block ∧ x.low = copyLow j.layoutEnv q.target ∧
      x.stop = copyStop j.layoutEnv q.target q.pieces := by
  obtain ⟨n, hn, htarget⟩ := hcurrent
  obtain ⟨x, hx, -⟩ := hj.wellLaid.extent q.num n hn
  obtain ⟨r, entry, hT, ⟨n', hn', htarget'⟩, hnum, hfound, hblock, hlow, hstop⟩ :=
    hj.exists_body hr hx
  rw [hnum] at hn'
  cases hn.symm.trans hn'
  -- one target, one body
  have heq : q = r :=
    hr.eq_of_covers hq hT (covers_target j q) (htarget.symm.trans htarget' ▸ covers_target j r)
  subst heq
  exact ⟨x, entry, hx, hfound, hblock, hlow, hstop⟩

/-- An address in a body is attributed to the body if and only if the body is on record. -/
theorem Tidy.describe_body_iff (hj : j.Tidy) (hr : j.Retains T)
    (hlow : j.stubs.blocksStart ≤ o) (hhigh : o < j.code.cursor) (hq : T q)
    (hcovers : j.Covers q o) :
    j.describe (addressOf o) =
      some (label q.num q.block.start (o - copyLow j.layoutEnv q.target)) ↔ j.Current q := by
  have hle := hcovers.1
  constructor
  · intro hdescribe
    rcases hj.describe_cases hlow hhigh with ⟨hnone, -⟩ | ⟨num, x, entry, hnearest, -, -, hsome⟩
    · cases hnone.symm.trans hdescribe
    · obtain ⟨hnum, -, hdistance⟩ := label_inj (Option.some.inj (hsome.symm.trans hdescribe))
      obtain ⟨r, _, hT, hcurrent, -, -, -, hstart, hstop⟩ := hj.exists_body hr hnearest.extent
      have hxlow := hnearest.low
      have hinside := hj.wellLaid.inside num x hnearest.extent
      -- the two bodies start at one place
      have hcovers' : j.Covers r (copyLow j.layoutEnv q.target) := ⟨by omega, by omega⟩
      have heq := hr.eq_of_covers hq hT ⟨Nat.le_refl _, Nat.lt_of_le_of_lt hle hcovers.2⟩ hcovers'
      exact heq ▸ hcurrent
  · intro hcurrent
    obtain ⟨x, entry, hx, hfound, hblock, hstart, hstop⟩ := hj.exists_extent hr hq hcurrent
    have hown := hj.nearest_of_mem hx (hstart ▸ hle) (hstop ▸ hcovers.2)
    rcases hj.describe_cases hlow hhigh with
      ⟨-, hall⟩ | ⟨num, x', entry', hnearest, hfound', -, hsome⟩
    · exact absurd (hall q.num x hx) (Nat.not_lt.mpr hown.low)
    · obtain ⟨rfl, rfl⟩ := hj.nearest_unique hown hnearest
      cases hfound.symm.trans hfound'
      rw [hsome, hblock, hstart]

/-- Who is nearest to code that is not on record has its code in front of all of it. -/
theorem Tidy.stop_le_of_not_current (hj : j.Tidy) (hr : j.Retains T) (hq : T q)
    (hcovers : j.Covers q o) (hleft : ¬ j.Current q) (h : j.Nearest o num x) :
    x.stop ≤ copyLow j.layoutEnv q.target := by
  obtain ⟨r, _, hT, hcurrent, -, -, -, hstart, hstop⟩ := hj.exists_body hr h.extent
  have hlow := h.low
  have hhigh := hcovers.2
  rcases hr.apart r q hT hq with rfl | hbefore | hbehind
  · exact absurd hcurrent hleft
  · rw [hstop]
    exact hbefore
  · -- the code on record starts at or below the offset, so it is not behind the body
    omega

end

/-- Whose code an address among the blocks is said to be, after any operations.  The answer names
the block on record that starts nearest at or below the address, and how far that is; there is none
if no block on record does.  In code on record, that is the block whose code it is.  In the code of
any block compiled since the cache was last cleared, the answer is right if and only if that code is
on record; otherwise the code of the block that is named ends in front of it.  Where the code of the
block that is named does not reach the address, no code on record does. -/
theorem describe_nearest {config : Config} {table : HandlerTable} {host host' : Host} {j k : Jit}
    {ops : List Op} (hcreate : create config table host = .ok j host') (hk : k = j.applyAll ops)
    {o : Nat} (hlow : k.stubs.blocksStart ≤ o) (hhigh : o < k.code.cursor) :
    ((∃ num start d, k.describe (addressOf o) = some (label num start d)) ∨
      k.describe (addressOf o) = none ∧ ∀ num x, k.extent? num = some x → o < x.low) ∧
    (∀ num start d, k.describe (addressOf o) = some (label num start d) ↔
      ∃ x entry, k.Nearest o num x ∧ k.blocks.get? num = some entry ∧ entry.valid ∧
        entry.block.start = start ∧ x.low + d = o) ∧
    (∀ num x, k.extent? num = some x → x.low ≤ o → o < x.stop → k.Nearest o num x) ∧
    (∀ q, j.Bodies ops q → k.Covers q o →
      (k.describe (addressOf o) =
        some (label q.num q.block.start (o - copyLow k.layoutEnv q.target)) ↔ k.Current q) ∧
      (¬ k.Current q → ∀ num x, k.Nearest o num x → x.stop ≤ copyLow k.layoutEnv q.target)) ∧
    (∀ num x, k.Nearest o num x → x.stop ≤ o → ∀ num' x', k.extent? num' = some x' →
      x'.low ≤ o → x'.stop ≤ o) := by
  subst hk
  have htidy := tidy_applyAll hcreate ops
  have hretains := retains_applyAll hcreate ops
  have hcases := htidy.describe_cases hlow hhigh
  refine ⟨?_, fun num start d => ⟨fun hdescribe => ?_, ?_⟩, fun num x => htidy.nearest_of_mem,
    fun q hq hcovers => ⟨htidy.describe_body_iff hretains hlow hhigh hq hcovers,
      fun hleft num x => htidy.stop_le_of_not_current hretains hq hcovers hleft⟩,
    fun num x hnearest hstop num' x' hx' hlow' => Nat.le_of_not_lt fun hlt => ?_⟩
  · rcases hcases with hnone | ⟨num, x, entry, -, -, -, hsome⟩
    · exact .inr hnone
    · exact .inl ⟨num, entry.block.start, o - x.low, hsome⟩
  · rcases hcases with ⟨hnone, -⟩ | ⟨num', x, entry, hnearest, hfound, hvalid, hsome⟩
    · cases hnone.symm.trans hdescribe
    · obtain ⟨rfl, rfl, rfl⟩ := label_inj (Option.some.inj (hsome.symm.trans hdescribe))
      exact ⟨x, entry, hnearest, hfound, hvalid, rfl, Nat.add_sub_cancel' hnearest.low⟩
  · rintro ⟨x, entry, hnearest, hfound, -, rfl, rfl⟩
    rcases hcases with ⟨-, hall⟩ | ⟨num', x', entry', hnearest', hfound', -, hsome⟩
    · exact absurd (hall num x hnearest.extent) (Nat.not_lt.mpr hnearest.low)
    · obtain ⟨rfl, rfl⟩ := htidy.nearest_unique hnearest hnearest'
      cases hfound.symm.trans hfound'
      rw [hsome, Nat.add_sub_cancel_left]
  · have hnearest' := htidy.nearest_of_mem hx' hlow' hlt
    obtain ⟨-, rfl⟩ := htidy.nearest_unique hnearest hnearest'
    omega

/-- Two blocks, one behind the other. -/
def pairOps : List Op :=
  [.addAndCompile { start := 0x1000, insts := [{ op := .exitToConst, constant := 0x3000 }] },
   .addAndCompile { start := 0x2000, insts := [{ op := .exitToConst, constant := 0x3000 }] }]

/-- The code of the second block is still in the cache after one more operation. -/
theorem exists_second_body {host host' : Host} {j : Jit} {op : Op}
    (hcreate : create {} .default host = .ok j host') (htest :
      (((j.applyAll pairOps).blocks.get? 1).any fun entry =>
        decide (entry.target = some 0x1051) && decide (entry.block.start = 0x2000)) &&
      !(j.applyAll pairOps).clears op) :
    ∃ q, j.Bodies (pairOps ++ [op]) q ∧ q.num = 1 ∧ q.block.start = 0x2000 ∧ q.target = 0x1051 := by
  rw [Bool.and_eq_true, Option.any_eq_true, Bool.not_eq_true'] at htest
  obtain ⟨⟨entry, hfound, hentry⟩, hclears⟩ := htest
  rw [Bool.and_eq_true, decide_eq_true_eq, decide_eq_true_eq] at hentry
  obtain ⟨ps, hcopy⟩ := (tidy_applyAll hcreate pairOps).laid.pieces 1 entry 0x1051 hfound hentry.1
  refine ⟨⟨1, entry.block, 0x1051, ps⟩, ⟨pairOps, [op], rfl, ⟨entry, hcopy, rfl⟩, ?_⟩, rfl,
    hentry.2, rfl⟩
  simpa [clearsIn] using hclears

/-- The second of two blocks is compiled again.  An address in its old code is not attributed to
it. -/
theorem describe_nearest_recompiled :
    ∃ j host q, create {} .default {} = .ok j host ∧ j.Bodies (pairOps ++ [.compile 1]) q ∧
      q.num = 1 ∧ (j.applyAll (pairOps ++ [.compile 1])).Covers q 0x1051 ∧
      (j.applyAll (pairOps ++ [.compile 1])).stubs.blocksStart ≤ 0x1051 ∧
      0x1051 < (j.applyAll (pairOps ++ [.compile 1])).code.cursor ∧
      (j.applyAll (pairOps ++ [.compile 1])).describe (addressOf 0x1051) ≠
        some (label q.num q.block.start
          (0x1051 - copyLow (j.applyAll (pairOps ++ [.compile 1])).layoutEnv q.target)) := by
  have hruns : succeeds (create {} .default {}) (fun j _ =>
      (((j.applyAll pairOps).blocks.get? 1).any fun entry =>
        decide (entry.target = some 0x1051) && decide (entry.block.start = 0x2000)) &&
      !(j.applyAll pairOps).clears (.compile 1) &&
      decide ((j.applyAll (pairOps ++ [.compile 1])).stubs.blocksStart ≤ 0x1051) &&
      decide (0x1051 < (j.applyAll (pairOps ++ [.compile 1])).code.cursor) &&
      ((j.applyAll (pairOps ++ [.compile 1])).links.native? 1).all fun n =>
        decide (n.target ≠ 0x1051)) = true := by
    decide +kernel
  obtain ⟨j, host, hcreate, htests⟩ := exists_of_succeeds hruns
  rw [Bool.and_eq_true, Bool.and_eq_true, Bool.and_eq_true, decide_eq_true_eq, decide_eq_true_eq]
    at htests
  obtain ⟨⟨⟨hbody, hlow⟩, hhigh⟩, hmoved⟩ := htests
  obtain ⟨q, hq, hnum, -, htarget⟩ := exists_second_body hcreate hbody
  have hcovers : (j.applyAll (pairOps ++ [.compile 1])).Covers q 0x1051 :=
    htarget ▸ covers_target _ q
  obtain ⟨-, -, -, hbodies, -⟩ := describe_nearest hcreate rfl hlow hhigh
  refine ⟨j, host, q, hcreate, hq, hnum, hcovers, hlow, hhigh, fun hdescribe => ?_⟩
  obtain ⟨n, hn, hsame⟩ := (hbodies q hq hcovers).1.mp hdescribe
  rw [hnum] at hn
  rw [hn] at hmoved
  exact absurd (hsame.trans htarget) (by simpa using hmoved)

/-- The second of two blocks is invalidated.  An address in its code is then attributed to the first
block. -/
theorem describe_invalidated :
    ∃ j host q, create {} .default {} = .ok j host ∧ j.Bodies (pairOps ++ [.invalidate 1]) q ∧
      q.num = 1 ∧ q.block.start = 0x2000 ∧
      (j.applyAll (pairOps ++ [.invalidate 1])).Covers q 0x1051 ∧
      (j.applyAll (pairOps ++ [.invalidate 1])).describe (addressOf 0x1051) =
        some (label 0 0x1000 0x51) := by
  have hruns : succeeds (create {} .default {}) (fun j _ =>
      (((j.applyAll pairOps).blocks.get? 1).any fun entry =>
        decide (entry.target = some 0x1051) && decide (entry.block.start = 0x2000)) &&
      !(j.applyAll pairOps).clears (.invalidate 1) &&
      decide ((j.applyAll (pairOps ++ [.invalidate 1])).describe (addressOf 0x1051) =
        some (label 0 0x1000 0x51))) = true := by
    decide +kernel
  obtain ⟨j, host, hcreate, htests⟩ := exists_of_succeeds hruns
  rw [Bool.and_eq_true, decide_eq_true_eq] at htests
  obtain ⟨hbody, hdescribe⟩ := htests
  obtain ⟨q, hq, hnum, hstart, htarget⟩ := exists_second_body hcreate hbody
  exact ⟨j, host, q, hcreate, hq, hnum, hstart, htarget ▸ covers_target _ q, hdescribe⟩

end Jit

end Dynarec
