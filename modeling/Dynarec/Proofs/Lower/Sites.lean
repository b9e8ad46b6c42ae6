import Dynarec.Proofs.Code.Placed
import Dynarec.Proofs.Lower.Replay

/-!
# Machine code of pieces

A piece is assembled with symbolic branch targets.  In the machine code, the lead branches to the
fixed routines and to the end of the piece, and behind it stands the exit site (`flatten_finish`):
the jump of the exit, padded so that any other jump of an exit fits in its place.
-/

namespace Dynarec

open Lower CodeCache

namespace Lower

/-- The code of an exit site that can be linked: the jump of the exit, and padding. -/
def linkCode (stubs : Stubs) (pc : UInt32) (target : Option UInt64) : List Insn :=
  exitJump stubs pc target ++
    List.replicate (exitSiteLen - codeSize (exitJump stubs pc target)) .int3

/-- The code of an exit site. -/
def siteCode (env : LowerEnv) (pc : UInt32) : List Insn :=
  if env.config.blockLink then linkCode env.stubs pc (env.linked pc)
  else exitJump env.stubs pc none

/-- All jumps of exits are padded to one length. -/
theorem codeSize_linkCode (stubs : Stubs) (pc : UInt32) (target : Option UInt64) :
    codeSize (linkCode stubs pc target) = exitSiteLen := by
  rw [linkCode, Insn.codeSize_append, Insn.codeSize_replicate_int3, codeSize_exitJump]
  cases target <;> rfl

/-- An exit site has the length that the settings give it. -/
theorem codeSize_siteCode (env : LowerEnv) (pc : UInt32) :
    codeSize (siteCode env pc) = siteLen env.config := by
  rw [siteCode, siteLen]
  split
  · exact codeSize_linkCode _ _ _
  · rfl

end Lower

namespace Piece

/-- The code of a piece as it stands in the cache, with its exit site. -/
def whole (env : LowerEnv) (p : Piece) : List Insn :=
  p.code env.config ++ (p.inst.exitDest?.map (siteCode env)).getD []

/-- A piece ends behind its site. -/
theorem start_add_codeSize_whole (env : LowerEnv) (p : Piece) :
    p.start + codeSize (p.whole env) = p.stop env.config := by
  rw [whole, Insn.codeSize_append, code, codeSize_map_mapTarget, stop, site, ← Nat.add_assoc]
  cases p.inst.exitDest? with
  | none => rfl
  | some pc =>
    show _ + codeSize (siteCode env pc) = _
    rw [codeSize_siteCode]
    rfl

end Piece

namespace Lower

/-- What the code of a block may branch to is in the code region. -/
structure Reaches (env : LowerEnv) : Prop where
  stubs : ∀ a ∈ env.stubs.targets, codeBase ≤ a
  linked : ∀ pc a, env.linked pc = some a → codeBase ≤ a

variable {env : LowerEnv}

/-- An exit branches to its target or to a fixed routine. -/
theorem target_of_mem_exitJump {stubs : Stubs} {pc : UInt32} {target : Option UInt64} {k : Insn}
    (hk : k ∈ exitJump stubs pc target) {t : UInt64} (ht : k.target? = some t) :
    target = some t ∨ t ∈ stubs.targets := by
  cases target with
  | none =>
    simp only [exitJump, List.mem_cons, List.not_mem_nil, or_false] at hk
    rcases hk with rfl | rfl
    · cases ht
    · cases ht
      exact .inr (by simp [Stubs.targets])
  | some a =>
    obtain rfl := List.mem_singleton.mp hk
    exact .inl ht

/-- The jump of an exit goes into the region if its target is there. -/
theorem branchesFar_exitJump (henv : Reaches env) (pc : UInt32) {target : Option UInt64}
    (htarget : ∀ a, target = some a → codeBase ≤ a) :
    BranchesFar (exitJump env.stubs pc target) :=
  fun _ hk t ht => (target_of_mem_exitJump hk ht).elim (htarget t) (henv.stubs t)

/-- So does the jump that an exit site starts with. -/
theorem branchesFar_siteJump (henv : Reaches env) (pc : UInt32) : BranchesFar (siteJump env pc) := by
  refine branchesFar_exitJump henv pc fun a ha => ?_
  split at ha
  · exact henv.linked pc a ha
  · cases ha

/-! ## Resolving targets -/

/-- Addresses in the code region are no labels. -/
theorem resolve_of_far {items : List Item} (hlabels : ∀ s ∈ Item.symbols items, s < codeBase)
    {t : UInt64} (ht : codeBase ≤ t) (ip : UInt64) :
    Item.resolve ip (Item.layout 0 items) t = t := by
  refine Item.resolve_of_notMem ?_ (fun hmem => ?_) ip
  · rintro rfl
    exact absurd ht (by decide)
  · exact absurd (hlabels t hmem) (UInt64.not_lt.mpr ht)

/-- Assembling leaves branches into the region as they are. -/
theorem map_resolve_of_branchesFar {items : List Item} {code : List Insn}
    (hlabels : ∀ s ∈ Item.symbols items, s < codeBase) (hcode : BranchesFar code) (ip : UInt64) :
    code.map (Insn.mapTarget (Item.resolve ip (Item.layout 0 items))) = code := by
  calc code.map (Insn.mapTarget (Item.resolve ip (Item.layout 0 items))) = code.map fun k => k :=
      List.map_congr_left fun k hk => (Insn.mapTarget_congr fun t ht =>
        resolve_of_far hlabels (hcode k hk t ht) ip).trans k.mapTarget_id
    _ = code := List.map_id' code

/-- The code of instructions without labels is the instructions, with their targets resolved. -/
theorem flatMap_flatten_insns (resolve : UInt64 → UInt64) (code : List Insn) :
    (code.map Item.insn).flatMap (Item.flatten resolve) = code.map (Insn.mapTarget resolve) := by
  induction code with
  | nil => rfl
  | cons k code ih => simp [Item.flatten, ih]

theorem symbols_insns (code : List Insn) : Item.symbols (code.map .insn) = [] := by
  induction code with
  | nil => rfl
  | cons k code ih => simpa [Item.symbols] using ih

/-- Code without labels is assembled as it stands. -/
theorem flatten_insns {code : List Insn} (hcode : BranchesFar code) (ip : UInt64) :
    (code.map Item.insn).flatMap
      (Item.flatten (Item.resolve ip (Item.layout 0 (code.map .insn)))) = code := by
  rw [flatMap_flatten_insns]
  exact map_resolve_of_branchesFar (by simp [symbols_insns]) hcode ip

theorem size_insns (code : List Insn) :
    ((code.map Item.insn).map Item.size).sum = codeSize code := by
  induction code with
  | nil => rfl
  | cons i is ih =>
    rw [List.map_cons, List.map_cons, List.sum_cons, ih]
    rfl

/-- Instructions alone are assembled by an empty assembler, which is empty again afterwards. -/
theorem assemble_insns (is : List Insn) (ip : UInt64) :
    (is.foldl Assembler.emit .empty).assemble ip [] =
      (Assembler.assembleItems (is.map Item.insn) ip [], .empty) := by
  rw [Emit.foldl_emit, Assembler.assemble]
  cases is <;> rfl

/-- Instructions that branch into the region are assembled as they stand. -/
theorem assembleItems_insns {is : List Insn} (hfar : BranchesFar is) {ip : UInt64}
    {bs : List UInt8} (hbs : Insn.encodeList? ip is = some bs) :
    Assembler.assembleItems (is.map Item.insn) ip [] = .ok { bytes := bs, labels := [] } := by
  refine Assembler.assembleItems_eq_ok.mpr ⟨?_, rfl⟩
  rw [flatten_insns hfar]
  exact hbs

/-- Code that can be measured has as many bytes as its instructions. -/
theorem eq_codeSize_of_measureAt {ip : UInt64} {is : List Insn} {len : Nat}
    (h : Assembler.measureAt ip is = .ok len) : len = codeSize is := by
  rw [Assembler.measureAt, assemble_insns] at h
  cases hcode : Assembler.assembleItems (is.map Item.insn) ip [] with
  | error e =>
    rw [hcode] at h
    cases h
  | ok code =>
    rw [hcode] at h
    cases h
    obtain ⟨hbytes, -⟩ := Assembler.assembleItems_eq_ok.mp hcode
    show code.bytes.length = codeSize is
    rw [Insn.length_of_encodeList? hbytes, Item.codeSize_flatMap_flatten, size_insns]

/-- Code that can be encoded can be measured. -/
theorem measureAt_of_encodeList? {is : List Insn} (hfar : BranchesFar is) {ip : UInt64}
    {bs : List UInt8} (hbs : Insn.encodeList? ip is = some bs) :
    Assembler.measureAt ip is = .ok (codeSize is) := by
  rw [Assembler.measureAt, assemble_insns, assembleItems_insns hfar hbs,
    ← Insn.length_of_encodeList? hbs]
  rfl

/-! ## Pieces with an exit site -/

section

variable {i : Inst} {m n : RegMap} {lead : List Insn} {pc : UInt32}

/-- The items of a piece with an exit site. -/
def exitItems (env : LowerEnv) (i : Inst) (lead : List Insn) (pc : UInt32) : List Item :=
  lead.map .insn ++ siteItems env pc (siteLabel i) ++ siteTail i

/-- The items of an exit site have its length. -/
theorem size_siteItems (env : LowerEnv) (pc : UInt32) (site : Label) :
    ((siteItems env pc site).map Item.size).sum = siteLen env.config := by
  have hlt := codeSize_siteJump_lt env pc
  rw [siteItems, List.map_cons, List.sum_cons, List.map_append, List.sum_append, size_insns,
    siteLen]
  cases hlink : env.config.blockLink with
  | false =>
    simp [Item.size, siteJump, hlink]
    rfl
  | true =>
    simp [Item.size]
    omega

/-- They bear the label of the site only. -/
theorem symbols_siteItems (env : LowerEnv) (pc : UInt32) (site : Label) :
    Item.symbols (siteItems env pc site) = [site.symbol] := by
  rw [siteItems, Item.symbols, Item.symbols_append, symbols_insns]
  split <;> rfl

/-- The items of an exit bear the label of the site, and a conditional exit also that behind it. -/
theorem symbols_exitItems (env : LowerEnv) (i : Inst) (lead : List Insn) (pc : UInt32) :
    Item.symbols (exitItems env i lead pc) = if i.op = .exitToConst then [1] else [2, 1] := by
  rw [exitItems, Item.symbols_append, Item.symbols_append, symbols_insns, symbols_siteItems,
    siteLabel, siteTail]
  split <;> rfl

/-- These labels are below the region, so that no branch into it is taken for one to a label. -/
theorem symbols_exitItems_lt (env : LowerEnv) (i : Inst) (lead : List Insn) (pc : UInt32) :
    ∀ s ∈ Item.symbols (exitItems env i lead pc), s < codeBase := by
  rw [symbols_exitItems]
  split <;> exact List.all_iff_forall_prop.mp (by decide)

/-- The end of a piece is where its branch over the site goes. -/
theorem resolve_skip (hop : i.op ≠ .exitToConst) (env : LowerEnv) (lead : List Insn) (pc : UInt32)
    (start : Nat) :
    Item.resolve (addressOf start) (Item.layout 0 (exitItems env i lead pc)) skipLabel.symbol =
      addressOf (start + codeSize lead + siteLen env.config) := by
  have hitems : exitItems env i lead pc =
      (lead.map .insn ++ siteItems env pc (siteLabel i)) ++ .mark skipLabel :: [] := by
    rw [exitItems, siteTail, if_neg hop]
  have hbefore : ∀ k ∈ lead.map .insn ++ siteItems env pc (siteLabel i),
      k.symbol ≠ skipLabel.symbol := by
    refine Item.symbol_ne_of_notMem (by decide) ?_
    rw [Item.symbols_append, symbols_insns, symbols_siteItems, siteLabel, if_neg hop]
    decide
  rw [hitems, Item.resolve_mark hbefore (by simp), List.map_append, List.sum_append, size_insns,
    size_siteItems, ← addressOf_add, Nat.add_assoc]

/-- The machine code of a piece with an exit site. -/
theorem flatten_exitItems (henv : Reaches env) (hmakes : Makes env i m lead n) (start : Nat) :
    (exitItems env i lead pc).flatMap
        (Item.flatten (Item.resolve (addressOf start) (Item.layout 0 (exitItems env i lead pc)))) =
      lead.map (Insn.mapTarget (skipTo (start + codeSize lead + siteLen env.config))) ++
        siteCode env pc := by
  have hlabels := symbols_exitItems_lt env i lead pc
  have hsite : (siteItems env pc (siteLabel i)).flatMap
      (Item.flatten (Item.resolve (addressOf start) (Item.layout 0 (exitItems env i lead pc)))) =
        siteCode env pc := by
    rw [siteItems, List.flatMap_cons, List.flatMap_append, flatMap_flatten_insns,
      map_resolve_of_branchesFar hlabels (branchesFar_siteJump henv pc), siteCode]
    cases hlink : env.config.blockLink <;> simp [Item.flatten, siteJump, linkCode, hlink]
  -- behind the site there is a label at most
  have htail : ∀ resolve, (siteTail i).flatMap (Item.flatten resolve) = [] := by
    intro resolve
    rw [siteTail]
    split <;> rfl
  -- the lead branches into the region, or over the site to the end of the piece
  have hlead : lead.map
      (Insn.mapTarget (Item.resolve (addressOf start) (Item.layout 0 (exitItems env i lead pc)))) =
        lead.map (Insn.mapTarget (skipTo (start + codeSize lead + siteLen env.config))) := by
    refine List.map_congr_left fun k hk => Insn.mapTarget_congr fun t ht => ?_
    rcases hmakes.branches k hk t ht with hfar | ⟨-, hop, rfl⟩
    · rw [resolve_of_far hlabels hfar, skipTo_of_le hfar]
    · rw [resolve_skip hop, skipTo, if_pos rfl]
  generalize Item.resolve (addressOf start) (Item.layout 0 (exitItems env i lead pc)) = resolve
    at hsite hlead ⊢
  rw [exitItems, List.flatMap_append, List.flatMap_append, flatMap_flatten_insns, hlead, hsite,
    htail, List.append_nil]

end

end Lower

end Dynarec
