import Dynarec.Proofs.Jit.Recorded

/-!
# No exit leads to stale code

An exit site of a valid block need not be on record: when a block is invalidated, the exits to its
address are forgotten while the jumps stay.  `Jit.Accounted` says what such a site may hold: a jump
to the dispatcher, or a jump to the guard of an invalid block that stood for the address.  The body
behind that guard has been redirected, unless it is at address zero, and nothing is written over it
while the block has a target.

Shape of the argument:

1. one lemma for each kind of change says that `Accounted` is kept.  Invalidating is the step at
   which sites fall off the record, and compiling is the one at which they get on it;
2. a site on record is linked to the block that stands for its address now (`Jit.RecordsLinked`),
   and a site that is not leads to the dispatcher or to address zero (`Accounted.exit_cases`);
3. as long as no block at address zero is invalidated, all invalid blocks could be redirected
   (`Jit.Fresh`), so no exit leads to stale code.
-/

namespace Dynarec

open Lower Dynarec.Action CodeCache

namespace Jit

/-- Whether a block may be invalidated: it is valid and does not start at address zero, where it
could not be redirected. -/
def MayInvalidate (entry : BlockEntry) : Prop :=
  entry.valid ∧ entry.block.start ≠ 0

instance : DecidablePred MayInvalidate := fun entry =>
  inferInstanceAs (Decidable (entry.valid ∧ entry.block.start ≠ 0))

/-- The exit site of a piece of a block is on record. -/
def OnRecord (j : Jit) (num : Nat) (p : Piece) (pc : UInt32) : Prop :=
  ∃ e ∈ j.links.exitsOf num, e.offset = p.site ∧ e.dest = pc

/-- An exit site that is not on record: it leads to the dispatcher, or to the guard of an invalid
block that stood for its address. -/
inductive Detached (j : Jit) (p : Piece) (pc : UInt32) : Prop
  | dispatched (hheld : j.code.Holds p.site (redirect j.stubs pc))
  | redirected {num : Nat} {entry : BlockEntry} {t : Nat} {ps : List Piece}
    (hlink : j.config.blockLink) (hcopy : j.Copy num entry t ps) (hinvalid : entry.valid = false)
    (hstart : entry.block.start = pc)
    (hheld : j.code.Holds p.site [.jmp (addressOf (checkedAt j.layoutEnv t ps))])

/-- Exit sites of valid blocks are on record or detached. -/
def Accounted (j : Jit) : Prop :=
  ∀ num entry t ps, j.Copy num entry t ps → entry.valid → ∀ p ∈ ps, ∀ pc,
    p.inst.exitDest? = some pc → j.OnRecord num p pc ∨ j.Detached p pc

/-- Invalid blocks could be redirected, and exit sites of valid blocks are on record or lead to the
dispatcher. -/
structure Fresh (j : Jit) : Prop where
  nonzero : ∀ num entry t ps, j.Copy num entry t ps → entry.valid = false → entry.block.start ≠ 0
  sites : j.Accounted

section

variable {j k l : Jit} {num : Nat} {entry : BlockEntry} {t : Nat} {ps : List Piece} {p : Piece}
  {pc : UInt32}

/-- The code of an exit fits its site. -/
theorem site_add_le (config : Config) (hdest : p.inst.exitDest? = some pc) :
    p.site + 10 ≤ p.stop config := by
  rw [Piece.stop_of_exitDest hdest, siteLen]
  split
  · exact Nat.add_le_add_left (by decide) _
  · exact Nat.le_refl _

/-- A site stays detached when its code and the copies of invalid blocks stay. -/
theorem Detached.kept (h : j.Detached p pc) (hdest : p.inst.exitDest? = some pc)
    (hconfig : k.config = j.config) (htable : k.table = j.table) (hstubs : k.stubs = j.stubs)
    (hcopy : ∀ num entry t ps, j.Copy num entry t ps → entry.valid = false → k.Copy num entry t ps)
    (hholds : ∀ is, j.code.Holds p.site is → p.site + codeSize is ≤ p.stop j.config →
      k.code.Holds p.site is) : k.Detached p pc := by
  have hfits := site_add_le j.config hdest
  cases h with
  | dispatched hheld =>
    refine .dispatched ?_
    rw [hstubs]
    exact hholds _ hheld hfits
  | redirected hlink hcopy' hinvalid hstart hheld =>
    refine .redirected (by rw [hconfig]; exact hlink) (hcopy _ _ _ _ hcopy' hinvalid) hinvalid hstart
      ?_
    rw [layoutEnv_eq hconfig htable hstubs]
    refine hholds _ hheld (Nat.le_trans (Nat.add_le_add_left ?_ _) hfits)
    change 5 ≤ 10
    decide

/-! ## Changes of the tables and behind the cursor -/

/-- Writing behind the cursor keeps all exits accounted for. -/
theorem Accounted.grows (hj : j.Accounted) (hl : j.Laid) (h : j.Grows k) : k.Accounted := by
  intro num entry t ps hk hvalid p hp pc hdest
  have hcopy := h.copy hk
  rcases hj num entry t ps hcopy hvalid p hp pc hdest with hrecord | hdetached
  · left
    rw [OnRecord, h.links]
    exact hrecord
  · right
    refine hdetached.kept hdest h.config h.table h.stubs ?_ ?_
    · intro num entry t ps hcopy' _
      exact hcopy'.congr h.layoutEnv_eq (by rw [h.blocks])
    · intro is hheld hfits
      exact h.code.holds hheld (Nat.le_trans hfits (hl.stop_le_cursor hcopy hp))

/-- After clearing, no block has code. -/
theorem Cleared.no_copy (h : j.Cleared k) : ¬ k.Copy num entry t ps := by
  intro hk
  have hfound := hk.found
  rw [h.blocks, Blocks.get?_resetTargets] at hfound
  obtain ⟨entry', -, rfl⟩ := Option.map_eq_some_iff.mp hfound
  cases hk.target

/-- Without code there are no exits to account for. -/
theorem fresh_of_no_copy (h : ∀ {num entry t ps}, ¬ j.Copy num entry t ps) : j.Fresh :=
  ⟨fun _ _ _ _ hcopy => absurd hcopy h, fun _ _ _ _ hcopy => absurd hcopy h⟩

/-- So there are none at the start. -/
theorem Created.fresh {config : Config} {table : HandlerTable} (hj : Created config table j) :
    j.Fresh := by
  refine fresh_of_no_copy fun {num entry t ps} hcopy => ?_
  have hfound := hcopy.found
  rw [hj.blocks] at hfound
  cases hfound

/-- Registering a block keeps all exits accounted for. -/
theorem Accounted.added (hj : j.Accounted) (b : Block) :
    ({ j with blocks := (j.blocks.add b).2 } : Jit).Accounted := by
  intro num entry t ps hk hvalid p hp pc hdest
  rcases hj num entry t ps (copy_add.mp hk) hvalid p hp pc hdest with hrecord | hdetached
  · exact .inl hrecord
  · refine .inr (hdetached.kept hdest rfl rfl rfl ?_ fun _ hheld _ => hheld)
    exact fun num entry t ps hcopy _ => copy_add.mpr hcopy

/-! ## Invalidating a block -/

/-- A site on record that falls off it with the block it leads to is detached. -/
theorem detached_of_forgotten (ho : j.Orderly) (h : j.Invalidated k num entry) (hvalid : entry.valid)
    {m : Nat} {e : BlockEntry} {t' : Nat} {ps' : List Piece} (hcopy : j.Copy m e t' ps')
    (hm : m ≠ num) (hp : p ∈ ps') (hdest : p.inst.exitDest? = some entry.block.start)
    (hrecord : j.OnRecord m p entry.block.start) : k.Detached p entry.block.start := by
  obtain ⟨x, hx, hoffset, hpc⟩ := hrecord
  have hheld := ho.linked m x hx trivial
  rw [hoffset, hpc, linkTarget_eq_nativeAt, linkCode] at hheld
  have hfits := site_add_le j.config hdest
  have hstays : ∀ {is : List Insn}, j.code.Holds p.site is → codeSize is ≤ 10 →
      k.code.Holds p.site is := fun hheld' hlen =>
    h.holds_piece ho.laid hcopy hm hp hheld' p.start_le_site (by omega)
  have hstands := (ho.tabled.standing entry.block.start num).mpr ⟨entry, h.found, hvalid, rfl⟩
  -- A site on record jumps to the dispatcher, or to the guard of the block that is invalidated.
  cases hn : j.nativeAt entry.block.start with
  | none =>
    rw [hn] at hheld
    refine .dispatched ?_
    rw [h.stubs]
    exact hstays hheld.left (Nat.le_refl 10)
  | some n =>
    have hnative : j.links.native? num = some n := by
      rw [nativeAt, hstands] at hn
      exact hn
    obtain ⟨e', ps₀, hcopy₀, -, hchecked⟩ := (ho.tabled.native num n).mp hnative
    obtain rfl : e' = entry := Option.some.inj (hcopy₀.found.symm.trans h.found)
    obtain ⟨hlink, -⟩ := ho.tabled.recorded m x hx
    have hinvalid : k.Copy num { e' with valid := false } n.target ps₀ := by
      refine ⟨?_, hcopy₀.target, by rw [h.layoutEnv_eq]; exact hcopy₀.pieces⟩
      rw [h.blocks, Blocks.get?_invalidate, if_pos rfl, h.found]
      rfl
    rw [hn] at hheld
    refine .redirected (by rw [h.config]; exact hlink) hinvalid rfl rfl ?_
    rw [h.layoutEnv_eq, ← hchecked]
    refine hstays hheld.left ?_
    change 5 ≤ 10
    decide

/-- So does invalidating a valid block. -/
theorem Accounted.invalidated (hj : j.Accounted) (ho : j.Orderly) (h : j.Invalidated k num entry)
    (hvalid : entry.valid) : k.Accounted := by
  intro m e t ps hk hvalid' p hp pc hdest
  obtain ⟨hm, hcopy⟩ := h.copy_of_valid hk hvalid'
  rcases hj m e t ps hcopy hvalid' p hp pc hdest with hrecord | hdetached
  · by_cases hpc : pc = entry.block.start
    · subst hpc
      exact .inr (detached_of_forgotten ho h hvalid hcopy hm hp hdest hrecord)
    · obtain ⟨x, hx, hoffset, rfl⟩ := hrecord
      exact .inl ⟨x, (h.mem_exitsOf ho.tabled).mpr ⟨hm, hx, hpc⟩, hoffset, rfl⟩
  · refine .inr (hdetached.kept hdest h.config h.table h.stubs ?_ ?_)
    · intro m' e' t' ps' hcopy' hinvalid
      refine h.copy_other hcopy' ?_
      rintro rfl
      cases h.found.symm.trans hcopy'.found
      rw [hinvalid] at hvalid
      cases hvalid
    · exact fun is hheld hfits =>
        h.holds_piece ho.laid hcopy hm hp hheld p.start_le_site hfits

/-! ## Compiling and linking a block -/

/-- The exit sites of a block that has just been compiled are on record, if exits are linked. -/
theorem Compiled.onRecord {n : Native} {b : Block} (h : j.Compiled l num b n ps)
    (hlink : j.config.blockLink) (hp : p ∈ ps) (hdest : p.inst.exitDest? = some pc) :
    l.OnRecord num p pc := by
  refine ⟨{ owner := num, dest := pc, offset := p.site, len := exitSiteLen }, ?_, rfl, rfl⟩
  rw [h.exitsOf_eq, if_pos rfl, stagedOf, if_pos hlink]
  refine List.mem_map.mpr ⟨{ dest := pc, offset := p.site, len := exitSiteLen }, ?_, rfl⟩
  refine List.mem_filterMap.mpr ⟨p, hp, ?_⟩
  rw [hdest]
  rfl

/-- So does compiling a block, whose exits are staged. -/
theorem Accounted.compiled {n : Native} (hj : j.Accounted) (hl : j.Laid)
    (hfound : j.blocks.get? num = some entry) (hvalid : entry.valid)
    (h : j.Compiled l num entry.block n ps) : l.Accounted := by
  intro m e t ps' hk hvalid' p hp pc hdest
  obtain ⟨rfl, rfl, rfl, rfl⟩ | ⟨hm, hcopy⟩ := h.copy_cases hfound hk
  · -- exits of the new copy are staged, or were written to lead to the dispatcher
    by_cases hlink : j.config.blockLink
    · exact .inl (h.onRecord hlink hp hdest)
    · have hsite := (h.written.held p hp).site pc hdest
      rw [siteCode, if_neg (show ¬ j.lowerEnv.config.blockLink from hlink)] at hsite
      refine .inr (.dispatched ?_)
      rw [h.stubs]
      exact hsite
  · rcases hj m e t ps' hcopy hvalid' p hp pc hdest with ⟨x, hx, hrest⟩ | hdetached
    · left
      refine ⟨x, ?_, hrest⟩
      rw [h.exitsOf_eq, if_neg hm]
      exact hx
    · refine .inr (hdetached.kept hdest h.config h.table h.stubs ?_ ?_)
      · intro m' e' t' ps₂ hcopy' hinvalid
        refine (h.copy_other ?_).mpr hcopy'
        rintro rfl
        cases hfound.symm.trans hcopy'.found
        exact absurd (hvalid.symm.trans hinvalid) (by decide)
      · exact fun is hheld hfits =>
          h.code.holds hheld (Nat.le_trans hfits (hl.stop_le_cursor hcopy hp))

/-- So does linking all exits to an address. -/
theorem Accounted.relinked {start : UInt32} {a : UInt64} (hj : j.Accounted) (hl : j.Laid)
    (ht : j.Tabled) (h : j.Relinked k (j.links.exitsTo start) a) : k.Accounted := by
  intro num entry t ps hk hvalid p hp pc hdest
  have hcopy := h.copy.mp hk
  rcases hj num entry t ps hcopy hvalid p hp pc hdest with hrecord | hdetached
  · left
    rw [OnRecord, h.links]
    exact hrecord
  · by_cases hrecord : j.OnRecord num p pc
    · left
      rw [OnRecord, h.links]
      exact hrecord
    · -- only sites on record have been written
      refine .inr (hdetached.kept hdest h.config h.table h.stubs
        (fun _ _ _ _ hcopy' _ => h.copy.mpr hcopy') ?_)
      intro is hheld hfits
      refine hheld.congr h.size fun x hlow hhigh => h.byte x fun e he => ?_
      have hmem := (ht.indexed.mem_exitsTo.mp he).1
      obtain ⟨hlink, _, _, _, p', hcopy', -, hp', hdest', hoffset, -⟩ :=
        ht.recorded e.owner e hmem
      have hstop' := stop_of_blockLink hlink hdest'
      have hstart := p.start_le_site
      have hstart' := p'.start_le_site
      rcases hl.apart_pieces hcopy hp hcopy' hp' with ⟨rfl, rfl⟩ | hapart
      · exact absurd ⟨e, hmem, hoffset, Option.some.inj (hdest'.symm.trans hdest)⟩ hrecord
      · omega

section

variable {allowed : BlockEntry → Prop} {wanted : Block → Prop}

/-- Every change that is not refused keeps exits accounted for, if only valid blocks are
invalidated. -/
theorem Accounted.change (hj : j.Accounted) (ho : j.Orderly) (hallowed : ∀ e, allowed e → e.valid)
    (h : Change allowed wanted j k) (hunrefused : k.Unrefused) : k.Accounted := by
  cases h with
  | grows hgrows hdraft => exact hj.grows ho.laid hgrows
  | cleared hcleared => exact fun _ _ _ _ hcopy => absurd hcopy hcleared.no_copy
  | linked hfound hvalid hcompiled hlinked =>
    exact (hj.compiled ho.laid hfound hvalid hcompiled).relinked
      (ho.laid.compiled hfound hcompiled) (ho.tabled.compiled hfound hvalid hcompiled) hlinked
  | torn _ _ _ _ hrefused => exact absurd hunrefused hrefused
  | invalidated hvictim hinvalidated => exact hj.invalidated ho hinvalidated (hallowed _ hvictim)
  | added _ hfree hadded =>
    subst hadded
    exact hj.added _

/-- So does every change that the platform does not refuse. -/
theorem Accounted.changes (hj : j.Accounted) (ho : j.Orderly) (hallowed : ∀ e, allowed e → e.valid)
    (h : Changes allowed wanted j k) (hunrefused : k.Unrefused) : k.Accounted := by
  induction h with
  | refl => exact hj
  | tail hfirst hlast ih =>
    have hbefore := hunrefused.of_later hlast.logged.later
    exact (ih hbefore).change (ho.changes hfirst hbefore) hallowed hlast.change hunrefused

/-- Every change keeps invalid blocks away from address zero, if no block there is invalidated. -/
theorem Change.nonzero
    (hj : ∀ num entry t ps, j.Copy num entry t ps → entry.valid = false → entry.block.start ≠ 0)
    (hallowed : ∀ e, allowed e → e.block.start ≠ 0) (h : Change allowed wanted j k) :
    ∀ num entry t ps, k.Copy num entry t ps → entry.valid = false → entry.block.start ≠ 0 := by
  intro m e t ps hk hinvalid
  have hcompiled : ∀ {num entry n ps' l}, j.blocks.get? num = some entry → entry.valid →
      j.Compiled l num entry.block n ps' → l.Copy m e t ps → e.block.start ≠ 0 := by
    intro num entry n ps' l hfound hvalid h hl
    obtain ⟨-, rfl, -, -⟩ | ⟨-, hcopy⟩ := h.copy_cases hfound hl
    · exact absurd (hvalid.symm.trans hinvalid) (by decide)
    · exact hj m e t ps hcopy hinvalid
  cases h with
  | grows hgrows hdraft => exact hj m e t ps (hgrows.copy hk) hinvalid
  | cleared hcleared => exact absurd hk hcleared.no_copy
  | linked hfound hvalid h hlinked => exact hcompiled hfound hvalid h (hlinked.copy.mp hk)
  | torn hfound hvalid h hresited => exact hcompiled hfound hvalid h (hresited.copy.mp hk)
  | @invalidated num entry hvictim h =>
    obtain ⟨e', hcopy, hblock, hother, -⟩ := h.copy hk
    by_cases hm : m = num
    · subst hm
      obtain rfl : e' = entry := Option.some.inj (hcopy.found.symm.trans h.found)
      rw [hblock]
      exact hallowed _ hvictim
    · obtain rfl := hother hm
      exact hj m e t ps hcopy hinvalid
  | added _ hfree hadded =>
    subst hadded
    exact hj m e t ps (copy_add.mp hk) hinvalid

end

/-- Every change that is not refused keeps exits from stale code. -/
theorem Fresh.change {wanted : Block → Prop} (hj : j.Fresh) (ho : j.Orderly)
    (h : Change MayInvalidate wanted j k) (hunrefused : k.Unrefused) : k.Fresh :=
  ⟨h.nonzero hj.nonzero fun _ => And.right, hj.sites.change ho (fun _ => And.left) h hunrefused⟩

/-- Changes that invalidate only valid blocks off address zero keep a state fresh. -/
theorem Fresh.changes {wanted : Block → Prop} (hj : j.Fresh) (ho : j.Orderly)
    (h : Changes MayInvalidate wanted j k) (hunrefused : k.Unrefused) : k.Fresh := by
  induction h with
  | refl => exact hj
  | tail hfirst hlast ih =>
    have hbefore := hunrefused.of_later hlast.logged.later
    exact (ih hbefore).change (ho.changes hfirst hbefore) hlast.change hunrefused

/-! ## Where exits lead -/

/-- The code at an offset leads to a guest address: to the dispatcher, or to a guard that leads to
the outer loop or to a body.  The body is that of the block that stands for the address, or it has
been redirected to the dispatcher. -/
inductive ExitLeads (j : Jit) (pc : UInt32) (offset : Nat) : Prop
  | dispatched
    (hjump : j.code.Holds offset [.mov32i Gpr.rax pc, .jmp j.stubs.dispatcherPc])
  | guarded {guard body : Nat}
    (hjump : j.code.Holds offset [.jmp (addressOf guard)])
    (hguard : j.code.Holds guard [testDowncount j.config.staticAlloc,
      .jcc .notSign (addressOf body), .mov32i Gpr.rax pc, .jmp j.stubs.outerLoopPc])
    (hbody : j.lookup pc = some (addressOf body) ∨
      j.code.Holds body [.mov32i Gpr.rax pc, .jmp j.stubs.dispatcherPc])

/-- The entry of a valid block is what looking up its address gives. -/
theorem lookup_of_nativeAt (ht : j.Tabled) {n : Native} (hn : j.nativeAt pc = some n) :
    j.lookup pc = some (addressOf n.target) := by
  obtain ⟨num, hfind, hnative⟩ := Option.bind_eq_some_iff.mp hn
  obtain ⟨entry, hfound, hvalid, -⟩ := (ht.standing pc num).mp hfind
  rw [lookup, hfind, Option.bind_some, entryAddress, hfound]
  simp only [Option.bind_eq_bind, Option.bind_some]
  rw [if_pos hvalid, nativeEntry, hnative]
  rfl

/-- The compiled block that stands for an address is entered through its guard. -/
theorem guard_of_nativeAt (ho : j.Orderly) (hlink : j.config.blockLink) {n : Native}
    (hn : j.nativeAt pc = some n) :
    j.code.Holds n.checked (guardCode j.layoutEnv pc (addressOf n.target)) := by
  obtain ⟨num, hfind, hnative⟩ := Option.bind_eq_some_iff.mp hn
  obtain ⟨entry, hfound, -, hstart⟩ := (ho.tabled.standing pc num).mp hfind
  obtain ⟨entry', ps, hcopy, -, hchecked⟩ := (ho.tabled.native num n).mp hnative
  obtain rfl : entry' = entry := Option.some.inj (hcopy.found.symm.trans hfound)
  rw [hchecked, ← hstart]
  exact ho.coded.guards hlink num entry' n.target ps hcopy

/-- The code at an offset jumps to the guard of an invalid block at address zero.  Its body has not
been redirected. -/
def LeadsToZero (j : Jit) (offset : Nat) : Prop :=
  ∃ num entry t ps, j.Copy num entry t ps ∧ entry.valid = false ∧ entry.block.start = 0 ∧
    j.code.Holds offset [.jmp (addressOf (checkedAt j.layoutEnv t ps))]

/-- In a state in order, exits that are accounted for do not lead to stale code, unless they go to
address zero. -/
theorem Accounted.exit_cases (hj : j.Accounted) (ho : j.Orderly) (hcopy : j.Copy num entry t ps)
    (hvalid : entry.valid) (hp : p ∈ ps) (hdest : p.inst.exitDest? = some pc) :
    j.ExitLeads pc p.site ∨ pc = 0 ∧ j.LeadsToZero p.site := by
  rcases hj num entry t ps hcopy hvalid p hp pc hdest with ⟨e, he, hoffset, rfl⟩ | hdetached
  · have hheld := ho.linked num e he trivial
    rw [hoffset, linkTarget_eq_nativeAt, linkCode] at hheld
    obtain ⟨hlink, -⟩ := ho.tabled.recorded num e he
    cases hn : j.nativeAt e.dest with
    | none =>
      rw [hn] at hheld
      exact .inl (.dispatched hheld.left)
    | some n =>
      rw [hn] at hheld
      exact .inl (.guarded hheld.left (guard_of_nativeAt ho hlink hn)
        (.inl (lookup_of_nativeAt ho.tabled hn)))
  · cases hdetached with
    | dispatched hheld => exact .inl (.dispatched hheld)
    | @redirected _ entry' _ _ hlink hcopy' hinvalid hstart hheld =>
      subst hstart
      by_cases hzero : entry'.block.start = 0
      · exact .inr ⟨hzero, _, _, _, _, hcopy', hinvalid, hzero, hheld⟩
      · exact .inl (.guarded hheld (ho.coded.guards hlink _ _ _ _ hcopy')
          (.inr (ho.coded.redirected _ _ _ _ hcopy' hinvalid hzero).left))

/-- In a state in order, exits do not lead to stale code. -/
theorem Fresh.exitLeads (hj : j.Fresh) (ho : j.Orderly) (hcopy : j.Copy num entry t ps)
    (hvalid : entry.valid) (hp : p ∈ ps) (hdest : p.inst.exitDest? = some pc) :
    j.ExitLeads pc p.site := by
  rcases hj.sites.exit_cases ho hcopy hvalid hp hdest with
    hleads | ⟨-, _, _, _, _, hcopy', hinvalid, hzero, -⟩
  · exact hleads
  · exact absurd hzero (hj.nonzero _ _ _ _ hcopy' hinvalid)

end

/-- After operations that were not refused, exits do not lead to stale code. -/
theorem fresh_applyAll {config : Config} {table : HandlerTable} {host host' : Host} {j : Jit}
    (hcreate : create config table host = .ok j host') {ops : List Op}
    (hpermitted : Permitted MayInvalidate j ops) (hunrefused : (j.applyAll ops).Unrefused) :
    (j.applyAll ops).Fresh :=
  have hj := create_spec hcreate
  hj.fresh.changes hj.orderly (applyAll_changes hj.orderly.toTidy hpermitted fun _ => id) hunrefused

/-- No stale code is reachable through links.  Whatever operations were carried out, as long as they
were not refused, registered only new blocks and invalidated only valid blocks that do not start at
address zero, the code of a valid compiled block is in the cache, and each of its exit sites leads
to the dispatcher or, through a guard, to the block that stands for the address now or back to the
dispatcher. -/
theorem exits_never_stale {config : Config} {table : HandlerTable} {host host' : Host} {j k : Jit}
    {ops : List (OpWith BlockEntry)} (hcreate : create config table host = .ok j host')
    (hnew : ∀ e ∈ ops.filterMap OpWith.registered?, e.IsNew)
    (hpermitted : Permitted MayInvalidate j ops) (hk : k = j.applyAll ops)
    (hunrefused : k.Unrefused) :
    ∀ num entry n, k.blocks.get? num = some entry → entry.valid → k.links.native? num = some n →
      ∃ ps, blockPieces k.lowerEnv entry.block n.target = some ps ∧ k.LeadsHeld ps ∧
        ∀ p ∈ ps, ∀ pc, p.inst.exitDest? = some pc → k.ExitLeads pc p.site := by
  rw [← applyAll_renew hnew] at hk
  subst hk
  have ho := orderly_applyAll hcreate hunrefused
  have hfresh := fresh_applyAll hcreate (hpermitted.renew hnew) hunrefused
  intro num entry n hfound hvalid hnative
  obtain ⟨entry', ps, hcopy, -, -⟩ := (ho.tabled.native num n).mp hnative
  obtain rfl : entry' = entry := Option.some.inj (hcopy.found.symm.trans hfound)
  refine ⟨ps, ?_, ho.coded.leads num entry' n.target ps hcopy hvalid, fun p hp pc hdest => ?_⟩
  · rw [blockPieces_lowerEnv]
    exact hcopy.pieces
  · exact hfresh.exitLeads ho hcopy hvalid hp hdest

/-- A block is linked to another one, which is invalidated; a third one takes its place. -/
def supersedeOps : List (OpWith BlockEntry) :=
  [.addAndCompile (.new { start := 0x2000, insts := [{ op := .exitToConst, constant := 0x1000 }] }),
   .addAndCompile leaveBlock,
   .invalidatePc 0x2000,
   .addAndCompile (.new { start := 0x2000, insts := [{ op := .exitToConst, constant := 0x3000 }] })]

/-- The exit of the block that was linked first is no longer on record, and does not lead to the
body of the block that was invalidated. -/
theorem exits_never_stale_supersedeOps :
    ∃ j host, create {} .default {} = .ok j host ∧ Permitted MayInvalidate j supersedeOps ∧
      (j.applyAll supersedeOps).Unrefused ∧ (j.applyAll supersedeOps).links.exitsOf 1 = [] ∧
      ∃ entry n, (j.applyAll supersedeOps).blocks.get? 1 = some entry ∧ entry.valid ∧
        (j.applyAll supersedeOps).links.native? 1 = some n ∧
        ∃ ps, blockPieces (j.applyAll supersedeOps).lowerEnv entry.block n.target = some ps ∧
          ∀ p ∈ ps, ∀ pc, p.inst.exitDest? = some pc →
            (j.applyAll supersedeOps).ExitLeads pc p.site := by
  have hruns : succeeds (create {} .default {}) (fun j _ =>
      decide (Permitted MayInvalidate j supersedeOps) &&
      decide (j.applyAll supersedeOps).Unrefused &&
      ((j.applyAll supersedeOps).links.exitsOf 1).isEmpty &&
      ((j.applyAll supersedeOps).blocks.get? 1).any (·.valid) &&
      ((j.applyAll supersedeOps).links.native? 1).isSome) = true := by
    decide +kernel
  obtain ⟨j, host, hcreate, htests⟩ := exists_of_succeeds hruns
  simp only [Bool.and_eq_true, decide_eq_true_eq, List.isEmpty_iff] at htests
  obtain ⟨⟨⟨⟨hpermitted, hunrefused⟩, hexits⟩, hblock⟩, hcompiled⟩ := htests
  obtain ⟨entry, hfound, hvalid⟩ := Option.any_eq_true _ _ |>.mp hblock
  obtain ⟨n, hnative⟩ := Option.isSome_iff_exists.mp hcompiled
  obtain ⟨ps, hps, -, hleads⟩ :=
    exits_never_stale hcreate (by decide) hpermitted rfl hunrefused 1 entry n hfound hvalid hnative
  exact ⟨j, host, hcreate, hpermitted, hunrefused, hexits, entry, n, hfound, hvalid, hnative, ps,
    hps, hleads⟩

/-- The code at an offset does not lead to a guest address if it begins with the load of another
one. -/
theorem not_exitLeads_of_bytes {j : Jit} {pc pc' : UInt32} {offset : Nat}
    (hbytes : j.code.bytes offset 5 = 0xb8 :: Word.bytes32 pc')
    (hne : Word.bytes32 pc ≠ Word.bytes32 pc') : ¬ j.ExitLeads pc offset := by
  intro hleads
  cases hleads with
  | dispatched hjump =>
    have hload : some (0xb8 :: Word.bytes32 pc) = some (j.code.bytes offset 5) := hjump.encode?_head
    rw [hbytes] at hload
    exact hne (List.tail_eq_of_cons_eq (Option.some.inj hload))
  | guarded hjump =>
    obtain ⟨rel, -, hrel⟩ := Insn.jumpBytes_of_encode? hjump.encode?_head
    cases hbytes.symm.trans hrel

/-- Blocks have to be new.  Invalidating a copy of the entry of a compiled block leaves an exit of
the block that is valid now leading to the address of the copy. -/
theorem copied_entry_misleads_exit :
    ∃ j host, create {} .default {} = .ok j host ∧ Permitted MayInvalidate j copyOps ∧
      (j.applyAll copyOps).Unrefused ∧
      (j.applyAll (copyOps.take 1)).blocks.get? 0 = some leaveEntry ∧
      ∃ entry n, (j.applyAll copyOps).blocks.get? 1 = some entry ∧ entry.valid ∧
        (j.applyAll copyOps).links.native? 1 = some n ∧
        ∃ ps, blockPieces (j.applyAll copyOps).lowerEnv entry.block n.target = some ps ∧
          ∃ p ∈ ps, p.inst.exitDest? = some 0x4000 ∧
            ¬ (j.applyAll copyOps).ExitLeads 0x4000 p.site := by
  have hruns : succeeds (create {} .default {}) (fun j _ =>
      decide (Permitted MayInvalidate j copyOps) &&
      decide (j.applyAll copyOps).Unrefused &&
      (j.applyAll (copyOps.take 1)).blocks.get? 0 == some leaveEntry &&
      ((j.applyAll copyOps).blocks.get? 1).any fun entry => entry.valid &&
        ((j.applyAll copyOps).links.native? 1).any fun n =>
          (blockPieces (j.applyAll copyOps).lowerEnv entry.block n.target).any fun ps =>
            ps.any fun p => p.inst.exitDest? == some 0x4000 &&
              (j.applyAll copyOps).code.bytes p.site 5 == 0xb8 :: Word.bytes32 0x1000) = true := by
    decide +kernel
  obtain ⟨j, host, hcreate, htests⟩ := exists_of_succeeds hruns
  simp only [Bool.and_eq_true, decide_eq_true_eq, Option.any_eq_true, List.any_eq_true, beq_iff_eq]
    at htests
  obtain ⟨⟨⟨hpermitted, hunrefused⟩, hcopied⟩, entry, hfound, hvalid, n, hnative, ps, hps, p, hp,
    hdest, hbytes⟩ := htests
  exact ⟨j, host, hcreate, hpermitted, hunrefused, hcopied, entry, n, hfound, hvalid, hnative, ps, hps,
    p, hp, hdest, not_exitLeads_of_bytes hbytes (by decide)⟩

end Jit

end Dynarec
