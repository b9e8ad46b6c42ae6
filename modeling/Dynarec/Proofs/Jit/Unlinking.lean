import Dynarec.Proofs.Jit.Bodies
import Dynarec.Proofs.Jit.Leads
import Dynarec.Proofs.Jit.Stale

/-!
# What has been linked is unlinked

An exit is linked by a jump to the guard of a block that starts where the exit goes, and the block
is unlinked by redirecting its body: the jump stays, and whoever takes it comes to the dispatcher.
That works for every block but one.  A block at address zero is compiled and linked like any other,
but invalidating it leaves its body as it is, so that exits to address zero go on leading there.

## Shape of the proof

* Every exit site of every block compiled since the cache was last cleared holds a jump to the
  dispatcher or to the guard of such a block that starts where the exit goes (`Jit.Retains`).
* Invalidating a block redirects its body, or changes no byte of the code (`Jit.Invalidated`).
* If only valid blocks have been invalidated before, exits of valid blocks are accounted for, and
  stay so if the block is valid (`Accounted.invalidated`).  A block that is not valid any more may be
  invalidated again: then neither code nor entries change, and exits lead where they led
  (`ExitLeads.congr`).
-/

namespace Dynarec

open Lower Dynarec.Action CodeCache

namespace Jit

section

variable {j k l : Jit} {num : Nat} {entry : BlockEntry} {pc : UInt32} {o : Nat}

/-- An exit leads to the same place where code and entries are the same. -/
theorem ExitLeads.congr (h : k.ExitLeads pc o) (hconfig : l.config = k.config)
    (hstubs : l.stubs = k.stubs) (hsize : l.code.size = k.code.size)
    (hbyte : ∀ o, l.code.byte o = k.code.byte o) (hlookup : l.lookup pc = k.lookup pc) :
    l.ExitLeads pc o := by
  have hholds : ∀ {o is}, k.code.Holds o is → l.code.Holds o is := fun hheld =>
    hheld.congr hsize fun x _ _ => hbyte x
  cases h with
  | dispatched hjump =>
    refine .dispatched ?_
    rw [hstubs]
    exact hholds hjump
  | guarded hjump hguard hbody =>
    refine .guarded (hholds hjump) ?_ (hbody.imp hlookup.trans fun hheld => ?_)
    · rw [hconfig, hstubs]
      exact hholds hguard
    · rw [hstubs]
      exact hholds hheld

/-- Where exits of valid blocks lead after a block has been invalidated. -/
theorem Accounted.exit_cases_invalidated (hk : k.Accounted) (ho : k.Orderly)
    (h : k.Invalidated l num entry) {m : Nat} {e : BlockEntry} {t : Nat} {ps : List Piece}
    {p : Piece} (hcopy : l.Copy m e t ps) (hvalid : e.valid) (hp : p ∈ ps)
    (hdest : p.inst.exitDest? = some pc) :
    l.ExitLeads pc p.site ∨ pc = 0 ∧ l.LeadsToZero p.site := by
  cases hentry : entry.valid with
  | true => exact (hk.invalidated ho h hentry).exit_cases (ho.invalidated h) hcopy hvalid hp hdest
  | false =>
    -- invalidating a block again changes neither the code nor the tables of blocks
    have hbyte := h.byte_eq ho hentry
    have hblocks := h.blocks_eq ho.tabled hentry
    have hnative : ∀ m, l.links.native? m = k.links.native? m := by
      intro m
      rw [h.native?_eq]
      split
      · rename_i heq
        rw [heq, ho.tabled.native?_of_invalid h.found hentry]
      · rfl
    have hentries : ∀ m, l.entryAddress m = k.entryAddress m := fun m => by
      simp only [entryAddress, nativeEntry, hblocks, hnative]
    have hlookup : l.lookup pc = k.lookup pc := by
      rw [lookup, lookup, hblocks, funext hentries]
    have hcopies : ∀ {m e t ps}, l.Copy m e t ps ↔ k.Copy m e t ps := fun {m e t ps} =>
      ⟨fun hcopy => hcopy.congr h.layoutEnv_eq.symm (by rw [hblocks]),
        fun hcopy => hcopy.congr h.layoutEnv_eq (by rw [hblocks])⟩
    rcases hk.exit_cases ho (hcopies.mp hcopy) hvalid hp hdest with
      hleads | ⟨hzero, m', e', t', ps', hcopy', hinvalid, hstart, hheld⟩
    · exact .inl (hleads.congr h.config h.stubs h.size hbyte hlookup)
    · refine .inr ⟨hzero, m', e', t', ps', hcopies.mpr hcopy', hinvalid, hstart, ?_⟩
      rw [h.layoutEnv_eq]
      exact hheld.congr h.size fun x _ _ => hbyte x

end

/-- What has been linked is unlinked, unless it starts at address zero.  After any operations, every
exit site in the code of a block compiled since the cache was last cleared that no redirection has
been written over jumps to the dispatcher or to the guard of such a block that starts where the exit
goes.  Invalidating a block redirects its body to the dispatcher, or changes no code if the block
starts at address zero.  If only valid blocks have been invalidated and the platform has refused
nothing, then after any block is invalidated no exit of a compiled block leads to the body of an
invalid one, unless it goes to address zero. -/
theorem linked_unlinked_unless_zero {config : Config} {table : HandlerTable} {host host' : Host}
    {j k : Jit} {ops : List Op} (hcreate : create config table host = .ok j host')
    (hk : k = j.applyAll ops) :
    (∀ q, j.Bodies ops q → ∀ p ∈ q.pieces, ∀ pc, p.inst.exitDest? = some pc →
      (k.Redirected q → q.target + minBodyLen ≤ p.site) →
      k.code.Holds p.site (redirect k.stubs pc) ∨
      ∃ r, j.Bodies ops r ∧ r.block.start = pc ∧
        k.code.Holds p.site [.jmp (addressOf (checkedAt k.layoutEnv r.target r.pieces))] ∧
        k.code.Holds (checkedAt k.layoutEnv r.target r.pieces)
          (guardCode k.layoutEnv pc (addressOf r.target))) ∧
    (∀ num entry t l, k.blocks.get? num = some entry → entry.target = some t →
      invalidate num k = .ok ⟨⟩ l →
        (entry.block.start ≠ 0 → l.code.Holds t (redirect k.stubs entry.block.start)) ∧
        (entry.block.start = 0 → ∀ o, l.code.byte o = k.code.byte o)) ∧
    (Permitted (fun entry => entry.valid) j ops → k.Unrefused → ∀ num l,
      invalidate num k = .ok ⟨⟩ l →
      ∀ m entry n, l.blocks.get? m = some entry → entry.valid → l.links.native? m = some n →
        ∃ ps, blockPieces l.lowerEnv entry.block n.target = some ps ∧
          ∀ p ∈ ps, ∀ pc, p.inst.exitDest? = some pc →
            l.ExitLeads pc p.site ∨ pc = 0 ∧ l.LeadsToZero p.site) := by
  subst hk
  have htidy := tidy_applyAll hcreate ops
  have hretains := retains_applyAll hcreate ops
  refine ⟨fun q hq p hp pc hdest hout => ?_, fun num entry t l hfound htarget hl => ?_,
    fun hpermitted hunrefused num l hl m entry n hfound hvalid hnative => ?_⟩
  · obtain ⟨target, hjump, hguards⟩ := hretains.siteLeads hq hp hdest hout
    cases target with
    | none => exact .inl hjump
    | some a =>
      obtain ⟨hlink, r, hr, hstart, rfl⟩ := hguards a rfl
      exact .inr ⟨r, hr, hstart, hjump, hstart ▸ hretains.guards hlink r hr⟩
  · obtain ⟨_, h⟩ := exists_invalidated htidy.laid hl
    cases hfound.symm.trans h.found
    exact ⟨fun hstart => (h.redirected t htarget hstart).left,
      fun hstart o => h.byte o fun _ _ hzero => absurd hstart hzero⟩
  · obtain ⟨_, h⟩ := exists_invalidated htidy.laid hl
    have hj := create_spec hcreate
    have ho := orderly_applyAll hcreate hunrefused
    -- only valid blocks were invalidated, so exit sites are on record or detached
    have haccounted : (j.applyAll ops).Accounted := hj.fresh.sites.changes hj.orderly (fun _ => id)
      (applyAll_changes hj.orderly.toTidy hpermitted fun _ => id) hunrefused
    obtain ⟨_, ps, hcopy, -, -⟩ := ((ho.invalidated h).tabled.native m n).mp hnative
    cases hfound.symm.trans hcopy.found
    refine ⟨ps, ?_, fun p hp pc hdest => ?_⟩
    · rw [blockPieces_lowerEnv]
      exact hcopy.pieces
    · exact haccounted.exit_cases_invalidated ho h hcopy hvalid hp hdest

/-- A block, and another one that leaves for it. -/
def leaveOps (pc : UInt32) : List Op :=
  [.addAndCompile { start := pc, insts := [{ op := .exitToConst, constant := 0x3000 }] },
   .addAndCompile { start := 0x1000, insts := [{ op := .exitToConst, constant := pc }] }]

/-- The block at 0x2000 is invalidated.  The exit of the other block does not lead to its body. -/
theorem linked_unlinked_unless_zero_leaveOps :
    ∃ j host l, create {} .default {} = .ok j host ∧
      Permitted (fun entry => entry.valid) j (leaveOps 0x2000) ∧
      (j.applyAll (leaveOps 0x2000)).Unrefused ∧
      invalidate 0 (j.applyAll (leaveOps 0x2000)) = .ok ⟨⟩ l ∧
      ∃ entry n, l.blocks.get? 1 = some entry ∧ entry.valid ∧ l.links.native? 1 = some n ∧
        ∃ ps, blockPieces l.lowerEnv entry.block n.target = some ps ∧
          ∀ p ∈ ps, p.inst.exitDest? = some 0x2000 → l.ExitLeads 0x2000 p.site := by
  have hruns : succeeds (create {} .default {}) (fun j _ =>
      decide (Permitted (fun entry => entry.valid) j (leaveOps 0x2000)) &&
      decide (j.applyAll (leaveOps 0x2000)).Unrefused &&
      succeeds (invalidate 0 (j.applyAll (leaveOps 0x2000))) (fun _ l =>
        (l.blocks.get? 1).any (·.valid) && (l.links.native? 1).isSome)) = true := by
    decide +kernel
  obtain ⟨j, host, hcreate, htests⟩ := exists_of_succeeds hruns
  simp only [Bool.and_eq_true, decide_eq_true_eq] at htests
  obtain ⟨⟨hpermitted, hunrefused⟩, hinvalidate⟩ := htests
  obtain ⟨⟨⟩, l, hl, hafter⟩ := exists_of_succeeds hinvalidate
  rw [Bool.and_eq_true] at hafter
  obtain ⟨entry, hfound, hvalid⟩ := Option.any_eq_true _ _ |>.mp hafter.1
  obtain ⟨n, hnative⟩ := Option.isSome_iff_exists.mp hafter.2
  obtain ⟨-, -, hexits⟩ :=
    linked_unlinked_unless_zero hcreate (rfl : j.applyAll (leaveOps 0x2000) = _)
  obtain ⟨ps, hps, hleads⟩ :=
    hexits hpermitted hunrefused 0 l hl 1 entry n hfound hvalid hnative
  refine ⟨j, host, l, hcreate, hpermitted, hunrefused, hl, entry, n, hfound, hvalid, hnative, ps,
    hps, fun p hp hdest => ?_⟩
  exact (hleads p hp _ hdest).resolve_right fun hzero => absurd hzero.1 (by decide)

/-- The block at address zero is invalidated, so nothing stands for the address any more.  The exit
of the other block still jumps to its guard, the guard to its body, and no code has changed. -/
theorem invalidate_zero_linked :
    ∃ j host l e n, create {} .default {} = .ok j host ∧ (j.applyAll (leaveOps 0)).Unrefused ∧
      invalidate 0 (j.applyAll (leaveOps 0)) = .ok ⟨⟩ l ∧
      e ∈ (j.applyAll (leaveOps 0)).links.exitsOf 1 ∧ e.dest = 0 ∧
      (j.applyAll (leaveOps 0)).links.native? 0 = some n ∧ l.lookup 0 = none ∧
      l.code.Holds e.offset [.jmp (addressOf n.checked)] ∧
      l.code.Holds n.checked (guardCode l.layoutEnv 0 (addressOf n.target)) ∧
      ∀ o, l.code.byte o = (j.applyAll (leaveOps 0)).code.byte o := by
  have hruns : succeeds (create {} .default {}) (fun j _ =>
      decide (j.applyAll (leaveOps 0)).Unrefused && (j.applyAll (leaveOps 0)).config.blockLink &&
      ((j.applyAll (leaveOps 0)).blocks.get? 0).any (fun entry => decide (entry.block.start = 0)) &&
      decide ((j.applyAll (leaveOps 0)).blocks.find? 0 = some 0) &&
      ((j.applyAll (leaveOps 0)).links.native? 0).isSome &&
      ((j.applyAll (leaveOps 0)).links.exitsOf 1).any (fun e => decide (e.dest = 0)) &&
      succeeds (invalidate 0 (j.applyAll (leaveOps 0))) (fun _ l =>
        decide (l.lookup 0 = none))) = true := by
    decide +kernel
  obtain ⟨j, host, hcreate, htests⟩ := exists_of_succeeds hruns
  simp only [Bool.and_eq_true, decide_eq_true_eq] at htests
  obtain ⟨⟨⟨⟨⟨⟨hunrefused, hlink⟩, hblock⟩, hfind⟩, hcompiled⟩, hexits⟩, hinvalidate⟩ := htests
  obtain ⟨entry, hfound, hstart⟩ := Option.any_eq_true _ _ |>.mp hblock
  obtain ⟨n, hn⟩ := Option.isSome_iff_exists.mp hcompiled
  obtain ⟨e, he, hdest⟩ := List.any_eq_true.mp hexits
  obtain ⟨⟨⟩, l, hl, hlookup⟩ := exists_of_succeeds hinvalidate
  rw [decide_eq_true_eq] at hstart hdest hlookup
  have ho := orderly_applyAll hcreate hunrefused
  -- the exit holds the jump to the block that stands for its address
  have hnative : (j.applyAll (leaveOps 0)).nativeAt 0 = some n := by
    rw [nativeAt, hfind]
    exact hn
  have hheld := ho.linked 1 e he trivial
  rw [hdest, linkTarget_eq_nativeAt, hnative, linkCode] at hheld
  obtain ⟨_, hinvalidated⟩ := exists_invalidated ho.laid hl
  cases hfound.symm.trans hinvalidated.found
  -- at address zero no byte is written
  have hbyte : ∀ o, l.code.byte o = (j.applyAll (leaveOps 0)).code.byte o := fun o =>
    hinvalidated.byte o fun _ _ hzero => absurd hstart hzero
  refine ⟨j, host, l, e, n, hcreate, hunrefused, hl, he, hdest, hn, hlookup,
    hheld.left.congr hinvalidated.size fun o _ _ => hbyte o, ?_, hbyte⟩
  rw [hinvalidated.layoutEnv_eq]
  exact (guard_of_nativeAt ho hlink hnative).congr hinvalidated.size
    fun o _ _ => hbyte o

end Jit

end Dynarec
