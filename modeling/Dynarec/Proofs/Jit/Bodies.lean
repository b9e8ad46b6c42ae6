import Mathlib.Data.List.Induction
import Dynarec.Proofs.Jit.Ops

/-!
# All code that blocks have left in the cache

A block that is compiled again leaves its old code where it is, and an exit that was linked to it
may still jump there: linking may have been broken off, or the exit forgotten.  So what control can
come to is the code of every block that has been compiled since the cache was last cleared
(`Jit.Bodies`), and not only the copies in the tables.

Shape of the argument: `Jit.Retains` says of a set of bodies that they lie apart below the cursor,
that each has its guard, and that each is redirected or has its leads and exit sites, where an exit
site leads to the dispatcher or to the guard of a body in the set.  Every change keeps this
(`Retains.grows`, `Retains.added`, `Retains.invalidated`, `Retains.compiled`, `Retains.patched`;
what a change that keeps the set has to satisfy is `Retains.transfer`).  The set stays, or is
emptied when the cache is cleared, or gains the body that was compiled.  By induction on the
operations, the bodies since the last clearing are retained (`retains_applyAll`).
-/

namespace Dynarec

open Lower Dynarec.Action CodeCache

/-- The code of a block in the cache: where its body starts, and its pieces. -/
structure Body where
  num : Nat
  block : Block
  target : Nat
  pieces : List Piece

namespace Body

/-- Where the pieces of a body end. -/
def stop (q : Body) (config : Config) : Nat :=
  endOf config q.target q.pieces

/-- Two bodies are the same, or all their code lies apart. -/
def Apart (env : LowerEnv) (q r : Body) : Prop :=
  q = r ∨ copyStop env q.target q.pieces ≤ copyLow env r.target ∨
    copyStop env r.target r.pieces ≤ copyLow env q.target

theorem Apart.symm {env : LowerEnv} {q r : Body} (h : q.Apart env r) : r.Apart env q := by
  rcases h with rfl | hbefore | hbehind
  · exact .inl rfl
  · exact .inr (.inr hbefore)
  · exact .inr (.inl hbehind)

/-- The code of a body, from its low end to its high end. -/
theorem bounds (env : LowerEnv) (q : Body) :
    copyLow env q.target ≤ q.target ∧ q.target < q.target + Jit.minBodyLen ∧
      q.target + Jit.minBodyLen ≤ bodyEnd env q.target q.pieces ∧
      q.stop env.config ≤ bodyEnd env q.target q.pieces ∧
      bodyEnd env q.target q.pieces ≤ copyStop env q.target q.pieces :=
  ⟨copyLow_le env q.target, Nat.lt_add_of_pos_right (by decide), (le_bodyEnd env q.target q.pieces).1,
    (le_bodyEnd env q.target q.pieces).2, bodyEnd_le_copyStop env q.target q.pieces⟩

end Body

namespace Jit

/-- A body has been redirected: it is the last code of its block, which is not valid any more.  The
block at address zero is never redirected. -/
def Redirected (j : Jit) (q : Body) : Prop :=
  ∃ entry, j.blocks.get? q.num = some entry ∧ entry.target = some q.target ∧
    entry.valid = false ∧ entry.block.start ≠ 0

/-- An address is that of the guard of one of these bodies, of a block that starts at `pc`. -/
def Guards (j : Jit) (T : Body → Prop) (pc : UInt32) (a : UInt64) : Prop :=
  ∃ q, T q ∧ q.block.start = pc ∧ a = addressOf (checkedAt j.layoutEnv q.target q.pieces)

/-- An exit site leads to the dispatcher or to the guard of one of these bodies, of a block that
starts where the exit goes. -/
def SiteLeads (j : Jit) (T : Body → Prop) (site : Nat) (pc : UInt32) : Prop :=
  ∃ target, j.code.Holds site (exitJump j.stubs pc target) ∧
    ∀ a, target = some a → j.config.blockLink ∧ j.Guards T pc a

/-- The code of a body is as it was written, up to where its exits lead. -/
structure Live (j : Jit) (T : Body → Prop) (q : Body) : Prop where
  leads : j.LeadsHeld q.pieces
  report : j.config.diagnostics → j.code.Holds (q.stop j.config) (missingExitCode j.layoutEnv)
  padding : j.code.Holds (codeEnd j.layoutEnv q.target q.pieces) (List.replicate
    (bodyEnd j.layoutEnv q.target q.pieces - codeEnd j.layoutEnv q.target q.pieces) .int3)
  sites : ∀ p ∈ q.pieces, ∀ pc, p.inst.exitDest? = some pc → j.SiteLeads T p.site pc

/-- The cache has the code of these bodies, and of all copies in the tables. -/
structure Retains (j : Jit) (T : Body → Prop) : Prop where
  registered : ∀ q, T q → ∃ entry, j.blocks.get? q.num = some entry ∧ entry.block = q.block
  pieces : ∀ q, T q → blockPieces j.layoutEnv q.block q.target = some q.pieces
  low : ∀ q, T q → j.stubs.blocksStart ≤ copyLow j.layoutEnv q.target ∧
    (j.config.usesForwardCheck → guardLen j.layoutEnv ≤ q.target)
  high : ∀ q, T q → copyStop j.layoutEnv q.target q.pieces ≤ j.code.cursor
  apart : ∀ q r, T q → T r → q.Apart j.layoutEnv r
  copies : ∀ num entry t ps, j.Copy num entry t ps → T ⟨num, entry.block, t, ps⟩
  guards : j.config.blockLink → ∀ q, T q → j.code.Holds (checkedAt j.layoutEnv q.target q.pieces)
    (guardCode j.layoutEnv q.block.start (addressOf q.target))
  live : ∀ q, T q → ¬ j.Redirected q → j.Live T q
  redirected : ∀ q, T q → j.Redirected q →
    j.code.Holds q.target (padded (redirect j.stubs q.block.start) minBodyLen)
  /-- The exit sites behind a redirection are still there. -/
  remains : ∀ q, T q → j.Redirected q → ∀ p ∈ q.pieces, ∀ pc, p.inst.exitDest? = some pc →
    q.target + minBodyLen ≤ p.site → j.SiteLeads T p.site pc

section

variable {j k : Jit} {T T' : Body → Prop} {q : Body}

/-! ## Where the code of a body lies -/

/-- The jump of an exit fits into its site. -/
theorem codeSize_exitJump_le {config : Config} {target : Option UInt64}
    (htarget : ∀ a, target = some a → config.blockLink) (stubs : Stubs) (pc : UInt32) :
    codeSize (exitJump stubs pc target) ≤ siteLen config := by
  rw [codeSize_exitJump, siteLen]
  cases target with
  | none =>
    simp only [Option.isSome_none, Bool.false_eq_true, if_false]
    split <;> decide
  | some a =>
    rw [if_pos (htarget a rfl), if_pos (Option.isSome_some)]
    decide

/-- An exit site leads to the same place where no byte of it changes. -/
theorem SiteLeads.congr {site : Nat} {pc : UInt32} (h : j.SiteLeads T site pc)
    (hconfig : k.config = j.config) (htable : k.table = j.table) (hstubs : k.stubs = j.stubs)
    (hsize : k.code.size = j.code.size) (hsub : ∀ r, T r → T' r)
    (hbyte : ∀ o, site ≤ o → o < site + siteLen j.config → k.code.byte o = j.code.byte o) :
    k.SiteLeads T' site pc := by
  obtain ⟨target, hjump, hguards⟩ := h
  have hlen := codeSize_exitJump_le (fun a ha => (hguards a ha).1) j.stubs pc
  refine ⟨target, ?_, fun a ha => ?_⟩
  · rw [hstubs]
    exact hjump.congr hsize fun o hlow hhigh => hbyte o hlow (by omega)
  · obtain ⟨hlink, r, hr, hguard⟩ := hguards a ha
    rw [hconfig, Guards, layoutEnv_eq hconfig htable hstubs]
    exact ⟨hlink, r, hsub r hr, hguard⟩

/-- Behind the pieces of a body there is room for the check for missing exits. -/
theorem stop_le_bodyEnd (env : LowerEnv) (q : Body) :
    q.stop env.config +
      (if env.config.diagnostics then codeSize (missingExitCode env) else 0) ≤
        bodyEnd env q.target q.pieces :=
  Nat.le_max_right _ _

/-- Code of a valid block has not been redirected. -/
theorem not_redirected_of_valid {entry : BlockEntry} (hfound : j.blocks.get? q.num = some entry)
    (hvalid : entry.valid) : ¬ j.Redirected q := by
  rintro ⟨e, hfound', -, hinvalid, -⟩
  cases hfound.symm.trans hfound'
  exact absurd (hvalid.symm.trans hinvalid) (by decide)

/-- Bodies start behind the fixed routines, in the region. -/
theorem Retains.target_lt (hj : j.Retains T) (hready : j.Ready) (hq : T q) :
    j.routinesLen ≤ q.target ∧ q.target < j.code.size := by
  obtain ⟨hcopyLow, hpos, hbody, -, hstop⟩ := q.bounds j.layoutEnv
  have hlow := (hj.low q hq).1
  have hroutines := hready.routines
  have hcursor := hj.high q hq
  have hhigh := hready.high
  omega

/-- An exit site is in the body of its piece. -/
theorem Retains.site_bounds (hj : j.Retains T) (hq : T q) {p : Piece} (hp : p ∈ q.pieces)
    {pc : UInt32} (hpc : p.inst.exitDest? = some pc) :
    q.target ≤ p.site ∧ p.site + siteLen j.config ≤ bodyEnd j.layoutEnv q.target q.pieces := by
  obtain ⟨hlow, hhigh⟩ := piece_bounds (hj.pieces q hq) hp
  have hstart := p.start_le_site
  have hstop := Piece.stop_of_exitDest hpc j.config
  exact ⟨Nat.le_trans hlow hstart, hstop ▸ hhigh⟩

/-- In the code of a body, no other body starts. -/
theorem Retains.eq_of_target (hj : j.Retains T) {r : Body} (hq : T q) (hr : T r) {o : Nat}
    (hlow : copyLow j.layoutEnv q.target ≤ o) (hhigh : o < copyStop j.layoutEnv q.target q.pieces)
    (ho : o = r.target) : r = q := by
  obtain ⟨hlow', hpos, hbody, -, hstop⟩ := r.bounds j.layoutEnv
  rcases hj.apart r q hr hq with heq | hbefore | hbehind
  · exact heq
  · omega
  · omega

/-- The code of a body is the same in another state, up to exit sites for `pc` that have been
pointed at an address. -/
structure Repointed (j k : Jit) (q : Body) (done : List Exit) (pc : UInt32) (a : UInt64) :
    Prop where
  config : k.config = j.config
  table : k.table = j.table
  stubs : k.stubs = j.stubs
  size : k.code.size = j.code.size
  byte : ∀ o, q.target ≤ o → o < bodyEnd j.layoutEnv q.target q.pieces →
    (∀ e ∈ done, ¬ (e.offset ≤ o ∧ o < e.offset + exitSiteLen)) → k.code.byte o = j.code.byte o
  within : ∀ e ∈ done, (∃ p ∈ q.pieces, p.inst.exitDest? = some pc ∧ e.offset = p.site) ∨
    e.offset + exitSiteLen ≤ q.target ∨ bodyEnd j.layoutEnv q.target q.pieces ≤ e.offset
  link : done ≠ [] → j.config.blockLink
  held : ∀ e ∈ done, k.code.Holds e.offset (padded [.jmp a] exitSiteLen)

section Repointed

variable {done : List Exit} {dest : UInt32} {a : UInt64}

/-- Code in a body stays, if none of the sites that have been patched is in it. -/
theorem Repointed.holds (hpatched : j.Repointed k q done dest a) {o : Nat} {is : List Insn}
    (hheld : j.code.Holds o is) (hlow : q.target ≤ o)
    (hhigh : o + codeSize is ≤ bodyEnd j.layoutEnv q.target q.pieces)
    (haway : ∀ e ∈ done, ∀ p ∈ q.pieces, e.offset = p.site →
      p.stop j.config ≤ o ∨ o + codeSize is ≤ p.site) : k.code.Holds o is := by
  refine hheld.congr hpatched.size fun o' hlow' hhigh' =>
    hpatched.byte o' (Nat.le_trans hlow hlow') (Nat.lt_of_lt_of_le hhigh' hhigh) fun e he => ?_
  rcases hpatched.within e he with ⟨p, hp, hdest, hoffset⟩ | hout
  · -- with linking, a site ends where its piece ends
    have hstop := stop_of_blockLink (hpatched.link (List.ne_nil_of_mem he)) hdest
    have := haway e he p hp hoffset
    omega
  · omega

/-- The code of a body is as it was written, if sites of it have been pointed at the guard of a
body. -/
theorem Live.patch (hlive : j.Live T q)
    (hpieces : blockPieces j.layoutEnv q.block q.target = some q.pieces)
    (hpatched : j.Repointed k q done dest a) (hsub : ∀ r, T r → T' r)
    (htarget : done ≠ [] → j.Guards T' dest a) : k.Live T' q := by
  have hconfig := hpatched.config
  have henv : k.layoutEnv = j.layoutEnv := Jit.layoutEnv_eq hconfig hpatched.table hpatched.stubs
  have hbounds : ∀ p ∈ q.pieces,
      q.target ≤ p.start ∧ p.stop j.config ≤ bodyEnd j.layoutEnv q.target q.pieces :=
    fun p hp => piece_bounds hpieces hp
  have hstacked : Stacked j.config q.target q.pieces := stacked_pieces hpieces
  refine ⟨fun p hp => ?_, fun hdiagnostics => ?_, ?_, fun p hp pc hpc => ?_⟩
  · have hsite := p.site_le_stop j.config
    have hend := (hbounds p hp).2
    rw [hconfig]
    refine hpatched.holds (hlive.leads p hp) (hbounds p hp).1 ?_ fun e _ r hr _ => ?_
    · rw [codeSize_code]
      exact Nat.le_trans hsite hend
    · rw [codeSize_code]
      have hstart := r.start_le_site
      rcases hstacked.apart hp hr with rfl | hbefore | hbehind
      · exact .inr (Nat.le_refl _)
      · exact .inr (Nat.le_trans hsite (Nat.le_trans hbefore hstart))
      · exact .inl hbehind
  · rw [hconfig] at hdiagnostics
    rw [henv, hconfig]
    have hend := stop_le_bodyEnd j.layoutEnv q
    rw [if_pos (show j.layoutEnv.config.diagnostics from hdiagnostics)] at hend
    exact hpatched.holds (hlive.report hdiagnostics) hstacked.le_endOf hend fun e _ r hr _ =>
      .inl (hstacked.bounds hr).2
  · have hend : codeEnd j.layoutEnv q.target q.pieces ≤ bodyEnd j.layoutEnv q.target q.pieces :=
      stop_le_bodyEnd j.layoutEnv q
    have hstop : q.stop j.config ≤ codeEnd j.layoutEnv q.target q.pieces := Nat.le_add_right ..
    have hlow : q.target ≤ q.stop j.config := hstacked.le_endOf
    rw [henv]
    refine hpatched.holds hlive.padding (Nat.le_trans hlow hstop) ?_ fun e _ r hr _ =>
      .inl (Nat.le_trans (hstacked.bounds hr).2 hstop)
    rw [Insn.codeSize_replicate_int3]
    exact Nat.le_of_eq (Nat.add_sub_cancel' hend)
  · have hend := (hbounds p hp).2
    have hstart := p.start_le_site
    have hstop := Piece.stop_of_exitDest hpc j.config
    have hlow := (hbounds p hp).1
    rw [SiteLeads, hpatched.stubs, hconfig]
    simp only [Guards, henv]
    by_cases hdone : ∃ e ∈ done, e.offset = p.site
    · obtain ⟨e, he, hoffset⟩ := hdone
      have hne := List.ne_nil_of_mem he
      have hlen : siteLen j.config = exitSiteLen := if_pos (hpatched.link hne)
      have hpos : 0 < exitSiteLen := by decide
      -- the piece at the site goes where the exits go that have been pointed
      have hsame : pc = dest := by
        rcases hpatched.within e he with ⟨r, hr, hdest, hoffset'⟩ | hout
        · have hstart' := r.start_le_site
          have hstop' := Piece.stop_of_exitDest hdest j.config
          rcases hstacked.apart hp hr with rfl | hapart
          · exact Option.some.inj (hpc.symm.trans hdest)
          · omega
        · omega
      subst hsame
      refine ⟨some a, hoffset ▸ (hpatched.held e he).left, ?_⟩
      rintro _ ⟨⟩
      exact ⟨hpatched.link hne, htarget hne⟩
    · obtain ⟨target, hjump, hleads⟩ := hlive.sites p hp pc hpc
      have hlen := codeSize_exitJump_le (fun a ha => (hleads a ha).1) j.stubs pc
      refine ⟨target, hpatched.holds hjump (by omega) (by omega) fun e he r hr hoffset => ?_, ?_⟩
      · have hstart' := r.start_le_site
        rcases hstacked.apart hp hr with rfl | hapart
        · exact absurd ⟨e, he, hoffset⟩ hdone
        · omega
      · intro a ha
        obtain ⟨hlinked, r, hr, hguard⟩ := hleads a ha
        exact ⟨hlinked, r, hsub r hr, hguard⟩

end Repointed

/-- The code of a body stays where no byte of it changes. -/
theorem Live.congr (hlive : j.Live T q)
    (hpieces : blockPieces j.layoutEnv q.block q.target = some q.pieces)
    (hconfig : k.config = j.config) (htable : k.table = j.table) (hstubs : k.stubs = j.stubs)
    (hsize : k.code.size = j.code.size) (hsub : ∀ r, T r → T' r)
    (hbyte : ∀ o, q.target ≤ o → o < bodyEnd j.layoutEnv q.target q.pieces →
      k.code.byte o = j.code.byte o) : k.Live T' q := by
  have hrepointed : j.Repointed k q [] 0 0 :=
    ⟨hconfig, htable, hstubs, hsize, fun o hlow hhigh _ => hbyte o hlow hhigh, by simp, by simp,
      by simp⟩
  exact hlive.patch hpieces hrepointed hsub (absurd rfl)

/-- What has to be shown of a change: only the bodies themselves may be written to, each of them is
live or redirected behind it, and all copies are in the set. -/
theorem Retains.transfer (hj : j.Retains T) (hconfig : k.config = j.config)
    (htable : k.table = j.table) (hstubs : k.stubs = j.stubs) (hsize : k.code.size = j.code.size)
    (hcursor : j.code.cursor ≤ k.code.cursor)
    (hblocks : ∀ q, T q → ∀ entry, j.blocks.get? q.num = some entry →
      ∃ e, k.blocks.get? q.num = some e ∧ e.block = entry.block)
    (hcopies : ∀ num entry t ps, k.Copy num entry t ps → T ⟨num, entry.block, t, ps⟩)
    (hguards : ∀ q, T q → ∀ o, copyLow j.layoutEnv q.target ≤ o →
      o < copyStop j.layoutEnv q.target q.pieces →
      o < q.target ∨ bodyEnd j.layoutEnv q.target q.pieces ≤ o → k.code.byte o = j.code.byte o)
    (hlive : ∀ q, T q → ¬ k.Redirected q → k.Live T q)
    (hredirected : ∀ q, T q → k.Redirected q →
      k.code.Holds q.target (padded (redirect j.stubs q.block.start) minBodyLen))
    (hremains : ∀ q, T q → k.Redirected q → ∀ p ∈ q.pieces, ∀ pc, p.inst.exitDest? = some pc →
      q.target + minBodyLen ≤ p.site → k.SiteLeads T p.site pc) : k.Retains T := by
  have henv : k.layoutEnv = j.layoutEnv := Jit.layoutEnv_eq hconfig htable hstubs
  refine ⟨fun q hq => ?_, ?_, ?_, ?_, ?_, hcopies, fun hlink q hq => ?_, hlive, ?_, hremains⟩
  · obtain ⟨entry, hfound, hblock⟩ := hj.registered q hq
    obtain ⟨e, hfound', hsame⟩ := hblocks q hq entry hfound
    exact ⟨e, hfound', hsame.trans hblock⟩
  · rw [henv]
    exact hj.pieces
  · rw [henv, hconfig, hstubs]
    exact hj.low
  · rw [henv]
    exact fun q hq => Nat.le_trans (hj.high q hq) hcursor
  · rw [henv]
    exact hj.apart
  · rw [hconfig] at hlink
    rw [henv]
    have hguard := guard_bounds j.layoutEnv hlink (hj.low q hq).2 q.pieces
    refine (hj.guards hlink q hq).congr hsize fun o hlow hhigh => hguards q hq o ?_ ?_ ?_
    all_goals
      rw [codeSize_guardCode] at hhigh
      omega
  · rw [hstubs]
    exact hredirected

/-- Every exit site that no redirection has been written over leads on. -/
theorem Retains.siteLeads (hj : j.Retains T) (hq : T q) {p : Piece} (hp : p ∈ q.pieces)
    {pc : UInt32} (hdest : p.inst.exitDest? = some pc)
    (hout : j.Redirected q → q.target + minBodyLen ≤ p.site) : j.SiteLeads T p.site pc := by
  by_cases hred : j.Redirected q
  · exact hj.remains q hq hred p hp pc hdest (hout hred)
  · exact (hj.live q hq hred).sites p hp pc hdest

/-! ## Changes that leave all bodies alone -/

/-- Writing behind the cursor keeps all bodies. -/
theorem Retains.grows (hj : j.Retains T) (h : j.Grows k) : k.Retains T := by
  have hredirected : ∀ q, k.Redirected q ↔ j.Redirected q := fun q => by
    rw [Redirected, Redirected, h.blocks]
  have hbyte : ∀ q, T q → ∀ o, o < copyStop j.layoutEnv q.target q.pieces →
      k.code.byte o = j.code.byte o := fun q hq o ho =>
    h.code.byte o (Nat.lt_of_lt_of_le ho (hj.high q hq))
  refine hj.transfer h.config h.table h.stubs h.code.size h.code.cursor
    (fun q _ entry hfound => ⟨entry, by rw [h.blocks, hfound], rfl⟩)
    (fun num entry t ps hk => hj.copies num entry t ps (h.copy hk))
    (fun q hq o _ hhigh _ => hbyte q hq o hhigh) (fun q hq hnot => ?_) (fun q hq hred => ?_)
    fun q hq hred p hp pc hpc hout => ?_
  · rw [hredirected] at hnot
    obtain ⟨-, -, -, -, hstop⟩ := q.bounds j.layoutEnv
    exact (hj.live q hq hnot).congr (hj.pieces q hq) h.config h.table h.stubs h.code.size
      (fun _ => id) fun o _ hhigh => hbyte q hq o (Nat.lt_of_lt_of_le hhigh hstop)
  · rw [hredirected] at hred
    obtain ⟨-, -, hbody, -, hstop⟩ := q.bounds j.layoutEnv
    refine (hj.redirected q hq hred).congr h.code.size fun o _ hhigh => hbyte q hq o ?_
    rw [codeSize_padded_redirect] at hhigh
    omega
  · rw [hredirected] at hred
    obtain ⟨-, -, -, -, hstop⟩ := q.bounds j.layoutEnv
    have hsite := (hj.site_bounds hq hp hpc).2
    exact (hj.remains q hq hred p hp pc hpc hout).congr h.config h.table h.stubs h.code.size
      (fun _ => id) fun o _ hhigh => hbyte q hq o (by omega)

/-- So does registering a block. -/
theorem Retains.added (hj : j.Retains T) (b : Block) :
    ({ j with blocks := (j.blocks.add b).2 } : Jit).Retains T := by
  -- the new block has no code, and all others are found as before
  have hget : ∀ q, T q → (j.blocks.add b).2.get? q.num = j.blocks.get? q.num := by
    intro q hq
    obtain ⟨entry, hfound, -⟩ := hj.registered q hq
    rw [Blocks.get?_add, if_neg]
    intro heq
    rw [heq, j.blocks.get?_size] at hfound
    cases hfound
  have hredirected : ∀ q, T q →
      (({ j with blocks := (j.blocks.add b).2 } : Jit).Redirected q ↔ j.Redirected q) := by
    intro q hq
    show (∃ entry, (j.blocks.add b).2.get? q.num = some entry ∧ _) ↔ _
    rw [hget q hq, Redirected]
  refine ⟨fun q hq => ?_, hj.pieces, hj.low, hj.high, hj.apart,
    fun num entry t ps hk => hj.copies num entry t ps (copy_add.mp hk), hj.guards,
    fun q hq hnot => ?_, fun q hq hred => hj.redirected q hq ((hredirected q hq).mp hred),
    fun q hq hred => hj.remains q hq ((hredirected q hq).mp hred)⟩
  · show ∃ entry, (j.blocks.add b).2.get? q.num = some entry ∧ _
    rw [hget q hq]
    exact hj.registered q hq
  · exact (hj.live q hq fun hred => hnot ((hredirected q hq).mpr hred)).congr (hj.pieces q hq)
      rfl rfl rfl rfl (fun _ => id) fun _ _ _ => rfl

/-! ## Invalidating a block -/

section Invalidated

variable {num : Nat} {entry : BlockEntry}

/-- Invalidating a block redirects its last body, unless the block is at address zero. -/
theorem Invalidated.redirected_iff (h : j.Invalidated k num entry) :
    k.Redirected q ↔ j.Redirected q ∨
      q.num = num ∧ entry.target = some q.target ∧ entry.block.start ≠ 0 := by
  rw [Redirected, Redirected, h.blocks, Blocks.get?_invalidate]
  split
  · rename_i hnum
    rw [hnum, h.found]
    constructor
    · rintro ⟨e, ⟨⟩, htarget, -, hzero⟩
      exact .inr ⟨rfl, htarget, hzero⟩
    · rintro (⟨e, ⟨⟩, htarget, -, hzero⟩ | ⟨-, htarget, hzero⟩)
      · exact ⟨_, rfl, htarget, rfl, hzero⟩
      · exact ⟨_, rfl, htarget, rfl, hzero⟩
  · rename_i hnum
    exact ⟨.inl, Or.rec id fun hself => absurd hself.1 hnum⟩

/-- The body that is overwritten is in the set, so it is one of the bodies or apart from them. -/
theorem Retains.apart_of_invalidated (hj : j.Retains T) (hlaid : j.Laid)
    (h : j.Invalidated k num entry) (hq : T q) {t : Nat} (ht : entry.target = some t) :
    (q.num = num ∧ q.target = t) ∨ copyStop j.layoutEnv q.target q.pieces ≤ t ∨
      t + minBodyLen ≤ copyLow j.layoutEnv q.target := by
  obtain ⟨ps, hcopy⟩ := hlaid.pieces num entry t h.found ht
  obtain ⟨hlow, -, hbody, -, hstop⟩ := Body.bounds j.layoutEnv ⟨num, entry.block, t, ps⟩
  rcases hj.apart q _ hq (hj.copies num entry t ps hcopy) with rfl | hbefore | hbehind
  · exact .inl ⟨rfl, rfl⟩
  · exact .inr (.inl (Nat.le_trans hbefore hlow))
  · exact .inr (.inr (Nat.le_trans hbody (Nat.le_trans hstop hbehind)))

/-- So does invalidating a block, which redirects one of them. -/
theorem Retains.invalidated (hj : j.Retains T) (hlaid : j.Laid) (h : j.Invalidated k num entry) :
    k.Retains T := by
  -- outside the body that is overwritten, no code of a body changes
  have hbyte : ∀ q, T q → ∀ o, copyLow j.layoutEnv q.target ≤ o →
      o < copyStop j.layoutEnv q.target q.pieces →
      (q.num = num → entry.target = some q.target → entry.block.start ≠ 0 →
        o < q.target ∨ q.target + minBodyLen ≤ o) → k.code.byte o = j.code.byte o := by
    intro q hq o hlow hhigh hself
    refine h.byte o fun t ht hzero => ?_
    rcases hj.apart_of_invalidated hlaid h hq ht with ⟨hnum, rfl⟩ | hapart
    · have := hself hnum ht hzero
      omega
    · omega
  refine hj.transfer h.config h.table h.stubs h.size (Nat.le_of_eq h.cursor.symm)
    (fun q _ e hfound => ?_) (fun m e t ps hk => ?_) (fun q hq o hlow hhigh hout => ?_)
    (fun q hq hnot => ?_) (fun q hq hred => ?_) fun q hq hred p hp pc hpc hout => ?_
  · rw [h.blocks, Blocks.get?_invalidate, hfound]
    split
    · exact ⟨_, rfl, rfl⟩
    · exact ⟨e, rfl, rfl⟩
  · obtain ⟨e', hcopy, hblock, -⟩ := h.copy hk
    rw [hblock]
    exact hj.copies m e' t ps hcopy
  · obtain ⟨-, -, hbody, -, -⟩ := q.bounds j.layoutEnv
    exact hbyte q hq o hlow hhigh fun _ _ _ => by omega
  · rw [h.redirected_iff, not_or] at hnot
    obtain ⟨hlow', -, -, -, hstop⟩ := q.bounds j.layoutEnv
    exact (hj.live q hq hnot.1).congr (hj.pieces q hq) h.config h.table h.stubs h.size
      (fun _ => id) fun o hlow hhigh => hbyte q hq o (Nat.le_trans hlow' hlow)
        (Nat.lt_of_lt_of_le hhigh hstop) fun hnum htarget hzero =>
          absurd ⟨hnum, htarget, hzero⟩ hnot.2
  · by_cases hself : q.num = num ∧ entry.target = some q.target ∧ entry.block.start ≠ 0
    · obtain ⟨hnum, htarget, hzero⟩ := hself
      obtain ⟨e, hfound, hblock⟩ := hj.registered q hq
      rw [hnum, h.found] at hfound
      cases hfound
      rw [← hblock]
      exact h.redirected q.target htarget hzero
    · have hred' := (h.redirected_iff.mp hred).resolve_right hself
      obtain ⟨hlow', -, hbody, -, hstop⟩ := q.bounds j.layoutEnv
      refine (hj.redirected q hq hred').congr h.size fun o hlow hhigh => hbyte q hq o
        (Nat.le_trans hlow' hlow) ?_ fun hnum htarget hzero => absurd ⟨hnum, htarget, hzero⟩ hself
      rw [codeSize_padded_redirect] at hhigh
      omega
  · -- the site was there before, whether the body has been redirected now or earlier
    have hbefore := hj.siteLeads hq hp hpc fun _ => hout
    obtain ⟨hlow', -, -, -, hstop⟩ := q.bounds j.layoutEnv
    have hsite := (hj.site_bounds hq hp hpc).2
    exact hbefore.congr h.config h.table h.stubs h.size (fun _ => id) fun o hlow hhigh =>
      hbyte q hq o (by omega) (by omega) fun _ _ _ => by omega

end Invalidated

/-! ## Compiling a block -/

variable {l : Jit} {num : Nat} {entry : BlockEntry} {n : Native} {ps : List Piece}

/-- A link to a compiled block leads to its guard. -/
theorem Retains.linkTarget (hj : j.Retains T) (ht : j.Tabled) {pc : UInt32} {a : UInt64}
    (ha : j.linkTarget pc = some a) : j.Guards T pc a := by
  obtain ⟨m, hfind, hchecked⟩ := Option.bind_eq_some_iff.mp ha
  obtain ⟨e, hfound, -, hstart⟩ := (ht.standing pc m).mp hfind
  rw [checkedEntry, Links.checked?] at hchecked
  obtain ⟨c, hc, rfl⟩ := Option.map_eq_some_iff.mp hchecked
  obtain ⟨n, hnative, rfl⟩ := Option.map_eq_some_iff.mp hc
  obtain ⟨_, ps, hcopy, -, hat⟩ := (ht.native m n).mp hnative
  cases hfound.symm.trans hcopy.found
  exact ⟨_, hj.copies m e n.target ps hcopy, hstart, congrArg addressOf hat⟩

/-- The body that a block has just been given. -/
theorem Compiled.live (hj : j.Retains T) (ht : j.Tabled) (h : j.Compiled l num entry.block n ps)
    (hsub : ∀ q, T q → T' q) : l.Live T' ⟨num, entry.block, n.target, ps⟩ := by
  refine ⟨fun p hp => ?_, fun hdiagnostics => ?_, ?_, fun p hp pc hpc => ?_⟩
  · rw [h.config]
    exact (h.written.held p hp).lead
  · rw [h.config] at hdiagnostics
    rw [h.layoutEnv_eq, h.config]
    exact h.written.report hdiagnostics
  · rw [h.layoutEnv_eq]
    exact h.written.padding
  · have hsite := (h.written.held p hp).site pc hpc
    rw [SiteLeads, h.stubs, h.config]
    simp only [Guards, h.layoutEnv_eq]
    rw [siteCode] at hsite
    split at hsite
    · rename_i hlink
      refine ⟨j.linkTarget pc, hsite.left, fun a ha => ⟨hlink, ?_⟩⟩
      obtain ⟨q, hq, hguard⟩ := hj.linkTarget ht ha
      exact ⟨q, hsub q hq, hguard⟩
    · refine ⟨none, hsite, ?_⟩
      rintro a ⟨⟩

/-- Compiling a valid block redirects no body. -/
theorem Compiled.redirected_iff (hfound : j.blocks.get? num = some entry) (hvalid : entry.valid)
    (h : j.Compiled l num entry.block n ps) : l.Redirected q ↔ j.Redirected q := by
  rw [Redirected, Redirected, h.blocks, Blocks.get?_setTarget]
  split
  · rename_i hnum
    rw [hnum, hfound]
    constructor
    · rintro ⟨e, ⟨⟩, -, hinvalid, -⟩
      exact absurd (hvalid.symm.trans hinvalid) (by decide)
    · rintro ⟨e, ⟨⟩, -, hinvalid, -⟩
      exact absurd (hvalid.symm.trans hinvalid) (by decide)
  · exact Iff.rfl

/-- Compiling a block adds its body. -/
theorem Retains.compiled (hj : j.Retains T) (ht : j.Tabled)
    (hready : j.Ready) (hfound : j.blocks.get? num = some entry) (hvalid : entry.valid)
    (h : j.Compiled l num entry.block n ps) :
    l.Retains fun q => T q ∨ q = ⟨num, entry.block, n.target, ps⟩ := by
  have henv := h.layoutEnv_eq
  have hlow : copyLow j.layoutEnv n.target = j.code.cursor := h.low
  have hget : ∀ m, l.blocks.get? m =
      if m = num then (j.blocks.get? m).map fun e => { e with target := some n.target }
      else j.blocks.get? m := fun m => by
    rw [h.blocks, Blocks.get?_setTarget]
  -- the block is valid, so that compiling it makes no body a redirected one, and none other
  have hredirected : ∀ q, l.Redirected q ↔ j.Redirected q := fun q =>
    h.redirected_iff hfound hvalid
  constructor
  case registered =>
    rintro q (hq | rfl)
    · obtain ⟨e, hfound', hblock⟩ := hj.registered q hq
      rw [hget, hfound']
      split
      · exact ⟨_, rfl, hblock⟩
      · exact ⟨e, rfl, hblock⟩
    · rw [hget, if_pos rfl, hfound]
      exact ⟨_, rfl, rfl⟩
  case pieces =>
    rintro q (hq | rfl)
    · rw [henv]
      exact hj.pieces q hq
    · exact (h.copy_self hfound).pieces
  case low =>
    rintro q (hq | rfl)
    · rw [henv, h.config, h.stubs]
      exact hj.low q hq
    · rw [henv, h.config, h.stubs, hlow]
      exact ⟨hready.low, h.written.low⟩
  case high =>
    rintro q (hq | rfl)
    · rw [henv]
      exact Nat.le_trans (hj.high q hq) h.code.cursor
    · rw [henv]
      exact Nat.le_of_eq h.cursor.symm
  case apart =>
    rw [henv]
    -- the new body starts at the old cursor, above all others
    have hnew : ∀ q, T q → q.Apart j.layoutEnv ⟨num, entry.block, n.target, ps⟩ := fun q hq =>
      .inr (.inl (by rw [hlow]; exact hj.high q hq))
    rintro q r (hq | rfl) (hr | rfl)
    · exact hj.apart q r hq hr
    · exact hnew q hq
    · exact (hnew r hr).symm
    · exact .inl rfl
  case copies =>
    intro m e t ps' hl
    obtain ⟨rfl, rfl, rfl, rfl⟩ | ⟨-, hcopy⟩ := h.copy_cases hfound hl
    · exact .inr rfl
    · exact .inl (hj.copies m e t ps' hcopy)
  case guards =>
    intro hlink q hq
    rw [h.config] at hlink
    rw [henv]
    rcases hq with hq | rfl
    · refine h.code.holds (hj.guards hlink q hq) ?_
      have hguard := guard_bounds j.layoutEnv hlink (hj.low q hq).2 q.pieces
      have hhigh := hj.high q hq
      rw [codeSize_guardCode]
      omega
    · have hchecked : n.checked = checkedAt j.layoutEnv n.target ps := h.written.checked
      rw [← hchecked]
      exact h.written.guard hlink
  case live =>
    -- old bodies lie below the old cursor, where no byte has changed
    rintro q (hq | rfl) hnot
    · rw [hredirected] at hnot
      refine (hj.live q hq hnot).congr (hj.pieces q hq) h.config h.table h.stubs h.code.size
        (fun _ => .inl) fun o _ hhigh => h.code.byte o ?_
      obtain ⟨-, -, -, -, hstop⟩ := q.bounds j.layoutEnv
      have hcursor := hj.high q hq
      omega
    · exact h.live hj ht fun _ => .inl
  case redirected =>
    rintro q (hq | rfl) hred
    · rw [hredirected] at hred
      rw [h.stubs]
      refine h.code.holds (hj.redirected q hq hred) ?_
      obtain ⟨-, -, hbody, -, hstop⟩ := q.bounds j.layoutEnv
      have hcursor := hj.high q hq
      rw [codeSize_padded_redirect]
      omega
    · exact absurd ((hredirected _).mp hred) (not_redirected_of_valid hfound hvalid)
  case remains =>
    rintro q (hq | rfl) hred p hp pc hpc hout
    · rw [hredirected] at hred
      obtain ⟨-, -, -, -, hstop⟩ := q.bounds j.layoutEnv
      have hsite := (hj.site_bounds hq hp hpc).2
      have hcursor := hj.high q hq
      exact (hj.remains q hq hred p hp pc hpc hout).congr h.config h.table h.stubs h.code.size
        (fun _ => .inl) fun o _ hhigh => h.code.byte o (by omega)
    · exact absurd ((hredirected _).mp hred) (not_redirected_of_valid hfound hvalid)

/-- Exits on record are sites of the last bodies of valid blocks. -/
theorem Retains.site_of_exit (hj : j.Retains T) (ht : j.Tabled) {start : UInt32} {e : Exit}
    (he : e ∈ j.links.exitsTo start) :
    j.config.blockLink ∧ ∃ r, T r ∧ ¬ j.Redirected r ∧ ∃ p ∈ r.pieces,
      p.inst.exitDest? = some start ∧ e.offset = p.site ∧
        e.offset + exitSiteLen = p.stop j.config := by
  obtain ⟨hmem, rfl⟩ := ht.indexed.mem_exitsTo.mp he
  obtain ⟨hlink, entry, t, ps, p, hcopy, hvalid, hp, hdest, hoffset, -⟩ :=
    ht.recorded e.owner e hmem
  refine ⟨hlink, _, hj.copies _ entry t ps hcopy, not_redirected_of_valid hcopy.found hvalid, p, hp,
    hdest, hoffset, ?_⟩
  rw [hoffset, stop_of_blockLink hlink hdest]

/-- So they are sites of a given body, or apart from its code. -/
theorem Retains.exit_within (hj : j.Retains T) (ht : j.Tabled) {start : UInt32} {e : Exit}
    (he : e ∈ j.links.exitsTo start) (hq : T q) :
    ((∃ p ∈ q.pieces, p.inst.exitDest? = some start ∧ e.offset = p.site) ∧ ¬ j.Redirected q ∧
        q.target ≤ e.offset ∧ e.offset + exitSiteLen ≤ bodyEnd j.layoutEnv q.target q.pieces) ∨
      e.offset + exitSiteLen ≤ copyLow j.layoutEnv q.target ∨
      copyStop j.layoutEnv q.target q.pieces ≤ e.offset := by
  obtain ⟨-, r, hr, hnot, p, hp, hdest, hoffset, hend⟩ := hj.site_of_exit ht he
  have hbounds : _ ∧ p.stop j.config ≤ _ := piece_bounds (hj.pieces r hr) hp
  have hstart := p.start_le_site
  obtain ⟨hlow, -, -, -, hstop⟩ := r.bounds j.layoutEnv
  rcases hj.apart q r hq hr with rfl | hbefore | hbehind
  · exact .inl ⟨⟨p, hp, hdest, hoffset⟩, hnot, by omega, by omega⟩
  · exact .inr (.inr (by omega))
  · exact .inr (.inl (by omega))

/-- Pointing exits on record at the guard of a body, all of them or the first of them. -/
theorem Retains.patched (hj : j.Retains T) (ht : j.Tabled) {start : UInt32} {a : UInt64}
    {done : List Exit} (hdone : done ⊆ j.links.exitsTo start) (h : j.Relinked k done a)
    (htarget : j.Guards T start a) : k.Retains T := by
  have hresited := h.toResited.mono hdone
  have hredirected : ∀ q, k.Redirected q ↔ j.Redirected q := fun q => by
    rw [Redirected, Redirected, h.blocks]
  refine hj.transfer h.config h.table h.stubs h.size (Nat.le_of_eq h.cursor.symm)
    (fun q _ entry hfound => ⟨entry, by rw [h.blocks, hfound], rfl⟩)
    (fun num entry t ps hk => hj.copies num entry t ps (hresited.copy.mp hk))
    (fun q hq o hlow hhigh hout => h.byte o fun e he => ?_) (fun q hq hnot => ?_)
    (fun q hq hred => ?_) fun q hq hred p hp pc hpc hout => ?_
  · -- sites are in the body, and the guard is not
    rcases hj.exit_within ht (hdone he) hq with ⟨-, -, hlow', hend⟩ | haway
    · omega
    · omega
  · rw [hredirected] at hnot
    obtain ⟨hlow, -, -, -, hstop⟩ := q.bounds j.layoutEnv
    -- the sites that are patched are sites of this body, or lie outside it
    have hrepointed : j.Repointed k q done start a := by
      refine ⟨h.config, h.table, h.stubs, h.size, fun o _ _ hout => h.byte o hout, fun e he => ?_,
        fun hne => ?_, h.held⟩
      · rcases hj.exit_within ht (hdone he) hq with ⟨hin, -⟩ | hbefore | hbehind
        · exact .inl hin
        · exact .inr (.inl (Nat.le_trans hbefore hlow))
        · exact .inr (.inr (Nat.le_trans hstop hbehind))
      · obtain ⟨e, he⟩ := List.exists_mem_of_ne_nil done hne
        exact (hj.site_of_exit ht (hdone he)).1
    exact (hj.live q hq hnot).patch (hj.pieces q hq) hrepointed (fun _ => id) fun _ => htarget
  · rw [hredirected] at hred
    obtain ⟨hlow', -, hbody, -, hstop⟩ := q.bounds j.layoutEnv
    -- exits of redirected bodies are not on record, so none of theirs is patched
    refine (hj.redirected q hq hred).congr h.size fun o hlow hhigh => h.byte o fun e he => ?_
    rw [codeSize_padded_redirect] at hhigh
    rcases hj.exit_within ht (hdone he) hq with ⟨-, hnot, -⟩ | haway
    · exact absurd hred hnot
    · omega
  · rw [hredirected] at hred
    obtain ⟨hlow', -, -, -, hstop⟩ := q.bounds j.layoutEnv
    have hsite := hj.site_bounds hq hp hpc
    refine (hj.remains q hq hred p hp pc hpc hout).congr h.config h.table h.stubs h.size
      (fun _ => id) fun o hlow hhigh => h.byte o fun e he => ?_
    rcases hj.exit_within ht (hdone he) hq with ⟨-, hnot, -⟩ | haway
    · exact absurd hred hnot
    · omega

/-- Where no block has code there is no body. -/
theorem retains_of_no_code (hnone : ∀ num entry, j.blocks.get? num = some entry →
    entry.target = none) : j.Retains fun _ => False := by
  constructor
  case copies =>
    intro num entry t ps hcopy
    cases (hnone num entry hcopy.found).symm.trans hcopy.target
  all_goals simp

/-- Clearing the cache leaves no body. -/
theorem retains_of_cleared (h : j.Cleared k) : k.Retains fun _ => False := by
  refine retains_of_no_code fun num entry hfound => ?_
  rw [h.blocks, Blocks.get?_resetTargets] at hfound
  obtain ⟨e, -, rfl⟩ := Option.map_eq_some_iff.mp hfound
  rfl

/-! ## The bodies that operations leave -/

/-- A body is the code of a registered block. -/
def Shows (j : Jit) (q : Body) : Prop :=
  ∃ entry, j.Copy q.num entry q.target q.pieces ∧ entry.block = q.block

/-- The code of a registered block is among the bodies. -/
theorem Retains.of_shows (hj : j.Retains T) (hq : j.Shows q) : T q := by
  obtain ⟨entry, hcopy, hblock⟩ := hq
  have h := hj.copies q.num entry q.target q.pieces hcopy
  rw [hblock] at h
  exact h

/-- A set of bodies may be described in another way. -/
theorem Retains.congr (hj : j.Retains T) (h : ∀ q, T q ↔ T' q) : j.Retains T' :=
  funext (fun q => propext (h q)) ▸ hj

/-- Nothing is said by adding the bodies of the registered blocks. -/
theorem Retains.with_shown (hj : j.Retains T) : j.Retains fun q => T q ∨ j.Shows q :=
  hj.congr fun _ => ⟨.inl, fun h => h.elim id hj.of_shows⟩

/-- Invalidating keeps all bodies, whatever the platform refuses. -/
theorem Retains.invalidate (hj : j.Retains T) (hlaid : j.Laid) (num : Nat) :
    (after (invalidate num j)).Retains T := by
  cases hfound : j.blocks.get? num with
  | none =>
    rw [invalidate_unknown hfound]
    exact hj
  | some entry =>
    rcases invalidate_cases hlaid hfound with ⟨k, hk, hinvalidated, -⟩ | ⟨_, _, _, hk, hlogged, -⟩
    · rw [hk]
      exact hj.invalidated hlaid hinvalidated
    · rw [hk]
      exact hj.grows (.of_host hlogged.later)

/-- So does invalidating what is registered at an address. -/
theorem Retains.invalidatePc (hj : j.Retains T) (hlaid : j.Laid) (pc : UInt32) :
    (after (invalidatePc pc j)).Retains T := by
  rw [Jit.invalidatePc, bind_of_ok (get_apply j)]
  cases j.blocks.find? pc with
  | none => exact hj
  | some num =>
    dsimp only
    rw [after_bind_pure]
    exact hj.invalidate hlaid num

/-- So does registering a block in place of another. -/
theorem Retains.addBlock (hj : j.Retains T) (hlaid : j.Laid) (b : Block) :
    (after (addBlock b j)).Retains T := by
  have hpc := hj.invalidatePc hlaid b.start
  rw [Jit.addBlock, bind_apply, BlockEntry.block_new]
  cases h : Jit.invalidatePc b.start j with
  | error e k =>
    rw [h] at hpc
    exact hpc
  | ok found k =>
    rw [h] at hpc
    exact hpc.added b

/-- Compiling a block and linking it adds its body, if it comes to be compiled. -/
theorem Retains.compileAndLink (hj : j.Retains T) (htidy : j.Tidy) (preload : Bool)
    (hfound : j.blocks.get? num = some entry) (hvalid : entry.valid) :
    (after ((compileBlock num preload >>= fun _ => linkBlock num) j)).Retains fun q =>
      T q ∨ (after ((compileBlock num preload >>= fun _ => linkBlock num) j)).Shows q := by
  cases h : compileBlock num preload j with
  | error e k =>
    rw [bind_of_error h]
    exact (hj.grows (compileBlock_error htidy.laid.ready.draft h).1).with_shown
  | ok _ l =>
    obtain ⟨entry', n, ps, hfound', hcompiled⟩ := compileBlock_spec htidy.laid.ready.reaches
      htidy.laid.ready.high htidy.laid.ready.size_le htidy.laid.ready.draft h
    cases hfound.symm.trans hfound'
    have hl := hj.compiled htidy.tabled htidy.laid.ready hfound hvalid hcompiled
    have ht := htidy.tabled.compiled hfound hvalid hcompiled
    -- the exits on record are pointed at the guard of the new body
    have htarget : l.Guards (fun q => T q ∨ q = ⟨num, entry.block, n.target, ps⟩)
        entry.block.start (addressOf n.checked) := by
      refine ⟨_, .inr rfl, rfl, congrArg addressOf ?_⟩
      rw [hcompiled.layoutEnv_eq]
      exact hcompiled.written.checked
    have hpatched : ∀ {k : Jit} {done : List Exit},
        done ⊆ l.links.exitsTo entry.block.start → l.Relinked k done (addressOf n.checked) →
          k.Retains fun q => T q ∨ k.Shows q := by
      intro k done hsub hlinked
      refine (hl.patched ht hsub hlinked htarget).with_shown.congr fun q => ?_
      constructor
      · rintro ((hq | rfl) | hq)
        · exact .inl hq
        · exact .inr ⟨_, hlinked.toResited.copy.mpr (hcompiled.copy_self hfound), rfl⟩
        · exact .inr hq
      · exact Or.imp_left .inl
    rw [bind_of_ok h]
    rcases (linkBlock_cases htidy hfound hvalid hcompiled).2 with
      ⟨k, hk, hlinked⟩ | ⟨_, _, k, done, left, hk, hsites, -, hlinked, -⟩
    · rw [hk]
      exact hpatched (List.Subset.refl _) hlinked
    · rw [hk]
      exact hpatched (by rw [hsites]; exact List.subset_append_left done left) hlinked

end

/-- There is no space left for a block, and compiling it empties the cache. -/
def outgrows (j : Jit) (preload : Bool) (num : Nat) : Bool :=
  match j.blocks.get? num with
  | some entry =>
    entry.valid &&
      match compileBlock num preload j with
      | .error e _ => e.isOutOfSpace
      | .ok _ _ => false
  | none => false

/-- An operation empties the cache. -/
def clears (j : Jit) : Op → Bool
  | .clearCache => true
  | .compile num => j.outgrows false num
  | .preload num => j.outgrows true num
  | .addAndCompile b =>
    match Jit.addBlock b j with
    | .ok num k => k.outgrows false num
    | .error _ _ => false
  | _ => false

/-- One of the operations empties the cache. -/
def clearsIn (j : Jit) : List Op → Bool
  | [] => false
  | op :: ops => j.clears op || (j.apply op).clearsIn ops

/-- The bodies in the cache after operations: each was the code of a block at some point, and the
cache has not been cleared since. -/
def Bodies (j : Jit) (ops : List Op) (q : Body) : Prop :=
  ∃ early late, ops = early ++ late ∧ (j.applyAll early).Shows q ∧
    (j.applyAll early).clearsIn late = false

section

variable {j : Jit} {T : Body → Prop}

/-- A block that fits is compiled in the state given. -/
theorem compileOrClear_of_fits {preload : Bool} {num : Nat} {entry : BlockEntry}
    (hfound : j.blocks.get? num = some entry) (hvalid : entry.valid)
    (hfits : j.outgrows preload num = false) :
    compileOrClear num preload j = compileBlock num preload j := by
  rw [compileOrClear, tryCatch_apply]
  cases h : compileBlock num preload j with
  | ok a l => rfl
  | error e k =>
    rw [outgrows, hfound] at hfits
    simp only [h, hvalid, Bool.true_and] at hfits
    dsimp only
    rw [if_neg (by rw [hfits]; decide)]
    rfl

/-- A block that does not fit is compiled with an empty cache. -/
theorem compileOrClear_of_outgrows (hlaid : j.Laid) {preload : Bool} {num : Nat}
    (houtgrows : j.outgrows preload num) :
    ∃ k i, j.Grows k ∧ k.draft = j.draft ∧ k.Cleared i ∧
      compileOrClear num preload j = compileBlock num preload i := by
  rw [outgrows] at houtgrows
  split at houtgrows
  · rename_i entry hfound
    rw [Bool.and_eq_true] at houtgrows
    obtain ⟨-, hspace⟩ := houtgrows
    split at hspace
    · rename_i e k h
      obtain ⟨hgrows, hdraft, -⟩ := compileBlock_error hlaid.ready.draft h
      obtain ⟨i, hi, hcleared, -⟩ := clearAll_spec { k with code := k.code.note (.outOfSpace num) }
      refine ⟨_, i, hgrows.trans (keeps_note (.outOfSpace num) k).grows,
        hdraft.trans hlaid.ready.draft.symm, hcleared, ?_⟩
      rw [compileOrClear, tryCatch_apply, h]
      dsimp only
      rw [if_pos hspace, note, bind_of_ok (modify_apply _ _), bind_of_ok hi]
    · cases hspace
  · cases houtgrows

/-- After compiling, the bodies are the old ones, unless the cache was cleared, and those of
registered blocks. -/
theorem Retains.compileAs (hj : j.Retains T) (htidy : j.Tidy) (preload : Bool) (num : Nat) :
    (after (compileAs preload num j)).Retains fun q =>
      (T q ∧ j.outgrows preload num = false) ∨ (after (compileAs preload num j)).Shows q := by
  -- a block that is not there or not valid is not compiled
  have hsame : j.outgrows preload num = false →
      j.Retains fun q => (T q ∧ j.outgrows preload num = false) ∨ j.Shows q := fun hfits =>
    hj.with_shown.congr fun q => by rw [and_iff_left hfits]
  rw [Jit.compileAs, bind_of_ok (get_apply j)]
  cases hfound : j.blocks.get? num with
  | none => exact hsame (by rw [outgrows, hfound])
  | some entry =>
    dsimp only
    by_cases hvalid : entry.valid
    · rw [if_pos hvalid]
      cases houtgrows : j.outgrows preload num with
      | false =>
        have heq : (do compileOrClear num preload; linkBlock num : Action Jit Unit) j =
            (do compileBlock num preload; linkBlock num : Action Jit Unit) j := by
          rw [bind_apply, bind_apply, compileOrClear_of_fits hfound hvalid houtgrows]
        rw [heq]
        exact (hj.compileAndLink htidy preload hfound hvalid).congr fun q => by
          rw [and_iff_left rfl]
      | true =>
        obtain ⟨k, i, hgrows, hdraft, hcleared, heq⟩ :=
          compileOrClear_of_outgrows htidy.laid houtgrows
        have hk : k.Tidy := ⟨htidy.laid.grows hgrows hdraft, htidy.tabled.grows hgrows⟩
        have heq' : (do compileOrClear num preload; linkBlock num : Action Jit Unit) j =
            (do compileBlock num preload; linkBlock num : Action Jit Unit) i := by
          rw [bind_apply, bind_apply, heq]
        have hfound' : i.blocks.get? num = some { entry with target := none } := by
          rw [hcleared.blocks, Blocks.get?_resetTargets, hgrows.blocks, hfound]
          rfl
        rw [heq']
        exact ((retains_of_cleared hcleared).compileAndLink (hk.cleared hcleared).toTidy preload
          hfound' hvalid).congr fun q => by simp
    · rw [if_neg hvalid]
      exact hsame (by simp [outgrows, hfound, hvalid])

/-- An operation keeps the bodies, unless it empties the cache. -/
theorem Retains.apply (hj : j.Retains T) (htidy : j.Tidy) (op : Op) :
    (j.apply op).Retains fun q => (T q ∧ j.clears op = false) ∨ (j.apply op).Shows q := by
  -- all operations but compiling and clearing keep the bodies
  have hkept : ∀ {k : Jit}, k.Retains T → k.Retains fun q => (T q ∧ false = false) ∨ k.Shows q :=
    fun hk => hk.with_shown.congr fun q => by rw [and_iff_left rfl]
  cases op with
  | addBlock b =>
    rw [Jit.apply, OpWith.run, after_bind_pure]
    exact hkept (hj.addBlock htidy.laid b)
  | compile num => exact hj.compileAs htidy false num
  | preload num => exact hj.compileAs htidy true num
  | addAndCompile b =>
    rw [Jit.apply, OpWith.run, after_bind_pure, clears, Jit.addAndCompile, bind_apply, entry_eq_new]
    have hadded := hj.addBlock htidy.laid b
    have hchanges : Changes (fun _ => True) (fun _ => True) j (after (Jit.addBlock b j)) :=
      addBlock_changes htidy trivial fun _ _ => trivial
    cases h : Jit.addBlock b j with
    | error e k =>
      rw [h] at hadded
      exact hkept hadded
    | ok num k =>
      rw [h] at hadded hchanges
      dsimp only
      rw [after_bind_pure]
      exact hadded.compileAs (htidy.changes hchanges) false num
  | invalidate num => exact hkept (hj.invalidate htidy.laid num)
  | invalidatePc pc =>
    rw [Jit.apply, OpWith.run, after_bind_pure]
    exact hkept (hj.invalidatePc htidy.laid pc)
  | clearCache =>
    obtain ⟨k, hk, hcleared, -⟩ := clearAll_spec j
    rw [Jit.apply, OpWith.run, Jit.clearCache, hk]
    exact (retains_of_cleared hcleared).with_shown.congr fun q => by simp [clears]

theorem applyAll_append (j : Jit) (early late : List Op) :
    j.applyAll (early ++ late) = (j.applyAll early).applyAll late :=
  List.foldl_append

/-- The cache is cleared in one part of a sequence or in the other. -/
theorem clearsIn_append (j : Jit) (early late : List Op) :
    j.clearsIn (early ++ late) = (j.clearsIn early || (j.applyAll early).clearsIn late) := by
  induction early generalizing j with
  | nil => rfl
  | cons op early ih => rw [List.cons_append, clearsIn, clearsIn, ih, Bool.or_assoc]; rfl

/-- Without operations, the bodies are those of registered blocks. -/
theorem bodies_nil (j : Jit) (q : Body) : j.Bodies [] q ↔ j.Shows q := by
  constructor
  · rintro ⟨early, late, happend, hshows, -⟩
    obtain ⟨rfl, rfl⟩ := List.append_eq_nil_iff.mp happend.symm
    exact hshows
  · exact fun hshows => ⟨[], [], rfl, hshows, rfl⟩

/-- What one more operation does to the bodies. -/
theorem bodies_concat (j : Jit) (ops : List Op) (op : Op) (q : Body) :
    j.Bodies (ops ++ [op]) q ↔ (j.Bodies ops q ∧ (j.applyAll ops).clears op = false) ∨
      (j.applyAll (ops ++ [op])).Shows q := by
  constructor
  · rintro ⟨early, late, happend, hshows, hclears⟩
    rcases List.eq_nil_or_concat late with rfl | ⟨late, op', rfl⟩
    · rw [List.append_nil] at happend
      rw [happend]
      exact .inr hshows
    · rw [List.concat_eq_append, ← List.append_assoc] at happend
      obtain ⟨rfl, hop⟩ := List.append_inj' happend rfl
      cases hop
      rw [List.concat_eq_append, clearsIn_append, Bool.or_eq_false_iff] at hclears
      refine .inl ⟨⟨early, late, rfl, hshows, hclears.1⟩, ?_⟩
      rw [applyAll_append]
      simpa [clearsIn] using hclears.2
  · rintro (⟨⟨early, late, rfl, hshows, hclears⟩, hop⟩ | hshows)
    · refine ⟨early, late ++ [op], List.append_assoc .., hshows, ?_⟩
      rw [applyAll_append] at hop
      rw [clearsIn_append, hclears]
      simpa [clearsIn] using hop
    · exact ⟨ops ++ [op], [], (List.append_nil _).symm, hshows, rfl⟩

end

/-- The cache has the code of all blocks compiled since it was last cleared. -/
theorem retains_applyAll {config : Config} {table : HandlerTable} {host host' : Host} {j : Jit}
    (hcreate : create config table host = .ok j host') (ops : List Op) :
    (j.applyAll ops).Retains (j.Bodies ops) := by
  induction ops using List.reverseRecOn with
  | nil =>
    have hnone : ∀ num, j.blocks.get? num = none := fun num => by
      rw [(create_spec hcreate).blocks]
      rfl
    refine (retains_of_no_code fun num entry hfound => ?_).congr fun q => ?_
    · cases (hnone num).symm.trans hfound
    · rw [bodies_nil]
      refine ⟨False.elim, ?_⟩
      rintro ⟨entry, hcopy, -⟩
      cases (hnone q.num).symm.trans hcopy.found
  | append_singleton ops op ih =>
    have hstep := ih.apply (tidy_applyAll hcreate ops) op
    have happly : (j.applyAll ops).apply op = j.applyAll (ops ++ [op]) :=
      (applyAll_append j ops [op]).symm
    rw [happly] at hstep
    exact hstep.congr fun q => (bodies_concat j ops op q).symm

end Jit

end Dynarec
