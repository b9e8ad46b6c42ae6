import Dynarec.Jit.Engine
import Dynarec.Proofs.Jit.Ready

/-!
# Patching code in place

Exits are linked and blocks are redirected by overwriting code that is already in the cache.  A
patch changes the bytes of its range only (`Patched`).  Its code fits its range, and everything in
the region is in reach of everything else, so that it fails only if the platform refuses it; then
nothing has changed (`overwrite_cases`).  Linking patches a list of exit sites, one after the other,
with the same jump (`overwriteExits_cases`).

What happens to the region on the way keeps to windows (`Logged`).
-/

namespace Dynarec

open Lower Dynarec.Action CodeCache

/-! ## Branches inside the region -/

namespace Insn

/-- Places in the region are in reach of each other. -/
theorem distance?_addressOf {m n : Nat} (hpos : 0 < m) (hm : m ≤ 2 ^ 31) (hn : n ≤ 2 ^ 31) :
    (distance? (addressOf m) (addressOf n)).isSome := by
  have hd : (addressOf n - addressOf m).toNat = (2 ^ 64 + n - m) % 2 ^ 64 := by
    rw [UInt64.toNat_sub, toNat_addressOf hm, toNat_addressOf hn]
    have hlt : codeBase.toNat + m ≤ 2 ^ 64 := by
      simp only [codeBase, UInt64.reduceToNat]
      omega
    omega
  simp only [distance?]
  rw [if_pos]
  · rfl
  · rw [UInt64.lt_iff_toNat_lt, UInt64.le_iff_toNat_le, hd]
    simp only [UInt64.reduceToNat]
    omega

/-- Code branches to places in the region only. -/
def BranchesNear (is : List Insn) : Prop :=
  ∀ i ∈ is, ∀ t, i.target? = some t → ∃ n, n ≤ 2 ^ 31 ∧ t = addressOf n

/-- Places in the region are above its base, where no label of a piece is. -/
theorem BranchesNear.far {is : List Insn} (h : BranchesNear is) : BranchesFar is := by
  intro i hi t ht
  obtain ⟨n, hn, rfl⟩ := h i hi t ht
  exact codeBase_le_addressOf hn

/-- Code that branches to places in the region only has machine code anywhere in the region. -/
theorem exists_encodeList? {is : List Insn} {offset : Nat} (htargets : BranchesNear is)
    (hle : offset + codeSize is ≤ 2 ^ 31) :
    ∃ bs, encodeList? (addressOf offset) is = some bs := by
  induction is generalizing offset with
  | nil => exact ⟨[], rfl⟩
  | cons i is ih =>
    rw [codeSize_cons] at hle
    have hrest : offset + i.size + codeSize is ≤ 2 ^ 31 := by omega
    obtain ⟨codes, hcodes⟩ := ih (fun k hk => htargets k (List.mem_cons_of_mem _ hk)) hrest
    have hcode : ∃ code, i.encode? (addressOf offset) = some code := by
      rw [encode?]
      cases htarget : i.target? with
      | none => exact ⟨_, rfl⟩
      | some t =>
        obtain ⟨n, hn, rfl⟩ := htargets i List.mem_cons_self t htarget
        have hpos := i.size_pos
        have hsome := distance?_addressOf (m := offset + i.size) (by omega) (by omega) hn
        obtain ⟨rel, hrel⟩ := Option.isSome_iff_exists.mp hsome
        refine ⟨i.bytes rel, ?_⟩
        dsimp only
        rw [← addressOf_add, hrel]
        rfl
    obtain ⟨code, hcode⟩ := hcode
    rw [addressOf_add] at hcodes
    exact ⟨_, encodeList?_cons_eq_some.mpr ⟨code, codes, hcode, hcodes, rfl⟩⟩

end Insn

/-! ## One patch -/

/-- The code of a patch: its instructions, and padding. -/
def padded (is : List Insn) (len : Nat) : List Insn :=
  is ++ List.replicate (len - codeSize is) .int3

/-- Padded code has the length that it is padded to. -/
theorem codeSize_padded {is : List Insn} {len : Nat} (h : codeSize is ≤ len) :
    codeSize (padded is len) = len := by
  rw [padded, Insn.codeSize_append, Insn.codeSize_replicate_int3]
  omega

/-- Whether this is a change of access that was refused. -/
def MemoryEvent.refused : MemoryEvent → Bool
  | protect _ _ _ granted => !granted
  | write _ _ => false

namespace Jit

/-- Assembling instructions in an empty draft gives their code and leaves the draft empty. -/
theorem assembleAt_insns {j : Jit} (hasm : j.draft.asm = .empty) {offset : Nat} {is : List Insn}
    {bs : List UInt8} (hfar : BranchesFar is)
    (hbs : Insn.encodeList? (addressOf offset) is = some bs) :
    (do onDraft (Emit.insns is); assembleAt (addressOf offset) [] : Action Jit Assembled) j =
      .ok { bytes := bs, labels := [] } j := by
  have hemit : onDraft (Emit.insns is) j =
      .ok ⟨⟩ { j with draft := { j.draft with asm := is.foldl Assembler.emit .empty } } := by
    rw [← hasm]
    exact onDraft_eq_ok.mpr ⟨_, rfl, rfl⟩
  rw [bind_of_ok hemit, assembleAt_apply, assemble_insns, assembleItems_insns hfar hbs, ← hasm]

/-- A range has been overwritten, and nothing else has changed but the platform. -/
structure Patched (j k : Jit) (offset len : Nat) (is : List Insn) : Prop where
  config : k.config = j.config
  table : k.table = j.table
  stubs : k.stubs = j.stubs
  blocks : k.blocks = j.blocks
  links : k.links = j.links
  draft : k.draft = j.draft
  size : k.code.size = j.code.size
  cursor : k.code.cursor = j.code.cursor
  byte : ∀ o, ¬ (offset ≤ o ∧ o < offset + len) → k.code.byte o = j.code.byte o
  held : k.code.Holds offset (padded is len)

/-- No change of access to the code region has been refused. -/
def Unrefused (j : Jit) : Prop :=
  ∀ e ∈ j.code.host.events, e.refused = false

instance (j : Jit) : Decidable j.Unrefused :=
  inferInstanceAs (Decidable (∀ e ∈ j.code.host.events, e.refused = false))

/-- What has happened to the code region stays on record. -/
def Later (j k : Jit) : Prop :=
  j.code.host.events <:+ k.code.host.events

/-- What has not been refused by now had not been refused before. -/
theorem Unrefused.of_later {j k : Jit} (hk : k.Unrefused) (h : j.Later k) : j.Unrefused :=
  fun e he => hk e (h.subset he)

/-- What happened to the code region in between keeps to the pages of blocks and to windows. -/
structure Logged (j k : Jit) : Prop where
  stubs : k.stubs = j.stubs
  code : j.code.Logged j.stubs.blocksStart k.code

namespace Logged

variable {j k l : Jit}

/-- Nothing has happened between a state and itself. -/
theorem refl (j : Jit) : j.Logged j :=
  ⟨rfl, .refl _ _⟩

/-- What happened goes on record in order. -/
theorem trans (hjk : j.Logged k) (hkl : k.Logged l) : j.Logged l :=
  ⟨hkl.stubs.trans hjk.stubs, hjk.code.trans (hjk.stubs ▸ hkl.code)⟩

/-- Nothing happened to the code region. -/
theorem of_events (hstubs : k.stubs = j.stubs) (hsize : k.code.size = j.code.size)
    (hexclusive : k.code.exclusive = j.code.exclusive)
    (hevents : k.code.host.events = j.code.host.events) : j.Logged k :=
  ⟨hstubs, .of_events hsize hexclusive hevents⟩

/-- What keeps to windows is on record. -/
theorem later (h : j.Logged k) : j.Later k :=
  h.code.suffix

end Logged

/-- The region consists of whole pages, and blocks have pages of their own. -/
def Paged (j : Jit) : Prop :=
  pageSize ∣ j.code.size ∧ pageSize ∣ j.stubs.blocksStart

/-- Whether there are whole pages depends on the stubs and on the size of the region. -/
theorem Paged.congr {j k : Jit} (h : j.Paged) (hstubs : k.stubs = j.stubs)
    (hsize : k.code.size = j.code.size) : k.Paged := by
  rw [Paged, hstubs, hsize]
  exact h

/-- An action that writes inside a window for its range keeps to windows. -/
theorem logged_inWindow {α : Type} {opened : Action CodeCache (Option Window)} {x : Action Jit α}
    {j : Jit} {offset len : Nat} (hopened : opened j.code = openWindow offset len j.code)
    (hpaged : j.Paged) (hlow : j.stubs.blocksStart ≤ offset) (hpos : 0 < len)
    (hinside : offset + len ≤ j.code.size)
    (hx : ∀ host, (after (x { j with code := { j.code with host } })).stubs = j.stubs ∧
      CodeCache.Wrote offset (offset + len) { j.code with host }
        (after (x { j with code := { j.code with host } })).code) :
    j.Logged (after (inWindow opened x j)) := by
  have hwindow := logged_window hpaged.1 hpaged.2 hlow hpos hinside
  cases hopen : openWindow offset len j.code with
  | error e c =>
    have hfails : onCode opened j = .error e { j with code := c } := by
      rw [onCode, onPart, hopened, hopen]
    rw [hopen] at hwindow
    rw [inWindow, bind_of_error hfails]
    exact ⟨rfl, hwindow⟩
  | ok w c =>
    rw [hopen] at hwindow
    obtain ⟨⟨host, rfl⟩, hclosed⟩ := hwindow
    have hopens : onCode opened j = .ok w { j with code := { j.code with host } } :=
      onPart_eq_ok.mpr ⟨_, hopened.trans hopen, rfl⟩
    obtain ⟨hstubs, hwrote⟩ := hx host
    rw [inWindow, bind_of_ok hopens, andFinally]
    -- the window is closed in either case
    cases hrun : x { j with code := { j.code with host } } with
    | ok a k =>
      rw [hrun] at hstubs hwrote
      exact ⟨hstubs, hclosed _ hwrote⟩
    | error e k =>
      rw [hrun] at hstubs hwrote
      exact ⟨hstubs, hclosed _ hwrote⟩

/-! ## Overwriting a range -/

/-- A window opens, unless the platform refuses it. -/
theorem openWindow_cases (offset len : Nat) (c : CodeCache) :
    (∃ w host, openWindow offset len c = .ok w { c with host }) ∨
      ∃ o n host, openWindow offset len c = .error (.protection o n .accessDenied) { c with host } ∧
        ∃ x ∈ host.events, x.refused = true := by
  rw [openWindow_apply]
  split
  · exact .inl ⟨none, c.host, rfl⟩
  · dsimp only
    split
    · exact .inl ⟨_, _, rfl⟩
    · rename_i hgranted
      refine .inr ⟨_, _, _, rfl, _, List.mem_cons_self, ?_⟩
      simpa [MemoryEvent.refused, Host.protect] using hgranted

/-- The machine code of a patch is written inside a window for its range. -/
theorem overwrite_eq {j : Jit} {offset len : Nat} {is : List Insn} {n : Notice}
    (hasm : j.draft.asm = .empty) (hnear : Insn.BranchesNear is) (hinside : offset + len ≤ j.code.size)
    (hsize : j.code.size ≤ 2 ^ 31) (hlen : codeSize is ≤ len) :
    ∃ bs, Insn.encodeList? (addressOf offset) (padded is len) = some bs ∧ bs.length = len ∧
      overwrite offset is len n j =
        inWindow (openWindow offset len) (do
          modify fun j => { j with code := j.code.write offset bs }
          note n) j := by
  obtain ⟨code, hcode⟩ := Insn.exists_encodeList? hnear
    (show offset + codeSize is ≤ 2 ^ 31 by omega)
  have hsize' := Insn.length_of_encodeList? hcode
  have hpad : padPatch code len = .ok (code ++ List.replicate (len - codeSize is) 0xcc) := by
    rw [padPatch, if_neg (by omega), hsize']
  have hpadded : Insn.encodeList? (addressOf offset) (padded is len) =
      some (code ++ List.replicate (len - codeSize is) 0xcc) :=
    Insn.encodeList?_append_eq_some.mpr ⟨code, _, hcode, Insn.encodeList?_replicate_int3 _ _, rfl⟩
  have hbytes : (code ++ List.replicate (len - codeSize is) (0xcc : UInt8)).length = len := by
    rw [Insn.length_of_encodeList? hpadded, codeSize_padded hlen]
  refine ⟨_, hpadded, hbytes, ?_⟩
  rw [overwrite, ← bind_assoc, bind_of_ok (assembleAt_insns hasm hnear.far hcode),
    bind_of_ok (ofExcept_eq_ok.mpr ⟨hpad, rfl⟩), hbytes]

/-- A patch changes its range, or the platform refuses it and nothing changes. -/
theorem overwrite_cases {j : Jit} {offset len : Nat} {is : List Insn} (n : Notice)
    (hasm : j.draft.asm = .empty) (hnear : Insn.BranchesNear is)
    (hinside : offset + len ≤ j.code.size) (hsize : j.code.size ≤ 2 ^ 31)
    (hlen : codeSize is ≤ len) :
    (∃ k, overwrite offset is len n j = .ok ⟨⟩ k ∧ Patched j k offset len is) ∨
      ∃ o m host, overwrite offset is len n j =
          .error (.protection o m .accessDenied) { j with code := { j.code with host } } ∧
        ¬ ({ j with code := { j.code with host } } : Jit).Unrefused := by
  obtain ⟨bs, hcode, hbytes, hrun⟩ := overwrite_eq (n := n) hasm hnear hinside hsize hlen
  rw [hrun]
  rcases openWindow_cases offset len j.code with
    ⟨w, host, hopen⟩ | ⟨o, m, host, hopen, x, hx, hrefused⟩
  · left
    have hwindow : onCode (openWindow offset len) j =
        .ok w { j with code := { j.code with host } } := onPart_eq_ok.mpr ⟨_, hopen, rfl⟩
    obtain ⟨host', hclosed⟩ := same_closeWindow w
      ((({ j.code with host } : CodeCache).write offset bs).note n)
    refine ⟨{ j with code := { j.code.write offset bs with host := host' } }, ?_, ?_⟩
    · rw [inWindow, bind_of_ok hwindow]
      refine andFinally_eq_ok.mpr ⟨_, rfl, ?_⟩
      exact congrArg (fun code => ({ j with code } : Jit)) hclosed.symm
    · have hheld : (j.code.write offset bs).Holds offset (padded is len) :=
        holds_write hcode (by omega)
      refine ⟨rfl, rfl, rfl, rfl, rfl, rfl, rfl, rfl, fun o ho => ?_,
        hheld.congr rfl fun _ _ _ => rfl⟩
      -- a byte outside the range is in front of it or behind it
      show (j.code.write offset bs).byte o = j.code.byte o
      by_cases hlow : o < offset
      · exact byte_write_of_lt hlow bs
      · exact byte_write_of_le (by omega)
  · right
    have hfails : onCode (openWindow offset len) j =
        .error (.protection o m .accessDenied) { j with code := { j.code with host } } := by
      rw [onCode, onPart, hopen]
    refine ⟨o, m, host, by rw [inWindow, bind_of_error hfails], fun hunrefused => ?_⟩
    cases hrefused.symm.trans (hunrefused x hx)

/-- A patch keeps to a window, whether or not it is refused. -/
theorem logged_overwrite {j : Jit} {offset len : Nat} {is : List Insn} (n : Notice)
    (hasm : j.draft.asm = .empty) (hpaged : j.Paged) (hlow : j.stubs.blocksStart ≤ offset)
    (hpos : 0 < len) (hnear : Insn.BranchesNear is) (hinside : offset + len ≤ j.code.size)
    (hsize : j.code.size ≤ 2 ^ 31) (hlen : codeSize is ≤ len) :
    j.Logged (after (overwrite offset is len n j)) := by
  obtain ⟨bs, -, hbytes, hrun⟩ := overwrite_eq (n := n) hasm hnear hinside hsize hlen
  rw [hrun]
  refine logged_inWindow rfl hpaged hlow hpos hinside fun host => ⟨rfl, rfl, rfl, ?_⟩
  refine ⟨[.write offset bs.length], rfl, fun e he => ?_⟩
  obtain rfl := List.mem_singleton.mp he
  exact ⟨Nat.le_refl _, Nat.le_of_eq (by rw [hbytes])⟩

/-! ## Linking a list of exits -/

/-- Nothing has changed but the platform and the bytes of exit sites. -/
structure Resited (j k : Jit) (es : List Exit) : Prop where
  config : k.config = j.config
  table : k.table = j.table
  stubs : k.stubs = j.stubs
  blocks : k.blocks = j.blocks
  links : k.links = j.links
  draft : k.draft = j.draft
  size : k.code.size = j.code.size
  cursor : k.code.cursor = j.code.cursor
  byte : ∀ o, (∀ e ∈ es, ¬ (e.offset ≤ o ∧ o < e.offset + exitSiteLen)) →
    k.code.byte o = j.code.byte o

/-- Exit sites have been pointed at an address, and nothing else has changed but the platform. -/
structure Relinked (j k : Jit) (es : List Exit) (target : UInt64) : Prop extends
    Resited j k es where
  held : ∀ e ∈ es, k.code.Holds e.offset (padded [.jmp target] exitSiteLen)

theorem Resited.refl (j : Jit) (es : List Exit) : j.Resited j es :=
  ⟨rfl, rfl, rfl, rfl, rfl, rfl, rfl, rfl, fun _ _ => rfl⟩

theorem Resited.trans {j k l : Jit} {es : List Exit} (hjk : j.Resited k es) (hkl : k.Resited l es) :
    j.Resited l es :=
  ⟨hkl.config.trans hjk.config, hkl.table.trans hjk.table, hkl.stubs.trans hjk.stubs,
    hkl.blocks.trans hjk.blocks, hkl.links.trans hjk.links, hkl.draft.trans hjk.draft,
    hkl.size.trans hjk.size, hkl.cursor.trans hjk.cursor,
    fun o ho => (hkl.byte o ho).trans (hjk.byte o ho)⟩

theorem Resited.mono {j k : Jit} {es fs : List Exit} (h : j.Resited k es) (hsub : es ⊆ fs) :
    j.Resited k fs :=
  { h with byte := fun o ho => h.byte o fun e he => ho e (hsub he) }

/-- The patch of an exit changes its site only. -/
theorem Patched.resited {j k : Jit} {e : Exit} {is : List Insn}
    (h : j.Patched k e.offset exitSiteLen is) : j.Resited k [e] :=
  ⟨h.config, h.table, h.stubs, h.blocks, h.links, h.draft, h.size, h.cursor,
    fun o ho => h.byte o (ho e List.mem_cons_self)⟩

/-- The platform alone changes no byte. -/
theorem Resited.of_host (j : Jit) (host : Host) (es : List Exit) :
    j.Resited { j with code := { j.code with host } } es :=
  ⟨rfl, rfl, rfl, rfl, rfl, rfl, rfl, rfl, fun _ _ => rfl⟩

/-- Two ranges of the length of an exit site are the same or apart. -/
def SitesApart (o o' : Nat) : Prop :=
  o = o' ∨ o + exitSiteLen ≤ o' ∨ o' + exitSiteLen ≤ o

section

variable {j : Jit} {num n : Nat}

/-- A jump into the region stays in it. -/
theorem near_jmp (hn : n ≤ 2 ^ 31) : Insn.BranchesNear [.jmp (addressOf n)] := by
  intro i hi t ht
  obtain rfl := List.mem_singleton.mp hi
  cases ht
  exact ⟨n, hn, rfl⟩

/-- A jump fits into an exit site. -/
theorem codeSize_jmp_le (a : UInt64) : codeSize [Insn.jmp a] ≤ exitSiteLen := by
  change 5 ≤ 16
  decide

/-- Linking an exit is patching its site with a jump to the checked entry of its block. -/
theorem overwriteExit_eq {e : Exit} (hchecked : j.checkedEntry num = some (addressOf n))
    (hlen : e.len = exitSiteLen) :
    overwriteExit e.offset e.len num j =
      overwrite e.offset [.jmp (addressOf n)] exitSiteLen (.linked e.offset num (addressOf n)) j := by
  rw [overwriteExit, bind_of_ok (get_apply j), hchecked, hlen]

/-- Exit sites do not matter to the entries of blocks. -/
theorem Resited.checkedEntry_eq {k : Jit} {es : List Exit} (h : j.Resited k es) (num : Nat) :
    k.checkedEntry num = j.checkedEntry num := by
  rw [checkedEntry, checkedEntry, h.links]

/-- Linking one exit and then others links all of them: a site that is not patched again keeps its
jump. -/
theorem Patched.relinked {k l : Jit} {e : Exit} {es : List Exit} {a : UInt64}
    (hfirst : j.Patched k e.offset exitSiteLen [.jmp a]) (hrest : k.Relinked l es a)
    (hapart : ∀ e' ∈ es, SitesApart e'.offset e.offset) : j.Relinked l (e :: es) a := by
  have hsited : j.Resited l (e :: es) := (hfirst.resited.mono (by simp)).trans
    (hrest.toResited.mono (List.subset_cons_self _ _))
  refine ⟨hsited, fun e' he' => ?_⟩
  by_cases hagain : ∃ e₁ ∈ es, e₁.offset = e'.offset
  · obtain ⟨e₁, he₁, heq⟩ := hagain
    rw [← heq]
    exact hrest.held e₁ he₁
  · obtain rfl : e' = e := by
      rcases List.mem_cons.mp he' with heq | hmem
      · exact heq
      · exact absurd ⟨e', hmem, rfl⟩ hagain
    refine hfirst.held.congr hrest.size fun o hlow hhigh => hrest.byte o ?_
    intro e₁ he₁
    rw [codeSize_padded (codeSize_jmp_le _)] at hhigh
    rcases hapart e₁ he₁ with heq | hbefore
    · exact absurd ⟨e₁, he₁, heq⟩ hagain
    · omega

/-- All exits are linked, or the platform refuses one of them and exactly those before it are. -/
theorem overwriteExits_cases {es : List Exit} (hasm : j.draft.asm = .empty)
    (hchecked : j.checkedEntry num = some (addressOf n)) (hn : n ≤ 2 ^ 31)
    (hsize : j.code.size ≤ 2 ^ 31)
    (hes : ∀ e ∈ es, e.len = exitSiteLen ∧ e.offset + exitSiteLen ≤ j.code.size)
    (hapart : ∀ e ∈ es, ∀ e' ∈ es, SitesApart e.offset e'.offset) :
    (∃ k, overwriteExits num es j = .ok ⟨⟩ k ∧ Relinked j k es (addressOf n)) ∨
      ∃ o m k done left, overwriteExits num es j = .error (.protection o m .accessDenied) k ∧
        es = done ++ left ∧ left ≠ [] ∧ Relinked j k done (addressOf n) ∧ ¬ k.Unrefused := by
  induction es generalizing j with
  | nil => exact .inl ⟨j, rfl, .refl _ _, by simp⟩
  | cons e es ih =>
    obtain ⟨hlen, hinside⟩ := hes e List.mem_cons_self
    have hfirst := overwriteExit_eq hchecked hlen
    rcases overwrite_cases (.linked e.offset num (addressOf n)) hasm (near_jmp hn) hinside hsize
      (codeSize_jmp_le _) with ⟨k, hk, hpatched⟩ | ⟨o, m, host, hfails, hrefused⟩
    · have hfar : ∀ e' ∈ es, SitesApart e'.offset e.offset := fun e' he' =>
        hapart e' (List.mem_cons_of_mem _ he') e List.mem_cons_self
      rw [overwriteExits, bind_of_ok (hfirst.trans hk)]
      have hrest := ih (by rw [hpatched.draft]; exact hasm)
        ((hpatched.resited.checkedEntry_eq num).trans hchecked)
        (by rw [hpatched.size]; exact hsize)
        (fun e' he' => by rw [hpatched.size]; exact hes e' (List.mem_cons_of_mem _ he'))
        (fun e₁ h₁ e₂ h₂ => hapart e₁ (List.mem_cons_of_mem _ h₁) e₂ (List.mem_cons_of_mem _ h₂))
      rcases hrest with ⟨l, hl, hrest⟩ | ⟨o, m, l, done, left, hl, rfl, hleft, hrest, hrefused⟩
      · exact .inl ⟨l, hl, hpatched.relinked hrest hfar⟩
      · exact .inr ⟨o, m, l, e :: done, left, hl, rfl, hleft,
          hpatched.relinked hrest fun e' he' => hfar e' (List.mem_append_left _ he'), hrefused⟩
    · rw [overwriteExits, bind_of_error (hfirst.trans hfails)]
      exact .inr ⟨o, m, _, [], e :: es, rfl, rfl, by simp, ⟨.of_host _ _ _, by simp⟩, hrefused⟩

/-- Linking exits keeps to windows, whatever is refused on the way. -/
theorem logged_overwriteExits {es : List Exit} (hasm : j.draft.asm = .empty) (hpaged : j.Paged)
    (hchecked : j.checkedEntry num = some (addressOf n)) (hn : n ≤ 2 ^ 31)
    (hsize : j.code.size ≤ 2 ^ 31)
    (hes : ∀ e ∈ es, e.len = exitSiteLen ∧ j.stubs.blocksStart ≤ e.offset ∧
      e.offset + exitSiteLen ≤ j.code.size) :
    j.Logged (after (overwriteExits num es j)) := by
  induction es generalizing j with
  | nil => exact .refl j
  | cons e es ih =>
    obtain ⟨hlen, hlow, hinside⟩ := hes e List.mem_cons_self
    have hfirst := overwriteExit_eq hchecked hlen
    have hlogged := logged_overwrite (.linked e.offset num (addressOf n)) hasm hpaged hlow
      (by decide) (near_jmp hn) hinside hsize (codeSize_jmp_le _)
    rcases overwrite_cases (.linked e.offset num (addressOf n)) hasm (near_jmp hn) hinside hsize
      (codeSize_jmp_le _) with ⟨k, hk, hpatched⟩ | ⟨o, m, host, hfails, -⟩
    · rw [hk, after_ok] at hlogged
      rw [overwriteExits, bind_of_ok (hfirst.trans hk)]
      refine hlogged.trans (ih (by rw [hpatched.draft]; exact hasm)
        (hpaged.congr hpatched.stubs hpatched.size)
        ((hpatched.resited.checkedEntry_eq num).trans hchecked)
        (by rw [hpatched.size]; exact hsize) ?_)
      intro e' he'
      rw [hpatched.size, hpatched.stubs]
      exact hes e' (List.mem_cons_of_mem _ he')
    · rw [hfails] at hlogged
      rw [overwriteExits, bind_of_error (hfirst.trans hfails)]
      exact hlogged

end

end Jit

end Dynarec
