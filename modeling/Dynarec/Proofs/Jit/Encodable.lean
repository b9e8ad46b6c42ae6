import Dynarec.Proofs.Jit.Failure
import Dynarec.Proofs.Jit.Outcome

/-!
# Code can always be encoded

A branch reaches half of the address space around it that a signed word of 32 bits spans, and the
region is at most that large.  The fixed routines, the entries of blocks and the exit sites on
record are all inside it, so that every branch from one to another can be encoded wherever it
stands, at the place of a piece of code as well as where the jump of an exit is measured.  Registers
run out only when all of them are locked, which no instruction comes near (`Proofs.Lower.Bounds`).

That does not take the order of the operations: it holds when their parts are carried out on their
own, in any order and for any block, and when the platform changes its mind in between
(`Jit.Driven`).  What the parts rest on is `Jit.Fit`.
-/

namespace Dynarec

open Lower Dynarec.Action CodeCache

/-- A part of an operation, on its own. -/
inductive Part where
  /-- A block is entered into the table, whatever stands for its address. -/
  | register (b : Block)
  /-- A block is marked as invalid. -/
  | retire (num : Nat)
  | compile (num : Nat) (preload : Bool)
  | link (num : Nat)
  /-- A block is redirected and taken off the record. -/
  | redirect (num : Nat)
  | clear
  | list (count : UInt32)
  /-- The platform becomes another one. -/
  | platform (host : Host)

namespace Jit

/-- The state after a part, whether it succeeds or fails. -/
def carryOut (j : Jit) : Part → Jit
  | .register b => { j with blocks := (j.blocks.add b).2 }
  | .retire num => { j with blocks := j.blocks.invalidate num }
  | .compile num preload => after (compileBlock num preload j)
  | .link num => after (linkBlock num j)
  | .redirect num => after (invalidateBlock num j)
  | .clear => after (clearAll j)
  | .list count => { j with logBlocks := count }
  | .platform host => { j with code := { j.code with host } }

/-- One state leads to another by operations and by parts of operations, in any order. -/
inductive Driven (j : Jit) : Jit → Prop
  | refl : Driven j j
  | apply {k : Jit} (h : Driven j k) (op : Op) : Driven j (k.apply op)
  | part {k : Jit} (h : Driven j k) (p : Part) : Driven j (k.carryOut p)

/-- What the parts of operations rest on: the copies of blocks are inside the region, and the exits
on record can be patched in place. -/
structure Fit (j : Jit) : Prop where
  laid : j.Laid
  indexed : j.links.Indexed
  sites : ∀ owner, ∀ e ∈ j.links.exitsOf owner, e.len = exitSiteLen ∧
    j.stubs.blocksStart ≤ e.offset ∧ e.offset + exitSiteLen ≤ j.code.size

/-- What the parts rest on holds in a tidy state. -/
theorem Tidy.fit {j : Jit} (hj : j.Tidy) : j.Fit where
  laid := hj.laid
  indexed := hj.tabled.indexed
  sites owner e he := by
    obtain ⟨hlen, hlow, hhigh⟩ := hj.site_bounds he
    exact ⟨hlen, hlow, Nat.le_trans hhigh hj.laid.ready.high⟩

section

variable {j k : Jit} {num : Nat}

/-- Patching a list of exits changes nothing but the sites, and fails only if the platform refuses
it. -/
theorem overwriteExits_ends {es : List Exit} (hasm : j.draft.asm = .empty)
    (hsize : j.code.size ≤ 2 ^ 31)
    (hentry : ∀ a, j.checkedEntry num = some a → ∃ n ≤ 2 ^ 31, a = addressOf n)
    (hes : ∀ e ∈ es, e.len = exitSiteLen ∧ e.offset + exitSiteLen ≤ j.code.size) :
    j.Resited (after (overwriteExits num es j)) es ∧
      ∀ e k, overwriteExits num es j = .error e k → ∃ o m, e = .protection o m .accessDenied := by
  cases hchecked : j.checkedEntry num with
  | none =>
    -- without an entry to go to, no exit is patched
    have hnone : overwriteExits num es j = .ok ⟨⟩ j := by
      clear hes
      induction es with
      | nil => rfl
      | cons e es ih =>
        have hfirst : overwriteExit e.offset e.len num j = .ok ⟨⟩ j := by
          rw [overwriteExit, bind_of_ok (get_apply j), hchecked]
          rfl
        rw [overwriteExits, bind_of_ok hfirst]
        exact ih
    rw [hnone]
    exact ⟨.refl j es, fun e k h => by cases h⟩
  | some a =>
    obtain ⟨n, hn, rfl⟩ := hentry a hchecked
    clear hentry
    induction es generalizing j with
    | nil => exact ⟨.refl j [], fun e k h => by cases h⟩
    | cons e es ih =>
      obtain ⟨hlen, hinside⟩ := hes e List.mem_cons_self
      have hfirst := overwriteExit_eq hchecked hlen
      rcases overwrite_cases (.linked e.offset num (addressOf n)) hasm (near_jmp hn) hinside hsize
        (codeSize_jmp_le _) with ⟨k, hk, hpatched⟩ | ⟨o, m, host, hfails, -⟩
      · rw [overwriteExits, bind_of_ok (hfirst.trans hk)]
        obtain ⟨hresited, herrors⟩ := ih (by rw [hpatched.draft]; exact hasm)
          (by rw [hpatched.size]; exact hsize)
          (fun e' he' => by rw [hpatched.size]; exact hes e' (List.mem_cons_of_mem _ he'))
          ((hpatched.resited.checkedEntry_eq num).trans hchecked)
        exact ⟨(hpatched.resited.mono (by simp)).trans
          (hresited.mono (List.subset_cons_self _ _)), herrors⟩
      · rw [overwriteExits, bind_of_error (hfirst.trans hfails)]
        refine ⟨.of_host j host _, fun e k h => ?_⟩
        cases h
        exact ⟨o, m, rfl⟩

namespace Fit

theorem asm (hj : j.Fit) : j.draft.asm = .empty := by
  rw [hj.laid.ready.draft]
  rfl

/-- The state stays fit when copies and the record stay. -/
theorem congr (hj : j.Fit) (hlaid : k.Laid) (hstubs : k.stubs = j.stubs)
    (hsize : k.code.size = j.code.size) (hlinks : k.links = j.links) : k.Fit where
  laid := hlaid
  indexed := by
    rw [hlinks]
    exact hj.indexed
  sites := by
    rw [hlinks, hstubs, hsize]
    exact hj.sites

/-- The exits on record for an address. -/
theorem exitsTo (hj : j.Fit) {start : UInt32} {e : Exit} (he : e ∈ j.links.exitsTo start) :
    e.len = exitSiteLen ∧ j.stubs.blocksStart ≤ e.offset ∧
      e.offset + exitSiteLen ≤ j.code.size :=
  hj.sites e.owner e (hj.indexed.mem_exitsTo.mp he).1

/-! ## Linking -/

/-- Linking fails only for a block that is not registered or by a refusal. -/
theorem linkBlock_ends (hj : j.Fit) (num : Nat) :
    (after (linkBlock num j)).Fit ∧ ∀ e k, linkBlock num j = .error e k →
      (e = .unknownBlock num ∧ j.blocks.get? num = none) ∨
        ∃ o m, e = .protection o m .accessDenied := by
  rw [linkBlock, bind_of_ok (get_apply j)]
  cases hfound : j.blocks.get? num with
  | none =>
    refine ⟨hj, fun e k h => ?_⟩
    cases h
    exact .inl ⟨rfl, rfl⟩
  | some entry =>
    have hentry : ∀ a, j.checkedEntry num = some a → ∃ n ≤ 2 ^ 31, a = addressOf n := by
      intro a ha
      obtain ⟨checked, hchecked, rfl⟩ := Option.map_eq_some_iff.mp ha
      obtain ⟨n, hnative, rfl⟩ := Option.map_eq_some_iff.mp hchecked
      exact ⟨_, Nat.le_trans (hj.laid.ready.entries num n hnative) hj.laid.ready.size_le, rfl⟩
    have hsites : ∀ e ∈ j.links.exitsTo entry.block.start, e.len = exitSiteLen ∧
        e.offset + exitSiteLen ≤ j.code.size :=
      fun e he => ⟨(hj.exitsTo he).1, (hj.exitsTo he).2.2⟩
    obtain ⟨hresited, herrors⟩ := overwriteExits_ends hj.asm hj.laid.ready.size_le hentry hsites
    exact ⟨hj.congr (hresited.laid_of_low hj.laid fun e he => (hj.exitsTo he).2.1) hresited.stubs
      hresited.size hresited.links, fun e k h => .inr (herrors e k h)⟩

/-! ## Redirecting -/

/-- So does redirecting a block. -/
theorem invalidateBlock_ends (hj : j.Fit) (num : Nat) :
    (after (invalidateBlock num j)).Fit ∧ ∀ e k, invalidateBlock num j = .error e k →
      (e = .unknownBlock num ∧ j.blocks.get? num = none) ∨
        ∃ o m, e = .protection o m .accessDenied := by
  cases hfound : j.blocks.get? num with
  | none =>
    rw [invalidateBlock_unknown hfound]
    refine ⟨hj, fun e k h => ?_⟩
    cases h
    exact .inl ⟨rfl, rfl⟩
  | some entry =>
    rcases invalidateBlock_cases hj.laid hfound with
      ⟨k, hk, hblocks, hinvalidated, -⟩ | ⟨o, m, host, hk, hlogged, -⟩
    · rw [hk]
      have hready : k.Ready := (Ready.invalidated hj.laid hinvalidated).setBlocks k.blocks
      have hlinks : k.links = (j.links.eraseLinksTo entry.block.start).eraseBlock num :=
        hinvalidated.links
      refine ⟨⟨?_, ?_, fun owner e he => ?_⟩, fun e k h => by cases h⟩
      · -- entries keep their bodies until they are marked as invalid
        exact hj.laid.congr hready hinvalidated.config hinvalidated.table hinvalidated.stubs
          hinvalidated.size (Nat.le_of_eq hinvalidated.cursor.symm)
          fun _ entry _ hfound htarget => ⟨entry, by rw [← hblocks]; exact hfound, htarget, rfl⟩
      · rw [after_ok, hlinks]
        exact (hj.indexed.eraseLinksTo _).eraseBlock num
      · rw [after_ok, hlinks, Links.exitsOf_eraseBlock] at he
        split at he
        · cases he
        · have hstubs : k.stubs = j.stubs := hinvalidated.stubs
          have hsize : k.code.size = j.code.size := hinvalidated.size
          rw [after_ok, hstubs, hsize]
          exact hj.sites owner e (hj.indexed.mem_exitsOf_eraseLinksTo.mp he).1
    · rw [hk]
      refine ⟨hj.congr (hj.laid.grows (.of_host hlogged.later) rfl) rfl rfl rfl, fun e k h => ?_⟩
      cases h
      exact .inr ⟨o, m, rfl⟩

/-! ## Compiling -/

/-- A block that has been compiled has its own exits on record, all behind the old cursor. -/
theorem compiled (hj : j.Fit) {entry : BlockEntry} {n : Native} {ps : List Piece}
    (hfound : j.blocks.get? num = some entry) (h : j.Compiled k num entry.block n ps) :
    k.Fit := by
  have hlaid := hj.laid.compiled hfound h
  refine ⟨hlaid, ?_, fun owner e he => ?_⟩
  · rw [h.links]
    exact ((hj.indexed.eraseBlock num).setNative num n).foldl_addExit _
  · by_cases howner : owner = num
    · subst howner
      obtain ⟨hlink, p, hp, hdest, hoffset, hlen⟩ := h.mem_exitsOf_self he
      rw [← h.config] at hlink
      obtain ⟨hlow, hhigh⟩ := hlaid.site_bounds (h.copy_self hfound) hp hlink hdest
      rw [hoffset]
      exact ⟨hlen, hlow, Nat.le_trans hhigh hlaid.ready.high⟩
    · rw [h.exitsOf_eq, if_neg howner] at he
      rw [h.stubs, h.code.size]
      exact hj.sites owner e he

/-- So does compiling, or else there is too little space left. -/
theorem compileBlock_ends (hj : j.Fit) (num : Nat) (preload : Bool) :
    (after (compileBlock num preload j)).Fit ∧ ∀ e k, compileBlock num preload j = .error e k →
      (e = .unknownBlock num ∧ j.blocks.get? num = none) ∨
        (∃ left, e = .codeSpaceExhausted left safetyMargin ∧ left < safetyMargin) ∨
        ∃ o m, e = .protection o m .accessDenied := by
  constructor
  · cases h : compileBlock num preload j with
    | error e k =>
      obtain ⟨hgrows, hdraft, -⟩ := compileBlock_error hj.laid.ready.draft h
      exact hj.congr (hj.laid.grows hgrows (hdraft.trans hj.laid.ready.draft.symm)) hgrows.stubs
        hgrows.code.size hgrows.links
    | ok _ k =>
      obtain ⟨entry, n, ps, hfound, hcompiled⟩ := compileBlock_spec hj.laid.ready.reaches
        hj.laid.ready.high hj.laid.ready.size_le hj.laid.ready.draft h
      exact hj.compiled hfound hcompiled
  · intro e k h
    cases hfound : j.blocks.get? num with
    | none =>
      rw [compileBlock, bind_of_ok (get_apply j), hfound] at h
      cases h
      exact .inl ⟨rfl, rfl⟩
    | some entry =>
      obtain ⟨ps, -, hends⟩ := Jit.compileBlock_ends hj.laid.ready hfound preload
      rw [h] at hends
      cases hends with
      | full hfull _ => exact .inr (.inl ⟨_, rfl, hfull⟩)
      | refused _ _ => exact .inr (.inr ⟨_, _, rfl⟩)
      | short _ hshort _ => exact .inr (.inl ⟨_, rfl, hshort.short⟩)

/-! ## Parts and operations -/

/-- Clearing the cache keeps what the parts rest on. -/
theorem cleared (hj : j.Fit) (h : j.Cleared k) : k.Fit where
  laid := laid_of_no_code (hj.laid.ready.cleared h) (hj.laid.paged.congr h.stubs h.size)
    fun _ _ => h.target_eq
  indexed := by
    rw [h.links]
    exact .empty
  sites owner e he := by
    rw [h.links, Links.exitsOf_empty] at he
    cases he

/-- So does the platform changing its mind. -/
theorem host (hj : j.Fit) (host : Host) : ({ j with code := { j.code with host } } : Jit).Fit := by
  have hready : ({ j with code := { j.code with host } } : Jit).Ready :=
    hj.laid.ready.congr rfl rfl rfl rfl (fun _ _ => rfl) hj.laid.ready.low hj.laid.ready.high
      hj.laid.ready.entries hj.laid.ready.draft
  exact hj.congr (hj.laid.congr hready rfl rfl rfl rfl (Nat.le_refl _)
    fun _ entry _ hfound htarget => ⟨entry, hfound, htarget, rfl⟩) rfl rfl rfl

/-- So does marking a block as invalid. -/
theorem retired (hj : j.Fit) (num : Nat) :
    ({ j with blocks := j.blocks.invalidate num } : Jit).Fit :=
  hj.congr (hj.laid.retired num) rfl rfl rfl

/-- So does every part of an operation. -/
theorem carryOut (hj : j.Fit) (p : Part) : (j.carryOut p).Fit := by
  cases p with
  | register b => exact hj.congr (hj.laid.added b) rfl rfl rfl
  | retire num => exact hj.retired num
  | compile num preload => exact (hj.compileBlock_ends num preload).1
  | link num => exact (hj.linkBlock_ends num).1
  | redirect num => exact (hj.invalidateBlock_ends num).1
  | clear =>
    obtain ⟨k, hk, hcleared, -⟩ := clearAll_spec j
    rw [Jit.carryOut, hk]
    exact hj.cleared hcleared
  | list count =>
    exact hj.congr (hj.laid.grows ⟨rfl, rfl, rfl, rfl, rfl, .refl _⟩ rfl) rfl rfl rfl
  | platform host => exact hj.host host

end Fit

/-- The state stays fit, however an action ends. -/
def KeepsFit {α : Type} (x : Action Jit α) : Prop :=
  Keeps (fun j k => j.Fit → k.Fit) x

/-- Actions that keep it do so one after the other. -/
theorem KeepsFit.bind {α β : Type} {x : Action Jit α} {f : α → Action Jit β} (hx : KeepsFit x)
    (hf : ∀ a, KeepsFit (f a)) : KeepsFit (x >>= f) :=
  Keeps.bind (R := fun (j k : Jit) => j.Fit → k.Fit) (fun h h' hr => h' (h hr)) hx hf

/-- Invalidating keeps it. -/
theorem keepsFit_invalidate (num : Nat) : KeepsFit (invalidate num) :=
  KeepsFit.bind (fun _ hj => hj.carryOut (.redirect num)) fun _ _ hj => hj.retired num

/-- So does invalidating what is registered at an address. -/
theorem keepsFit_invalidatePc (pc : UInt32) : KeepsFit (invalidatePc pc) := by
  refine KeepsFit.bind (fun _ => id) fun j => ?_
  cases j.blocks.find? pc with
  | none => exact fun _ => id
  | some num => exact (keepsFit_invalidate num).bind fun _ _ => id

/-- So does registering a block. -/
theorem keepsFit_addBlock (b : Block) : KeepsFit (addBlock b) :=
  (keepsFit_invalidatePc b.start).bind fun _ _ hj => hj.carryOut (.register b)

/-- So does compiling a block, with a second attempt. -/
theorem keepsFit_compileOrClear (num : Nat) (preload : Bool) :
    KeepsFit (compileOrClear num preload) := by
  intro j hj
  have hfirst := hj.carryOut (.compile num preload)
  rw [carryOut] at hfirst
  rw [compileOrClear, tryCatch_apply]
  cases h : compileBlock num preload j with
  | ok a k =>
    rw [h] at hfirst
    exact hfirst
  | error e k =>
    rw [h] at hfirst
    dsimp only
    split
    · have hagain : KeepsFit (do
          note (.outOfSpace num)
          clearAll
          compileBlock num preload) :=
        KeepsFit.bind (fun j hj => hj.host (j.code.host.note (.outOfSpace num))) fun _ =>
          KeepsFit.bind (fun _ hj => hj.carryOut .clear) fun _ _ hj =>
            hj.carryOut (.compile num preload)
      exact hagain k hfirst
    · exact hfirst

/-- So does compiling and linking it. -/
theorem keepsFit_compileAs (preload : Bool) (num : Nat) : KeepsFit (compileAs preload num) := by
  refine KeepsFit.bind (fun _ => id) fun j => ?_
  cases j.blocks.get? num with
  | none => exact fun _ => id
  | some entry =>
    dsimp only
    split
    · exact (keepsFit_compileOrClear num preload).bind fun _ _ hj => hj.carryOut (.link num)
    · exact fun _ => id

/-- Operations are made of parts, so they keep what the parts keep. -/
theorem keepsFit_run (op : Op) : KeepsFit op.run := by
  cases op with
  | addBlock b => exact (keepsFit_addBlock b).bind fun _ _ => id
  | compile num => exact keepsFit_compileAs false num
  | preload num => exact keepsFit_compileAs true num
  | addAndCompile b =>
    exact ((keepsFit_addBlock b).bind fun num =>
      (keepsFit_compileAs false num).bind fun _ _ => id).bind fun _ _ => id
  | invalidate num => exact keepsFit_invalidate num
  | invalidatePc pc => exact (keepsFit_invalidatePc pc).bind fun _ _ => id
  | clearCache => exact fun _ hj => hj.carryOut .clear

/-- However an engine is driven, what the parts rest on holds. -/
theorem fit_of_driven (hj : j.Fit) (h : j.Driven k) : k.Fit := by
  induction h with
  | refl => exact hj
  | apply _ op ih => exact keepsFit_run op _ ih
  | part _ p ih => exact ih.carryOut p

end

/-- Encoding never fails.  In every state that operations and parts of operations lead to, whatever
the settings and the blocks are and whatever the platform refuses, compiling, linking and
redirecting a block fail only because the block is not registered, because the platform refuses to
open a window, or, for compiling, because less space is left than is asked for.  No branch is out of
reach, no register is missing, no label is left without a place and every patch fits its place. -/
theorem encoding_never_fails {config : Config} {table : HandlerTable} {host host' : Host}
    {j₀ j : Jit} (hcreate : create config table host = .ok j₀ host') (hj : j₀.Driven j)
    (num : Nat) (preload : Bool) :
    (∀ e k, compileBlock num preload j = .error e k →
      (e = .unknownBlock num ∧ j.blocks.get? num = none) ∨
        (∃ left, e = .codeSpaceExhausted left safetyMargin ∧ left < safetyMargin) ∨
        ∃ o m, e = .protection o m .accessDenied) ∧
    (∀ e k, linkBlock num j = .error e k →
      (e = .unknownBlock num ∧ j.blocks.get? num = none) ∨
        ∃ o m, e = .protection o m .accessDenied) ∧
    ∀ e k, invalidateBlock num j = .error e k →
      (e = .unknownBlock num ∧ j.blocks.get? num = none) ∨
        ∃ o m, e = .protection o m .accessDenied := by
  have hfit := fit_of_driven (create_spec hcreate).orderly.toTidy.fit hj
  exact ⟨(hfit.compileBlock_ends num preload).2, (hfit.linkBlock_ends num).2,
    (hfit.invalidateBlock_ends num).2⟩

/-- A block with an exit and with register numbers that are out of range. -/
def wideBlock : Block :=
  { start := 0x1000
    insts := [{ op := .sub, dest := 255, src1 := 254, src2 := 31 },
              { op := .exitIfEq, src1 := 200, src2 := 100, constant := 0xffffffff }] }

/-- In the largest region there is, a block is registered and the platform starts to refuse windows.
Then that is what the block fails with. -/
theorem encoding_never_fails_wideBlock :
    ∃ j host k e l, create { codeSpace := 0x7fffffff } .default {} = .ok j host ∧
      j.code.size = 0x80000000 ∧ j.Driven k ∧ (k.blocks.get? 0).isSome ∧
      compileBlock 0 false k = .error e l ∧ ∃ o m, e = .protection o m .accessDenied := by
  have hruns : succeeds (create { codeSpace := 0x7fffffff } .default {}) (fun j _ =>
      decide (j.code.size = 0x80000000) &&
      (((j.carryOut (.register wideBlock)).carryOut
        (.platform { refuseProtect := [0] })).blocks.get? 0).isSome &&
      fails (compileBlock 0 false ((j.carryOut (.register wideBlock)).carryOut
        (.platform { refuseProtect := [0] }))) fun e _ => !e.isOutOfSpace) = true := by
    decide +kernel
  obtain ⟨j, host, hcreate, htests⟩ := exists_of_succeeds hruns
  simp only [Bool.and_eq_true, decide_eq_true_eq] at htests
  obtain ⟨⟨hsize, hfound⟩, hfails⟩ := htests
  obtain ⟨e, l, hfails, hspace⟩ := exists_of_fails hfails
  have hdriven : j.Driven ((j.carryOut (.register wideBlock)).carryOut
      (.platform { refuseProtect := [0] })) := (Driven.refl.part _).part _
  refine ⟨j, host, _, e, l, hcreate, hsize, hdriven, hfound, hfails, ?_⟩
  rcases (encoding_never_fails hcreate hdriven 0 false).1 e l hfails with
    ⟨-, hnone⟩ | ⟨left, rfl, -⟩ | hprotection
  · rw [hnone] at hfound
    cases hfound
  · cases hspace
  · exact hprotection

end Jit

end Dynarec
