import Mathlib.Logic.Relation
import Dynarec.Proofs.Jit.Order

/-!
# Operations make changes

An operation takes a tidy state through changes of the kinds that there are, whatever the platform
refuses (`Op.changes`), and so do operations one after the other (`applyAll_changes`).  Which blocks
an operation invalidates is said beforehand, from the state it starts in (`OpWith.victim?`), so that
a sequence can be restricted to those that invalidate only blocks of some kind (`Permitted`).

Shape of the argument for one operation:

1. a part that patches code fails only if the platform refuses it (`invalidate_cases`,
   `linkBlock_cases`);
2. compiling may fail, but leaves only code behind the cursor, or an empty cache
   (`compileOrClear_attempt`), and so there are four ways for compiling and linking to end
   (`CompileEnds`);
3. what happened to the region stays on record, so that no part is refused when the whole is not
   (`Orderly.changes`).
-/

namespace Dynarec

open Lower Dynarec.Action CodeCache

/-- The block that stands for a guest address. -/
def Blocks.at? (t : Blocks) (pc : UInt32) : Option BlockEntry :=
  (t.find? pc).bind t.get?

section

variable {β : Type} [Registrable β]

/-- The block that an operation invalidates. -/
def OpWith.victim? (j : Jit) : OpWith β → Option BlockEntry
  | addBlock b => j.blocks.at? (Registrable.entry b).block.start
  | addAndCompile b => j.blocks.at? (Registrable.entry b).block.start
  | invalidate num => j.blocks.get? num
  | invalidatePc pc => j.blocks.at? pc
  | compile _ => none
  | preload _ => none
  | clearCache => none

namespace Jit

/-- Operations one after the other invalidate only blocks that are allowed. -/
def Permitted (allowed : BlockEntry → Prop) : Jit → List (OpWith β) → Prop
  | _, [] => True
  | j, op :: ops =>
    (∀ entry ∈ op.victim? j, allowed entry) ∧ Permitted allowed (j.apply op) ops

instance Permitted.decidable (allowed : BlockEntry → Prop) [DecidablePred allowed] :
    (j : Jit) → (ops : List (OpWith β)) → Decidable (Permitted allowed j ops)
  | _, [] => .isTrue trivial
  | j, op :: ops =>
    have := decidable allowed (j.apply op) ops
    inferInstanceAs (Decidable ((∀ entry ∈ op.victim? j, allowed entry) ∧ _))

end Jit

end

namespace Jit

/-! ## New entries

Nearly all that follows is about operations that register new blocks.  Entries that are handed over
as they are make no difference as long as all of them are new. -/

/-- What the first operation registers, and what the others register. -/
theorem forall_registered_cons {α : Type} {P : α → Prop} {op : OpWith α} {ops : List (OpWith α)} :
    (∀ b ∈ (op :: ops).filterMap OpWith.registered?, P b) ↔
      (∀ b ∈ op.registered?, P b) ∧ ∀ b ∈ ops.filterMap OpWith.registered?, P b := by
  simp only [List.mem_filterMap, List.mem_cons]
  constructor
  · intro h
    exact ⟨fun b hb => h b ⟨op, .inl rfl, hb⟩, fun b ⟨op', hmem, hb⟩ => h b ⟨op', .inr hmem, hb⟩⟩
  · rintro ⟨hfirst, hrest⟩ b ⟨op', rfl | hmem, hb⟩
    · exact hfirst b hb
    · exact hrest b ⟨op', hmem, hb⟩

/-- An operation that registers a new entry registers its block. -/
theorem run_renew {op : OpWith BlockEntry} (hnew : ∀ e ∈ op.registered?, e.IsNew) :
    op.renew.run = op.run := by
  have hentry : ∀ e : BlockEntry, e.IsNew →
      (Registrable.entry e.block : BlockEntry) = Registrable.entry e := fun e he => he.new_block
  cases op with
  | addBlock e => rw [OpWith.renew, OpWith.run, OpWith.run, hentry e (hnew e rfl)]
  | addAndCompile e => rw [OpWith.renew, OpWith.run, OpWith.run, hentry e (hnew e rfl)]
  | compile | preload | invalidate | invalidatePc | clearCache => rfl

/-- Operations that register new entries register their blocks. -/
theorem applyAll_renew {ops : List (OpWith BlockEntry)}
    (hnew : ∀ e ∈ ops.filterMap OpWith.registered?, e.IsNew) (j : Jit) :
    j.applyAll (ops.map OpWith.renew) = j.applyAll ops := by
  induction ops generalizing j with
  | nil => rfl
  | cons op ops ih =>
    obtain ⟨hfirst, hrest⟩ := forall_registered_cons.mp hnew
    show (j.apply op.renew).applyAll (ops.map OpWith.renew) = (j.apply op).applyAll ops
    rw [apply, run_renew hfirst]
    exact ih hrest _

/-- They invalidate the same blocks. -/
theorem Permitted.renew {allowed : BlockEntry → Prop} {j : Jit} {ops : List (OpWith BlockEntry)}
    (h : Permitted allowed j ops) (hnew : ∀ e ∈ ops.filterMap OpWith.registered?, e.IsNew) :
    Permitted allowed j (ops.map OpWith.renew) := by
  induction ops generalizing j with
  | nil => trivial
  | cons op ops ih =>
    obtain ⟨hfirst, hrest⟩ := forall_registered_cons.mp hnew
    have hvictim : op.renew.victim? j = op.victim? j := by cases op <;> rfl
    refine ⟨hvictim ▸ h.1, ?_⟩
    rw [apply, run_renew hfirst]
    exact ih h.2 hrest

/-- A block that is left at once. -/
def leaveBlock : Block :=
  { start := 0x1000, insts := [{ op := .exitToConst, constant := 0x2000 }] }

/-- The entry of that block when it is the first one that is compiled, with the offset of its body
in a cache of the default settings.  A copy of it is not new. -/
def leaveEntry : BlockEntry :=
  { block := leaveBlock, target := some 4120 }

/-- Every sequence keeps to a restriction that allows all blocks. -/
theorem permitted_true (j : Jit) (ops : List Op) : Permitted (fun _ => True) j ops := by
  induction ops generalizing j with
  | nil => trivial
  | cons op ops ih => exact ⟨fun _ _ => trivial, ih _⟩

/-- One state leads to another by changes. -/
abbrev Changes (allowed : BlockEntry → Prop) (wanted : Block → Prop) : Jit → Jit → Prop :=
  Relation.ReflTransGen (Move allowed wanted)

section

variable {allowed : BlockEntry → Prop} {wanted : Block → Prop} {j k : Jit}

/-- Changes keep a state tidy. -/
theorem Tidy.changes (hj : j.Tidy) (h : Changes allowed wanted j k) : k.Tidy := by
  induction h with
  | refl => exact hj
  | tail _ hlast ih => exact ih.change hlast.change

/-- Changes that the platform does not refuse keep a state in order. -/
theorem Orderly.changes (hj : j.Orderly) (h : Changes allowed wanted j k) (hunrefused : k.Unrefused) :
    k.Orderly := by
  induction h with
  | refl => exact hj
  | tail _ hlast ih =>
    exact (ih (hunrefused.of_later hlast.logged.later)).change hlast.change hunrefused

/-- What changes do to the region keeps to windows. -/
theorem logged_of_changes (h : Changes allowed wanted j k) : j.Logged k := by
  induction h with
  | refl => exact .refl _
  | tail _ hlast ih => exact ih.trans hlast.logged

/-- Changes leave the configuration and the handlers as they are. -/
theorem Changes.settings_eq (h : Changes allowed wanted j k) :
    k.config = j.config ∧ k.table = j.table := by
  induction h with
  | refl => exact ⟨rfl, rfl⟩
  | tail _ hlast ih =>
    rw [← ih.1, ← ih.2]
    cases hlast.change with
    | grows hgrows _ => exact ⟨hgrows.config, hgrows.table⟩
    | cleared hcleared => exact ⟨hcleared.config, hcleared.table⟩
    | linked _ _ hcompiled hlinked =>
      exact ⟨hlinked.config.trans hcompiled.config, hlinked.table.trans hcompiled.table⟩
    | torn _ _ hcompiled hresited _ =>
      exact ⟨hresited.config.trans hcompiled.config, hresited.table.trans hcompiled.table⟩
    | invalidated _ hinvalidated => exact ⟨hinvalidated.config, hinvalidated.table⟩
    | added _ _ hadded =>
      rw [hadded]
      exact ⟨rfl, rfl⟩

/-! ## Invalidating -/

/-- A redirection branches to stubs only, which are in the region. -/
theorem near_redirect (hj : j.Ready) (start : UInt32) :
    Insn.BranchesNear (redirect j.stubs start) := by
  intro i hi t ht
  simp only [redirect, List.mem_cons, List.not_mem_nil, or_false] at hi
  rcases hi with rfl | rfl
  · cases ht
  · cases ht
    obtain ⟨o, ho, heq⟩ := hj.installed.exists_target _ (show j.stubs.dispatcherPc ∈ _ by
      simp [Stubs.targets])
    exact ⟨o, Nat.le_trans ho hj.size_le, heq⟩

/-- A redirection fits into the shortest body. -/
theorem codeSize_redirect_le (stubs : Stubs) (start : UInt32) :
    codeSize (redirect stubs start) ≤ minBodyLen := by
  change 10 ≤ 16
  decide

/-- The body of a block can be redirected in place. -/
theorem Laid.redirect_bounds (hj : j.Laid) {num : Nat} {entry : BlockEntry} {t : Nat}
    (hfound : j.blocks.get? num = some entry) (htarget : entry.target = some t) :
    j.stubs.blocksStart ≤ t ∧ t + minBodyLen ≤ j.code.size := by
  obtain ⟨ps, hcopy⟩ := hj.pieces num entry t hfound htarget
  have hlow := (hj.low num entry t ps hcopy).1
  have hle := copyLow_le j.layoutEnv t
  have hbody := hj.body_le_cursor hcopy
  have hsize := hj.ready.high
  omega

/-- What the platform does by itself leaves the code as it is. -/
theorem Grows.of_host {host : Host} (h : j.Later { j with code := { j.code with host } }) :
    j.Grows { j with code := { j.code with host } } :=
  ⟨rfl, rfl, rfl, rfl, rfl, rfl, Nat.le_refl _, id, fun _ _ => rfl, h⟩

/-- Redirecting a block and taking it off the record succeeds, unless the platform refuses it; then
nothing has changed.  Once the block is marked as invalid, it has been invalidated. -/
theorem invalidateBlock_cases (hj : j.Laid) {num : Nat} {entry : BlockEntry}
    (hfound : j.blocks.get? num = some entry) :
    (∃ k, invalidateBlock num j = .ok ⟨⟩ k ∧ k.blocks = j.blocks ∧
        j.Invalidated { k with blocks := k.blocks.invalidate num } num entry ∧ j.Logged k) ∨
      ∃ o m host, invalidateBlock num j =
          .error (.protection o m .accessDenied) { j with code := { j.code with host } } ∧
        j.Logged { j with code := { j.code with host } } ∧
        ¬ ({ j with code := { j.code with host } } : Jit).Unrefused := by
  have hasm : j.draft.asm = .empty := by rw [hj.ready.draft]; rfl
  -- Only a block with a body is redirected, and only if it does not start at address zero.
  by_cases hredirect : ∃ t, entry.target = some t ∧ entry.block.start ≠ 0
  · obtain ⟨t, htarget, hzero⟩ := hredirect
    have hrun : invalidateBlock num j =
        (do overwrite t (redirect j.stubs entry.block.start) minBodyLen
              (.invalidated num entry.block.start t)
            modify fun j => { j with
              links := (j.links.eraseLinksTo entry.block.start).eraseBlock num } :
          Action Jit Unit) j := by
      rw [invalidateBlock]
      simp only [bind_apply, get_apply, hfound, htarget, if_pos hzero]
    obtain ⟨hlow, hhigh⟩ := hj.redirect_bounds hfound htarget
    have hlogged := logged_overwrite (.invalidated num entry.block.start t) hasm hj.paged hlow
      (by decide) (near_redirect hj.ready entry.block.start) hhigh hj.ready.size_le
      (codeSize_redirect_le _ _)
    rcases overwrite_cases (.invalidated num entry.block.start t) hasm
      (near_redirect hj.ready entry.block.start) hhigh hj.ready.size_le
      (codeSize_redirect_le _ _) with ⟨k, hk, hpatched⟩ | ⟨o, m, host, hk, hrefused⟩
    · rw [hk, after_ok] at hlogged
      rw [bind_of_ok hk] at hrun
      refine .inl ⟨_, hrun, hpatched.blocks, ⟨hfound, hpatched.config, hpatched.table,
        hpatched.stubs, ?_, ?_, hpatched.draft, hpatched.size, hpatched.cursor, ?_, ?_⟩,
        hlogged.trans (.of_events rfl rfl rfl rfl)⟩
      · exact congrArg (·.invalidate num) hpatched.blocks
      · exact congrArg (fun links => (links.eraseLinksTo entry.block.start).eraseBlock num)
          hpatched.links
      · exact fun o ho => hpatched.byte o (ho t htarget hzero)
      · intro t' ht' _
        cases htarget.symm.trans ht'
        exact hpatched.held
    · rw [hk, after_error] at hlogged
      rw [bind_of_error hk] at hrun
      exact .inr ⟨o, m, host, hrun, hlogged, hrefused⟩
  · have hrun : invalidateBlock num j = .ok ⟨⟩ { j with
        links := (j.links.eraseLinksTo entry.block.start).eraseBlock num } := by
      rw [invalidateBlock]
      cases htarget : entry.target with
      | none =>
        simp only [bind_apply, get_apply, hfound, htarget]
        rfl
      | some t =>
        have hzero : ¬ entry.block.start ≠ 0 := fun hne => hredirect ⟨t, htarget, hne⟩
        simp only [bind_apply, get_apply, hfound, htarget, if_neg hzero]
        rfl
    exact .inl ⟨_, hrun, rfl, ⟨hfound, rfl, rfl, rfl, rfl, rfl, rfl, rfl, rfl, fun _ _ => rfl,
      fun t ht hne => absurd ⟨t, ht, hne⟩ hredirect⟩, .of_events rfl rfl rfl rfl⟩

/-- Invalidating a block succeeds, unless the platform refuses to redirect it; then nothing has
changed. -/
theorem invalidate_cases (hj : j.Laid) {num : Nat} {entry : BlockEntry}
    (hfound : j.blocks.get? num = some entry) :
    (∃ k, invalidate num j = .ok ⟨⟩ k ∧ j.Invalidated k num entry ∧ j.Logged k) ∨
      ∃ o m host, invalidate num j =
          .error (.protection o m .accessDenied) { j with code := { j.code with host } } ∧
        j.Logged { j with code := { j.code with host } } ∧
        ¬ ({ j with code := { j.code with host } } : Jit).Unrefused := by
  rw [invalidate]
  rcases invalidateBlock_cases hj hfound with
    ⟨k, hk, -, hinvalidated, hlogged⟩ | ⟨o, m, host, hk, hlogged, hrefused⟩
  · rw [bind_of_ok hk]
    exact .inl ⟨_, rfl, hinvalidated, hlogged.trans (.of_events rfl rfl rfl rfl)⟩
  · rw [bind_of_error hk]
    exact .inr ⟨o, m, host, rfl, hlogged, hrefused⟩

/-- Invalidating a block that is not registered fails at once. -/
theorem invalidateBlock_unknown {num : Nat} (hnone : j.blocks.get? num = none) :
    invalidateBlock num j = .error (.unknownBlock num) j := by
  rw [invalidateBlock]
  simp only [bind_apply, get_apply, hnone, throw_apply]

/-- So it does where the block would also have been marked as invalid. -/
theorem invalidate_unknown {num : Nat} (hnone : j.blocks.get? num = none) :
    invalidate num j = .error (.unknownBlock num) j := by
  rw [invalidate, bind_of_error (invalidateBlock_unknown hnone)]

/-- A block that could be invalidated was there. -/
theorem exists_invalidated (hj : j.Laid) {num : Nat} (h : invalidate num j = .ok ⟨⟩ k) :
    ∃ entry, j.Invalidated k num entry := by
  cases hfound : j.blocks.get? num with
  | none => cases h.symm.trans (invalidate_unknown hfound)
  | some entry =>
    rcases invalidate_cases hj hfound with ⟨l, hl, hinvalidated, -⟩ | ⟨_, _, _, hl, -⟩
    · cases h.symm.trans hl
      exact ⟨entry, hinvalidated⟩
    · cases h.symm.trans hl

/-- Invalidating a block is a change. -/
theorem invalidate_changes (hj : j.Laid) {num : Nat}
    (hallowed : ∀ entry ∈ j.blocks.get? num, allowed entry) :
    Changes allowed wanted j (after (invalidate num j)) := by
  cases hfound : j.blocks.get? num with
  | none =>
    rw [invalidate_unknown hfound]
    exact .refl
  | some entry =>
    rcases invalidate_cases hj hfound with
      ⟨k, hk, hinvalidated, hlogged⟩ | ⟨o, m, host, hk, hlogged, -⟩
    · rw [hk]
      exact .single ⟨.invalidated (hallowed entry hfound) hinvalidated, hlogged⟩
    · rw [hk]
      exact .single ⟨.grows (.of_host hlogged.later) rfl, hlogged⟩

/-- Invalidating what is registered at an address makes changes, if it may be invalidated. -/
theorem invalidatePc_changes (hj : j.Tidy) {pc : UInt32}
    (hallowed : ∀ entry ∈ j.blocks.at? pc, allowed entry) :
    Changes allowed wanted j (after (invalidatePc pc j)) := by
  rw [invalidatePc, bind_of_ok (get_apply j)]
  cases hfind : j.blocks.find? pc with
  | none => exact .refl
  | some num =>
    refine related_bind (R := Changes allowed wanted) (fun h => h.trans)
      (invalidate_changes hj.laid fun entry hfound => ?_) fun _ _ _ => .refl
    exact hallowed entry (Option.bind_eq_some_iff.mpr ⟨num, hfind, hfound⟩)

/-- Invalidating the block at an address leaves none there. -/
theorem find?_of_invalidatePc (hj : j.Tidy) {pc : UInt32} {found : Bool}
    (h : invalidatePc pc j = .ok found k) : k.blocks.find? pc = none := by
  rw [invalidatePc, bind_of_ok (get_apply j)] at h
  cases hfind : j.blocks.find? pc with
  | none =>
    rw [hfind] at h
    cases h
    exact hfind
  | some num =>
    simp only [hfind] at h
    obtain ⟨_, l, hl, hrest⟩ := bind_eq_ok.mp h
    cases hrest
    obtain ⟨entry, hfound, -, hstart⟩ := (hj.tabled.standing pc num).mp hfind
    rcases invalidate_cases hj.laid hfound with ⟨k', hk, hinvalidated, -⟩ | ⟨o, m, host, hk, -⟩
    · cases hl.symm.trans hk
      rw [hinvalidated.find?_eq, if_pos ⟨hfind, hstart⟩]
    · cases hl.symm.trans hk

/-- Registering a block makes changes, if the block at its address may be invalidated. -/
theorem addBlock_changes (hj : j.Tidy) {b : Block} (hwanted : wanted b)
    (hallowed : ∀ entry ∈ j.blocks.at? b.start, allowed entry) :
    Changes allowed wanted j (after (addBlock b j)) := by
  refine related_bind (R := Changes allowed wanted) (fun h => h.trans)
    (invalidatePc_changes hj hallowed) fun found k hk => ?_
  exact .single ⟨.added hwanted (find?_of_invalidatePc hj hk) rfl, .of_events rfl rfl rfl rfl⟩

/-! ## Compiling and linking -/

/-- The cache can always be cleared. -/
theorem clearAll_spec (j : Jit) : ∃ k, clearAll j = .ok ⟨⟩ k ∧ j.Cleared k ∧ j.Logged k :=
  ⟨_, rfl, ⟨rfl, rfl, rfl, rfl, rfl, rfl, rfl, rfl, fun _ => rfl⟩, .of_events rfl rfl rfl rfl⟩

/-- Dropping a draft does nothing to the region. -/
theorem Logged.dropDraft (h : j.Logged k) : j.Logged k.dropDraft :=
  h.trans (.of_events rfl rfl rfl rfl)

/-- Code is appended inside a window for the rest of the region. -/
theorem logged_compileBlock (hj : j.Laid) (num : Nat) (preload : Bool) :
    j.Logged (after (compileBlock num preload j)) := by
  rw [compileBlock, bind_of_ok (get_apply j)]
  cases hentry : j.blocks.get? num with
  | none => exact .refl j
  | some entry =>
    dsimp only
    split
    · exact .of_events rfl rfl rfl rfl
    · rename_i hmargin
      have hfree : 0 < j.code.remaining := by
        simp only [safetyMargin] at hmargin
        omega
      have hinside : j.code.cursor + j.code.remaining = j.code.size :=
        Nat.add_sub_cancel' hj.ready.high
      -- the draft is dropped at the end, however the window was left
      rw [bind_of_ok (modify_apply _ _), after_andFinally]
      refine Logged.dropDraft (Logged.trans
        (k := { j with draft := { j.draft with block := some num } })
        (.of_events rfl rfl rfl rfl) (related_bind (R := Logged) (fun h => h.trans) ?_ ?_))
      · refine logged_inWindow rfl hj.paged hj.ready.low hfree (Nat.le_of_eq hinside) fun host => ?_
        have happends := keeps_writeBlock entry.block preload
          { j with code := { j.code with host }, draft := { j.draft with block := some num } }
        refine ⟨happends.stubs, ?_⟩
        rw [hinside]
        exact happends.code.wrote hj.ready.high
      · exact fun native k _ => .of_events rfl rfl rfl rfl

/-- The state in which a block is compiled for the last time: the one given, or, after an attempt
that has failed, the one with an empty cache. -/
inductive Attempted (j : Jit) : Jit → Prop
  | first : Attempted j j
  | again {k i : Jit} (hgrows : j.Grows k) (hdraft : k.draft = j.draft) (hlogged : j.Logged k)
    (hcleared : k.Cleared i) (hlogged' : k.Logged i) : Attempted j i

/-- After an attempt that ran out of space, a block is compiled again with an empty cache. -/
theorem compileOrClear_of_exhausted (hj : j.Laid) {num : Nat} {preload : Bool} {e : JitError}
    (h : compileBlock num preload j = .error e k) (hspace : e.isOutOfSpace) :
    ∃ l i, j.Grows l ∧ l.draft = j.draft ∧ j.Logged l ∧ l.Cleared i ∧ l.Logged i ∧
      compileOrClear num preload j = compileBlock num preload i := by
  obtain ⟨hgrows, hdraft, -⟩ := compileBlock_error hj.ready.draft h
  have hlogged := logged_compileBlock hj num preload
  rw [h, after_error] at hlogged
  obtain ⟨i, hi, hcleared, hlogged'⟩ :=
    clearAll_spec { k with code := k.code.note (.outOfSpace num) }
  refine ⟨_, i, hgrows.trans (keeps_note (.outOfSpace num) k).grows,
    hdraft.trans hj.ready.draft.symm, hlogged.trans (.of_events rfl rfl rfl rfl), hcleared,
    hlogged', ?_⟩
  rw [compileOrClear, tryCatch_apply, h]
  dsimp only
  rw [if_pos hspace, note, bind_of_ok (modify_apply _ _), bind_of_ok hi]

/-- Unless space runs out, a block is compiled once. -/
theorem compileOrClear_of_not_exhausted {num : Nat} {preload : Bool}
    (h : ¬ ∃ e k, compileBlock num preload j = .error e k ∧ e.isOutOfSpace) :
    compileOrClear num preload j = compileBlock num preload j := by
  rw [compileOrClear, tryCatch_apply]
  cases hfirst : compileBlock num preload j with
  | ok a l => rfl
  | error e k =>
    dsimp only
    rw [if_neg fun hspace => h ⟨e, k, hfirst, hspace⟩]
    rfl

/-- The last attempt at a block is made in the state given or with an empty cache. -/
theorem compileOrClear_attempt (hj : j.Laid) (num : Nat) (preload : Bool) :
    ∃ i, j.Attempted i ∧ compileOrClear num preload j = compileBlock num preload i := by
  by_cases h : ∃ e k, compileBlock num preload j = .error e k ∧ e.isOutOfSpace
  · obtain ⟨e, k, hfails, hspace⟩ := h
    obtain ⟨l, i, hgrows, hdraft, hlogged, hcleared, hlogged', hagain⟩ :=
      compileOrClear_of_exhausted hj hfails hspace
    exact ⟨i, .again hgrows hdraft hlogged hcleared hlogged', hagain⟩
  · exact ⟨j, .first, compileOrClear_of_not_exhausted h⟩

namespace Attempted

variable {i : Jit}

/-- Getting to the last attempt makes changes. -/
theorem changes (h : j.Attempted i) : Changes allowed wanted j i := by
  cases h with
  | first => exact .refl
  | again hgrows hdraft hlogged hcleared hlogged' =>
    have hfailed : Move allowed wanted j _ := ⟨.grows hgrows hdraft, hlogged⟩
    exact (Relation.ReflTransGen.single hfailed).tail ⟨.cleared hcleared, hlogged'⟩

/-- The last attempt starts in a tidy state. -/
theorem tidy (h : j.Attempted i) (hj : j.Tidy) : i.Tidy := by
  have hchanges : Changes (fun _ => True) (fun _ => True) j i := h.changes
  exact hj.changes hchanges

/-- Clearing the cache takes targets away, not blocks. -/
theorem found (h : j.Attempted i) {num : Nat} {entry' : BlockEntry}
    (hfound' : i.blocks.get? num = some entry') :
    ∃ entry, j.blocks.get? num = some entry ∧ entry'.valid = entry.valid ∧
      entry'.block = entry.block := by
  cases h with
  | first => exact ⟨entry', hfound', rfl, rfl⟩
  | again hgrows hdraft hlogged hcleared hlogged' =>
    rw [hcleared.blocks, Blocks.get?_resetTargets, hgrows.blocks] at hfound'
    obtain ⟨entry, hfound, rfl⟩ := Option.map_eq_some_iff.mp hfound'
    exact ⟨entry, hfound, rfl, rfl⟩

/-- It starts in the state given, or without copies and links. -/
theorem eq_or_cleared (h : j.Attempted i) :
    i = j ∨ (i.blocks = j.blocks.resetTargets ∧ i.links = .empty) := by
  cases h with
  | first => exact .inl rfl
  | again hgrows hdraft hlogged hcleared hlogged' =>
    exact .inr ⟨by rw [hcleared.blocks, hgrows.blocks], hcleared.links⟩

end Attempted

/-- An exit on record can be patched in place. -/
theorem Tidy.site_bounds (hj : j.Tidy) {owner : Nat} {e : Exit} (he : e ∈ j.links.exitsOf owner) :
    e.len = exitSiteLen ∧ j.stubs.blocksStart ≤ e.offset ∧
      e.offset + exitSiteLen ≤ j.code.cursor := by
  obtain ⟨hlink, entry, t, ps, p, hcopy, -, hp, hdest, hoffset, hlen⟩ := hj.tabled.recorded owner e he
  rw [hoffset]
  exact ⟨hlen, hj.laid.site_bounds hcopy hp hlink hdest⟩

/-- Linking a compiled block succeeds, unless the platform refuses it; then the exits before the one
that was refused have been linked. -/
theorem linkBlock_of_native (hj : j.Tidy) {num : Nat} {entry : BlockEntry} {n : Native}
    (hfound : j.blocks.get? num = some entry) (hnative : j.links.native? num = some n) :
    j.Logged (after (linkBlock num j)) ∧
      ((∃ k, linkBlock num j = .ok ⟨⟩ k ∧
          j.Relinked k (j.links.exitsTo entry.block.start) (addressOf n.checked)) ∨
        ∃ o m k done left, linkBlock num j = .error (.protection o m .accessDenied) k ∧
          j.links.exitsTo entry.block.start = done ++ left ∧ left ≠ [] ∧
          j.Relinked k done (addressOf n.checked) ∧ ¬ k.Unrefused) := by
  have hrun : linkBlock num j = overwriteExits num (j.links.exitsTo entry.block.start) j := by
    rw [linkBlock, bind_of_ok (get_apply j)]
    simp only [hfound]
  have hchecked : j.checkedEntry num = some (addressOf n.checked) := by
    rw [checkedEntry, Links.checked?, hnative]
    rfl
  have hreach : n.checked ≤ 2 ^ 31 :=
    Nat.le_trans (hj.laid.ready.entries num n hnative) hj.laid.ready.size_le
  -- all exits to the address can be patched, and no two of them overlap
  have hsites : ∀ e ∈ j.links.exitsTo entry.block.start, e.len = exitSiteLen ∧
      j.stubs.blocksStart ≤ e.offset ∧ e.offset + exitSiteLen ≤ j.code.size := by
    intro e he
    obtain ⟨hlen, hlow, hhigh⟩ := hj.site_bounds (hj.tabled.indexed.mem_exitsTo.mp he).1
    exact ⟨hlen, hlow, Nat.le_trans hhigh hj.laid.ready.high⟩
  have hasm : j.draft.asm = .empty := by rw [hj.laid.ready.draft]; rfl
  rw [hrun]
  refine ⟨logged_overwriteExits hasm hj.laid.paged hchecked hreach hj.laid.ready.size_le hsites,
    overwriteExits_cases hasm hchecked hreach hj.laid.ready.size_le
      (fun e he => ⟨(hsites e he).1, (hsites e he).2.2⟩) fun e he e' he' => ?_⟩
  obtain ⟨hmem, -⟩ := hj.tabled.indexed.mem_exitsTo.mp he
  obtain ⟨hmem', -⟩ := hj.tabled.indexed.mem_exitsTo.mp he'
  rcases hj.laid.apart_exits hj.tabled hmem hmem' with ⟨hsame, -⟩ | hapart
  · exact .inl hsame
  · exact .inr hapart

/-- Linking a block that has just been compiled. -/
theorem linkBlock_cases {l : Jit} {num : Nat} {entry : BlockEntry} {n : Native} {ps : List Piece}
    (hj : j.Tidy) (hfound : j.blocks.get? num = some entry) (hvalid : entry.valid)
    (h : j.Compiled l num entry.block n ps) :
    l.Logged (after (linkBlock num l)) ∧
      ((∃ k, linkBlock num l = .ok ⟨⟩ k ∧
          l.Relinked k (l.links.exitsTo entry.block.start) (addressOf n.checked)) ∨
        ∃ o m k done left, linkBlock num l = .error (.protection o m .accessDenied) k ∧
          l.links.exitsTo entry.block.start = done ++ left ∧ left ≠ [] ∧
          l.Relinked k done (addressOf n.checked) ∧ ¬ k.Unrefused) := by
  have hl : l.Tidy := ⟨hj.laid.compiled hfound h, hj.tabled.compiled hfound hvalid h⟩
  have hnative : l.links.native? num = some n := by rw [h.native?_eq, if_pos rfl]
  have hcases := linkBlock_of_native hl (h.copy_self hfound).found hnative
  exact hcases

/-- A block is compiled in the state given or in one with an empty cache, or cannot be compiled
there. -/
theorem compileOrClear_cases (hj : j.Tidy) {num : Nat} {entry : BlockEntry} (preload : Bool)
    (hfound : j.blocks.get? num = some entry) :
    (∃ i e k, compileOrClear num preload j = .error e k ∧ j.Attempted i ∧
        compileBlock num preload i = .error e k) ∨
      ∃ i l entry' n ps, compileOrClear num preload j = .ok ⟨⟩ l ∧ j.Attempted i ∧
        i.blocks.get? num = some entry' ∧ entry'.valid = entry.valid ∧
        i.Compiled l num entry'.block n ps ∧ i.Logged l := by
  obtain ⟨i, hattempt, hcompile⟩ := compileOrClear_attempt hj.laid num preload
  have hi := hattempt.tidy hj
  cases h : compileBlock num preload i with
  | error e k => exact .inl ⟨i, e, k, hcompile.trans h, hattempt, h⟩
  | ok _ l =>
    have hlogged := logged_compileBlock hi.laid num preload
    rw [h] at hlogged
    obtain ⟨entry', n, ps, hfound', hcompiled⟩ := compileBlock_spec hi.laid.ready.reaches
      hi.laid.ready.high hi.laid.ready.size_le hi.laid.ready.draft h
    obtain ⟨entry₁, hfound₁, hvalid, -⟩ := hattempt.found hfound'
    cases hfound.symm.trans hfound₁
    exact .inr ⟨i, l, entry', n, ps, hcompile.trans h, hattempt, hfound', hvalid, hcompiled,
      hlogged⟩

/-- The ways in which compiling a block and linking it can end. -/
inductive CompileEnds (j : Jit) (preload : Bool) (num : Nat) :
    EStateM.Result JitError Jit Unit → Prop
  | unknown : CompileEnds j preload num (.error (.unknownBlock num) j)
  | unwritten {i k : Jit} {e : JitError} (hattempt : j.Attempted i)
    (hfails : compileBlock num preload i = .error e k) : CompileEnds j preload num (.error e k)
  | linked {i l k : Jit} {entry : BlockEntry} {n : Native} {ps : List Piece}
    (hattempt : j.Attempted i) (hfound : i.blocks.get? num = some entry) (hvalid : entry.valid)
    (hcompiled : i.Compiled l num entry.block n ps)
    (hlinked : l.Relinked k (l.links.exitsTo entry.block.start) (addressOf n.checked))
    (hlogged : i.Logged k) : CompileEnds j preload num (.ok ⟨⟩ k)
  | torn {i l k : Jit} {entry : BlockEntry} {n : Native} {ps : List Piece} {e : JitError}
    {done left : List Exit} (hattempt : j.Attempted i) (hfound : i.blocks.get? num = some entry)
    (hvalid : entry.valid) (hcompiled : i.Compiled l num entry.block n ps)
    (hsites : l.links.exitsTo entry.block.start = done ++ left) (hleft : left ≠ [])
    (hlinked : l.Relinked k done (addressOf n.checked)) (hrefused : ¬ k.Unrefused)
    (hlogged : i.Logged k) : CompileEnds j preload num (.error e k)

/-- Compiling and linking ends in one of four ways. -/
theorem compileAs_ends (hj : j.Tidy) (preload : Bool) (num : Nat) :
    CompileEnds j preload num (compileAs preload num j) := by
  rw [compileAs, bind_of_ok (get_apply j)]
  cases hfound : j.blocks.get? num with
  | none => exact .unknown
  | some entry =>
    dsimp only
    by_cases hvalid : entry.valid
    · rw [if_pos hvalid]
      rcases compileOrClear_cases hj preload hfound with
        ⟨i, e, k, hfails, hattempt, hblock⟩ |
        ⟨i, l, entry', n, ps, hok, hattempt, hfound', hvalid', hcompiled, hlogged⟩
      · rw [bind_of_error hfails]
        exact .unwritten hattempt hblock
      · rw [bind_of_ok hok]
        have hvalid' := hvalid'.trans hvalid
        -- the block is written and on record; linking may stop on the way
        obtain ⟨hlogged', hlinked⟩ := linkBlock_cases (hattempt.tidy hj) hfound' hvalid' hcompiled
        rcases hlinked with ⟨k, hk, hlinked⟩ | ⟨_, _, k, done, left, hk, hsites, hleft, hdone, hrefused⟩
        · rw [hk] at hlogged' ⊢
          exact .linked hattempt hfound' hvalid' hcompiled hlinked (hlogged.trans hlogged')
        · rw [hk] at hlogged' ⊢
          exact .torn hattempt hfound' hvalid' hcompiled hsites hleft hdone hrefused
            (hlogged.trans hlogged')
    · rw [if_neg hvalid]
      exact .unknown

/-- Compiling a block and linking it makes changes. -/
theorem compileAs_changes (allowed : BlockEntry → Prop) (wanted : Block → Prop) (hj : j.Tidy)
    (preload : Bool) (num : Nat) :
    Changes allowed wanted j (after (compileAs preload num j)) := by
  generalize hresult : compileAs preload num j = result
  have hends := compileAs_ends hj preload num
  rw [hresult] at hends
  cases hends with
  | unknown => exact .refl
  | @unwritten i k _ hattempt hfails =>
    have hi := hattempt.tidy hj
    obtain ⟨hgrows, hdraft, -⟩ := compileBlock_error hi.laid.ready.draft hfails
    have hlogged := logged_compileBlock hi.laid num preload
    rw [hfails] at hlogged
    exact hattempt.changes.tail ⟨.grows hgrows (hdraft.trans hi.laid.ready.draft.symm), hlogged⟩
  | linked hattempt hfound hvalid hcompiled hlinked hlogged =>
    exact hattempt.changes.tail ⟨.linked hfound hvalid hcompiled hlinked, hlogged⟩
  | @torn _ _ _ _ _ _ _ done left hattempt hfound hvalid hcompiled hsites _ hlinked hrefused
      hlogged =>
    refine hattempt.changes.tail ⟨.torn hfound hvalid hcompiled (hlinked.toResited.mono ?_)
      hrefused, hlogged⟩
    rw [hsites]
    exact List.subset_append_left done left

/-! ## Operations -/

/-- An operation makes changes, whatever the platform refuses. -/
theorem Op.changes (hj : j.Tidy) {op : Op} (hallowed : ∀ entry ∈ op.victim? j, allowed entry)
    (hwanted : ∀ b ∈ op.registered?, wanted b) : Changes allowed wanted j (j.apply op) := by
  cases op with
  | addBlock b =>
    rw [apply, OpWith.run, after_bind_pure]
    exact addBlock_changes hj (hwanted b rfl) hallowed
  | compile num => exact compileAs_changes allowed _ hj false num
  | preload num => exact compileAs_changes allowed _ hj true num
  | addAndCompile b =>
    rw [apply, OpWith.run, after_bind_pure, entry_eq_new]
    have hadded := addBlock_changes hj (hwanted b rfl) hallowed
    refine related_bind (R := Changes allowed wanted) (fun h => h.trans) hadded fun num k hk => ?_
    rw [hk] at hadded
    rw [after_bind_pure]
    exact compileAs_changes allowed _ (hj.changes hadded) false num
  | invalidate num => exact invalidate_changes hj.laid hallowed
  | invalidatePc pc =>
    rw [apply, OpWith.run, after_bind_pure]
    exact invalidatePc_changes hj hallowed
  | clearCache =>
    obtain ⟨k, hk, hcleared, hlogged⟩ := clearAll_spec j
    rw [apply, OpWith.run, clearCache, hk]
    exact .single ⟨.cleared hcleared, hlogged⟩

/-- Operations one after the other make changes. -/
theorem applyAll_changes (hj : j.Tidy) {ops : List Op} (hpermitted : Permitted allowed j ops)
    (hwanted : ∀ b ∈ ops.filterMap OpWith.registered?, wanted b) :
    Changes allowed wanted j (j.applyAll ops) := by
  induction ops generalizing j with
  | nil => exact .refl
  | cons op ops ih =>
    obtain ⟨hnow, hlater⟩ := forall_registered_cons.mp hwanted
    have hfirst := Op.changes hj hpermitted.1 hnow
    exact hfirst.trans (ih (hj.changes hfirst) hpermitted.2 hlater)

end

/-- Whatever operations were carried out and whatever the platform refused, the state is tidy. -/
theorem tidy_applyAll {config : Config} {table : HandlerTable} {host host' : Host} {j : Jit}
    (hcreate : create config table host = .ok j host') (ops : List Op) : (j.applyAll ops).Tidy :=
  have hj := (create_spec hcreate).orderly.toTidy
  hj.changes (applyAll_changes hj (permitted_true j ops) fun _ => id)

end Jit

end Dynarec
