import Dynarec.Proofs.Jit.Failure

/-!
# Registering and invalidating, whole or not at all

Invalidating a block overwrites the start of its body, takes its exits and the exits to it off the
record, and marks it in the table of blocks; registering a block first invalidates the one that
stood for its address.  Only the patch can fail, and it comes before the tables.  Its code goes
through the assembler of the draft, which is empty again before the platform is asked for a window.

So when one of these operations fails, nothing has changed but the platform (`Jit.Same`), and with
an empty assembler whatever is emitted next is complete and has nothing in front of it
(`Jit.EmitsOwn`).
-/

namespace Dynarec

open Lower Dynarec.Action CodeCache

namespace Jit

/-- Nothing but the platform has changed: no byte of the region, no cursor, no table, no draft. -/
def Same (j k : Jit) : Prop :=
  ∃ host, k = { j with code := { j.code with host } }

/-- What is emitted next is the code of a block or a patch, and nothing besides: a block that is
compiled has exactly its own code behind the cursor, and exits and bodies that are patched hold
exactly their jumps. -/
structure EmitsOwn (j : Jit) : Prop where
  compiled : ∀ num preload k, compileBlock num preload j = .ok ⟨⟩ k →
    ∃ entry n ps, j.blocks.get? num = some entry ∧ j.Compiled k num entry.block n ps
  linked : ∀ num entry n k, j.blocks.get? num = some entry → j.links.native? num = some n →
    linkBlock num j = .ok ⟨⟩ k →
    j.Relinked k (j.links.exitsTo entry.block.start) (addressOf n.checked)
  redirected : ∀ num k, invalidate num j = .ok ⟨⟩ k → ∃ entry, j.Invalidated k num entry

section

variable {j k : Jit} {e : JitError}

theorem Same.refl (j : Jit) : j.Same j :=
  ⟨j.code.host, rfl⟩

theorem Same.grows (h : j.Same k) (hlater : j.Later k) : j.Grows k := by
  obtain ⟨host, rfl⟩ := h
  exact .of_host hlater

theorem Same.draft (h : j.Same k) : k.draft = j.draft := by
  obtain ⟨host, rfl⟩ := h
  rfl

/-- Invalidating a block that fails has changed nothing. -/
theorem Tidy.same_of_invalidate (hj : j.Tidy) {num : Nat} (h : invalidate num j = .error e k) :
    j.Same k ∧ j.Later k := by
  cases hfound : j.blocks.get? num with
  | none =>
    cases h.symm.trans (invalidate_unknown hfound)
    exact ⟨.refl j, List.suffix_rfl⟩
  | some entry =>
    rcases invalidate_cases hj.laid hfound with ⟨l, hl, -⟩ | ⟨o, m, host, hl, hlogged, -⟩
    · cases h.symm.trans hl
    · cases h.symm.trans hl
      exact ⟨⟨host, rfl⟩, hlogged.later⟩

theorem Tidy.same_of_invalidatePc (hj : j.Tidy) {pc : UInt32}
    (h : invalidatePc pc j = .error e k) : j.Same k ∧ j.Later k := by
  rw [invalidatePc, bind_of_ok (get_apply j)] at h
  cases hfind : j.blocks.find? pc with
  | none =>
    simp only [hfind] at h
    cases h
  | some num =>
    simp only [hfind] at h
    rcases bind_eq_error.mp h with hfails | ⟨_, _, -, hreturn⟩
    · exact hj.same_of_invalidate hfails
    · cases hreturn

theorem Tidy.same_of_addBlock (hj : j.Tidy) {b : BlockEntry} (h : addBlock b j = .error e k) :
    j.Same k ∧ j.Later k := by
  rcases bind_eq_error.mp h with hfails | ⟨_, _, -, hadds⟩
  · exact hj.same_of_invalidatePc hfails
  · cases hadds

theorem Tidy.emitsOwn (hj : j.Tidy) : j.EmitsOwn where
  compiled num preload k h := compileBlock_spec hj.laid.ready.reaches hj.laid.ready.high
    hj.laid.ready.size_le hj.laid.ready.draft h
  linked num entry n k hfound hnative h := by
    rcases (linkBlock_of_native hj hfound hnative).2 with ⟨l, hl, hlinked⟩ | ⟨_, _, _, _, _, hl, -⟩
    · cases h.symm.trans hl
      exact hlinked
    · cases h.symm.trans hl
  redirected num k h := exists_invalidated hj.laid h

end

/-- Registering and invalidating are atomic.  Whatever operations led to a state and whatever the
platform refuses, one of them that fails has changed nothing but the platform.  The assembler is
empty, and what is compiled or patched next, at once or after further operations, is emitted with
nothing left over. -/
theorem failed_registration_changes_nothing {config : Config} {table : HandlerTable}
    {host host' : Host} {j₀ j k : Jit} (hcreate : create config table host = .ok j₀ host')
    (hj : j₀.Evolves j) {e : JitError}
    (hfails : (∃ b, addBlock b j = .error e k) ∨ (∃ num, invalidate num j = .error e k) ∨
      ∃ pc, invalidatePc pc j = .error e k) :
    j.Same k ∧ k.draft.asm = .empty ∧ ∀ l, k.Evolves l → l.EmitsOwn := by
  have htidy := tidy_of_evolves hcreate hj
  have hsame : j.Same k ∧ j.Later k := by
    rcases hfails with ⟨b, hadd⟩ | ⟨num, hinvalidate⟩ | ⟨pc, hinvalidate⟩
    · exact htidy.same_of_addBlock hadd
    · exact htidy.same_of_invalidate hinvalidate
    · exact htidy.same_of_invalidatePc hinvalidate
  obtain ⟨hsame, hlater⟩ := hsame
  have hgrows := hsame.grows hlater
  have hk : k.Tidy := ⟨htidy.laid.grows hgrows hsame.draft, htidy.tabled.grows hgrows⟩
  refine ⟨hsame, ?_, fun l hl => (hk.changes (hl.changes hk)).emitsOwn⟩
  rw [hk.laid.ready.draft]
  rfl

/-- The platform refuses to redirect a block in favour of a new one at its address.  Nothing has
changed, and when the block is invalidated after that, its body holds the redirection alone. -/
theorem failed_registration_changes_nothing_chainOps :
    ∃ j host e k l, create {} .default { refuseProtect := [8] } = .ok j host ∧
      addBlock { block := { start := 0x2000, insts := [] } } (j.applyAll chainOps) = .error e k ∧
      (j.applyAll chainOps).Same k ∧ k.draft.asm = .empty ∧
      invalidate 1 k = .ok ⟨⟩ l ∧ ∃ entry, k.Invalidated l 1 entry := by
  have hruns : succeeds (create {} .default { refuseProtect := [8] }) (fun j _ =>
      fails (addBlock { block := { start := 0x2000, insts := [] } } (j.applyAll chainOps)) fun _ k =>
        succeeds (invalidate 1 k) fun _ _ => true) = true := by
    decide +kernel
  obtain ⟨j, host, hcreate, hfails⟩ := exists_of_succeeds hruns
  obtain ⟨e, k, hfails, hinvalidates⟩ := exists_of_fails hfails
  obtain ⟨⟨⟩, l, hinvalidates, -⟩ := exists_of_succeeds hinvalidates
  have hevolves : j.Evolves (j.applyAll chainOps) := (Evolves.refl.apply _).apply _
  obtain ⟨hsame, hasm, hlater⟩ :=
    failed_registration_changes_nothing hcreate hevolves (.inl ⟨_, hfails⟩)
  exact ⟨j, host, e, k, l, hcreate, hfails, hsame, hasm, hinvalidates,
    (hlater k .refl).redirected 1 l hinvalidates⟩

end Jit

end Dynarec
