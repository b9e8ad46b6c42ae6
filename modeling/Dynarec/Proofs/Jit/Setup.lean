import Dynarec.Proofs.Jit.Ops

/-!
# What happens to the region

From the moment that the region is mapped, everything that happens to it keeps to windows and stays
inside it: setting up writes the fixed routines inside one window (`create_traced`), and operations
stay behind them (`applyAll_traced`).
-/

namespace Dynarec

open Lower Dynarec.Action CodeCache

/-! ## The fixed routines -/

section

theorem Stubs.keeps_write (config : Config) (table : HandlerTable) :
    Keeps CodeCache.Appends (Stubs.write config table) := by
  have hbind {α β : Type} {x : Action CodeCache α} {f : α → Action CodeCache β}
      (hx : Keeps CodeCache.Appends x) (hf : ∀ a, Keeps CodeCache.Appends (f a)) :
      Keeps CodeCache.Appends (x >>= f) :=
    Keeps.bind (R := CodeCache.Appends) (fun h => h.trans) hx hf
  refine hbind (Keeps.get .refl) fun _ => hbind (Keeps.ofExcept .refl _) fun _ =>
    hbind (keeps_append _) fun _ => hbind keeps_alignToPage fun _ => hbind (Keeps.get .refl) fun _ =>
    hbind (Keeps.modify (appends_note _)) fun _ => Keeps.pure .refl _

/-- The fixed routines are written inside a window, however that ends. -/
theorem Stubs.logged_generate (config : Config) (table : HandlerTable) {c : CodeCache}
    (hpages : pageSize ∣ c.size) (hpos : 0 < c.size) (hcursor : c.cursor = 0) :
    c.Logged 0 (after (Stubs.generate config table c)) := by
  have hremaining : c.remaining = c.size := by rw [remaining, hcursor, Nat.sub_zero]
  have hwindow := logged_window hpages (Nat.dvd_zero _) (Nat.le_refl 0) hpos
    (Nat.le_of_eq (Nat.zero_add _))
  have hopened : openAppend c = openWindow 0 c.size c := by
    rw [openAppend, bind_of_ok (get_apply c), hcursor, hremaining]
  cases hopen : openWindow 0 c.size c with
  | error e d =>
    rw [hopen] at hwindow
    rw [Stubs.generate, bind_of_error (hopened.trans hopen)]
    exact hwindow
  | ok w d =>
    rw [hopen] at hwindow
    obtain ⟨⟨host, rfl⟩, hclosed⟩ := hwindow
    rw [Stubs.generate, bind_of_ok (hopened.trans hopen), after_andFinally]
    have hwrote := (Stubs.keeps_write config table { c with host }).wrote
      (show c.cursor ≤ c.size by omega)
    exact hclosed _ (hwrote.mono (Nat.zero_le _) (Nat.le_add_left _ _))

end

namespace Jit

/-! ## Setting up -/

/-- What happens while a compiler is set up, however that ends, keeps to windows. -/
theorem create_traced (config : Config) (table : HandlerTable) (host : Host) :
    ∃ es, (after (create config table host)).events = es.reverse ++ host.events ∧
      Traced config.wxExclusive 0 (roundUpToPage config.codeSpace) es := by
  rcases create_cases config table host with
    ⟨e, hfails⟩ | ⟨c, -, hcursor, hsize, hpos, hexclusive, hevents, hcreate⟩
  · rw [hfails]
    exact ⟨[], rfl, .nil⟩
  · have hlogged := Stubs.logged_generate config table (hsize ▸ Nat.dvd_mul_left _ _) hpos hcursor
    obtain ⟨es, hes, htraced⟩ := hlogged.events
    rw [hexclusive, hsize] at htraced
    rw [hevents] at hes
    refine ⟨es, ?_, htraced⟩
    rw [hcreate]
    cases hgenerate : Stubs.generate config table c <;> rw [hgenerate] at hes <;> exact hes

/-- The compiler carries the platform on which it was set up. -/
theorem create_code {config : Config} {table : HandlerTable} {host host' : Host} {j : Jit}
    (h : create config table host = .ok j host') :
    j.code.host = host' ∧ j.code.size = roundUpToPage config.codeSpace ∧
      j.code.exclusive = config.wxExclusive := by
  rcases create_cases config table host with
    ⟨e, hfails⟩ | ⟨c, -, hcursor, hsize, hpos, hexclusive, -, hcreate⟩
  · cases h.symm.trans hfails
  · have hlogged := Stubs.logged_generate config table (hsize ▸ Nat.dvd_mul_left _ _) hpos hcursor
    rw [h] at hcreate
    cases hgenerate : Stubs.generate config table c with
    | error e d =>
      rw [hgenerate] at hcreate
      cases hcreate
    | ok stubs d =>
      rw [hgenerate] at hcreate hlogged
      cases hcreate
      exact ⟨rfl, hlogged.size.trans hsize, hlogged.exclusive.trans hexclusive⟩

/-! ## Operations -/

/-- What happens during operations keeps to windows and to the pages of blocks. -/
theorem applyAll_traced {config : Config} {table : HandlerTable} {host host' : Host} {j : Jit}
    (hcreate : create config table host = .ok j host') (ops : List Op) :
    (j.applyAll ops).code.size = roundUpToPage config.codeSpace ∧
      ∃ es, (j.applyAll ops).code.host.events = es.reverse ++ host'.events ∧
        Traced config.wxExclusive j.stubs.blocksStart (roundUpToPage config.codeSpace) es := by
  have hj := (create_spec hcreate).orderly.toTidy
  obtain ⟨rfl, hsize, hexclusive⟩ := create_code hcreate
  have hlogged := logged_of_changes
    (applyAll_changes hj (permitted_true j ops) fun _ => id)
  obtain ⟨es, hes, htraced⟩ := hlogged.code.events
  rw [hexclusive, hsize] at htraced
  exact ⟨hlogged.code.size.trans hsize, es, hes, htraced⟩

end Jit

end Dynarec
