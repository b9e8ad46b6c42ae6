import Dynarec.Lower.Select
import Dynarec.Proofs.Code.Action
import Dynarec.Proofs.Lower.Sim

/-!
# What emitting does to a draft

Emitting code appends instructions to the draft and changes its register map; `Draft.put` is that
change.  For each primitive there is one equation (`insns_apply`, `flushAll_apply`) or equivalence
(`mapReg_eq_ok`), so that the code of an instruction is read off by taking its definition apart.
-/

namespace Dynarec

namespace Draft

/-- The draft with instructions appended and another register map. -/
def put (d : Draft) (code : List Insn) (regs : RegMap) : Draft :=
  { d with asm := { d.asm with items := d.asm.items ++ code.map .insn }, regs }

@[simp] theorem regs_put (d : Draft) (code : List Insn) (m : RegMap) : (d.put code m).regs = m := rfl

@[simp] theorem put_nil (d : Draft) : d.put [] d.regs = d := by
  simp [put]

@[simp] theorem put_put (d : Draft) (is js : List Insn) (m n : RegMap) :
    (d.put is m).put js n = d.put (is ++ js) n := by
  simp [put]

end Draft

namespace Emit

open Dynarec.Action

theorem foldl_emit (is : List Insn) (a : Assembler) :
    is.foldl Assembler.emit a = { a with items := a.items ++ is.map .insn } := by
  induction is generalizing a with
  | nil => simp
  | cons i is ih =>
    rw [List.foldl_cons, ih]
    simp [Assembler.emit, Assembler.push]

theorem insns_apply (is : List Insn) (d : Draft) : insns is d = .ok ⟨⟩ (d.put is d.regs) := by
  rw [insns, modify_apply, foldl_emit]
  rfl

theorem insn_apply (i : Insn) (d : Draft) : insn i d = .ok ⟨⟩ (d.put [i] d.regs) := rfl

theorem flushAll_apply (d : Draft) :
    flushAll d = .ok ⟨⟩ (d.put d.regs.flushAll.2 d.regs.flushAll.1) := by
  show insns d.regs.flushAll.2 { d with regs := d.regs.flushAll.1 } = _
  rw [insns_apply]
  rfl

theorem mapReg_eq_ok {slot : UInt8} {mode : MapMode} {d d' : Draft} {r : Gpr} :
    mapReg slot mode d = .ok r d' ↔ ∃ m code,
      d.regs.map (RegMap.guestOf slot) mode = (.ok r, m, code) ∧ d' = d.put code m := by
  have happly : mapReg slot mode d =
      match d.regs.map (RegMap.guestOf slot) mode with
      | (.ok x, m, code) => .ok x (d.put code m)
      | (.error e, m, code) => .error e (d.put code m) := by
    rw [mapReg, bind_of_ok (get_apply d)]
    obtain ⟨answer, m, code⟩ := d.regs.map (RegMap.guestOf slot) mode
    show (insns code >>= fun _ => _) { d with regs := m } = _
    rw [bind_of_ok (insns_apply code _)]
    cases answer <;> rfl
  rw [happly]
  obtain ⟨answer, m, code⟩ := d.regs.map (RegMap.guestOf slot) mode
  cases answer with
  | error e => simp
  | ok x =>
    simp only [EStateM.Result.ok.injEq, Prod.mk.injEq, Except.ok.injEq]
    constructor
    · rintro ⟨rfl, rfl⟩
      exact ⟨m, code, ⟨rfl, rfl, rfl⟩, rfl⟩
    · rintro ⟨m', code', ⟨rfl, rfl, rfl⟩, rfl⟩
      exact ⟨rfl, rfl⟩

/-- Mapping a register and going on with it. -/
theorem bind_mapReg_eq_ok {α : Type} {slot : UInt8} {mode : MapMode} {f : Gpr → Emit α}
    {d d' : Draft} {a : α} :
    (mapReg slot mode >>= f) d = .ok a d' ↔ ∃ r m code,
      d.regs.map (RegMap.guestOf slot) mode = (.ok r, m, code) ∧
        f r (d.put code m) = .ok a d' := by
  rw [bind_eq_ok]
  constructor
  · rintro ⟨r, d₁, hreg, hf⟩
    obtain ⟨m, code, hmap, rfl⟩ := mapReg_eq_ok.mp hreg
    exact ⟨r, m, code, hmap, hf⟩
  · rintro ⟨r, m, code, hmap, hf⟩
    exact ⟨r, _, mapReg_eq_ok.mpr ⟨m, code, hmap, rfl⟩, hf⟩

end Emit

end Dynarec
