import Dynarec.Jit.Compile
import Dynarec.Proofs.Lower.Pieces

/-!
# Where the code of a block lies

The pieces of a block depend on the settings, the handlers, the fixed routines and the place of the
block, and on nothing else; so where each of them lies can be found out without looking into the
code cache, by lowering the instructions once more (`Lower.pieces`).  What the cache holds there,
and what links have made of it since, is said on top of this.

* `Lower.pieces`: the pieces of a list of instructions from an offset on.
* `Lower.stacked_pieces`: they lie one behind the other.
* `Lower.bodyEnd`, `Lower.copyLow`, `Lower.copyStop`: the extent of the body, and of all code of a
  block.
-/

namespace Dynarec

open Lower Dynarec.Action

/-- The piece of an instruction at its place: where it starts, and its lead. -/
structure Piece where
  inst : Inst
  start : Nat
  lead : List Insn
  deriving DecidableEq, Repr

namespace Piece

/-- Where the exit site is. -/
def site (p : Piece) : Nat :=
  p.start + codeSize p.lead

/-- Where the piece ends. -/
def stop (config : Config) (p : Piece) : Nat :=
  p.site + if p.inst.exitDest?.isSome then siteLen config else 0

/-- The same piece further on. -/
def shift (d : Nat) (p : Piece) : Piece :=
  { p with start := p.start + d }

/-- The lead as it stands in the cache. -/
def code (config : Config) (p : Piece) : List Insn :=
  p.lead.map (Insn.mapTarget (skipTo (p.stop config)))

theorem start_le_site (p : Piece) : p.start ≤ p.site :=
  Nat.le_add_right _ _

theorem site_le_stop (config : Config) (p : Piece) : p.site ≤ p.stop config :=
  Nat.le_add_right _ _

/-- A piece with an exit ends behind the site of the exit. -/
theorem stop_of_exitDest {p : Piece} {pc : UInt32} (h : p.inst.exitDest? = some pc)
    (config : Config) : p.stop config = p.site + siteLen config := by
  rw [stop, h]
  rfl

@[simp] theorem site_shift (d : Nat) (p : Piece) : (p.shift d).site = p.site + d :=
  Nat.add_right_comm ..

@[simp] theorem stop_shift (config : Config) (d : Nat) (p : Piece) :
    (p.shift d).stop config = p.stop config + d := by
  rw [stop, stop, site_shift]
  exact Nat.add_right_comm ..

end Piece

namespace Lower

/-- The instructions in front of the first item that is none. -/
def leading : List Item → List Insn
  | .insn i :: items => i :: leading items
  | _ => []

/-- The lead of an instruction and the register map behind it. -/
def lead? (env : LowerEnv) (m : RegMap) (i : Inst) : Option (List Insn × RegMap) :=
  match piece { env with linked := fun _ => none, measure := fun is => .ok (codeSize is) } i
      { regs := m } with
  | .ok _ d => some (leading d.asm.items, d.regs)
  | .error _ _ => none

/-- The pieces of instructions, the first of which is at a position of its block and starts at an
offset. -/
def pieces (env : LowerEnv) :
    (index : Nat) → RegMap → (start : Nat) → List Inst → Option (List Piece)
  | _, _, _, [] => some []
  | index, m, start, i :: is => do
    let (lead, n) ← lead? env (m.setIndex index) i
    let p : Piece := { inst := i, start, lead }
    let rest ← pieces env (index + 1) n (p.stop env.config) is
    some (p :: rest)

/-- Where pieces end that start at an offset. -/
def endOf (config : Config) : (start : Nat) → List Piece → Nat
  | start, [] => start
  | _, p :: ps => endOf config (p.stop config) ps

/-- The pieces of a block with its body at an offset. -/
def blockPieces (env : LowerEnv) (b : Block) (target : Nat) : Option (List Piece) :=
  pieces env 0 ((RegMap.create env.config.staticAlloc).start b.insts) target b.insts

/-- The code of a guard of the downcount in front of a body. -/
def guardCode (env : LowerEnv) (start : UInt32) (body : UInt64) : List Insn :=
  [testDowncount env.config.staticAlloc, .jcc .notSign body] ++ Jit.spentBudget env start

/-- The code that reports a block that runs past its end. -/
def missingExitCode (env : LowerEnv) : List Insn :=
  [.mov64i Gpr.scratch env.table.noBlockExits, .callReg Gpr.scratch, .jmp env.stubs.crash]

/-- The number of bytes of a guard. -/
def guardLen (env : LowerEnv) : Nat :=
  codeSize (guardCode env 0 0)

/-- Where the code of a body ends that starts at an offset, and the padding starts. -/
def codeEnd (env : LowerEnv) (target : Nat) (ps : List Piece) : Nat :=
  endOf env.config target ps +
    if env.config.diagnostics then codeSize (missingExitCode env) else 0

/-- Where a body ends that starts at an offset. -/
def bodyEnd (env : LowerEnv) (target : Nat) (ps : List Piece) : Nat :=
  max (target + Jit.minBodyLen)
    (endOf env.config target ps +
      if env.config.diagnostics then codeSize (missingExitCode env) else 0)

/-- Where the code of a block with a body at an offset starts. -/
def copyLow (env : LowerEnv) (target : Nat) : Nat :=
  if env.config.usesForwardCheck then target - guardLen env else target

/-- Where the code of a block with a body at an offset ends. -/
def copyStop (env : LowerEnv) (target : Nat) (ps : List Piece) : Nat :=
  bodyEnd env target ps + if env.config.usesBackJump then guardLen env else 0

/-- The checked entry of a block with a body at an offset. -/
def checkedAt (env : LowerEnv) (target : Nat) (ps : List Piece) : Nat :=
  if env.config.usesForwardCheck then copyLow env target else bodyEnd env target ps

/-! ## Leads -/

/-- What leads up to the first label. -/
theorem leading_append (code : List Insn) (l : Label) (items : List Item) :
    leading (code.map .insn ++ .mark l :: items) = code := by
  induction code with
  | nil => rfl
  | cons i code ih => rw [List.map_cons, List.cons_append, leading, ih]

/-- Without a label, that is all of it. -/
theorem leading_map (code : List Insn) : leading (code.map .insn) = code := by
  induction code with
  | nil => rfl
  | cons i code ih => rw [List.map_cons, leading, ih]

variable {env : LowerEnv} {i : Inst} {m n : RegMap} {lead : List Insn}

/-- The lead that lowering makes is the one found by lowering once more. -/
theorem lead?_of_makes (h : Makes env i m lead n) : lead? env m i = some (lead, n) := by
  rw [lead?, h.lowers_sized]
  dsimp only
  rw [Draft.finish]
  cases i.exitDest? with
  | none => simp [Draft.put, Assembler.empty, leading_map]
  | some pc => simp [siteItems, leading_append]

/-- A lead does not depend on the link state, and not on how exit sites are measured. -/
theorem Makes.of_linked {linked : UInt32 → Option UInt64}
    {measure : List Insn → Except EncodingError Nat}
    (h : Makes { env with linked, measure } i m lead n) : Makes env i m lead n :=
  ⟨h.branches, h.lowers⟩

/-- The lead found by lowering once more is the one that lowering makes. -/
theorem makes_of_lead? (hfar : ∀ a ∈ env.stubs.targets, codeBase ≤ a)
    (h : lead? env m i = some (lead, n)) : Makes env i m lead n := by
  have hlower := h
  rw [lead?] at hlower
  split at hlower
  · rename_i d' hpiece
    have hunlinked : ∀ a ∈ ({ env with
        linked := fun _ => none, measure := fun is => .ok (codeSize is) } : LowerEnv).stubs.targets,
        codeBase ≤ a := hfar
    obtain ⟨lead', n', hmakes⟩ := makes_of_ok hunlinked hpiece
    have hleads := lead?_of_makes hmakes.of_linked
    rw [h] at hleads
    cases hleads
    exact hmakes.of_linked
  · cases hlower

/-! ## Pieces one behind the other -/

/-- The pieces of a list are that of its first instruction and, behind it, those of the others. -/
theorem pieces_cons_eq_some {index start : Nat} {is : List Inst} {ps : List Piece} :
    pieces env index m start (i :: is) = some ps ↔
      ∃ lead n rest, lead? env (m.setIndex index) i = some (lead, n) ∧
        pieces env (index + 1) n (({ inst := i, start, lead } : Piece).stop env.config) is =
          some rest ∧
        ps = { inst := i, start, lead } :: rest := by
  rw [pieces]
  cases lead? env (m.setIndex index) i with
  | none => simp
  | some x =>
    obtain ⟨lead, n⟩ := x
    simp only [Option.bind_eq_bind, Option.bind_some, Option.bind_eq_some_iff, Option.some.injEq]
    constructor
    · rintro ⟨rest, hrest, rfl⟩
      exact ⟨lead, n, rest, rfl, hrest, rfl⟩
    · rintro ⟨lead', n', rest, heq, hrest, rfl⟩
      cases heq
      exact ⟨rest, hrest, rfl⟩

/-- There is one piece for each instruction. -/
theorem map_inst_pieces {index start : Nat} {is : List Inst} {ps : List Piece}
    (h : pieces env index m start is = some ps) : ps.map Piece.inst = is := by
  induction is generalizing index m start ps with
  | nil =>
    cases h
    rfl
  | cons i is ih =>
    obtain ⟨lead, n, rest, -, hrest, rfl⟩ := pieces_cons_eq_some.mp h
    rw [List.map_cons, ih hrest]

/-- Where pieces lie does not depend on the link state. -/
theorem pieces_linked (env : LowerEnv) (linked : UInt32 → Option UInt64) (is : List Inst)
    (index start : Nat) (m : RegMap) :
    pieces { env with linked } index m start is = pieces env index m start is := by
  have hlead : lead? { env with linked } = lead? env := rfl
  induction is generalizing index start m with
  | nil => rfl
  | cons i is ih =>
    rw [pieces, pieces, hlead]
    simp only [ih]

/-- Further on, the pieces are the same. -/
theorem pieces_add (env : LowerEnv) (is : List Inst) (index start d : Nat) (m : RegMap) :
    pieces env index m (start + d) is =
      (pieces env index m start is).map (List.map (Piece.shift d)) := by
  induction is generalizing index start m with
  | nil => rfl
  | cons i is ih =>
    rw [pieces, pieces]
    cases lead? env (m.setIndex index) i with
    | none => rfl
    | some x =>
      obtain ⟨lead, n⟩ := x
      have hstop : ({ inst := i, start := start + d, lead } : Piece).stop env.config =
          ({ inst := i, start, lead } : Piece).stop env.config + d :=
        Piece.stop_shift env.config d { inst := i, start, lead }
      simp only [Option.bind_eq_bind, Option.bind_some]
      rw [hstop, ih]
      cases pieces env (index + 1) n (({ inst := i, start, lead } : Piece).stop env.config) is <;> rfl

/-- The end of pieces moves with them. -/
theorem endOf_shift (config : Config) (start d : Nat) (ps : List Piece) :
    endOf config (start + d) (ps.map (Piece.shift d)) = endOf config start ps + d := by
  induction ps generalizing start with
  | nil => rfl
  | cons p ps ih => rw [List.map_cons, endOf, endOf, Piece.stop_shift, ih]

/-- Pieces that lie one behind the other from an offset on. -/
def Stacked (config : Config) : (start : Nat) → List Piece → Prop
  | _, [] => True
  | start, p :: ps => p.start = start ∧ Stacked config (p.stop config) ps

/-- The pieces of a list lie one behind the other. -/
theorem stacked_pieces {is : List Inst} {index start : Nat} {ps : List Piece}
    (h : pieces env index m start is = some ps) : Stacked env.config start ps := by
  induction is generalizing index m start ps with
  | nil =>
    cases h
    trivial
  | cons i is ih =>
    obtain ⟨lead, n, rest, -, hrest, rfl⟩ := pieces_cons_eq_some.mp h
    exact ⟨rfl, ih hrest⟩

namespace Stacked

variable {config : Config} {start : Nat} {ps : List Piece}

/-- Pieces end behind their start. -/
theorem le_endOf (h : Stacked config start ps) : start ≤ endOf config start ps := by
  induction ps generalizing start with
  | nil => exact Nat.le_refl _
  | cons p ps ih =>
    obtain ⟨rfl, hrest⟩ := h
    exact Nat.le_trans (Nat.le_trans p.start_le_site (p.site_le_stop config)) (ih hrest)

/-- Each piece lies between the start and the end of all. -/
theorem bounds (h : Stacked config start ps) {p : Piece} (hp : p ∈ ps) :
    start ≤ p.start ∧ p.stop config ≤ endOf config start ps := by
  induction ps generalizing start with
  | nil => cases hp
  | cons q ps ih =>
    obtain ⟨rfl, hrest⟩ := h
    rcases List.mem_cons.mp hp with rfl | hp
    · exact ⟨Nat.le_refl _, hrest.le_endOf⟩
    · have hstop := (Nat.le_trans q.start_le_site (q.site_le_stop config))
      exact ⟨Nat.le_trans hstop (ih hrest hp).1, (ih hrest hp).2⟩

/-- Pieces lie one behind the other. -/
theorem pairwise (h : Stacked config start ps) : ps.Pairwise fun p q => p.stop config ≤ q.start := by
  induction ps generalizing start with
  | nil => exact .nil
  | cons p ps ih =>
    obtain ⟨-, hrest⟩ := h
    exact .cons (fun q hq => (hrest.bounds hq).1) (ih hrest)

/-- Two pieces are the same or lie apart. -/
theorem apart (h : Stacked config start ps) {p q : Piece} (hp : p ∈ ps) (hq : q ∈ ps) :
    p = q ∨ p.stop config ≤ q.start ∨ q.stop config ≤ p.start := by
  induction ps generalizing start with
  | nil => cases hp
  | cons r ps ih =>
    obtain ⟨rfl, hrest⟩ := h
    rcases List.mem_cons.mp hp with rfl | hp' <;> rcases List.mem_cons.mp hq with heq | hq'
    · exact .inl heq.symm
    · exact .inr (.inl (hrest.bounds hq').1)
    · exact .inr (.inr (heq ▸ (hrest.bounds hp').1))
    · exact ih hrest hp' hq'

end Stacked

end Lower

end Dynarec
