import Dynarec.Proofs.Lower.Replay
import Dynarec.Proofs.Machine.Cutpoints

/-!
# The code of blocks leaves the stack alone

Whatever its instructions are, the lead of a piece consists of quiet instructions, calls of fixed
routines and of handlers, and branches to the dispatcher or to the end of the piece (`Lower.Tame`).
For that, the slots that instructions name do not matter, and neither does what is computed.

Shape of the argument: an action that emits tame code keeps the register map consistent and hands
out loose registers only (`Emit.Yields`).  The actions that lowering is made of do so, and hence the
lowering of every instruction (`Makes.tame`) and all pieces of a block (`tame_of_blockPieces`).
-/

namespace Dynarec

open Lower Dynarec.Action

/-- The fixed routines that blocks call. -/
def Stubs.routines (s : Stubs) : List UInt64 :=
  [s.restoreRounding, s.applyRounding] ++ s.saveStatic.toList ++ s.loadStatic.toList

/-- The routines that blocks call are among the addresses that they branch to. -/
theorem Stubs.targets_of_routines {s : Stubs} {a : UInt64} (h : a ∈ s.routines) : a ∈ s.targets := by
  simp only [routines, targets, List.mem_append, List.mem_cons, List.not_mem_nil, or_false] at h ⊢
  rcases h with (h | h) | h
  · rcases h with h | h <;> simp [h]
  · exact .inl (.inr h)
  · exact .inr h

namespace HandlerTable

theorem has_advance (t : HandlerTable) : t.Has t.advance :=
  .inl (by simp [fixed])

theorem has_resolve (t : HandlerTable) : t.Has t.resolve :=
  .inl (by simp [fixed])

/-- Whether an address is that of a handler that blocks call.  To advance time and to look up code
is left to the dispatcher. -/
def Attends (t : HandlerTable) (a : UInt64) : Prop :=
  a ∈ [t.generic, t.noBlockExits] ++ t.notify.toList ∨ ∃ opcode, a = t.interpret opcode

/-- The handlers that blocks call are handlers. -/
theorem Attends.has {t : HandlerTable} {a : UInt64} (h : t.Attends a) : t.Has a := by
  refine h.imp_left fun hmem => ?_
  simp only [fixed, List.mem_append, List.mem_cons, List.not_mem_nil, or_false] at hmem ⊢
  rcases hmem with (h | h) | h <;> simp [h]

end HandlerTable

namespace RegMap

/-- Registers that may be handed out are neither the stack pointer nor kept for the context. -/
theorem isLoose_of_mem_allocatable {staticAlloc : Bool} {r : Gpr}
    (hr : r ∈ allocatableRegs staticAlloc) : Insn.isLoose r := by
  obtain ⟨hcontext, -, hrsp, -⟩ := ne_of_mem_allocatable hr
  simp [Insn.isLoose, hcontext, hrsp]

/-- Emptying a register is quiet. -/
theorem quiet_release (m : RegMap) (r : Gpr) : ∀ i ∈ (m.release r).2, i.isQuiet := by
  rw [release]
  split
  · simp
  · dsimp only
    split
    · simp [Insn.isQuiet]
    · simp

/-- So is emptying all of them. -/
theorem quiet_flushAll (m : RegMap) : ∀ i ∈ m.flushAll.2, i.isQuiet := by
  have hreleases : ∀ (rs : List Gpr) (m : RegMap), ∀ i ∈ (m.releaseAll rs).2, i.isQuiet := by
    intro rs
    induction rs with
    | nil => simp [releaseAll]
    | cons r rs ih =>
      intro m i hi
      rcases List.mem_append.mp hi with hi | hi
      · exact quiet_release m r i hi
      · exact ih _ i hi
  exact hreleases _ m

variable {m n : RegMap} {g : GuestReg} {mode : MapMode} {r : Gpr} {code : List Insn}
  {staticAlloc : Bool}

/-- A register that is handed out is loose. -/
theorem Consistent.isLoose_map (h : m.Consistent staticAlloc)
    (hmap : m.map g mode = (.ok r, n, code)) : Insn.isLoose r := by
  have hn := h.map hmap
  exact isLoose_of_mem_allocatable (hn.handed r g ((hn.inverse g r).mp (mapped?_map hmap)))

/-- Mapping a register is quiet. -/
theorem Consistent.quiet_map (h : m.Consistent staticAlloc)
    (hmap : m.map g mode = (.ok r, n, code)) : ∀ i ∈ code, i.isQuiet := by
  have hr := h.isLoose_map hmap
  rcases map_eq_ok hmap with ⟨_, rfl, _⟩ | ⟨_, _, k, pre, hroom, _, rfl⟩
  · simp
  · intro i hi
    rcases List.mem_append.mp hi with hi | hi
    · cases hroom with
      | empty hfree => cases hi
      | evict clock hlocked => exact quiet_release _ r i hi
    · split at hi
      · obtain rfl := List.mem_singleton.mp hi
        exact hr
      · cases hi

end RegMap

namespace Lower

/-- Code of quiet instructions, calls, and branches to the dispatcher or to `skip`. -/
inductive Tame (env : LowerEnv) (skip : UInt64) : List Insn → Prop
  | nil : Tame env skip []
  | quiet {i : Insn} {is : List Insn} (hi : i.isQuiet) (his : Tame env skip is) :
    Tame env skip (i :: is)
  | call {a : UInt64} {is : List Insn} (ha : a ∈ env.stubs.routines) (his : Tame env skip is) :
    Tame env skip (.call a :: is)
  | handler {a : UInt64} {is : List Insn} (ha : env.table.Attends a) (his : Tame env skip is) :
    Tame env skip (.mov64i Gpr.scratch a :: .callReg Gpr.scratch :: is)
  | branch {cond : Cond} {a : UInt64} {is : List Insn} (ha : a = env.stubs.dispatcherPc ∨ a = skip)
    (his : Tame env skip is) : Tame env skip (.jcc cond a :: is)
  | jump {a : UInt64} {is : List Insn}
    (ha : a = env.stubs.dispatcherPc ∨ a = env.stubs.checkCoreState) (his : Tame env skip is) :
    Tame env skip (.jmp a :: is)

namespace Tame

variable {env : LowerEnv} {skip : UInt64} {is js : List Insn}

/-- Tame code behind tame code is tame. -/
theorem append (his : Tame env skip is) (hjs : Tame env skip js) : Tame env skip (is ++ js) := by
  induction his with
  | nil => exact hjs
  | quiet hi _ ih => exact .quiet hi ih
  | call ha _ ih => exact .call ha ih
  | handler ha _ ih => exact .handler ha ih
  | branch ha _ ih => exact .branch ha ih
  | jump ha _ ih => exact .jump ha ih

/-- Quiet code is tame. -/
theorem of_quiet (h : ∀ i ∈ is, i.isQuiet) : Tame env skip is := by
  induction is with
  | nil => exact .nil
  | cons i is ih =>
    exact .quiet (h i List.mem_cons_self) (ih fun k hk => h k (List.mem_cons_of_mem i hk))

/-- The call of a handler with a second argument. -/
theorem handlerCall {second : Insn} (hsecond : second.isQuiet) {a : UInt64}
    (ha : env.table.Attends a) : Tame env skip (handlerCall second a) :=
  .quiet rfl (.quiet hsecond (.handler ha .nil))

/-- In the cache, the branches to the end of the piece go to its address. -/
theorem map_skipTo (hfar : ∀ a ∈ env.stubs.targets, codeBase ≤ a)
    (h : Tame env skipLabel.symbol is) (stop : Nat) :
    Tame env (CodeCache.addressOf stop) (is.map (Insn.mapTarget (skipTo stop))) := by
  have hsame : ∀ a ∈ env.stubs.targets, skipTo stop a = a := fun a ha => skipTo_of_le (hfar a ha) stop
  induction h with
  | nil => exact .nil
  | quiet hi _ ih =>
    rw [List.map_cons, Insn.mapTarget_of_isPlain (Insn.isPlain_of_isQuiet hi)]
    exact .quiet hi ih
  | call ha _ ih =>
    refine .call ?_ ih
    rw [hsame _ (Stubs.targets_of_routines ha)]
    exact ha
  | handler ha _ ih => exact .handler ha ih
  | branch ha _ ih =>
    refine .branch ?_ ih
    rcases ha with rfl | rfl
    · exact .inl (hsame _ (by simp [Stubs.targets]))
    · exact .inr (if_pos rfl)
  | jump ha _ ih =>
    refine .jump ?_ ih
    rcases ha with rfl | rfl
    · exact .inl (hsame _ (by simp [Stubs.targets]))
    · exact .inr (hsame _ (by simp [Stubs.targets]))

end Tame

end Lower

namespace Emit

variable {α β : Type}

/-- An action that appends tame code, keeps the register map consistent, and answers as it
should. -/
def Yields (env : LowerEnv) (x : Emit α) (ok : α → Prop) : Prop :=
  ∀ ⦃d a d'⦄, d.regs.Consistent env.config.staticAlloc → x d = .ok a d' →
    ok a ∧ ∃ code m, d' = d.put code m ∧ m.Consistent env.config.staticAlloc ∧
      Tame env skipLabel.symbol code

variable {env : LowerEnv}

theorem yields_pure {a : α} {ok : α → Prop} (ha : ok a) : Yields env (pure a) ok := by
  intro d b d' hd h
  cases h
  exact ⟨ha, [], d.regs, d.put_nil.symm, hd, .nil⟩

/-- Actions that emit tame code, one after the other, emit tame code. -/
theorem Yields.bind {x : Emit α} {f : α → Emit β} {ok : α → Prop} {ok' : β → Prop}
    (hx : Yields env x ok) (hf : ∀ a, ok a → Yields env (f a) ok') : Yields env (x >>= f) ok' := by
  intro d b d' hd h
  obtain ⟨a, d₁, hxd, hfd⟩ := bind_eq_ok.mp h
  obtain ⟨ha, is, m, rfl, hm, his⟩ := hx hd hxd
  obtain ⟨hb, js, n, rfl, hn, hjs⟩ := hf a ha hm hfd
  exact ⟨hb, is ++ js, n, d.put_put .., hn, his.append hjs⟩

/-- Emitting tame code does. -/
theorem yields_insns {is : List Insn} (his : Tame env skipLabel.symbol is) :
    Yields env (insns is) fun _ => True := by
  intro d a d' hd h
  rw [insns_apply] at h
  cases h
  exact ⟨trivial, is, d.regs, rfl, hd, his⟩

theorem yields_quiet {i : Insn} (hi : i.isQuiet) : Yields env (insn i) fun _ => True := by
  have hyields : Yields env (insns [i]) fun _ => True := yields_insns (.quiet hi .nil)
  exact hyields

/-- Sending all registers back emits tame code. -/
theorem yields_flushAll : Yields env flushAll fun _ => True := by
  intro d a d' hd h
  rw [flushAll_apply] at h
  cases h
  exact ⟨trivial, _, _, rfl, hd.flushAll, .of_quiet (RegMap.quiet_flushAll _)⟩

/-- Mapping a register emits tame code and gives a loose register. -/
theorem yields_mapReg (slot : UInt8) (mode : MapMode) :
    Yields env (mapReg slot mode) fun r => Insn.isLoose r := by
  intro d r d' hd h
  obtain ⟨m, code, hmap, rfl⟩ := mapReg_eq_ok.mp h
  exact ⟨hd.isLoose_map hmap, code, m, rfl, hd.map hmap, .of_quiet (hd.quiet_map hmap)⟩

/-- The call of a routine is tame. -/
theorem yields_callIf {stub : Option UInt64} (h : ∀ a ∈ stub, a ∈ env.stubs.routines) :
    Yields env (callIf stub) fun _ => True := by
  cases stub with
  | none => exact yields_pure trivial
  | some a =>
    have hyields : Yields env (insns [.call a]) fun _ => True :=
      yields_insns (.call (h a rfl) .nil)
    exact hyields

end Emit

namespace Lower

open Emit

variable {env : LowerEnv} {i : Inst}

/-- Arithmetic on two registers is tame. -/
theorem yields_binary (op : Alu) : Yields env (binary op i) fun _ => True := by
  refine (yields_mapReg _ _).bind fun left hleft => (yields_mapReg _ _).bind fun right hright => ?_
  split
  · exact (yields_mapReg _ _).bind fun dest hdest => yields_quiet hdest
  split
  · exact (yields_mapReg _ _).bind fun dest hdest =>
      yields_insns (.quiet hdest (.quiet hdest .nil))
  · exact (yields_insns (.quiet rfl (.quiet rfl .nil))).bind fun _ _ =>
      (yields_mapReg _ _).bind fun dest hdest => yields_quiet hdest

/-- Copying the first source to the destination is tame, and the destination is loose. -/
theorem yields_destFromSrc1 : Yields env (destFromSrc1 i) fun r => Insn.isLoose r := by
  rw [destFromSrc1]
  split
  · exact yields_mapReg _ _
  · exact (yields_mapReg _ _).bind fun src _ => (yields_mapReg _ _).bind fun dest hdest =>
      (yields_quiet (i := .mov32 dest src) hdest).bind fun _ _ => yields_pure hdest

theorem yields_save : Yields env (callIf env.stubs.saveStatic) fun _ => True :=
  yields_callIf fun a ha => by
    rw [Option.mem_def] at ha
    simp [Stubs.routines, ha]

theorem yields_load : Yields env (callIf env.stubs.loadStatic) fun _ => True :=
  yields_callIf fun a ha => by
    rw [Option.mem_def] at ha
    simp [Stubs.routines, ha]

/-- The call of the generic handler is tame. -/
theorem yields_generic : Yields env (generic env i) fun _ => True := by
  refine yields_flushAll.bind fun _ _ => yields_save.bind fun _ _ =>
    (yields_insns (.handlerCall rfl (.inl (by simp)))).bind fun _ _ =>
      yields_load.bind fun _ _ => ?_
  split
  · exact yields_insns (.quiet rfl (.branch (.inl rfl) .nil))
  · exact yields_pure trivial

/-- So are the calls of the notify handler and of the interpreter. -/
theorem yields_interpret : Yields env (interpret env i) fun _ => True := by
  have hcall : Yields env (insns (handlerCall (.mov32i Gpr.arg2 i.constant)
      (env.table.interpret i.constant)) >>= fun _ => callIf env.stubs.loadStatic) fun _ => True :=
    (yields_insns (.handlerCall rfl (.inr ⟨_, rfl⟩))).bind fun _ _ => yields_load
  refine yields_flushAll.bind fun _ _ => yields_save.bind fun _ _ => ?_
  split
  · rename_i a _ hnotify
    refine (yields_insns (.handlerCall rfl (.inl ?_))).bind fun _ _ => hcall
    simp [hnotify]
  · exact hcall

/-- Instructions without an exit site emit tame code. -/
theorem yields_inst (hdest : i.exitDest? = none) : Yields env (inst env i) fun _ => True := by
  have hjump : ∀ {a : UInt64}, a = env.stubs.dispatcherPc ∨ a = env.stubs.checkCoreState →
      Yields env (insns [.jmp a]) fun _ => True := fun ha => yields_insns (.jump ha .nil)
  have hstub : ∀ {a : UInt64}, a ∈ env.stubs.routines →
      Yields env (insns [.call a]) fun _ => True := fun ha => yields_insns (.call ha .nil)
  rw [Inst.exitDest?] at hdest
  rw [inst]
  split <;> rename_i hop <;> rw [hop] at hdest <;> try cases hdest
  case h_1 => exact yields_pure trivial
  case h_2 => exact (yields_mapReg _ _).bind fun dest hdest => yields_quiet hdest
  case h_3 =>
    split
    · exact yields_pure trivial
    · exact (yields_mapReg _ _).bind fun src _ => (yields_mapReg _ _).bind fun dest hdest =>
        yields_quiet hdest
  -- arithmetic on two registers, then with a constant, then shifts
  case h_4 | h_5 | h_6 | h_7 | h_8 => exact yields_binary _
  case h_9 | h_10 | h_11 | h_12 | h_13 =>
    exact yields_destFromSrc1.bind fun _ hdest => yields_quiet hdest
  case h_14 | h_15 | h_16 => exact yields_destFromSrc1.bind fun _ hdest => yields_quiet hdest
  -- the program counter and the downcount
  case h_17 => exact (yields_mapReg _ _).bind fun src _ => yields_quiet rfl
  case h_18 => exact yields_quiet rfl
  case h_19 => exact yields_quiet (by split <;> rfl)
  case h_20 => exact hstub (by simp [Stubs.routines])
  case h_21 => exact hstub (by simp [Stubs.routines])
  case h_22 => exact yields_interpret
  -- exits to a register and to the program counter
  case h_24 =>
    exact (yields_mapReg _ _).bind fun src _ => (yields_quiet rfl).bind fun _ _ =>
      yields_flushAll.bind fun _ _ => hjump (.inl rfl)
  case h_25 => exact yields_flushAll.bind fun _ _ => hjump (.inr rfl)
  all_goals exact yields_generic

/-- So is the test of a conditional exit. -/
theorem yields_exitTest (against : Against) : Yields env (exitTest against i) fun _ => True := by
  refine (yields_mapReg _ _).bind fun left hleft => ?_
  cases against with
  | zero => exact yields_flushAll.bind fun _ _ => yields_quiet (i := .alu32i .cmp left 0) hleft
  | src2 =>
    exact (yields_mapReg _ _).bind fun right _ => yields_flushAll.bind fun _ _ =>
      yields_quiet (i := .alu32 .cmp left right) hleft

/-- The lead of every instruction is tame. -/
theorem Makes.tame {m n : RegMap} {lead : List Insn} (h : Makes env i m lead n)
    (hm : m.Consistent env.config.staticAlloc) :
    n.Consistent env.config.staticAlloc ∧ Tame env skipLabel.symbol lead := by
  cases hdest : i.exitDest? with
  | none =>
    -- any environment shows the code of the lead, with links or without
    have hpiece := h.lowers env.linked env.measure { regs := m } (.of_none hdest) rfl rfl rfl
    have hflush : Yields env (if env.config.noGprCache then flushAll else pure ⟨⟩) fun _ => True := by
      split
      · exact yields_flushAll
      · exact yields_pure trivial
    have hyields : Yields env (piece env i) fun _ => True :=
      (yields_inst hdest).bind fun _ _ => hflush
    obtain ⟨-, code, k, heq, hk, hcode⟩ := hyields hm hpiece
    rw [Draft.finish, hdest] at heq
    obtain ⟨rfl, rfl⟩ := Draft.put_inj heq
    exact ⟨hk, hcode⟩
  | some pc =>
    by_cases hop : i.op = .exitToConst
    · obtain ⟨rfl, rfl⟩ := h.unique (makes_exitToConst hop env m)
      exact ⟨hm.flushAll, .of_quiet (RegMap.quiet_flushAll m)⟩
    · obtain ⟨against, taken, hcond⟩ := exitCond_of_exitDest? hdest hop
      obtain ⟨_, d₁, hinst, -⟩ := bind_eq_ok.mp (h.lowers_sized env.linked)
      rw [inst_of_exitCond hcond, exitIf_eq] at hinst
      obtain ⟨_, d₂, htest, -⟩ := bind_eq_ok.mp hinst
      have hyields : Yields env (exitTest against i) fun _ => True := yields_exitTest against
      obtain ⟨-, is, k', heq, hk, htame⟩ := hyields hm htest
      obtain ⟨k, code, compare, rfl, -⟩ := exitTest_eq_ok htest
      obtain ⟨rfl, rfl⟩ := Draft.put_inj heq
      obtain ⟨rfl, rfl⟩ := h.unique (makes_exitIf hcond hop htest env)
      exact ⟨hk, htame.append (.branch (.inr rfl) .nil)⟩

/-- All leads of a list of instructions are tame. -/
theorem tame_of_pieces (hfar : ∀ a ∈ env.stubs.targets, codeBase ≤ a) {is : List Inst}
    {index start : Nat} {m : RegMap} {ps : List Piece}
    (h : pieces env index m start is = some ps) (hm : m.Consistent env.config.staticAlloc) :
    ∀ p ∈ ps, Tame env skipLabel.symbol p.lead := by
  induction is generalizing index m start ps with
  | nil =>
    cases h
    simp
  | cons i is ih =>
    obtain ⟨lead, n, rest, hlead, hrest, rfl⟩ := pieces_cons_eq_some.mp h
    have hindex : (m.setIndex index).Consistent env.config.staticAlloc := hm.congr rfl rfl rfl
    obtain ⟨hn, htame⟩ := (makes_of_lead? hfar hlead).tame hindex
    intro p hp
    rcases List.mem_cons.mp hp with rfl | hp
    · exact htame
    · exact ih hrest hn p hp

end Lower

end Dynarec
