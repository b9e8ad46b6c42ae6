import Dynarec.Proofs.Jit.Translate

/-!
# What handlers find in memory

Handlers see the guest context in memory, and compiled code keeps guest registers in host registers.
Whenever an instruction of a block calls a handler, its code sends all guest registers back first,
and the handler finds the guest as the instructions before have left it.  The report of a missing
exit is no instruction, and nothing is sent back in front of it: its handler finds the guest
registers that memory is not behind of.

Shape of the argument:

1. a step of the machine adds the call that it makes to the records and takes nothing from them, so
   every call on the way to a state is in its records (`Step.records`, `getElem?_records`);
2. carrying out an instruction adds the calls that it makes (`Inst.records_eval`), so a record made
   by instructions was made by one of them, behind those before it (`Inst.exists_call`);
3. at the end of a block the records of machine and guest are the same, which settles all calls that
   instructions make (`callsInStep_of_records`);
4. behind instructions that stay in the block, memory is behind by what the register map says
   (`ends_pieces`), and so it is at the report of a missing exit (`EndsAt.reports`).
-/

namespace Dynarec

open Lower Dynarec.Action CodeCache

variable {σ : Type}

/-! ## Calls on the way -/

/-- What a call that has arrived at an address asks for, given its second argument. -/
def HandlerTable.request? (t : HandlerTable) (address second : UInt64) : Option Request :=
  if address = t.generic then some (.generic second)
  else if address = t.advance then some .advance
  else if address = t.resolve then some .resolve
  else if address = t.noBlockExits then some .noBlockExits
  else if some address = t.notify then some (.notify second.toUInt32)
  else if address = t.interpret second.toUInt32 then some (.interpret second.toUInt32)
  else none

/-- The handler for missing exits answers to its own address. -/
theorem HandlerTable.request?_noBlockExits {t : HandlerTable} {size : Nat} (hsep : t.Separate size)
    (second : UInt64) : t.request? t.noBlockExits second = some .noBlockExits := by
  have hd := hsep.distinct
  simp only [fixed, List.cons_append, List.nil_append, List.nodup_cons, List.mem_cons] at hd
  rw [request?, if_neg (by grind), if_neg (by grind), if_neg (by grind), if_pos rfl]

namespace Handlers

/-- The handler that a request is for. -/
def handler (h : Handlers σ) : Request → Handler σ
  | .generic packed => h.generic packed
  | .interpret opcode => h.interpret opcode
  | .notify opcode => h.notify opcode
  | .advance => h.advance
  | .resolve => h.resolve
  | .noBlockExits => h.noBlockExits

/-- Handlers are found by what is asked of them. -/
theorem find?_eq_map_handler (h : Handlers σ) (t : HandlerTable) (address second : UInt64) :
    h.find? t address second = (t.request? address second).map h.handler := by
  rw [find?, HandlerTable.request?]
  split_ifs <;> rfl

/-- A recorded handler does what the handler does, and puts the call on record. -/
theorem handler_recorded (h : Handlers σ) (request : Request) :
    h.recorded.handler request = (h.handler request).recorded request := by
  cases request <;> rfl

end Handlers

namespace Jit

/-- The call of a handler that the machine is about to make. -/
def nextCall? (j : Jit) (c : Cpu) : Option Call :=
  (j.table.request? c.ip (c.reg Gpr.arg2)).map fun request => { request, context := c.context }

variable {j k : Jit} {h : Handlers σ} {frame : Cpu}

/-- A step records the call that it makes. -/
theorem Step.records {x y : Cpu × (σ × List Call)} (hstep : j.Step h.recorded x y) :
    y.2.2 = x.2.2 ++ (j.nextCall? x.1).toList := by
  have hrun := hstep.2
  rw [runStep, Handlers.find?_eq_map_handler] at hrun
  rw [nextCall?]
  cases hrequest : j.table.request? x.1.ip (x.1.reg Gpr.arg2) with
  | some request =>
    simp only [hrequest, Option.map_some, Handlers.handler_recorded] at hrun
    split at hrun
    · cases hrun
      rfl
    · cases hrun
  | none =>
    rw [hrequest, Option.map_none] at hrun
    cases hinsn : x.1.step j.decodeAt with
    | error fault =>
      rw [hinsn] at hrun
      cases hrun
    | ok d =>
      rw [hinsn] at hrun
      cases hrun
      exact (List.append_nil _).symm

/-- Calls stay on record. -/
theorem Reach.records {x y : Cpu × (σ × List Call)} (hreach : j.Reach h.recorded x y) :
    x.2.2 <+: y.2.2 := by
  induction hreach with
  | refl => exact List.prefix_rfl
  | tail _ hstep ih =>
    rw [hstep.records]
    exact ih.trans (List.prefix_append _ _)

/-- A call on the way to a state is in its records, behind those before the call. -/
theorem getElem?_records {y z : Cpu × (σ × List Call)} {call : Call}
    (hway : Relation.TransGen (j.Step h.recorded) z y) (hcall : j.nextCall? z.1 = some call) :
    y.2.2[z.2.2.length]? = some call := by
  -- the step that makes the call puts it behind the records so far, and no later one removes it
  obtain ⟨z', hstep, hreach⟩ := Relation.TransGen.head'_iff.mp hway
  obtain ⟨later, hlater⟩ := Reach.records hreach
  rw [← hlater, hstep.records, hcall]
  simp

end Jit

/-! ## Calls that instructions make -/

/-- Whether instructions are carried out by a handler. -/
def Opcode.callsHandler : Opcode → Bool
  | .interpret | .load32 | .store32 | .fadd | .fmul | .updateRoundingMode | .callReplacement
  | .syscall | .trap => true
  | _ => false

namespace Inst

/-- The calls that an instruction makes, each with the context that its handler is to find. -/
def calls (h : Handlers σ) (notifies : Bool) (i : Inst) (g : Guest σ) : List Call :=
  if i.op = .interpret then
    if notifies then
      [{ request := .notify i.constant, context := g.context },
       { request := .interpret i.constant, context := (g.call (h.notify i.constant)).2.context }]
    else [{ request := .interpret i.constant, context := g.context }]
  else if i.op.callsHandler then [{ request := .generic i.pack, context := g.context }]
  else []

/-- Instructions that call no handler leave the state of the handlers alone. -/
theorem state_eval_of_callsHandler {i : Inst} (hcalls : i.op.callsHandler = false)
    (h : Handlers σ) (notifies : Bool) (g : Guest σ) :
    (i.eval h notifies g).1.state = g.state := by
  rw [eval]
  split <;> rename_i hop <;> try (rw [hop] at hcalls; cases hcalls)
  case h_6 =>
    show g.applyRounding.state = g.state
    rw [Guest.applyRounding]
    split <;> rfl
  all_goals first | rfl | (split <;> rfl)

/-- Carrying out an instruction records the calls that it makes. -/
theorem records_eval (h : Handlers σ) (notifies : Bool) (i : Inst) (g : Guest (σ × List Call)) :
    (i.eval h.recorded notifies g).1.state.2 = g.state.2 ++ i.calls h.recorded notifies g := by
  cases hcalls : i.op.callsHandler with
  | false =>
    have hop : i.op ≠ .interpret := by
      intro hop
      rw [hop] at hcalls
      cases hcalls
    rw [state_eval_of_callsHandler hcalls, calls, if_neg hop, hcalls, if_neg (by simp),
      List.append_nil]
  | true =>
    rw [eval, calls]
    cases hop : i.op <;> rw [hop] at hcalls <;> first | cases hcalls; done | skip
    case interpret =>
      cases notifies with
      | false => rfl
      | true => exact List.append_assoc _ [_] [_]
    all_goals rfl

variable {h : Handlers σ} {notifies : Bool}

/-- Calls of instructions stay on record. -/
theorem records_evalList (is : List Inst) (g : Guest (σ × List Call)) :
    g.state.2 <+: (evalList h.recorded notifies is g).1.state.2 := by
  induction is generalizing g with
  | nil => exact List.prefix_rfl
  | cons i is ih =>
    have hfirst : g.state.2 <+: (i.eval h.recorded notifies g).1.state.2 := by
      rw [records_eval]
      exact List.prefix_append _ _
    rw [evalList]
    split
    · rename_i heval
      rw [heval] at hfirst
      exact hfirst
    · rename_i heval
      rw [heval] at hfirst
      exact hfirst.trans (ih _)

/-- What instructions have recorded was recorded by one of them, which those before it have led
to. -/
theorem exists_call {is : List Inst} {g : Guest (σ × List Call)} {n : Nat} {call : Call}
    (hn : g.state.2.length ≤ n)
    (hcall : (evalList h.recorded notifies is g).1.state.2[n]? = some call) :
    ∃ index i g₁, is[index]? = some i ∧
      evalList h.recorded notifies (is.take index) g = (g₁, none) ∧
      call ∈ i.calls h.recorded notifies g₁ := by
  induction is generalizing g with
  | nil =>
    rw [evalList, List.getElem?_eq_none hn] at hcall
    cases hcall
  | cons i is ih =>
    have hfirst := records_eval h notifies i g
    cases heval : i.eval h.recorded notifies g with
    | mk g₁ leave =>
      rw [heval] at hfirst
      by_cases hlt : n < g₁.state.2.length
      · -- the first instruction has recorded it, and nothing later takes it away
        obtain ⟨later, hlater⟩ :
            g₁.state.2 <+: (evalList h.recorded notifies (i :: is) g).1.state.2 := by
          rw [evalList, heval]
          cases leave with
          | some leave => exact List.prefix_rfl
          | none => exact records_evalList is g₁
        rw [← hlater, List.getElem?_append_left hlt, hfirst, List.getElem?_append_right hn] at hcall
        exact ⟨0, i, g, rfl, rfl, List.mem_of_getElem? hcall⟩
      · cases leave with
        | some leave =>
          rw [evalList, heval] at hcall
          rw [List.getElem?_eq_none (Nat.le_of_not_lt hlt)] at hcall
          cases hcall
        | none =>
          -- it was recorded behind the first instruction, by one of those that follow
          rw [evalList, heval] at hcall
          obtain ⟨index, i', g₂, hi', hbefore, hmem⟩ := ih (Nat.le_of_not_lt hlt) hcall
          refine ⟨index + 1, i', g₂, hi', ?_, hmem⟩
          rw [List.take_succ_cons, evalList, heval]
          exact hbefore

end Inst

/-! ## The register map behind a block -/

namespace Lower

/-- The register map behind instructions, the first of which is at a position of its block. -/
def mapBehind (env : LowerEnv) : (index : Nat) → RegMap → List Inst → Option RegMap
  | _, m, [] => some m
  | index, m, i :: is => do
    let (_, n) ← lead? env (m.setIndex index) i
    mapBehind env (index + 1) n is

/-- The register map behind the first instructions of a block. -/
def blockMap (env : LowerEnv) (b : Block) (count : Nat) : Option RegMap :=
  mapBehind env 0 ((RegMap.create env.config.staticAlloc).start b.insts) (b.insts.take count)

/-- The register map behind all instructions of a block. -/
theorem blockMap_length (env : LowerEnv) (b : Block) :
    blockMap env b b.insts.length =
      mapBehind env 0 ((RegMap.create env.config.staticAlloc).start b.insts) b.insts := by
  rw [blockMap, List.take_length]

/-- The maps in front of a piece and behind it. -/
theorem exists_lead?_of_pieces {env : LowerEnv} {is : List Inst} {first start : Nat} {m : RegMap}
    {ps : List Piece} (hps : pieces env first m start is = some ps) {index : Nat} {i : Inst}
    {p : Piece} (hi : is[index]? = some i) (hp : ps[index]? = some p) :
    ∃ n n', mapBehind env first m (is.take index) = some n ∧
      mapBehind env first m (is.take (index + 1)) = some n' ∧
      lead? env (n.setIndex (first + index)) i = some (p.lead, n') := by
  induction is generalizing first start m ps index with
  | nil => cases hi
  | cons i₀ is ih =>
    obtain ⟨lead, n, rest, hlead, hrest, rfl⟩ := pieces_cons_eq_some.mp hps
    cases index with
    | zero =>
      cases hi
      cases hp
      refine ⟨m, n, rfl, ?_, hlead⟩
      rw [List.take_succ_cons, List.take_zero, mapBehind, hlead]
      rfl
    | succ index =>
      obtain ⟨k, k', hk, hk', hlead'⟩ := ih hrest hi hp
      have hposition : first + 1 + index = first + (index + 1) := by omega
      rw [hposition] at hlead'
      refine ⟨k, k', ?_, ?_, hlead'⟩
      · rw [List.take_succ_cons, mapBehind, hlead]
        exact hk
      · rw [List.take_succ_cons, mapBehind, hlead]
        exact hk'

/-- Code that sends all guest registers back before anything else, and takes none from there:
the register map `m` is in front of it, `n` behind it. -/
structure FlushesFirst (m : RegMap) (code : List Insn) (n : RegMap) : Prop where
  code : m.flushAll.2 <+: code
  regs : n = m.flushAll.1

/-- When no guest register may stay in a host register, none does. -/
theorem mapped?_of_noGprCache {env : LowerEnv} (hcache : env.config.noGprCache) {m n : RegMap}
    {i : Inst} {lead : List Insn} (hlead : lead? env m i = some (lead, n)) {staticAlloc : Bool}
    (hn : n.Consistent staticAlloc) (x : GuestReg) : n.mapped? x = none := by
  obtain ⟨d, rfl⟩ : ∃ d : RegMap, n = d.flushAll.1 := by
    rw [lead?] at hlead
    split at hlead
    · rename_i hpiece
      cases hlead
      rw [piece, if_pos hcache] at hpiece
      obtain ⟨_, e, -, hflush⟩ := bind_eq_ok.mp hpiece
      rw [Emit.flushAll_apply] at hflush
      cases hflush
      exact ⟨e.regs, rfl⟩
    · cases hlead
  have hnone := RegMap.mapped?_flushAll hn x
  rw [RegMap.flushAll_flushAll] at hnone
  exact hnone

end Lower

namespace Jit

variable {j k : Jit} {h : Handlers σ} {frame : Cpu}

/-- The code of an instruction that calls a handler starts by sending all registers back. -/
theorem inst_of_callsHandler {i : Inst} (hcalls : i.op.callsHandler) (d : Draft) :
    ∃ code, inst j.lowerEnv i d = .ok ⟨⟩ (d.put (d.regs.flushAll.2 ++ code) d.regs.flushAll.1) := by
  rw [inst]
  cases hop : i.op <;> rw [hop] at hcalls <;> try cases hcalls
  case interpret => exact ⟨_, interpret_apply j i d⟩
  all_goals
    have hgeneric := generic_apply j i d
    rw [List.append_assoc] at hgeneric
    exact ⟨_, hgeneric⟩

/-- An instruction that calls a handler sends all guest registers back first. -/
theorem flushesFirst_of_lead? {i : Inst} (hcalls : i.op.callsHandler) {m n : RegMap}
    {lead : List Insn} (hlead : lead? j.lowerEnv m i = some (lead, n)) : FlushesFirst m lead n := by
  have hdest : i.exitDest? = none := by
    rw [Inst.exitDest?]
    cases hop : i.op <;> rw [hop] at hcalls <;> first | rfl | cases hcalls
  obtain ⟨code, hinst⟩ := inst_of_callsHandler (j := j) hcalls { regs := m }
  rw [lead?] at hlead
  split at hlead
  · rename_i d hpiece
    cases hlead
    rw [piece, inst_linked hdest, bind_of_ok hinst] at hpiece
    -- sending back what was sent back already changes nothing
    obtain rfl : d = ({ regs := m } : Draft).put (m.flushAll.2 ++ code) m.flushAll.1 := by
      split at hpiece
      · rw [Emit.flushAll_apply, Draft.regs_put, RegMap.flushAll_flushAll, Draft.put_put,
          List.append_nil] at hpiece
        cases hpiece
        rfl
      · cases hpiece
        rfl
    refine ⟨?_, rfl⟩
    show m.flushAll.2 <+: leading ((m.flushAll.2 ++ code).map .insn)
    rw [leading_map]
    exact List.prefix_append _ _
  · cases hlead

/-- Instructions that stay in the block take the machine to the end of their pieces, in step with
the guest by the register map behind them. -/
theorem ends_pieces (hj : j.Separated) (hi : j.Installed)
    (hfar : ∀ a ∈ j.stubs.targets, codeBase ≤ a) {is : List Inst}
    (hslots : ∀ i ∈ is, ∀ r ∈ i.gprOperands, r < 32) {index start : Nat} {m : RegMap}
    (hm : m.Consistent j.config.staticAlloc) {ps : List Piece}
    (hps : pieces j.lowerEnv index m start is = some ps) (hheld : j.LeadsHeld ps)
    {g g' : Guest σ} {c : Cpu} (hsim : Sim j.config.staticAlloc frame m none g c)
    (heval : Inst.evalList h j.notifies is g = (g', none)) :
    ∃ n y, mapBehind j.lowerEnv index m is = some n ∧
      j.EndsAt h frame (endOf j.config start ps) (c.goTo (addressOf start), g.state) g' n y ∧
      (j.config.noGprCache → (∀ x, m.mapped? x = none) → ∀ x, n.mapped? x = none) := by
  induction is generalizing index start m ps g c with
  | nil =>
    cases hps
    cases heval
    exact ⟨m, _, rfl, ⟨.refl, rfl, rfl, hm, hsim.goTo _⟩, fun _ => id⟩
  | cons i is ih =>
    obtain ⟨lead, n, rest, hlead, hrest, rfl⟩ := pieces_cons_eq_some.mp hps
    obtain ⟨hn, x, hthrough, hstate, harrived⟩ := through_piece (h := h) hj hi hfar hm hlead
      (hheld { inst := i, start, lead } List.mem_cons_self) hsim
    rw [Inst.carriedOut_of_slots (hslots i List.mem_cons_self)] at hstate harrived
    rw [Inst.evalList] at heval
    cases hfirst : i.eval h j.notifies g with
    | mk g₁ leave =>
      rw [hfirst] at heval harrived hstate
      cases leave with
      | some leave => cases heval
      | none =>
        -- the map behind this instruction is the one in front of those that follow
        obtain ⟨hip, hsim'⟩ := harrived
        obtain ⟨n', y, hbehind, hends, hempty⟩ :=
          ih (fun k hk => hslots k (List.mem_cons_of_mem _ hk)) hn hrest
            (fun p hp => hheld p (List.mem_cons_of_mem _ hp)) hsim' heval
        have hx : (x.1.goTo (addressOf (({ inst := i, start, lead } : Piece).stop j.config)),
            g₁.state) = x := by
          rw [← hip, ← hstate]
          rfl
        have hon : j.Reach h x y := by
          rw [← hx]
          exact hends.reach
        refine ⟨n', y, ?_, ⟨hthrough.reach.trans hon, hends.ip, hends.state, hends.consistent,
          hends.sim⟩, fun hcache _ => hempty hcache (mapped?_of_noGprCache hcache hlead hn)⟩
        rw [mapBehind, hlead]
        exact hbehind

/-! ## The report of a missing exit -/

/-- The machine is about to report a missing exit, with guest registers in host registers as a
register map says: those that memory is behind of are in host registers only. -/
structure Reports (j : Jit) (g : Guest σ) (m : RegMap) (c : Cpu) : Prop where
  call : j.nextCall? c = some { request := .noBlockExits, context := c.context }
  written : ∀ x, m.isDirty x = false → c.context.gpr.get x = g.context.gpr.get x
  held : ∀ x r, m.mapped? x = some r → c.reg32 r = g.context.gpr.get x

/-- Behind the end of its pieces, a block reports that it has no exit. -/
theorem EndsAt.reports (hj : j.Separated) {stop : Nat} {x y : Cpu × σ} {g : Guest σ} {m : RegMap}
    (hends : j.EndsAt h frame stop x g m y)
    (hheld : j.code.Holds stop (missingExitCode j.lowerEnv)) :
    ∃ c, j.Reach h x (c, g.state) ∧ j.Reports g m c := by
  obtain ⟨c, s⟩ := y
  obtain rfl : s = g.state := hends.state
  have hsim := hends.sim
  have hip : c.goTo (addressOf stop) = c := by
    rw [← hends.ip]
    rfl
  obtain ⟨d, hd⟩ : ∃ d : Cpu, d = c.setReg Gpr.scratch j.table.noBlockExits := ⟨_, rfl⟩
  have hscratch : d.reg Gpr.scratch = j.table.noBlockExits := by
    rw [hd, Cpu.reg_setReg_self]
  -- two steps: the address goes into the scratch register, and what is there is called
  obtain ⟨next, hnext⟩ : ∃ next, next =
      stop + (Insn.mov64i Gpr.scratch j.table.noBlockExits).size := ⟨_, rfl⟩
  have hmov : j.Step h (c.goTo (addressOf stop), g.state) (d.goTo (addressOf next), g.state) := by
    rw [hd, hnext]
    exact step_of_holds hj h hheld rfl g.state
  have hcall : j.Step h (d.goTo (addressOf next), g.state)
      ((d.push (addressOf (next + (Insn.callReg Gpr.scratch).size))).goTo j.table.noBlockExits,
        g.state) := by
    rw [← hscratch, hnext]
    exact step_of_holds hj h hheld.tail rfl g.state
  rw [hip] at hmov
  refine ⟨_, (hends.reach.tail hmov).tail hcall, ?_, fun x hx => ?_, fun x r hx => ?_⟩
  · rw [nextCall?, Cpu.ip_goTo, HandlerTable.request?_noBlockExits hj.separate]
    rfl
  · rw [Cpu.context_goTo, Cpu.context_push, hd]
    exact hsim.written hx
  · -- they change the scratch register and the stack pointer only, which hold no guest register
    have hne := RegMap.ne_of_mem_allocatable
      (hends.consistent.handed r x ((hends.consistent.inverse x r).mp hx))
    rw [Cpu.reg32_goTo, Cpu.reg32, Cpu.reg_push_of_ne hne.2.2.1, hd, Cpu.reg_setReg_of_ne hne.2.1]
    exact hsim.held x r (by simp) hx

/-! ## Blocks -/

/-- On the way from `x` to `y`, the machine calls handlers for the instructions of a block only, and
each finds the guest in memory as the instructions before have left it. -/
def CallsInStep (j : Jit) (h : Handlers σ) (b : Block) (g : Guest (σ × List Call))
    (x y : Cpu × (σ × List Call)) : Prop :=
  ∀ z call, j.Reach h.recorded x z → Relation.TransGen (j.Step h.recorded) z y →
    j.nextCall? z.1 = some call →
    ∃ index i g₁, b.insts[index]? = some i ∧
      Inst.evalList h.recorded j.notifies (b.insts.take index) g = (g₁, none) ∧
      call ∈ i.calls h.recorded j.notifies g₁

/-- Calls are in step if the records are. -/
theorem callsInStep_of_records {b : Block} {g : Guest (σ × List Call)}
    {x y : Cpu × (σ × List Call)} (hx : x.2 = g.state)
    (hy : y.2 = (b.eval h.recorded j.notifies g).1.state) : j.CallsInStep h b g x y := by
  intro z call hreach hway hcall
  have hfrom : g.state.2.length ≤ z.2.2.length := by
    rw [← hx]
    exact (Reach.records hreach).length_le
  have hrecord := getElem?_records hway hcall
  rw [hy] at hrecord
  exact Inst.exists_call hfrom hrecord

/-- How the machine stands at the end of a block whose pieces end at `stop`: it has left as the
guest has, or it is behind the pieces and, with diagnostics, about to report the missing exit. -/
inductive AtEnd (j : Jit) (linked : UInt32 → Option UInt64) (b : Block) (stop : Nat) (g : Guest σ)
    (c : Cpu) : Option Leave → Prop
  | left {i : Inst} {leave : Leave} (hi : i ∈ b.insts)
    (hguest : c.guest j.config.staticAlloc g.state = g) (hdeparts : j.Departs linked i c leave) :
    AtEnd j linked b stop g c (some leave)
  | behind (hdiagnostics : j.config.diagnostics = false) (hip : c.ip = addressOf stop) :
    AtEnd j linked b stop g c none
  | reports {m : RegMap} (hdiagnostics : j.config.diagnostics = true)
    (hmap : blockMap j.lowerEnv b b.insts.length = some m) (hreports : j.Reports g m c)
    (hcache : j.config.noGprCache → c.context.gpr = g.context.gpr) :
    AtEnd j linked b stop g c none

/-- What it takes to run the code of a block: handlers outside the code region, the fixed routines,
and the code of the pieces. -/
structure Runnable (j : Jit) (b : Block) (target : Nat) (ps : List Piece) : Prop where
  separated : j.Separated
  installed : j.Installed
  far : ∀ a ∈ j.stubs.targets, codeBase ≤ a
  pieces : blockPieces j.lowerEnv b target = some ps
  leads : j.LeadsHeld ps

/-- A block that has been compiled can be run. -/
theorem Compiled.runnable (hj : j.Ready) (hseparate : j.table.Separate j.code.size) {num : Nat}
    {b : Block} {n : Native} {ps : List Piece} (hc : Compiled j k num b n ps) :
    k.Runnable b n.target ps where
  separated := by
    refine ⟨?_, ?_⟩
    · rw [hc.code.size]
      exact hj.size_le
    · rw [hc.code.size, hc.table]
      exact hseparate
  installed :=
    hj.installed.grows (Nat.le_trans hj.routines hj.low) hc.config hc.table hc.stubs hc.code
  far := by
    rw [hc.stubs]
    exact hj.reaches.stubs
  pieces := by
    rw [lowerEnv_eq hc.config hc.table hc.stubs, blockPieces, pieces_linked]
    exact hc.written.pieces
  leads p hp := by
    rw [hc.config]
    exact (hc.written.held p hp).lead

/-- A block that runs past its end takes the machine behind its pieces, and on to the report. -/
theorem Runnable.atEnd {b : Block} {target : Nat} {ps : List Piece}
    (hrunnable : k.Runnable b target ps) (hslots : ∀ i ∈ b.insts, ∀ r ∈ i.gprOperands, r < 32)
    (hreport : k.config.diagnostics →
      k.code.Holds (endOf k.config target ps) (missingExitCode k.lowerEnv))
    {g g' : Guest σ} {c : Cpu} (hsync : Synced k.config.staticAlloc frame g c)
    (heval : b.eval h k.notifies g = (g', none)) (linked : UInt32 → Option UInt64) :
    ∃ d, k.Reach h (c.goTo (addressOf target), g.state) (d, g'.state) ∧
      k.AtEnd linked b (endOf k.config target ps) g' d none := by
  have hstart := RegMap.consistent_start (RegMap.create k.config.staticAlloc) b.insts rfl
  have hempty := RegMap.mapped?_start (RegMap.create k.config.staticAlloc) b.insts
  obtain ⟨m, ⟨d, t⟩, hmap, hends, hcached⟩ := ends_pieces hrunnable.separated hrunnable.installed
    hrunnable.far hslots hstart hrunnable.pieces hrunnable.leads (hsync.sim hempty) heval
  cases hdiagnostics : k.config.diagnostics with
  | false =>
    obtain rfl : t = g'.state := hends.state
    exact ⟨d, hends.reach, .behind hdiagnostics hends.ip⟩
  | true =>
    obtain ⟨e, hreach, hreports⟩ := hends.reports hrunnable.separated (hreport hdiagnostics)
    refine ⟨e, hreach, .reports hdiagnostics ((blockMap_length _ b).trans hmap) hreports
      fun hcache => ?_⟩
    refine vector_ext_get fun x => hreports.written x ?_
    rw [RegMap.isDirty, hcached hcache hempty x]

/-- The code of instructions that call a handler sends all guest registers back first. -/
def FlushesCalls (j : Jit) (b : Block) (ps : List Piece) : Prop :=
  ∀ index i p, b.insts[index]? = some i → ps[index]? = some p → i.op.callsHandler →
    ∃ m n, blockMap j.lowerEnv b index = some m ∧ blockMap j.lowerEnv b (index + 1) = some n ∧
      FlushesFirst (m.setIndex index) p.lead n

/-- In the code of a block, every call of a handler has all registers sent back before it. -/
theorem flushesCalls_of_pieces {b : Block} {target : Nat} {ps : List Piece}
    (hps : blockPieces j.lowerEnv b target = some ps) : j.FlushesCalls b ps := by
  intro index i p hi hp hcalls
  obtain ⟨m, n, hm, hn, hlead⟩ := exists_lead?_of_pieces hps hi hp
  rw [Nat.zero_add] at hlead
  exact ⟨m, n, hm, hn, flushesFirst_of_lead? hcalls hlead⟩

/-- Handlers find the guest in memory.  Whatever block is compiled, from whatever state that is
ready and with whatever settings, the code of each instruction that calls a handler sends all guest
registers back first.  If the register slots of the block are below 32, the machine that enters its
code comes to the end of the block as the guest does, and on the way

* every handler that it calls is called for an instruction of the block, and finds in memory exactly
  the context that the instructions before have led to;
* only the report of a missing exit, which comes behind all instructions, finds guest registers that
  memory is behind of: those that are dirty in the register map behind the block, which are in their
  host registers.  With no guest registers kept in host registers, it finds them all. -/
theorem handlers_find_guest (hj : j.Ready) (hseparate : j.table.Separate j.code.size) {num : Nat}
    {preload : Bool} (hcompile : compileBlock num preload j = .ok ⟨⟩ k) :
    ∃ entry n ps, j.blocks.get? num = some entry ∧ k.links.native? num = some n ∧
      blockPieces k.lowerEnv entry.block n.target = some ps ∧ k.FlushesCalls entry.block ps ∧
      ((∀ i ∈ entry.block.insts, ∀ r ∈ i.gprOperands, r < 32) →
        ∀ (h : Handlers σ) (s : σ × List Call) (c : Cpu), c.reg Gpr.context = contextBase →
          ∀ g' leaves,
            entry.block.eval h.recorded k.notifies (c.guest k.config.staticAlloc s) = (g', leaves) →
            ∃ d, k.Reach h.recorded (c.goTo (addressOf n.target), s) (d, g'.state) ∧
              k.AtEnd j.exitTarget entry.block (endOf k.config n.target ps) g' d leaves ∧
              k.CallsInStep h entry.block (c.guest k.config.staticAlloc s)
                (c.goTo (addressOf n.target), s) (d, g'.state)) := by
  obtain ⟨entry, n, ps, hentry, hc⟩ := compileBlock_spec hj.reaches hj.high hj.size_le hj.draft
    hcompile
  have hrunnable := Compiled.runnable hj hseparate hc
  have hnative : k.links.native? num = some n := by
    rw [hc.links, Links.native?_foldl_addExit, Links.native?_setNative, if_pos rfl]
  have hreport : k.config.diagnostics →
      k.code.Holds (endOf k.config n.target ps) (missingExitCode k.lowerEnv) := by
    rw [lowerEnv_eq hc.config hc.table hc.stubs, hc.config]
    exact hc.written.report
  refine ⟨entry, n, ps, hentry, hnative, hrunnable.pieces, flushesCalls_of_pieces hrunnable.pieces,
    fun hslots h s c hbase g' leaves heval => ?_⟩
  have hsync := Cpu.synced_guest k.config.staticAlloc hbase s
  -- the records at the end are the guest's, whichever way the block ends
  suffices hend : ∃ d, k.Reach h.recorded (c.goTo (addressOf n.target), s) (d, g'.state) ∧
      k.AtEnd j.exitTarget entry.block (endOf k.config n.target ps) g' d leaves by
    obtain ⟨d, hreach, hatEnd⟩ := hend
    exact ⟨d, hreach, hatEnd, callsInStep_of_records rfl (by rw [heval])⟩
  cases leaves with
  | none => exact hrunnable.atEnd hslots hreport hsync heval j.exitTarget
  | some leave =>
    have hran := ran_block (h := h.recorded) hrunnable.separated hrunnable.installed hrunnable.far
      hslots hrunnable.pieces hrunnable.leads hsync
    rw [heval] at hran
    cases hran with
    | @leaves index p _ _ y hleaves =>
      obtain ⟨z, hto, -, hfrom⟩ := hleaves.passes
      have hp : p ∈ ps := List.mem_of_getElem? hleaves.piece
      obtain ⟨d, hreach, hsync', hdeparts⟩ := departs_of_left (h := h.recorded) hrunnable.separated
        hc.stubs (hc.written.held p hp).site hleaves.synced hleaves.left g'.state
      have hy : y = (y.1, g'.state) := Prod.ext rfl hleaves.state
      rw [hy] at hfrom
      exact ⟨d, (hto.trans hfrom).trans hreach,
        .left (List.mem_of_getElem? hleaves.inst) hsync'.guest_eq hdeparts⟩

/-- A block that calls the interpreter between two assignments, and does not leave. -/
def openBlock : Block where
  start := 0x1000
  insts :=
    [{ op := .setConst, dest := 1, constant := 3 },
     { op := .interpret, constant := 7 },
     { op := .setConst, dest := 2, constant := 5 }]

/-- The interpreter finds what was assigned before it, and so does the report of the missing exit:
memory is not behind there. -/
theorem handlers_find_guest_openBlock :
    ∃ (j k : Jit) (c : Cpu), j.Ready ∧ j.table.Separate j.code.size ∧
      compileBlock 0 false j = .ok ⟨⟩ k ∧ c.reg Gpr.context = contextBase ∧
      ∃ (n : Native) (d : Cpu) (t : Unit × List Call), k.links.native? 0 = some n ∧
        k.Reach (Handlers.default fun _ s => s).recorded (c.goTo (addressOf n.target), ((), []))
          (d, t) ∧
        t.2.map (fun call => (call.request, call.context.reg 1)) = [(.interpret 7, 3)] ∧
        k.nextCall? d = some { request := .noBlockExits, context := d.context } ∧
        d.context.gpr.get 1 = 3 := by
  -- what can be decided: register 1 is clean where the missing exit is reported
  have hruns : succeeds (create { diagnostics := true } .default {}) (fun j _ =>
      succeeds (compileBlock 0 false { j with blocks := (Blocks.empty.add openBlock).2 })
        fun _ k => !k.notifies && k.config.diagnostics &&
          (blockMap k.lowerEnv openBlock 3).all fun m => !m.isDirty 1) = true := by
    decide +kernel
  obtain ⟨j, host, hcreate, hruns'⟩ := exists_of_succeeds hruns
  obtain ⟨_, k, hcompile, htests⟩ := exists_of_succeeds hruns'
  simp only [Bool.and_eq_true, Bool.not_eq_true', Option.all_eq_true] at htests
  obtain ⟨⟨hnotifies, hdiagnostics⟩, hdirty⟩ := htests
  have hcreated := create_spec hcreate
  have hj := hcreated.ready.setBlocks (Blocks.empty.add openBlock).2
  have hseparate : j.table.Separate j.code.size := by
    rw [hcreated.sameTable]
    exact HandlerTable.separate_default hcreated.size_le
  obtain ⟨entry, n, ps, hentry, hnative, -, -, hrun⟩ := handlers_find_guest hj hseparate hcompile
  obtain rfl : { block := openBlock } = entry := Option.some.inj hentry
  let c : Cpu := ({ ip := 0, context := {} } : Cpu).setReg Gpr.context contextBase
  have hc : c.reg Gpr.context = contextBase := by decide
  let h : Handlers Unit := Handlers.default fun _ s => s
  -- the interpreter is called once, with 3 in the register
  obtain ⟨g', hg'⟩ : ∃ g', openBlock.eval h.recorded k.notifies
      (c.guest k.config.staticAlloc ((), [])) = (g', none) ∧ g'.context.gpr.get 1 = 3 ∧
        g'.state.2.map (fun call => (call.request, call.context.reg 1)) = [(.interpret 7, 3)] := by
    rw [hnotifies]
    cases k.config.staticAlloc <;> exact ⟨_, rfl, rfl, rfl⟩
  obtain ⟨heval, hreg, hrecords⟩ := hg'
  obtain ⟨d, hreach, hend, -⟩ := hrun (by decide +kernel) h ((), []) c hc g' none heval
  refine ⟨_, k, c, hj, hseparate, hcompile, hc, n, d, g'.state, hnative, hreach, hrecords, ?_⟩
  cases hend with
  | behind hquiet => cases hquiet.symm.trans hdiagnostics
  | reports _ hmap hreports =>
    exact ⟨hreports.call, (hreports.written 1 (hdirty _ hmap)).trans hreg⟩

/-- A block that assigns a register, and does not leave. -/
def unwrittenBlock : Block where
  start := 0x1000
  insts := [{ op := .setConst, dest := 1, constant := 3 }]

/-- A register that a block has assigned is not in memory when the missing exit is reported, in the
code of a block that has been registered and compiled right after the start. -/
theorem report_finds_stale_register :
    ∃ (j k : Jit) (host : Host) (num : Nat) (n : Native) (c d : Cpu) (t : Unit × List Call),
      create { diagnostics := true } .default {} = .ok j host ∧
      addAndCompile unwrittenBlock j = .ok num k ∧
      (k.blocks.get? num).map (·.block) = some unwrittenBlock ∧
      k.links.native? num = some n ∧ c.ip = addressOf n.target ∧ c.reg Gpr.context = contextBase ∧
      k.runFrom k.decodeAt (Handlers.default fun _ s => s).recorded 3 c ((), []) = .unfinished d t ∧
      k.nextCall? d = some { request := .noBlockExits, context := d.context } ∧
      d.context.reg 1 = 0 ∧
      (unwrittenBlock.eval (Handlers.default fun _ s => s).recorded k.notifies
        (c.guest k.config.staticAlloc ((), []))).1.reg 1 = 3 := by
  let h : Handlers Unit := Handlers.default fun _ s => s
  let c : Cpu := ({ ip := 0, context := {} } : Cpu).setReg Gpr.context contextBase
  have hruns : succeeds (create { diagnostics := true } .default {}) (fun j _ =>
      succeeds (addAndCompile unwrittenBlock j) fun num k =>
        (k.blocks.get? num).map (·.block) == some unwrittenBlock &&
        (k.links.native? num).any fun n =>
          match k.runFrom k.decodeAt h.recorded 3 (c.goTo (addressOf n.target)) ((), []) with
          | .unfinished d _ => decide (d.context.reg 1 = 0) &&
            decide (k.nextCall? d = some { request := .noBlockExits, context := d.context })
          | _ => false) = true := by
    decide +kernel
  obtain ⟨j, host, hcreate, hruns'⟩ := exists_of_succeeds hruns
  obtain ⟨num, k, hcompile, htests⟩ := exists_of_succeeds hruns'
  rw [Bool.and_eq_true, beq_iff_eq] at htests
  obtain ⟨hblock, htests⟩ := htests
  obtain ⟨n, hnative⟩ : ∃ n, k.links.native? num = some n :=
    Option.isSome_iff_exists.mp (Option.isSome_of_any htests)
  rw [hnative, Option.any_some] at htests
  split at htests
  · rename_i d t hrun
    rw [Bool.and_eq_true, decide_eq_true_eq, decide_eq_true_eq] at htests
    have hc : c.reg Gpr.context = contextBase := by decide
    refine ⟨j, k, host, num, n, c.goTo (addressOf n.target), d, t, hcreate, hcompile, hblock, hnative,
      rfl, hc, hrun, htests.2, htests.1, ?_⟩
    cases k.config.staticAlloc <;> rfl
  · cases htests

end Jit

end Dynarec
