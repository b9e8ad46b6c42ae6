import Dynarec.Proofs.Jit.Failure
import Dynarec.Proofs.Jit.Outcome

/-!
# Space runs out between instructions only

Before a block is started and behind each of its instructions, a margin of free space is asked for.
The margin is wider than anything that is written between two checks, so code that is written always
fits, and a block that runs out of space does so at a check (`space_runs_out_at_checks`): what is in
the cache then ends with the code of an instruction, never inside it.
-/

namespace Dynarec

open Lower Dynarec.Action CodeCache

namespace Lower

/-- A piece starts where those before it end. -/
theorem Stacked.start_eq {config : Config} {start : Nat} {done rest : List Piece} {p : Piece}
    (h : Stacked config start (done ++ p :: rest)) : p.start = endOf config start done := by
  induction done generalizing start with
  | nil => exact h.1
  | cons q done ih => exact ih h.2

/-- The code of a block ends a little behind its pieces. -/
theorem copyStop_le (env : LowerEnv) (target : Nat) (ps : List Piece) :
    copyStop env target ps ≤ target + (45 + Jit.minBodyLen + 60) ∨
      copyStop env target ps ≤ endOf env.config target ps + (45 + Jit.minBodyLen + 60) := by
  have hreport := codeSize_missingExitCode_le env
  have hguard := guardLen_le env
  rw [copyStop, bodyEnd]
  split <;> split <;> omega

end Lower

namespace Jit

section

variable {env : LowerEnv} {low size : Nat} {ps : List Piece}

/-- Where the pieces so far end, there is almost as much space as a check asks for. -/
theorem endOf_add_le (hroom : safetyMargin ≤ size - low) (hps : Roomy env.config size ps) :
    endOf env.config (low + frontLen env) ps + safetyMargin ≤ size + 60 := by
  have hfront := frontLen_le env
  have hmargin : 0 < safetyMargin := by decide
  rcases endOf_cases env.config (low + frontLen env) ps with ⟨-, hend⟩ | ⟨q, hq, hend⟩
  · omega
  · have hq := hps q hq
    omega

/-- Behind checks that were passed there is space for the next piece. -/
theorem stop_le_size (hfar : ∀ a ∈ env.stubs.targets, codeBase ≤ a) {b : Block}
    (hps : blockPieces env b (low + frontLen env) = some ps)
    (hroom : safetyMargin ≤ size - low) {done rest : List Piece} {p : Piece}
    (hsplit : ps = done ++ p :: rest) (hdone : Roomy env.config size done) :
    p.stop env.config ≤ size := by
  obtain ⟨ps', hps', hleads⟩ := exists_pieces hfar b.insts 0 (low + frontLen env)
    (RegMap.consistent_start (RegMap.create env.config.staticAlloc) b.insts rfl)
  cases hps.symm.trans hps'
  have hstacked := stacked_pieces hps
  rw [hsplit] at hstacked hleads
  have hstop := stop_le_of_lead (hleads p (by simp)) env.config
  have hstart := hstacked.start_eq
  have hend := endOf_add_le hroom hdone
  have hlens := maxPiece_lt
  omega

/-- Behind checks that were all passed there is space for what comes behind the pieces. -/
theorem copyStop_le_size (hroom : safetyMargin ≤ size - low) (hps : Roomy env.config size ps) :
    copyStop env (low + frontLen env) ps ≤ size := by
  have hlens := maxPiece_lt
  have hfront := frontLen_le env
  have hend := endOf_add_le hroom hps
  rcases copyStop_le env (low + frontLen env) ps with hstop | hstop
  · omega
  · omega

end

/-- Where the checks before them are passed, the guard in front of a block, the code of each of its
instructions and what comes behind them fit.  So space runs out at a check only: the one before the
block, or the one behind an instruction, whose code is complete then. -/
theorem space_runs_out_at_checks {config : Config} {table : HandlerTable} {host host' : Host}
    {j₀ j : Jit} (hcreate : create config table host = .ok j₀ host') (hj : j₀.Evolves j)
    (num : Nat) (preload : Bool) :
    (∀ entry, j.blocks.get? num = some entry → safetyMargin ≤ j.code.remaining →
      ∃ ps, blockPieces j.lowerEnv entry.block (j.code.cursor + frontLen j.lowerEnv) = some ps ∧
        ps.map Piece.inst = entry.block.insts ∧
        j.code.cursor + frontLen j.lowerEnv ≤ j.code.size ∧
        (∀ done p rest, ps = done ++ p :: rest → Roomy j.config j.code.size done →
          p.stop j.config ≤ j.code.size) ∧
        (Roomy j.config j.code.size ps →
          copyStop j.lowerEnv (j.code.cursor + frontLen j.lowerEnv) ps ≤ j.code.size)) ∧
    ∀ remaining required k,
      compileBlock num preload j = .error (.codeSpaceExhausted remaining required) k →
      required = 0x800 ∧ remaining < 0x800 ∧ remaining = k.code.remaining ∧
      (k.code.cursor = j.code.cursor ∨ ∃ entry ps p, j.blocks.get? num = some entry ∧
        blockPieces j.lowerEnv entry.block (j.code.cursor + frontLen j.lowerEnv) = some ps ∧
        FirstShort j.config j.code.size ps p ∧ k.code.cursor = p.stop j.config) := by
  have hready := (tidy_of_evolves hcreate hj).laid.ready
  constructor
  · intro entry hentry hroom
    obtain ⟨ps, hps, -⟩ := compileBlock_ends hready hentry preload
    have hlens := maxPiece_lt
    have hfront := frontLen_le j.lowerEnv
    -- the margin is more than the front of a body and one piece take
    rw [CodeCache.remaining] at hroom
    exact ⟨ps, hps, map_inst_pieces hps, by omega,
      fun done p rest hsplit => stop_le_size hready.lands.reaches.stubs hps hroom hsplit,
      fun hroomy => copyStop_le_size hroom hroomy⟩
  · intro remaining required k hfails
    have hgrows := (compileBlock_error hready.draft hfails).1.code
    cases hentry : j.blocks.get? num with
    | none =>
      rw [compileBlock, bind_of_ok (get_apply j), hentry] at hfails
      cases hfails
    | some entry =>
      obtain ⟨ps, hps, hends⟩ := compileBlock_ends hready hentry preload
      rw [hfails] at hends
      cases hends with
      | full hfull hcursor =>
        refine ⟨rfl, hfull, ?_, .inl hcursor⟩
        rw [CodeCache.remaining, CodeCache.remaining, hgrows.size, hcursor]
      | short hroom hshort hcursor =>
        refine ⟨rfl, hshort.short, ?_, .inr ⟨entry, ps, _, rfl, hps, hshort, hcursor⟩⟩
        rw [CodeCache.remaining, hgrows.size, hcursor]

/-- Of the exits of the long block, many are written before the space that is left is too little. -/
theorem space_runs_out_at_checks_longOps :
    ∃ j host remaining required k, create { codeSpace := 0x2000 } .default {} = .ok j host ∧
      compileBlock 1 false (j.applyAll longOps) =
        .error (.codeSpaceExhausted remaining required) k ∧
      required = 0x800 ∧ remaining < 0x800 ∧ remaining = k.code.remaining ∧
      ∃ entry ps p, (j.applyAll longOps).blocks.get? 1 = some entry ∧
        blockPieces (j.applyAll longOps).lowerEnv entry.block
          ((j.applyAll longOps).code.cursor + frontLen (j.applyAll longOps).lowerEnv) = some ps ∧
        FirstShort (j.applyAll longOps).config (j.applyAll longOps).code.size ps p ∧
        k.code.cursor = p.stop (j.applyAll longOps).config := by
  have hruns : succeeds (create { codeSpace := 0x2000 } .default {}) (fun j _ =>
      fails (compileBlock 1 false (j.applyAll longOps)) fun e k =>
        e.isOutOfSpace && decide ((j.applyAll longOps).code.cursor < k.code.cursor)) = true := by
    decide +kernel
  obtain ⟨j, host, hcreate, hfails⟩ := exists_of_succeeds hruns
  obtain ⟨e, k, hfails, htests⟩ := exists_of_fails hfails
  simp only [Bool.and_eq_true, decide_eq_true_eq] at htests
  obtain ⟨remaining, required, rfl⟩ : ∃ r q, e = .codeSpaceExhausted r q := by
    cases e <;> first | exact ⟨_, _, rfl⟩ | cases htests.1
  have hevolves : j.Evolves (j.applyAll longOps) := (Evolves.refl.apply _).apply _
  obtain ⟨hrequired, hshort, hleft, hwhere⟩ :=
    (space_runs_out_at_checks hcreate hevolves 1 false).2 remaining required k hfails
  refine ⟨j, host, remaining, required, k, hcreate, hfails, hrequired, hshort, hleft, ?_⟩
  rcases hwhere with hcursor | hwhere
  · omega
  · exact hwhere

end Jit

end Dynarec
