import Dynarec.Code.Action
import Dynarec.Code.Blocks
import Dynarec.Code.Cache
import Dynarec.Code.Host
import Dynarec.Code.Links
import Dynarec.Config
import Dynarec.Dump.Args
import Dynarec.Dump.Filter
import Dynarec.Dump.Report
import Dynarec.Error
import Dynarec.Guest.Context
import Dynarec.Ir.Inst
import Dynarec.Ir.Opcode
import Dynarec.Ir.Parse
import Dynarec.Jit.Basic
import Dynarec.Jit.Compile
import Dynarec.Jit.Engine
import Dynarec.Jit.Link
import Dynarec.Lower.Draft
import Dynarec.Lower.RegMap
import Dynarec.Lower.Select
import Dynarec.Lower.Stubs
import Dynarec.Machine.Cpu
import Dynarec.Machine.Handlers
import Dynarec.Machine.Meaning
import Dynarec.Machine.Run
import Dynarec.Main
import Dynarec.Notice
import Dynarec.Proofs.Code.Action
import Dynarec.Proofs.Code.Cells
import Dynarec.Proofs.Code.Moved
import Dynarec.Proofs.Code.Placed
import Dynarec.Proofs.Code.Records
import Dynarec.Proofs.Code.Tables
import Dynarec.Proofs.Code.Windows
import Dynarec.Proofs.Code.Allocation
import Dynarec.Proofs.Ir.Acceptance
import Dynarec.Proofs.Ir.Canonical
import Dynarec.Proofs.Ir.Grammar
import Dynarec.Proofs.Ir.RoundTrip
import Dynarec.Proofs.Ir.SoleInstruction
import Dynarec.Proofs.Ir.Tokens
import Dynarec.Proofs.Jit.Agreement
import Dynarec.Proofs.Jit.Aliases
import Dynarec.Proofs.Jit.Atomic
import Dynarec.Proofs.Jit.Attribution
import Dynarec.Proofs.Jit.Bodies
import Dynarec.Proofs.Jit.Change
import Dynarec.Proofs.Jit.Compile
import Dynarec.Proofs.Jit.Conduct
import Dynarec.Proofs.Jit.Discipline
import Dynarec.Proofs.Jit.Encodable
import Dynarec.Proofs.Jit.Equivalence
import Dynarec.Proofs.Jit.Extents
import Dynarec.Proofs.Jit.Failure
import Dynarec.Proofs.Jit.Footprint
import Dynarec.Proofs.Jit.Grows
import Dynarec.Proofs.Jit.HandlerCalls
import Dynarec.Proofs.Jit.Layout
import Dynarec.Proofs.Jit.Leads
import Dynarec.Proofs.Jit.Margin
import Dynarec.Proofs.Jit.Ops
import Dynarec.Proofs.Jit.Order
import Dynarec.Proofs.Jit.Outcome
import Dynarec.Proofs.Jit.Patch
import Dynarec.Proofs.Jit.Payment
import Dynarec.Proofs.Jit.Protection
import Dynarec.Proofs.Jit.Ready
import Dynarec.Proofs.Jit.Recorded
import Dynarec.Proofs.Jit.Redirected
import Dynarec.Proofs.Jit.Retry
import Dynarec.Proofs.Jit.RoundingMode
import Dynarec.Proofs.Jit.Setup
import Dynarec.Proofs.Jit.Shape
import Dynarec.Proofs.Jit.Stale
import Dynarec.Proofs.Jit.Translate
import Dynarec.Proofs.Jit.Unlinking
import Dynarec.Proofs.Jit.Visits
import Dynarec.Proofs.Lower.Bounds
import Dynarec.Proofs.Lower.Calling
import Dynarec.Proofs.Lower.Emit
import Dynarec.Proofs.Lower.Performs
import Dynarec.Proofs.Lower.Pieces
import Dynarec.Proofs.Lower.RegMap
import Dynarec.Proofs.Lower.Replay
import Dynarec.Proofs.Lower.Residency
import Dynarec.Proofs.Lower.Eviction
import Dynarec.Proofs.Lower.Session
import Dynarec.Proofs.Lower.Sim
import Dynarec.Proofs.Lower.Sites
import Dynarec.Proofs.Lower.Straight
import Dynarec.Proofs.Lower.Tame
import Dynarec.Proofs.Machine.Cpu
import Dynarec.Proofs.Machine.Cutpoints
import Dynarec.Proofs.Machine.Dispatch
import Dynarec.Proofs.Machine.Reference
import Dynarec.Proofs.Machine.RoundingBits
import Dynarec.Proofs.Machine.Routines
import Dynarec.Proofs.Machine.Steps
import Dynarec.Proofs.Text.Numbers
import Dynarec.Proofs.X64.Disassembly
import Dynarec.Proofs.X64.Relocation
import Dynarec.Proofs.X64.Listed
import Dynarec.Proofs.X64.RoundTrip
import Dynarec.Text.Blank
import Dynarec.Text.Hex
import Dynarec.Text.Invisible
import Dynarec.Text.Number
import Dynarec.Text.Quoted
import Dynarec.X64.Assembler
import Dynarec.X64.Decode
import Dynarec.X64.Emission
import Dynarec.X64.Encode
import Dynarec.X64.Insn
import Dynarec.X64.Leftover.Map
import Dynarec.X64.Leftover.Operand
import Dynarec.X64.Listing
import Dynarec.X64.Reg
import Dynarec.X64.Word
