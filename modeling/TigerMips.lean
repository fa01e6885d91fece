import TigerMips.Compile
import TigerMips.Symbol
import TigerMips.Proofs.Flow.Matching
import TigerMips.Proofs.Flow.Liveness
import TigerMips.Proofs.Machine.Execution
import TigerMips.Proofs.Machine.Step
import TigerMips.Proofs.Select.Operands
import TigerMips.Proofs.Tac.Step
import TigerMips.Proofs.Select.Simulation
import TigerMips.Proofs.Analysis.Growth
import TigerMips.Proofs.Analysis.Sound
import TigerMips.Proofs.Analysis.Clean
import TigerMips.Proofs.Analysis.Code
import TigerMips.Proofs.Select.Total
import TigerMips.Proofs.Compile
import TigerMips.Proofs.Analysis.Closure
import TigerMips.Proofs.Analysis.Confined
import TigerMips.Proofs.Analysis.Frames
import TigerMips.Proofs.Select.Passing
import TigerMips.Proofs.Tac.Run
import TigerMips.Proofs.Eval.Structured
import TigerMips.Proofs.Analysis.Meaning
import TigerMips.Proofs.Analysis.Preservation
import TigerMips.Proofs.Select.Labels
import TigerMips.Proofs.Labels
import TigerMips.Proofs.Analysis.Storage
import TigerMips.Proofs.Analysis.Tracing
import TigerMips.Proofs.Analysis.Invariant
import TigerMips.Proofs.Analysis.Tables
import TigerMips.Proofs.Analysis.Owners
import TigerMips.Proofs.Analysis.Renumber
import TigerMips.Proofs.Analysis.Independence
import TigerMips.Proofs.Flow.Calls
import TigerMips.Proofs.Flow.Assigned
import TigerMips.Proofs.CallGraph
import TigerMips.Proofs.Foreigns
import TigerMips.Proofs.Select.Saves
import TigerMips.Proofs.Analysis.Loops
import TigerMips.Proofs.Memory
import TigerMips.Proofs.Select.Mentions
import TigerMips.Proofs.Select.Growth
import TigerMips.Proofs.Select.Flaws
import TigerMips.Proofs.Select.Unwinding
import TigerMips.Proofs.Tac.Calls
import TigerMips.Proofs.Tac.ForLoop
import TigerMips.Proofs.Analysis.ForLoops
import TigerMips.Proofs.Analysis.Counting
import TigerMips.Proofs.Analysis.Parts
import TigerMips.Proofs.Analysis.Counters
import TigerMips.Proofs.Block
import TigerMips.Proofs.Tac.Filling
import TigerMips.Proofs.Analysis.Arrays
import TigerMips.Proofs.Machine.Run
import TigerMips.Proofs.Select.Texts
import TigerMips.Proofs.Select.Concatenation
import TigerMips.Proofs.Select.Substring
import TigerMips.Proofs.Aliases
import TigerMips.Proofs.Select.Comparison
import TigerMips.Proofs.Text.Plain
import TigerMips.Proofs.Machine.Listing
import TigerMips.Proofs.Flow.Splitting
import TigerMips.Proofs.History
import TigerMips.Proofs.Analysis.Places
import TigerMips.Proofs.Tac.Construction
import TigerMips.Proofs.Analysis.Records
