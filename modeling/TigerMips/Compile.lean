import TigerMips.Analysis.Program
import TigerMips.Flow.Print
import TigerMips.Log
import TigerMips.Select.Program

/-! Compilation of programs: analysis, instruction selection, flow graph and liveness. -/

namespace TigerMips

structure CompileOptions where
  dumpTac : Bool := false
  dumpFlow : Bool := false
  colors : Bool := false
  deriving DecidableEq, Repr

structure Compilation where
  tac : Tac.Program
  machine : Machine.Program
  flow : Flow.Graph
  liveness : Flow.Liveness

structure Outcome where
  log : Log
  printed : String := ""
  result : Except Failure (Option Compilation)

namespace Outcome

def logFaults (log : Log) (faults : List (Fault × Span)) : Log :=
  faults.foldl (fun log fault => log.error fault.1.message (some fault.2)) log

def message (log : Log) (printed : String) (asked : Bool) (text : String) : Log × String :=
  if asked then (log.message text, printed ++ log.printed text) else (log, printed)

end Outcome

def Tac.Program.compile (tac : Tac.Program) : Except Failure Compilation := do
  let machine ← tac.generate
  let flow ← Flow.Graph.build machine.lines machine.frames
  return { tac, machine, flow, liveness := Flow.Liveness.analyze flow }

def compile (options : CompileOptions) (log : Log) (expression : Expr) : Outcome :=
  let (faults, tac) := analyze expression
  let log := Outcome.logFaults log faults
  if log.hasError then { log, result := .ok none }
  else
    let (log, printed) :=
      Outcome.message log "" options.dumpTac (tac.text options.colors)
    match tac.compile with
    | .error failure => { log, printed, result := .error failure }
    | .ok compilation =>
      let (log, printed) := Outcome.message log printed options.dumpFlow
        (compilation.flow.text options.colors (some compilation.liveness))
      { log, printed, result := .ok (some compilation) }

end TigerMips
