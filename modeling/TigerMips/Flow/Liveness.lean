import TigerMips.Fixpoint
import TigerMips.Flow.Graph

/-! Live temps: those whose value may still be read. -/

namespace TigerMips.Flow

structure LiveSets where
  uses : List Temp := []
  defs : List Temp := []
  liveIn : List Temp := []
  liveOut : List Temp := []
  deriving DecidableEq, Repr

abbrev LiveTable := Arena .block LiveSets

structure Liveness where
  sets : LiveTable
  sweeps : Nat
  deriving DecidableEq, Repr

namespace Liveness

def start (graph : Graph) : LiveTable :=
  ⟨graph.blocks.items.map fun block => { uses := block.uses, defs := block.defs }⟩

def liveInOf (table : LiveTable) (block : BlockId) : List Temp :=
  ((table.get? block).map LiveSets.liveIn).getD []

def outOf (table : LiveTable) (block : Block) : List Temp :=
  Ordered.unions (block.successors.map (liveInOf table))

def inOf (sets : LiveSets) (liveOut : List Temp) : List Temp :=
  Ordered.union sets.uses (Ordered.difference liveOut sets.defs)

def update (state : LiveTable × Bool) (entry : BlockId × Block) : LiveTable × Bool :=
  match state.1.get? entry.1 with
  | none => state
  | some sets =>
    let liveOut := outOf state.1 entry.2
    let liveIn := inOf sets liveOut
    if liveIn = sets.liveIn ∧ liveOut = sets.liveOut then state
    else (state.1.set entry.1 { sets with liveIn, liveOut }, true)

def sweep (graph : Graph) (table : LiveTable) : LiveTable × Bool :=
  graph.blocks.entries.reverse.foldl update (table, false)

/-- No more temps than these can be added to all sets, and each sweep but the last adds one. -/
def room (graph : Graph) : Nat :=
  2 * graph.blocks.size * (graph.blocks.items.flatMap Block.uses).length

def analyze (graph : Graph) : Liveness :=
  let result := sweepUntilStable (sweep graph) (room graph + 1) (start graph)
  { sets := result.1, sweeps := result.2 }

def solves? (table : LiveTable) (id : BlockId) (block : Block) : Option Bool := do
  let sets ← table.get? id
  let successors ← block.successors.mapM table.get?
  let liveOut := Ordered.unions (successors.map LiveSets.liveIn)
  return liveOut = sets.liveOut && inOf sets liveOut = sets.liveIn

def allSolve? (table : LiveTable) : List (BlockId × Block) → Option Bool
  | [] => some true
  | (id, block) :: rest => do
    if ← solves? table id block then allSolve? table rest else return false

def isFixedPoint? (liveness : Liveness) (graph : Graph) : Option Bool :=
  allSolve? liveness.sets graph.blocks.entries

end Liveness

end TigerMips.Flow
