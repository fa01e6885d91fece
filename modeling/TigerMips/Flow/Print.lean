import TigerMips.Flow.Liveness
import TigerMips.Machine.Print

namespace TigerMips.Flow

open Text (Color)

variable (colors : Bool)

def blockName (block : BlockId) : String :=
  Color.brightRed.paint colors ("B" ++ toString block.position)

def titled (title : String) (contents : String) : String :=
  "  " ++ Color.white.paint colors title ++ " " ++ contents ++ "\n"

def edgesText (blocks : List BlockId) : String :=
  String.intercalate ", " (blocks.map (blockName colors))

def tempsText (temps : List Temp) : String :=
  String.intercalate " " (temps.map (Temp.text colors))

def LiveSets.text (sets : LiveSets) : String :=
  titled colors "use:" (tempsText colors sets.uses) ++
    titled colors "def:" (tempsText colors sets.defs) ++
    titled colors "in:" (tempsText colors sets.liveIn) ++
    titled colors "out:" (tempsText colors sets.liveOut)

def Block.text (block : Block) : String :=
  titled colors "successors:" (edgesText colors block.successors) ++
    titled colors "predecessors:" (edgesText colors block.predecessors) ++
    String.join (block.labels.map fun label => "  " ++ label.reference colors ++ ":\n") ++
    String.join (block.instructions.map fun instruction =>
      "      " ++ instruction.text colors ++ "\n")

def liveText (liveness : Option Liveness) (block : BlockId) : String :=
  match liveness with
  | some liveness => (((liveness.sets.get? block).map (LiveSets.text colors)).getD "")
  | none => ""

def Graph.text (graph : Graph) (liveness : Option Liveness) : String :=
  String.join (graph.blocks.entries.map fun (id, block) =>
    Color.white.paint colors "block" ++ " " ++ blockName colors id ++ "\n" ++
      block.text colors ++ liveText colors liveness id)

end TigerMips.Flow
