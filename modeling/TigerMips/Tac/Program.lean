import TigerMips.CallGraph
import TigerMips.Frame
import TigerMips.Function
import TigerMips.Tac.Basic

namespace TigerMips

structure StringTable where
  entries : List (Label × String) := []
  deriving DecidableEq, Repr

namespace StringTable

def find? (table : StringTable) (text : String) : Option Label :=
  (table.entries.find? (·.2 = text)).map Prod.fst

def add (table : StringTable) (label : Label) (text : String) : StringTable :=
  ⟨table.entries ++ [(label, text)]⟩

def intern (table : StringTable) (text : String) : StateM Supply (Const × StringTable) :=
  match table.find? text with
  | some label => return (.string label, table)
  | none => do
    let label ← Supply.newLabel
    return (.string label, table.add label text)

end StringTable

structure Tac.Program where
  codes : List Code
  strings : StringTable := {}
  runtime : List String := []
  frames : Arena .frame Frame
  mainFrame : FrameId := ⟨0⟩
  functions : Function.Table := {}
  callGraph : CallGraph := {}
  supply : Supply

end TigerMips
