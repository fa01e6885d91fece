import TigerMips.Text.Quoted

namespace TigerMips

structure SymbolTable where
  texts : List String := []
  deriving DecidableEq, Repr

namespace SymbolTable

def get? (table : SymbolTable) (number : Nat) : Option String := table.texts[number]?

def insert (table : SymbolTable) (text : String) : Nat × SymbolTable :=
  match table.texts.idxOf? text with
  | some number => (number, table)
  | none => (table.texts.length, ⟨table.texts ++ [text]⟩)

def describe (text : String) : String := "Symbol(" ++ Text.quoted text ++ ")"

end SymbolTable

end TigerMips
