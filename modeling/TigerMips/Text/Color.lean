namespace TigerMips.Text

inductive Color where
  | red | green | yellow | blue | purple | cyan | white | brightRed | dimmed
  deriving DecidableEq, Repr

namespace Color

def code : Color → Nat
  | red => 31
  | green => 32
  | yellow => 33
  | blue => 34
  | purple => 35
  | cyan => 36
  | white => 37
  | brightRed => 91
  | dimmed => 2

def select (color : Color) : String :=
  "\x1b[" ++ toString color.code ++ "m"

def reset : String := "\x1b[0m"

/-- Text in a colour when colours are on. A reset inside the text selects the colour again, so
the whole text has it. -/
def paint (colors : Bool) (color : Color) (text : String) : String :=
  if colors then
    color.select ++ text.replace reset (reset ++ color.select) ++ reset
  else text

end Color

end TigerMips.Text
