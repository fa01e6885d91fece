import TigerMips.Tac.Program
import TigerMips.Text.Color
import TigerMips.Text.Quoted

namespace TigerMips

open Text (Color quoted)

variable (colors : Bool)

def Temp.text (temp : Temp) : String :=
  Color.yellow.paint colors ("t" ++ toString temp.number)

def Label.reference (label : Label) : String := Color.blue.paint colors label.text

def Label.placed (label : Label) : String := Color.brightRed.paint colors (label.text ++ ":")

def Const.text : Const → String
  | int value => Color.purple.paint colors (toString value)
  | wordLength => Color.purple.paint colors "WORD"
  | string label => Color.blue.paint colors ("&" ++ label.text)

def Access.text : Access → String
  | temp place => place.text colors
  | const constant => constant.text colors
  | memory base offset => "[" ++ base.text ++ " + " ++ offset.text ++ "]"

def Relation.text : Relation → String
  | eq => "eq"
  | neq => "neq"
  | lt => "lt"
  | leq => "leq"
  | gt => "gt"
  | geq => "geq"

def BinaryOp.text : BinaryOp → String
  | add => "add"
  | sub => "sub"
  | mul => "mul"
  | div => "div"
  | compare relation => relation.text

namespace Tac

def assigned (destination : Access) : String :=
  destination.text colors ++ " " ++ Color.white.paint colors "=" ++ " "

def assigned? (destination : Option Access) : String :=
  (destination.map (assigned colors)).getD ""

def argumentList (arguments : List Access) : String :=
  "(" ++ String.intercalate ", " (arguments.map (Access.text colors)) ++ ")"

def text : Tac → String
  | move destination source => assigned colors destination ++ source.text colors
  | binary operator destination lhs rhs =>
    assigned colors destination ++ lhs.text colors ++ " " ++
      Color.white.paint colors operator.text ++ " " ++ rhs.text colors
  | negate destination operand =>
    assigned colors destination ++ Color.white.paint colors "neg" ++ " " ++ operand.text colors
  | call destination target arguments =>
    assigned? colors destination ++ Color.cyan.paint colors "call" ++ " " ++
      target.reference colors ++ argumentList colors arguments
  | callRuntime destination name arguments =>
    assigned? colors destination ++ Color.cyan.paint colors "extern" ++ " " ++
      Color.green.paint colors name ++ argumentList colors arguments
  | ret => Color.cyan.paint colors "ret"
  | goto target => Color.cyan.paint colors "goto" ++ " " ++ target.reference colors
  | branch relation lhs rhs target =>
    Color.cyan.paint colors "if" ++ " " ++ lhs.text colors ++ " " ++
      Color.white.paint colors relation.text ++ " " ++ rhs.text colors ++ " " ++
      target.reference colors

end Tac

namespace Code

def text : Code → String
  | label place => place.placed colors ++ "\n"
  | op _ tac => "    " ++ tac.text colors ++ "\n"
  | labeled place _ tac => place.placed colors ++ "\n    " ++ tac.text colors ++ "\n"

def listText (codes : List Code) : String := String.join (codes.map (text colors))

end Code

def StringTable.text (table : StringTable) : String :=
  String.join (table.entries.map fun entry =>
    entry.1.placed colors ++ " " ++ Color.green.paint colors (quoted entry.2) ++ "\n")

def Tac.Program.text (program : Tac.Program) : String :=
  program.strings.text colors ++ Code.listText colors program.codes

end TigerMips
