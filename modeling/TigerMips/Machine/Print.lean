import TigerMips.Machine.Program
import TigerMips.Tac.Print
import TigerMips.Text.Plain

/-! The printed form of instructions, and listings for an assembler. -/

namespace TigerMips

open Text (Color)

def Relation.suffix : Relation → String
  | eq => "eq"
  | neq => "ne"
  | lt => "lt"
  | leq => "le"
  | gt => "gt"
  | geq => "ge"

def BinaryOp.mnemonic : BinaryOp → String
  | compare relation => "s" ++ relation.suffix
  | operator => operator.text

namespace Machine

def Width.suffix : Width → String
  | word => "w"
  | byte => "b"

def Service.text : Service → String
  | printInt => "print_int"
  | printString => "print_string"
  | readString => "read_string"
  | sbrk => "sbrk"
  | exitWithCode => "exit_with_code"

variable (colors : Bool)

def Immediate.text : Immediate → String
  | int value => Color.purple.paint colors (toString value)
  | frameSize frame =>
    Color.purple.paint colors ("framesize(F" ++ toString frame.position ++ ")")
  | negatedFrameSize frame =>
    Color.purple.paint colors ("-framesize(F" ++ toString frame.position ++ ")")

def mnemonic (name : String) (operands : List String) : String :=
  Color.cyan.paint colors name ++ " " ++ String.intercalate ", " operands

def wordText (value : Word) : String := Color.purple.paint colors (toString value)

def addressText (name : Temp → String) (base : Temp) (offset : Word) : String :=
  wordText colors offset ++ "(" ++ name base ++ ")"

def Operation.text (name : Temp → String) : Operation → String
  | arithmetic operator destination lhs rhs =>
    mnemonic colors operator.mnemonic [name destination, name lhs, name rhs]
  | addImmediate destination source immediate =>
    mnemonic colors "addi" [name destination, name source, immediate.text colors]
  | setLessImmediate destination source immediate =>
    mnemonic colors "slti" [name destination, name source, wordText colors immediate]
  | negate destination source => mnemonic colors "neg" [name destination, name source]
  | move destination source => mnemonic colors "move" [name destination, name source]
  | loadImmediate destination immediate =>
    mnemonic colors "li" [name destination, wordText colors immediate]
  | loadAddress destination label =>
    mnemonic colors "la" [name destination, label.reference colors]
  | load width destination base offset =>
    mnemonic colors ("l" ++ width.suffix) [name destination, addressText colors name base offset]
  | store width source base offset =>
    mnemonic colors ("s" ++ width.suffix) [name source, addressText colors name base offset]
  | jump target => mnemonic colors "j" [target.reference colors]
  | jumpAndLink target _ => mnemonic colors "jal" [target.reference colors]
  | jumpRegister register => mnemonic colors "jr" [name register]
  | branch relation lhs rhs target =>
    mnemonic colors ("b" ++ relation.suffix) [name lhs, name rhs, target.reference colors]
  | syscall service _ _ _ =>
    Color.cyan.paint colors "syscall" ++ " " ++ Color.dimmed.paint colors ("# " ++ service.text)
  | save => Color.brightRed.paint colors "# save"
  | restore => Color.brightRed.paint colors "# restore"

def Instruction.text (instruction : Instruction) : String :=
  instruction.operation.text colors (Temp.text colors) ++
    if instruction.transfer then " " ++ Color.dimmed.paint colors "# call" else ""

namespace Line

def text : Line → String
  | label place => place.reference colors ++ ":"
  | instruction body => "    " ++ body.text colors

def listText (lines : List Line) : String :=
  String.join (lines.map fun line => line.text colors ++ "\n")

end Line

def literalChar (c : Char) : String :=
  if c = '\n' then "\\n"
  else if c = '\t' then "\\t"
  else if c = '"' then "\\\""
  else if c = '\\' then "\\\\"
  else c.toString

def literal (text : String) : String :=
  "\"" ++ String.join (text.toList.map literalChar) ++ "\""

def literalLine (entry : Label × String) : String := entry.1.text ++ ": .asciiz " ++ literal entry.2

namespace Program

def tempName (program : Program) (temp : Temp) : String :=
  (program.registers.name? temp).getD (temp.text false)

def resolved? (program : Program) : Operation → Option Operation
  | .addImmediate destination source immediate =>
    (program.immediate? immediate).map fun value =>
      .addImmediate destination source (.int value)
  | operation => some operation

def lineText? (program : Program) : Line → Option String
  | .label label => some (label.text ++ ":")
  | .instruction instruction =>
    (program.resolved? instruction.operation).map fun operation =>
      "    " ++ operation.text false program.tempName

def literals (program : Program) : String :=
  String.intercalate "\n" (program.strings.map literalLine)

/-- Assembly text; none if the size of a frame is not a machine word. The text is plain. -/
def listing? (program : Program) : Option String :=
  (program.lines.mapM program.lineText?).map fun lines =>
    Text.plain ("    .text\n    .globl main\nmain:\n" ++ String.intercalate "\n" lines ++
      "\n    li $v0, 10\n    syscall\n\n    .data\n" ++ program.literals ++ "\n")

end Program

end Machine

end TigerMips
