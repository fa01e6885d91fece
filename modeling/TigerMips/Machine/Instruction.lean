import TigerMips.Arena
import TigerMips.Operator
import TigerMips.Ordered
import TigerMips.Supply
import TigerMips.Word

/-! MIPS32 instructions over temps. No registers are chosen yet. -/

namespace TigerMips.Machine

inductive Width where
  | word | byte
  deriving DecidableEq, Repr

inductive Service where
  | printInt | printString | readString | sbrk | exitWithCode
  deriving DecidableEq, Repr

namespace Service

def code : Service → Word
  | printInt => 1
  | printString => 4
  | readString => 8
  | sbrk => 9
  | exitWithCode => 17

def all : List Service := [printInt, printString, readString, sbrk, exitWithCode]

end Service

inductive Immediate where
  | int (value : Word)
  | frameSize (frame : FrameId)
  | negatedFrameSize (frame : FrameId)
  deriving DecidableEq, Repr

inductive Operation where
  | arithmetic (operator : BinaryOp) (destination lhs rhs : Temp)
  | addImmediate (destination source : Temp) (immediate : Immediate)
  | setLessImmediate (destination source : Temp) (immediate : Word)
  | negate (destination source : Temp)
  | move (destination source : Temp)
  | loadImmediate (destination : Temp) (immediate : Word)
  | loadAddress (destination : Temp) (label : Label)
  | load (width : Width) (destination base : Temp) (offset : Word)
  | store (width : Width) (source base : Temp) (offset : Word)
  | jump (target : Label)
  | jumpAndLink (target : Label) (returnAddress : Temp)
  | jumpRegister (register : Temp)
  | branch (relation : Relation) (lhs rhs : Temp) (target : Label)
  | syscall (service : Service) (v0 a0 a1 : Temp)
  | save
  | restore
  deriving DecidableEq, Repr

namespace Operation

def uses : Operation → List Temp
  | arithmetic _ _ lhs rhs => Ordered.ofList [lhs, rhs]
  | branch _ lhs rhs _ => Ordered.ofList [lhs, rhs]
  | addImmediate _ source _ => [source]
  | setLessImmediate _ source _ => [source]
  | negate _ source => [source]
  | move _ source => [source]
  | load _ _ base _ => [base]
  | store _ source base _ => Ordered.ofList [source, base]
  | jumpRegister register => [register]
  | syscall .readString v0 a0 a1 => Ordered.ofList [v0, a0, a1]
  | syscall _ v0 a0 _ => Ordered.ofList [v0, a0]
  | loadImmediate _ _ | loadAddress _ _ | jump _ | jumpAndLink _ _ | save | restore => []

def defs : Operation → List Temp
  | arithmetic _ destination _ _ => [destination]
  | addImmediate destination _ _ => [destination]
  | setLessImmediate destination _ _ => [destination]
  | negate destination _ => [destination]
  | move destination _ => [destination]
  | loadImmediate destination _ => [destination]
  | loadAddress destination _ => [destination]
  | load _ destination _ _ => [destination]
  | jumpAndLink _ returnAddress => [returnAddress]
  | syscall .sbrk v0 _ _ => [v0]
  | store _ _ _ _ | jump _ | jumpRegister _ | branch _ _ _ _ | syscall _ _ _ _ | save
  | restore => []

def isJump : Operation → Bool
  | jump _ | jumpAndLink _ _ | jumpRegister _ | branch _ _ _ _ => true
  | _ => false

def isBranch : Operation → Bool
  | branch _ _ _ _ => true
  | _ => false

def target? : Operation → Option Label
  | jump target => some target
  | jumpAndLink target _ => some target
  | branch _ _ _ target => some target
  | _ => none

end Operation

structure Instruction where
  frame : FrameId
  operation : Operation
  transfer : Bool := false
  deriving DecidableEq, Repr

inductive Line where
  | label (label : Label)
  | instruction (instruction : Instruction)
  deriving DecidableEq, Repr

structure Registers where
  zero : Temp
  fp : Temp
  sp : Temp
  ra : Temp
  v0 : Temp
  a0 : Temp
  a1 : Temp
  deriving DecidableEq, Repr

namespace Registers

def named (registers : Registers) : List (Temp × String) :=
  [(registers.zero, "$zero"), (registers.fp, "$fp"), (registers.sp, "$sp"),
    (registers.ra, "$ra"), (registers.v0, "$v0"), (registers.a0, "$a0"), (registers.a1, "$a1")]

def name? (registers : Registers) (temp : Temp) : Option String := registers.named.lookup temp

end Registers

end TigerMips.Machine
