import TigerMips.Arena
import TigerMips.Operator
import TigerMips.Supply
import TigerMips.Word

/-! Three-address code: a list of labels and operations with at most two sources and one
destination. -/

namespace TigerMips

inductive Const where
  | int (value : Word)
  | wordLength
  | string (label : Label)
  deriving DecidableEq, Repr

def Const.isAddress : Const → Bool
  | string _ => true
  | _ => false

inductive Access where
  | temp (temp : Temp)
  | const (constant : Const)
  | memory (base offset : Access)
  deriving DecidableEq, Repr

namespace Access

def int (value : Word) : Access := const (.int value)

def word : Access := const .wordLength

def isSimple : Access → Bool
  | memory _ _ => false
  | _ => true

end Access

inductive Tac where
  | move (destination source : Access)
  | binary (operator : BinaryOp) (destination lhs rhs : Access)
  | negate (destination operand : Access)
  | call (destination : Option Access) (target : Label) (arguments : List Access)
  | callRuntime (destination : Option Access) (name : String) (arguments : List Access)
  | ret
  | goto (target : Label)
  | branch (relation : Relation) (lhs rhs : Access) (target : Label)
  deriving DecidableEq, Repr

def Tac.target? : Tac → Option Label
  | call _ target _ => some target
  | goto target => some target
  | branch _ _ _ target => some target
  | _ => none

inductive Code where
  | label (label : Label)
  | op (frame : FrameId) (tac : Tac)
  | labeled (label : Label) (frame : FrameId) (tac : Tac)
  deriving DecidableEq, Repr

namespace Code

def label? : Code → Option Label
  | label place => some place
  | op _ _ => none
  | labeled place _ _ => some place

def op? : Code → Option (FrameId × Tac)
  | label _ => none
  | op frame tac => some (frame, tac)
  | labeled _ frame tac => some (frame, tac)

def labels (codes : List Code) : List Label := codes.filterMap label?

def ops (codes : List Code) : List (FrameId × Tac) := codes.filterMap op?

end Code

end TigerMips
