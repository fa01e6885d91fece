import TigerMips.Failure
import TigerMips.Frame
import TigerMips.Machine.Instruction

/-! Instruction selection for operands, moves and arithmetic. -/

namespace TigerMips

open Machine

structure Selection where
  frames : Arena .frame Frame
  supply : Supply

abbrev Select := StateT Selection (Except Failure)

namespace Select

def wordLength : Word := 4

def draw {α : Type} (action : StateM Supply α) : Select α :=
  modifyGet fun state =>
    let drawn := action state.supply
    (drawn.1, { state with supply := drawn.2 })

def newLabel : Select Label := draw Supply.newLabel

def newTempIn (frame : FrameId) : Select Temp := do
  match (← get).frames.get? frame with
  | none => throw (.missingFrame frame)
  | some _ =>
    let temp ← draw Supply.newTemp
    modify fun state => { state with frames := state.frames.modify frame (·.addLocal temp) }
    return temp

structure Context where
  frame : FrameId
  registers : Registers

namespace Context

def newTemp (context : Context) : Select Temp := newTempIn context.frame

def line (context : Context) (operation : Operation) : Line :=
  .instruction { frame := context.frame, operation }

end Context

structure Address where
  base : Temp
  offset : Word
  deriving DecidableEq, Repr

def value? : Const → Option Word
  | .int value => some value
  | .wordLength => some wordLength
  | .string _ => none

def loadConstant (destination : Temp) : Const → Operation
  | .int value => .loadImmediate destination value
  | .wordLength => .loadImmediate destination wordLength
  | .string label => .loadAddress destination label

def directAddress? (zero : Temp) : Access → Access → Option Address
  | .temp base, .const offset => (value? offset).map (⟨base, ·⟩)
  | .const offset, .temp base => (value? offset).map (⟨base, ·⟩)
  | .const base, .const offset => do return ⟨zero, (← value? base) + (← value? offset)⟩
  | _, _ => none

variable (context : Context)

def addressBy (base offset : Access) (readBase readOffset : Select (Temp × List Line)) :
    Select (Address × List Line) := do
  match directAddress? context.registers.zero base offset with
  | some address => return (address, [])
  | none =>
    let (baseTemp, baseLines) ← readBase
    let (offsetTemp, offsetLines) ← readOffset
    let sum ← context.newTemp
    return (⟨sum, 0⟩,
      baseLines ++ offsetLines ++ [context.line (.arithmetic .add sum baseTemp offsetTemp)])

def register : Access → Select (Temp × List Line)
  | .temp temp => return (temp, [])
  | .const constant => do
    if constant = .int 0 then return (context.registers.zero, [])
    else
      let temp ← context.newTemp
      return (temp, [context.line (loadConstant temp constant)])
  | .memory base offset => do
    let temp ← context.newTemp
    let (address, lines) ← addressBy context base offset (register base) (register offset)
    return (temp, lines ++ [context.line (.load .word temp address.base address.offset)])

def address (base offset : Access) : Select (Address × List Line) :=
  addressBy context base offset (register context base) (register context offset)

def loading (destination : Temp) : Access → Select (List Line × Operation)
  | .temp source => return ([], .move destination source)
  | .const constant => return ([], loadConstant destination constant)
  | .memory base offset => do
    let (address, lines) ← address context base offset
    return (lines, .load .word destination address.base address.offset)

def loadInto (destination : Temp) (source : Access) : Select (List Line) := do
  let (lines, operation) ← loading context destination source
  return lines ++ [context.line operation]

def transfer (destination : Temp) (source : Access) : Select (List Line) := do
  let (lines, operation) ← loading context destination source
  return lines ++ [.instruction { frame := context.frame, operation, transfer := true }]

def store (width : Width) (source : Temp) (address : Address) : Line :=
  context.line (.store width source address.base address.offset)

def move (destination source : Access) : Select (List Line) := do
  match destination with
  | .temp destination => loadInto context destination source
  | .memory base offset =>
    let (address, addressLines) ← address context base offset
    let (source, sourceLines) ← register context source
    return addressLines ++ sourceLines ++ [store context .word source address]
  | .const constant => throw (.invalidDestination constant)

def throughTemp (destination : Access) (make : Temp → Select (List Line)) :
    Select (List Line) := do
  match destination with
  | .temp destination => make destination
  | .memory _ _ =>
    let temp ← context.newTemp
    let lines ← make temp
    return lines ++ (← move context destination (.temp temp))
  | .const constant => throw (.invalidDestination constant)

def immediateForm? (destination : Temp) : BinaryOp → Access → Access → Option Operation
  | .add, .temp source, .const constant =>
    (value? constant).map fun value => .addImmediate destination source (.int value)
  | .add, .const constant, .temp source =>
    (value? constant).map fun value => .addImmediate destination source (.int value)
  | .sub, .temp source, .const constant =>
    (value? constant).map fun value => .addImmediate destination source (.int (-value))
  | .compare .lt, .temp source, .const constant =>
    (value? constant).map fun value => .setLessImmediate destination source value
  | _, _, _ => none

def binaryInto (operator : BinaryOp) (lhs rhs : Access) (destination : Temp) :
    Select (List Line) := do
  match immediateForm? destination operator lhs rhs with
  | some operation => return [context.line operation]
  | none =>
    let (left, leftLines) ← register context lhs
    let (right, rightLines) ← register context rhs
    return leftLines ++ rightLines ++
      [context.line (.arithmetic operator destination left right)]

def binary (operator : BinaryOp) (destination lhs rhs : Access) : Select (List Line) :=
  throughTemp context destination (binaryInto context operator lhs rhs)

def negateInto (operand : Access) (destination : Temp) : Select (List Line) := do
  match operand with
  | .const (.string label) => throw (.unresolvedConstant label)
  | .const .wordLength => return [context.line (.loadImmediate destination (-wordLength))]
  | .const (.int value) =>
    if value = 0 then return [context.line (.negate destination context.registers.zero)]
    else return [context.line (.loadImmediate destination (-value))]
  | operand =>
    let (source, lines) ← register context operand
    return lines ++ [context.line (.negate destination source)]

def negate (destination operand : Access) : Select (List Line) :=
  throughTemp context destination (negateInto context operand)

def branch (relation : Relation) (lhs rhs : Access) (target : Label) : Select (List Line) := do
  let (left, leftLines) ← register context lhs
  let (right, rightLines) ← register context rhs
  return leftLines ++ rightLines ++ [context.line (.branch relation left right target)]

end Select

end TigerMips
