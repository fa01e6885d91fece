import TigerMips.Runtime
import TigerMips.Select.Basic

/-! The instructions of each runtime function, put in place of its calls. -/

namespace TigerMips.Select

open Machine

variable (context : Context)

def storeResult (destination : Option Access) (source : Access) : Select (List Line) := do
  match destination with
  | some destination => move context destination source
  | none => return []

def increment (temp : Temp) (amount : Word) : Line :=
  context.line (.addImmediate temp temp (.int amount))

def loadByte (destination base : Temp) : Line :=
  context.line (.load .byte destination base 0)

def storeByte (source base : Temp) (offset : Word) : Line :=
  store context .byte source ⟨base, offset⟩

def syscall (service : Service) : List Line :=
  let { v0, a0, a1, .. } := context.registers
  [context.line (.loadImmediate v0 service.code), context.line (.syscall service v0 a0 a1)]

def serve (service : Service) (argument : Access) : Select (List Line) := do
  let lines ← loadInto context context.registers.a0 argument
  return lines ++ syscall context service

def allocate (size : Access) (destination : Temp) : Select (List Line) := do
  let lines ← serve context .sbrk size
  return lines ++ [context.line (.move destination context.registers.v0)]

def readChar (destination : Option Access) : Select (List Line) := do
  let { a0, a1, .. } := context.registers
  let buffer ← allocate context (.int 2) a0
  let result ← storeResult context destination (.temp a0)
  return buffer ++ context.line (.loadImmediate a1 2) :: syscall context .readString ++ result

def firstByte (string : Access) (destination : Option Access) : Select (List Line) := do
  let empty ← newLabel
  let exit ← newLabel
  let (text, textLines) ← register context string
  let byte ← context.newTemp
  let found ← storeResult context destination (.temp byte)
  let missing ← storeResult context destination (.int (-1))
  return textLines ++
    [loadByte context byte text,
      context.line (.branch .eq byte context.registers.zero empty)] ++
    found ++ [context.line (.jump exit), .label empty] ++ missing ++ [.label exit]

/-- The string of one character. A code that is not a byte ends the program with status 1. -/
def oneChar (code : Access) (destination : Option Access) : Select (List Line) := do
  let fail ← newLabel
  let exit ← newLabel
  let max ← context.newTemp
  let (byte, byteLines) ← register context code
  let buffer ← context.newTemp
  let allocation ← allocate context (.int 2) buffer
  let result ← storeResult context destination (.temp buffer)
  let failure ← serve context .exitWithCode (.int 1)
  let zero := context.registers.zero
  return context.line (.loadImmediate max 255) :: byteLines ++
    [context.line (.branch .gt byte max fail), context.line (.branch .lt byte zero fail)] ++
    allocation ++ [storeByte context byte buffer 0, storeByte context zero buffer 1] ++ result ++
    [context.line (.jump exit), .label fail] ++ failure ++ [.label exit]

def measure (string size : Temp) : Select (List Line) := do
  let start ← newLabel
  let exit ← newLabel
  let cursor ← context.newTemp
  let byte ← context.newTemp
  let zero := context.registers.zero
  return [context.line (.move cursor string),
    context.line (.move size zero),
    .label start,
    loadByte context byte cursor,
    context.line (.branch .eq byte zero exit),
    increment context cursor 1,
    increment context size 1,
    context.line (.jump start),
    .label exit]

/-- Copies a string without its terminator. Both temps move on to where the copy ended. -/
def copyBytes (source target : Temp) : Select (List Line) := do
  let start ← newLabel
  let exit ← newLabel
  let byte ← context.newTemp
  return [.label start,
    loadByte context byte source,
    context.line (.branch .eq byte context.registers.zero exit),
    storeByte context byte target 0,
    increment context source 1,
    increment context target 1,
    context.line (.jump start),
    .label exit]

def sizeOf (string : Access) (destination : Option Access) : Select (List Line) := do
  let (text, textLines) ← register context string
  let size ← context.newTemp
  let loop ← measure context text size
  return textLines ++ loop ++ (← storeResult context destination (.temp size))

def substring (string first length : Access) (destination : Option Access) :
    Select (List Line) := do
  let start ← newLabel
  let exit ← newLabel
  let result ← context.newTemp
  let source ← context.newTemp
  let target ← context.newTemp
  let remaining ← context.newTemp
  let capacity ← context.newTemp
  let byte ← context.newTemp
  let zero := context.registers.zero
  let lengthLines ← loadInto context remaining length
  let allocation ← allocate context (.temp capacity) result
  let (text, textLines) ← register context string
  let startLines ← binaryInto context .add (.temp text) first source
  let ending ← storeResult context destination (.temp result)
  return lengthLines ++
    context.line (.addImmediate capacity remaining (.int 1)) :: allocation ++ textLines ++
    startLines ++
    [context.line (.move target result),
      .label start,
      context.line (.branch .eq remaining zero exit),
      loadByte context byte source,
      context.line (.branch .eq byte zero exit),
      storeByte context byte target 0,
      increment context target 1,
      increment context source 1,
      increment context remaining (-1),
      context.line (.jump start),
      .label exit,
      storeByte context zero target 0] ++ ending

def concat (first second : Access) (destination : Option Access) : Select (List Line) := do
  let (left, leftLines) ← register context first
  let (right, rightLines) ← register context second
  let leftSize ← context.newTemp
  let rightSize ← context.newTemp
  let size ← context.newTemp
  let result ← context.newTemp
  let source ← context.newTemp
  let target ← context.newTemp
  let measureLeft ← measure context left leftSize
  let measureRight ← measure context right rightSize
  let allocation ← allocate context (.temp size) result
  let copyLeft ← copyBytes context source target
  let copyRight ← copyBytes context source target
  let ending ← storeResult context destination (.temp result)
  return leftLines ++ rightLines ++ measureLeft ++ measureRight ++
    [context.line (.arithmetic .add size leftSize rightSize), increment context size 1] ++
    allocation ++
    [context.line (.move target result), context.line (.move source left)] ++ copyLeft ++
    context.line (.move source right) :: copyRight ++
    storeByte context context.registers.zero target 0 :: ending

def logicalNot (value : Access) (destination : Option Access) : Select (List Line) := do
  let (operand, lines) ← register context value
  let result ← context.newTemp
  let ending ← storeResult context destination (.temp result)
  return lines ++
    context.line (.arithmetic (.compare .eq) result operand context.registers.zero) :: ending

/-- 1, -1 or 0, as the first byte that differs is greater or less in the first string, or as both
strings end together. -/
def compareStrings (left right : Access) (destination : Option Access) :
    Select (List Line) := do
  let start ← newLabel
  let greater ← newLabel
  let less ← newLabel
  let equal ← newLabel
  let exit ← newLabel
  let leftCursor ← context.newTemp
  let rightCursor ← context.newTemp
  let leftByte ← context.newTemp
  let rightByte ← context.newTemp
  let leftLines ← loadInto context leftCursor left
  let rightLines ← loadInto context rightCursor right
  let one ← storeResult context destination (.int 1)
  let minusOne ← storeResult context destination (.int (-1))
  let zero ← storeResult context destination (.int 0)
  return leftLines ++ rightLines ++
    [.label start,
      loadByte context leftByte leftCursor,
      loadByte context rightByte rightCursor,
      context.line (.branch .gt leftByte rightByte greater),
      context.line (.branch .lt leftByte rightByte less),
      context.line (.branch .eq leftByte context.registers.zero equal),
      increment context leftCursor 1,
      increment context rightCursor 1,
      context.line (.jump start),
      .label greater] ++ one ++ [context.line (.jump exit), .label less] ++ minusOne ++
    [context.line (.jump exit), .label equal] ++ zero ++ [.label exit]

def argument (name : String) (arguments : List Access) (index : Nat) : Select Access := do
  match arguments[index]? with
  | some argument => return argument
  | none => throw (.missingArgument name index)

def expand (name : String) (destination : Option Access) (arguments : List Access) :
    Runtime → Select (List Line)
  | .print => do serve context .printString (← argument name arguments 0)
  | .printi => do serve context .printInt (← argument name arguments 0)
  | .flush => return []
  | .getchar => readChar context destination
  | .ord => do firstByte context (← argument name arguments 0) destination
  | .chr => do oneChar context (← argument name arguments 0) destination
  | .size => do sizeOf context (← argument name arguments 0) destination
  | .substring => do
    let string ← argument name arguments 0
    let first ← argument name arguments 1
    let length ← argument name arguments 2
    substring context string first length destination
  | .concat => do
    let first ← argument name arguments 0
    let second ← argument name arguments 1
    concat context first second destination
  | .not => do logicalNot context (← argument name arguments 0) destination
  | .exit => do serve context .exitWithCode (← argument name arguments 0)
  | .malloc => do
    let result ← context.newTemp
    let lines ← allocate context (← argument name arguments 0) result
    return lines ++ (← storeResult context destination (.temp result))
  | .strcmp => do
    let left ← argument name arguments 0
    let right ← argument name arguments 1
    compareStrings context left right destination

def callRuntime (destination : Option Access) (name : String) (arguments : List Access) :
    Select (List Line) := do
  match Runtime.ofName? name with
  | some function => expand context name destination arguments function
  | none => throw (.unknownRuntime name)

end TigerMips.Select
