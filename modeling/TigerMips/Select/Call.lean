import TigerMips.CallGraph
import TigerMips.Select.Basic

namespace TigerMips.Select

open Machine

def entered? (frames : Arena .frame Frame) (label : Label) : Option (FrameId × Frame) :=
  frames.entries.reverse.find? (·.2.entry = some label)

variable (context : Context)

def passArguments : List Temp → List Access → Select (List Line)
  | param :: params, argument :: arguments => do
    let lines ← transfer context param argument
    return lines ++ (← passArguments params arguments)
  | _, _ => return []

def takeResult (destination : Option Access) (result : Option Temp) : Select (List Line) := do
  match destination, result with
  | some (.temp destination), some result => transfer context destination (.temp result)
  | some destination, some result => move context destination (.temp result)
  | _, _ => return []

def adjustStack (amount : Word) : Line :=
  let sp := context.registers.sp
  context.line (.addImmediate sp sp (.int amount))

def enterCallee (callee : Context) (display : Temp) (target : Label) : List Line :=
  let { fp, sp, ra, .. } := context.registers
  [store context .word fp ⟨sp, 0⟩,
    store context .word ra ⟨sp, -wordLength⟩,
    store context .word display ⟨sp, -2 * wordLength⟩,
    context.line (.move display sp),
    context.line (.move fp sp),
    callee.line (.addImmediate sp sp (.negatedFrameSize callee.frame)),
    callee.line (.jumpAndLink target ra)]

def leaveCallee (callee : Context) (display : Temp) (back : Label) : List Line :=
  let { fp, sp, ra, .. } := context.registers
  [.label back,
    callee.line (.addImmediate sp sp (.frameSize callee.frame)),
    callee.line (.load .word fp sp 0),
    context.line (.load .word display sp (-2 * wordLength)),
    context.line (.load .word ra sp (-wordLength))]

/-- Temps are saved around a call that may reach the caller again. -/
def savingAround (recursive : Bool) (lines : List Line) : List Line :=
  if recursive then context.line .save :: lines ++ [context.line .restore] else lines

def callLines (callee : Context) (recursive : Bool) (display : Temp) (target back : Label)
    (passing taking : List Line) : List Line :=
  savingAround context recursive
    (adjustStack context (-wordLength) :: passing ++
      enterCallee context callee display target ++
      leaveCallee context callee display back ++
      taking ++ [adjustStack context wordLength])

def call (graph : CallGraph) (destination : Option Access) (target : Label)
    (arguments : List Access) : Select (List Line × Bool) := do
  match entered? (← get).frames target with
  | none => throw (.undefinedLabel target)
  | some (id, frame) =>
    let back ← newLabel
    modify fun state => { state with frames := state.frames.modify id (·.addReturn back) }
    let recursive := graph.isLoopEdge context.frame id
    let callee := { context with frame := id }
    let passing ← passArguments context frame.params arguments
    let taking ← takeResult context destination frame.returnValue
    return (callLines context callee recursive frame.display target back passing taking, recursive)

end TigerMips.Select
