import TigerMips.Arena
import TigerMips.Supply
import TigerMips.Word

/-! Stack frames of functions and of the main program. -/

namespace TigerMips

structure Frame where
  name : String
  entry : Option Label
  parent : Option FrameId
  params : List Temp := []
  display : Temp
  locals : List Temp := []
  /-- One label for each call of the function, where it returns to. -/
  returns : List Label := []
  returnValue : Option Temp := none
  deriving DecidableEq, Repr

namespace Frame

def savedSlots : Word := 3

def addLocal (frame : Frame) (temp : Temp) : Frame :=
  { frame with locals := frame.locals ++ [temp] }

def addParam (frame : Frame) (temp : Temp) : Frame :=
  { frame.addLocal temp with params := frame.params ++ [temp] }

def addReturn (frame : Frame) (label : Label) : Frame :=
  { frame with returns := frame.returns ++ [label] }

def size? (frame : Frame) (wordLength : Word) : Option Word := do
  let slots ← Word.add? savedSlots (Int32.ofNat frame.locals.length)
  Word.mul? wordLength slots

def create (name : String) (entry : Option Label) (parent : Option FrameId) :
    StateM Supply Frame := do
  let display ← Supply.newTemp
  return { name, entry, parent, display }

def newLocal (frame : Frame) : StateM Supply (Temp × Frame) := do
  let temp ← Supply.newTemp
  return (temp, frame.addLocal temp)

def newParam (frame : Frame) : StateM Supply (Temp × Frame) := do
  let temp ← Supply.newTemp
  return (temp, frame.addParam temp)

def newParams : Nat → Frame → StateM Supply Frame
  | 0, frame => return frame
  | n + 1, frame => do
    let added ← frame.newParam
    newParams n added.2

end Frame

end TigerMips
