import TigerMips.Frame
import TigerMips.Machine.Instruction

namespace TigerMips.Machine

structure CallSave where
  frame : FrameId
  save : Nat
  restore : Nat
  deriving DecidableEq, Repr

structure Program where
  lines : List Line
  frames : Arena .frame Frame
  registers : Registers
  callSaves : List CallSave := []
  strings : List (Label × String) := []
  wordLength : Word := 4
  deriving DecidableEq, Repr

namespace Program

def frameSize? (program : Program) (frame : FrameId) : Option Word := do
  let frame ← program.frames.get? frame
  frame.size? program.wordLength

def immediate? (program : Program) : Immediate → Option Word
  | .int value => some value
  | .frameSize frame => program.frameSize? frame
  | .negatedFrameSize frame => do Word.neg? (← program.frameSize? frame)

end Program

end TigerMips.Machine
