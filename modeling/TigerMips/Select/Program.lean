import TigerMips.Machine.Program
import TigerMips.Select.Call
import TigerMips.Select.Runtime
import TigerMips.Tac.Program

namespace TigerMips.Select

open Machine

def reserve (mainFrame : FrameId) : Select Registers := do
  let zero ← newTempIn mainFrame
  let fp ← newTempIn mainFrame
  let sp ← newTempIn mainFrame
  let ra ← newTempIn mainFrame
  let v0 ← newTempIn mainFrame
  let a0 ← newTempIn mainFrame
  let a1 ← newTempIn mainFrame
  return { zero, fp, sp, ra, v0, a0, a1 }

def operation (context : Context) (graph : CallGraph) (start : Nat) :
    Tac → Select (List Line × List CallSave)
  | .move destination source => return (← move context destination source, [])
  | .binary operator destination lhs rhs =>
    return (← binary context operator destination lhs rhs, [])
  | .negate destination operand => return (← negate context destination operand, [])
  | .callRuntime destination name arguments =>
    return (← callRuntime context destination name arguments, [])
  | .ret => return ([context.line (.jumpRegister context.registers.ra)], [])
  | .goto target => return ([context.line (.jump target)], [])
  | .branch relation lhs rhs target => return (← branch context relation lhs rhs target, [])
  | .call destination target arguments => do
    let (lines, recursive) ← call context graph destination target arguments
    return (lines,
      if recursive then [⟨context.frame, start, start + lines.length - 1⟩] else [])

def code (registers : Registers) (graph : CallGraph) (start : Nat) :
    Code → Select (List Line × List CallSave)
  | .label label => return ([.label label], [])
  | .op frame tac => operation ⟨frame, registers⟩ graph start tac
  | .labeled label frame tac => do
    let (lines, saves) ← operation ⟨frame, registers⟩ graph (start + 1) tac
    return (.label label :: lines, saves)

def codes (registers : Registers) (graph : CallGraph) :
    Nat → List Code → Select (List Line × List CallSave)
  | _, [] => return ([], [])
  | start, first :: rest => do
    let (lines, saves) ← code registers graph start first
    let (others, otherSaves) ← codes registers graph (start + lines.length) rest
    return (lines ++ others, saves ++ otherSaves)

end TigerMips.Select

namespace TigerMips

open Machine

def Tac.Program.generate (program : Tac.Program) : Except Failure Machine.Program := do
  let select : Select (Registers × List Line × List CallSave) := do
    let registers ← Select.reserve program.mainFrame
    return (registers, ← Select.codes registers program.callGraph 0 program.codes)
  let ((registers, lines, callSaves), state) ←
    select { frames := program.frames, supply := program.supply }
  return {
    lines
    frames := state.frames
    registers
    callSaves
    strings := program.strings.entries
    wordLength := Select.wordLength }

end TigerMips
