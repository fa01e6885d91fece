import TigerMips.Tac.Basic

/-! Why code cannot be generated or laid out. Programs without errors never lead to this. -/

namespace TigerMips

inductive Failure where
  | unresolvedConstant (label : Label)
  | unknownRuntime (name : String)
  | missingArgument (name : String) (index : Nat)
  | undefinedLabel (label : Label)
  | invalidDestination (constant : Const)
  | missingFrame (frame : FrameId)
  deriving DecidableEq, Repr

def Const.describe : Const → String
  | int value => "Const(Int(" ++ toString value ++ "))"
  | wordLength => "Const(WordLength)"
  | string label => "Const(String(Label(" ++ toString label.number ++ ")))"

def Failure.message : Failure → String
  | unresolvedConstant label =>
    "unresolved symbolic constant &" ++ label.text ++ " used where a concrete value is required"
  | unknownRuntime name => "unknown extern call \"" ++ name ++ "\""
  | missingArgument name index =>
    "extern call \"" ++ name ++ "\" has no argument " ++ toString index
  | undefinedLabel label => "label " ++ label.text ++ " is referenced but never defined"
  | invalidDestination constant =>
    "invalid destination " ++ constant.describe ++ " for a three-address operation"
  | missingFrame frame => "frame " ++ toString frame.position ++ " does not exist"

end TigerMips
