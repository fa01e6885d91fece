import TigerMips.Analysis.Control

namespace TigerMips.Analysis

def noteCall (callee : FunctionId) : Analysis Unit :=
  modify fun state =>
    match state.enclosing with
    | id :: _ =>
      (state.visit callee).onFunction id (·.addInvocation { callee, locals := state.values.locals })
    | [] => state.visit callee

def noteEdge (entry : Option Entry) : Analysis Unit :=
  modify fun state =>
    match entry with
    | some entry =>
      { state with callGraph := state.callGraph.addEdge state.currentFrame entry.frame }
    | none => state

def callOperation (name : String) (entry : Option Entry) (destination : Option Temp)
    (actuals : List Access) : Analysis Tac := do
  match entry with
  | some entry => return .call (destination.map .temp) entry.label actuals
  | none =>
    useRuntime name
    return .callRuntime (destination.map .temp) name actuals

def callCode (name : String) (signature : Signature) (code : List Code) (actuals : List Access) :
    Analysis Lowered := do
  if ← hasError then return { ty := signature.result }
  else
    let destination ← resultTemp signature.result
    let operation ← callOperation name signature.entry destination actuals
    return {
      code := code ++ [.op (← currentFrame) operation]
      ty := signature.result
      place := destination.map .temp }

def callOf (span : Span) (function : Ident) (id : FunctionId) (signature : Signature)
    (given : Nat) (arguments : List Param → Analysis (List Code × List Access)) :
    Analysis Lowered := do
  let (code, actuals) ← arguments signature.params
  reportIf (signature.params.length ≠ given)
    (.argumentCount function.name signature.params.length given) span
  noteCall id
  noteEdge signature.entry
  callCode function.name signature code actuals

def call (span : Span) (function : Ident) (given : Nat)
    (arguments : List Param → Analysis (List Code × List Access)) : Analysis Lowered := do
  match ← value? function.name with
  | none =>
    report (.undefinedFunction function.name) function.span
    return { ty := .void }
  | some (.var _) =>
    report (.notFunction function.name) function.span
    return { ty := .void }
  | some (.function id signature) => callOf span function id signature given arguments

end TigerMips.Analysis
