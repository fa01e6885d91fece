import TigerMips.Analysis.Aggregate
import TigerMips.Analysis.Call
import TigerMips.Analysis.Declaration
import TigerMips.Analysis.Operation
import TigerMips.Analysis.Place

/-! Analysis of whole programs: types are checked and code is made in one walk. -/

namespace TigerMips.Analysis

def letIn (declarations : Analysis (List Code)) (body : Analysis Lowered) : Analysis Lowered := do
  openValues
  openTypes
  let before ← declarations
  let inside ← body
  closeValues
  closeTypes
  return { inside with code := before ++ inside.code }

mutual

def lowerExpr : Expr → Analysis Lowered
  | .int _ value => return { ty := .int, place := some (.int value) }
  | .string _ text => return { ty := .string, place := some (.const (← internString text)) }
  | .nil _ => return { ty := .nil, place := some (.int 0) }
  | .breakLoop span => breakLoop span
  | .lvalue _ lvalue => lowerLValue false lvalue
  | .assign span target value => assignment span (lowerLValue true target) (lowerExpr value)
  | .operation span operator operatorSpan lhs rhs =>
    operation span operator operatorSpan ⟨lhs.span, lowerExpr lhs⟩ ⟨rhs.span, lowerExpr rhs⟩
  | .negate _ operand => negation ⟨operand.span, lowerExpr operand⟩
  | .call span function arguments =>
    call span function arguments.length fun params => lowerArguments params arguments
  | .sequence _ expressions => lowerSequence expressions
  | .ifThen _ condition positive =>
    ifThen ⟨condition.span, lowerExpr condition⟩ ⟨positive.span, lowerExpr positive⟩
  | .ifThenElse _ condition positive negative =>
    ifThenElse ⟨condition.span, lowerExpr condition⟩ ⟨positive.span, lowerExpr positive⟩
      ⟨negative.span, lowerExpr negative⟩
  | .whileLoop _ condition body =>
    whileLoop ⟨condition.span, lowerExpr condition⟩ ⟨body.span, lowerExpr body⟩
  | .forLoop _ counter first last body =>
    forLoop counter ⟨first.span, lowerExpr first⟩ ⟨last.span, lowerExpr last⟩
      ⟨body.span, lowerExpr body⟩
  | .letIn _ groups body => letIn (lowerGroups groups) (lowerSequence body)
  | .array _ ty size init =>
    arrayCreation ty ⟨size.span, lowerExpr size⟩ ⟨init.span, lowerExpr init⟩
  | .record span ty fields =>
    recordCreation span ty fields.length (fun target declared => lowerFields target 0 declared fields)
      (checkFields fields)

def lowerSequence : List Expr → Analysis Lowered
  | [] => return { ty := .void }
  | [expression] => lowerExpr expression
  | expression :: rest => do
    let first ← lowerExpr expression
    let others ← lowerSequence rest
    return { others with code := first.code ++ others.code }

def lowerArguments : List Param → List Expr → Analysis (List Code × List Access)
  | _, [] => return ([], [])
  | [], argument :: rest => do
    let _ ← lowerExpr argument
    lowerArguments [] rest
  | param :: params, argument :: rest => do
    let value ← lowerExpr argument
    checkType param.ty value.ty argument.span
    let (code, places) ← lowerArguments params rest
    return (value.code ++ code, value.place.toList ++ places)

def lowerFields (target : Temp) (index : Nat) (declared : List (String × Ty)) :
    List (Ident × Expr) → Analysis (List Code)
  | [] => return []
  | (name, value) :: rest => do
    match declared with
    | [] =>
      let _ ← lowerExpr value
      checkFields rest
      return []
    | (expected, ty) :: declared =>
      let code ← initField target index expected ty name ⟨value.span, lowerExpr value⟩
      let codes ← lowerFields target (index + 1) declared rest
      return code ++ codes

def checkFields : List (Ident × Expr) → Analysis Unit
  | [] => return ()
  | (_, value) :: rest => do
    let _ ← lowerExpr value
    checkFields rest

def lowerLValue (assigning : Bool) : LValue → Analysis Lowered
  | .var _ name => variablePlace assigning name
  | .field _ base name => fieldPlace (lowerLValue assigning base) name
  | .subscript span base index =>
    elementPlace span (lowerLValue assigning base) ⟨index.span, lowerExpr index⟩

def lowerGroups : List Group → Analysis (List Code)
  | [] => return []
  | group :: rest => do
    let code ← lowerGroup group
    let codes ← lowerGroups rest
    return code ++ codes

def lowerGroup : Group → Analysis (List Code)
  | .var name ty value => variableDeclaration name ty ⟨value.span, lowerExpr value⟩
  | .types members => do
    typeGroup members
    return []
  | .functions members => functionGroup members fun declared => lowerBodies members declared

def lowerBodies : List FunctionDecl → List Declared → Analysis (List Code)
  | .mk _ _ _ body :: rest, declared :: others => do
    let code ← functionBody declared ⟨body.span, lowerExpr body⟩
    let codes ← lowerBodies rest others
    return code ++ codes
  | _, _ => return []

end

end TigerMips.Analysis

namespace TigerMips

def Runtime.table : Function.Table :=
  ⟨Runtime.visible.map fun function => { name := function.name, signature := function.signature }⟩

namespace Analyzer

def initial : Analyzer where
  values :=
    { global := { bindings := Runtime.table.entries.map fun (id, function) =>
        (function.name, .function id function.signature) } }
  types := { global := { bindings := [("int", .int), ("string", .string)] } }
  functions := Runtime.table
  exits := [none]
  frames := ⟨[{ name := "main", entry := none, parent := none, display := ⟨0⟩ }]⟩
  mainFrame := ⟨0⟩
  currentFrame := ⟨0⟩
  supply := { temps := 1 }

def program (state : Analyzer) (code : List Code) : Tac.Program where
  codes := if state.errors.isEmpty then code else []
  strings := state.strings
  runtime := state.runtime
  frames := state.frames
  mainFrame := state.mainFrame
  functions := state.functions
  callGraph := state.callGraph
  supply := state.supply

end Analyzer

def analyze (expression : Expr) : List (Fault × Span) × Tac.Program :=
  let result := Analysis.lowerExpr expression Analyzer.initial
  (result.2.errors, result.2.program result.1.code)

end TigerMips
