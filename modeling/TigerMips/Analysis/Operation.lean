import TigerMips.Analysis.State
import TigerMips.Ast

namespace TigerMips.Analysis

def negation (operand : Part) : Analysis Lowered := do
  let value ← operand.lower
  checkType .int value.ty operand.span
  let result ← newTemp
  if ← hasError then return { ty := .int }
  else
    match value.place with
    | none => return { ty := .int }
    | some place =>
      let frame ← currentFrame
      return {
        code := value.code ++ [.op frame (.negate (.temp result) place)]
        ty := .int
        place := some (.temp result) }

inductive Operands where
  | words
  | strings
  | invalid
  deriving DecidableEq, Repr

def checkOperands (span : Span) (operator : Operator) (operatorSpan : Span) (left right : Ty)
    (leftSpan rightSpan : Span) : Analysis Operands := do
  let table := (← get).typeTable
  if table.isInt (table.actual left) || table.isInt (table.actual right) then
    checkType .int left leftSpan
    checkType .int right rightSpan
    return .words
  else if table.isString (table.actual left) || table.isString (table.actual right) then
    if operator.classOf = .equality || operator.classOf = .comparison then
      checkType .string left leftSpan
      checkType .string right rightSpan
      return .strings
    else
      report (.stringOperation operator) operatorSpan
      return .invalid
  else if operator.classOf = .equality &&
      (table.isReference (table.actual left) || table.isReference (table.actual right)) then
    if table.fits left right || table.fits right left then return .words
    else
      report (.comparison left right) span
      return .words
  else
    report (.comparison left right) span
    return .invalid

def decidingCode (frame : FrameId) (conjunction : Bool) (decided exit : Label) (result : Temp)
    (leftCode : List Code) (left : Access) (rightCode : List Code) (right : Access) :
    List Code :=
  let relation := if conjunction then Relation.eq else Relation.neq
  leftCode ++ .op frame (.branch relation left (.int 0) decided) ::
    rightCode ++
    [.op frame (.branch relation right (.int 0) decided),
      .op frame (.move (.temp result) (.int (if conjunction then 1 else 0))),
      .op frame (.goto exit),
      .labeled decided frame (.move (.temp result) (.int (if conjunction then 0 else 1))),
      .label exit]

def deciding (conjunction : Bool) (result : Temp) (left right : Lowered) (lhs rhs : Access) :
    Analysis (List Code) := do
  let decided ← newLabel
  let exit ← newLabel
  return decidingCode (← currentFrame) conjunction decided exit result left.code lhs right.code
    rhs

def stringComparison (operator : BinaryOp) (result : Temp) (left right : Lowered)
    (lhs rhs : Access) : Analysis (List Code) := do
  let order ← newTemp
  useRuntime Runtime.strcmp.name
  let frame ← currentFrame
  return left.code ++ right.code ++
    [.op frame (.callRuntime (some (.temp order)) Runtime.strcmp.name [lhs, rhs]),
      .op frame (.binary operator (.temp result) (.temp order) (.int 0))]

def operationCode (operator : Operator) (operands : Operands) (result : Temp)
    (left right : Lowered) (lhs rhs : Access) : Analysis (List Code) := do
  match operator with
  | .and => deciding true result left right lhs rhs
  | .or => deciding false result left right lhs rhs
  | .strict operator =>
    if operands = .strings then stringComparison operator result left right lhs rhs
    else
      return left.code ++ right.code ++
        [.op (← currentFrame) (.binary operator (.temp result) lhs rhs)]

def operation (span : Span) (operator : Operator) (operatorSpan : Span) (lhs rhs : Part) :
    Analysis Lowered := do
  let left ← lhs.lower
  let right ← rhs.lower
  let operands ← checkOperands span operator operatorSpan left.ty right.ty lhs.span rhs.span
  let result ← newTemp
  if ← hasError then return { ty := .int }
  else if operands = .invalid then return { ty := .int }
  else
    match left.place, right.place with
    | some leftPlace, some rightPlace =>
      let code ← operationCode operator operands result left right leftPlace rightPlace
      return { code, ty := .int, place := some (.temp result) }
    | _, _ => return { ty := .int }

end TigerMips.Analysis
