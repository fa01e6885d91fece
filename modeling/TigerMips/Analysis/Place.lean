import TigerMips.Analysis.State
import TigerMips.Ast

/-! Storage locations: variables, record fields and array elements. -/

namespace TigerMips.Analysis

def noteUse (name : String) : Analysis Unit :=
  modify fun state =>
    match state.enclosing with
    | id :: _ =>
      if state.values.isForeign name then state.onFunction id (·.addForeign name) else state
    | [] => state

def variablePlace (assigning : Bool) (name : Ident) : Analysis Lowered := do
  match ← value? name.name with
  | none =>
    report (.undefinedVariable name.name) name.span
    return { ty := .int }
  | some (.function _ _) =>
    report (.functionAsVariable name.name) name.span
    return { ty := .int }
  | some (.var info) =>
    reportIf (assigning && !info.assignable) (.notAssignable name.name) name.span
    noteUse name.name
    return { ty := info.ty, place := some (.temp info.place) }

def fieldAt (base : Lowered) (index : Nat) (ty : Ty) : Analysis Lowered := do
  if ← hasError then return { ty }
  else
    match base.place with
    | none => return { ty }
    | some place =>
      let frame ← currentFrame
      let offset ← newTemp
      let (place, load) ← toSimple place
      return {
        code := base.code ++
          .op frame (.binary .mul (.temp offset) (.int (Int32.ofNat index)) .word) :: load
        ty
        place := some (.memory place (.temp offset)) }

def fieldPlace (base : Analysis Lowered) (field : Ident) : Analysis Lowered := do
  let base ← base
  match ← actual base.ty with
  | .record _ fields =>
    match Ty.field? fields field.name with
    | some (index, ty) => fieldAt base index ty
    | none =>
      report (.noField base.ty field.name) field.span
      return { ty := .int }
  | _ =>
    report (.notRecord base.ty) field.span
    return { ty := .int }

def elementType (span : Span) (array : Ty) : Analysis Ty := do
  match ← actual array with
  | .array _ element => return element
  | _ =>
    report (.notArray array) span
    return .int

def elementPlace (span : Span) (base : Analysis Lowered) (index : Part) : Analysis Lowered := do
  let base ← base
  let ty ← elementType span base.ty
  let subscript ← index.lower
  checkType .int subscript.ty index.span
  if ← hasError then return { ty }
  else
    match base.place, subscript.place with
    | some place, some position =>
      let frame ← currentFrame
      let (place, load) ← toSimple place
      let offset ← newTemp
      return {
        code := base.code ++ subscript.code ++ load ++
          [.op frame (.binary .mul (.temp offset) position .word)]
        ty
        place := some (.memory place (.temp offset)) }
    | _, _ => return { ty }

def assignment (span : Span) (target value : Analysis Lowered) : Analysis Lowered := do
  let target ← target
  let source ← value
  checkType target.ty source.ty span
  if ← hasError then return { ty := .void }
  else
    match target.place, source.place with
    | some destination, some value =>
      let frame ← currentFrame
      return {
        code := target.code ++ source.code ++ [.op frame (.move destination value)]
        ty := .void }
    | _, _ => return { ty := .void }

end TigerMips.Analysis
