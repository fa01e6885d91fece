import TigerMips.Analysis.State
import TigerMips.Ast

namespace TigerMips.Analysis

def arrayType? (name : Ident) : Analysis (Option (Ty × Ty)) := do
  match ← type? name.name with
  | none =>
    report (.undefinedArrayType name.name) name.span
    return none
  | some found =>
    match ← actual found with
    | .array _ element => return some (found, element)
    | _ =>
      report (.notArrayType found) name.span
      return none

def arrayCode (frame : FrameId) (bytes array index : Temp) (head exit : Label)
    (count value : Access) : List Code :=
  [.op frame (.binary .mul (.temp bytes) count .word),
    .op frame (.callRuntime (some (.temp array)) Runtime.malloc.name [.temp bytes]),
    .op frame (.move (.temp index) (.int 0)),
    .labeled head frame (.branch .geq (.temp index) (.temp bytes) exit),
    .op frame (.move (.memory (.temp array) (.temp index)) value),
    .op frame (.binary .add (.temp index) (.temp index) .word),
    .op frame (.goto head),
    .label exit]

def arrayOf (size init : Lowered) (ty : Ty) (count value : Access) : Analysis Lowered := do
  let bytes ← newTemp
  let array ← newTemp
  let index ← newTemp
  useRuntime Runtime.malloc.name
  let head ← newLabel
  let exit ← newLabel
  let frame ← currentFrame
  return {
    code := size.code ++ init.code ++ arrayCode frame bytes array index head exit count value
    ty
    place := some (.temp array) }

def arrayCreation (name : Ident) (size init : Part) : Analysis Lowered := do
  let found ← arrayType? name
  let count ← size.lower
  checkType .int count.ty size.span
  let value ← init.lower
  match found with
  | none => return { ty := ← onTypes (TypeTable.newArray .int) }
  | some (ty, element) =>
    checkType element value.ty init.span
    if ← hasError then return { ty }
    else
      match count.place, value.place with
      | some countPlace, some valuePlace => arrayOf count value ty countPlace valuePlace
      | _, _ => return { ty }

def recordType? (name : Ident) : Analysis (Option (Ty × List (String × Ty))) := do
  match ← type? name.name with
  | none =>
    report (.undefinedRecordType name.name) name.span
    return none
  | some found =>
    match ← actual found with
    | .record _ fields => return some (found, fields)
    | _ =>
      report (.notRecordType found) name.span
      return none

def fieldStride : Word := 4

def initField (target : Temp) (index : Nat) (expected : String) (ty : Ty) (name : Ident)
    (value : Part) : Analysis (List Code) := do
  reportIf (expected ≠ name.name) (.fieldName expected name.name) name.span
  let init ← value.lower
  checkType ty init.ty value.span
  if ← hasError then return []
  else
    match init.place with
    | none => return []
    | some place =>
      let offset := Access.int (fieldStride * Int32.ofNat index)
      return init.code ++
        [.op (← currentFrame) (.move (.memory (.temp target) offset) place)]

def allocateRecord (target : Temp) (count : Nat) : Analysis (List Code) := do
  if ← hasError then return []
  else
    let bytes ← newTemp
    useRuntime Runtime.malloc.name
    let frame ← currentFrame
    return [.op frame (.binary .mul (.temp bytes) (.int (Int32.ofNat count)) .word),
      .op frame (.callRuntime (some (.temp target)) Runtime.malloc.name [.temp bytes])]

def recordCreation (span : Span) (name : Ident) (given : Nat)
    (init : Temp → List (String × Ty) → Analysis (List Code)) (check : Analysis Unit) :
    Analysis Lowered := do
  match ← recordType? name with
  | none =>
    check
    return { ty := ← onTypes (TypeTable.newRecord []) }
  | some (ty, fields) =>
    let target ← newTemp
    let allocation ← allocateRecord target fields.length
    let stores ← init target fields
    reportIf (fields.length ≠ given) (.fieldCount ty fields.length given) span
    if ← hasError then return { ty }
    else return { code := allocation ++ stores, ty, place := some (.temp target) }

end TigerMips.Analysis
