import TigerMips.Analysis.State
import TigerMips.Ast

namespace TigerMips.Analysis

def breakLoop (span : Span) : Analysis Lowered := do
  match (← get).exits with
  | some exit :: _ => return { code := [.op (← currentFrame) (.goto exit)], ty := .void }
  | _ =>
    report .invalidBreak span
    return { ty := .void }

def skipUnless (frame : FrameId) (test : Access) (target : Label) : Code :=
  .op frame (.branch .eq test (.int 0) target)

def ifThen (condition positive : Part) : Analysis Lowered := do
  let test ← condition.lower
  checkType .int test.ty condition.span
  let body ← positive.lower
  checkType .void body.ty positive.span
  if ← hasError then return { ty := .void }
  else
    match test.place with
    | none => return { ty := .void }
    | some value =>
      let frame ← currentFrame
      let exit ← newLabel
      return {
        code := test.code ++ skipUnless frame value exit :: body.code ++ [.label exit]
        ty := .void }

def branchType (positive negative : Part) (yes no : Ty) : Analysis Ty := do
  if ← isNil yes then
    checkType no yes positive.span
    return no
  else
    checkType yes no negative.span
    return yes

def moveInto (frame : FrameId) (destination : Option Temp) (value : Option Access) : List Code :=
  match destination, value with
  | some temp, some value => [.op frame (.move (.temp temp) value)]
  | _, _ => []

def resultTemp (ty : Ty) : Analysis (Option Temp) := do
  if ← isVoid ty then return none else return some (← newTemp)

def ifThenElse (condition positive negative : Part) : Analysis Lowered := do
  let test ← condition.lower
  checkType .int test.ty condition.span
  let yes ← positive.lower
  let no ← negative.lower
  let ty ← branchType positive negative yes.ty no.ty
  let result ← resultTemp ty
  if ← hasError then return { ty }
  else
    match test.place with
    | none => return { ty }
    | some value =>
      let frame ← currentFrame
      let otherwise ← newLabel
      let exit ← newLabel
      return {
        code := test.code ++ skipUnless frame value otherwise :: yes.code ++
          moveInto frame result yes.place ++ [.op frame (.goto exit), .label otherwise] ++
          no.code ++ moveInto frame result no.place ++ [.label exit]
        ty
        place := result.map .temp }

def inLoop (exit : Label) (body : Analysis Lowered) : Analysis Lowered := do
  pushExit (some exit)
  let inside ← body
  popExit
  return inside

def whileLoop (condition body : Part) : Analysis Lowered := do
  let head ← newLabel
  let exit ← newLabel
  let test ← condition.lower
  let inside ← inLoop exit body.lower
  checkType .int test.ty condition.span
  checkType .void inside.ty body.span
  if ← hasError then return { ty := .void }
  else
    match test.place with
    | none => return { ty := .void }
    | some value =>
      let frame ← currentFrame
      return {
        code := .label head :: test.code ++ skipUnless frame value exit :: inside.code ++
          [.op frame (.goto head), .label exit]
        ty := .void }

def forBody (counter : Ident) (place : Temp) (exit : Label) (body : Part) : Analysis Lowered := do
  openValues
  putValue counter.name (.var { ty := .int, place, assignable := false })
  let inside ← inLoop exit body.lower
  checkType .void inside.ty body.span
  closeValues
  return inside

/-- The code of a for loop. The bound is read once, before the first iteration. -/
def forCode (frame : FrameId) (head exit : Label) (counter bound : Temp) (first last : Access)
    (body : List Code) : List Code :=
  [.op frame (.move (.temp counter) first),
    .op frame (.move (.temp bound) last),
    .labeled head frame (.branch .gt (.temp counter) (.temp bound) exit)] ++ body ++
  [.op frame (.binary .add (.temp counter) (.temp counter) (.int 1)),
    .op frame (.goto head),
    .label exit]

def forLoop (counter : Ident) (first last body : Part) : Analysis Lowered := do
  let low ← first.lower
  let high ← last.lower
  checkType .int low.ty first.span
  checkType .int high.ty last.span
  let exit ← newLabel
  let place ← newTemp
  let inside ← forBody counter place exit body
  if ← hasError then return { ty := .void }
  else
    match low.place, high.place with
    | some lowest, some highest =>
      let bound ← newTemp
      let head ← newLabel
      let frame ← currentFrame
      return {
        code := low.code ++ high.code ++
          forCode frame head exit place bound lowest highest inside.code
        ty := .void }
    | _, _ => return { ty := .void }

end TigerMips.Analysis
