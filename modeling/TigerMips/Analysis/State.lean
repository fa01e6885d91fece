import TigerMips.Analysis.Fault
import TigerMips.Runtime
import TigerMips.Scope
import TigerMips.Source
import TigerMips.Tac.Program

/-! The state of the analysis of a program, and the small steps on it. -/

namespace TigerMips

structure Variable where
  ty : Ty
  place : Temp
  assignable : Bool
  deriving Repr

inductive Value where
  | var (info : Variable)
  | function (id : FunctionId) (signature : Signature)
  deriving Repr

structure Analyzer where
  errors : List (Fault × Span) := []
  values : ScopeStack Value := {}
  types : ScopeStack Ty := {}
  typeTable : TypeTable := {}
  functions : Function.Table := {}
  enclosing : List FunctionId := []
  /-- The exits of the loops around the current expression, innermost first. A function body
  hides the loops around it. -/
  exits : List (Option Label) := []
  frames : Arena .frame Frame
  mainFrame : FrameId
  currentFrame : FrameId
  callGraph : CallGraph := {}
  groups : List FunctionGroup := []
  strings : StringTable := {}
  runtime : List String := []
  supply : Supply
  stray : Bool := false
  overclosed : Bool := false

namespace Analyzer

def visit (state : Analyzer) (id : FunctionId) : Analyzer :=
  { state with stray := state.stray || !state.functions.has id }

def onFunction (state : Analyzer) (id : FunctionId) (f : Function → Function) : Analyzer :=
  { state.visit id with functions := state.functions.modify id f }

end Analyzer

/-- An expression in three-address code: its code, its type, and where its value is read after
the code. There is no place for void expressions and after errors. -/
structure Lowered where
  code : List Code := []
  ty : Ty
  place : Option Access := none

abbrev Analysis := StateM Analyzer

structure Part where
  span : Span
  lower : Analysis Lowered

namespace Analysis

def report (fault : Fault) (span : Span) : Analysis Unit :=
  modify fun state => { state with errors := state.errors ++ [(fault, span)] }

def reportIf (condition : Bool) (fault : Fault) (span : Span) : Analysis Unit :=
  if condition then report fault span else return ()

def hasError : Analysis Bool := return !(← get).errors.isEmpty

def draw {α : Type} (action : StateM Supply α) : Analysis α :=
  modifyGet fun state =>
    let drawn := action state.supply
    (drawn.1, { state with supply := drawn.2 })

def newLabel : Analysis Label := draw Supply.newLabel

def newTemp : Analysis Temp := do
  let temp ← draw Supply.newTemp
  modify fun state => { state with
    frames := state.frames.modify state.currentFrame (·.addLocal temp)
    stray := state.stray || !state.frames.has state.currentFrame }
  return temp

def onTypes {α : Type} (action : StateM TypeTable α) : Analysis α :=
  modifyGet fun state =>
    let result := action state.typeTable
    (result.1, { state with typeTable := result.2 })

def actual (ty : Ty) : Analysis Ty := return (← get).typeTable.actual ty

def isVoid (ty : Ty) : Analysis Bool := return (← get).typeTable.isVoid ty

def isNil (ty : Ty) : Analysis Bool := return (← get).typeTable.isNil ty

def fits (given needed : Ty) : Analysis Bool := return (← get).typeTable.fits given needed

def type? (name : String) : Analysis (Option Ty) := return (← get).types.get? name

def value? (name : String) : Analysis (Option Value) := return (← get).values.get? name

def currentFrame : Analysis FrameId := return (← get).currentFrame

def checkType (needed given : Ty) (span : Span) : Analysis Unit := do
  if ← fits given needed then return ()
  else report (.typeMismatch needed given) span

def putType (name : String) (ty : Ty) : Analysis Unit :=
  modify fun state => { state with types := state.types.put name ty }

def putValue (name : String) (value : Value) : Analysis Unit :=
  modify fun state => { state with values := state.values.put name value }

def openValues : Analysis Unit :=
  modify fun state => { state with values := state.values.openScope }

def closeValues : Analysis Unit :=
  modify fun state => { state with
    values := state.values.close
    overclosed := state.overclosed || state.values.inner.isEmpty }

def openTypes : Analysis Unit :=
  modify fun state => { state with types := state.types.openScope }

def closeTypes : Analysis Unit :=
  modify fun state => { state with
    types := state.types.close
    overclosed := state.overclosed || state.types.inner.isEmpty }

def pushExit (label : Option Label) : Analysis Unit :=
  modify fun state => { state with exits := label :: state.exits }

def popExit : Analysis Unit :=
  modify fun state => { state with exits := state.exits.tail }

def useRuntime (name : String) : Analysis Unit :=
  modify fun state => { state with runtime := state.runtime.insert name }

def internString (text : String) : Analysis Const :=
  modifyGet fun state =>
    let interned := state.strings.intern text state.supply
    (interned.1.1, { state with strings := interned.1.2, supply := interned.2 })

def toSimple (access : Access) : Analysis (Access × List Code) := do
  if access.isSimple then return (access, [])
  else
    let temp ← newTemp
    return (.temp temp, [.op (← currentFrame) (.move (.temp temp) access)])

end Analysis

end TigerMips
