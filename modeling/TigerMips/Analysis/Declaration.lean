import TigerMips.Analysis.Control

namespace TigerMips.Analysis

def typeOf (name : Ident) : Analysis Ty := do
  match ← type? name.name with
  | some ty => return ty
  | none =>
    report (.undefinedType name.name) name.span
    return .int

def variableType (name : Ident) (declared : Option Ident) (given : Ty) (span : Span) :
    Analysis Ty := do
  match declared with
  | some declared =>
    match ← type? declared.name with
    | some declared =>
      checkType declared given span
      return declared
    | none =>
      report (.undefinedType declared.name) declared.span
      return .int
  | none =>
    if (← isNil given) || (← isVoid given) then
      report (.invalidInitializer given name.name) span
      return .int
    else return given

def variableDeclaration (name : Ident) (declared : Option Ident) (value : Part) :
    Analysis (List Code) := do
  let init ← value.lower
  let ty ← variableType name declared init.ty value.span
  let place ← newTemp
  putValue name.name (.var { ty, place, assignable := true })
  if ← hasError then return []
  else
    match init.place with
    | none => return []
    | some source => return init.code ++ [.op (← currentFrame) (.move (.temp place) source)]

def typedNames : List (Ident × Ident) → Analysis (List (String × Ty))
  | [] => return []
  | (name, ty) :: rest => do
    let ty ← typeOf ty
    return (name.name, ty) :: (← typedNames rest)

def typeExpression : TypeExpr → Analysis Ty
  | .name name => typeOf name
  | .array element => do onTypes (TypeTable.newArray (← typeOf element))
  | .record fields => do onTypes (TypeTable.newRecord (← typedNames fields))

def enterTypes (seen : List String) : List TypeDecl →
    Analysis (List (TypeDecl × Option TypeNameId))
  | [] => return []
  | decl :: rest => do
    if decl.name.name ∈ seen then
      report (.alreadyDefined decl.name.name) decl.name.span
      return (decl, none) :: (← enterTypes seen rest)
    else
      let id ← onTypes TypeTable.newName
      putType decl.name.name (.name id decl.name.name)
      return (decl, some id) :: (← enterTypes (decl.name.name :: seen) rest)

def bindType (id : TypeNameId) (ty : Ty) : Analysis Unit :=
  modify fun state => { state with typeTable := state.typeTable.bind id ty }

def bindTypes : List (TypeDecl × Option TypeNameId) → Analysis Unit
  | [] => return ()
  | (decl, some id) :: rest => do
    bindType id (← typeExpression decl.ty)
    bindTypes rest
  | (decl, none) :: rest => do
    let _ ← typeExpression decl.ty
    bindTypes rest

def breakCycle (name : Ident) (id : TypeNameId) : Analysis Unit := do
  if (← get).typeTable.isCycle id then
    report (.typeLoop name.name) name.span
    bindType id .int

def breakCycles : List (TypeDecl × Option TypeNameId) → Analysis Unit
  | [] => return ()
  | (decl, some id) :: rest => do
    breakCycle decl.name id
    breakCycles rest
  | (_, none) :: rest => breakCycles rest

def typeGroup (members : List TypeDecl) : Analysis Unit := do
  let entered ← enterTypes [] members
  bindTypes entered
  breakCycles entered

structure Declared where
  id : FunctionId
  params : List Param
  result : Ty
  entry : Entry

def resultType : Option Ident → Analysis Ty
  | some name => typeOf name
  | none => return .void

def newFrame (name : String) (label : Label) (params : Nat) (hasResult : Bool) :
    Analysis Frame := do
  let parent ← currentFrame
  draw do
    let frame ← Frame.create name (some label) (some parent)
    let frame ← Frame.newParams params frame
    if hasResult then
      let (result, frame) ← frame.newLocal
      return { frame with returnValue := some result }
    else return frame

def addFrame (frame : Frame) : Analysis FrameId :=
  modifyGet fun state =>
    (state.frames.next, { state with frames := state.frames.push frame })

def addFunction (function : Function) : Analysis FunctionId :=
  modifyGet fun state =>
    (state.functions.next, { state with functions := state.functions.push function })

def declareFunction (decl : FunctionDecl) : Analysis Declared := do
  let result ← resultType decl.result
  let params := (← typedNames decl.params).map fun param => ⟨param.1, param.2⟩
  let label ← newLabel
  let frame ← newFrame decl.name.name label params.length (!(← isVoid result))
  let entry := {
    label, frame := ← addFrame frame, formals := frame.params, resultPlace := frame.returnValue }
  let id ← addFunction
    { name := decl.name.name, signature := { params, result, entry := some entry } }
  return { id, params, result, entry }

def enterName (seen : List String) (name : Ident) (declared : Declared) : Analysis Unit :=
  if name.name ∈ seen then report (.alreadyDefined name.name) name.span
  else
    putValue name.name (.function declared.id
      { params := declared.params, result := declared.result, entry := some declared.entry })

def declareFunctions (seen : List String) : List FunctionDecl → Analysis (List Declared)
  | [] => return []
  | decl :: rest => do
    let declared ← declareFunction decl
    enterName seen decl.name declared
    return declared :: (← declareFunctions (decl.name.name :: seen) rest)

def enterFunction (declared : Declared) : Analysis Unit :=
  modify fun state => { state with
    values := (declared.params.zip declared.entry.formals).foldl
      (fun values (param, place) =>
        values.put param.name (.var { ty := param.ty, place, assignable := true }))
      state.values.openFunction
    currentFrame := declared.entry.frame
    enclosing := declared.id :: state.enclosing
    exits := none :: state.exits
    stray := state.stray || !state.functions.has declared.id }

def leaveFunction (outer : FrameId) : Analysis Unit :=
  modify fun state => { state with
    values := state.values.close
    currentFrame := outer
    enclosing := state.enclosing.tail
    exits := state.exits.tail
    overclosed := state.overclosed || state.values.inner.isEmpty }

def inFunction (declared : Declared) (body : Analysis Lowered) : Analysis Lowered := do
  let outer ← currentFrame
  enterFunction declared
  let inside ← body
  leaveFunction outer
  return inside

def functionBody (declared : Declared) (body : Part) : Analysis (List Code) := do
  let inside ← inFunction declared body.lower
  checkType declared.result inside.ty body.span
  if ← hasError then return []
  else
    let entry := declared.entry
    return .label entry.label :: inside.code ++
      moveInto entry.frame entry.resultPlace inside.place ++ [.op entry.frame .ret]

def closeForeigns (group : List FunctionId) : Analysis Unit :=
  modify fun state => { state with
    functions := (state.functions.closeForeigns group).1
    groups := state.groups ++ [⟨group, state.enclosing⟩]
    stray := state.stray || group.any (!state.functions.has ·) }

/-- A group of functions, which the code around it jumps over. All are declared before the first
body is lowered. -/
def functionGroup (members : List FunctionDecl)
    (bodies : List Declared → Analysis (List Code)) : Analysis (List Code) := do
  let declared ← declareFunctions [] members
  let code ← bodies declared
  closeForeigns (declared.map Declared.id)
  if ← hasError then return []
  else
    let exit ← newLabel
    return .op (← currentFrame) (.goto exit) :: code ++ [.label exit]

end TigerMips.Analysis
