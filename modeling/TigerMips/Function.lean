import TigerMips.Fixpoint
import TigerMips.Supply
import TigerMips.Ty

/-! Functions of a program, and the outer variables that they reach through calls. -/

namespace TigerMips

structure Param where
  name : String
  ty : Ty
  deriving Repr

structure Invocation where
  callee : FunctionId
  locals : List String
  deriving DecidableEq, Repr

structure Entry where
  label : Label
  frame : FrameId
  formals : List Temp
  resultPlace : Option Temp
  deriving DecidableEq, Repr

structure Signature where
  params : List Param := []
  result : Ty := .void
  entry : Option Entry := none
  deriving Repr

structure Function where
  name : String
  signature : Signature := {}
  invocations : List Invocation := []
  foreigns : List String := []
  deriving Repr

structure FunctionGroup where
  members : List FunctionId
  around : List FunctionId
  deriving DecidableEq, Repr

namespace Function

def isRuntime (function : Function) : Bool := function.signature.entry.isNone

def addInvocation (function : Function) (invocation : Invocation) : Function :=
  { function with invocations := function.invocations ++ [invocation] }

def addForeign (function : Function) (name : String) : Function :=
  { function with foreigns := function.foreigns.insert name }

abbrev Table := Arena .function Function

def Table.inherited (functions : Table) (invocation : Invocation) : List String :=
  match functions.get? invocation.callee with
  | some callee => callee.foreigns.filter (· ∉ invocation.locals)
  | none => []

def Table.extended (functions : Table) (caller : Function) : List String :=
  (caller.invocations.flatMap functions.inherited).foldr List.insert caller.foreigns

def Table.extend (functions : Table) (id : FunctionId) : Table × Bool :=
  match functions.get? id with
  | some caller =>
    (functions.set id { caller with foreigns := functions.extended caller },
      (functions.extended caller).length ≠ caller.foreigns.length)
  | none => (functions, false)

def Table.sweep (group : List FunctionId) (functions : Table) : Table × Bool :=
  group.foldl
    (fun state id => ((state.1.extend id).1, state.2 || (state.1.extend id).2))
    (functions, false)

def Table.room (functions : Table) : Nat :=
  functions.size * (functions.items.flatMap Function.foreigns).length

/-- Passes foreign names from callees to the callers in `group` until nothing changes, and counts
the sweeps. -/
def Table.closeForeigns (functions : Table) (group : List FunctionId) : Table × Nat :=
  sweepUntilStable (Table.sweep group) (functions.room + 1) functions

def Table.closeForeigns? (functions : Table) (group : List FunctionId) : Option (Table × Nat) :=
  if group.all fun id => (functions.get? id).isSome then some (functions.closeForeigns group)
  else none

end Function

end TigerMips
