import TigerMips.Arena

/-! Types. Arrays and records have an identity of their own; a declared name stands for the type
that it is bound to once its group of declarations has been read. -/

namespace TigerMips

inductive Ty where
  | int
  | string
  | void
  | nil
  | array (identity : Nat) (element : Ty)
  | record (identity : Nat) (fields : List (String × Ty))
  | name (id : TypeNameId) (text : String)
  deriving Repr

namespace Ty

mutual

def text : Ty → String
  | int => "int"
  | string => "string"
  | void => "void"
  | nil => "nil"
  | array _ element => "array of " ++ element.text
  | record _ fields => "\x7b" ++ String.intercalate ", " (fieldTexts fields) ++ "\x7d"
  | name _ text => text

def fieldTexts : List (String × Ty) → List String
  | [] => []
  | (field, ty) :: rest => (field ++ ": " ++ ty.text) :: fieldTexts rest

end

def field? (fields : List (String × Ty)) (name : String) : Option (Nat × Ty) :=
  (fields.zipIdx.find? (·.1.1 = name)).map fun found => (found.2, found.1.2)

end Ty

structure TypeTable where
  bindings : Arena .typeName (Option Ty) := {}
  identities : Nat := 0
  deriving Repr

namespace TypeTable

def newIdentity : StateM TypeTable Nat :=
  modifyGet fun table => (table.identities, { table with identities := table.identities + 1 })

def newArray (element : Ty) : StateM TypeTable Ty :=
  return .array (← newIdentity) element

def newRecord (fields : List (String × Ty)) : StateM TypeTable Ty :=
  return .record (← newIdentity) fields

def newName : StateM TypeTable TypeNameId :=
  modifyGet fun table =>
    (table.bindings.next, { table with bindings := table.bindings.push none })

def bind (table : TypeTable) (id : TypeNameId) (ty : Ty) : TypeTable :=
  { table with bindings := table.bindings.set id (some ty) }

def binding? (table : TypeTable) (id : TypeNameId) : Option Ty :=
  (table.bindings.get? id).join

def maxChain : Nat := 1024

def follow (table : TypeTable) : Nat → Ty → Ty
  | steps + 1, .name id text =>
    match table.binding? id with
    | some ty => follow table steps ty
    | none => .name id text
  | _, ty => ty

def actual (table : TypeTable) (ty : Ty) : Ty := table.follow maxChain ty

/-- Whether the bindings lead from a type to the name `goal`, within `steps` names. -/
def leadsTo (table : TypeTable) (goal : TypeNameId) : Nat → Option Ty → Bool
  | steps + 1, some (.name id _) => id = goal || leadsTo table goal steps (table.binding? id)
  | _, _ => false

def isCycle (table : TypeTable) (id : TypeNameId) : Bool :=
  table.leadsTo id (maxChain + 1) (table.binding? id)

def fits (table : TypeTable) (given needed : Ty) : Bool :=
  match table.actual given, table.actual needed with
  | .int, .int => true
  | .string, .string => true
  | .void, .void => true
  | .nil, .nil => true
  | .nil, .record _ _ => true
  | .nil, .array _ _ => true
  | .array a _, .array b _ => a = b
  | .record a _, .record b _ => a = b
  | .name a _, .name b _ => a = b
  | _, _ => false

def isInt (table : TypeTable) (ty : Ty) : Bool :=
  match table.actual ty with
  | .int => true
  | _ => false

def isString (table : TypeTable) (ty : Ty) : Bool :=
  match table.actual ty with
  | .string => true
  | _ => false

def isVoid (table : TypeTable) (ty : Ty) : Bool :=
  match table.actual ty with
  | .void => true
  | _ => false

def isNil (table : TypeTable) (ty : Ty) : Bool :=
  match table.actual ty with
  | .nil => true
  | _ => false

def isReference (table : TypeTable) (ty : Ty) : Bool :=
  match table.actual ty with
  | .array _ _ => true
  | .record _ _ => true
  | _ => false

end TypeTable

end TigerMips
