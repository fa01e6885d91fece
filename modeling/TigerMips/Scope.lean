/-! Nested scopes of names. Function bodies open a scope that marks what lies outside of them. -/

namespace TigerMips

structure Scope (α : Type) where
  bindings : List (String × α) := []
  isFunction : Bool := false
  deriving Repr

namespace Scope

variable {α : Type}

def get? (scope : Scope α) (name : String) : Option α := scope.bindings.lookup name

def put (scope : Scope α) (name : String) (entry : α) : Scope α :=
  { scope with bindings := (name, entry) :: scope.bindings.filter (·.1 ≠ name) }

def binds (scope : Scope α) (name : String) : Bool := (scope.get? name).isSome

def names (scope : Scope α) : List String := scope.bindings.map Prod.fst

end Scope

structure ScopeStack (α : Type) where
  inner : List (Scope α) := []
  global : Scope α := {}
  deriving Repr

namespace ScopeStack

variable {α : Type}

def scopes (stack : ScopeStack α) : List (Scope α) := stack.inner ++ [stack.global]

def openScope (stack : ScopeStack α) : ScopeStack α :=
  { stack with inner := {} :: stack.inner }

def openFunction (stack : ScopeStack α) : ScopeStack α :=
  { stack with inner := { isFunction := true } :: stack.inner }

def close? (stack : ScopeStack α) : Option (ScopeStack α) :=
  match stack.inner with
  | [] => none
  | _ :: rest => some { stack with inner := rest }

def close (stack : ScopeStack α) : ScopeStack α :=
  { stack with inner := stack.inner.tail }

def put (stack : ScopeStack α) (name : String) (entry : α) : ScopeStack α :=
  match stack.inner with
  | [] => { stack with global := stack.global.put name entry }
  | scope :: rest => { stack with inner := scope.put name entry :: rest }

def get? (stack : ScopeStack α) (name : String) : Option α :=
  stack.scopes.findSome? (·.get? name)

def depth? (stack : ScopeStack α) (name : String) : Option Nat :=
  stack.scopes.findIdx? (·.binds name)

def functionDepth? (stack : ScopeStack α) : Option Nat :=
  stack.scopes.findIdx? (·.isFunction)

def isForeign (stack : ScopeStack α) (name : String) : Bool :=
  match stack.depth? name, stack.functionDepth? with
  | some depth, some function => function < depth
  | _, _ => false

def localScopes (stack : ScopeStack α) : List (Scope α) :=
  match stack.functionDepth? with
  | some function => stack.scopes.take (function + 1)
  | none => stack.scopes

def locals (stack : ScopeStack α) : List String :=
  (stack.localScopes.flatMap Scope.names).eraseDups

end ScopeStack

end TigerMips
