import TigerMips.Operator
import TigerMips.Source
import TigerMips.Word

/-! Abstract syntax of programs. Adjacent declarations of types, and of functions, form groups
whose members see each other. -/

namespace TigerMips

structure Ident where
  name : String
  span : Span := {}
  deriving DecidableEq, Repr

inductive TypeExpr where
  | name (name : Ident)
  | array (element : Ident)
  | record (fields : List (Ident × Ident))
  deriving DecidableEq, Repr

structure TypeDecl where
  name : Ident
  ty : TypeExpr
  deriving DecidableEq, Repr

mutual

inductive Expr where
  | int (span : Span) (value : Word)
  | string (span : Span) (text : String)
  | nil (span : Span)
  | breakLoop (span : Span)
  | lvalue (span : Span) (lvalue : LValue)
  | assign (span : Span) (target : LValue) (value : Expr)
  | operation (span : Span) (operator : Operator) (operatorSpan : Span) (lhs rhs : Expr)
  | negate (span : Span) (operand : Expr)
  | call (span : Span) (function : Ident) (arguments : List Expr)
  | sequence (span : Span) (expressions : List Expr)
  | ifThen (span : Span) (condition positive : Expr)
  | ifThenElse (span : Span) (condition positive negative : Expr)
  | whileLoop (span : Span) (condition body : Expr)
  | forLoop (span : Span) (counter : Ident) (first last body : Expr)
  | letIn (span : Span) (groups : List Group) (body : List Expr)
  | array (span : Span) (ty : Ident) (size init : Expr)
  | record (span : Span) (ty : Ident) (fields : List (Ident × Expr))

inductive LValue where
  | var (span : Span) (name : Ident)
  | field (span : Span) (base : LValue) (name : Ident)
  | subscript (span : Span) (base : LValue) (index : Expr)

inductive Group where
  | var (name : Ident) (ty : Option Ident) (value : Expr)
  | types (members : List TypeDecl)
  | functions (members : List FunctionDecl)

inductive FunctionDecl where
  | mk (name : Ident) (params : List (Ident × Ident)) (result : Option Ident) (body : Expr)

end

namespace Expr

def span : Expr → Span
  | int span _ | string span _ | nil span | breakLoop span | lvalue span _ | assign span _ _
  | operation span _ _ _ _ | negate span _ | call span _ _ | sequence span _ | ifThen span _ _
  | ifThenElse span _ _ _ | whileLoop span _ _ | forLoop span _ _ _ _ | letIn span _ _
  | array span _ _ _ | record span _ _ => span

end Expr

def LValue.span : LValue → Span
  | var span _ | field span _ _ | subscript span _ _ => span

namespace FunctionDecl

def name : FunctionDecl → Ident
  | mk name _ _ _ => name

def params : FunctionDecl → List (Ident × Ident)
  | mk _ params _ _ => params

def result : FunctionDecl → Option Ident
  | mk _ _ result _ => result

def body : FunctionDecl → Expr
  | mk _ _ _ body => body

end FunctionDecl

inductive Declaration where
  | var (name : Ident) (ty : Option Ident) (value : Expr)
  | type (decl : TypeDecl)
  | function (decl : FunctionDecl)

def Group.ofDeclarations : List Declaration → List Group
  | [] => []
  | .var name ty value :: rest => .var name ty value :: ofDeclarations rest
  | .type decl :: rest =>
    match ofDeclarations rest with
    | .types members :: groups => .types (decl :: members) :: groups
    | groups => .types [decl] :: groups
  | .function decl :: rest =>
    match ofDeclarations rest with
    | .functions members :: groups => .functions (decl :: members) :: groups
    | groups => .functions [decl] :: groups

end TigerMips
