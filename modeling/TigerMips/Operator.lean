namespace TigerMips

inductive Relation where
  | eq | neq | lt | leq | gt | geq
  deriving DecidableEq, Repr

def Relation.all : List Relation := [eq, neq, lt, leq, gt, geq]

inductive BinaryOp where
  | add | sub | mul | div
  | compare (relation : Relation)
  deriving DecidableEq, Repr

def BinaryOp.all : List BinaryOp := [add, sub, mul, div] ++ Relation.all.map compare

inductive Operator where
  | strict (operator : BinaryOp)
  | and
  | or
  deriving DecidableEq, Repr

namespace Operator

inductive Class where
  | arithmetic | logical | equality | comparison
  deriving DecidableEq, Repr

def Class.text : Class → String
  | arithmetic => "Arithmetic"
  | logical => "Logical"
  | equality => "Equality"
  | comparison => "Comparison"

def text : Operator → String
  | strict .add => "+"
  | strict .sub => "-"
  | strict .mul => "*"
  | strict .div => "/"
  | strict (.compare .eq) => "="
  | strict (.compare .neq) => "<>"
  | strict (.compare .lt) => "<"
  | strict (.compare .leq) => "<="
  | strict (.compare .gt) => ">"
  | strict (.compare .geq) => ">="
  | and => "&"
  | or => "|"

def classOf : Operator → Class
  | strict (.compare .eq) | strict (.compare .neq) => .equality
  | strict (.compare _) => .comparison
  | strict _ => .arithmetic
  | and | or => .logical

def all : List Operator := BinaryOp.all.map strict ++ [and, or]

def ofText? (text : String) : Option Operator := all.find? (·.text = text)

end Operator

end TigerMips
