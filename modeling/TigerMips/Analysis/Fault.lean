import TigerMips.Operator
import TigerMips.Ty

namespace TigerMips

inductive Fault where
  | typeMismatch (needed given : Ty)
  | undefinedVariable (name : String)
  | functionAsVariable (name : String)
  | notAssignable (name : String)
  | notRecord (ty : Ty)
  | noField (ty : Ty) (field : String)
  | notArray (ty : Ty)
  | undefinedType (name : String)
  | undefinedArrayType (name : String)
  | undefinedRecordType (name : String)
  | notArrayType (ty : Ty)
  | notRecordType (ty : Ty)
  | fieldName (expected found : String)
  | fieldCount (ty : Ty) (expected given : Nat)
  | invalidInitializer (ty : Ty) (name : String)
  | alreadyDefined (name : String)
  | typeLoop (name : String)
  | invalidBreak
  | undefinedFunction (name : String)
  | notFunction (name : String)
  | argumentCount (name : String) (expected given : Nat)
  | stringOperation (operator : Operator)
  | comparison (left right : Ty)
  deriving Repr

def Fault.message : Fault → String
  | typeMismatch needed given =>
    "Type mismatch, " ++ needed.text ++ " needed, but " ++ given.text ++ " given"
  | undefinedVariable name => "Undefined variable " ++ name ++ "; type int assumed"
  | functionAsVariable name => name ++ " is a function, not a variable; type int assumed"
  | notAssignable name => name ++ " cannot be assigned here"
  | notRecord ty => ty.text ++ " is not a record; type int assumed"
  | noField ty field => ty.text ++ " has no field " ++ field ++ "; type int assumed"
  | notArray ty => ty.text ++ " is not an array; type int assumed"
  | undefinedType name => "Undefined type " ++ name ++ "; int assumed"
  | undefinedArrayType name => "Undefined type " ++ name ++ "; int array assumed"
  | undefinedRecordType name => "Undefined type " ++ name ++ "; empty record assumed"
  | notArrayType ty => ty.text ++ " is not an array type; int array assumed"
  | notRecordType ty => ty.text ++ " is not a record; empty record assumed"
  | fieldName expected found =>
    "Field name mismatch: " ++ expected ++ " expected but " ++ found ++ " found"
  | fieldCount ty expected given =>
    "Field number mismatch: " ++ ty.text ++ " expects " ++ toString expected ++
      " fields but " ++ toString given ++ " were given"
  | invalidInitializer ty name =>
    "Invalid initializer type " ++ ty.text ++ " for " ++ name ++ "; int assumed"
  | alreadyDefined name => name ++ " already defined in the same block"
  | typeLoop name => "Type declaration loop found on " ++ name ++ "; int assumed"
  | invalidBreak => "Invalid break"
  | undefinedFunction name => "Undefined function " ++ name ++ "; assumed return void"
  | notFunction name => name ++ " is not a function; assumed return void"
  | argumentCount name expected given =>
    "Function " ++ name ++ " takes " ++ toString expected ++ " arguments but " ++
      toString given ++ " were given"
  | stringOperation operator => "Invalid operation " ++ operator.text ++ " between strings"
  | comparison left right =>
    "Invalid comparison between " ++ left.text ++ " and " ++ right.text

end TigerMips
