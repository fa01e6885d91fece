import TigerMips.Proofs.Analysis.Slots

/-! What is collected from the declarations of a program, in the states in which they are lowered. So the variables of a
program are collected with the places where an analysis stores them. -/

namespace TigerMips

open Analysis

structure Collector (α : Type) where
  loop : FrameId → Ident → (low high inside : Lowered × Analyzer) → List α
  binding : FrameId → Ident → Temp → List α
  params : Declared → List α

namespace Collector

variable {α : Type} (c : Collector α)

mutual

def expr : Expr → Analyzer → List α
  | .lvalue _ place, s => lvalue false place s
  | .assign _ target value, s => lvalue true target s ++ expr value (lowerLValue true target s).2
  | .operation _ _ _ lhs rhs, s => expr lhs s ++ expr rhs (lowerExpr lhs s).2
  | .negate _ operand, s => expr operand s
  | .call _ _ arguments, s => sequence arguments s
  | .sequence _ expressions, s => sequence expressions s
  | .ifThen _ condition positive, s => expr condition s ++ expr positive (lowerExpr condition s).2
  | .ifThenElse _ condition positive negative, s =>
    expr condition s ++ expr positive (lowerExpr condition s).2 ++
      expr negative (lowerExpr positive (lowerExpr condition s).2).2
  | .whileLoop _ condition body, s =>
    expr condition s.withLabel.withLabel ++ expr body
      ((lowerExpr condition s.withLabel.withLabel).2.insideLoop ⟨s.supply.labels + 1⟩)
  | .forLoop _ counter first last body, s =>
    let low := lowerExpr first s
    let high := lowerExpr last low.2
    let inside := lowerExpr body (high.2.insideFor counter.name)
    expr first s ++ expr last low.2 ++
      (c.loop s.currentFrame counter low high inside ++ expr body (high.2.insideFor counter.name))
  | .letIn _ declarations body, s =>
    groups declarations s.insideLet ++ sequence body (lowerGroups declarations s.insideLet).2
  | .array _ _ size init, s => expr size s ++ expr init (lowerExpr size s).2
  | .record _ _ fields, s => inits fields (s.withTemp.withTemp.usingRuntime Runtime.malloc.name)
  | .int _ _, _ | .string _ _, _ | .nil _, _ | .breakLoop _, _ => []

def sequence : List Expr → Analyzer → List α
  | [], _ => []
  | expression :: rest, s => expr expression s ++ sequence rest (lowerExpr expression s).2

def inits : List (Ident × Expr) → Analyzer → List α
  | [], _ => []
  | (_, value) :: rest, s => expr value s ++ inits rest (lowerExpr value s).2

def lvalue (assigning : Bool) : LValue → Analyzer → List α
  | .var _ _, _ => []
  | .field _ base _, s => lvalue assigning base s
  | .subscript _ base index, s => lvalue assigning base s ++ expr index (lowerLValue assigning base s).2

def groups : List Group → Analyzer → List α
  | [], _ => []
  | declaration :: rest, s => group declaration s ++ groups rest (lowerGroup declaration s).2

def group : Group → Analyzer → List α
  | .var name _ value, s => expr value s ++ c.binding s.currentFrame name ⟨(lowerExpr value s).2.supply.temps⟩
  | .types _, _ => []
  | .functions members, s => bodies members (declareFunctions [] members s).1 (declareFunctions [] members s).2

def bodies : List FunctionDecl → List Declared → Analyzer → List α
  | .mk _ _ _ body :: rest, declared :: others, s =>
    c.params declared ++ (expr body (enterFunction declared s).2 ++
      bodies rest others (functionBody declared ⟨body.span, lowerExpr body⟩ s).2)
  | _, _, _ => []

end

lemma inits_eq (fields : List (Ident × Expr)) (s : Analyzer) :
    c.inits fields s = c.sequence (fields.map Prod.snd) s := by
  induction fields generalizing s with
  | nil => rfl
  | cons first rest ih => simp [inits, sequence, ih]

end Collector

structure Storage where
  frame : FrameId
  name : String
  temp : Temp
  deriving DecidableEq, Repr

def Analysis.Declared.storage (declared : Declared) : List Storage :=
  (declared.params.zip declared.entry.formals).map fun (param, temp) => ⟨declared.entry.frame, param.name, temp⟩

namespace Storage

def collector : Collector Storage where
  loop frame counter _ high _ := [⟨frame, counter.name, ⟨high.2.supply.temps⟩⟩]
  binding frame name temp := [⟨frame, name.name, temp⟩]
  params := Declared.storage

variable (frame : FrameId) (name : Ident) (temp : Temp) (low high inside : Lowered × Analyzer) (declared : Declared)

@[simp] lemma collector_loop :
    collector.loop frame name low high inside = [⟨frame, name.name, ⟨high.2.supply.temps⟩⟩] := rfl

@[simp] lemma collector_binding : collector.binding frame name temp = [⟨frame, name.name, temp⟩] := rfl

@[simp] lemma collector_params : collector.params declared = declared.storage := rfl

end Storage

abbrev Expr.storage (expression : Expr) (s : Analyzer) : List Storage := Storage.collector.expr expression s

end TigerMips
