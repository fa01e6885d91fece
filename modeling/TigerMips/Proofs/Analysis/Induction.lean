import Mathlib.Order.Defs.Unbundled
import Mathlib.Tactic
import TigerMips.Analysis.Program

/-! Properties of the analysis of all programs, from properties of each construct. -/

namespace TigerMips.Analysis

variable {α β : Type} {s s' : Analyzer}

lemma bind_eq {m : Analysis α} {f : α → Analysis β} {b : β} :
    (m >>= f) s = (b, s') ↔ ∃ a t, m s = (a, t) ∧ f a t = (b, s') := by
  change f (m s).1 (m s).2 = _ ↔ _
  exact ⟨fun h => ⟨_, _, rfl, h⟩, fun ⟨a, t, hm, hf⟩ => by rwa [hm]⟩

lemma pure_eq {a b : α} : (pure a : Analysis α) s = (b, s') ↔ b = a ∧ s' = s := by
  change (a, s) = _ ↔ _
  simp [Prod.ext_iff, eq_comm]

def Within (R : Analyzer → Analyzer → Prop) (m : Analysis α) : Prop := ∀ s, R s (m s).2

namespace Within

variable {R S : Analyzer → Analyzer → Prop}

lemma pure [Std.Refl R] (a : α) : Within R (Pure.pure a : Analysis α) := fun s => refl_of R s

lemma bind [IsTrans Analyzer R] {m : Analysis α} {f : α → Analysis β} (hm : Within R m) (hf : ∀ a, Within R (f a)) :
    Within R (m >>= f) :=
  fun s => trans_of R (hm s) (hf _ _)

lemma apply {m : Analysis α} {a : α} (hm : Within R m) (h : m s = (a, s')) : R s s' := by
  have hr := hm s
  rwa [h] at hr

lemma mono {m : Analysis α} (h : ∀ s t, R s t → S s t) (hm : Within R m) : Within S m := fun s => h _ _ (hm s)

lemma modify {f : Analyzer → Analyzer} (h : ∀ s, R s (f s)) : Within R (modify f : Analysis PUnit) := h

end Within

/-- A property of expressions, with what it needs of storage locations, arguments, initial
values of fields, declarations and function bodies. Arguments and initial values are counted. -/
structure Compositional (E : Analysis Lowered → Prop) (L : Bool → Analysis Lowered → Prop)
    (A : Nat → List Param → Analysis (List Code × List Access) → Prop)
    (F : Temp → Nat → List (String × Ty) → Nat → Analysis (List Code) → Prop) (U : Analysis Unit → Prop)
    (D : Analysis (List Code) → Prop) (B : Nat → List Declared → Analysis (List Code) → Prop) : Prop where
  int : ∀ value, E (pure { ty := .int, place := some (.int value) })
  string : ∀ text, E (do return { ty := .string, place := some (.const (← internString text)) })
  nil : E (pure { ty := .nil, place := some (.int 0) })
  breakLoop : ∀ span, E (breakLoop span)
  lvalue : ∀ place, L false place → E place
  assignment : ∀ span target value, L true target → E value → E (assignment span target value)
  operation : ∀ span operator operatorSpan (lhs rhs : Part), E lhs.lower → E rhs.lower →
    E (operation span operator operatorSpan lhs rhs)
  negation : ∀ operand : Part, E operand.lower → E (negation operand)
  call : ∀ span function given arguments, (∀ params, A given params (arguments params)) →
    E (call span function given arguments)
  ifThen : ∀ condition positive : Part, E condition.lower → E positive.lower → E (ifThen condition positive)
  ifThenElse : ∀ condition positive negative : Part, E condition.lower → E positive.lower → E negative.lower →
    E (ifThenElse condition positive negative)
  whileLoop : ∀ condition body : Part, E condition.lower → E body.lower → E (whileLoop condition body)
  forLoop : ∀ counter (first last body : Part), E first.lower → E last.lower → E body.lower →
    E (forLoop counter first last body)
  letIn : ∀ declarations body, D declarations → E body → E (letIn declarations body)
  arrayCreation : ∀ name (size init : Part), E size.lower → E init.lower → E (arrayCreation name size init)
  recordCreation : ∀ span name given init check, (∀ target declared, F target 0 declared given (init target declared)) →
    U check → E (recordCreation span name given init check)
  emptySequence : E (pure { ty := .void })
  sequence : ∀ first rest, E first → E rest → E (do
    let value ← first
    let others ← rest
    return { others with code := value.code ++ others.code })
  variablePlace : ∀ assigning name, L assigning (variablePlace assigning name)
  fieldPlace : ∀ assigning base name, L assigning base → L assigning (fieldPlace base name)
  elementPlace : ∀ assigning span base (index : Part), L assigning base → E index.lower →
    L assigning (elementPlace span base index)
  noArguments : ∀ params, A 0 params (pure ([], []))
  extraArgument : ∀ given value rest, E value → A given [] rest → A (given + 1) [] (do
    let _ ← value
    rest)
  argument : ∀ given param params span value rest, E value → A given params rest → A (given + 1) (param :: params) (do
    let first ← value
    checkType param.ty first.ty span
    let (code, places) ← rest
    return (first.code ++ code, first.place.toList ++ places))
  noFields : ∀ target index declared, F target index declared 0 (pure [])
  extraFields : ∀ target index given value rest, E value → U rest → F target index [] (given + 1) (do
    let _ ← value
    rest
    return [])
  fields : ∀ target index expected ty declared given name (value : Part) rest, E value.lower →
    F target (index + 1) declared given rest → F target index ((expected, ty) :: declared) (given + 1) (do
      let code ← initField target index expected ty name value
      let codes ← rest
      return code ++ codes)
  noChecks : U (pure ())
  checks : ∀ value rest, E value → U rest → U (do
    let _ ← value
    rest)
  noDeclarations : D (pure [])
  declarations : ∀ group rest, D group → D rest → D (do
    let code ← group
    let codes ← rest
    return code ++ codes)
  variableDeclaration : ∀ name ty (value : Part), E value.lower → D (variableDeclaration name ty value)
  typeGroup : ∀ members, D (do
    typeGroup members
    return [])
  functionGroup : ∀ members bodies, (∀ declared, B members.length declared (bodies declared)) →
    D (functionGroup members bodies)
  noBodies : ∀ given declared, given = 0 ∨ declared = [] → B given declared (pure [])
  bodies : ∀ given declared others (body : Part) rest, E body.lower → B given others rest →
    B (given + 1) (declared :: others) (do
      let code ← functionBody declared body
      let codes ← rest
      return code ++ codes)

namespace Compositional

variable {E : Analysis Lowered → Prop} {L : Bool → Analysis Lowered → Prop}
  {A : Nat → List Param → Analysis (List Code × List Access) → Prop}
  {F : Temp → Nat → List (String × Ty) → Nat → Analysis (List Code) → Prop} {U : Analysis Unit → Prop}
  {D : Analysis (List Code) → Prop} {B : Nat → List Declared → Analysis (List Code) → Prop}

mutual

lemma lowerExpr (h : Compositional E L A F U D B) (expression : Expr) : E (lowerExpr expression) := by
  cases expression with
  | int span value => exact h.int value
  | string span text => exact h.string text
  | nil span => exact h.nil
  | breakLoop span => exact h.breakLoop span
  | lvalue span place => exact h.lvalue _ (lowerLValue h false place)
  | assign span target value => exact h.assignment _ _ _ (lowerLValue h true target) (lowerExpr h value)
  | operation span operator operatorSpan lhs rhs =>
    exact h.operation _ _ _ ⟨_, _⟩ ⟨_, _⟩ (lowerExpr h lhs) (lowerExpr h rhs)
  | negate span operand => exact h.negation ⟨_, _⟩ (lowerExpr h operand)
  | call span function arguments => exact h.call _ _ _ _ fun params => lowerArguments h params arguments
  | sequence span expressions => exact lowerSequence h expressions
  | ifThen span condition positive =>
    exact h.ifThen ⟨_, _⟩ ⟨_, _⟩ (lowerExpr h condition) (lowerExpr h positive)
  | ifThenElse span condition positive negative =>
    exact h.ifThenElse ⟨_, _⟩ ⟨_, _⟩ ⟨_, _⟩ (lowerExpr h condition) (lowerExpr h positive) (lowerExpr h negative)
  | whileLoop span condition body =>
    exact h.whileLoop ⟨_, _⟩ ⟨_, _⟩ (lowerExpr h condition) (lowerExpr h body)
  | forLoop span counter first last body =>
    exact h.forLoop _ ⟨_, _⟩ ⟨_, _⟩ ⟨_, _⟩ (lowerExpr h first) (lowerExpr h last) (lowerExpr h body)
  | letIn span groups body => exact h.letIn _ _ (lowerGroups h groups) (lowerSequence h body)
  | array span ty size init =>
    exact h.arrayCreation _ ⟨_, _⟩ ⟨_, _⟩ (lowerExpr h size) (lowerExpr h init)
  | record span ty fields =>
    exact h.recordCreation _ _ _ _ _ (fun target declared => lowerFields h target 0 declared fields)
      (checkFields h fields)

lemma lowerSequence (h : Compositional E L A F U D B) (expressions : List Expr) :
    E (lowerSequence expressions) := by
  match expressions with
  | [] => exact h.emptySequence
  | [expression] => exact lowerExpr h expression
  | expression :: next :: rest => exact h.sequence _ _ (lowerExpr h expression) (lowerSequence h (next :: rest))

lemma lowerArguments (h : Compositional E L A F U D B) (params : List Param) (arguments : List Expr) :
    A arguments.length params (lowerArguments params arguments) := by
  match params, arguments with
  | _, [] => exact h.noArguments _
  | [], argument :: rest => exact h.extraArgument _ _ _ (lowerExpr h argument) (lowerArguments h [] rest)
  | param :: params, argument :: rest =>
    exact h.argument _ _ _ _ _ _ (lowerExpr h argument) (lowerArguments h params rest)

lemma lowerFields (h : Compositional E L A F U D B) (target : Temp) (index : Nat) (declared : List (String × Ty))
    (fields : List (Ident × Expr)) :
    F target index declared fields.length (lowerFields target index declared fields) := by
  match declared, fields with
  | _, [] => exact h.noFields _ _ _
  | [], (name, value) :: rest => exact h.extraFields _ _ _ _ _ (lowerExpr h value) (checkFields h rest)
  | (expected, ty) :: declared, (name, value) :: rest =>
    exact h.fields _ _ _ _ _ _ _ ⟨_, _⟩ _ (lowerExpr h value) (lowerFields h target (index + 1) declared rest)

lemma checkFields (h : Compositional E L A F U D B) (fields : List (Ident × Expr)) : U (checkFields fields) := by
  match fields with
  | [] => exact h.noChecks
  | (name, value) :: rest => exact h.checks _ _ (lowerExpr h value) (checkFields h rest)

lemma lowerLValue (h : Compositional E L A F U D B) (assigning : Bool) (place : LValue) :
    L assigning (lowerLValue assigning place) := by
  cases place with
  | var span name => exact h.variablePlace _ _
  | field span base name => exact h.fieldPlace _ _ _ (lowerLValue h assigning base)
  | subscript span base index =>
    exact h.elementPlace _ _ _ ⟨_, _⟩ (lowerLValue h assigning base) (lowerExpr h index)

lemma lowerGroups (h : Compositional E L A F U D B) (groups : List Group) : D (lowerGroups groups) := by
  match groups with
  | [] => exact h.noDeclarations
  | group :: rest => exact h.declarations _ _ (lowerGroup h group) (lowerGroups h rest)

lemma lowerGroup (h : Compositional E L A F U D B) (group : Group) : D (lowerGroup group) := by
  cases group with
  | var name ty value => exact h.variableDeclaration _ _ ⟨_, _⟩ (lowerExpr h value)
  | types members => exact h.typeGroup members
  | functions members => exact h.functionGroup _ _ fun declared => lowerBodies h members declared

lemma lowerBodies (h : Compositional E L A F U D B) (members : List FunctionDecl) (declared : List Declared) :
    B members.length declared (lowerBodies members declared) := by
  match members, declared with
  | [], _ => exact h.noBodies _ _ (Or.inl rfl)
  | .mk _ _ _ _ :: _, [] => exact h.noBodies _ _ (Or.inr rfl)
  | .mk name params result body :: rest, declared :: others =>
    exact h.bodies _ _ _ ⟨_, _⟩ _ (lowerExpr h body) (lowerBodies h rest others)

end

end Compositional

end TigerMips.Analysis
