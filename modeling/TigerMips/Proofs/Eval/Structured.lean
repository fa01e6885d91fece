import TigerMips.Proofs.Eval.Steady

/-! Programs of assignments, branches, loops and scopes whose operands have no effect. It makes no
difference when these operands are read. -/

namespace TigerMips

def Expr.isPure : Expr → Bool
  | .int _ _ | .lvalue _ (.var _ _) => true
  | .negate _ operand => operand.isPure
  | .operation _ _ _ lhs rhs => lhs.isPure && rhs.isPure
  | .ifThenElse _ condition positive negative =>
    condition.isPure && (positive.isPure && negative.isPure)
  | _ => false

def Group.isPure : Group → Bool
  | .var _ _ value => value.isPure
  | .types _ | .functions _ => false

mutual

def Expr.isStructured : Expr → Bool
  | .assign _ (.var _ _) value => value.isPure
  | .breakLoop _ => true
  | .sequence _ expressions => sequenceStructured expressions
  | .ifThen _ condition positive => condition.isPure && positive.isStructured
  | .ifThenElse _ condition positive negative =>
    condition.isPure && (positive.isStructured && negative.isStructured)
  | .whileLoop _ condition body => condition.isPure && body.isStructured
  | .letIn _ groups body => groups.all Group.isPure && sequenceStructured body
  | expression => expression.isPure

def sequenceStructured : List Expr → Bool
  | [] => true
  | expression :: rest => expression.isStructured && sequenceStructured rest

end

lemma settled_nil (source : Option Path) : settled source [] := by
  simp [settled_iff]

lemma writes_of_isPure (here : Path) (names : Names) (expression : Expr) (h : expression.isPure) :
    expression.writes here names = [] := by
  induction expression using Expr.isPure.induct generalizing here with
  | case1 | case2 => rfl
  | case3 _ operand ih => exact ih (0 :: here) h
  | case4 _ operator _ lhs rhs ihl ihr =>
    obtain ⟨hl, hr⟩ := Bool.and_eq_true_iff.mp h
    simp [Expr.writes, ihl (0 :: here) hl, ihr (1 :: here) hr]
  | case5 _ condition positive negative ihc ihp ihn =>
    simp only [Expr.isPure, Bool.and_eq_true] at h
    simp [Expr.writes, ihc (0 :: here) h.1, ihp (1 :: here) h.2.1, ihn (2 :: here) h.2.2]
  | case6 => simp_all [Expr.isPure]

lemma steady_of_isPure (here : Path) (names : Names) (expression : Expr) (h : expression.isPure) :
    expression.steady here names := by
  induction expression using Expr.isPure.induct generalizing here with
  | case1 | case2 => rfl
  | case3 _ operand ih => exact ih (0 :: here) h
  | case4 _ operator _ lhs rhs ihl ihr =>
    obtain ⟨hl, hr⟩ := Bool.and_eq_true_iff.mp h
    cases operator <;>
      simp [Expr.steady, ihl (0 :: here) hl, ihr (1 :: here) hr, writes_of_isPure (1 :: here) names rhs hr, settled_nil]
  | case5 _ condition positive negative ihc ihp ihn =>
    simp only [Expr.isPure, Bool.and_eq_true] at h
    simp [Expr.steady, ihc (0 :: here) h.1, ihp (1 :: here) h.2.1, ihn (2 :: here) h.2.2]
  | case6 => simp_all [Expr.isPure]

lemma groupsSteady_of_isPure (here : Path) (names : Names) (groups : List Group) (h : groups.all Group.isPure) :
    groupsSteady here names groups := by
  induction groups generalizing here names with
  | nil => rfl
  | cons group rest ih =>
    obtain ⟨hgroup, hrest⟩ := Bool.and_eq_true_iff.mp h
    refine Bool.and_eq_true_iff.mpr ⟨?_, ih _ _ hrest⟩
    cases group with
    | var name ty value => exact steady_of_isPure (0 :: 0 :: here) names value hgroup
    | types _ | functions _ => rfl

mutual

lemma steady_of_isStructured (here : Path) (names : Names) (expression : Expr) (h : expression.isStructured) :
    expression.steady here names := by
  cases expression with
  | assign _ target value =>
    cases target with
    | var _ _ => exact steady_of_isPure (0 :: here) names value h
    | field _ _ _ | subscript _ _ _ => cases h
  | sequence _ expressions => exact sequenceSteady_of_structured here names expressions h
  | ifThen _ condition positive =>
    obtain ⟨hc, hp⟩ := Bool.and_eq_true_iff.mp h
    exact Bool.and_eq_true_iff.mpr
      ⟨steady_of_isPure (0 :: here) names condition hc, steady_of_isStructured (1 :: here) names positive hp⟩
  | ifThenElse _ condition positive negative =>
    simp only [Expr.isStructured, Bool.and_eq_true] at h
    simp [Expr.steady, steady_of_isPure (0 :: here) names condition h.1,
      steady_of_isStructured (1 :: here) names positive h.2.1, steady_of_isStructured (2 :: here) names negative h.2.2]
  | whileLoop _ condition body =>
    obtain ⟨hc, hb⟩ := Bool.and_eq_true_iff.mp h
    exact Bool.and_eq_true_iff.mpr
      ⟨steady_of_isPure (0 :: here) names condition hc, steady_of_isStructured (1 :: here) names body hb⟩
  | letIn _ groups body =>
    obtain ⟨hg, hb⟩ := Bool.and_eq_true_iff.mp h
    exact Bool.and_eq_true_iff.mpr ⟨groupsSteady_of_isPure (0 :: here) names groups hg,
      sequenceSteady_of_structured (1 :: here) (names.declare (0 :: here) groups) body hb⟩
  | operation | negate => exact steady_of_isPure here names _ h
  | int | string | nil | breakLoop | lvalue | record => rfl
  | call | forLoop | array => cases h

lemma sequenceSteady_of_structured (here : Path) (names : Names) (expressions : List Expr)
    (h : sequenceStructured expressions) : sequenceSteady here names expressions := by
  cases expressions with
  | nil => rfl
  | cons expression rest =>
    obtain ⟨hfirst, hrest⟩ := Bool.and_eq_true_iff.mp h
    exact Bool.and_eq_true_iff.mpr ⟨steady_of_isStructured (0 :: here) names expression hfirst,
      sequenceSteady_of_structured (1 :: here) names rest hrest⟩

end

lemma evaluate_late_eq_of_isStructured {program : Expr} (h : program.isStructured) (turns : Nat) :
    program.evaluate true turns = program.evaluate false turns :=
  congrFun (behavior_late_eq turns [] [] program (steady_of_isStructured [] [] program h)) _

end TigerMips
