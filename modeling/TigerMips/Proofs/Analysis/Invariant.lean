import TigerMips.Proofs.Analysis.Clean

/-! Invariants of the tables of an analysis. What each change of a table keeps, a whole program keeps. -/

namespace TigerMips.Analysis

open Analyzer

def Preserves (Q : Analyzer → Prop) (s t : Analyzer) : Prop := Q s → Q t

section

variable {Q : Analyzer → Prop}

instance : Std.Refl (Preserves Q) := ⟨fun _ => id⟩

instance : IsTrans Analyzer (Preserves Q) := ⟨fun _ _ _ h h' hq => h' (h hq)⟩

end

structure Kept (Q : Analyzer → Prop) : Prop extends Stepwise (Preserves Q) (Preserves Q) where
  declareFunction : ∀ decl, Within (Preserves Q) (declareFunction decl)
  enterFunction : ∀ declared {s}, Q s → Q (enterFunction declared s).2
  leaveFunction : ∀ outer {s}, Q s → Q (leaveFunction outer s).2
  closeForeigns : ∀ group, Within (Preserves Q) (closeForeigns group)

namespace Kept

variable {Q : Analyzer → Prop} (h : Kept Q)

include h

lemma declareFunctions (seen : List String) (members : List FunctionDecl) :
    Within (Preserves Q) (declareFunctions seen members) := by
  induction members generalizing seen with
  | nil => exact .pure _
  | cons decl rest ih =>
    refine (h.declareFunction _).bind fun declared => Within.bind ?_ fun _ => (ih _).bind fun _ => .pure _
    unfold enterName
    split
    · exact h.report _ _
    · exact h.putValue _ _

lemma functionBody (declared : Declared) {body : Part} (hb : Within (Preserves Q) body.lower) :
    Within (Preserves Q) (functionBody declared body) := by
  have hinside : Within (Preserves Q) (inFunction declared body.lower) := fun _ hq =>
    h.leaveFunction _ (hb _ (h.enterFunction declared hq))
  refine hinside.bind fun inside => (within_checkType h.report _ _ _).bind fun _ => within_hasError.bind
    fun failed => ?_
  split <;> exact .pure _

lemma functionGroup (members : List FunctionDecl) {bodies : List Declared → Analysis (List Code)}
    (hb : ∀ declared, Within (Preserves Q) (bodies declared)) :
    Within (Preserves Q) (functionGroup members bodies) := by
  refine (h.declareFunctions _ _).bind fun declared => (hb _).bind fun _ => (h.closeForeigns _).bind fun _ =>
    within_hasError.bind fun failed => ?_
  split
  · exact .pure _
  · exact h.newLabel.bind fun _ => within_currentFrame.bind fun _ => .pure _

lemma lowerExpr (expression : Expr) : Within (Preserves Q) (lowerExpr expression) :=
  (h.toStepwise.compositional (B := fun _ _ => Within (Preserves Q)) (fun members _ => h.functionGroup members)
    (fun _ _ _ => .pure _) fun _ declared _ _ _ hb hr =>
      (h.functionBody declared hb).bind fun _ => hr.bind fun _ => .pure _).lowerExpr expression

end Kept

structure Invariant (Q : Analyzer → Prop) : Prop where
  same : ∀ {s t}, Q s → t.frames = s.frames → t.functions = s.functions → t.strings = s.strings →
    t.supply = s.supply → Q t
  newLabel : ∀ {s}, Q s → Q s.withLabel
  newTemp : ∀ {s}, Q s → Q s.withTemp
  internString : ∀ {s t text constant}, internString text s = (constant, t) → Q s → Q t
  functions : ∀ {s} functions, s.functions.Grows Function.Grows functions → functions.size = s.functions.size → Q s →
    Q { s with functions }
  declare : ∀ {s} name params result, Q s → Q { s with
    frames := s.frames.push (declaredFrame s name params.length result)
    functions := s.functions.push
      { name, signature := ⟨params, result, some (declaredAs s name params result).entry⟩ }
    supply := ⟨s.supply.temps + 1 + (if !s.typeTable.isVoid result then params.length + 1 else params.length),
      s.supply.labels + 1⟩ }

namespace Invariant

variable {Q : Analyzer → Prop} (h : Invariant Q)

include h

lemma report (fault : Fault) (span : Span) : Within (Preserves Q) (report fault span) :=
  fun _ hq => h.same hq rfl rfl rfl rfl

lemma onFunction {s : Analyzer} (id : FunctionId) {f : Function → Function} (hf : ∀ g, Function.Grows g (f g))
    (hq : Q s) : Q (s.onFunction id f) :=
  h.same (h.functions _ (.modify s.functions id hf) (Arena.size_modify _ _ _) hq) rfl rfl rfl rfl

lemma inLoop (exit : Label) {body : Analysis Lowered} (hb : Within (Preserves Q) body) :
    Within (Preserves Q) (inLoop exit body) :=
  fun s hq => h.same (hb { s with exits := some exit :: s.exits } (h.same hq rfl rfl rfl rfl)) rfl rfl rfl rfl

lemma stepwise : Stepwise (Preserves Q) (Preserves Q) where
  report := h.report
  newLabel := fun _ => h.newLabel
  newTemp := fun _ => h.newTemp
  useRuntime _ := fun _ hq => h.same hq rfl rfl rfl rfl
  internString text := fun _ => h.internString rfl
  newIdentity _ := fun _ hq => h.same hq rfl rfl rfl rfl
  noteUse name := by
    refine .modify fun s hq => ?_
    split <;> try split
    · exact h.onFunction _ (Function.grows_addForeign name) hq
    all_goals exact hq
  noteCall callee := by
    refine .modify fun s hq => ?_
    have hvisited : Q (s.visit callee) := h.same hq rfl rfl rfl rfl
    split
    · exact h.onFunction _ (Function.grows_addInvocation _) hvisited
    · exact hvisited
  noteEdge entry := by
    refine .modify fun s hq => ?_
    split
    · exact h.same hq rfl rfl rfl rfl
    · exact hq
  inLoop := h.inLoop
  forBody counter place exit body hb s hq := by
    have hinside : Within (Preserves Q) (do
        let inside ← Analysis.inLoop exit body.lower
        checkType .void inside.ty body.span) :=
      (h.inLoop exit hb).bind fun _ => within_checkType h.report _ _ _
    exact h.same (hinside { s with
      values := s.values.openScope.put counter.name (.var { ty := .int, place, assignable := false }) }
      (h.same hq rfl rfl rfl rfl)) rfl rfl rfl rfl
  letIn {declarations body} hd hb s hq := by
    have hinside : Within (Preserves Q) (do
        let _ ← declarations
        body) := hd.bind fun _ => hb
    exact h.same (hinside { s with values := s.values.openScope, types := s.types.openScope }
      (h.same hq rfl rfl rfl rfl)) rfl rfl rfl rfl
  declares := id
  putValue _ _ := fun _ hq => h.same hq rfl rfl rfl rfl
  typeGroup members s hq := by
    obtain ⟨errors, types, table, ht, -⟩ := retypes_typeGroup members s
    rw [ht]
    exact h.same hq rfl rfl rfl rfl

lemma declareFunction (decl : FunctionDecl) : Within (Preserves Q) (declareFunction decl) := by
  intro s hq
  obtain ⟨result, s₁, typed, s₂, params, hr, ht, -, hdeclared, hstate⟩ :=
    declareFunction_eq (t := (Analysis.declareFunction decl s).2) rfl
  have hq₂ := (within_typedNames h.report _).apply ht ((within_resultType h.report _).apply hr hq)
  rw [hstate, hdeclared]
  exact h.declare _ _ _ hq₂

lemma kept : Kept Q where
  toStepwise := h.stepwise
  declareFunction := h.declareFunction
  enterFunction _ _ hq := h.same hq rfl rfl rfl rfl
  leaveFunction _ _ hq := h.same hq rfl rfl rfl rfl
  closeForeigns group s hq := by
    obtain ⟨hw, hsize⟩ := s.functions.widens_closeForeigns group
    exact h.same (h.functions _ (hw.mono fun _ _ => Function.Widens.grows) hsize hq) rfl rfl rfl rfl

lemma analyze (hq : Q Analyzer.initial) (expression : Expr) : Q (Analysis.lowerExpr expression Analyzer.initial).2 :=
  h.kept.lowerExpr expression Analyzer.initial hq

end Invariant

structure TypeInvariant (Q : Analyzer → Prop) : Prop where
  same : ∀ {s t}, Q s → t.types = s.types → t.typeTable.bindings = s.typeTable.bindings →
    s.typeTable.identities ≤ t.typeTable.identities → Q t
  openScope : ∀ {s}, Q s → Q { s with types := s.types.openScope }
  closeScope : ∀ {s}, Q s → Q { s with types := s.types.close }
  typeGroup : ∀ members {s}, Q s → Q (typeGroup members s).2

namespace TypeInvariant

variable {Q : Analyzer → Prop} (h : TypeInvariant Q)

include h

lemma report (fault : Fault) (span : Span) : Within (Preserves Q) (report fault span) :=
  fun _ hq => h.same hq rfl rfl le_rfl

lemma inLoop (exit : Label) {body : Analysis Lowered} (hb : Within (Preserves Q) body) :
    Within (Preserves Q) (inLoop exit body) :=
  fun s hq => h.same (hb { s with exits := some exit :: s.exits } (h.same hq rfl rfl le_rfl)) rfl rfl le_rfl

lemma stepwise : Stepwise (Preserves Q) (Preserves Q) where
  report := h.report
  newLabel := fun _ hq => h.same hq rfl rfl le_rfl
  newTemp := fun _ hq => h.same hq rfl rfl le_rfl
  useRuntime _ := fun _ hq => h.same hq rfl rfl le_rfl
  internString _ := fun _ hq => h.same hq rfl rfl le_rfl
  newIdentity _ := fun _ hq => h.same hq rfl rfl (Nat.le_succ _)
  noteUse name := by
    refine .modify fun s hq => ?_
    split <;> try split
    all_goals exact h.same hq rfl rfl le_rfl
  noteCall callee := by
    refine .modify fun s hq => ?_
    split <;> exact h.same hq rfl rfl le_rfl
  noteEdge entry := by
    refine .modify fun s hq => ?_
    split <;> exact h.same hq rfl rfl le_rfl
  inLoop := h.inLoop
  forBody counter place exit body hb s hq := by
    have hinside : Within (Preserves Q) (do
        let inside ← Analysis.inLoop exit body.lower
        checkType .void inside.ty body.span) :=
      (h.inLoop exit hb).bind fun _ => within_checkType h.report _ _ _
    exact h.same (hinside { s with
      values := s.values.openScope.put counter.name (.var { ty := .int, place, assignable := false }) }
      (h.same hq rfl rfl le_rfl)) rfl rfl le_rfl
  letIn {declarations body} hd hb s hq := by
    have hinside : Within (Preserves Q) (do
        let _ ← declarations
        body) := hd.bind fun _ => hb
    have hopen : Q { s with values := s.values.openScope, types := s.types.openScope } :=
      h.same (h.openScope hq) rfl rfl le_rfl
    exact h.same (h.closeScope (hinside _ hopen)) rfl rfl le_rfl
  declares := id
  putValue _ _ := fun _ hq => h.same hq rfl rfl le_rfl
  typeGroup members := fun _ => h.typeGroup members

lemma kept : Kept Q where
  toStepwise := h.stepwise
  declareFunction decl s hq := by
    obtain ⟨result, s₁, typed, s₂, params, hr, ht, -, -, hstate⟩ :=
      declareFunction_eq (t := (declareFunction decl s).2) rfl
    have hq₂ := (within_typedNames h.report _).apply ht ((within_resultType h.report _).apply hr hq)
    rw [hstate]
    exact h.same hq₂ rfl rfl le_rfl
  enterFunction _ _ hq := h.same hq rfl rfl le_rfl
  leaveFunction _ _ hq := h.same hq rfl rfl le_rfl
  closeForeigns _ := fun _ hq => h.same hq rfl rfl le_rfl

end TypeInvariant

end TigerMips.Analysis
