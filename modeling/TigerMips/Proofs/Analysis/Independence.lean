import TigerMips.Proofs.Analysis.Growth
import TigerMips.Proofs.Analysis.Renumber

/-! Diagnostics do not depend on what has been declared and reported before, nor on the code that is made. Two runs of
one expression are followed side by side: one of them after other expressions, and one of them on its own. -/

namespace TigerMips

namespace Fault

def after (earlier : TypeTable) : Fault → Fault
  | typeMismatch needed given => typeMismatch (needed.after earlier) (given.after earlier)
  | notRecord ty => notRecord (ty.after earlier)
  | noField ty field => noField (ty.after earlier) field
  | notArray ty => notArray (ty.after earlier)
  | notArrayType ty => notArrayType (ty.after earlier)
  | notRecordType ty => notRecordType (ty.after earlier)
  | fieldCount ty expected given => fieldCount (ty.after earlier) expected given
  | invalidInitializer ty name => invalidInitializer (ty.after earlier) name
  | comparison left right => comparison (left.after earlier) (right.after earlier)
  | fault => fault

@[simp]
lemma message_after {earlier : TypeTable} (fault : Fault) : (fault.after earlier).message = fault.message := by
  cases fault <;> dsimp only [after, message] <;> simp only [Ty.text_after]

@[simp]
lemma after_empty (fault : Fault) : fault.after {} = fault := by cases fault <;> simp [after]

end Fault

inductive Outline where
  | var (ty : Ty) (assignable : Bool)
  | function (params : List Param) (result : Ty)

def Value.outline : Value → Outline
  | .var info => .var info.ty info.assignable
  | .function _ signature => .function signature.params signature.result

def Param.after (earlier : TypeTable) (param : Param) : Param := ⟨param.name, param.ty.after earlier⟩

def Outline.after (earlier : TypeTable) : Outline → Outline
  | var ty assignable => var (ty.after earlier) assignable
  | function params result => function (params.map (Param.after earlier)) (result.after earlier)

@[simp]
lemma Outline.after_empty (outline : Outline) : outline.after {} = outline := by
  have hparam : Param.after {} = id := funext fun param => by simp [Param.after]
  cases outline <;> simp [after, hparam]

structure Past where
  table : TypeTable := {}
  recorded : List (Fault × Span) := []

namespace Analyzer

/-- The first state has a past that the second one does not have. Apart from that they report the same. -/
structure Echoes (past : Past) (s t : Analyzer) : Prop where
  errors : s.errors = past.recorded ++ t.errors.map fun error => (error.1.after past.table, error.2)
  values : s.values.map Value.outline = t.values.map fun value => value.outline.after past.table
  types : s.types = t.types.map (Ty.after past.table)
  typeTable : s.typeTable = past.table.append t.typeTable
  exits : s.exits.map Option.isSome = t.exits.map Option.isSome

structure Silent (s t : Analyzer) : Prop where
  errors : t.errors = s.errors
  values : t.values = s.values
  types : t.types = s.types
  typeTable : t.typeTable = s.typeTable
  exits : t.exits = s.exits

instance : Std.Refl Silent := ⟨fun _ => ⟨rfl, rfl, rfl, rfl, rfl⟩⟩

instance : IsTrans Analyzer Silent :=
  ⟨fun _ _ _ h h' => ⟨h'.errors.trans h.errors, h'.values.trans h.values, h'.types.trans h.types,
    h'.typeTable.trans h.typeTable, h'.exits.trans h.exits⟩⟩

lemma Echoes.silent {past : Past} {s s' t t' : Analyzer} (h : s.Echoes past t) (hs : s.Silent s') (ht : t.Silent t') :
    s'.Echoes past t' := by
  constructor
  · rw [hs.errors, ht.errors, h.errors]
  · rw [hs.values, ht.values, h.values]
  · rw [hs.types, ht.types, h.types]
  · rw [hs.typeTable, ht.typeTable, h.typeTable]
  · rw [hs.exits, ht.exits, h.exits]

end Analyzer

namespace Analysis

open Analyzer

variable {α β γ δ : Type} {past : Past}

def Agree (past : Past) (R : α → β → Prop) (m : Analysis α) (n : Analysis β) : Prop :=
  ∀ s t, s.Echoes past t → R (m s).1 (n t).1 ∧ (m s).2.Echoes past (n t).2

namespace Agree

variable {Q : α → β → Prop} {R : γ → δ → Prop} {m : Analysis α} {n : Analysis β}

lemma pure {a : α} {b : β} (h : Q a b) : Agree past Q (Pure.pure a) (Pure.pure b) := fun _ _ hst => ⟨h, hst⟩

lemma bind {f : α → Analysis γ} {g : β → Analysis δ} (hm : Agree past Q m n)
    (hf : ∀ a b, Q a b → Agree past R (f a) (g b)) : Agree past R (m >>= f) (n >>= g) := fun s t h =>
  hf _ _ (hm s t h).1 _ _ (hm s t h).2

end Agree

def Tacit (P : α → Prop) (m : Analysis α) : Prop := ∀ s, P (m s).1 ∧ s.Silent (m s).2

namespace Tacit

variable {P : β → Prop} {m : Analysis α}

lemma pure {b : β} (h : P b) : Tacit P (Pure.pure b) := fun s => ⟨h, refl_of Silent s⟩

lemma bind {f : α → Analysis β} (hm : Within Silent m) (hf : ∀ a, Tacit P (f a)) : Tacit P (m >>= f) := fun s =>
  ⟨(hf _ _).1, trans_of Silent (hm s) (hf _ _).2⟩

lemma gate {failed made : Analysis β} (hf : Tacit P failed) (hm : Tacit P made) :
    Tacit P (do if ← hasError then failed else made) := by
  refine bind within_hasError fun stopped => ?_
  split
  · exact hf
  · exact hm

end Tacit

lemma Agree.tacit {P : α → Prop} {Q : β → Prop} {R : α → β → Prop} {m : Analysis α} {n : Analysis β} (hm : Tacit P m)
    (hn : Tacit Q n) (h : ∀ a b, P a → Q b → R a b) : Agree past R m n := fun s t hst =>
  ⟨h _ _ (hm s).1 (hn t).1, hst.silent (hm s).2 (hn t).2⟩

lemma Agree.within {m : Analysis α} {n : Analysis β} (hm : Within Silent m) (hn : Within Silent n) :
    Agree past (fun _ _ => True) m n := fun s t h => ⟨trivial, h.silent (hm s) (hn t)⟩

lemma silent_gate {failed made : Analysis α} (hf : Within Silent failed) (hm : Within Silent made) :
    Within Silent (do if ← hasError then failed else made) := by
  refine within_hasError.bind fun stopped => ?_
  split
  · exact hf
  · exact hm

lemma silent_newLabel : Within Silent newLabel := fun _ => ⟨rfl, rfl, rfl, rfl, rfl⟩

lemma silent_newTemp : Within Silent newTemp := fun _ => ⟨rfl, rfl, rfl, rfl, rfl⟩

lemma silent_useRuntime (name : String) : Within Silent (useRuntime name) := fun _ => ⟨rfl, rfl, rfl, rfl, rfl⟩

lemma silent_internString (text : String) : Within Silent (internString text) := fun _ => ⟨rfl, rfl, rfl, rfl, rfl⟩

lemma silent_closeForeigns (group : List FunctionId) : Within Silent (closeForeigns group) := fun _ =>
  ⟨rfl, rfl, rfl, rfl, rfl⟩

lemma silent_noteUse (name : String) : Within Silent (noteUse name) := by
  refine Within.modify fun s => ?_
  split
  · split
    · exact ⟨rfl, rfl, rfl, rfl, rfl⟩
    · exact refl_of Silent s
  · exact refl_of Silent s

lemma silent_noteCall (callee : FunctionId) : Within Silent (noteCall callee) := by
  refine Within.modify fun s => ?_
  split <;> exact ⟨rfl, rfl, rfl, rfl, rfl⟩

lemma silent_noteEdge (entry : Option Entry) : Within Silent (noteEdge entry) := by
  refine Within.modify fun s => ?_
  split
  · exact ⟨rfl, rfl, rfl, rfl, rfl⟩
  · exact refl_of Silent s

lemma silent_toSimple (access : Access) : Within Silent (toSimple access) := by
  unfold toSimple
  split
  · exact .pure _
  · exact silent_newTemp.bind fun _ => within_currentFrame.bind fun _ => .pure _

lemma silent_resultTemp (ty : Ty) : Within Silent (resultTemp ty) := by
  refine (within_isVoid ty).bind fun isVoid => ?_
  split
  · exact .pure _
  · exact silent_newTemp.bind fun _ => .pure _

lemma agree_report {fault fault' : Fault} (h : fault = fault'.after past.table) (span : Span) :
    Agree past (· = ·) (report fault span) (report fault' span) := by
  intro s t hst
  refine ⟨rfl, ?_, hst.values, hst.types, hst.typeTable, hst.exits⟩
  change s.errors ++ [(fault, span)] = _ ++ (t.errors ++ [(fault', span)]).map _
  rw [hst.errors, h, List.map_append, List.append_assoc]
  rfl

lemma agree_assume {Q : α → β → Prop} {fault fault' : Fault} {a : α} {b : β} (h : fault = fault'.after past.table)
    (span : Span) (hq : Q a b) :
    Agree past Q (do report fault span; return a) (do report fault' span; return b) :=
  (agree_report h span).bind fun _ _ _ => .pure hq

lemma agree_reportIf {fault fault' : Fault} (condition : Bool) (h : fault = fault'.after past.table) (span : Span) :
    Agree past (· = ·) (reportIf condition fault span) (reportIf condition fault' span) := by
  unfold reportIf
  split
  · exact agree_report h span
  · exact .pure rfl

lemma agree_get : Agree past (fun s t => s.Echoes past t) (get : Analysis Analyzer) get := fun _ _ hst => ⟨hst, hst⟩

lemma agree_modify {f g : Analyzer → Analyzer} (h : ∀ s t, s.Echoes past t → (f s).Echoes past (g t)) :
    Agree past (· = ·) (modify f : Analysis PUnit) (modify g : Analysis PUnit) := fun s t hst => ⟨rfl, h s t hst⟩

lemma agree_putValue (name : String) {value value' : Value} (h : value.outline = value'.outline.after past.table) :
    Agree past (· = ·) (putValue name value) (putValue name value') :=
  agree_modify fun s t hst => ⟨hst.errors, by simp [hst.values, h], hst.types, hst.typeTable, hst.exits⟩

lemma agree_actual {ty ty' : Ty} (h : ty = ty'.after past.table) :
    Agree past (fun a b => a = b.after past.table) (actual ty) (actual ty') := by
  intro s t hst
  refine ⟨?_, hst⟩
  change s.typeTable.actual ty = (t.typeTable.actual ty').after past.table
  rw [h, hst.typeTable, TypeTable.actual_append]

lemma agree_isVoid {ty ty' : Ty} (h : ty = ty'.after past.table) : Agree past (· = ·) (isVoid ty) (isVoid ty') := by
  intro s t hst
  refine ⟨?_, hst⟩
  change s.typeTable.isVoid ty = t.typeTable.isVoid ty'
  rw [h, hst.typeTable, TypeTable.isVoid_append]

lemma agree_isNil {ty ty' : Ty} (h : ty = ty'.after past.table) : Agree past (· = ·) (isNil ty) (isNil ty') := by
  intro s t hst
  refine ⟨?_, hst⟩
  change s.typeTable.isNil ty = t.typeTable.isNil ty'
  rw [h, hst.typeTable, TypeTable.isNil_append]

lemma agree_fits {given given' needed needed' : Ty} (hg : given = given'.after past.table)
    (hn : needed = needed'.after past.table) : Agree past (· = ·) (fits given needed) (fits given' needed') := by
  intro s t hst
  refine ⟨?_, hst⟩
  change s.typeTable.fits given needed = t.typeTable.fits given' needed'
  rw [hg, hn, hst.typeTable, TypeTable.fits_append]

lemma agree_type? (name : String) : Agree past (fun a b => a = b.map (Ty.after past.table)) (type? name)
    (type? name) := by
  intro s t hst
  refine ⟨?_, hst⟩
  change s.types.get? name = (t.types.get? name).map (Ty.after past.table)
  rw [hst.types, ScopeStack.get?_map]

lemma agree_checkType {needed needed' given given' : Ty} (hn : needed = needed'.after past.table)
    (hg : given = given'.after past.table) (span : Span) :
    Agree past (· = ·) (checkType needed given span) (checkType needed' given' span) := by
  refine (agree_fits hg hn).bind fun fitting _ h => ?_
  subst h
  split
  · exact .pure rfl
  · exact agree_report (by rw [hn, hg]; rfl) span

lemma Value.outline_cases {v w : Option Value}
    (h : v.map Value.outline = w.map fun value => value.outline.after past.table) : (v = none ∧ w = none) ∨
    (∃ info info', v = some (.var info) ∧ w = some (.var info') ∧ info.ty = info'.ty.after past.table ∧
      info.assignable = info'.assignable) ∨
    ∃ id id' signature signature', v = some (.function id signature) ∧ w = some (.function id' signature') ∧
      signature.params = signature'.params.map (Param.after past.table) ∧
      signature.result = signature'.result.after past.table := by
  match v, w with
  | none, none => exact Or.inl ⟨rfl, rfl⟩
  | some (.var info), some (.var info') =>
    obtain ⟨hty, hassignable⟩ := Outline.var.inj (Option.some.inj h)
    exact Or.inr (Or.inl ⟨info, info', rfl, rfl, hty, hassignable⟩)
  | some (.function id signature), some (.function id' signature') =>
    obtain ⟨hparams, hresult⟩ := Outline.function.inj (Option.some.inj h)
    exact Or.inr (Or.inr ⟨id, id', signature, signature', rfl, rfl, hparams, hresult⟩)
  | some (.var _), some (.function _ _) | some (.function _ _), some (.var _) => cases Option.some.inj h

lemma agree_value? (name : String) : Agree past
    (fun v w => v.map Value.outline = w.map fun value => value.outline.after past.table) (value? name)
      (value? name) := by
  intro s t hst
  refine ⟨?_, hst⟩
  change (s.values.get? name).map Value.outline = (t.values.get? name).map fun value => value.outline.after past.table
  rw [← ScopeStack.get?_map, ← ScopeStack.get?_map, hst.values]

abbrev Agrees (past : Past) (m : Analysis Lowered) : Prop := Agree past (fun a b => a.ty = b.ty.after past.table) m m

lemma Agree.made {m n : Analysis Lowered} (ty ty' : Ty) (h : ty = ty'.after past.table) (hm : Tacit (·.ty = ty) m)
    (hn : Tacit (·.ty = ty') n) : Agree past (fun a b => a.ty = b.ty.after past.table) m n :=
  .tacit hm hn fun a b ha hb => by rw [ha, hb, h]

lemma agrees_variablePlace (assigning : Bool) (name : Ident) : Agrees past (variablePlace assigning name) := by
  refine (agree_value? name.name).bind fun v w h => ?_
  obtain ⟨rfl, rfl⟩ | ⟨info, info', rfl, rfl, hty, ha⟩ | ⟨_, _, _, _, rfl, rfl, -, -⟩ := Value.outline_cases h
  · exact agree_assume (by rfl) _ (by rfl)
  · change Agree past _ (reportIf (assigning && !info.assignable) _ _ >>= _) (reportIf _ _ _ >>= _)
    rw [ha]
    exact Agree.bind (agree_reportIf _ rfl _) fun _ _ _ =>
      (Agree.within (silent_noteUse _) (silent_noteUse _)).bind fun _ _ _ => .pure hty
  · exact agree_assume (by rfl) _ (by rfl)

lemma tacit_fieldAt (base : Lowered) (index : Nat) (ty : Ty) : Tacit (·.ty = ty) (fieldAt base index ty) := by
  refine .gate (.pure rfl) ?_
  split
  · exact .pure rfl
  · exact .bind within_currentFrame fun _ => .bind silent_newTemp fun _ => .bind (silent_toSimple _) fun _ => .pure rfl

lemma agrees_fieldPlace {base : Analysis Lowered} (hb : Agrees past base) (field : Ident) :
    Agrees past (fieldPlace base field) := by
  refine hb.bind fun base base' hty => (agree_actual hty).bind fun ty ty' h => ?_
  subst h
  cases ty' with
  | record identity fields =>
    dsimp only [Ty.after]
    rw [Ty.field?_after, hty]
    cases Ty.field? fields field.name with
    | none => exact agree_assume (by rfl) _ (by rfl)
    | some found =>
      exact .made _ _ rfl (tacit_fieldAt base _ _) (tacit_fieldAt base' _ _)
  | _ => exact agree_assume (congrArg Fault.notRecord hty) _ rfl

lemma agree_elementType (span : Span) {array array' : Ty} (h : array = array'.after past.table) :
    Agree past (fun a b => a = b.after past.table) (elementType span array) (elementType span array') := by
  refine (agree_actual h).bind fun ty ty' hty => ?_
  subst hty
  cases ty' with
  | array identity element => exact .pure rfl
  | _ => exact agree_assume (congrArg Fault.notArray h) _ rfl

lemma agrees_elementPlace (span : Span) {base : Analysis Lowered} {index : Part} (hb : Agrees past base)
    (hi : Agrees past index.lower) : Agrees past (elementPlace span base index) := by
  refine hb.bind fun base base' hbase => (agree_elementType span hbase).bind fun ty ty' hty =>
    hi.bind fun position position' hposition => Agree.bind (agree_checkType rfl hposition _) fun _ _ _ => ?_
  refine .made ty ty' hty ?_ ?_
  all_goals
    refine .gate (.pure rfl) ?_
    split
    · exact .bind within_currentFrame fun _ => .bind (silent_toSimple _) fun _ => .bind silent_newTemp
        fun _ => .pure rfl
    · exact .pure rfl

lemma agrees_assignment (span : Span) {target value : Analysis Lowered} (ht : Agrees past target)
    (hv : Agrees past value) : Agrees past (assignment span target value) := by
  refine ht.bind fun target target' htarget => hv.bind fun source source' hsource =>
    (agree_checkType htarget hsource span).bind fun _ _ _ => ?_
  refine .made .void .void rfl ?_ ?_
  all_goals
    refine .gate (.pure rfl) ?_
    split
    · exact .bind within_currentFrame fun _ => .pure rfl
    · exact .pure rfl

lemma agrees_negation {operand : Part} (ho : Agrees past operand.lower) : Agrees past (negation operand) := by
  refine ho.bind fun value value' hty => Agree.bind (agree_checkType rfl hty _) fun _ _ _ => ?_
  refine .made .int .int rfl ?_ ?_
  all_goals
    refine .bind silent_newTemp fun _ => .gate (.pure rfl) ?_
    split
    · exact .pure rfl
    · exact .bind within_currentFrame fun _ => .pure rfl

lemma agree_checkOperands (span : Span) (operator : Operator) (operatorSpan : Span) {left left' right right' : Ty}
    (hl : left = left'.after past.table) (hr : right = right'.after past.table) (leftSpan rightSpan : Span) :
    Agree past (· = ·) (checkOperands span operator operatorSpan left right leftSpan rightSpan)
      (checkOperands span operator operatorSpan left' right' leftSpan rightSpan) := by
  refine agree_get.bind fun s t hst => ?_
  simp only [hst.typeTable, hl, hr, TypeTable.actual_append, TypeTable.isInt_append, TypeTable.isString_append,
    TypeTable.isReference_append, TypeTable.fits_append]
  split
  · exact Agree.bind (agree_checkType rfl rfl _) fun _ _ _ => Agree.bind (agree_checkType rfl rfl _) fun _ _ _ =>
      .pure rfl
  · split
    · split
      · exact Agree.bind (agree_checkType rfl rfl _) fun _ _ _ => Agree.bind (agree_checkType rfl rfl _) fun _ _ _ =>
          .pure rfl
      · exact agree_assume (by rfl) _ (by rfl)
    · split
      · split
        · exact .pure rfl
        · exact agree_assume (by rfl) _ (by rfl)
      · exact agree_assume (by rfl) _ (by rfl)

lemma silent_operationCode (operator : Operator) (operands : Operands) (result : Temp) (left right : Lowered)
    (lhs rhs : Access) : Within Silent (operationCode operator operands result left right lhs rhs) := by
  unfold operationCode
  split
  · exact silent_newLabel.bind fun _ => silent_newLabel.bind fun _ => within_currentFrame.bind fun _ => .pure _
  · exact silent_newLabel.bind fun _ => silent_newLabel.bind fun _ => within_currentFrame.bind fun _ => .pure _
  · split
    · exact silent_newTemp.bind fun _ => (silent_useRuntime _).bind fun _ => within_currentFrame.bind fun _ => .pure _
    · exact within_currentFrame.bind fun _ => .pure _

lemma agrees_operation (span : Span) (operator : Operator) (operatorSpan : Span) {lhs rhs : Part}
    (hl : Agrees past lhs.lower) (hr : Agrees past rhs.lower) :
    Agrees past (operation span operator operatorSpan lhs rhs) := by
  refine hl.bind fun left left' hleft => hr.bind fun right right' hright =>
    (agree_checkOperands span operator operatorSpan hleft hright _ _).bind fun operands operands' _ => ?_
  refine .made .int .int rfl ?_ ?_
  all_goals
    refine .bind silent_newTemp fun _ => .gate (.pure rfl) ?_
    split
    · exact .pure rfl
    · split
      · exact .bind (silent_operationCode _ _ _ _ _ _ _) fun _ => .pure rfl
      · exact .pure rfl

lemma agrees_breakLoop (span : Span) : Agrees past (breakLoop span) := by
  refine agree_get.bind fun s t hst => ?_
  have hexits := hst.exits
  match hs : s.exits, ht : t.exits with
  | [], [] | none :: _, none :: _ => exact agree_assume (by rfl) _ (by rfl)
  | some _ :: _, some _ :: _ => exact (Agree.within within_currentFrame within_currentFrame).bind fun _ _ _ => .pure rfl
  | [], _ :: _ | _ :: _, [] | none :: _, some _ :: _ | some _ :: _, none :: _ => simp [hs, ht] at hexits

lemma agrees_ifThen {condition positive : Part} (hc : Agrees past condition.lower) (hp : Agrees past positive.lower) :
    Agrees past (ifThen condition positive) := by
  refine hc.bind fun test test' htest => Agree.bind (agree_checkType rfl htest _) fun _ _ _ =>
    hp.bind fun body body' hbody => Agree.bind (agree_checkType rfl hbody _) fun _ _ _ => ?_
  refine .made .void .void rfl ?_ ?_
  all_goals
    refine .gate (.pure rfl) ?_
    split
    · exact .pure rfl
    · exact .bind within_currentFrame fun _ => .bind silent_newLabel fun _ => .pure rfl

lemma agree_branchType (positive negative : Part) {yes yes' no no' : Ty} (hy : yes = yes'.after past.table)
    (hn : no = no'.after past.table) :
    Agree past (fun a b => a = b.after past.table) (branchType positive negative yes no)
      (branchType positive negative yes' no') := by
  refine (agree_isNil hy).bind fun isNil _ h => ?_
  subst h
  split
  · exact (agree_checkType hn hy _).bind fun _ _ _ => .pure hn
  · exact (agree_checkType hy hn _).bind fun _ _ _ => .pure hy

lemma agrees_ifThenElse {condition positive negative : Part} (hc : Agrees past condition.lower)
    (hp : Agrees past positive.lower) (hn : Agrees past negative.lower) :
    Agrees past (ifThenElse condition positive negative) := by
  refine hc.bind fun test test' htest => Agree.bind (agree_checkType rfl htest _) fun _ _ _ =>
    hp.bind fun yes yes' hyes => hn.bind fun no no' hno =>
    (agree_branchType positive negative hyes hno).bind fun ty ty' hty => ?_
  refine .made ty ty' hty ?_ ?_
  all_goals
    refine .bind (silent_resultTemp _) fun _ => .gate (.pure rfl) ?_
    split
    · exact .pure rfl
    · exact .bind within_currentFrame fun _ => .bind silent_newLabel fun _ => .bind silent_newLabel fun _ => .pure rfl

lemma agree_inLoop (exit exit' : Label) {body : Analysis Lowered} (hb : Agrees past body) :
    Agree past (fun a b => a.ty = b.ty.after past.table) (inLoop exit body) (inLoop exit' body) := by
  have hpush : Agree past (· = ·) (pushExit (some exit)) (pushExit (some exit')) :=
    agree_modify fun s t hst => ⟨hst.errors, hst.values, hst.types, hst.typeTable, by simp [hst.exits]⟩
  have hpop : Agree past (· = ·) popExit popExit :=
    agree_modify fun s t hst => ⟨hst.errors, hst.values, hst.types, hst.typeTable, by simp [List.map_tail, hst.exits]⟩
  exact hpush.bind fun _ _ _ => hb.bind fun _ _ hinside => hpop.bind fun _ _ _ => .pure hinside

lemma agrees_whileLoop {condition body : Part} (hc : Agrees past condition.lower) (hb : Agrees past body.lower) :
    Agrees past (whileLoop condition body) := by
  refine (Agree.within silent_newLabel silent_newLabel).bind fun _ _ _ =>
    (Agree.within silent_newLabel silent_newLabel).bind fun exit exit' _ => hc.bind fun test test' htest =>
    (agree_inLoop exit exit' hb).bind fun inside inside' hinside =>
      Agree.bind (agree_checkType rfl htest _) fun _ _ _ =>
    Agree.bind (agree_checkType rfl hinside _) fun _ _ _ => ?_
  refine .made .void .void rfl ?_ ?_
  all_goals
    refine .gate (.pure rfl) ?_
    split
    · exact .pure rfl
    · exact .bind within_currentFrame fun _ => .pure rfl

lemma agree_openValues : Agree past (· = ·) openValues openValues :=
  agree_modify fun s t hst => ⟨hst.errors, by simp [hst.values], hst.types, hst.typeTable, hst.exits⟩

lemma agree_closeValues : Agree past (· = ·) closeValues closeValues :=
  agree_modify fun s t hst => ⟨hst.errors, by simp [hst.values], hst.types, hst.typeTable, hst.exits⟩

lemma agree_forBody (counter : Ident) (place place' : Temp) (exit exit' : Label) {body : Part}
    (hb : Agrees past body.lower) :
    Agree past (fun a b => a.ty = b.ty.after past.table) (forBody counter place exit body)
      (forBody counter place' exit' body) := by
  refine agree_openValues.bind fun _ _ _ => Agree.bind (agree_putValue counter.name (by rfl)) fun _ _ _ =>
    (agree_inLoop exit exit' hb).bind fun inside inside' hinside => Agree.bind (agree_checkType rfl hinside _)
      fun _ _ _ => ?_
  exact agree_closeValues.bind fun _ _ _ => .pure hinside

lemma agrees_forLoop (counter : Ident) {first last body : Part} (hf : Agrees past first.lower)
    (hl : Agrees past last.lower) (hb : Agrees past body.lower) : Agrees past (forLoop counter first last body) := by
  refine hf.bind fun low low' hlow => hl.bind fun high high' hhigh =>
      Agree.bind (agree_checkType rfl hlow _) fun _ _ _ =>
    Agree.bind (agree_checkType rfl hhigh _) fun _ _ _ =>
    (Agree.within silent_newLabel silent_newLabel).bind fun exit exit' _ =>
    (Agree.within silent_newTemp silent_newTemp).bind fun place place' _ =>
    (agree_forBody counter place place' exit exit' hb).bind fun inside inside' _ => ?_
  refine .made .void .void rfl ?_ ?_
  all_goals
    refine .gate (.pure rfl) ?_
    split
    · exact .bind silent_newTemp fun _ => .bind silent_newLabel fun _ => .bind within_currentFrame fun _ => .pure rfl
    · exact .pure rfl

lemma agree_newIdentity {make make' : Nat → Ty}
    (h : ∀ n, make (past.table.identities + n) = (make' n).after past.table) :
    Agree past (fun a b => a = b.after past.table) (onTypes (do return make (← TypeTable.newIdentity)))
      (onTypes (do return make' (← TypeTable.newIdentity))) := by
  intro s t hst
  refine ⟨?_, hst.errors, hst.values, hst.types, ?_, hst.exits⟩
  · change make s.typeTable.identities = (make' t.typeTable.identities).after past.table
    rw [hst.typeTable]
    exact h _
  · change { s.typeTable with identities := s.typeTable.identities + 1 } =
      past.table.append { t.typeTable with identities := t.typeTable.identities + 1 }
    rw [hst.typeTable]
    rfl

lemma agree_arrayType? (name : Ident) : Agree past
    (fun a b => a = b.map fun found => (found.1.after past.table, found.2.after past.table)) (arrayType? name)
      (arrayType? name) := by
  refine (agree_type? name.name).bind fun found found' h => ?_
  subst h
  cases found' with
  | none => exact agree_assume (by rfl) _ (by rfl)
  | some found =>
    refine Agree.bind (agree_actual rfl) fun ty ty' hty => ?_
    subst hty
    cases ty' with
    | array identity element => exact .pure rfl
    | _ => exact agree_assume (by rfl) _ (by rfl)

lemma tacit_arrayOf (size init : Lowered) (ty : Ty) (count value : Access) :
    Tacit (·.ty = ty) (arrayOf size init ty count value) :=
  .bind silent_newTemp fun _ => .bind silent_newTemp fun _ => .bind silent_newTemp fun _ =>
    .bind (silent_useRuntime _) fun _ => .bind silent_newLabel fun _ => .bind silent_newLabel fun _ =>
    .bind within_currentFrame fun _ => .pure rfl

lemma agrees_arrayCreation (name : Ident) {size init : Part} (hs : Agrees past size.lower)
    (hi : Agrees past init.lower) : Agrees past (arrayCreation name size init) := by
  refine (agree_arrayType? name).bind fun found found' hfound => hs.bind fun count count' hcount =>
    Agree.bind (agree_checkType rfl hcount _) fun _ _ _ => hi.bind fun value value' hvalue => ?_
  subst hfound
  cases found' with
  | none => exact Agree.bind (agree_newIdentity fun _ => rfl) fun _ _ hty => .pure hty
  | some found =>
    obtain ⟨ty, element⟩ := found
    refine Agree.bind (agree_checkType rfl hvalue _) fun _ _ _ => ?_
    refine .made (ty.after past.table) ty rfl ?_ ?_
    all_goals
      refine .gate (.pure rfl) ?_
      split
      · exact tacit_arrayOf _ _ _ _ _
      · exact .pure rfl

lemma agree_recordType? (name : Ident) : Agree past
    (fun a b => a = b.map fun found => (found.1.after past.table, Ty.fieldsAfter past.table found.2)) (recordType? name)
      (recordType? name) := by
  refine (agree_type? name.name).bind fun found found' h => ?_
  subst h
  cases found' with
  | none => exact agree_assume (by rfl) _ (by rfl)
  | some found =>
    refine Agree.bind (agree_actual rfl) fun ty ty' hty => ?_
    subst hty
    cases ty' with
    | record identity fields => exact .pure rfl
    | _ => exact agree_assume (by rfl) _ (by rfl)

lemma agree_initField (target target' : Temp) (index : Nat) (expected : String) {ty ty' : Ty}
    (hty : ty = ty'.after past.table) (name : Ident) {value : Part} (hv : Agrees past value.lower) :
    Agree past (fun _ _ => True) (initField target index expected ty name value)
      (initField target' index expected ty' name value) := by
  refine Agree.bind (agree_reportIf _ (by rfl) _) fun _ _ _ => hv.bind fun init init' hinit =>
    (agree_checkType hty hinit _).bind fun _ _ _ => ?_
  refine .within ?_ ?_
  all_goals
    refine silent_gate (.pure _) ?_
    split
    · exact .pure _
    · exact within_currentFrame.bind fun _ => .pure _

lemma silent_allocateRecord (target : Temp) (count : Nat) : Within Silent (allocateRecord target count) :=
  silent_gate (.pure _) (silent_newTemp.bind fun _ => (silent_useRuntime _).bind fun _ =>
    within_currentFrame.bind fun _ => .pure _)

lemma agrees_recordCreation (span : Span) (name : Ident) (given : Nat)
    {init : Temp → List (String × Ty) → Analysis (List Code)} {check : Analysis Unit}
    (hi : ∀ target target' fields, Agree past (fun _ _ => True) (init target (Ty.fieldsAfter past.table fields))
      (init target' fields)) (hc : Agree past (fun _ _ => True) check check) :
    Agrees past (recordCreation span name given init check) := by
  refine (agree_recordType? name).bind fun found found' hfound => ?_
  subst hfound
  cases found' with
  | none => exact hc.bind fun _ _ _ => Agree.bind (agree_newIdentity fun _ => rfl) fun _ _ hty => .pure hty
  | some found =>
    obtain ⟨ty, fields⟩ := found
    refine (Agree.within silent_newTemp silent_newTemp).bind fun target target' _ =>
      (Agree.within (silent_allocateRecord _ _) (silent_allocateRecord _ _)).bind fun _ _ _ =>
      (hi target target' fields).bind fun _ _ _ => ?_
    rw [Ty.length_fieldsAfter]
    refine Agree.bind (agree_reportIf _ (by rfl) _) fun _ _ _ => ?_
    exact .made (ty.after past.table) ty rfl (.gate (.pure rfl) (.pure rfl)) (.gate (.pure rfl) (.pure rfl))

lemma tacit_callCode (name : String) (signature : Signature) (code : List Code) (actuals : List Access) :
    Tacit (·.ty = signature.result) (callCode name signature code actuals) := by
  have hoperation : ∀ destination, Within Silent (callOperation name signature.entry destination actuals) := by
    intro destination
    unfold callOperation
    split
    · exact .pure _
    · exact (silent_useRuntime _).bind fun _ => .pure _
  exact .gate (.pure rfl) (.bind (silent_resultTemp _) fun _ => .bind (hoperation _) fun _ =>
    .bind within_currentFrame fun _ => .pure rfl)

lemma agree_callOf (span : Span) (function : Ident) (id id' : FunctionId) {signature signature' : Signature}
    (hp : signature.params = signature'.params.map (Param.after past.table))
    (hr : signature.result = signature'.result.after past.table) (given : Nat)
    {arguments : List Param → Analysis (List Code × List Access)}
    (ha : ∀ params, Agree past (fun _ _ => True) (arguments (params.map (Param.after past.table))) (arguments params)) :
    Agree past (fun a b => a.ty = b.ty.after past.table) (callOf span function id signature given arguments)
      (callOf span function id' signature' given arguments) := by
  unfold callOf
  rw [hp, List.length_map]
  refine (ha _).bind fun lowered lowered' _ => Agree.bind (agree_reportIf _ (by rfl) _) fun _ _ _ =>
    (Agree.within (silent_noteCall _) (silent_noteCall _)).bind fun _ _ _ =>
    (Agree.within (silent_noteEdge _) (silent_noteEdge _)).bind fun _ _ _ => ?_
  exact .made _ _ hr (tacit_callCode _ _ _ _) (tacit_callCode _ _ _ _)

lemma agrees_call (span : Span) (function : Ident) (given : Nat)
    {arguments : List Param → Analysis (List Code × List Access)}
    (ha : ∀ params, Agree past (fun _ _ => True) (arguments (params.map (Param.after past.table))) (arguments params)) :
    Agrees past (call span function given arguments) := by
  refine (agree_value? function.name).bind fun v w h => ?_
  obtain ⟨rfl, rfl⟩ | ⟨_, _, rfl, rfl, -, -⟩ | ⟨id, id', _, _, rfl, rfl, hp, hr⟩ := Value.outline_cases h
  · exact agree_assume (by rfl) _ (by rfl)
  · exact agree_assume (by rfl) _ (by rfl)
  · exact agree_callOf span function id id' hp hr given ha

lemma agree_typeOf (name : Ident) : Agree past (fun a b => a = b.after past.table) (typeOf name) (typeOf name) := by
  refine (agree_type? name.name).bind fun found found' h => ?_
  subst h
  cases found' with
  | none => exact agree_assume (by rfl) _ (by rfl)
  | some ty => exact .pure rfl

lemma agree_variableType (name : Ident) (declared : Option Ident) {given given' : Ty}
    (hg : given = given'.after past.table) (span : Span) :
    Agree past (fun a b => a = b.after past.table) (variableType name declared given span)
      (variableType name declared given' span) := by
  cases declared with
  | some declared =>
    refine (agree_type? declared.name).bind fun found found' h => ?_
    subst h
    cases found' with
    | none => exact agree_assume (by rfl) _ (by rfl)
    | some ty => exact Agree.bind (agree_checkType rfl hg _) fun _ _ _ => .pure rfl
  | none =>
    refine (agree_isNil hg).bind fun isNil _ hnil => (agree_isVoid hg).bind fun isVoid _ hvoid => ?_
    subst hnil hvoid
    split
    · exact agree_assume (congrArg (Fault.invalidInitializer · name.name) hg) _ (by rfl)
    · exact .pure hg

lemma agree_variableDeclaration (name : Ident) (declared : Option Ident) {value : Part} (hv : Agrees past value.lower) :
    Agree past (fun _ _ => True) (variableDeclaration name declared value)
        (variableDeclaration name declared value) := by
  refine hv.bind fun init init' hinit => (agree_variableType name declared hinit _).bind fun ty ty' hty =>
    (Agree.within silent_newTemp silent_newTemp).bind fun place place' _ =>
    Agree.bind (agree_putValue _ (congrArg (Outline.var · true) hty)) fun _ _ _ => ?_
  refine .within ?_ ?_
  all_goals
    refine silent_gate (.pure _) ?_
    split
    · exact .pure _
    · exact within_currentFrame.bind fun _ => .pure _

lemma agree_typedNames (names : List (Ident × Ident)) :
    Agree past (fun a b => a = Ty.fieldsAfter past.table b) (typedNames names) (typedNames names) := by
  induction names with
  | nil => exact .pure rfl
  | cons name rest ih =>
    refine (agree_typeOf name.2).bind fun ty ty' hty => ih.bind fun others others' hothers => .pure ?_
    rw [hty, hothers]
    rfl

lemma agree_typeExpression (ty : TypeExpr) :
    Agree past (fun a b => a = b.after past.table) (typeExpression ty) (typeExpression ty) := by
  cases ty with
  | name name => exact agree_typeOf name
  | array element =>
    refine (agree_typeOf element).bind fun ty ty' hty => ?_
    subst hty
    exact agree_newIdentity fun _ => rfl
  | record fields =>
    refine (agree_typedNames fields).bind fun typed typed' htyped => ?_
    subst htyped
    exact agree_newIdentity fun _ => rfl

lemma agree_newName : Agree past (fun a b => a = TypeNameId.after past.table b) (onTypes TypeTable.newName)
    (onTypes TypeTable.newName) := by
  intro s t hst
  refine ⟨?_, hst.errors, hst.values, hst.types, ?_, hst.exits⟩
  · change s.typeTable.bindings.next = TypeNameId.after past.table t.typeTable.bindings.next
    rw [hst.typeTable, TypeTable.next_append]
  · change { s.typeTable with bindings := s.typeTable.bindings.push none } =
      past.table.append { t.typeTable with bindings := t.typeTable.bindings.push none }
    rw [hst.typeTable, TypeTable.push_append]
    rfl

def renumbered (earlier : TypeTable) (entered : TypeDecl × Option TypeNameId) : TypeDecl × Option TypeNameId :=
  (entered.1, entered.2.map (TypeNameId.after earlier))

lemma agree_enterTypes (seen : List String) (members : List TypeDecl) :
    Agree past (fun a b => a = b.map (renumbered past.table)) (enterTypes seen members) (enterTypes seen members) := by
  induction members generalizing seen with
  | nil => exact .pure rfl
  | cons decl rest ih =>
    unfold enterTypes
    split
    · refine Agree.bind (agree_report (by rfl) _) fun _ _ _ => (ih seen).bind fun others others' hothers => .pure ?_
      rw [hothers]
      rfl
    · refine agree_newName.bind fun id id' hid => ?_
      have hput : Agree past (· = ·) (putType decl.name.name (.name id decl.name.name))
          (putType decl.name.name (.name id' decl.name.name)) :=
        agree_modify fun s t hst =>
          ⟨hst.errors, hst.values, by simp [hst.types, hid, Ty.after], hst.typeTable, hst.exits⟩
      refine hput.bind fun _ _ _ => (ih _).bind fun others others' hothers => .pure ?_
      rw [hothers, hid]
      rfl

lemma agree_bindType (id : TypeNameId) {ty ty' : Ty} (h : ty = ty'.after past.table) :
    Agree past (· = ·) (bindType (TypeNameId.after past.table id) ty) (bindType id ty') :=
  agree_modify fun s t hst => ⟨hst.errors, hst.values, hst.types, by simp [hst.typeTable, h], hst.exits⟩

lemma agree_bindTypes (entered : List (TypeDecl × Option TypeNameId)) :
    Agree past (· = ·) (bindTypes (entered.map (renumbered past.table))) (bindTypes entered) := by
  induction entered with
  | nil => exact .pure rfl
  | cons entry rest ih =>
    obtain ⟨decl, id⟩ := entry
    cases id with
    | none => exact (agree_typeExpression decl.ty).bind fun _ _ _ => ih
    | some id => exact (agree_typeExpression decl.ty).bind fun _ _ hty => (agree_bindType id hty).bind fun _ _ _ => ih

lemma agree_breakCycle (name : Ident) (id : TypeNameId) :
    Agree past (· = ·) (breakCycle name (TypeNameId.after past.table id)) (breakCycle name id) := by
  refine agree_get.bind fun s t hst => ?_
  rw [hst.typeTable, TypeTable.isCycle_append]
  split
  · exact Agree.bind (agree_report (by rfl) _) fun _ _ _ => agree_bindType id rfl
  · exact .pure rfl

lemma agree_breakCycles (entered : List (TypeDecl × Option TypeNameId)) :
    Agree past (· = ·) (breakCycles (entered.map (renumbered past.table))) (breakCycles entered) := by
  induction entered with
  | nil => exact .pure rfl
  | cons entry rest ih =>
    obtain ⟨decl, id⟩ := entry
    cases id with
    | none => exact ih
    | some id => exact (agree_breakCycle decl.name id).bind fun _ _ _ => ih

lemma agree_typeGroup (members : List TypeDecl) : Agree past (· = ·) (typeGroup members) (typeGroup members) := by
  refine (agree_enterTypes [] members).bind fun entered entered' h => ?_
  subst h
  exact (agree_bindTypes entered').bind fun _ _ _ => agree_breakCycles entered'

structure Declared.Echoes (past : Past) (d e : Declared) : Prop where
  params : d.params = e.params.map (Param.after past.table)
  result : d.result = e.result.after past.table
  formals : d.entry.formals.length = e.params.length
  formals' : e.entry.formals.length = e.params.length

lemma agree_resultType (result : Option Ident) :
    Agree past (fun a b => a = b.after past.table) (resultType result) (resultType result) := by
  cases result with
  | none => exact .pure rfl
  | some name => exact agree_typeOf name

lemma tacit_newFrame (name : String) (label : Label) (params : Nat) (hasResult : Bool) :
    Tacit (·.params.length = params) (newFrame name label params hasResult) := by
  intro s
  rw [newFrame_eq]
  exact ⟨by simp, rfl, rfl, rfl, rfl, rfl⟩

lemma agree_declareFunction (decl : FunctionDecl) :
    Agree past (Declared.Echoes past) (declareFunction decl) (declareFunction decl) := by
  have hframe : ∀ frame, Within Silent (addFrame frame) := fun _ _ => ⟨rfl, rfl, rfl, rfl, rfl⟩
  have hfunction : ∀ function, Within Silent (addFunction function) := fun _ _ => ⟨rfl, rfl, rfl, rfl, rfl⟩
  refine (agree_resultType decl.result).bind fun result result' hresult =>
    (agree_typedNames decl.params).bind fun typed typed' htyped =>
    (Agree.within silent_newLabel silent_newLabel).bind fun label label' _ =>
    (agree_isVoid hresult).bind fun isVoid _ _ => ?_
  refine (Agree.tacit (tacit_newFrame _ _ _ _) (tacit_newFrame _ _ _ _) fun a b ha hb => And.intro ha hb).bind
    fun frame frame' hformals => ?_
  refine (Agree.within (hframe _) (hframe _)).bind fun _ _ _ =>
    (Agree.within (hfunction _) (hfunction _)).bind fun _ _ _ => .pure ?_
  refine ⟨?_, hresult, hformals.1.trans (by simp [htyped]), hformals.2⟩
  simp [htyped, Ty.fieldsAfter_eq_map, Param.after]

lemma agree_enterName (seen : List String) (name : Ident) {declared declared' : Declared}
    (h : declared.Echoes past declared') :
    Agree past (· = ·) (enterName seen name declared) (enterName seen name declared') := by
  unfold enterName
  split
  · exact agree_report (by rfl) _
  · exact agree_putValue _ (congrArg₂ Outline.function h.params h.result)

lemma agree_declareFunctions (seen : List String) (members : List FunctionDecl) :
    Agree past (List.Forall₂ (Declared.Echoes past)) (declareFunctions seen members)
        (declareFunctions seen members) := by
  induction members generalizing seen with
  | nil => exact .pure .nil
  | cons decl rest ih =>
    exact (agree_declareFunction decl).bind fun _ _ hdeclared => (agree_enterName seen decl.name hdeclared).bind
      fun _ _ _ => (ih _).bind fun _ _ hothers => .pure (.cons hdeclared hothers)

lemma outline_foldl_put (params : List Param) {formals formals' : List Temp} {u v : ScopeStack Value}
    (hl : formals.length = params.length) (hl' : formals'.length = params.length)
    (h : u.map Value.outline = v.map fun value => value.outline.after past.table) :
    (((params.map (Param.after past.table)).zip formals).foldl (fun values entry =>
      values.put entry.1.name (.var { ty := entry.1.ty, place := entry.2, assignable := true })) u).map Value.outline =
    ((params.zip formals').foldl (fun values entry =>
      values.put entry.1.name (.var { ty := entry.1.ty, place := entry.2, assignable := true })) v).map
        fun value => value.outline.after past.table := by
  induction params generalizing formals formals' u v with
  | nil => simpa using h
  | cons param params ih =>
    obtain ⟨place, formals, rfl⟩ := List.exists_cons_of_length_eq_add_one hl
    obtain ⟨place', formals', rfl⟩ := List.exists_cons_of_length_eq_add_one hl'
    refine ih (Nat.succ.inj hl) (Nat.succ.inj hl') ?_
    rw [ScopeStack.put_map, ScopeStack.put_map, h]
    rfl

lemma agree_inFunction {declared declared' : Declared} (h : declared.Echoes past declared') {body : Analysis Lowered}
    (hb : Agrees past body) :
    Agree past (fun a b => a.ty = b.ty.after past.table) (inFunction declared body) (inFunction declared' body) := by
  have henter : Agree past (· = ·) (enterFunction declared) (enterFunction declared') := by
    refine agree_modify fun s t hst => ⟨hst.errors, ?_, hst.types, hst.typeTable, by simp [hst.exits]⟩
    rw [h.params]
    exact outline_foldl_put declared'.params h.formals h.formals' (by simp [hst.values])
  have hleave : ∀ outer outer', Agree past (· = ·) (leaveFunction outer) (leaveFunction outer') := fun _ _ =>
    agree_modify fun s t hst => ⟨hst.errors, by simp [hst.values], hst.types, hst.typeTable,
      by simp [List.map_tail, hst.exits]⟩
  exact (Agree.within within_currentFrame within_currentFrame).bind fun _ _ _ => henter.bind fun _ _ _ =>
    hb.bind fun _ _ hinside => (hleave _ _).bind fun _ _ _ => .pure hinside

lemma agree_functionBody {declared declared' : Declared} (h : declared.Echoes past declared') {body : Part}
    (hb : Agrees past body.lower) :
    Agree past (fun _ _ => True) (functionBody declared body) (functionBody declared' body) := by
  refine (agree_inFunction h hb).bind fun inside inside' hinside => (agree_checkType h.result hinside _).bind
    fun _ _ _ => ?_
  exact .within (silent_gate (.pure _) (.pure _)) (silent_gate (.pure _) (.pure _))

lemma agree_functionGroup (members : List FunctionDecl) {bodies : List Declared → Analysis (List Code)}
    (hb : ∀ declared declared', List.Forall₂ (Declared.Echoes past) declared declared' →
      Agree past (fun _ _ => True) (bodies declared) (bodies declared')) :
    Agree past (fun _ _ => True) (functionGroup members bodies) (functionGroup members bodies) := by
  refine (agree_declareFunctions [] members).bind fun declared declared' h => (hb _ _ h).bind fun code code' _ =>
    (Agree.within (silent_closeForeigns _) (silent_closeForeigns _)).bind fun _ _ _ => ?_
  refine .within ?_ ?_
  all_goals
    exact silent_gate (.pure _) (silent_newLabel.bind fun _ => within_currentFrame.bind fun _ => .pure _)

lemma agrees_letIn {declarations : Analysis (List Code)} {body : Analysis Lowered}
    (hd : Agree past (fun _ _ => True) declarations declarations) (hb : Agrees past body) :
    Agrees past (letIn declarations body) := by
  have hopen : Agree past (· = ·) openTypes openTypes :=
    agree_modify fun s t hst => ⟨hst.errors, hst.values, by simp [hst.types], hst.typeTable, hst.exits⟩
  have hclose : Agree past (· = ·) closeTypes closeTypes :=
    agree_modify fun s t hst => ⟨hst.errors, hst.values, by simp [hst.types], hst.typeTable, hst.exits⟩
  exact agree_openValues.bind fun _ _ _ => hopen.bind fun _ _ _ => hd.bind fun _ _ _ => hb.bind fun _ _ hinside =>
    agree_closeValues.bind fun _ _ _ => hclose.bind fun _ _ _ => .pure hinside

mutual

lemma agrees_lowerExpr (expression : Expr) : Agrees past (lowerExpr expression) := by
  cases expression with
  | int span value => exact .pure rfl
  | string span text =>
    exact (Agree.within (silent_internString text) (silent_internString text)).bind fun _ _ _ => .pure rfl
  | nil span => exact .pure rfl
  | breakLoop span => exact agrees_breakLoop span
  | lvalue span place => exact agrees_lowerLValue false place
  | assign span target value => exact agrees_assignment span (agrees_lowerLValue true target) (agrees_lowerExpr value)
  | operation span operator operatorSpan lhs rhs =>
    exact agrees_operation _ _ _ (agrees_lowerExpr lhs) (agrees_lowerExpr rhs)
  | negate span operand => exact agrees_negation (agrees_lowerExpr operand)
  | call span function arguments => exact agrees_call _ _ _ fun params => agree_lowerArguments params arguments
  | sequence span expressions => exact agrees_lowerSequence expressions
  | ifThen span condition positive => exact agrees_ifThen (agrees_lowerExpr condition) (agrees_lowerExpr positive)
  | ifThenElse span condition positive negative =>
    exact agrees_ifThenElse (agrees_lowerExpr condition) (agrees_lowerExpr positive) (agrees_lowerExpr negative)
  | whileLoop span condition body => exact agrees_whileLoop (agrees_lowerExpr condition) (agrees_lowerExpr body)
  | forLoop span counter first last body =>
    exact agrees_forLoop _ (agrees_lowerExpr first) (agrees_lowerExpr last) (agrees_lowerExpr body)
  | letIn span groups body => exact agrees_letIn (agree_lowerGroups groups) (agrees_lowerSequence body)
  | array span ty size init => exact agrees_arrayCreation _ (agrees_lowerExpr size) (agrees_lowerExpr init)
  | record span ty fields =>
    exact agrees_recordCreation _ _ _
      (fun target target' declared => agree_lowerFields target target' 0 declared fields) (agree_checkFields fields)

lemma agrees_lowerSequence (expressions : List Expr) : Agrees past (lowerSequence expressions) := by
  match expressions with
  | [] => exact .pure rfl
  | [expression] => exact agrees_lowerExpr expression
  | expression :: next :: rest =>
    exact (agrees_lowerExpr expression).bind fun _ _ _ => (agrees_lowerSequence (next :: rest)).bind fun _ _ hothers =>
      .pure hothers

lemma agree_lowerArguments (params : List Param) (arguments : List Expr) :
    Agree past (fun _ _ => True) (lowerArguments (params.map (Param.after past.table)) arguments)
      (lowerArguments params arguments) := by
  match params, arguments with
  | [], [] | _ :: _, [] => exact .pure trivial
  | [], argument :: rest => exact (agrees_lowerExpr argument).bind fun _ _ _ => agree_lowerArguments [] rest
  | param :: params, argument :: rest =>
    exact (agrees_lowerExpr argument).bind fun _ _ hty => Agree.bind (agree_checkType rfl hty _) fun _ _ _ =>
      (agree_lowerArguments params rest).bind fun _ _ _ => .pure trivial

lemma agree_lowerFields (target target' : Temp) (index : Nat) (declared : List (String × Ty))
    (fields : List (Ident × Expr)) :
    Agree past (fun _ _ => True) (lowerFields target index (Ty.fieldsAfter past.table declared) fields)
      (lowerFields target' index declared fields) := by
  match declared, fields with
  | [], [] | _ :: _, [] => exact .pure trivial
  | [], (name, value) :: rest =>
    exact (agrees_lowerExpr value).bind fun _ _ _ => (agree_checkFields rest).bind fun _ _ _ => .pure trivial
  | (expected, ty) :: declared, (name, value) :: rest =>
    exact Agree.bind (agree_initField target target' index expected rfl name (agrees_lowerExpr value)) fun _ _ _ =>
      (agree_lowerFields target target' (index + 1) declared rest).bind fun _ _ _ => .pure trivial

lemma agree_checkFields (fields : List (Ident × Expr)) :
    Agree past (fun _ _ => True) (checkFields fields) (checkFields fields) := by
  match fields with
  | [] => exact .pure trivial
  | (name, value) :: rest => exact (agrees_lowerExpr value).bind fun _ _ _ => agree_checkFields rest

lemma agrees_lowerLValue (assigning : Bool) (place : LValue) : Agrees past (lowerLValue assigning place) := by
  cases place with
  | var span name => exact agrees_variablePlace assigning name
  | field span base name => exact agrees_fieldPlace (agrees_lowerLValue assigning base) name
  | subscript span base index =>
    exact agrees_elementPlace span (agrees_lowerLValue assigning base) (agrees_lowerExpr index)

lemma agree_lowerGroups (groups : List Group) :
    Agree past (fun _ _ => True) (lowerGroups groups) (lowerGroups groups) := by
  match groups with
  | [] => exact .pure trivial
  | group :: rest =>
    exact (agree_lowerGroup group).bind fun _ _ _ => (agree_lowerGroups rest).bind fun _ _ _ => .pure trivial

lemma agree_lowerGroup (group : Group) : Agree past (fun _ _ => True) (lowerGroup group) (lowerGroup group) := by
  cases group with
  | var name ty value => exact agree_variableDeclaration name ty (agrees_lowerExpr value)
  | types members => exact (agree_typeGroup members).bind fun _ _ _ => .pure trivial
  | functions members => exact agree_functionGroup members fun _ _ h => agree_lowerBodies members h

lemma agree_lowerBodies (members : List FunctionDecl) {declared declared' : List Declared}
    (h : List.Forall₂ (Declared.Echoes past) declared declared') :
    Agree past (fun _ _ => True) (lowerBodies members declared) (lowerBodies members declared') := by
  match members, h with
  | [], _ => exact .pure trivial
  | .mk _ _ _ _ :: _, .nil => exact .pure trivial
  | .mk _ _ _ body :: rest, .cons hfirst hothers =>
    exact Agree.bind (agree_functionBody hfirst (agrees_lowerExpr body)) fun _ _ _ =>
      (agree_lowerBodies rest hothers).bind fun _ _ _ => .pure trivial

end

end Analysis

def Expr.diagnostics (expression : Expr) : List (String × Span) :=
  (analyze expression).1.map fun error => (error.1.message, error.2)

namespace Analyzer

lemma echoes_initial {s : Analyzer} (h : initial.Keeps s) : s.Echoes ⟨s.typeTable, s.errors⟩ initial := by
  refine ⟨(List.append_nil _).symm, ?_, ?_, (TypeTable.append_empty).symm, ?_⟩
  · rw [h.values]
    rfl
  · rw [h.types]
    rfl
  · rw [h.exits]

lemma echoes_recorded (s : Analyzer) (recorded : List (Fault × Span)) :
    { s with errors := recorded ++ s.errors }.Echoes ⟨{}, recorded⟩ s where
  errors := by simp
  values := by simp
  types := by simp [funext Ty.after_empty]
  typeTable := (TypeTable.empty_append _).symm
  exits := rfl

end Analyzer

lemma diagnostics_lowerSequence (expressions : List Expr) {s : Analyzer} (h : Analyzer.initial.Keeps s) :
    (Analysis.lowerSequence expressions s).2.errors.map (fun error => (error.1.message, error.2)) =
      s.errors.map (fun error => (error.1.message, error.2)) ++ expressions.flatMap Expr.diagnostics := by
  have hfirst : ∀ expression {s}, Analyzer.initial.Keeps s →
      (Analysis.lowerExpr expression s).2.errors.map (fun error => (error.1.message, error.2)) =
        s.errors.map (fun error => (error.1.message, error.2)) ++ expression.diagnostics := by
    intro expression s h
    rw [(Analysis.agrees_lowerExpr expression _ _ (Analyzer.echoes_initial h)).2.errors]
    simp [Expr.diagnostics, analyze, Function.comp_def]
  match expressions with
  | [] => exact (List.append_nil _).symm
  | [expression] =>
    rw [List.flatMap_singleton]
    exact hfirst expression h
  | expression :: next :: rest =>
    have hkeeps := Analyzer.Keeps.trans h (Analysis.keeps_lowerExpr expression s)
    have hrest := diagnostics_lowerSequence (next :: rest) hkeeps
    rw [hfirst expression h, List.append_assoc] at hrest
    exact hrest

/-- Expressions of a sequence are told their faults as if each of them stood alone: what has been recorded only keeps
code from being made. -/
theorem diagnostics_sequence (span : Span) (expressions : List Expr) :
    (Expr.sequence span expressions).diagnostics = expressions.flatMap Expr.diagnostics ∧
    (∀ (expression : Expr) (s : Analyzer) (recorded : List (Fault × Span)),
      (Analysis.lowerExpr expression { s with errors := recorded ++ s.errors }).2.errors =
        recorded ++ (Analysis.lowerExpr expression s).2.errors) ∧
    (analyze (.sequence span expressions)).2.codes =
      if expressions.all (·.diagnostics.isEmpty) then (Analysis.lowerSequence expressions Analyzer.initial).1.code
      else [] := by
  have htold : (Expr.sequence span expressions).diagnostics = expressions.flatMap Expr.diagnostics :=
    diagnostics_lowerSequence expressions (Analyzer.Keeps.refl _)
  refine ⟨htold, fun expression s recorded => ?_, ?_⟩
  · rw [(Analysis.agrees_lowerExpr expression _ _ (Analyzer.echoes_recorded s recorded)).2.errors]
    simp
  · have hempty : (analyze (.sequence span expressions)).1.isEmpty = expressions.all (·.diagnostics.isEmpty) := by
      rw [Bool.eq_iff_iff, List.all_eq_true, List.isEmpty_iff]
      have hnone := congrArg (· = []) htold
      simpa [Expr.diagnostics] using hnone
    rw [← hempty]
    rfl

end TigerMips
