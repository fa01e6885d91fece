import TigerMips.Proofs.Analysis.Growth
import TigerMips.Proofs.Ty

/-! Types and values are well formed in every state of an analysis, and each position names an
entry of its table. -/

namespace TigerMips

structure Signature.Sound (frames : Arena .frame Frame) (name : String) (signature : Signature) : Prop where
  params : ∀ param ∈ signature.params, param.ty.isPlain
  result : signature.result = .void ∨ signature.result.isPlain
  entered : ∀ entry ∈ signature.entry, ∃ frame, frames.get? entry.frame = some frame ∧ frame.entry = some entry.label ∧
    frame.params.length = signature.params.length
  runtime : signature.entry = none → ∃ function ∈ Runtime.visible, function.name = name ∧ function.signature = signature

def Value.Sound (functions : Function.Table) (frames : Arena .frame Frame) (name : String) : Value → Prop
  | var info => info.ty.isHeld
  | function id signature => id.position < functions.size ∧ signature.Sound frames name

lemma Signature.Sound.mono {frames frames' : Arena .frame Frame} {name : String} {signature : Signature}
    (h : signature.Sound frames name) (hf : frames.Grows Frame.Grows frames') : signature.Sound frames' name := by
  refine ⟨h.params, h.result, fun entry he => ?_, h.runtime⟩
  obtain ⟨frame, hg, hl⟩ := h.entered entry he
  obtain ⟨_, hg', more, rfl⟩ := hf _ _ hg
  exact ⟨_, hg', hl⟩

lemma Value.Sound.mono {functions functions' : Function.Table} {frames frames' : Arena .frame Frame} {name : String}
    {value : Value} (h : value.Sound functions frames name) (hs : functions.size ≤ functions'.size)
    (hf : frames.Grows Frame.Grows frames') : value.Sound functions' frames' name := by
  cases value with
  | var info => exact h
  | function id signature => exact ⟨h.1.trans_le hs, h.2.mono hf⟩

structure Function.Sound (size : Nat) (f : Function) : Prop where
  calls : ∀ call ∈ f.invocations, call.callee.position < size
  runtime : f.isRuntime → ∃ function ∈ Runtime.visible, function.name = f.name ∧ function.signature = f.signature

lemma Function.Sound.mono {size size' : Nat} {f : Function} (h : f.Sound size) (hs : size ≤ size') : f.Sound size' :=
  ⟨fun call hm => (h.calls call hm).trans_le hs, h.runtime⟩

lemma Function.Sound.of_grows {size : Nat} {f g : Function} (h : f.Sound size) (hg : Function.Grows f g)
    (hc : ∀ call ∈ g.invocations, call ∈ f.invocations ∨ call.callee.position < size) : g.Sound size := by
  obtain ⟨calls, names, rfl, -⟩ := hg
  exact ⟨fun call hm => (hc call hm).elim (h.calls call) id, h.runtime⟩

structure Analyzer.Sound (s : Analyzer) : Prop where
  table : s.typeTable.Sound
  types : ∀ name ty, s.types.Binds name ty → ty.isPlain
  values : ∀ name value, s.values.Binds name value → value.Sound s.functions s.frames name
  enclosing : ∀ id ∈ s.enclosing, id.position < s.functions.size
  functions : ∀ id f, s.functions.get? id = some f → f.Sound s.functions.size
  currentFrame : s.currentFrame.position < s.frames.size
  mainFrame : s.mainFrame.position < s.frames.size
  edges : ∀ edge ∈ s.callGraph.edges, edge.1.position < s.frames.size ∧ edge.2.position < s.frames.size
  returns : ∀ id f, s.frames.get? id = some f → f.returns = []
  intact : s.stray = false

lemma Analyzer.Sound.of_keeps {s t : Analyzer} (h : s.Sound) (hk : s.Keeps t) (table : t.typeTable.Sound)
    (functions : ∀ id f, t.functions.get? id = some f → f.Sound t.functions.size)
    (edges : ∀ edge ∈ t.callGraph.edges, edge.1.position < t.frames.size ∧ edge.2.position < t.frames.size)
    (returns : ∀ id f, t.frames.get? id = some f → f.returns = []) (intact : t.stray = false) : t.Sound where
  table := table
  types := hk.types ▸ h.types
  values name value hb := (h.values name value (hk.values ▸ hb)).mono hk.functions.size_le hk.frames
  enclosing id hm := (h.enclosing id (hk.enclosing ▸ hm)).trans_le hk.functions.size_le
  functions := functions
  currentFrame := hk.currentFrame ▸ h.currentFrame.trans_le hk.frames.size_le
  mainFrame := hk.mainFrame ▸ h.mainFrame.trans_le hk.frames.size_le
  edges := edges
  returns := returns
  intact := intact

namespace Analysis

open Analyzer

variable {α β : Type}

def Ensures (Q : α → Prop) (m : Analysis α) : Prop := ∀ s, s.Sound → (m s).2.Sound ∧ Q (m s).1

namespace Ensures

variable {Q Q' : α → Prop} {P : β → Prop} {m : Analysis α}

lemma pure {a : α} (h : Q a) : Ensures Q (Pure.pure a) := fun _ hs => ⟨hs, h⟩

lemma bind {f : α → Analysis β} (hm : Ensures Q m) (hf : ∀ a, Q a → Ensures P (f a)) : Ensures P (m >>= f) :=
  fun s hs => hf _ (hm s hs).2 _ (hm s hs).1

lemma apply {s t : Analyzer} {a : α} (hm : Ensures Q m) (h : m s = (a, t)) (hs : s.Sound) : t.Sound ∧ Q a := by
  have hr := hm s hs
  rwa [h] at hr

lemma modify {f : Analyzer → Analyzer} (h : ∀ s, s.Sound → (f s).Sound) :
    Ensures (fun _ => True) (modify f : Analysis Unit) := fun s hs => ⟨h s hs, trivial⟩

lemma of_read {f : Analyzer → α} (h : ∀ s, s.Sound → Q (f s)) : Ensures Q (do return f (← get) : Analysis α) :=
  fun s hs => ⟨hs, h s hs⟩

end Ensures

lemma ensures_type? (name : String) : Ensures (fun found => ∀ ty ∈ found, ty.isPlain) (type? name) :=
  .of_read fun _ hs ty hf => hs.types name ty (ScopeStack.binds_of_get? hf)

lemma ensures_actual {ty : Ty} (ht : ty.isSolid) : Ensures (fun actual : Ty => actual.isSolid) (actual ty) :=
  .of_read fun _ hs => TypeTable.isSolid_actual hs.table ht

lemma ensures_isVoid (ty : Ty) : Ensures (fun isVoid => isVoid = true ↔ ty = .void) (isVoid ty) :=
  .of_read fun _ hs => TypeTable.isVoid_iff hs.table

lemma ensures_isNil (ty : Ty) : Ensures (fun isNil => isNil = true ↔ ty = .nil) (isNil ty) :=
  .of_read fun _ hs => TypeTable.isNil_iff hs.table

lemma ensures_fits (given needed : Ty) : Ensures (fun _ => True) (fits given needed) := .of_read fun _ _ => trivial

lemma ensures_currentFrame : Ensures (fun _ => True) currentFrame := .of_read fun _ _ => trivial

lemma ensures_hasError : Ensures (fun _ => True) hasError := .of_read fun _ _ => trivial

lemma ensures_report (fault : Fault) (span : Span) : Ensures (fun _ => True) (report fault span) :=
  fun _ hs => ⟨{ hs with }, trivial⟩

lemma ensures_reportIf (condition : Bool) (fault : Fault) (span : Span) :
    Ensures (fun _ => True) (reportIf condition fault span) := by
  unfold reportIf
  split
  · exact ensures_report _ _
  · exact .pure trivial

lemma ensures_checkType (needed given : Ty) (span : Span) : Ensures (fun _ => True) (checkType needed given span) := by
  refine (ensures_fits _ _).bind fun fit _ => ?_
  split
  · exact .pure trivial
  · exact ensures_report _ _

lemma ensures_newLabel : Ensures (fun _ => True) newLabel := fun _ hs => ⟨{ hs with }, trivial⟩

lemma ensures_newTemp : Ensures (fun _ => True) newTemp := by
  refine fun s hs => ⟨hs.of_keeps (keeps.newTemp s) hs.table hs.functions (fun edge hm => ?_) (fun id f hf => ?_) ?_,
    trivial⟩
  · have hsize : (newTemp s).2.frames.size = s.frames.size := s.frames.size_modify _ _
    rw [hsize]
    exact hs.edges edge hm
  · change (s.frames.modify s.currentFrame _).get? id = some f at hf
    rw [Arena.get?_modify] at hf
    split at hf
    · obtain ⟨g, hg, rfl⟩ := Option.map_eq_some_iff.mp hf
      exact hs.returns id g hg
    · exact hs.returns id f hf
  · change (s.stray || !s.frames.has s.currentFrame) = false
    rw [hs.intact, Arena.has_eq_true hs.currentFrame]
    rfl

lemma ensures_useRuntime (name : String) : Ensures (fun _ => True) (useRuntime name) :=
    fun _ hs => ⟨{ hs with }, trivial⟩

lemma ensures_internString (text : String) : Ensures (fun _ => True) (internString text) :=
  fun _ hs => ⟨{ hs with }, trivial⟩

lemma ensures_newIdentity (make : Nat → Ty) :
    Ensures (fun ty => ∃ identity, ty = make identity) (onTypes (do return make (← TypeTable.newIdentity))) :=
  fun _ hs => ⟨{ hs with }, _, rfl⟩

lemma ensures_toSimple (access : Access) : Ensures (fun _ => True) (toSimple access) := by
  unfold toSimple
  split
  · exact .pure trivial
  · exact ensures_newTemp.bind fun _ _ => ensures_currentFrame.bind fun _ _ => .pure trivial

lemma sound_visit {s : Analyzer} (hs : s.Sound) {id : FunctionId} (hid : id.position < s.functions.size) :
    (s.visit id).Sound := by
  refine { hs with intact := ?_ }
  change (s.stray || !s.functions.has id) = false
  rw [hs.intact, Arena.has_eq_true hid]
  rfl

lemma sound_onFunction {s : Analyzer} (hs : s.Sound) {id : FunctionId} (hid : id.position < s.functions.size)
    {f : Function → Function} (hf : ∀ g, Function.Grows g (f g))
    (hc : ∀ g, ∀ call ∈ (f g).invocations, call ∈ g.invocations ∨ call.callee.position < s.functions.size) :
    (s.onFunction id f).Sound := by
  have hsize : (s.functions.modify id f).size = s.functions.size := s.functions.size_modify _ _
  refine hs.of_keeps (keeps_onFunction s id hf) hs.table (fun other g hg => ?_) hs.edges hs.returns
    (sound_visit hs hid).intact
  change (s.functions.modify id f).get? other = some g at hg
  change g.Sound (s.functions.modify id f).size
  rw [hsize]
  rw [Arena.get?_modify] at hg
  split at hg
  · obtain ⟨g', hg', rfl⟩ := Option.map_eq_some_iff.mp hg
    exact (hs.functions other g' hg').of_grows (hf g') (hc g')
  · exact hs.functions other g hg

lemma ensures_noteUse (name : String) : Ensures (fun _ => True) (noteUse name) := by
  refine .modify fun s hs => ?_
  split
  · rename_i id outer he
    split
    · exact sound_onFunction hs (hs.enclosing id (he ▸ List.mem_cons_self)) (Function.grows_addForeign name)
        fun g call hm => Or.inl hm
    · exact hs
  · exact hs

abbrev Typed (value : Lowered) : Prop := value.ty.isGiven

abbrev Valued (value : Lowered) : Prop := value.ty.isHeld

lemma ensures_value? (name : String) :
    Ensures (fun found => ∀ info, some (Value.var info) = found → info.ty.isHeld) (value? name) :=
  .of_read fun _ hs _ hf => hs.values name _ (ScopeStack.binds_of_get? hf.symm)

lemma ensures_variablePlace (assigning : Bool) (name : Ident) : Ensures Valued (variablePlace assigning name) := by
  refine (ensures_value? _).bind fun value hv => ?_
  split
  · exact (ensures_report _ _).bind fun _ _ => .pure rfl
  · exact (ensures_report _ _).bind fun _ _ => .pure rfl
  · exact (ensures_reportIf _ _ _).bind fun _ _ => (ensures_noteUse _).bind fun _ _ => .pure (hv _ rfl)

lemma ensures_fieldAt (base : Lowered) (index : Nat) {ty : Ty} (ht : ty.isHeld) :
    Ensures Valued (fieldAt base index ty) := by
  refine ensures_hasError.bind fun failed _ => ?_
  split
  · exact .pure ht
  · split
    · exact .pure ht
    · exact ensures_currentFrame.bind fun _ _ => ensures_newTemp.bind fun _ _ =>
        (ensures_toSimple _).bind fun _ _ => .pure ht

lemma ensures_fieldPlace {base : Analysis Lowered} (hb : Ensures Valued base) (field : Ident) :
    Ensures Valued (fieldPlace base field) := by
  refine hb.bind fun base hbase => (ensures_actual (Ty.isSolid_of_isHeld hbase)).bind fun ty hty => ?_
  split
  · split
    · rename_i hf
      exact ensures_fieldAt _ _ (Ty.isHeld_of_isPlain (Ty.isPlain_of_field? hty hf))
    · exact (ensures_report _ _).bind fun _ _ => .pure rfl
  · exact (ensures_report _ _).bind fun _ _ => .pure rfl

lemma ensures_elementType (span : Span) {array : Ty} (ha : array.isHeld) :
    Ensures (fun ty : Ty => ty.isPlain) (elementType span array) := by
  refine (ensures_actual (Ty.isSolid_of_isHeld ha)).bind fun ty hty => ?_
  split
  · exact .pure hty
  · exact (ensures_report _ _).bind fun _ _ => .pure rfl

lemma ensures_elementPlace (span : Span) {base : Analysis Lowered} {index : Part} (hb : Ensures Valued base)
    (hi : Ensures Typed index.lower) : Ensures Valued (elementPlace span base index) := by
  refine hb.bind fun base hbase => (ensures_elementType _ hbase).bind fun ty hty => hi.bind fun subscript _ =>
    (ensures_checkType _ _ _).bind fun _ _ => ensures_hasError.bind fun failed _ => ?_
  have hheld := Ty.isHeld_of_isPlain hty
  split
  · exact .pure hheld
  · split
    · exact ensures_currentFrame.bind fun _ _ => (ensures_toSimple _).bind fun _ _ =>
        ensures_newTemp.bind fun _ _ => .pure hheld
    · exact .pure hheld

lemma ensures_assignment (span : Span) {target value : Analysis Lowered} (ht : Ensures Valued target)
    (hv : Ensures Typed value) : Ensures Typed (assignment span target value) := by
  refine ht.bind fun target _ => hv.bind fun source _ => (ensures_checkType _ _ _).bind fun _ _ =>
    ensures_hasError.bind fun failed _ => ?_
  split
  · exact .pure rfl
  · split
    · exact ensures_currentFrame.bind fun _ _ => .pure rfl
    · exact .pure rfl

lemma ensures_negation {operand : Part} (ho : Ensures Typed operand.lower) : Ensures Typed (negation operand) := by
  refine ho.bind fun value _ => (ensures_checkType _ _ _).bind fun _ _ => ensures_newTemp.bind fun result _ =>
    ensures_hasError.bind fun failed _ => ?_
  split
  · exact .pure rfl
  · split
    · exact .pure rfl
    · exact ensures_currentFrame.bind fun _ _ => .pure rfl

lemma ensures_checkOperands (span : Span) (operator : Operator) (operatorSpan : Span) (left right : Ty)
    (leftSpan rightSpan : Span) :
    Ensures (fun _ => True) (checkOperands span operator operatorSpan left right leftSpan rightSpan) := by
  have hboth : ∀ (ty : Ty) (operands : Operands), Ensures (fun _ => True) (do
      checkType ty left leftSpan
      checkType ty right rightSpan
      return operands) := fun ty operands =>
    (ensures_checkType _ _ _).bind fun _ _ => (ensures_checkType _ _ _).bind fun _ _ => .pure trivial
  have hget : Ensures (fun _ => True) (get : Analysis Analyzer) := fun _ hs => ⟨hs, trivial⟩
  refine hget.bind fun state _ => ?_
  dsimp only
  split
  · exact hboth _ _
  · split
    · split
      · exact hboth _ _
      · exact (ensures_report _ _).bind fun _ _ => .pure trivial
    · split
      · split
        · exact .pure trivial
        · exact (ensures_report _ _).bind fun _ _ => .pure trivial
      · exact (ensures_report _ _).bind fun _ _ => .pure trivial

lemma ensures_operationCode (operator : Operator) (operands : Operands) (result : Temp) (left right : Lowered)
    (lhs rhs : Access) : Ensures (fun _ => True) (operationCode operator operands result left right lhs rhs) := by
  have hdeciding : ∀ conjunction, Ensures (fun _ => True) (deciding conjunction result left right lhs rhs) := fun _ =>
    ensures_newLabel.bind fun _ _ => ensures_newLabel.bind fun _ _ => ensures_currentFrame.bind fun _ _ => .pure trivial
  cases operator with
  | and => exact hdeciding true
  | or => exact hdeciding false
  | strict operator =>
    simp only [operationCode]
    split
    · exact ensures_newTemp.bind fun _ _ => (ensures_useRuntime _).bind fun _ _ =>
        ensures_currentFrame.bind fun _ _ => .pure trivial
    · exact ensures_currentFrame.bind fun _ _ => .pure trivial

lemma ensures_operation (span : Span) (operator : Operator) (operatorSpan : Span) {lhs rhs : Part}
    (hl : Ensures Typed lhs.lower) (hr : Ensures Typed rhs.lower) :
    Ensures Typed (operation span operator operatorSpan lhs rhs) := by
  refine hl.bind fun left _ => hr.bind fun right _ => (ensures_checkOperands _ _ _ _ _ _ _).bind fun operands _ =>
    ensures_newTemp.bind fun result _ => ensures_hasError.bind fun failed _ => ?_
  split
  · exact .pure rfl
  · split
    · exact .pure rfl
    · split
      · exact (ensures_operationCode _ _ _ _ _ _ _).bind fun _ _ => .pure rfl
      · exact .pure rfl

lemma ensures_breakLoop (span : Span) : Ensures Typed (breakLoop span) := by
  have hget : Ensures (fun _ => True) (get : Analysis Analyzer) := fun _ hs => ⟨hs, trivial⟩
  refine hget.bind fun state _ => ?_
  split
  · exact ensures_currentFrame.bind fun _ _ => .pure rfl
  · exact (ensures_report _ _).bind fun _ _ => .pure rfl

lemma ensures_ifThen {condition positive : Part} (hc : Ensures Typed condition.lower)
    (hp : Ensures Typed positive.lower) : Ensures Typed (ifThen condition positive) := by
  refine hc.bind fun test _ => (ensures_checkType _ _ _).bind fun _ _ => hp.bind fun body _ =>
    (ensures_checkType _ _ _).bind fun _ _ => ensures_hasError.bind fun failed _ => ?_
  split
  · exact .pure rfl
  · split
    · exact .pure rfl
    · exact ensures_currentFrame.bind fun _ _ => ensures_newLabel.bind fun _ _ => .pure rfl

lemma ensures_branchType (positive negative : Part) {yes no : Ty} (hy : yes.isGiven) (hn : no.isGiven) :
    Ensures (fun ty : Ty => ty.isGiven) (branchType positive negative yes no) := by
  refine (ensures_isNil _).bind fun isNil _ => ?_
  split
  · exact (ensures_checkType _ _ _).bind fun _ _ => .pure hn
  · exact (ensures_checkType _ _ _).bind fun _ _ => .pure hy

lemma ensures_resultTemp (ty : Ty) : Ensures (fun _ => True) (resultTemp ty) := by
  refine (ensures_isVoid _).bind fun isVoid _ => ?_
  split
  · exact .pure trivial
  · exact ensures_newTemp.bind fun _ _ => .pure trivial

lemma ensures_ifThenElse {condition positive negative : Part} (hc : Ensures Typed condition.lower)
    (hp : Ensures Typed positive.lower) (hn : Ensures Typed negative.lower) :
    Ensures Typed (ifThenElse condition positive negative) := by
  refine hc.bind fun test _ => (ensures_checkType _ _ _).bind fun _ _ => hp.bind fun yes hyes => hn.bind fun no hno =>
    (ensures_branchType _ _ hyes hno).bind fun ty hty => (ensures_resultTemp _).bind fun result _ =>
    ensures_hasError.bind fun failed _ => ?_
  split
  · exact .pure hty
  · split
    · exact .pure hty
    · exact ensures_currentFrame.bind fun _ _ => ensures_newLabel.bind fun _ _ =>
        ensures_newLabel.bind fun _ _ => .pure hty

lemma ensures_inLoop (exit : Label) {body : Analysis Lowered} (hb : Ensures Typed body) :
    Ensures Typed (inLoop exit body) := by
  intro s hs
  obtain ⟨hbody, hty⟩ := hb { s with exits := some exit :: s.exits } { hs with }
  exact ⟨{ hbody with }, hty⟩

lemma ensures_whileLoop {condition body : Part} (hc : Ensures Typed condition.lower)
    (hb : Ensures Typed body.lower) : Ensures Typed (whileLoop condition body) := by
  refine ensures_newLabel.bind fun head _ => ensures_newLabel.bind fun exit _ => hc.bind fun test _ =>
    (ensures_inLoop exit hb).bind fun inside _ => (ensures_checkType _ _ _).bind fun _ _ =>
    (ensures_checkType _ _ _).bind fun _ _ => ensures_hasError.bind fun failed _ => ?_
  split
  · exact .pure rfl
  · split
    · exact .pure rfl
    · exact ensures_currentFrame.bind fun _ _ => .pure rfl

lemma sound_openValues {s : Analyzer} (hs : s.Sound) : Analyzer.Sound { s with values := s.values.openScope } :=
  { hs with values := fun name value hb => hs.values name value (ScopeStack.binds_open hb) }

lemma sound_closeValues {s : Analyzer} (hs : s.Sound) : Analyzer.Sound { s with values := s.values.close } :=
  { hs with values := fun name value hb => hs.values name value (ScopeStack.binds_close hb) }

lemma sound_putValue {s : Analyzer} (hs : s.Sound) {name : String} {value : Value}
    (hv : value.Sound s.functions s.frames name) : Analyzer.Sound { s with values := s.values.put name value } := by
  refine { hs with values := fun other value' hb => ?_ }
  rcases ScopeStack.binds_put hb with ⟨rfl, rfl⟩ | hb
  · exact hv
  · exact hs.values other value' hb

lemma ensures_forBody (counter : Ident) (place : Temp) (exit : Label) {body : Part} (hb : Ensures Typed body.lower) :
    Ensures (fun _ => True) (forBody counter place exit body) := by
  intro s hs
  have hinside : Ensures (fun _ => True) (do
      let inside ← inLoop exit body.lower
      checkType .void inside.ty body.span) :=
    (ensures_inLoop exit hb).bind fun _ _ => ensures_checkType _ _ _
  have hcounter : (Value.var { ty := .int, place, assignable := false }).Sound s.functions s.frames counter.name := rfl
  obtain ⟨h, -⟩ := hinside _ (sound_putValue (sound_openValues hs) hcounter)
  exact ⟨{ sound_closeValues h with }, trivial⟩

lemma ensures_forLoop (counter : Ident) {first last body : Part} (hf : Ensures Typed first.lower)
    (hl : Ensures Typed last.lower) (hb : Ensures Typed body.lower) :
    Ensures Typed (forLoop counter first last body) := by
  refine hf.bind fun low _ => hl.bind fun high _ => (ensures_checkType _ _ _).bind fun _ _ =>
    (ensures_checkType _ _ _).bind fun _ _ => ensures_newLabel.bind fun exit _ => ensures_newTemp.bind fun place _ =>
    (ensures_forBody _ _ _ hb).bind fun inside _ => ensures_hasError.bind fun failed _ => ?_
  split
  · exact .pure rfl
  · split
    · exact ensures_newTemp.bind fun _ _ => ensures_newLabel.bind fun _ _ =>
        ensures_currentFrame.bind fun _ _ => .pure rfl
    · exact .pure rfl

lemma sound_openScopes {s : Analyzer} (hs : s.Sound) :
    Analyzer.Sound { s with values := s.values.openScope, types := s.types.openScope } :=
  { sound_openValues hs with types := fun name ty hty => hs.types name ty (ScopeStack.binds_open hty) }

lemma ensures_letIn {declarations : Analysis (List Code)} {body : Analysis Lowered}
    (hd : Ensures (fun _ => True) declarations) (hb : Ensures Typed body) :
    Ensures Typed (letIn declarations body) := by
  intro s hs
  obtain ⟨h, hty⟩ := (hd.bind fun _ _ => hb) _ (sound_openScopes hs)
  exact ⟨{ sound_closeValues h with types := fun name ty hty => h.types name ty (ScopeStack.binds_close hty) }, hty⟩

lemma ensures_arrayType? (name : Ident) :
    Ensures (fun found => ∀ ty element, found = some (ty, element) → ty.isPlain ∧ element.isPlain)
      (arrayType? name) := by
  refine (ensures_type? _).bind fun found hfound => ?_
  split
  · exact (ensures_report _ _).bind fun _ _ => .pure (by simp)
  · rename_i ty
    have hplain := hfound ty rfl
    refine (ensures_actual (Ty.isSolid_of_isPlain hplain)).bind fun actual hactual => ?_
    split
    · refine .pure fun ty' element he => ?_
      obtain ⟨rfl, rfl⟩ := Prod.mk.inj (Option.some.inj he)
      exact ⟨hplain, hactual⟩
    · exact (ensures_report _ _).bind fun _ _ => .pure (by simp)

lemma ensures_arrayOf (size init : Lowered) {ty : Ty} (ht : ty.isGiven) (count value : Access) :
    Ensures Typed (arrayOf size init ty count value) :=
  ensures_newTemp.bind fun _ _ => ensures_newTemp.bind fun _ _ => ensures_newTemp.bind fun _ _ =>
    (ensures_useRuntime _).bind fun _ _ => ensures_newLabel.bind fun _ _ => ensures_newLabel.bind fun _ _ =>
    ensures_currentFrame.bind fun _ _ => .pure ht

lemma ensures_arrayCreation (name : Ident) {size init : Part} (hs : Ensures Typed size.lower)
    (hi : Ensures Typed init.lower) : Ensures Typed (arrayCreation name size init) := by
  refine (ensures_arrayType? _).bind fun found hfound => hs.bind fun count _ =>
      (ensures_checkType _ _ _).bind fun _ _ =>
    hi.bind fun value _ => ?_
  split
  · refine (ensures_newIdentity fun identity => .array identity .int).bind fun ty hty => .pure ?_
    obtain ⟨identity, rfl⟩ := hty
    rfl
  · rename_i ty element
    have hty := Ty.isGiven_of_isHeld (Ty.isHeld_of_isPlain (hfound ty element rfl).1)
    refine (ensures_checkType _ _ _).bind fun _ _ => ensures_hasError.bind fun failed _ => ?_
    split
    · exact .pure hty
    · split
      · exact ensures_arrayOf _ _ hty _ _
      · exact .pure hty

lemma ensures_recordType? (name : Ident) :
    Ensures (fun found => ∀ ty fields, found = some (ty, fields) → ty.isPlain ∧ fields.all (·.2.isPlain))
      (recordType? name) := by
  refine (ensures_type? _).bind fun found hfound => ?_
  split
  · exact (ensures_report _ _).bind fun _ _ => .pure (by simp)
  · rename_i ty
    have hplain := hfound ty rfl
    refine (ensures_actual (Ty.isSolid_of_isPlain hplain)).bind fun actual hactual => ?_
    split
    · refine .pure fun ty' fields he => ?_
      obtain ⟨rfl, rfl⟩ := Prod.mk.inj (Option.some.inj he)
      exact ⟨hplain, hactual⟩
    · exact (ensures_report _ _).bind fun _ _ => .pure (by simp)

lemma ensures_initField (target : Temp) (index : Nat) (expected : String) (ty : Ty) (name : Ident) {value : Part}
    (hv : Ensures Typed value.lower) : Ensures (fun _ => True) (initField target index expected ty name value) := by
  refine (ensures_reportIf _ _ _).bind fun _ _ => hv.bind fun init _ => (ensures_checkType _ _ _).bind fun _ _ =>
    ensures_hasError.bind fun failed _ => ?_
  split
  · exact .pure trivial
  · split
    · exact .pure trivial
    · exact ensures_currentFrame.bind fun _ _ => .pure trivial

lemma ensures_allocateRecord (target : Temp) (count : Nat) : Ensures (fun _ => True) (allocateRecord target count) := by
  refine ensures_hasError.bind fun failed _ => ?_
  split
  · exact .pure trivial
  · exact ensures_newTemp.bind fun _ _ => (ensures_useRuntime _).bind fun _ _ =>
      ensures_currentFrame.bind fun _ _ => .pure trivial

lemma ensures_recordCreation (span : Span) (name : Ident) (given : Nat)
    {init : Temp → List (String × Ty) → Analysis (List Code)} {check : Analysis Unit}
    (hi : ∀ target declared, Ensures (fun _ => True) (init target declared)) (hc : Ensures (fun _ => True) check) :
    Ensures Typed (recordCreation span name given init check) := by
  refine (ensures_recordType? _).bind fun found hfound => ?_
  split
  · refine hc.bind fun _ _ => (ensures_newIdentity fun identity => .record identity []).bind fun ty hty => .pure ?_
    obtain ⟨identity, rfl⟩ := hty
    rfl
  · rename_i ty fields
    have hty := Ty.isGiven_of_isHeld (Ty.isHeld_of_isPlain (hfound ty fields rfl).1)
    refine ensures_newTemp.bind fun target _ => (ensures_allocateRecord _ _).bind fun _ _ => (hi _ _).bind fun _ _ =>
      (ensures_reportIf _ _ _).bind fun _ _ => ensures_hasError.bind fun failed _ => ?_
    split <;> exact .pure hty

lemma ensures_callOperation (name : String) (entry : Option Entry) (destination : Option Temp)
    (actuals : List Access) : Ensures (fun _ => True) (callOperation name entry destination actuals) := by
  unfold callOperation
  split
  · exact .pure trivial
  · exact (ensures_useRuntime _).bind fun _ _ => .pure trivial

lemma snd_modify (f : Analyzer → Analyzer) (s : Analyzer) : ((modify f : Analysis Unit) s).2 = f s := rfl

lemma sound_noteCall {s t : Analyzer} (hs : s.Sound) {callee : FunctionId} {u : Unit}
    (h : noteCall callee s = (u, t)) (hc : callee.position < s.functions.size) : t.Sound := by
  obtain rfl := congrArg Prod.snd h
  have hvisit := sound_visit hs hc
  unfold noteCall
  rw [snd_modify]
  split
  · rename_i id outer he
    refine sound_onFunction hvisit (hs.enclosing id (he ▸ List.mem_cons_self)) (Function.grows_addInvocation _)
      fun g call hm => ?_
    rcases List.mem_append.mp hm with hm | hm
    · exact Or.inl hm
    · obtain rfl := List.mem_singleton.mp hm
      exact Or.inr hc
  · exact hvisit

lemma sound_noteEdge {s t : Analyzer} (hs : s.Sound) {entry : Option Entry} {u : Unit}
    (h : noteEdge entry s = (u, t)) (he : ∀ e ∈ entry, e.frame.position < s.frames.size) : t.Sound := by
  obtain rfl := congrArg Prod.snd h
  cases entry with
  | none => exact hs
  | some e =>
    refine { hs with edges := fun edge hm => ?_ }
    change edge ∈ (s.callGraph.addEdge s.currentFrame e.frame).edges at hm
    unfold CallGraph.addEdge at hm
    split at hm
    · exact hs.edges edge hm
    · rcases List.mem_append.mp hm with hm | hm
      · exact hs.edges edge hm
      · obtain rfl := List.mem_singleton.mp hm
        exact ⟨hs.currentFrame, he e rfl⟩

lemma ensures_callCode (name : String) {signature : Signature} (hr : signature.result.isGiven) (code : List Code)
    (actuals : List Access) : Ensures Typed (callCode name signature code actuals) := by
  refine ensures_hasError.bind fun failed _ => ?_
  split
  · exact .pure hr
  · exact (ensures_resultTemp _).bind fun _ _ => (ensures_callOperation _ _ _ _).bind fun _ _ =>
      ensures_currentFrame.bind fun _ _ => .pure hr

lemma sound_noted {name : String} {id : FunctionId} {signature : Signature} {s s₁ s₂ s₃ : Analyzer} {u u' : Unit}
    (hs₁ : s₁.Sound) (hk : s.Keeps s₁) (hb : s.values.Binds name (.function id signature))
    (hcall : noteCall id s₁ = (u, s₂)) (hedge : noteEdge signature.entry s₂ = (u', s₃)) : s₃.Sound := by
  obtain ⟨hid, hsignature⟩ := hs₁.values _ _ (hk.values ▸ hb)
  refine sound_noteEdge (sound_noteCall hs₁ hcall hid) hedge fun e he => ?_
  obtain ⟨frame, hf, -⟩ := hsignature.entered e he
  exact (Arena.lt_size _ hf).trans_le ((keeps.noteCall _).apply hcall).frames.size_le

lemma sound_callOf (span : Span) {function : Ident} {id : FunctionId} {signature : Signature} (given : Nat)
    {arguments : List Param → Analysis (List Code × List Access)}
    (hk : ∀ params, Within Keeps (arguments params)) (ha : ∀ params, Ensures (fun _ => True) (arguments params))
    {s : Analyzer} (hs : s.Sound) (hb : s.values.Binds function.name (.function id signature)) :
    (callOf span function id signature given arguments s).2.Sound ∧
      Typed (callOf span function id signature given arguments s).1 := by
  have hresult : signature.result.isGiven := by
    rcases (hs.values _ _ hb).2.result with hr | hr
    · rw [hr]
      rfl
    · exact Ty.isGiven_of_isHeld (Ty.isHeld_of_isPlain hr)
  cases hrun : callOf span function id signature given arguments s with
  | mk value t =>
    obtain ⟨⟨code, actuals⟩, s₁, h₁, hrun⟩ := bind_eq.mp hrun
    obtain ⟨_, s₂, h₂, hrun⟩ := bind_eq.mp hrun
    obtain ⟨_, s₃, h₃, hrun⟩ := bind_eq.mp hrun
    obtain ⟨_, s₄, h₄, hrun⟩ := bind_eq.mp hrun
    have hs₂ := ((ensures_reportIf _ _ _).apply h₂ ((ha _).apply h₁ hs).1).1
    have hkept : s.Keeps s₂ := ((hk _).apply h₁).trans ((within_reportIf keeps.report _ _ _).apply h₂)
    exact (ensures_callCode _ hresult _ _).apply hrun (sound_noted hs₂ hkept hb h₃ h₄)

lemma ensures_call (span : Span) (function : Ident) (given : Nat)
    {arguments : List Param → Analysis (List Code × List Access)}
    (hk : ∀ params, Within Keeps (arguments params)) (ha : ∀ params, Ensures (fun _ => True) (arguments params)) :
    Ensures Typed (call span function given arguments) := by
  intro s hs
  have hmissing : ∀ fault, Ensures Typed (do
      report fault function.span
      return { ty := .void }) := fun _ => (ensures_report _ _).bind fun _ _ => .pure rfl
  have hread : ∀ {β : Type} (f : Option Value → Analysis β),
      (value? function.name >>= f) s = f (s.values.get? function.name) s := fun _ => rfl
  unfold call
  rw [hread]
  cases hv : s.values.get? function.name with
  | none => exact hmissing _ s hs
  | some value =>
    cases value with
    | var info => exact hmissing _ s hs
    | function id signature => exact sound_callOf span given hk ha hs (ScopeStack.binds_of_get? hv)

lemma ensures_variableType (name : Ident) (declared : Option Ident) {given : Ty} (hg : given.isGiven) (span : Span) :
    Ensures (fun ty : Ty => ty.isHeld) (variableType name declared given span) := by
  unfold variableType
  split
  · refine (ensures_type? _).bind fun found hfound => ?_
    split
    · exact (ensures_checkType _ _ _).bind fun _ _ => .pure (Ty.isHeld_of_isPlain (hfound _ rfl))
    · exact (ensures_report _ _).bind fun _ _ => .pure rfl
  · refine (ensures_isNil _).bind fun isNil hnil => (ensures_isVoid _).bind fun isVoid hvoid => ?_
    split
    · exact (ensures_report _ _).bind fun _ _ => .pure rfl
    · rename_i hneither
      simp only [Bool.or_eq_true, not_or, hnil, hvoid] at hneither
      refine .pure ?_
      cases given with
      | void => exact absurd rfl hneither.2
      | nil => exact absurd rfl hneither.1
      | _ => exact hg

lemma ensures_variableDeclaration (name : Ident) (declared : Option Ident) {value : Part}
    (hv : Ensures Typed value.lower) : Ensures (fun _ => True) (variableDeclaration name declared value) := by
  refine hv.bind fun init hinit => (ensures_variableType _ _ hinit _).bind fun ty hty =>
    ensures_newTemp.bind fun place _ => ?_
  have hput : Ensures (fun _ => True) (putValue name.name (.var { ty, place, assignable := true })) :=
    fun _ hs => ⟨sound_putValue hs hty, trivial⟩
  refine hput.bind fun _ _ => ensures_hasError.bind fun failed _ => ?_
  split
  · exact .pure trivial
  · split
    · exact .pure trivial
    · exact ensures_currentFrame.bind fun _ _ => .pure trivial

lemma ensures_typeOf (name : Ident) : Ensures (fun ty : Ty => ty.isPlain) (typeOf name) := by
  refine (ensures_type? _).bind fun found hfound => ?_
  split
  · exact .pure (hfound _ rfl)
  · exact (ensures_report _ _).bind fun _ _ => .pure rfl

lemma ensures_typedNames (names : List (Ident × Ident)) :
    Ensures (fun typed : List (String × Ty) => typed.all (·.2.isPlain)) (typedNames names) := by
  induction names with
  | nil => exact .pure rfl
  | cons first rest ih =>
    exact (ensures_typeOf _).bind fun ty hty => ih.bind fun others hothers => .pure (by simp [hty, hothers])

lemma ensures_typeExpression (ty : TypeExpr) : Ensures (fun ty : Ty => ty.isSolid) (typeExpression ty) := by
  have hnew : ∀ {make : Nat → Ty}, (∀ identity, (make identity).isSolid) →
      Ensures (fun ty : Ty => ty.isSolid) (onTypes (do return make (← TypeTable.newIdentity))) := fun hmake s hs => by
    obtain ⟨ht, identity, he⟩ := ensures_newIdentity _ s hs
    exact ⟨ht, he ▸ hmake identity⟩
  cases ty with
  | name name =>
    intro s hs
    obtain ⟨ht, hplain⟩ := ensures_typeOf name s hs
    exact ⟨ht, Ty.isSolid_of_isPlain hplain⟩
  | array element => exact (ensures_typeOf _).bind fun ty hty => hnew fun _ => hty
  | record fields => exact (ensures_typedNames _).bind fun fields hfields => hnew fun _ => hfields

lemma ensures_bindType (id : TypeNameId) {ty : Ty} (ht : ty.isSolid) : Ensures (fun _ => True) (bindType id ty) := by
  refine fun s hs => ⟨{ hs with table := fun other found hb => ?_ }, trivial⟩
  change ((s.typeTable.bindings.set id (some ty)).get? other).join = some found at hb
  rw [Arena.get?_set] at hb
  split at hb
  · obtain rfl := Option.some.inj hb
    exact ht
  · exact hs.table other found hb

lemma ensures_newName : Ensures (fun _ => True) (onTypes TypeTable.newName) := by
  refine fun s hs => ⟨{ hs with table := fun other found hb => ?_ }, trivial⟩
  change ((s.typeTable.bindings.push none).get? other).join = some found at hb
  rw [Arena.get?_push] at hb
  split at hb
  · cases hb
  · exact hs.table other found hb

lemma ensures_putType {name : String} {ty : Ty} (ht : ty.isPlain) : Ensures (fun _ => True) (putType name ty) := by
  refine fun s hs => ⟨{ hs with types := fun other found hb => ?_ }, trivial⟩
  rcases ScopeStack.binds_put hb with ⟨-, rfl⟩ | hb
  · exact ht
  · exact hs.types other found hb

lemma ensures_enterTypes (seen : List String) (members : List TypeDecl) :
    Ensures (fun _ => True) (enterTypes seen members) := by
  induction members generalizing seen with
  | nil => exact .pure trivial
  | cons decl rest ih =>
    unfold enterTypes
    split
    · exact (ensures_report _ _).bind fun _ _ => (ih _).bind fun _ _ => .pure trivial
    · exact ensures_newName.bind fun _ _ => (ensures_putType rfl).bind fun _ _ => (ih _).bind fun _ _ => .pure trivial

lemma ensures_bindTypes (entered : List (TypeDecl × Option TypeNameId)) :
    Ensures (fun _ => True) (bindTypes entered) := by
  induction entered with
  | nil => exact .pure trivial
  | cons entry rest ih =>
    obtain ⟨decl, bound⟩ := entry
    cases bound with
    | none => exact (ensures_typeExpression _).bind fun _ _ => ih
    | some id => exact (ensures_typeExpression _).bind fun _ hty => (ensures_bindType id hty).bind fun _ _ => ih

lemma ensures_breakCycles (entered : List (TypeDecl × Option TypeNameId)) :
    Ensures (fun _ => True) (breakCycles entered) := by
  have hget : Ensures (fun _ => True) (get : Analysis Analyzer) := fun _ hs => ⟨hs, trivial⟩
  induction entered with
  | nil => exact .pure trivial
  | cons entry rest ih =>
    obtain ⟨decl, bound⟩ := entry
    cases bound with
    | none => exact ih
    | some id =>
      refine Ensures.bind (Q := fun _ => True) ?_ fun _ _ => ih
      refine hget.bind fun state _ => ?_
      split
      · exact (ensures_report _ _).bind fun _ _ => ensures_bindType id rfl
      · exact .pure trivial

lemma ensures_typeGroup (members : List TypeDecl) : Ensures (fun _ => True) (typeGroup members) :=
  (ensures_enterTypes _ _).bind fun _ _ => (ensures_bindTypes _).bind fun _ _ => ensures_breakCycles _

lemma ensures_resultType (result : Option Ident) :
    Ensures (fun ty : Ty => ty = .void ∨ ty.isPlain) (resultType result) := by
  cases result with
  | none => exact .pure (Or.inl rfl)
  | some name =>
    intro s hs
    obtain ⟨ht, hplain⟩ := ensures_typeOf name s hs
    exact ⟨ht, Or.inr hplain⟩

structure DeclaredIn (s : Analyzer) (declared : Declared) : Prop where
  id : declared.id.position < s.functions.size
  signature : (Signature.mk declared.params declared.result (some declared.entry)).Sound s.frames ""

lemma DeclaredIn.mono {s t : Analyzer} {declared : Declared} (h : DeclaredIn s declared) (hg : s.Grows t) :
    DeclaredIn t declared :=
  ⟨h.id.trans_le hg.functions.size_le, h.signature.mono hg.frames⟩

lemma DeclaredIn.frame_lt {s : Analyzer} {declared : Declared} (h : DeclaredIn s declared) :
    declared.entry.frame.position < s.frames.size := by
  obtain ⟨frame, hf, -⟩ := h.signature.entered declared.entry rfl
  exact s.frames.lt_size hf

lemma sound_declareFunction {decl : FunctionDecl} {s t : Analyzer} {declared : Declared}
    (h : declareFunction decl s = (declared, t)) (hs : s.Sound) : t.Sound ∧ DeclaredIn t declared := by
  have hkeeps := (keeps_declareFunction decl).apply h
  obtain ⟨result, s₁, typed, s₂, params, hr, ht, rfl, rfl, rfl⟩ := declareFunction_eq h
  obtain ⟨hs₁, hresult⟩ := (ensures_resultType _).apply hr hs
  obtain ⟨hs₂, htyped⟩ := (ensures_typedNames _).apply ht hs₁
  have hpushed : ∀ item, s₂.frames.size ≤ (s₂.frames.push item).size := fun item => by simp
  refine ⟨hs.of_keeps hkeeps hs₂.table (fun id f hf => ?_) (fun edge hm => ?_) (fun id f hf => ?_) hs₂.intact, ?_, ?_⟩
  · have hsize : ∀ function, s₂.functions.size ≤ (s₂.functions.push function).size := fun _ => by simp
    simp only [Arena.get?_push] at hf
    split at hf
    · obtain rfl := Option.some.inj hf
      exact ⟨by simp, fun he => by cases he⟩
    · exact (hs₂.functions id f hf).mono (hsize _)
  · obtain ⟨h₁, h₂⟩ := hs₂.edges edge hm
    exact ⟨h₁.trans_le (hpushed _), h₂.trans_le (hpushed _)⟩
  · simp only [Arena.get?_push] at hf
    split at hf
    · obtain rfl := Option.some.inj hf
      rfl
    · exact hs₂.returns id f hf
  · simp [declaredAs, Arena.next]
  · refine ⟨?_, hresult, fun entry he => ?_, fun he => by cases he⟩
    · intro param hm
      obtain ⟨pair, hpair, rfl⟩ := List.mem_map.mp hm
      exact List.all_eq_true.mp htyped pair hpair
    · obtain rfl := Option.some.inj he
      exact ⟨declaredFrame s₂ decl.name.name _ result, (Arena.get?_push _ _ _).trans (if_pos rfl), rfl,
        by simp [declaredFrame, declaredAs]⟩

lemma sound_enterName {seen : List String} {name : Ident} {declared : Declared} {s t : Analyzer} {u : Unit}
    (h : enterName seen name declared s = (u, t)) (hs : s.Sound) (hd : DeclaredIn s declared) : t.Sound := by
  unfold enterName at h
  split at h
  · exact ((ensures_report _ _).apply h hs).1
  · obtain rfl := congrArg Prod.snd h
    exact sound_putValue hs ⟨hd.id, { hd.signature with runtime := fun he => nomatch he }⟩

lemma sound_declareFunctions {members : List FunctionDecl} {seen : List String} {s t : Analyzer}
    {declared : List Declared} (h : declareFunctions seen members s = (declared, t)) (hs : s.Sound) :
    t.Sound ∧ declared.length = members.length ∧ ∀ d ∈ declared, DeclaredIn t d := by
  induction members generalizing seen s t declared with
  | nil =>
    obtain ⟨rfl, rfl⟩ := pure_eq.mp h
    exact ⟨hs, rfl, by simp⟩
  | cons decl rest ih =>
    obtain ⟨first, s₁, hf, h⟩ := bind_eq.mp h
    obtain ⟨_, s₂, he, h⟩ := bind_eq.mp h
    obtain ⟨others, s₃, ho, h⟩ := bind_eq.mp h
    obtain ⟨rfl, rfl⟩ := pure_eq.mp h
    obtain ⟨hs₁, hfirst⟩ := sound_declareFunction hf hs
    have hs₂ := sound_enterName he hs₁ hfirst
    obtain ⟨hs₃, hlength, hothers⟩ := ih ho hs₂
    refine ⟨hs₃, by simp [hlength], fun d hm => ?_⟩
    rcases List.mem_cons.mp hm with rfl | hm
    · have hgrows := ((declares_enterName _ _ _).apply he).toGrows.trans
        ((declares_declareFunctions _ _).apply ho).toGrows
      exact hfirst.mono hgrows
    · exact hothers d hm

lemma sound_enterFunction {s : Analyzer} (hs : s.Sound) {declared : Declared} (hd : DeclaredIn s declared) :
    (enterFunction declared s).2.Sound := by
  refine { hs with
    values := fun name value hb => ?_
    enclosing := fun id hm => ?_
    currentFrame := hd.frame_lt
    intact := (sound_visit hs hd.id).intact }
  · rcases ScopeStack.binds_foldl_put (fun pair : Param × Temp => pair.1.name)
      (fun pair => Value.var { ty := pair.1.ty, place := pair.2, assignable := true })
      (show ScopeStack.Binds (List.foldl _ _ (declared.params.zip declared.entry.formals)) name value from hb) with
      ⟨pair, hm, -, rfl⟩ | hb
    · exact Ty.isHeld_of_isPlain (hd.signature.params pair.1 (List.of_mem_zip hm).1)
    · exact hs.values name value (ScopeStack.binds_open hb)
  · rcases List.mem_cons.mp hm with rfl | hm
    · exact hd.id
    · exact hs.enclosing id hm

lemma sound_inFunction {declared : Declared} {body : Analysis Lowered} (hk : Within Keeps body)
    (hb : Ensures Typed body) {s t : Analyzer} {value : Lowered} (h : inFunction declared body s = (value, t))
    (hs : s.Sound) (hd : DeclaredIn s declared) : t.Sound ∧ Typed value := by
  have hgrows := (keeps_inFunction declared hk).apply h
  obtain ⟨outer, s₀, hc, h⟩ := bind_eq.mp h
  obtain ⟨rfl, rfl⟩ := Prod.mk.inj hc
  obtain ⟨_, s₁, he, h⟩ := bind_eq.mp h
  obtain ⟨inside, s₂, hi, h⟩ := bind_eq.mp h
  obtain ⟨_, s₃, hl, h⟩ := bind_eq.mp h
  obtain ⟨rfl, rfl⟩ := pure_eq.mp h
  obtain rfl := congrArg Prod.snd he
  obtain ⟨hs₂, hty⟩ := hb.apply hi (sound_enterFunction hs hd)
  obtain rfl := congrArg Prod.snd hl
  exact ⟨{ sound_closeValues hs₂ with
    enclosing := fun id hm => hs₂.enclosing id (List.mem_of_mem_tail hm)
    currentFrame := hs.currentFrame.trans_le hgrows.frames.size_le }, hty⟩

lemma sound_functionBody {declared : Declared} {body : Part} (hk : Within Keeps body.lower)
    (hb : Ensures Typed body.lower) {s t : Analyzer} {code : List Code}
    (h : functionBody declared body s = (code, t)) (hs : s.Sound) (hd : DeclaredIn s declared) : t.Sound := by
  obtain ⟨inside, s₁, hi, h⟩ := bind_eq.mp h
  have hs₁ := (sound_inFunction hk hb hi hs hd).1
  have hafter : Ensures (fun _ => True) (do
      checkType declared.result inside.ty body.span
      if ← hasError then return []
      else
        let entry := declared.entry
        return .label entry.label :: inside.code ++
          moveInto entry.frame entry.resultPlace inside.place ++ [.op entry.frame .ret]) := by
    refine (ensures_checkType _ _ _).bind fun _ _ => ensures_hasError.bind fun failed _ => ?_
    split <;> exact .pure trivial
  exact (hafter.apply h hs₁).1

lemma sound_closeForeigns {group : List FunctionId} {s t : Analyzer} {u : Unit} (h : closeForeigns group s = (u, t))
    (hs : s.Sound) (hg : ∀ id ∈ group, id.position < s.functions.size) : t.Sound := by
  obtain rfl := congrArg Prod.snd h
  obtain ⟨hw, hsize⟩ := s.functions.widens_closeForeigns group
  refine hs.of_keeps (keeps_closeForeigns group s) hs.table (fun id f hf => ?_) hs.edges hs.returns ?_
  · change (s.functions.closeForeigns group).1.get? id = some f at hf
    change f.Sound (s.functions.closeForeigns group).1.size
    have hlt := Arena.lt_size _ hf
    rw [hsize] at hlt ⊢
    obtain ⟨g, hg⟩ := s.functions.exists_get?.mpr hlt
    obtain ⟨_, hf', hwide⟩ := hw id g hg
    obtain rfl := Option.some.inj (hf.symm.trans hf')
    obtain ⟨names, rfl, -⟩ := hwide
    exact ⟨(hs.functions id g hg).calls, (hs.functions id g hg).runtime⟩
  · change (s.stray || group.any (!s.functions.has ·)) = false
    rw [hs.intact, Bool.false_or, List.any_eq_false]
    intro id hm
    simp [Arena.has_eq_true (hg id hm)]

lemma ensures_functionGroup (members : List FunctionDecl) {bodies : List Declared → Analysis (List Code)}
    (hk : ∀ declared, Within Keeps (bodies declared))
    (hb : ∀ declared s, s.Sound → (∀ d ∈ declared, DeclaredIn s d) → (bodies declared s).2.Sound) :
    Ensures (fun _ => True) (functionGroup members bodies) := by
  intro s hs
  refine ⟨?_, trivial⟩
  cases hrun : functionGroup members bodies s with
  | mk code t =>
    obtain ⟨declared, s₁, hd, hrun⟩ := bind_eq.mp hrun
    obtain ⟨codes, s₂, hc, hrun⟩ := bind_eq.mp hrun
    obtain ⟨_, s₃, hclose, hrun⟩ := bind_eq.mp hrun
    obtain ⟨hs₁, -, hdeclared⟩ := sound_declareFunctions hd hs
    have hs₂ := hb declared s₁ hs₁ hdeclared
    rw [hc] at hs₂
    have hgrows := ((hk declared).apply hc).toGrows
    have hs₃ := sound_closeForeigns hclose hs₂ fun id hm => by
      obtain ⟨d, hin, rfl⟩ := List.mem_map.mp hm
      exact ((hdeclared d hin).mono hgrows).id
    have hafter : Ensures (fun _ => True) (do
        if ← hasError then return []
        else
          let exit ← newLabel
          return .op (← currentFrame) (.goto exit) :: codes ++ [.label exit]) := by
      refine ensures_hasError.bind fun failed _ => ?_
      split
      · exact .pure trivial
      · exact ensures_newLabel.bind fun _ _ => ensures_currentFrame.bind fun _ _ => .pure trivial
    exact (hafter.apply hrun hs₃).1

end Analysis

lemma Runtime.sound_signature (frames : Arena .frame Frame) {function : Runtime} (hf : function ∈ visible) :
    function.signature.Sound frames function.name where
  params := by cases function <;> simp [signature, Ty.isPlain]
  result := by cases function <;> simp [signature, Ty.isPlain]
  entered := by cases function <;> simp [signature]
  runtime _ := ⟨function, hf, rfl, rfl⟩

lemma Runtime.get?_table {id : FunctionId} {f : Function} (h : Runtime.table.get? id = some f) :
    ∃ function ∈ visible, f = { name := function.name, signature := function.signature } := by
  obtain ⟨function, hm, rfl⟩ := List.mem_map.mp (List.mem_of_getElem? h)
  exact ⟨function, hm, rfl⟩

lemma Analyzer.sound_initial : Analyzer.initial.Sound where
  table id ty h := by simp [initial, TypeTable.binding?, Arena.get?] at h
  types name ty h := by
    obtain ⟨scope, hm, hb⟩ := h
    obtain rfl := List.mem_singleton.mp hm
    simp only [initial, List.mem_cons, Prod.mk.injEq, List.not_mem_nil, or_false] at hb
    rcases hb with ⟨-, rfl⟩ | ⟨-, rfl⟩ <;> rfl
  values name value h := by
    obtain ⟨scope, hm, hb⟩ := h
    obtain rfl := List.mem_singleton.mp hm
    obtain ⟨⟨id, f⟩, hf, he⟩ := List.mem_map.mp hb
    obtain ⟨rfl, rfl⟩ := Prod.mk.inj he
    have hg := Runtime.table.mem_entries.mp hf
    obtain ⟨function, hv, rfl⟩ := Runtime.get?_table hg
    exact ⟨Runtime.table.lt_size hg, Runtime.sound_signature _ hv⟩
  enclosing id h := by cases h
  functions id f h := by
    obtain ⟨function, hm, rfl⟩ := Runtime.get?_table h
    exact ⟨by simp, fun _ => ⟨function, hm, rfl, rfl⟩⟩
  currentFrame := by decide
  mainFrame := by decide
  edges edge h := by cases h
  returns id f h := by
    obtain rfl := List.mem_singleton.mp (List.mem_of_getElem? h)
    rfl
  intact := rfl

end TigerMips
