import TigerMips.Proofs.Analysis.Induction

/-! Relations between states that hold along every analysis, since they hold along its small steps. -/

namespace TigerMips.Analysis

section

variable {R : Analyzer → Analyzer → Prop} [Std.Refl R]

lemma within_type? (name : String) : Within R (type? name) := fun s => refl_of R s

lemma within_value? (name : String) : Within R (value? name) := fun s => refl_of R s

lemma within_actual (ty : Ty) : Within R (actual ty) := fun s => refl_of R s

lemma within_isVoid (ty : Ty) : Within R (isVoid ty) := fun s => refl_of R s

lemma within_isNil (ty : Ty) : Within R (isNil ty) := fun s => refl_of R s

lemma within_fits (given needed : Ty) : Within R (fits given needed) := fun s => refl_of R s

lemma within_currentFrame : Within R currentFrame := fun s => refl_of R s

lemma within_hasError : Within R hasError := fun s => refl_of R s

lemma within_get : Within R (get : Analysis Analyzer) := fun s => refl_of R s

end

section

variable {R : Analyzer → Analyzer → Prop} [Std.Refl R] (hr : ∀ fault span, Within R (report fault span))

include hr

lemma within_reportIf (condition : Bool) (fault : Fault) (span : Span) : Within R (reportIf condition fault span) := by
  unfold reportIf
  split
  · exact hr _ _
  · exact .pure _

variable [IsTrans Analyzer R]

lemma within_checkType (needed given : Ty) (span : Span) : Within R (checkType needed given span) := by
  refine (within_fits _ _).bind fun fit => ?_
  split
  · exact .pure _
  · exact hr _ _

lemma within_typeOf (name : Ident) : Within R (typeOf name) := by
  refine (within_type? _).bind fun found => ?_
  split
  · exact .pure _
  · exact (hr _ _).bind fun _ => .pure _

lemma within_typedNames (names : List (Ident × Ident)) : Within R (typedNames names) := by
  induction names with
  | nil => exact .pure _
  | cons first rest ih => exact (within_typeOf hr _).bind fun _ => ih.bind fun _ => .pure _

lemma within_resultType (result : Option Ident) : Within R (resultType result) := by
  cases result with
  | none => exact .pure _
  | some name => exact within_typeOf hr name

end

structure Stepwise (R D : Analyzer → Analyzer → Prop) : Prop where
  report : ∀ fault span, Within R (report fault span)
  newLabel : Within R newLabel
  newTemp : Within R newTemp
  useRuntime : ∀ name, Within R (useRuntime name)
  internString : ∀ text, Within R (internString text)
  newIdentity : ∀ make : Nat → Ty, Within R (onTypes (do return make (← TypeTable.newIdentity)))
  noteUse : ∀ name, Within R (noteUse name)
  noteCall : ∀ callee, Within R (noteCall callee)
  noteEdge : ∀ entry, Within R (noteEdge entry)
  inLoop : ∀ exit {body : Analysis Lowered}, Within R body → Within R (inLoop exit body)
  forBody : ∀ counter place exit {body : Part}, Within R body.lower → Within R (forBody counter place exit body)
  letIn : ∀ {declarations : Analysis (List Code)} {body : Analysis Lowered}, Within D declarations → Within R body →
    Within R (letIn declarations body)
  declares : ∀ {s t}, R s t → D s t
  putValue : ∀ name value, Within D (putValue name value)
  typeGroup : ∀ members, Within D (typeGroup members)

section

variable {R D : Analyzer → Analyzer → Prop} [Std.Refl R] [IsTrans Analyzer R] (he : Stepwise R D)

include he

lemma within_toSimple (access : Access) : Within R (toSimple access) := by
  unfold toSimple
  split
  · exact .pure _
  · exact he.newTemp.bind fun _ => within_currentFrame.bind fun _ => .pure _

lemma within_variablePlace (assigning : Bool) (name : Ident) : Within R (variablePlace assigning name) := by
  refine (within_value? _).bind fun value => ?_
  split
  · exact (he.report _ _).bind fun _ => .pure _
  · exact (he.report _ _).bind fun _ => .pure _
  · exact (within_reportIf he.report _ _ _).bind fun _ => (he.noteUse _).bind fun _ => .pure _

lemma within_fieldAt (base : Lowered) (index : Nat) (ty : Ty) : Within R (fieldAt base index ty) := by
  refine within_hasError.bind fun failed => ?_
  split
  · exact .pure _
  · split
    · exact .pure _
    · exact within_currentFrame.bind fun _ => he.newTemp.bind fun _ => (within_toSimple he _).bind fun _ => .pure _

lemma within_fieldPlace {base : Analysis Lowered} (hb : Within R base) (field : Ident) :
    Within R (fieldPlace base field) := by
  refine hb.bind fun base => (within_actual _).bind fun ty => ?_
  split
  · split
    · exact within_fieldAt he _ _ _
    · exact (he.report _ _).bind fun _ => .pure _
  · exact (he.report _ _).bind fun _ => .pure _

lemma within_elementType (span : Span) (array : Ty) : Within R (elementType span array) := by
  refine (within_actual _).bind fun ty => ?_
  split
  · exact .pure _
  · exact (he.report _ _).bind fun _ => .pure _

lemma within_elementPlace (span : Span) {base : Analysis Lowered} {index : Part} (hb : Within R base)
    (hi : Within R index.lower) : Within R (elementPlace span base index) := by
  refine hb.bind fun base => (within_elementType he _ _).bind fun ty => hi.bind fun subscript =>
    (within_checkType he.report _ _ _).bind fun _ => within_hasError.bind fun failed => ?_
  split
  · exact .pure _
  · split
    · exact within_currentFrame.bind fun _ => (within_toSimple he _).bind fun _ => he.newTemp.bind fun _ => .pure _
    · exact .pure _

lemma within_assignment (span : Span) {target value : Analysis Lowered} (ht : Within R target)
    (hv : Within R value) : Within R (assignment span target value) := by
  refine ht.bind fun target => hv.bind fun source => (within_checkType he.report _ _ _).bind fun _ =>
    within_hasError.bind fun failed => ?_
  split
  · exact .pure _
  · split
    · exact within_currentFrame.bind fun _ => .pure _
    · exact .pure _

lemma within_negation {operand : Part} (ho : Within R operand.lower) : Within R (negation operand) := by
  refine ho.bind fun value => (within_checkType he.report _ _ _).bind fun _ => he.newTemp.bind fun result =>
    within_hasError.bind fun failed => ?_
  split
  · exact .pure _
  · split
    · exact .pure _
    · exact within_currentFrame.bind fun _ => .pure _

lemma within_checkOperands (span : Span) (operator : Operator) (operatorSpan : Span) (left right : Ty)
    (leftSpan rightSpan : Span) :
    Within R (checkOperands span operator operatorSpan left right leftSpan rightSpan) := by
  refine within_get.bind fun state => ?_
  have hboth : ∀ (ty : Ty) (operands : Operands), Within R (do
      checkType ty left leftSpan
      checkType ty right rightSpan
      return operands) := fun ty operands =>
    (within_checkType he.report _ _ _).bind fun _ => (within_checkType he.report _ _ _).bind fun _ => .pure _
  dsimp only
  split
  · exact hboth _ _
  · split
    · split
      · exact hboth _ _
      · exact (he.report _ _).bind fun _ => .pure _
    · split
      · split
        · exact .pure _
        · exact (he.report _ _).bind fun _ => .pure _
      · exact (he.report _ _).bind fun _ => .pure _

lemma within_operationCode (operator : Operator) (operands : Operands) (result : Temp) (left right : Lowered)
    (lhs rhs : Access) : Within R (operationCode operator operands result left right lhs rhs) := by
  have hdeciding : ∀ conjunction, Within R (deciding conjunction result left right lhs rhs) := fun _ =>
    he.newLabel.bind fun _ => he.newLabel.bind fun _ => within_currentFrame.bind fun _ => .pure _
  cases operator with
  | and => exact hdeciding true
  | or => exact hdeciding false
  | strict operator =>
    simp only [operationCode]
    split
    · exact he.newTemp.bind fun _ => (he.useRuntime _).bind fun _ => within_currentFrame.bind fun _ => .pure _
    · exact within_currentFrame.bind fun _ => .pure _

lemma within_operation (span : Span) (operator : Operator) (operatorSpan : Span) {lhs rhs : Part}
    (hl : Within R lhs.lower) (hr : Within R rhs.lower) :
    Within R (operation span operator operatorSpan lhs rhs) := by
  refine hl.bind fun left => hr.bind fun right => (within_checkOperands he _ _ _ _ _ _ _).bind fun operands =>
    he.newTemp.bind fun result => within_hasError.bind fun failed => ?_
  split
  · exact .pure _
  · split
    · exact .pure _
    · split
      · exact (within_operationCode he _ _ _ _ _ _ _).bind fun _ => .pure _
      · exact .pure _

lemma within_breakLoop (span : Span) : Within R (breakLoop span) := by
  refine within_get.bind fun state => ?_
  split
  · exact within_currentFrame.bind fun _ => .pure _
  · exact (he.report _ _).bind fun _ => .pure _

lemma within_ifThen {condition positive : Part} (hc : Within R condition.lower)
    (hp : Within R positive.lower) : Within R (ifThen condition positive) := by
  refine hc.bind fun test => (within_checkType he.report _ _ _).bind fun _ => hp.bind fun body =>
    (within_checkType he.report _ _ _).bind fun _ => within_hasError.bind fun failed => ?_
  split
  · exact .pure _
  · split
    · exact .pure _
    · exact within_currentFrame.bind fun _ => he.newLabel.bind fun _ => .pure _

lemma within_branchType (positive negative : Part) (yes no : Ty) :
    Within R (branchType positive negative yes no) := by
  refine (within_isNil _).bind fun isNil => ?_
  split <;> exact (within_checkType he.report _ _ _).bind fun _ => .pure _

lemma within_resultTemp (ty : Ty) : Within R (resultTemp ty) := by
  refine (within_isVoid _).bind fun isVoid => ?_
  split
  · exact .pure _
  · exact he.newTemp.bind fun _ => .pure _

lemma within_ifThenElse {condition positive negative : Part} (hc : Within R condition.lower)
    (hp : Within R positive.lower) (hn : Within R negative.lower) :
    Within R (ifThenElse condition positive negative) := by
  refine hc.bind fun test => (within_checkType he.report _ _ _).bind fun _ => hp.bind fun yes => hn.bind fun no =>
    (within_branchType he _ _ _ _).bind fun ty => (within_resultTemp he _).bind fun result =>
    within_hasError.bind fun failed => ?_
  split
  · exact .pure _
  · split
    · exact .pure _
    · exact within_currentFrame.bind fun _ => he.newLabel.bind fun _ => he.newLabel.bind fun _ => .pure _

lemma within_whileLoop {condition body : Part} (hc : Within R condition.lower) (hb : Within R body.lower) :
    Within R (whileLoop condition body) := by
  refine he.newLabel.bind fun head => he.newLabel.bind fun exit => hc.bind fun test =>
    (he.inLoop exit hb).bind fun inside => (within_checkType he.report _ _ _).bind fun _ =>
    (within_checkType he.report _ _ _).bind fun _ => within_hasError.bind fun failed => ?_
  split
  · exact .pure _
  · split
    · exact .pure _
    · exact within_currentFrame.bind fun _ => .pure _

lemma within_forLoop (counter : Ident) {first last body : Part} (hf : Within R first.lower)
    (hl : Within R last.lower) (hb : Within R body.lower) :
    Within R (forLoop counter first last body) := by
  refine hf.bind fun low => hl.bind fun high => (within_checkType he.report _ _ _).bind fun _ =>
    (within_checkType he.report _ _ _).bind fun _ => he.newLabel.bind fun exit => he.newTemp.bind fun place =>
    (he.forBody _ _ _ hb).bind fun inside => within_hasError.bind fun failed => ?_
  split
  · exact .pure _
  · split
    · exact he.newTemp.bind fun _ => he.newLabel.bind fun _ => within_currentFrame.bind fun _ => .pure _
    · exact .pure _

lemma within_arrayType? (name : Ident) : Within R (arrayType? name) := by
  refine (within_type? _).bind fun found => ?_
  split
  · exact (he.report _ _).bind fun _ => .pure _
  · refine (within_actual _).bind fun ty => ?_
    split
    · exact .pure _
    · exact (he.report _ _).bind fun _ => .pure _

lemma within_arrayOf (size init : Lowered) (ty : Ty) (count value : Access) :
    Within R (arrayOf size init ty count value) :=
  he.newTemp.bind fun _ => he.newTemp.bind fun _ => he.newTemp.bind fun _ =>
    (he.useRuntime _).bind fun _ => he.newLabel.bind fun _ => he.newLabel.bind fun _ =>
    within_currentFrame.bind fun _ => .pure _

lemma within_arrayCreation (name : Ident) {size init : Part} (hs : Within R size.lower)
    (hi : Within R init.lower) : Within R (arrayCreation name size init) := by
  refine (within_arrayType? he _).bind fun found => hs.bind fun count =>
      (within_checkType he.report _ _ _).bind fun _ =>
    hi.bind fun value => ?_
  split
  · exact (he.newIdentity fun identity => .array identity .int).bind fun _ => .pure _
  · refine (within_checkType he.report _ _ _).bind fun _ => within_hasError.bind fun failed => ?_
    split
    · exact .pure _
    · split
      · exact within_arrayOf he _ _ _ _ _
      · exact .pure _

lemma within_recordType? (name : Ident) : Within R (recordType? name) := by
  refine (within_type? _).bind fun found => ?_
  split
  · exact (he.report _ _).bind fun _ => .pure _
  · refine (within_actual _).bind fun ty => ?_
    split
    · exact .pure _
    · exact (he.report _ _).bind fun _ => .pure _

lemma within_initField (target : Temp) (index : Nat) (expected : String) (ty : Ty) (name : Ident) {value : Part}
    (hv : Within R value.lower) : Within R (initField target index expected ty name value) := by
  refine (within_reportIf he.report _ _ _).bind fun _ => hv.bind fun init =>
    (within_checkType he.report _ _ _).bind fun _ => within_hasError.bind fun failed => ?_
  split
  · exact .pure _
  · split
    · exact .pure _
    · exact within_currentFrame.bind fun _ => .pure _

lemma within_allocateRecord (target : Temp) (count : Nat) : Within R (allocateRecord target count) := by
  refine within_hasError.bind fun failed => ?_
  split
  · exact .pure _
  · exact he.newTemp.bind fun _ => (he.useRuntime _).bind fun _ => within_currentFrame.bind fun _ => .pure _

lemma within_recordCreation (span : Span) (name : Ident) (given : Nat)
    {init : Temp → List (String × Ty) → Analysis (List Code)} {check : Analysis Unit}
    (hi : ∀ target declared, Within R (init target declared)) (hc : Within R check) :
    Within R (recordCreation span name given init check) := by
  refine (within_recordType? he _).bind fun found => ?_
  split
  · exact hc.bind fun _ => (he.newIdentity fun identity => .record identity []).bind fun _ => .pure _
  · refine he.newTemp.bind fun target => (within_allocateRecord he _ _).bind fun _ => (hi _ _).bind fun _ =>
      (within_reportIf he.report _ _ _).bind fun _ => within_hasError.bind fun failed => ?_
    split <;> exact .pure _

lemma within_callOperation (name : String) (entry : Option Entry) (destination : Option Temp)
    (actuals : List Access) : Within R (callOperation name entry destination actuals) := by
  unfold callOperation
  split
  · exact .pure _
  · exact (he.useRuntime _).bind fun _ => .pure _

lemma within_callCode (name : String) (signature : Signature) (code : List Code) (actuals : List Access) :
    Within R (callCode name signature code actuals) := by
  refine within_hasError.bind fun failed => ?_
  split
  · exact .pure _
  · exact (within_resultTemp he _).bind fun _ => (within_callOperation he _ _ _ _).bind fun _ =>
      within_currentFrame.bind fun _ => .pure _

lemma within_callOf (span : Span) (function : Ident) (id : FunctionId) (signature : Signature) (given : Nat)
    {arguments : List Param → Analysis (List Code × List Access)} (ha : ∀ params, Within R (arguments params)) :
    Within R (callOf span function id signature given arguments) :=
  (ha _).bind fun _ => (within_reportIf he.report _ _ _).bind fun _ => (he.noteCall _).bind fun _ =>
    (he.noteEdge _).bind fun _ => within_callCode he _ _ _ _

lemma within_call (span : Span) (function : Ident) (given : Nat)
    {arguments : List Param → Analysis (List Code × List Access)} (ha : ∀ params, Within R (arguments params)) :
    Within R (call span function given arguments) := by
  refine (within_value? _).bind fun value => ?_
  split
  · exact (he.report _ _).bind fun _ => .pure _
  · exact (he.report _ _).bind fun _ => .pure _
  · exact within_callOf he _ _ _ _ _ ha

lemma within_variableType (name : Ident) (declared : Option Ident) (given : Ty) (span : Span) :
    Within R (variableType name declared given span) := by
  unfold variableType
  split
  · refine (within_type? _).bind fun found => ?_
    split
    · exact (within_checkType he.report _ _ _).bind fun _ => .pure _
    · exact (he.report _ _).bind fun _ => .pure _
  · refine (within_isNil _).bind fun isNil => (within_isVoid _).bind fun isVoid => ?_
    split
    · exact (he.report _ _).bind fun _ => .pure _
    · exact .pure _

variable [Std.Refl D] [IsTrans Analyzer D]

lemma within_variableDeclaration (name : Ident) (declared : Option Ident) {value : Part}
    (hv : Within R value.lower) : Within D (variableDeclaration name declared value) := by
  have hkeep : ∀ {β : Type} {m : Analysis β}, Within R m → Within D m := fun h =>
    h.mono fun _ _ => he.declares
  refine (hkeep hv).bind fun init => (hkeep (within_variableType he _ _ _ _)).bind fun ty =>
    (hkeep he.newTemp).bind fun place => (he.putValue _ _).bind fun _ => within_hasError.bind fun failed => ?_
  split
  · exact .pure _
  · split
    · exact .pure _
    · exact within_currentFrame.bind fun _ => .pure _

lemma Stepwise.compositional {B : Nat → List Declared → Analysis (List Code) → Prop}
    (hgroup : ∀ members bodies, (∀ declared, B members.length declared (bodies declared)) →
      Within D (functionGroup members bodies))
    (hnone : ∀ given declared, given = 0 ∨ declared = [] → B given declared (pure []))
    (hbodies : ∀ given declared others (body : Part) rest, Within R body.lower → B given others rest →
      B (given + 1) (declared :: others) (do
        let code ← functionBody declared body
        let codes ← rest
        return code ++ codes)) :
    Compositional (Within R) (fun _ => Within R) (fun _ _ => Within R) (fun _ _ _ _ => Within R) (Within R)
      (Within D) B where
  int _ := .pure _
  string _ := (he.internString _).bind fun _ => .pure _
  nil := .pure _
  breakLoop := within_breakLoop he
  lvalue _ h := h
  assignment _ _ _ := within_assignment he _
  operation _ _ _ _ _ := within_operation he _ _ _
  negation _ := within_negation he
  call _ _ _ _ := within_call he _ _ _
  ifThen _ _ := within_ifThen he
  ifThenElse _ _ _ := within_ifThenElse he
  whileLoop _ _ := within_whileLoop he
  forLoop _ _ _ _ := within_forLoop he _
  letIn _ _ := he.letIn
  arrayCreation _ _ _ := within_arrayCreation he _
  recordCreation _ _ _ _ _ := within_recordCreation he _ _ _
  emptySequence := .pure _
  sequence _ _ hf hr := hf.bind fun _ => hr.bind fun _ => .pure _
  variablePlace := within_variablePlace he
  fieldPlace _ _ _ hb := within_fieldPlace he hb _
  elementPlace _ _ _ _ := within_elementPlace he _
  noArguments _ := .pure _
  extraArgument _ _ _ hv hr := hv.bind fun _ => hr
  argument _ _ _ _ _ _ hv hr :=
    hv.bind fun _ => (within_checkType he.report _ _ _).bind fun _ => hr.bind fun _ => .pure _
  noFields _ _ _ := .pure _
  extraFields _ _ _ _ _ hv hr := hv.bind fun _ => hr.bind fun _ => .pure _
  fields _ _ _ _ _ _ _ _ _ hv hr := (within_initField he _ _ _ _ _ hv).bind fun _ => hr.bind fun _ => .pure _
  noChecks := .pure _
  checks _ _ hv hr := hv.bind fun _ => hr
  noDeclarations := .pure _
  declarations _ _ hg hr := hg.bind fun _ => hr.bind fun _ => .pure _
  variableDeclaration _ _ _ := within_variableDeclaration he _ _
  typeGroup _ := (he.typeGroup _).bind fun _ => .pure _
  functionGroup := hgroup
  noBodies := hnone
  bodies := hbodies

end

end TigerMips.Analysis
