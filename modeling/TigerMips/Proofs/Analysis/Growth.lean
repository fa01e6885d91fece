import TigerMips.Proofs.Analysis.Stepwise
import TigerMips.Proofs.Function
import TigerMips.Proofs.Scope
import TigerMips.Proofs.Tac.Supported

/-! An analysis leaves the scopes as it found them, and only adds to its tables. -/

namespace TigerMips

namespace Analyzer

structure Grows (s t : Analyzer) : Prop where
  errors : s.errors <+: t.errors
  bindings : s.typeTable.bindings.items <+: t.typeTable.bindings.items
  functions : s.functions.Grows Function.Grows t.functions
  frames : s.frames.Grows Frame.Grows t.frames
  mainFrame : t.mainFrame = s.mainFrame
  callGraph : s.callGraph.edges <+: t.callGraph.edges
  strings : s.strings.entries <+: t.strings.entries
  runtime : s.runtime ⊆ t.runtime
  temps : s.supply.temps ≤ t.supply.temps
  labels : s.supply.labels ≤ t.supply.labels

structure Keeps (s t : Analyzer) : Prop extends Grows s t where
  values : t.values = s.values
  types : t.types = s.types
  enclosing : t.enclosing = s.enclosing
  exits : t.exits = s.exits
  currentFrame : t.currentFrame = s.currentFrame
  overclosed : t.overclosed = s.overclosed

structure Declares (s t : Analyzer) : Prop extends Grows s t where
  values : s.values.SameOuter t.values
  types : s.types.SameOuter t.types
  enclosing : t.enclosing = s.enclosing
  exits : t.exits = s.exits
  currentFrame : t.currentFrame = s.currentFrame
  overclosed : t.overclosed = s.overclosed

lemma Grows.refl (s : Analyzer) : Grows s s :=
  ⟨List.prefix_rfl, List.prefix_rfl, .refl _, .refl _, rfl, List.prefix_rfl, List.prefix_rfl, List.Subset.refl _,
    le_rfl, le_rfl⟩

lemma Grows.trans {s t u : Analyzer} (h : Grows s t) (h' : Grows t u) : Grows s u where
  errors := h.errors.trans h'.errors
  bindings := h.bindings.trans h'.bindings
  functions := h.functions.trans h'.functions
  frames := h.frames.trans h'.frames
  mainFrame := h'.mainFrame.trans h.mainFrame
  callGraph := h.callGraph.trans h'.callGraph
  strings := h.strings.trans h'.strings
  runtime := List.Subset.trans h.runtime h'.runtime
  temps := h.temps.trans h'.temps
  labels := h.labels.trans h'.labels

lemma Grows.clean {s t : Analyzer} (h : Grows s t) (ht : t.errors = []) : s.errors = [] :=
  List.prefix_nil.mp (ht ▸ h.errors)

instance : Std.Refl Keeps := ⟨fun s => ⟨.refl s, rfl, rfl, rfl, rfl, rfl, rfl⟩⟩

instance : IsTrans Analyzer Keeps where
  trans _ _ _ h h' := ⟨h.toGrows.trans h'.toGrows, h'.values.trans h.values, h'.types.trans h.types,
    h'.enclosing.trans h.enclosing, h'.exits.trans h.exits, h'.currentFrame.trans h.currentFrame,
    h'.overclosed.trans h.overclosed⟩

lemma Keeps.refl (s : Analyzer) : Keeps s s := refl_of Keeps s

lemma Keeps.trans {s t u : Analyzer} (h : Keeps s t) (h' : Keeps t u) : Keeps s u := trans_of Keeps h h'

instance : Std.Refl Declares := ⟨fun s => ⟨.refl s, .refl _, .refl _, rfl, rfl, rfl, rfl⟩⟩

instance : IsTrans Analyzer Declares where
  trans _ _ _ h h' := ⟨h.toGrows.trans h'.toGrows, h.values.trans h'.values, h.types.trans h'.types,
    h'.enclosing.trans h.enclosing, h'.exits.trans h.exits, h'.currentFrame.trans h.currentFrame,
    h'.overclosed.trans h.overclosed⟩

lemma Declares.refl (s : Analyzer) : Declares s s := refl_of Declares s

lemma Keeps.declares {s t : Analyzer} (h : Keeps s t) : Declares s t :=
  ⟨h.toGrows, h.values ▸ .refl _, h.types ▸ .refl _, h.enclosing, h.exits, h.currentFrame, h.overclosed⟩

end Analyzer

namespace Analysis

open Analyzer

lemma keeps_report (fault : Fault) (span : Span) : Within Keeps (report fault span) :=
  fun s => { Keeps.refl s with errors := List.prefix_append _ _ }

lemma keeps_newLabel : Within Keeps newLabel := fun s => { Keeps.refl s with labels := Nat.le_succ _ }

lemma keeps_newTemp : Within Keeps newTemp := fun s =>
  { Keeps.refl s with
    temps := Nat.le_succ _
    frames := .modify s.frames s.currentFrame fun _ => ⟨[⟨s.supply.temps⟩], rfl⟩ }

lemma keeps_useRuntime (name : String) : Within Keeps (useRuntime name) :=
  fun s => { Keeps.refl s with runtime := fun _ h => List.mem_insert_of_mem h }

lemma keeps_internString (text : String) : Within Keeps (internString text) := by
  intro s
  unfold internString
  simp only [modifyGet, MonadStateOf.modifyGet, StateT.modifyGet, StringTable.intern]
  cases s.strings.find? text with
  | some label => exact Keeps.refl s
  | none => exact { Keeps.refl s with strings := List.prefix_append _ _, labels := Nat.le_succ _ }

lemma keeps_newIdentity (make : Nat → Ty) :
    Within Keeps (onTypes (do return make (← TypeTable.newIdentity))) :=
  fun s => { Keeps.refl s with }

lemma keeps_visit (s : Analyzer) (id : FunctionId) : s.Keeps (s.visit id) := { Keeps.refl s with }

lemma keeps_onFunction (s : Analyzer) (id : FunctionId) {f : Function → Function} (hf : ∀ g, Function.Grows g (f g)) :
    s.Keeps (s.onFunction id f) :=
  { Keeps.refl s with functions := .modify s.functions id hf }

lemma keeps_noteUse (name : String) : Within Keeps (noteUse name) := by
  refine .modify fun s => ?_
  split
  · split
    · exact keeps_onFunction s _ (Function.grows_addForeign name)
    · exact Keeps.refl s
  · exact Keeps.refl s

lemma keeps_noteCall (callee : FunctionId) : Within Keeps (noteCall callee) := by
  refine .modify fun s => ?_
  split
  · exact (keeps_visit s callee).trans (keeps_onFunction _ _ (Function.grows_addInvocation _))
  · exact keeps_visit s callee

lemma keeps_noteEdge (entry : Option Entry) : Within Keeps (noteEdge entry) := by
  refine .modify fun s => ?_
  cases entry with
  | none => exact Keeps.refl s
  | some entry =>
    refine { Keeps.refl s with callGraph := ?_ }
    change _ <+: (s.callGraph.addEdge _ _).edges
    unfold CallGraph.addEdge
    split
    · exact List.prefix_rfl
    · exact List.prefix_append _ _

lemma keeps_inLoop (exit : Label) {body : Analysis Lowered} (hb : Within Keeps body) :
    Within Keeps (inLoop exit body) := by
  intro s
  have h : Keeps { s with exits := some exit :: s.exits } (body { s with exits := some exit :: s.exits }).2 := hb _
  exact { h with exits := congrArg List.tail h.exits }

lemma keeps_forBody (counter : Ident) (place : Temp) (exit : Label) {body : Part} (hb : Within Keeps body.lower) :
    Within Keeps (forBody counter place exit body) := by
  intro s
  have hinside : Within Keeps (do
      let inside ← inLoop exit body.lower
      checkType .void inside.ty body.span) :=
    (keeps_inLoop exit hb).bind fun _ => within_checkType keeps_report _ _ _
  have h := hinside { s with
    values := s.values.openScope.put counter.name (.var { ty := .int, place, assignable := false }) }
  have hscope := (ScopeStack.SameOuter.put s.values.openScope _ _).trans h.declares.values
  exact { h with
    values := congrArg ScopeStack.close h.values
    overclosed := (ScopeStack.or_isEmpty_inner rfl hscope _).trans h.overclosed }

lemma keeps_letIn {declarations : Analysis (List Code)} {body : Analysis Lowered}
    (hd : Within Declares declarations) (hb : Within Keeps body) : Within Keeps (letIn declarations body) := by
  intro s
  have hinside : Within Declares (do
      let _ ← declarations
      body) := hd.bind fun _ => hb.mono fun _ _ => Keeps.declares
  have h := hinside { s with values := s.values.openScope, types := s.types.openScope }
  have hvalues := ScopeStack.close_eq_of_sameOuter rfl h.values
  have htypes := ScopeStack.close_eq_of_sameOuter rfl h.types
  have hvaluesOpen := ScopeStack.or_isEmpty_inner rfl h.values
  have htypesOpen := ScopeStack.or_isEmpty_inner rfl h.types
  exact { h with
    values := hvalues
    types := htypes
    overclosed := (htypesOpen _).trans ((hvaluesOpen _).trans h.overclosed) }

lemma declares_putValue (name : String) (value : Value) : Within Declares (putValue name value) :=
  fun s => { Declares.refl s with values := .put _ _ _ }

def Retypes (n : Nat) (s t : Analyzer) : Prop :=
  ∃ errors types table, t = { s with errors, types, typeTable := table } ∧ s.errors <+: errors ∧
    s.types.SameOuter types ∧ s.typeTable.bindings.size ≤ table.bindings.size ∧
    (n ≤ s.typeTable.bindings.size → table.bindings.items.take n = s.typeTable.bindings.items.take n)

instance (n : Nat) : Std.Refl (Retypes n) :=
  ⟨fun s => ⟨s.errors, s.types, s.typeTable, rfl, List.prefix_rfl, .refl _, le_rfl, fun _ => rfl⟩⟩

instance (n : Nat) : IsTrans Analyzer (Retypes n) where
  trans := by
    rintro s _ _ ⟨errors, types, table, rfl, he, ht, hs, hb⟩ ⟨errors', types', table', rfl, he', ht', hs', hb'⟩
    exact ⟨errors', types', table', rfl, he.trans he', ht.trans ht', hs.trans hs', fun hn =>
      (hb' (hn.trans hs)).trans (hb hn)⟩

lemma Retypes.declares {s t : Analyzer} (h : Retypes s.typeTable.bindings.size s t) : Declares s t := by
  obtain ⟨errors, types, table, rfl, he, ht, -, hb⟩ := h
  refine { Declares.refl s with errors := he, types := ht, bindings := ?_ }
  have hitems := hb le_rfl
  rw [show s.typeTable.bindings.items.take s.typeTable.bindings.size = s.typeTable.bindings.items from
    List.take_length] at hitems
  exact hitems ▸ List.take_prefix _ _

section

variable {n : Nat}

lemma retypes_report (fault : Fault) (span : Span) : Within (Retypes n) (report fault span) := fun s =>
  ⟨_, s.types, s.typeTable, rfl, List.prefix_append _ _, .refl _, le_rfl, fun _ => rfl⟩

lemma retypes_newIdentity (make : Nat → Ty) :
    Within (Retypes n) (onTypes (do return make (← TypeTable.newIdentity))) :=
  fun s => ⟨s.errors, s.types, _, rfl, List.prefix_rfl, .refl _, le_rfl, fun _ => rfl⟩

lemma retypes_typeExpression (ty : TypeExpr) : Within (Retypes n) (typeExpression ty) := by
  cases ty with
  | name name => exact within_typeOf retypes_report name
  | array element =>
    exact (within_typeOf retypes_report _).bind fun ty => retypes_newIdentity fun identity => .array identity ty
  | record fields =>
    exact (within_typedNames retypes_report _).bind fun fields =>
      retypes_newIdentity fun identity => .record identity fields

lemma retypes_newName : Within (Retypes n) (onTypes TypeTable.newName) := fun s =>
  ⟨s.errors, s.types, { s.typeTable with bindings := s.typeTable.bindings.push none }, rfl, List.prefix_rfl, .refl _,
    by simp, fun hn => List.take_append_of_le_length hn⟩

lemma retypes_putType (name : String) (ty : Ty) : Within (Retypes n) (putType name ty) := fun s =>
  ⟨s.errors, _, s.typeTable, rfl, List.prefix_rfl, .put _ _ _, le_rfl, fun _ => rfl⟩

lemma retypes_bindType {id : TypeNameId} (hid : n ≤ id.position) (ty : Ty) : Within (Retypes n) (bindType id ty) :=
  fun s => ⟨s.errors, s.types, _, rfl, List.prefix_rfl, .refl _, by simp [TypeTable.bind], fun _ =>
    List.take_set_of_le hid⟩

lemma retypes_enterTypes (seen : List String) (members : List TypeDecl) :
    Within (Retypes n) (enterTypes seen members) := by
  induction members generalizing seen with
  | nil => exact .pure _
  | cons decl rest ih =>
    unfold enterTypes
    split
    · exact (retypes_report _ _).bind fun _ => (ih _).bind fun _ => .pure _
    · exact retypes_newName.bind fun _ => (retypes_putType _ _).bind fun _ => (ih _).bind fun _ => .pure _

lemma le_of_mem_enterTypes {seen : List String} {members : List TypeDecl} {s t : Analyzer}
    {entered : List (TypeDecl × Option TypeNameId)} (h : enterTypes seen members s = (entered, t))
    (hn : n ≤ s.typeTable.bindings.size) : ∀ entry ∈ entered, ∀ id ∈ entry.2, n ≤ id.position := by
  induction members generalizing seen s t entered with
  | nil =>
    obtain ⟨rfl, -⟩ := pure_eq.mp h
    simp
  | cons decl rest ih =>
    have hsize : ∀ {s t}, Retypes n s t → n ≤ s.typeTable.bindings.size → n ≤ t.typeTable.bindings.size := by
      rintro s _ ⟨errors, types, table, rfl, -, -, hs, -⟩ hn
      exact hn.trans hs
    unfold enterTypes at h
    split at h
    · obtain ⟨_, s₁, hr, h⟩ := bind_eq.mp h
      obtain ⟨others, s₂, ho, h⟩ := bind_eq.mp h
      obtain ⟨rfl, -⟩ := pure_eq.mp h
      intro entry hm
      rcases List.mem_cons.mp hm with rfl | hm
      · simp
      · exact ih ho (hsize ((retypes_report _ _).apply hr) hn) entry hm
    · obtain ⟨id, s₁, hi, h⟩ := bind_eq.mp h
      obtain ⟨_, s₂, hp, h⟩ := bind_eq.mp h
      obtain ⟨others, s₃, ho, h⟩ := bind_eq.mp h
      obtain ⟨rfl, -⟩ := pure_eq.mp h
      have hid : id = s.typeTable.bindings.next := (Prod.mk.inj hi).1.symm
      intro entry hm
      rcases List.mem_cons.mp hm with rfl | hm
      · simpa [hid, Arena.next] using hn
      · exact ih ho (hsize ((retypes_putType _ _).apply hp) (hsize (retypes_newName.apply hi) hn)) entry hm

lemma retypes_bindTypes {entered : List (TypeDecl × Option TypeNameId)}
    (hn : ∀ entry ∈ entered, ∀ id ∈ entry.2, n ≤ id.position) : Within (Retypes n) (bindTypes entered) := by
  induction entered with
  | nil => exact .pure _
  | cons entry rest ih =>
    obtain ⟨decl, bound⟩ := entry
    have hrest := ih fun entry hm => hn entry (List.mem_cons_of_mem _ hm)
    cases bound with
    | none => exact (retypes_typeExpression _).bind fun _ => hrest
    | some id =>
      exact (retypes_typeExpression _).bind fun _ =>
        (retypes_bindType (hn _ List.mem_cons_self id rfl) _).bind fun _ => hrest

lemma retypes_breakCycles {entered : List (TypeDecl × Option TypeNameId)}
    (hn : ∀ entry ∈ entered, ∀ id ∈ entry.2, n ≤ id.position) : Within (Retypes n) (breakCycles entered) := by
  induction entered with
  | nil => exact .pure _
  | cons entry rest ih =>
    obtain ⟨decl, bound⟩ := entry
    have hrest := ih fun entry hm => hn entry (List.mem_cons_of_mem _ hm)
    cases bound with
    | none => exact hrest
    | some id =>
      refine Within.bind ?_ fun _ => hrest
      refine within_get.bind fun state => ?_
      split
      · exact (retypes_report _ _).bind fun _ => retypes_bindType (hn _ List.mem_cons_self id rfl) _
      · exact .pure _

end

lemma retypes_typeGroup (members : List TypeDecl) (s : Analyzer) :
    Retypes s.typeTable.bindings.size s (typeGroup members s).2 := by
  have hnew := le_of_mem_enterTypes (t := (enterTypes [] members s).2) rfl le_rfl
  have hgroup := ((retypes_bindTypes hnew).bind fun _ => retypes_breakCycles hnew) (enterTypes [] members s).2
  exact trans_of (Retypes _) (retypes_enterTypes [] members s) hgroup

lemma declares_typeGroup (members : List TypeDecl) : Within Declares (typeGroup members) :=
  fun s => (retypes_typeGroup members s).declares

lemma keeps : Stepwise Keeps Declares where
  report := keeps_report
  newLabel := keeps_newLabel
  newTemp := keeps_newTemp
  useRuntime := keeps_useRuntime
  internString := keeps_internString
  newIdentity := keeps_newIdentity
  noteUse := keeps_noteUse
  noteCall := keeps_noteCall
  noteEdge := keeps_noteEdge
  inLoop := keeps_inLoop
  forBody := keeps_forBody
  letIn := keeps_letIn
  declares := Keeps.declares
  putValue := declares_putValue
  typeGroup := declares_typeGroup

lemma newParams_eq (count : Nat) (frame : Frame) (supply : Supply) : frame.newParams count supply =
    ({ frame with
        params := frame.params ++ (List.range' supply.temps count).map Temp.mk
        locals := frame.locals ++ (List.range' supply.temps count).map Temp.mk },
      ⟨supply.temps + count, supply.labels⟩) := by
  induction count generalizing frame supply with
  | zero =>
    change (frame, supply) = _
    simp
  | succ count ih =>
    change Frame.newParams count (frame.addParam ⟨supply.temps⟩) ⟨supply.temps + 1, supply.labels⟩ = _
    rw [ih]
    simp [Frame.addParam, Frame.addLocal, List.range'_succ, Nat.add_comm 1, Nat.add_assoc]

lemma newFrame_eq (name : String) (label : Label) (count : Nat) (hasResult : Bool) (s : Analyzer) :
    newFrame name label count hasResult s =
      ({ name
         entry := some label
         parent := some s.currentFrame
         params := (List.range' (s.supply.temps + 1) count).map Temp.mk
         display := ⟨s.supply.temps⟩
         locals := (List.range' (s.supply.temps + 1) (if hasResult then count + 1 else count)).map Temp.mk
         returnValue := if hasResult then some ⟨s.supply.temps + 1 + count⟩ else none },
        { s with supply := ⟨s.supply.temps + 1 + (if hasResult then count + 1 else count), s.supply.labels⟩ }) := by
  let made :=
    Frame.newParams count { name, entry := some label, parent := some s.currentFrame, display := ⟨s.supply.temps⟩ }
    ⟨s.supply.temps + 1, s.supply.labels⟩
  cases hasResult with
  | false =>
    change (made.1, { s with supply := made.2 }) = _
    simp [made, newParams_eq]
  | true =>
    change ({ made.1.addLocal ⟨made.2.temps⟩ with returnValue := some ⟨made.2.temps⟩ },
      { s with supply := ⟨made.2.temps + 1, made.2.labels⟩ }) = _
    simp [made, newParams_eq, Frame.addLocal, List.range'_concat, Nat.add_assoc]

lemma keeps_newFrame (name : String) (label : Label) (count : Nat) (hasResult : Bool) :
    Within Keeps (newFrame name label count hasResult) := by
  intro s
  rw [newFrame_eq]
  exact { Keeps.refl s with temps := by change s.supply.temps ≤ s.supply.temps + 1 + _; omega }

def declaredFrame (s : Analyzer) (name : String) (params : Nat) (result : Ty) : Frame where
  name := name
  entry := some ⟨s.supply.labels⟩
  parent := some s.currentFrame
  params := (List.range' (s.supply.temps + 1) params).map Temp.mk
  display := ⟨s.supply.temps⟩
  locals := (List.range' (s.supply.temps + 1) (if !s.typeTable.isVoid result then params + 1 else params)).map Temp.mk
  returnValue := if !s.typeTable.isVoid result then some ⟨s.supply.temps + 1 + params⟩ else none

def declaredAs (s : Analyzer) (name : String) (params : List Param) (result : Ty) : Declared where
  id := s.functions.next
  params := params
  result := result
  entry := {
    label := ⟨s.supply.labels⟩
    frame := s.frames.next
    formals := (declaredFrame s name params.length result).params
    resultPlace := (declaredFrame s name params.length result).returnValue }

lemma declareFunction_eq {decl : FunctionDecl} {s t : Analyzer} {declared : Declared}
    (h : declareFunction decl s = (declared, t)) : ∃ result s₁ typed s₂ params,
      resultType decl.result s = (result, s₁) ∧ typedNames decl.params s₁ = (typed, s₂) ∧
      params = typed.map (fun param => ⟨param.1, param.2⟩) ∧
      declared = declaredAs s₂ decl.name.name params result ∧
      t = { s₂ with
        frames := s₂.frames.push (declaredFrame s₂ decl.name.name params.length result)
        functions := s₂.functions.push
          { name := decl.name.name, signature := ⟨params, result, some declared.entry⟩ }
        supply := ⟨s₂.supply.temps + 1 + (if !s₂.typeTable.isVoid result then params.length + 1 else params.length),
          s₂.supply.labels + 1⟩ } := by
  obtain ⟨result, s₁, hr, h⟩ := bind_eq.mp h
  obtain ⟨typed, s₂, ht, h⟩ := bind_eq.mp h
  obtain ⟨label, s₃, hl, h⟩ := bind_eq.mp h
  obtain ⟨isVoid, s₄, hv, h⟩ := bind_eq.mp h
  obtain ⟨frame, s₅, hf, h⟩ := bind_eq.mp h
  obtain ⟨frameId, s₆, hp, h⟩ := bind_eq.mp h
  obtain ⟨id, s₇, hi, h⟩ := bind_eq.mp h
  obtain ⟨rfl, rfl⟩ := pure_eq.mp h
  obtain ⟨rfl, rfl⟩ := Prod.mk.inj hl
  obtain ⟨rfl, rfl⟩ := Prod.mk.inj hv
  rw [newFrame_eq] at hf
  obtain ⟨rfl, rfl⟩ := Prod.mk.inj hf
  obtain ⟨rfl, rfl⟩ := Prod.mk.inj hp
  obtain ⟨rfl, rfl⟩ := Prod.mk.inj hi
  exact ⟨result, s₁, typed, s₂, _, hr, ht, rfl, rfl, rfl⟩

lemma declareFunction_state {decl : FunctionDecl} {s t : Analyzer} {declared : Declared}
    (h : declareFunction decl s = (declared, t)) : ∃ u params result,
      (∃ errors types table, u = { s with errors, types, typeTable := table }) ∧
      declared = declaredAs u decl.name.name params result ∧
      t = { u with
        frames := u.frames.push (declaredFrame u decl.name.name params.length result)
        functions := u.functions.push { name := decl.name.name, signature := ⟨params, result, some declared.entry⟩ }
        supply := ⟨u.supply.temps + 1 + (if !u.typeTable.isVoid result then params.length + 1 else params.length),
          u.supply.labels + 1⟩ } := by
  obtain ⟨result, s₁, typed, s₂, params, hresult, htyped, -, hdeclared, ht⟩ := declareFunction_eq h
  obtain ⟨errors, types, table, hstate, -⟩ := trans_of (Retypes 0)
    ((within_resultType retypes_report _).apply hresult) ((within_typedNames retypes_report _).apply htyped)
  exact ⟨s₂, params, result, ⟨errors, types, table, hstate⟩, hdeclared, ht⟩

lemma keeps_declareFunction (decl : FunctionDecl) : Within Keeps (declareFunction decl) := by
  have hframe : ∀ frame, Within Keeps (addFrame frame) := fun frame s =>
    { Keeps.refl s with frames := .push _ _ }
  have hfunction : ∀ function, Within Keeps (addFunction function) := fun function s =>
    { Keeps.refl s with functions := .push _ _ }
  exact (within_resultType keeps_report _).bind fun _ => (within_typedNames keeps_report _).bind fun _ =>
    keeps_newLabel.bind fun _ => (within_isVoid _).bind fun _ => (keeps_newFrame _ _ _ _).bind fun _ =>
      (hframe _).bind fun _ =>
    (hfunction _).bind fun _ => .pure _

lemma declares_enterName (seen : List String) (name : Ident) (declared : Declared) :
    Within Declares (enterName seen name declared) := by
  unfold enterName
  split
  · exact (keeps_report _ _).mono fun _ _ => Keeps.declares
  · exact declares_putValue _ _

lemma declares_declareFunctions (seen : List String) (members : List FunctionDecl) :
    Within Declares (declareFunctions seen members) := by
  induction members generalizing seen with
  | nil => exact .pure _
  | cons decl rest ih =>
    exact ((keeps_declareFunction _).mono fun _ _ => Keeps.declares).bind fun _ =>
      (declares_enterName _ _ _).bind fun _ => (ih _).bind fun _ => .pure _

lemma enterName_eq {seen : List String} {name : Ident} {declared : Declared} {s t : Analyzer}
    (h : enterName seen name declared s = ((), t)) :
    (∃ errors, t = { s with errors }) ∨ t = { s with values := s.values.put name.name (.function declared.id
      { params := declared.params, result := declared.result, entry := some declared.entry }) } := by
  unfold enterName at h
  split at h
  · exact Or.inl ⟨_, (congrArg Prod.snd h).symm⟩
  · exact Or.inr (congrArg Prod.snd h).symm

lemma declareFunctions_cons {decl : FunctionDecl} {rest : List FunctionDecl} {seen : List String} {s t : Analyzer}
    {declared : List Declared} (h : declareFunctions seen (decl :: rest) s = (declared, t)) : ∃ first s₁ s₂ others,
      declareFunction decl s = (first, s₁) ∧ enterName seen decl.name first s₁ = ((), s₂) ∧
      declareFunctions (decl.name.name :: seen) rest s₂ = (others, t) ∧ declared = first :: others := by
  obtain ⟨first, s₁, hfirst, h⟩ := bind_eq.mp h
  obtain ⟨_, s₂, henter, h⟩ := bind_eq.mp h
  obtain ⟨others, s₃, hothers, h⟩ := bind_eq.mp h
  obtain ⟨rfl, rfl⟩ := pure_eq.mp h
  exact ⟨first, s₁, s₂, others, hfirst, henter, hothers, rfl⟩

def Notes (s t : Analyzer) : Prop :=
  ∃ functions groups stray, t = { s with functions, groups, stray } ∧ functions.size = s.functions.size

lemma Notes.size {s t : Analyzer} (h : Notes s t) : t.functions.size = s.functions.size := by
  obtain ⟨_, _, _, rfl, hsize⟩ := h
  exact hsize

lemma notes_noteUse (name : String) : Within Notes (noteUse name) := by
  refine .modify fun s => ?_
  split
  · split
    · exact ⟨_, _, _, rfl, Arena.size_modify _ _ _⟩
    · exact ⟨_, _, _, rfl, rfl⟩
  · exact ⟨_, _, _, rfl, rfl⟩

lemma notes_noteCall (callee : FunctionId) : Within Notes (noteCall callee) := by
  refine .modify fun s => ?_
  split
  · exact ⟨_, _, _, rfl, Arena.size_modify _ _ _⟩
  · exact ⟨_, _, _, rfl, rfl⟩

lemma notes_closeForeigns (group : List FunctionId) : Within Notes (closeForeigns group) :=
  .modify fun s => ⟨_, _, _, rfl, (s.functions.widens_closeForeigns group).2⟩

lemma keeps_inFunction (declared : Declared) {body : Analysis Lowered} (hb : Within Keeps body) :
    Within Keeps (inFunction declared body) := by
  intro s
  have h := hb (enterFunction declared s).2
  have hscope : s.values.openFunction.SameOuter (enterFunction declared s).2.values := .foldl _ _ _ _
  have hvalues := ScopeStack.close_eq_of_sameOuter rfl hscope
  exact { h with
    values := (congrArg ScopeStack.close h.values).trans hvalues
    overclosed := (ScopeStack.or_isEmpty_inner rfl (hscope.trans h.declares.values) _).trans h.overclosed
    enclosing := congrArg List.tail h.enclosing
    exits := congrArg List.tail h.exits
    currentFrame := rfl }

lemma keeps_functionBody (declared : Declared) {body : Part} (hb : Within Keeps body.lower) :
    Within Keeps (functionBody declared body) := by
  refine (keeps_inFunction declared hb).bind fun inside => (within_checkType keeps_report _ _ _).bind fun _ =>
    within_hasError.bind fun failed => ?_
  split <;> exact .pure _

lemma keeps_closeForeigns (group : List FunctionId) : Within Keeps (closeForeigns group) :=
  fun s => { Keeps.refl s with functions := (s.functions.widens_closeForeigns group).1.mono fun _ _ =>
    Function.Widens.grows }

lemma declares_functionGroup (members : List FunctionDecl) {bodies : List Declared → Analysis (List Code)}
    (hb : ∀ declared, Within Keeps (bodies declared)) : Within Declares (functionGroup members bodies) := by
  have hkeep : ∀ {β : Type} {m : Analysis β}, Within Keeps m → Within Declares m := fun h =>
    h.mono fun _ _ => Keeps.declares
  refine (declares_declareFunctions _ _).bind fun declared => (hkeep (hb _)).bind fun _ =>
    (hkeep (keeps_closeForeigns _)).bind fun _ => within_hasError.bind fun failed => ?_
  split
  · exact .pure _
  · exact (hkeep keeps_newLabel).bind fun _ => within_currentFrame.bind fun _ => .pure _

lemma compositional_keeps : Compositional (Within Keeps) (fun _ => Within Keeps) (fun _ _ => Within Keeps)
    (fun _ _ _ _ => Within Keeps) (Within Keeps) (Within Declares) (fun _ _ => Within Keeps) :=
  keeps.compositional (fun members _ => declares_functionGroup members) (fun _ _ _ => .pure _)
    fun _ declared _ _ _ hb hr => (keeps_functionBody declared hb).bind fun _ => hr.bind fun _ => .pure _

lemma keeps_lowerExpr (expression : Expr) : Within Keeps (lowerExpr expression) :=
  compositional_keeps.lowerExpr expression

/-- Whatever the state and the errors, an expression leaves its surroundings as they were and never closes the global
scope. Names of types keep what they were bound to, and the tables are only added to: frames get locals, and functions
get calls and foreign names. -/
theorem lowerExpr_restores (expression : Expr) (s : Analyzer) :
    let t := (lowerExpr expression s).2
    (t.values = s.values ∧ t.types = s.types ∧ t.exits = s.exits ∧ t.enclosing = s.enclosing ∧
      t.currentFrame = s.currentFrame ∧ t.overclosed = s.overclosed) ∧
    (∀ id, s.typeTable.bindings.has id = true → t.typeTable.binding? id = s.typeTable.binding? id) ∧
    (s.errors <+: t.errors ∧ s.strings.entries <+: t.strings.entries ∧ s.runtime ⊆ t.runtime ∧
      s.callGraph.edges <+: t.callGraph.edges) ∧
    (∀ id frame, s.frames.get? id = some frame →
      ∃ more, t.frames.get? id = some { frame with locals := frame.locals ++ more }) ∧
    ∀ id f, s.functions.get? id = some f → ∃ calls names, f.foreigns ⊆ names ∧
      t.functions.get? id = some { f with invocations := f.invocations ++ calls, foreigns := names } := by
  have h := keeps_lowerExpr expression s
  refine ⟨⟨h.values, h.types, h.exits, h.enclosing, h.currentFrame, h.overclosed⟩, fun id hid => ?_,
    ⟨h.errors, h.strings, h.runtime, h.callGraph⟩, fun id frame hf => ?_, fun id f hf => ?_⟩
  · have hlt : id.position < s.typeTable.bindings.items.length := of_decide_eq_true hid
    obtain ⟨added, hadded⟩ := h.bindings
    rw [TypeTable.binding?, Arena.get?, ← hadded, List.getElem?_append_left hlt]
    rfl
  · obtain ⟨_, hframe, more, rfl⟩ := h.frames id frame hf
    exact ⟨more, hframe⟩
  · obtain ⟨_, hfunction, calls, names, rfl, hnames⟩ := h.functions id f hf
    exact ⟨calls, names, hnames, hfunction⟩

end Analysis

end TigerMips
