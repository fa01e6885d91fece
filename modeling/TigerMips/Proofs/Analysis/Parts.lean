import TigerMips.Proofs.Analysis.ForLoops

/-! The expressions inside of a program, each with the state in which it is lowered. If the program has no errors, they
have none either, and the code of each of them is a stretch of the code of the program. -/

namespace TigerMips

def LValue.children : LValue → List Expr
  | .var _ _ => []
  | .field _ base _ => base.children
  | .subscript _ base index => base.children ++ [index]

def Group.children : Group → List Expr
  | .var _ _ value => [value]
  | .types _ => []
  | .functions members => members.map FunctionDecl.body

namespace Expr

def children : Expr → List Expr
  | .int _ _ | .string _ _ | .nil _ | .breakLoop _ => []
  | .lvalue _ place => place.children
  | .assign _ target value => target.children ++ [value]
  | .operation _ _ _ lhs rhs => [lhs, rhs]
  | .negate _ operand => [operand]
  | .call _ _ arguments => arguments
  | .sequence _ expressions => expressions
  | .ifThen _ condition positive => [condition, positive]
  | .ifThenElse _ condition positive negative => [condition, positive, negative]
  | .whileLoop _ condition body => [condition, body]
  | .forLoop _ _ first last body => [first, last, body]
  | .letIn _ groups body => groups.flatMap Group.children ++ body
  | .array _ _ size init => [size, init]
  | .record _ _ fields => fields.map Prod.snd

def at? : Expr → Path → Option Expr
  | expression, [] => some expression
  | expression, i :: rest => expression.children[i]?.bind (·.at? rest)

end Expr

structure Visit where
  expression : Expr
  state : Analyzer

open Analysis

def Visit.inOrder : List Expr → Analyzer → List Visit
  | [], _ => []
  | expression :: rest, s => ⟨expression, s⟩ :: inOrder rest (lowerExpr expression s).2

def LValue.parts (assigning : Bool) : LValue → Analyzer → List Visit
  | .var _ _, _ => []
  | .field _ base _, s => base.parts assigning s
  | .subscript _ base index, s => base.parts assigning s ++ [⟨index, (lowerLValue assigning base s).2⟩]

def Visit.bodies : List FunctionDecl → List Declared → Analyzer → List Visit
  | .mk _ _ _ body :: rest, declared :: others, s =>
    ⟨body, (enterFunction declared s).2⟩ ::
      bodies rest others (functionBody declared ⟨body.span, lowerExpr body⟩ s).2
  | _, _, _ => []

def Group.parts : Group → Analyzer → List Visit
  | .var _ _ value, s => [⟨value, s⟩]
  | .types _, _ => []
  | .functions members, s => Visit.bodies members (declareFunctions [] members s).1 (declareFunctions [] members s).2

def Visit.declarations : List Group → Analyzer → List Visit
  | [], _ => []
  | group :: rest, s => group.parts s ++ declarations rest (lowerGroup group s).2

namespace Visit

variable (visit : Visit)

def lowered : Lowered := (lowerExpr visit.expression visit.state).1

def after : Analyzer := (lowerExpr visit.expression visit.state).2

def parts : List Visit :=
  let s := visit.state
  match visit.expression with
  | .int _ _ | .string _ _ | .nil _ | .breakLoop _ => []
  | .lvalue _ place => place.parts false s
  | .assign _ target value => target.parts true s ++ [⟨value, (lowerLValue true target s).2⟩]
  | .operation _ _ _ lhs rhs => inOrder [lhs, rhs] s
  | .negate _ operand => [⟨operand, s⟩]
  | .call _ _ arguments => inOrder arguments s
  | .sequence _ expressions => inOrder expressions s
  | .ifThen _ condition positive => inOrder [condition, positive] s
  | .ifThenElse _ condition positive negative => inOrder [condition, positive, negative] s
  | .whileLoop _ condition body =>
    [⟨condition, s.withLabel.withLabel⟩,
      ⟨body, (lowerExpr condition s.withLabel.withLabel).2.insideLoop ⟨s.supply.labels + 1⟩⟩]
  | .forLoop _ counter first last body =>
    inOrder [first, last] s ++ [⟨body, (lowerExpr last (lowerExpr first s).2).2.insideFor counter.name⟩]
  | .letIn _ groups body => declarations groups s.insideLet ++ inOrder body (lowerGroups groups s.insideLet).2
  | .array _ _ size init => inOrder [size, init] s
  | .record _ _ fields => inOrder (fields.map Prod.snd) (s.withTemp.withTemp.usingRuntime Runtime.malloc.name)

def at? : Visit → Path → Option Visit
  | visit, [] => some visit
  | visit, i :: rest => visit.parts[i]?.bind (·.at? rest)

end Visit

lemma Visit.map_inOrder (expressions : List Expr) (s : Analyzer) :
    (inOrder expressions s).map expression = expressions := by
  induction expressions generalizing s with
  | nil => rfl
  | cons first rest ih => simp [inOrder, ih]

lemma LValue.map_parts (assigning : Bool) (place : LValue) (s : Analyzer) :
    (place.parts assigning s).map Visit.expression = place.children := by
  cases place with
  | var span name => rfl
  | field span base name => exact map_parts assigning base s
  | subscript span base index => simp [parts, children, map_parts assigning base s]

lemma Analysis.length_declareFunctions (seen : List String) (members : List FunctionDecl) (s : Analyzer) :
    (declareFunctions seen members s).1.length = members.length := by
  induction members generalizing seen s with
  | nil => rfl
  | cons decl rest ih => exact congrArg Nat.succ (ih _ _)

lemma Visit.map_bodies {members : List FunctionDecl} {declared : List Declared} (h : declared.length = members.length)
    (s : Analyzer) : (bodies members declared s).map expression = members.map FunctionDecl.body := by
  induction members generalizing declared s with
  | nil => simp [bodies]
  | cons decl rest ih =>
    obtain ⟨name, params, result, body⟩ := decl
    cases declared with
    | nil => cases h
    | cons first others => simp [bodies, FunctionDecl.body, ih (Nat.succ.inj h)]

lemma Group.map_parts (group : Group) (s : Analyzer) : (group.parts s).map Visit.expression = group.children := by
  cases group with
  | var name ty value => rfl
  | types members => rfl
  | functions members => exact Visit.map_bodies (length_declareFunctions _ _ _) _

namespace Visit

lemma map_declarations (groups : List Group) (s : Analyzer) :
    (declarations groups s).map expression = groups.flatMap Group.children := by
  induction groups generalizing s with
  | nil => rfl
  | cons group rest ih => simp [declarations, Group.map_parts, ih]

lemma map_parts (visit : Visit) : visit.parts.map expression = visit.expression.children := by
  obtain ⟨e, s⟩ := visit
  cases e <;> simp [parts, Expr.children, map_inOrder, LValue.map_parts, map_declarations]

lemma map_at? (visit : Visit) (path : Path) : (visit.at? path).map expression = visit.expression.at? path := by
  induction path generalizing visit with
  | nil => rfl
  | cons i rest ih =>
    simp only [at?, Expr.at?, ← map_parts, List.getElem?_map, Option.map_bind, Option.bind_map]
    exact congrArg _ (funext ih)

lemma exists_at? {visit : Visit} {path : Path} {e : Expr} (h : visit.expression.at? path = some e) :
    ∃ s, visit.at? path = some ⟨e, s⟩ := by
  rw [← map_at?] at h
  obtain ⟨⟨_, s⟩, hv, rfl⟩ := Option.map_eq_some_iff.mp h
  exact ⟨s, hv⟩

section

variable {α : Type} (c : Collector α) (s : Analyzer)

def collected (visit : Visit) : List α := c.expr visit.expression visit.state

lemma collected_inOrder (expressions : List Expr) :
    (inOrder expressions s).flatMap (collected c) = c.sequence expressions s := by
  induction expressions generalizing s with
  | nil => rfl
  | cons first rest ih => simp [inOrder, Collector.sequence, ih, collected]

lemma collected_lvalue (assigning : Bool) (place : LValue) (s : Analyzer) :
    (place.parts assigning s).flatMap (collected c) = c.lvalue assigning place s := by
  cases place with
  | var span name => rfl
  | field span base name => exact collected_lvalue assigning base s
  | subscript span base index =>
    simp [LValue.parts, Collector.lvalue, collected_lvalue assigning base s, collected]

lemma collected_bodies (members : List FunctionDecl) (declared : List Declared) :
    ((bodies members declared s).flatMap (collected c)).Sublist (c.bodies members declared s) := by
  induction members generalizing declared s with
  | nil => simp [bodies]
  | cons decl rest ih =>
    obtain ⟨name, params, result, body⟩ := decl
    cases declared with
    | nil => simp [bodies]
    | cons first others =>
      simp only [bodies, Collector.bodies, List.flatMap_cons]
      exact ((ih _ others).append_left _).trans (List.sublist_append_right _ _)

lemma collected_group (group : Group) : ((group.parts s).flatMap (collected c)).Sublist (c.group group s) := by
  cases group with
  | var name ty value => simp [Group.parts, Collector.group, collected]
  | types members => simp [Group.parts]
  | functions members => exact collected_bodies c _ members _

lemma collected_declarations (groups : List Group) :
    ((declarations groups s).flatMap (collected c)).Sublist (c.groups groups s) := by
  induction groups generalizing s with
  | nil => simp [declarations]
  | cons group rest ih =>
    simp only [declarations, Collector.groups, List.flatMap_append]
    exact (collected_group c s group).append (ih _)

lemma collected_parts (visit : Visit) : (visit.parts.flatMap (collected c)).Sublist (visit.collected c) := by
  obtain ⟨e, s⟩ := visit
  cases e with
  | forLoop span counter first last body =>
    simp only [parts, collected, Collector.expr, List.flatMap_append, collected_inOrder, Collector.sequence,
      List.append_nil, List.flatMap_singleton]
    exact (List.sublist_append_right _ _).append_left _
  | letIn span groups body =>
    simp only [parts, collected, Collector.expr, List.flatMap_append, collected_inOrder]
    exact (collected_declarations c _ groups).append_right _
  | _ =>
    simp [parts, collected, Collector.expr, collected_inOrder, collected_lvalue, Collector.inits_eq, Collector.sequence]

lemma collected_at? {visit part : Visit} {path : Path} (hp : visit.at? path = some part) :
    part.collected c ⊆ visit.collected c := by
  induction path generalizing visit with
  | nil =>
    obtain rfl := Option.some.inj hp
    exact List.Subset.refl _
  | cons i rest ih =>
    obtain ⟨next, hnext, hp⟩ := Option.bind_eq_some_iff.mp hp
    intro item hm
    exact (collected_parts c visit).subset (List.mem_flatMap.mpr ⟨next, List.mem_of_getElem? hnext, ih hp hm⟩)

end

end Visit

namespace Visit

structure Clean (visit : Visit) : Prop where
  sound : visit.state.Sound
  drawn : visit.state.Drawn
  errors : visit.after.errors = []

abbrev AllWithin (codes : List Code) (visits : List Visit) : Prop :=
  List.AllWithin Clean (fun visit => visit.lowered.code) codes visits

variable {s t : Analyzer}

lemma allWithin_self {e : Expr} {a : Lowered} {P : Analyzer → Lowered → Analyzer → Prop}
    (h : Faultless Analyzer.Keeps (lowerExpr e) P s a t) (hd : s.Drawn) : AllWithin a.code [⟨e, s⟩] := by
  refine List.forall_mem_singleton.mpr ⟨⟨h.sound, hd, ?_⟩, ?_⟩
  · rw [after, h.run]
    exact h.clean
  · simp [lowered, h.run]

def Contained (visits : List Visit) (s : Analyzer) (codes : List Code) : Prop := s.Drawn → AllWithin codes visits

lemma allWithin_operationCode {operator : Operator} {operands : Operands} {result : Temp} {left right : Lowered}
    {lhs rhs : Access} {code : List Code} {visits others : List Visit}
    (h : operationCode operator operands result left right lhs rhs s = (code, t)) (hl : AllWithin left.code visits)
    (hr : AllWithin right.code others) : AllWithin code (visits ++ others) := by
  rcases operationCode_eq h with ⟨conjunction, rfl, rfl⟩ | ⟨operator, ⟨rfl, rfl⟩ | ⟨rfl, rfl⟩⟩
  · exact ((hl.left _).left _).both (((hr.cons _).right _).left _)
  · exact (hl.join hr).left _
  · exact (hl.join hr).left _

lemma operandCases_contained : OperandCases (fun e s a _ => Contained (Visit.mk e s).parts s a.code)
    (fun assigning l s a _ => Contained (l.parts assigning s) s a.code) where
  int _ _ := .none
  string _ _ _ := .none
  nil _ _ := .none
  lvalue h := h.holds
  assign hl hv _ _ _ _ hd := by
    simp only [parts, hl.run]
    exact ((hl.holds hd).join (allWithin_self hv (hl.keeps.drawn hd))).left _
  operation _ := fun hl hr _ _ _ hcode _ hd => by
    simp only [parts, inOrder, hl.run]
    exact allWithin_operationCode hcode (allWithin_self hl hd) (allWithin_self hr (hl.keeps.drawn hd))
  negate _ := fun ho _ _ hd => (allWithin_self ho hd).left _
  variablePlace _ _ _ _ _ := .none
  field _ _ := fun hb _ _ _ _ _ hd => (hb.holds hd).left _
  subscript _ _ _ _ := fun hb _ hi _ _ _ _ _ _ hd => by
    rw [LValue.parts, hb.run]
    exact (((hb.holds hd).join (allWithin_self hi (hb.keeps.drawn hd))).left _).left _

lemma controlCases_contained : ControlCases (fun e s a _ => Contained (Visit.mk e s).parts s a.code)
    (fun es s a _ => Contained (inOrder es s) s a.code) where
  breakLoop _ _ _ := .none
  ifThen _ := fun hc hp _ hd => by
    simp only [parts, inOrder, hc.run]
    exact ((allWithin_self hc hd).join ((allWithin_self hp (hc.keeps.drawn hd)).cons _)).left _
  ifThenElse _ _ _ := fun hc hp hn _ _ _ _ _ hd => by
    simp only [parts, inOrder, hc.run, hp.run]
    have hyes := allWithin_self hp (hc.keeps.drawn hd)
    have hno := allWithin_self hn ((hc.keeps.trans hp.keeps).drawn hd)
    exact ((((((allWithin_self hc hd).join (hyes.cons _)).left _).left _).join hno).left _).left _
  whileLoop _ _ _ := fun _ hc hb _ _ hd => by
    simp only [parts, hc.run]
    have hbody := allWithin_self hb (hc.keeps.drawn hd)
    exact (((allWithin_self hc hd).cons _).join (hbody.cons _)).left _
  forLoop _ _ _ := fun hf hl hb _ _ _ hd => by
    simp only [parts, inOrder, hf.run, hl.run]
    have hd₁ := hf.keeps.drawn hd
    have hbody := allWithin_self hb (usage_drawn.insideFor (hl.keeps.drawn hd₁) hl.after trivial)
    exact ((allWithin_self hf hd).join (allWithin_self hl hd₁)).join ((hbody.right _).left _)
  sequence h := h.holds
  emptySequence _ _ := .none
  single h := allWithin_self h
  longer hf hr hd := by
    rw [inOrder, hf.run]
    exact (allWithin_self hf hd).join (hr.holds (hf.keeps.drawn hd))

lemma aggregateCases_contained : AggregateCases (fun e s a _ => Contained (Visit.mk e s).parts s a.code)
    (fun _ es s a _ => Contained (inOrder es s) s a.1)
    (fun _ _ _ fields s a _ => Contained (inOrder (fields.map Prod.snd) s) s a) where
  array _ := fun _ _ hs hi _ _ _ hd => by
    simp only [parts, inOrder, hs.run]
    exact ((allWithin_self hs hd).join (allWithin_self hi (hs.keeps.drawn hd))).left _
  record s _ := fun _ _ _ hf hd => (hf.holds ((Analyzer.Keeps.asking s).drawn hd)).right _
  call _ _ _ _ _ := fun _ ha _ _ _ _ _ _ _ _ _ hd => (ha.holds hd).left _
  noArguments _ _ := .none
  argument hv _ hr hd := by
    rw [inOrder, hv.run]
    exact (allWithin_self hv hd).join (hr.holds (hv.keeps.drawn hd))
  noFields _ _ := .none
  fields _ _ _ _ := fun hv _ _ hr hd => by
    simp only [List.map_cons, inOrder, hv.run]
    exact (allWithin_self hv hd).join ((hr.holds (hv.keeps.drawn hd)).cons _)

lemma declarationCases_contained : DeclarationCases (fun e s a _ => Contained (Visit.mk e s).parts s a.code)
    (fun es s a _ => Contained (inOrder es s) s a.code) (fun groups s a _ => Contained (declarations groups s) s a)
    (fun group s a _ => Contained (group.parts s) s a)
    (fun members declared s a _ => (∀ d ∈ declared, s.Opens d) → Contained (bodies members declared s) s a) where
  letIn s _ _ := fun {_ _ _ groups _} _ hg hb hd => by
    have hd₀ : s.insideLet.Drawn := fun name info hv => hd name info (ScopeStack.binds_open hv)
    have hd₁ := drawn_lowerGroups groups hg.run hg.sound hd₀ hg.clean
    simp only [parts, hg.run]
    exact (hg.holds hd₀).join (hb.holds hd₁)
  noGroups _ _ := .none
  groups _ := fun {_ _ _ _ group _} hg hr hd => by
    have hd₁ := drawn_lowerGroup group hg.run hg.sound hd hg.clean
    rw [declarations, hg.run]
    exact (hg.holds hd).join (hr.holds hd₁)
  var _ := fun hv _ _ hd => (allWithin_self hv hd).left _
  types _ _ _ := .none
  functions _ _ _ _ := fun _ hdeclared _ hb _ _ hd => by
    obtain ⟨-, -, hd₁, hopens⟩ := opens_declareFunctions usage_drawn hdeclared hd
    rw [Group.parts, hdeclared]
    exact ((hb.holds hopens hd₁).cons _).left _
  noBodies _ _ _ := .none
  bodies _ declared _ _ := fun _ _ hb hfits hk hr hin hd => by
    obtain ⟨hfirst, hothers⟩ := List.forall_mem_cons.mp hin
    have hbody := allWithin_self hb (usage_drawn.enterFunction hd hfirst fun _ _ => trivial)
    have hrest := hr.holds (fun d hm => (hothers d hm).mono hk.toGrows hk.currentFrame) (hk.drawn hd)
    rw [bodies, functionBody_state hb.run hfits]
    exact ((hbody.cons _).left _).join (hrest.cons _)

lemma Clean.parts {visit : Visit} (h : visit.Clean) : AllWithin visit.lowered.code visit.parts :=
  ((RunCases.mk operandCases_contained controlCases_contained aggregateCases_contained
    declarationCases_contained).lowerExpr visit.expression rfl h.sound h.errors).holds h.drawn

lemma Clean.at? {visit part : Visit} {path : Path} (h : visit.Clean) (hp : visit.at? path = some part) :
    part.Clean ∧ part.lowered.code <:+: visit.lowered.code := by
  induction path generalizing visit with
  | nil =>
    obtain rfl := Option.some.inj hp
    exact ⟨h, List.infix_rfl⟩
  | cons i rest ih =>
    obtain ⟨next, hnext, hp⟩ := Option.bind_eq_some_iff.mp hp
    obtain ⟨hclean, hcode⟩ := h.parts next (List.mem_of_getElem? hnext)
    obtain ⟨hpart, hinner⟩ := ih hclean hp
    exact ⟨hpart, hinner.trans hcode⟩

def start (expression : Expr) : Visit := ⟨expression, .initial⟩

lemma exists_at?_start {expression e : Expr} {path : Path} (h : expression.at? path = some e) :
    ∃ s, (start expression).at? path = some ⟨e, s⟩ := exists_at? h

lemma clean_start {expression : Expr} (h : (analyze expression).1 = []) : (start expression).Clean :=
  ⟨Analyzer.sound_initial, Analyzer.drawn_initial, h⟩

lemma code_start {expression : Expr} (h : (analyze expression).1 = []) :
    (start expression).lowered.code = (analyze expression).2.codes :=
  (codes_analyze h).symm

lemma placed_start {expression : Expr} {path : Path} {part : Visit} (h : (analyze expression).1 = [])
    (hp : (start expression).at? path = some part) :
    part.Clean ∧ ∃ p, List.At (analyze expression).2.codes p part.lowered.code := by
  obtain ⟨hclean, before, after, hcodes⟩ := (clean_start h).at? hp
  refine ⟨hclean, before.length, ?_⟩
  rw [← code_start h, ← hcodes]
  exact List.at_infix before _ after

end Visit

end TigerMips
