import TigerMips.Proofs.Analysis.Clean

/-! Runs without errors. Each construct is taken apart into the runs of its parts once, and a property
of all runs follows from its cases. -/

namespace TigerMips

namespace Analyzer

variable {s : Analyzer}

def insideLoop (s : Analyzer) (exit : Label) : Analyzer := { s with exits := some exit :: s.exits }

def insideFor (s : Analyzer) (counter : String) : Analyzer :=
  { s.withLabel.withTemp with
    values := s.values.openScope.put counter
      (.var { ty := .int, place := ⟨s.supply.temps⟩, assignable := false })
    exits := some ⟨s.supply.labels⟩ :: s.exits }

def insideLet (s : Analyzer) : Analyzer :=
  { s with values := s.values.openScope, types := s.types.openScope }

lemma Keeps.withTemp (s : Analyzer) : s.Keeps s.withTemp := Analysis.keeps.newTemp s

lemma Keeps.withLabel (s : Analyzer) : s.Keeps s.withLabel := Analysis.keeps.newLabel s

lemma Keeps.asking (s : Analyzer) : s.Keeps (s.withTemp.withTemp.usingRuntime Runtime.malloc.name) :=
  (withTemp s).trans ((withTemp _).trans (Analysis.keeps.useRuntime _ _))

lemma Keeps.filling (s : Analyzer) :
    s.Keeps (s.withTemp.withTemp.withTemp.usingRuntime Runtime.malloc.name).withLabel.withLabel :=
  (withTemp s).trans ((asking _).trans ((withLabel _).trans (withLabel _)))

lemma Sound.withTemp (h : s.Sound) : s.withTemp.Sound := (Analysis.ensures_newTemp s h).1

end Analyzer

namespace Analysis

open Analyzer

variable {α : Type} {s t : Analyzer}

lemma toSimple_eq {access simple : Access} {load : List Code} (h : toSimple access s = ((simple, load), t)) :
    (simple = access ∧ load = [] ∧ t = s) ∨
      (simple = .temp ⟨s.supply.temps⟩ ∧ load = [.op s.currentFrame (.move (.temp ⟨s.supply.temps⟩) access)] ∧
        t = s.withTemp) := by
  unfold toSimple at h
  split at h
  · obtain ⟨he, rfl⟩ := pure_eq.mp h
    exact Or.inl ⟨(Prod.mk.inj he).1, (Prod.mk.inj he).2, rfl⟩
  · simp only [newTemp_bind, currentFrame_bind] at h
    obtain ⟨he, rfl⟩ := pure_eq.mp h
    exact Or.inr ⟨(Prod.mk.inj he).1, (Prod.mk.inj he).2, rfl⟩

lemma isSimple_toSimple {access simple : Access} {load : List Code} (h : toSimple access s = ((simple, load), t)) :
    simple.isSimple := by
  unfold toSimple at h
  split at h
  · rename_i ha
    exact (Prod.mk.inj (pure_eq.mp h).1).1 ▸ ha
  · simp only [newTemp_bind, currentFrame_bind] at h
    exact (Prod.mk.inj (pure_eq.mp h).1).1 ▸ rfl

lemma operationCode_eq {operator : Operator} {operands : Operands} {result : Temp} {left right : Lowered}
    {lhs rhs : Access} {code : List Code}
    (h : operationCode operator operands result left right lhs rhs s = (code, t)) :
    (∃ conjunction, t = s.withLabel.withLabel ∧ code = decidingCode s.currentFrame conjunction ⟨s.supply.labels⟩
      ⟨s.supply.labels + 1⟩ result left.code lhs right.code rhs) ∨
    ∃ operator, (t = s.withTemp.usingRuntime Runtime.strcmp.name ∧ code = left.code ++ right.code ++
        [.op s.currentFrame (.callRuntime (some (.temp ⟨s.supply.temps⟩)) Runtime.strcmp.name [lhs, rhs]),
          .op s.currentFrame (.binary operator (.temp result) (.temp ⟨s.supply.temps⟩) (.int 0))]) ∨
      (t = s ∧ code = left.code ++ right.code ++ [.op s.currentFrame (.binary operator (.temp result) lhs rhs)]) := by
  cases operator with
  | and =>
    obtain ⟨rfl, rfl⟩ := Prod.mk.inj h
    exact Or.inl ⟨true, rfl, rfl⟩
  | or =>
    obtain ⟨rfl, rfl⟩ := Prod.mk.inj h
    exact Or.inl ⟨false, rfl, rfl⟩
  | strict operator =>
    simp only [operationCode] at h
    split at h
    all_goals obtain ⟨rfl, rfl⟩ := Prod.mk.inj h
    · exact Or.inr ⟨operator, Or.inl ⟨rfl, rfl⟩⟩
    · exact Or.inr ⟨operator, Or.inr ⟨rfl, rfl⟩⟩

lemma callOperation_eq {name : String} {entry : Option Entry} {result : Option Temp} {actuals : List Access}
    {operation : Tac} (h : callOperation name entry result actuals s = (operation, t)) :
    (∃ target, entry = some target ∧ t = s ∧ operation = .call (result.map .temp) target.label actuals) ∨
      (entry = none ∧ t = s.usingRuntime name ∧ operation = .callRuntime (result.map .temp) name actuals) := by
  cases entry with
  | some target =>
    obtain ⟨rfl, rfl⟩ := Prod.mk.inj h
    exact Or.inl ⟨target, rfl, rfl, rfl⟩
  | none =>
    obtain ⟨rfl, rfl⟩ := Prod.mk.inj h
    exact Or.inr ⟨rfl, rfl, rfl⟩

lemma inLoop_eq {exit : Label} {body : Analysis Lowered} {a : Lowered} (h : inLoop exit body s = (a, t)) :
    ∃ s₁, body (s.insideLoop exit) = (a, s₁) ∧ t = { s₁ with exits := s₁.exits.tail } := by
  obtain ⟨_, _, hpush, r₁⟩ := bind_eq.mp h
  obtain rfl := congrArg Prod.snd hpush
  obtain ⟨inside, s₁, hinside, r₂⟩ := bind_eq.mp r₁
  obtain ⟨_, _, hpop, r₃⟩ := bind_eq.mp r₂
  obtain rfl := congrArg Prod.snd hpop
  obtain ⟨rfl, rfl⟩ := pure_eq.mp r₃
  exact ⟨s₁, hinside, rfl⟩

lemma forBody_clean {counter : Ident} {body : Part} {a : Lowered}
    (h : forBody counter ⟨s.supply.temps⟩ ⟨s.supply.labels⟩ body s.withLabel.withTemp = (a, t)) (ht : t.errors = []) :
    ∃ s₁, body.lower (s.insideFor counter.name) = (a, s₁) ∧ t = s₁.leaveFor := by
  obtain ⟨_, _, hopen, r₁⟩ := bind_eq.mp h
  obtain rfl := congrArg Prod.snd hopen
  obtain ⟨_, _, hput, r₂⟩ := bind_eq.mp r₁
  obtain rfl := congrArg Prod.snd hput
  obtain ⟨inside, s₂, hinside, r₃⟩ := bind_eq.mp r₂
  obtain ⟨_, s₃, hvoid, r₄⟩ := bind_eq.mp r₃
  obtain ⟨_, _, hclose, r₅⟩ := bind_eq.mp r₄
  obtain rfl := congrArg Prod.snd hclose
  obtain ⟨rfl, rfl⟩ := pure_eq.mp r₅
  obtain ⟨-, rfl⟩ := checkType_clean hvoid ht
  obtain ⟨s₁, hbody, rfl⟩ := inLoop_eq hinside
  exact ⟨s₁, hbody, rfl⟩

lemma sound_insideFor (hs : s.Sound) (counter : String) : (s.insideFor counter).Sound := by
  have hs' : s.withLabel.Sound := { hs with }
  have hplain : Value.Sound s.withLabel.withTemp.functions s.withLabel.withTemp.frames counter
      (.var { ty := .int, place := ⟨s.supply.temps⟩, assignable := false }) := rfl
  exact { sound_putValue (sound_openValues hs'.withTemp) hplain with }

lemma compositional_lowers : Compositional Lowers (fun _ => Locates)
    (fun _ _ m => Within Keeps m ∧ Ensures (fun _ => True) m)
    (fun _ _ _ _ m => Within Keeps m ∧ Ensures (fun _ => True) m)
    (fun m => Within Keeps m ∧ Ensures (fun _ => True) m)
    (fun m => Within Declares m ∧ Ensures (fun _ => True) m)
    (fun _ declared m => Within Keeps m ∧ ∀ s, s.Sound → (∀ d ∈ declared, DeclaredIn s d) → (m s).2.Sound) where
  int := lowers_int
  string := lowers_string
  nil := lowers_nil
  breakLoop := lowers_breakLoop
  lvalue _ h := h.lowers
  assignment _ _ _ := lowers_assignment _
  operation _ _ _ _ _ := lowers_operation _ _ _
  negation _ := lowers_negation
  call _ _ _ _ ha := lowers_call _ _ _ (fun params => (ha params).1) fun params => (ha params).2
  ifThen _ _ := lowers_ifThen
  ifThenElse _ _ _ := lowers_ifThenElse
  whileLoop _ _ := lowers_whileLoop
  forLoop _ _ _ _ := lowers_forLoop _
  letIn _ _ hd := lowers_letIn hd.1 hd.2
  arrayCreation _ _ _ := lowers_arrayCreation _
  recordCreation _ _ _ _ _ hi hc := lowers_recordCreation _ _ _ (fun target declared => (hi target declared).1) hc.1
    (fun target declared => (hi target declared).2) hc.2
  emptySequence := lowers_emptySequence
  sequence _ _ := lowers_sequence
  variablePlace := locates_variablePlace
  fieldPlace _ _ _ hb := locates_fieldPlace hb _
  elementPlace _ _ _ _ := locates_elementPlace _
  noArguments _ := ⟨.pure _, .pure trivial⟩
  extraArgument _ _ _ hv hr := ⟨hv.keeps.bind fun _ => hr.1, hv.ensures.bind fun _ _ => hr.2⟩
  argument _ _ _ _ _ _ hv hr :=
    ⟨hv.keeps.bind fun _ => (within_checkType keeps.report _ _ _).bind fun _ => hr.1.bind fun _ => .pure _,
      hv.ensures.bind fun _ _ => (ensures_checkType _ _ _).bind fun _ _ => hr.2.bind fun _ _ => .pure trivial⟩
  noFields _ _ _ := ⟨.pure _, .pure trivial⟩
  extraFields _ _ _ _ _ hv hr :=
    ⟨hv.keeps.bind fun _ => hr.1.bind fun _ => .pure _,
      hv.ensures.bind fun _ _ => hr.2.bind fun _ _ => .pure trivial⟩
  fields _ _ _ _ _ _ _ _ _ hv hr :=
    ⟨(within_initField keeps _ _ _ _ _ hv.keeps).bind fun _ => hr.1.bind fun _ => .pure _,
      (ensures_initField _ _ _ _ _ hv.ensures).bind fun _ _ => hr.2.bind fun _ _ => .pure trivial⟩
  noChecks := ⟨.pure _, .pure trivial⟩
  checks _ _ hv hr := ⟨hv.keeps.bind fun _ => hr.1, hv.ensures.bind fun _ _ => hr.2⟩
  noDeclarations := ⟨.pure _, .pure trivial⟩
  declarations _ _ hg hr :=
    ⟨compositional_keeps.declarations _ _ hg.1 hr.1, hg.2.bind fun _ _ => hr.2.bind fun _ _ => .pure trivial⟩
  variableDeclaration _ _ _ hv :=
    ⟨within_variableDeclaration keeps _ _ hv.keeps, ensures_variableDeclaration _ _ hv.ensures⟩
  typeGroup _ := ⟨compositional_keeps.typeGroup _, (ensures_typeGroup _).bind fun _ _ => .pure trivial⟩
  functionGroup _ _ hb :=
    ⟨declares_functionGroup _ fun declared => (hb declared).1,
      ensures_functionGroup _ (fun declared => (hb declared).1) fun declared => (hb declared).2⟩
  noBodies _ _ _ := ⟨.pure _, fun _ hs _ => hs⟩
  bodies _ declared others body rest hb hr := by
    refine ⟨(keeps_functionBody _ hb.keeps).bind fun _ => hr.1.bind fun _ => .pure _, fun s hs hd => ?_⟩
    have hfirst := sound_functionBody hb.keeps hb.ensures (s := s) rfl hs (hd declared List.mem_cons_self)
    have hgrows := (keeps_functionBody declared hb.keeps s).toGrows
    exact hr.2 _ hfirst fun d hm => (hd d (List.mem_cons_of_mem _ hm)).mono hgrows

lemma lowers_lowerExpr (expression : Expr) : Lowers (lowerExpr expression) := compositional_lowers.lowerExpr expression

lemma sound_lowerExpr (expression : Expr) : (lowerExpr expression initial).2.Sound :=
  (lowers_lowerExpr expression).sound rfl sound_initial

lemma lowers_lowerSequence (expressions : List Expr) : Lowers (lowerSequence expressions) :=
  compositional_lowers.lowerSequence expressions

lemma locates_lowerLValue (assigning : Bool) (place : LValue) : Locates (lowerLValue assigning place) :=
  compositional_lowers.lowerLValue assigning place

lemma functionBody_state {declared : Declared} {span : Span} {body : Analysis Lowered} {s₁ : Analyzer}
    {inside : Lowered} (h : body (enterFunction declared s).2 = (inside, s₁))
    (hfits : s₁.typeTable.fits inside.ty declared.result) :
    (functionBody declared ⟨span, body⟩ s).2 = (leaveFunction s.currentFrame s₁).2 := by
  have hleft : (leaveFunction s.currentFrame s₁).2.typeTable.fits inside.ty declared.result := hfits
  have hinside : inFunction declared body s = (inside, (leaveFunction s.currentFrame s₁).2) :=
    bind_eq.mpr ⟨_, _, rfl, bind_eq.mpr ⟨_, _, rfl, bind_eq.mpr ⟨_, _, h, rfl⟩⟩⟩
  have hcheck : checkType declared.result inside.ty span (leaveFunction s.currentFrame s₁).2 =
      ((), (leaveFunction s.currentFrame s₁).2) := bind_eq.mpr ⟨_, _, rfl, by rw [if_pos hleft]; rfl⟩
  cases hrun : functionBody declared ⟨span, body⟩ s with
  | mk code t =>
    obtain ⟨_, _, h₁, r₁⟩ := bind_eq.mp hrun
    obtain ⟨rfl, rfl⟩ := Prod.mk.inj (hinside.symm.trans h₁)
    obtain ⟨_, _, h₂, r₂⟩ := bind_eq.mp r₁
    obtain ⟨-, rfl⟩ := Prod.mk.inj (hcheck.symm.trans h₂)
    obtain ⟨_, _, h₃, r₃⟩ := bind_eq.mp r₂
    obtain ⟨-, rfl⟩ := Prod.mk.inj h₃
    split at r₃ <;> exact (congrArg Prod.snd r₃).symm

structure Faultless (R : Analyzer → Analyzer → Prop) (m : Analysis α) (P : Analyzer → α → Analyzer → Prop)
    (s : Analyzer) (a : α) (t : Analyzer) : Prop where
  run : m s = (a, t)
  sound : s.Sound
  after : t.Sound
  clean : t.errors = []
  keeps : R s t
  holds : P s a t

lemma Lowers.faultless {m : Analysis Lowered} (h : Lowers m) {P : Analyzer → Lowered → Analyzer → Prop} {a : Lowered}
    (hm : m s = (a, t)) (hs : s.Sound) (ht : t.errors = []) (hp : P s a t) : Faultless Keeps m P s a t :=
  ⟨hm, hs, h.sound hm hs, ht, h.keeps.apply hm, hp⟩

section

variable (E : Expr → Analyzer → Lowered → Analyzer → Prop)
  (S : List Expr → Analyzer → Lowered → Analyzer → Prop)
  (L : Bool → LValue → Analyzer → Lowered → Analyzer → Prop)
  (A : List Param → List Expr → Analyzer → List Code × List Access → Analyzer → Prop)
  (F : Temp → Nat → List (String × Ty) → List (Ident × Expr) → Analyzer → List Code → Analyzer → Prop)
  (D : List Group → Analyzer → List Code → Analyzer → Prop) (G : Group → Analyzer → List Code → Analyzer → Prop)
  (B : List FunctionDecl → List Declared → Analyzer → List Code → Analyzer → Prop)

structure OperandCases : Prop where
  int : ∀ {s span value}, s.Sound → E (.int span value) s { ty := .int, place := some (.int value) } s
  string : ∀ {s t constant span text}, s.Sound → internString text s = (constant, t) →
    E (.string span text) s { ty := .string, place := some (.const constant) } t
  nil : ∀ {s span}, s.Sound → E (.nil span) s { ty := .nil, place := some (.int 0) } s
  lvalue : ∀ {s a t span place}, Faultless Keeps (lowerLValue false place) (L false place) s a t →
    E (.lvalue span place) s a t
  assign : ∀ {t s location s₁ source destination place span target value},
    Faultless Keeps (lowerLValue true target) (L true target) s location s₁ →
    Faultless Keeps (lowerExpr value) (E value) s₁ source t → t.typeTable.fits source.ty location.ty →
    location.place = some destination → destination.isPlace → source.place = some place →
    E (.assign span target value) s {
      code := location.code ++ source.code ++ [.op t.currentFrame (.move destination place)]
      ty := .void } t
  operation : ∀ s₂ {s left s₁ right operands leftPlace rightPlace code t span operator operatorSpan lhs rhs},
    Faultless Keeps (lowerExpr lhs) (E lhs) s left s₁ → Faultless Keeps (lowerExpr rhs) (E rhs) s₁ right s₂ →
    left.place = some leftPlace → right.place = some rightPlace →
    checkOperands span operator operatorSpan left.ty right.ty lhs.span rhs.span s₂ = (operands, s₂) →
    operationCode operator operands ⟨s₂.supply.temps⟩ left right leftPlace rightPlace s₂.withTemp = (code, t) →
    s₂.withTemp.Keeps t →
    E (.operation span operator operatorSpan lhs rhs) s { code, ty := .int, place := some (.temp ⟨s₂.supply.temps⟩) } t
  negate : ∀ s₁ {s value place span operand}, Faultless Keeps (lowerExpr operand) (E operand) s value s₁ →
    s₁.typeTable.fits value.ty .int → value.place = some place →
    E (.negate span operand) s {
      code := value.code ++ [.op s₁.currentFrame (.negate (.temp ⟨s₁.supply.temps⟩) place)]
      ty := .int
      place := some (.temp ⟨s₁.supply.temps⟩) } s₁.withTemp
  variablePlace : ∀ {s info t assigning span name}, s.Sound → s.values.get? name.name = some (.var info) →
    (assigning && !info.assignable) = false → noteUse name.name s = ((), t) →
    L assigning (.var span name) s { ty := info.ty, place := some (.temp info.place) } t
  field : ∀ s₁ index {s record identity fields ty place simple load t assigning span base name},
    Faultless Keeps (lowerLValue assigning base) (L assigning base) s record s₁ →
    s₁.typeTable.actual record.ty = .record identity fields → Ty.field? fields name.name = some (index, ty) →
    record.place = some place → toSimple place s₁.withTemp = ((simple, load), t) → s₁.withTemp.Keeps t →
    L assigning (.field span base name) s {
      code := record.code ++
        .op s₁.currentFrame (.binary .mul (.temp ⟨s₁.supply.temps⟩) (.int (Int32.ofNat index)) .word) :: load
      ty
      place := some (.memory simple (.temp ⟨s₁.supply.temps⟩)) } t
  subscript : ∀ s s₂ s₃ offset {array s₁ identity ty position place simple load assigning span base index},
    Faultless Keeps (lowerLValue assigning base) (L assigning base) s array s₁ →
    s₁.typeTable.actual array.ty = .array identity ty → Faultless Keeps (lowerExpr index) (E index) s₁ position s₂ →
    s₂.typeTable.fits position.ty .int → array.place = some place → position.place = some offset →
    toSimple place s₂ = ((simple, load), s₃) → s₃.Sound → s₂.Keeps s₃ →
    L assigning (.subscript span base index) s {
      code := array.code ++ position.code ++ load ++
        [.op s₂.currentFrame (.binary .mul (.temp ⟨s₃.supply.temps⟩) offset .word)]
      ty
      place := some (.memory simple (.temp ⟨s₃.supply.temps⟩)) } s₃.withTemp

structure ControlCases : Prop where
  breakLoop : ∀ {s exit outer span}, s.Sound → s.exits = some exit :: outer →
    E (.breakLoop span) s { code := [.op s.currentFrame (.goto exit)], ty := .void } s
  ifThen : ∀ s₂ {s test s₁ body value span condition positive},
    Faultless Keeps (lowerExpr condition) (E condition) s test s₁ →
    Faultless Keeps (lowerExpr positive) (E positive) s₁ body s₂ → test.place = some value →
    E (.ifThen span condition positive) s {
      code := test.code ++ skipUnless s₂.currentFrame value ⟨s₂.supply.labels⟩ :: body.code ++
        [.label ⟨s₂.supply.labels⟩]
      ty := .void } s₂.withLabel
  ifThenElse : ∀ s₃ s₄ result {s test s₁ yes s₂ no ty value span condition positive negative},
    Faultless Keeps (lowerExpr condition) (E condition) s test s₁ →
    Faultless Keeps (lowerExpr positive) (E positive) s₁ yes s₂ →
    Faultless Keeps (lowerExpr negative) (E negative) s₂ no s₃ →
    (ty = no.ty ∧ s₃.typeTable.fits yes.ty no.ty ∨ ty = yes.ty ∧ s₃.typeTable.fits no.ty yes.ty) →
    resultTemp ty s₃ = (result, s₄) → s₄.Sound → s₃.Keeps s₄ → test.place = some value →
    E (.ifThenElse span condition positive negative) s {
      code := test.code ++ skipUnless s₄.currentFrame value ⟨s₄.supply.labels⟩ :: yes.code ++
        moveInto s₄.currentFrame result yes.place ++
        [.op s₄.currentFrame (.goto ⟨s₄.supply.labels + 1⟩), .label ⟨s₄.supply.labels⟩] ++
        no.code ++ moveInto s₄.currentFrame result no.place ++ [.label ⟨s₄.supply.labels + 1⟩]
      ty
      place := result.map .temp } s₄.withLabel.withLabel
  whileLoop : ∀ s s₁ s₂ {test inside value span condition body}, s.Sound →
    Faultless Keeps (lowerExpr condition) (E condition) s.withLabel.withLabel test s₁ →
    Faultless Keeps (lowerExpr body) (E body) (s₁.insideLoop ⟨s.supply.labels + 1⟩) inside s₂ →
    s₁.Keeps { s₂ with exits := s₂.exits.tail } → test.place = some value →
    E (.whileLoop span condition body) s {
      code := .label ⟨s.supply.labels⟩ :: test.code ++ skipUnless s₂.currentFrame value ⟨s.supply.labels + 1⟩ ::
        inside.code ++ [.op s₂.currentFrame (.goto ⟨s.supply.labels⟩), .label ⟨s.supply.labels + 1⟩]
      ty := .void } { s₂ with exits := s₂.exits.tail }
  forLoop : ∀ s s₂ s₃ {low s₁ high inside lowest highest span counter first last body},
    Faultless Keeps (lowerExpr first) (E first) s low s₁ → Faultless Keeps (lowerExpr last) (E last) s₁ high s₂ →
    Faultless Keeps (lowerExpr body) (E body) (s₂.insideFor counter.name) inside s₃ →
    s₂.withLabel.withTemp.Keeps s₃.leaveFor →
    low.place = some lowest → high.place = some highest →
    E (.forLoop span counter first last body) s {
      code := low.code ++ high.code ++ forCode s₃.currentFrame ⟨s₃.supply.labels⟩ ⟨s₂.supply.labels⟩
        ⟨s₂.supply.temps⟩ ⟨s₃.supply.temps⟩ lowest highest inside.code
      ty := .void } (withLabel (withTemp s₃.leaveFor))
  sequence : ∀ {s a t span expressions}, Faultless Keeps (lowerSequence expressions) (S expressions) s a t →
    E (.sequence span expressions) s a t
  emptySequence : ∀ {s}, s.Sound → S [] s { ty := .void } s
  single : ∀ {s a t expression}, Faultless Keeps (lowerExpr expression) (E expression) s a t → S [expression] s a t
  longer : ∀ {t s value s₁ others expression next rest},
    Faultless Keeps (lowerExpr expression) (E expression) s value s₁ →
    Faultless Keeps (lowerSequence (next :: rest)) (S (next :: rest)) s₁ others t →
    S (expression :: next :: rest) s { others with code := value.code ++ others.code } t

structure AggregateCases : Prop where
  array : ∀ s₂ {s ty identity element count s₁ value countPlace valuePlace span name size init},
    s.types.get? name.name = some ty → s.typeTable.actual ty = .array identity element →
    Faultless Keeps (lowerExpr size) (E size) s count s₁ → Faultless Keeps (lowerExpr init) (E init) s₁ value s₂ →
    s₂.typeTable.fits value.ty element → count.place = some countPlace → value.place = some valuePlace →
    E (.array span name size init) s {
      code := count.code ++ value.code ++ arrayCode s₂.currentFrame ⟨s₂.supply.temps⟩ ⟨s₂.supply.temps + 1⟩
        ⟨s₂.supply.temps + 1 + 1⟩ ⟨s₂.supply.labels⟩ ⟨s₂.supply.labels + 1⟩ countPlace valuePlace
      ty
      place := some (.temp ⟨s₂.supply.temps + 1⟩) }
      (s₂.withTemp.withTemp.withTemp.usingRuntime Runtime.malloc.name).withLabel.withLabel
  record : ∀ s declared {t ty identity stores span name fields}, s.Sound → s.types.get? name.name = some ty →
    s.typeTable.actual ty = .record identity declared →
    Faultless Keeps (lowerFields ⟨s.supply.temps⟩ 0 declared fields) (F ⟨s.supply.temps⟩ 0 declared fields)
      (s.withTemp.withTemp.usingRuntime Runtime.malloc.name) stores t →
    E (.record span name fields) s {
      code :=
        [.op s.currentFrame (.binary .mul (.temp ⟨s.supply.temps + 1⟩) (.int (Int32.ofNat declared.length)) .word),
        .op s.currentFrame (.callRuntime (some (.temp ⟨s.supply.temps⟩)) Runtime.malloc.name
          [.temp ⟨s.supply.temps + 1⟩])] ++ stores
      ty
      place := some (.temp ⟨s.supply.temps⟩) } t
  call : ∀ s s₁ s₄ t result {id signature code actuals s₂ s₃ operation span function arguments},
    s.values.get? function.name = some (.function id signature) →
    Faultless Keeps (lowerArguments signature.params arguments) (A signature.params arguments) s (code, actuals) s₁ →
    noteCall id s₁ = ((), s₂) → noteEdge signature.entry s₂ = ((), s₃) → s₃.Sound →
    resultTemp signature.result s₃ = (result, s₄) → s₄.Sound →
    callOperation function.name signature.entry result actuals s₄ = (operation, t) → t.Sound →
    s₃.Keeps s₄ → s₄.Keeps t →
    E (.call span function arguments) s
      { code := code ++ [.op t.currentFrame operation], ty := signature.result, place := result.map .temp } t
  noArguments : ∀ {s}, s.Sound → A [] [] s ([], []) s
  argument : ∀ {t s first place s₁ code places param params expression rest},
    Faultless Keeps (lowerExpr expression) (E expression) s first s₁ → first.place = some place →
    Faultless Keeps (lowerArguments params rest) (A params rest) s₁ (code, places) t →
    A (param :: params) (expression :: rest) s (first.code ++ code, place :: places) t
  noFields : ∀ {s target index}, s.Sound → F target index [] [] s [] s
  fields : ∀ target index s₁ place {t s init codes ty declared name value rest},
    Faultless Keeps (lowerExpr value) (E value) s init s₁ → s₁.typeTable.fits init.ty ty → init.place = some place →
    Faultless Keeps (lowerFields target (index + 1) declared rest) (F target (index + 1) declared rest) s₁ codes t →
    F target index ((name.name, ty) :: declared) ((name, value) :: rest) s (init.code ++
      .op s₁.currentFrame (.move (.memory (.temp target) (.int (fieldStride * Int32.ofNat index))) place) :: codes) t

structure DeclarationCases : Prop where
  letIn : ∀ s before s₂ {s₁ inside span groups body}, s.Sound →
    Faultless Declares (lowerGroups groups) (D groups) s.insideLet before s₁ →
    Faultless Keeps (lowerSequence body) (S body) s₁ inside s₂ →
    E (.letIn span groups body) s { inside with code := before ++ inside.code } s₂.leaveLet
  noGroups : ∀ {s}, s.Sound → D [] s [] s
  groups : ∀ code {s s₁ codes t group rest}, Faultless Declares (lowerGroup group) (G group) s code s₁ →
    Faultless Declares (lowerGroups rest) (D rest) s₁ codes t → D (group :: rest) s (code ++ codes) t
  var : ∀ s₁ {s init ty source name declared value}, Faultless Keeps (lowerExpr value) (E value) s init s₁ →
    init.place = some source → (ty = init.ty ∨ s₁.typeTable.fits init.ty ty) →
    G (.var name declared value) s (init.code ++ [.op s₁.currentFrame (.move (.temp ⟨s₁.supply.temps⟩) source)])
      { s₁.withTemp with
        values := s₁.values.put name.name (.var { ty, place := ⟨s₁.supply.temps⟩, assignable := true }) }
  types : ∀ {s errors types table members}, s.Sound →
    typeGroup members s = ((), { s with errors, types, typeTable := table }) →
    G (.types members) s [] { s with errors, types, typeTable := table }
  functions : ∀ s₁ declared inside s₃ {s s₂ members}, s.Sound → declareFunctions [] members s = (declared, s₁) →
    (∀ d ∈ declared, DeclaredIn s₁ d) →
    Faultless Keeps (lowerBodies members declared) (B members declared) s₁ inside s₂ →
    closeForeigns (declared.map Declared.id) s₂ = ((), s₃) → s₂.Keeps s₃ →
    G (.functions members) s
      (.op s₃.currentFrame (.goto ⟨s₃.supply.labels⟩) :: inside ++ [.label ⟨s₃.supply.labels⟩]) s₃.withLabel
  noBodies : ∀ {s}, s.Sound → B [] [] s [] s
  bodies : ∀ s declared s₁ t {inside codes name params result body rest others}, s.Sound → DeclaredIn s declared →
    Faultless Keeps (lowerExpr body) (E body) (enterFunction declared s).2 inside s₁ →
    s₁.typeTable.fits inside.ty declared.result → s.Keeps (leaveFunction s.currentFrame s₁).2 →
    Faultless Keeps (lowerBodies rest others) (B rest others) (leaveFunction s.currentFrame s₁).2 codes t →
    B (.mk name params result body :: rest) (declared :: others) s (.label declared.entry.label :: inside.code ++
      moveInto declared.entry.frame declared.entry.resultPlace inside.place ++ .op declared.entry.frame .ret :: codes) t

structure RunCases : Prop extends OperandCases E L, ControlCases E S, AggregateCases E A F, DeclarationCases E S D G B

end

namespace RunCases

variable {E : Expr → Analyzer → Lowered → Analyzer → Prop} {S : List Expr → Analyzer → Lowered → Analyzer → Prop}
  {L : Bool → LValue → Analyzer → Lowered → Analyzer → Prop}
  {A : List Param → List Expr → Analyzer → List Code × List Access → Analyzer → Prop}
  {F : Temp → Nat → List (String × Ty) → List (Ident × Expr) → Analyzer → List Code → Analyzer → Prop}
  {D : List Group → Analyzer → List Code → Analyzer → Prop} {G : Group → Analyzer → List Code → Analyzer → Prop}
  {B : List FunctionDecl → List Declared → Analyzer → List Code → Analyzer → Prop}

mutual

lemma lowerExpr (h : RunCases E S L A F D G B) (expression : Expr) {s t : Analyzer} {a : Lowered}
    (hm : Analysis.lowerExpr expression s = (a, t)) (hs : s.Sound) (ht : t.errors = []) :
    Faultless Keeps (Analysis.lowerExpr expression) (E expression) s a t := by
  refine (lowers_lowerExpr expression).faultless hm hs ht ?_
  cases expression with
  | int span value =>
    obtain ⟨rfl, rfl⟩ := pure_eq.mp hm
    exact h.int hs
  | string span text =>
    obtain ⟨constant, _, hintern, r₁⟩ := bind_eq.mp hm
    obtain ⟨rfl, rfl⟩ := pure_eq.mp r₁
    exact h.string hs hintern
  | nil span =>
    obtain ⟨rfl, rfl⟩ := pure_eq.mp hm
    exact h.nil hs
  | breakLoop span =>
    obtain ⟨exit, outer, hexits, rfl, rfl⟩ := breakLoop_clean hm ht
    exact h.breakLoop hs hexits
  | lvalue span place => exact h.lvalue (lowerLValue h false place hm hs ht)
  | assign span target value =>
    obtain ⟨location, s₁, source, destination, place, hl, he₁, hv, hfits, hd, hw, hp, rfl⟩ :=
      assignment_clean (locates_lowerLValue true target) (lowers_lowerExpr value) hm hs ht
    have hlocation := lowerLValue h true target hl hs he₁
    exact h.assign hlocation (lowerExpr h value hv hlocation.after ht) hfits hd hw hp
  | operation span operator operatorSpan lhs rhs =>
    obtain ⟨left, s₁, right, s₂, operands, leftPlace, rightPlace, code, hl, he₁, hr, he₂, hpl, hpr, hc, hcode, rfl⟩ :=
      operation_clean (lowers_lowerExpr lhs) (lowers_lowerExpr rhs) hm hs ht
    have hleft := lowerExpr h lhs hl hs he₁
    exact h.operation _ hleft (lowerExpr h rhs hr hleft.after he₂) hpl hpr hc hcode
      ((within_operationCode keeps _ _ _ _ _ _ _).apply hcode)
  | negate span operand =>
    obtain ⟨value, s₁, place, hv, he₁, hfits, hp, rfl, rfl⟩ := negation_clean (lowers_lowerExpr operand) hm hs ht
    exact h.negate _ (lowerExpr h operand hv hs he₁) hfits hp
  | call span function arguments =>
    obtain ⟨id, signature, code, actuals, s₁, s₂, s₃, hfound, hargs, he₁, hgiven, hcall, hedge, hcode⟩ :=
      call_clean hm ht
    have hb := ScopeStack.binds_of_get? hfound
    have hparts := lowerArguments h signature.params arguments hargs hs he₁ (hs.values _ _ hb).2.params hgiven
    have hs₃ := sound_noted hparts.after hparts.keeps hb hcall hedge
    obtain ⟨result, s₄, operation, hresult, hoperation, rfl⟩ := callCode_clean hcode ht
    have hs₄ := ((ensures_resultTemp _).apply hresult hs₃).1
    exact h.call _ _ _ _ _ hfound hparts hcall hedge hs₃ hresult hs₄ hoperation
      ((ensures_callOperation _ _ _ _).apply hoperation hs₄).1 ((within_resultTemp keeps _).apply hresult)
      ((within_callOperation keeps _ _ _ _).apply hoperation)
  | sequence span expressions => exact h.sequence (lowerSequence h expressions hm hs ht)
  | ifThen span condition positive =>
    obtain ⟨test, s₁, body, s₂, value, hc, he₁, hb, he₂, hv, rfl, rfl⟩ :=
      ifThen_clean (lowers_lowerExpr condition) (lowers_lowerExpr positive) hm hs ht
    have htest := lowerExpr h condition hc hs he₁
    exact h.ifThen _ htest (lowerExpr h positive hb htest.after he₂) hv
  | ifThenElse span condition positive negative =>
    obtain ⟨test, s₁, yes, s₂, no, s₃, result, s₄, value, hc, he₁, hy, he₂, hn, he₃, hty, hr, hv, rfl, hcode, hplace⟩ :=
      ifThenElse_clean (lowers_lowerExpr condition) (lowers_lowerExpr positive) (lowers_lowerExpr negative) hm hs ht
    have htest := lowerExpr h condition hc hs he₁
    have hyes := lowerExpr h positive hy htest.after he₂
    have hno := lowerExpr h negative hn hyes.after he₃
    have hwhole : E (.ifThenElse span condition positive negative) s _ _ := h.ifThenElse _ _ _ htest hyes hno hty hr
      ((ensures_resultTemp _).apply hr hno.after).1 ((within_resultTemp keeps _).apply hr) hv
    rwa [← hcode, ← hplace] at hwhole
  | whileLoop span condition body =>
    obtain ⟨test, s₁, inside, value, hc, he₁, hinside, hv, rfl⟩ :=
      whileLoop_clean (lowers_lowerExpr condition) (lowers_lowerExpr body) hm hs ht
    have hk := (keeps.inLoop _ (lowers_lowerExpr body).keeps).apply hinside
    obtain ⟨s₂, hb, rfl⟩ := inLoop_eq hinside
    have htest := lowerExpr h condition hc { hs with } he₁
    exact h.whileLoop _ _ _ hs htest (lowerExpr h body hb { htest.after with } ht) hk hv
  | forLoop span counter first last body =>
    obtain ⟨low, s₁, high, s₂, inside, s₃, lowest, highest, hf, he₁, hl, he₂, hinside, he₃, hpl, hph, rfl, rfl⟩ :=
      forLoop_clean (lowers_lowerExpr first) (lowers_lowerExpr last) (lowers_lowerExpr body) hm hs ht
    have hk := (keeps.forBody _ _ _ (lowers_lowerExpr body).keeps).apply hinside
    obtain ⟨s₄, hb, rfl⟩ := forBody_clean hinside he₃
    have hlow := lowerExpr h first hf hs he₁
    have hhigh := lowerExpr h last hl hlow.after he₂
    exact h.forLoop _ _ _ hlow hhigh
      (lowerExpr h body hb (sound_insideFor hhigh.after counter.name) he₃) hk hpl hph
  | letIn span groups body =>
    obtain ⟨before, s₁, inside, s₂, hd, hb, rfl, rfl⟩ := letIn_eq hm
    have hbefore := lowerGroups h groups hd (sound_openScopes hs) ((lowers_lowerSequence body).clean hb ht)
    exact h.letIn _ _ _ hs hbefore (lowerSequence h body hb hbefore.after ht)
  | array span name size init =>
    obtain ⟨ty, identity, element, count, s₁, value, s₂, countPlace, valuePlace, hty, hactual, hc, he₁, hv,
      he₂, hfits, hpc, hpv, harray⟩ := arrayCreation_clean (lowers_lowerExpr size) (lowers_lowerExpr init) hm hs ht
    obtain ⟨rfl, rfl⟩ := Prod.mk.inj harray
    have hcount := lowerExpr h size hc hs he₁
    exact h.array _ hty hactual hcount (lowerExpr h init hv hcount.after he₂) hfits hpc hpv
  | record span name fields =>
    obtain ⟨ty, identity, declared, allocation, s₁, stores, hty, hactual, halloc, he₁, hstores, hgiven, rfl⟩ :=
      recordCreation_clean (fun target declared => (compositional_lowers.lowerFields target 0 declared fields).1)
        (compositional_lowers.checkFields fields).1 hm ht
    have hsolid := TypeTable.isSolid_actual hs.table
      (Ty.isSolid_of_isPlain (hs.types _ _ (ScopeStack.binds_of_get? hty)))
    rw [hactual] at hsolid
    have hs₁ := ((ensures_allocateRecord _ _).apply halloc hs.withTemp).1
    have hparts := lowerFields h _ 0 declared fields hstores hs₁ ht hsolid hgiven
    obtain ⟨-, r₁⟩ := unlessError_clean halloc he₁
    obtain ⟨rfl, rfl⟩ := Prod.mk.inj r₁
    exact h.record _ _ hs hty hactual hparts

lemma lowerSequence (h : RunCases E S L A F D G B) (expressions : List Expr) {s t : Analyzer} {a : Lowered}
    (hm : Analysis.lowerSequence expressions s = (a, t)) (hs : s.Sound) (ht : t.errors = []) :
    Faultless Keeps (Analysis.lowerSequence expressions) (S expressions) s a t := by
  refine (lowers_lowerSequence expressions).faultless hm hs ht ?_
  match expressions with
  | [] =>
    obtain ⟨rfl, rfl⟩ := pure_eq.mp hm
    exact h.emptySequence hs
  | [expression] => exact h.single (lowerExpr h expression hm hs ht)
  | expression :: next :: rest =>
    obtain ⟨value, s₁, hvalue, r₁⟩ := bind_eq.mp hm
    obtain ⟨others, s₂, hothers, r₂⟩ := bind_eq.mp r₁
    obtain ⟨rfl, rfl⟩ := pure_eq.mp r₂
    have hfirst := lowerExpr h expression hvalue hs ((lowers_lowerSequence (next :: rest)).clean hothers ht)
    exact h.longer hfirst (lowerSequence h (next :: rest) hothers hfirst.after ht)

lemma lowerLValue (h : RunCases E S L A F D G B) (assigning : Bool) (place : LValue) {s t : Analyzer} {a : Lowered}
    (hm : Analysis.lowerLValue assigning place s = (a, t)) (hs : s.Sound) (ht : t.errors = []) :
    Faultless Keeps (Analysis.lowerLValue assigning place) (L assigning place) s a t := by
  refine (locates_lowerLValue assigning place).lowers.faultless hm hs ht ?_
  cases place with
  | var span name =>
    obtain ⟨info, hfound, hassignable, hnote, rfl⟩ := variablePlace_clean hm ht
    exact h.variablePlace hs hfound hassignable hnote
  | field span base name =>
    obtain ⟨record, s₁, identity, fields, index, ty, place, simple, load, hb, he₁, hactual, hfield, hp, hload, rfl⟩ :=
      fieldPlace_clean (locates_lowerLValue assigning base) hm hs ht
    exact h.field _ _ (lowerLValue h assigning base hb hs he₁) hactual hfield hp hload
      ((within_toSimple keeps _).apply hload)
  | subscript span base index =>
    obtain ⟨array, s₁, identity, ty, position, s₂, place, offset, simple, load, s₃, hb, he₁, hactual, hi, he₂,
      hfits, hp, ho, hload, rfl, rfl⟩ :=
      elementPlace_clean (locates_lowerLValue assigning base) (lowers_lowerExpr index) hm hs ht
    have harray := lowerLValue h assigning base hb hs he₁
    have hindex := lowerExpr h index hi harray.after he₂
    exact h.subscript _ _ _ _ harray hactual hindex hfits hp ho hload
      ((ensures_toSimple _).apply hload hindex.after).1 ((within_toSimple keeps _).apply hload)

lemma lowerArguments (h : RunCases E S L A F D G B) (params : List Param) (arguments : List Expr) {s t : Analyzer}
    {a : List Code × List Access} (hm : Analysis.lowerArguments params arguments s = (a, t)) (hs : s.Sound)
    (ht : t.errors = []) (hp : ∀ param ∈ params, param.ty.isPlain) (hl : params.length = arguments.length) :
    Faultless Keeps (Analysis.lowerArguments params arguments) (A params arguments) s a t := by
  obtain ⟨hkeeps, hensures⟩ := compositional_lowers.lowerArguments params arguments
  refine ⟨hm, hs, (hensures.apply hm hs).1, ht, hkeeps.apply hm, ?_⟩
  match params, arguments with
  | [], [] =>
    obtain ⟨rfl, rfl⟩ := pure_eq.mp hm
    exact h.noArguments hs
  | param :: params, expression :: rest =>
    obtain ⟨first, s₁, hfirst, r₁⟩ := bind_eq.mp hm
    obtain ⟨_, s₁', hcheck, r₂⟩ := bind_eq.mp r₁
    obtain ⟨⟨code, places⟩, s₂, hrest, r₃⟩ := bind_eq.mp r₂
    obtain ⟨rfl, rfl⟩ := pure_eq.mp r₃
    have he₁ := ((compositional_lowers.lowerArguments params rest).1.apply hrest).clean ht
    obtain ⟨hfits, rfl⟩ := checkType_clean hcheck he₁
    have hvalue := lowerExpr h expression hfirst hs he₁
    obtain ⟨place, hplace⟩ := (lowers_lowerExpr expression).exists_place hfirst hs he₁ hvalue.after.table hfits
      (Ty.isSolid_of_isPlain (hp param List.mem_cons_self))
    have hothers := lowerArguments h params rest hrest hvalue.after ht (fun p hm => hp p (List.mem_cons_of_mem _ hm))
      (Nat.succ.inj hl)
    rw [hplace]
    exact h.argument hvalue hplace hothers

lemma lowerFields (h : RunCases E S L A F D G B) (target : Temp) (index : Nat) (declared : List (String × Ty))
    (fields : List (Ident × Expr)) {s t : Analyzer} {a : List Code}
    (hm : Analysis.lowerFields target index declared fields s = (a, t)) (hs : s.Sound) (ht : t.errors = [])
    (hp : declared.all (·.2.isPlain)) (hl : declared.length = fields.length) :
    Faultless Keeps (Analysis.lowerFields target index declared fields) (F target index declared fields) s a t := by
  obtain ⟨hkeeps, hensures⟩ := compositional_lowers.lowerFields target index declared fields
  refine ⟨hm, hs, (hensures.apply hm hs).1, ht, hkeeps.apply hm, ?_⟩
  match declared, fields with
  | [], [] =>
    obtain ⟨rfl, rfl⟩ := pure_eq.mp hm
    exact h.noFields hs
  | (expected, ty) :: declared, (name, value) :: rest =>
    obtain ⟨code, s₁, hcode, r₁⟩ := bind_eq.mp hm
    obtain ⟨codes, s₂, hcodes, r₂⟩ := bind_eq.mp r₁
    obtain ⟨rfl, rfl⟩ := pure_eq.mp r₂
    simp only [List.all_cons, Bool.and_eq_true] at hp
    have he₁ := ((compositional_lowers.lowerFields target (index + 1) declared rest).1.apply hcodes).clean ht
    obtain ⟨init, place, rfl, hinit, hfits, hplace, rfl⟩ :=
      initField_clean (lowers_lowerExpr value) hcode hs (Ty.isSolid_of_isPlain hp.1) he₁
    have hvalue := lowerExpr h value hinit hs he₁
    have hothers := lowerFields h target (index + 1) declared rest hcodes hvalue.after ht hp.2 (Nat.succ.inj hl)
    rw [List.append_assoc]
    exact h.fields _ _ _ _ hvalue hfits hplace hothers

lemma lowerGroups (h : RunCases E S L A F D G B) (groups : List Group) {s t : Analyzer} {a : List Code}
    (hm : Analysis.lowerGroups groups s = (a, t)) (hs : s.Sound) (ht : t.errors = []) :
    Faultless Declares (Analysis.lowerGroups groups) (D groups) s a t := by
  obtain ⟨hdeclares, hensures⟩ := compositional_lowers.lowerGroups groups
  refine ⟨hm, hs, (hensures.apply hm hs).1, ht, hdeclares.apply hm, ?_⟩
  match groups with
  | [] =>
    obtain ⟨rfl, rfl⟩ := pure_eq.mp hm
    exact h.noGroups hs
  | group :: rest =>
    obtain ⟨code, s₁, hcode, r₁⟩ := bind_eq.mp hm
    obtain ⟨codes, s₂, hcodes, r₂⟩ := bind_eq.mp r₁
    obtain ⟨rfl, rfl⟩ := pure_eq.mp r₂
    have hfirst := lowerGroup h group hcode hs (((compositional_lowers.lowerGroups rest).1.apply hcodes).clean ht)
    exact h.groups _ hfirst (lowerGroups h rest hcodes hfirst.after ht)

lemma lowerGroup (h : RunCases E S L A F D G B) (group : Group) {s t : Analyzer} {a : List Code}
    (hm : Analysis.lowerGroup group s = (a, t)) (hs : s.Sound) (ht : t.errors = []) :
    Faultless Declares (Analysis.lowerGroup group) (G group) s a t := by
  obtain ⟨hdeclares, hensures⟩ := compositional_lowers.lowerGroup group
  refine ⟨hm, hs, (hensures.apply hm hs).1, ht, hdeclares.apply hm, ?_⟩
  cases group with
  | var name declared value =>
    obtain ⟨init, s₁, ty, source, hinit, he₁, hsource, hty, rfl, rfl⟩ :=
      variableDeclaration_clean (lowers_lowerExpr value) hm hs ht
    exact h.var _ (lowerExpr h value hinit hs he₁) hsource hty
  | types members =>
    obtain ⟨_, s₁, hgroup, r₁⟩ := bind_eq.mp hm
    obtain ⟨rfl, rfl⟩ := pure_eq.mp r₁
    have hretypes := retypes_typeGroup members s
    rw [hgroup] at hretypes
    obtain ⟨errors, types, table, rfl, -⟩ := hretypes
    exact h.types hs hgroup
  | functions members =>
    obtain ⟨declared, s₁, inside, s₂, s₃, hdeclared, hinside, he₂, hclose, rfl, rfl⟩ := functionGroup_clean hm ht
    obtain ⟨hs₁, hlength, hin⟩ := sound_declareFunctions hdeclared hs
    have hbodies := lowerBodies h members declared hinside hs₁ he₂ hin hlength
    exact h.functions _ _ _ _ hs hdeclared hin hbodies hclose ((keeps_closeForeigns _).apply hclose)

lemma lowerBodies (h : RunCases E S L A F D G B) (members : List FunctionDecl) (declared : List Declared)
    {s t : Analyzer}
    {a : List Code} (hm : Analysis.lowerBodies members declared s = (a, t)) (hs : s.Sound) (ht : t.errors = [])
    (hd : ∀ d ∈ declared, DeclaredIn s d) (hl : declared.length = members.length) :
    Faultless Keeps (Analysis.lowerBodies members declared) (B members declared) s a t := by
  obtain ⟨hkeeps, hsound⟩ := compositional_lowers.lowerBodies members declared
  have hafter := hsound s hs hd
  rw [hm] at hafter
  refine ⟨hm, hs, hafter, ht, hkeeps.apply hm, ?_⟩
  match members, declared with
  | [], [] =>
    obtain ⟨rfl, rfl⟩ := pure_eq.mp hm
    exact h.noBodies hs
  | .mk name params result body :: rest, declared :: others =>
    obtain ⟨code, s₂, hcode, r₁⟩ := bind_eq.mp hm
    obtain ⟨codes, s₃, hcodes, r₂⟩ := bind_eq.mp r₁
    obtain ⟨rfl, rfl⟩ := pure_eq.mp r₂
    have hlowers := lowers_lowerExpr body
    have hk := (keeps_functionBody declared hlowers.keeps).apply hcode
    have hin := hd declared List.mem_cons_self
    have hs₂ := sound_functionBody hlowers.keeps hlowers.ensures hcode hs hin
    have he₂ := ((compositional_lowers.lowerBodies rest others).1.apply hcodes).clean ht
    have hothers := lowerBodies h rest others hcodes hs₂ ht
      (fun d hm => (hd d (List.mem_cons_of_mem _ hm)).mono hk.toGrows) (Nat.succ.inj hl)
    obtain ⟨inside, hinside, hfits, rfl⟩ := functionBody_clean hcode he₂
    obtain ⟨_, _, hcurrent, r₁⟩ := bind_eq.mp hinside
    obtain ⟨rfl, rfl⟩ := Prod.mk.inj hcurrent
    obtain ⟨_, _, henter, r₂⟩ := bind_eq.mp r₁
    obtain rfl := congrArg Prod.snd henter
    obtain ⟨value, s₁, hbody, r₃⟩ := bind_eq.mp r₂
    obtain ⟨rfl, rfl⟩ := Prod.mk.inj r₃
    have hinner := lowerExpr h body hbody (sound_enterFunction hs hin) he₂
    have hwhole : B (.mk name params result body :: rest) (declared :: others) s _ t :=
      h.bodies _ _ _ _ hs hin hinner hfits hk hothers
    simpa using hwhole

end

end RunCases

end Analysis

end TigerMips
