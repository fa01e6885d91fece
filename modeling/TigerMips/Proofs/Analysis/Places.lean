import TigerMips.Proofs.Analysis.Parts

/-! Where values are. An expression has a place exactly if its type is not void, whatever errors are found after it, and
code addresses memory with a base and an offset that need no memory to be read. -/

namespace TigerMips

def Access.isFlat : Access → Bool
  | temp _ | const _ => true
  | memory base offset => base.isSimple && offset.isSimple

lemma Access.ne_const_of_isPlace {access : Access} (h : access.isPlace) (constant : Const) :
    access ≠ const constant := by
  rintro rfl
  cases h

lemma Tac.Selectable.destination_ne_const {frames : Arena .frame Frame} {tac : Tac} (h : tac.Selectable frames)
    (constant : Const) : tac.destination? ≠ some (.const constant) := by
  cases tac with
  | move destination source => exact fun hc => Access.ne_const_of_isPlace h constant (Option.some.inj hc)
  | binary operator destination lhs rhs => exact fun hc => Access.ne_const_of_isPlace h constant (Option.some.inj hc)
  | negate destination operand => exact fun hc => Access.ne_const_of_isPlace h.1 constant (Option.some.inj hc)
  | call destination target arguments => exact fun hc => Access.ne_const_of_isPlace (h.1 _ hc) constant rfl
  | callRuntime destination name arguments => exact fun hc => Access.ne_const_of_isPlace (h.1 _ hc) constant rfl
  | ret | goto target | branch relation lhs rhs target => nofun

open Analysis

lemma Analysis.usage_flat : Usage (fun _ => True) (fun _ => True) fun _ _ access => access.isFlat = true where
  later _ hp := hp
  int _ _ _ := rfl
  word _ _ := rfl
  string _ _ := rfl
  memory hb ho _ _ := by simp [Access.isFlat, hb, ho]
  own _ := rfl
  variablePlace _ _ _ := rfl
  kept _ _ _ _ _ := trivial
  openScope _ := trivial
  openFunction _ _ := trivial
  putVariable _ _ _ _ _ := trivial
  putFunction _ _ _ _ := trivial

namespace Visit

variable {s : Analyzer} (hs : s.Sound)

include hs

lemma sound_after (expression : Expr) : (lowerExpr expression s).2.Sound := (lowers_lowerExpr expression).sound rfl hs

lemma sound_inOrder (expressions : List Expr) : ∀ part ∈ inOrder expressions s, part.state.Sound := by
  induction expressions generalizing s with
  | nil => simp [inOrder]
  | cons first rest ih => exact List.forall_mem_cons.mpr ⟨hs, ih (sound_after hs first)⟩

lemma sound_lvalue (assigning : Bool) (place : LValue) : ∀ part ∈ place.parts assigning s, part.state.Sound := by
  cases place with
  | var span name => simp [LValue.parts]
  | field span base name => exact sound_lvalue assigning base
  | subscript span base index =>
    have hbase := (locates_lowerLValue assigning base).sound rfl hs
    exact List.forall_mem_append.mpr ⟨sound_lvalue assigning base, by simpa using hbase⟩

lemma sound_bodies (members : List FunctionDecl) {declared : List Declared} (hd : ∀ d ∈ declared, DeclaredIn s d) :
    ∀ part ∈ bodies members declared s, part.state.Sound := by
  induction members generalizing declared s with
  | nil => simp [bodies]
  | cons decl rest ih =>
    obtain ⟨name, params, result, body⟩ := decl
    cases declared with
    | nil => simp [bodies]
    | cons first others =>
      have hbody := lowers_lowerExpr body
      obtain ⟨hfirst, hothers⟩ := List.forall_mem_cons.mp hd
      cases hrun : functionBody first ⟨body.span, lowerExpr body⟩ s with
      | mk code t =>
        have hafter := sound_functionBody hbody.keeps hbody.ensures hrun hs hfirst
        have hkept := (keeps_functionBody first hbody.keeps).apply hrun
        rw [bodies, hrun]
        exact List.forall_mem_cons.mpr
          ⟨sound_enterFunction hs hfirst, ih hafter fun d hm => (hothers d hm).mono hkept.toGrows⟩

lemma sound_group (group : Group) : ∀ part ∈ group.parts s, part.state.Sound := by
  cases group with
  | var name ty value => simpa [Group.parts] using hs
  | types members => simp [Group.parts]
  | functions members =>
    obtain ⟨hafter, -, hdeclared⟩ := sound_declareFunctions rfl hs
    exact sound_bodies hafter members hdeclared

lemma sound_declarations (groups : List Group) : ∀ part ∈ declarations groups s, part.state.Sound := by
  induction groups generalizing s with
  | nil => simp [declarations]
  | cons group rest ih =>
    have hafter := ((compositional_lowers.lowerGroup group).2 s hs).1
    exact List.forall_mem_append.mpr ⟨sound_group hs group, ih hafter⟩

omit hs in
lemma sound_parts {visit : Visit} (hs : visit.state.Sound) : ∀ part ∈ visit.parts, part.state.Sound := by
  obtain ⟨e, s⟩ := visit
  replace hs : s.Sound := hs
  cases e with
  | int | string | nil | breakLoop => simp [parts]
  | lvalue span place => exact sound_lvalue hs false place
  | assign span target value =>
    have htarget := (locates_lowerLValue true target).sound rfl hs
    exact List.forall_mem_append.mpr ⟨sound_lvalue hs true target, by simpa using htarget⟩
  | operation span operator at_ lhs rhs => exact sound_inOrder hs [lhs, rhs]
  | negate span operand => exact sound_inOrder hs [operand]
  | call span name arguments => exact sound_inOrder hs arguments
  | sequence span expressions => exact sound_inOrder hs expressions
  | ifThen span condition positive => exact sound_inOrder hs [condition, positive]
  | ifThenElse span condition positive negative => exact sound_inOrder hs [condition, positive, negative]
  | whileLoop span condition body =>
    have htest : s.withLabel.withLabel.Sound := { hs with }
    have hbody : ((lowerExpr condition s.withLabel.withLabel).2.insideLoop ⟨s.supply.labels + 1⟩).Sound :=
      { sound_after htest condition with }
    simpa [parts] using ⟨htest, hbody⟩
  | forLoop span counter first last body =>
    have hbody := sound_insideFor (sound_after (sound_after hs first) last) counter.name
    exact List.forall_mem_append.mpr ⟨sound_inOrder hs [first, last], by simpa using hbody⟩
  | letIn span groups body =>
    have hinside : s.insideLet.Sound := sound_openScopes hs
    have hafter := ((compositional_lowers.lowerGroups groups).2 _ hinside).1
    exact List.forall_mem_append.mpr ⟨sound_declarations hinside groups, sound_inOrder hafter body⟩
  | array span ty size init => exact sound_inOrder hs [size, init]
  | record span ty fields =>
    have hinside : (s.withTemp.withTemp.usingRuntime Runtime.malloc.name).Sound := { hs.withTemp.withTemp with }
    exact sound_inOrder hinside _

omit hs in
lemma sound_at? {visit part : Visit} {path : Path} (hs : visit.state.Sound) (hp : visit.at? path = some part) :
    part.state.Sound := by
  induction path generalizing visit with
  | nil => exact Option.some.inj hp ▸ hs
  | cons i rest ih =>
    obtain ⟨next, hnext, hp⟩ := Option.bind_eq_some_iff.mp hp
    exact ih (sound_parts hs next (List.mem_of_getElem? hnext)) hp

end Visit

structure Lowered.WellPlaced (types : TypeTable) (value : Lowered) : Prop where
  none_iff : value.place = none ↔ types.actual value.ty = .void
  string : ∀ label, value.place = some (.const (.string label)) → value.ty = .string
  place : ∀ place ∈ value.place, place.isFlat
  accesses : ∀ op ∈ Code.ops value.code, ∀ access ∈ op.2.accesses, access.isFlat
  destination : ∀ op ∈ Code.ops value.code, ∀ constant, op.2.destination? ≠ some (.const constant)

/-- Each expression that is lowered before the first error is well placed. -/
theorem wellPlaced_of_errors_eq_nil (expression : Expr) (path : Path) (part : Visit)
    (hp : (Visit.start expression).at? path = some part) (h : part.after.errors = []) :
    part.lowered.WellPlaced part.after.typeTable := by
  have hs : part.state.Sound := Visit.sound_at? Analyzer.sound_initial hp
  have hafter : part.after.Sound := Visit.sound_after hs part.expression
  have hplaced := (lowers_lowerExpr part.expression).placed rfl hs h
  obtain ⟨htraced, hflat⟩ := traces_lowerExpr usage_flat part.expression rfl hs trivial (fun _ _ => trivial) h
  constructor
  · refine hplaced.none_iff.trans ⟨fun hv => ?_, fun hv => ?_⟩
    · rw [Visit.lowered, hv]
      rfl
    · exact TypeTable.eq_of_actual hafter.table hv rfl
  · exact hplaced.string
  · exact fun place hm => hflat place (Option.mem_toList.mpr hm)
  · exact htraced.accesses
  · exact fun op hm => (htraced.selectable op hm).2.destination_ne_const

def assignedField : Expr :=
  .letIn {} [.types [⟨{ name := "entry" }, .record [({ name := "text" }, { name := "string" })]⟩,
        ⟨{ name := "row" }, .array { name := "entry" }⟩],
      .var { name := "first" } none (.array {} { name := "row" } (.int {} 2)
        (.record {} { name := "entry" } [({ name := "text" }, .string {} "a")]))]
    [.assign {} (.field {} (.subscript {} (.var {} { name := "first" }) (.int {} 1)) { name := "text" })
      (.string {} "b"), .lvalue {} (.var {} { name := "missing" })]

theorem assignedField_wellPlaced : (analyze assignedField).1 ≠ [] ∧ ∃ part,
    (Visit.start assignedField).at? [1] = some part ∧ part.after.errors = [] ∧ part.lowered.place = none ∧
      part.lowered.code.getLast? =
        some (.op ⟨0⟩ (.move (.memory (.temp ⟨9⟩) (.temp ⟨8⟩)) (.const (.string ⟨3⟩)))) ∧
      part.lowered.WellPlaced part.after.typeTable := by
  have herror : (analyze assignedField).1.isEmpty = false := by decide +kernel
  obtain ⟨s, hpart⟩ := Visit.exists_at?_start (show assignedField.at? [1] = some _ from rfl)
  have hlowered : ((Visit.start assignedField).at? [1]).map
      (fun part => (part.after.errors.isEmpty, part.lowered.place, part.lowered.code.getLast?)) =
      some (true, none, some (.op ⟨0⟩ (.move (.memory (.temp ⟨9⟩) (.temp ⟨8⟩)) (.const (.string ⟨3⟩))))) := by
    decide +kernel
  rw [hpart, Option.map_some, Option.some.injEq, Prod.mk.injEq, Prod.mk.injEq] at hlowered
  obtain ⟨hclean, hplace, hlast⟩ := hlowered
  have herrors := List.isEmpty_iff.mp hclean
  exact ⟨fun hc => by simp [hc] at herror, _, hpart, herrors, hplace, hlast,
    wellPlaced_of_errors_eq_nil assignedField [1] _ hpart herrors⟩

end TigerMips
