import TigerMips.Proofs.Analysis.Induction
import TigerMips.Proofs.Chain
import TigerMips.Proofs.Scope

/-! Groups of type declarations. Entering and binding the names of a group gives each name the type of its first
declaration. Breaking cycles then takes bindings away, until no name of the group is bound to itself through names. -/

namespace TigerMips

def ScopeStack.typeNamed (types : ScopeStack Ty) (name : Ident) : Ty := (types.get? name.name).getD .int

namespace TypeExpr

def isNominal : TypeExpr → Bool
  | .name _ => false
  | .array _ | .record _ => true

def meaning (types : ScopeStack Ty) (identity : Nat) : TypeExpr → Ty
  | .name known => types.typeNamed known
  | .array element => .array identity (types.typeNamed element)
  | .record fields => .record identity (fields.map fun field => (field.1.name, types.typeNamed field.2))

end TypeExpr

namespace Analysis

def OffLoops (reports : List (Fault × Span)) : Prop := ∀ report ∈ reports, ∀ name, report.1 ≠ .typeLoop name

lemma offLoops_nil : OffLoops [] := by simp [OffLoops]

lemma OffLoops.append {first second : List (Fault × Span)} (h : OffLoops first) (h' : OffLoops second) :
    OffLoops (first ++ second) :=
  fun report hm => (List.mem_append.mp hm).elim (h report) (h' report)

lemma typeOf_eq (name : Ident) (s : Analyzer) : ∃ reports, OffLoops reports ∧
    typeOf name s = (s.types.typeNamed name, { s with errors := s.errors ++ reports }) := by
  unfold typeOf ScopeStack.typeNamed
  cases h : s.types.get? name.name with
  | some ty =>
    refine ⟨[], offLoops_nil, bind_eq.mpr ⟨_, s, rfl, ?_⟩⟩
    simp only [h, List.append_nil]
    rfl
  | none =>
    refine ⟨[(.undefinedType name.name, name.span)], by simp [OffLoops], bind_eq.mpr ⟨_, s, rfl, ?_⟩⟩
    simp only [h]
    rfl

lemma typedNames_eq (names : List (Ident × Ident)) (s : Analyzer) : ∃ reports, OffLoops reports ∧
    typedNames names s = (names.map fun name => (name.1.name, s.types.typeNamed name.2),
      { s with errors := s.errors ++ reports }) := by
  induction names generalizing s with
  | nil => exact ⟨[], offLoops_nil, by rw [List.append_nil]; rfl⟩
  | cons first rest ih =>
    obtain ⟨reports, hr, ht⟩ := typeOf_eq first.2 s
    obtain ⟨reports', hr', ht'⟩ := ih { s with errors := s.errors ++ reports }
    refine ⟨reports ++ reports', hr.append hr', bind_eq.mpr ⟨_, _, ht, bind_eq.mpr ⟨_, _, ht', ?_⟩⟩⟩
    rw [← List.append_assoc]
    rfl

lemma typeExpression_eq (ty : TypeExpr) (s : Analyzer) : ∃ reports, OffLoops reports ∧
    typeExpression ty s = (ty.meaning s.types s.typeTable.identities, { s with
      errors := s.errors ++ reports
      typeTable := { s.typeTable with identities := s.typeTable.identities + if ty.isNominal then 1 else 0 } }) := by
  cases ty with
  | name name => exact typeOf_eq name s
  | array element =>
    obtain ⟨reports, hr, ht⟩ := typeOf_eq element s
    exact ⟨reports, hr, bind_eq.mpr ⟨_, _, ht, rfl⟩⟩
  | record fields =>
    obtain ⟨reports, hr, ht⟩ := typedNames_eq fields s
    exact ⟨reports, hr, bind_eq.mpr ⟨_, _, ht, rfl⟩⟩

abbrev Entries := List (TypeDecl × Option TypeNameId)

def withTypeName (s : Analyzer) (name : String) : Analyzer := { s with
  types := s.types.put name (.name s.typeTable.bindings.next name)
  typeTable := { s.typeTable with bindings := s.typeTable.bindings.push none } }

lemma enterTypes_of_mem {seen : List String} {decl : TypeDecl} (h : decl.name.name ∈ seen) (rest : List TypeDecl)
    (s : Analyzer) : enterTypes seen (decl :: rest) s =
      let (entered, t) := enterTypes seen rest
        { s with errors := s.errors ++ [(.alreadyDefined decl.name.name, decl.name.span)] }
      ((decl, none) :: entered, t) := by
  rw [enterTypes, if_pos h]
  rfl

lemma enterTypes_of_notMem {seen : List String} {decl : TypeDecl} (h : decl.name.name ∉ seen) (rest : List TypeDecl)
    (s : Analyzer) : enterTypes seen (decl :: rest) s =
      let (entered, t) := enterTypes (decl.name.name :: seen) rest (withTypeName s decl.name.name)
      ((decl, some s.typeTable.bindings.next) :: entered, t) := by
  rw [enterTypes, if_neg h]
  rfl

structure EntersTypes (seen : List String) (members : List TypeDecl) (s : Analyzer) (entered : Entries) (t : Analyzer) :
    Prop where
  fst : entered.map Prod.fst = members
  errors : ∃ reports, OffLoops reports ∧ t.errors = s.errors ++ reports
  grows : s.typeTable.bindings.size ≤ t.typeTable.bindings.size
  isSome_iff : ∀ before decl id after, entered = before ++ (decl, id) :: after →
    (id.isSome ↔ decl.name.name ∉ seen ∧ ∀ entry ∈ before, entry.1.name.name ≠ decl.name.name)
  nodup : (entered.filterMap Prod.snd).Nodup
  range : ∀ decl id, (decl, some id) ∈ entered →
    s.typeTable.bindings.size ≤ id.position ∧ id.position < t.typeTable.bindings.size
  cover : ∀ id : TypeNameId, s.typeTable.bindings.size ≤ id.position → id.position < t.typeTable.bindings.size →
    ∃ decl, (decl, some id) ∈ entered
  named : ∀ decl id, (decl, some id) ∈ entered → t.types.get? decl.name.name = some (.name id decl.name.name)
  outside : ∀ name, (∀ decl ∈ members, decl.name.name = name → name ∈ seen) → t.types.get? name = s.types.get? name
  scopes : ∀ name ty, t.types.Binds name ty →
    s.types.Binds name ty ∨ ∃ decl id, (decl, some id) ∈ entered ∧ ty = .name id decl.name.name
  old : ∀ id : TypeNameId, id.position < s.typeTable.bindings.size → t.typeTable.binding? id = s.typeTable.binding? id

namespace EntersTypes

variable {seen : List String} {decl : TypeDecl} {rest : List TypeDecl} {s t : Analyzer} {entered : Entries}

lemma cons_seen (hseen : decl.name.name ∈ seen)
    (h : EntersTypes seen rest { s with errors := s.errors ++ [(.alreadyDefined decl.name.name, decl.name.span)] }
      entered t) :
    EntersTypes seen (decl :: rest) s ((decl, none) :: entered) t where
  fst := by rw [List.map_cons, h.fst]
  errors := by
    obtain ⟨reports, hr, he⟩ := h.errors
    have hfirst : OffLoops [(.alreadyDefined decl.name.name, decl.name.span)] := by simp [OffLoops]
    exact ⟨_, hfirst.append hr, by rw [he, List.append_assoc]⟩
  grows := h.grows
  isSome_iff before other id after he := by
    cases before with
    | nil =>
      obtain ⟨⟨rfl, rfl⟩, rfl⟩ : (decl = other ∧ none = id) ∧ entered = after := by simpa using he
      simp [hseen]
    | cons first before =>
      obtain ⟨rfl, rfl⟩ := List.cons.inj he
      rw [h.isSome_iff before other id after rfl]
      have hne : other.name.name ∉ seen → decl.name.name ≠ other.name.name := fun hn he => hn (he ▸ hseen)
      simp only [List.forall_mem_cons]
      tauto
  nodup := h.nodup
  range other id hm := h.range other id (by simpa using hm)
  cover id hle hlt := by
    obtain ⟨other, hm⟩ := h.cover id hle hlt
    exact ⟨other, List.mem_cons_of_mem _ hm⟩
  named other id hm := h.named other id (by simpa using hm)
  outside name hn := h.outside name fun other hm => hn other (List.mem_cons_of_mem _ hm)
  scopes name ty hb := (h.scopes name ty hb).imp_right fun ⟨other, id, hm, he⟩ =>
    ⟨other, id, List.mem_cons_of_mem _ hm, he⟩
  old := h.old

lemma cons_new (hseen : decl.name.name ∉ seen)
    (h : EntersTypes (decl.name.name :: seen) rest (withTypeName s decl.name.name) entered t) :
    EntersTypes seen (decl :: rest) s ((decl, some s.typeTable.bindings.next) :: entered) t := by
  have hsize : (withTypeName s decl.name.name).typeTable.bindings.size = s.typeTable.bindings.size + 1 :=
    Arena.size_push _ _
  have hgrows : s.typeTable.bindings.size + 1 ≤ t.typeTable.bindings.size := hsize ▸ h.grows
  have hlater : ∀ other id, (other, some id) ∈ entered → s.typeTable.bindings.size < id.position := fun other id hm =>
    hsize.symm.trans_le (h.range other id hm).1
  have hput : ∀ name, (withTypeName s decl.name.name).types.get? name =
      if name = decl.name.name then some (.name s.typeTable.bindings.next decl.name.name) else s.types.get? name :=
    fun name => ScopeStack.get?_put _ _ _ _
  exact {
    fst := by rw [List.map_cons, h.fst]
    errors := h.errors
    grows := by omega
    isSome_iff := fun before other id after he => by
      cases before with
      | nil =>
        obtain ⟨⟨rfl, rfl⟩, rfl⟩ : (decl = other ∧ some s.typeTable.bindings.next = id) ∧ entered = after := by
          simpa using he
        simp [hseen]
      | cons first before =>
        obtain ⟨rfl, rfl⟩ := List.cons.inj he
        rw [h.isSome_iff before other id after rfl]
        rw [List.forall_mem_cons, List.mem_cons, not_or]
        constructor
        · exact fun ⟨⟨hne, hn⟩, hb⟩ => ⟨hn, Ne.symm hne, hb⟩
        · exact fun ⟨hn, hne, hb⟩ => ⟨⟨Ne.symm hne, hn⟩, hb⟩
    nodup := by
      refine List.nodup_cons.mpr ⟨fun hm => ?_, h.nodup⟩
      obtain ⟨⟨other, _⟩, ho, rfl⟩ := List.mem_filterMap.mp hm
      exact Nat.lt_irrefl _ (hlater other _ ho)
    range := fun other id hm => by
      rcases List.mem_cons.mp hm with he | hm
      · obtain ⟨rfl, rfl⟩ : other = decl ∧ id = s.typeTable.bindings.next := by simpa using he
        exact ⟨le_rfl, hgrows⟩
      · exact ⟨(hlater other id hm).le, (h.range other id hm).2⟩
    cover := fun id hle hlt => by
      by_cases he : id.position = s.typeTable.bindings.size
      · exact ⟨decl, by rw [show id = s.typeTable.bindings.next from congrArg Index.mk he]; exact List.mem_cons_self⟩
      · obtain ⟨other, hm⟩ := h.cover id (by omega) hlt
        exact ⟨other, List.mem_cons_of_mem _ hm⟩
    named := fun other id hm => by
      rcases List.mem_cons.mp hm with he | hm
      · obtain ⟨rfl, rfl⟩ : other = decl ∧ id = s.typeTable.bindings.next := by simpa using he
        rw [h.outside other.name.name fun _ _ _ => List.mem_cons_self, hput, if_pos rfl]
      · exact h.named other id hm
    outside := fun name hn => by
      have hne : name ≠ decl.name.name := fun he => hseen (he ▸ hn decl List.mem_cons_self he.symm)
      rw [h.outside name fun other hm he => List.mem_cons_of_mem _ (hn other (List.mem_cons_of_mem _ hm) he), hput,
        if_neg hne]
    scopes := fun name ty hb => by
      rcases h.scopes name ty hb with hb | ⟨other, id, hm, he⟩
      · rcases ScopeStack.binds_put hb with ⟨-, rfl⟩ | hb
        · exact Or.inr ⟨decl, _, List.mem_cons_self, rfl⟩
        · exact Or.inl hb
      · exact Or.inr ⟨other, id, List.mem_cons_of_mem _ hm, he⟩
    old := fun id hlt => by
      rw [h.old id (by omega)]
      change ((s.typeTable.bindings.push none).get? id).join = _
      rw [Arena.get?_push, if_neg fun he => Nat.lt_irrefl _ (he ▸ hlt)]
      rfl }

end EntersTypes

lemma entersTypes_enterTypes (seen : List String) (members : List TypeDecl) (s : Analyzer) :
    EntersTypes seen members s (enterTypes seen members s).1 (enterTypes seen members s).2 := by
  induction members generalizing seen s with
  | nil =>
    exact {
      fst := rfl
      errors := ⟨[], offLoops_nil, (List.append_nil _).symm⟩
      grows := le_rfl
      isSome_iff := fun before decl id after h => absurd (show [] = before ++ (decl, id) :: after from h).symm (by simp)
      nodup := List.nodup_nil
      range := fun _ _ hm => by cases hm
      cover := fun id hle hlt => absurd hlt (Nat.not_lt.mpr hle)
      named := fun _ _ hm => by cases hm
      outside := fun _ _ => rfl
      scopes := fun _ _ hb => Or.inl hb
      old := fun _ _ => rfl }
  | cons decl rest ih =>
    by_cases hseen : decl.name.name ∈ seen
    · rw [enterTypes_of_mem hseen]
      have h := ih seen { s with errors := s.errors ++ [(.alreadyDefined decl.name.name, decl.name.span)] }
      revert h
      generalize enterTypes seen rest _ = run
      obtain ⟨entered, t⟩ := run
      intro h
      exact h.cons_seen hseen
    · rw [enterTypes_of_notMem hseen]
      have h := ih (decl.name.name :: seen) (withTypeName s decl.name.name)
      revert h
      generalize enterTypes _ rest _ = run
      obtain ⟨entered, t⟩ := run
      intro h
      exact h.cons_new hseen

lemma identities_enterTypes (seen : List String) (members : List TypeDecl) (s : Analyzer) :
    (enterTypes seen members s).2.typeTable.identities = s.typeTable.identities := by
  induction members generalizing seen s with
  | nil => rfl
  | cons decl rest ih =>
    by_cases hseen : decl.name.name ∈ seen
    · rw [enterTypes_of_mem hseen]
      exact ih _ _
    · rw [enterTypes_of_notMem hseen]
      exact ih _ _

lemma bindTypes_cons (decl : TypeDecl) {named : Option TypeNameId} (rest : Entries) {s : Analyzer}
    (h : ∀ id ∈ named, id.position < s.typeTable.bindings.size) : ∃ reports table, OffLoops reports ∧
      bindTypes ((decl, named) :: rest) s =
        bindTypes rest { s with errors := s.errors ++ reports, typeTable := table } ∧
      table.identities = s.typeTable.identities + (if decl.ty.isNominal then 1 else 0) ∧
      table.bindings.size = s.typeTable.bindings.size ∧
      ∀ other, table.binding? other = if named = some other then
        some (decl.ty.meaning s.types s.typeTable.identities) else s.typeTable.binding? other := by
  obtain ⟨reports, hr, ht⟩ := typeExpression_eq decl.ty s
  cases named with
  | none =>
    refine ⟨reports, { s.typeTable with
      identities := s.typeTable.identities + if decl.ty.isNominal then 1 else 0 }, hr, ?_, rfl, rfl, fun _ => rfl⟩
    change bindTypes rest (typeExpression decl.ty s).2 = _
    rw [ht]
  | some id =>
    have hsome : ∀ other, other = id ∧ id.position < s.typeTable.bindings.size ↔ some id = some other := fun other =>
      ⟨fun ⟨he, _⟩ => he ▸ rfl, fun he => ⟨(Option.some.inj he).symm, h id rfl⟩⟩
    refine ⟨reports, { s.typeTable.bind id (decl.ty.meaning s.types s.typeTable.identities) with
      identities := s.typeTable.identities + if decl.ty.isNominal then 1 else 0 }, hr, ?_, rfl,
      Arena.size_set _ _ _, fun other => ?_⟩
    · change bindTypes rest (bindType id (typeExpression decl.ty s).1 (typeExpression decl.ty s).2).2 = _
      rw [ht]
      rfl
    · change (s.typeTable.bind id _).binding? other = _
      simp only [TypeTable.binding?_bind, hsome]

structure BindsTypes (entered : Entries) (s t : Analyzer) : Prop where
  types : t.types = s.types
  size : t.typeTable.bindings.size = s.typeTable.bindings.size
  identities : t.typeTable.identities = s.typeTable.identities + entered.countP (·.1.ty.isNominal)
  errors : ∃ reports, OffLoops reports ∧ t.errors = s.errors ++ reports
  same : ∀ id, id ∉ entered.filterMap Prod.snd → t.typeTable.binding? id = s.typeTable.binding? id
  binding : ∀ before decl id after, entered = before ++ (decl, some id) :: after → t.typeTable.binding? id =
    some (decl.ty.meaning s.types (s.typeTable.identities + before.countP (·.1.ty.isNominal)))

lemma bindsTypes_bindTypes {entered : Entries} {s : Analyzer} (hnodup : (entered.filterMap Prod.snd).Nodup)
    (hrange : ∀ id ∈ entered.filterMap Prod.snd, id.position < s.typeTable.bindings.size) :
    BindsTypes entered s (bindTypes entered s).2 := by
  induction entered generalizing s with
  | nil =>
    exact {
      types := rfl
      size := rfl
      identities := rfl
      errors := ⟨[], offLoops_nil, (List.append_nil _).symm⟩
      same := fun _ _ => rfl
      binding := fun before decl id after h => absurd h.symm (by simp) }
  | cons entry rest ih =>
    obtain ⟨decl, named⟩ := entry
    have hnamed : ∀ id ∈ named, id ∈ ((decl, named) :: rest).filterMap Prod.snd := by
      rintro id rfl
      exact List.mem_cons_self
    have hlater : ∀ id ∈ rest.filterMap Prod.snd, id ∈ ((decl, named) :: rest).filterMap Prod.snd :=
      ((List.sublist_cons_self _ rest).filterMap _).subset
    obtain ⟨reports, table, hr, hrun, hidentities, hsize, hbinding⟩ :=
      bindTypes_cons decl rest fun id hid => hrange id (hnamed id hid)
    rw [hrun]
    have h := ih (s := { s with errors := s.errors ++ reports, typeTable := table })
      (hnodup.sublist ((List.sublist_cons_self _ rest).filterMap _)) fun id hid => hsize ▸ hrange id (hlater id hid)
    refine ⟨h.types, h.size.trans hsize, ?_, ?_, fun id hid => ?_, fun before other id after he => ?_⟩
    · rw [h.identities, List.countP_cons, hidentities, Nat.add_assoc, Nat.add_comm (ite _ _ _)]
    · obtain ⟨reports', hr', he⟩ := h.errors
      exact ⟨reports ++ reports', hr.append hr', by rw [he, List.append_assoc]⟩
    · rw [h.same id fun hm => hid (hlater id hm)]
      exact (hbinding id).trans (if_neg fun he => hid (hnamed id he))
    · cases before with
      | nil =>
        obtain ⟨⟨rfl, rfl⟩, rfl⟩ : (decl = other ∧ named = some id) ∧ rest = after := by simpa using he
        rw [h.same id (List.nodup_cons.mp hnodup).1]
        exact (hbinding id).trans (if_pos rfl)
      | cons first before =>
        obtain ⟨rfl, rfl⟩ := List.cons.inj he
        rw [h.binding before other id after rfl, List.countP_cons, hidentities, Nat.add_assoc, Nat.add_comm (ite _ _ _)]

def linkTypes (members : List TypeDecl) : Analysis Entries := do
  let entered ← enterTypes [] members
  bindTypes entered
  return entered

lemma typeGroup_eq (members : List TypeDecl) (s : Analyzer) :
    typeGroup members s = breakCycles (linkTypes members s).1 (linkTypes members s).2 := rfl

structure Linked (members : List TypeDecl) (s : Analyzer) (entered : Entries) (t : Analyzer) : Prop
    extends EntersTypes [] members s entered t where
  identities : t.typeTable.identities = s.typeTable.identities + entered.countP (·.1.ty.isNominal)
  binding : ∀ before decl id after, entered = before ++ (decl, some id) :: after → t.typeTable.binding? id =
    some (decl.ty.meaning t.types (s.typeTable.identities + before.countP (·.1.ty.isNominal)))

lemma linked_linkTypes (members : List TypeDecl) (s : Analyzer) :
    Linked members s (linkTypes members s).1 (linkTypes members s).2 := by
  have he := entersTypes_enterTypes [] members s
  have hidentities := identities_enterTypes [] members s
  change Linked members s (enterTypes [] members s).1
    (bindTypes (enterTypes [] members s).1 (enterTypes [] members s).2).2
  generalize enterTypes [] members s = run at he hidentities
  obtain ⟨entered, u⟩ := run
  have hb : BindsTypes entered u (bindTypes entered u).2 := bindsTypes_bindTypes he.nodup fun id hid => by
    obtain ⟨⟨decl, _⟩, hm, rfl⟩ := List.mem_filterMap.mp hid
    exact (he.range decl id hm).2
  generalize (bindTypes entered u).2 = t at hb
  exact { he with
    errors := by
      obtain ⟨reports, hr, hu⟩ := he.errors
      obtain ⟨reports', hr', ht⟩ := hb.errors
      exact ⟨reports ++ reports', hr.append hr', by rw [ht, hu, List.append_assoc]⟩
    grows := hb.size ▸ he.grows
    range := hb.size ▸ he.range
    cover := hb.size ▸ he.cover
    named := hb.types ▸ he.named
    outside := hb.types ▸ he.outside
    scopes := hb.types ▸ he.scopes
    old := fun id hlt => by
      refine (hb.same id fun hid => ?_).trans (he.old id hlt)
      obtain ⟨⟨decl, _⟩, hm, rfl⟩ := List.mem_filterMap.mp hid
      exact Nat.not_lt.mpr (he.range decl id hm).1 hlt
    identities := hidentities ▸ hb.identities
    binding := hb.types ▸ hidentities ▸ hb.binding }

lemma breakCycle_eq (name : Ident) (id : TypeNameId) (s : Analyzer) : (breakCycle name id s).2 =
    if s.typeTable.isCycle id then { s with
      errors := s.errors ++ [(.typeLoop name.name, name.span)]
      typeTable := s.typeTable.bind id .int }
    else s := by
  change ((if s.typeTable.isCycle id then (do
      report (.typeLoop name.name) name.span
      bindType id .int)
    else pure () : Analysis Unit) s).2 = _
  split <;> rfl

lemma breakCycles_induction {entered : Entries} {P : Entries → Analyzer → Prop}
    (hskip : ∀ done decl rest t, entered = done ++ (decl, none) :: rest → P done t → P (done ++ [(decl, none)]) t)
    (hstep : ∀ done decl id rest t, entered = done ++ (decl, some id) :: rest → P done t →
      P (done ++ [(decl, some id)]) (breakCycle decl.name id t).2)
    {s : Analyzer} (h : P [] s) : P entered (breakCycles entered s).2 := by
  have hrun : ∀ done rest t, entered = done ++ rest → P done t → P entered (breakCycles rest t).2 := by
    intro done rest
    induction rest generalizing done with
    | nil =>
      intro t he hp
      rw [List.append_nil] at he
      exact he ▸ hp
    | cons entry rest ih =>
      obtain ⟨decl, named⟩ := entry
      intro t he hp
      cases named with
      | none => exact ih (done ++ [(decl, none)]) t (by simp [he]) (hskip done decl rest t he hp)
      | some id => exact ih (done ++ [(decl, some id)]) _ (by simp [he]) (hstep done decl id rest t he hp)
  exact hrun [] entered s rfl h

structure Broken (done : Entries) (s t : Analyzer) : Prop where
  types : t.types = s.types
  size : t.typeTable.bindings.size = s.typeTable.bindings.size
  identities : t.typeTable.identities = s.typeTable.identities
  binding : ∀ id, t.typeTable.binding? id = s.typeTable.binding? id ∨
    (∃ decl, (decl, some id) ∈ done) ∧ t.typeTable.binding? id = some .int
  acyclic : ∀ decl id, (decl, some id) ∈ done → t.typeTable.isCycle id = false

namespace Broken

variable {done : Entries} {decl : TypeDecl} {id : TypeNameId} {s t : Analyzer}

lemma follows (h : Broken done s t) (first second : TypeNameId) (hf : t.typeTable.Follows first second) :
    s.typeTable.Follows first second := by
  obtain ⟨text, hb⟩ := TypeTable.next?_eq_some.mp hf
  rcases h.binding first with he | ⟨-, he⟩
  · exact TypeTable.next?_eq_some.mpr ⟨text, he ▸ hb⟩
  · rw [he] at hb
    cases hb

lemma skip (h : Broken done s t) : Broken (done ++ [(decl, none)]) s t where
  types := h.types
  size := h.size
  identities := h.identities
  binding id := (h.binding id).imp_right fun ⟨⟨other, hm⟩, hi⟩ => ⟨⟨other, List.mem_append_left _ hm⟩, hi⟩
  acyclic other id hm := h.acyclic other id (by simpa using hm)

lemma step (h : Broken done s t) : Broken (done ++ [(decl, some id)]) s (breakCycle decl.name id t).2 := by
  have hmem : ∀ other id', (other, some id') ∈ done ++ [(decl, some id)] →
      (other, some id') ∈ done ∨ id' = id := fun other id' hm => by
    rcases List.mem_append.mp hm with hm | hm
    · exact Or.inl hm
    · exact Or.inr (by simpa using (Prod.mk.inj (List.mem_singleton.mp hm)).2)
  have hfound : (decl, some id) ∈ done ++ [(decl, some id)] := by simp
  rw [breakCycle_eq]
  by_cases hc : t.typeTable.isCycle id = true
  · rw [if_pos hc]
    refine ⟨h.types, (Arena.size_set _ _ _).trans h.size, h.identities, fun other => ?_, fun other id' hm => ?_⟩
    · change (t.typeTable.bind id .int).binding? other = _ ∨ _ ∧ (t.typeTable.bind id .int).binding? other = _
      rw [TypeTable.binding?_bind]
      split
      · rename_i he
        exact Or.inr ⟨⟨decl, he.1 ▸ hfound⟩, rfl⟩
      · exact (h.binding other).imp_right fun ⟨⟨known, hm⟩, hi⟩ => ⟨⟨known, List.mem_append_left _ hm⟩, hi⟩
    · change (t.typeTable.bind id .int).isCycle id' = false
      by_cases he : id' = id
      · exact TypeTable.isCycle_eq_false (by rw [TypeTable.next?_bind_int, if_pos he])
      · have hkept := h.acyclic other id' ((hmem other id' hm).resolve_right he)
        refine TypeTable.isCycle_mono (fun first second hf => ?_) hkept
        change (t.typeTable.bind id .int).next? first = some second at hf
        rw [TypeTable.next?_bind_int] at hf
        split at hf
        · cases hf
        · exact hf
  · rw [if_neg hc]
    refine ⟨h.types, h.size, h.identities, fun other => ?_, fun other id' hm => ?_⟩
    · exact (h.binding other).imp_right fun ⟨⟨known, hm⟩, hi⟩ => ⟨⟨known, List.mem_append_left _ hm⟩, hi⟩
    · rcases hmem other id' hm with hm | rfl
      · exact h.acyclic other id' hm
      · exact Bool.eq_false_iff.mpr hc

end Broken

lemma broken_breakCycles (entered : Entries) (s : Analyzer) : Broken entered s (breakCycles entered s).2 :=
  breakCycles_induction (P := fun done t => Broken done s t) (fun _ _ _ _ _ h => h.skip) (fun _ _ _ _ _ _ h => h.step)
    ⟨rfl, rfl, rfl, fun _ => Or.inl rfl, fun _ _ hm => by cases hm⟩

end Analysis

end TigerMips
