import TigerMips.Proofs.Analysis.Faultless

/-! Which calls of a program bring all foreign names of the callee to the caller. -/

namespace TigerMips

def FunctionGroup.Inside (inner outer : FunctionGroup) : Prop := ∃ id ∈ inner.around, id ∈ outer.members

namespace Function.Table

lemma inherited_congr {functions functions' : Table} {call : Invocation}
    (h : functions'.get? call.callee = functions.get? call.callee) :
    functions'.inherited call = functions.inherited call := by
  unfold inherited
  rw [h]

/-- The calls of functions in `groups` are complete, but for those of functions in `changing` and
of functions in a group around the caller. -/
def Completed (functions : Table) (changing : List FunctionId) (groups : List FunctionGroup) : Prop :=
  ∀ inner ∈ groups, ∀ id ∈ inner.members, ∀ f, functions.get? id = some f → ∀ call ∈ f.invocations,
    call.callee ∉ changing → (∀ outer ∈ groups, call.callee ∈ outer.members → ¬ inner.Inside outer) →
    functions.Complete f call

end Function.Table

namespace Analyzer

def Outward (s : Analyzer) (caller callee : FunctionId) : Prop :=
  ∃ inner ∈ s.groups, ∃ outer ∈ s.groups, caller ∈ inner.members ∧ callee ∈ outer.members ∧ inner.Inside outer

structure Ranged (s : Analyzer) : Prop where
  enclosing : ∀ id ∈ s.enclosing, id.position < s.functions.size
  calls : ∀ id f, s.functions.get? id = some f → ∀ call ∈ f.invocations, call.callee.position < s.functions.size

/-- Functions that were there before are as they were, but for those in `changing`. The new ones
belong to groups with the property `P`, which have been closed. -/
structure Closes (changing : List FunctionId) (P : FunctionGroup → Prop) (s t : Analyzer) : Prop where
  enclosing : t.enclosing = s.enclosing
  size : s.functions.size ≤ t.functions.size
  unchanged : ∀ id, id.position < s.functions.size → id ∉ changing → t.functions.get? id = s.functions.get? id
  groups : ∃ groups, t.groups = s.groups ++ groups ∧ (∀ inner ∈ groups, P inner) ∧
    (∀ id : FunctionId, (∃ inner ∈ groups, id ∈ inner.members) ↔
      s.functions.size ≤ id.position ∧ id.position < t.functions.size) ∧
    t.functions.Completed changing groups

namespace Closes

variable {changing changing' : List FunctionId} {P Q : FunctionGroup → Prop} {s t u : Analyzer}

lemma mono (h : Closes changing P s t) (hc : changing ⊆ changing') (hp : ∀ inner, P inner → Q inner) :
    Closes changing' Q s t where
  enclosing := h.enclosing
  size := h.size
  unchanged id hlt hn := h.unchanged id hlt fun hm => hn (hc hm)
  groups := by
    obtain ⟨groups, hg, hall, hmem, hcomplete⟩ := h.groups
    exact ⟨groups, hg, fun inner hm => hp inner (hall inner hm), hmem, fun inner hm id hid f hf call hcall hn =>
      hcomplete inner hm id hid f hf call hcall fun hm => hn (hc hm)⟩

lemma of_groups_eq (he : t.enclosing = s.enclosing) (hs : t.functions.size = s.functions.size)
    (hu : ∀ id ∉ changing, t.functions.get? id = s.functions.get? id) (hg : t.groups = s.groups) :
    Closes changing P s t where
  enclosing := he
  size := hs.ge
  unchanged id _ := hu id
  groups := by
    refine ⟨[], by simp [hg], by simp, fun id => ?_, fun inner hm => nomatch hm⟩
    simp only [List.not_mem_nil, false_and, exists_false, false_iff]
    omega

lemma trans (hin : ∀ id ∈ changing, id.position < s.functions.size) (h : Closes changing P s t) (ht : t.Ranged)
    (h' : Closes changing P t u) : Closes changing P s u where
  enclosing := h'.enclosing.trans h.enclosing
  size := h.size.trans h'.size
  unchanged id hlt hn := (h'.unchanged id (hlt.trans_le h.size) hn).trans (h.unchanged id hlt hn)
  groups := by
    obtain ⟨groups, hg, hall, hmem, hcomplete⟩ := h.groups
    obtain ⟨later, hl, hall', hmem', hcomplete'⟩ := h'.groups
    have hsize := h.size
    have hsize' := h'.size
    refine ⟨groups ++ later, by rw [hl, hg, List.append_assoc], fun inner hm => ?_, fun id => ?_,
      fun inner hm id hid f hf call hcall hn ho => ?_⟩
    · exact (List.mem_append.mp hm).elim (hall inner) (hall' inner)
    · simp only [List.mem_append, or_and_right, exists_or, hmem, hmem']
      omega
    · rcases List.mem_append.mp hm with hm | hm
      · have hpos := (hmem id).mp ⟨inner, hm, hid⟩
        have hold : id ∉ changing := fun hc => absurd (hin id hc) (by omega)
        rw [h'.unchanged id hpos.2 hold] at hf
        unfold Function.Table.Complete
        rw [Function.Table.inherited_congr (h'.unchanged _ (ht.calls id f hf call hcall) hn)]
        exact hcomplete inner hm id hid f hf call hcall hn fun outer hm => ho outer (List.mem_append_left _ hm)
      · exact hcomplete' inner hm id hid f hf call hcall hn fun outer hm => ho outer (List.mem_append_right _ hm)

end Closes

def ClosesInside (s t : Analyzer) : Prop :=
  t.stray = false → s.stray = false ∧
    (s.Ranged → t.Ranged ∧ Closes s.enclosing (fun inner => s.enclosing ⊆ inner.around) s t)

structure Quiet (s t : Analyzer) : Prop where
  functions : t.functions = s.functions
  enclosing : t.enclosing = s.enclosing
  groups : t.groups = s.groups
  stray : t.stray = false → s.stray = false

instance : Std.Refl Quiet := ⟨fun _ => ⟨rfl, rfl, rfl, id⟩⟩

instance : IsTrans Analyzer Quiet where
  trans _ _ _ h h' := ⟨h'.functions.trans h.functions, h'.enclosing.trans h.enclosing, h'.groups.trans h.groups,
    h.stray ∘ h'.stray⟩

namespace Quiet

variable {s t : Analyzer}

lemma closes (h : Quiet s t) {changing : List FunctionId} {P : FunctionGroup → Prop} : Closes changing P s t :=
  .of_groups_eq h.enclosing (by rw [h.functions]) (fun _ _ => by rw [h.functions]) h.groups

lemma ranged (h : Quiet s t) (hs : s.Ranged) : t.Ranged :=
  ⟨by rw [h.enclosing, h.functions]; exact hs.enclosing, by rw [h.functions]; exact hs.calls⟩

lemma closesInside (h : Quiet s t) : ClosesInside s t := fun ht => ⟨h.stray ht, fun hs => ⟨h.ranged hs, h.closes⟩⟩

end Quiet

instance : Std.Refl ClosesInside := ⟨fun s => (refl_of Quiet s).closesInside⟩

instance : IsTrans Analyzer ClosesInside where
  trans s t u h h' hu := by
    obtain ⟨ht, hinside'⟩ := h' hu
    obtain ⟨hs, hinside⟩ := h ht
    refine ⟨hs, fun hr => ?_⟩
    obtain ⟨hrt, hst⟩ := hinside hr
    obtain ⟨hru, htu⟩ := hinside' hrt
    rw [hst.enclosing] at htu
    exact ⟨hru, hst.trans hr.enclosing hrt htu⟩

lemma closesInside_onFunction {s : Analyzer} {id : FunctionId} (hid : id ∈ s.enclosing) {f : Function → Function}
    (hf : s.stray = false → ∀ g, ∀ call ∈ (f g).invocations, call ∈ g.invocations ∨
      call.callee.position < s.functions.size) : ClosesInside s (s.onFunction id f) := by
  intro ht
  have hs : s.stray = false := (Bool.or_eq_false_iff.mp ht).1
  have hsize : (s.onFunction id f).functions.size = s.functions.size := s.functions.size_modify _ _
  refine ⟨hs, fun hr => ⟨⟨fun other hm => hsize ▸ hr.enclosing other hm, fun other g hg call hc => ?_⟩, ?_⟩⟩
  · rw [hsize]
    change (s.functions.modify id f).get? other = some g at hg
    rw [Arena.get?_modify] at hg
    split at hg
    · obtain ⟨g', hg', rfl⟩ := Option.map_eq_some_iff.mp hg
      exact (hf hs g' call hc).elim (hr.calls other g' hg' call) fun h => h
    · exact hr.calls other g hg call hc
  · refine .of_groups_eq rfl hsize (fun other hn => ?_) rfl
    have hne : other ≠ id := fun he => hn (he ▸ hid)
    exact (s.functions.get?_modify id other f).trans (if_neg hne)

lemma quiet_visit (s : Analyzer) (id : FunctionId) : Quiet s (s.visit id) :=
  ⟨rfl, rfl, rfl, fun h => (Bool.or_eq_false_iff.mp h).1⟩

structure Enters (ids : List FunctionId) (s t : Analyzer) : Prop where
  enclosing : t.enclosing = s.enclosing
  groups : t.groups = s.groups
  stray : t.stray = false → s.stray = false
  size : s.functions.size ≤ t.functions.size
  unchanged : ∀ id : FunctionId, id.position < s.functions.size → t.functions.get? id = s.functions.get? id
  members : ∀ id : FunctionId, id ∈ ids ↔ s.functions.size ≤ id.position ∧ id.position < t.functions.size
  calls : ∀ id ∈ ids, ∀ f, t.functions.get? id = some f → f.invocations = []

namespace Enters

variable {ids ids' : List FunctionId} {s t u : Analyzer}

lemma of_quiet (h : Quiet s t) : Enters [] s t where
  enclosing := h.enclosing
  groups := h.groups
  stray := h.stray
  size := by rw [h.functions]
  unchanged _ _ := by rw [h.functions]
  members id := by simp [h.functions]
  calls _ hm := nomatch hm

lemma trans (h : Enters ids s t) (h' : Enters ids' t u) : Enters (ids ++ ids') s u where
  enclosing := h'.enclosing.trans h.enclosing
  groups := h'.groups.trans h.groups
  stray := h.stray ∘ h'.stray
  size := h.size.trans h'.size
  unchanged id hlt := (h'.unchanged id (hlt.trans_le h.size)).trans (h.unchanged id hlt)
  members id := by
    have hsize := h.size
    have hsize' := h'.size
    simp only [List.mem_append, h.members, h'.members]
    omega
  calls id hm f hf := by
    rcases List.mem_append.mp hm with hm | hm
    · exact h.calls id hm f (h'.unchanged id ((h.members id).mp hm).2 ▸ hf)
    · exact h'.calls id hm f hf

lemma ranged (h : Enters ids s t) (hs : s.Ranged) : t.Ranged := by
  refine ⟨fun id hm => (hs.enclosing id (h.enclosing ▸ hm)).trans_le h.size, fun id f hf call hc => ?_⟩
  by_cases hold : id.position < s.functions.size
  · rw [h.unchanged id hold] at hf
    exact (hs.calls id f hf call hc).trans_le h.size
  · have hnew := (h.members id).mpr ⟨Nat.le_of_not_lt hold, t.functions.lt_size hf⟩
    simp [h.calls id hnew f hf] at hc

end Enters

def ClosesWithin (ids : List FunctionId) (s t : Analyzer) : Prop :=
  t.stray = false → s.stray = false ∧ (s.Ranged → (∀ id ∈ ids, id.position < s.functions.size) → t.Ranged ∧
    Closes (ids ++ s.enclosing) (fun inner => (∃ id ∈ ids, id ∈ inner.around) ∧ s.enclosing ⊆ inner.around) s t)

lemma Quiet.closesWithin {ids : List FunctionId} {s t : Analyzer} (h : Quiet s t) : ClosesWithin ids s t := fun ht =>
  ⟨h.stray ht, fun hs _ => ⟨h.ranged hs, h.closes⟩⟩

instance (ids : List FunctionId) : Std.Refl (ClosesWithin ids) := ⟨fun s => (refl_of Quiet s).closesWithin⟩

instance (ids : List FunctionId) : IsTrans Analyzer (ClosesWithin ids) where
  trans s t u h h' hu := by
    obtain ⟨ht, hwithin'⟩ := h' hu
    obtain ⟨hs, hwithin⟩ := h ht
    refine ⟨hs, fun hr hids => ?_⟩
    obtain ⟨hrt, hst⟩ := hwithin hr hids
    obtain ⟨hru, htu⟩ := hwithin' hrt fun id hm => (hids id hm).trans_le hst.size
    rw [hst.enclosing] at htu
    exact ⟨hru, hst.trans (fun id hm => (List.mem_append.mp hm).elim (hids id) (hr.enclosing id)) hrt htu⟩

lemma ClosesWithin.mono {ids ids' : List FunctionId} {s t : Analyzer} (hids : ids ⊆ ids') (h : ClosesWithin ids s t) :
    ClosesWithin ids' s t := fun ht => by
  obtain ⟨hs, hwithin⟩ := h ht
  refine ⟨hs, fun hr hlt => ?_⟩
  obtain ⟨hrt, hcloses⟩ := hwithin hr fun id hm => hlt id (hids hm)
  have hsub : ids ++ s.enclosing ⊆ ids' ++ s.enclosing := fun id hm => by
    simpa using (List.mem_append.mp hm).imp_left fun hm => hids hm
  exact ⟨hrt, hcloses.mono hsub fun inner ⟨⟨id, hm, ha⟩, he⟩ => ⟨⟨id, hids hm, ha⟩, he⟩⟩

end Analyzer

namespace Analysis

open Analyzer

variable {α : Type} {s t : Analyzer}

lemma Within.closesInside {m : Analysis α} (h : Within Quiet m) : Within ClosesInside m :=
  h.mono fun _ _ => Quiet.closesInside

lemma quiet_report (fault : Fault) (span : Span) : Within Quiet (report fault span) := fun _ => ⟨rfl, rfl, rfl, id⟩

lemma quiet_newTemp : Within Quiet newTemp := fun _ => ⟨rfl, rfl, rfl, fun h => (Bool.or_eq_false_iff.mp h).1⟩

lemma quiet_newLabel : Within Quiet newLabel := fun _ => ⟨rfl, rfl, rfl, id⟩

lemma quiet_putValue (name : String) (value : Value) : Within Quiet (putValue name value) :=
  fun _ => ⟨rfl, rfl, rfl, id⟩

lemma quiet_typeGroup (members : List TypeDecl) : Within Quiet (typeGroup members) := fun s => by
  obtain ⟨errors, types, table, ht, -⟩ := retypes_typeGroup members s
  rw [ht]
  exact ⟨rfl, rfl, rfl, id⟩

lemma quiet_noteEdge (entry : Option Entry) : Within Quiet (noteEdge entry) := fun s => by
  cases entry <;> exact ⟨rfl, rfl, rfl, id⟩

lemma closesInside_noteUse (name : String) : Within ClosesInside (noteUse name) := by
  refine .modify fun s => ?_
  split
  · rename_i id outer he
    split
    · exact closesInside_onFunction (he ▸ List.mem_cons_self) fun _ g call hc => Or.inl hc
    · exact refl_of ClosesInside s
  · exact refl_of ClosesInside s

lemma closesInside_noteCall (callee : FunctionId) : Within ClosesInside (noteCall callee) := by
  refine .modify fun s => ?_
  have hvisit := (quiet_visit s callee).closesInside
  split
  · rename_i id outer he
    refine trans_of ClosesInside hvisit (closesInside_onFunction (he ▸ List.mem_cons_self) fun hs g call hc => ?_)
    have hlt : callee.position < s.functions.size := by
      simpa [visit, Arena.has] using (Bool.or_eq_false_iff.mp hs).2
    rcases List.mem_append.mp hc with hc | hc
    · exact Or.inl hc
    · obtain rfl := List.mem_singleton.mp hc
      exact Or.inr hlt
  · exact hvisit

lemma closesInside_inLoop (exit : Label) {body : Analysis Lowered} (hb : Within ClosesInside body) :
    Within ClosesInside (inLoop exit body) := by
  have hpush : Within Quiet (pushExit (some exit)) := fun _ => ⟨rfl, rfl, rfl, id⟩
  have hpop : Within Quiet popExit := fun _ => ⟨rfl, rfl, rfl, id⟩
  exact hpush.closesInside.bind fun _ => hb.bind fun _ => hpop.closesInside.bind fun _ => .pure _

lemma quiet_openValues : Within Quiet openValues := fun _ => ⟨rfl, rfl, rfl, id⟩

lemma quiet_closeValues : Within Quiet closeValues := fun _ => ⟨rfl, rfl, rfl, id⟩

lemma closesInside_forBody (counter : Ident) (place : Temp) (exit : Label) {body : Part}
    (hb : Within ClosesInside body.lower) : Within ClosesInside (forBody counter place exit body) :=
  quiet_openValues.closesInside.bind fun _ => (quiet_putValue _ _).closesInside.bind fun _ =>
    (closesInside_inLoop exit hb).bind fun _ => (within_checkType quiet_report _ _ _).closesInside.bind fun _ =>
    quiet_closeValues.closesInside.bind fun _ => .pure _

lemma closesInside_letIn {declarations : Analysis (List Code)} {body : Analysis Lowered}
    (hd : Within ClosesInside declarations) (hb : Within ClosesInside body) :
    Within ClosesInside (letIn declarations body) := by
  have hopen : Within Quiet openTypes := fun _ => ⟨rfl, rfl, rfl, id⟩
  have hclose : Within Quiet closeTypes := fun _ => ⟨rfl, rfl, rfl, id⟩
  exact quiet_openValues.closesInside.bind fun _ => hopen.closesInside.bind fun _ => hd.bind fun _ => hb.bind fun _ =>
    quiet_closeValues.closesInside.bind fun _ => hclose.closesInside.bind fun _ => .pure _

lemma stepwise_closesInside : Stepwise ClosesInside ClosesInside where
  report fault span := (quiet_report fault span).closesInside
  newLabel := quiet_newLabel.closesInside
  newTemp := quiet_newTemp.closesInside
  useRuntime _ _ := Quiet.closesInside ⟨rfl, rfl, rfl, id⟩
  internString _ _ := Quiet.closesInside ⟨rfl, rfl, rfl, id⟩
  newIdentity _ _ := Quiet.closesInside ⟨rfl, rfl, rfl, id⟩
  noteUse := closesInside_noteUse
  noteCall := closesInside_noteCall
  noteEdge entry := (quiet_noteEdge entry).closesInside
  inLoop exit _ := closesInside_inLoop exit
  forBody counter place exit _ := closesInside_forBody counter place exit
  letIn := closesInside_letIn
  declares h := h
  putValue name value := (quiet_putValue name value).closesInside
  typeGroup members := (quiet_typeGroup members).closesInside

lemma enters_declareFunction {decl : FunctionDecl} {declared : Declared} (h : declareFunction decl s = (declared, t)) :
    Enters [declared.id] s t := by
  obtain ⟨result, s₁, typed, s₂, params, hr, htyped, -, rfl, rfl⟩ := declareFunction_eq h
  have hquiet := trans_of Quiet ((within_resultType quiet_report _).apply hr)
    ((within_typedNames quiet_report _).apply htyped)
  refine (Enters.of_quiet hquiet).trans ⟨rfl, rfl, id, ?_, fun id hlt => ?_, fun id => ?_, fun id hm f hf => ?_⟩
  · simp
  · have hne : id ≠ s₂.functions.next := fun he => Nat.lt_irrefl _ (he ▸ hlt)
    exact (Arena.get?_push _ _ _).trans (if_neg hne)
  · obtain ⟨position⟩ := id
    simp only [declaredAs, Arena.next, List.mem_singleton, Index.mk.injEq, Arena.size_push]
    omega
  · obtain rfl := List.mem_singleton.mp hm
    obtain rfl := Option.some.inj (((Arena.get?_push _ _ _).trans (if_pos rfl)).symm.trans hf)
    rfl

lemma enters_declareFunctions {seen : List String} {members : List FunctionDecl} {declared : List Declared}
    (h : declareFunctions seen members s = (declared, t)) : Enters (declared.map Declared.id) s t := by
  induction members generalizing seen s t declared with
  | nil =>
    obtain ⟨rfl, rfl⟩ := pure_eq.mp h
    exact .of_quiet (refl_of Quiet _)
  | cons decl rest ih =>
    obtain ⟨first, s₁, hfirst, r₁⟩ := bind_eq.mp h
    obtain ⟨_, s₂, hname, r₂⟩ := bind_eq.mp r₁
    obtain ⟨others, s₃, hothers, r₃⟩ := bind_eq.mp r₂
    obtain ⟨rfl, rfl⟩ := pure_eq.mp r₃
    have hquiet : Within Quiet (enterName seen decl.name first) := by
      unfold enterName
      split
      · exact quiet_report _ _
      · exact quiet_putValue _ _
    exact (enters_declareFunction hfirst).trans ((Enters.of_quiet (hquiet.apply hname)).trans (ih hothers))

lemma closesWithin_inFunction (declared : Declared) {body : Analysis Lowered} (hb : Within ClosesInside body) :
    Within (ClosesWithin [declared.id]) (inFunction declared body) := by
  intro s ht
  obtain ⟨hstray, hinside⟩ := hb (enterFunction declared s).2 ht
  obtain ⟨hs, hid⟩ := Bool.or_eq_false_iff.mp hstray
  refine ⟨hs, fun hr _ => ?_⟩
  have hlt : declared.id.position < s.functions.size := by simpa [Arena.has] using hid
  obtain ⟨⟨_, hcalls⟩, hcloses⟩ :=
    hinside ⟨fun id hm => (List.mem_cons.mp hm).elim (fun he => he ▸ hlt) (hr.enclosing id), hr.calls⟩
  have hback : (inFunction declared body s).2.enclosing = s.enclosing := congrArg List.tail hcloses.enclosing
  refine ⟨⟨fun id hm => ?_, hcalls⟩, hback, hcloses.size, hcloses.unchanged, ?_⟩
  · exact (hr.enclosing id (hback ▸ hm)).trans_le hcloses.size
  · obtain ⟨groups, hg, hall, hrest⟩ := hcloses.groups
    exact ⟨groups, hg, fun inner hm => ⟨⟨_, List.mem_singleton_self _, hall inner hm List.mem_cons_self⟩,
      fun id hid => hall inner hm (List.mem_cons_of_mem _ hid)⟩, hrest⟩

lemma closesWithin_functionBody (declared : Declared) {body : Part} (hb : Within ClosesInside body.lower) :
    Within (ClosesWithin [declared.id]) (functionBody declared body) := by
  refine (closesWithin_inFunction declared hb).bind fun inside =>
    ((within_checkType quiet_report _ _ _).mono fun _ _ => Quiet.closesWithin).bind fun _ =>
    within_hasError.bind fun failed => ?_
  split <;> exact .pure _

lemma closesInside_closeForeigns {ids : List FunctionId} {s₁ s₂ s₃ : Analyzer} {u : Unit} (henters : Enters ids s s₁)
    (hbodies : ClosesWithin ids s₁ s₂) (h : closeForeigns ids s₂ = (u, s₃)) : ClosesInside s s₃ := by
  obtain rfl := congrArg Prod.snd h
  intro ht
  obtain ⟨hstray₁, hwithin⟩ := hbodies (Bool.or_eq_false_iff.mp ht).1
  refine ⟨henters.stray hstray₁, fun hr => ?_⟩
  obtain ⟨hr₂, hcloses⟩ := hwithin (henters.ranged hr) fun id hm => ((henters.members id).mp hm).2
  obtain ⟨hclosing, hclosed⟩ := s₂.functions.closeForeigns_closed ids
  obtain ⟨groups, hg, hall, hmem, hcomplete⟩ := hcloses.groups
  have hsize : (closeForeigns ids s₂).2.functions.size = s₂.functions.size := hclosing.size
  have henclosing : s₂.enclosing = s.enclosing := hcloses.enclosing.trans henters.enclosing
  have hle := henters.size
  have hle' := hcloses.size
  have hcalls : ∀ id f, (closeForeigns ids s₂).2.functions.get? id = some f →
      ∃ g, s₂.functions.get? id = some g ∧ f.invocations = g.invocations := fun id f hf => by
    obtain ⟨g, hg⟩ := s₂.functions.exists_get?.mpr (hsize ▸ Arena.lt_size _ hf)
    obtain ⟨_, hf', added, rfl, -⟩ := hclosing.adds id g hg
    obtain rfl := Option.some.inj (hf'.symm.trans hf)
    exact ⟨g, hg, rfl⟩
  refine ⟨⟨fun id hm => hsize ▸ hr₂.enclosing id hm, fun id f hf call hc => ?_⟩, henclosing, ?_, fun id hlt hn => ?_,
    groups ++ [⟨ids, s₂.enclosing⟩], ?_, fun inner hm => ?_, fun id => ?_, fun inner hm id hid f hf call hc hn ho => ?_⟩
  · obtain ⟨g, hg, he⟩ := hcalls id f hf
    exact hsize ▸ hr₂.calls id g hg call (he ▸ hc)
  · omega
  · have hnew : id ∉ ids := fun hm => absurd ((henters.members id).mp hm).1 (by omega)
    rw [← henters.unchanged id hlt, ← hcloses.unchanged id (by omega) (by simp [hnew, henters.enclosing, hn])]
    exact hclosing.others id hnew
  · change s₂.groups ++ _ = _
    rw [hg, henters.groups, List.append_assoc]
  · rcases List.mem_append.mp hm with hm | hm
    · exact henters.enclosing ▸ (hall inner hm).2
    · obtain rfl := List.mem_singleton.mp hm
      exact henclosing ▸ List.Subset.refl _
  · have hown := henters.members id
    have hinner := hmem id
    simp only [List.mem_append, List.mem_singleton, or_and_right, exists_or, exists_eq_left, hinner, hown, hsize]
    omega
  · rcases List.mem_append.mp hm with hm | hm
    · obtain ⟨⟨around, ha, hin⟩, -⟩ := hall inner hm
      have hcallee : call.callee ∉ ids := fun hi => ho ⟨ids, s₂.enclosing⟩ (by simp) hi ⟨around, hin, ha⟩
      have hnew : id ∉ ids := fun hi => by
        have hbefore := ((henters.members id).mp hi).2
        have hafter := ((hmem id).mp ⟨inner, hm, hid⟩).1
        omega
      have hf₂ : s₂.functions.get? id = some f := (hclosing.others id hnew).symm.trans hf
      have hcompleted := hcomplete inner hm id hid f hf₂ call hc (by simp [hcallee, henters.enclosing, hn])
        fun outer hm' => ho outer (List.mem_append_left _ hm')
      change (s₂.functions.closeForeigns ids).1.Complete f call
      unfold Function.Table.Complete at hcompleted ⊢
      rwa [Function.Table.inherited_congr (hclosing.others _ hcallee)]
    · obtain rfl := List.mem_singleton.mp hm
      exact hclosed id hid f hf call hc

lemma closesInside_functionGroup (members : List FunctionDecl) {bodies : List Declared → Analysis (List Code)}
    (hb : ∀ declared, Within (ClosesWithin (declared.map Declared.id)) (bodies declared)) :
    Within ClosesInside (functionGroup members bodies) := by
  intro s
  cases hrun : functionGroup members bodies s with
  | mk code t =>
    obtain ⟨declared, s₁, hdeclared, r₁⟩ := bind_eq.mp hrun
    obtain ⟨inside, s₂, hinside, r₂⟩ := bind_eq.mp r₁
    obtain ⟨_, s₃, hclose, r₃⟩ := bind_eq.mp r₂
    have hgroup := closesInside_closeForeigns (enters_declareFunctions hdeclared) ((hb declared).apply hinside) hclose
    obtain ⟨failed, _, hfailed, r₄⟩ := bind_eq.mp r₃
    obtain ⟨rfl, rfl⟩ := Prod.mk.inj hfailed
    split at r₄
    · obtain ⟨-, rfl⟩ := pure_eq.mp r₄
      exact hgroup
    · have hquiet := (quiet_newLabel.bind fun _ => within_currentFrame.bind fun _ => .pure _).apply r₄
      exact trans_of ClosesInside hgroup hquiet.closesInside

lemma compositional_closesInside : Compositional (Within ClosesInside) (fun _ => Within ClosesInside)
    (fun _ _ => Within ClosesInside) (fun _ _ _ _ => Within ClosesInside) (Within ClosesInside) (Within ClosesInside)
    (fun _ declared => Within (ClosesWithin (declared.map Declared.id))) := by
  refine stepwise_closesInside.compositional (fun members _ => closesInside_functionGroup members)
    (fun _ _ _ => .pure _) fun _ declared others body rest hb hr => ?_
  have hfirst : Within (ClosesWithin ((declared :: others).map Declared.id)) (functionBody declared body) :=
    (closesWithin_functionBody declared hb).mono fun _ _ h => h.mono (by simp)
  have hrest : Within (ClosesWithin ((declared :: others).map Declared.id)) rest :=
    hr.mono fun _ _ h => h.mono (by simp)
  exact hfirst.bind fun _ => hrest.bind fun _ => .pure _

end Analysis

open Analyzer in
lemma closes_lowerExpr (expression : Expr) :
    Closes [] (fun _ => True) initial (Analysis.lowerExpr expression initial).2 := by
  have hranged : initial.Ranged := by
    refine ⟨fun id hm => (by cases hm), fun id f hf call hc => ?_⟩
    obtain ⟨function, -, rfl⟩ := Runtime.get?_table hf
    cases hc
  obtain ⟨-, hcloses⟩ := Analysis.compositional_closesInside.lowerExpr expression initial
    (Analysis.sound_lowerExpr expression).intact
  exact (hcloses hranged).2.mono (List.nil_subset _) fun _ _ => trivial

lemma complete_of_not_outward {expression : Expr} {id : FunctionId} {f : Function} {call : Invocation}
    (hf : (analyze expression).2.functions.get? id = some f) (hc : call ∈ f.invocations)
    (hout : ¬ (Analysis.lowerExpr expression Analyzer.initial).2.Outward id call.callee) :
    (analyze expression).2.functions.Complete f call := by
  obtain ⟨groups, hgroups, -, hmembers, hcomplete⟩ := (closes_lowerExpr expression).groups
  by_cases hruntime : id.position < Analyzer.initial.functions.size
  · have hold := (closes_lowerExpr expression).unchanged id hruntime (by simp)
    obtain ⟨function, -, rfl⟩ := Runtime.get?_table (hold.symm.trans hf)
    cases hc
  · obtain ⟨inner, hm, hid⟩ := (hmembers id).mpr ⟨Nat.le_of_not_lt hruntime, Arena.lt_size _ hf⟩
    refine hcomplete inner hm id hid f hf call hc (by simp) fun outer ho hcallee hinside => hout ?_
    rw [Analyzer.Outward, hgroups]
    exact ⟨inner, List.mem_append_right _ hm, outer, List.mem_append_right _ ho, hid, hcallee, hinside⟩

/-- All calls of a program bring the foreign names of the callee to the caller if and only if those do that lead out of
the group of the caller, into a group around it. -/
theorem complete_iff_complete_outward (expression : Expr) :
    (∀ id f, (analyze expression).2.functions.get? id = some f → ∀ call ∈ f.invocations,
      (analyze expression).2.functions.Complete f call) ↔
    ∀ id f, (analyze expression).2.functions.get? id = some f → ∀ call ∈ f.invocations,
      (Analysis.lowerExpr expression Analyzer.initial).2.Outward id call.callee →
      (analyze expression).2.functions.Complete f call := by
  refine ⟨fun h id f hf call hc _ => h id f hf call hc, fun h id f hf call hc => ?_⟩
  by_cases hout : (Analysis.lowerExpr expression Analyzer.initial).2.Outward id call.callee
  · exact h id f hf call hc hout
  · exact complete_of_not_outward hf hc hout

def laterMember : Expr :=
  .letIn {} [
    .var { name := "x" } none (.int {} 1),
    .functions [
      .mk { name := "f" } [] none (.letIn {}
        [.functions [.mk { name := "h" } [] none (.call {} { name := "g" } [])]]
        [.call {} { name := "h" } []]),
      .mk { name := "g" } [] none (.assign {} (.var {} { name := "x" }) (.int {} 2))]]
    [.call {} { name := "f" } []]

theorem laterMember_incomplete : (analyze laterMember).1 = [] ∧
    ∃ f call, (analyze laterMember).2.functions.get? ⟨13⟩ = some f ∧ call ∈ f.invocations ∧
      ¬ (analyze laterMember).2.functions.Complete f call := by
  have hmissing : ((analyze laterMember).2.functions.get? ⟨13⟩).any (fun f => f.invocations.any fun call =>
      !decide ((analyze laterMember).2.functions.Complete f call)) = true := by decide +kernel
  cases hf : (analyze laterMember).2.functions.get? ⟨13⟩ with
  | none => simp [hf] at hmissing
  | some f =>
    rw [hf, Option.any_some] at hmissing
    obtain ⟨call, hc, hn⟩ := List.any_eq_true.mp hmissing
    exact ⟨List.isEmpty_iff.mp (by decide +kernel), f, call, rfl, hc, by simpa using hn⟩

end TigerMips
