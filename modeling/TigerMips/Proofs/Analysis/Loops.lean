import TigerMips.Proofs.Analysis.Settled

/-! Loops of type declarations. A group reports each cycle of aliases once, where its first declaration stands, and
after it every declared name stands for a type that is not a name. -/

open Relation

namespace TigerMips

namespace TypeDecl

variable {members before before' : List TypeDecl} {decl other : TypeDecl}

def FirstAfter (members before : List TypeDecl) (decl : TypeDecl) : Prop :=
  (∃ after, members = before ++ decl :: after) ∧ ∀ other ∈ before, other.name.name ≠ decl.name.name

def Aliases (members : List TypeDecl) (decl target : TypeDecl) : Prop :=
  (∃ before, FirstAfter members before target) ∧ ∃ name, decl.ty = .name name ∧ name.name = target.name.name

def LeadsCycle (members : List TypeDecl) (decl : TypeDecl) : Prop :=
  ∃ before, FirstAfter members before decl ∧ TransGen (Aliases members) decl decl ∧
    ∀ other ∈ before, ¬ TransGen (Aliases members) decl other

lemma split_cases {after after' : List TypeDecl} (h : before ++ decl :: after = before' ++ other :: after') :
    before = before' ∧ decl = other ∨ other ∈ before ∨ decl ∈ before' := by
  rcases List.append_eq_append_iff.mp h with ⟨rest, rfl, hr⟩ | ⟨rest, rfl, hr⟩ <;>
    cases rest <;> simp_all

lemma FirstAfter.unique (h : FirstAfter members before decl) (h' : FirstAfter members before' other)
    (hname : decl.name.name = other.name.name) : before = before' ∧ decl = other := by
  obtain ⟨after, hsplit⟩ := h.1
  obtain ⟨after', hsplit'⟩ := h'.1
  rcases split_cases (hsplit.symm.trans hsplit') with he | hm | hm
  · exact he
  · exact absurd hname.symm (h.2 other hm)
  · exact absurd hname (h'.2 decl hm)

lemma aliases_unique (members : List TypeDecl) : Relator.RightUnique (Aliases members) := by
  rintro decl first second ⟨⟨_, hfirst⟩, name, hty, hname⟩ ⟨⟨_, hsecond⟩, name', hty', hname'⟩
  obtain rfl := TypeExpr.name.inj (hty.symm.trans hty')
  exact (hfirst.unique hsecond (hname.symm.trans hname')).2

lemma exists_firstAfter (h : TransGen (Aliases members) decl other) : ∃ before, FirstAfter members before other := by
  cases h with
  | single ha => exact ha.1
  | tail _ ha => exact ha.1

lemma existsUnique_leadsCycle (h : TransGen (Aliases members) decl decl) :
    ∃! head, LeadsCycle members head ∧ TransGen (Aliases members) decl head := by
  classical
  have hback : ∀ {other}, TransGen (Aliases members) decl other → TransGen (Aliases members) other decl := fun ho =>
    (transGen_back (aliases_unique members) (fun _ _ => id) h ho.to_reflTransGen).1
  obtain ⟨_, ⟨_, hmembers⟩, -⟩ := exists_firstAfter h
  obtain ⟨head, hfind⟩ := Option.isSome_iff_exists.mp
    (List.find?_isSome (p := fun other => TransGen (Aliases members) decl other).mpr
      ⟨decl, hmembers ▸ List.mem_append_right _ List.mem_cons_self, decide_eq_true h⟩)
  obtain ⟨hfound, before, after, hsplit, hnot⟩ := List.find?_eq_some_iff_append.mp hfind
  have hhead : TransGen (Aliases members) decl head := of_decide_eq_true hfound
  replace hnot : ∀ other ∈ before, ¬ TransGen (Aliases members) decl other := fun other ho => by
    simpa using hnot other ho
  refine ⟨head, ⟨?_, hhead⟩, fun other ⟨⟨before', hfirst', _, hnot'⟩, hother⟩ => ?_⟩
  · obtain ⟨before', ⟨after', hsplit'⟩, hfirst⟩ := exists_firstAfter hhead
    obtain rfl : before = before' := by
      rcases split_cases (hsplit.symm.trans hsplit') with he | hm | hm
      · exact he.1
      · exact absurd hhead (hnot head hm)
      · exact absurd rfl (hfirst head hm)
    exact ⟨before, ⟨⟨after, hsplit⟩, hfirst⟩, (hback hhead).trans hhead, fun other ho ht =>
      hnot other ho (hhead.trans ht)⟩
  · obtain ⟨after', hsplit'⟩ := hfirst'.1
    rcases split_cases (hsplit.symm.trans hsplit') with he | hm | hm
    · exact he.2.symm
    · exact absurd hother (hnot other hm)
    · exact absurd ((hback hother).trans hhead) (hnot' head hm)

end TypeDecl

namespace Analysis

open TypeDecl
open TypeTable hiding maxChain

namespace Linked

variable {members before : List TypeDecl} {decl other : TypeDecl} {id next : TypeNameId} {s t : Analyzer}
  {entered : Entries}

lemma firstAfter (hl : Linked members s entered t) {done rest : Entries}
    (he : entered = done ++ (decl, some id) :: rest) : FirstAfter members (done.map Prod.fst) decl := by
  refine ⟨⟨rest.map Prod.fst, by rw [← hl.fst, he, List.map_append, List.map_cons]⟩, ?_⟩
  intro other ho
  obtain ⟨entry, hm, rfl⟩ := List.mem_map.mp ho
  exact ((hl.isSome_iff done decl (some id) rest he).mp rfl).2 entry hm

lemma exists_split (hl : Linked members s entered t) (h : FirstAfter members before decl) :
    ∃ done id rest, entered = done ++ (decl, some id) :: rest ∧ done.map Prod.fst = before := by
  obtain ⟨⟨after, he⟩, hnew⟩ := h
  obtain ⟨done, others, rfl, rfl, hothers⟩ := List.map_eq_append_iff.mp (hl.fst.trans he)
  obtain ⟨⟨_, named⟩, rest, rfl, rfl, -⟩ := List.map_eq_cons_iff.mp hothers
  have hsome : named.isSome := (hl.isSome_iff done _ named rest rfl).mpr
    ⟨List.not_mem_nil, fun entry hm => hnew entry.1 (List.mem_map_of_mem hm)⟩
  obtain ⟨id, rfl⟩ := Option.isSome_iff_exists.mp hsome
  exact ⟨done, id, rest, rfl, rfl⟩

lemma exists_mem (hl : Linked members s entered t) (h : FirstAfter members before decl) :
    ∃ id, (decl, some id) ∈ entered := by
  obtain ⟨done, id, rest, rfl, -⟩ := hl.exists_split h
  exact ⟨id, by simp⟩

lemma mem_done (hl : Linked members s entered t) {done rest : Entries} (he : entered = done ++ (decl, some id) :: rest)
    (ho : other ∈ done.map Prod.fst) (hn : (other, some next) ∈ entered) : (other, some next) ∈ done := by
  rcases List.mem_append.mp (he ▸ hn) with hm | hm
  · exact hm
  · rcases List.mem_cons.mp hm with heq | hm
    · exact absurd (congrArg (·.1.name.name) heq) ((hl.firstAfter he).2 other ho)
    · obtain ⟨between, after, rfl⟩ := List.append_of_mem hm
      have hfirst := hl.firstAfter
        (show entered = (done ++ (decl, some id) :: between) ++ (other, some next) :: after by simp [he])
      exact absurd rfl (hfirst.2 other (by rw [List.map_append]; exact List.mem_append_left _ ho))

lemma follows_iff (hl : Linked members s entered t) (hs : Settled s) (hd : (decl, some id) ∈ entered)
    (ho : (other, some next) ∈ entered) : t.typeTable.Follows id next ↔ Aliases members decl other := by
  constructor
  · intro hf
    rcases hl.follows_cases hs hd hf with hlt | ⟨target, name, hm, hty, hname⟩
    · exact absurd hlt (Nat.not_lt.mpr (hl.range other next ho).1)
    · obtain rfl := hl.eq_of_mem hm ho
      obtain ⟨done, rest, he⟩ := List.append_of_mem ho
      exact ⟨⟨_, hl.firstAfter he⟩, name, hty, hname⟩
  · rintro ⟨-, name, hty, hname⟩
    obtain ⟨identity, hb⟩ := hl.exists_binding hd
    refine next?_eq_some.mpr ⟨other.name.name, ?_⟩
    rw [hb, hty, TypeExpr.meaning, ScopeStack.typeNamed, hname, hl.named other next ho, Option.getD_some]

lemma transGen_cases (hl : Linked members s entered t) (hs : Settled s) (hd : (decl, some id) ∈ entered)
    (h : TransGen t.typeTable.Follows id next) : next.position < s.typeTable.bindings.size ∨
      ∃ other, (other, some next) ∈ entered ∧ TransGen (Aliases members) decl other := by
  induction h with
  | single hf =>
    rcases hl.follows_cases hs hd hf with hlt | ⟨other, _, hm, -⟩
    · exact Or.inl hlt
    · exact Or.inr ⟨other, hm, .single ((hl.follows_iff hs hd hm).mp hf)⟩
  | @tail passed next _ hf ih =>
    rcases ih with hlt | ⟨other, hm, ha⟩
    · exact Or.inl (hs.closed passed next ((hl.next?_old hlt).symm.trans hf))
    · rcases hl.follows_cases hs hm hf with hlt | ⟨target, _, ht, -⟩
      · exact Or.inl hlt
      · exact Or.inr ⟨target, ht, ha.tail ((hl.follows_iff hs hm ht).mp hf)⟩

lemma transGen_iff (hl : Linked members s entered t) (hs : Settled s) (hd : (decl, some id) ∈ entered)
    (ho : (other, some next) ∈ entered) :
    TransGen t.typeTable.Follows id next ↔ TransGen (Aliases members) decl other := by
  constructor
  · intro h
    rcases hl.transGen_cases hs hd h with hlt | ⟨target, hm, ha⟩
    · exact absurd hlt (Nat.not_lt.mpr (hl.range other next ho).1)
    · exact hl.eq_of_mem hm ho ▸ ha
  · intro h
    induction h generalizing next with
    | single ha => exact .single ((hl.follows_iff hs hd ho).mpr ha)
    | tail hpassed ha ih =>
      obtain ⟨_, hfirst⟩ := exists_firstAfter hpassed
      obtain ⟨passed, hm⟩ := hl.exists_mem hfirst
      exact (ih hm).tail ((hl.follows_iff hs hm ho).mpr ha)

end Linked

open Classical in
noncomputable def cycleHeads (members : List TypeDecl) (entered : Entries) : List TypeDecl :=
  (entered.filter fun entry => entry.2.isSome ∧ LeadsCycle members entry.1).map Prod.fst

lemma mem_cycleHeads {members : List TypeDecl} {entered : Entries} {decl : TypeDecl} :
    decl ∈ cycleHeads members entered ↔ LeadsCycle members decl ∧ ∃ id, (decl, some id) ∈ entered := by
  simp only [cycleHeads, List.mem_map, List.mem_filter, decide_eq_true_eq]
  constructor
  · rintro ⟨⟨decl, named⟩, ⟨hm, hsome, hlead⟩, rfl⟩
    obtain ⟨id, rfl⟩ := Option.isSome_iff_exists.mp hsome
    exact ⟨hlead, id, hm⟩
  · rintro ⟨hlead, id, hm⟩
    exact ⟨(decl, some id), ⟨hm, rfl, hlead⟩, rfl⟩

lemma cycleHeads_append (members : List TypeDecl) (first second : Entries) :
    cycleHeads members (first ++ second) = cycleHeads members first ++ cycleHeads members second := by
  simp only [cycleHeads, List.filter_append, List.map_append]

namespace Linked

variable {members : List TypeDecl} {s t : Analyzer} {entered : Entries}

lemma cycleHeads_sublist (hl : Linked members s entered t) : (cycleHeads members entered).Sublist members := by
  have hsub : (cycleHeads members entered).Sublist (entered.map Prod.fst) := List.filter_sublist.map Prod.fst
  rwa [hl.fst] at hsub

lemma nodup_cycleHeads (hl : Linked members s entered t) : (cycleHeads members entered).Nodup := by
  have hnodup := List.pairwise_filterMap.mp hl.nodup
  refine List.Nodup.map_on ?_ (List.pairwise_filter.mpr (hnodup.imp ?_))
  · rintro ⟨decl, named⟩ hm ⟨other, named'⟩ hm' rfl
    simp only [List.mem_filter, decide_eq_true_eq] at hm hm'
    obtain ⟨id, rfl⟩ := Option.isSome_iff_exists.mp hm.2.1
    obtain ⟨id', rfl⟩ := Option.isSome_iff_exists.mp hm'.2.1
    have hget := (hl.named decl id hm.1).symm.trans (hl.named decl id' hm'.1)
    obtain ⟨rfl, -⟩ := Ty.name.inj (Option.some.inj hget)
    rfl
  · rintro ⟨decl, named⟩ _ hne hsome - rfl
    simp only [decide_eq_true_eq] at hsome
    obtain ⟨id, rfl⟩ := Option.isSome_iff_exists.mp hsome.1
    exact hne id rfl id rfl rfl

end Linked

structure LoopsBroken (members : List TypeDecl) (done : Entries) (s t : Analyzer) : Prop extends Broken done s t where
  heads : ∀ decl id, (decl, some id) ∈ done → LeadsCycle members decl → t.typeTable.binding? id = some .int
  others : ∀ id, t.typeTable.binding? id = s.typeTable.binding? id ∨
    ∃ decl, (decl, some id) ∈ done ∧ LeadsCycle members decl
  errors : t.errors = s.errors ++
    (cycleHeads members done).map fun decl => (.typeLoop decl.name.name, decl.name.span)

namespace LoopsBroken

variable {members : List TypeDecl} {decl : TypeDecl} {id : TypeNameId} {s t u : Analyzer} {entered done rest : Entries}

lemma encard_reachable_le (h : LoopsBroken members done u t)
    (hsize : (u.typeTable.reachable id).encard ≤ TypeTable.maxChain) :
    (t.typeTable.reachable id).encard ≤ TypeTable.maxChain :=
  (Set.encard_le_encard (reachable_mono h.follows id)).trans hsize

lemma isCycle_iff (h : LoopsBroken members done u t) (hl : Linked members s entered u) (hs : Settled s)
    (hsize : ∀ decl id, (decl, some id) ∈ entered → (u.typeTable.reachable id).encard ≤ TypeTable.maxChain)
    (he : entered = done ++ (decl, some id) :: rest) : t.typeTable.isCycle id = true ↔ LeadsCycle members decl := by
  have hd : (decl, some id) ∈ entered := by simp [he]
  constructor
  · intro hc
    have hcycle := transGen_of_isCycle hc
    have hbefore : TransGen u.typeTable.Follows id id := TransGen.mono h.follows _ _ hcycle
    refine ⟨_, hl.firstAfter he, (hl.transGen_iff hs hd hd).mp hbefore, fun other ho ha => ?_⟩
    -- the cycle of an earlier declaration is broken, but this one would be on it
    obtain ⟨_, hfirst⟩ := exists_firstAfter ha
    obtain ⟨next, hm⟩ := hl.exists_mem hfirst
    have hreach : next ∈ u.typeTable.reachable id := ((hl.transGen_iff hs hd hm).mpr ha).to_reflTransGen
    obtain ⟨hback, hforth⟩ := transGen_back follows_unique h.follows hcycle hreach
    have hfound := isCycle_of_transGen (h.encard_reachable_le (hsize other next hm)) (.trans_left hback hforth)
    rw [h.acyclic other next (hl.mem_done he ho hm)] at hfound
    cases hfound
  · rintro ⟨before, hfirst, ha, hnot⟩
    obtain ⟨rfl, -⟩ := hfirst.unique (hl.firstAfter he) rfl
    have hcycle := (hl.transGen_iff hs hd hd).mpr ha
    -- nothing on the cycle has changed yet
    have hsame : ∀ other ∈ u.typeTable.reachable id, t.typeTable.next? other = u.typeTable.next? other := by
      intro other ho
      rcases h.others other with hsame | ⟨earlier, hm, -⟩
      · exact next?_congr hsame
      · have hearlier : (earlier, some other) ∈ entered := he ▸ List.mem_append_left _ hm
        have hlead := (hl.transGen_iff hs hd hearlier).mp (.trans_left hcycle ho)
        exact absurd hlead (hnot earlier (List.mem_map_of_mem hm))
    rw [isCycle_congr hsame]
    exact isCycle_of_transGen (hsize decl id hd) hcycle

lemma skip (h : LoopsBroken members done s t) : LoopsBroken members (done ++ [(decl, none)]) s t where
  toBroken := h.toBroken.skip
  heads other id hm := h.heads other id (by simpa using hm)
  others id := (h.others id).imp_right fun ⟨other, hm, hlead⟩ => ⟨other, List.mem_append_left _ hm, hlead⟩
  errors := by
    have hnone : cycleHeads members [(decl, none)] = [] := by simp [cycleHeads]
    rw [cycleHeads_append, hnone, List.append_nil, h.errors]

lemma step_of_leads (h : LoopsBroken members done u t) (hid : id.position < u.typeTable.bindings.size)
    (hc : t.typeTable.isCycle id = true) (hlead : LeadsCycle members decl) :
    LoopsBroken members (done ++ [(decl, some id)]) u (breakCycle decl.name id t).2 := by
  refine { h.toBroken.step with heads := fun other next hm hother => ?_, others := fun next => ?_, errors := ?_ } <;>
    rw [breakCycle_eq, if_pos hc]
  · change (t.typeTable.bind id .int).binding? next = some .int
    rw [binding?_bind]
    split
    · rfl
    · rename_i hne
      rcases List.mem_append.mp hm with hm | hm
      · exact h.heads other next hm hother
      · obtain ⟨-, hnext⟩ := Prod.mk.inj (List.mem_singleton.mp hm)
        exact absurd ⟨Option.some.inj hnext, h.size ▸ hid⟩ hne
  · change (t.typeTable.bind id .int).binding? next = _ ∨ _
    rw [binding?_bind]
    split
    · rename_i hsame
      exact Or.inr ⟨decl, by simp [hsame.1], hlead⟩
    · exact (h.others next).imp_right fun ⟨other, hm, hother⟩ => ⟨other, List.mem_append_left _ hm, hother⟩
  · have hsome : cycleHeads members [(decl, some id)] = [decl] := by simp [cycleHeads, hlead]
    change t.errors ++ _ = _
    rw [cycleHeads_append, hsome, List.map_append, ← List.append_assoc, h.errors]
    rfl

lemma step_of_not_leads (h : LoopsBroken members done u t) (hc : ¬ t.typeTable.isCycle id = true)
    (hlead : ¬ LeadsCycle members decl) :
    LoopsBroken members (done ++ [(decl, some id)]) u (breakCycle decl.name id t).2 := by
  refine { h.toBroken.step with heads := fun other next hm hother => ?_, others := fun next => ?_, errors := ?_ } <;>
    rw [breakCycle_eq, if_neg hc]
  · rcases List.mem_append.mp hm with hm | hm
    · exact h.heads other next hm hother
    · exact absurd ((Prod.mk.inj (List.mem_singleton.mp hm)).1 ▸ hother) hlead
  · exact (h.others next).imp_right fun ⟨other, hm, hother⟩ => ⟨other, List.mem_append_left _ hm, hother⟩
  · have hnone : cycleHeads members [(decl, some id)] = [] := by simp [cycleHeads, hlead]
    rw [cycleHeads_append, hnone, List.append_nil, h.errors]

end LoopsBroken

lemma loopsBroken_breakCycles {members : List TypeDecl} {s u : Analyzer} {entered : Entries}
    (hl : Linked members s entered u) (hs : Settled s)
    (hsize : ∀ decl id, (decl, some id) ∈ entered → (u.typeTable.reachable id).encard ≤ TypeTable.maxChain) :
    LoopsBroken members entered u (breakCycles entered u).2 := by
  refine breakCycles_induction (P := fun done t => LoopsBroken members done u t) (fun _ _ _ _ _ h => h.skip)
    (fun done decl id rest t he h => ?_) ?_
  · have hiff := h.isCycle_iff hl hs hsize he
    by_cases hc : t.typeTable.isCycle id = true
    · exact h.step_of_leads (hl.range decl id (by simp [he])).2 hc (hiff.mp hc)
    · exact h.step_of_not_leads hc fun hlead => hc (hiff.mpr hlead)
  · exact {
      types := rfl
      size := rfl
      identities := rfl
      binding := fun _ => Or.inl rfl
      acyclic := fun _ _ hm => by cases hm
      heads := fun _ _ hm => by cases hm
      others := fun _ => Or.inl rfl
      errors := (List.append_nil _).symm }

def Bounded (members : List TypeDecl) (s : Analyzer) : Prop :=
  ∀ decl ∈ members, ∀ id text, (linkTypes members s).2.types.get? decl.name.name = some (.name id text) →
    ((linkTypes members s).2.typeTable.reachable id).encard ≤ TypeTable.maxChain

lemma bounded_of_size_le {members : List TypeDecl} {s : Analyzer} (hs : Settled s)
    (h : (linkTypes members s).2.typeTable.bindings.size ≤ TypeTable.maxChain) : Bounded members s := by
  have hl := linked_linkTypes members s
  intro decl hm id text hget
  obtain ⟨first, id', hmem, hname⟩ := hl.exists_entry hm
  have hnamed := hl.named first id' hmem
  rw [hname, hget] at hnamed
  obtain ⟨rfl, -⟩ := Ty.name.inj (Option.some.inj hnamed)
  have hlt := encard_reachable_le (hl.range first id hmem).2 fun _ _ hf => hl.closed hs hf
  exact hlt.trans (Nat.cast_le.mpr h)

structure Resolves (members : List TypeDecl) (s t : Analyzer) : Prop where
  reports : ∃ others, ∃ heads : List TypeDecl,
    t.errors = s.errors ++ others ++ heads.map (fun decl => (.typeLoop decl.name.name, decl.name.span)) ∧
    OffLoops others ∧ heads.Nodup ∧ heads.Sublist members ∧ (∀ decl, decl ∈ heads ↔ LeadsCycle members decl) ∧
    ∀ decl, TransGen (Aliases members) decl decl → ∃! head, head ∈ heads ∧ TransGen (Aliases members) decl head
  binding : ∀ before decl, FirstAfter members before decl → ∃ id,
    t.types.get? decl.name.name = some (.name id decl.name.name) ∧
    (LeadsCycle members decl → t.typeTable.binding? id = some .int) ∧
    (¬ LeadsCycle members decl → t.typeTable.binding? id =
      some (decl.ty.meaning t.types (s.typeTable.identities + before.countP (·.ty.isNominal))))
  actual : ∀ decl ∈ members, ∃ id, t.types.get? decl.name.name = some (.name id decl.name.name) ∧
    ∀ other text, t.typeTable.actual (.name id decl.name.name) ≠ .name other text

/-- A group of type declarations reports each cycle of aliases once, at the first declaration on it, which then stands
for int. All other names keep the type of their first declaration, and no declared name stands for a name. -/
theorem resolves_typeGroup (members : List TypeDecl) {s : Analyzer} (hs : Settled s) (hbounded : Bounded members s) :
    Resolves members s (typeGroup members s).2 := by
  have hsettled := settled_typeGroup members hs
  have hl := linked_linkTypes members s
  rw [typeGroup_eq] at hsettled ⊢
  unfold Bounded at hbounded
  generalize linkTypes members s = run at hl hbounded hsettled ⊢
  obtain ⟨entered, u⟩ := run
  dsimp only at hl hbounded hsettled ⊢
  have hdeclared : ∀ {decl id}, (decl, some id) ∈ entered → decl ∈ members := fun hm =>
    hl.fst ▸ List.mem_map_of_mem hm
  have hsize : ∀ decl id, (decl, some id) ∈ entered → (u.typeTable.reachable id).encard ≤ TypeTable.maxChain :=
    fun decl id hm => hbounded decl (hdeclared hm) id _ (hl.named decl id hm)
  have hb := loopsBroken_breakCycles hl hs hsize
  generalize (breakCycles entered u).2 = t at hb hsettled ⊢
  refine ⟨?_, fun before decl hfirst => ?_, fun decl hm => ?_⟩
  · obtain ⟨others, hothers, hu⟩ := hl.errors
    have hheads : ∀ decl, decl ∈ cycleHeads members entered ↔ LeadsCycle members decl := fun decl => by
      rw [mem_cycleHeads, and_iff_left_iff_imp]
      exact fun ⟨_, hfirst, _⟩ => hl.exists_mem hfirst
    refine ⟨others, cycleHeads members entered, by rw [hb.errors, hu], hothers, hl.nodup_cycleHeads,
      hl.cycleHeads_sublist, hheads, fun decl hcycle => ?_⟩
    simpa only [hheads] using existsUnique_leadsCycle hcycle
  · obtain ⟨done, id, rest, he, rfl⟩ := hl.exists_split hfirst
    have hm : (decl, some id) ∈ entered := by simp [he]
    refine ⟨id, hb.types ▸ hl.named decl id hm, hb.heads decl id hm, fun hlead => ?_⟩
    rcases hb.others id with hsame | ⟨other, ho, hother⟩
    · rw [hsame, hl.binding done decl id rest he, hb.types, List.countP_map]
      rfl
    · exact absurd (hl.eq_of_mem ho hm ▸ hother) hlead
  · obtain ⟨first, id, hmem, hname⟩ := hl.exists_entry hm
    have hnamed := hl.named first id hmem
    rw [← hb.types, hname] at hnamed
    exact ⟨id, hnamed, hsettled.actual_ne_name (hb.size ▸ (hl.range first id hmem).2)
      (hb.encard_reachable_le (hsize first id hmem)) _⟩

def afterBlock : Analyzer := (lowerExpr (.letIn {} [.types [
  ⟨⟨"list", {}⟩, .record [(⟨"rest", {}⟩, ⟨"list", {}⟩)]⟩,
  ⟨⟨"queue", {}⟩, .name ⟨"list", {}⟩⟩]] []) Analyzer.initial).2

def loopingTypes : List TypeDecl := [
  ⟨⟨"tail", {}⟩, .name ⟨"even", {}⟩⟩,
  ⟨⟨"even", {}⟩, .name ⟨"odd", {}⟩⟩,
  ⟨⟨"odd", {}⟩, .name ⟨"even", {}⟩⟩,
  ⟨⟨"row", {}⟩, .array ⟨"cell", {}⟩⟩,
  ⟨⟨"even", {}⟩, .name ⟨"row", {}⟩⟩,
  ⟨⟨"self", {}⟩, .name ⟨"self", {}⟩⟩,
  ⟨⟨"cell", {}⟩, .record [(⟨"next", {}⟩, ⟨"tail", {}⟩), (⟨"cells", {}⟩, ⟨"row", {}⟩)]⟩]

theorem loopingTypes_resolves : Settled afterBlock ∧ Bounded loopingTypes afterBlock ∧
    Resolves loopingTypes afterBlock (typeGroup loopingTypes afterBlock).2 ∧
    (typeGroup loopingTypes afterBlock).2.errors.map (·.1.message) = [
      "even already defined in the same block",
      "Type declaration loop found on even; int assumed",
      "Type declaration loop found on self; int assumed"] := by
  have hsettled : Settled afterBlock := settled_lowerExpr _ _ settled_initial
  have hbounded : Bounded loopingTypes afterBlock := bounded_of_size_le hsettled (by decide +kernel)
  exact ⟨hsettled, hbounded, resolves_typeGroup loopingTypes hsettled hbounded, by decide +kernel⟩

end Analysis

end TigerMips
