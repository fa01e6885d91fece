import TigerMips.Proofs.Analysis.Invariant
import TigerMips.Proofs.Analysis.TypeGroup

/-! In every state of an analysis the names of types are bound, and none is bound to itself through names. -/

namespace TigerMips.Analysis

structure Settled (s : Analyzer) : Prop where
  scopes : ∀ name id text, s.types.Binds name (.name id text) → id.position < s.typeTable.bindings.size
  bound : ∀ id : TypeNameId, id.position < s.typeTable.bindings.size → (s.typeTable.binding? id).isSome
  closed : ∀ first second, s.typeTable.Follows first second → second.position < s.typeTable.bindings.size
  acyclic : ∀ id, s.typeTable.isCycle id = false

namespace Linked

variable {members : List TypeDecl} {s t : Analyzer} {entered : Entries}

lemma eq_of_mem (hl : Linked members s entered t) {first second : TypeDecl} {id : TypeNameId}
    (h : (first, some id) ∈ entered) (h' : (second, some id) ∈ entered) : first = second := by
  obtain ⟨before, after, he⟩ := List.append_of_mem h
  have hnodup : (before.filterMap Prod.snd ++ id :: after.filterMap Prod.snd).Nodup := by
    have hnodup := hl.nodup
    rwa [he, List.filterMap_append] at hnodup
  rw [List.nodup_middle, List.nodup_cons] at hnodup
  rw [he] at h'
  rcases List.mem_append.mp h' with hm | hm
  · exact (hnodup.1 (List.mem_append_left _ (List.mem_filterMap.mpr ⟨_, hm, rfl⟩))).elim
  · rcases List.mem_cons.mp hm with he | hm
    · exact (Prod.mk.inj he).1.symm
    · exact (hnodup.1 (List.mem_append_right _ (List.mem_filterMap.mpr ⟨_, hm, rfl⟩))).elim

lemma exists_entry (hl : Linked members s entered t) {decl : TypeDecl} (h : decl ∈ members) :
    ∃ first id, (first, some id) ∈ entered ∧ first.name.name = decl.name.name := by
  obtain ⟨entry, hm, rfl⟩ := List.mem_map.mp (hl.fst ▸ h)
  obtain ⟨⟨first, named⟩, hfind⟩ := Option.isSome_iff_exists.mp
    (List.find?_isSome (p := fun other => other.1.name.name = entry.1.name.name).mpr ⟨entry, hm, decide_eq_true rfl⟩)
  obtain ⟨hfound, before, after, he, hbefore⟩ := List.find?_eq_some_iff_append.mp hfind
  have hname : first.name.name = entry.1.name.name := of_decide_eq_true hfound
  have hsome : named.isSome := (hl.isSome_iff before first named after he).mpr
    ⟨List.not_mem_nil, fun other ho hn => by simpa [hn, hname] using hbefore other ho⟩
  obtain ⟨id, rfl⟩ := Option.isSome_iff_exists.mp hsome
  exact ⟨first, id, he ▸ List.mem_append_right _ List.mem_cons_self, hname⟩

lemma exists_binding (hl : Linked members s entered t) {decl : TypeDecl} {id : TypeNameId}
    (h : (decl, some id) ∈ entered) :
    ∃ identity, t.typeTable.binding? id = some (decl.ty.meaning t.types identity) := by
  obtain ⟨before, after, he⟩ := List.append_of_mem h
  exact ⟨_, hl.binding before decl id after he⟩

lemma follows_cases (hl : Linked members s entered t) (hs : Settled s) {decl : TypeDecl} {id next : TypeNameId}
    (h : (decl, some id) ∈ entered) (hf : t.typeTable.Follows id next) :
    next.position < s.typeTable.bindings.size ∨
      ∃ other name, (other, some next) ∈ entered ∧ decl.ty = .name name ∧ name.name = other.name.name := by
  obtain ⟨identity, hb⟩ := hl.exists_binding h
  obtain ⟨text, hb'⟩ := TypeTable.next?_eq_some.mp hf
  have hty := Option.some.inj (hb.symm.trans hb')
  cases ht : decl.ty with
  | array element => simp [ht, TypeExpr.meaning] at hty
  | record fields => simp [ht, TypeExpr.meaning] at hty
  | name name =>
    rw [ht] at hty
    have hget : t.types.get? name.name = some (.name next text) := by
      change (t.types.get? name.name).getD .int = _ at hty
      cases hfound : t.types.get? name.name with
      | none =>
        rw [hfound] at hty
        cases hty
      | some found =>
        rw [hfound] at hty
        exact congrArg some hty
    by_cases hdeclared : ∃ other ∈ members, other.name.name = name.name
    · obtain ⟨other, hm, hn⟩ := hdeclared
      obtain ⟨first, id', hfirst, hname⟩ := hl.exists_entry hm
      have hsame := hl.named first id' hfirst
      rw [hname, hn, hget] at hsame
      obtain ⟨rfl, -⟩ := Ty.name.inj (Option.some.inj hsame)
      exact Or.inr ⟨first, name, hfirst, rfl, (hname.trans hn).symm⟩
    · rw [hl.outside name.name fun other hm hn => absurd ⟨other, hm, hn⟩ hdeclared] at hget
      exact Or.inl (hs.scopes _ _ _ (ScopeStack.binds_of_get? hget))

lemma next?_old (hl : Linked members s entered t) {id : TypeNameId} (h : id.position < s.typeTable.bindings.size) :
    t.typeTable.next? id = s.typeTable.next? id :=
  TypeTable.next?_congr (hl.old id h)

lemma bound (hl : Linked members s entered t) (hs : Settled s) {id : TypeNameId}
    (h : id.position < t.typeTable.bindings.size) : (t.typeTable.binding? id).isSome := by
  by_cases hold : id.position < s.typeTable.bindings.size
  · exact hl.old id hold ▸ hs.bound id hold
  · obtain ⟨decl, hm⟩ := hl.cover id (Nat.le_of_not_lt hold) h
    obtain ⟨_, hb⟩ := hl.exists_binding hm
    rw [hb]
    rfl

lemma closed (hl : Linked members s entered t) (hs : Settled s) {id next : TypeNameId}
    (h : t.typeTable.Follows id next) : next.position < t.typeTable.bindings.size := by
  by_cases hold : id.position < s.typeTable.bindings.size
  · exact (hs.closed id next ((hl.next?_old hold).symm.trans h)).trans_le hl.grows
  · obtain ⟨decl, hm⟩ := hl.cover id (Nat.le_of_not_lt hold) (TypeTable.lt_size_of_follows h)
    rcases hl.follows_cases hs hm h with hlt | ⟨other, _, ho, -⟩
    · exact hlt.trans_le hl.grows
    · exact (hl.range other next ho).2

end Linked

lemma Settled.of_same {s t : Analyzer} (h : Settled s) (htypes : t.types = s.types)
    (hbindings : t.typeTable.bindings = s.typeTable.bindings) : Settled t := by
  have hbinding : ∀ id, t.typeTable.binding? id = s.typeTable.binding? id := fun id => by
    unfold TypeTable.binding?
    rw [hbindings]
  have hnext : ∀ id, t.typeTable.next? id = s.typeTable.next? id := fun id => TypeTable.next?_congr (hbinding id)
  refine ⟨?_, fun id hlt => ?_, fun first second hf => ?_, fun id => ?_⟩
  · rw [htypes, hbindings]
    exact h.scopes
  · rw [hbindings] at hlt
    exact hbinding id ▸ h.bound id hlt
  · rw [hbindings]
    exact h.closed first second ((hnext first).symm.trans hf)
  · exact (TypeTable.isCycle_congr fun other _ => hnext other).trans (h.acyclic id)

namespace Linked

variable {members : List TypeDecl} {s t u : Analyzer} {entered : Entries}

lemma binding?_broken (hl : Linked members s entered u) (hb : Broken entered u t) {id : TypeNameId}
    (h : id.position < s.typeTable.bindings.size) : t.typeTable.binding? id = s.typeTable.binding? id := by
  rcases hb.binding id with he | ⟨⟨decl, hm⟩, -⟩
  · exact he.trans (hl.old id h)
  · exact absurd h (Nat.not_lt.mpr (hl.range decl id hm).1)

lemma isCycle_broken (hl : Linked members s entered u) (hs : Settled s) (hb : Broken entered u t) (id : TypeNameId) :
    t.typeTable.isCycle id = false := by
  by_cases hold : id.position < s.typeTable.bindings.size
  · -- from a name that was there before, only such names are reached
    refine (TypeTable.isCycle_congr fun other ho => ?_).trans (hs.acyclic id)
    refine TypeTable.next?_congr (hl.binding?_broken hb ?_)
    cases ho with
    | refl => exact hold
    | tail _ hf => exact hs.closed _ _ hf
  · by_cases hlt : id.position < u.typeTable.bindings.size
    · obtain ⟨decl, hm⟩ := hl.cover id (Nat.le_of_not_lt hold) hlt
      exact hb.acyclic decl id hm
    · refine TypeTable.isCycle_eq_false (Option.eq_none_iff_forall_ne_some.mpr fun next hf => hlt ?_)
      exact hb.size ▸ TypeTable.lt_size_of_follows hf

end Linked

lemma settled_typeGroup (members : List TypeDecl) {s : Analyzer} (hs : Settled s) :
    Settled (typeGroup members s).2 := by
  have hl := linked_linkTypes members s
  have hb := broken_breakCycles (linkTypes members s).1 (linkTypes members s).2
  rw [← typeGroup_eq] at hb
  refine ⟨fun name id text hn => ?_, fun id hlt => ?_, fun first second hf => ?_, hl.isCycle_broken hs hb⟩
  · rw [hb.size]
    rcases hl.scopes name _ (hb.types ▸ hn) with hn | ⟨decl, id', hm, he⟩
    · exact (hs.scopes name id text hn).trans_le hl.grows
    · obtain ⟨rfl, -⟩ := Ty.name.inj he
      exact (hl.range decl id hm).2
  · rcases hb.binding id with he | ⟨-, he⟩
    · exact he ▸ hl.bound hs (hb.size ▸ hlt)
    · rw [he]
      rfl
  · rw [hb.size]
    exact hl.closed hs (hb.follows first second hf)

lemma Settled.actual_ne_name {s : Analyzer} (hs : Settled s) {id : TypeNameId}
    (hid : id.position < s.typeTable.bindings.size)
    (hsize : (s.typeTable.reachable id).encard ≤ TypeTable.maxChain) (text : String) :
    ∀ other text', s.typeTable.actual (.name id text) ≠ .name other text' := by
  refine TypeTable.actual_ne_name hsize (fun other ho hcycle => ?_) (fun other ho => ?_) text
  · have hfew : (s.typeTable.reachable other).encard ≤ TypeTable.maxChain :=
      (Set.encard_le_encard fun _ h => ho.trans h).trans hsize
    have hfound := TypeTable.isCycle_of_transGen hfew hcycle
    rw [hs.acyclic other] at hfound
    cases hfound
  · refine hs.bound other ?_
    cases ho with
    | refl => exact hid
    | tail _ hf => exact hs.closed _ _ hf

lemma typeInvariant_settled : TypeInvariant Settled where
  same hs htypes hbindings _ := hs.of_same htypes hbindings
  openScope hs := { hs with scopes := fun name id text hn => hs.scopes name id text (ScopeStack.binds_open hn) }
  closeScope hs := { hs with scopes := fun name id text hn => hs.scopes name id text (ScopeStack.binds_close hn) }
  typeGroup members _ := settled_typeGroup members

lemma settled_lowerExpr (expression : Expr) : Within (Preserves Settled) (lowerExpr expression) :=
  typeInvariant_settled.kept.lowerExpr expression

lemma settled_initial : Settled Analyzer.initial := by
  have hempty : ∀ first second, ¬ Analyzer.initial.typeTable.Follows first second := fun _ _ hf =>
    Nat.not_lt_zero _ (TypeTable.lt_size_of_follows hf)
  refine ⟨fun name id text hn => ?_, fun _ hlt => absurd hlt (Nat.not_lt_zero _), fun _ _ hf => absurd hf (hempty _ _),
    fun id => TypeTable.isCycle_eq_false (Option.eq_none_iff_forall_ne_some.mpr (hempty id))⟩
  obtain ⟨scope, hscope, hm⟩ := hn
  obtain rfl := List.mem_singleton.mp hscope
  rcases List.mem_cons.mp hm with he | hm
  · cases (Prod.mk.inj he).2
  · cases (Prod.mk.inj (List.mem_singleton.mp hm)).2

end TigerMips.Analysis
