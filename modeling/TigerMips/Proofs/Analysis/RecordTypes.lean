import TigerMips.Proofs.Analysis.Settled
import TigerMips.Proofs.Lists

/-! The fields of record types. Each record type that a name stands for has an identity of its own. So the identity of a
record tells its fields, wherever in a program its type is looked up. -/

namespace TigerMips

namespace Analysis

structure Identified (s : Analyzer) : Prop where
  scopes : ∀ name identity fields, ¬ s.types.Binds name (.record identity fields)
  drawn : ∀ id identity fields, s.typeTable.binding? id = some (.record identity fields) →
    identity < s.typeTable.identities
  unique : ∀ id other identity fields fields', s.typeTable.binding? id = some (.record identity fields) →
    s.typeTable.binding? other = some (.record identity fields') → id = other

namespace Linked

variable {members : List TypeDecl} {s t : Analyzer} {entered : Entries}

lemma record_cases (hl : Linked members s entered t) (hs : Identified s) {id : TypeNameId} {identity : Nat}
    {fields : List (String × Ty)} (hb : t.typeTable.binding? id = some (.record identity fields)) :
    s.typeTable.binding? id = some (.record identity fields) ∨
      ∃ before decl after, entered = before ++ (decl, some id) :: after ∧ decl.ty.isNominal ∧
        identity = s.typeTable.identities + before.countP (·.1.ty.isNominal) := by
  by_cases hold : id.position < s.typeTable.bindings.size
  · exact Or.inl (hl.old id hold ▸ hb)
  · have hlt := t.typeTable.bindings.lt_size (Option.join_eq_some_iff.mp hb)
    obtain ⟨decl, hm⟩ := hl.cover id (Nat.le_of_not_lt hold) hlt
    obtain ⟨before, after, he⟩ := List.append_of_mem hm
    have hty := Option.some.inj ((hl.binding before decl id after he).symm.trans hb)
    refine Or.inr ⟨before, decl, after, he, ?_⟩
    cases hd : decl.ty with
    | name known =>
      rw [hd] at hty
      change (t.types.get? known.name).getD .int = _ at hty
      cases hget : t.types.get? known.name with
      | none =>
        rw [hget] at hty
        cases hty
      | some found =>
        rw [hget] at hty
        obtain rfl : found = .record identity fields := hty
        rcases hl.scopes _ _ (ScopeStack.binds_of_get? hget) with hold | ⟨_, _, -, he⟩
        · exact (hs.scopes _ _ _ hold).elim
        · cases he
    | array element =>
      rw [hd] at hty
      cases hty
    | record given =>
      rw [hd] at hty
      exact ⟨rfl, (Ty.record.inj hty).1.symm⟩

lemma identified (hl : Linked members s entered t) (hs : Identified s) : Identified t where
  scopes name identity fields hb := by
    rcases hl.scopes name _ hb with hold | ⟨_, _, -, he⟩
    · exact hs.scopes _ _ _ hold
    · cases he
  drawn id identity fields hb := by
    rw [hl.identities]
    rcases hl.record_cases hs hb with hold | ⟨before, decl, after, rfl, hdecl, rfl⟩
    · exact (hs.drawn id identity fields hold).trans_le (Nat.le_add_right _ _)
    · simp [hdecl]
  unique id other identity fields fields' hb hb' := by
    rcases hl.record_cases hs hb with hold | ⟨before, decl, after, he, hdecl, rfl⟩ <;>
      rcases hl.record_cases hs hb' with hold' | ⟨before', decl', after', he', hdecl', hidentity⟩
    · exact hs.unique id other identity fields fields' hold hold'
    · have hlt := hs.drawn id identity fields hold
      omega
    · have hlt := hs.drawn other _ fields' hold'
      omega
    · have hsame := List.eq_of_countP_eq (P := fun entry : TypeDecl × Option TypeNameId => entry.1.ty.isNominal)
        (he.symm.trans he') hdecl hdecl' (Nat.add_left_cancel hidentity)
      exact Option.some.inj (Prod.mk.inj hsame).2

end Linked

lemma typeInvariant_identified : TypeInvariant Identified where
  same {s t} hs htypes hbindings hle := by
    have hbinding : ∀ id, t.typeTable.binding? id = s.typeTable.binding? id := fun id => by
      unfold TypeTable.binding?
      rw [hbindings]
    refine ⟨fun name identity fields => ?_, fun id identity fields hb => ?_,
      fun id other identity fields fields' hb hb' => ?_⟩
    · exact htypes ▸ hs.scopes name identity fields
    · exact (hs.drawn id identity fields (hbinding id ▸ hb)).trans_le hle
    · exact hs.unique id other identity fields fields' (hbinding id ▸ hb) (hbinding other ▸ hb')
  openScope hs := { hs with scopes := fun name _ _ hb => hs.scopes name _ _ (ScopeStack.binds_open hb) }
  closeScope hs := { hs with scopes := fun name _ _ hb => hs.scopes name _ _ (ScopeStack.binds_close hb) }
  typeGroup members s hs := by
    have hlinked := (linked_linkTypes members s).identified hs
    have hbroken := broken_breakCycles (linkTypes members s).1 (linkTypes members s).2
    rw [← typeGroup_eq] at hbroken
    have hbound : ∀ {id : TypeNameId} {identity fields},
        (typeGroup members s).2.typeTable.binding? id = some (.record identity fields) →
        (linkTypes members s).2.typeTable.binding? id = some (.record identity fields) := fun {id _ _} hb => by
      rcases hbroken.binding id with he | ⟨-, he⟩
      · exact he ▸ hb
      · rw [he] at hb
        cases hb
    refine ⟨hbroken.types ▸ hlinked.scopes, fun id identity fields hb => ?_,
      fun id other identity fields fields' hb hb' => ?_⟩
    · exact hbroken.identities ▸ hlinked.drawn id identity fields (hbound hb)
    · exact hlinked.unique id other identity fields fields' (hbound hb) (hbound hb')

lemma identified_initial : Identified Analyzer.initial where
  scopes name identity fields hb := nomatch Analyzer.sound_initial.types _ _ hb
  drawn id identity fields hb := by simp [Analyzer.initial, TypeTable.binding?, Arena.get?] at hb
  unique id other identity fields fields' hb := by simp [Analyzer.initial, TypeTable.binding?, Arena.get?] at hb

end Analysis

namespace TypeTable

variable {table : TypeTable}

lemma follow_cases (steps : Nat) (ty : Ty) :
    table.follow steps ty = ty ∨ ∃ id, table.binding? id = some (table.follow steps ty) := by
  induction steps generalizing ty with
  | zero => exact Or.inl rfl
  | succ steps ih =>
    cases ty with
    | name id text =>
      unfold follow
      cases hb : table.binding? id with
      | none => exact Or.inl rfl
      | some bound =>
        rcases ih bound with he | hbound
        · exact Or.inr ⟨id, hb.trans (congrArg some he.symm)⟩
        · exact Or.inr hbound
    | _ => exact Or.inl rfl

lemma exists_binding {ty found : Ty} (ha : table.actual ty = found) (hne : ty ≠ found) :
    ∃ id, table.binding? id = some found := by
  rcases table.follow_cases maxChain ty with he | hb
  · exact absurd (he.symm.trans ha) hne
  · exact ha ▸ hb

end TypeTable

open Analysis

lemma exists_fields_of_identity (expression : Expr) :
    ∃ layout : Nat → List (String × Ty), ∀ (s : Analyzer) (ty : Ty) (identity : Nat) (fields : List (String × Ty)),
      s.typeTable.bindings.items <+: (lowerExpr expression .initial).2.typeTable.bindings.items →
      s.typeTable.actual ty = .record identity fields → ty ≠ .record identity fields → fields = layout identity := by
  have hidentified := typeInvariant_identified.kept.lowerExpr expression _ identified_initial
  let Bound (identity : Nat) (fields : List (String × Ty)) : Prop :=
    ∃ id, (lowerExpr expression .initial).2.typeTable.binding? id = some (.record identity fields)
  refine ⟨fun identity => Classical.epsilon (Bound identity), fun s ty identity fields hs hactual hne => ?_⟩
  obtain ⟨id, hid⟩ := TypeTable.exists_binding hactual hne
  have hbound := TypeTable.binding?_of_isPrefix hs hid
  obtain ⟨other, hother⟩ : Bound identity _ := Classical.epsilon_spec ⟨fields, id, hbound⟩
  obtain rfl := hidentified.unique id other identity _ _ hbound hother
  exact (Ty.record.inj (Option.some.inj (hbound.symm.trans hother))).2

end TigerMips
