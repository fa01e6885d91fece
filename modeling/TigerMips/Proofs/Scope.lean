import TigerMips.Proofs.Lists
import TigerMips.Scope

/-! What the scopes of a stack bind, and stacks that differ in the innermost scope only. -/

namespace TigerMips

namespace ScopeStack

variable {α : Type}

def SameOuter (first second : ScopeStack α) : Prop :=
  ∀ scope rest, first.inner = scope :: rest →
    ∃ scope', second.inner = scope' :: rest ∧ second.global = first.global

lemma SameOuter.refl (stack : ScopeStack α) : SameOuter stack stack := fun scope _ h => ⟨scope, h, rfl⟩

lemma SameOuter.trans {first second third : ScopeStack α} (hab : SameOuter first second)
    (hbc : SameOuter second third) : SameOuter first third := by
  intro scope rest h
  obtain ⟨scope', h', hg⟩ := hab scope rest h
  obtain ⟨scope'', h'', hg'⟩ := hbc scope' rest h'
  exact ⟨scope'', h'', hg'.trans hg⟩

lemma SameOuter.put (stack : ScopeStack α) (name : String) (entry : α) : SameOuter stack (stack.put name entry) := by
  intro scope rest h
  exact ⟨scope.put name entry, by simp [ScopeStack.put, h], by simp [ScopeStack.put, h]⟩

lemma SameOuter.foldl {β : Type} (stack : ScopeStack α) (name : β → String) (entry : β → α) (items : List β) :
    SameOuter stack (items.foldl (fun stack item => stack.put (name item) (entry item)) stack) := by
  induction items generalizing stack with
  | nil => exact .refl stack
  | cons item rest ih => exact (SameOuter.put stack _ _).trans (ih _)

lemma close_eq_of_sameOuter {first second : ScopeStack α} {scope : Scope α} {rest : List (Scope α)}
    (hi : first.inner = scope :: rest) (h : SameOuter first second) : second.close = ⟨rest, first.global⟩ := by
  obtain ⟨scope', hi', hg⟩ := h scope rest hi
  simp [close, hi', hg]

lemma or_isEmpty_inner {first second : ScopeStack α} {scope : Scope α} {rest : List (Scope α)}
    (hi : first.inner = scope :: rest) (h : SameOuter first second) (flag : Bool) :
    (flag || second.inner.isEmpty) = flag := by
  obtain ⟨scope', hi', -⟩ := h scope rest hi
  simp [hi']

def Binds (stack : ScopeStack α) (name : String) (entry : α) : Prop :=
  ∃ scope ∈ stack.scopes, (name, entry) ∈ scope.bindings

variable {stack : ScopeStack α} {name other : String} {entry entry' : α}

lemma binds_of_get? (h : stack.get? name = some entry) : stack.Binds name entry := by
  obtain ⟨scope, hm, hs⟩ := List.exists_of_findSome?_eq_some h
  obtain ⟨before, after, hb, -⟩ := List.lookup_eq_some_iff.mp hs
  exact ⟨scope, hm, by simp [hb]⟩

lemma mem_scope_put {scope : Scope α} (h : (other, entry') ∈ (scope.put name entry).bindings) :
    (other = name ∧ entry' = entry) ∨ (other, entry') ∈ scope.bindings := by
  rcases List.mem_cons.mp h with he | hm
  · exact Or.inl (Prod.mk.inj he)
  · exact Or.inr (List.mem_filter.mp hm).1

lemma binds_put (h : (stack.put name entry).Binds other entry') :
    (other = name ∧ entry' = entry) ∨ stack.Binds other entry' := by
  obtain ⟨scope, hm, hs⟩ := h
  cases hi : stack.inner with
  | nil =>
    simp only [put, hi, scopes, List.nil_append, List.mem_singleton] at hm
    subst hm
    rcases mem_scope_put hs with he | hb
    · exact Or.inl he
    · exact Or.inr ⟨stack.global, by simp [scopes], hb⟩
  | cons first rest =>
    simp only [put, hi, scopes, List.cons_append, List.mem_cons] at hm
    rcases hm with rfl | hm
    · rcases mem_scope_put hs with he | hb
      · exact Or.inl he
      · exact Or.inr ⟨first, by simp [scopes, hi], hb⟩
    · exact Or.inr ⟨scope, by simp only [scopes, hi]; exact List.mem_cons_of_mem _ hm, hs⟩

lemma scope_get?_put (scope : Scope α) (name other : String) (entry : α) :
    (scope.put name entry).get? other = if other = name then some entry else scope.get? other := by
  unfold Scope.put Scope.get?
  split
  · simp [*]
  · have hne : (other == name) = false := by simpa
    rw [List.lookup_cons, hne]
    exact List.lookup_filter_ne ‹_›

lemma get?_put (stack : ScopeStack α) (name other : String) (entry : α) :
    (stack.put name entry).get? other = if other = name then some entry else stack.get? other := by
  unfold get? put scopes
  cases stack.inner with
  | nil => simp [scope_get?_put]
  | cons scope rest =>
    simp only [List.cons_append, List.findSome?_cons, scope_get?_put]
    by_cases h : other = name <;> simp [h]

@[simp] lemma get?_openScope (stack : ScopeStack α) (name : String) : stack.openScope.get? name = stack.get? name := rfl

lemma binds_foldl_put {β : Type} (names : β → String) (entries : β → α) {items : List β}
    (h : (items.foldl (fun stack item => stack.put (names item) (entries item)) stack).Binds other entry') :
    (∃ item ∈ items, other = names item ∧ entry' = entries item) ∨ stack.Binds other entry' := by
  induction items generalizing stack with
  | nil => exact Or.inr h
  | cons item rest ih =>
    rcases ih h with ⟨later, hm, he⟩ | hb
    · exact Or.inl ⟨later, List.mem_cons_of_mem _ hm, he⟩
    · rcases binds_put hb with he | hb
      · exact Or.inl ⟨item, List.mem_cons_self, he⟩
      · exact Or.inr hb

lemma binds_open {isFunction : Bool}
    (h : Binds { stack with inner := { bindings := [], isFunction } :: stack.inner } name entry) :
    stack.Binds name entry := by
  obtain ⟨scope, hm, hs⟩ := h
  rcases List.mem_cons.mp hm with rfl | hm
  · cases hs
  · exact ⟨scope, hm, hs⟩

lemma binds_close (h : stack.close.Binds name entry) : stack.Binds name entry := by
  obtain ⟨scope, hm, hs⟩ := h
  refine ⟨scope, ?_, hs⟩
  rcases List.mem_append.mp hm with hm | hm
  · exact List.mem_append_left _ (List.mem_of_mem_tail hm)
  · exact List.mem_append_right _ hm

lemma isSome_depth? (stack : ScopeStack α) (name : String) : (stack.depth? name).isSome = (stack.get? name).isSome := by
  unfold depth? get?
  rw [List.findIdx?_isSome, List.isSome_findSome?]
  rfl

@[simp] lemma isForeign_openScope (stack : ScopeStack α) (name : String) :
    stack.openScope.isForeign name = stack.isForeign name := by
  have hdepth : stack.openScope.depth? name = (stack.depth? name).map (· + 1) := by
    simp [depth?, openScope, scopes, List.findIdx?_cons, Scope.binds, Scope.get?]
  have hfunction : stack.openScope.functionDepth? = stack.functionDepth?.map (· + 1) := by
    simp [functionDepth?, openScope, scopes, List.findIdx?_cons]
  unfold isForeign
  rw [hdepth, hfunction]
  cases stack.depth? name <;> cases stack.functionDepth? <;> simp

lemma isForeign_openFunction (stack : ScopeStack α) (name : String) :
    stack.openFunction.isForeign name = (stack.get? name).isSome := by
  have hdepth : stack.openFunction.depth? name = (stack.depth? name).map (· + 1) := by
    simp [depth?, openFunction, scopes, List.findIdx?_cons, Scope.binds, Scope.get?]
  have hfunction : stack.openFunction.functionDepth? = some 0 := rfl
  unfold isForeign
  rw [hdepth, hfunction, ← isSome_depth?]
  cases stack.depth? name <;> simp

lemma isForeign_put (stack : ScopeStack α) (name other : String) (entry : α) :
    (stack.put name entry).isForeign other = if other = name then false else stack.isForeign other := by
  have hbinds :
      ∀ scope : Scope α, (scope.put name entry).binds other = if other = name then true else scope.binds other := by
    intro scope
    unfold Scope.binds
    rw [scope_get?_put]
    split <;> rfl
  have hfunction : (stack.put name entry).functionDepth? = stack.functionDepth? := by
    unfold functionDepth? put scopes
    cases stack.inner <;> rfl
  unfold isForeign
  rw [hfunction]
  by_cases he : other = name
  · have hdepth : (stack.put name entry).depth? other = some 0 := by
      unfold depth? put scopes
      cases stack.inner <;> simp only [List.nil_append, List.cons_append, List.findIdx?_cons, hbinds,
        if_pos he, if_true]
    rw [hdepth, if_pos he]
    cases stack.functionDepth? <;> simp
  · have hdepth : (stack.put name entry).depth? other = stack.depth? other := by
      unfold depth? put scopes
      cases stack.inner <;> simp [List.findIdx?_cons, hbinds, he]
    rw [hdepth, if_neg he]

end ScopeStack

end TigerMips
