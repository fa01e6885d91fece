import Mathlib.Data.List.Perm.Subperm
import Mathlib.Order.Defs.Unbundled
import TigerMips.Function
import TigerMips.Proofs.Arena
import TigerMips.Proofs.Fixpoint
import TigerMips.Proofs.Lists

/-! Functions grow during an analysis, and closing a group of them passes on all foreign names. -/

namespace TigerMips

namespace Function

def Grows (f g : Function) : Prop :=
  ∃ calls names, g = { f with invocations := f.invocations ++ calls, foreigns := names } ∧ f.foreigns ⊆ names

instance : Std.Refl Grows := ⟨fun f => ⟨[], f.foreigns, by simp⟩⟩

instance : IsTrans Function Grows where
  trans := by
    rintro f _ _ ⟨calls, names, rfl, hn⟩ ⟨rest, others, rfl, ho⟩
    exact ⟨calls ++ rest, others, by simp, List.Subset.trans hn ho⟩

lemma grows_addForeign (name : String) (f : Function) : Grows f (f.addForeign name) :=
  ⟨[], f.foreigns.insert name, by simp [addForeign], fun _ h => List.mem_insert_of_mem h⟩

lemma grows_addInvocation (call : Invocation) (f : Function) : Grows f (f.addInvocation call) :=
  ⟨[call], f.foreigns, rfl, List.Subset.refl _⟩

def Widens (f g : Function) : Prop := ∃ names, g = { f with foreigns := names } ∧ f.foreigns ⊆ names

lemma Widens.grows {f g : Function} (h : Widens f g) : Grows f g := by
  obtain ⟨names, rfl, hn⟩ := h
  exact ⟨[], names, by simp, hn⟩

namespace Table

def Complete (functions : Table) (caller : Function) (call : Invocation) : Prop :=
  functions.inherited call ⊆ caller.foreigns

instance (functions : Table) (caller : Function) (call : Invocation) : Decidable (functions.Complete caller call) :=
  inferInstanceAs (Decidable (∀ name ∈ functions.inherited call, name ∈ caller.foreigns))

def Adds (names : List String) (f g : Function) : Prop :=
  ∃ added, g = { f with foreigns := added ++ f.foreigns } ∧ added.Nodup ∧ added ⊆ names

lemma Adds.widens {names : List String} {f g : Function} (h : Adds names f g) : Widens f g := by
  obtain ⟨added, rfl, -, -⟩ := h
  exact ⟨_, rfl, List.subset_append_right _ _⟩

def known (functions : Table) : List String := functions.items.flatMap Function.foreigns

lemma foreigns_subset_known {functions : Table} {id : FunctionId} {f : Function} (h : functions.get? id = some f) :
    f.foreigns ⊆ functions.known := fun _ hn =>
  List.mem_flatMap.mpr ⟨f, functions.mem_items.mpr ⟨id, h⟩, hn⟩

structure Closing (start : Table) (group : List FunctionId) (functions : Table) : Prop where
  size : functions.size = start.size
  adds : start.Grows (Adds start.known) functions
  others : ∀ id ∉ group, functions.get? id = start.get? id

lemma Closing.refl (start : Table) (group : List FunctionId) : Closing start group start :=
  ⟨rfl, fun _ f h => ⟨f, h, [], rfl, .nil, List.nil_subset _⟩, fun _ _ => rfl⟩

def Closed (functions : Table) (id : FunctionId) : Prop :=
  ∀ f, functions.get? id = some f → ∀ call ∈ f.invocations, functions.Complete f call

def total (functions : Table) : Nat := (functions.items.map fun f => f.foreigns.length).sum

lemma inherited_subset_extended (functions : Table) {f : Function} {call : Invocation} (hc : call ∈ f.invocations) :
    functions.inherited call ⊆ functions.extended f := fun _ hn =>
  List.mem_union_iff.mpr (Or.inl (List.mem_flatMap.mpr ⟨call, hc, hn⟩))

variable {start functions : Table} {group : List FunctionId}

namespace Closing

lemma foreigns_subset (h : Closing start group functions) {id : FunctionId} {f : Function}
    (hf : functions.get? id = some f) : f.foreigns ⊆ start.known := by
  obtain ⟨before, hb⟩ := start.exists_get?.mpr (h.size ▸ functions.lt_size hf)
  obtain ⟨_, hg, added, rfl, -, hs⟩ := h.adds id before hb
  obtain rfl := Option.some.inj (hf.symm.trans hg)
  exact List.append_subset.mpr ⟨hs, foreigns_subset_known hb⟩

lemma inherited_subset (h : Closing start group functions) (call : Invocation) :
    functions.inherited call ⊆ start.known := by
  unfold inherited
  split
  · rename_i callee hc
    exact fun name hn => h.foreigns_subset hc (List.mem_filter.mp hn).1
  · exact List.nil_subset _

lemma set (h : Closing start group functions) {id : FunctionId} (hid : id ∈ group) {f : Function}
    (hf : functions.get? id = some f) {more : List String} (hn : more.Nodup) (hd : List.Disjoint more f.foreigns)
    (hs : more ⊆ start.known) :
    Closing start group (functions.set id { f with foreigns := more ++ f.foreigns }) where
  size := (functions.size_set _ _).trans h.size
  adds other before hb := by
    obtain ⟨g, hg, added, rfl, han, has⟩ := h.adds other before hb
    rw [Arena.get?_set]
    by_cases ho : other = id
    · subst ho
      obtain rfl := Option.some.inj (hf.symm.trans hg)
      rw [if_pos ⟨rfl, functions.lt_size hf⟩]
      refine ⟨_, rfl, more ++ added, by simp, ?_, List.append_subset.mpr ⟨hs, has⟩⟩
      exact hn.append han fun name hm ha => hd hm (List.mem_append_left _ ha)
    · exact ⟨_, by rw [if_neg fun h => ho h.1, hg], added, rfl, han, has⟩
  others other ho := by
    have hne : ¬ (other = id ∧ id.position < functions.size) := fun he => ho (he.1 ▸ hid)
    rw [Arena.get?_set, if_neg hne]
    exact h.others other ho

lemma extend_cases (h : Closing start group functions) {id : FunctionId} (hid : id ∈ group) :
    functions.extend id = (functions, false) ∧ functions.Closed id ∨
      Closing start group (functions.extend id).1 ∧ (functions.extend id).2 = true ∧
        total functions < total (functions.extend id).1 := by
  unfold extend
  cases hf : functions.get? id with
  | none => exact Or.inl ⟨rfl, fun f he => nomatch hf.symm.trans he⟩
  | some f =>
    obtain ⟨more, he, hn, hd, hs⟩ := List.foldr_insert_eq (f.invocations.flatMap functions.inherited) f.foreigns
    have hknown : more ⊆ start.known := fun name hm => by
      obtain ⟨call, -, hc⟩ := List.mem_flatMap.mp (hs hm)
      exact h.inherited_subset call hc
    have hext : functions.extended f = more ++ f.foreigns := he
    cases more with
    | nil =>
      refine Or.inl ⟨?_, fun g hg call hc => ?_⟩
      · simp only [hext, List.nil_append, ne_eq, not_true_eq_false, decide_false]
        rw [functions.set_get? hf]
      · obtain rfl := Option.some.inj (hf.symm.trans hg)
        have hin := functions.inherited_subset_extended hc
        rwa [hext] at hin
    | cons name more =>
      simp only [hext]
      have hlen : f.foreigns.length < (name :: more ++ f.foreigns).length := by simp
      exact Or.inr ⟨h.set hid hf hn hd hknown, decide_eq_true hlen.ne', functions.sum_lt_sum_set hf hlen⟩

lemma sweep_cases (h : Closing start group functions) : Closing start group (functions.sweep group).1 ∧
    (functions.sweep group = (functions, false) ∧ (∀ id ∈ group, functions.Closed id) ∨
      (functions.sweep group).2 = true ∧ total functions < total (functions.sweep group).1) := by
  refine foldl_cases group (fun id hid functions changed h => ?_) functions false h
  rcases h.extend_cases hid with ⟨he, hc⟩ | ⟨hc, ht, hlt⟩
  · exact Or.inl ⟨by simp [he], hc⟩
  · exact Or.inr ⟨hc, by simp [ht], hlt⟩

lemma total_le (h : Closing start group functions) : total functions ≤ total start + start.room := by
  refine h.adds.sum_le h.size fun f g hg => ?_
  obtain ⟨added, rfl, hn, hs⟩ := hg
  have hlen := (List.subperm_of_subset hn hs).length_le
  simp only [List.length_append]
  change _ ≤ _ + start.known.length
  omega

end Closing

lemma closeForeigns_sweeps (functions : Table) (group : List FunctionId) :
    Sweeps (sweep group) functions (functions.closeForeigns group).1 (functions.closeForeigns group).2 := by
  refine Sweeps.of_limit (P := Closing functions group) (fun _ h => h.sweep_cases.1) ?_ (fun _ h => h.total_le)
    (functions.room + 1) functions (.refl functions group) (by omega)
  intro state h hc
  rcases h.sweep_cases.2 with ⟨he, -⟩ | hr
  · rw [he] at hc
    cases hc
  · exact hr.2

lemma closeForeigns_closed (functions : Table) (group : List FunctionId) :
    Closing functions group (functions.closeForeigns group).1 ∧
      ∀ id ∈ group, (functions.closeForeigns group).1.Closed id := by
  obtain ⟨state, h, hc, hr⟩ := (functions.closeForeigns_sweeps group).exists_last (P := Closing functions group)
    (fun _ h => h.sweep_cases.1) (.refl functions group)
  rcases h.sweep_cases.2 with ⟨hs, hclosed⟩ | ⟨ht, -⟩
  · rw [hs] at hr
    exact hr ▸ ⟨h, hclosed⟩
  · rw [hc] at ht
    cases ht

lemma widens_closeForeigns (functions : Table) (group : List FunctionId) :
    functions.Grows Widens (functions.closeForeigns group).1 ∧
      (functions.closeForeigns group).1.size = functions.size := by
  obtain ⟨hclosing, -⟩ := functions.closeForeigns_closed group
  exact ⟨hclosing.adds.mono fun _ _ => Adds.widens, hclosing.size⟩

end Table

end Function

end TigerMips
