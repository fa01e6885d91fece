import Mathlib.Tactic
import TigerMips.Supply

/-! Definite assignment. Where control comes to a label, the temps of a set have values; the sets are
chosen for all labels together, and each item of the code is checked against them. -/

namespace TigerMips

structure Effect where
  label? : Option Label := none
  reads : Set Temp := ∅
  writes : List Temp := []
  jumps : List Label := []
  passes : Bool := true

namespace Effect

variable (marks : Label → Set Temp) (known : Set Temp) (e : Effect)

def arrived : Set Temp := e.label?.elim known marks

def leaving : Set Temp := if e.passes then known ∪ {temp | temp ∈ e.writes} else .univ

def after : Set Temp := e.leaving (e.arrived marks known)

structure Ready : Prop where
  label : ∀ l ∈ e.label?, marks l ⊆ known
  reads : ∀ temp ∈ e.reads, temp ∈ e.arrived marks known
  jumps : ∀ l ∈ e.jumps, marks l ⊆ e.arrived marks known

variable {marks known e} {known' : Set Temp}

lemma arrived_mono (h : known ⊆ known') : e.arrived marks known ⊆ e.arrived marks known' := by
  unfold arrived
  cases e.label? with
  | none => exact h
  | some l => exact Set.Subset.rfl

lemma leaving_mono (h : known ⊆ known') : e.leaving known ⊆ e.leaving known' := by
  unfold leaving
  split
  · exact Set.union_subset_union_left _ h
  · exact Set.Subset.rfl

lemma after_mono (h : known ⊆ known') : e.after marks known ⊆ e.after marks known' := leaving_mono (arrived_mono h)

lemma Ready.mono (hr : e.Ready marks known) (h : known ⊆ known') : e.Ready marks known' where
  label l hl := (hr.label l hl).trans h
  reads temp ht := arrived_mono h (hr.reads temp ht)
  jumps l hl := (hr.jumps l hl).trans (arrived_mono h)

end Effect

def Assigned {α : Type} (effect : α → Effect) (marks : Label → Set Temp) : Set Temp → List α → Set Temp → Prop
  | known, [], after => after ⊆ known
  | known, x :: rest, after =>
    (effect x).Ready marks known ∧ Assigned effect marks ((effect x).after marks known) rest after

namespace Assigned

variable {α : Type} {effect : α → Effect} {marks : Label → Set Temp} {known known' after after' mid : Set Temp}
  {xs ys : List α}

lemma cons_iff {x : α} (hx : (effect x).label? = none) : Assigned effect marks known (x :: xs) after ↔
    ((∀ temp ∈ (effect x).reads, temp ∈ known) ∧ ∀ l ∈ (effect x).jumps, marks l ⊆ known) ∧
      Assigned effect marks ((effect x).leaving known) xs after := by
  have harrived : (effect x).arrived marks known = known := by rw [Effect.arrived, hx, Option.elim_none]
  rw [Assigned, Effect.after, harrived]
  exact and_congr_left' ⟨fun h => ⟨harrived ▸ h.reads, harrived ▸ h.jumps⟩,
    fun h => ⟨by simp [hx], harrived.symm ▸ h.1, harrived.symm ▸ h.2⟩⟩

lemma cons_label_iff {x : α} {l : Label} (hx : effect x = { label? := some l }) :
    Assigned effect marks known (x :: xs) after ↔ marks l ⊆ known ∧ Assigned effect marks (marks l) xs after := by
  have hafter : (effect x).after marks known = marks l := by simp [hx, Effect.after, Effect.leaving, Effect.arrived]
  rw [Assigned, hafter]
  exact and_congr_left' ⟨fun h => h.label l (by simp [hx]),
    fun h => ⟨by simpa [hx] using h, by simp [hx], by simp [hx]⟩⟩

lemma mono (h : Assigned effect marks known xs after) (hk : known ⊆ known') (ha : after' ⊆ after) :
    Assigned effect marks known' xs after' := by
  induction xs generalizing known known' with
  | nil => exact ha.trans (Set.Subset.trans h hk)
  | cons x rest ih => exact ⟨h.1.mono hk, ih h.2 (Effect.after_mono hk)⟩

lemma append (h : Assigned effect marks known xs mid) (h' : Assigned effect marks mid ys after) :
    Assigned effect marks known (xs ++ ys) after := by
  induction xs generalizing known with
  | nil => exact h'.mono h Set.Subset.rfl
  | cons x rest ih => exact ⟨h.1, ih h.2⟩

def knownAt (effect : α → Effect) (marks : Label → Set Temp) : Set Temp → List α → Nat → Set Temp
  | known, x :: rest, p + 1 => knownAt effect marks ((effect x).after marks known) rest p
  | known, _, _ => known

@[simp] lemma knownAt_zero : knownAt effect marks known xs 0 = known := by
  cases xs <;> rfl

lemma knownAt_succ {p : Nat} {x : α} (hx : xs[p]? = some x) :
    knownAt effect marks known xs (p + 1) = (effect x).after marks (knownAt effect marks known xs p) := by
  induction xs generalizing known p with
  | nil => cases hx
  | cons first rest ih =>
    cases p with
    | zero =>
      obtain rfl := Option.some.inj hx
      exact knownAt_zero
    | succ p => exact ih hx

lemma ready_knownAt (h : Assigned effect marks known xs after) {p : Nat} {x : α} (hx : xs[p]? = some x) :
    (effect x).Ready marks (knownAt effect marks known xs p) := by
  induction xs generalizing known p with
  | nil => cases hx
  | cons first rest ih =>
    cases p with
    | zero =>
      obtain rfl := Option.some.inj hx
      exact h.1
    | succ p => exact ih h.2 hx

end Assigned

/-- Sets can be chosen for the labels with numbers from `i` to `j` so that the items can follow each other, whatever
the sets of the other labels are as long as they have a property. -/
def Settles {α : Type} (effect : α → Effect) (K : (Label → Set Temp) → Prop) (i j : Nat)
    (known : Set Temp) (xs : List α) (after : Set Temp) : Prop :=
  i ≤ j ∧ ∃ chosen : Label → Set Temp, ∀ marks, (∀ l, i ≤ l.number → l.number < j → marks l = chosen l) → K marks →
    Assigned effect marks known xs after

namespace Settles

variable {α : Type} {effect : α → Effect} {K K' : (Label → Set Temp) → Prop} {i j k : Nat}
    {known mid after after' : Set Temp}
  {xs ys : List α}

lemma of_assigned (hij : i ≤ j) (h : ∀ marks, K marks → Assigned effect marks known xs after) :
    Settles effect K i j known xs after :=
  ⟨hij, fun _ => ∅, fun marks _ hk => h marks hk⟩

lemma nil (hij : i ≤ j) : Settles effect K i j known [] known := of_assigned hij fun _ _ => Set.Subset.rfl

lemma append (h : Settles effect K i j known xs mid) (h' : Settles effect K j k mid ys after) :
    Settles effect K i k known (xs ++ ys) after := by
  obtain ⟨hij, chosen, hx⟩ := h
  obtain ⟨hjk, chosen', hy⟩ := h'
  refine ⟨hij.trans hjk, fun l => if l.number < j then chosen l else chosen' l, fun marks hm hk => ?_⟩
  refine (hx marks (fun l hi hj => ?_) hk).append (hy marks (fun l hj hk => ?_) hk)
  · exact (hm l hi (hj.trans_le hjk)).trans (if_pos hj)
  · exact (hm l (hij.trans hj) hk).trans (if_neg (Nat.not_lt.mpr hj))

lemma mono (h : Settles effect K i j known xs after) (hk : ∀ marks, K' marks → K marks) :
    Settles effect K' i j known xs after := by
  obtain ⟨hij, chosen, hx⟩ := h
  exact ⟨hij, chosen, fun marks hm hk' => hx marks hm (hk marks hk')⟩

lemma weaken (h : Settles effect K i j known xs after) (ha : after' ⊆ after) :
    Settles effect K i j known xs after' := by
  obtain ⟨hij, chosen, hx⟩ := h
  exact ⟨hij, chosen, fun marks hm hk => (hx marks hm hk).mono Set.Subset.rfl ha⟩

lemma place {i' j' : Nat} (l : Label) (set : Set Temp)
    (h : Settles effect (fun marks => marks l = set ∧ K marks) i j known xs after) (hi : i' ≤ i) (hj : j ≤ j')
    (hl : l.number < i ∨ j ≤ l.number) (hi' : i' ≤ l.number) (hj' : l.number < j') :
    Settles effect K i' j' known xs after := by
  obtain ⟨hij, chosen, hx⟩ := h
  refine ⟨by omega, Function.update chosen l set, fun marks hm hk => hx marks (fun m him hmj => ?_) ⟨?_, hk⟩⟩
  · have hne : m ≠ l := by
      rintro rfl
      omega
    rw [hm m (hi.trans him) (hmj.trans_le hj), Function.update_of_ne hne]
  · rw [hm l hi' hj', Function.update_self]

lemma fill {i' : Nat} (set : Set Temp)
    (h : Settles effect (fun marks => (∀ l, i' ≤ l.number → l.number < i → marks l = set) ∧ K marks) i j known xs after)
    (hi : i' ≤ i) : Settles effect K i' j known xs after := by
  obtain ⟨hij, chosen, hx⟩ := h
  refine ⟨hi.trans hij, fun l => if l.number < i then set else chosen l, fun marks hm hk => hx marks (fun l hl hj => ?_)
    ⟨fun l hl hlt => ?_, hk⟩⟩
  · exact (hm l (hi.trans hl) hj).trans (if_neg (Nat.not_lt.mpr hl))
  · exact (hm l hl (hlt.trans_le hij)).trans (if_pos hlt)

end Settles

end TigerMips
