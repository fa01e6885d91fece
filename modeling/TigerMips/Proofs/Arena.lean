import Mathlib.Order.RelClasses
import Mathlib.Tactic
import TigerMips.Arena
import TigerMips.Supply

/-! What tables hold after each change, and the order of positions and temps. -/

namespace TigerMips

instance {kind : Kind} : IsStrictTotalOrder (Index kind) (· < ·) where
  trichotomous := by
    rintro ⟨a⟩ ⟨b⟩
    change ¬ a < b → ¬ b < a → _
    intro hab hba
    rw [Nat.le_antisymm (Nat.not_lt.mp hba) (Nat.not_lt.mp hab)]
  irrefl a := Nat.lt_irrefl a.position
  trans _ _ _ hab hbc := Nat.lt_trans hab hbc

instance : IsStrictTotalOrder Temp (· < ·) where
  trichotomous := by
    rintro ⟨a⟩ ⟨b⟩
    change ¬ a < b → ¬ b < a → _
    intro hab hba
    rw [Nat.le_antisymm (Nat.not_lt.mp hba) (Nat.not_lt.mp hab)]
  irrefl a := Nat.lt_irrefl a.number
  trans _ _ _ hab hbc := Nat.lt_trans hab hbc

namespace Arena

variable {kind : Kind} {α : Type} (arena : Arena kind α)

lemma get?_eq_none {index : Index kind} : arena.get? index = none ↔ arena.size ≤ index.position := by
  simp [get?, size]

lemma exists_get? {index : Index kind} : (∃ item, arena.get? index = some item) ↔ index.position < arena.size := by
  rw [← Option.isSome_iff_exists]
  simp [get?, size]

lemma lt_size {index : Index kind} {item : α} (h : arena.get? index = some item) : index.position < arena.size :=
  arena.exists_get?.mp ⟨item, h⟩

lemma has_eq_true {arena : Arena kind α} {index : Index kind} (h : index.position < arena.size) :
    arena.has index = true :=
  decide_eq_true h

lemma mem_items {item : α} : item ∈ arena.items ↔ ∃ index, arena.get? index = some item := by
  rw [List.mem_iff_getElem?]
  exact ⟨fun ⟨i, h⟩ => ⟨⟨i⟩, h⟩, fun ⟨i, h⟩ => ⟨i.position, h⟩⟩

lemma mem_entries {index : Index kind} {item : α} : (index, item) ∈ arena.entries ↔ arena.get? index = some item := by
  simp only [entries, List.mem_map, Prod.exists, Prod.mk.injEq, List.mem_zipIdx_iff_getElem?]
  constructor
  · rintro ⟨_, _, h, rfl, rfl⟩
    exact h
  · exact fun h => ⟨item, index.position, h, rfl, rfl⟩

@[simp] lemma size_push (item : α) : (arena.push item).size = arena.size + 1 := by simp [push, size]

@[simp] lemma size_set (index : Index kind) (item : α) : (arena.set index item).size = arena.size := by
  simp [set, size]

@[simp] lemma size_modify (index : Index kind) (f : α → α) : (arena.modify index f).size = arena.size := by
  simp [modify, size]

lemma get?_push (item : α) (index : Index kind) :
    (arena.push item).get? index = if index = arena.next then some item else arena.get? index := by
  rcases index with ⟨i⟩
  simp only [get?, push, next, size, Index.mk.injEq]
  split
  · rename_i h
    simp [h]
  · rename_i h
    by_cases hi : i < arena.items.length
    · simp [List.getElem?_append_left hi]
    · rw [List.getElem?_append_right (by omega), List.getElem?_eq_none (by simp; omega),
        List.getElem?_eq_none (by omega)]

lemma get?_push_cases {arena : Arena kind α} {item found : α} {index : Index kind}
    (h : (arena.push item).get? index = some found) :
    index = arena.next ∧ found = item ∨ arena.get? index = some found := by
  rw [get?_push] at h
  split at h
  · exact Or.inl ⟨‹_›, (Option.some.inj h).symm⟩
  · exact Or.inr h

lemma get?_set (index other : Index kind) (item : α) : (arena.set index item).get? other =
    if other = index ∧ index.position < arena.size then some item else arena.get? other := by
  rcases index with ⟨i⟩
  rcases other with ⟨j⟩
  simp only [get?, set, size, Index.mk.injEq, List.getElem?_set]
  by_cases hij : i = j
  · subst j
    by_cases hi : i < arena.items.length <;> simp [hi]
  · simp [hij, Ne.symm hij]

lemma get?_modify (index other : Index kind) (f : α → α) : (arena.modify index f).get? other =
    if other = index then (arena.get? other).map f else arena.get? other := by
  rcases index with ⟨i⟩
  rcases other with ⟨j⟩
  simp only [get?, modify, Index.mk.injEq, List.getElem?_modify]
  by_cases hij : i = j
  · simp [hij]
  · cases arena.items[j]? <;> simp [hij, Ne.symm hij]

lemma get?_modify_cases {arena : Arena kind α} {f : α → α} {index other : Index kind} {found : α}
    (h : (arena.modify index f).get? other = some found) :
    ∃ old, arena.get? other = some old ∧ (other = index ∧ found = f old ∨ found = old) := by
  rw [get?_modify] at h
  split at h
  · obtain ⟨old, hold, rfl⟩ := Option.map_eq_some_iff.mp h
    exact ⟨old, hold, Or.inl ⟨‹_›, rfl⟩⟩
  · exact ⟨found, h, Or.inr rfl⟩

lemma modify_modify (index : Index kind) (f g : α → α) :
    (arena.modify index f).modify index g = arena.modify index (g ∘ f) := by
  simp [modify, List.modify_modify_eq]

lemma modify_id (index : Index kind) : arena.modify index id = arena := by simp [modify]

lemma set_get? {index : Index kind} {item : α} (h : arena.get? index = some item) : arena.set index item = arena := by
  obtain ⟨hlt, rfl⟩ := List.getElem?_eq_some_iff.mp h
  simp [set]

lemma sum_lt_sum_set {weight : α → Nat} {index : Index kind} {old new : α} (h : arena.get? index = some old)
    (hw : weight old < weight new) :
    (arena.items.map weight).sum < ((arena.set index new).items.map weight).sum := by
  obtain ⟨items⟩ := arena
  obtain ⟨i⟩ := index
  change (items.map weight).sum < ((items.set i new).map weight).sum
  change items[i]? = some old at h
  induction items generalizing i with
  | nil => simp at h
  | cons first rest ih =>
    cases i with
    | zero =>
      obtain rfl : first = old := by simpa using h
      simpa using hw
    | succ i => simpa using ih i (by simpa using h)

def Grows (R : α → α → Prop) (first second : Arena kind α) : Prop :=
  ∀ index item, first.get? index = some item → ∃ item', second.get? index = some item' ∧ R item item'

namespace Grows

variable {R : α → α → Prop} {first second third : Arena kind α}

lemma refl [Std.Refl R] (arena : Arena kind α) : Grows R arena arena := fun _ item h => ⟨item, h, refl_of R item⟩

lemma trans [IsTrans α R] (hab : Grows R first second) (hbc : Grows R second third) : Grows R first third := by
  intro index item h
  obtain ⟨item', h', hr⟩ := hab index item h
  obtain ⟨item'', h'', hr'⟩ := hbc index item' h'
  exact ⟨item'', h'', trans_of R hr hr'⟩

lemma mono {S : α → α → Prop} (hRS : ∀ item item', R item item' → S item item') (h : Grows R first second) :
    Grows S first second := by
  intro index item hi
  obtain ⟨item', hi', hr⟩ := h index item hi
  exact ⟨item', hi', hRS _ _ hr⟩

lemma size_le (h : Grows R first second) : first.size ≤ second.size := by
  by_contra hlt
  have hin : (⟨second.size⟩ : Index kind).position < first.size := Nat.lt_of_not_le hlt
  obtain ⟨item, hi⟩ := first.exists_get?.mpr hin
  obtain ⟨item', hi', -⟩ := h _ _ hi
  exact Nat.lt_irrefl _ (second.lt_size hi')

lemma push [Std.Refl R] (arena : Arena kind α) (item : α) : Grows R arena (arena.push item) := by
  intro index item' h
  have hne : index ≠ arena.next := fun he => Nat.lt_irrefl _ (he ▸ arena.lt_size h)
  exact ⟨item', by rw [get?_push, if_neg hne, h], refl_of R item'⟩

lemma modify [Std.Refl R] (arena : Arena kind α) (index : Index kind) {f : α → α} (hf : ∀ item, R item (f item)) :
    Grows R arena (arena.modify index f) := by
  intro other item h
  by_cases he : other = index
  · exact ⟨f item, by rw [get?_modify, if_pos he, h, Option.map_some], hf item⟩
  · exact ⟨item, by rw [get?_modify, if_neg he, h], refl_of R item⟩

lemma sum_le {weight : α → Nat} {amount : Nat} (h : Grows R first second) (hs : second.size = first.size)
    (hw : ∀ item item', R item item' → weight item' ≤ weight item + amount) :
    (second.items.map weight).sum ≤ (first.items.map weight).sum + first.size * amount := by
  obtain ⟨before⟩ := first
  obtain ⟨after⟩ := second
  change after.length = before.length at hs
  change (after.map weight).sum ≤ (before.map weight).sum + before.length * amount
  have hpoint : ∀ (i : Nat) (a b : α), before[i]? = some a → after[i]? = some b → weight b ≤ weight a + amount := by
    intro i a b ha hb
    obtain ⟨b', hb', hr⟩ := h ⟨i⟩ a ha
    obtain rfl := Option.some.inj (hb.symm.trans hb')
    exact hw a b hr
  clear h
  induction before generalizing after with
  | nil => simp [List.length_eq_zero_iff.mp hs]
  | cons a before ih =>
    cases after with
    | nil => cases hs
    | cons b after =>
      have hfirst := hpoint 0 a b rfl rfl
      have hrest := ih after (Nat.succ.inj hs) fun i => hpoint (i + 1)
      simp only [List.map_cons, List.sum_cons, List.length_cons, Nat.succ_mul]
      omega

end Grows

end Arena

end TigerMips
