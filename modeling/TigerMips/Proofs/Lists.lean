import Mathlib.Data.List.Forall2
import Mathlib.Data.List.Nodup
import Mathlib.Tactic

/-! General facts about lists: their stretches, lists joined by a separator, monadic maps, counted members, tables. -/

namespace Except

variable {ε α β : Type} {x : Except ε α} {b : β}

lemma bind_eq_ok {f : α → Except ε β} : x >>= f = .ok b ↔ ∃ a, x = .ok a ∧ f a = .ok b := by
  cases x <;> simp [bind, Except.bind]

lemma exists_ok {f : α → β} (h : x.toOption.map f = some b) : ∃ a, x = .ok a ∧ f a = b := by
  cases x with
  | error => cases h
  | ok a => exact ⟨a, rfl, Option.some.inj h⟩

end Except

namespace List

variable {α β ε : Type}

def At (all : List α) (position : Nat) (part : List α) : Prop := part <+: all.drop position

section

variable {all first second rest : List α} {a : α} {p : Nat}

lemma at_self (all : List α) : At all 0 all := prefix_rfl

@[simp] lemma at_nil : At all p [] := nil_prefix

@[simp] lemma at_cons : At all p (a :: rest) ↔ all[p]? = some a ∧ At all (p + 1) rest := by
  unfold At
  rcases lt_or_ge p all.length with hp | hp
  · rw [drop_eq_getElem_cons hp, cons_prefix_cons, getElem?_eq_getElem hp, Option.some.injEq, eq_comm]
  · simp [drop_eq_nil_of_le hp, getElem?_eq_none hp]

@[simp] lemma at_append : At all p (first ++ second) ↔ At all p first ∧ At all (p + first.length) second := by
  induction first generalizing p with
  | nil => simp
  | cons a rest ih => simp [ih, and_assoc, Nat.add_assoc, Nat.add_comm 1]

lemma at_infix (before part after : List α) : At (before ++ part ++ after) before.length part := by
  rw [append_assoc]
  simp [At]

lemma At.getElem?_eq (h : At all p rest) {i : Nat} (hi : i < rest.length) : all[p + i]? = rest[i]? := by
  obtain ⟨after, hafter⟩ := h
  rw [← getElem?_drop, ← hafter, getElem?_append_left hi]

lemma At.getElem? (h : At all p rest) {i : Nat} (hi : rest[i]? = some a) : all[p + i]? = some a :=
  (h.getElem?_eq (getElem?_eq_some_iff.mp hi).1).trans hi

lemma At.slice (h : At all p rest) (i n : Nat) : At all (p + i) ((rest.drop i).take n) := by
  have hdrop := h.drop i
  rw [drop_drop] at hdrop
  exact (List.take_prefix n _).trans hdrop

lemma getElem?_append_cases (h : (first ++ second)[p]? = some a) :
    first[p]? = some a ∨ first.length ≤ p ∧ second[p - first.length]? = some a := by
  rw [getElem?_append] at h
  split at h
  · exact Or.inl h
  · rename_i hlt
    exact Or.inr ⟨Nat.le_of_not_lt hlt, h⟩

end

def AllWithin (P : β → Prop) (part : β → List α) (whole : List α) (items : List β) : Prop :=
  ∀ item ∈ items, P item ∧ part item <:+: whole

namespace AllWithin

variable {P Q : β → Prop} {part : β → List α} {whole rest : List α} {items others : List β}

lemma none : AllWithin P part whole [] := by simp [AllWithin]

lemma imp (h : AllWithin P part whole items) (hp : ∀ item, P item → Q item) : AllWithin Q part whole items :=
  fun item hm => (h item hm).imp_left (hp item)

lemma left (h : AllWithin P part whole items) (rest : List α) : AllWithin P part (whole ++ rest) items :=
  fun item hm => (h item hm).imp_right fun hi => hi.trans (List.prefix_append whole rest).isInfix

lemma right (h : AllWithin P part whole items) (before : List α) : AllWithin P part (before ++ whole) items :=
  fun item hm => (h item hm).imp_right fun hi => hi.trans (List.suffix_append before whole).isInfix

lemma cons (h : AllWithin P part whole items) (a : α) : AllWithin P part (a :: whole) items := h.right [a]

lemma both (h : AllWithin P part whole items) (h' : AllWithin P part whole others) :
    AllWithin P part whole (items ++ others) :=
  forall_mem_append.mpr ⟨h, h'⟩

lemma join (h : AllWithin P part whole items) (h' : AllWithin P part rest others) :
    AllWithin P part (whole ++ rest) (items ++ others) :=
  (h.left rest).both (h'.right whole)

end AllWithin

section

variable {separator list : List α} {lists : List (List α)} {a : α}

lemma mem_intercalate (h : a ∈ separator.intercalate lists) : a ∈ separator ∨ ∃ list ∈ lists, a ∈ list := by
  induction lists with
  | nil => simp at h
  | cons first rest ih =>
    cases rest with
    | nil => exact Or.inr ⟨first, by simp, by simpa using h⟩
    | cons second rest =>
      rw [intercalate_cons_cons, mem_append, mem_append] at h
      rcases h with (h | h) | h
      · exact Or.inr ⟨first, by simp, h⟩
      · exact Or.inl h
      · exact (ih h).imp_right fun ⟨list, hm, ha⟩ => ⟨list, mem_cons_of_mem _ hm, ha⟩

lemma mem_intercalate_of_mem (h : list ∈ lists) (ha : a ∈ list) : a ∈ separator.intercalate lists := by
  induction lists with
  | nil => cases h
  | cons first rest ih =>
    cases rest with
    | nil =>
      obtain rfl := mem_singleton.mp h
      simpa using ha
    | cons second rest =>
      rw [intercalate_cons_cons, mem_append, mem_append]
      rcases mem_cons.mp h with rfl | h
      · exact Or.inl (Or.inl ha)
      · exact Or.inr (ih h)

end

section

variable {items : List α} {results : List β}

lemma Forall₂.exists_left {R : α → β → Prop} (h : Forall₂ R items results) {b : β} (hb : b ∈ results) :
    ∃ a ∈ items, R a b := by
  induction h with
  | nil => cases hb
  | cons hr _ ih =>
    rcases mem_cons.mp hb with rfl | hb
    · exact ⟨_, mem_cons_self, hr⟩
    · obtain ⟨a, ha, hr⟩ := ih hb
      exact ⟨a, mem_cons_of_mem _ ha, hr⟩

lemma mapM_eq_some {f : α → Option β} :
    items.mapM f = some results ↔ Forall₂ (fun a b => f a = some b) items results := by
  induction items generalizing results with
  | nil => cases results <;> simp
  | cons first rest ih => cases results <;> simp [mapM_cons, Option.bind_eq_some_iff, ih]

lemma isSome_mapM {f : α → Option β} : (items.mapM f).isSome ↔ ∀ a ∈ items, (f a).isSome := by
  induction items with
  | nil => simp
  | cons first rest ih =>
    rw [forall_mem_cons, ← ih, mapM_cons]
    cases f first <;> cases rest.mapM f <;> simp

lemma mapM_eq_ok {f : α → Except ε β} :
    items.mapM f = .ok results ↔ Forall₂ (fun a b => f a = .ok b) items results := by
  induction items generalizing results with
  | nil => cases results <;> simp [pure, Except.pure]
  | cons first rest ih => cases results <;> simp [mapM_cons, Except.bind_eq_ok, ih, pure, Except.pure]

lemma mapM_ok {f : α → Except ε β} (h : ∀ a ∈ items, ∃ b, f a = .ok b) : ∃ results, items.mapM f = .ok results := by
  induction items with
  | nil => exact ⟨[], rfl⟩
  | cons first rest ih =>
    obtain ⟨b, hb⟩ := h first mem_cons_self
    obtain ⟨results, hr⟩ := ih fun a ha => h a (mem_cons_of_mem _ ha)
    exact ⟨b :: results, mapM_eq_ok.mpr (.cons hb (mapM_eq_ok.mp hr))⟩

lemma mapM_eq_error {f : α → Except ε β} {failure : ε} (h : items.mapM f = .error failure) :
    ∃ a ∈ items, f a = .error failure := by
  induction items with
  | nil => cases h
  | cons first rest ih =>
    rw [mapM_cons] at h
    cases hf : f first with
    | error other =>
      rw [hf] at h
      obtain rfl := Except.error.inj h
      exact ⟨first, mem_cons_self, hf⟩
    | ok value =>
      cases hr : rest.mapM f with
      | error other =>
        rw [hf, hr] at h
        obtain rfl := Except.error.inj h
        obtain ⟨a, ha, hfail⟩ := ih hr
        exact ⟨a, mem_cons_of_mem _ ha, hfail⟩
      | ok values =>
        rw [hf, hr] at h
        cases h

end

section

variable {P : α → Bool} {items before before' after after' : List α} {a b : α}

lemma exists_position_of_countP_eq_one (h : items.countP P = 1) :
    ∃ (p : Nat) (a : α), items[p]? = some a ∧ P a = true ∧
      ∀ (q : Nat) (b : α), items[q]? = some b → P b = true → q = p := by
  induction items with
  | nil => cases h
  | cons first rest ih =>
    rw [countP_cons] at h
    by_cases hf : P first = true
    · rw [if_pos hf] at h
      have hnone := countP_eq_zero.mp (Nat.succ_inj.mp h)
      refine ⟨0, first, rfl, hf, fun q b hq hb => ?_⟩
      cases q with
      | zero => rfl
      | succ q => exact absurd hb (hnone b (mem_of_getElem? (by simpa using hq)))
    · rw [if_neg hf] at h
      obtain ⟨p, a, hp, ha, hunique⟩ := ih h
      refine ⟨p + 1, a, hp, ha, fun q b hq hb => ?_⟩
      cases q with
      | zero => exact absurd (Option.some.inj hq ▸ hb) hf
      | succ q => rw [hunique q b hq hb]

lemma eq_of_countP_eq (h : before ++ a :: after = before' ++ b :: after') (ha : P a) (hb : P b)
    (hcount : before.countP P = before'.countP P) : a = b := by
  rcases append_eq_append_iff.mp h with ⟨more, rfl, he⟩ | ⟨more, rfl, he⟩
  · cases more with
    | nil => exact (cons.inj he).1
    | cons c more =>
      obtain ⟨rfl, -⟩ := cons.inj he
      simp [ha] at hcount
  · cases more with
    | nil => exact (cons.inj he).1.symm
    | cons c more =>
      obtain ⟨rfl, -⟩ := cons.inj he
      simp [hb] at hcount

end

lemma compareOfLessAndEq_cons [LT α] [DecidableLT α] [DecidableEq α] [Std.Irrefl fun a b : α => a < b] {a b : α}
    {left right : List α} : compareOfLessAndEq (a :: left) (b :: right) =
      if a = b then compareOfLessAndEq left right else compareOfLessAndEq a b := by
  by_cases h : a = b <;> simp [compareOfLessAndEq, cons_lt_cons_iff, h]

section

variable {table : List (α × β)}

lemma mem_of_lookup [BEq α] [LawfulBEq α] {key : α} {value : β} (h : table.lookup key = some value) :
    (key, value) ∈ table := by
  obtain ⟨before, after, rfl, -⟩ := lookup_eq_some_iff.mp h
  simp

lemma lookup_of_mem [BEq α] [LawfulBEq α] (hn : (table.map Prod.fst).Nodup) {entry : α × β} (h : entry ∈ table) :
    table.lookup entry.1 = some entry.2 := by
  induction table with
  | nil => cases h
  | cons first rest ih =>
    obtain ⟨hfirst, hrest⟩ := nodup_cons.mp hn
    rcases mem_cons.mp h with rfl | h
    · rw [lookup_cons, beq_self_eq_true]
    · have hne : (entry.1 == first.1) = false := by
        refine beq_eq_false_iff_ne.mpr fun he => hfirst ?_
        exact he ▸ mem_map_of_mem h
      rw [lookup_cons, hne]
      exact ih hrest h

lemma lookup_filter_ne [DecidableEq α] {key other : α} (h : other ≠ key) :
    (table.filter (·.1 ≠ key)).lookup other = table.lookup other := by
  induction table with
  | nil => rfl
  | cons entry rest ih =>
    by_cases hb : entry.1 = key
    · have hne : (other == entry.1) = false := by simpa [hb] using h
      rw [filter_cons_of_neg (by simpa using hb), lookup_cons, hne, ih]
    · rw [filter_cons_of_pos (by simpa using hb), lookup_cons, lookup_cons, ih]

lemma foldr_insert_eq [DecidableEq α] (keys base : List α) : ∃ more, keys.foldr List.insert base = more ++ base ∧
    more.Nodup ∧ Disjoint more base ∧ more ⊆ keys := by
  induction keys with
  | nil => exact ⟨[], rfl, .nil, by simp, Subset.refl _⟩
  | cons key rest ih =>
    obtain ⟨more, he, hn, hd, hs⟩ := ih
    rw [foldr_cons, he]
    by_cases hm : key ∈ more ++ base
    · exact ⟨more, insert_of_mem hm, hn, hd, subset_cons_of_subset _ hs⟩
    · rw [mem_append, not_or] at hm
      exact ⟨key :: more, insert_of_not_mem (by simp [hm]), nodup_cons.mpr ⟨hm.1, hn⟩,
        disjoint_cons_left.mpr ⟨hm.2, hd⟩, cons_subset_cons _ hs⟩

end

end List

lemma String.all_intercalate {p : Char → Bool} {separator : String} {texts : List String} (hs : separator.toList.all p)
    (h : ∀ text ∈ texts, text.toList.all p) : (String.intercalate separator texts).toList.all p :=
  List.all_eq_true.mpr fun c hc => by
    rw [String.toList_intercalate] at hc
    rcases List.mem_intercalate hc with hc | ⟨list, hm, hc⟩
    · exact List.all_eq_true.mp hs c hc
    · obtain ⟨text, hm', rfl⟩ := List.mem_map.mp hm
      exact List.all_eq_true.mp (h text hm') c hc
