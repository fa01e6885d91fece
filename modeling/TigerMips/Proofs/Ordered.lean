import Mathlib.Data.List.Pairwise
import Mathlib.Data.List.Perm.Subperm
import Mathlib.Order.RelClasses
import TigerMips.Ordered

/-! Increasing lists as sets: membership in the results of the set operations, their order, and
the size of larger sets. -/

namespace TigerMips.Ordered

variable {α : Type} [LT α] [DecidableLT α] [IsStrictTotalOrder α (· < ·)]

omit [DecidableLT α] in
lemma eq_of_not_lt {a b : α} (hab : ¬ a < b) (hba : ¬ b < a) : a = b :=
  (trichotomous_of (· < ·) a b).elim (fun h => (hab h).elim)
    (fun h => h.elim id (fun h => (hba h).elim))

lemma mem_insert {a b : α} {items : List α} : b ∈ insert a items ↔ b = a ∨ b ∈ items := by
  induction items with
  | nil => simp [insert]
  | cons c items ih =>
    simp only [insert]
    split
    · simp
    · rename_i hac
      split
      · simp only [List.mem_cons, ih]
        tauto
      · rename_i hca
        obtain rfl := eq_of_not_lt hac hca
        simp

lemma pairwise_insert {a : α} {items : List α} (h : items.Pairwise (· < ·)) :
    (insert a items).Pairwise (· < ·) := by
  induction items with
  | nil => simp [insert]
  | cons c items ih =>
    obtain ⟨hc, hi⟩ := List.pairwise_cons.mp h
    simp only [insert]
    split
    · rename_i hac
      refine List.pairwise_cons.mpr ⟨?_, h⟩
      rintro b (_ | ⟨_, hb⟩)
      · exact hac
      · exact trans_of (· < ·) hac (hc b hb)
    · split
      · rename_i hca
        refine List.pairwise_cons.mpr ⟨?_, ih hi⟩
        intro b hb
        rcases mem_insert.mp hb with rfl | hb
        · exact hca
        · exact hc b hb
      · exact h

lemma mem_ofList {b : α} {items : List α} : b ∈ ofList items ↔ b ∈ items := by
  induction items with
  | nil => simp [ofList]
  | cons a items ih =>
    have hi : b ∈ items.foldr insert [] ↔ b ∈ items := ih
    simp only [ofList, List.foldr_cons, mem_insert, List.mem_cons, hi]

lemma pairwise_ofList (items : List α) : (ofList items).Pairwise (· < ·) := by
  induction items with
  | nil => exact List.Pairwise.nil
  | cons a items ih => exact pairwise_insert ih

lemma mem_union {b : α} {left right : List α} : b ∈ union left right ↔ b ∈ left ∨ b ∈ right := by
  induction left, right using union.induct with
  | case1 right => simp [union]
  | case2 left h => cases left <;> simp [union]
  | case3 a left c right h ih => simp only [union, h, if_true, List.mem_cons, ih]; tauto
  | case4 a left c right hac h ih => simp only [union, hac, h, if_true, if_false, List.mem_cons, ih]; tauto
  | case5 a left c right hac hca ih =>
    obtain rfl := eq_of_not_lt hac hca
    simp only [union, hac, if_false, List.mem_cons, ih]
    tauto

lemma pairwise_union {left right : List α} (hl : left.Pairwise (· < ·))
    (hr : right.Pairwise (· < ·)) : (union left right).Pairwise (· < ·) := by
  induction left, right using union.induct with
  | case1 right => simpa only [union] using hr
  | case2 left h => simpa only [union] using hl
  | case3 a left c right h ih =>
    obtain ⟨ha, hl'⟩ := List.pairwise_cons.mp hl
    simp only [union, h, if_true]
    refine List.pairwise_cons.mpr ⟨?_, ih hl' hr⟩
    intro b hb
    rcases mem_union.mp hb with hb | hb
    · exact ha b hb
    · rcases List.mem_cons.mp hb with rfl | hb
      · exact h
      · exact trans_of (· < ·) h ((List.pairwise_cons.mp hr).1 b hb)
  | case4 a left c right hac h ih =>
    obtain ⟨hc, hr'⟩ := List.pairwise_cons.mp hr
    simp only [union, hac, h, if_true, if_false]
    refine List.pairwise_cons.mpr ⟨?_, ih hl hr'⟩
    intro b hb
    rcases mem_union.mp hb with hb | hb
    · rcases List.mem_cons.mp hb with rfl | hb
      · exact h
      · exact trans_of (· < ·) h ((List.pairwise_cons.mp hl).1 b hb)
    · exact hc b hb
  | case5 a left c right hac hca ih =>
    obtain rfl := eq_of_not_lt hac hca
    obtain ⟨ha, hl'⟩ := List.pairwise_cons.mp hl
    obtain ⟨hc, hr'⟩ := List.pairwise_cons.mp hr
    simp only [union, hac, if_false]
    refine List.pairwise_cons.mpr ⟨?_, ih hl' hr'⟩
    intro b hb
    rcases mem_union.mp hb with hb | hb
    · exact ha b hb
    · exact hc b hb

lemma mem_unions {b : α} {sets : List (List α)} : b ∈ unions sets ↔ ∃ set ∈ sets, b ∈ set := by
  induction sets with
  | nil => simp [unions]
  | cons set sets ih =>
    have hs : b ∈ sets.foldr union [] ↔ ∃ set ∈ sets, b ∈ set := ih
    simp only [unions, List.foldr_cons, mem_union, hs, List.mem_cons, exists_eq_or_imp]

lemma pairwise_unions {sets : List (List α)} (h : ∀ set ∈ sets, set.Pairwise (· < ·)) :
    (unions sets).Pairwise (· < ·) := by
  induction sets with
  | nil => exact List.Pairwise.nil
  | cons set sets ih =>
    exact pairwise_union (h set List.mem_cons_self) (ih fun other ho => h other (List.mem_cons_of_mem _ ho))

omit [LT α] [DecidableLT α] [IsStrictTotalOrder α (· < ·)] in
lemma mem_difference [DecidableEq α] {b : α} {left right : List α} :
    b ∈ difference left right ↔ b ∈ left ∧ b ∉ right := by
  simp [difference]

omit [DecidableLT α] [IsStrictTotalOrder α (· < ·)] in
lemma pairwise_difference [DecidableEq α] {left : List α} (right : List α)
    (h : left.Pairwise (· < ·)) : (difference left right).Pairwise (· < ·) :=
  h.sublist List.filter_sublist

omit [DecidableLT α] in
lemma nodup_of_pairwise {items : List α} (h : items.Pairwise (· < ·)) : items.Nodup :=
  h.imp fun {a _} hab => by
    rintro rfl
    exact irrefl_of (· < ·) a hab

omit [DecidableLT α] in
lemma eq_of_mem_iff {left right : List α} (hl : left.Pairwise (· < ·))
    (hr : right.Pairwise (· < ·)) (h : ∀ a, a ∈ left ↔ a ∈ right) : left = right :=
  ((List.perm_ext_iff_of_nodup (nodup_of_pairwise hl) (nodup_of_pairwise hr)).mpr h).eq_of_pairwise
    (fun a _ _ _ hab hba => (irrefl_of (· < ·) a (trans_of (· < ·) hab hba)).elim) hl hr

omit [DecidableLT α] in
lemma length_le_of_subset {left right : List α} (hl : left.Pairwise (· < ·)) (h : left ⊆ right) :
    left.length ≤ right.length :=
  ((nodup_of_pairwise hl).subperm h).length_le

omit [DecidableLT α] in
lemma length_lt_of_subset {left right : List α} (hl : left.Pairwise (· < ·))
    (hr : right.Pairwise (· < ·)) (h : left ⊆ right) (hne : left ≠ right) :
    left.length < right.length := by
  refine Nat.lt_of_le_of_ne (length_le_of_subset hl h) fun he => hne ?_
  have hp := ((nodup_of_pairwise hl).subperm h).perm_of_length_le (Nat.le_of_eq he.symm)
  exact eq_of_mem_iff hl hr fun a => hp.mem_iff

end TigerMips.Ordered
