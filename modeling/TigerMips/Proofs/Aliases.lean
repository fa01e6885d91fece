import TigerMips.Proofs.Chain

/-! Names that stand for a type through other names. As long as there are no more of them than bindings are followed,
they cannot be told from the type. -/

namespace TigerMips

namespace TypeTable

/-- A type stands for another one through a number of names. Each of them is bound to the next one, and the last one to
the type. -/
inductive Aliases (table : TypeTable) : Nat → Ty → Ty → Prop
  | none (ty : Ty) : Aliases table 0 ty ty
  | name {n : Nat} {id : TypeNameId} {next last : Ty} (text : String) (hb : table.binding? id = some next)
      (h : Aliases table n next last) : Aliases table (n + 1) (.name id text) last

variable {table : TypeTable} {m n : Nat} {first last : Ty}

lemma Aliases.follow (h : table.Aliases (m + n) first last) : table.Aliases n (table.follow m first) last := by
  induction m generalizing first with
  | zero =>
    rw [Nat.zero_add] at h
    cases first <;> exact h
  | succ m ih =>
    rw [Nat.succ_add] at h
    cases h with
    | name text hb h =>
      simp only [TypeTable.follow, hb]
      exact ih h

lemma Aliases.follow_eq (h : table.Aliases n first last) (hlast : ∀ id text, last ≠ .name id text) {steps : Nat}
    (hn : n ≤ steps) : table.follow steps first = last := by
  induction h generalizing steps with
  | none ty =>
    cases ty with
    | name id text => exact absurd rfl (hlast id text)
    | _ => cases steps <;> rfl
  | name text hb _ ih =>
    obtain ⟨steps, rfl⟩ := Nat.exists_eq_succ_of_ne_zero (Nat.ne_of_gt (Nat.zero_lt_of_lt hn))
    simp only [TypeTable.follow, hb]
    exact ih hlast (Nat.le_of_succ_le_succ hn)

lemma Aliases.exists_actual_eq (h : table.Aliases n first last) (hn : maxChain < n) :
    table.Aliases (n - maxChain) (table.actual first) last ∧ ∃ id text, table.actual first = .name id text := by
  have hleft : table.Aliases (n - maxChain) (table.actual first) last :=
    Aliases.follow (by rwa [Nat.add_sub_cancel' hn.le])
  refine ⟨hleft, ?_⟩
  cases hk : n - maxChain with
  | zero => omega
  | succ k =>
    rw [hk] at hleft
    generalize table.actual first = reached at hleft ⊢
    cases hleft with
    | name text hb _ => exact ⟨_, text, rfl⟩

lemma fits_eq_false {one other : Ty} {id : TypeNameId} {text : String} (hone : table.actual one = .name id text)
    (hother : ∀ id text, table.actual other ≠ .name id text) :
    table.fits one other = false ∧ table.fits other one = false := by
  unfold fits
  rw [hone]
  cases ha : table.actual other with
  | name id' text' => exact absurd ha (hother id' text')
  | _ => exact ⟨rfl, rfl⟩

/-- A name that stands for a type through at most `maxChain` names resolves to it and fits as it does. Through more
names it resolves to one of them, which does not fit the type. -/
theorem transparent_of_aliases (h : table.Aliases n first last) (hlast : ∀ id text, last ≠ .name id text) :
    (n ≤ maxChain → table.actual first = last ∧ ∀ other,
      table.fits first other = table.fits last other ∧ table.fits other first = table.fits other last) ∧
    (maxChain < n → table.Aliases (n - maxChain) (table.actual first) last ∧
      table.fits first last = false ∧ table.fits last first = false) := by
  have hself : table.actual last = last := (Aliases.none last).follow_eq hlast (Nat.zero_le maxChain)
  constructor
  · intro hn
    have hactual : table.actual first = last := h.follow_eq hlast hn
    refine ⟨hactual, fun other => ?_⟩
    unfold fits
    rw [hactual, hself]
    exact ⟨rfl, rfl⟩
  · intro hn
    obtain ⟨hleft, id, text, hname⟩ := h.exists_actual_eq hn
    exact ⟨hleft, fits_eq_false hname (hself.symm ▸ hlast)⟩

def chained (count : Nat) : TypeTable where
  bindings := ⟨(List.range count).map fun i => some (if i + 1 < count then .name ⟨i + 1⟩ "alias" else .int)⟩

lemma binding?_chained {count i : Nat} (hi : i < count) : (chained count).binding? ⟨i⟩ =
    some (if i + 1 < count then .name ⟨i + 1⟩ "alias" else .int) := by
  simp [binding?, chained, Arena.get?, List.getElem?_map, List.getElem?_range hi]

lemma aliases_chained {count i left : Nat} (hi : i + left + 1 = count) :
    (chained count).Aliases (left + 1) (.name ⟨i⟩ "alias") .int := by
  refine .name "alias" (binding?_chained (by omega)) ?_
  induction left generalizing i with
  | zero =>
    rw [if_neg (by omega)]
    exact .none .int
  | succ left ih =>
    rw [if_pos (by omega)]
    exact .name "alias" (binding?_chained (by omega)) (ih (by omega))

theorem chained_transparent : (chained 1024).Aliases 1024 (.name ⟨0⟩ "alias") .int ∧
    (chained 1024).actual (.name ⟨0⟩ "alias") = .int ∧ (chained 1024).fits (.name ⟨0⟩ "alias") .int = true ∧
    (chained 1024).fits .nil (.name ⟨0⟩ "alias") = false := by
  have haliases : (chained 1024).Aliases 1024 (.name ⟨0⟩ "alias") .int := aliases_chained rfl
  obtain ⟨hactual, hfits⟩ := (transparent_of_aliases haliases (by simp)).1 (by decide)
  exact ⟨haliases, hactual, (hfits .int).1.trans rfl, (hfits .nil).2.trans rfl⟩

/-- One name more does not stand for the type any longer. -/
theorem chained_stops_early : (chained 1025).Aliases 1025 (.name ⟨0⟩ "alias") .int ∧
    (chained 1025).actual (.name ⟨0⟩ "alias") ≠ .int ∧
    (chained 1025).fits (.name ⟨0⟩ "alias") .int ≠ (chained 1025).fits .int .int ∧
    (chained 1025).fits .int (.name ⟨0⟩ "alias") ≠ (chained 1025).fits .int .int := by
  have haliases : (chained 1025).Aliases 1025 (.name ⟨0⟩ "alias") .int := aliases_chained rfl
  obtain ⟨-, id, text, hname⟩ := haliases.exists_actual_eq (by decide)
  have hint : ∀ id text, (chained 1025).actual .int ≠ .name id text := by simp [actual, TypeTable.follow]
  obtain ⟨hgiven, hneeded⟩ := fits_eq_false hname hint
  have hself : (chained 1025).fits .int .int = true := rfl
  rw [hname, hgiven, hneeded, hself]
  exact ⟨haliases, by simp, by simp, by simp⟩

end TypeTable

end TigerMips
