import Mathlib.Data.Set.Card
import Mathlib.Logic.Relation
import TigerMips.Proofs.Arena
import TigerMips.Ty

/-! Chains of names that are bound to names. Where few names can be reached, the bounded searches along a chain find
every cycle and every end. -/

namespace TigerMips

lemma transGen_back {α : Type} {r r' : α → α → Prop} (hr : Relator.RightUnique r') (hle : ∀ a b, r a b → r' a b)
    {a b : α} (ha : Relation.TransGen r a a) (hb : Relation.ReflTransGen r' a b) :
    Relation.TransGen r b a ∧ Relation.ReflTransGen r a b := by
  induction hb with
  | refl => exact ⟨ha, .refl⟩
  | tail _ hstep ih =>
    obtain ⟨next, hnext, hback⟩ := Relation.TransGen.head'_iff.mp ih.1
    obtain rfl := hr hstep (hle _ _ hnext)
    exact ⟨.trans_right hback ha, ih.2.tail hnext⟩

namespace TypeTable

variable {table inner : TypeTable} {id other last : TypeNameId} {n : Nat}

lemma binding?_bind (table : TypeTable) (id other : TypeNameId) (ty : Ty) : (table.bind id ty).binding? other =
    if other = id ∧ id.position < table.bindings.size then some ty else table.binding? other := by
  unfold binding? bind
  rw [Arena.get?_set]
  split <;> rfl

def next? (table : TypeTable) (id : TypeNameId) : Option TypeNameId :=
  match table.binding? id with
  | some (.name next _) => some next
  | _ => none

def Follows (table : TypeTable) (first second : TypeNameId) : Prop := table.next? first = some second

def reachable (table : TypeTable) (id : TypeNameId) : Set TypeNameId :=
  {other | Relation.ReflTransGen table.Follows id other}

def hop (table : TypeTable) : Nat → TypeNameId → Option TypeNameId
  | 0, id => some id
  | steps + 1, id => (table.next? id).bind (table.hop steps)

lemma next?_eq_some : table.next? id = some other ↔ ∃ text, table.binding? id = some (.name other text) := by
  unfold next?
  split
  · rename_i hb
    simp [hb]
  · rename_i hb
    simpa using fun text h => hb other text h

lemma lt_size_of_follows (h : table.Follows id other) : id.position < table.bindings.size := by
  obtain ⟨text, hb⟩ := next?_eq_some.mp h
  exact table.bindings.lt_size (Option.join_eq_some_iff.mp hb)

lemma next?_congr (h : inner.binding? id = table.binding? id) : inner.next? id = table.next? id := by
  unfold next?
  rw [h]

lemma next?_bind_int (table : TypeTable) (id other : TypeNameId) :
    (table.bind id .int).next? other = if other = id then none else table.next? other := by
  by_cases he : other = id
  · rw [if_pos he, Option.eq_none_iff_forall_ne_some]
    intro next hn
    have hlt : id.position < table.bindings.size := by
      have hlt := lt_size_of_follows hn
      rwa [he, show (table.bind id .int).bindings.size = table.bindings.size from Arena.size_set _ _ _] at hlt
    obtain ⟨text, hb⟩ := next?_eq_some.mp hn
    rw [binding?_bind, if_pos ⟨he, hlt⟩] at hb
    cases hb
  · rw [if_neg he]
    refine next?_congr ?_
    rw [binding?_bind, if_neg fun h => he h.1]

lemma hop_add (m n : Nat) (id : TypeNameId) : table.hop (m + n) id = (table.hop m id).bind (table.hop n) := by
  induction m generalizing id with
  | zero => simp [hop]
  | succ m ih =>
    rw [Nat.succ_add, hop, hop, Option.bind_assoc]
    congr 1
    funext next
    exact ih next

lemma hop_succ (h : table.hop n id = some last) : table.hop (n + 1) id = table.next? last := by
  rw [hop_add, h, Option.bind_some, hop]
  cases table.next? last <;> rfl

lemma reflTransGen_iff : Relation.ReflTransGen table.Follows id other ↔ ∃ n, table.hop n id = some other := by
  constructor
  · intro h
    induction h with
    | refl => exact ⟨0, rfl⟩
    | tail _ hf ih =>
      obtain ⟨n, hn⟩ := ih
      exact ⟨n + 1, (hop_succ hn).trans hf⟩
  · rintro ⟨n, hn⟩
    induction n generalizing id with
    | zero =>
      obtain rfl := Option.some.inj hn
      exact .refl
    | succ n ih =>
      obtain ⟨next, hf, hn⟩ := Option.bind_eq_some_iff.mp hn
      exact .head hf (ih hn)

lemma transGen_iff : Relation.TransGen table.Follows id other ↔ ∃ n, table.hop (n + 1) id = some other := by
  rw [Relation.TransGen.head'_iff]
  simp only [reflTransGen_iff, hop, Option.bind_eq_some_iff]
  exact ⟨fun ⟨next, hf, n, hn⟩ => ⟨n, next, hf, hn⟩, fun ⟨n, next, hf, hn⟩ => ⟨next, hf, n, hn⟩⟩

lemma follows_unique : Relator.RightUnique table.Follows := fun _ _ _ h h' => Option.some.inj (h.symm.trans h')

lemma hop_mono (h : ∀ first second, inner.Follows first second → table.Follows first second)
    (hn : inner.hop n id = some other) : table.hop n id = some other := by
  induction n generalizing id with
  | zero => exact hn
  | succ n ih =>
    obtain ⟨next, hf, hn⟩ := Option.bind_eq_some_iff.mp hn
    exact Option.bind_eq_some_iff.mpr ⟨next, h _ _ hf, ih hn⟩

lemma hop_congr (h : ∀ other ∈ table.reachable id, inner.next? other = table.next? other) (n : Nat) :
    inner.hop n id = table.hop n id := by
  induction n generalizing id with
  | zero => rfl
  | succ n ih =>
    rw [hop, hop, h id .refl]
    cases hf : table.next? id with
    | none => rfl
    | some next => exact ih fun other ho => h other (.head hf ho)

lemma reachable_mono (h : ∀ first second, inner.Follows first second → table.Follows first second) (id : TypeNameId) :
    inner.reachable id ⊆ table.reachable id :=
  fun other ho => Relation.ReflTransGen.mono h id other ho

lemma leadsTo_iff {steps : Nat} : table.leadsTo other steps (table.binding? id) = true ↔
    ∃ n < steps, table.hop (n + 1) id = some other := by
  induction steps generalizing id with
  | zero => simp [leadsTo]
  | succ steps ih =>
    cases hf : table.next? id with
    | none =>
      have hl : table.leadsTo other (steps + 1) (table.binding? id) = false := by
        unfold leadsTo
        split
        · rename_i hb
          rw [next?_eq_some.mpr ⟨_, hb⟩] at hf
          cases hf
        · rfl
      simp [hl, hop, hf]
    | some next =>
      obtain ⟨text, hb⟩ := next?_eq_some.mp hf
      simp only [hb, leadsTo, Bool.or_eq_true, decide_eq_true_eq, ih, hop, hf, Option.bind_some]
      constructor
      · rintro (rfl | ⟨n, hn, h⟩)
        · exact ⟨0, by omega, rfl⟩
        · exact ⟨n + 1, by omega, h⟩
      · rintro ⟨n, hn, h⟩
        cases n with
        | zero => exact Or.inl (Option.some.inj h)
        | succ n => exact Or.inr ⟨n, by omega, h⟩

lemma isCycle_iff : table.isCycle id = true ↔ ∃ n ≤ maxChain, table.hop (n + 1) id = some id := by
  simp only [isCycle, leadsTo_iff, Nat.lt_succ_iff]

lemma transGen_of_isCycle (h : table.isCycle id = true) : Relation.TransGen table.Follows id id := by
  obtain ⟨n, -, hn⟩ := isCycle_iff.mp h
  exact transGen_iff.mpr ⟨n, hn⟩

lemma isCycle_eq_false (h : table.next? id = none) : table.isCycle id = false := by
  rw [Bool.eq_false_iff]
  intro hc
  obtain ⟨n, -, hn⟩ := isCycle_iff.mp hc
  rw [hop, h] at hn
  cases hn

lemma isCycle_mono (h : ∀ first second, inner.Follows first second → table.Follows first second)
    (hc : table.isCycle id = false) : inner.isCycle id = false := by
  rw [Bool.eq_false_iff] at hc ⊢
  intro hi
  obtain ⟨n, hle, hn⟩ := isCycle_iff.mp hi
  exact hc (isCycle_iff.mpr ⟨n, hle, hop_mono h hn⟩)

lemma isCycle_congr (h : ∀ other ∈ table.reachable id, inner.next? other = table.next? other) :
    inner.isCycle id = table.isCycle id := by
  rw [Bool.eq_iff_iff, isCycle_iff, isCycle_iff]
  simp only [hop_congr h]

lemma encard_reachable_le (hid : id.position < table.bindings.size)
    (h : ∀ first second, table.Follows first second → second.position < table.bindings.size) :
    (table.reachable id).encard ≤ table.bindings.size := by
  have hsub : table.reachable id ⊆ Index.mk '' Set.Iio table.bindings.size := by
    intro other ho
    refine ⟨other.position, ?_, rfl⟩
    cases ho with
    | refl => exact hid
    | tail _ hf => exact h _ _ hf
  calc (table.reachable id).encard ≤ (Index.mk '' Set.Iio table.bindings.size).encard := Set.encard_le_encard hsub
    _ ≤ (Set.Iio table.bindings.size).encard := Set.encard_image_le _ _
    _ = table.bindings.size := by rw [← Finset.coe_Iio, Set.encard_coe_eq_coe_finsetCard, Nat.card_Iio]

lemma exists_hop_eq (hsize : (table.reachable id).encard ≤ n) (hn : table.hop n id = some last) :
    ∃ i j, i < j ∧ j ≤ n ∧ table.hop i id = table.hop j id := by
  by_contra hne
  have hinj : Set.InjOn (fun i => table.hop i id) (Set.Iic n) := by
    intro i hi j hj he
    rcases Nat.lt_trichotomy i j with hij | rfl | hij
    · exact absurd ⟨i, j, hij, hj, he⟩ hne
    · rfl
    · exact absurd ⟨j, i, hij, hi, he.symm⟩ hne
  have hsub : (fun i => table.hop i id) '' Set.Iic n ⊆ some '' table.reachable id := by
    rintro _ ⟨i, hi, rfl⟩
    rw [show n = i + (n - i) from (Nat.add_sub_cancel' hi).symm, hop_add] at hn
    obtain ⟨passed, hp, -⟩ := Option.bind_eq_some_iff.mp hn
    exact ⟨passed, reflTransGen_iff.mpr ⟨i, hp⟩, hp.symm⟩
  have hcard : ((n + 1 : Nat) : ℕ∞) ≤ n := by
    calc ((n + 1 : Nat) : ℕ∞) = (Set.Iic n).encard := by
          rw [← Finset.coe_Iic, Set.encard_coe_eq_coe_finsetCard, Nat.card_Iic]
      _ = ((fun i => table.hop i id) '' Set.Iic n).encard := hinj.encard_image.symm
      _ ≤ (some '' table.reachable id).encard := Set.encard_le_encard hsub
      _ = (table.reachable id).encard := (Option.some_injective _).encard_image _
      _ ≤ n := hsize
  exact absurd (Nat.cast_le.mp hcard) (by omega)

lemma isCycle_of_transGen (hsize : (table.reachable id).encard ≤ maxChain)
    (h : Relation.TransGen table.Follows id id) : table.isCycle id = true := by
  classical
  have hreturns := transGen_iff.mp h
  -- on the way to the first return every name is passed once
  have hmin := fun k => Nat.find_min (m := k) hreturns
  have hfind := Nat.find_spec hreturns
  generalize Nat.find hreturns = n at hfind hmin
  refine isCycle_iff.mpr ⟨n, ?_, hfind⟩
  by_contra hlong
  have hpassed : ∃ last, table.hop n id = some last := by
    rw [hop_add] at hfind
    obtain ⟨last, hl, -⟩ := Option.bind_eq_some_iff.mp hfind
    exact ⟨last, hl⟩
  obtain ⟨last, hl⟩ := hpassed
  obtain ⟨i, j, hij, hj, he⟩ := exists_hop_eq (hsize.trans (Nat.cast_le.mpr (Nat.le_of_not_le hlong))) hl
  have hshort : table.hop (i + (n - j) + 1) id = some id := by
    rw [Nat.add_assoc, hop_add, he, ← hop_add]
    rwa [show j + (n - j + 1) = n + 1 by omega]
  exact hmin (i + (n - j)) (by omega) hshort

lemma exists_last (hsize : (table.reachable id).encard ≤ n)
    (h : ∀ other ∈ table.reachable id, ¬ Relation.TransGen table.Follows other other) :
    ∃ k < n, ∃ last, table.hop k id = some last ∧ table.next? last = none := by
  by_contra hnone
  have hgoes : ∀ k ≤ n, ∃ last, table.hop k id = some last := by
    intro k
    induction k with
    | zero => exact fun _ => ⟨id, rfl⟩
    | succ k ih =>
      intro hk
      obtain ⟨last, hl⟩ := ih (by omega)
      rw [hop_succ hl]
      refine Option.ne_none_iff_exists'.mp fun hend => hnone ⟨k, hk, last, hl, hend⟩
  obtain ⟨_, hn⟩ := hgoes n le_rfl
  obtain ⟨i, j, hij, hj, he⟩ := exists_hop_eq hsize hn
  obtain ⟨passed, hp⟩ := hgoes i (by omega)
  refine h passed (reflTransGen_iff.mpr ⟨i, hp⟩) (transGen_iff.mpr ⟨j - i - 1, ?_⟩)
  have hback : table.hop j id = some passed := he ▸ hp
  rwa [show j = i + (j - i - 1 + 1) by omega, hop_add, hp] at hback

lemma follow_of_hop {k steps : Nat} {text : String} {ty : Ty} (hk : table.hop k id = some last) (hlt : k < steps)
    (hend : table.next? last = none) (hb : table.binding? last = some ty) :
    table.follow steps (.name id text) = ty := by
  induction k generalizing id text steps with
  | zero =>
    obtain rfl := Option.some.inj hk
    obtain ⟨steps, rfl⟩ := Nat.exists_eq_succ_of_ne_zero (Nat.ne_of_gt hlt)
    simp only [follow, hb]
    cases ty with
    | name next text => simp [next?_eq_some.mpr ⟨text, hb⟩] at hend
    | _ => cases steps <;> rfl
  | succ k ih =>
    obtain ⟨next, hf, hk⟩ := Option.bind_eq_some_iff.mp hk
    obtain ⟨steps, rfl⟩ := Nat.exists_eq_succ_of_ne_zero (Nat.ne_of_gt (Nat.zero_lt_of_lt hlt))
    obtain ⟨text', hb'⟩ := next?_eq_some.mp hf
    simp only [follow, hb']
    exact ih hk (by omega)

lemma actual_ne_name (hsize : (table.reachable id).encard ≤ maxChain)
    (h : ∀ other ∈ table.reachable id, ¬ Relation.TransGen table.Follows other other)
    (hbound : ∀ other ∈ table.reachable id, (table.binding? other).isSome) (text : String) :
    ∀ other text', table.actual (.name id text) ≠ .name other text' := by
  obtain ⟨k, hk, last, hl, hend⟩ := exists_last hsize h
  obtain ⟨ty, hb⟩ := Option.isSome_iff_exists.mp (hbound last (reflTransGen_iff.mpr ⟨k, hl⟩))
  intro other text' ha
  rw [actual, follow_of_hop hl hk hend hb] at ha
  rw [next?_eq_some.mpr ⟨text', ha ▸ hb⟩] at hend
  cases hend

end TypeTable

end TigerMips
