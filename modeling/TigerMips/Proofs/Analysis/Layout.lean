import TigerMips.Proofs.Analysis.Slots
import TigerMips.Proofs.Tac.Run

/-! Where the variables and the values of a program are while its code runs. -/

namespace TigerMips

structure Layout where
  place : Path → Option Temp
  injective : ∀ {one other : Path} {temp : Temp}, place one = some temp → place other = some temp → one = other

namespace Layout

variable {layout : Layout} {cells : Cells} {store middle after : Store} {temp : Temp} {key : Path} {word : Word}
  {first last first' last' : Nat} {slots others : List (Path × Temp)}

def Free (layout : Layout) (temp : Temp) : Prop := ∀ key, layout.place key ≠ some temp

def Agrees (layout : Layout) (cells : Cells) (store : Store) : Prop :=
  ∀ key temp word, layout.place key = some temp → cells key = some word → store.temps temp = word

structure Untouched (layout : Layout) (first last : Nat) (store after : Store) : Prop where
  memory : after.memory = store.memory
  temps : ∀ temp : Temp, temp.number < first ∨ last ≤ temp.number → layout.Free temp →
    after.temps temp = store.temps temp

structure Covers (layout : Layout) (slots : List (Path × Temp)) (first last : Nat) : Prop where
  placed : ∀ slot ∈ slots, layout.place slot.1 = some slot.2
  only : ∀ key temp, layout.place key = some temp → first ≤ temp.number → temp.number < last → (key, temp) ∈ slots

lemma Agrees.put_free (h : layout.Agrees cells store) (hf : layout.Free temp) (word : Word) :
    layout.Agrees cells (store.put temp word) := by
  intro key other value hp hc
  have hne : other ≠ temp := fun he => hf key (he ▸ hp)
  simpa [Store.put, hne] using h key other value hp hc

lemma Agrees.put (h : layout.Agrees cells store) (hp : layout.place key = some temp) (word : Word) :
    layout.Agrees (Function.update cells key (some word)) (store.put temp word) := by
  intro other place value ho hc
  by_cases hk : other = key
  · subst hk
    obtain rfl := Option.some.inj (hp.symm.trans ho)
    simpa [Store.put] using hc
  · have hne : place ≠ temp := fun he => hk (layout.injective ho (he ▸ hp))
    rw [Function.update_of_ne hk] at hc
    simpa [Store.put, hne] using h other place value ho hc

namespace Untouched

lemma refl (layout : Layout) (first last : Nat) (store : Store) : layout.Untouched first last store store :=
  ⟨rfl, fun _ _ _ => rfl⟩

lemma trans (h : layout.Untouched first last store middle) (h' : layout.Untouched first last middle after) :
    layout.Untouched first last store after :=
  ⟨h'.memory.trans h.memory, fun temp hr hf => (h'.temps temp hr hf).trans (h.temps temp hr hf)⟩

lemma mono (h : layout.Untouched first last store after) (hf : first' ≤ first) (hl : last ≤ last') :
    layout.Untouched first' last' store after :=
  ⟨h.memory, fun temp hr => h.temps temp (hr.imp hf.trans_lt' hl.trans)⟩

lemma put (store : Store) (temp : Temp) (word : Word) (hf : first ≤ temp.number) (hl : temp.number < last) :
    layout.Untouched first last store (store.put temp word) := by
  refine ⟨rfl, fun other hr _ => ?_⟩
  have hne : other ≠ temp := by
    rintro rfl
    omega
  simp [Store.put, hne]

lemma put_variable (store : Store) (hp : layout.place key = some temp) (word : Word) :
    layout.Untouched first last store (store.put temp word) := by
  refine ⟨rfl, fun other _ hf => ?_⟩
  have hne : other ≠ temp := fun he => hf key (he ▸ hp)
  simp [Store.put, hne]

end Untouched

namespace Covers

lemma mono (h : layout.Covers slots first last) (hf : first ≤ first') (hl : last' ≤ last) :
    layout.Covers slots first' last' :=
  ⟨h.placed, fun key temp hp hlo hhi => h.only key temp hp (hf.trans hlo) (hhi.trans_le hl)⟩

lemma left {bound : Nat} (h : layout.Covers (slots ++ others) first last) (ho : Laid others last' bound)
    (hl : last' ≤ last) : layout.Covers slots first last' where
  placed slot hm := h.placed slot (List.mem_append_left _ hm)
  only key temp hp hlo hhi := by
    rcases List.mem_append.mp (h.only key temp hp hlo (hhi.trans_le hl)) with hm | hm
    · exact hm
    · exact absurd (ho.within _ hm).1 (Nat.not_le.mpr hhi)

lemma right {bound : Nat} (h : layout.Covers (slots ++ others) first last) (ho : Laid slots bound first')
    (hf : first ≤ first') : layout.Covers others first' last where
  placed slot hm := h.placed slot (List.mem_append_right _ hm)
  only key temp hp hlo hhi := by
    rcases List.mem_append.mp (h.only key temp hp (hf.trans hlo) hhi) with hm | hm
    · exact absurd (ho.within _ hm).2 (Nat.not_lt.mpr hlo)
    · exact hm

lemma head (h : layout.Covers ((key, temp) :: slots) first last) : layout.place key = some temp :=
  h.placed _ List.mem_cons_self

lemma tail (h : layout.Covers ((key, ⟨first⟩) :: slots) first last) : layout.Covers slots (first + 1) last where
  placed slot hm := h.placed slot (List.mem_cons_of_mem _ hm)
  only other temp hp hlo hhi := by
    rcases List.mem_cons.mp (h.only other temp hp (Nat.le_of_succ_le hlo) hhi) with he | hm
    · obtain ⟨-, rfl⟩ := Prod.mk.inj he
      exact absurd hlo (Nat.not_succ_le_self _)
    · exact hm

lemma free {bound : Nat} (h : layout.Covers slots first last) (ho : Laid slots bound first') (hf : first ≤ first')
    (hlo : first' ≤ temp.number) (hhi : temp.number < last) : layout.Free temp := fun key hp =>
  absurd (ho.within _ (h.only key temp hp (hf.trans hlo) hhi)).2 (Nat.not_lt.mpr hlo)

end Covers

end Layout

def Tac.Asks (link : Linkage) (store : Store) : Tac → Request → Prop
  | call _ _ arguments, .call words | callRuntime _ _ arguments, .call words =>
    arguments.map (·.value link store) = words
  | binary .mul _ size factor, .array word => size.value link store = word ∧ factor = .word
  | _, _ => False

inductive Stands (layout : Layout) (link : Linkage) (bound : Nat) (cells : Cells) (store : Store) :
    Access → Reading → Prop
  | scratch {access : Access} {word : Word} (hv : access.value link store = word)
      (hf : ∀ temp ∈ access.temps, temp.number < bound ∧ layout.Free temp) :
      Stands layout link bound cells store access { word }
  | cell {key : Path} {temp : Temp} {word : Word} (hp : layout.place key = some temp) (hlt : temp.number < bound)
      (hc : cells key = some word) : Stands layout link bound cells store (.temp temp) { word, source := key }

namespace Stands

variable {layout : Layout} {link : Linkage} {bound : Nat} {cells : Cells} {store : Store} {access : Access}
  {reading : Reading}

lemma value (h : Stands layout link bound cells store access reading) (ha : layout.Agrees cells store) :
    access.value link store = reading.word := by
  cases h with
  | scratch hv _ => exact hv
  | cell hp _ hc => exact ha _ _ _ hp hc

lemma below (h : Stands layout link bound cells store access reading) : ∀ temp ∈ access.temps, temp.number < bound := by
  cases h with
  | scratch _ hf => exact fun temp hm => (hf temp hm).1
  | cell _ hlt _ => simpa [Access.temps] using hlt

end Stands

def Lasts (layout : Layout) (link : Linkage) (first : Nat) (store : Store) (access : Access)
    (reading : Reading) : Prop :=
  ∀ ⦃last later after word⦄, layout.Untouched first last store after → layout.Agrees later after →
    reading.use true later = some word → access.value link after = word

lemma Stands.lasts {layout : Layout} {link : Linkage} {bound : Nat} {cells : Cells} {store : Store} {access : Access}
    {reading : Reading} (h : Stands layout link bound cells store access reading) :
    Lasts layout link bound store access reading := by
  intro last later after word hu ha hw
  cases h with
  | scratch hv hf =>
    obtain rfl : _ = word := Option.some.inj hw
    rw [← hv]
    exact Access.value_congr (fun temp hm => hu.temps temp (Or.inl (hf temp hm).1) (hf temp hm).2) hu.memory
  | cell hp _ _ => exact ha _ _ _ hp hw

lemma Lasts.later {layout : Layout} {link : Linkage} {first first' last : Nat} {store after : Store} {access : Access}
    {reading : Reading} (h : Lasts layout link first store access reading)
    (hu : layout.Untouched first last store after)
    (hf : first ≤ first') : Lasts layout link first' after access reading :=
  fun last' _ _ _ hu' ha hw =>
    h ((hu.mono le_rfl (le_max_left last last')).trans (hu'.mono hf (le_max_right last last'))) ha hw

end TigerMips
