import Mathlib.Tactic.Lemma
import TigerMips.Fixpoint

/-! Sweeps without a limit, and when a limit on their number makes no difference. -/

namespace TigerMips

lemma foldl_cases {σ ι : Type} {step : σ × Bool → ι → σ × Bool} {P : σ → Prop} {Done : σ → ι → Prop} {size : σ → Nat}
    (items : List ι) (hstep : ∀ item ∈ items, ∀ state changed, P state →
      step (state, changed) item = (state, changed) ∧ Done state item ∨
      P (step (state, changed) item).1 ∧ (step (state, changed) item).2 = true ∧
        size state < size (step (state, changed) item).1)
    (state : σ) (changed : Bool) (hs : P state) :
    P (items.foldl step (state, changed)).1 ∧
      (items.foldl step (state, changed) = (state, changed) ∧ (∀ item ∈ items, Done state item) ∨
        (items.foldl step (state, changed)).2 = true ∧
          size state < size (items.foldl step (state, changed)).1) := by
  induction items generalizing state changed with
  | nil => exact ⟨hs, Or.inl ⟨rfl, by simp⟩⟩
  | cons item rest ih =>
    have hrest := ih fun other hm => hstep other (List.mem_cons_of_mem _ hm)
    rw [List.foldl_cons]
    rcases hstep item List.mem_cons_self state changed hs with ⟨he, hd⟩ | ⟨hp, hc, hlt⟩
    · rw [he]
      obtain ⟨hp, hr⟩ := hrest state changed hs
      refine ⟨hp, hr.imp_left fun hr => ⟨hr.1, fun other hm => ?_⟩⟩
      rcases List.mem_cons.mp hm with rfl | hm
      · exact hd
      · exact hr.2 other hm
    · obtain ⟨hp', hr⟩ := hrest _ (step (state, changed) item).2 hp
      refine ⟨hp', Or.inr ?_⟩
      rcases hr with ⟨hr, -⟩ | ⟨hc', hr⟩
      · rw [hr]
        exact ⟨hc, hlt⟩
      · exact ⟨hc', Nat.lt_trans hlt hr⟩

inductive Sweeps {σ : Type} (sweep : σ → σ × Bool) : σ → σ → Nat → Prop
  | last {state} : (sweep state).2 = false → Sweeps sweep state (sweep state).1 1
  | again {state result count} : (sweep state).2 = true →
      Sweeps sweep (sweep state).1 result count → Sweeps sweep state result (count + 1)

namespace Sweeps

variable {σ : Type} {sweep : σ → σ × Bool}

lemma exists_last {P : σ → Prop} (keep : ∀ state, P state → P (sweep state).1)
    {start result : σ} {count : Nat} (h : Sweeps sweep start result count) (hs : P start) :
    ∃ state, P state ∧ (sweep state).2 = false ∧ (sweep state).1 = result := by
  induction h with
  | last hl => exact ⟨_, hs, hl, rfl⟩
  | again _ _ ih => exact ih (keep _ hs)

lemma of_limit {P : σ → Prop} {size : σ → Nat} {bound : Nat}
    (keep : ∀ state, P state → P (sweep state).1)
    (grow : ∀ state, P state → (sweep state).2 = true → size state < size (sweep state).1)
    (small : ∀ state, P state → size state ≤ bound)
    (limit : Nat) (start : σ) (hs : P start) (hl : bound < size start + limit) :
    Sweeps sweep start (sweepUntilStable sweep limit start).1
      (sweepUntilStable sweep limit start).2 := by
  induction limit generalizing start with
  | zero => exact absurd (small start hs) (by omega)
  | succ limit ih =>
    cases hc : (sweep start).2 with
    | false => simpa [sweepUntilStable, hc] using Sweeps.last hc
    | true =>
      have hg := grow start hs hc
      have hr := Sweeps.again hc (ih (sweep start).1 (keep start hs) (by omega))
      simpa [sweepUntilStable, hc] using hr

end Sweeps

end TigerMips
