import TigerMips.Proofs.Analysis.Drawn
import TigerMips.Proofs.Analysis.Invariant

/-! The frames of a program: each function finds its arguments in temps of its own, and has an entry
of its own. -/

namespace TigerMips

structure Frame.Drawn (supply : Supply) (f : Frame) : Prop where
  nodup : f.params.Nodup
  display : f.display ∉ f.params
  params : Temp.Below supply.temps f.params
  entry : ∀ l ∈ f.entry, l.number < supply.labels

structure Frame.Separate (frames : Arena .frame Frame) (supply : Supply) : Prop where
  drawn : ∀ id f, frames.get? id = some f → f.Drawn supply
  entries : ∀ {id f id' f' l}, frames.get? id = some f → frames.get? id' = some f' → f.entry = some l →
    f'.entry = some l → id = id'

lemma Frame.Drawn.mono {supply supply' : Supply} {f g : Frame} (h : f.Drawn supply) (hg : f.Alike g)
    (ht : supply.temps ≤ supply'.temps) (hl : supply.labels ≤ supply'.labels) : g.Drawn supply' where
  nodup := hg.params ▸ h.nodup
  display := by rw [hg.params, hg.display]; exact h.display
  params := hg.params ▸ h.params.mono ht
  entry l hm := (h.entry l (hg.entry ▸ hm)).trans_le hl

namespace Frame.Separate

variable {frames : Arena .frame Frame} {supply supply' : Supply}

lemma mono (h : Separate frames supply) (ht : supply.temps ≤ supply'.temps) (hl : supply.labels ≤ supply'.labels) :
    Separate frames supply' :=
  ⟨fun id f hf => (h.drawn id f hf).mono (.refl f) ht hl, h.entries⟩

lemma modify (h : Separate frames supply) (id : FrameId) {f : Frame → Frame} (hf : ∀ g, Frame.Alike g (f g)) :
    Separate (frames.modify id f) supply := by
  have hback : ∀ other g, (frames.modify id f).get? other = some g →
      ∃ g₀, frames.get? other = some g₀ ∧ Frame.Alike g₀ g := by
    intro other g hg
    obtain ⟨g₀, hg₀, ⟨-, rfl⟩ | rfl⟩ := Arena.get?_modify_cases hg
    · exact ⟨g₀, hg₀, hf g₀⟩
    · exact ⟨g, hg₀, .refl g⟩
  constructor
  · intro other g hg
    obtain ⟨g₀, hg₀, halike⟩ := hback other g hg
    exact (h.drawn other g₀ hg₀).mono halike le_rfl le_rfl
  · intro i f₁ j f₂ l h₁ h₂ e₁ e₂
    obtain ⟨g₁, hg₁, a₁⟩ := hback i f₁ h₁
    obtain ⟨g₂, hg₂, a₂⟩ := hback j f₂ h₂
    exact h.entries hg₁ hg₂ (a₁.entry ▸ e₁) (a₂.entry ▸ e₂)

lemma push (h : Separate frames supply) {f : Frame} (hf : f.Drawn supply')
    (hnew : ∀ l ∈ f.entry, supply.labels ≤ l.number) (ht : supply.temps ≤ supply'.temps)
    (hl : supply.labels ≤ supply'.labels) : Separate (frames.push f) supply' := by
  have hother : ∀ {id g l}, frames.get? id = some g → g.entry = some l → f.entry ≠ some l := by
    intro id g l hg he hc
    have := (h.drawn id g hg).entry l he
    have := hnew l hc
    omega
  constructor
  · intro id g hg
    rcases Arena.get?_push_cases hg with ⟨-, rfl⟩ | hold
    · exact hf
    · exact (h.drawn id g hold).mono (.refl g) ht hl
  · intro i f₁ j f₂ l h₁ h₂ e₁ e₂
    rcases Arena.get?_push_cases h₁ with ⟨rfl, rfl⟩ | hold₁ <;> rcases Arena.get?_push_cases h₂ with ⟨rfl, rfl⟩ | hold₂
    · rfl
    · exact absurd e₁ (hother hold₂ e₂)
    · exact absurd e₂ (hother hold₁ e₁)
    · exact h.entries hold₁ hold₂ e₁ e₂

end Frame.Separate

namespace Analysis

open Analyzer

lemma drawn_declaredFrame (s : Analyzer) (name : String) (params : Nat) (result : Ty) {more : Nat}
    (hm : params ≤ more) :
    (declaredFrame s name params result).Drawn ⟨s.supply.temps + 1 + more, s.supply.labels + 1⟩ where
  nodup := by
    have hrange : (List.range' (s.supply.temps + 1) params).Nodup := List.nodup_range'
    exact hrange.map fun _ _ => Temp.mk.inj
  display := by simp [declaredFrame]
  params temp hp := by
    obtain ⟨n, hn, rfl⟩ := List.mem_map.mp hp
    have := List.mem_range'_1.mp hn
    change n < s.supply.temps + 1 + more
    omega
  entry := by simp [declaredFrame]

lemma invariant_separate : Invariant fun s => Frame.Separate s.frames s.supply where
  same h hf _ _ hs := by rwa [hf, hs]
  newLabel h := h.mono le_rfl (Nat.le_succ _)
  newTemp {s} h := by
    have hsupply : Frame.Separate s.frames ⟨s.supply.temps + 1, s.supply.labels⟩ := h.mono (Nat.le_succ _) le_rfl
    exact hsupply.modify s.currentFrame (f := (·.addLocal ⟨s.supply.temps⟩)) fun _ => ⟨rfl, rfl, rfl⟩
  internString hi h := by
    rcases internString_eq hi with ⟨_, -, -, rfl⟩ | ⟨-, -, rfl⟩
    · exact h
    · exact h.mono le_rfl (Nat.le_succ _)
  functions _ _ _ h := h
  declare {s} name params result h := by
    refine h.push (drawn_declaredFrame s _ _ _ ?_) (by simp [declaredFrame]) ?_ (Nat.le_succ _)
    · split <;> omega
    · change s.supply.temps ≤ s.supply.temps + 1 + _
      omega

lemma invariant_entered : Invariant fun s => ∀ id f entry, s.functions.get? id = some f →
    f.signature.entry = some entry →
    ∃ frame, s.frames.get? entry.frame = some frame ∧ frame.entry = some entry.label where
  same h hf hg _ _ := by rwa [hf, hg]
  newLabel h := h
  newTemp {s} h id f entry hf he := by
    obtain ⟨frame, hframe, hl⟩ := h id f entry hf he
    simp only [withTemp, Arena.get?_modify, hframe]
    split
    · exact ⟨_, rfl, hl⟩
    · exact ⟨frame, rfl, hl⟩
  internString hi h := by
    rcases internString_eq hi with ⟨_, -, -, rfl⟩ | ⟨-, -, rfl⟩ <;> exact h
  functions {s} functions hg hsize h id g entry hf he := by
    obtain ⟨f, hold⟩ := s.functions.exists_get?.mpr (hsize ▸ functions.lt_size hf)
    obtain ⟨_, hnew, calls, names, rfl, -⟩ := hg id f hold
    obtain rfl := Option.some.inj (hf.symm.trans hnew)
    exact h id f entry hold he
  declare {s} name params result h id f entry hf he := by
    rcases Arena.get?_push_cases hf with ⟨-, rfl⟩ | hf
    · obtain rfl := Option.some.inj he
      exact ⟨_, by rw [Arena.get?_push]; exact if_pos rfl, rfl⟩
    · obtain ⟨frame, hframe, hl⟩ := h id f entry hf he
      obtain ⟨_, hframe', more, rfl⟩ := Arena.Grows.push (R := Frame.Grows) s.frames
        (declaredFrame s name params.length result) entry.frame frame hframe
      exact ⟨_, hframe', hl⟩

end Analysis

lemma separate_analyze (expression : Expr) :
    Frame.Separate (analyze expression).2.frames (analyze expression).2.supply := by
  refine Analysis.invariant_separate.analyze ⟨fun id f hf => ?_, fun {id f id' f' l} hf _ he _ => ?_⟩ expression
  · obtain rfl := List.mem_singleton.mp (List.mem_of_getElem? hf)
    exact ⟨by simp, by simp, by simp, by simp⟩
  · obtain rfl := List.mem_singleton.mp (List.mem_of_getElem? hf)
    cases he

end TigerMips
