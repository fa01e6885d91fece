import Mathlib.Tactic
import TigerMips.Proofs.Arena
import TigerMips.Select.Basic

/-! What the parts of a selection return, and the temps and labels that they draw. -/

namespace TigerMips

def Selection.drawn (s : Selection) (frame : FrameId) (temps labels : Nat) : Selection where
  frames := s.frames.modify frame fun f =>
    { f with locals := f.locals ++ (List.range' s.supply.temps temps).map Temp.mk }
  supply := ⟨s.supply.temps + temps, s.supply.labels + labels⟩

namespace Selection

variable (s : Selection) (frame : FrameId) (m n k l : Nat)

@[simp] lemma drawn_temps : (s.drawn frame m n).supply.temps = s.supply.temps + m := rfl

@[simp] lemma drawn_labels : (s.drawn frame m n).supply.labels = s.supply.labels + n := rfl

@[simp] lemma drawn_size : (s.drawn frame m n).frames.size = s.frames.size := by simp [drawn]

lemma drawn_no_temps : s.drawn frame 0 n = { s with supply.labels := s.supply.labels + n } := by
  have hid : (fun f : Frame => { f with locals := f.locals ++ (List.range' s.supply.temps 0).map Temp.mk }) = id := by
    funext f
    simp
  rw [drawn, hid, Arena.modify_id]
  rfl

lemma drawn_zero : s.drawn frame 0 0 = s := drawn_no_temps s frame 0

lemma drawn_drawn : (s.drawn frame m n).drawn frame k l = s.drawn frame (m + k) (n + l) := by
  simp only [drawn, Arena.modify_modify, Nat.add_assoc]
  congr 2
  funext f
  simp [← List.map_append]

end Selection

namespace Select

variable {α β : Type} {s s' : Selection}

lemma bind_eq_ok {m : Select α} {f : α → Select β} {b : β} :
    (m >>= f) s = .ok (b, s') ↔ ∃ a t, m s = .ok (a, t) ∧ f a t = .ok (b, s') := by
  change (m s >>= fun p => f p.1 p.2) = _ ↔ _
  cases hm : m s with
  | error failure => simp [bind, Except.bind]
  | ok p => simp [bind, Except.bind, Prod.ext_iff]

lemma pure_eq_ok {a b : α} : (pure a : Select α) s = .ok (b, s') ↔ b = a ∧ s' = s := by
  change Except.ok (a, s) = _ ↔ _
  simp [Prod.ext_iff, eq_comm]

lemma pure_pair_eq_ok {a a' : α} {b b' : β} :
    (pure (a, b) : Select (α × β)) s = .ok ((a', b'), s') ↔ a' = a ∧ b' = b ∧ s' = s := by
  rw [pure_eq_ok, Prod.mk.injEq, and_assoc]

lemma get_bind (f : Selection → Select α) : (get >>= f) s = f s s := rfl

lemma throw_ne_ok {failure : Failure} {a : α} : (throw failure : Select α) s ≠ .ok (a, s') := by
  change Except.error failure ≠ _
  simp

lemma newTempIn_apply (frame : FrameId) (s : Selection) : newTempIn frame s =
    if frame.position < s.frames.size then .ok (⟨s.supply.temps⟩, s.drawn frame 1 0)
    else .error (.missingFrame frame) := by
  unfold newTempIn
  rw [get_bind]
  cases hf : s.frames.get? frame with
  | none =>
    have hn := s.frames.get?_eq_none.mp hf
    rw [if_neg (by omega)]
    rfl
  | some f =>
    rw [if_pos (s.frames.lt_size hf)]
    rfl

lemma newTempIn_eq_ok {frame : FrameId} {t : Temp} : newTempIn frame s = .ok (t, s') ↔
    frame.position < s.frames.size ∧ t = ⟨s.supply.temps⟩ ∧ s' = s.drawn frame 1 0 := by
  rw [newTempIn_apply]
  split <;> simp_all [eq_comm]

lemma newLabel_ok (frame : FrameId) : newLabel s = .ok (⟨s.supply.labels⟩, s.drawn frame 0 1) := by
  rw [Selection.drawn_no_temps]
  rfl

lemma newTempIn_bind {frame : FrameId} {f : Temp → Select α} {a : α} (h : (newTempIn frame >>= f) s = .ok (a, s')) :
    f ⟨s.supply.temps⟩ (s.drawn frame 1 0) = .ok (a, s') := by
  obtain ⟨_, _, ht, h⟩ := bind_eq_ok.mp h
  obtain ⟨-, rfl, rfl⟩ := newTempIn_eq_ok.mp ht
  exact h

lemma newLabel_bind (frame : FrameId) {f : Label → Select α} {a : α} (h : (newLabel >>= f) s = .ok (a, s')) :
    f ⟨s.supply.labels⟩ (s.drawn frame 0 1) = .ok (a, s') := by
  obtain ⟨_, _, hl, h⟩ := bind_eq_ok.mp h
  cases (newLabel_ok frame).symm.trans hl
  exact h

end Select

end TigerMips
