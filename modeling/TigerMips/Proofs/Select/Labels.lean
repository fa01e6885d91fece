import TigerMips.Proofs.Select.Simulation
import TigerMips.Proofs.Select.Total

/-! The labels of the lines that are selected for code: those of the code in their order, and among
them the labels drawn for calls and for runtime functions, each of them once. -/

namespace TigerMips

lemma Label.nodup_range (first count : Nat) : (range first count).Nodup :=
  List.Nodup.map (fun _ _ h => Label.mk.inj h) List.nodup_range'

namespace Select

open Machine

variable {registers : Registers} {graph : CallGraph} {start : Nat} {s t : Selection} {lines : List Line}
  {saves : List CallSave}

lemma Selected.labels {context : Context} {tac : Tac} (h : Selected context graph start s tac lines saves t) :
    ∃ n, t.supply.labels = s.supply.labels + n ∧ Line.labels lines = Label.range s.supply.labels n := by
  cases h with
  | ret => exact ⟨0, rfl, rfl⟩
  | call id f hfound _ hp ht hlines k => exact ⟨1, rfl, by rw [hlines, labels_callLines _ _ _ _ _ _ hp.1 ht.1]; rfl⟩
  | other hcall hret k l hlays => exact ⟨l, rfl, hlays.1⟩

lemma labels_code {c : Code} (h : Select.code registers graph start c s = .ok ((lines, saves), t)) :
    ∃ n, t.supply.labels = s.supply.labels + n ∧
      Line.labels lines = Code.labels [c] ++ Label.range s.supply.labels n := by
  cases c with
  | label place =>
    obtain ⟨rfl, -, rfl⟩ := pure_pair_eq_ok.mp h
    exact ⟨0, rfl, rfl⟩
  | op frame tac => exact Selected.labels (selected_operation h)
  | labeled place frame tac =>
    obtain ⟨_, _, hrun, h⟩ := bind_eq_ok.mp h
    obtain ⟨rfl, -, rfl⟩ := pure_pair_eq_ok.mp h
    obtain ⟨n, hn, hlabels⟩ := (selected_operation hrun).labels
    exact ⟨n, hn, by simp [hlabels]⟩

def Mixed (codes : List Code) (i j : Nat) (lines : List Line) : Prop :=
  ∃ n, j = i + n ∧ (Line.labels lines).Perm (Code.labels codes ++ Label.range i n) ∧
    (Code.labels codes).Sublist (Line.labels lines)

lemma Mixed.cons {code : Code} {rest : List Code} {first second : List Line} {i k n : Nat}
    (h : Line.labels first = Code.labels [code] ++ Label.range i n) (h' : Mixed rest (i + n) k second) :
    Mixed (code :: rest) i k (first ++ second) := by
  obtain ⟨m, rfl, hperm, hsub⟩ := h'
  have hcons : Code.labels (code :: rest) = Code.labels [code] ++ Code.labels rest :=
    Code.labels_append [code] rest
  rw [Mixed, hcons, Line.labels_append, h]
  refine ⟨n + m, Nat.add_assoc _ _ _, ?_, (List.sublist_append_left _ _).append hsub⟩
  rw [← Label.range_append, List.append_assoc, List.append_assoc]
  refine List.Perm.append_left _ ((hperm.append_left _).trans ?_)
  rw [← List.append_assoc, ← List.append_assoc]
  exact List.perm_append_comm.append_right _

lemma mixed_codes {codes : List Code} (h : Select.codes registers graph start codes s = .ok ((lines, saves), t)) :
    Mixed codes s.supply.labels t.supply.labels lines := by
  induction codes generalizing start s lines saves with
  | nil =>
    obtain ⟨rfl, -, rfl⟩ := pure_pair_eq_ok.mp h
    exact ⟨0, rfl, .refl _, .refl _⟩
  | cons code rest ih =>
    obtain ⟨⟨first, _⟩, s₁, hfirst, h⟩ := bind_eq_ok.mp h
    obtain ⟨⟨others, _⟩, s₂, hrest, h⟩ := bind_eq_ok.mp h
    obtain ⟨rfl, -, rfl⟩ := pure_pair_eq_ok.mp h
    obtain ⟨n, hn, hlabels⟩ := labels_code hfirst
    exact .cons hlabels (hn ▸ ih hrest)

lemma mixed_generate {program : Tac.Program} {machine : Machine.Program} (h : program.generate = .ok machine) :
    ∃ j, Mixed program.codes program.supply.labels j machine.lines := by
  obtain ⟨s, saves, t, hreserve, hcodes⟩ := generate_eq_ok h
  obtain ⟨-, rfl⟩ := reserve_eq_ok hreserve
  exact ⟨_, mixed_codes hcodes⟩

end Select

end TigerMips
