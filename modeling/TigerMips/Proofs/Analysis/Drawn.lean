import TigerMips.Proofs.Analysis.Faultless
import TigerMips.Proofs.Tac.Step

/-! What code takes from the state of an analysis: temps and labels of its supply, where each label is placed once or
names a string, and returns from the functions that have been declared. -/

namespace TigerMips

def Temp.Below (n : Nat) (temps : List Temp) : Prop := ∀ temp ∈ temps, temp.number < n

namespace Temp

variable {n m : Nat} {temp : Temp} {temps others : List Temp}

@[simp] lemma below_nil : Below n [] := by simp [Below]

@[simp] lemma below_cons : Below n (temp :: temps) ↔ temp.number < n ∧ Below n temps := by simp [Below]

@[simp] lemma below_append : Below n (temps ++ others) ↔ Below n temps ∧ Below n others := by
  simp [Below, or_imp, forall_and]

lemma Below.mono (h : Below n temps) (hle : n ≤ m) : Below m temps := fun temp hm => (h temp hm).trans_le hle

end Temp

namespace Code

def temps (codes : List Code) : List Temp := (ops codes).flatMap (·.2.temps)

@[simp] lemma temps_nil : temps [] = [] := rfl

@[simp] lemma temps_append (first second : List Code) : temps (first ++ second) = temps first ++ temps second := by
  simp [temps, ops]

@[simp] lemma temps_label (place : Label) (rest : List Code) : temps (label place :: rest) = temps rest := rfl

@[simp] lemma temps_op (frame : FrameId) (tac : Tac) (rest : List Code) :
    temps (op frame tac :: rest) = tac.temps ++ temps rest := rfl

@[simp] lemma temps_labeled (place : Label) (frame : FrameId) (tac : Tac) (rest : List Code) :
    temps (labeled place frame tac :: rest) = tac.temps ++ temps rest := rfl

def placings (codes : List Code) (l : Label) : Nat := (labels codes).count l

variable (l place : Label) (frame : FrameId) (tac : Tac) (codes rest : List Code)

@[simp] lemma placings_nil : placings [] l = 0 := rfl

@[simp] lemma placings_append : placings (codes ++ rest) l = placings codes l + placings rest l := by simp [placings]

@[simp] lemma placings_op : placings (op frame tac :: rest) l = placings rest l := rfl

@[simp] lemma placings_label :
    placings (label place :: rest) l = placings rest l + if place = l then 1 else 0 := by
  simp [placings, List.count_cons]

@[simp] lemma placings_labeled :
    placings (labeled place frame tac :: rest) l = placings rest l + if place = l then 1 else 0 := by
  simp [placings, List.count_cons]

def returns (codes : List Code) (frame : FrameId) : Nat := (ops codes).count (frame, .ret)

@[simp] lemma returns_append : returns (codes ++ rest) frame = returns codes frame + returns rest frame := by
  simp [returns, ops]

end Code

def Function.owners (functions : Table) (frame : FrameId) : Nat :=
  functions.items.countP fun f => f.signature.entry.map Entry.frame = some frame

namespace Function

variable {functions functions' : Table} {frame : FrameId}

lemma owners_push (f : Function) : owners (functions.push f) frame =
    owners functions frame + if f.signature.entry.map Entry.frame = some frame then 1 else 0 := by
  simp [owners, Arena.push, List.countP_cons]

lemma owners_grows (hg : functions.Grows Function.Grows functions') (hs : functions'.size = functions.size) :
    owners functions' frame = owners functions frame := by
  have hentries : functions'.items.map (·.signature.entry) = functions.items.map (·.signature.entry) := by
    refine List.ext_getElem? fun i => ?_
    rw [List.getElem?_map, List.getElem?_map]
    cases hf : functions.items[i]? with
    | none =>
      have hi : functions'.items[i]? = none :=
        List.getElem?_eq_none_iff.mpr (hs.trans_le (List.getElem?_eq_none_iff.mp hf))
      rw [hi]
    | some f =>
      obtain ⟨_, hf', calls, names, rfl, -⟩ := hg ⟨i⟩ f hf
      have hi : functions'.items[i]? = _ := hf'
      rw [hi]
      rfl
  have hcount : ∀ table : Table,
      owners table frame = (table.items.map (·.signature.entry)).countP (·.map Entry.frame = some frame) :=
          fun table => by
    simp [owners, List.countP_map, Function.comp_def]
  rw [hcount, hcount, hentries]

end Function

def Analysis.groupOwners (declared : List Declared) (frame : FrameId) : Nat := declared.countP (·.entry.frame = frame)

namespace Analyzer

def budget (s : Analyzer) (l : Label) : Nat :=
  (s.strings.entries.map Prod.fst).count l + if s.supply.labels ≤ l.number then 1 else 0

def Drawn (s : Analyzer) : Prop := ∀ name info, s.values.Binds name (.var info) → info.place.number < s.supply.temps

structure Draws (s t : Analyzer) (codes : List Code) (places : List Access) : Prop where
  labels : ∀ l, Code.placings codes l + t.budget l ≤ s.budget l
  temps : Temp.Below t.supply.temps (Code.temps codes)
  places : Temp.Below t.supply.temps (places.flatMap Access.temps)

variable {s t : Analyzer} {codes : List Code} {places : List Access}

@[simp] lemma budget_withTemp (s : Analyzer) (l : Label) : s.withTemp.budget l = s.budget l := rfl

@[simp] lemma budget_usingRuntime (s : Analyzer) (name : String) (l : Label) :
    (s.usingRuntime name).budget l = s.budget l := rfl

lemma budget_withLabel (s : Analyzer) (l : Label) :
    s.withLabel.budget l + (if (⟨s.supply.labels⟩ : Label) = l then 1 else 0) = s.budget l := by
  obtain ⟨n⟩ := l
  simp only [budget, withLabel, Label.mk.injEq]
  grind

lemma budget_withLabels (s : Analyzer) (l : Label) :
    s.withLabel.withLabel.budget l + (if (⟨s.supply.labels⟩ : Label) = l then 1 else 0) +
      (if (⟨s.supply.labels + 1⟩ : Label) = l then 1 else 0) = s.budget l := by
  have hfirst := budget_withLabel s l
  have hsecond : s.withLabel.withLabel.budget l + (if (⟨s.supply.labels + 1⟩ : Label) = l then 1 else 0) =
      s.withLabel.budget l := budget_withLabel s.withLabel l
  omega

lemma Keeps.drawn (h : s.Keeps t) (hs : s.Drawn) : t.Drawn := fun name info hb =>
  (hs name info (h.values ▸ hb)).trans_le h.temps

lemma Draws.placings_le (h : Draws s t codes places) (hg : s.Grows t) (l : Label) :
    Code.placings codes l ≤ if s.supply.labels ≤ l.number ∧ l.number < t.supply.labels then 1 else 0 := by
  have hstrings := (hg.strings.sublist.map Prod.fst).count_le l
  have hlabels := h.labels l
  unfold budget at hlabels
  split_ifs at hlabels ⊢ <;> omega

lemma Draws.nodup (h : Draws s t codes places) (hg : s.Grows t) : (Code.labels codes).Nodup :=
  List.nodup_iff_count_le_one.mpr fun l => (h.placings_le hg l).trans (by split_ifs <;> omega)

lemma Grows.owners (hg : s.Grows t) (hs : t.functions.size = s.functions.size) (frame : FrameId) :
    Function.owners t.functions frame = Function.owners s.functions frame :=
  Function.owners_grows hg.functions hs

lemma drawn_initial : Analyzer.initial.Drawn := by
  rintro name info ⟨scope, hm, hb⟩
  obtain rfl := List.mem_singleton.mp hm
  obtain ⟨⟨id, f⟩, -, he⟩ := List.mem_map.mp hb
  cases (Prod.mk.inj he).2

end Analyzer

open Analyzer in
lemma Analysis.budget_internString {s t : Analyzer} {text : String} {constant : Const}
    (h : internString text s = (constant, t)) : t.budget = s.budget := by
  rcases internString_eq h with ⟨_, -, -, rfl⟩ | ⟨-, -, rfl⟩
  · rfl
  · funext l
    -- The label that is drawn names the string from now on.
    rw [← budget_withLabel s l]
    simp only [budget, StringTable.add, withLabel, List.map_append, List.count_append, List.map_cons, List.map_nil,
      List.count_singleton, beq_iff_eq]
    omega

end TigerMips
