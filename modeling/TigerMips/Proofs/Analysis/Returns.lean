import TigerMips.Proofs.Analysis.Code
import TigerMips.Proofs.Analysis.Owners

/-! Each declared function returns at one place of the code, which is in its own frame. -/

namespace TigerMips

lemma Function.owners_eq_one {functions : Table} {frame : FrameId} {size : Nat} (h : Apart functions size)
    {id : FunctionId} (ho : Owns functions id frame) : owners functions frame = 1 := by
  obtain ⟨f, entry, hf, he, hframe⟩ := ho
  obtain ⟨before, after, hitems⟩ := List.append_of_mem (functions.mem_items.mpr ⟨id, hf⟩)
  have howns : ∀ {i g}, functions.items[i]? = some g → g.signature.entry.map Entry.frame = some frame →
      Owns functions ⟨i⟩ frame := fun hg hentry => by
    obtain ⟨entry, he, hframe⟩ := Option.map_eq_some_iff.mp hentry
    exact ⟨_, entry, hg, he, hframe⟩
  have hf : functions.items[before.length]? = some f := by simp [hitems]
  have hown : Owns functions ⟨before.length⟩ frame := ⟨f, entry, hf, he, hframe⟩
  have hbefore : before.countP (·.signature.entry.map Entry.frame = some frame) = 0 := by
    refine List.countP_eq_zero.mpr fun g hm hg => ?_
    obtain ⟨i, hi⟩ := List.mem_iff_getElem?.mp hm
    have hlt := (List.getElem?_eq_some_iff.mp hi).1
    have hi' : functions.items[i]? = some g := by rw [hitems, List.getElem?_append_left hlt, hi]
    have := congrArg Index.position (h.unique (howns hi' (of_decide_eq_true hg)) hown)
    simp only at this
    omega
  have hafter : after.countP (·.signature.entry.map Entry.frame = some frame) = 0 := by
    refine List.countP_eq_zero.mpr fun g hm hg => ?_
    obtain ⟨i, hi⟩ := List.mem_iff_getElem?.mp hm
    have hi' : functions.items[before.length + (i + 1)]? = some g := by
      rw [hitems, List.getElem?_append_right (by omega)]
      simpa using hi
    have := congrArg Index.position (h.unique (howns hi' (of_decide_eq_true hg)) hown)
    simp only at this
    omega
  rw [owners, hitems, List.countP_append, List.countP_cons, hbefore, hafter]
  simp [he, hframe]

lemma entered_analyze {expression : Expr} {entry : Entry} (hd : (analyze expression).2.Declares entry) :
    ∃ frame, (analyze expression).2.frames.get? entry.frame = some frame ∧ frame.entry = some entry.label := by
  obtain ⟨id, f, hf, he⟩ := hd
  refine Analysis.invariant_entered.analyze (fun id f entry hf he => ?_) expression id f entry hf he
  rw [Runtime.entry_eq_none hf] at he
  cases he

lemma returns_analyze {expression : Expr} (h : (analyze expression).1 = []) {entry : Entry}
    (hd : (analyze expression).2.Declares entry) : Code.returns (analyze expression).2.codes entry.frame = 1 := by
  have hcounted := (Analysis.traced_analyze Analysis.usage_drawn Analyzer.drawn_initial (fun _ _ => trivial) h).returns
    entry.frame
  have hnone : Function.owners Analyzer.initial.functions entry.frame = 0 := by
    refine List.countP_eq_zero.mpr fun f hm he => ?_
    obtain ⟨id, hf⟩ := Analyzer.initial.functions.mem_items.mp hm
    simp [Runtime.entry_eq_none hf] at he
  obtain ⟨id, f, hf, he⟩ := hd
  have hone := Function.owners_eq_one (Analysis.invariant_owners.analyze Analyzer.owners_initial expression)
    ⟨f, entry, hf, he, rfl⟩
  simp only [Analysis.groupOwners, List.countP_nil] at hcounted
  omega

end TigerMips
