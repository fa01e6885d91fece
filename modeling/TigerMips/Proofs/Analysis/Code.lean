import TigerMips.Proofs.Analysis.Confined
import TigerMips.Proofs.Analysis.Frames

/-! Instructions can be selected for each program without errors: its jumps and calls lead to labels of its code. -/

namespace TigerMips

lemma Analysis.invariant_implemented : Invariant fun s => ∀ id frame label, s.frames.get? id = some frame →
    frame.entry = some label → ∃ owner f entry, s.functions.get? owner = some f ∧ f.signature.entry = some entry ∧
      entry.label = label where
  same h hf hg _ _ := by rwa [hf, hg]
  newLabel h := h
  newTemp h id frame label hf he := by
    obtain ⟨frame₀, hf₀, ⟨-, rfl⟩ | rfl⟩ := Arena.get?_modify_cases hf
    · exact h id frame₀ label hf₀ he
    · exact h id frame label hf₀ he
  internString hi h := by
    rcases internString_eq hi with ⟨_, -, -, rfl⟩ | ⟨-, -, rfl⟩ <;> exact h
  functions functions hg _ h id frame label hf he := by
    obtain ⟨owner, f, entry, hfound, hentry⟩ := h id frame label hf he
    obtain ⟨_, hnew, calls, names, rfl, -⟩ := hg owner f hfound
    exact ⟨owner, _, entry, hnew, hentry⟩
  declare {s} name params result h id frame label hf he := by
    rcases Arena.get?_push_cases hf with ⟨-, rfl⟩ | hf
    · exact ⟨_, _, _, (Arena.get?_push _ _ _).trans (if_pos rfl), rfl, Option.some.inj he⟩
    · obtain ⟨owner, f, entry, hfound, hentry⟩ := h id frame label hf he
      obtain ⟨_, hfound', calls, names, rfl, -⟩ := Arena.Grows.push (R := Function.Grows) s.functions
        { name, signature := ⟨params, result, some (declaredAs s name params result).entry⟩ } owner f hfound
      exact ⟨owner, _, entry, hfound', hentry⟩

lemma mem_labels_analyze {expression : Expr} (h : (analyze expression).1 = []) {entry : Entry}
    (hd : (analyze expression).2.Declares entry) : entry.label ∈ Code.labels (analyze expression).2.codes := by
  obtain ⟨placed, xs, hcodes, -, hentries⟩ := owned_analyze h
  obtain ⟨-, x, hx, hl, -⟩ := hentries entry hd
  rw [← hcodes]
  exact List.mem_filterMap.mpr ⟨x.code, List.mem_map_of_mem hx, hl⟩

lemma Tac.callee?_or_jump? {tac : Tac} {target : Label} (h : target ∈ tac.target?) :
    target ∈ tac.callee? ∨ target ∈ tac.jump? := by
  cases tac <;> first | exact Or.inl h | exact Or.inr h

lemma selectable_analyze {expression : Expr} (h : (analyze expression).1 = []) :
    (analyze expression).2.Selectable := by
  obtain ⟨placed, xs, hcodes, hinside, -⟩ := owned_analyze h
  have htraced := Analysis.traced_analyze Analysis.usage_drawn Analyzer.drawn_initial (fun _ _ => trivial) h
  have htarget : ∀ code ∈ (analyze expression).2.codes, ∀ op ∈ code.op?, ∀ target ∈ op.2.target?,
      target ∈ Code.labels (analyze expression).2.codes := by
    intro code hm op hop target ht
    rcases Tac.callee?_or_jump? ht with hcall | hjump
    · obtain ⟨callee, -, frame, hframe, hentry⟩ :=
        htraced.calls op (List.mem_filterMap.mpr ⟨code, hm, hop⟩) target hcall
      obtain ⟨owner, f, entry, hf, he, rfl⟩ := Analysis.invariant_implemented.analyze (fun id frame label hf he => by
        obtain rfl := List.mem_singleton.mp (List.mem_of_getElem? hf)
        cases he) expression callee frame target hframe hentry
      exact mem_labels_analyze h ⟨owner, f, hf, he⟩
    · obtain ⟨x, hx, rfl⟩ := List.mem_map.mp (hcodes ▸ hm)
      rcases hinside.jumps x hx target (by simpa [Code.jump?, Option.mem_def.mp hop] using hjump) with
        ⟨y, hy, hl, -⟩ | ⟨-, hleaves⟩
      · exact List.mem_filterMap.mpr ⟨y.code, hcodes ▸ List.mem_map_of_mem hy, hl⟩
      · cases hleaves
  have hsound := Analysis.sound_lowerExpr expression
  refine ⟨fun code hm => ?_, hsound.mainFrame, hsound.returns⟩
  cases code with
  | label place => trivial
  | op frame tac | labeled place frame tac =>
    obtain ⟨hframe, hselectable⟩ := htraced.selectable (frame, tac) (List.mem_filterMap.mpr ⟨_, hm, rfl⟩)
    exact ⟨hframe, hselectable, fun target ht => Or.inl (htarget _ hm _ rfl target ht)⟩

end TigerMips
