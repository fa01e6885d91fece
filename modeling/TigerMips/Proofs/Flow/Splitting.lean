import TigerMips.Proofs.Flow.Blocks

/-! Blocks hold the lines they are made of, in order, and are cut only at jumps and labels. The block of a label is
known when its line is read. -/

namespace TigerMips.Flow

open Machine

/-- The blocks are the lines in order. They are cut behind each jump and in front of labels, and nowhere else. -/
structure Partitions (blocks : List Block) (lines : List Line) : Prop where
  lines_eq : blocks.flatMap (fun block => block.labels.map .label ++ block.instructions.map .instruction) = lines
  nonempty : ∀ block ∈ blocks, block.labels ≠ [] ∨ block.instructions ≠ []
  jumps : ∀ block ∈ blocks, ∀ i ∈ block.instructions.dropLast, i.operation.isJump = false
  cuts : blocks.IsChain fun block next =>
    block.instructions ≠ [] ∧ (block.terminator?.isSome = true ∨ next.labels ≠ [])

lemma partitions_map_bare {blocks : List Block} {lines : List Line} :
    Partitions (blocks.map Block.bare) lines ↔ Partitions blocks lines := by
  have hiff : Partitions (blocks.map Block.bare) lines ↔ _ ∧ _ ∧ _ ∧ _ :=
    ⟨fun h => ⟨h.lines_eq, h.nonempty, h.jumps, h.cuts⟩, fun ⟨hl, hn, hj, hc⟩ => ⟨hl, hn, hj, hc⟩⟩
  rw [hiff, List.flatMap_map, List.forall_mem_map, List.forall_mem_map, List.isChain_map]
  exact ⟨fun ⟨hl, hn, hj, hc⟩ => ⟨hl, hn, hj, hc⟩, fun h => ⟨h.lines_eq, h.nonempty, h.jumps, h.cuts⟩⟩

lemma head?_splitFrom {current : Block} {lines : List Line} {first : Block}
    (h : first ∈ (splitFrom current lines).head?) : current.labels <+: first.labels := by
  induction lines generalizing current with
  | nil =>
    unfold splitFrom at h
    split at h
    · cases h
    · obtain rfl := Option.some.inj h
      exact List.prefix_rfl
  | cons line rest ih =>
    cases line with
    | label place =>
      unfold splitFrom at h
      split at h
      · exact (List.prefix_append _ _).trans (ih h)
      · obtain rfl := Option.some.inj h
        exact List.prefix_rfl
    | instruction instruction =>
      unfold splitFrom at h
      simp only at h
      split at h
      · obtain rfl := Option.some.inj h
        exact List.prefix_rfl
      · have hlabels := ih h
        exact hlabels

lemma isChain_splitFrom (current : Block) (lines : List Line) : (splitFrom current lines).IsChain fun block next =>
    block.instructions ≠ [] ∧ (block.terminator?.isSome = true ∨ next.labels ≠ []) := by
  induction lines generalizing current with
  | nil =>
    unfold splitFrom
    split <;> simp
  | cons line rest ih =>
    cases line with
    | label place =>
      unfold splitFrom
      split
      · exact ih _
      · rename_i he
        refine List.isChain_cons.mpr ⟨fun next hn => ⟨by simpa using he, Or.inr fun hnil => ?_⟩, ih _⟩
        have hprefix := head?_splitFrom hn
        rw [hnil] at hprefix
        exact List.cons_ne_nil _ _ (List.prefix_nil.mp hprefix)
    | instruction instruction =>
      unfold splitFrom
      simp only
      split
      · rename_i hj
        exact List.isChain_cons.mpr ⟨fun next hn => ⟨by simp, Or.inl (by simp [Block.terminator?, hj])⟩, ih _⟩
      · exact ih _

lemma partitions_split (lines : List Line) : Partitions (split lines) lines where
  lines_eq := lines_split lines
  nonempty block hb := by
    have hlines := (formed_split hb).ne_nil
    rw [Block.lines, ne_eq, List.append_eq_nil_iff, List.map_eq_nil_iff, List.map_eq_nil_iff] at hlines
    exact not_and_or.mp hlines
  jumps _ hb := (formed_split hb).straight
  cuts := isChain_splitFrom {} lines

def notedFrom (finished : Nat) (hasInstructions : Bool) : List Line → List (Label × BlockId)
  | [] => []
  | .label label :: rest =>
    let block := if hasInstructions then finished + 1 else finished
    (label, ⟨block⟩) :: notedFrom block false rest
  | .instruction instruction :: rest =>
    if instruction.operation.isJump then notedFrom (finished + 1) false rest else notedFrom finished true rest

def noted (lines : List Line) : List (Label × BlockId) := notedFrom 0 false lines

def placings (blocks : List Block) (first : Nat) : List (Label × BlockId) :=
  (blocks.zipIdx first).flatMap fun entry => entry.1.labels.map (·, ⟨entry.2⟩)

lemma placings_cons (block : Block) (rest : List Block) (first : Nat) :
    placings (block :: rest) first = block.labels.map (·, ⟨first⟩) ++ placings rest (first + 1) := rfl

lemma placings_splitFrom (current : Block) (lines : List Line) (finished : Nat) :
    placings (splitFrom current lines) finished =
      current.labels.map (·, ⟨finished⟩) ++ notedFrom finished (!current.instructions.isEmpty) lines := by
  induction lines generalizing current finished with
  | nil =>
    unfold splitFrom
    split
    · rename_i he
      simp only [Block.isEmpty, Bool.and_eq_true, List.isEmpty_iff] at he
      simp [placings, notedFrom, he.1]
    · simp [placings, notedFrom]
  | cons line rest ih =>
    cases line with
    | label place =>
      unfold splitFrom notedFrom
      split
      · rename_i he
        simp [ih, he]
      · rename_i he
        simp [placings_cons, ih, he]
    | instruction instruction =>
      unfold splitFrom notedFrom
      simp only
      split
      · simp [placings_cons, ih]
      · have hsome : (current.instructions ++ [instruction]).isEmpty = false := by
          rw [List.isEmpty_eq_false_iff]
          simp
        simp [ih, hsome]

lemma placings_split (lines : List Line) : placings (split lines) 0 = noted lines := placings_splitFrom {} lines 0

lemma lookup_placing (labels : List Label) (block : BlockId) (label : Label) :
    (labels.map (·, block)).lookup label = if label ∈ labels then some block else none := by
  induction labels with
  | nil => rfl
  | cons first rest ih =>
    rw [List.map_cons, List.lookup_cons, ih]
    by_cases h : label = first
    · simp [h]
    · simp [beq_eq_false_iff_ne.mpr h, h]

lemma lookup_flatMap {α : Type} (items : List α) (f : α → List (Label × BlockId)) (label : Label) :
    (items.flatMap f).lookup label = items.findSome? fun item => (f item).lookup label := by
  induction items with
  | nil => rfl
  | cons first rest ih =>
    rw [List.flatMap_cons, List.lookup_append, ih, List.findSome?_cons]
    cases (f first).lookup label <;> rfl

lemma placed?_eq_lookup (blocks : List Block) (label : Label) :
    Graph.placed? blocks label = (placings blocks 0).reverse.lookup label := by
  rw [placings, List.reverse_flatMap, lookup_flatMap, Graph.placed?]
  simp only [Function.comp_def, ← List.map_reverse, lookup_placing, List.mem_reverse]
  induction blocks.zipIdx.reverse with
  | nil => rfl
  | cons first rest ih =>
    rw [List.find?_cons, List.findSome?_cons]
    by_cases h : label ∈ first.1.labels <;> simp [h, ih]

namespace Graph

variable {lines : List Line} {frames : Arena .frame Frame} {graph : Graph}

lemma map_bare_of_build (h : build lines frames = .ok graph) :
    graph.blocks.items.map Block.bare = (split lines).map Block.bare := by
  obtain ⟨successors, hs, rfl⟩ := build_eq_ok.mp h
  exact bare_link (by simpa using hs.length_eq)

lemma blockOf?_eq_some {label : Label} {id : BlockId} (h : graph.blockOf? label = some id) :
    ∃ block, graph.blocks.get? id = some block ∧ label ∈ block.labels := by
  obtain ⟨entry, hf, rfl⟩ := Option.map_eq_some_iff.mp h
  exact ⟨entry.2, (Arena.mem_entries _).mp (List.mem_of_find?_eq_some hf), by simpa using List.find?_some hf⟩

lemma exists_blockOf? {label : Label} {id : BlockId} {block : Block} (hb : graph.blocks.get? id = some block)
    (hl : label ∈ block.labels) : ∃ id, graph.blockOf? label = some id := by
  have hfound : (graph.blocks.entries.find? fun entry => label ∈ entry.2.labels).isSome := by
    rw [List.find?_isSome]
    exact ⟨(id, block), (Arena.mem_entries _).mpr hb, by simpa using hl⟩
  obtain ⟨entry, he⟩ := Option.isSome_iff_exists.mp hfound
  exact ⟨entry.1, by rw [blockOf?, he, Option.map_some]⟩

lemma placed?_of_blockOf? (hn : (graph.blocks.items.flatMap Block.labels).Nodup) {label : Label} {id : BlockId}
    (h : graph.blockOf? label = some id) : placed? graph.blocks.items label = some id := by
  obtain ⟨block, hb, hl⟩ := blockOf?_eq_some h
  have happart := (List.nodup_flatMap.mp hn).2
  refine placed?_eq_some.mpr ⟨⟨block, hb, hl⟩, fun m hm other ho hother => ?_⟩
  obtain ⟨hi, rfl⟩ := List.getElem?_eq_some_iff.mp hb
  obtain ⟨hj, rfl⟩ := List.getElem?_eq_some_iff.mp ho
  exact List.pairwise_iff_getElem.mp happart _ _ hi hj hm hl hother

/-- The blocks of a graph are a partition of its lines. If the labels of the lines are distinct, the block that has a
label is the one noted for it when it was read, and the one that jumps to the label lead to. -/
theorem build_partitions (h : build lines frames = .ok graph) : Partitions graph.blocks.items lines ∧
    ((Line.labels lines).Nodup → ∀ label ∈ Line.labels lines, ∃ id, graph.blockOf? label = some id ∧
      (noted lines).reverse.lookup label = some id ∧ place (split lines) label = .ok id ∧
      ∀ source block, graph.blocks.get? source = some block → label ∈ block.exits frames → id ∈ block.successors) := by
  have hbare := map_bare_of_build h
  refine ⟨partitions_map_bare.mp (hbare ▸ partitions_map_bare.mpr (partitions_split lines)), fun hn label hl => ?_⟩
  have hlabels : graph.blocks.items.flatMap Block.labels = Line.labels lines := by
    have hsame : ∀ blocks : List Block, (blocks.map Block.bare).flatMap Block.labels = blocks.flatMap Block.labels :=
      fun blocks => List.flatMap_map _ _ blocks
    rw [← hsame, hbare, hsame]
    exact labels_splitFrom {} lines
  rw [← hlabels] at hn hl
  obtain ⟨block, hm, hblock⟩ := List.mem_flatMap.mp hl
  obtain ⟨_, hb⟩ := (Arena.mem_items _).mp hm
  obtain ⟨id, hid⟩ := exists_blockOf? hb hblock
  have hplaced := placed?_of_blockOf? hn hid
  have hsplit : placed? (split lines) label = some id := (placed?_congr hbare label).symm.trans hplaced
  refine ⟨id, hid, ?_, place_eq_ok.mpr hsplit, fun source block hs he => ?_⟩
  · rw [← placings_split, ← placed?_eq_lookup, hsplit]
  · exact ((built_of_build h).successors source block hs id).mpr (Or.inl ⟨label, he, hplaced⟩)

def labelRuns : List Line :=
  [.label ⟨0⟩, .label ⟨1⟩, .instruction ⟨⟨0⟩, .addImmediate ⟨1⟩ ⟨1⟩ (.int (-1)), false⟩,
    .label ⟨2⟩, .instruction ⟨⟨0⟩, .branch .leq ⟨1⟩ ⟨0⟩ ⟨4⟩, false⟩, .instruction ⟨⟨0⟩, .jump ⟨1⟩, false⟩,
    .label ⟨3⟩, .label ⟨4⟩]

theorem labelRuns_partitions : (Line.labels labelRuns).Nodup ∧ ∃ graph, build labelRuns {} = .ok graph ∧
    Partitions graph.blocks.items labelRuns ∧ graph.blocks.size = 4 ∧
    ∃ id, graph.blockOf? ⟨4⟩ = some id ∧ place (split labelRuns) ⟨4⟩ = .ok id := by
  have hn : (Line.labels labelRuns).Nodup := by decide
  have hbuild : ((build labelRuns {}).toOption.map (·.blocks.size)) = some 4 := by decide
  cases hg : build labelRuns {} with
  | error failure => simp [hg, Except.toOption] at hbuild
  | ok graph =>
    obtain ⟨hpartitions, hlabels⟩ := build_partitions hg
    obtain ⟨id, hid, -, hplace, -⟩ := hlabels hn ⟨4⟩ (by decide)
    exact ⟨hn, graph, rfl, hpartitions, by simpa [hg, Except.toOption] using hbuild, id, hid, hplace⟩

end Graph

end TigerMips.Flow
