import TigerMips.Flow.Graph
import TigerMips.Proofs.Arena
import TigerMips.Proofs.Lists
import TigerMips.Proofs.Machine.Step
import TigerMips.Proofs.Ordered

/-! The shape of the graphs that are built from lines. -/

namespace TigerMips.Flow.Graph

open Machine

lemma placed?_lt {blocks : List Block} {label : Label} {id : BlockId} (h : placed? blocks label = some id) :
    id.position < blocks.length := by
  obtain ⟨entry, hf, rfl⟩ := Option.map_eq_some_iff.mp h
  have hm := List.mem_reverse.mp (List.mem_of_find?_eq_some hf)
  exact (List.getElem?_eq_some_iff.mp (List.mem_zipIdx_iff_getElem?.mp hm)).1

lemma place_lt {blocks : List Block} {label : Label} {id : BlockId} (h : place blocks label = .ok id) :
    id.position < blocks.length := by
  unfold place at h
  split at h
  · obtain rfl := Except.ok.inj h
    exact placed?_lt ‹_›
  · cases h

lemma following_lt {blocks : List Block} {position : Nat} :
    ∀ id ∈ following blocks position, id.position < blocks.length := by
  intro id hm
  unfold following at hm
  split at hm
  · obtain rfl := List.mem_singleton.mp hm
    assumption
  · cases hm

lemma targets_lt {blocks : List Block} {frames : Arena .frame Frame} {position : Nat} {block : Block}
    {ids : List BlockId} (h : targets blocks frames position block = .ok ids) :
    ∀ id ∈ ids, id.position < blocks.length := by
  unfold targets at h
  split at h
  · obtain rfl := Except.ok.inj h
    exact following_lt
  · split at h
    · split at h
      · intro id hm
        obtain ⟨label, -, hl⟩ := (List.mapM_eq_ok.mp h).exists_left hm
        exact place_lt hl
      · cases h
    · split at h
      · rename_i instruction _ _ target _
        cases hp : place blocks target with
        | error failure =>
          rw [hp] at h
          cases h
        | ok first =>
          rw [hp] at h
          obtain rfl := Except.ok.inj h
          intro id hm
          rcases List.mem_cons.mp hm with rfl | hm
          · exact place_lt hp
          · split at hm
            · exact following_lt id hm
            · cases hm
      · obtain rfl := Except.ok.inj h
        simp

lemma build_eq_ok {lines : List Line} {frames : Arena .frame Frame} {graph : Graph} :
    build lines frames = .ok graph ↔ ∃ successors,
      List.Forall₂ (fun entry ids => targets (split lines) frames entry.2 entry.1 = .ok ids)
        (split lines).zipIdx successors ∧
      graph = link (split lines) (successors.map Ordered.ofList) := by
  simp only [build, Except.bind_eq_ok, List.mapM_eq_ok, pure, Except.pure, Except.ok.injEq]
  exact exists_congr fun _ => and_congr_right fun _ => eq_comm

lemma get?_link {blocks : List Block} {successors : List (List BlockId)} {id : BlockId} {block : Block}
    (h : (link blocks successors).blocks.get? id = some block) : ∃ source targets,
      blocks[id.position]? = some source ∧ successors[id.position]? = some targets ∧
      block = { source with successors := targets, predecessors := sources successors id } := by
  simp only [link, Arena.get?, List.getElem?_map, List.getElem?_zipIdx] at h
  cases hz : (blocks.zip successors)[id.position]? with
  | none =>
    rw [hz] at h
    cases h
  | some pair =>
    rw [hz] at h
    obtain ⟨hb, ht⟩ := List.getElem?_zip_eq_some.mp hz
    refine ⟨pair.1, pair.2, hb, ht, ?_⟩
    simpa using h.symm

def InRange (graph : Graph) : Prop :=
  ∀ id block, graph.blocks.get? id = some block →
    ∀ next ∈ block.successors, next.position < graph.blocks.size

lemma inRange_of_build {lines : List Line} {frames : Arena .frame Frame} {graph : Graph}
    (h : build lines frames = .ok graph) : graph.InRange := by
  obtain ⟨successors, hs, rfl⟩ := build_eq_ok.mp h
  have hsize : (link (split lines) (successors.map Ordered.ofList)).blocks.size = (split lines).length := by
    have hl := hs.length_eq
    simp only [List.length_zipIdx] at hl
    simp [link, Arena.size, hl]
  intro id block hb next hn
  obtain ⟨source, targets, -, ht, rfl⟩ := get?_link hb
  rw [List.getElem?_map] at ht
  obtain ⟨ids, hi, rfl⟩ := Option.map_eq_some_iff.mp ht
  obtain ⟨entry, -, he⟩ := hs.exists_left (List.mem_of_getElem? hi)
  rw [hsize]
  exact targets_lt he next (Ordered.mem_ofList.mp hn)

lemma labels_splitFrom (current : Block) (lines : List Line) :
    (splitFrom current lines).flatMap Block.labels = current.labels ++ Line.labels lines := by
  induction lines generalizing current with
  | nil =>
    unfold splitFrom
    split
    · rename_i he
      simp only [Block.isEmpty, Bool.and_eq_true, List.isEmpty_iff] at he
      simp [he.1]
    · simp
  | cons line rest ih =>
    cases line with
    | label place =>
      unfold splitFrom
      split <;> simp [ih]
    | instruction instruction =>
      unfold splitFrom
      simp only
      split <;> simp [ih]

lemma mem_lines_of_mem_splitFrom {current : Block} {lines : List Line} {block : Block}
    (hb : block ∈ splitFrom current lines) {i : Instruction} (hi : i ∈ block.instructions) :
    i ∈ current.instructions ∨ .instruction i ∈ lines := by
  induction lines generalizing current with
  | nil =>
    unfold splitFrom at hb
    split at hb
    · cases hb
    · obtain rfl := List.mem_singleton.mp hb
      exact Or.inl hi
  | cons line rest ih =>
    cases line with
    | label place =>
      unfold splitFrom at hb
      split at hb
      · exact (ih hb).imp_right (List.mem_cons_of_mem _)
      · rcases List.mem_cons.mp hb with rfl | hb
        · exact Or.inl hi
        · exact Or.inr (List.mem_cons_of_mem _ ((ih hb).resolve_left (by simp)))
    | instruction instruction =>
      have hlast : i ∈ current.instructions ++ [instruction] →
          i ∈ current.instructions ∨ Line.instruction i ∈ Line.instruction instruction :: rest := fun hm => by
        simpa using (List.mem_append.mp hm).imp_right fun h => Or.inl (List.mem_singleton.mp h)
      unfold splitFrom at hb
      simp only at hb
      split at hb
      · rcases List.mem_cons.mp hb with rfl | hb
        · exact hlast hi
        · exact Or.inr (List.mem_cons_of_mem _ ((ih hb).resolve_left (by simp)))
      · rcases ih hb with hm | hm
        · exact hlast hm
        · exact Or.inr (List.mem_cons_of_mem _ hm)

lemma place_ok {lines : List Line} {label : Label} (h : label ∈ Line.labels lines) :
    ∃ id, place (split lines) label = .ok id := by
  have hlabels := labels_splitFrom {} lines
  rw [List.nil_append] at hlabels
  rw [← hlabels] at h
  obtain ⟨block, hb, hl⟩ := List.mem_flatMap.mp h
  obtain ⟨position, hp⟩ := List.mem_iff_getElem?.mp hb
  have hm : (block, position) ∈ (split lines).zipIdx.reverse :=
    List.mem_reverse.mpr (List.mem_zipIdx_iff_getElem?.mpr hp)
  unfold place placed?
  cases hf : (split lines).zipIdx.reverse.find? fun entry => label ∈ entry.1.labels with
  | none => exact absurd hl (by simpa using List.find?_eq_none.mp hf _ hm)
  | some entry => exact ⟨⟨entry.2⟩, rfl⟩

lemma targets_ok {lines : List Line} {frames : Arena .frame Frame} (hw : Line.Within frames.size lines)
    (ht : Line.targets lines ⊆ Line.labels lines)
    (hr : ∀ id f, frames.get? id = some f → ∀ place ∈ f.returns, place ∈ Line.labels lines) (position : Nat)
    {block : Block} (hb : block ∈ split lines) : ∃ ids, targets (split lines) frames position block = .ok ids := by
  unfold targets
  cases hterm : block.terminator? with
  | none => exact ⟨_, rfl⟩
  | some instruction =>
    have hi : .instruction instruction ∈ lines := by
      obtain ⟨hlast, -⟩ := Option.filter_eq_some_iff.mp hterm
      exact (mem_lines_of_mem_splitFrom hb (List.mem_of_getLast? hlast)).resolve_left (by simp)
    simp only
    split
    · obtain ⟨f, hf⟩ := frames.exists_get?.mpr (hw instruction hi)
      simp only [hf]
      exact List.mapM_ok fun place hm => place_ok (hr _ f hf place hm)
    · split
      · rename_i target htarget
        obtain ⟨id, hid⟩ := place_ok (ht (List.mem_filterMap.mpr ⟨_, hi, htarget⟩))
        exact ⟨_, by rw [hid]; rfl⟩
      · exact ⟨_, rfl⟩

lemma build_ok {lines : List Line} {frames : Arena .frame Frame} (hw : Line.Within frames.size lines)
    (ht : Line.targets lines ⊆ Line.labels lines)
    (hr : ∀ id f, frames.get? id = some f → ∀ place ∈ f.returns, place ∈ Line.labels lines) :
    ∃ graph, build lines frames = .ok graph := by
  have hall : ∀ entry ∈ (split lines).zipIdx, ∃ ids, targets (split lines) frames entry.2 entry.1 = .ok ids :=
    fun entry hm => targets_ok hw ht hr entry.2 (List.mem_of_getElem? (List.mem_zipIdx_iff_getElem?.mp hm))
  obtain ⟨successors, hs⟩ := List.mapM_ok hall
  exact ⟨_, build_eq_ok.mpr ⟨successors, List.mapM_eq_ok.mp hs, rfl⟩⟩

end TigerMips.Flow.Graph
