import TigerMips.Proofs.Flow.Graph
import TigerMips.Proofs.Machine.Control

/-! Where the lines of a program stand in its blocks, and which blocks control goes to after a block. -/

namespace TigerMips.Flow

open Machine

namespace Block

def lines (block : Block) : List Line := block.labels.map .label ++ block.instructions.map .instruction

def fallsThrough (block : Block) : Bool := block.instructions.getLast?.all (·.operation.fallsThrough)

def exits (frames : Arena .frame Frame) (block : Block) : List Label :=
  block.instructions.getLast?.elim [] (Instruction.exits frames)

structure Formed (block : Block) : Prop where
  ne_nil : block.lines ≠ []
  straight : ∀ i ∈ block.instructions.dropLast, i.operation.isJump = false

lemma length_lines (block : Block) : block.lines.length = block.labels.length + block.instructions.length := by
  simp [lines]

lemma getElem?_lines_eq_label {block : Block} {j : Nat} {place : Label} :
    block.lines[j]? = some (.label place) ↔ block.labels[j]? = some place := by
  rw [lines, List.getElem?_append]
  split
  · simp
  · rename_i h
    rw [List.length_map] at h
    simp [List.getElem?_eq_none (Nat.not_lt.mp h)]

lemma getElem?_lines_instruction (block : Block) (j : Nat) :
    block.lines[block.labels.length + j]? = (block.instructions[j]?).map .instruction := by
  simp [lines, List.getElem?_append_right]

lemma mem_exits {frames : Arena .frame Frame} {block : Block} {place : Label} :
    place ∈ block.exits frames ↔ ∃ i, block.instructions.getLast? = some i ∧ place ∈ i.exits frames := by
  unfold exits
  cases block.instructions.getLast? <;> simp

lemma fallsThrough_eq_true {block : Block} :
    block.fallsThrough = true ↔ ∀ i, block.instructions.getLast? = some i → i.operation.fallsThrough = true := by
  unfold fallsThrough
  cases block.instructions.getLast? <;> simp

end Block

lemma lines_splitFrom (current : Block) (lines : List Line) :
    (splitFrom current lines).flatMap Block.lines = current.lines ++ lines := by
  induction lines generalizing current with
  | nil =>
    unfold splitFrom
    split
    · rename_i he
      simp only [Block.isEmpty, Bool.and_eq_true, List.isEmpty_iff] at he
      simp [Block.lines, he]
    · simp
  | cons line rest ih =>
    cases line with
    | label place =>
      unfold splitFrom
      split
      · rename_i he
        rw [List.isEmpty_iff] at he
        simp [ih, Block.lines, he]
      · simp [ih, Block.lines]
    | instruction instruction =>
      unfold splitFrom
      simp only
      split <;> simp [ih, Block.lines]

lemma lines_split (lines : List Line) : (split lines).flatMap Block.lines = lines := lines_splitFrom {} lines

lemma formed_splitFrom {current : Block} (hc : ∀ i ∈ current.instructions, i.operation.isJump = false)
    {lines : List Line} {block : Block} (hb : block ∈ splitFrom current lines) : block.Formed := by
  induction lines generalizing current with
  | nil =>
    unfold splitFrom at hb
    split at hb
    · cases hb
    · rename_i he
      obtain rfl := List.mem_singleton.mp hb
      refine ⟨?_, fun i hi => hc i (List.mem_of_mem_dropLast hi)⟩
      simpa [Block.lines, Block.isEmpty] using he
  | cons line rest ih =>
    cases line with
    | label place =>
      unfold splitFrom at hb
      split at hb
      · exact ih (by exact hc) hb
      · rename_i he
        rcases List.mem_cons.mp hb with rfl | hb
        · refine ⟨fun hnil => he ?_, fun i hi => hc i (List.mem_of_mem_dropLast hi)⟩
          simp only [Block.lines, List.append_eq_nil_iff, List.map_eq_nil_iff] at hnil
          exact List.isEmpty_iff.mpr hnil.2
        · exact ih (by simp) hb
    | instruction instruction =>
      unfold splitFrom at hb
      simp only at hb
      split at hb
      · rcases List.mem_cons.mp hb with rfl | hb
        · exact ⟨by simp [Block.lines], by simpa using hc⟩
        · exact ih (by simp) hb
      · rename_i hj
        refine ih ?_ hb
        simpa [or_imp, forall_and] using ⟨hc, Bool.eq_false_iff.mpr hj⟩

lemma formed_split {lines : List Line} {block : Block} (hb : block ∈ split lines) : block.Formed :=
  formed_splitFrom (by simp) hb

def start (blocks : List Block) (k : Nat) : Nat := ((blocks.take k).flatMap Block.lines).length

section

variable {blocks : List Block} {block other : Block} {k m i j : Nat}

lemma start_succ (hb : blocks[k]? = some block) : start blocks (k + 1) = start blocks k + block.lines.length := by
  simp [start, List.take_add_one, hb]

lemma start_mono (blocks : List Block) (h : k ≤ m) : start blocks k ≤ start blocks m := by
  obtain ⟨rest, hr⟩ := (List.take_prefix_take_left h : blocks.take k <+: blocks.take m)
  simp [start, ← hr]

lemma getElem?_start (hb : blocks[k]? = some block) (hj : j < block.lines.length) :
    (blocks.flatMap Block.lines)[start blocks k + j]? = block.lines[j]? := by
  obtain ⟨hk, rfl⟩ := List.getElem?_eq_some_iff.mp hb
  have hsplit : blocks.flatMap Block.lines =
      (blocks.take k).flatMap Block.lines ++ (blocks[k].lines ++ (blocks.drop (k + 1)).flatMap Block.lines) := by
    rw [← List.flatMap_cons, ← List.drop_eq_getElem_cons hk, ← List.flatMap_append, List.take_append_drop]
  rw [hsplit, List.getElem?_append_right (by simp [start]), start, Nat.add_sub_cancel_left,
    List.getElem?_append_left hj]

lemma getElem?_start_label {place : Label} (hb : blocks[k]? = some block) (hl : block.labels[j]? = some place) :
    j < block.lines.length ∧ (blocks.flatMap Block.lines)[start blocks k + j]? = some (.label place) := by
  obtain ⟨hj, -⟩ := List.getElem?_eq_some_iff.mp hl
  have hlt : j < block.lines.length := by
    rw [Block.length_lines]
    omega
  exact ⟨hlt, by rw [getElem?_start hb hlt, Block.getElem?_lines_eq_label]; exact hl⟩

lemma exists_start {p : Nat} (hp : p < (blocks.flatMap Block.lines).length) :
    ∃ k block j, blocks[k]? = some block ∧ j < block.lines.length ∧ p = start blocks k + j := by
  induction blocks generalizing p with
  | nil => simp at hp
  | cons first rest ih =>
    by_cases hf : p < first.lines.length
    · exact ⟨0, first, p, rfl, hf, by simp [start]⟩
    · rw [List.flatMap_cons, List.length_append] at hp
      obtain ⟨k, block, j, hb, hj, hs⟩ := ih (p := p - first.lines.length) (by omega)
      refine ⟨k + 1, block, j, hb, hj, ?_⟩
      simp only [start, List.take_succ_cons, List.flatMap_cons, List.length_append] at hs ⊢
      omega

lemma start_add_inj (hb : blocks[k]? = some block) (ho : blocks[m]? = some other) (hi : i < block.lines.length)
    (hj : j < other.lines.length) (h : start blocks k + i = start blocks m + j) : k = m ∧ i = j := by
  have hk := start_succ hb
  have hm := start_succ ho
  rcases Nat.lt_trichotomy k m with hlt | rfl | hlt
  · have := start_mono blocks (k := k + 1) hlt
    omega
  · exact ⟨rfl, by omega⟩
  · have := start_mono blocks (k := m + 1) hlt
    omega

end

namespace Graph

variable {blocks : List Block} {frames : Arena .frame Frame}

lemma placed?_eq_some {place : Label} {k : Nat} : placed? blocks place = some ⟨k⟩ ↔
    (∃ block, blocks[k]? = some block ∧ place ∈ block.labels) ∧
      ∀ m > k, ∀ block, blocks[m]? = some block → place ∉ block.labels := by
  have hget : ∀ {m block}, (block, m) ∈ blocks.zipIdx ↔ blocks[m]? = some block := List.mem_zipIdx_iff_getElem?
  simp only [placed?, Option.map_eq_some_iff, List.find?_eq_some_iff_append, decide_eq_true_eq, Index.mk.injEq,
    Prod.exists, exists_eq_right]
  constructor
  · rintro ⟨block, hl, later, earlier, he, hlater⟩
    have hzip : blocks.zipIdx = earlier.reverse ++ (block, k) :: later.reverse := by
      rw [← List.reverse_reverse blocks.zipIdx, he]
      simp
    refine ⟨⟨block, hget.mp (by simp [hzip]), hl⟩, fun m hm other ho => ?_⟩
    have hk : earlier.length = k := by
      have := congrArg (·[earlier.length]?) hzip
      simp only [List.getElem?_zipIdx, Nat.zero_add, List.length_reverse, le_refl, List.getElem?_append_right,
        Nat.sub_self, List.getElem?_cons_zero, Option.map_eq_some_iff, Prod.mk.injEq] at this
      obtain ⟨_, -, -, hk⟩ := this
      exact hk
    have hmem : (other, m) ∈ later := by
      have := congrArg (·[m]?) hzip
      simp only [List.getElem?_zipIdx, ho, Option.map_some, Nat.zero_add] at this
      rw [List.getElem?_append_right (by simp; omega)] at this
      obtain ⟨n, hn⟩ : ∃ n, m - earlier.reverse.length = n + 1 := ⟨m - k - 1, by simp; omega⟩
      rw [hn, List.getElem?_cons_succ] at this
      exact List.mem_reverse.mp (List.mem_of_getElem? this.symm)
    simpa using hlater _ hmem
  · rintro ⟨⟨block, hb, hl⟩, hlater⟩
    obtain ⟨before, after, hzip⟩ := List.append_of_mem (hget.mpr hb)
    refine ⟨block, hl, after.reverse, before.reverse, by simp [hzip], fun entry he => ?_⟩
    have hm : entry ∈ blocks.zipIdx := by
      rw [hzip]
      exact List.mem_append_right _ (List.mem_cons_of_mem _ (List.mem_reverse.mp he))
    have hsorted : (blocks.zipIdx.map Prod.snd).Pairwise (· < ·) := by
      rw [List.zipIdx_map_snd]
      exact List.pairwise_lt_range'
    rw [hzip, List.map_append, List.map_cons, List.pairwise_append, List.pairwise_cons] at hsorted
    have hlt := hsorted.2.1.1 entry.2 (List.mem_map_of_mem (List.mem_reverse.mp he))
    simpa using hlater _ hlt _ (hget.mp hm)

lemma placed?_of_places {place : Label} {block : Block} {k j : Nat} (hb : blocks[k]? = some block)
    (hj : j < block.lines.length) (hp : Line.Places (blocks.flatMap Block.lines) place (start blocks k + j)) :
    placed? blocks place = some ⟨k⟩ := by
  have hl := hp.1
  rw [getElem?_start hb hj, Block.getElem?_lines_eq_label] at hl
  refine placed?_eq_some.mpr ⟨⟨block, hb, List.mem_of_getElem? hl⟩, fun m hm other ho hother => ?_⟩
  obtain ⟨i, hi⟩ := List.mem_iff_getElem?.mp hother
  obtain ⟨hlt, hplace⟩ := getElem?_start_label ho hi
  have hsucc := start_succ hb
  have hmono := start_mono blocks (k := k + 1) hm
  exact hp.2 (start blocks m + i) (by omega) hplace

lemma placed?_iff_places {place : Label} {k : Nat} : placed? blocks place = some ⟨k⟩ ↔
    ∃ block j, blocks[k]? = some block ∧ j < block.labels.length ∧
      Line.Places (blocks.flatMap Block.lines) place (start blocks k + j) := by
  constructor
  · intro h
    obtain ⟨⟨block, hb, hl⟩, -⟩ := placed?_eq_some.mp h
    obtain ⟨i, hi⟩ := List.mem_iff_getElem?.mp hl
    obtain ⟨p, hp⟩ := Line.exists_places (Line.mem_labels.mpr ⟨_, (getElem?_start_label hb hi).2⟩)
    obtain ⟨m, other, j, ho, hj, rfl⟩ := exists_start (List.getElem?_eq_some_iff.mp hp.1).1
    obtain rfl : k = m := by simpa [h] using placed?_of_places ho hj hp
    have hlabel := hp.1
    rw [getElem?_start ho hj, Block.getElem?_lines_eq_label] at hlabel
    exact ⟨other, j, ho, (List.getElem?_eq_some_iff.mp hlabel).1, hp⟩
  · rintro ⟨block, j, hb, hj, hp⟩
    exact placed?_of_places hb (by rw [Block.length_lines]; omega) hp

lemma place_eq_ok {place : Label} {id : BlockId} :
    Graph.place blocks place = .ok id ↔ placed? blocks place = some id := by
  cases h : placed? blocks place <;> simp [Graph.place, h, pure, Except.pure, throw, throwThe, MonadExceptOf.throw]

lemma place_eq_error {place : Label} {failure : Failure} : Graph.place blocks place = .error failure ↔
    placed? blocks place = none ∧ failure = .undefinedLabel place := by
  cases h : placed? blocks place <;>
    simp [Graph.place, h, pure, Except.pure, throw, throwThe, MonadExceptOf.throw, eq_comm]

def Framed (frames : Arena .frame Frame) (block : Block) : Prop :=
  ∀ i register, block.instructions.getLast? = some i → i.operation = .jumpRegister register →
    ∃ frame, frames.get? i.frame = some frame

lemma targets_eq {position : Nat} {block : Block} (hf : Framed frames block) :
    targets blocks frames position block = ((block.exits frames).mapM (Graph.place blocks)).map
      (· ++ if block.fallsThrough then following blocks position else []) := by
  have hone : ∀ target rest, ([target].mapM (Graph.place blocks)).map (· ++ rest) =
      (do return (← Graph.place blocks target) :: rest) := by
    intro target rest
    cases h : Graph.place blocks target <;> simp [h, List.mapM_cons, Except.map, pure, Except.pure, bind, Except.bind]
  unfold targets Block.exits Block.fallsThrough
  cases hlast : block.instructions.getLast? with
  | none => simp [Block.terminator?, hlast, Except.map, pure, Except.pure]
  | some i =>
    by_cases hj : i.operation.isJump
    · have hterm : block.terminator? = some i := by simp [Block.terminator?, hlast, hj]
      rcases i with ⟨id, operation, transfer⟩
      simp only [hterm, Option.elim_some, Option.all_some]
      cases operation with
      | jumpRegister register =>
        obtain ⟨frame, hframe⟩ := hf _ register hlast rfl
        simp only [Instruction.exits, hframe, Option.map_some, Option.getD_some, Operation.fallsThrough]
        cases frame.returns.mapM (Graph.place blocks) <;> simp [Except.map]
      | jump target => exact (hone target []).symm
      | jumpAndLink target returnAddress => exact (hone target []).symm
      | branch relation lhs rhs target => exact (hone target (following blocks position)).symm
      | _ => cases hj
    · have hterm : block.terminator? = none := by simp [Block.terminator?, hlast, hj]
      rw [Bool.not_eq_true] at hj
      simp only [hterm, Option.elim_some, Option.all_some, Instruction.exits_of_not_isJump frames hj,
        Operation.fallsThrough_of_not_isJump hj]
      rfl

lemma framed_of_targets {position : Nat} {block : Block} {ids : List BlockId}
    (h : targets blocks frames position block = .ok ids) : Framed frames block := by
  intro i register hlast hi
  have hterm : block.terminator? = some i := by simp [Block.terminator?, hlast, hi, Operation.isJump]
  simp only [targets, hterm, hi] at h
  cases hframe : frames.get? i.frame with
  | none =>
    rw [hframe] at h
    cases h
  | some frame => exact ⟨frame, rfl⟩

def Leads (blocks : List Block) (frames : Arena .frame Frame) (position : Nat) (block : Block)
    (next : BlockId) : Prop :=
  (∃ place ∈ block.exits frames, placed? blocks place = some next) ∨
    block.fallsThrough = true ∧ next.position = position + 1 ∧ next.position < blocks.length

lemma mem_following {position : Nat} {next : BlockId} :
    next ∈ following blocks position ↔ next.position = position + 1 ∧ next.position < blocks.length := by
  rcases next with ⟨k⟩
  unfold following
  split
  · simp only [List.mem_singleton, Index.mk.injEq]
    exact ⟨fun h => ⟨h, by omega⟩, And.left⟩
  · simp only [List.not_mem_nil, false_iff, not_and]
    omega

lemma targets_eq_ok {position : Nat} {block : Block} {ids : List BlockId}
    (h : targets blocks frames position block = .ok ids) : ∃ places,
      List.Forall₂ (fun place next => placed? blocks place = some next) (block.exits frames) places ∧
      ids = places ++ if block.fallsThrough then following blocks position else [] := by
  rw [targets_eq (framed_of_targets h)] at h
  cases hm : (block.exits frames).mapM (Graph.place blocks) with
  | error failure =>
    rw [hm] at h
    cases h
  | ok places =>
    rw [hm] at h
    exact ⟨places, (List.mapM_eq_ok.mp hm).imp fun _ _ => place_eq_ok.mp, (Except.ok.inj h).symm⟩

lemma mem_targets {position : Nat} {block : Block} {ids : List BlockId} {next : BlockId}
    (h : targets blocks frames position block = .ok ids) :
    next ∈ ids ↔ Leads blocks frames position block next := by
  obtain ⟨places, hplaces, rfl⟩ := targets_eq_ok h
  simp only [List.mem_append, Leads]
  refine or_congr ⟨hplaces.exists_left, ?_⟩ ?_
  · rintro ⟨place, hp, hn⟩
    obtain ⟨id, hid, hplace⟩ := hplaces.flip.exists_left hp
    exact Option.some.inj (hplace.symm.trans hn) ▸ hid
  · split <;> simp [mem_following, *]

end Graph

def Block.bare (block : Block) : Block := { labels := block.labels, instructions := block.instructions }

lemma Graph.placed?_map_bare (blocks : List Block) (place : Label) :
    placed? (blocks.map Block.bare) place = placed? blocks place := by
  simp only [placed?, List.zipIdx_map, ← List.map_reverse, List.find?_map, Option.map_map]
  rfl

namespace Graph

variable {lines : List Line} {frames : Arena .frame Frame} {graph : Graph}

structure Built (lines : List Line) (frames : Arena .frame Frame) (graph : Graph) : Prop where
  lines_eq : graph.blocks.items.flatMap Block.lines = lines
  formed : ∀ block ∈ graph.blocks.items, block.Formed
  placed : ∀ block ∈ graph.blocks.items, ∀ place ∈ block.exits frames, ∃ next, placed? graph.blocks.items
    place = some next
  successors : ∀ id block, graph.blocks.get? id = some block →
    ∀ next, next ∈ block.successors ↔ Leads graph.blocks.items frames id.position block next
  predecessors : ∀ id block, graph.blocks.get? id = some block →
    ∀ source, source ∈ block.predecessors ↔ ∃ other, graph.blocks.get? source = some other ∧ id ∈ other.successors

lemma mem_sources {successors : List (List BlockId)} {block source : BlockId} : source ∈ sources successors block ↔
    ∃ ids, successors[source.position]? = some ids ∧ block ∈ ids := by
  rcases source with ⟨k⟩
  simp only [sources, List.mem_map, List.mem_filter, List.mem_zipIdx_iff_getElem?, decide_eq_true_eq, Prod.exists,
    Index.mk.injEq]
  constructor
  · rintro ⟨ids, _, ⟨hk, hm⟩, rfl⟩
    exact ⟨ids, hk, hm⟩
  · rintro ⟨ids, hk, hm⟩
    exact ⟨ids, k, ⟨hk, hm⟩, rfl⟩

lemma bare_link {blocks : List Block} {successors : List (List BlockId)} (h : blocks.length = successors.length) :
    (link blocks successors).blocks.items.map Block.bare = blocks.map Block.bare :=
  calc (link blocks successors).blocks.items.map Block.bare
      = (blocks.zip successors).zipIdx.map ((Block.bare ∘ Prod.fst) ∘ Prod.fst) := by
        rw [link, List.map_map]
        rfl
    _ = blocks.map Block.bare := by
        rw [← List.map_map, List.zipIdx_map_fst, ← List.map_map, List.map_fst_zip h.le]

lemma get?_link_eq_some {blocks : List Block} {successors : List (List BlockId)} {id : BlockId} {source : Block}
    {targets : List BlockId} (hb : blocks[id.position]? = some source) (ht : successors[id.position]? = some targets) :
    (link blocks successors).blocks.get? id =
      some { source with successors := targets, predecessors := sources successors id } := by
  have hzip : (blocks.zip successors)[id.position]? = some (source, targets) := List.getElem?_zip_eq_some.mpr ⟨hb, ht⟩
  simp [link, Arena.get?, hzip]

lemma placed?_congr {blocks others : List Block} (h : blocks.map Block.bare = others.map Block.bare) (place : Label) :
    placed? blocks place = placed? others place := by
  rw [← placed?_map_bare blocks, h, placed?_map_bare]

lemma leads_congr {blocks others : List Block} (h : blocks.map Block.bare = others.map Block.bare) {position : Nat}
    {block : Block} {next : BlockId} :
    Leads blocks frames position block next ↔ Leads others frames position block next := by
  have hlength : blocks.length = others.length := by simpa using congrArg List.length h
  simp [Leads, hlength, placed?_congr h]

lemma built_of_build (h : build lines frames = .ok graph) : Built lines frames graph := by
  obtain ⟨successors, hs, rfl⟩ := build_eq_ok.mp h
  have hlength : (split lines).length = (successors.map Ordered.ofList).length := by
    simpa using hs.length_eq
  have hbare := bare_link hlength
  have htargets : ∀ {k : Nat} {source ids}, (split lines)[k]? = some source → successors[k]? = some ids →
      targets (split lines) frames k source = .ok ids := by
    intro k source ids hsource hids
    obtain ⟨hk, rfl⟩ := List.getElem?_eq_some_iff.mp hsource
    obtain ⟨hi, rfl⟩ := List.getElem?_eq_some_iff.mp hids
    simpa using hs.get (by simpa using hk) hi
  refine ⟨?_, fun block hb => ?_, fun block hb place hp => ?_, ?_, ?_⟩
  · have hlines : ∀ blocks : List Block, (blocks.map Block.bare).flatMap Block.lines = blocks.flatMap Block.lines :=
      fun blocks => List.flatMap_map _ _ blocks
    rw [← hlines, hbare, hlines, lines_split]
  · have hm : block.bare ∈ (split lines).map Block.bare := hbare ▸ List.mem_map_of_mem hb
    obtain ⟨source, hsource, he⟩ := List.mem_map.mp hm
    have hformed := formed_split hsource
    simp only [Block.bare, Block.mk.injEq] at he
    refine ⟨?_, ?_⟩
    · simpa [Block.lines, he] using hformed.ne_nil
    · simpa [he] using hformed.straight
  · obtain ⟨id, hb⟩ := (Arena.mem_items _).mp hb
    obtain ⟨source, targets, hsource, ht, rfl⟩ := get?_link hb
    rw [List.getElem?_map] at ht
    obtain ⟨ids, hids, rfl⟩ := Option.map_eq_some_iff.mp ht
    obtain ⟨places, hplaces, -⟩ := targets_eq_ok (htargets hsource hids)
    obtain ⟨next, -, hnext⟩ := hplaces.flip.exists_left hp
    exact ⟨next, by rw [placed?_congr hbare]; exact hnext⟩
  · intro id block hb next
    obtain ⟨source, targets, hsource, ht, rfl⟩ := get?_link hb
    rw [List.getElem?_map] at ht
    obtain ⟨ids, hids, rfl⟩ := Option.map_eq_some_iff.mp ht
    rw [Ordered.mem_ofList, mem_targets (htargets hsource hids), leads_congr hbare]
    rfl
  · intro id block hb source
    obtain ⟨_, _, -, -, rfl⟩ := get?_link hb
    rw [mem_sources]
    constructor
    · rintro ⟨ids, hids, hm⟩
      have hlt : source.position < (split lines).length := hlength ▸ (List.getElem?_eq_some_iff.mp hids).1
      exact ⟨_, get?_link_eq_some (List.getElem?_eq_getElem hlt) hids, hm⟩
    · rintro ⟨other, ho, hm⟩
      obtain ⟨_, ids, -, hids, rfl⟩ := get?_link ho
      exact ⟨ids, hids, hm⟩

end Graph

end TigerMips.Flow
