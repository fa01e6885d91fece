import TigerMips.Proofs.Flow.Blocks

/-! The edges of a flow graph are the ways that control can take from the last lines of its blocks. -/

namespace TigerMips

open Machine

inductive Machine.Line.Transfers (lines : List Line) (frames : Arena .frame Frame) (position : Nat) : Nat → Prop
  | next {line} : lines[position]? = some line → line.fallsThrough = true → position + 1 < lines.length →
      Transfers lines frames position (position + 1)
  | exit {line place target} : lines[position]? = some line → place ∈ line.exits frames →
      lines[target]? = some (.label place) → Transfers lines frames position target

namespace Flow

lemma Block.exits_of_getLast? {block : Block} {line : Line} (frames : Arena .frame Frame)
    (h : block.lines.getLast? = some line) :
    line.exits frames = block.exits frames ∧ line.fallsThrough = block.fallsThrough := by
  rw [lines, List.getLast?_append, List.getLast?_map, List.getLast?_map] at h
  unfold exits fallsThrough
  cases hi : block.instructions.getLast? with
  | none =>
    rw [hi] at h
    obtain ⟨place, -, rfl⟩ := Option.map_eq_some_iff.mp h
    exact ⟨rfl, rfl⟩
  | some i =>
    rw [hi] at h
    obtain rfl := Option.some.inj h
    exact ⟨rfl, rfl⟩

lemma getElem?_of_succ_eq_start {blocks : List Block} {block : Block} {k p : Nat} (hb : blocks[k]? = some block)
    (hne : block.lines ≠ []) (hp : p + 1 = start blocks (k + 1)) :
    (blocks.flatMap Block.lines)[p]? = block.lines.getLast? := by
  have hpos := List.length_pos_iff.mpr hne
  rw [start_succ hb] at hp
  obtain rfl : p = start blocks k + (block.lines.length - 1) := by omega
  rw [getElem?_start hb (by omega), List.getLast?_eq_getElem?]

namespace Graph

variable {lines : List Line} {frames : Arena .frame Frame} {graph : Graph}

def Heads (graph : Graph) (id : BlockId) (position : Nat) : Prop :=
  ∃ block j, graph.blocks.get? id = some block ∧ position = start graph.blocks.items id.position + j ∧
    (j = 0 ∨ j < block.labels.length)

def Ends (graph : Graph) (id : BlockId) (position : Nat) : Prop :=
  position + 1 = start graph.blocks.items (id.position + 1)

/-- The edges of a graph are the ways that control can take. It leaves a block only at its last line, and comes to
a block only at its head, where all labels stand. -/
structure Follows (graph : Graph) (lines : List Line) (frames : Arena .frame Frame) : Prop where
  lines_eq : graph.blocks.items.flatMap Block.lines = lines
  ne_nil : ∀ block ∈ graph.blocks.items, block.lines ≠ []
  inside : ∀ block ∈ graph.blocks.items, ∀ line ∈ block.lines.dropLast,
    line.fallsThrough = true ∧ line.exits frames = []
  leading : ∀ place target, lines[target]? = some (.label place) → ∃ id block j, graph.blocks.get? id = some block ∧
    block.labels[j]? = some place ∧ target = start graph.blocks.items id.position + j
  heads : ∀ id block, graph.blocks.get? id = some block → ∀ last target, graph.Ends id last →
    Line.Transfers lines frames last target → ∃ next, graph.Heads next target
  successors : ∀ id block, graph.blocks.get? id = some block → ∀ next, next ∈ block.successors ↔
    ∃ last target, graph.Ends id last ∧ Line.Transfers lines frames last target ∧ graph.Heads next target
  predecessors : ∀ id block, graph.blocks.get? id = some block → ∀ source, source ∈ block.predecessors ↔
    ∃ other, graph.blocks.get? source = some other ∧ id ∈ other.successors

namespace Built

variable {id next : BlockId} {block : Block}

lemma falls_inside (h : Built lines frames graph) (hb : block ∈ graph.blocks.items) {line : Line}
    (hl : line ∈ block.lines.dropLast) : line.fallsThrough = true ∧ line.exits frames = [] := by
  cases line with
  | label place => exact ⟨rfl, rfl⟩
  | instruction i =>
    have hi : i ∈ block.instructions.dropLast := by
      rw [Block.lines, List.dropLast_append] at hl
      split at hl
      · exact absurd (List.mem_of_mem_dropLast hl) (by simp)
      · simpa [← List.map_dropLast] using hl
    have hj := (h.formed block hb).straight i hi
    exact ⟨Operation.fallsThrough_of_not_isJump hj, Instruction.exits_of_not_isJump frames hj⟩

lemma exists_last (h : Built lines frames graph) (hb : graph.blocks.get? id = some block) {last : Nat}
    (hl : graph.Ends id last) : ∃ line, lines[last]? = some line ∧ line.exits frames = block.exits frames ∧
      line.fallsThrough = block.fallsThrough := by
  have hne := (h.formed block (graph.blocks.mem_items.mpr ⟨id, hb⟩)).ne_nil
  have hline := List.getLast?_eq_some_getLast hne
  refine ⟨_, ?_, Block.exits_of_getLast? frames hline⟩
  rw [← hline, ← getElem?_of_succ_eq_start hb hne hl, h.lines_eq]

lemma exists_exit (h : Built lines frames graph) {place : Label} (hp : place ∈ lines.flatMap (Line.exits frames)) :
    ∃ block ∈ graph.blocks.items, place ∈ block.exits frames := by
  obtain ⟨line, hl, hp⟩ := List.mem_flatMap.mp hp
  rw [← h.lines_eq] at hl
  obtain ⟨block, hb, hl⟩ := List.mem_flatMap.mp hl
  refine ⟨block, hb, ?_⟩
  have hne := (h.formed block hb).ne_nil
  rw [← List.dropLast_append_getLast hne, List.mem_append, List.mem_singleton] at hl
  rcases hl with hl | rfl
  · rw [(h.falls_inside hb hl).2] at hp
    cases hp
  · rwa [(Block.exits_of_getLast? frames (List.getLast?_eq_some_getLast hne)).1] at hp

lemma leading (h : Built lines frames graph) {place : Label} {target : Nat}
    (hl : lines[target]? = some (.label place)) :
    ∃ id block j, graph.blocks.get? id = some block ∧ block.labels[j]? = some place ∧
      target = start graph.blocks.items id.position + j := by
  rw [← h.lines_eq] at hl
  obtain ⟨k, block, j, hb, hj, rfl⟩ := exists_start (List.getElem?_eq_some_iff.mp hl).1
  rw [getElem?_start hb hj, Block.getElem?_lines_eq_label] at hl
  exact ⟨⟨k⟩, block, j, hb, hl, rfl⟩

lemma heads_of_places (h : Built lines frames graph) {place : Label} {target : Nat}
    (hp : Line.Places lines place target) :
    ∃ next, placed? graph.blocks.items place = some next ∧ graph.Heads next target := by
  obtain ⟨id, block, j, hb, hj, rfl⟩ := h.leading hp.1
  rw [← h.lines_eq] at hp
  exact ⟨id, placed?_of_places hb (getElem?_start_label hb hj).1 hp, block, j, hb, rfl,
    Or.inr (List.getElem?_eq_some_iff.mp hj).1⟩

lemma lt_of_head (h : Built lines frames graph) (hb : graph.blocks.get? id = some block) {j : Nat}
    (hj : j = 0 ∨ j < block.labels.length) : j < block.lines.length := by
  have hpos := List.length_pos_iff.mpr (h.formed block (graph.blocks.mem_items.mpr ⟨id, hb⟩)).ne_nil
  have hlength := block.length_lines
  omega

lemma mem_labels_of_placed? (h : Built lines frames graph) {place : Label}
    (hp : placed? graph.blocks.items place = some id) :
    ∃ block, graph.blocks.get? id = some block ∧ place ∈ block.labels := by
  obtain ⟨block, j, hb, hj, hplaces⟩ := placed?_iff_places.mp hp
  refine ⟨block, hb, List.mem_of_getElem? (i := j) ?_⟩
  rw [← Block.getElem?_lines_eq_label, ← getElem?_start hb (h.lt_of_head hb (Or.inr hj))]
  exact hplaces.1

lemma heads_inj (h : Built lines frames graph) {other : BlockId} {position : Nat} (hn : graph.Heads next position)
    (ho : graph.Heads other position) : next = other := by
  obtain ⟨block, i, hb, rfl, hi⟩ := hn
  obtain ⟨found, j, hf, he, hj⟩ := ho
  rcases next with ⟨k⟩
  rcases other with ⟨m⟩
  exact congrArg Index.mk (start_add_inj hb hf (h.lt_of_head hb hi) (h.lt_of_head hf hj) he).1

lemma lt_length_of_ends (h : Built lines frames graph) {last : Nat} (hl : graph.Ends id last)
    (hlt : last + 1 < lines.length) : id.position + 1 < graph.blocks.items.length := by
  by_contra hge
  rw [hl, start, List.take_of_length_le (Nat.not_lt.mp hge), h.lines_eq] at hlt
  exact Nat.lt_irrefl _ hlt

lemma heads_of_falls (h : Built lines frames graph) (hb : graph.blocks.get? id = some block) {last : Nat}
    (hl : graph.Ends id last) {line : Line} (hline : lines[last]? = some line) (hf : line.fallsThrough = true)
    (hlt : last + 1 < lines.length) : ∃ next ∈ block.successors, graph.Heads next (last + 1) := by
  obtain ⟨_, hlast, -, hfalls⟩ := h.exists_last hb hl
  obtain rfl := Option.some.inj (hline.symm.trans hlast)
  have hk := h.lt_length_of_ends hl hlt
  exact ⟨⟨id.position + 1⟩, (h.successors id block hb _).mpr (Or.inr ⟨hfalls ▸ hf, rfl, hk⟩), _, 0,
    List.getElem?_eq_getElem hk, hl, Or.inl rfl⟩

lemma heads_of_exit (h : Built lines frames graph) (hb : graph.blocks.get? id = some block) {last target : Nat}
    (hl : graph.Ends id last) {line : Line} (hline : lines[last]? = some line) {place : Label}
    (hp : place ∈ line.exits frames) (ht : Line.Places lines place target) :
    ∃ next ∈ block.successors, graph.Heads next target := by
  obtain ⟨_, hlast, hexits, -⟩ := h.exists_last hb hl
  obtain rfl := Option.some.inj (hline.symm.trans hlast)
  obtain ⟨next, hplaced, hhead⟩ := h.heads_of_places ht
  exact ⟨next, (h.successors id block hb _).mpr (Or.inl ⟨place, hexits ▸ hp, hplaced⟩), hhead⟩

lemma heads_of_transfers (h : Built lines frames graph) (hn : (Line.labels lines).Nodup)
    (hb : graph.blocks.get? id = some block) {last target : Nat} (hl : graph.Ends id last)
    (ht : Line.Transfers lines frames last target) : ∃ next ∈ block.successors, graph.Heads next target := by
  cases ht with
  | next hline hf hlt => exact h.heads_of_falls hb hl hline hf hlt
  | exit hline hp htarget => exact h.heads_of_exit hb hl hline hp ((Line.places_iff_of_nodup hn).mpr htarget)

lemma exists_ends (h : Built lines frames graph) (hb : graph.blocks.get? id = some block) :
    ∃ last, graph.Ends id last := by
  have hpos := List.length_pos_iff.mpr (h.formed block (graph.blocks.mem_items.mpr ⟨id, hb⟩)).ne_nil
  have hsucc := start_succ hb
  exact ⟨start graph.blocks.items (id.position + 1) - 1, by unfold Ends; omega⟩

lemma start_lt (h : Built lines frames graph) (hb : graph.blocks.get? id = some block) :
    start graph.blocks.items id.position < lines.length := by
  have hpos := List.length_pos_iff.mpr (h.formed block (graph.blocks.mem_items.mpr ⟨id, hb⟩)).ne_nil
  have hsucc := start_succ hb
  have hmono := start_mono graph.blocks.items (k := id.position + 1) (graph.blocks.lt_size hb)
  have hall : start graph.blocks.items graph.blocks.size = lines.length := by
    rw [start, Arena.size, List.take_length, h.lines_eq]
  omega

lemma transfers_of_mem (h : Built lines frames graph) (hb : graph.blocks.get? id = some block)
    (hn : next ∈ block.successors) :
    ∃ last target, graph.Ends id last ∧ Line.Transfers lines frames last target ∧ graph.Heads next target := by
  obtain ⟨last, hends⟩ := h.exists_ends hb
  obtain ⟨line, hline, hexits, hfalls⟩ := h.exists_last hb hends
  rcases (h.successors id block hb next).mp hn with ⟨place, hp, hplaced⟩ | ⟨hf, hnext, hlt⟩
  · obtain ⟨other, j, ho, hj, hplaces⟩ := placed?_iff_places.mp hplaced
    rw [h.lines_eq] at hplaces
    exact ⟨last, _, hends, .exit hline (hexits ▸ hp) hplaces.1, other, j, ho, rfl, Or.inr hj⟩
  · obtain ⟨other, ho⟩ := graph.blocks.exists_get?.mpr hlt
    have hstart : last + 1 = start graph.blocks.items next.position := hnext ▸ hends
    exact ⟨last, _, hends, .next hline (hfalls ▸ hf) (hstart ▸ h.start_lt ho), other, 0, ho, hstart, Or.inl rfl⟩

end Built

lemma follows_of_built (h : Built lines frames graph) (hn : (Line.labels lines).Nodup) :
    graph.Follows lines frames where
  lines_eq := h.lines_eq
  ne_nil block hb := (h.formed block hb).ne_nil
  inside block hb line hl := h.falls_inside hb hl
  leading place target := h.leading
  heads id block hb last target hl ht := (h.heads_of_transfers hn hb hl ht).imp fun _ => And.right
  successors id block hb next := by
    refine ⟨h.transfers_of_mem hb, ?_⟩
    rintro ⟨last, target, hl, ht, hhead⟩
    obtain ⟨found, hf, hfound⟩ := h.heads_of_transfers hn hb hl ht
    exact h.heads_inj hhead hfound ▸ hf
  predecessors := h.predecessors

lemma exists_unplaced_of_build {failure : Failure} (hw : Line.Within frames.size lines)
    (h : build lines frames = .error failure) : ∃ place ∈ lines.flatMap (Line.exits frames),
      place ∉ Line.labels lines ∧ failure = .undefinedLabel place := by
  have hm : (split lines).zipIdx.mapM (fun entry => targets (split lines) frames entry.2 entry.1) = .error failure := by
    unfold build at h
    cases hm : (split lines).zipIdx.mapM (fun entry => targets (split lines) frames entry.2 entry.1) with
    | error other =>
      simp only [hm] at h
      rw [Except.error.inj h]
    | ok successors =>
      simp only [hm] at h
      cases h
  obtain ⟨⟨block, position⟩, hentry, hfail⟩ := List.mapM_eq_error hm
  have hblock : block ∈ split lines := List.mem_of_getElem? (List.mem_zipIdx_iff_getElem?.mp hentry)
  have hlines : ∀ i, block.instructions.getLast? = some i → .instruction i ∈ lines := fun i hi =>
    (mem_lines_of_mem_splitFrom hblock (List.mem_of_getLast? hi)).resolve_left (by simp)
  rw [targets_eq fun i _ hi _ => frames.exists_get?.mpr (hw i (hlines i hi))] at hfail
  cases hplaces : (block.exits frames).mapM (Graph.place (split lines)) with
  | ok places =>
    rw [hplaces] at hfail
    cases hfail
  | error other =>
    rw [hplaces] at hfail
    obtain rfl := Except.error.inj hfail
    obtain ⟨place, hp, herror⟩ := List.mapM_eq_error hplaces
    obtain ⟨i, hi, hexit⟩ := Block.mem_exits.mp hp
    refine ⟨place, List.mem_flatMap.mpr ⟨_, hlines i hi, hexit⟩, fun hlabel => ?_, (place_eq_error.mp herror).2⟩
    obtain ⟨id, hid⟩ := place_ok hlabel
    rw [hid] at herror
    cases herror

lemma Built.mem_labels (h : Built lines frames graph) {place : Label}
    (hp : place ∈ lines.flatMap (Line.exits frames)) : place ∈ Line.labels lines := by
  obtain ⟨block, hb, hp⟩ := h.exists_exit hp
  obtain ⟨next, hn⟩ := h.placed block hb place hp
  obtain ⟨_, _, -, -, hplaces⟩ := placed?_iff_places.mp hn
  exact h.lines_eq ▸ hplaces.mem_labels

/-- A graph is built unless control could go to a label that is placed nowhere. Its edges are the ways of control. -/
theorem build_follows (lines : List Line) (frames : Arena .frame Frame) (hn : (Line.labels lines).Nodup)
    (hw : Line.Within frames.size lines) :
    ((∃ place, build lines frames = .error (.undefinedLabel place)) ↔
      ∃ place ∈ lines.flatMap (Line.exits frames), place ∉ Line.labels lines) ∧
    (∀ failure, build lines frames = .error failure → ∃ place ∈ lines.flatMap (Line.exits frames),
      place ∉ Line.labels lines ∧ failure = .undefinedLabel place) ∧
    ((∀ place ∈ lines.flatMap (Line.exits frames), place ∈ Line.labels lines) →
      ∃ graph, build lines frames = .ok graph ∧ graph.Follows lines frames) := by
  refine ⟨⟨?_, ?_⟩, fun failure => exists_unplaced_of_build hw, fun hplaced => ?_⟩
  · rintro ⟨_, h⟩
    obtain ⟨place, hp, hunplaced, -⟩ := exists_unplaced_of_build hw h
    exact ⟨place, hp, hunplaced⟩
  · rintro ⟨place, hp, hunplaced⟩
    cases h : build lines frames with
    | error failure =>
      obtain ⟨other, -, -, rfl⟩ := exists_unplaced_of_build hw h
      exact ⟨other, rfl⟩
    | ok graph => exact absurd ((built_of_build h).mem_labels hp) hunplaced
  · cases h : build lines frames with
    | error failure =>
      obtain ⟨place, hp, hunplaced, -⟩ := exists_unplaced_of_build hw h
      exact absurd (hplaced place hp) hunplaced
    | ok graph => exact ⟨graph, rfl, follows_of_built (built_of_build h) hn⟩

def calledTwice : List Line :=
  [.label ⟨0⟩, .instruction ⟨⟨0⟩, .branch .leq ⟨1⟩ ⟨0⟩ ⟨4⟩, false⟩,
    .instruction ⟨⟨0⟩, .jumpAndLink ⟨1⟩ ⟨2⟩, false⟩, .label ⟨2⟩,
    .instruction ⟨⟨0⟩, .jumpAndLink ⟨1⟩ ⟨2⟩, false⟩, .label ⟨3⟩,
    .instruction ⟨⟨0⟩, .jump ⟨0⟩, false⟩,
    .label ⟨1⟩, .instruction ⟨⟨1⟩, .addImmediate ⟨1⟩ ⟨1⟩ (.int (-1)), false⟩,
    .instruction ⟨⟨1⟩, .jumpRegister ⟨2⟩, false⟩,
    .label ⟨4⟩]

def calledTwiceFrames : Arena .frame Frame :=
  ⟨[{ name := "main", entry := none, parent := none, display := ⟨3⟩ },
    { name := "decrement", entry := some ⟨1⟩, parent := some ⟨0⟩, display := ⟨4⟩, returns := [⟨2⟩, ⟨3⟩] }]⟩

theorem calledTwice_follows : (Line.labels calledTwice).Nodup ∧ Line.Within calledTwiceFrames.size calledTwice ∧
    ∃ graph, build calledTwice calledTwiceFrames = .ok graph ∧ graph.Follows calledTwice calledTwiceFrames := by
  have hn : (Line.labels calledTwice).Nodup := by decide
  have hw : Line.Within calledTwiceFrames.size calledTwice := by
    simp [calledTwice, calledTwiceFrames, Arena.size]
  exact ⟨hn, hw, (build_follows calledTwice calledTwiceFrames hn hw).2.2 (by decide)⟩

end Graph

end Flow

end TigerMips
