import TigerMips.Proofs.Flow.Edges
import TigerMips.Proofs.Flow.Liveness
import TigerMips.Proofs.Machine.Execution

/-! Only live temps matter. Executions from stores that agree on them visit the same blocks, ask for the same
system calls and leave the same memories. -/

namespace TigerMips.Flow

open Machine

namespace Block

def before (block : Block) (after : Set Temp) (j : Nat) : Set Temp := (block.lines.drop j).foldr Line.before after

variable {block : Block} {after : Set Temp} {j : Nat}

lemma before_eq {line : Line} (hl : block.lines[j]? = some line) :
    block.before after j = line.before (block.before after (j + 1)) := by
  obtain ⟨hj, rfl⟩ := List.getElem?_eq_some_iff.mp hl
  rw [before, List.drop_eq_getElem_cons hj, List.foldr_cons, before]

lemma before_length (hj : block.lines.length ≤ j) : block.before after j = after := by
  rw [before, List.drop_eq_nil_of_le hj, List.foldr_nil]

lemma foldr_before_labels (labels : List Label) : (labels.map Line.label).foldr Line.before after = after := by
  induction labels with
  | nil => rfl
  | cons place rest ih => exact ih

lemma mem_foldr_before (t : Temp) (instructions : List Instruction) :
    t ∈ (instructions.map Line.instruction).foldr Line.before after ↔
      t ∈ instructions.foldr usesBefore [] ∨ t ∈ after ∧ ∀ i ∈ instructions, t ∉ i.operation.defs := by
  induction instructions with
  | nil => simp
  | cons first rest ih =>
    simp only [List.map_cons, List.foldr_cons, Line.before, Operation.before, Set.mem_ofPred_eq, ih, usesBefore,
      Ordered.mem_union, Ordered.mem_difference, List.forall_mem_cons]
    tauto

lemma mem_before_head (hj : j ≤ block.labels.length) (t : Temp) :
    t ∈ block.before after j ↔ block.Exposes t ∨ t ∈ after ∧ ¬ block.Writes t := by
  have hdrop : block.lines.drop j = (block.labels.drop j).map .label ++ block.instructions.map .instruction := by
    rw [lines, List.drop_append_of_le_length (by simpa using hj), List.map_drop]
  rw [before, hdrop, List.foldr_append, foldr_before_labels, mem_foldr_before, mem_foldr_usesBefore]
  simp [Exposes, Writes]

end Block

namespace Graph

variable {lines : List Line} {frames : Arena .frame Frame} {graph : Graph}

def liveIn (graph : Graph) (id : BlockId) : Set Temp := {t | t ∈ Liveness.liveInOf (Liveness.analyze graph).sets id}

def liveOut (graph : Graph) (block : Block) : Set Temp := {t | ∃ next ∈ block.successors, t ∈ graph.liveIn next}

lemma before_liveOut {id : BlockId} {block : Block} {j : Nat} (hb : graph.blocks.get? id = some block)
    (hj : j ≤ block.labels.length) : block.before (graph.liveOut block) j = graph.liveIn id := by
  ext t
  obtain ⟨sets, hs, hout, hin⟩ := Liveness.analyze_solves graph id block hb
  have hlive : t ∈ graph.liveIn id ↔ t ∈ sets.liveIn := by
    simp [liveIn, Liveness.mem_liveInOf, hs]
  rw [Block.mem_before_head hj, hlive, hin, hout]
  rfl

structure Matched (graph : Graph) (s t : Running) : Prop where
  position : t.position = s.position
  memory : s.store.memory = t.store.memory
  alike : ∀ id block j, graph.blocks.get? id = some block → j < block.lines.length →
    s.position = start graph.blocks.items id.position + j →
    s.store.Alike (block.before (graph.liveOut block) j) t.store

variable {link : Linkage} {address : Nat → Word} {s s' t t' : Running} {event : Option Interaction}

lemma matched_inside {id : BlockId} {block : Block} {j : Nat} (hb : graph.blocks.get? id = some block)
    (hj : j < block.lines.length) (hs : s.position = start graph.blocks.items id.position + j)
    (hp : t.position = s.position) (ha : s.store.Alike (block.before (graph.liveOut block) j) t.store) :
    graph.Matched s t := by
  refine ⟨hp, ha.memory, fun other found i hf hi ho => ?_⟩
  rcases id with ⟨k⟩
  rcases other with ⟨m⟩
  obtain ⟨rfl, rfl⟩ := start_add_inj hf hb hi hj (ho.symm.trans hs)
  obtain rfl := Option.some.inj (hf.symm.trans hb)
  exact ha

namespace Built

variable (h : Built lines frames graph)

include h

lemma start_add_lt {id : BlockId} {block : Block} {j : Nat} (hb : graph.blocks.get? id = some block)
    (hj : j < block.lines.length) : start graph.blocks.items id.position + j < lines.length := by
  rw [← h.lines_eq]
  exact (List.getElem?_eq_some_iff.mp ((getElem?_start hb hj).trans (List.getElem?_eq_getElem hj))).1

lemma matched_of_heads {id : BlockId} (hh : graph.Heads id s.position) (hp : t.position = s.position)
    (ha : s.store.Alike (graph.liveIn id) t.store) : graph.Matched s t := by
  refine ⟨hp, ha.memory, fun other found j hf hj hs => ?_⟩
  obtain ⟨block, i, hb, hi, hhead⟩ := hh
  rcases id with ⟨k⟩
  rcases other with ⟨m⟩
  obtain ⟨rfl, rfl⟩ := start_add_inj hf hb hj (h.lt_of_head hb hhead) (hs.symm.trans hi)
  obtain rfl := Option.some.inj (hf.symm.trans hb)
  rwa [before_liveOut hb (by omega)]

lemma matched_outside (ho : lines.length ≤ s.position) (hp : t.position = s.position)
    (hm : s.store.memory = t.store.memory) : graph.Matched s t := by
  refine ⟨hp, hm, fun id block j hb hj hs => ?_⟩
  have := h.start_add_lt hb hj
  omega

lemma matched_step (hm : graph.Matched s t) (hs : Step link address frames lines s event s') :
    ∃ t', Step link address frames lines t event t' ∧ graph.Matched s' t' := by
  obtain ⟨line, hline⟩ := hs.exists_line
  obtain ⟨k, block, j, hb, hj, hp⟩ := exists_start (h.lines_eq.symm ▸ (List.getElem?_eq_some_iff.mp hline).1)
  have hat : block.lines[j]? = some line := by
    rw [← getElem?_start hb hj, h.lines_eq, ← hp, hline]
  have ha := hm.alike ⟨k⟩ block j hb hj hp
  rw [Block.before_eq hat] at ha
  obtain ⟨t', ht, hposition, halike⟩ := hs.alike hline hm.position ha
  refine ⟨t', ht, ?_⟩
  -- Before the last line of a block control stays in the block, after it control comes to the head of a successor.
  have hleft : ¬ j + 1 < block.lines.length → ∀ next ∈ block.successors, graph.Heads next s'.position →
      graph.Matched s' t' := by
    intro hlast next hn hh
    rw [Block.before_length (Nat.not_lt.mp hlast)] at halike
    exact h.matched_of_heads hh hposition (halike.mono fun u hu => ⟨next, hn, hu⟩)
  have hends : ¬ j + 1 < block.lines.length → graph.Ends ⟨k⟩ s.position := by
    intro hlast
    have hsucc := start_succ hb
    change s.position + 1 = start graph.blocks.items (k + 1)
    omega
  rcases hs.leaves hline with ⟨hfalls, hnext⟩ | ⟨place, hplace, hplaces⟩ | hout
  · by_cases hlast : j + 1 < block.lines.length
    · exact matched_inside hb hlast (by rw [hnext, hp]; rfl) hposition halike
    · by_cases hlt : s.position + 1 < lines.length
      · obtain ⟨next, hn, hh⟩ := h.heads_of_falls hb (hends hlast) hline hfalls hlt
        exact hleft hlast next hn (hnext ▸ hh)
      · exact h.matched_outside (by omega) hposition halike.memory
  · have hlast : ¬ j + 1 < block.lines.length := by
      intro hlast
      have hinside : line ∈ block.lines.dropLast := by
        rw [List.dropLast_eq_take]
        exact List.mem_of_getElem? ((List.getElem?_take_of_lt (by omega)).trans hat)
      rw [(h.falls_inside (List.mem_of_getElem? hb) hinside).2] at hplace
      cases hplace
    obtain ⟨next, hn, hh⟩ := h.heads_of_exit hb (hends hlast) hline hplace hplaces
    exact hleft hlast next hn hh
  · exact h.matched_outside hout.ge hposition halike.memory

end Built

/-- Executions from the start of a block do not depend on temps that are not live there. Both go through the same
positions with the same system calls and the same memories, and agree at each block on what is live. -/
theorem executes_of_liveIn_eq (link : Linkage) (address : Nat → Word) (lines : List Line) (frames : Arena .frame Frame)
    (graph : Graph) (h : build lines frames = .ok graph) (id : BlockId) (hid : id.position < graph.blocks.size)
    (first second : Store) (hmemory : first.memory = second.memory)
    (htemps : ∀ t ∈ Liveness.liveInOf (Liveness.analyze graph).sets id, first.temps t = second.temps t)
    (length : ℕ∞) (states : Nat → Running) (events : Nat → Option Interaction)
    (hstart : states 0 = ⟨start graph.blocks.items id.position, first⟩)
    (hruns : Executes link address frames lines length states events) :
    ∃ others, others 0 = ⟨start graph.blocks.items id.position, second⟩ ∧
      Executes link address frames lines length others events ∧
      ∀ n : Nat, n ≤ length → (others n).position = (states n).position ∧
        (others n).store.memory = (states n).store.memory ∧
        ∀ next, graph.Heads next (states n).position →
          ∀ t ∈ Liveness.liveInOf (Liveness.analyze graph).sets next,
            (others n).store.temps t = (states n).store.temps t := by
  have hbuilt := built_of_build h
  obtain ⟨block, hb⟩ := graph.blocks.exists_get?.mpr hid
  have hfirst : graph.Matched (states 0) ⟨start graph.blocks.items id.position, second⟩ := by
    rw [hstart]
    exact hbuilt.matched_of_heads ⟨block, 0, hb, rfl, Or.inl rfl⟩ rfl ⟨hmemory, htemps⟩
  obtain ⟨others, hothers, hexecutes, hmatched⟩ := hruns.exists_matching hbuilt.matched_step hfirst
  refine ⟨others, hothers, hexecutes, fun n hn => ?_⟩
  have hm := hmatched n hn
  refine ⟨hm.position, hm.memory.symm, fun next hnext t ht => ?_⟩
  obtain ⟨block, j, hb, hp, hj⟩ := hnext
  have halike := hm.alike next block j hb (hbuilt.lt_of_head hb hj) hp
  rw [before_liveOut hb (by omega)] at halike
  exact (halike.temps t ht).symm

def printingLoop : List Line :=
  [.label ⟨0⟩, .instruction ⟨⟨0⟩, .syscall .printInt ⟨0⟩ ⟨1⟩ ⟨2⟩, false⟩, .instruction ⟨⟨0⟩, .jump ⟨0⟩, false⟩]

def printingLoopGraph : Graph :=
  ⟨⟨[{ labels := [⟨0⟩]
       instructions := [⟨⟨0⟩, .syscall .printInt ⟨0⟩ ⟨1⟩ ⟨2⟩, false⟩, ⟨⟨0⟩, .jump ⟨0⟩, false⟩]
       successors := [⟨0⟩]
       predecessors := [⟨0⟩] }]⟩⟩

def printedZeros (n : Nat) : Option Interaction :=
  if n % 3 = 1 then some ⟨⟨.printInt, 0, 0, none⟩, 0, fun _ => 0⟩ else none

theorem printingLoop_executes : build printingLoop {} = .ok printingLoopGraph ∧
    ∃ others, others 0 = ⟨0, ⟨fun t => if t = ⟨2⟩ then 1 else 0, fun _ => 0⟩⟩ ∧
      Executes default (fun _ => 0) {} printingLoop ⊤ others printedZeros := by
  have hbuild : build printingLoop {} = .ok printingLoopGraph := by decide +kernel
  have hlive : Liveness.liveInOf (Liveness.analyze printingLoopGraph).sets ⟨0⟩ = [⟨0⟩, ⟨1⟩] := by decide +kernel
  let states (n : Nat) : Running := ⟨n % 3, ⟨fun _ => 0, fun _ => 0⟩⟩
  have hruns : Executes default (fun _ => 0) {} printingLoop ⊤ states printedZeros := by
    intro n _
    have hcases : n % 3 = 0 ∧ (n + 1) % 3 = 1 ∨ n % 3 = 1 ∧ (n + 1) % 3 = 2 ∨ n % 3 = 2 ∧ (n + 1) % 3 = 0 := by omega
    have hplaces : Line.Places printingLoop ⟨0⟩ 0 := (Line.places_iff_of_nodup (by decide)).mpr rfl
    rcases hcases with ⟨h, h'⟩ | ⟨h, h'⟩ | ⟨h, h'⟩ <;> simp only [states, printedZeros, h, h']
    · exact .label rfl
    · exact .syscall (i := ⟨⟨0⟩, .syscall .printInt ⟨0⟩ ⟨1⟩ ⟨2⟩, false⟩) rfl rfl rfl
    · exact .jump rfl rfl hplaces
  obtain ⟨others, hstart, hothers, -⟩ := executes_of_liveIn_eq default (fun _ => 0) printingLoop {} printingLoopGraph
    hbuild ⟨0⟩ (by decide) ⟨fun _ => 0, fun _ => 0⟩ ⟨fun t => if t = ⟨2⟩ then 1 else 0, fun _ => 0⟩ rfl
    (by rw [hlive]; decide) ⊤ states printedZeros rfl hruns
  exact ⟨hbuild, others, hstart, hothers⟩

end Graph

end TigerMips.Flow
