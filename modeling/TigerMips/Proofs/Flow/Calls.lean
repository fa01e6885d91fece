import TigerMips.Proofs.Compile
import TigerMips.Proofs.Flow.Edges
import TigerMips.Proofs.Labels
import TigerMips.Proofs.Select.Links

/-! Calls and returns match in the flow graph of a program. -/

namespace TigerMips

open Machine

namespace Flow

namespace Block

def Calls (block : Block) (target : Label) : Prop :=
  ∃ i, block.instructions.getLast? = some i ∧ i.operation.callee? = some target

def ReturnsFrom (block : Block) (frame : FrameId) : Prop :=
  ∃ i register, block.instructions.getLast? = some i ∧ i.operation = .jumpRegister register ∧ i.frame = frame

lemma getLast?_lines_eq_instruction {block : Block} {i : Instruction} :
    block.lines.getLast? = some (.instruction i) ↔ block.instructions.getLast? = some i := by
  rw [lines, List.getLast?_append, List.getLast?_map, List.getLast?_map]
  cases block.instructions.getLast? with
  | none => cases block.labels.getLast? <;> simp
  | some other => simp

end Block

namespace Graph

variable {lines : List Line} {frames : Arena .frame Frame} {graph : Graph}

structure Links (graph : Graph) (entry : Entry) (first last : BlockId) : Prop where
  first_iff : ∀ id, (∃ block, graph.blocks.get? id = some block ∧ entry.label ∈ block.labels) ↔ id = first
  last_iff : ∀ id, (∃ block, graph.blocks.get? id = some block ∧ block.ReturnsFrom entry.frame) ↔ id = last
  returns : ∀ block, graph.blocks.get? last = some block → ∀ next, next ∈ block.successors ↔
    ∃ id caller, graph.blocks.get? id = some caller ∧ caller.Calls entry.label ∧ next.position = id.position + 1
  calls : ∀ id caller, graph.blocks.get? id = some caller → caller.Calls entry.label →
    ∀ next, next ∈ caller.successors ↔ next = first
  follows : ∀ id caller, graph.blocks.get? id = some caller → caller.Calls entry.label →
    ∃ follower, graph.blocks.get? ⟨id.position + 1⟩ = some follower ∧
      ∀ source, source ∈ follower.predecessors ↔ source = last

namespace Built

variable {id next : BlockId} {block : Block} {i : Instruction} {p : Nat} (h : Built lines frames graph)
include h

lemma ends_inj {other : BlockId} {found : Block} (hb : graph.blocks.get? id = some block)
    (ho : graph.blocks.get? other = some found) (hp : graph.Ends id p) (hp' : graph.Ends other p) : id = other := by
  have hpos := List.length_pos_iff.mpr (h.formed block (graph.blocks.mem_items.mpr ⟨id, hb⟩)).ne_nil
  have hpos' := List.length_pos_iff.mpr (h.formed found (graph.blocks.mem_items.mpr ⟨other, ho⟩)).ne_nil
  rcases id with ⟨k⟩
  rcases other with ⟨m⟩
  unfold Ends at hp hp'
  rw [start_succ hb] at hp
  rw [start_succ ho] at hp'
  exact congrArg Index.mk (start_add_inj hb ho (i := block.lines.length - 1) (j := found.lines.length - 1)
    (by omega) (by omega) (by omega)).1

lemma getElem?_of_getLast? (hb : graph.blocks.get? id = some block) (hi : block.instructions.getLast? = some i)
    (hp : graph.Ends id p) : lines[p]? = some (.instruction i) := by
  have hne := (h.formed block (graph.blocks.mem_items.mpr ⟨id, hb⟩)).ne_nil
  rw [← h.lines_eq, getElem?_of_succ_eq_start hb hne hp, Block.getLast?_lines_eq_instruction, hi]

lemma exists_ends_of_getElem? (hl : lines[p]? = some (.instruction i)) (hf : i.operation.fallsThrough = false) :
    ∃ id block, graph.blocks.get? id = some block ∧ graph.Ends id p ∧ block.instructions.getLast? = some i := by
  rw [← h.lines_eq] at hl
  obtain ⟨k, block, j, hb, hj, rfl⟩ := exists_start (List.getElem?_eq_some_iff.mp hl).1
  rw [getElem?_start hb hj] at hl
  have hlast : j + 1 = block.lines.length := by
    by_contra hne
    have hm : Line.instruction i ∈ block.lines.dropLast := by
      refine List.mem_of_getElem? (i := j) ?_
      rw [List.getElem?_dropLast, if_pos (by omega), hl]
    have hfalls := (h.falls_inside (graph.blocks.mem_items.mpr ⟨⟨k⟩, hb⟩) hm).1
    exact absurd (hf.symm.trans hfalls) (by simp)
  refine ⟨⟨k⟩, block, hb, ?_, ?_⟩
  · unfold Ends
    rw [start_succ hb, ← hlast, Nat.add_assoc]
  · rw [← Block.getLast?_lines_eq_instruction, List.getLast?_eq_getElem?, ← hlast, Nat.add_sub_cancel]
    exact hl

lemma placed?_iff (hn : (Line.labels lines).Nodup) {place : Label} :
    placed? graph.blocks.items place = some id ↔ ∃ block, graph.blocks.get? id = some block ∧ place ∈ block.labels := by
  refine ⟨h.mem_labels_of_placed?, ?_⟩
  rintro ⟨block, hb, hm⟩
  obtain ⟨j, hj⟩ := List.mem_iff_getElem?.mp hm
  have hline := (getElem?_start_label hb hj).2
  rw [← h.lines_eq] at hn
  exact placed?_iff_places.mpr
    ⟨block, j, hb, (List.getElem?_eq_some_iff.mp hj).1, (Line.places_iff_of_nodup hn).mpr hline⟩

lemma exists_follower {frame : FrameId} {target back : Label} (hat : Line.CallsAt lines p frame target back)
    (hp : graph.Ends id p) :
    ∃ follower, graph.blocks.get? ⟨id.position + 1⟩ = some follower ∧ follower.labels = [back] := by
  obtain ⟨found, block, j, hb, hj, hstart⟩ := h.leading hat.back
  have hk := h.lt_length_of_ends hp (List.getElem?_eq_some_iff.mp hat.back).1
  obtain ⟨follower, hfollower⟩ : ∃ follower, graph.blocks.get? ⟨id.position + 1⟩ = some follower :=
    graph.blocks.exists_get?.mpr hk
  have hlt := (List.getElem?_eq_some_iff.mp hj).1
  have hposition : start graph.blocks.items (id.position + 1) + 0 = start graph.blocks.items found.position + j :=
    hp.symm.trans hstart
  obtain ⟨hid, rfl⟩ := start_add_inj hfollower hb (h.lt_of_head hfollower (Or.inl rfl))
    (h.lt_of_head hb (Or.inr hlt)) hposition
  obtain rfl : follower = block := by
    rcases found with ⟨m⟩
    obtain rfl : id.position + 1 = m := hid
    exact Option.some.inj (hfollower.symm.trans hb)
  refine ⟨follower, hfollower, ?_⟩
  -- A second label would stand where the call has its next instruction.
  have hone : follower.labels[1]? = none := by
    rw [List.getElem?_eq_none_iff]
    by_contra hmore
    have hline := (getElem?_start_label hb (List.getElem?_eq_getElem (Nat.not_le.mp hmore))).2
    obtain ⟨i, hi⟩ := hat.next
    rw [h.lines_eq, ← hid, ← hp] at hline
    exact absurd (hline.symm.trans hi) (by simp)
  cases hlabels : follower.labels with
  | nil => simp [hlabels] at hj
  | cons place rest =>
    rw [hlabels] at hj hone
    obtain rfl := Option.some.inj hj
    cases rest with
    | nil => rfl
    | cons other rest => cases hone

lemma placed?_back (hn : (Line.labels lines).Nodup) {frame : FrameId} {target back : Label}
    (hat : Line.CallsAt lines p frame target back) (hp : graph.Ends id p) :
    placed? graph.blocks.items back = some ⟨id.position + 1⟩ := by
  obtain ⟨follower, hfollower, hlabels⟩ := h.exists_follower hat hp
  exact (h.placed?_iff hn).mpr ⟨follower, hfollower, by simp [hlabels]⟩

lemma mem_successors_of_calls {target : Label} (hb : graph.blocks.get? id = some block) (hc : block.Calls target) :
    next ∈ block.successors ↔ placed? graph.blocks.items target = some next := by
  obtain ⟨i, hi, hcall⟩ := hc
  obtain ⟨register, ho⟩ := Operation.callee?_eq_some.mp hcall
  have hexits : block.exits frames = [target] := by simp [Block.exits, Instruction.exits, hi, ho, Operation.target?]
  have hfalls : block.fallsThrough = false := by simp [Block.fallsThrough, hi, ho, Operation.fallsThrough]
  simp [h.successors id block hb next, Leads, hexits, hfalls]

lemma mem_successors_of_returnsFrom {frame : FrameId} {f : Frame} (hb : graph.blocks.get? id = some block)
    (hr : block.ReturnsFrom frame) (hf : frames.get? frame = some f) :
    next ∈ block.successors ↔ ∃ place ∈ f.returns, placed? graph.blocks.items place = some next := by
  obtain ⟨i, register, hi, ho, rfl⟩ := hr
  have hexits : block.exits frames = f.returns := by simp [Block.exits, Instruction.exits, hi, ho, hf]
  have hfalls : block.fallsThrough = false := by simp [Block.fallsThrough, hi, ho, Operation.fallsThrough]
  simp [h.successors id block hb next, Leads, hexits, hfalls]

lemma mem_exits_cases {place : Label} (hb : graph.blocks.get? id = some block) (hp : place ∈ block.exits frames) :
    place ∈ Line.targets lines ∨ ∃ frame f, block.ReturnsFrom frame ∧ frames.get? frame = some f ∧
        place ∈ f.returns := by
  obtain ⟨i, hi, hexit⟩ := Block.mem_exits.mp hp
  obtain ⟨last, hends⟩ := h.exists_ends hb
  have hline := List.mem_of_getElem? (h.getElem?_of_getLast? hb hi hends)
  unfold Instruction.exits at hexit
  split at hexit
  · rename_i register ho
    cases hf : frames.get? i.frame with
    | none => simp [hf] at hexit
    | some f => exact Or.inr ⟨i.frame, f, ⟨i, register, hi, ho, rfl⟩, hf, by simpa [hf] using hexit⟩
  · exact Or.inl (List.mem_filterMap.mpr ⟨_, hline, Option.mem_toList.mp hexit⟩)

end Built

end Graph

end Flow

open TigerMips.Flow TigerMips.Flow.Graph

namespace Tac.Program.LinkedIn

variable {program : Tac.Program} {machine : Machine.Program} {graph : Graph} {entry : Entry} {f : Frame}
  (hl : program.LinkedIn machine) (h : Built machine.lines machine.frames graph)
include hl h

lemma exists_callsAt {id : BlockId} {caller : Block} {target : Label} (hb : graph.blocks.get? id = some caller)
    (hc : caller.Calls target) : ∃ p frame back f, graph.Ends id p ∧ Line.CallsAt machine.lines p frame target back ∧
      machine.frames.get? frame = some f ∧ f.entry = some target ∧ back ∈ f.returns := by
  obtain ⟨i, hi, hcall⟩ := hc
  obtain ⟨p, hp⟩ := h.exists_ends hb
  obtain ⟨back, f, hat, hf, he, hm⟩ := hl.calls p i target (h.getElem?_of_getLast? hb hi hp) hcall
  exact ⟨p, i.frame, back, f, hp, hat, hf, he, hm⟩

omit hl in
lemma exists_caller {p : Nat} {frame : FrameId} {target back : Label}
    (hat : Line.CallsAt machine.lines p frame target back) :
    ∃ id caller, graph.blocks.get? id = some caller ∧ graph.Ends id p ∧ caller.Calls target := by
  obtain ⟨i, hi, hcall, -⟩ := hat.call
  have hfalls : i.operation.fallsThrough = false := by
    obtain ⟨register, ho⟩ := Operation.callee?_eq_some.mp hcall
    simp [ho, Operation.fallsThrough]
  obtain ⟨id, caller, hb, hp, hlast⟩ := h.exists_ends_of_getElem? hi hfalls
  exact ⟨id, caller, hb, hp, i, hlast, hcall⟩

lemma mem_successors_iff (hn : (Line.labels machine.lines).Nodup) (hf : machine.frames.get? entry.frame = some f)
    (he : f.entry = some entry.label)
    (hunique : ∀ id g, machine.frames.get? id = some g → g.entry = some entry.label → id = entry.frame)
    {id next : BlockId} {block : Block} (hb : graph.blocks.get? id = some block) (hr : block.ReturnsFrom entry.frame) :
    next ∈ block.successors ↔ ∃ id caller, graph.blocks.get? id = some caller ∧ caller.Calls entry.label ∧
      next.position = id.position + 1 := by
  rw [h.mem_successors_of_returnsFrom hb hr hf]
  constructor
  · rintro ⟨back, hm, hplaced⟩
    obtain ⟨p, target, hat⟩ := hl.returns _ f hf back hm
    obtain ⟨source, caller, hcaller, hp, hcalls⟩ := exists_caller h hat
    obtain ⟨i, hi, hcall, hframe⟩ := hat.call
    obtain ⟨_, g, _, hg, hentry, _⟩ := hl.calls p i target hi hcall
    obtain rfl := Option.some.inj (hf.symm.trans (hframe ▸ hg))
    obtain rfl : target = entry.label := Option.some.inj (hentry.symm.trans he)
    rw [h.placed?_back hn hat hp] at hplaced
    exact ⟨source, caller, hcaller, hcalls, by rw [← Option.some.inj hplaced]⟩
  · rintro ⟨source, caller, hcaller, hcalls, hnext⟩
    obtain ⟨p, frame, back, g, hp, hat, hg, hentry, hm⟩ := hl.exists_callsAt h hcaller hcalls
    obtain rfl := hunique frame g hg hentry
    obtain rfl := Option.some.inj (hf.symm.trans hg)
    refine ⟨back, hm, ?_⟩
    rcases next with ⟨k⟩
    obtain rfl : k = source.position + 1 := hnext
    exact h.placed?_back hn hat hp

lemma returnsFrom_of_mem_successors (hn : (Line.labels machine.lines).Nodup) {p : Nat} {id source : BlockId}
    {frame : FrameId} {target back : Label} (hat : Line.CallsAt machine.lines p frame target back)
    (hp : graph.Ends id p)
    {block : Block} (hb : graph.blocks.get? source = some block) (hm : ⟨id.position + 1⟩ ∈ block.successors) :
    block.ReturnsFrom frame := by
  obtain ⟨follower, hfollower, hlabels⟩ := h.exists_follower hat hp
  rcases (h.successors source block hb _).mp hm with ⟨place, hexit, hplaced⟩ | ⟨hfalls, hnext, -⟩
  · obtain ⟨found, hfound, hplace⟩ := (h.placed?_iff hn).mp hplaced
    obtain rfl := Option.some.inj (hfollower.symm.trans hfound)
    obtain rfl : place = back := by simpa [hlabels] using hplace
    rcases h.mem_exits_cases hb hexit with htarget | ⟨other, g, hreturns, hg, hback⟩
    · exact absurd hat (hl.apart place htarget p frame target)
    · obtain ⟨q, entry, hat'⟩ := hl.returns other g hg place hback
      obtain rfl : q = p := Nat.succ_inj.mp (Line.getElem?_inj_of_nodup hn hat'.back hat.back)
      obtain ⟨i, hi, -, rfl⟩ := hat.call
      obtain ⟨j, hj, -, rfl⟩ := hat'.call
      obtain rfl : i = j := by simpa using hi.symm.trans hj
      exact hreturns
  · obtain rfl : source = id := by
      rcases source with ⟨k⟩
      rcases id with ⟨m⟩
      exact congrArg Index.mk (Nat.succ_inj.mp hnext.symm)
    obtain ⟨line, hline, -, hsame⟩ := h.exists_last hb hp
    obtain ⟨i, hi, hcall, -⟩ := hat.call
    obtain ⟨register, ho⟩ := Operation.callee?_eq_some.mp hcall
    obtain rfl : line = .instruction i := Option.some.inj (hline.symm.trans hi)
    rw [hfalls] at hsame
    simp [Line.fallsThrough, ho, Operation.fallsThrough] at hsame

lemma links (hn : (Line.labels machine.lines).Nodup) (hf : machine.frames.get? entry.frame = some f)
    (he : f.entry = some entry.label)
    (hunique : ∀ id g, machine.frames.get? id = some g → g.entry = some entry.label → id = entry.frame)
    (hone : Code.returns program.codes entry.frame = 1) (hplaced : entry.label ∈ Line.labels machine.lines) :
    ∃ first last, graph.Links entry first last := by
  obtain ⟨start, hstart⟩ := Line.mem_labels.mp hplaced
  obtain ⟨first, block, j, hfirst, hj, -⟩ := h.leading hstart
  have hentry : placed? graph.blocks.items entry.label = some first :=
    (h.placed?_iff hn).mpr ⟨block, hfirst, List.mem_of_getElem? hj⟩
  -- There is one line that returns from the function, and it ends a block.
  obtain ⟨p, line, hp, hr, hlines⟩ := List.exists_position_of_countP_eq_one ((hl.count entry.frame).trans hone)
  obtain ⟨i, register, rfl, ho, hframe⟩ := Line.returnsFrom_eq_true.mp hr
  obtain ⟨last, final, hfinal, hends, hi⟩ := h.exists_ends_of_getElem? hp (by simp [ho, Operation.fallsThrough])
  have hlast : final.ReturnsFrom entry.frame := ⟨i, register, hi, ho, hframe⟩
  have hreturns : ∀ id block, graph.blocks.get? id = some block → block.ReturnsFrom entry.frame → id = last := by
    rintro id block hb ⟨k, other, hk, hok, hframe'⟩
    obtain ⟨q, hq⟩ := h.exists_ends hb
    obtain rfl :=
      hlines q _ (h.getElem?_of_getLast? hb hk hq) (Line.returnsFrom_eq_true.mpr ⟨k, other, rfl, hok, hframe'⟩)
    exact h.ends_inj hb hfinal hq hends
  refine ⟨first, last, fun id => ?_, fun id => ?_, fun block hb next => ?_, fun id caller hb hc next => ?_,
    fun id caller hb hc => ?_⟩
  · rw [← h.placed?_iff hn, hentry, Option.some.injEq, eq_comm]
  · refine ⟨fun ⟨block, hb, hblock⟩ => hreturns id block hb hblock, ?_⟩
    rintro rfl
    exact ⟨final, hfinal, hlast⟩
  · obtain rfl := Option.some.inj (hfinal.symm.trans hb)
    exact hl.mem_successors_iff h hn hf he hunique hfinal hlast
  · rw [h.mem_successors_of_calls hb hc, hentry, Option.some.injEq, eq_comm]
  · obtain ⟨q, frame, back, g, hq, hat, hg, hge, -⟩ := hl.exists_callsAt h hb hc
    obtain ⟨follower, hfollower, -⟩ := h.exists_follower hat hq
    obtain rfl := hunique frame g hg hge
    refine ⟨follower, hfollower, fun source => ?_⟩
    rw [h.predecessors _ follower hfollower]
    constructor
    · rintro ⟨other, hother, hm⟩
      exact hreturns source other hother (hl.returnsFrom_of_mem_successors h hn hat hq hother hm)
    · rintro rfl
      exact ⟨final, hfinal, (hl.mem_successors_iff h hn hf he hunique hfinal hlast).mpr ⟨id, caller, hb, hc, rfl⟩⟩

end Tac.Program.LinkedIn

theorem links_compile (expression : Expr) (h : (analyze expression).1 = []) :
    ∃ compilation, (analyze expression).2.compile = .ok compilation ∧
      ∀ entry, (analyze expression).2.Declares entry → ∃ first last, compilation.flow.Links entry first last := by
  have hselectable := selectable_analyze h
  obtain ⟨machine, graph, hm, hg⟩ := Tac.Program.generate_build_ok hselectable
  have hcodes := wellLabeled_codes h
  have hlinked := hselectable.linkedIn hm fun l => lt_supply_of_mem_labels h
  have hn := Tac.Program.nodup_generate hm hcodes.nodup fun l => lt_supply_of_mem_labels h
  obtain ⟨_, _, _, -, hsublist⟩ := Select.mixed_generate hm
  refine ⟨_, Tac.Program.compile_eq hm hg, fun entry hd => ?_⟩
  obtain ⟨f, hf, he⟩ := entered_analyze hd
  have hframes := hlinked.entries
  obtain ⟨g, hg', hge⟩ : ∃ g, machine.frames.get? entry.frame = some g ∧ g.entry = some entry.label := by
    have hsame := hframes entry.frame
    rw [hf, Option.map_some, he] at hsame
    exact Option.map_eq_some_iff.mp hsame
  refine hlinked.links (Flow.Graph.built_of_build hg) hn hg' hge (fun id k hk hke => ?_) (returns_analyze h hd) ?_
  · have hsame := hframes id
    rw [hk, Option.map_some, hke] at hsame
    obtain ⟨f', hf', he'⟩ := Option.map_eq_some_iff.mp hsame.symm
    exact (separate_analyze expression).entries hf' hf he' he
  · exact hsublist.subset (mem_labels_analyze h hd)

def mutualCalls : Expr :=
  .letIn {} [.functions [.mk { name := "outer" } [({ name := "n" }, { name := "int" })] (some { name := "int" })
    (.letIn {} [.functions [
        .mk { name := "even" } [({ name := "k" }, { name := "int" })] (some { name := "int" })
          (.ifThenElse {} (.lvalue {} (.var {} { name := "k" }))
            (.call {} { name := "odd" }
              [.operation {} (.strict .sub) {} (.lvalue {} (.var {} { name := "k" })) (.int {} 1)])
            (.int {} 1)),
        .mk { name := "odd" } [({ name := "k" }, { name := "int" })] (some { name := "int" })
          (.operation {} (.strict .sub) {} (.int {} 1)
            (.call {} { name := "even" } [.lvalue {} (.var {} { name := "k" })]))]]
      [.call {} { name := "even" } [.lvalue {} (.var {} { name := "n" })]])]]
    [.call {} { name := "outer" } [.call {} { name := "outer" } [.int {} 7]]]

theorem mutualCalls_links : (analyze mutualCalls).1 = [] ∧
    ∃ compilation, (analyze mutualCalls).2.compile = .ok compilation ∧
      ∃ entry, (analyze mutualCalls).2.Declares entry ∧ ∃ first last, compilation.flow.Links entry first last := by
  have hclean : (analyze mutualCalls).1 = [] := List.isEmpty_iff.mp (by decide +kernel)
  have hsome : (((analyze mutualCalls).2.functions.get? ⟨12⟩).bind (·.signature.entry)).isSome := by decide +kernel
  obtain ⟨entry, hentry⟩ := Option.isSome_iff_exists.mp hsome
  obtain ⟨f, hf, he⟩ := Option.bind_eq_some_iff.mp hentry
  obtain ⟨compilation, hcompile, hlinks⟩ := links_compile mutualCalls hclean
  exact ⟨hclean, compilation, hcompile, entry, ⟨_, f, hf, he⟩, hlinks entry ⟨_, f, hf, he⟩⟩

end TigerMips
