import Mathlib.Algebra.Order.BigOperators.Group.List
import Mathlib.Tactic
import TigerMips.Flow.Liveness
import TigerMips.Proofs.Fixpoint
import TigerMips.Proofs.Flow.Graph

/-! Liveness is exact: a temp is live before a block if and only if a walk from there reads it
before it is written. -/

namespace TigerMips.Flow

open Machine

namespace Block

def Exposes (block : Block) (t : Temp) : Prop :=
  ∃ before instruction after, block.instructions = before ++ instruction :: after ∧
    t ∈ instruction.operation.uses ∧ ∀ earlier ∈ before, t ∉ earlier.operation.defs

def Writes (block : Block) (t : Temp) : Prop :=
  ∃ instruction ∈ block.instructions, t ∈ instruction.operation.defs

def usesBefore (instruction : Instruction) (later : List Temp) : List Temp :=
  Ordered.union instruction.operation.uses (Ordered.difference later instruction.operation.defs)

lemma mem_foldr_usesBefore (t : Temp) (instructions : List Instruction) :
    t ∈ instructions.foldr usesBefore [] ↔
      ∃ before instruction after, instructions = before ++ instruction :: after ∧
        t ∈ instruction.operation.uses ∧ ∀ earlier ∈ before, t ∉ earlier.operation.defs := by
  induction instructions with
  | nil => simp
  | cons first rest ih =>
    rw [List.foldr_cons, usesBefore, Ordered.mem_union, Ordered.mem_difference, ih]
    constructor
    · rintro (hu | ⟨⟨before, instruction, after, rfl, hu, hb⟩, hd⟩)
      · exact ⟨[], first, rest, rfl, hu, by simp⟩
      · exact ⟨first :: before, instruction, after, rfl, hu, by simpa using ⟨hd, hb⟩⟩
    · rintro ⟨before, instruction, after, he, hu, hb⟩
      cases before with
      | nil =>
        obtain ⟨rfl, rfl⟩ := List.cons.inj he
        exact Or.inl hu
      | cons earlier before =>
        obtain ⟨rfl, rfl⟩ := List.cons.inj he
        exact Or.inr ⟨⟨before, instruction, after, rfl, hu, fun e he => hb e (List.mem_cons_of_mem _ he)⟩,
          hb _ List.mem_cons_self⟩

lemma mem_uses (block : Block) (t : Temp) : t ∈ block.uses ↔ block.Exposes t :=
  mem_foldr_usesBefore t block.instructions

lemma mem_defs (block : Block) (t : Temp) : t ∈ block.defs ↔ block.Writes t := by
  simp [defs, Writes, Ordered.mem_unions]

lemma pairwise_operation_uses (operation : Operation) : operation.uses.Pairwise (· < ·) := by
  unfold Operation.uses
  split <;> simp [Ordered.pairwise_ofList]

lemma pairwise_uses (block : Block) : block.uses.Pairwise (· < ·) := by
  unfold uses
  induction block.instructions with
  | nil => exact List.Pairwise.nil
  | cons first rest ih =>
    exact Ordered.pairwise_union (pairwise_operation_uses _) (Ordered.pairwise_difference _ ih)

end Block

namespace Graph

inductive Walk (graph : Graph) : BlockId → List Block → Block → Prop
  | here {id block} : graph.blocks.get? id = some block → Walk graph id [] block
  | step {id block next passed last} : graph.blocks.get? id = some block →
      next ∈ block.successors → Walk graph next passed last → Walk graph id (block :: passed) last

lemma Walk.exists_first {graph : Graph} {id : BlockId} {passed : List Block} {last : Block}
    (h : graph.Walk id passed last) : ∃ first, graph.blocks.get? id = some first := by
  cases h with
  | here hf | step hf _ _ => exact ⟨_, hf⟩

def LiveAt (graph : Graph) (t : Temp) (id : BlockId) : Prop :=
  ∃ passed last, graph.Walk id passed last ∧ (∀ block ∈ passed, ¬ block.Writes t) ∧ last.Exposes t

lemma liveAt_iff {graph : Graph} {t : Temp} {id : BlockId} {block : Block}
    (hb : graph.blocks.get? id = some block) : graph.LiveAt t id ↔
      block.Exposes t ∨ (∃ next ∈ block.successors, graph.LiveAt t next) ∧ ¬ block.Writes t := by
  constructor
  · rintro ⟨passed, last, hw, hp, he⟩
    cases hw with
    | here h =>
      obtain rfl := Option.some.inj (hb.symm.trans h)
      exact Or.inl he
    | step h hn hw =>
      obtain rfl := Option.some.inj (hb.symm.trans h)
      exact Or.inr ⟨⟨_, hn, _, last, hw, fun other ho => hp other (List.mem_cons_of_mem _ ho), he⟩,
        hp _ List.mem_cons_self⟩
  · rintro (he | ⟨⟨next, hn, passed, last, hw, hp, he⟩, hd⟩)
    · exact ⟨[], block, .here hb, by simp, he⟩
    · exact ⟨block :: passed, last, .step hb hn hw, by simpa using ⟨hd, hp⟩, he⟩

lemma LiveAt.mem_uses {graph : Graph} {t : Temp} {id : BlockId} (h : graph.LiveAt t id) :
    t ∈ graph.blocks.items.flatMap Block.uses := by
  obtain ⟨passed, last, hw, -, he⟩ := h
  have hl : last ∈ graph.blocks.items := by
    clear he
    induction hw with
    | here h => exact graph.blocks.mem_items.mpr ⟨_, h⟩
    | step _ _ _ ih => exact ih
  exact List.mem_flatMap.mpr ⟨last, hl, (last.mem_uses t).mpr he⟩

end Graph

namespace Liveness

variable {graph : Graph} {table : LiveTable}

lemma mem_liveInOf {id : BlockId} {t : Temp} :
    t ∈ liveInOf table id ↔ ∃ sets, table.get? id = some sets ∧ t ∈ sets.liveIn := by
  unfold liveInOf
  cases table.get? id <;> simp

lemma mem_outOf {block : Block} {t : Temp} :
    t ∈ outOf table block ↔ ∃ next ∈ block.successors, t ∈ liveInOf table next := by
  simp [outOf, Ordered.mem_unions]

lemma mem_inOf {sets : LiveSets} {liveOut : List Temp} {t : Temp} :
    t ∈ inOf sets liveOut ↔ t ∈ sets.uses ∨ t ∈ liveOut ∧ t ∉ sets.defs := by
  simp [inOf, Ordered.mem_union, Ordered.mem_difference]

lemma inOf_subset {sets : LiveSets} {before after : List Temp} (h : before ⊆ after) :
    inOf sets before ⊆ inOf sets after := by
  intro t ht
  rcases mem_inOf.mp ht with hu | ⟨ho, hd⟩
  · exact mem_inOf.mpr (Or.inl hu)
  · exact mem_inOf.mpr (Or.inr ⟨h ho, hd⟩)

structure Approximates (graph : Graph) (table : LiveTable) (id : BlockId) (block : Block)
    (sets : LiveSets) : Prop where
  uses : sets.uses = block.uses
  defs : sets.defs = block.defs
  sorted_in : sets.liveIn.Pairwise (· < ·)
  sorted_out : sets.liveOut.Pairwise (· < ·)
  out_subset : sets.liveOut ⊆ outOf table block
  in_subset : sets.liveIn ⊆ inOf sets sets.liveOut
  out_live : ∀ t ∈ sets.liveOut, ∃ next ∈ block.successors, graph.LiveAt t next
  in_live : ∀ t ∈ sets.liveIn, graph.LiveAt t id

structure Partial (graph : Graph) (table : LiveTable) : Prop where
  size : table.size = graph.blocks.size
  sets : ∀ id block sets, graph.blocks.get? id = some block → table.get? id = some sets →
    Approximates graph table id block sets

namespace Partial

lemma exists_sets (h : Partial graph table) {id : BlockId} {block : Block}
    (hb : graph.blocks.get? id = some block) : ∃ sets, table.get? id = some sets := by
  rw [table.exists_get?, h.size]
  exact graph.blocks.lt_size hb

lemma exists_block (h : Partial graph table) {id : BlockId} {sets : LiveSets}
    (hs : table.get? id = some sets) : ∃ block, graph.blocks.get? id = some block := by
  rw [graph.blocks.exists_get?, ← h.size]
  exact table.lt_size hs

lemma liveAt (h : Partial graph table) {id : BlockId} {t : Temp} (ht : t ∈ liveInOf table id) :
    graph.LiveAt t id := by
  obtain ⟨sets, hs, ht⟩ := mem_liveInOf.mp ht
  obtain ⟨block, hb⟩ := h.exists_block hs
  exact (h.sets id block sets hb hs).in_live t ht

lemma sorted_liveInOf (h : Partial graph table) (id : BlockId) : (liveInOf table id).Pairwise (· < ·) := by
  unfold liveInOf
  cases hs : table.get? id with
  | none => exact List.Pairwise.nil
  | some sets =>
    obtain ⟨block, hb⟩ := h.exists_block hs
    exact (h.sets id block sets hb hs).sorted_in

lemma sorted_outOf (h : Partial graph table) (block : Block) : (outOf table block).Pairwise (· < ·) := by
  apply Ordered.pairwise_unions
  intro set hs
  obtain ⟨next, -, rfl⟩ := List.mem_map.mp hs
  exact h.sorted_liveInOf next

lemma start (graph : Graph) : Partial graph (start graph) where
  size := by simp [Liveness.start, Arena.size]
  sets := by
    intro id block sets hb hs
    simp only [Liveness.start, Arena.get?, List.getElem?_map] at hs
    simp only [Arena.get?] at hb
    rw [hb] at hs
    obtain rfl := Option.some.inj hs
    exact ⟨rfl, rfl, .nil, .nil, by simp, by simp, by simp, by simp⟩

end Partial

def solved (table : LiveTable) (block : Block) (sets : LiveSets) : LiveSets :=
  { sets with liveIn := inOf sets (outOf table block), liveOut := outOf table block }

def Settled (table : LiveTable) (id : BlockId) (block : Block) : Prop :=
  ∃ sets, table.get? id = some sets ∧ solved table block sets = sets

lemma update_cases (h : Partial graph table) (changed : Bool) {id : BlockId} {block : Block}
    (hb : graph.blocks.get? id = some block) :
    update (table, changed) (id, block) = (table, changed) ∧ Settled table id block ∨
      ∃ sets, table.get? id = some sets ∧ solved table block sets ≠ sets ∧
        update (table, changed) (id, block) = (table.set id (solved table block sets), true) := by
  obtain ⟨sets, hs⟩ := h.exists_sets hb
  have he : solved table block sets = sets ↔
      inOf sets (outOf table block) = sets.liveIn ∧ outOf table block = sets.liveOut := by
    rcases sets with ⟨uses, defs, liveIn, liveOut⟩
    simp [solved]
  by_cases hc : solved table block sets = sets
  · refine Or.inl ⟨?_, sets, hs, hc⟩
    simp only [update, hs]
    rw [if_pos (he.mp hc)]
  · refine Or.inr ⟨sets, hs, hc, ?_⟩
    simp only [update, hs]
    rw [if_neg (mt he.mpr hc)]
    rfl

lemma outOf_subset {before after : LiveTable}
    (h : ∀ id, liveInOf before id ⊆ liveInOf after id) (block : Block) :
    outOf before block ⊆ outOf after block := by
  intro t ht
  obtain ⟨next, hn, ht⟩ := mem_outOf.mp ht
  exact mem_outOf.mpr ⟨next, hn, h next ht⟩

lemma Approximates.liveOut_subset_solved {id : BlockId} {block : Block} {sets : LiveSets}
    (h : Approximates graph table id block sets) :
    sets.liveOut ⊆ (solved table block sets).liveOut := h.out_subset

lemma Approximates.liveIn_subset_solved {id : BlockId} {block : Block} {sets : LiveSets}
    (h : Approximates graph table id block sets) :
    sets.liveIn ⊆ (solved table block sets).liveIn :=
  List.Subset.trans h.in_subset (inOf_subset h.out_subset)

lemma liveInOf_set (h : Partial graph table) {id : BlockId} {block : Block} {sets : LiveSets}
    (hb : graph.blocks.get? id = some block) (hs : table.get? id = some sets) (other : BlockId) :
    liveInOf table other ⊆ liveInOf (table.set id (solved table block sets)) other := by
  intro t ht
  obtain ⟨found, hf, ht⟩ := mem_liveInOf.mp ht
  rw [mem_liveInOf, Arena.get?_set]
  by_cases ho : other = id
  · subst ho
    obtain rfl := Option.some.inj (hs.symm.trans hf)
    rw [if_pos ⟨rfl, table.lt_size hs⟩]
    exact ⟨_, rfl, (h.sets other block sets hb hs).liveIn_subset_solved ht⟩
  · rw [if_neg (by simp [ho])]
    exact ⟨found, hf, ht⟩

lemma Partial.solved_approximates (h : Partial graph table) {id : BlockId} {block : Block}
    {sets : LiveSets} (hb : graph.blocks.get? id = some block) (hs : table.get? id = some sets) :
    Approximates graph (table.set id (solved table block sets)) id block (solved table block sets) := by
  have ha := h.sets id block sets hb hs
  have hlive : ∀ t ∈ outOf table block, ∃ next ∈ block.successors, graph.LiveAt t next := by
    intro t ht
    obtain ⟨next, hn, ht⟩ := mem_outOf.mp ht
    exact ⟨next, hn, h.liveAt ht⟩
  refine ⟨ha.uses, ha.defs, ?_, h.sorted_outOf block, outOf_subset (liveInOf_set h hb hs) block,
    List.Subset.refl _, hlive, ?_⟩
  · refine Ordered.pairwise_union ?_ (Ordered.pairwise_difference _ (h.sorted_outOf block))
    rw [ha.uses]
    exact block.pairwise_uses
  · intro t ht
    have ht : t ∈ inOf sets (outOf table block) := ht
    rw [mem_inOf, ha.uses, ha.defs, block.mem_uses, block.mem_defs] at ht
    rw [Graph.liveAt_iff hb]
    exact ht.imp_right fun hout => ⟨hlive t hout.1, hout.2⟩

lemma Partial.set_solved (h : Partial graph table) {id : BlockId} {block : Block} {sets : LiveSets}
    (hb : graph.blocks.get? id = some block) (hs : table.get? id = some sets) :
    Partial graph (table.set id (solved table block sets)) where
  size := by simpa using h.size
  sets := by
    intro other otherBlock found hob hf
    rw [Arena.get?_set] at hf
    by_cases ho : other = id
    · subst ho
      rw [if_pos ⟨rfl, table.lt_size hs⟩] at hf
      obtain rfl := Option.some.inj hf
      obtain rfl := Option.some.inj (hb.symm.trans hob)
      exact h.solved_approximates hb hs
    · rw [if_neg (by simp [ho])] at hf
      have ha := h.sets other otherBlock found hob hf
      exact { ha with
        out_subset := List.Subset.trans ha.out_subset (outOf_subset (liveInOf_set h hb hs) otherBlock) }

def weight (sets : LiveSets) : Nat := sets.liveIn.length + sets.liveOut.length

def totalWeight (table : LiveTable) : Nat := (table.items.map weight).sum

lemma totalWeight_set (h : Partial graph table) {id : BlockId} {block : Block} {sets : LiveSets}
    (hb : graph.blocks.get? id = some block) (hs : table.get? id = some sets)
    (hne : solved table block sets ≠ sets) :
    totalWeight table < totalWeight (table.set id (solved table block sets)) := by
  have ha := h.sets id block sets hb hs
  have hn := h.solved_approximates hb hs
  have hin := Ordered.length_le_of_subset ha.sorted_in ha.liveIn_subset_solved
  have hout := Ordered.length_le_of_subset ha.sorted_out ha.liveOut_subset_solved
  refine table.sum_lt_sum_set hs ?_
  unfold weight
  by_cases he : sets.liveIn = (solved table block sets).liveIn
  · have hne' : sets.liveOut ≠ (solved table block sets).liveOut := by
      intro ho
      exact hne (congrArg₂ (LiveSets.mk sets.uses sets.defs) he ho).symm
    have := Ordered.length_lt_of_subset ha.sorted_out hn.sorted_out ha.liveOut_subset_solved hne'
    omega
  · have := Ordered.length_lt_of_subset ha.sorted_in hn.sorted_in ha.liveIn_subset_solved he
    omega

lemma Partial.totalWeight_le (h : Partial graph table) : totalWeight table ≤ room graph := by
  have hw : ∀ w ∈ table.items.map weight, w ≤ 2 * (graph.blocks.items.flatMap Block.uses).length := by
    intro w hw
    obtain ⟨sets, hm, rfl⟩ := List.mem_map.mp hw
    obtain ⟨id, hs⟩ := table.mem_items.mp hm
    obtain ⟨block, hb⟩ := h.exists_block hs
    have ha := h.sets id block sets hb hs
    have hin := Ordered.length_le_of_subset ha.sorted_in fun t ht => (ha.in_live t ht).mem_uses
    have hout := Ordered.length_le_of_subset ha.sorted_out fun t ht =>
      (ha.out_live t ht).elim fun _ hn => hn.2.mem_uses
    unfold weight
    omega
  calc totalWeight table
      ≤ (table.items.map weight).length • (2 * (graph.blocks.items.flatMap Block.uses).length) :=
        List.sum_le_card_nsmul _ _ hw
    _ = room graph := by
        have hs : table.items.length = graph.blocks.items.length := h.size
        simp only [List.length_map, hs, smul_eq_mul, room, Arena.size]
        rw [Nat.mul_left_comm, Nat.mul_assoc]

lemma update_cases_of_mem {entry : BlockId × Block} (hm : entry ∈ graph.blocks.entries.reverse) (table : LiveTable)
    (changed : Bool) (h : Partial graph table) :
    update (table, changed) entry = (table, changed) ∧ Settled table entry.1 entry.2 ∨
      Partial graph (update (table, changed) entry).1 ∧ (update (table, changed) entry).2 = true ∧
        totalWeight table < totalWeight (update (table, changed) entry).1 := by
  have hb := graph.blocks.mem_entries.mp (List.mem_reverse.mp hm)
  rcases update_cases h changed hb with hdone | ⟨sets, hs, hne, hu⟩
  · exact Or.inl hdone
  · rw [show update (table, changed) entry = _ from hu]
    exact Or.inr ⟨h.set_solved hb hs, rfl, totalWeight_set h hb hs hne⟩

lemma sweep_cases (h : Partial graph table) : Partial graph (sweep graph table).1 ∧
    (sweep graph table = (table, false) ∧
        (∀ id block, graph.blocks.get? id = some block → Settled table id block) ∨
      (sweep graph table).2 = true ∧ totalWeight table < totalWeight (sweep graph table).1) := by
  obtain ⟨hp, hr⟩ := foldl_cases _ (fun entry hm => update_cases_of_mem hm) table false h
  refine ⟨hp, hr.imp_left fun hr => ⟨hr.1, fun id block hb => ?_⟩⟩
  exact hr.2 (id, block) (List.mem_reverse.mpr (graph.blocks.mem_entries.mpr hb))

lemma analyze_sweeps (graph : Graph) :
    Sweeps (sweep graph) (start graph) (analyze graph).sets (analyze graph).sweeps := by
  refine Sweeps.of_limit (P := Partial graph) (fun table h => (sweep_cases h).1) ?_ (fun table h => h.totalWeight_le)
    (room graph + 1) (start graph) (Partial.start graph) (by omega)
  intro table h hc
  rcases (sweep_cases h).2 with ⟨hr, -⟩ | hr
  · rw [hr] at hc
    cases hc
  · exact hr.2

lemma analyze_settled (graph : Graph) : Partial graph (analyze graph).sets ∧
    ∀ id block, graph.blocks.get? id = some block → Settled (analyze graph).sets id block := by
  obtain ⟨table, h, hc, hr⟩ := (analyze_sweeps graph).exists_last (P := Partial graph)
    (fun table h => (sweep_cases h).1) (Partial.start graph)
  rcases (sweep_cases h).2 with ⟨hs, hsettled⟩ | ⟨ht, -⟩
  · rw [hs] at hr
    subst hr
    exact ⟨h, hsettled⟩
  · rw [hc] at ht
    cases ht

def Solves (graph : Graph) (table : LiveTable) : Prop :=
  ∀ id block, graph.blocks.get? id = some block → ∃ sets, table.get? id = some sets ∧
    (∀ t, t ∈ sets.liveOut ↔ ∃ next ∈ block.successors, t ∈ liveInOf table next) ∧
    ∀ t, t ∈ sets.liveIn ↔ block.Exposes t ∨ t ∈ sets.liveOut ∧ ¬ block.Writes t

lemma analyze_solves (graph : Graph) : Solves graph (analyze graph).sets := by
  intro id block hb
  obtain ⟨hp, hsettled⟩ := analyze_settled graph
  obtain ⟨sets, hs, he⟩ := hsettled id block hb
  have ha := hp.sets id block sets hb hs
  have hout : outOf (analyze graph).sets block = sets.liveOut := congrArg LiveSets.liveOut he
  have hin : inOf sets (outOf (analyze graph).sets block) = sets.liveIn := congrArg LiveSets.liveIn he
  refine ⟨sets, hs, fun t => ?_, fun t => ?_⟩
  · rw [← hout, mem_outOf]
  · rw [← hin, mem_inOf, hout, ha.uses, ha.defs, block.mem_uses, block.mem_defs]

lemma Solves.liveAt (h : Solves graph table) {id : BlockId} {t : Temp} (ht : graph.LiveAt t id) :
    t ∈ liveInOf table id := by
  obtain ⟨passed, last, hw, hp, he⟩ := ht
  induction hw with
  | here hb =>
    obtain ⟨sets, hs, -, hin⟩ := h _ _ hb
    exact mem_liveInOf.mpr ⟨sets, hs, (hin t).mpr (Or.inl he)⟩
  | step hb hn _ ih =>
    obtain ⟨sets, hs, hout, hin⟩ := h _ _ hb
    have hl := ih (fun block hm => hp block (List.mem_cons_of_mem _ hm)) he
    exact mem_liveInOf.mpr ⟨sets, hs,
      (hin t).mpr (Or.inr ⟨(hout t).mpr ⟨_, hn, hl⟩, hp _ List.mem_cons_self⟩)⟩

lemma mapM_get? (table : LiveTable) (ids : List BlockId) (h : ∀ id ∈ ids, id.position < table.size) :
    ∃ found, ids.mapM table.get? = some found ∧ found.map LiveSets.liveIn = ids.map (liveInOf table) := by
  induction ids with
  | nil => exact ⟨[], rfl, rfl⟩
  | cons id ids ih =>
    obtain ⟨sets, hs⟩ := table.exists_get?.mpr (h id List.mem_cons_self)
    obtain ⟨found, hf, he⟩ := ih fun other ho => h other (List.mem_cons_of_mem _ ho)
    refine ⟨sets :: found, by simp [List.mapM_cons, hs, hf], ?_⟩
    simp [he, liveInOf, hs]

lemma solves?_eq_true {id : BlockId} {block : Block} (hsettled : Settled table id block)
    (hr : ∀ next ∈ block.successors, next.position < table.size) : solves? table id block = some true := by
  obtain ⟨sets, hs, he⟩ := hsettled
  obtain ⟨found, hf, hl⟩ := mapM_get? table block.successors hr
  have hout : outOf table block = sets.liveOut := congrArg LiveSets.liveOut he
  have hin : inOf sets (outOf table block) = sets.liveIn := congrArg LiveSets.liveIn he
  rw [hout] at hin
  simp only [solves?, hs, hf, hl, Option.bind_eq_bind, Option.bind_some, ← outOf.eq_1]
  simp [hout, hin]

lemma allSolve?_eq_true (entries : List (BlockId × Block))
    (h : ∀ entry ∈ entries, solves? table entry.1 entry.2 = some true) : allSolve? table entries = some true := by
  induction entries with
  | nil => rfl
  | cons entry entries ih =>
    simp [allSolve?, h entry List.mem_cons_self, ih fun other ho => h other (List.mem_cons_of_mem _ ho)]

lemma analyze_isFixedPoint (h : graph.InRange) : (analyze graph).isFixedPoint? graph = some true := by
  obtain ⟨hp, hsettled⟩ := analyze_settled graph
  refine allSolve?_eq_true graph.blocks.entries fun entry he => ?_
  have hb := graph.blocks.mem_entries.mp he
  exact solves?_eq_true (hsettled _ _ hb) (hp.size ▸ h _ _ hb)

theorem live_iff_exists_walk :
    (∀ lines frames graph, Graph.build lines frames = .ok graph → graph.InRange) ∧
    ∀ graph : Graph, graph.InRange →
      Sweeps (sweep graph) (start graph) (analyze graph).sets (analyze graph).sweeps ∧
      (∀ id block, graph.blocks.get? id = some block →
        ∃ sets, (analyze graph).sets.get? id = some sets ∧
          (∀ t, t ∈ sets.liveIn ↔ ∃ passed last, graph.Walk id passed last ∧
            (∀ between ∈ passed, ¬ between.Writes t) ∧ last.Exposes t) ∧
          ∀ t, t ∈ sets.liveOut ↔
            ∃ next ∈ block.successors, t ∈ liveInOf (analyze graph).sets next) ∧
      (analyze graph).isFixedPoint? graph = some true ∧
      Solves graph (analyze graph).sets ∧
      ∀ other, Solves graph other → ∀ id least sets, (analyze graph).sets.get? id = some least →
        other.get? id = some sets → least.liveIn ⊆ sets.liveIn ∧ least.liveOut ⊆ sets.liveOut := by
  refine ⟨fun lines frames graph => Graph.inRange_of_build, fun graph hr => ?_⟩
  obtain ⟨hp, -⟩ := analyze_settled graph
  have hsolves := analyze_solves graph
  refine ⟨analyze_sweeps graph, fun id block hb => ?_, analyze_isFixedPoint hr, hsolves, ?_⟩
  · obtain ⟨sets, hs, hout, -⟩ := hsolves id block hb
    refine ⟨sets, hs, fun t => ⟨(hp.sets id block sets hb hs).in_live t, fun ht => ?_⟩, hout⟩
    obtain ⟨found, hf, hm⟩ := mem_liveInOf.mp (hsolves.liveAt ht)
    exact Option.some.inj (hf.symm.trans hs) ▸ hm
  · intro other ho id least sets hl hs
    obtain ⟨block, hb⟩ := hp.exists_block hl
    obtain ⟨found, hf, hout, -⟩ := ho id block hb
    obtain rfl := Option.some.inj (hf.symm.trans hs)
    constructor
    · intro t ht
      obtain ⟨_, hf', hm⟩ := mem_liveInOf.mp (ho.liveAt ((hp.sets id block least hb hl).in_live t ht))
      exact Option.some.inj (hf'.symm.trans hs) ▸ hm
    · intro t ht
      obtain ⟨next, hn, hlive⟩ := (hp.sets id block least hb hl).out_live t ht
      exact (hout t).mpr ⟨next, hn, ho.liveAt hlive⟩

def countingLoop : Graph :=
  ⟨⟨[{ labels := [⟨0⟩]
       instructions := [⟨⟨0⟩, .addImmediate ⟨0⟩ ⟨0⟩ (.int 1), false⟩, ⟨⟨0⟩, .branch .lt ⟨0⟩ ⟨1⟩ ⟨0⟩, false⟩]
       successors := [⟨0⟩, ⟨1⟩] },
     { instructions := [⟨⟨0⟩, .move ⟨2⟩ ⟨0⟩, false⟩] }]⟩⟩

theorem countingLoop_live : countingLoop.InRange ∧ countingLoop.LiveAt ⟨1⟩ ⟨0⟩ ∧
    (analyze countingLoop).isFixedPoint? countingLoop = some true := by
  have hr : countingLoop.InRange := by
    intro id block hb next hn
    have hm := countingLoop.blocks.mem_items.mpr ⟨id, hb⟩
    simp only [countingLoop, List.mem_cons, List.not_mem_nil, or_false] at hm
    rcases hm with rfl | rfl <;> simp_all [Arena.size, countingLoop]
    rcases hn with rfl | rfl <;> simp
  obtain ⟨-, hlive, hfixed, -⟩ := live_iff_exists_walk.2 countingLoop hr
  obtain ⟨sets, hs, hin, -⟩ := hlive ⟨0⟩ _ rfl
  have hm : (⟨1⟩ : Temp) ∈ liveInOf (analyze countingLoop).sets ⟨0⟩ := by decide +kernel
  obtain ⟨found, hf, hm⟩ := mem_liveInOf.mp hm
  obtain rfl := Option.some.inj (hf.symm.trans hs)
  exact ⟨hr, (hin ⟨1⟩).mp hm, hfixed⟩

end Liveness

end TigerMips.Flow
