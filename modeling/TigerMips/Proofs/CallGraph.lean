import Mathlib.Logic.Relation
import Mathlib.Tactic
import TigerMips.CallGraph

/-! The search in a call graph finds exactly the frames that calls lead to. -/

namespace TigerMips.CallGraph

def ofCalls (calls : List (FrameId × FrameId)) : CallGraph :=
  calls.foldl (fun graph call => graph.addEdge call.1 call.2) {}

def Leads (edges : List (FrameId × FrameId)) : FrameId → FrameId → Prop :=
  Relation.ReflTransGen fun caller callee => (caller, callee) ∈ edges

variable {edges : List (FrameId × FrameId)} {frame start goal : FrameId}

lemma mem_outgoing {callee : FrameId} : callee ∈ outgoing edges frame ↔ (frame, callee) ∈ edges := by
  simp [outgoing]

lemma mem_elsewhere {edge : FrameId × FrameId} : edge ∈ elsewhere edges frame ↔ edge ∈ edges ∧ edge.1 ≠ frame := by
  simp [elsewhere]

lemma leads_of_elsewhere (h : Leads (elsewhere edges frame) start goal) : Leads edges start goal :=
  Relation.ReflTransGen.mono (fun _ _ hedge => (mem_elsewhere.mp hedge).1) _ _ h

lemma eq_of_leads_elsewhere (h : Leads (elsewhere edges frame) frame goal) : goal = frame := by
  rcases h.cases_head with rfl | ⟨next, hedge, -⟩
  · rfl
  · exact absurd rfl (mem_elsewhere.mp hedge).2

lemma leads_elsewhere_or (h : Leads edges start goal) (frame : FrameId) :
    Leads (elsewhere edges frame) start goal ∨
      ∃ next ∈ outgoing edges frame, Leads (elsewhere edges frame) next goal := by
  induction h using Relation.ReflTransGen.head_induction_on with
  | refl => exact Or.inl .refl
  | @head caller callee hedge _ ih =>
    rcases ih with hrest | hlast
    · by_cases hc : caller = frame
      · exact Or.inr ⟨callee, mem_outgoing.mpr (hc ▸ hedge), hrest⟩
      · exact Or.inl (.head (mem_elsewhere.mpr ⟨hedge, hc⟩) hrest)
    · exact Or.inr hlast

lemma leads_step {rest : List FrameId} (hne : frame ≠ goal) :
    (∃ next ∈ outgoing edges frame ++ rest, Leads (elsewhere edges frame) next goal) ↔
      ∃ next ∈ frame :: rest, Leads edges next goal := by
  constructor
  · rintro ⟨next, hm, hl⟩
    rcases List.mem_append.mp hm with hm | hm
    · exact ⟨frame, List.mem_cons_self, .head (mem_outgoing.mp hm) (leads_of_elsewhere hl)⟩
    · exact ⟨next, List.mem_cons_of_mem _ hm, leads_of_elsewhere hl⟩
  · rintro ⟨next, hm, hl⟩
    rcases leads_elsewhere_or hl frame with hrest | ⟨after, ho, hlast⟩
    · rcases List.mem_cons.mp hm with rfl | hm
      · exact absurd (eq_of_leads_elsewhere hrest).symm hne
      · exact ⟨next, List.mem_append_right _ hm, hrest⟩
    · exact ⟨after, List.mem_append_left _ ho, hlast⟩

lemma search_iff (goal : FrameId) (todo : List FrameId) (edges : List (FrameId × FrameId)) :
    search goal todo edges = true ↔ ∃ frame ∈ todo, Leads edges frame goal := by
  fun_induction search goal todo edges with
  | case1 edges => simp
  | case2 edges frame rest ih =>
    rw [Bool.or_eq_true, decide_eq_true_iff]
    by_cases hgoal : frame = goal
    · exact iff_of_true (Or.inl hgoal) ⟨frame, List.mem_cons_self, hgoal ▸ .refl⟩
    · rw [or_iff_right hgoal, ih, leads_step hgoal]

lemma mem_addEdge {graph : CallGraph} {caller callee : FrameId} {edge : FrameId × FrameId} :
    edge ∈ (graph.addEdge caller callee).edges ↔ edge ∈ graph.edges ∨ edge = (caller, callee) := by
  unfold addEdge
  split
  · exact ⟨Or.inl, fun h => h.elim id fun he => he ▸ ‹_›⟩
  · simp

lemma mem_ofCalls {calls : List (FrameId × FrameId)} {edge : FrameId × FrameId} :
    edge ∈ (ofCalls calls).edges ↔ edge ∈ calls := by
  induction calls using List.reverseRecOn with
  | nil => simp [ofCalls]
  | append_singleton calls call ih =>
    have hlast : ofCalls (calls ++ [call]) = (ofCalls calls).addEdge call.1 call.2 := by simp [ofCalls]
    rw [hlast, mem_addEdge, ih, List.mem_append, List.mem_singleton]

/-- A call closes a cycle exactly when recorded calls lead from the callee back to the caller, or
the function calls itself. -/
theorem isLoopEdge_ofCalls (calls : List (FrameId × FrameId)) (caller callee : FrameId) :
    (ofCalls calls).isLoopEdge caller callee = true ↔
      Relation.ReflTransGen (fun first second => (first, second) ∈ calls) callee caller := by
  have hedges : Leads (ofCalls calls).edges callee caller ↔
      Relation.ReflTransGen (fun first second => (first, second) ∈ calls) callee caller := by
    simp only [Leads, mem_ofCalls]
  rw [← hedges, isLoopEdge, reaches, search_iff]
  simp

example : let graph := ofCalls [(⟨0⟩, ⟨1⟩), (⟨1⟩, ⟨2⟩), (⟨2⟩, ⟨1⟩), (⟨2⟩, ⟨3⟩), (⟨3⟩, ⟨3⟩)]
    (graph.isLoopEdge ⟨0⟩ ⟨1⟩, graph.isLoopEdge ⟨1⟩ ⟨2⟩, graph.isLoopEdge ⟨2⟩ ⟨3⟩, graph.isLoopEdge ⟨3⟩ ⟨3⟩) =
      (false, true, false, true) := by
  cbv

end TigerMips.CallGraph
