import TigerMips.Arena
import TigerMips.Ordered

namespace TigerMips

structure CallGraph where
  edges : List (FrameId × FrameId) := []
  deriving DecidableEq, Repr

namespace CallGraph

def addEdge (graph : CallGraph) (caller callee : FrameId) : CallGraph :=
  if (caller, callee) ∈ graph.edges then graph else ⟨graph.edges ++ [(caller, callee)]⟩

def outgoing (edges : List (FrameId × FrameId)) (caller : FrameId) : List FrameId :=
  (edges.filter (·.1 = caller)).map Prod.snd

def elsewhere (edges : List (FrameId × FrameId)) (caller : FrameId) : List (FrameId × FrameId) :=
  edges.filter (·.1 ≠ caller)

theorem length_outgoing_add_elsewhere (edges : List (FrameId × FrameId)) (caller : FrameId) :
    (outgoing edges caller).length + (elsewhere edges caller).length = edges.length := by
  induction edges with
  | nil => rfl
  | cons edge edges ih =>
    by_cases h : edge.1 = caller <;> simp_all [outgoing, elsewhere] <;> omega

def callers (graph : CallGraph) : List FrameId :=
  Ordered.ofList (graph.edges.map Prod.fst)

def callees (graph : CallGraph) (caller : FrameId) : List FrameId :=
  Ordered.ofList (outgoing graph.edges caller)

/-- Whether a frame in `todo` leads to `goal`. Each edge is followed at most once, when it moves
from `edges` to `todo`. -/
def search (goal : FrameId) (todo : List FrameId) (edges : List (FrameId × FrameId)) : Bool :=
  match todo with
  | [] => false
  | frame :: rest =>
    frame = goal || search goal (outgoing edges frame ++ rest) (elsewhere edges frame)
  termination_by todo.length + edges.length
  decreasing_by
    have := length_outgoing_add_elsewhere edges frame
    simp only [List.length_append, List.length_cons]
    omega

def reaches (graph : CallGraph) (start goal : FrameId) : Bool :=
  search goal [start] graph.edges

/-- A call closes a cycle when the callee can call its caller again, and so may overwrite the
temps of the caller. -/
def isLoopEdge (graph : CallGraph) (caller callee : FrameId) : Bool :=
  graph.reaches callee caller

end CallGraph

end TigerMips
