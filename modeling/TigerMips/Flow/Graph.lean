import TigerMips.Failure
import TigerMips.Machine.Program

/-! Flow graphs: blocks of instructions, and the ways that control takes between them. Calls and
returns are edges as well, so one graph spans the whole program. -/

namespace TigerMips.Flow

open Machine

structure Block where
  labels : List Label := []
  instructions : List Instruction := []
  successors : List BlockId := []
  predecessors : List BlockId := []
  deriving DecidableEq, Repr

namespace Block

def isEmpty (block : Block) : Bool := block.labels.isEmpty && block.instructions.isEmpty

def terminator? (block : Block) : Option Instruction :=
  block.instructions.getLast?.filter (·.operation.isJump)

def uses (block : Block) : List Temp :=
  block.instructions.foldr
    (fun instruction later => Ordered.union instruction.operation.uses
      (Ordered.difference later instruction.operation.defs)) []

def defs (block : Block) : List Temp :=
  Ordered.unions (block.instructions.map (·.operation.defs))

end Block

def splitFrom (current : Block) : List Line → List Block
  | [] => if current.isEmpty then [] else [current]
  | .label label :: rest =>
    if current.instructions.isEmpty then
      splitFrom { current with labels := current.labels ++ [label] } rest
    else current :: splitFrom { labels := [label] } rest
  | .instruction instruction :: rest =>
    let extended := { current with instructions := current.instructions ++ [instruction] }
    if instruction.operation.isJump then extended :: splitFrom {} rest
    else splitFrom extended rest

def split (lines : List Line) : List Block := splitFrom {} lines

structure Graph where
  blocks : Arena .block Block := {}
  deriving DecidableEq, Repr

namespace Graph

def placed? (blocks : List Block) (label : Label) : Option BlockId :=
  (blocks.zipIdx.reverse.find? fun entry => label ∈ entry.1.labels).map fun entry => ⟨entry.2⟩

def place (blocks : List Block) (label : Label) : Except Failure BlockId :=
  match placed? blocks label with
  | some block => return block
  | none => throw (.undefinedLabel label)

def following (blocks : List Block) (position : Nat) : List BlockId :=
  if position + 1 < blocks.length then [⟨position + 1⟩] else []

/-- Where control may go after a block: to the next block, to the target of a jump, or to the
return labels of the frame. -/
def targets (blocks : List Block) (frames : Arena .frame Frame) (position : Nat)
    (block : Block) : Except Failure (List BlockId) := do
  match block.terminator? with
  | none => return following blocks position
  | some instruction =>
    match instruction.operation with
    | .jumpRegister _ =>
      match frames.get? instruction.frame with
      | some frame => frame.returns.mapM (place blocks)
      | none => throw (.missingFrame instruction.frame)
    | operation =>
      match operation.target? with
      | some target =>
        let block ← place blocks target
        return block :: if operation.isBranch then following blocks position else []
      | none => return []

def sources (successors : List (List BlockId)) (block : BlockId) : List BlockId :=
  (successors.zipIdx.filter fun entry => block ∈ entry.1).map fun entry => ⟨entry.2⟩

def link (blocks : List Block) (successors : List (List BlockId)) : Graph :=
  ⟨⟨(blocks.zip successors).zipIdx.map fun ((block, targets), position) =>
    { block with successors := targets, predecessors := sources successors ⟨position⟩ }⟩⟩

def build (lines : List Line) (frames : Arena .frame Frame) : Except Failure Graph := do
  let blocks := split lines
  let successors ← blocks.zipIdx.mapM fun (block, position) =>
    targets blocks frames position block
  return link blocks (successors.map Ordered.ofList)

def blockOf? (graph : Graph) (label : Label) : Option BlockId :=
  (graph.blocks.entries.find? fun entry => label ∈ entry.2.labels).map Prod.fst

end Graph

end TigerMips.Flow
