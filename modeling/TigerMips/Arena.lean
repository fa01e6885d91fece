/-! Tables that only grow, and the typed positions that name their entries. -/

namespace TigerMips

inductive Kind where
  | frame | function | block | typeName
  deriving DecidableEq, Repr

structure Index (kind : Kind) where
  position : Nat
  deriving DecidableEq, Repr

abbrev FrameId := Index .frame
abbrev FunctionId := Index .function
abbrev BlockId := Index .block
abbrev TypeNameId := Index .typeName

namespace Index

variable {kind : Kind}

instance : LT (Index kind) := ⟨fun a b => a.position < b.position⟩

instance : DecidableLT (Index kind) :=
  fun a b => inferInstanceAs (Decidable (a.position < b.position))

def ofNat (n : Nat) : Index kind := ⟨n % UInt32.size⟩

/-- A later position. The sum has to fit in 64 bits, and is then cut like any other. -/
def plus? (index : Index kind) (amount : Nat) : Option (Index kind) :=
  if index.position + amount < UInt64.size then some (ofNat (index.position + amount)) else none

end Index

structure Arena (kind : Kind) (α : Type) where
  items : List α := []
  deriving DecidableEq, Repr

namespace Arena

variable {kind : Kind} {α : Type}

def size (arena : Arena kind α) : Nat := arena.items.length

def next (arena : Arena kind α) : Index kind := ⟨arena.size⟩

def get? (arena : Arena kind α) (index : Index kind) : Option α := arena.items[index.position]?

def has (arena : Arena kind α) (index : Index kind) : Bool := index.position < arena.size

def push (arena : Arena kind α) (item : α) : Arena kind α := ⟨arena.items ++ [item]⟩

def modify (arena : Arena kind α) (index : Index kind) (f : α → α) : Arena kind α :=
  ⟨arena.items.modify index.position f⟩

def set (arena : Arena kind α) (index : Index kind) (item : α) : Arena kind α :=
  ⟨arena.items.set index.position item⟩

def indices (arena : Arena kind α) : List (Index kind) :=
  (List.range arena.size).map Index.mk

def entries (arena : Arena kind α) : List (Index kind × α) :=
  arena.items.zipIdx.map fun entry => (⟨entry.2⟩, entry.1)

end Arena

end TigerMips
