/-! Finite sets as strictly increasing lists, so that equal sets are equal lists. -/

namespace TigerMips.Ordered

variable {α : Type} [LT α] [DecidableLT α]

def insert (a : α) : List α → List α
  | [] => [a]
  | b :: rest => if a < b then a :: b :: rest else if b < a then b :: insert a rest else b :: rest

def ofList (items : List α) : List α := items.foldr insert []

def union : List α → List α → List α
  | [], right => right
  | left, [] => left
  | a :: left, b :: right =>
    if a < b then a :: union left (b :: right)
    else if b < a then b :: union (a :: left) right
    else a :: union left right
  termination_by left right => left.length + right.length

def unions (sets : List (List α)) : List α := sets.foldr union []

def difference [DecidableEq α] (left right : List α) : List α :=
  left.filter fun a => a ∉ right

end TigerMips.Ordered
