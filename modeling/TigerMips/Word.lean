namespace TigerMips

abbrev Word := Int32

namespace Word

def ofInt? (n : Int) : Option Word :=
  if Int32.minValue.toInt ≤ n ∧ n ≤ Int32.maxValue.toInt then some (Int32.ofInt n) else none

def add? (a b : Word) : Option Word := ofInt? (a.toInt + b.toInt)

def mul? (a b : Word) : Option Word := ofInt? (a.toInt * b.toInt)

def neg? (a : Word) : Option Word := ofInt? (-a.toInt)

end Word

end TigerMips
