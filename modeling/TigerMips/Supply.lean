namespace TigerMips

structure Temp where
  number : Nat
  deriving DecidableEq, Repr

instance : LT Temp := ⟨fun a b => a.number < b.number⟩

instance : DecidableLT Temp := fun a b => inferInstanceAs (Decidable (a.number < b.number))

structure Label where
  number : Nat
  deriving DecidableEq, Repr

def Label.text (label : Label) : String := "L" ++ toString label.number

structure Supply where
  temps : Nat := 0
  labels : Nat := 0
  deriving DecidableEq, Repr

namespace Supply

def newTemp : StateM Supply Temp :=
  modifyGet fun supply => (⟨supply.temps⟩, { supply with temps := supply.temps + 1 })

def newLabel : StateM Supply Label :=
  modifyGet fun supply => (⟨supply.labels⟩, { supply with labels := supply.labels + 1 })

end Supply

end TigerMips
