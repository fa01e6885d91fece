import TigerMips.Proofs.Store
import TigerMips.Tac.Basic

/-! Steps of three-address code inside of one function. Calls and returns are no such steps. -/

namespace TigerMips

def Const.value (link : Linkage) : Const → Word
  | int value => value
  | wordLength => 4
  | string label => link.address label

namespace Access

def value (link : Linkage) (store : Store) : Access → Word
  | temp t => store.temps t
  | const constant => constant.value link
  | memory base offset => store.memory.loadWord (base.value link store + offset.value link store)

def write? (link : Linkage) (store : Store) (value : Word) : Access → Option Store
  | temp t => some (store.put t value)
  | memory base offset =>
    some { store with
      memory := store.memory.storeWord (base.value link store + offset.value link store) value }
  | const _ => none

def temps : Access → List Temp
  | temp t => [t]
  | const _ => []
  | memory base offset => base.temps ++ offset.temps

lemma value_congr {link : Linkage} {store after : Store} {access : Access}
    (ht : ∀ temp ∈ access.temps, after.temps temp = store.temps temp) (hm : after.memory = store.memory) :
    access.value link after = access.value link store := by
  induction access with
  | temp t => exact ht t (by simp [temps])
  | const constant => rfl
  | memory base offset ihb iho =>
    simp only [temps, List.mem_append] at ht
    rw [value, value, hm, ihb fun temp h => ht temp (Or.inl h), iho fun temp h => ht temp (Or.inr h)]

lemma value_put {link : Linkage} {store : Store} {temp : Temp} {access : Access} (h : temp ∉ access.temps)
    (value : Word) : access.value link (store.put temp value) = access.value link store := by
  refine value_congr (fun other hm => ?_) rfl
  have hne : other ≠ temp := fun hc => h (hc ▸ hm)
  simp [Store.put, hne]

end Access

namespace Tac

def exec? (link : Linkage) (store : Store) : Tac → Option (Store × Option Label)
  | move destination source =>
    (destination.write? link store (source.value link store)).map (·, none)
  | binary operator destination lhs rhs => do
    let value ← operator.eval? (lhs.value link store) (rhs.value link store)
    let store ← destination.write? link store value
    return (store, none)
  | negate destination operand =>
    (destination.write? link store (-operand.value link store)).map (·, none)
  | goto target => some (store, some target)
  | branch relation lhs rhs target =>
    some (store,
      if relation.test (lhs.value link store) (rhs.value link store) then some target else none)
  | call _ _ _ | callRuntime _ _ _ | ret => none

def isLocal : Tac → Bool
  | call _ _ _ | callRuntime _ _ _ | ret => false
  | _ => true

def temps : Tac → List Temp
  | move destination source => destination.temps ++ source.temps
  | binary _ destination lhs rhs => destination.temps ++ lhs.temps ++ rhs.temps
  | negate destination operand => destination.temps ++ operand.temps
  | call destination _ arguments => (destination.toList ++ arguments).flatMap Access.temps
  | callRuntime destination _ arguments => (destination.toList ++ arguments).flatMap Access.temps
  | ret | goto _ => []
  | branch _ lhs rhs _ => lhs.temps ++ rhs.temps

def callee? : Tac → Option Label
  | call _ target _ => some target
  | _ => none

end Tac

namespace Code

def find? (codes : List Code) (label : Label) : Option Nat := codes.findIdx? (·.label? = some label)

def step? (link : Linkage) (codes : List Code) (state : Running) : Option Running :=
  match codes[state.position]? with
  | some (.label _) => some { state with position := state.position + 1 }
  | some (.op _ tac) | some (.labeled _ _ tac) =>
    (tac.exec? link state.store).bind (Running.follow (find? codes) state.position)
  | none => none

end Code

end TigerMips
