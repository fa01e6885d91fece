import TigerMips.Proofs.Store

/-! Words in a memory of bytes. Addresses wrap around. -/

namespace TigerMips.Memory

variable {memory : Memory} {a b : Word}

lemma word_of_bytes (v : BitVec 32) :
    v.extractLsb' 24 8 ++ v.extractLsb' 16 8 ++ v.extractLsb' 8 8 ++ v.extractLsb' 0 8 = v := by
  apply BitVec.eq_of_getLsbD_eq
  intro i hi
  simp only [BitVec.getLsbD_append, BitVec.getLsbD_extractLsb']
  grind

lemma loadWord_storeWord (memory : Memory) (a value : Word) : (memory.storeWord a value).loadWord a = value := by
  have hnext : ∀ {i j : Word}, i ≠ j → a + i ≠ a + j := fun h hc => h ((Int32.add_right_inj a).mp hc)
  have hfirst : ∀ {i : Word}, i ≠ 0 → a ≠ a + i := fun h hc => h (Int32.add_eq_left.mp hc.symm)
  simp [loadWord, storeWord, storeByte, Function.update, hnext (show (2 : Word) ≠ 3 by decide),
    hnext (show (1 : Word) ≠ 3 by decide), hnext (show (1 : Word) ≠ 2 by decide),
    hfirst (show (1 : Word) ≠ 0 by decide),
    hfirst (show (2 : Word) ≠ 0 by decide), hfirst (show (3 : Word) ≠ 0 by decide), word_of_bytes]

def Apart (a b : Word) : Prop := ∀ i ∈ ([0, 1, 2, 3] : List Word), ∀ j ∈ ([0, 1, 2, 3] : List Word), a + i ≠ b + j

-- The words are searched in the lists, and not among all there are.
instance (a b : Word) : Decidable (Apart a b) :=
  haveI (i : Word) : Decidable (∀ j ∈ ([0, 1, 2, 3] : List Word), a + i ≠ b + j) := List.decidableBAll _ _
  List.decidableBAll _ _

lemma loadWord_storeWord_of_apart (h : Apart a b) (value : Word) :
    (memory.storeWord b value).loadWord a = memory.loadWord a := by
  simp only [Apart, List.mem_cons, List.not_mem_nil, or_false, forall_eq_or_imp, forall_eq, Int32.add_zero] at h
  simp [loadWord, storeWord, storeByte, Function.update, h]

lemma apart_add (address : Word) (h : Apart a b) : Apart (address + a) (address + b) := by
  intro i hi j hj hc
  rw [Int32.add_assoc, Int32.add_assoc] at hc
  exact h i hi j hj ((Int32.add_right_inj address).mp hc)

end TigerMips.Memory
