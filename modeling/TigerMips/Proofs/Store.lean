import Mathlib.Tactic
import TigerMips.Arena
import TigerMips.Operator
import TigerMips.Supply
import TigerMips.Word

/-! What code computes with: temps, a memory of bytes, and the meaning of the operators. -/

namespace TigerMips

def Relation.test : Relation → Word → Word → Bool
  | eq, a, b => a = b
  | neq, a, b => a ≠ b
  | lt, a, b => a < b
  | leq, a, b => a ≤ b
  | gt, a, b => b < a
  | geq, a, b => b ≤ a

def Word.ofBool (b : Bool) : Word := if b then 1 else 0

def BinaryOp.eval? : BinaryOp → Word → Word → Option Word
  | add, a, b => some (a + b)
  | sub, a, b => some (a - b)
  | mul, a, b => some (a * b)
  | div, a, b => if b = 0 then none else some (a / b)
  | compare relation, a, b => some (Word.ofBool (relation.test a b))

abbrev Memory := Word → UInt8

namespace Memory

def loadWord (memory : Memory) (address : Word) : Word :=
  Int32.ofBitVec ((memory (address + 3)).toBitVec ++ (memory (address + 2)).toBitVec ++
    (memory (address + 1)).toBitVec ++ (memory address).toBitVec)

def storeByte (memory : Memory) (address : Word) (byte : UInt8) : Memory :=
  Function.update memory address byte

def storeWord (memory : Memory) (address value : Word) : Memory :=
  (((memory.storeByte address (.ofBitVec (value.toBitVec.extractLsb' 0 8))).storeByte
    (address + 1) (.ofBitVec (value.toBitVec.extractLsb' 8 8))).storeByte
    (address + 2) (.ofBitVec (value.toBitVec.extractLsb' 16 8))).storeByte
    (address + 3) (.ofBitVec (value.toBitVec.extractLsb' 24 8))

def loadByte (memory : Memory) (address : Word) : Word :=
  (memory address).toInt8.toInt32

end Memory

structure Store where
  temps : Temp → Word
  memory : Memory

def Store.put (store : Store) (temp : Temp) (value : Word) : Store :=
  { store with temps := Function.update store.temps temp value }

structure Linkage where
  address : Label → Word
  frameSize : FrameId → Word
  deriving Inhabited

structure Running where
  position : Nat
  store : Store

def Running.follow (find : Label → Option Nat) (position : Nat) : Store × Option Label → Option Running
  | (store, none) => some ⟨position + 1, store⟩
  | (store, some label) => (find label).map (⟨·, store⟩)

def Running.steps? (step : Running → Option Running) : Nat → Running → Option Running
  | 0, state => some state
  | n + 1, state => (step state).bind (steps? step n)

namespace Running

variable {step : Running → Option Running} {a b : Running} {m n : Nat}

lemma steps?_one (h : step a = some b) : steps? step 1 a = some b := by simp [steps?, h]

lemma steps?_add : steps? step (m + n) a = (steps? step m a).bind (steps? step n) := by
  induction m generalizing a with
  | zero => simp [steps?]
  | succ m ih => simp [Nat.succ_add, steps?, ih, Option.bind_assoc]

end Running

end TigerMips
