import Mathlib
import TigerMips.Proofs.Memory

/-! Blocks of memory, and texts in them. A block is given by its address and its size, and may go around the end of the
memory. A text ends at its first zero byte. -/

namespace TigerMips

lemma Word.ofNat_inj {i j : Nat} (hi : i < 2 ^ 32) (hj : j < 2 ^ 32) (h : Int32.ofNat i = Int32.ofNat j) : i = j := by
  have hbits : i % 2 ^ 32 = j % 2 ^ 32 := congrArg (fun w => w.toBitVec.toNat) h
  rwa [Nat.mod_eq_of_lt hi, Nat.mod_eq_of_lt hj] at hbits

lemma Word.ofNat_toUInt32 (w : Word) : Int32.ofNat w.toUInt32.toNat = w := by
  apply Int32.toBitVec_inj.mp
  exact BitVec.ofNat_toNat 32 w.toBitVec

namespace Memory

def block (address : Word) (size : Nat) : Set Word := {a | ∃ i < size, a = address + .ofNat i}

variable {memory other : Memory} {address a : Word} {i j m n : Nat}

lemma mem_block (h : i < n) : address + .ofNat i ∈ block address n := ⟨i, h, rfl⟩

lemma self_mem_block (h : 0 < n) : address ∈ block address n := ⟨0, h, (Int32.add_zero _).symm⟩

@[simp] lemma block_zero : block address 0 = ∅ := by simp [block]

lemma block_subset (h : i + m ≤ n) : block (address + .ofNat i) m ⊆ block address n := by
  rintro a ⟨k, hk, rfl⟩
  exact ⟨i + k, by omega, by rw [Int32.ofNat_add, Int32.add_assoc]⟩

lemma block_subset_block (h : m ≤ n) : block address m ⊆ block address n := by
  rintro a ⟨k, hk, rfl⟩
  exact mem_block (hk.trans_le h)

lemma disjoint_block (address : Word) (hij : i + m ≤ j) (hj : j + n ≤ 2 ^ 32) :
    Disjoint (block (address + .ofNat i) m) (block (address + .ofNat j) n) := by
  rw [Set.disjoint_left]
  rintro a ⟨k, hk, rfl⟩ ⟨l, hl, h⟩
  rw [Int32.add_assoc, Int32.add_assoc, ← Int32.ofNat_add, ← Int32.ofNat_add, Int32.add_right_inj] at h
  have := Word.ofNat_inj (by omega) (by omega) h
  omega

lemma loadWord_congr (h : ∀ a ∈ block address 4, memory a = other a) :
    memory.loadWord address = other.loadWord address := by
  simp only [loadWord, h address (self_mem_block (by decide)), h (address + 1) (mem_block (i := 1) (by decide)),
    h (address + 2) (mem_block (i := 2) (by decide)), h (address + 3) (mem_block (i := 3) (by decide))]

lemma storeWord_of_notMem (h : a ∉ block address 4) (value : Word) : memory.storeWord address value a = memory a := by
  have h₀ : a ≠ address := fun hc => h (hc ▸ self_mem_block (by decide))
  have h₁ : a ≠ address + 1 := fun hc => h (hc ▸ mem_block (i := 1) (by decide))
  have h₂ : a ≠ address + 2 := fun hc => h (hc ▸ mem_block (i := 2) (by decide))
  have h₃ : a ≠ address + 3 := fun hc => h (hc ▸ mem_block (i := 3) (by decide))
  simp [storeWord, storeByte, h₀, h₁, h₂, h₃]

lemma extract_loadByte (memory : Memory) (a : Word) :
    UInt8.ofBitVec ((memory.loadByte a).toBitVec.extractLsb' 0 8) = memory a := by
  apply UInt8.toBitVec_inj.mp
  apply BitVec.eq_of_getLsbD_eq
  intro i hi
  simp only [loadByte, Int8.toBitVec_toInt32, UInt8.toBitVec_toInt8, BitVec.getLsbD_extractLsb', Nat.zero_add,
    BitVec.getLsbD_signExtend]
  grind

lemma loadByte_eq_zero : memory.loadByte a = 0 ↔ memory a = 0 := by
  constructor
  · intro h
    rw [← extract_loadByte memory a, h]
    rfl
  · intro h
    simp [loadByte, h]

def storeBytes (memory : Memory) : Word → List UInt8 → Memory
  | _, [] => memory
  | address, byte :: rest => storeBytes (memory.storeByte address byte) (address + 1) rest

lemma storeBytes_append (first rest : List UInt8) : memory.storeBytes address (first ++ rest) =
    (memory.storeBytes address first).storeBytes (address + .ofNat first.length) rest := by
  induction first generalizing memory address with
  | nil => exact congrArg (storeBytes memory · rest) (Int32.add_zero _).symm
  | cons byte first ih =>
    rw [List.cons_append, storeBytes, storeBytes, ih, List.length_cons, Nat.add_comm first.length, Int32.ofNat_add,
      ← Int32.add_assoc]
    rfl

lemma storeBytes_of_notMem {bytes : List UInt8} (h : a ∉ block address bytes.length) :
    memory.storeBytes address bytes a = memory a := by
  induction bytes generalizing memory address with
  | nil => rfl
  | cons byte rest ih =>
    have hrest : a ∉ block (address + 1) rest.length := fun hm =>
      h (block_subset (i := 1) (by rw [List.length_cons, Nat.add_comm]) hm)
    have hne : a ≠ address := fun hc => h (hc ▸ self_mem_block (by simp))
    rw [storeBytes, ih hrest, storeByte, Function.update_of_ne hne]

def HasText (memory : Memory) : Word → List UInt8 → Prop
  | address, [] => memory address = 0
  | address, byte :: rest => byte ≠ 0 ∧ memory address = byte ∧ HasText memory (address + 1) rest

lemma add_ofNat_length_cons (byte : UInt8) (rest : List UInt8) :
    address + .ofNat (byte :: rest).length = address + 1 + .ofNat rest.length := by
  rw [List.length_cons, Nat.add_comm, Int32.ofNat_add, ← Int32.add_assoc]
  rfl

lemma HasText.congr {text : List UInt8} (h : memory.HasText address text)
    (hm : ∀ a ∈ block address (text.length + 1), other a = memory a) : other.HasText address text := by
  induction text generalizing address with
  | nil => exact (hm address (self_mem_block (by simp))).trans h
  | cons byte rest ih =>
    obtain ⟨hne, hbyte, hrest⟩ := h
    exact ⟨hne, (hm address (self_mem_block (by simp))).trans hbyte, ih hrest fun a ha =>
      hm a (block_subset (i := 1) (by simp [Nat.add_comm]) ha)⟩

lemma HasText.copy_first {byte : UInt8} {rest : List UInt8} {target : Word} (h : memory.HasText (address + 1) rest)
    (hapart : Disjoint (block target (n + 1)) (block address ((byte :: rest).length + 1))) :
    (memory.storeByte target byte).HasText (address + 1) rest ∧
      Disjoint (block (target + 1) n) (block (address + 1) (rest.length + 1)) := by
  have hsub : block (address + 1) (rest.length + 1) ⊆ block address ((byte :: rest).length + 1) :=
    block_subset (i := 1) (by simp [Nat.add_comm])
  refine ⟨h.congr fun a ha => Function.update_of_ne (fun hc => ?_) _ _,
    hapart.mono (block_subset (i := 1) (by omega)) hsub⟩
  exact Set.disjoint_left.mp hapart (self_mem_block (by simp)) (hc ▸ hsub ha)

lemma HasText.ne_zero {text : List UInt8} (h : memory.HasText address text) : ∀ byte ∈ text, byte ≠ 0 := by
  induction text generalizing address with
  | nil => simp
  | cons byte rest ih =>
    obtain ⟨hne, -, hrest⟩ := h
    exact List.forall_mem_cons.mpr ⟨hne, ih hrest⟩

lemma HasText.drop {text : List UInt8} (h : memory.HasText address text) (hn : n ≤ text.length) :
    memory.HasText (address + .ofNat n) (text.drop n) := by
  induction n generalizing address text with
  | zero => rwa [show Int32.ofNat 0 = 0 from rfl, Int32.add_zero]
  | succ n ih =>
    cases text with
    | nil => simp at hn
    | cons byte rest =>
      rw [Nat.add_comm n, Int32.ofNat_add, ← Int32.add_assoc, Nat.add_comm 1]
      exact ih h.2.2 (by simpa using hn)

lemma hasText_storeBytes {text : List UInt8} (hne : ∀ byte ∈ text, byte ≠ 0) (hlength : text.length < 2 ^ 32) :
    (memory.storeBytes address (text ++ [0])).HasText address text := by
  induction text generalizing memory address with
  | nil => simp [storeBytes, storeByte, HasText]
  | cons byte rest ih =>
    obtain ⟨hbyte, hrest⟩ := List.forall_mem_cons.mp hne
    have hlt : rest.length + 1 < 2 ^ 32 := hlength
    have hfirst : address ∉ block (address + 1) (rest ++ [0]).length := by
      have := disjoint_block address (i := 0) (m := 1) (j := 1) (n := rest.length + 1) (by decide) (by omega)
      rw [show Int32.ofNat 0 = 0 from rfl, Int32.add_zero] at this
      simpa using Set.disjoint_left.mp this (self_mem_block (by decide))
    refine ⟨hbyte, ?_, ih hrest (by omega)⟩
    rw [List.cons_append, storeBytes, storeBytes_of_notMem hfirst, storeByte, Function.update_self]

/-- A memory has got a text in a block of its own, and else is as it was before. -/
structure Gains (memory : Memory) (address : Word) (text : List UInt8) (after : Memory) : Prop where
  holds : after.HasText address text
  kept : ∀ a ∉ block address (text.length + 1), after a = memory a

lemma gains_storeBytes {text : List UInt8} (hne : ∀ byte ∈ text, byte ≠ 0) (hlength : text.length < 2 ^ 32) :
    memory.Gains address text (memory.storeBytes address (text ++ [0])) :=
  ⟨hasText_storeBytes hne hlength, fun _ ha => storeBytes_of_notMem (by simpa using ha)⟩

lemma Gains.hasText {text other : List UInt8} {place : Word} {after : Memory} (h : memory.Gains address text after)
    (hother : memory.HasText place other)
    (hapart : Disjoint (block address (text.length + 1)) (block place (other.length + 1))) :
    after.HasText place other :=
  hother.congr fun a ha => h.kept a fun hm => Set.disjoint_left.mp hapart hm ha

end Memory

end TigerMips
