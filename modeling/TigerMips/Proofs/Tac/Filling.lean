import Mathlib
import TigerMips.Analysis.Aggregate
import TigerMips.Proofs.Block
import TigerMips.Proofs.Tac.ForLoop

/-! Runs of the code that creates an array. It asks for a block of memory and writes the initial value into each word of
the block. The initial value is read again for each of the words. -/

namespace TigerMips

open Memory

namespace Access

def words (link : Linkage) (store : Store) : Access → List Word
  | temp _ | const _ => []
  | memory base offset =>
    (base.value link store + offset.value link store) :: (base.words link store ++ offset.words link store)

lemma value_congr_words {link : Linkage} {store after : Store} {access : Access}
    (ht : ∀ temp ∈ access.temps, after.temps temp = store.temps temp)
    (hm : ∀ word ∈ access.words link store, ∀ a ∈ block word 4, after.memory a = store.memory a) :
    access.value link after = access.value link store := by
  induction access with
  | temp t => exact ht t (by simp [temps])
  | const constant => rfl
  | memory base offset ihb iho =>
    simp only [temps, List.mem_append, words, List.mem_cons] at ht hm
    rw [value, value, ihb (fun temp h => ht temp (Or.inl h)) fun word h => hm word (Or.inr (Or.inl h)),
      iho (fun temp h => ht temp (Or.inr h)) fun word h => hm word (Or.inr (Or.inr h))]
    exact loadWord_congr (hm _ (Or.inl rfl))

end Access

namespace Tac.Program

variable {program : Tac.Program} {link : Linkage} {host : Host} {a : State} {code : Code} {id : FrameId}

lemma advance?_next {tac : Tac} {after : Store} (hc : program.codes[a.position]? = some code)
    (hop : code.op? = some (id, tac)) (h : tac.exec? link a.store = some (after, none)) :
    program.advance? link host a = some { a with position := a.position + 1, store := after } := by
  cases tac with
  | call _ _ _ | callRuntime _ _ _ | ret => cases h
  | _ => simp [advance?, hc, hop, perform?, h, Running.follow, State.go]

lemma advance?_callRuntime {t : Temp} {name : String} {arguments : List Access} {granted : Memory} {value : Word}
    (hc : program.codes[a.position]? = some code)
    (hop : code.op? = some (id, .callRuntime (some (.temp t)) name arguments))
    (hhost : host a.events name (arguments.map (·.value link a.store)) a.store.memory = some (granted, value)) :
    program.advance? link host a = some { a with
      position := a.position + 1
      store := Store.put { a.store with memory := granted } t value
      events := a.events + 1 } := by
  simp [advance?, hc, hop, perform?, hhost, Store.deliver?, Access.write?]

end Tac.Program

structure Filling where
  frame : FrameId
  bytes : Temp
  array : Temp
  index : Temp
  head : Label
  exit : Label
  count : Access
  value : Access
  deriving DecidableEq, Repr

namespace Filling

open Tac

variable (filling : Filling)

def code : List Code :=
  Analysis.arrayCode filling.frame filling.bytes filling.array filling.index filling.head filling.exit filling.count
    filling.value

def temps : List Temp := [filling.bytes, filling.array, filling.index]

structure Stands (program : Tac.Program) (p : Nat) : Prop where
  placed : List.At program.codes p filling.code
  head : Code.find? program.codes filling.head = some (p + 3)
  exit : Code.find? program.codes filling.exit = some (p + 7)
  nodup : filling.temps.Nodup
  value : ∀ temp ∈ filling.value.temps, temp ∉ filling.temps

/-- The first `k` words of a block of `n` words have the initial value. All else is as in the store `start`, except for
the temps of the creation. -/
structure Filled (link : Linkage) (start : Store) (address : Word) (n k : Nat) (store : Store) : Prop where
  array : store.temps filling.array = address
  words : ∀ i < k, store.memory.loadWord (address + .ofNat (4 * i)) = filling.value.value link start
  memory : ∀ a ∉ block address (4 * n), store.memory a = start.memory a
  temps : ∀ t ∉ filling.temps, store.temps t = start.temps t

structure AtHead (link : Linkage) (start : State) (address : Word) (n k : Nat) (a : State) : Prop where
  position : a.position = start.position + 3
  calls : a.calls = start.calls
  events : a.events = start.events + 1
  bytes : a.store.temps filling.bytes = .ofNat (4 * n)
  index : a.store.temps filling.index = .ofNat (4 * k)
  filled : filling.Filled link start.store address n k a.store

variable {filling} {program : Tac.Program} {link : Linkage} {host : Host} {p n k : Nat} {start a : State}
  {address : Word}

lemma toInt_ofNat_four_mul (hn : n < 2 ^ 29) : (Int32.ofNat (4 * n)).toInt = 4 * n := by
  rw [Int32.toInt_ofNat_of_lt (by omega)]
  rfl

lemma Filled.write (h : filling.Filled link start.store address n k a.store) (hn : n < 2 ^ 29) (hk : k < n) :
    filling.Filled link start.store address n (k + 1) { a.store with
      memory := a.store.memory.storeWord (address + .ofNat (4 * k)) (filling.value.value link start.store) } where
  array := h.array
  words i hi := by
    rcases Nat.lt_succ_iff_lt_or_eq.mp hi with hi | rfl
    · have hdisjoint := disjoint_block address (i := 4 * i) (m := 4) (j := 4 * k) (n := 4) (by omega) (by omega)
      rw [← h.words i hi]
      exact loadWord_congr fun a ha => storeWord_of_notMem (Set.disjoint_left.mp hdisjoint ha) _
    · exact loadWord_storeWord _ _ _
  memory a ha := by
    rw [← h.memory a ha]
    exact storeWord_of_notMem (fun hc => ha (block_subset (by omega) hc)) _
  temps := h.temps

lemma Filled.put {store : Store} {t : Temp} (h : filling.Filled link start.store address n k store)
    (ht : t ∈ filling.temps) (hne : t ≠ filling.array) (value : Word) :
    filling.Filled link start.store address n k (store.put t value) where
  array := (Function.update_of_ne hne.symm _ _).trans h.array
  words := h.words
  memory := h.memory
  temps u hu := by
    have hut : u ≠ t := fun hc => hu (hc ▸ ht)
    exact (Function.update_of_ne hut _ _).trans (h.temps u hu)

lemma Filled.value_eq {store : Store} (h : filling.Filled link start.store address n k store)
    (ht : ∀ temp ∈ filling.value.temps, temp ∉ filling.temps)
    (hw : ∀ word ∈ filling.value.words link start.store, Disjoint (block word 4) (block address (4 * n))) :
    filling.value.value link store = filling.value.value link start.store :=
  Access.value_congr_words (fun temp hm => h.temps temp (ht temp hm))
    fun word hm a ha => h.memory a (Set.disjoint_left.mp (hw word hm) ha)

lemma stands (hn : (Code.labels program.codes).Nodup) (hplaced : List.At program.codes p filling.code)
    (hnodup : filling.temps.Nodup) (hvalue : ∀ temp ∈ filling.value.temps, temp ∉ filling.temps) :
    filling.Stands program p := by
  have hlabels := hplaced
  simp only [code, Analysis.arrayCode, List.at_cons, List.at_nil] at hlabels
  obtain ⟨-, -, -, htest, -, -, -, hexit, -⟩ := hlabels
  exact ⟨hplaced, Code.find?_of_getElem? hn htest rfl, Code.find?_of_getElem? hn hexit rfl, hnodup, hvalue⟩

namespace Stands

variable (h : filling.Stands program p)

include h

lemma codes : program.codes[p]? = some (.op filling.frame (.binary .mul (.temp filling.bytes) filling.count .word)) ∧
    program.codes[p + 1]? =
      some (.op filling.frame (.callRuntime (some (.temp filling.array)) Runtime.malloc.name [.temp filling.bytes])) ∧
    program.codes[p + 2]? = some (.op filling.frame (.move (.temp filling.index) (.int 0))) ∧
    program.codes[p + 3]? = some
      (.labeled filling.head filling.frame (.branch .geq (.temp filling.index) (.temp filling.bytes) filling.exit)) ∧
    program.codes[p + 4]? =
      some (.op filling.frame (.move (.memory (.temp filling.array) (.temp filling.index)) filling.value)) ∧
    program.codes[p + 5]? = some (.op filling.frame (.binary .add (.temp filling.index) (.temp filling.index) .word)) ∧
    program.codes[p + 6]? = some (.op filling.frame (.goto filling.head)) := by
  have hplaced := h.placed
  simp only [code, Analysis.arrayCode, List.at_cons, List.at_nil] at hplaced
  obtain ⟨hsize, hask, hfirst, htest, hwrite, hadd, hback, -⟩ := hplaced
  exact ⟨hsize, hask, hfirst, htest, hwrite, hadd, hback⟩

lemma ne : filling.bytes ≠ filling.array ∧ filling.bytes ≠ filling.index ∧ filling.array ≠ filling.index := by
  simpa [temps, and_assoc] using h.nodup

lemma asks (link : Linkage) (host : Host) (hp : start.position = p)
    (hcount : (filling.count.value link start.store).toInt = n) : program.advance? link host start =
      some { start with position := p + 1, store := start.store.put filling.bytes (.ofNat (4 * n)) } := by
  have hvalue : filling.count.value link start.store = .ofNat n := by
    rw [← Int32.ofInt_toInt (filling.count.value link start.store), hcount, Int32.ofInt_eq_ofNat]
  refine (Program.advance?_next (hp ▸ h.codes.1) rfl (by
    simp only [Tac.exec?, BinaryOp.eval?, Access.write?, hvalue]
    rfl)).trans ?_
  rw [hp, Nat.mul_comm, Int32.ofNat_mul]
  rfl

lemma starts {granted : Memory} (hp : start.position = p) (hcount : (filling.count.value link start.store).toInt = n)
    (hhost : host start.events Runtime.malloc.name [.ofNat (4 * n)] start.store.memory = some (granted, address))
    (hgranted : ∀ a ∉ block address (4 * n), granted a = start.store.memory a) :
    ∃ a, Relation.ReflTransGen (fun x y => program.advance? link host x = some y) start a ∧
      filling.AtHead link start address n 0 a := by
  obtain ⟨-, hask, hfirst, -⟩ := h.codes
  obtain ⟨hba, hbi, hai⟩ := h.ne
  let asked := start.store.put filling.bytes (.ofNat (4 * n))
  let given := Store.put { asked with memory := granted } filling.array address
  have hgiven : program.advance? link host ⟨p + 1, asked, start.calls, start.events⟩ =
      some ⟨p + 2, given, start.calls, start.events + 1⟩ :=
    Program.advance?_callRuntime hask rfl (by simpa [Access.value, asked, Store.put] using hhost)
  have hzero : program.advance? link host ⟨p + 2, given, start.calls, start.events + 1⟩ =
      some ⟨p + 3, given.put filling.index 0, start.calls, start.events + 1⟩ :=
    Program.advance?_next hfirst rfl rfl
  refine ⟨_, .head (h.asks link host hp hcount) (.head hgiven (.single hzero)), by simp [hp], rfl, rfl, ?_, ?_, ?_⟩
  · simp [given, asked, Store.put, hba, hbi]
  · simp [Store.put]
  · refine Filled.put ⟨?_, fun i hi => absurd hi (Nat.not_lt_zero i), hgranted, fun t ht => ?_⟩ (by simp [temps])
      hai.symm 0
    · simp [given, Store.put]
    · simp only [temps, List.mem_cons, List.not_mem_nil, or_false, not_or] at ht
      simp [given, asked, Store.put, ht]

variable (host) in
lemma round (hp : start.position = p) (hn : n < 2 ^ 29)
    (hw : ∀ word ∈ filling.value.words link start.store, Disjoint (block word 4) (block address (4 * n)))
    (hk : k < n) (ha : filling.AtHead link start address n k a) :
    ∃ b, Relation.ReflTransGen (fun x y => program.advance? link host x = some y) a b ∧
      filling.AtHead link start address n (k + 1) b := by
  obtain ⟨-, -, -, htest, hwrite, hadd, hback⟩ := h.codes
  obtain ⟨-, hbi, hai⟩ := h.ne
  have hpos : a.position = p + 3 := hp ▸ ha.position
  have hpass : Relation.geq.test (.ofNat (4 * k)) (.ofNat (4 * n)) = false := by
    simp only [Relation.test, decide_eq_false_iff_not, Int32.le_iff_toInt_le,
      toInt_ofNat_four_mul hn, toInt_ofNat_four_mul (hk.trans hn)]
    omega
  let filled : Store := { a.store with
    memory := a.store.memory.storeWord (address + .ofNat (4 * k)) (filling.value.value link start.store) }
  have hpassed : program.advance? link host a = some ⟨p + 4, a.store, a.calls, a.events⟩ := by
    rw [Program.advance?_passed (hpos ▸ htest) rfl (by rwa [Access.value, Access.value, ha.index, ha.bytes]), hpos]
  have hwritten : program.advance? link host ⟨p + 4, a.store, a.calls, a.events⟩ =
      some ⟨p + 5, filled, a.calls, a.events⟩ :=
    Program.advance?_next hwrite rfl (by
      simp [Tac.exec?, Access.write?, Access.value, ha.index, ha.filled.array, ha.filled.value_eq h.value hw, filled])
  have hadded : program.advance? link host ⟨p + 5, filled, a.calls, a.events⟩ =
      some ⟨p + 6, filled.put filling.index (.ofNat (4 * k) + 4), a.calls, a.events⟩ := by
    rw [← ha.index]
    exact Program.advance?_next hadd rfl rfl
  have hagain : program.advance? link host ⟨p + 6, filled.put filling.index (.ofNat (4 * k) + 4), a.calls, a.events⟩ =
      some ⟨p + 3, filled.put filling.index (.ofNat (4 * k) + 4), a.calls, a.events⟩ :=
    Program.advance?_goto hback rfl h.head
  refine ⟨_, .head hpassed (.head hwritten (.head hadded (.single hagain))), by rw [hp], ha.calls,
    ha.events, ?_, ?_, ?_⟩
  · exact (Function.update_of_ne hbi _ _).trans ha.bytes
  · rw [Nat.mul_succ, Int32.ofNat_add]
    exact Function.update_self ..
  · exact (ha.filled.write hn hk).put (by simp [temps]) hai.symm _

lemma leaves (hp : start.position = p) (ha : filling.AtHead link start address n n a) :
    program.advance? link host a = some { a with position := p + 7 } := by
  have hpos : a.position = p + 3 := hp ▸ ha.position
  exact Program.advance?_taken (hpos ▸ h.codes.2.2.2.1) rfl
    (by simp [Access.value, ha.index, ha.bytes, Relation.test]) h.exit

lemma fills (hp : start.position = p) (hn : n < 2 ^ 29)
    (hw : ∀ word ∈ filling.value.words link start.store, Disjoint (block word 4) (block address (4 * n)))
    (hk : k ≤ n) (ha : filling.AtHead link start address n k a) :
    ∃ b, Relation.ReflTransGen (fun x y => program.advance? link host x = some y) a b ∧ b.position = p + 7 ∧
      b.calls = start.calls ∧ b.events = start.events + 1 ∧ filling.Filled link start.store address n n b.store := by
  obtain ⟨left, hleft⟩ := Nat.exists_eq_add_of_le hk
  induction left generalizing k a with
  | zero =>
    obtain rfl : n = k := hleft
    exact ⟨_, .single (h.leaves hp ha), rfl, ha.calls, ha.events, ha.filled⟩
  | succ left ih =>
    obtain ⟨b, hround, hb⟩ := h.round host hp hn hw (by omega) ha
    obtain ⟨c, hrest, hc⟩ := ih (by omega) hb (by omega)
    exact ⟨c, hround.trans hrest, hc⟩

end Stands

end Filling

end TigerMips
