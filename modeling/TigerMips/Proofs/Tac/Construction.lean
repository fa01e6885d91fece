import TigerMips.Proofs.Tac.Filling

/-! Runs of the code that creates a record. It asks for a block of memory. Then it computes the initial values one after
the other, by calls of functions if need be, and stores each of them in the block before it goes on to the next one. -/

namespace TigerMips

structure Construction where
  frame : FrameId
  bytes : Temp
  target : Temp
  inits : List (List Code × Access)
  deriving DecidableEq, Repr

namespace Construction

open Tac

variable (record : Construction)

def storing (i : Nat) (init : List Code × Access) : List Code :=
  init.1 ++ [.op record.frame (.move (.memory (.temp record.target) (.int (Analysis.fieldStride * .ofNat i))) init.2)]

def stores : Nat → List (List Code × Access) → List Code
  | _, [] => []
  | i, init :: rest => record.storing i init ++ stores (i + 1) rest

def code : List Code :=
  [.op record.frame (.binary .mul (.temp record.bytes) (.int (.ofNat record.inits.length)) .word),
    .op record.frame (.callRuntime (some (.temp record.target)) Runtime.malloc.name [.temp record.bytes])] ++
    record.stores 0 record.inits

def start (p i : Nat) : Nat := p + 2 + ((record.inits.take i).map fun init => init.1.length + 1).sum

structure Stands (program : Tac.Program) (p : Nat) : Prop where
  placed : List.At program.codes p record.code
  target : ∀ i init, record.inits[i]? = some init →
    program.Private record.frame (fun q => record.start p i ≤ q ∧ q < record.start p i + init.1.length) record.target

/-- The first fields of the block at an address are stored, each of them once. Control has come from a state to the one
behind the last of these stores. -/
inductive Stored (program : Tac.Program) (link : Linkage) (host : Host) (p : Nat) (address : Word) (given : State) :
    Nat → State → Prop
  | none : Stored program link host p address given 0 given
  | field {i : Nat} {a b c : State} {init : List Code × Access} : Stored program link host p address given i a →
    record.inits[i]? = some init →
    program.Completes link host (record.start p i) (record.start p i + init.1.length) a b →
    program.advance? link host b = some c → c = { b with
      position := record.start p (i + 1)
      store := { b.store with
        memory := b.store.memory.storeWord (address + .ofNat (4 * i)) (init.2.value link b.store) } } →
    Stored program link host p address given (i + 1) c

def InitsEnd (program : Tac.Program) (link : Linkage) (host : Host) (p : Nat) (given : State) : Prop :=
  ∀ i a init, record.Stored program link host p (given.store.temps record.target) given i a →
    record.inits[i]? = some init →
    ∃ b, program.Completes link host (record.start p i) (record.start p i + init.1.length) a b

variable {record} {program : Tac.Program} {link : Linkage} {host : Host} {p i : Nat} {init : List Code × Access}

lemma Stored.position {address : Word} {given a : State} (h : record.Stored program link host p address given i a)
    (hp : given.position = p + 2) : a.position = record.start p i := by
  cases h with
  | none => simp [start, hp]
  | field _ _ _ _ hc => rw [hc]

lemma initsEnd_of_eq_nil {given : State} (h : ∀ init ∈ record.inits, init.1 = []) (hp : given.position = p + 2) :
    record.InitsEnd program link host p given := fun i a init hstored hi => by
  have hposition := hstored.position hp
  exact ⟨a, hposition, by simp [h init (List.mem_of_getElem? hi), hposition], rfl, .refl⟩

lemma start_succ (h : record.inits[i]? = some init) :
    record.start p (i + 1) = record.start p i + init.1.length + 1 := by
  simp [start, List.take_add_one, h]
  omega

variable (record) in
lemma length_stores (inits : List (List Code × Access)) (i : Nat) :
    (record.stores i inits).length = (inits.map fun init => init.1.length + 1).sum := by
  induction inits generalizing i with
  | nil => rfl
  | cons init rest ih =>
    simp only [stores, storing, List.length_append, ih, List.length_singleton, List.map_cons, List.sum_cons]

lemma start_length : record.start p record.inits.length = p + record.code.length := by
  simp [start, code, length_stores]
  omega

lemma at_storing {all : List Code} {inits : List (List Code × Access)} {q first : Nat}
    (h : List.At all q (record.stores first inits)) (hi : inits[i]? = some init) :
    List.At all (q + ((inits.take i).map fun init => init.1.length + 1).sum) (record.storing (first + i) init) := by
  induction inits generalizing q first i with
  | nil => simp at hi
  | cons head rest ih =>
    obtain ⟨hhead, hrest⟩ := List.at_append.mp h
    cases i with
    | zero =>
      obtain rfl : head = init := by simpa using hi
      exact hhead
    | succ i =>
      have hnext := ih hrest (by simpa using hi)
      simpa [storing, Nat.add_assoc, Nat.add_comm 1] using hnext

lemma at_init {all : List Code} (h : List.At all p record.code) (hi : record.inits[i]? = some init) :
    List.At all (record.start p i) (record.storing i init) := by
  have hplaced := at_storing (List.at_append.mp h).2 hi
  rwa [Nat.zero_add] at hplaced

namespace Stands

variable (h : record.Stands program p)

include h

lemma allocates {state : State} {granted : Memory} {address : Word} (hp : state.position = p)
    (hhost : host state.events Runtime.malloc.name [.ofNat (4 * record.inits.length)] state.store.memory =
      some (granted, address)) :
    ∃ asked given, program.advance? link host state = some asked ∧ program.advance? link host asked = some given ∧
      given.position = p + 2 ∧ given.calls = state.calls ∧ given.store.memory = granted ∧
      given.store.temps record.target = address ∧
      ∀ t, t ≠ record.bytes → t ≠ record.target → given.store.temps t = state.store.temps t := by
  obtain ⟨hsize, hask, -⟩ := by simpa only [code, List.cons_append, List.at_cons] using h.placed
  have hbytes : (Access.int (.ofNat record.inits.length)).value link state.store * Access.word.value link state.store =
      .ofNat (4 * record.inits.length) := by
    rw [Nat.mul_comm, Int32.ofNat_mul]
    rfl
  let asked : State := { state with
    position := p + 1
    store := state.store.put record.bytes (.ofNat (4 * record.inits.length)) }
  have hasked : program.advance? link host state = some asked := by
    rw [Program.advance?_next (hp ▸ hsize) rfl (by simp only [Tac.exec?, BinaryOp.eval?, hbytes]; rfl), hp]
  have hgiven : program.advance? link host asked = some { asked with
      position := p + 2
      store := Store.put { asked.store with memory := granted } record.target address
      events := asked.events + 1 } :=
    Program.advance?_callRuntime hask rfl (by simpa [Access.value, asked, Store.put] using hhost)
  refine ⟨asked, _, hasked, hgiven, rfl, rfl, rfl, Function.update_self .., fun t hb ht => ?_⟩
  simp [asked, Store.put, hb, ht]

lemma stores_field {a b : State} (hl : program.Connected) (hi : record.inits[i]? = some init)
    (hc : program.Completes link host (record.start p i) (record.start p i + init.1.length) a b) :
    program.advance? link host b = some { b with
      position := record.start p (i + 1)
      store := { b.store with
        memory := b.store.memory.storeWord (a.store.temps record.target + .ofNat (4 * i))
          (init.2.value link b.store) } } := by
  obtain ⟨-, hstore, -⟩ := by simpa only [storing, List.at_append, List.at_cons] using at_init h.placed hi
  rw [← hc.ends] at hstore
  have hoffset : Analysis.fieldStride * .ofNat i = .ofNat (4 * i) := by
    rw [Int32.ofNat_mul]
    rfl
  rw [Program.advance?_next hstore rfl rfl, start_succ hi, ← hc.ends, ← hc.kept hl (h.target i init hi), ← hoffset]
  rfl

lemma exists_stored {given : State} (hl : program.Connected)
    (hends : record.InitsEnd program link host p given) (hi : i ≤ record.inits.length) :
    ∃ a, record.Stored program link host p (given.store.temps record.target) given i a ∧
      a.calls = given.calls ∧ a.store.temps record.target = given.store.temps record.target := by
  induction i with
  | zero => exact ⟨given, .none, rfl, rfl⟩
  | succ i ih =>
    obtain ⟨a, hstored, hcalls, htarget⟩ := ih (Nat.le_of_succ_le hi)
    obtain ⟨init, hinit⟩ : ∃ init, record.inits[i]? = some init := ⟨_, List.getElem?_eq_getElem hi⟩
    obtain ⟨b, hb⟩ := hends i a init hstored hinit
    have hnext := h.stores_field hl hinit hb
    rw [htarget] at hnext
    exact ⟨_, .field hstored hinit hb hnext rfl, hb.calls.trans hcalls,
      (hb.kept hl (h.target i init hinit)).trans htarget⟩

end Stands

end Construction

end TigerMips
