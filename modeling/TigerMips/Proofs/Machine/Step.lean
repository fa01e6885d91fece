import TigerMips.Machine.Instruction
import TigerMips.Proofs.Store

/-! Steps of machine code inside of one function. Calls, returns and system calls are no such
steps. -/

namespace TigerMips.Machine

def Immediate.value (link : Linkage) : Immediate → Word
  | int value => value
  | frameSize frame => link.frameSize frame
  | negatedFrameSize frame => -link.frameSize frame

namespace Operation

def loadFrom (memory : Memory) (address : Word) : Width → Word
  | .word => memory.loadWord address
  | .byte => memory.loadByte address

def storeTo (memory : Memory) (address value : Word) : Width → Memory
  | .word => memory.storeWord address value
  | .byte => memory.storeByte address (.ofBitVec (value.toBitVec.extractLsb' 0 8))

def exec? (link : Linkage) (store : Store) : Operation → Option (Store × Option Label)
  | arithmetic operator destination lhs rhs =>
    (operator.eval? (store.temps lhs) (store.temps rhs)).map fun value => (store.put destination value, none)
  | addImmediate destination source immediate =>
    some (store.put destination (store.temps source + immediate.value link), none)
  | setLessImmediate destination source immediate =>
    some (store.put destination (Word.ofBool (Relation.lt.test (store.temps source) immediate)), none)
  | negate destination source => some (store.put destination (-store.temps source), none)
  | move destination source => some (store.put destination (store.temps source), none)
  | loadImmediate destination immediate => some (store.put destination immediate, none)
  | loadAddress destination label => some (store.put destination (link.address label), none)
  | load width destination base offset =>
    some (store.put destination (loadFrom store.memory (store.temps base + offset) width), none)
  | .store width source base offset =>
    some ({ store with
      memory := storeTo store.memory (store.temps base + offset) (store.temps source) width }, none)
  | jump target => some (store, some target)
  | branch relation lhs rhs target =>
    some (store, if relation.test (store.temps lhs) (store.temps rhs) then some target else none)
  | save | restore => some (store, none)
  | jumpAndLink _ _ | jumpRegister _ | syscall _ _ _ _ => none

end Operation

namespace Line

def label? : Line → Option Label
  | label place => some place
  | instruction _ => none

def labels (lines : List Line) : List Label := lines.filterMap label?

def find? (lines : List Line) (label : Label) : Option Nat := lines.findIdx? (·.label? = some label)

@[simp] lemma label?_label (place : Label) : (label place).label? = some place := rfl

@[simp] lemma labels_nil : labels [] = [] := rfl

@[simp] lemma labels_append (first second : List Line) : labels (first ++ second) = labels first ++ labels second :=
  List.filterMap_append

@[simp] lemma labels_label (place : Label) (rest : List Line) :
    labels (label place :: rest) = place :: labels rest := rfl

@[simp] lemma labels_instruction (i : Instruction) (rest : List Line) :
    labels (instruction i :: rest) = labels rest := rfl

def target? : Line → Option Label
  | label _ => none
  | instruction i => i.operation.target?

def targets (lines : List Line) : List Label := lines.filterMap target?

@[simp] lemma targets_nil : targets [] = [] := rfl

@[simp] lemma targets_append (first second : List Line) : targets (first ++ second) = targets first ++ targets second :=
  List.filterMap_append

@[simp] lemma targets_label (place : Label) (rest : List Line) : targets (label place :: rest) = targets rest := rfl

@[simp] lemma targets_instruction (i : Instruction) (rest : List Line) :
    targets (instruction i :: rest) = i.operation.target?.toList ++ targets rest := by
  cases h : i.operation.target? <;> simp [targets, target?, h]

def Within (size : Nat) (lines : List Line) : Prop := ∀ i, instruction i ∈ lines → i.frame.position < size

@[simp] lemma within_nil (size : Nat) : Within size [] := by simp [Within]

@[simp] lemma within_append {size : Nat} {first second : List Line} :
    Within size (first ++ second) ↔ Within size first ∧ Within size second := by
  simp [Within, or_imp, forall_and]

@[simp] lemma within_label {size : Nat} {place : Label} {rest : List Line} :
    Within size (label place :: rest) ↔ Within size rest := by
  simp [Within]

@[simp] lemma within_instruction {size : Nat} {i : Instruction} {rest : List Line} :
    Within size (instruction i :: rest) ↔ i.frame.position < size ∧ Within size rest := by
  simp [Within]

end Line

def step? (link : Linkage) (lines : List Line) (state : Running) : Option Running :=
  match lines[state.position]? with
  | some (.label _) => some { state with position := state.position + 1 }
  | some (.instruction instruction) =>
    (instruction.operation.exec? link state.store).bind (Running.follow (Line.find? lines) state.position)
  | none => none

def Line.pass? (link : Linkage) (store : Store) : Line → Option Store
  | label _ => some store
  | instruction i =>
    (i.operation.exec? link store).bind fun result =>
      if result.2 = none then some result.1 else none

def run? (link : Linkage) (store : Store) (lines : List Line) : Option Store :=
  lines.foldlM (fun store line => line.pass? link store) store

variable {link : Linkage} {store middle result : Store}

@[simp] lemma run?_nil : run? link store [] = some store := rfl

lemma run?_cons {line : Line} {rest : List Line} :
    run? link store (line :: rest) = (line.pass? link store).bind (run? link · rest) := rfl

lemma run?_append {first second : List Line} (hf : run? link store first = some middle)
    (hs : run? link middle second = some result) : run? link store (first ++ second) = some result := by
  unfold run? at *
  rw [List.foldlM_append, hf]
  exact hs

lemma run?_instruction {instruction : Instruction}
    (h : instruction.operation.exec? link store = some (result, none)) :
    run? link store [.instruction instruction] = some result := by
  simp [run?_cons, Line.pass?, h]

lemma step?_of_pass? {lines : List Line} {position : Nat} {line : Line} (hl : lines[position]? = some line)
    (hp : line.pass? link store = some result) :
    step? link lines ⟨position, store⟩ = some ⟨position + 1, result⟩ := by
  cases line with
  | label place =>
    obtain rfl := Option.some.inj hp
    simp [step?, hl]
  | instruction instruction =>
    obtain ⟨⟨after, target⟩, he, ht⟩ := Option.bind_eq_some_iff.mp hp
    by_cases hn : target = none
    · subst hn
      obtain rfl := Option.some.inj ht
      simp [step?, hl, he, Running.follow]
    · simp [hn] at ht

lemma steps?_of_run? (before lines after : List Line) (h : run? link store lines = some result) :
    Running.steps? (step? link (before ++ lines ++ after)) lines.length ⟨before.length, store⟩ =
      some ⟨before.length + lines.length, result⟩ := by
  induction lines generalizing before store with
  | nil =>
    obtain rfl := Option.some.inj h
    rfl
  | cons line rest ih =>
    rw [run?_cons] at h
    obtain ⟨next, hp, hr⟩ := Option.bind_eq_some_iff.mp h
    have hl : (before ++ line :: rest ++ after)[before.length]? = some line := by simp
    have hrest := ih (before ++ [line]) hr
    simp only [List.append_assoc, List.cons_append, List.nil_append, List.length_append,
      List.length_cons, List.length_nil] at hrest hl ⊢
    rw [show before.length + (rest.length + 1) = before.length + (0 + 1) + rest.length by omega,
      Nat.add_comm rest.length]
    rw [Running.steps?_add, Running.steps?_one (step?_of_pass? hl hp)]
    exact hrest

end TigerMips.Machine
