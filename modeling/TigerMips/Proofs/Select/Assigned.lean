import TigerMips.Proofs.Analysis.Assigned
import TigerMips.Proofs.Ordered
import TigerMips.Proofs.Select.Labels
import TigerMips.Proofs.Machine.Control

/-! The lines that are selected for an operation read nothing but what the operation reads, their own
temps and the zero register, and write what it writes. -/

namespace TigerMips

namespace Machine

def Operation.effect : Operation → Effect
  | jumpAndLink _ _ | jumpRegister _ => { reads := .univ, passes := false }
  | operation => {
      reads := {temp | temp ∈ operation.uses}
      writes := operation.defs
      jumps := operation.target?.toList
      passes := operation.fallsThrough }

namespace Line

def effect : Line → Effect
  | label place => { label? := some place }
  | instruction i => i.operation.effect

variable {marks : Label → Set Temp} {known after : Set Temp} {rest : List Line}

@[simp] lemma assigned_nil : Assigned effect marks known [] after ↔ after ⊆ known := Iff.rfl

@[simp] lemma assigned_label (place : Label) : Assigned effect marks known (label place :: rest) after ↔
    marks place ⊆ known ∧ Assigned effect marks (marks place) rest after :=
  Assigned.cons_label_iff rfl

lemma label?_effect_instruction (i : Instruction) : (effect (instruction i)).label? = none := by
  rcases i with ⟨frame, operation, transfer⟩
  cases operation <;> rfl

@[simp] lemma assigned_instruction (i : Instruction) :
    Assigned effect marks known (instruction i :: rest) after ↔
      ((∀ temp ∈ i.operation.effect.reads, temp ∈ known) ∧
        ∀ target ∈ i.operation.effect.jumps, marks target ⊆ known) ∧
        Assigned effect marks (i.operation.effect.leaving known) rest after :=
  Assigned.cons_iff (label?_effect_instruction i)

end Line

end Machine

namespace Select

open Machine

variable {α β : Type} {i j k : Nat} {context : Context} {needs needs' gives gives' : Set Temp}
    {first second : List Line}

structure Fills (needs : Set Temp) (lines : List Line) (gives : Set Temp) : Prop where
  isLocal : lines.all Line.isLocal
  assigned : ∀ marks known, needs ⊆ known → Assigned Line.effect marks known lines (known ∪ gives)

namespace Fills

lemma nil (h : gives ⊆ needs) : Fills needs [] gives where
  isLocal := by simp
  assigned marks known hk := Set.union_subset Set.Subset.rfl (h.trans hk)

lemma append {more : Set Temp} (h : Fills needs first gives) (h' : Fills needs' second gives')
    (hn : needs' ⊆ needs ∪ gives) (hg : more ⊆ needs ∪ gives ∪ gives') : Fills needs (first ++ second) more where
  isLocal := by simp [h.isLocal, h'.isLocal]
  assigned marks known hk := by
    have hsub : needs ∪ gives ⊆ known ∪ gives := Set.union_subset_union_left _ hk
    refine (h.assigned marks known hk).append ((h'.assigned marks _ (hn.trans hsub)).mono Set.Subset.rfl ?_)
    exact Set.union_subset (Set.subset_union_left.trans Set.subset_union_left)
      (hg.trans (Set.union_subset_union_left _ hsub))

lemma mono (h : Fills needs first gives) (hn : needs ⊆ needs') (hg : gives' ⊆ needs' ∪ gives) :
    Fills needs' first gives' := by
  refine ⟨h.isLocal, fun marks known hk => (h.assigned marks known (hn.trans hk)).mono Set.Subset.rfl ?_⟩
  exact Set.union_subset Set.subset_union_left (hg.trans (Set.union_subset_union_left _ hk))

lemma instruction {operation : Operation} (hj : operation.isJump = false) (frame : FrameId) (transfer : Bool) :
    Fills {temp | temp ∈ operation.uses} [.instruction { frame, operation, transfer }]
        {temp | temp ∈ operation.defs} := by
  have heffect : operation.effect = { reads := {temp | temp ∈ operation.uses}, writes := operation.defs } := by
    cases operation <;> first | rfl | cases hj
  have hlocal : Line.isLocal (.instruction { frame, operation, transfer }) := by
    cases operation <;> first | rfl | cases hj
  refine ⟨by simpa using hlocal, fun marks known hk => ?_⟩
  simpa [heffect, Effect.leaving] using fun temp ht => hk ht

lemma line {operation : Operation} (hj : operation.isJump = false) :
    Fills {temp | temp ∈ operation.uses} [context.line operation] {temp | temp ∈ operation.defs} :=
  instruction hj _ _

end Fills

def Numbers (i : Nat) (Q : Nat → α → Prop) (m : Select α) : Prop :=
  ∀ ⦃s a t⦄, m s = .ok (a, t) → s.supply.labels = i → Q t.supply.labels a

def Gives (Q : α → Prop) (m : Select α) : Prop :=
  ∀ ⦃s a t⦄, m s = .ok (a, t) → t.supply.labels = s.supply.labels ∧ Q a

section

variable {P : α → Prop} {Q : β → Prop} {R : Nat → β → Prop} {m : Select α} {f : α → Select β}

lemma Gives.pure {a : α} (h : P a) : Gives P (Pure.pure a) := by
  intro s _ t hm
  obtain ⟨rfl, rfl⟩ := pure_eq_ok.mp hm
  exact ⟨rfl, h⟩

lemma Gives.bind (hm : Gives P m) (hf : ∀ a, P a → Gives Q (f a)) : Gives Q (m >>= f) := by
  intro s b u hrun
  obtain ⟨a, t, ha, hb⟩ := bind_eq_ok.mp hrun
  obtain ⟨ht, hp⟩ := hm ha
  obtain ⟨hu, hq⟩ := hf a hp hb
  exact ⟨hu.trans ht, hq⟩

lemma Gives.before (hm : Gives P m) (hf : ∀ a, P a → Numbers i R (f a)) : Numbers i R (m >>= f) := by
  intro s b u hrun hi
  obtain ⟨a, t, ha, hb⟩ := bind_eq_ok.mp hrun
  obtain ⟨ht, hp⟩ := hm ha
  exact hf a hp hb (ht.trans hi)

lemma Numbers.pure {R : Nat → α → Prop} {a : α} (h : R i a) : Numbers i R (Pure.pure a) := by
  rintro s _ t hm rfl
  obtain ⟨rfl, rfl⟩ := pure_eq_ok.mp hm
  exact h

lemma Numbers.bind {P : Nat → α → Prop} (hm : Numbers i P m) (hf : ∀ j a, P j a → Numbers j R (f a)) :
    Numbers i R (m >>= f) := by
  intro s b u hrun hi
  obtain ⟨a, t, ha, hb⟩ := bind_eq_ok.mp hrun
  exact hf _ a (hm ha hi) hb rfl

lemma numbers_newLabel {f : Label → Select β} (hf : Numbers (i + 1) R (f ⟨i⟩)) : Numbers i R (newLabel >>= f) := by
  rintro s b u hrun rfl
  obtain ⟨_, t, ha, hb⟩ := bind_eq_ok.mp hrun
  cases (newLabel_ok ⟨0⟩).symm.trans ha
  exact hf hb rfl

lemma Numbers.mono {P P' : Nat → α → Prop} (hm : Numbers i P m) (h : ∀ j a, P j a → P' j a) : Numbers i P' m :=
  fun _ _ _ hrun hi => h _ _ (hm hrun hi)

lemma gives_throw (failure : Failure) : Gives P (throw failure) := fun _ _ _ hrun => absurd hrun throw_ne_ok

lemma gives_newTemp : Gives (fun _ => True) context.newTemp := fun _ _ _ hrun => by
  obtain ⟨-, -, rfl⟩ := newTempIn_eq_ok.mp hrun
  exact ⟨rfl, trivial⟩

end

def reading (context : Context) (temps : List Temp) : Set Temp := insert context.registers.zero {temp | temp ∈ temps}

@[simp] lemma mem_reading {temps : List Temp} {temp : Temp} :
    temp ∈ reading context temps ↔ temp = context.registers.zero ∨ temp ∈ temps :=
  Iff.rfl

@[simp] lemma reading_subset {temps : List Temp} {known : Set Temp} :
    reading context temps ⊆ known ↔ context.registers.zero ∈ known ∧ ∀ temp ∈ temps, temp ∈ known :=
  Set.insert_subset_iff

section

attribute [local simp] Access.temps Operation.uses Operation.defs Ordered.mem_ofList Set.subset_def

lemma fills_loadConstant (destination : Temp) (constant : Const) (frame : FrameId) (transfer : Bool) :
    Fills ∅ [.instruction { frame, operation := loadConstant destination constant, transfer }] {destination} := by
  cases constant <;> exact (Fills.instruction rfl _ _).mono (by simp [loadConstant]) (by simp [loadConstant])

lemma base_directAddress? {base offset : Access} {place : Address}
    (h : directAddress? context.registers.zero base offset = some place) :
    place.base ∈ reading context (base.temps ++ offset.temps) := by
  unfold directAddress? at h
  split at h
  · obtain ⟨v, -, rfl⟩ := Option.map_eq_some_iff.mp h
    simp
  · obtain ⟨v, -, rfl⟩ := Option.map_eq_some_iff.mp h
    simp
  · obtain ⟨v, -, h⟩ := Option.bind_eq_some_iff.mp h
    obtain ⟨w, -, h⟩ := Option.bind_eq_some_iff.mp h
    obtain rfl := Option.some.inj h
    simp
  · cases h

lemma Fills.both {left right : List Temp} {l r : Temp} (hl : Fills (reading context left) first {l})
    (hr : Fills (reading context right) second {r}) :
    Fills (reading context (left ++ right)) (first ++ second) {l, r} :=
  (hl.mono (by grind [mem_reading]) Set.subset_union_right).append hr (by simp +contextual) (by simp)

lemma fills_addressBy (base offset : Access) {readBase readOffset : Select (Temp × List Line)}
    (hb : Gives (fun p => Fills (reading context base.temps) p.2 {p.1}) readBase)
    (ho : Gives (fun p => Fills (reading context offset.temps) p.2 {p.1}) readOffset) :
    Gives (fun p => Fills (reading context (base.temps ++ offset.temps)) p.2 {p.1.base})
      (addressBy context base offset readBase readOffset) := by
  unfold addressBy
  split
  · rename_i place hplace
    exact .pure (.nil (Set.singleton_subset_iff.mpr (base_directAddress? hplace)))
  · exact hb.bind fun b hbase => ho.bind fun o hoffset => gives_newTemp.bind fun sum _ =>
      .pure ((hbase.both hoffset).append (.line rfl) (by simp) (by simp))

lemma fills_register (access : Access) :
    Gives (fun p => Fills (reading context access.temps) p.2 {p.1}) (register context access) := by
  induction access with
  | temp t => exact .pure (.nil (by simp))
  | const constant =>
    unfold register
    split
    · exact .pure (.nil (by simp))
    · exact gives_newTemp.bind fun temp _ => .pure ((fills_loadConstant _ _ _ _).mono (by simp) (by simp))
  | memory base offset ihb iho =>
    exact gives_newTemp.bind fun temp _ => (fills_addressBy base offset ihb iho).bind fun p haddress =>
      .pure (haddress.append (.line rfl) (by simp) (by simp))

lemma fills_address (base offset : Access) :
    Gives (fun p => Fills (reading context (base.temps ++ offset.temps)) p.2 {p.1.base})
        (address context base offset) :=
  fills_addressBy base offset (fills_register base) (fills_register offset)

lemma fills_loading (destination : Temp) (source : Access) (transfer : Bool) :
    Gives (fun p => Fills (reading context source.temps)
      (p.1 ++ [.instruction { frame := context.frame, operation := p.2, transfer }]) {destination})
      (loading context destination source) := by
  cases source with
  | temp t => exact .pure ((Fills.instruction rfl _ _).mono (by simp) (by simp))
  | const constant => exact .pure ((fills_loadConstant _ _ _ _).mono (by simp) (by simp))
  | memory base offset =>
    exact (fills_address base offset).bind fun _ haddress =>
      .pure (haddress.append (.instruction rfl _ _) (by simp) (by simp))

lemma fills_loadInto (destination : Temp) (source : Access) :
    Gives (Fills (reading context source.temps) · {destination}) (loadInto context destination source) :=
  (fills_loading destination source false).bind fun _ h => .pure h

lemma fills_move (destination source : Access) :
    Gives (Fills (reading context (destination.inner ++ source.temps)) · {temp | temp ∈ destination.written})
      (move context destination source) := by
  cases destination with
  | temp t => simpa [move, Access.inner, Access.written] using fills_loadInto t source
  | memory base offset =>
    exact (fills_address base offset).bind fun _ haddress => (fills_register source).bind fun _ hsource =>
      .pure ((haddress.both hsource).append (.line rfl) (by simp) (by simp [Access.written]))
  | const constant => exact gives_throw _

lemma fills_throughTemp (destination : Access) {temps : List Temp} {make : Temp → Select (List Line)}
    (hm : ∀ temp, Gives (Fills (reading context temps) · {temp}) (make temp)) :
    Gives (Fills (reading context (destination.inner ++ temps)) · {temp | temp ∈ destination.written})
      (throughTemp context destination make) := by
  cases destination with
  | temp t => simpa [throughTemp, Access.inner, Access.written] using hm t
  | memory base offset =>
    refine gives_newTemp.bind fun temp _ => (hm temp).bind fun _ hmade =>
      (fills_move (.memory base offset) (.temp temp)).bind fun _ hmove => .pure ?_
    exact (hmade.mono (by simp +contextual) Set.subset_union_right).append hmove
      (by simp [Access.inner]; tauto) (by simp [Access.written])
  | const constant => exact gives_throw _

lemma fills_immediateForm? {destination : Temp} {operator : BinaryOp} {lhs rhs : Access} {operation : Operation}
    (h : immediateForm? destination operator lhs rhs = some operation) :
    Fills (reading context (lhs.temps ++ rhs.temps)) [context.line operation] {destination} := by
  unfold immediateForm? at h
  split at h
  all_goals first
    | cases h
    | obtain ⟨v, -, rfl⟩ := Option.map_eq_some_iff.mp h
      exact (Fills.line rfl).mono (by simp) (by simp)

lemma fills_binaryInto (operator : BinaryOp) (lhs rhs : Access) (destination : Temp) :
    Gives (Fills (reading context (lhs.temps ++ rhs.temps)) · {destination})
      (binaryInto context operator lhs rhs destination) := by
  unfold binaryInto
  split
  · exact .pure (fills_immediateForm? ‹_›)
  · exact (fills_register lhs).bind fun _ hl => (fills_register rhs).bind fun _ hr =>
      .pure ((hl.both hr).append (.line rfl) (by simp) (by simp))

lemma fills_negateInto (operand : Access) (destination : Temp) :
    Gives (Fills (reading context operand.temps) · {destination}) (negateInto context operand destination) := by
  unfold negateInto
  split
  · exact gives_throw _
  · exact .pure ((Fills.line rfl).mono (by simp) (by simp))
  · split <;> exact .pure ((Fills.line rfl).mono (by simp) (by simp))
  · exact (fills_register _).bind fun _ h => .pure (h.append (.line rfl) (by simp) (by simp))

lemma fills_syscall (service : Service) :
    Fills {temp | temp = context.registers.a0 ∨ service = .readString ∧ temp = context.registers.a1}
      (syscall context service) {context.registers.v0} := by
  refine ((Fills.line rfl).mono (by simp) Set.subset_union_right).append (.line rfl) ?_ (by simp)
  cases service <;> simp +contextual

lemma fills_serve (service : Service) (hs : service ≠ .readString) (argument : Access) :
    Gives (Fills (reading context argument.temps) · {context.registers.v0}) (serve context service argument) :=
  (fills_loadInto context.registers.a0 argument).bind fun _ h =>
    .pure (h.append (fills_syscall service) (by simp [hs]) (by simp))

lemma fills_allocate (bytes : Access) (destination : Temp) :
    Gives (Fills (reading context bytes.temps) · {destination}) (allocate context bytes destination) :=
  (fills_serve .sbrk (by decide) bytes).bind fun _ h => .pure (h.append (.line rfl) (by simp) (by simp))

def Result.inner (destination : Option Access) : List Temp := destination.toList.flatMap Access.inner

def Result.written (destination : Option Access) : List Temp := destination.toList.flatMap Access.written

variable (destination : Option Access)

lemma fills_storeResult (source : Access) :
    Gives (Fills (reading context (Result.inner destination ++ source.temps)) · {temp | temp ∈
      Result.written destination}) (storeResult context destination source) := by
  cases destination with
  | none => exact .pure (.nil (by simp [Result.written]))
  | some place => simpa [storeResult, Result.inner, Result.written] using fills_move place source

end

structure Expands (target? : Option Label) (i j : Nat) (needs : Set Temp) (lines : List Line) (gives : Set Temp) :
    Prop where
  isLocal : lines.all Line.isLocal
  settles : ∀ known, needs ⊆ known →
    Settles Line.effect (fun marks => ∀ l ∈ target?, marks l ⊆ known) i j known lines (known ∪ gives)

lemma Fills.expands (h : Fills needs first gives) (target? : Option Label) (i : Nat) :
    Expands target? i i needs first gives :=
  ⟨h.isLocal, fun known hk => .of_assigned le_rfl fun marks _ => h.assigned marks known hk⟩

lemma Gives.expands {m : Select (List Line)} (hm : Gives (Fills needs · gives) m) :
    Numbers i (fun j lines => Expands none i j needs lines gives) m := by
  rintro s lines t hrun rfl
  obtain ⟨ht, h⟩ := hm hrun
  exact ht.symm ▸ h.expands none _

lemma Expands.append {target? : Option Label} (h : Expands target? i j needs first gives)
    (h' : Expands target? j k needs' second gives') (hn : needs' ⊆ needs ∪ gives) :
    Expands target? i k needs (first ++ second) (gives ∪ gives') where
  isLocal := by simp [h.isLocal, h'.isLocal]
  settles known hk := by
    have hrest := h'.settles _ (hn.trans (Set.union_subset_union_left _ hk))
    rw [← Set.union_assoc]
    exact (h.settles known hk).append (hrest.mono fun marks hm l hl => (hm l hl).trans Set.subset_union_left)

lemma Expands.mono {target? : Option Label} (h : Expands target? i j needs first gives) (hn : needs ⊆ needs')
    (hg : gives' ⊆ needs' ∪ gives) : Expands target? i j needs' first gives' where
  isLocal := h.isLocal
  settles known hk := (h.settles known (hn.trans hk)).weaken
    (Set.union_subset Set.subset_union_left (hg.trans (Set.union_subset_union_left _ hk)))

section

attribute [local simp] Context.line loadByte storeByte store increment Operation.effect Operation.uses Operation.defs
  Operation.target? Operation.fallsThrough Effect.leaving Ordered.mem_ofList Line.isLocal Access.temps Access.int

lemma expands_measure (string length : Temp) :
    Numbers i (fun j lines => Expands none i j {context.registers.zero, string} lines {length})
      (measure context string length) := by
  refine numbers_newLabel <| numbers_newLabel <| gives_newTemp.before fun cursor _ => gives_newTemp.before fun byte _ =>
    .pure ⟨by simp, fun known hk => ?_⟩
  obtain ⟨hzero, hstring⟩ : context.registers.zero ∈ known ∧ string ∈ known := by simpa [Set.insert_subset_iff] using hk
  refine ⟨by omega, fun _ => insert length (insert cursor known), fun marks hm _ => ?_⟩
  have hstart := hm ⟨i⟩ le_rfl (by simp)
  have hexit := hm ⟨i + 1⟩ (by simp) (by simp)
  simpa [hstart, hexit, hzero, hstring] using Set.insert_subset_insert (Set.subset_insert cursor known)

lemma expands_copyBytes (source target : Temp) :
    Numbers i (fun j lines => Expands none i j {context.registers.zero, source, target} lines ∅)
      (copyBytes context source target) := by
  refine numbers_newLabel <| numbers_newLabel <| gives_newTemp.before fun byte _ => .pure ⟨by simp, fun known hk => ?_⟩
  obtain ⟨hzero, hsource, htarget⟩ :
      context.registers.zero ∈ known ∧ source ∈ known ∧ target ∈ known := by simpa [Set.insert_subset_iff] using hk
  refine ⟨by omega, fun _ => known, fun marks hm _ => ?_⟩
  have hstart := hm ⟨i⟩ le_rfl (by simp)
  have hexit := hm ⟨i + 1⟩ (by simp) (by simp)
  simp [hstart, hexit, hzero, hsource, htarget]

variable (destination : Option Access)

lemma fills_readChar :
    Gives (Fills (reading context (Result.inner destination)) · {temp | temp ∈ Result.written destination})
    (readChar context destination) := by
  refine (fills_allocate _ _).bind fun _ hbuffer => (fills_storeResult destination _).bind fun _ hresult => .pure ?_
  have hread : Fills {context.registers.a0} (context.line (.loadImmediate context.registers.a1 2) ::
      syscall context .readString) ∅ :=
    .append ((Fills.line rfl).mono (by simp) Set.subset_union_right) (fills_syscall .readString)
      (by simp [Set.subset_def]) (Set.empty_subset _)
  have hbuffer : Fills (reading context (Result.inner destination)) _ {context.registers.a0} :=
    hbuffer.mono (by simp) Set.subset_union_right
  exact (hbuffer.append hread (by simp) Set.subset_union_left).append hresult
    (by simp +contextual [or_imp]) (by simp)

lemma expands_firstByte (string : Access) :
    Numbers i (fun j lines => Expands none i j (reading context (Result.inner destination ++ string.temps)) lines
      {temp | temp ∈ Result.written destination}) (firstByte context string destination) := by
  refine numbers_newLabel <| numbers_newLabel <| (fills_register string).before fun text htext =>
    gives_newTemp.before fun byte _ => (fills_storeResult destination _).before fun found hfound =>
    (fills_storeResult destination _).before fun missing hmissing =>
    .pure ⟨by simp [htext.isLocal, hfound.isLocal, hmissing.isLocal], fun known hk => ?_⟩
  simp only [reading_subset, List.mem_append, or_imp, forall_and] at hk
  obtain ⟨hzero, hinner, hstring⟩ := hk
  let written : Set Temp := {temp | temp ∈ Result.written destination}
  refine ⟨by omega, fun l => if l.number = i then known else known ∪ written, fun marks hm _ => ?_⟩
  have hempty : marks ⟨i⟩ = known := by simpa using hm ⟨i⟩ le_rfl (by simp)
  have hexit : marks ⟨i + 1⟩ = known ∪ written := by simpa using hm ⟨i + 1⟩ (by simp) (by simp)
  have htext := htext.assigned marks known (by simpa [hzero] using hstring)
  have hload : Assigned Line.effect marks (known ∪ {text.1})
      [loadByte context byte text.1, context.line (.branch .eq byte context.registers.zero ⟨i⟩)]
        (insert byte known) := by
    simp +contextual [hempty, hzero, Set.subset_def]
  have hfound := hfound.assigned marks (insert byte known) (by simp +contextual [hzero, hinner, or_imp])
  have hswitch : Assigned Line.effect marks (insert byte known ∪ written)
      [context.line (.jump ⟨i + 1⟩), .label ⟨i⟩] known := by
    have hsub := Set.union_subset_union_left written (Set.subset_insert byte known)
    simpa [hempty, hexit, Set.union_subset_iff] using hsub
  have hmissing := hmissing.assigned marks known (by simpa [hzero] using hinner)
  have hend : Assigned Line.effect marks (known ∪ written) [.label ⟨i + 1⟩] (known ∪ written) := by
    simp [hexit]
  exact ((((htext.append hload).append hfound).append hswitch).append hmissing).append hend

lemma expands_oneChar (code : Access) :
    Numbers i (fun j lines => Expands none i j
      (reading context (Result.inner destination ++ Result.written destination ++ code.temps)) lines ∅)
      (oneChar context code destination) := by
  refine numbers_newLabel <| numbers_newLabel <| gives_newTemp.before fun max _ =>
    (fills_register code).before fun byte hbyte => gives_newTemp.before fun buffer _ =>
    (fills_allocate _ _).before fun allocation halloc => (fills_storeResult destination _).before fun result hresult =>
    (fills_serve .exitWithCode (by decide) _).before fun failure hfail =>
    .pure ⟨by simp [hbyte.isLocal, halloc.isLocal, hresult.isLocal, hfail.isLocal], fun known hk => ?_⟩
  simp only [reading_subset, List.mem_append, or_imp, forall_and] at hk
  obtain ⟨hzero, ⟨hinner, hwritten⟩, hcode⟩ := hk
  refine ⟨by omega, fun _ => known, fun marks hm _ => ?_⟩
  have hexit := hm ⟨i + 1⟩ (by simp) (by simp)
  have hfails := hm ⟨i⟩ le_rfl (by simp)
  have hmax : Assigned Line.effect marks known [context.line (.loadImmediate max 255)] (insert max known) := by simp
  have hbyte := hbyte.assigned marks (insert max known) (by simp +contextual [hzero, hcode])
  have hcheck : Assigned Line.effect marks (insert max known ∪ {byte.1})
      [context.line (.branch .gt byte.1 max ⟨i⟩), context.line (.branch .lt byte.1 context.registers.zero ⟨i⟩)]
      (insert byte.1 known) := by
    simp +contextual [hfails, hzero, Set.subset_def]
  have halloc := halloc.assigned marks (insert byte.1 known) (by simp [hzero])
  have hstore : Assigned Line.effect marks (insert byte.1 known ∪ {buffer})
      [storeByte context byte.1 buffer 0, storeByte context context.registers.zero buffer 1] (insert buffer known) := by
    simp +contextual [hzero, Set.subset_def]
  have hresult := hresult.assigned marks (insert buffer known) (by simp +contextual [hzero, hinner, or_imp])
  have hswitch : Assigned Line.effect marks (insert buffer known ∪ {temp | temp ∈ Result.written destination})
      [context.line (.jump ⟨i + 1⟩), .label ⟨i⟩] known := by
    simp +contextual [hexit, hfails, Set.subset_def]
  have hfail := hfail.assigned marks known (by simp [hzero])
  have hend : Assigned Line.effect marks (known ∪ {context.registers.v0}) [.label ⟨i + 1⟩] (known ∪ ∅) := by
    simp [hexit]
  exact (((((((hmax.append hbyte).append hcheck).append halloc).append hstore).append hresult).append hswitch).append
    hfail).append hend

lemma expands_sizeOf (string : Access) :
    Numbers i (fun j lines => Expands none i j (reading context (Result.inner destination ++ string.temps)) lines
      {temp | temp ∈ Result.written destination}) (sizeOf context string destination) := by
  refine (fills_register string).before fun text htext => gives_newTemp.before fun size _ =>
    (expands_measure _ _).bind fun j loop hloop => (fills_storeResult destination _).before
      fun result hresult => .pure ?_
  have htext : Fills (reading context (Result.inner destination ++ string.temps)) text.2 {text.1} :=
    htext.mono (by simp +contextual) Set.subset_union_right
  have hmeasured := (htext.expands none i).append hloop (by simp [Set.insert_subset_iff])
  exact (hmeasured.append (hresult.expands none j) (by simp +contextual [or_imp])).mono Set.Subset.rfl
    (by simp +contextual [Set.subset_def])

lemma fills_logicalNot (value : Access) :
    Gives (Fills (reading context (Result.inner destination ++ value.temps)) · {temp | temp ∈
      Result.written destination}) (logicalNot context value destination) := by
  refine (fills_register value).bind fun operand hvalue => gives_newTemp.bind fun result _ =>
    (fills_storeResult destination _).bind fun _ hresult => .pure ?_
  have hvalue : Fills (reading context (Result.inner destination ++ value.temps)) operand.2 {operand.1} :=
    hvalue.mono (by simp +contextual) Set.subset_union_right
  have hcompare : Fills {operand.1, context.registers.zero}
      [context.line (.arithmetic (.compare .eq) result operand.1 context.registers.zero)] {result} :=
    (Fills.line rfl).mono (by simp [Set.subset_def]) (by simp)
  have hall := (hvalue.append hcompare (by simp [Set.insert_subset_iff]) Set.subset_union_right).append hresult
    (by simp +contextual [or_imp]) Set.subset_union_right
  simpa using hall

lemma expands_substring (string start length : Access) :
    Numbers i (fun j lines => Expands none i j
      (reading context (Result.inner destination ++ (string.temps ++ (start.temps ++ length.temps)))) lines
      {temp | temp ∈ Result.written destination}) (substring context string start length destination) := by
  refine numbers_newLabel <| numbers_newLabel <|
    gives_newTemp.before fun result _ => gives_newTemp.before fun source _ =>
    gives_newTemp.before fun target _ => gives_newTemp.before fun remaining _ => gives_newTemp.before fun capacity _ =>
    gives_newTemp.before fun byte _ => (fills_loadInto _ length).before fun lengthLines hlength =>
    (fills_allocate _ _).before fun allocation halloc => (fills_register string).before fun text htext =>
    (fills_binaryInto _ _ _ _).before fun startLines hstart =>
    (fills_storeResult destination _).before fun ending hresult =>
    .pure ⟨by simp [hlength.isLocal, halloc.isLocal, htext.isLocal, hstart.isLocal, hresult.isLocal],
      fun known hk => ?_⟩
  simp only [reading_subset, List.mem_append, or_imp, forall_and] at hk
  obtain ⟨hzero, hinner, hstring, hfirst, hcount⟩ := hk
  let inner : Set Temp := {remaining, source, target, result} ∪ known
  refine ⟨by omega, fun _ => inner, fun marks hm _ => ?_⟩
  have hhead := hm ⟨i⟩ le_rfl (by simp)
  have hexit := hm ⟨i + 1⟩ (by simp) (by simp)
  have hlength := hlength.assigned marks known (by simpa [hzero] using hcount)
  let counted : Set Temp := known ∪ {remaining, capacity}
  have hcapacity : Assigned Line.effect marks (known ∪ {remaining})
      [context.line (.addImmediate capacity remaining (.int 1))] counted := by
    simp +contextual [counted, Set.subset_def, or_imp]
  have halloc := halloc.assigned marks counted (by simp [counted, hzero])
  have htext := htext.assigned marks (counted ∪ {result}) (by simp +contextual [counted, hzero, hstring])
  have hstart := hstart.assigned marks (counted ∪ {result} ∪ {text.1})
    (by simp +contextual [counted, hzero, hfirst, or_imp])
  have hloop : Assigned Line.effect marks (counted ∪ {result} ∪ {text.1} ∪ {source})
      [context.line (.move target result), .label ⟨i⟩,
        context.line (.branch .eq remaining context.registers.zero ⟨i + 1⟩), loadByte context byte source,
        context.line (.branch .eq byte context.registers.zero ⟨i + 1⟩), storeByte context byte target 0,
        increment context target 1, increment context source 1, increment context remaining (-1),
        context.line (.jump ⟨i⟩), .label ⟨i + 1⟩, storeByte context context.registers.zero target 0] inner := by
    simp +contextual [hhead, hexit, inner, counted, hzero, Set.subset_def, or_imp]
  have hresult := hresult.assigned marks inner (by simp +contextual [inner, hzero, hinner, or_imp])
  have hall := ((((hlength.append (hcapacity.append halloc)).append htext).append hstart).append hloop).append hresult
  exact hall.mono Set.Subset.rfl (Set.union_subset_union_left _ Set.subset_union_right)

lemma expands_concat (left right : Access) :
    Numbers i (fun j lines => Expands none i j
      (reading context (Result.inner destination ++ (left.temps ++ right.temps))) lines
      {temp | temp ∈ Result.written destination}) (concat context left right destination) := by
  refine (fills_register left).before fun l hleft => (fills_register right).before fun r hright =>
    gives_newTemp.before fun leftSize _ => gives_newTemp.before fun rightSize _ => gives_newTemp.before fun size _ =>
    gives_newTemp.before fun result _ => gives_newTemp.before fun source _ => gives_newTemp.before fun target _ =>
    (expands_measure _ _).bind fun j₁ _ hml => (expands_measure _ _).bind fun j₂ _ hmr =>
    (fills_allocate _ _).before fun _ halloc => (expands_copyBytes _ _).bind fun j₃ _ hcl =>
    (expands_copyBytes _ _).bind fun j₄ _ hcr => (fills_storeResult destination _).before fun _ hresult => .pure ?_
  let given : Set Temp := reading context (Result.inner destination ++ (left.temps ++ right.temps))
  have hread : Fills given (l.2 ++ r.2) {l.1, r.1} :=
    (hleft.both hright).mono (by simp +contextual [given]) Set.subset_union_right
  have hsum : Fills {leftSize, rightSize}
      [context.line (.arithmetic .add size leftSize rightSize), increment context size 1] {size} :=
    ⟨by simp, fun marks known hk => by simpa [Set.insert_subset_iff] using hk⟩
  have htargets : Fills {result, l.1} [context.line (.move target result), context.line (.move source l.1)]
      {target, source} :=
    ⟨by simp, fun marks known hk => by
      have hk : result ∈ known ∧ l.1 ∈ known := by simpa [Set.insert_subset_iff] using hk
      simp +contextual [hk, Set.subset_def, or_imp]⟩
  have hsource : Fills {context.registers.zero, target, r.1} [context.line (.move source r.1)] {source} :=
    (Fills.line rfl).mono (by simp) (by simp)
  have hclose : Fills (insert target (reading context (Result.inner destination ++ [result])))
      [storeByte context context.registers.zero target 0] ∅ :=
    (Fills.line rfl).mono (by simp [Set.subset_def]) (by simp)
  have hmeasured := (((hread.expands none i).append hml (by simp [given, Set.insert_subset_iff])).append hmr
    (by simp [given, Set.insert_subset_iff])).append (hsum.expands none j₂) (by simp [Set.insert_subset_iff])
  have hready := (hmeasured.append (halloc.expands none j₂) (by simp [given])).append (htargets.expands none j₂)
    (by simp [Set.insert_subset_iff])
  have hcopied := (hready.append hcl (by simp [given, Set.insert_subset_iff])).append
    ((hsource.expands none j₃).append hcr (by simp [Set.insert_subset_iff])) (by simp [given, Set.insert_subset_iff])
  have hall := hcopied.append ((hclose.append hresult (by simp) Set.subset_union_right).expands none j₄)
    (by simp +contextual [given, Set.insert_subset_iff, or_imp])
  exact hall.mono Set.Subset.rfl (Set.subset_union_right.trans Set.subset_union_right)

lemma expands_compareStrings (left right : Access) :
    Numbers i (fun j lines => Expands none i j
      (reading context (Result.inner destination ++ (left.temps ++ right.temps))) lines
      {temp | temp ∈ Result.written destination}) (compareStrings context left right destination) := by
  refine numbers_newLabel <| numbers_newLabel <| numbers_newLabel <| numbers_newLabel <| numbers_newLabel <|
    gives_newTemp.before fun leftCursor _ => gives_newTemp.before fun rightCursor _ =>
    gives_newTemp.before fun leftByte _ => gives_newTemp.before fun rightByte _ =>
    (fills_loadInto _ left).before fun _ hleft => (fills_loadInto _ right).before fun _ hright =>
    (fills_storeResult destination _).before fun _ hone => (fills_storeResult destination _).before fun _ hminus =>
    (fills_storeResult destination _).before fun _ hnull =>
    .pure ⟨by simp [hleft.isLocal, hright.isLocal, hone.isLocal, hminus.isLocal, hnull.isLocal], fun known hk => ?_⟩
  simp only [reading_subset, List.mem_append, or_imp, forall_and] at hk
  obtain ⟨hzero, hinner, hl, hr⟩ := hk
  let written : Set Temp := {temp | temp ∈ Result.written destination}
  let cursors : Set Temp := known ∪ {leftCursor} ∪ {rightCursor}
  refine ⟨by omega, fun l => if l.number = i then cursors else if l.number = i + 4 then known ∪ written else known,
    fun marks hm _ => ?_⟩
  have hstart : marks ⟨i⟩ = cursors := by simpa using hm ⟨i⟩ le_rfl (show i < i + 5 by omega)
  have hgreater : marks ⟨i + 1⟩ = known := by simpa using hm ⟨i + 1⟩ (by simp) (by simp)
  have hless : marks ⟨i + 2⟩ = known := by simpa using hm ⟨i + 2⟩ (by simp) (by simp)
  have hequal : marks ⟨i + 3⟩ = known := by simpa using hm ⟨i + 3⟩ (by simp) (by simp)
  have hexit : marks ⟨i + 4⟩ = known ∪ written := by simpa using hm ⟨i + 4⟩ (by simp) (Nat.lt_succ_self _)
  have hleft := hleft.assigned marks known (by simpa [hzero] using hl)
  have hright := hright.assigned marks (known ∪ {leftCursor}) (by simp +contextual [hzero, hr])
  have hloop : Assigned Line.effect marks cursors
      [.label ⟨i⟩, loadByte context leftByte leftCursor, loadByte context rightByte rightCursor,
        context.line (.branch .gt leftByte rightByte ⟨i + 1⟩), context.line (.branch .lt leftByte rightByte ⟨i + 2⟩),
        context.line (.branch .eq leftByte context.registers.zero ⟨i + 3⟩), increment context leftCursor 1,
        increment context rightCursor 1, context.line (.jump ⟨i⟩), .label ⟨i + 1⟩] known := by
    simp +contextual [hstart, hgreater, hless, hequal, cursors, hzero, Set.subset_def, or_imp]
  have hone := hone.assigned marks known (by simpa [hzero] using hinner)
  have hminus := hminus.assigned marks known (by simpa [hzero] using hinner)
  have hnull := hnull.assigned marks known (by simpa [hzero] using hinner)
  have htoLess : Assigned Line.effect marks (known ∪ written) [context.line (.jump ⟨i + 4⟩), .label ⟨i + 2⟩] known := by
    simp [hexit, hless]
  have htoEqual :
      Assigned Line.effect marks (known ∪ written) [context.line (.jump ⟨i + 4⟩), .label ⟨i + 3⟩] known := by
    simp [hexit, hequal]
  have hend : Assigned Line.effect marks (known ∪ written) [.label ⟨i + 4⟩] (known ∪ written) := by
    simp [hexit]
  exact ((((((((hleft.append hright).append hloop).append hone).append htoLess).append hminus).append htoEqual).append
    hnull).append hend)

end

lemma gives_argument (name : String) (arguments : List Access) (index : Nat) :
    Gives (· ∈ arguments) (argument name arguments index) := by
  unfold argument
  split
  · exact .pure (List.mem_of_getElem? ‹_›)
  · exact gives_throw _

def required (function : Runtime) (destination : Option Access) (arguments : List Access) : List Temp :=
  Result.inner destination ++ arguments.flatMap Access.temps ++ if function = .chr then Result.written
    destination else []

lemma expands_expand (name : String) (destination : Option Access) (arguments : List Access) (function : Runtime) :
    Numbers i (fun j lines => Expands none i j (reading context (required function destination arguments)) lines
      {temp | function.hasResult ∧ temp ∈ Result.written destination})
      (expand context name destination arguments function) := by
  have hargument := gives_argument name arguments
  have hread : ∀ {argument : Access}, argument ∈ arguments → ∀ temp ∈ argument.temps,
      temp ∈ required function destination arguments := fun hm temp ht => by
    simp only [required, List.mem_append, List.mem_flatMap]
    exact Or.inl (Or.inr ⟨_, hm, ht⟩)
  have hinner : ∀ temp ∈ Result.inner destination, temp ∈ required function destination arguments := fun temp ht => by
    simp [required, ht]
  have hone : ∀ {argument : Access}, argument ∈ arguments → reading context argument.temps ⊆
      reading context (required function destination arguments) := fun hm =>
    Set.insert_subset_insert (hread hm)
  have hstoring : ∀ {temps : List Temp}, (∀ temp ∈ temps, temp ∈ required function destination arguments) →
      reading context (Result.inner destination ++ temps) ⊆ reading context (required function destination arguments) :=
    fun ht => Set.insert_subset_insert fun temp hm => (List.mem_append.mp hm).elim (hinner temp) (ht temp)
  have hgiven : ∀ needs : Set Temp, {temp | function.hasResult ∧ temp ∈ Result.written destination} ⊆
      needs ∪ {temp | temp ∈ Result.written destination} := fun _ _ h => Or.inr h.2
  have hvoid : ∀ needs : Set Temp, function.hasResult = false →
      {temp | function.hasResult ∧ temp ∈ Result.written destination} ⊆ needs := fun _ hf temp h => by simp [hf] at h
  cases function with
  | print =>
    exact (hargument 0).before fun a ha => (fills_serve .printString (by decide) a).expands.mono fun _ _ h =>
      h.mono (hone ha) (hvoid _ rfl)
  | printi =>
    exact (hargument 0).before fun a ha => (fills_serve .printInt (by decide) a).expands.mono fun _ _ h =>
      h.mono (hone ha) (hvoid _ rfl)
  | flush => exact .pure ((Fills.nil (hvoid _ rfl)).expands none i)
  | getchar =>
    exact (fills_readChar destination).expands.mono fun _ _ h => h.mono (Set.insert_subset_insert hinner) (hgiven _)
  | ord =>
    exact (hargument 0).before fun a ha => (expands_firstByte destination a).mono fun _ _ h =>
      h.mono (hstoring (hread ha)) (hgiven _)
  | chr =>
    refine (hargument 0).before fun a ha => (expands_oneChar destination a).mono fun _ _ h =>
      h.mono (Set.insert_subset_insert fun temp ht => ?_) fun temp ht => ?_
    · simp only [List.mem_append] at ht
      exact ht.elim (fun ht => ht.elim (hinner temp) fun ht => by simp [required, ht]) (hread ha temp)
    · exact Or.inl (Or.inr (by simp [required, ht.2]))
  | size =>
    exact (hargument 0).before fun a ha => (expands_sizeOf destination a).mono fun _ _ h =>
      h.mono (hstoring (hread ha)) (hgiven _)
  | substring =>
    refine (hargument 0).before fun a ha => (hargument 1).before fun b hb => (hargument 2).before fun c hc =>
      (expands_substring destination a b c).mono fun _ _ h => h.mono (hstoring fun temp ht => ?_) (hgiven _)
    simp only [List.mem_append] at ht
    exact ht.elim (hread ha temp) fun ht => ht.elim (hread hb temp) (hread hc temp)
  | concat =>
    refine (hargument 0).before fun a ha => (hargument 1).before fun b hb =>
      (expands_concat destination a b).mono fun _ _ h => h.mono (hstoring fun temp ht => ?_) (hgiven _)
    exact (List.mem_append.mp ht).elim (hread ha temp) (hread hb temp)
  | not =>
    exact (hargument 0).before fun a ha => (fills_logicalNot destination a).expands.mono fun _ _ h =>
      h.mono (hstoring (hread ha)) (hgiven _)
  | exit =>
    exact (hargument 0).before fun a ha => (fills_serve .exitWithCode (by decide) a).expands.mono fun _ _ h =>
      h.mono (hone ha) (hvoid _ rfl)
  | malloc =>
    refine gives_newTemp.before fun result _ => (hargument 0).before fun a ha => (fills_allocate a result).before
      fun _ hblock => (fills_storeResult destination (.temp result)).before fun _ hresult => .pure ?_
    have hblock : Fills (reading context (required .malloc destination arguments)) _ {result} :=
      hblock.mono (hone ha) Set.subset_union_right
    refine ((hblock.append hresult (Set.insert_subset (Or.inl (Set.mem_insert _ _)) fun temp hm => ?_)
      Set.subset_union_right).expands none i).mono Set.Subset.rfl (hgiven _)
    exact (List.mem_append.mp hm).elim (fun ht => Or.inl (Or.inr (hinner temp ht)))
      fun ht => Or.inr (by simpa [Access.temps] using ht)
  | strcmp =>
    refine (hargument 0).before fun a ha => (hargument 1).before fun b hb =>
      (expands_compareStrings destination a b).mono fun _ _ h => h.mono (hstoring fun temp ht => ?_) (hgiven _)
    exact (List.mem_append.mp ht).elim (hread ha temp) (hread hb temp)

lemma expands_callRuntime (destination : Option Access) (name : String) (arguments : List Access) :
    Numbers i (fun j lines => ∃ function, Runtime.ofName? name = some function ∧
      Expands none i j (reading context (required function destination arguments)) lines
        {temp | function.hasResult ∧ temp ∈ Result.written destination})
      (callRuntime context destination name arguments) := by
  unfold callRuntime
  split
  · rename_i function hfunction
    exact (expands_expand name destination arguments function).mono fun _ _ h => ⟨function, hfunction, h⟩
  · exact fun _ _ _ hrun => absurd hrun throw_ne_ok

lemma expands_branch (relation : Relation) (lhs rhs : Access) (target : Label) :
    Numbers i (fun j lines => Expands (some target) i j (reading context (lhs.temps ++ rhs.temps)) lines ∅)
      (branch context relation lhs rhs target) := by
  refine (fills_register lhs).before fun l hl => (fills_register rhs).before fun r hr =>
    .pure ⟨by simp [hl.isLocal, hr.isLocal, Context.line, Line.isLocal], fun known hk => .of_assigned le_rfl
      fun marks hm => ?_⟩
  have hsub : known ⊆ insert l.1 (insert r.1 known) := (Set.subset_insert _ _).trans (Set.subset_insert _ _)
  refine ((hl.both hr).assigned marks known hk).append ?_
  rw [Set.union_empty]
  simpa [Context.line, Operation.effect, Operation.uses, Operation.defs, Operation.target?, Operation.fallsThrough,
    Effect.leaving, Ordered.mem_ofList] using ⟨(hm target rfl).trans hsub, hsub⟩

end Select

def Tac.unset : Tac → List Temp
  | callRuntime destination name _ =>
    if Runtime.ofName? name = some .chr then destination.toList.flatMap Access.written else []
  | _ => []

namespace Select

open Machine

variable {i : Nat} {context : Context}

def produced (tac : Tac) : Set Temp := if tac.passes then {temp | temp ∈ tac.writes} else .univ

section

attribute [local simp] produced Tac.passes Tac.writes Tac.reads Tac.unset Tac.jump? Set.subset_def

lemma expands_operation (graph : CallGraph) (start : Nat) {tac : Tac} (hcall : tac.callee? = none) (hret : tac ≠ .ret) :
    Numbers i
      (fun j result => Expands tac.jump? i j (insert context.registers.zero (tac.reads ∪ {temp | temp ∈ tac.unset}))
      result.1 (produced tac)) (operation context graph start tac) := by
  cases tac with
  | move destination source =>
    exact (fills_move destination source).expands.bind fun _ _ h => .pure (h.mono (by simp) (by simp +contextual))
  | binary operator destination lhs rhs =>
    exact (fills_throughTemp destination (fills_binaryInto operator lhs rhs)).expands.bind fun _ _ h =>
      .pure (h.mono (by simp) (by simp +contextual))
  | negate destination operand =>
    exact (fills_throughTemp destination (fills_negateInto operand)).expands.bind fun _ _ h =>
      .pure (h.mono (by simp) (by simp +contextual))
  | callRuntime destination name arguments =>
    refine (expands_callRuntime destination name arguments).bind fun _ _ h => ?_
    obtain ⟨function, hfunction, h⟩ := h
    have hneeds : ∀ temp ∈ required function destination arguments, temp ∈
        (Tac.callRuntime destination name arguments).reads ∪
          {temp | temp ∈ (Tac.callRuntime destination name arguments).unset} :=
      fun temp ht => by simpa [required, hfunction, Result.inner, Result.written, or_assoc] using ht
    refine .pure (h.mono (Set.insert_subset_insert hneeds) fun temp ht => Or.inr ?_)
    simpa [hfunction, Result.written] using ht
  | ret => exact absurd rfl hret
  | goto target =>
    refine .pure ⟨by simp [Context.line, Line.isLocal], fun known hk => .of_assigned le_rfl fun marks hm => ?_⟩
    simpa [Context.line, Operation.effect, Operation.uses, Operation.target?, Operation.fallsThrough, Effect.leaving]
      using hm target rfl
  | branch relation lhs rhs target =>
    exact (expands_branch relation lhs rhs target).bind fun _ _ h => .pure (h.mono (by simp) (by simp +contextual))
  | call destination target arguments => cases hcall

end

variable {registers : Registers} {A : Label → Set Temp} {D known after : Set Temp} {base : Nat}

def Extends (A : Label → Set Temp) (D : Set Temp) (base : Nat) (marks : Label → Set Temp) : Prop :=
  ∀ l, l.number < base → marks l = A l ∪ D

lemma settles_operation (graph : CallGraph) (start : Nat) {tac : Tac} (hcall : tac.callee? = none)
    (hzero : context.registers.zero ∈ D) (hunset : ∀ temp ∈ tac.unset, temp ∈ D)
    (hbelow : ∀ l ∈ tac.jump?, l.number < base) (hreads : ∀ temp ∈ tac.reads, temp ∈ known)
    (hjumps : ∀ l ∈ tac.jump?, A l ⊆ known) :
    Numbers i (fun j result => Settles Line.effect (Extends A D base) i j (known ∪ D) result.1
      (tac.effect.leaving known ∪ D)) (operation context graph start tac) := by
  by_cases hret : tac = .ret
  · subst hret
    obtain rfl : known = .univ := Set.eq_univ_of_forall fun temp => hreads temp trivial
    exact .pure (.of_assigned le_rfl fun marks _ => by simp [Context.line, Operation.effect, Effect.leaving])
  · refine (expands_operation graph start hcall hret).mono fun j result h => ?_
    have hneeds : insert context.registers.zero (tac.reads ∪ {temp | temp ∈ tac.unset}) ⊆ known ∪ D :=
      Set.insert_subset (Or.inr hzero) (Set.union_subset_union hreads hunset)
    refine ((h.settles _ hneeds).mono fun marks hm l hl => ?_).weaken ?_
    · rw [hm l (hbelow l hl)]
      exact Set.union_subset_union_left _ (hjumps l hl)
    · unfold produced Effect.leaving
      split
      · rw [if_pos ‹_›, Set.union_right_comm]
        exact Set.Subset.rfl
      · rw [if_neg ‹_›, Set.union_univ]
        exact Set.subset_univ _

lemma settles_code (graph : CallGraph) (start : Nat) {code : Code} (hcall : ∀ op ∈ code.op?, op.2.callee? = none)
    (hzero : registers.zero ∈ D) (hunset : ∀ op ∈ code.op?, ∀ temp ∈ op.2.unset, temp ∈ D)
    (hbelow : ∀ l, l ∈ code.label? ∨ l ∈ code.jump? → l.number < base) (h : code.effect.Ready A known) :
    Numbers i (fun j result => Settles Line.effect (Extends A D base) i j (known ∪ D) result.1
      (code.effect.after A known ∪ D)) (Select.code registers graph start code) := by
  have hlabel : ∀ place, place ∈ code.label? → A place ⊆ known → Settles Line.effect (Extends A D base) i i (known ∪ D)
      [.label place] (A place ∪ D) := fun place hp hk => .of_assigned le_rfl fun marks hm => by
    have hmark : marks place = A place ∪ D := hm place (hbelow place (Or.inl hp))
    simpa [hmark] using hk.trans Set.subset_union_left
  cases code with
  | label place =>
    have hafter : (Code.label place).effect.after A known = A place := by
      simp [Code.effect, Effect.after, Effect.leaving, Effect.arrived]
    exact .pure (hafter ▸ hlabel place rfl (h.label place rfl))
  | op frame tac =>
    exact settles_operation graph start (hcall _ rfl) hzero (hunset _ rfl) (fun l hl => hbelow l (Or.inr hl)) h.reads
      fun l hl => h.jumps l (Option.mem_toList.mpr hl)
  | labeled place frame tac =>
    refine (settles_operation graph (start + 1) (hcall _ rfl) hzero (hunset _ rfl) (fun l hl => hbelow l (Or.inr hl))
      h.reads fun l hl => h.jumps l (Option.mem_toList.mpr hl)).bind fun _ _ hop => .pure ?_
    exact (hlabel place rfl (h.label place rfl)).append hop

lemma settles_codes (graph : CallGraph) (start : Nat) {codes : List Code}
    (hcall : ∀ op ∈ Code.ops codes, op.2.callee? = none) (hzero : registers.zero ∈ D)
    (hunset : ∀ op ∈ Code.ops codes, ∀ temp ∈ op.2.unset, temp ∈ D)
    (hbelow : ∀ code ∈ codes, ∀ l, l ∈ code.label? ∨ l ∈ code.jump? → l.number < base)
    (h : Assigned Code.effect A known codes after) :
    Numbers i (fun j result => Settles Line.effect (Extends A D base) i j (known ∪ D) result.1 (after ∪ D))
      (Select.codes registers graph start codes) := by
  induction codes generalizing start i known with
  | nil => exact .pure (.of_assigned le_rfl fun _ _ => Set.union_subset_union_left _ h)
  | cons code rest ih =>
    have hown : ∀ op ∈ code.op?, op ∈ Code.ops (code :: rest) := fun op hm =>
      List.mem_filterMap.mpr ⟨code, List.mem_cons_self, hm⟩
    have hrest : ∀ op ∈ Code.ops rest, op ∈ Code.ops (code :: rest) := fun op hm => by
      obtain ⟨c, hc, hop⟩ := List.mem_filterMap.mp hm
      exact List.mem_filterMap.mpr ⟨c, List.mem_cons_of_mem _ hc, hop⟩
    refine (settles_code graph start (fun op hm => hcall op (hown op hm)) hzero (fun op hm => hunset op (hown op hm))
      (hbelow code List.mem_cons_self) h.1).bind fun j result hfirst => ?_
    exact (ih _ (fun op hm => hcall op (hrest op hm)) (fun op hm => hunset op (hrest op hm))
      (fun c hc => hbelow c (List.mem_cons_of_mem _ hc)) h.2).bind fun _ _ hothers => .pure (hfirst.append hothers)

lemma assigned_generate {program : Tac.Program} {machine : Machine.Program} (h : program.generate = .ok machine)
    (hcall : ∀ op ∈ Code.ops program.codes, op.2.callee? = none)
    (hbelow : ∀ code ∈ program.codes, ∀ l, l ∈ code.label? ∨ l ∈ code.jump? → l.number < program.supply.labels)
    (hassigned : Assigned Code.effect A ∅ program.codes after)
    (hD : D = insert machine.registers.zero {temp | ∃ op ∈ Code.ops program.codes, temp ∈ op.2.unset}) :
    ∃ marks after, Assigned Line.effect marks D machine.lines after := by
  obtain ⟨s, saves, s', hreserve, hcodes⟩ := generate_eq_ok h
  obtain ⟨-, rfl⟩ := reserve_eq_ok hreserve
  obtain ⟨-, chosen, hchosen⟩ := settles_codes program.callGraph 0 hcall (hD ▸ Set.mem_insert _ _)
    (fun op hm temp ht => hD ▸ Or.inr ⟨op, hm, ht⟩) hbelow hassigned hcodes rfl
  rw [Set.empty_union] at hchosen
  refine ⟨fun l => if l.number < program.supply.labels then A l ∪ D else chosen l, _,
    hchosen _ (fun l hl _ => ?_) fun l hl => ?_⟩
  · exact if_neg (Nat.not_lt.mpr hl)
  · exact if_pos hl

end Select

end TigerMips
