import TigerMips.Proofs.Machine.Step
import TigerMips.Proofs.Select.Basic
import TigerMips.Proofs.Tac.Step
import TigerMips.Proofs.Tac.Supported
import TigerMips.Select.Program

/-! The lines that are selected for an operation name the temps of its operands, the fixed registers, and temps that are
drawn for them. Lines can be selected for each operation that is not malformed. -/

namespace TigerMips

def Label.range (first count : Nat) : List Label := (List.range' first count).map Label.mk

lemma Label.mem_range {first count : Nat} {l : Label} :
    l ∈ range first count ↔ first ≤ l.number ∧ l.number < first + count := by
  obtain ⟨n⟩ := l
  simp [range, List.mem_range'_1]

lemma Label.range_append (first count more : Nat) :
    range first count ++ range (first + count) more = range first (count + more) := by
  simp [range, ← List.map_append, List.range'_append_1]

def Access.constant? : Access → Option Const
  | const constant => some constant
  | temp _ | memory _ _ => none

def Access.address? : Access → Option Label
  | const (.string label) => some label
  | _ => none

def Tac.flaw? (frames : Arena .frame Frame) : Tac → Option Failure
  | move destination _ | binary _ destination _ _ => destination.constant?.map .invalidDestination
  | negate destination operand =>
    destination.constant?.map .invalidDestination <|> operand.address?.map .unresolvedConstant
  | call destination target _ =>
    match Select.entered? frames target with
    | none => some (.undefinedLabel target)
    | some (_, callee) =>
      if callee.returnValue.isSome then (destination.bind Access.constant?).map .invalidDestination else none
  | callRuntime destination name arguments =>
    match Runtime.ofName? name with
    | none => some (.unknownRuntime name)
    | some function =>
      if arguments.length < function.signature.params.length then some (.missingArgument name arguments.length)
      else if function.hasResult then (destination.bind Access.constant?).map .invalidDestination
      else none
  | ret | goto _ | branch _ _ _ _ => none

namespace Supply

variable {first last : Supply} {temp : Temp} {l : Label}

def tempsTo (first last : Supply) : List Temp := (List.range' first.temps (last.temps - first.temps)).map Temp.mk

def labelsTo (first last : Supply) : List Label := Label.range first.labels (last.labels - first.labels)

lemma mem_tempsTo : temp ∈ first.tempsTo last ↔ first.temps ≤ temp.number ∧ temp.number < last.temps := by
  obtain ⟨n⟩ := temp
  simp only [tempsTo, List.mem_map, List.mem_range'_1, Temp.mk.injEq, exists_eq_right]
  omega

lemma nodup_tempsTo (first last : Supply) : (first.tempsTo last).Nodup :=
  (List.nodup_range' (s := first.temps)).map fun _ _ h => congrArg Temp.number h

lemma mem_labelsTo : l ∈ first.labelsTo last ↔ first.labels ≤ l.number ∧ l.number < last.labels := by
  rw [labelsTo, Label.mem_range]
  omega

lemma labelsTo_append (middle : Supply) (h : first.labels ≤ middle.labels) (h' : middle.labels ≤ last.labels) :
    first.labelsTo middle ++ middle.labelsTo last = first.labelsTo last := by
  obtain ⟨n, hn⟩ := Nat.exists_eq_add_of_le h
  obtain ⟨m, hm⟩ := Nat.exists_eq_add_of_le h'
  simp only [labelsTo, hm, hn, Nat.add_sub_cancel_left, Label.range_append]
  congr 1
  omega

end Supply

namespace Machine

def Operation.temps : Operation → List Temp
  | arithmetic _ destination lhs rhs => [destination, lhs, rhs]
  | addImmediate destination source _ => [destination, source]
  | setLessImmediate destination source _ => [destination, source]
  | negate destination source => [destination, source]
  | move destination source => [destination, source]
  | loadImmediate destination _ => [destination]
  | loadAddress destination _ => [destination]
  | load _ destination base _ => [destination, base]
  | store _ source base _ => [source, base]
  | jumpAndLink _ returnAddress => [returnAddress]
  | jumpRegister register => [register]
  | branch _ lhs rhs _ => [lhs, rhs]
  | syscall _ v0 a0 a1 => [v0, a0, a1]
  | jump _ | save | restore => []

def Registers.temps (registers : Registers) : List Temp :=
  let { zero, fp, sp, ra, v0, a0, a1 } := registers
  [zero, fp, sp, ra, v0, a0, a1]

def Operation.isPlain : Operation → Bool
  | jumpAndLink _ _ | save | restore => false
  | _ => true

structure Limits where
  temps : Temp → Prop
  labels : Label → Prop

def Operation.Stays (limits : Limits) (operation : Operation) : Prop :=
  operation.isPlain ∧ (∀ register, operation ≠ .jumpRegister register) ∧ (∀ t ∈ operation.temps, limits.temps t) ∧
    ∀ target ∈ operation.target?, limits.labels target

namespace Line

def isPlain : Line → Bool
  | label _ => true
  | instruction i => i.operation.isPlain

def isLocal : Line → Bool
  | label _ => true
  | instruction i => match i.operation with
    | .jumpAndLink _ _ | .jumpRegister _ => false
    | _ => true

def Names (allowed : Temp → Prop) (lines : List Line) : Prop :=
  ∀ i, .instruction i ∈ lines → ∀ t ∈ i.operation.temps, allowed t

def Stay (frame : FrameId) (limits : Limits) (lines : List Line) : Prop :=
  ∀ i, .instruction i ∈ lines → i.frame = frame ∧ i.operation.Stays limits

variable {frame : FrameId} {allowed : Temp → Prop} {limits : Limits} {lines : List Line}

@[simp] lemma names_nil : Names allowed [] := by simp [Names]

@[simp] lemma names_label {label : Label} : Names allowed (.label label :: lines) ↔ Names allowed lines := by
  simp [Names]

@[simp] lemma names_instruction {i : Instruction} :
    Names allowed (.instruction i :: lines) ↔ (∀ t ∈ i.operation.temps, allowed t) ∧ Names allowed lines := by
  simp [Names, or_imp, forall_and]

@[simp] lemma names_append {first second : List Line} :
    Names allowed (first ++ second) ↔ Names allowed first ∧ Names allowed second := by
  simp [Names, or_imp, forall_and]

@[simp] lemma stay_nil : Stay frame limits [] := by simp [Stay]

@[simp] lemma stay_label {label : Label} : Stay frame limits (.label label :: lines) ↔
    Stay frame limits lines := by
  simp [Stay]

@[simp] lemma stay_instruction {i : Instruction} : Stay frame limits (.instruction i :: lines) ↔
    (i.frame = frame ∧ i.operation.Stays limits) ∧ Stay frame limits lines := by
  simp only [Stay, List.mem_cons, Line.instruction.injEq, forall_eq_or_imp]

@[simp] lemma stay_append {first second : List Line} : Stay frame limits (first ++ second) ↔
    Stay frame limits first ∧ Stay frame limits second := by
  simp only [Stay, List.mem_append, or_imp, forall_and, and_and_and_comm]

namespace Stay

variable (h : Stay frame limits lines)

include h

lemma all_isPlain : lines.all isPlain := List.all_eq_true.mpr fun line hm => by
  cases line with
  | label place => rfl
  | instruction i => exact (h i hm).2.1

lemma all_isLocal : lines.all isLocal := List.all_eq_true.mpr fun line hm => by
  cases line with
  | label place => rfl
  | instruction i =>
    obtain ⟨-, hplain, hreturn, -⟩ := h i hm
    rcases i with ⟨frame, operation, transfer⟩
    cases operation <;> first | rfl | exact absurd rfl (hreturn _) | cases hplain

lemma names : Names limits.temps lines := fun i hm => (h i hm).2.2.2.1

lemma within {size : Nat} (hf : frame.position < size) : Within size lines := fun i hm => (h i hm).1 ▸ hf

lemma targets : ∀ target ∈ Line.targets lines, limits.labels target := fun target hm => by
  obtain ⟨line, hl, ht⟩ := List.mem_filterMap.mp hm
  cases line with
  | label place => cases ht
  | instruction i => exact (h i hl).2.2.2.2 target ht

end Stay

end Line

end Machine

namespace Select

open Machine

variable {α β : Type} {context : Context} {limits : Limits} {failure : Failure}

def failure? : Except Failure α → Option Failure
  | .ok _ => none
  | .error failure => some failure

lemma failure?_eq_none {result : Except Failure α} : failure? result = none ↔ ∃ a, result = .ok a := by
  cases result <;> simp [failure?]

lemma failure?_eq_some {result : Except Failure α} : failure? result = some failure ↔ result = .error failure := by
  cases result <;> simp [failure?]

lemma bind_apply_ok {m : Select α} {f : α → Select β} {a : α} {s t : Selection} (h : m s = .ok (a, t)) :
    (m >>= f) s = f a t := by
  change (m s >>= fun p => f p.1 p.2) = _
  rw [h]
  rfl

lemma bind_eq_error {m : Select α} {f : α → Select β} {s : Selection} (h : m s = .error failure) :
    (m >>= f) s = .error failure := by
  change (m s >>= fun p => f p.1 p.2) = _
  rw [h]
  rfl

lemma failure?_bind {m : Select α} {f : α → Select β} {s : Selection} (hf : ∀ a t, failure? (f a t) = none) :
    failure? ((m >>= f) s) = failure? (m s) := by
  cases h : m s with
  | error failure => rw [bind_eq_error h]; rfl
  | ok result => rw [bind_apply_ok h, hf]; rfl

/-- A selection that succeeds draws temps of a frame and labels, the temps only if there is the frame. Its result has
a property, together with the labels, if all the temps and labels that it draws are allowed. If there is the frame, the
selection fails with a failure, or succeeds. -/
structure Mentions (context : Context) (limits : Limits) (fault : Option Failure) (P : List Label → α → Prop)
    (m : Select α) : Prop where
  apply : ∀ ⦃s a t⦄, m s = .ok (a, t) →
    (∃ k l, t = s.drawn context.frame k l ∧ (0 < k → context.frame.position < s.frames.size)) ∧
    ((∀ temp ∈ s.supply.tempsTo t.supply, limits.temps temp) →
      (∀ label ∈ s.supply.labelsTo t.supply, limits.labels label) → P (s.supply.labelsTo t.supply) a)
  ends : ∀ s : Selection, context.frame.position < s.frames.size → failure? (m s) = fault

abbrev Unlabeled (context : Context) (limits : Limits) (fault : Option Failure) (P : α → Prop) (m : Select α) : Prop :=
  Mentions context limits fault (fun labels a => labels = [] ∧ P a) m

namespace Mentions

variable {P : List Label → α → Prop} {Q : List Label → β → Prop} {m : Select α} {f : α → Select β}
  {fault first second : Option Failure}

lemma pure {a : α} (h : P [] a) : Mentions context limits none P (Pure.pure a) where
  apply s _ t hm := by
    obtain ⟨rfl, rfl⟩ := pure_eq_ok.mp hm
    refine ⟨⟨0, 0, (Selection.drawn_zero _ _).symm, by simp⟩, fun _ _ => ?_⟩
    simpa [Supply.labelsTo, Label.range] using h
  ends _ _ := rfl

lemma throw (failure : Failure) : Mentions context limits (some failure) P (MonadExcept.throw failure) where
  apply _ _ _ hrun := absurd hrun throw_ne_ok
  ends _ _ := rfl

lemma step (hm : Mentions context limits first P m) (hf : ∀ a, Mentions context limits second
    (fun more b => ∀ labels, P labels a → Q (labels ++ more) b) (f a)) (h : first.or second = fault) :
    Mentions context limits fault Q (m >>= f) where
  apply s b u hrun := by
    obtain ⟨a, t, ha, hb⟩ := bind_eq_ok.mp hrun
    obtain ⟨⟨k, l, rfl, hk⟩, hp⟩ := hm.apply ha
    obtain ⟨⟨k', l', rfl, hk'⟩, hq⟩ := (hf a).apply hb
    refine ⟨⟨k + k', l + l', Selection.drawn_drawn _ _ _ _ _ _, fun hpos => ?_⟩, fun htemps hlabels => ?_⟩
    · rcases Nat.eq_zero_or_pos k with rfl | hpos'
      · simpa using hk' (by omega)
      · exact hk hpos'
    · simp only [Supply.mem_tempsTo, Supply.mem_labelsTo, Selection.drawn_temps, Selection.drawn_labels] at *
      rw [← Supply.labelsTo_append (s.drawn context.frame k l).supply (by simp) (by simp)]
      exact hq (fun t ht => htemps t (by omega)) (fun l hl => hlabels l (by omega)) _
        (hp (fun t ht => htemps t (by omega)) fun l hl => hlabels l (by omega))
  ends s hs := by
    subst h
    have hfirst := hm.ends s hs
    cases hrun : m s with
    | error failure =>
      rw [hrun] at hfirst
      rw [bind_eq_error hrun, ← hfirst]
      rfl
    | ok result =>
      rw [hrun] at hfirst
      obtain ⟨⟨k, l, ht, -⟩, -⟩ := hm.apply hrun
      rw [bind_apply_ok hrun, ← hfirst, (hf result.1).ends _ (by rwa [ht, Selection.drawn_size])]
      rfl

lemma bind (hm : Mentions context limits none P m) (hf : ∀ a, Mentions context limits fault
    (fun more b => ∀ labels, P labels a → Q (labels ++ more) b) (f a)) : Mentions context limits fault Q (m >>= f) :=
  hm.step hf rfl

lemma mono {P' : List Label → α → Prop} (hm : Mentions context limits fault P m)
    (h : ∀ labels a, P labels a → P' labels a) : Mentions context limits fault P' m :=
  ⟨fun _ _ _ hrun => ⟨(hm.apply hrun).1, fun htemps hlabels => h _ _ ((hm.apply hrun).2 htemps hlabels)⟩, hm.ends⟩

lemma label {f : Label → Select β}
    (hf : ∀ l, Mentions context limits fault (fun labels b => limits.labels l → Q (l :: labels) b) (f l)) :
    Mentions context limits fault Q (newLabel >>= f) := by
  have hnew : Mentions context limits none (fun labels l => labels = [l] ∧ limits.labels l) newLabel := by
    refine ⟨fun s a t hm => ?_, fun _ _ => rfl⟩
    cases (newLabel_ok context.frame).symm.trans hm
    refine ⟨⟨0, 1, rfl, by simp⟩, fun _ hlabels => ⟨by simp [Supply.labelsTo, Label.range], hlabels _ ?_⟩⟩
    simp [Supply.mem_labelsTo]
  refine hnew.bind fun l => (hf l).mono ?_
  rintro more b h _ ⟨rfl, hl⟩
  exact h hl

section

variable {P : α → Prop}

lemma read (hm : Unlabeled context limits none P m)
    (hf : ∀ a, Mentions context limits fault (fun labels b => P a → Q labels b) (f a)) :
    Mentions context limits fault Q (m >>= f) := by
  refine hm.bind fun a => (hf a).mono ?_
  rintro more b h _ ⟨rfl, ha⟩
  exact h ha

lemma store (hm : Unlabeled context limits fault P m)
    (hf : ∀ a, Mentions context limits none (fun labels b => P a → Q labels b) (f a)) :
    Mentions context limits fault Q (m >>= f) := by
  refine hm.step (fun a => (hf a).mono ?_) Option.or_none
  rintro more b h _ ⟨rfl, ha⟩
  exact h ha

lemma storeBoth (hm : Unlabeled context limits fault P m)
    (hf : ∀ a, Mentions context limits fault (fun labels b => P a → Q labels b) (f a)) :
    Mentions context limits fault Q (m >>= f) := by
  refine hm.step (fun a => (hf a).mono ?_) Option.or_self
  rintro more b h _ ⟨rfl, ha⟩
  exact h ha

end

lemma temp {f : Temp → Select β}
    (hf : ∀ t, Mentions context limits fault (fun labels b => limits.temps t → Q labels b) (f t)) :
    Mentions context limits fault Q (context.newTemp >>= f) := by
  refine read (P := limits.temps) ⟨fun s a t hm => ?_, fun s hs => ?_⟩ hf
  · obtain ⟨hf, rfl, rfl⟩ := newTempIn_eq_ok.mp hm
    refine ⟨⟨1, 0, rfl, fun _ => hf⟩, fun htemps _ => ⟨by simp [Supply.labelsTo, Label.range], htemps _ ?_⟩⟩
    simp [Supply.mem_tempsTo]
  · exact failure?_eq_none.mpr ⟨_, newTempIn_eq_ok.mpr ⟨hs, rfl, rfl⟩⟩

end Mentions

def Allows (limits : Limits) (access : Access) : Prop := ∀ t ∈ access.temps, limits.temps t

@[simp] lemma allows_temp {t : Temp} : Allows limits (.temp t) ↔ limits.temps t := by simp [Allows, Access.temps]

@[simp] lemma allows_const (constant : Const) : Allows limits (.const constant) := by simp [Allows, Access.temps]

@[simp] lemma allows_memory {base offset : Access} :
    Allows limits (.memory base offset) ↔ Allows limits base ∧ Allows limits offset := by
  simp [Allows, Access.temps, or_imp, forall_and]

abbrev resultFault (destination : Option Access) : Option Failure :=
  (destination.bind Access.constant?).map .invalidDestination

def Lays (context : Context) (limits : Limits) (labels : List Label) (lines : List Line) :
    Prop :=
  Line.labels lines = labels ∧ Line.Stay context.frame limits lines

section

variable {labels more : List Label} {first second lines : List Line}

@[simp] lemma lays_nil : Lays context limits [] [] := ⟨rfl, by simp⟩

@[simp] lemma lays_label {l place : Label} : Lays context limits (l :: labels) (.label place :: lines) ↔
    place = l ∧ Lays context limits labels lines := by
  simp [Lays, and_assoc]

@[simp] lemma lays_instruction {i : Instruction} : Lays context limits labels (.instruction i :: lines) ↔
    (i.frame = context.frame ∧ i.operation.Stays limits) ∧ Lays context limits labels lines := by
  simp only [Lays, Line.labels_instruction, Line.stay_instruction]
  tauto

@[simp] lemma lays_append (h : Lays context limits labels first) :
    Lays context limits (labels ++ more) (first ++ second) ↔ Lays context limits more second := by
  simp [Lays, h.1, h.2]

@[simp] lemma lays_append_last (h : Lays context limits labels first) :
    Lays context limits labels (first ++ second) ↔ Lays context limits [] second := by
  simp [Lays, h.1, h.2]

@[simp] lemma lays_append_nil (h : Lays context limits [] first) :
    Lays context limits more (first ++ second) ↔ Lays context limits more second :=
  lays_append h

end

section

attribute [local simp] Context.line store increment loadByte storeByte syscall Operation.Stays Operation.isPlain
  Operation.temps Operation.target? Access.int Registers.temps

lemma allows_directAddress? {zero : Temp} {base offset : Access} {address : Address}
    (h : directAddress? zero base offset = some address) (hz : limits.temps zero) (hb : Allows limits base)
    (ho : Allows limits offset) : limits.temps address.base := by
  unfold directAddress? at h
  split at h
  · obtain ⟨_, -, rfl⟩ := Option.map_eq_some_iff.mp h
    exact allows_temp.mp hb
  · obtain ⟨_, -, rfl⟩ := Option.map_eq_some_iff.mp h
    exact allows_temp.mp ho
  · obtain ⟨_, -, h⟩ := Option.bind_eq_some_iff.mp h
    obtain ⟨_, -, h⟩ := Option.bind_eq_some_iff.mp h
    obtain rfl := Option.some.inj h
    exact hz
  · cases h

lemma stays_loadConstant {destination : Temp} (h : limits.temps destination) (constant : Const) :
    (loadConstant destination constant).Stays limits := by
  cases constant <;> simpa [loadConstant] using h

variable (hr : ∀ t ∈ context.registers.temps, limits.temps t)

include hr

lemma unlabeled_addressBy (base offset : Access) {readBase readOffset : Select (Temp × List Line)}
    (hb : Unlabeled context limits none (fun p => Allows limits base → limits.temps p.1 ∧
      Lays context limits [] p.2) readBase)
    (ho : Unlabeled context limits none (fun p => Allows limits offset → limits.temps p.1 ∧
      Lays context limits [] p.2) readOffset) :
    Unlabeled context limits none (fun p => Allows limits base → Allows limits offset → limits.temps p.1.base ∧
      Lays context limits [] p.2) (addressBy context base offset readBase readOffset) := by
  unfold addressBy
  split
  · rename_i address ha
    exact .pure ⟨rfl, fun hbase hoffset => ⟨allows_directAddress? ha (hr _ (by simp)) hbase hoffset, by simp⟩⟩
  · exact .read hb fun _ => .read ho fun _ => .temp fun _ => .pure fun hsum hoffset hbase => ⟨rfl, fun hb ho => by
      simp [hsum, hbase hb, hoffset ho]⟩

lemma unlabeled_register (access : Access) : Unlabeled context limits none (fun p => Allows limits access →
    limits.temps p.1 ∧ Lays context limits [] p.2) (register context access) := by
  induction access with
  | temp t => exact .pure ⟨rfl, fun h => ⟨allows_temp.mp h, by simp⟩⟩
  | const constant =>
    unfold register
    split
    · exact .pure ⟨rfl, fun _ => ⟨hr _ (by simp), by simp⟩⟩
    · exact .temp fun _ => .pure fun ht => ⟨rfl, fun _ => ⟨ht, by simpa using stays_loadConstant ht constant⟩⟩
  | memory base offset ihb iho =>
    exact .temp fun _ => .read (unlabeled_addressBy hr base offset ihb iho) fun _ => .pure fun haddress ht =>
      ⟨rfl, fun h => by simp [ht, haddress (allows_memory.mp h).1 (allows_memory.mp h).2]⟩

lemma unlabeled_address (base offset : Access) : Unlabeled context limits none (fun p => Allows limits base →
    Allows limits offset → limits.temps p.1.base ∧ Lays context limits [] p.2) (address context base offset) :=
  unlabeled_addressBy hr base offset (unlabeled_register hr base) (unlabeled_register hr offset)

lemma unlabeled_loading (destination : Temp) (source : Access) (transfer : Bool) :
    Unlabeled context limits none (fun p => limits.temps destination → Allows limits source → Lays context limits []
      (p.1 ++ [.instruction { frame := context.frame, operation := p.2, transfer }]))
      (loading context destination source) := by
  cases source with
  | temp t => exact .pure ⟨rfl, fun hd hs => by simpa [hd] using hs⟩
  | const constant => exact .pure ⟨rfl, fun hd _ => by simpa using stays_loadConstant hd constant⟩
  | memory base offset =>
    exact .read (unlabeled_address hr base offset) fun _ => .pure fun haddress => ⟨rfl, fun hd hs => by
      simp [hd, haddress (allows_memory.mp hs).1 (allows_memory.mp hs).2]⟩

lemma unlabeled_loadInto (destination : Temp) (source : Access) : Unlabeled context limits none
    (fun lines => limits.temps destination → Allows limits source → Lays context limits [] lines)
    (loadInto context destination source) :=
  .read (unlabeled_loading hr destination source false) fun _ => .pure fun h => ⟨rfl, h⟩

lemma unlabeled_transfer (destination : Temp) (source : Access) : Unlabeled context limits none
    (fun lines => limits.temps destination → Allows limits source → Lays context limits [] lines)
    (transfer context destination source) :=
  .read (unlabeled_loading hr destination source true) fun _ => .pure fun h => ⟨rfl, h⟩

lemma unlabeled_move (destination source : Access) :
    Unlabeled context limits (destination.constant?.map .invalidDestination)
    (fun lines => Allows limits destination → Allows limits source → Lays context limits [] lines)
    (move context destination source) := by
  cases destination with
  | temp t =>
    simp only [allows_temp]
    exact unlabeled_loadInto hr t source
  | memory base offset =>
    exact .read (unlabeled_address hr base offset) fun _ => .read (unlabeled_register hr source) fun _ =>
      .pure fun hsource haddress => ⟨rfl, fun hd hs => by
        simp [haddress (allows_memory.mp hd).1 (allows_memory.mp hd).2, hsource hs]⟩
  | const constant => exact .throw _

lemma unlabeled_throughTemp (destination : Access) {operands : Prop} {make : Temp → Select (List Line)}
    {fault : Option Failure} (hm : ∀ temp, Unlabeled context limits fault
      (fun lines => limits.temps temp → operands → Lays context limits [] lines) (make temp)) :
    Unlabeled context limits (destination.constant?.map .invalidDestination <|> fault)
      (fun lines => Allows limits destination → operands → Lays context limits [] lines)
      (throughTemp context destination make) := by
  cases destination with
  | temp t =>
    simp only [allows_temp]
    exact hm t
  | memory base offset =>
    exact .temp fun temp => .store (hm temp) fun _ => .read (unlabeled_move hr (.memory base offset) _) fun _ =>
      .pure fun hmove hmade ht => ⟨rfl, fun hd ho => by simp [hmade ht ho, hmove hd (allows_temp.mpr ht)]⟩
  | const constant => exact .throw _

omit hr in
lemma stays_immediateForm? {destination : Temp} {operator : BinaryOp} {lhs rhs : Access} {operation : Operation}
    (h : immediateForm? destination operator lhs rhs = some operation) (hd : limits.temps destination)
    (hl : Allows limits lhs) (hrhs : Allows limits rhs) : operation.Stays limits := by
  unfold immediateForm? at h
  split at h
  all_goals first
    | cases h
    | obtain ⟨v, -, rfl⟩ := Option.map_eq_some_iff.mp h
      simp_all

lemma unlabeled_binaryInto (operator : BinaryOp) (lhs rhs : Access) (destination : Temp) :
    Unlabeled context limits none (fun lines => limits.temps destination → Allows limits lhs ∧ Allows limits rhs →
      Lays context limits [] lines) (binaryInto context operator lhs rhs destination) := by
  unfold binaryInto
  split
  · rename_i operation ho
    exact .pure ⟨rfl, fun hd h => by simpa using stays_immediateForm? ho hd h.1 h.2⟩
  · exact .read (unlabeled_register hr lhs) fun _ => .read (unlabeled_register hr rhs) fun _ =>
      .pure fun hright hleft => ⟨rfl, fun hd h => by simp [hd, hleft h.1, hright h.2]⟩

lemma unlabeled_negateInto (operand : Access) (destination : Temp) :
    Unlabeled context limits (operand.address?.map .unresolvedConstant) (fun lines => limits.temps destination →
      Allows limits operand → Lays context limits [] lines) (negateInto context operand destination) := by
  have hzero := hr context.registers.zero (by simp)
  rcases operand with t | (n | _ | label) | ⟨base, offset⟩
  · exact .read (unlabeled_register hr _) fun _ => .pure fun hsource => ⟨rfl, fun hd ho => by simp [hd, hsource ho]⟩
  · simp only [negateInto]
    split <;> exact .pure ⟨rfl, fun hd _ => by simp [hd, hzero]⟩
  · exact .pure ⟨rfl, fun hd _ => by simp [hd]⟩
  · exact .throw _
  · exact .read (unlabeled_register hr _) fun _ => .pure fun hsource => ⟨rfl, fun hd ho => by simp [hd, hsource ho]⟩

lemma unlabeled_branch (relation : Relation) (lhs rhs : Access) (target : Label) :
    Unlabeled context limits none (fun lines => Allows limits lhs → Allows limits rhs → limits.labels target →
      Lays context limits [] lines) (branch context relation lhs rhs target) :=
  .read (unlabeled_register hr lhs) fun _ => .read (unlabeled_register hr rhs) fun _ =>
    .pure fun hright hleft => ⟨rfl, fun hl hrhs hk => by simp [hleft hl, hright hrhs, hk]⟩

lemma unlabeled_storeResult (destination : Option Access) (source : Access) :
    Unlabeled context limits (resultFault destination)
    (fun lines => (∀ place ∈ destination, Allows limits place) → Allows limits source →
      Lays context limits [] lines) (storeResult context destination source) := by
  cases destination with
  | none => exact .pure ⟨rfl, fun _ _ => by simp⟩
  | some place => exact (unlabeled_move hr place source).mono fun _ _ h => ⟨h.1, fun hd => h.2 (hd place rfl)⟩

lemma unlabeled_serve (service : Service) (argument : Access) : Unlabeled context limits none
    (fun lines => Allows limits argument → Lays context limits [] lines) (serve context service argument) := by
  have ha0 := hr context.registers.a0 (by simp)
  have ha1 := hr context.registers.a1 (by simp)
  have hv0 := hr context.registers.v0 (by simp)
  exact .read (unlabeled_loadInto hr _ argument) fun _ => .pure fun hload => ⟨rfl, fun ha => by
    simp [hload ha0 ha, ha0, ha1, hv0]⟩

lemma unlabeled_allocate (bytes : Access) (result : Temp) : Unlabeled context limits none
    (fun lines => Allows limits bytes → limits.temps result → Lays context limits [] lines)
    (allocate context bytes result) := by
  have hv0 := hr context.registers.v0 (by simp)
  exact .read (unlabeled_serve hr .sbrk bytes) fun _ => .pure fun hserve =>
    ⟨rfl, fun hb ht => by simp [hserve hb, ht, hv0]⟩

lemma mentions_measure (string length : Temp) : Mentions context limits none
    (fun labels lines => limits.temps string → limits.temps length → Lays context limits labels lines)
    (measure context string length) := by
  have hzero := hr context.registers.zero (by simp)
  exact .label fun _ => .label fun _ => .temp fun _ => .temp fun _ => .pure fun hbyte hcursor hexit hstart hs hl => by
    simp [hbyte, hcursor, hs, hl, hzero, hexit, hstart]

lemma mentions_copyBytes (source target : Temp) : Mentions context limits none
    (fun labels lines => limits.temps source → limits.temps target → Lays context limits labels lines)
    (copyBytes context source target) := by
  have hzero := hr context.registers.zero (by simp)
  exact .label fun _ => .label fun _ => .temp fun _ => .pure fun hbyte hexit hstart hs ht => by
    simp [hbyte, hs, ht, hzero, hexit, hstart]

variable (destination : Option Access) (hd : ∀ place ∈ destination, Allows limits place)

include hd

lemma unlabeled_readChar :
    Unlabeled context limits (resultFault destination) (Lays context limits []) (readChar context destination) := by
  have ha0 := hr context.registers.a0 (by simp)
  have ha1 := hr context.registers.a1 (by simp)
  have hv0 := hr context.registers.v0 (by simp)
  exact .read (unlabeled_allocate hr _ _) fun _ => .store (unlabeled_storeResult hr destination _) fun _ =>
    .pure fun hresult hbuffer => ⟨rfl, by
      simp [hbuffer (allows_const _) ha0, hresult hd (allows_temp.mpr ha0), ha0, ha1, hv0]⟩

lemma mentions_firstByte (string : Access) : Mentions context limits (resultFault destination)
    (fun labels lines => Allows limits string → Lays context limits labels lines)
    (firstByte context string destination) := by
  have hzero := hr context.registers.zero (by simp)
  exact .label fun _ => .label fun _ => .read (unlabeled_register hr string) fun _ => .temp fun _ =>
    .storeBoth (unlabeled_storeResult hr destination _) fun _ =>
      .store (unlabeled_storeResult hr destination _) fun _ =>
    .pure fun hmissing hfound hbyte htext hexit hempty hs => by
      simp [htext hs, hbyte, hfound hd (allows_temp.mpr hbyte), hmissing hd (allows_const _), hzero, hexit, hempty]

lemma mentions_oneChar (code : Access) : Mentions context limits (resultFault destination)
    (fun labels lines => Allows limits code → Lays context limits labels lines)
    (oneChar context code destination) := by
  have hzero := hr context.registers.zero (by simp)
  exact .label fun _ => .label fun _ => .temp fun _ => .read (unlabeled_register hr code) fun _ => .temp fun _ =>
    .read (unlabeled_allocate hr _ _) fun _ => .store (unlabeled_storeResult hr destination _) fun _ =>
    .read (unlabeled_serve hr _ _) fun _ => .pure fun hfail hresult halloc hbuffer hbyte hmax hexit hwrong hc => by
      simp [hbyte hc, hmax, hbuffer, halloc (allows_const _) hbuffer, hresult hd (allows_temp.mpr hbuffer),
        hfail (allows_const _), hzero, hexit, hwrong]

lemma mentions_sizeOf (string : Access) : Mentions context limits (resultFault destination)
    (fun labels lines => Allows limits string → Lays context limits labels lines)
    (sizeOf context string destination) :=
  .read (unlabeled_register hr string) fun _ => .temp fun _ => .bind (mentions_measure hr _ _) fun _ =>
    .store (unlabeled_storeResult hr destination _) fun _ => .pure fun hresult _ hloop hsize htext hs => by
      simp [htext hs, hloop (htext hs).1 hsize, hresult hd (allows_temp.mpr hsize)]

lemma mentions_substring (string first length : Access) : Mentions context limits (resultFault destination)
    (fun labels lines => Allows limits string → Allows limits first → Allows limits length →
      Lays context limits labels lines) (substring context string first length destination) := by
  have hzero := hr context.registers.zero (by simp)
  refine .label fun _ => .label fun _ => .temp fun _ => .temp fun _ => .temp fun _ => .temp fun _ => .temp fun _ =>
    .temp fun _ => .read (unlabeled_loadInto hr _ length) fun _ => .read (unlabeled_allocate hr _ _) fun _ =>
    .read (unlabeled_register hr string) fun _ => .read (unlabeled_binaryInto hr _ _ _ _) fun _ =>
    .store (unlabeled_storeResult hr destination _) fun _ =>
      .pure fun hending hstart htext halloc hlength hbyte hcapacity
      hremaining htarget hsource hresult hexit hloop hs hf hl => ?_
  have hstart' := hstart hsource ⟨allows_temp.mpr (htext hs).1, hf⟩
  simp [hlength hremaining hl, halloc (allows_temp.mpr hcapacity) hresult, htext hs, hstart',
    hending hd (allows_temp.mpr hresult), hbyte, hcapacity, hremaining, htarget, hsource, hresult, hzero, hexit, hloop]

lemma mentions_concat (first second : Access) : Mentions context limits (resultFault destination)
    (fun labels lines => Allows limits first → Allows limits second → Lays context limits labels lines)
    (concat context first second destination) := by
  have hzero := hr context.registers.zero (by simp)
  refine .read (unlabeled_register hr first) fun _ => .read (unlabeled_register hr second) fun _ => .temp fun _ =>
    .temp fun _ => .temp fun _ => .temp fun _ => .temp fun _ => .temp fun _ => .bind (mentions_measure hr _ _) fun _ =>
    .bind (mentions_measure hr _ _) fun _ => .read (unlabeled_allocate hr _ _) fun _ =>
    .bind (mentions_copyBytes hr _ _) fun _ => .bind (mentions_copyBytes hr _ _) fun _ =>
    .store (unlabeled_storeResult hr destination _) fun _ => .pure fun hending _ hcr _ hcl halloc _ hmr _ hml htarget
      hsource hresult hsize hrightSize hleftSize hright hleft hf hs => ?_
  obtain ⟨hl, hlines⟩ := hleft hf
  obtain ⟨hrt, hlines'⟩ := hright hs
  simp [hl, hlines, hrt, hlines', hml hl hleftSize, hmr hrt hrightSize, halloc (allows_temp.mpr hsize) hresult,
    hcl hsource htarget, hcr hsource htarget, hending hd (allows_temp.mpr hresult), htarget, hsource, hresult, hsize,
    hrightSize, hleftSize, hzero]

lemma unlabeled_logicalNot (value : Access) : Unlabeled context limits (resultFault destination)
    (fun lines => Allows limits value → Lays context limits [] lines) (logicalNot context value destination) := by
  have hzero := hr context.registers.zero (by simp)
  exact .read (unlabeled_register hr value) fun _ => .temp fun _ =>
      .store (unlabeled_storeResult hr destination _) fun _ =>
    .pure fun hending hresult hvalue => ⟨rfl, fun hv => by
      simp [hvalue hv, hresult, hending hd (allows_temp.mpr hresult), hzero]⟩

lemma mentions_compareStrings (left right : Access) : Mentions context limits (resultFault destination)
    (fun labels lines => Allows limits left → Allows limits right → Lays context limits labels lines)
    (compareStrings context left right destination) := by
  have hzero := hr context.registers.zero (by simp)
  exact .label fun _ => .label fun _ => .label fun _ => .label fun _ => .label fun _ => .temp fun _ => .temp fun _ =>
    .temp fun _ => .temp fun _ =>
    .read (unlabeled_loadInto hr _ left) fun _ => .read (unlabeled_loadInto hr _ right) fun _ =>
    .storeBoth (unlabeled_storeResult hr destination _) fun _ =>
    .storeBoth (unlabeled_storeResult hr destination _) fun _ =>
    .store (unlabeled_storeResult hr destination _) fun _ =>
    .pure fun hequal hless hgreater hrightLines hleftLines hrb hlb hrc hlc hk₁ hk₂ hk₃ hk₄ hk₅ hl hrt => by
      simp [hleftLines hlc hl, hrightLines hrc hrt, hgreater hd (allows_const _), hless hd (allows_const _),
        hequal hd (allows_const _), hlb, hrb, hlc, hrc, hzero, hk₁, hk₂, hk₃, hk₄, hk₅]

lemma mentions_expand (name : String) {arguments : List Access} (ha : ∀ argument ∈ arguments, Allows limits argument)
    (function : Runtime) : Mentions context limits
      (if arguments.length < function.signature.params.length then some (.missingArgument name arguments.length)
        else if function.hasResult then resultFault destination else none)
      (Lays context limits) (expand context name destination arguments function) := by
  obtain ⟨fault, hfault⟩ : ∃ fault, (if arguments.length < function.signature.params.length then
      some (Failure.missingArgument name arguments.length)
      else if function.hasResult then resultFault destination else none) = fault := ⟨_, rfl⟩
  rw [hfault]
  -- Arguments are read one after the other, and the first one that is missing is reported.
  have hread : ∀ {index : Nat} {Q : List Label → List Line → Prop} {f : Access → Select (List Line)},
      index < function.signature.params.length → index ≤ arguments.length →
      (index < arguments.length → ∀ access, Mentions context limits fault
        (fun labels lines => Allows limits access → Q labels lines) (f access)) →
      Mentions context limits fault Q (argument name arguments index >>= f) := fun {index Q f} hi hle hf => by
    unfold argument
    rcases Nat.eq_or_lt_of_le hle with rfl | hlt
    · rw [List.getElem?_eq_none le_rfl, ← hfault, if_pos hi]
      exact .throw _
    · rw [List.getElem?_eq_getElem hlt]
      exact .read (P := Allows limits) (.pure ⟨rfl, ha _ (List.getElem_mem hlt)⟩) (hf hlt)
  have henough : function.signature.params.length ≤ arguments.length →
      fault = if function.hasResult then resultFault destination else none := fun h => by
    rw [← hfault, if_neg (by omega)]
  have hone : ∀ {make : Access → Select (List Line)}, function.signature.params.length = 1 →
      (∀ access, Mentions context limits (if function.hasResult then resultFault destination else none)
        (fun labels lines => Allows limits access → Lays context limits labels lines) (make access)) →
      Mentions context limits fault (Lays context limits) (do make (← argument name arguments 0)) :=
    fun hlength hmake => hread (by omega) (Nat.zero_le _) fun h access => by
      rw [henough (by omega)]
      exact hmake access
  have hplain : ∀ {make : Select (List Line)} {P : Prop} {fault : Option Failure},
      Unlabeled context limits fault (fun lines => P → Lays context limits [] lines) make →
      Mentions context limits fault (fun labels lines => P → Lays context limits labels lines) make :=
    fun h => h.mono fun _ _ h hp => h.1 ▸ h.2 hp
  clear hfault
  cases function with
  | print => exact hone rfl fun access => hplain (unlabeled_serve hr .printString access)
  | printi => exact hone rfl fun access => hplain (unlabeled_serve hr .printInt access)
  | flush =>
    rw [henough (Nat.zero_le _)]
    exact .pure (by simp)
  | getchar =>
    rw [henough (Nat.zero_le _)]
    exact (unlabeled_readChar hr destination hd).mono fun _ _ h => h.1 ▸ h.2
  | ord => exact hone rfl (mentions_firstByte hr destination hd)
  | chr => exact hone rfl (mentions_oneChar hr destination hd)
  | size => exact hone rfl (mentions_sizeOf hr destination hd)
  | not => exact hone rfl fun access => hplain (unlabeled_logicalNot hr destination hd access)
  | exit => exact hone rfl fun access => hplain (unlabeled_serve hr .exitWithCode access)
  | substring =>
    refine hread (by decide) (Nat.zero_le _) fun h _ => hread (by decide) h fun h _ => hread (by decide) h fun h _ => ?_
    rw [henough h]
    exact (mentions_substring hr destination hd _ _ _).mono fun _ _ h hl hf hs => h hs hf hl
  | concat =>
    refine hread (by decide) (Nat.zero_le _) fun h _ => hread (by decide) h fun h _ => ?_
    rw [henough h]
    exact (mentions_concat hr destination hd _ _).mono fun _ _ h hs hf => h hf hs
  | malloc =>
    refine .temp fun _ => hread Nat.one_pos (Nat.zero_le _) fun h _ => ?_
    rw [henough h]
    exact .read (unlabeled_allocate hr _ _) fun _ => .store (unlabeled_storeResult hr destination _) fun _ =>
      .pure fun hstore halloc hbytes hresult => by
        simp [halloc hbytes hresult, hstore hd (allows_temp.mpr hresult)]
  | strcmp =>
    refine hread (by decide) (Nat.zero_le _) fun h _ => hread (by decide) h fun h _ => ?_
    rw [henough h]
    exact (mentions_compareStrings hr destination hd _ _).mono fun _ _ h hrt hl => h hl hrt

omit hd in
lemma unlabeled_passArguments {params : List Temp} {arguments : List Access} (hp : ∀ t ∈ params, limits.temps t)
    (ha : ∀ argument ∈ arguments, Allows limits argument) :
    Unlabeled context limits none (Lays context limits []) (passArguments context params arguments) := by
  induction params generalizing arguments with
  | nil => exact .pure ⟨rfl, by simp⟩
  | cons param params ih =>
    cases arguments with
    | nil => exact .pure ⟨rfl, by simp⟩
    | cons argument arguments =>
      obtain ⟨hparam, hparams⟩ := List.forall_mem_cons.mp hp
      obtain ⟨hargument, harguments⟩ := List.forall_mem_cons.mp ha
      exact .read (unlabeled_transfer hr param argument) fun _ => .read (ih hparams harguments) fun _ =>
        .pure fun hrest hfirst => ⟨rfl, by simp [hfirst hparam hargument, hrest]⟩

lemma unlabeled_takeResult {result : Option Temp} (ht : ∀ t ∈ result, limits.temps t) :
    Unlabeled context limits (if result.isSome then resultFault destination else none) (Lays context limits [])
      (takeResult context destination result) := by
  cases result with
  | none => rcases destination with _ | (_ | _ | _) <;> exact .pure ⟨rfl, by simp⟩
  | some t =>
    rcases destination with _ | (place | constant | ⟨base, offset⟩)
    · exact .pure ⟨rfl, by simp⟩
    · exact (unlabeled_transfer hr place (.temp t)).mono fun _ _ h =>
        ⟨h.1, h.2 (allows_temp.mp (hd _ rfl)) (allows_temp.mpr (ht t rfl))⟩
    · exact .throw _
    · exact (unlabeled_move hr (.memory base offset) (.temp t)).mono fun _ _ h =>
        ⟨h.1, h.2 (hd _ rfl) (allows_temp.mpr (ht t rfl))⟩

end

lemma names_callLines {allowed : Temp → Prop} {context : Context} (hr : ∀ t ∈ context.registers.temps, allowed t)
    (id : FrameId) (recursive : Bool) {display : Temp} (hd : allowed display) (target back : Label)
    {passing taking : List Line} (hp : Line.Names allowed passing) (ht : Line.Names allowed taking) :
    Line.Names allowed
      (callLines context { context with frame := id } recursive display target back passing taking) := by
  simp only [Registers.temps, List.mem_cons, List.not_mem_nil, or_false, forall_eq_or_imp, forall_eq] at hr
  cases recursive <;>
    simp [callLines, savingAround, adjustStack, enterCallee, leaveCallee, store, Context.line, Operation.temps, hp, ht,
      hd, hr]

lemma mentions_operation (hr : ∀ t ∈ context.registers.temps, limits.temps t) (graph : CallGraph) (start : Nat)
    {tac : Tac} (hcall : tac.callee? = none) (hret : tac ≠ .ret) (ht : ∀ t ∈ tac.temps, limits.temps t)
    (hlabels : ∀ target ∈ tac.target?, limits.labels target) (frames : Arena .frame Frame) :
    Mentions context limits (tac.flaw? frames)
      (fun labels result => Lays context limits labels result.1 ∧ result.2 = [])
      (operation context graph start tac) := by
  have hlines : ∀ {make : Select (List Line)} {fault : Option Failure},
      Mentions context limits fault (Lays context limits) make →
      Mentions context limits fault (fun labels result => Lays context limits labels result.1 ∧ result.2 = [])
        (do return (← make, ([] : List CallSave))) := fun h =>
    h.step (fun _ => .pure fun _ h => by simpa using h) Option.or_none
  have hallows : ∀ access : Access, (∀ t ∈ access.temps, t ∈ tac.temps) → Allows limits access :=
    fun _ h t hm => ht t (h t hm)
  cases tac with
  | move destination source =>
    exact hlines ((unlabeled_move hr destination source).mono fun _ _ h =>
      h.1 ▸ h.2 (hallows _ (by simp +contextual [Tac.temps])) (hallows _ (by simp +contextual [Tac.temps])))
  | binary operator destination lhs rhs =>
    have hbinary := unlabeled_throughTemp hr destination (unlabeled_binaryInto hr operator lhs rhs)
    rw [Option.orElse_eq_orElse, Option.orElse_eq_or, Option.or_none] at hbinary
    exact hlines (hbinary.mono fun _ _ h => h.1 ▸ h.2 (hallows _ (by simp +contextual [Tac.temps]))
      ⟨hallows _ (by simp +contextual [Tac.temps]), hallows _ (by simp +contextual [Tac.temps])⟩)
  | negate destination operand =>
    exact hlines ((unlabeled_throughTemp hr destination (unlabeled_negateInto hr operand)).mono fun _ _ h =>
      h.1 ▸ h.2 (hallows _ (by simp +contextual [Tac.temps])) (hallows _ (by simp +contextual [Tac.temps])))
  | callRuntime destination name arguments =>
    refine hlines ?_
    simp only [callRuntime, Tac.flaw?]
    cases Runtime.ofName? name with
    | none => exact .throw _
    | some function =>
      refine mentions_expand hr destination (fun place hm t h => ht t ?_) name (fun argument hm t h => ht t ?_) _
      · exact List.mem_flatMap.mpr ⟨place, by simp [Option.mem_def.mp hm], h⟩
      · exact List.mem_flatMap.mpr ⟨argument, by simp [hm], h⟩
  | ret => exact absurd rfl hret
  | goto target =>
    exact .pure ⟨by simp [Context.line, Operation.Stays, Operation.isPlain, Operation.temps, Operation.target?,
      hlabels target rfl], rfl⟩
  | branch relation lhs rhs target =>
    exact hlines ((unlabeled_branch hr relation lhs rhs target).mono fun _ _ h =>
      h.1 ▸ h.2 (hallows _ (by simp +contextual [Tac.temps])) (hallows _ (by simp +contextual [Tac.temps]))
        (hlabels target rfl))
  | call destination target arguments => cases hcall

section

variable {s t : Selection} {lines : List Line}

lemma unlabeled_eq_ok {P : (Label → Prop) → α → Prop} {m : Select α} {fault : Option Failure} {a : α}
    (h : ∀ known, Unlabeled context ⟨fun _ => True, known⟩ fault (P known) m) (hrun : m s = .ok (a, t)) :
    ∃ k, t = s.drawn context.frame k 0 ∧ P (fun _ => False) a := by
  obtain ⟨⟨k, l, rfl, -⟩, hp⟩ := (h fun _ => True).apply hrun
  obtain ⟨hlabels, -⟩ := hp (by simp) (by simp)
  obtain rfl : l = 0 := by simpa [Supply.labelsTo, Label.range] using hlabels
  exact ⟨k, rfl, (((h fun _ => False).apply hrun).2 (by simp) (by simp [hlabels])).2⟩

abbrev Straight (context : Context) (lines : List Line) : Prop := Lays context ⟨fun _ => True, fun _ => False⟩ [] lines

lemma Straight.targets (h : Straight context lines) : Line.targets lines = [] :=
  List.eq_nil_iff_forall_not_mem.mpr h.2.targets

lemma passArguments_eq_ok {params : List Temp} {arguments : List Access}
    (h : passArguments context params arguments s = .ok (lines, t)) :
    ∃ k, t = s.drawn context.frame k 0 ∧ Straight context lines :=
  unlabeled_eq_ok (P := fun known => Lays context ⟨fun _ => True, known⟩ [])
    (fun _ => unlabeled_passArguments (by simp) (by simp) (by simp [Allows])) h

lemma takeResult_eq_ok {destination : Option Access} {result : Option Temp}
    (h : takeResult context destination result s = .ok (lines, t)) :
    ∃ k, t = s.drawn context.frame k 0 ∧ Straight context lines :=
  unlabeled_eq_ok (P := fun known => Lays context ⟨fun _ => True, known⟩ [])
    (fun _ => unlabeled_takeResult (by simp) destination (by simp [Allows]) (by simp)) h

end

end Select

end TigerMips
