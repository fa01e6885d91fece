import TigerMips.Proofs.Select.Operands
import TigerMips.Select.Program

/-! The lines of an operation without calls do what the operation does. -/

namespace TigerMips.Select

open Machine

variable {context : Context} {link : Linkage} {bound : Nat}

/-- Lines that do what an operation does, as far as memory and the temps below `bound` go. Only
the last line can jump. -/
def Carries (context : Context) (link : Linkage) (bound : Nat) (tac : Tac) (lines : List Line) : Prop :=
  ∃ before instruction, lines = before ++ [.instruction instruction] ∧ Line.labels before = [] ∧
    ∀ store result target, store.temps context.registers.zero = 0 →
      tac.exec? link store = some (result, target) →
      ∃ middle after, run? link store before = some middle ∧
        instruction.operation.exec? link middle = some (after, target) ∧ result.Agree bound after ∧
        after.temps context.registers.zero = 0

structure Ready (registers : Registers) (bound : Nat) (s : Selection) : Prop where
  bound_le : bound ≤ s.supply.temps
  zero_new : bound ≤ registers.zero.number
  zero_drawn : registers.zero.number < s.supply.temps

lemma Ready.drawn {registers : Registers} {s : Selection} (h : Ready registers bound s) (frame : FrameId)
    (m n : Nat) : Ready registers bound (s.drawn frame m n) :=
  ⟨by have := h.bound_le; simp; omega, h.zero_new, by have := h.zero_drawn; simp; omega⟩

lemma Ready.lt {registers : Registers} {s : Selection} (h : Ready registers bound s) {temps : List Temp}
    (ht : ∀ t ∈ temps, t.number < bound) : ∀ t ∈ temps, t.number < s.supply.temps :=
  fun t hm => (ht t hm).trans_le h.bound_le

lemma loading_ok (link : Linkage) {destination : Temp} {source : Access} {s s' : Selection} {lines : List Line}
    {operation : Operation} (h : loading context destination source s = .ok ((lines, operation), s'))
    (hz : context.registers.zero.number < s.supply.temps)
    (ht : ∀ t ∈ source.temps, t.number < s.supply.temps) :
    (∃ k, s' = s.drawn context.frame k 0) ∧ Line.labels lines = [] ∧
      Computes context link s.supply.temps lines fun store after =>
        operation.exec? link after = some (after.put destination (source.value link store), none) := by
  cases source with
  | temp u =>
    obtain ⟨rfl, rfl, rfl⟩ := pure_pair_eq_ok.mp h
    exact ⟨⟨0, (s'.drawn_zero _).symm⟩, rfl, Computes.nil fun store _ => rfl⟩
  | const constant =>
    obtain ⟨rfl, rfl, rfl⟩ := pure_pair_eq_ok.mp h
    exact ⟨⟨0, (s'.drawn_zero _).symm⟩, rfl,
      Computes.nil fun store _ => exec?_loadConstant store destination constant⟩
  | memory base offset =>
    obtain ⟨⟨place, addressLines⟩, s₁, ha, h⟩ := bind_eq_ok.mp h
    obtain ⟨rfl, rfl, rfl⟩ := pure_pair_eq_ok.mp h
    obtain ⟨hk, hl, -, hlocate⟩ := locates_address link base offset _ _ _ _ ha hz ht
    refine ⟨hk, hl, fun store hzero => ?_⟩
    obtain ⟨after, hr, hagree, hv⟩ := hlocate store hzero
    exact ⟨after, hr, hagree, by simp [Operation.exec?, Operation.loadFrom, hv, Access.value, hagree.1]⟩

lemma carries_move (link : Linkage) {destination source : Access} {s s' : Selection} {lines : List Line}
    (h : move context destination source s = .ok (lines, s')) (hready : Ready context.registers bound s)
    (ht : ∀ t ∈ destination.temps ++ source.temps, t.number < s.supply.temps)
    (hd : destination ≠ .temp context.registers.zero) :
    (∃ k, s' = s.drawn context.frame k 0) ∧ Carries context link bound (.move destination source) lines := by
  have hts : ∀ t ∈ source.temps, t.number < s.supply.temps := fun t hm => ht t (List.mem_append_right _ hm)
  cases destination with
  | temp d =>
    obtain ⟨⟨before, operation⟩, s₁, hl, h⟩ := bind_eq_ok.mp h
    obtain ⟨rfl, rfl⟩ := pure_eq_ok.mp h
    obtain ⟨hk, hlabels, hload⟩ := loading_ok link hl hready.zero_drawn hts
    refine ⟨hk, before, _, rfl, hlabels, fun store result target hzero he => ?_⟩
    obtain ⟨rfl, rfl⟩ : store.put d (source.value link store) = result ∧ none = target := by
      simpa [Tac.exec?, Access.write?] using he
    obtain ⟨middle, hr, hagree, hexec⟩ := hload store hzero
    refine ⟨middle, _, hr, hexec, (hagree.mono hready.bound_le).put _ _, ?_⟩
    have hne : context.registers.zero ≠ d := fun hc => hd (by rw [hc])
    simp [Store.put, hne, ← hagree.2 _ hready.zero_drawn, hzero]
  | memory base offset =>
    obtain ⟨⟨place, addressLines⟩, s₁, ha, h⟩ := bind_eq_ok.mp h
    obtain ⟨⟨t, sourceLines⟩, s₂, hs, h⟩ := bind_eq_ok.mp h
    obtain ⟨rfl, rfl⟩ := pure_eq_ok.mp h
    obtain ⟨⟨k, rfl⟩, hla, hbn, hlocate⟩ := locates_address link base offset _ _ _ _ ha
      hready.zero_drawn fun t hm => ht t (List.mem_append_left _ hm)
    obtain ⟨⟨l, rfl⟩, hls, -, hread⟩ := reads_register link source _ _ _ _ hs
      (hready.drawn _ _ _).zero_drawn fun t hm => (hts t hm).trans_le (by simp)
    refine ⟨⟨k + l, by simp [Selection.drawn_drawn]⟩, addressLines ++ sourceLines, _, rfl, by simp [hla, hls],
      fun store result target hzero he => ?_⟩
    obtain ⟨rfl, rfl⟩ : ⟨store.temps, store.memory.storeWord
        (base.value link store + offset.value link store) (source.value link store)⟩ = result ∧ none = target := by
      simpa [Tac.exec?, Access.write?] using he
    obtain ⟨one, hr₁, ha₁, hv₁⟩ := hlocate store hzero
    obtain ⟨two, hr₂, ha₂, hv₂⟩ := hread one ((ha₁.2 _ hready.zero_drawn).symm.trans hzero)
    have hall := ha₁.trans (ha₂.mono (by simp))
    refine ⟨two, _, run?_append hr₁ hr₂, rfl, ⟨?_, fun t hb => hall.2 t (hb.trans_le hready.bound_le)⟩, ?_⟩
    · simp only [Operation.storeTo, ← ha₂.2 _ hbn, hv₁, hv₂, ha₁.value link source hts, hall.1]
    · exact (hall.2 _ hready.zero_drawn).symm.trans hzero
  | const constant => exact (throw_ne_ok h).elim

def Makes (context : Context) (link : Linkage) (temps : List Temp) (value : Store → Option Word)
    (make : Temp → Select (List Line)) : Prop :=
  ∀ s d lines s', make d s = .ok (lines, s') → context.registers.zero.number < s.supply.temps →
    (∀ t ∈ temps, t.number < s.supply.temps) →
    (∃ k, s' = s.drawn context.frame k 0) ∧
    ∃ before operation, lines = before ++ [context.line operation] ∧ Line.labels before = [] ∧
      ∀ store v, store.temps context.registers.zero = 0 → value store = some v →
        ∃ middle, run? link store before = some middle ∧ store.Agree s.supply.temps middle ∧
          operation.exec? link middle = some (middle.put d v, none)

lemma immediateForm?_exec {d : Temp} {operator : BinaryOp} {lhs rhs : Access} {operation : Operation}
    {store : Store} {v : Word} (h : immediateForm? d operator lhs rhs = some operation)
    (hv : operator.eval? (lhs.value link store) (rhs.value link store) = some v) :
    operation.exec? link store = some (store.put d v, none) := by
  unfold immediateForm? at h
  split at h <;> try cases h
  all_goals
    obtain ⟨w, hw, rfl⟩ := Option.map_eq_some_iff.mp h
    obtain rfl := Option.some.inj hv
    simp only [Access.value, value?_eq_some hw, Operation.exec?, Immediate.value]
  · rw [Int32.add_comm]
  · rw [Int32.sub_eq_add_neg]

lemma makes_binaryInto (operator : BinaryOp) (lhs rhs : Access) :
    Makes context link (lhs.temps ++ rhs.temps)
      (fun store => operator.eval? (lhs.value link store) (rhs.value link store))
      (binaryInto context operator lhs rhs) := by
  intro s d lines s' h hz ht
  unfold binaryInto at h
  cases hi : immediateForm? d operator lhs rhs with
  | some operation =>
    rw [hi] at h
    obtain ⟨rfl, rfl⟩ := pure_eq_ok.mp h
    exact ⟨⟨0, (s'.drawn_zero _).symm⟩, [], operation, rfl, rfl, fun store v _ hv =>
      ⟨store, rfl, .refl _ store, immediateForm?_exec hi hv⟩⟩
  | none =>
    rw [hi] at h
    obtain ⟨⟨left, leftLines⟩, s₁, hl, h⟩ := bind_eq_ok.mp h
    obtain ⟨⟨right, rightLines⟩, s₂, hr, h⟩ := bind_eq_ok.mp h
    obtain ⟨rfl, rfl⟩ := pure_eq_ok.mp h
    have htl : ∀ t ∈ lhs.temps, t.number < s.supply.temps := fun t hm => ht t (List.mem_append_left _ hm)
    have htr : ∀ t ∈ rhs.temps, t.number < s.supply.temps := fun t hm => ht t (List.mem_append_right _ hm)
    obtain ⟨⟨k, rfl⟩, hll, hln, hleft⟩ := reads_register link lhs _ _ _ _ hl hz htl
    obtain ⟨⟨l, rfl⟩, hlr, -, hright⟩ := reads_register link rhs _ _ _ _ hr
      (hz.trans_le (by simp)) fun t hm => (htr t hm).trans_le (by simp)
    refine ⟨⟨k + l, by simp [Selection.drawn_drawn]⟩, leftLines ++ rightLines, _, rfl, by simp [hll, hlr],
      fun store v hzero hv => ?_⟩
    obtain ⟨one, hr₁, ha₁, hv₁⟩ := hleft store hzero
    obtain ⟨two, hr₂, ha₂, hv₂⟩ := hright one ((ha₁.2 _ hz).symm.trans hzero)
    refine ⟨two, run?_append hr₁ hr₂, ha₁.trans (ha₂.mono (by simp)), ?_⟩
    simp only [← hv₁, ha₁.value link rhs htr, ← hv₂, ha₂.2 left hln] at hv
    simp [Operation.exec?, hv]

lemma makes_negateRegister (operand : Access) :
    Makes context link operand.temps (fun store => some (-operand.value link store)) fun d => do
      let (source, lines) ← register context operand
      return lines ++ [context.line (.negate d source)] := by
  intro s d lines s' h hz ht
  obtain ⟨⟨source, before⟩, s₁, hr, h⟩ := bind_eq_ok.mp h
  obtain ⟨rfl, rfl⟩ := pure_eq_ok.mp h
  obtain ⟨hk, hl, -, hread⟩ := reads_register link operand _ _ _ _ hr hz ht
  refine ⟨hk, before, _, rfl, hl, fun store v hzero hv => ?_⟩
  obtain rfl := Option.some.inj hv
  obtain ⟨middle, hr, ha, hv⟩ := hread store hzero
  exact ⟨middle, hr, ha, by simp [Operation.exec?, hv]⟩

lemma makes_negateInto (operand : Access) :
    Makes context link operand.temps (fun store => some (-operand.value link store))
      (negateInto context operand) := by
  intro s d lines s' h hz ht
  cases operand with
  | temp u => exact makes_negateRegister _ s d lines s' h hz ht
  | memory base offset => exact makes_negateRegister _ s d lines s' h hz ht
  | const constant =>
    cases constant with
    | string label => exact (throw_ne_ok h).elim
    | wordLength =>
      obtain ⟨rfl, rfl⟩ := pure_eq_ok.mp h
      refine ⟨⟨0, (s'.drawn_zero _).symm⟩, [], _, rfl, rfl, fun store v _ hv => ?_⟩
      obtain rfl := Option.some.inj hv
      exact ⟨store, rfl, .refl _ store, rfl⟩
    | int value =>
      by_cases hv : value = 0
      · simp only [negateInto, if_pos hv] at h
        obtain ⟨rfl, rfl⟩ := pure_eq_ok.mp h
        refine ⟨⟨0, (s'.drawn_zero _).symm⟩, [], _, rfl, rfl, fun store v hzero he => ?_⟩
        obtain rfl := Option.some.inj he
        exact ⟨store, rfl, .refl _ store, by simp [Operation.exec?, Access.value, Const.value, hzero, hv]⟩
      · simp only [negateInto, if_neg hv] at h
        obtain ⟨rfl, rfl⟩ := pure_eq_ok.mp h
        refine ⟨⟨0, (s'.drawn_zero _).symm⟩, [], _, rfl, rfl, fun store v _ he => ?_⟩
        obtain rfl := Option.some.inj he
        exact ⟨store, rfl, .refl _ store, rfl⟩

lemma carries_throughTemp {make : Temp → Select (List Line)} {temps : List Temp} {value : Store → Option Word}
    {destination : Access} {tac : Tac} {s s' : Selection} {lines : List Line}
    (hmake : Makes context link temps value make)
    (htac : ∀ store, tac.exec? link store = do
      let v ← value store
      let after ← destination.write? link store v
      return (after, none))
    (h : throughTemp context destination make s = .ok (lines, s')) (hready : Ready context.registers bound s)
    (hdestination : ∀ t ∈ destination.temps, t.number < s.supply.temps)
    (ht : ∀ t ∈ temps, t.number < s.supply.temps) (hd : destination ≠ .temp context.registers.zero) :
    (∃ k, s' = s.drawn context.frame k 0) ∧ Carries context link bound tac lines := by
  have hresult : ∀ {store : Store} {p : Store × Option Label}, tac.exec? link store = some p →
      ∃ v, value store = some v ∧ destination.write? link store v = some p.1 ∧ p.2 = none := by
    intro store p he
    rw [htac] at he
    obtain ⟨v, hv, he⟩ := Option.bind_eq_some_iff.mp he
    obtain ⟨after, hw, he⟩ := Option.bind_eq_some_iff.mp he
    obtain rfl := Option.some.inj he
    exact ⟨v, hv, hw, rfl⟩
  cases destination with
  | const constant => exact (throw_ne_ok h).elim
  | temp d =>
    obtain ⟨hk, before, operation, rfl, hl, hexec⟩ := hmake s d lines s' h hready.zero_drawn ht
    refine ⟨hk, before, _, rfl, hl, fun store result target hzero he => ?_⟩
    obtain ⟨v, hv, hw, rfl⟩ := hresult he
    obtain rfl := Option.some.inj hw
    obtain ⟨middle, hr, hagree, hop⟩ := hexec store v hzero hv
    refine ⟨middle, _, hr, hop, (hagree.mono hready.bound_le).put d v, ?_⟩
    have hne : context.registers.zero ≠ d := fun hc => hd (by rw [hc])
    simp [Store.put, hne, ← hagree.2 _ hready.zero_drawn, hzero]
  | memory base offset =>
    have h := newTempIn_bind h
    obtain ⟨made, s₂, hm, h⟩ := bind_eq_ok.mp h
    obtain ⟨moved, s₃, hmove, h⟩ := bind_eq_ok.mp h
    obtain ⟨rfl, rfl⟩ := pure_eq_ok.mp h
    obtain ⟨⟨k, rfl⟩, before, operation, rfl, hl, hexec⟩ := hmake _ _ made s₂ hm
      (hready.drawn _ _ _).zero_drawn fun u hu => (ht u hu).trans_le (by simp)
    obtain ⟨⟨l, rfl⟩, before', last, rfl, hl', hcarry⟩ := carries_move link hmove
      ((hready.drawn _ _ _).drawn _ _ _) (fun u hu => by
        simp only [Access.temps, List.mem_append, List.mem_singleton] at hu
        rcases hu with hu | rfl
        · exact (hdestination u (List.mem_append.mpr hu)).trans_le (by simp; omega)
        · simp; omega) (by simp)
    refine ⟨⟨1 + k + l, by simp [Selection.drawn_drawn]⟩, before ++ [context.line operation] ++ before', last,
      by simp, by simp [hl, hl', Context.line], fun store result target hzero he => ?_⟩
    obtain ⟨v, hv, hw, rfl⟩ := hresult he
    obtain ⟨middle, hr, hagree, hop⟩ := hexec store v hzero hv
    have hmade : store.Agree s.supply.temps (middle.put ⟨s.supply.temps⟩ v) :=
      (hagree.mono (by simp)).put_right le_rfl v
    obtain ⟨stored, hw', ha⟩ := hmade.write? hdestination hw
    have hmove : (Tac.move (.memory base offset) (.temp ⟨s.supply.temps⟩)).exec? link
        (middle.put ⟨s.supply.temps⟩ v) = some (stored, none) := by
      have hget : (middle.put ⟨s.supply.temps⟩ v).temps ⟨s.supply.temps⟩ = v := by simp [Store.put]
      simp only [Tac.exec?, Access.value, hget, hw', Option.map_some]
    obtain ⟨middle', after, hr', hop', ha', hzero'⟩ := hcarry _ stored none
      ((hmade.2 _ hready.zero_drawn).symm.trans hzero) hmove
    exact ⟨middle', after, run?_append (run?_append hr (run?_instruction hop)) hr', hop',
      (ha.mono hready.bound_le).trans ha', hzero'⟩

lemma carries_branch {relation : Relation} {lhs rhs : Access} {target : Label} {s s' : Selection}
    {lines : List Line} (h : branch context relation lhs rhs target s = .ok (lines, s'))
    (hready : Ready context.registers bound s) (ht : ∀ t ∈ lhs.temps ++ rhs.temps, t.number < s.supply.temps) :
    (∃ k, s' = s.drawn context.frame k 0) ∧ Carries context link bound (.branch relation lhs rhs target) lines := by
  obtain ⟨⟨left, leftLines⟩, s₁, hl, h⟩ := bind_eq_ok.mp h
  obtain ⟨⟨right, rightLines⟩, s₂, hr, h⟩ := bind_eq_ok.mp h
  obtain ⟨rfl, rfl⟩ := pure_eq_ok.mp h
  have htl : ∀ t ∈ lhs.temps, t.number < s.supply.temps := fun t hm => ht t (List.mem_append_left _ hm)
  have htr : ∀ t ∈ rhs.temps, t.number < s.supply.temps := fun t hm => ht t (List.mem_append_right _ hm)
  obtain ⟨⟨k, rfl⟩, hll, hln, hleft⟩ := reads_register link lhs _ _ _ _ hl hready.zero_drawn htl
  obtain ⟨⟨l, rfl⟩, hlr, -, hright⟩ := reads_register link rhs _ _ _ _ hr
    (hready.drawn _ _ _).zero_drawn fun t hm => (htr t hm).trans_le (by simp)
  refine ⟨⟨k + l, by simp [Selection.drawn_drawn]⟩, leftLines ++ rightLines, _, rfl, by simp [hll, hlr],
    fun store result place hzero he => ?_⟩
  obtain ⟨rfl, rfl⟩ := Prod.mk.inj (Option.some.inj he)
  obtain ⟨one, hr₁, ha₁, hv₁⟩ := hleft store hzero
  obtain ⟨two, hr₂, ha₂, hv₂⟩ := hright one ((ha₁.2 _ hready.zero_drawn).symm.trans hzero)
  have hall := ha₁.trans (ha₂.mono (by simp))
  refine ⟨two, two, run?_append hr₁ hr₂, ?_, hall.mono hready.bound_le,
    (hall.2 _ hready.zero_drawn).symm.trans hzero⟩
  simp only [Operation.exec?, ← ha₂.2 left hln, hv₁, hv₂, ha₁.value link rhs htr]

lemma carries_operation (link : Linkage) {graph : CallGraph} {start : Nat} {tac : Tac} {s s' : Selection}
    {lines : List Line} {saves : List CallSave} (h : operation context graph start tac s = .ok ((lines, saves), s'))
    (hlocal : tac.isLocal) (hready : Ready context.registers bound s) (ht : ∀ t ∈ tac.temps, t.number < bound) :
    (∃ k, s' = s.drawn context.frame k 0) ∧ Carries context link bound tac lines := by
  have hzero : ∀ destination : Access, (∀ t ∈ destination.temps, t.number < bound) →
      destination ≠ .temp context.registers.zero := by
    rintro destination hb rfl
    have := hb context.registers.zero (by simp [Access.temps])
    have := hready.zero_new
    omega
  have hlines : ∀ {select : Select (List Line)},
      (do return (← select, ([] : List CallSave)) : Select _) s = .ok ((lines, saves), s') →
      select s = .ok (lines, s') := by
    intro select h
    obtain ⟨selected, t, hs, h⟩ := bind_eq_ok.mp h
    obtain ⟨rfl, -, rfl⟩ := pure_pair_eq_ok.mp h
    exact hs
  cases tac with
  | move destination source =>
    exact carries_move link (hlines h) hready (hready.lt ht) (hzero _ fun t hm => ht t (List.mem_append_left _ hm))
  | binary operator destination lhs rhs =>
    simp only [Tac.temps, List.append_assoc] at ht
    have htd : ∀ t ∈ destination.temps, t.number < bound := fun t hm => ht t (List.mem_append_left _ hm)
    exact carries_throughTemp (makes_binaryInto operator lhs rhs) (fun _ => rfl) (hlines h) hready (hready.lt htd)
      (hready.lt fun t hm => ht t (List.mem_append_right _ hm)) (hzero _ htd)
  | negate destination operand =>
    have htd : ∀ t ∈ destination.temps, t.number < bound := fun t hm => ht t (List.mem_append_left _ hm)
    refine carries_throughTemp (makes_negateInto operand) (fun store => ?_) (hlines h) hready (hready.lt htd)
      (hready.lt fun t hm => ht t (List.mem_append_right _ hm)) (hzero _ htd)
    simp [Tac.exec?, Option.map_eq_bind]
  | goto target =>
    obtain ⟨rfl, -, rfl⟩ := pure_pair_eq_ok.mp h
    refine ⟨⟨0, (s'.drawn_zero _).symm⟩, [], _, rfl, rfl, fun store result place hz he => ?_⟩
    obtain ⟨rfl, rfl⟩ := Prod.mk.inj (Option.some.inj he)
    exact ⟨store, store, rfl, rfl, .refl _ store, hz⟩
  | branch relation lhs rhs target => exact carries_branch (hlines h) hready (hready.lt ht)
  | call => cases hlocal
  | callRuntime => cases hlocal
  | ret => cases hlocal

end TigerMips.Select
