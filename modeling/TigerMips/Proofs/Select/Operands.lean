import TigerMips.Proofs.Machine.Step
import TigerMips.Proofs.Select.Basic
import TigerMips.Proofs.Tac.Step

/-! The lines that read an operand leave its value in a temp, and change nothing but new temps. -/

namespace TigerMips

def Store.Agree (bound : Nat) (a b : Store) : Prop :=
  a.memory = b.memory ∧ ∀ t : Temp, t.number < bound → a.temps t = b.temps t

namespace Store.Agree

variable {m n : Nat} {a b c : Store}

lemma refl (n : Nat) (a : Store) : Agree n a a := ⟨rfl, fun _ _ => rfl⟩

lemma trans (hab : Agree n a b) (hbc : Agree n b c) : Agree n a c :=
  ⟨hab.1.trans hbc.1, fun t ht => (hab.2 t ht).trans (hbc.2 t ht)⟩

lemma mono (hmn : m ≤ n) (h : Agree n a b) : Agree m a b := ⟨h.1, fun t ht => h.2 t (by omega)⟩

lemma put (h : Agree n a b) (t : Temp) (v : Word) : Agree n (a.put t v) (b.put t v) := by
  refine ⟨h.1, fun u hu => ?_⟩
  by_cases ht : u = t <;> simp [Store.put, ht, h.2 u hu]

lemma put_right (h : Agree n a b) {t : Temp} (ht : n ≤ t.number) (v : Word) : Agree n a (b.put t v) := by
  refine ⟨h.1, fun u hu => ?_⟩
  have hne : u ≠ t := by
    rintro rfl
    omega
  simp [Store.put, hne, h.2 u hu]

lemma value (h : Agree n a b) (link : Linkage) (access : Access) (ht : ∀ t ∈ access.temps, t.number < n) :
    access.value link a = access.value link b := by
  induction access with
  | temp t => exact h.2 t (ht t (by simp [Access.temps]))
  | const constant => rfl
  | memory base offset ihb iho =>
    simp only [Access.temps, List.mem_append] at ht
    simp only [Access.value, h.1, ihb fun t hm => ht t (Or.inl hm), iho fun t hm => ht t (Or.inr hm)]

lemma write? {link : Linkage} (h : Agree n a b) {access : Access} (ht : ∀ t ∈ access.temps, t.number < n)
    {v : Word} {result : Store} (hw : access.write? link a v = some result) :
    ∃ result', access.write? link b v = some result' ∧ Agree n result result' := by
  cases access with
  | temp t =>
    obtain rfl := Option.some.inj hw
    exact ⟨_, rfl, h.put t v⟩
  | const constant => cases hw
  | memory base offset =>
    obtain rfl := Option.some.inj hw
    have hb := h.value link base fun t hm => ht t (List.mem_append_left _ hm)
    have ho := h.value link offset fun t hm => ht t (List.mem_append_right _ hm)
    exact ⟨_, rfl, by simp only [hb, ho, h.1], h.2⟩

lemma exec? {link : Linkage} (h : Agree n a b) {tac : Tac} (ht : ∀ t ∈ tac.temps, t.number < n)
    {result : Store} {target : Option Label} (he : tac.exec? link a = some (result, target)) :
    ∃ result', tac.exec? link b = some (result', target) ∧ Agree n result result' := by
  cases tac with
  | move destination source =>
    obtain ⟨after, hw, he⟩ := Option.map_eq_some_iff.mp he
    obtain ⟨rfl, rfl⟩ := Prod.mk.inj he
    obtain ⟨after', hw', ha⟩ := h.write? (fun t hm => ht t (List.mem_append_left _ hm)) hw
    rw [h.value link source fun t hm => ht t (List.mem_append_right _ hm)] at hw'
    exact ⟨after', by simp [Tac.exec?, hw'], ha⟩
  | binary operator destination lhs rhs =>
    simp only [Tac.temps, List.mem_append, or_imp, forall_and] at ht
    obtain ⟨v, hv, he⟩ := Option.bind_eq_some_iff.mp he
    obtain ⟨after, hw, he⟩ := Option.bind_eq_some_iff.mp he
    obtain ⟨rfl, rfl⟩ := Prod.mk.inj (Option.some.inj he)
    obtain ⟨after', hw', ha⟩ := h.write? ht.1.1 hw
    rw [h.value link lhs ht.1.2, h.value link rhs ht.2] at hv
    exact ⟨after', by simp [Tac.exec?, hv, hw'], ha⟩
  | negate destination operand =>
    obtain ⟨after, hw, he⟩ := Option.map_eq_some_iff.mp he
    obtain ⟨rfl, rfl⟩ := Prod.mk.inj he
    obtain ⟨after', hw', ha⟩ := h.write? (fun t hm => ht t (List.mem_append_left _ hm)) hw
    rw [h.value link operand fun t hm => ht t (List.mem_append_right _ hm)] at hw'
    exact ⟨after', by simp [Tac.exec?, hw'], ha⟩
  | goto place =>
    obtain ⟨rfl, rfl⟩ := Prod.mk.inj (Option.some.inj he)
    exact ⟨b, rfl, h⟩
  | branch relation lhs rhs place =>
    obtain ⟨rfl, rfl⟩ := Prod.mk.inj (Option.some.inj he)
    rw [h.value link lhs fun t hm => ht t (List.mem_append_left _ hm),
      h.value link rhs fun t hm => ht t (List.mem_append_right _ hm)]
    exact ⟨b, rfl, h⟩
  | call => cases he
  | callRuntime => cases he
  | ret => cases he

end Store.Agree

namespace Select

open Machine

variable {context : Context} {link : Linkage}

lemma value?_eq_some {constant : Const} {v : Word} (h : value? constant = some v) : constant.value link = v := by
  cases constant with
  | int value => exact Option.some.inj h
  | wordLength => exact Option.some.inj h
  | string label => cases h

lemma exec?_loadConstant (store : Store) (t : Temp) (constant : Const) :
    (loadConstant t constant).exec? link store = some (store.put t (constant.value link), none) := by
  cases constant <;> rfl

def Computes (context : Context) (link : Linkage) (bound : Nat) (lines : List Line)
    (post : Store → Store → Prop) : Prop :=
  ∀ store, store.temps context.registers.zero = 0 →
    ∃ after, run? link store lines = some after ∧ store.Agree bound after ∧ post store after

lemma Computes.nil {bound : Nat} {post : Store → Store → Prop}
    (h : ∀ store, store.temps context.registers.zero = 0 → post store store) :
    Computes context link bound [] post :=
  fun store hz => ⟨store, rfl, .refl bound store, h store hz⟩

def Reads (context : Context) (link : Linkage) (access : Access) (read : Select (Temp × List Line)) : Prop :=
  ∀ s t lines s', read s = .ok ((t, lines), s') → context.registers.zero.number < s.supply.temps →
    (∀ u ∈ access.temps, u.number < s.supply.temps) →
    (∃ k, s' = s.drawn context.frame k 0) ∧ Line.labels lines = [] ∧ t.number < s'.supply.temps ∧
    Computes context link s.supply.temps lines fun store after => after.temps t = access.value link store

def Locates (context : Context) (link : Linkage) (base offset : Access)
    (locate : Select (Address × List Line)) : Prop :=
  ∀ s place lines s', locate s = .ok ((place, lines), s') → context.registers.zero.number < s.supply.temps →
    (∀ u ∈ base.temps ++ offset.temps, u.number < s.supply.temps) →
    (∃ k, s' = s.drawn context.frame k 0) ∧ Line.labels lines = [] ∧ place.base.number < s'.supply.temps ∧
    Computes context link s.supply.temps lines fun store after =>
      after.temps place.base + place.offset = base.value link store + offset.value link store

lemma directAddress?_value (link : Linkage) {base offset : Access} {place : Address} {store : Store}
    (h : directAddress? context.registers.zero base offset = some place)
    (hz : store.temps context.registers.zero = 0) :
    (place.base = context.registers.zero ∨ place.base ∈ base.temps ++ offset.temps) ∧
      store.temps place.base + place.offset = base.value link store + offset.value link store := by
  unfold directAddress? at h
  split at h
  · obtain ⟨v, hv, rfl⟩ := Option.map_eq_some_iff.mp h
    simp [Access.temps, Access.value, value?_eq_some hv]
  · obtain ⟨v, hv, rfl⟩ := Option.map_eq_some_iff.mp h
    simp [Access.temps, Access.value, value?_eq_some hv, Int32.add_comm]
  · rename_i left right
    obtain ⟨v, hv, h⟩ := Option.bind_eq_some_iff.mp h
    obtain ⟨w, hw, h⟩ := Option.bind_eq_some_iff.mp h
    obtain rfl := Option.some.inj h
    simp [Access.value, value?_eq_some hv, value?_eq_some hw, hz]
  · cases h

lemma locates_addressBy {base offset : Access} {readBase readOffset : Select (Temp × List Line)}
    (hbase : Reads context link base readBase) (hoffset : Reads context link offset readOffset) :
    Locates context link base offset (addressBy context base offset readBase readOffset) := by
  intro s place lines s' h hz ht
  unfold addressBy at h
  cases hd : directAddress? context.registers.zero base offset with
  | some direct =>
    rw [hd] at h
    obtain ⟨rfl, rfl, rfl⟩ := pure_pair_eq_ok.mp h
    refine ⟨⟨0, (s'.drawn_zero _).symm⟩, rfl, ?_, Computes.nil fun store hzero =>
      (directAddress?_value link hd hzero).2⟩
    have hzero : (⟨fun _ => 0, fun _ => 0⟩ : Store).temps context.registers.zero = 0 := rfl
    rcases (directAddress?_value link hd hzero).1 with hb | hb
    · rwa [hb]
    · exact ht _ hb
  | none =>
    rw [hd] at h
    obtain ⟨⟨b, baseLines⟩, s₁, hb, h⟩ := bind_eq_ok.mp h
    obtain ⟨⟨o, offsetLines⟩, s₂, ho, h⟩ := bind_eq_ok.mp h
    have h := newTempIn_bind h
    obtain ⟨rfl, rfl, rfl⟩ := pure_pair_eq_ok.mp h
    have htb : ∀ u ∈ base.temps, u.number < s.supply.temps := fun u hu => ht u (List.mem_append_left _ hu)
    have hto : ∀ u ∈ offset.temps, u.number < s.supply.temps := fun u hu => ht u (List.mem_append_right _ hu)
    obtain ⟨⟨k, rfl⟩, hbl, hbn, hbase⟩ := hbase s b baseLines s₁ hb hz htb
    obtain ⟨⟨l, rfl⟩, hol, hon, hoffset⟩ := hoffset _ o offsetLines s₂ ho (by simp; omega)
      fun u hu => by have := hto u hu; simp; omega
    refine ⟨⟨k + l + 1, by simp [Selection.drawn_drawn]⟩, by simp [hbl, hol, Context.line], by simp,
      fun store hzero => ?_⟩
    obtain ⟨one, hr₁, ha₁, hv₁⟩ := hbase store hzero
    obtain ⟨two, hr₂, ha₂, hv₂⟩ := hoffset one ((ha₁.2 _ hz).symm.trans hzero)
    have hsum : two.temps b + two.temps o = base.value link store + offset.value link store := by
      rw [hv₂, ← ha₂.2 b hbn, hv₁, ha₁.value link offset hto]
    refine ⟨two.put ⟨s.supply.temps + k + l⟩ (two.temps b + two.temps o),
      run?_append (run?_append hr₁ hr₂) (run?_instruction rfl),
      (ha₁.trans (ha₂.mono (by simp))).put_right (by simp only [Nat.add_assoc]; omega) _, ?_⟩
    simp [Store.put, hsum]

lemma reads_register (link : Linkage) (access : Access) : Reads context link access (register context access) := by
  induction access with
  | temp u =>
    intro s t lines s' h hz ht
    obtain ⟨rfl, rfl, rfl⟩ := pure_pair_eq_ok.mp h
    exact ⟨⟨0, (s'.drawn_zero _).symm⟩, rfl, ht t (by simp [Access.temps]), Computes.nil fun store _ => rfl⟩
  | const constant =>
    intro s t lines s' h hz ht
    by_cases hc : constant = .int 0
    · simp only [register, if_pos hc] at h
      obtain ⟨rfl, rfl, rfl⟩ := pure_pair_eq_ok.mp h
      exact ⟨⟨0, (s'.drawn_zero _).symm⟩, rfl, hz,
        Computes.nil fun store hzero => by simp [hc, hzero, Access.value, Const.value]⟩
    · simp only [register, if_neg hc] at h
      have h := newTempIn_bind h
      obtain ⟨rfl, rfl, rfl⟩ := pure_pair_eq_ok.mp h
      refine ⟨⟨1, rfl⟩, rfl, by simp, fun store _ => ?_⟩
      refine ⟨_, run?_instruction (exec?_loadConstant store _ constant),
        (Store.Agree.refl _ store).put_right (by simp) _, ?_⟩
      simp [Store.put, Access.value]
  | memory base offset ihb iho =>
    intro s t lines s' h hz ht
    simp only [register] at h
    have h := newTempIn_bind h
    obtain ⟨⟨place, addressLines⟩, s₁, ha, h⟩ := bind_eq_ok.mp h
    obtain ⟨rfl, rfl, rfl⟩ := pure_pair_eq_ok.mp h
    obtain ⟨⟨k, rfl⟩, hl, hbn, hlocate⟩ := locates_addressBy ihb iho _ place addressLines _ ha (by simp; omega)
      fun v hv => by have := ht v hv; simp; omega
    refine ⟨⟨1 + k, by simp [Selection.drawn_drawn]⟩, by simp [hl, Context.line], by simp; omega, fun store hzero => ?_⟩
    obtain ⟨after, hr, hagree, hv⟩ := hlocate store hzero
    refine ⟨_, run?_append hr (run?_instruction rfl), (hagree.mono (by simp)).put_right (by simp) _, ?_⟩
    simp [Store.put, Operation.loadFrom, hv, Access.value, hagree.1]

lemma locates_address (link : Linkage) (base offset : Access) :
    Locates context link base offset (address context base offset) :=
  locates_addressBy (reads_register link base) (reads_register link offset)

end Select

end TigerMips
