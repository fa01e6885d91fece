import TigerMips.Proofs.Select.Texts

/-! The size of a text, and two texts one after the other. The lines for a concatenation ask for a block and fill it
with both texts, and those for a size leave the memory as it is. -/

namespace TigerMips

namespace Select

open Machine Memory

variable {context : Context} {link : Linkage} {bound : Nat} {store : Store} {text : List UInt8} {s s' : Selection}
  {lines : List Line}

lemma passes_sizeOf {string : Access} {destination : Option Access} {s s' : Selection} {lines : List Line}
    (h : sizeOf context string destination s = .ok (lines, s')) (hready : Ready context.registers bound s)
    (hstring : Temp.Below bound string.temps) (hd : ∀ place ∈ destination, Temp.Below bound place.temps)
    (hz : store.temps context.registers.zero = 0) (htext : store.memory.HasText (string.value link store) text) :
    ∃ after, Passes link lines store [] after ∧
      store.Delivers link bound store.memory destination (.ofNat text.length) after ∧
      after.temps context.registers.zero = 0 := by
  obtain ⟨⟨temp, reading⟩, s₁, hregister, h⟩ := bind_eq_ok.mp h
  have h := newTempIn_bind h
  obtain ⟨loop, s₃, hloop, h⟩ := bind_eq_ok.mp h
  obtain ⟨ending, s₄, hending, h⟩ := bind_eq_ok.mp h
  obtain ⟨rfl, rfl⟩ := pure_eq_ok.mp h
  obtain ⟨⟨k, rfl⟩, -, -, hread⟩ := reads_register link string _ _ _ _ hregister hready.zero_drawn (hready.lt hstring)
  obtain ⟨read, hrun, hagree, hvalue⟩ := hread store hz
  have hzero := hready.zero_drawn
  obtain ⟨measured, hmeasured, hlength, hmemory, hsame⟩ := passes_measure link hloop (by simp; omega) (by simp)
    (Temp.ne_of_lt (by simp; omega)) ((hagree.2 _ hzero).symm.trans hz) (hvalue ▸ hagree.1 ▸ htext)
  have hold : ∀ u : Temp, u.number < s.supply.temps → measured.temps u = store.temps u := fun u hu =>
    (hsame u ⟨by simp; omega, by simpa using Temp.ne_of_lt (by simp; omega)⟩).trans (hagree.2 u hu).symm
  obtain ⟨-, rfl⟩ := measure_eq_ok hloop
  obtain ⟨after, hstored, hdelivers, hafter⟩ := passes_storeResult link hending
    (((hready.drawn _ _ _).drawn _ _ _).drawn _ _ _) hd (by simp; omega) ((hold _ hzero).trans hz)
    fun u hu => hold u (hu.trans_le hready.bound_le)
  refine ⟨after, ((Passes.of_run? hrun).append hmeasured).append hstored, ?_, hafter⟩
  rwa [hlength, hmemory, ← hagree.1] at hdelivers

structure Joint where
  left : Temp
  right : Temp
  leftSize : Temp
  rightSize : Temp
  size : Temp
  result : Temp
  source : Temp
  target : Temp

namespace Joint

variable (joint : Joint) (context)

def written : List Temp :=
  [context.registers.a0, context.registers.v0, joint.leftSize, joint.rightSize, joint.size, joint.result, joint.source,
    joint.target]

def asking (measureLeft measureRight : List Line) : List Line :=
  measureLeft ++ measureRight ++
    [context.line (.arithmetic .add joint.size joint.leftSize joint.rightSize), increment context joint.size 1] ++
    allocation context joint.size joint.result

def copying (copyLeft copyRight : List Line) : List Line :=
  [context.line (.move joint.target joint.result), context.line (.move joint.source joint.left)] ++ copyLeft ++
    context.line (.move joint.source joint.right) :: copyRight ++
    [storeByte context context.registers.zero joint.target 0]

structure Drawn (n : Nat) : Prop where
  below : Temp.Below n (joint.left :: joint.right :: context.registers.zero :: joint.written context)
  nodup : (context.registers.zero :: joint.written context).Nodup
  left : joint.left ∉ joint.written context
  right : joint.right ∉ joint.written context

variable {joint context} {n : Nat}

namespace Drawn

variable (h : joint.Drawn context n)

include h

lemma later (k : Nat) : joint.Drawn context (n + k) := ⟨h.below.mono (by omega), h.nodup, h.left, h.right⟩

lemma zero : context.registers.zero ∉ joint.written context := (List.nodup_cons.mp h.nodup).1

lemma lt_of_mem {t : Temp} (hm : t ∈ joint.written context) : t.number < n := h.below t (by simp [hm])

lemma zero_ne {t : Temp} (hm : t ∈ joint.written context) : context.registers.zero ≠ t := fun hc => h.zero (hc ▸ hm)

lemma distinct : context.registers.a0 ≠ context.registers.v0 ∧ joint.leftSize ≠ joint.rightSize ∧
    joint.result ∉ [joint.source, joint.target] ∧ joint.source ≠ joint.target := by
  have hne := h.nodup
  simp only [written, List.nodup_cons, List.mem_cons, List.not_mem_nil, or_false, not_or] at hne ⊢
  tauto

variable {a b : Store} (hkept : a.SameBelow n (joint.written context) b)

include hkept

lemma zero_eq : b.temps context.registers.zero = a.temps context.registers.zero :=
  hkept _ ⟨h.below _ (by simp), h.zero⟩

lemma left_eq : b.temps joint.left = a.temps joint.left := hkept _ ⟨h.below _ (by simp), h.left⟩

lemma right_eq : b.temps joint.right = a.temps joint.right := hkept _ ⟨h.below _ (by simp), h.right⟩

end Drawn

variable {measureLeft measureRight copyLeft copyRight : List Line} {s₁ s₂ : Selection} {left right : List UInt8}
  {grant : Interaction}

lemma passes_asking (link : Linkage) (h : joint.Drawn context s.supply.temps)
    (hmeasureLeft : measure context joint.left joint.leftSize s = .ok (measureLeft, s₁))
    (hmeasureRight : measure context joint.right joint.rightSize s₁ = .ok (measureRight, s₂))
    (hz : store.temps context.registers.zero = 0) (hleft : store.memory.HasText (store.temps joint.left) left)
    (hright : store.memory.HasText (store.temps joint.right) right)
    (hgrant : grant.toSystemCall = .grow (.ofNat (left.length + right.length + 1))) :
    ∃ after, Passes link (joint.asking context measureLeft measureRight) store [grant] after ∧
      after.temps joint.result = grant.result ∧ after.memory = store.memory ∧
      store.SameBelow s.supply.temps (joint.written context) after := by
  obtain ⟨hav, hsizes, -⟩ := h.distinct
  have hmem : joint.leftSize ∈ joint.written context ∧ joint.rightSize ∈ joint.written context ∧
    joint.size ∈ joint.written context := by simp [written]
  obtain ⟨-, rfl⟩ := measure_eq_ok hmeasureLeft
  have h' := h.later 2
  obtain ⟨one, hone, hsize₁, hmemory₁, hsame₁⟩ := passes_measure link hmeasureLeft (h.below _ (by simp))
    (h.lt_of_mem hmem.1) (h.zero_ne hmem.1) hz hleft
  have hkept₁ : store.SameBelow s.supply.temps (joint.written context) one := hsame₁.widen le_rfl (by simp [hmem])
  obtain ⟨two, htwo, hsize₂, hmemory₂, hsame₂⟩ := passes_measure link hmeasureRight (h'.below _ (by simp))
    (h'.lt_of_mem hmem.2.1) (h.zero_ne hmem.2.1) ((h.zero_eq hkept₁).trans hz) (by rwa [h.right_eq hkept₁, hmemory₁])
  have hkept₂ := hkept₁.trans (hsame₂.widen (by simp) (by simp [hmem]))
  have hleftSize : two.temps joint.leftSize = .ofNat left.length :=
    (hsame₂ _ ⟨h'.lt_of_mem hmem.1, by simpa using hsizes⟩).trans hsize₁
  let three := two.put joint.size (.ofNat (left.length + right.length + 1))
  have hthree : run? link two [context.line (.arithmetic .add joint.size joint.leftSize joint.rightSize),
      increment context joint.size 1] = some three := by
    simp [run?_cons, Line.pass?, increment, Context.line, Operation.exec?, BinaryOp.eval?, Immediate.value,
      three, Store.put, hleftSize, hsize₂, Int32.ofNat_add]
  have hasked : grant.toSystemCall = .grow (three.temps joint.size) := hgrant.trans (by simp [three, Store.put])
  obtain ⟨four, hfour, hresult, hmemory₄, hsame₄⟩ := passes_allocation link joint.result hav hasked
  exact ⟨four, ((hone.append htwo).append (.of_run? hthree)).append hfour, hresult,
    hmemory₄.trans (hmemory₂.trans hmemory₁),
    (hkept₂.put (fun ht => ht.2 hmem.2.2) _).trans (hsame₄.below_of_subset (by simp [written]))⟩

lemma passes_copying (link : Linkage) (h : joint.Drawn context s.supply.temps)
    (hcopyLeft : copyBytes context joint.source joint.target s = .ok (copyLeft, s₁))
    (hcopyRight : copyBytes context joint.source joint.target s₁ = .ok (copyRight, s₂))
    (hz : store.temps context.registers.zero = 0) (hleft : store.memory.HasText (store.temps joint.left) left)
    (hright : store.memory.HasText (store.temps joint.right) right)
    (hapart₁ : Disjoint (block (store.temps joint.result) (left.length + right.length + 1))
      (block (store.temps joint.left) (left.length + 1)))
    (hapart₂ : Disjoint (block (store.temps joint.result) (left.length + right.length + 1))
      (block (store.temps joint.right) (right.length + 1))) :
    ∃ after, Passes link (joint.copying context copyLeft copyRight) store [] after ∧
      after.temps joint.result = store.temps joint.result ∧
      after.memory = store.memory.storeBytes (store.temps joint.result) (left ++ right ++ [0]) ∧
      store.SameBelow s.supply.temps (joint.written context) after := by
  obtain ⟨-, -, hresult, hst⟩ := h.distinct
  have hmem : joint.source ∈ joint.written context ∧ joint.target ∈ joint.written context ∧
    joint.result ∈ joint.written context := by simp [written]
  obtain ⟨-, rfl⟩ := copyBytes_eq_ok hcopyLeft
  have hnodup : [context.registers.zero, joint.source, joint.target].Nodup := by
    simp [hst, h.zero_ne hmem.1, h.zero_ne hmem.2.1]
  have hbelow : Temp.Below s.supply.temps [context.registers.zero, joint.source, joint.target] := by
    simp [h.lt_of_mem hmem.1, h.lt_of_mem hmem.2.1, h.below context.registers.zero (by simp)]
  let one := (store.put joint.target (store.temps joint.result)).put joint.source (store.temps joint.left)
  have hone : run? link store [context.line (.move joint.target joint.result),
      context.line (.move joint.source joint.left)] = some one := by
    have hne : joint.left ≠ joint.target := fun hc => h.left (by simp [hc, written])
    simp [run?_cons, Line.pass?, Context.line, Operation.exec?, one, Store.put, hne]
  have hsame₁ : store.SameBelow s.supply.temps [joint.source, joint.target] one :=
    ((Store.SameOn.refl store).put (by simp) _).put (by simp) _
  have htarget₁ : one.temps joint.target = store.temps joint.result := by simp [one, Store.put, hst.symm]
  have hsource₁ : one.temps joint.source = store.temps joint.left := by simp [one, Store.put]
  have hzero : ∀ {a : Store}, store.SameBelow s.supply.temps [joint.source, joint.target] a →
      a.temps context.registers.zero = 0 := fun hsame =>
    (h.zero_eq (hsame.widen le_rfl (by simp [hmem]))).trans hz
  obtain ⟨two, htwo, htarget₂, hmemory₂, hsame₂⟩ := passes_copyBytes link hcopyLeft hbelow hnodup (hzero hsame₁)
    (hsource₁ ▸ hleft) (by
      rw [htarget₁, hsource₁]
      exact hapart₁.mono_left (block_subset_block (by omega)))
  rw [htarget₁] at htarget₂ hmemory₂
  have hmemory₂ : two.memory = store.memory.storeBytes (store.temps joint.result) left := hmemory₂
  have hkept₂ := hsame₁.trans hsame₂
  -- The second text is outside of the block.
  let three := two.put joint.source (store.temps joint.right)
  have hthree : run? link two [context.line (.move joint.source joint.right)] = some three := by
    have hright := h.right_eq (hkept₂.widen le_rfl (by simp [hmem]))
    simp [run?_cons, Line.pass?, Context.line, Operation.exec?, three, hright]
  have hsame₃ : store.SameBelow s.supply.temps [joint.source, joint.target] three := hkept₂.put (by simp) _
  have hsource₃ : three.temps joint.source = store.temps joint.right := by simp [three, Store.put]
  have htarget₃ : three.temps joint.target = store.temps joint.result + .ofNat left.length := by
    simp [three, Store.put, hst.symm, htarget₂]
  have hright₃ : three.memory.HasText (store.temps joint.right) right := hright.congr fun a ha => by
    refine (congrFun hmemory₂ a).trans (storeBytes_of_notMem fun hm => ?_)
    exact Set.disjoint_left.mp hapart₂ (block_subset_block (by omega) hm) ha
  obtain ⟨four, hfour, htarget₄, hmemory₄, hsame₄⟩ := passes_copyBytes link hcopyRight (hbelow.mono (by simp)) hnodup
    (hzero hsame₃) (hsource₃ ▸ hright₃) (by
      rw [htarget₃, hsource₃]
      exact hapart₂.mono_left (block_subset (by omega)))
  rw [htarget₃] at htarget₄ hmemory₄
  have hkept₄ := hsame₃.trans (hsame₄.widen (by simp) (List.Subset.refl _))
  let five : Store := { four with memory := four.memory.storeByte (four.temps joint.target) 0 }
  have hfive : run? link four [storeByte context context.registers.zero joint.target 0] = some five := by
    simp [run?_cons, Line.pass?, storeByte, Select.store, Context.line, Operation.exec?, Operation.storeTo, five,
      hzero hkept₄]
  refine ⟨five, ?_, hkept₄ _ ⟨h.lt_of_mem hmem.2.2, hresult⟩, ?_, hkept₄.widen le_rfl (by simp [hmem])⟩
  · have hsecond : Passes link (context.line (.move joint.source joint.right) :: copyRight) two [] four :=
      (Passes.of_run? hthree).append hfour
    exact (((Passes.of_run? hone).append htwo).append hsecond).append (.of_run? hfive)
  · rw [storeBytes_append, storeBytes_append, List.length_append, Int32.ofNat_add, ← Int32.add_assoc,
      ← htarget₄, ← hmemory₂]
    exact congrArg (·.storeByte (four.temps joint.target) 0) hmemory₄

end Joint

lemma passes_concat {first second : Access} {destination : Option Access}
    (h : concat context first second destination s = .ok (lines, s')) (hsettled : Settled context.registers bound s)
    (hfirst : Temp.Below bound first.temps) (hsecond : Temp.Below bound second.temps)
    (hd : ∀ place ∈ destination, Temp.Below bound place.temps) (hz : store.temps context.registers.zero = 0)
    {left right : List UInt8} (hleft : store.memory.HasText (first.value link store) left)
    (hright : store.memory.HasText (second.value link store) right) {grant : Interaction}
    (hgrant : grant.toSystemCall = .grow (.ofNat (left.length + right.length + 1)))
    (hapart₁ : Disjoint (block grant.result (left.length + right.length + 1))
      (block (first.value link store) (left.length + 1)))
    (hapart₂ : Disjoint (block grant.result (left.length + right.length + 1))
      (block (second.value link store) (right.length + 1))) :
    ∃ after, Passes link lines store [grant] after ∧ store.Delivers link bound
      (store.memory.storeBytes grant.result (left ++ right ++ [0])) destination grant.result after ∧
      after.temps context.registers.zero = 0 := by
  have hready := hsettled.ready
  have hzero := hready.zero_drawn
  obtain ⟨hdrawn, habove, hdistinct⟩ := hsettled.calls
  obtain ⟨⟨x, leftLines⟩, s₁, hx, h⟩ := bind_eq_ok.mp h
  obtain ⟨⟨y, rightLines⟩, s₂, hy, h⟩ := bind_eq_ok.mp h
  have h := newTempIn_bind (newTempIn_bind (newTempIn_bind h))
  have h := newTempIn_bind (newTempIn_bind (newTempIn_bind h))
  obtain ⟨measureLeft, s₃, hmeasureLeft, h⟩ := bind_eq_ok.mp h
  obtain ⟨measureRight, s₄, hmeasureRight, h⟩ := bind_eq_ok.mp h
  obtain ⟨asking, s₅, hasking, h⟩ := bind_eq_ok.mp h
  obtain ⟨copyLeft, s₆, hcopyLeft, h⟩ := bind_eq_ok.mp h
  obtain ⟨copyRight, s₇, hcopyRight, h⟩ := bind_eq_ok.mp h
  obtain ⟨ending, s₈, hending, h⟩ := bind_eq_ok.mp h
  obtain ⟨rfl, rfl⟩ := pure_eq_ok.mp h
  -- Both operands are read into temps that no later line writes.
  have hx' := hsettled.register_ne hfirst hx
  obtain ⟨⟨k, rfl⟩, -, hxn, hreadLeft⟩ := reads_register link first _ _ _ _ hx hzero (hready.lt hfirst)
  have hy' := (hsettled.later _ _ _).register_ne hsecond hy
  obtain ⟨⟨l, rfl⟩, -, hyn, hreadRight⟩ := reads_register link second _ _ _ _ hy (hready.drawn _ _ _).zero_drawn
    ((hready.drawn _ _ _).lt hsecond)
  obtain ⟨rfl, rfl⟩ := Prod.mk.inj (Except.ok.inj ((allocate_temp _ _ _).symm.trans hasking))
  obtain ⟨one, hone, hagree₁, hvalue₁⟩ := hreadLeft store hz
  obtain ⟨two, htwo, hagree₂, hvalue₂⟩ := hreadRight one ((hagree₁.2 _ hzero).symm.trans hz)
  have hagree := hagree₁.trans (hagree₂.mono (by simp))
  simp only [Selection.drawn_temps] at *
  let n := s.supply.temps + k + l
  let joint : Joint := ⟨x, y, ⟨n⟩, ⟨n + 1⟩, ⟨n + 2⟩, ⟨n + 3⟩, ⟨n + 4⟩, ⟨n + 5⟩⟩
  have hregisters : Temp.Below n [context.registers.zero, context.registers.a0, context.registers.v0] :=
    Temp.Below.mono (Temp.below_cons.mpr ⟨hzero, hdrawn⟩) (by omega)
  have hnew : ∀ {t : Temp}, t ∉ [context.registers.a0, context.registers.v0] → t.number < n →
      t ∉ joint.written context :=
    fun {t} hne ht => (Temp.notMem_append_fresh hne ht : t ∉ _ ++ Temp.fresh n 6)
  have hjoint : joint.Drawn context (n + 6) := by
    refine ⟨?_, Temp.nodup_append_fresh hdistinct hregisters 6, hnew hx' (t := x) (by omega),
      hnew hy' (t := y) (by omega)⟩
    simp only [Temp.below_cons, Temp.below_nil, and_true] at hregisters
    simp [Joint.written, joint]
    omega
  have hx₂ : two.temps x = first.value link store := (hagree₂.2 x hxn).symm.trans hvalue₁
  have hy₂ : two.temps y = second.value link store :=
    hvalue₂.trans (hagree₁.value link second (hready.lt hsecond)).symm
  obtain ⟨three, hthree, hresult₃, hmemory₃, hsame₃⟩ := joint.passes_asking link hjoint hmeasureLeft hmeasureRight
    ((hagree.2 _ hzero).symm.trans hz) (hx₂ ▸ hagree.1 ▸ hleft) (hy₂ ▸ hagree.1 ▸ hright) hgrant
  obtain ⟨-, rfl⟩ := measure_eq_ok hmeasureLeft
  obtain ⟨-, rfl⟩ := measure_eq_ok hmeasureRight
  obtain ⟨four, hfour, hresult₄, hmemory₄, hsame₄⟩ := joint.passes_copying link (hjoint.later 4) hcopyLeft hcopyRight
    ((hjoint.zero_eq hsame₃).trans ((hagree.2 _ hzero).symm.trans hz)) (by
      rw [hmemory₃, hjoint.left_eq hsame₃, ← hagree.1]
      exact hx₂ ▸ hleft) (by
      rw [hmemory₃, hjoint.right_eq hsame₃, ← hagree.1]
      exact hy₂ ▸ hright) (by
      rw [hresult₃, hjoint.left_eq hsame₃]
      exact hx₂ ▸ hapart₁) (by
      rw [hresult₃, hjoint.right_eq hsame₃]
      exact hy₂ ▸ hapart₂)
  obtain ⟨-, rfl⟩ := copyBytes_eq_ok hcopyLeft
  obtain ⟨-, rfl⟩ := copyBytes_eq_ok hcopyRight
  have hsame := hsame₃.trans (hsame₄.widen (by simp) (List.Subset.refl _))
  have hold : ∀ t : Temp, t.number < bound → four.temps t = store.temps t := fun t ht => by
    have hlt := ht.trans_le hready.bound_le
    have hne : t ∉ [context.registers.a0, context.registers.v0] := fun hm => absurd ht (Nat.not_lt.mpr (habove t hm))
    exact (hsame t ⟨by simp; omega, hnew hne (by omega)⟩).trans (hagree.2 t hlt).symm
  have hzero₄ : four.temps context.registers.zero = 0 :=
    (hjoint.zero_eq hsame).trans ((hagree.2 _ hzero).symm.trans hz)
  have hbound := hready.bound_le
  obtain ⟨after, hafter, hdelivers, hzero'⟩ := passes_storeResult link hending
    ⟨by simp; omega, hready.zero_new, by simp; omega⟩ hd (by simp) hzero₄ hold
  refine ⟨after, ?_, ?_, hzero'⟩
  · have hall := ((((Passes.of_run? hone).append (.of_run? htwo)).append hthree).append hfour).append hafter
    simpa [Joint.asking, Joint.copying, joint] using hall
  · rwa [hresult₄, hresult₃, hmemory₄, hresult₃, hmemory₃, ← hagree.1] at hdelivers

end Select

open Machine Memory Select

namespace Tac.Program

def JoinsAt (program : Tac.Program) (machine : Machine.Program) (position : Nat) (destination : Option Access)
    (first second : Access) : Prop :=
  ∀ (link : Linkage) (address : Nat → Word) (store : Store) (left right : List UInt8) (grant : Interaction),
    store.temps machine.registers.zero = 0 →
    store.memory.HasText (first.value link store) left → store.memory.HasText (second.value link store) right →
    left.length + right.length + 1 < 2 ^ 31 →
    grant.toSystemCall = .grow (.ofNat (left.length + right.length + 1)) →
    Disjoint (block grant.result (left.length + right.length + 1)) (block (first.value link store) (left.length + 1)) →
    Disjoint (block grant.result (left.length + right.length + 1))
    (block (second.value link store) (right.length + 1)) →
    ∃ memory after, program.RunsAt machine position link address store [grant] after ∧
      store.memory.Gains grant.result (left ++ right) memory ∧
      memory.HasText (first.value link store) left ∧ memory.HasText (second.value link store) right ∧
      store.Delivers link program.supply.temps memory destination grant.result after ∧
      after.temps machine.registers.zero = 0

def MeasuresAt (program : Tac.Program) (machine : Machine.Program) (position : Nat) (destination : Option Access)
    (string : Access) : Prop :=
  ∀ (link : Linkage) (address : Nat → Word) (store : Store) (text : List UInt8),
    store.temps machine.registers.zero = 0 → store.memory.HasText (string.value link store) text →
    ∃ after, program.RunsAt machine position link address store [] after ∧
      store.Delivers link program.supply.temps store.memory destination (.ofNat text.length) after ∧
      after.temps machine.registers.zero = 0

variable {program : Tac.Program} {machine : Machine.Program} {position : Nat} {c : Code} {frame : FrameId}
  {destination : Option Access}

namespace Numbered

variable (h : program.Numbered) (hgenerate : program.generate = .ok machine) (hc : program.codes[position]? = some c)

include h hgenerate hc

lemma joinsAt {first second : Access} {rest : List Access}
    (hcall : c.op? = some (frame, .callRuntime destination Runtime.concat.name (first :: second :: rest))) :
    program.JoinsAt machine position destination first second := by
  intro link address store left right grant hz hleft hright hlength hgrant hapart₁ hapart₂
  obtain ⟨s, lines, s', hlines, hsettled, hbelow, hruns⟩ := h.expands hgenerate hc hcall
  obtain ⟨after, hpasses, hdelivers, hzero⟩ := passes_concat hlines hsettled (hbelow first (by simp))
    (hbelow second (by simp)) (fun place hm => hbelow place (by simp [Option.mem_def.mp hm])) hz hleft hright hgrant
    hapart₁ hapart₂
  have hne : ∀ byte ∈ left ++ right, byte ≠ 0 := fun byte hm =>
    (List.mem_append.mp hm).elim (hleft.ne_zero byte) (hright.ne_zero byte)
  have hgains : store.memory.Gains grant.result (left ++ right) _ :=
    gains_storeBytes hne (by rw [List.length_append]; omega)
  rw [← List.length_append] at hapart₁ hapart₂
  exact ⟨_, after, hruns hpasses, hgains, hgains.hasText hleft hapart₁, hgains.hasText hright hapart₂, hdelivers, hzero⟩

lemma measuresAt {string : Access} {rest : List Access}
    (hcall : c.op? = some (frame, .callRuntime destination Runtime.size.name (string :: rest))) :
    program.MeasuresAt machine position destination string := by
  intro link address store text hz htext
  obtain ⟨s, lines, s', hlines, hsettled, hbelow, hruns⟩ := h.expands hgenerate hc hcall
  obtain ⟨after, hpasses, hdelivers, hzero⟩ := passes_sizeOf hlines hsettled.ready (hbelow string (by simp))
    (fun place hm => hbelow place (by simp [Option.mem_def.mp hm])) hz htext
  exact ⟨after, hruns hpasses, hdelivers, hzero⟩

end Numbered

end Tac.Program

/-- Texts of any length are put together and measured. -/
theorem joinsAt_measuresAt_generate {program : Tac.Program} {machine : Machine.Program}
    (hgenerate : program.generate = .ok machine) (h : program.Numbered) {position : Nat} {c : Code}
    (hc : program.codes[position]? = some c) (frame : FrameId) (destination : Option Access) :
    (∀ first second rest,
      c.op? = some (frame, .callRuntime destination Runtime.concat.name (first :: second :: rest)) →
        program.JoinsAt machine position destination first second) ∧
    (∀ string rest, c.op? = some (frame, .callRuntime destination Runtime.size.name (string :: rest)) →
      program.MeasuresAt machine position destination string) :=
  ⟨fun _ _ _ => h.joinsAt hgenerate hc, fun _ _ => h.measuresAt hgenerate hc⟩

def doubledText : Expr :=
  .letIn {} [.var { name := "s" } none (.string {} "ab")]
    [.call {} { name := "size" } [.call {} { name := "concat" }
      [.lvalue {} (.var {} { name := "s" }), .lvalue {} (.var {} { name := "s" })]]]

theorem doubledText_joined : (analyze doubledText).1 = [] ∧
    ∃ machine, (analyze doubledText).2.generate = .ok machine ∧
      (let store : Store := ⟨fun _ => 0, storeBytes (fun _ => 0) 0 [97, 98, 0]⟩
      let grant : Interaction := { SystemCall.grow 5 with result := 16, memory := store.memory }
      ∃ memory after, (analyze doubledText).2.RunsAt machine 1 default (fun _ => 0) store [grant] after ∧
        store.memory.Gains 16 [97, 98, 97, 98] memory ∧ memory.HasText 0 [97, 98] ∧
        store.Delivers default 4 memory (some (.temp ⟨2⟩)) 16 after) ∧
      (analyze doubledText).2.MeasuresAt machine 2 (some (.temp ⟨3⟩)) (.temp ⟨2⟩) := by
  have hclean : (analyze doubledText).1 = [] := List.isEmpty_iff.mp (by decide +kernel)
  have hcodes : (analyze doubledText).2.codes[1]? = some (.op ⟨0⟩ (.callRuntime (some (.temp ⟨2⟩)) "concat"
      [.temp ⟨1⟩, .temp ⟨1⟩])) ∧ (analyze doubledText).2.codes[2]? =
        some (.op ⟨0⟩ (.callRuntime (some (.temp ⟨3⟩)) "size"
      [.temp ⟨2⟩])) := by decide +kernel
  obtain ⟨machine, hgenerate, -⟩ := Select.generate_ok (selectable_analyze hclean)
  have hnumbered := numbered_analyze hclean
  refine ⟨hclean, machine, hgenerate, ?_,
    (joinsAt_measuresAt_generate hgenerate hnumbered hcodes.2 ⟨0⟩ _).2 _ [] rfl⟩
  intro store grant
  have hbytes : ∀ byte ∈ ([97, 98] : List UInt8), byte ≠ 0 := by simp
  have htext : store.memory.HasText 0 [97, 98] := hasText_storeBytes hbytes (by decide)
  have hapart : Disjoint (block grant.result 5) (block (0 : Word) 3) :=
    (disjoint_block (0 : Word) (i := 0) (m := 3) (j := 16) (n := 5) (by decide) (by decide)).symm
  have hsupply : (analyze doubledText).2.supply.temps = 4 := by decide +kernel
  obtain ⟨memory, after, hruns, hgains, hleft, -, hdelivers, -⟩ :=
    (joinsAt_measuresAt_generate hgenerate hnumbered hcodes.1 ⟨0⟩ _).1 _ _ [] rfl default (fun _ => 0) store [97, 98]
      [97, 98] grant rfl htext htext (by decide) rfl hapart hapart
  exact ⟨memory, after, hruns, hgains, hleft, hsupply ▸ hdelivers⟩

end TigerMips
