import TigerMips.Proofs.Analysis.Tracing
import TigerMips.Proofs.Tac.ForLoop

/-! The for loops of a program, and the operations that write their temps. A program cannot assign to the counter of a
loop or to its bound, at whatever depth of functions and scopes. -/

namespace TigerMips

def ForLoop.ofLowered (frame : FrameId) (low high inside : Lowered × Analyzer) : ForLoop where
  frame
  head := ⟨inside.2.supply.labels⟩
  exit := ⟨high.2.supply.labels⟩
  counter := ⟨high.2.supply.temps⟩
  bound := ⟨inside.2.supply.temps⟩
  -- Both bounds of a loop without errors have a place.
  first := low.1.place.getD (.int 0)
  last := high.1.place.getD (.int 0)
  body := inside.1.code

namespace ForLoop

def collector : Collector ForLoop where
  loop frame _ low high inside := [.ofLowered frame low high inside]
  binding _ _ _ := []
  params _ := []

variable (frame : FrameId) (name : Ident) (temp : Temp) (low high inside : Lowered × Analyzer)
    (declared : Analysis.Declared)

@[simp] lemma collector_loop : collector.loop frame name low high inside = [.ofLowered frame low high inside] := rfl

@[simp] lemma collector_binding : collector.binding frame name temp = [] := rfl

@[simp] lemma collector_params : collector.params declared = [] := rfl

end ForLoop

abbrev Expr.forLoops (expression : Expr) (s : Analyzer) : List ForLoop := ForLoop.collector.expr expression s

namespace Code

def writers (codes : List Code) (temp : Temp) : Nat := (ops codes).countP (·.2.destination? = some (.temp temp))

variable (temp : Temp) (place : Label) (frame : FrameId) (tac : Tac) (codes rest : List Code)

@[simp] lemma writers_nil : writers [] temp = 0 := rfl

@[simp] lemma writers_append : writers (codes ++ rest) temp = writers codes temp + writers rest temp := by
  simp [writers]

@[simp] lemma writers_label : writers (label place :: rest) temp = writers rest temp := rfl

@[simp] lemma writers_op : writers (op frame tac :: rest) temp =
    writers rest temp + if tac.destination? = some (.temp temp) then 1 else 0 := by
  simp [writers, List.countP_cons]

@[simp] lemma writers_labeled : writers (labeled place frame tac :: rest) temp =
    writers rest temp + if tac.destination? = some (.temp temp) then 1 else 0 := by
  simp [writers, List.countP_cons]

variable {temp codes}

lemma writers_pos : 0 < writers codes temp ↔ ∃ op ∈ ops codes, op.2.destination? = some (.temp temp) := by
  simp [writers, List.countP_pos_iff]

end Code

namespace ForLoop

open Code

/-- Code writes temps that are writable where it starts, or that are new. The temps of the loops in it are new, are
written by these loops alone, and are not writable where it ends. -/
structure Guards (writable writable' : Nat → Prop) (low high : Nat) (codes : List Code) (loops : List ForLoop) :
    Prop where
  scope : ∀ n, writable' n → writable n ∨ low ≤ n
  written : ∀ temp, 0 < writers codes temp → temp.number < high ∧ (writable temp.number ∨ low ≤ temp.number)
  fresh : ∀ loop ∈ loops, low ≤ loop.counter.number ∧ loop.counter.number < loop.bound.number ∧ loop.bound.number < high
  hidden : ∀ loop ∈ loops, ¬ writable' loop.counter.number ∧ ¬ writable' loop.bound.number
  counted : ∀ loop ∈ loops, writers codes loop.counter = 2 ∧ writers codes loop.bound = 1

structure Placed (frames : Arena .frame Frame) (loop : ForLoop) : Prop where
  counter : Frame.Stores frames loop.frame loop.counter
  bound : Frame.Stores frames loop.frame loop.bound
  notMem : loop.counter ∉ loop.last.temps

abbrev AllPlaced (frames : Arena .frame Frame) (codes : List Code) (loops : List ForLoop) : Prop :=
  List.AllWithin (Placed frames) code codes loops

namespace Guards

variable {U V W : Nat → Prop} {k m n : Nat} {codes rest whole : List Code} {loops others : List ForLoop}

lemma own (hs : ∀ k, W k → V k ∨ m ≤ k)
    (h : ∀ op ∈ ops codes, ∀ temp, op.2.destination? = some (.temp temp) →
      temp.number < n ∧ (V temp.number ∨ m ≤ temp.number)) : Guards V W m n codes [] where
  scope := hs
  written temp ht := by
    obtain ⟨op, hm, hw⟩ := writers_pos.mp ht
    exact h op hm temp hw
  fresh := by simp
  hidden := by simp
  counted := by simp

lemma append (h : Guards U V k m codes loops) (h' : Guards V W m n rest others) (hkm : k ≤ m) (hmn : m ≤ n) :
    Guards U W k n (codes ++ rest) (loops ++ others) := by
  -- What the first part has drawn is not written by the second one, and the other way round.
  have hsecond : ∀ temp : Temp, temp.number < m → ¬ V temp.number → writers rest temp = 0 := fun temp hlt hv => by
    by_contra hne
    rcases (h'.written temp (Nat.pos_of_ne_zero hne)).2 with hw | hle
    · exact hv hw
    · omega
  have hfirst : ∀ temp : Temp, m ≤ temp.number → writers codes temp = 0 := fun temp hle => by
    by_contra hne
    have := (h.written temp (Nat.pos_of_ne_zero hne)).1
    omega
  have hclosed : ∀ i, i < m → ¬ V i → ¬ W i := fun i hlt hv hw => (h'.scope i hw).elim hv (by omega)
  constructor
  · intro i hi
    rcases h'.scope i hi with hv | hle
    · exact h.scope i hv
    · exact Or.inr (hkm.trans hle)
  · intro temp ht
    rw [writers_append] at ht
    rcases Nat.eq_zero_or_pos (writers codes temp) with hz | hpos
    · obtain ⟨hlt, hv | hle⟩ := h'.written temp (by omega)
      · exact ⟨hlt, h.scope _ hv⟩
      · exact ⟨hlt, Or.inr (hkm.trans hle)⟩
    · obtain ⟨hlt, hw⟩ := h.written temp hpos
      exact ⟨hlt.trans_le hmn, hw⟩
  · intro loop hm
    rcases List.mem_append.mp hm with hm | hm
    · have := h.fresh loop hm
      omega
    · have := h'.fresh loop hm
      omega
  · intro loop hm
    rcases List.mem_append.mp hm with hm | hm
    · have hf := h.fresh loop hm
      have hh := h.hidden loop hm
      exact ⟨hclosed _ (by omega) hh.1, hclosed _ (by omega) hh.2⟩
    · exact h'.hidden loop hm
  · intro loop hm
    simp only [writers_append]
    rcases List.mem_append.mp hm with hm | hm
    · have hf := h.fresh loop hm
      have hh := h.hidden loop hm
      rw [hsecond _ (by omega) hh.1, hsecond _ (by omega) hh.2]
      exact h.counted loop hm
    · have hf := h'.fresh loop hm
      rw [hfirst _ hf.1, hfirst _ (by omega), Nat.zero_add, Nat.zero_add]
      exact h'.counted loop hm

lemma of_writers (h : Guards V W m n codes loops) (hw : ∀ temp, writers whole temp = writers codes temp) :
    Guards V W m n whole loops :=
  ⟨h.scope, fun temp => hw temp ▸ h.written temp, h.fresh, h.hidden, fun loop hm => by
    rw [hw, hw]
    exact h.counted loop hm⟩

lemma widen {V' W' : Nat → Prop} {m' n' : Nat} (h : Guards V W m n codes loops) (hw : ∀ k, V k → V' k ∨ m' ≤ k)
    (hs : ∀ k, W' k → V' k ∨ m' ≤ k) (hh : ∀ k, W' k → W k ∨ k < m) (hm : m' ≤ m) (hn : n ≤ n') :
    Guards V' W' m' n' codes loops where
  scope := hs
  written temp ht := by
    obtain ⟨hlt, hv | hle⟩ := h.written temp ht
    · exact ⟨hlt.trans_le hn, hw _ hv⟩
    · exact ⟨hlt.trans_le hn, Or.inr (hm.trans hle)⟩
  fresh loop hl := by
    have := h.fresh loop hl
    omega
  hidden loop hl := by
    have hf := h.fresh loop hl
    have hhidden := h.hidden loop hl
    exact ⟨fun hc => (hh _ hc).elim hhidden.1 (by omega), fun hc => (hh _ hc).elim hhidden.2 (by omega)⟩
  counted := h.counted

lemma enclose {V' : Nat → Prop} (h : Guards V W m n codes loops) (hw : ∀ k, V k → V' k) (hb : ∀ k, V' k → k < m) :
    Guards V' V' m n codes loops :=
  h.widen (fun k hv => Or.inl (hw k hv)) (fun _ => Or.inl) (fun k hv => Or.inr (hb k hv)) le_rfl le_rfl

lemma finish (own : List Code) (h : Guards U V k m codes loops) (hkm : k ≤ m) (hmn : m ≤ n)
    (hs : ∀ k, W k → V k ∨ m ≤ k) (ho : ∀ op ∈ ops own, ∀ temp, op.2.destination? = some (.temp temp) →
      temp.number < n ∧ (V temp.number ∨ m ≤ temp.number))
    (hw : ∀ temp, writers whole temp = writers codes temp + writers own temp) : Guards U W k n whole loops := by
  have happend := h.append (.own hs ho) hkm hmn
  rw [List.append_nil] at happend
  exact happend.of_writers fun temp => by rw [hw, writers_append]

lemma forCode (h : Guards V V (m + 1) n codes loops) (hv : ∀ k, V k → k < m) (hle : m + 1 ≤ n) {loop : ForLoop}
    (hc : loop.counter = ⟨m⟩) (hb : loop.bound = ⟨n⟩) (hbody : loop.body = codes) :
    Guards V V m (n + 1) loop.code (loop :: loops) := by
  have hcount : ∀ temp, writers loop.code temp = writers codes temp + (if ⟨m⟩ = temp then 2 else 0) +
      if ⟨n⟩ = temp then 1 else 0 := fun temp => by
    simp only [code, Analysis.forCode, hc, hb, hbody, writers_append, writers_op, writers_labeled, writers_label,
      writers_nil, Tac.destination?, Option.some.injEq, Access.temp.injEq, reduceCtorEq, if_false]
    split_ifs <;> omega
  have hcounter : writers codes ⟨m⟩ = 0 := by
    by_contra hne
    obtain ⟨-, hw | hw⟩ := h.written ⟨m⟩ (Nat.pos_of_ne_zero hne)
    · exact absurd (hv m hw) (Nat.lt_irrefl m)
    · exact absurd hw (Nat.not_succ_le_self m)
  have hbound : writers codes ⟨n⟩ = 0 := by
    by_contra hne
    exact absurd (h.written ⟨n⟩ (Nat.pos_of_ne_zero hne)).1 (Nat.lt_irrefl n)
  have hne : m ≠ n := by omega
  constructor
  · exact fun _ => Or.inl
  · intro temp ht
    rw [hcount] at ht
    by_cases hm : (⟨m⟩ : Temp) = temp
    · subst hm
      exact ⟨Nat.lt_succ_of_lt hle, Or.inr le_rfl⟩
    · by_cases hn : (⟨n⟩ : Temp) = temp
      · subst hn
        exact ⟨Nat.lt_succ_self n, Or.inr (Nat.le_of_lt hle)⟩
      · obtain ⟨hlt, hw⟩ := h.written temp (by simpa [hm, hn] using ht)
        exact ⟨hlt.trans (Nat.lt_succ_self n), hw.imp_right Nat.le_of_succ_le⟩
  · refine List.forall_mem_cons.mpr ⟨by rw [hc, hb]; exact ⟨le_rfl, hle, Nat.lt_succ_self n⟩, fun other hm => ?_⟩
    have := h.fresh other hm
    omega
  · refine List.forall_mem_cons.mpr ⟨?_, h.hidden⟩
    rw [hc, hb]
    exact ⟨fun hw => absurd (hv m hw) (Nat.lt_irrefl m), fun hw => absurd (hv n hw) (by omega)⟩
  · refine List.forall_mem_cons.mpr ⟨?_, fun other hm => ?_⟩
    · rw [hcount, hcount, hc, hb, hcounter, hbound]
      simp [hne, hne.symm]
    · have hf := h.fresh other hm
      have hother : ∀ temp : Temp, m < temp.number → temp.number < n → writers loop.code temp = writers codes temp := by
        intro temp hlow hhigh
        have hnm : (⟨m⟩ : Temp) ≠ temp := fun hc => by
          subst hc
          exact Nat.lt_irrefl m hlow
        have hnn : (⟨n⟩ : Temp) ≠ temp := fun hc => by
          subst hc
          exact Nat.lt_irrefl n hhigh
        simp [hcount, hnm, hnn]
      rw [hother _ (by omega) (by omega), hother _ (by omega) (by omega)]
      exact h.counted other hm

end Guards

lemma AllPlaced.later {frames frames' : Arena .frame Frame} {codes : List Code} {loops : List ForLoop}
    (h : AllPlaced frames codes loops) (hf : frames.Grows Frame.Grows frames') : AllPlaced frames' codes loops :=
  h.imp fun _ hp => ⟨hp.counter.mono hf, hp.bound.mono hf, hp.notMem⟩

lemma join {U V W : Nat → Prop} {k m n : Nat} {codes rest : List Code} {loops others : List ForLoop}
    {frames frames' : Arena .frame Frame} (h : Guards U V k m codes loops ∧ AllPlaced frames codes loops)
    (h' : Guards V W m n rest others ∧ AllPlaced frames' rest others) (hkm : k ≤ m) (hmn : m ≤ n)
    (hf : frames.Grows Frame.Grows frames') :
    Guards U W k n (codes ++ rest) (loops ++ others) ∧ AllPlaced frames' (codes ++ rest) (loops ++ others) :=
  ⟨h.1.append h'.1 hkm hmn, (h.2.later hf).join h'.2⟩

end ForLoop

namespace Analyzer

def Writable (s : Analyzer) (n : Nat) : Prop :=
  ∃ name info, s.values.Binds name (.var info) ∧ info.assignable = true ∧ info.place.number = n

abbrev Guarded (s t : Analyzer) (codes : List Code) (loops : List ForLoop) : Prop :=
  ForLoop.Guards s.Writable t.Writable s.supply.temps t.supply.temps codes loops

variable {s t u : Analyzer} {codes whole : List Code} {loops : List ForLoop}

lemma Drawn.lt (h : s.Drawn) {n : Nat} (hw : s.Writable n) : n < s.supply.temps := by
  obtain ⟨name, info, hb, -, rfl⟩ := hw
  exact h name info hb

lemma Keeps.writable (h : s.Keeps t) : t.Writable = s.Writable := by
  unfold Writable
  rw [h.values]

lemma Writable.open {isFunction : Bool} {n : Nat}
    (h : Writable { s with values := { s.values with inner := { bindings := [], isFunction } :: s.values.inner } } n) :
    s.Writable n := by
  obtain ⟨name, info, hb, ha, hn⟩ := h
  exact ⟨name, info, ScopeStack.binds_open hb, ha, hn⟩

namespace Guarded

lemma own (hk : s.Keeps t) (h : ∀ op ∈ Code.ops codes, ∀ temp, op.2.destination? = some (.temp temp) →
    temp.number < t.supply.temps ∧ s.supply.temps ≤ temp.number) : s.Guarded t codes [] :=
  ForLoop.Guards.own (fun _ hw => Or.inl (hk.writable ▸ hw)) fun op hm temp hw => (h op hm temp hw).imp_right Or.inr

lemma nil (hk : s.Keeps t) : s.Guarded t [] [] := own hk (by simp)

lemma finish (own : List Code) (h : s.Guarded t codes loops) (hle : s.supply.temps ≤ t.supply.temps) (hk : t.Keeps u)
    (ho : ∀ op ∈ Code.ops own, ∀ temp, op.2.destination? = some (.temp temp) →
      temp.number < u.supply.temps ∧ t.supply.temps ≤ temp.number)
    (hw : ∀ temp, Code.writers whole temp = Code.writers codes temp + Code.writers own temp) :
    s.Guarded u whole loops :=
  ForLoop.Guards.finish own h hle hk.temps (fun _ hv => Or.inl (hk.writable ▸ hv))
    (fun op hm temp hd => (ho op hm temp hd).imp_right Or.inr) hw

end Guarded

end Analyzer

namespace Analysis

open Analyzer Code ForLoop

variable {s t : Analyzer}

def Guarding (loops : List ForLoop) (s : Analyzer) (codes : List Code) (t : Analyzer) : Prop :=
  s.Drawn → s.Guarded t codes loops ∧ AllPlaced t.frames codes loops

lemma guarded_toSimple {access simple : Access} {load : List Code} (h : toSimple access s = ((simple, load), t)) :
    s.Guarded t load [] := by
  rcases toSimple_eq h with ⟨-, rfl, rfl⟩ | ⟨-, rfl, rfl⟩
  · exact .nil (.refl _)
  · exact .own (Keeps.withTemp s) (by simp [Tac.destination?])

lemma writable_lowerLValue {place : LValue} {a : Lowered} (h : lowerLValue true place s = (a, t)) (hs : s.Sound)
    (ht : t.errors = []) {temp : Temp} (hp : a.place = some (.temp temp)) : s.Writable temp.number := by
  cases place with
  | var span name =>
    obtain ⟨info, hfound, hassign, -, rfl⟩ := variablePlace_clean h ht
    obtain rfl : info.place = temp := by simpa using hp
    exact ⟨name.name, info, ScopeStack.binds_of_get? hfound, by simpa using hassign, rfl⟩
  | field span base name =>
    obtain ⟨_, _, _, _, _, _, _, _, _, -, -, -, -, -, -, rfl⟩ :=
      fieldPlace_clean (locates_lowerLValue true base) h hs ht
    cases hp
  | subscript span base index =>
    obtain ⟨_, _, _, _, _, _, _, _, _, _, _, -, -, -, -, -, -, -, -, -, -, rfl⟩ :=
      elementPlace_clean (locates_lowerLValue true base) (lowers_lowerExpr index) h hs ht
    cases hp

lemma guarded_operationCode {operator : Operator} {operands : Operands} {left right : Lowered} {lhs rhs : Access}
    {code : List Code} {s₀ : Analyzer} {loops others : List ForLoop}
    (h : operationCode operator operands ⟨s.supply.temps⟩ left right lhs rhs s.withTemp = (code, t)) (hk : s.Keeps t)
    (hle : s₀.supply.temps ≤ s.supply.temps) (hparts : s₀.Guarded s (left.code ++ right.code) (loops ++ others))
    (hl : AllPlaced t.frames left.code loops) (hr : AllPlaced t.frames right.code others) :
    s₀.Guarded t code (loops ++ others) ∧ AllPlaced t.frames code (loops ++ others) := by
  rcases operationCode_eq h with ⟨conjunction, rfl, rfl⟩ | ⟨operator, ⟨rfl, rfl⟩ | ⟨rfl, rfl⟩⟩
  · refine ⟨hparts.finish (decidingCode s.currentFrame conjunction ⟨s.supply.labels⟩ ⟨s.supply.labels + 1⟩
      ⟨s.supply.temps⟩ [] lhs [] rhs) hle hk (by simp [decidingCode, Tac.destination?]) fun temp => ?_,
      ((hl.left _).left _).both (((hr.cons _).right _).left _)⟩
    simp [decidingCode, Tac.destination?]
    omega
  · exact ⟨hparts.finish _ hle hk (by simp [Tac.destination?]) fun temp => writers_append temp _ _,
      ((hl.left _).both (hr.right _)).left _⟩
  · exact ⟨hparts.finish _ hle hk (by simp [Tac.destination?]) fun temp => writers_append temp _ _,
      ((hl.left _).both (hr.right _)).left _⟩

lemma operandCases_guarding : OperandCases (fun e s a t => Guarding (e.forLoops s) s a.code t)
    (fun assigning l s a t => Guarding (collector.lvalue assigning l s) s a.code t) where
  int _ _ := ⟨.nil (.refl _), .none⟩
  string _ hintern _ := ⟨.nil ((keeps.internString _).apply hintern), .none⟩
  nil _ _ := ⟨.nil (.refl _), .none⟩
  lvalue h hd := by simpa only [Collector.expr] using h.holds hd
  assign := fun {t s _ _ _ destination place _ _ _} hl hv _ hdest _ _ hd => by
    simp only [Collector.expr, hl.run]
    have hk := hl.keeps.trans hv.keeps
    obtain ⟨hparts, hp⟩ := join (hl.holds hd) (hv.holds (hl.keeps.drawn hd)) hl.keeps.temps hv.keeps.temps
      hv.keeps.frames
    refine ⟨Guards.finish [.op t.currentFrame (.move destination place)] hparts hk.temps le_rfl (fun _ => Or.inl) ?_
      fun temp => writers_append temp _ _, hp.left _⟩
    simp only [ops_op, ops_nil, List.mem_singleton, forall_eq, Tac.destination?, Option.some.injEq]
    rintro temp rfl
    have hwritable := writable_lowerLValue hl.run hl.sound hl.clean hdest
    exact ⟨(hd.lt hwritable).trans_le hk.temps, Or.inl (hk.writable ▸ hwritable)⟩
  operation s₂ := fun hl hr _ _ _ hcode hk hd => by
    simp only [Collector.expr, hl.run]
    have hk₃ := (Keeps.withTemp s₂).trans hk
    obtain ⟨hfirst, hpl⟩ := hl.holds hd
    obtain ⟨hsecond, hpr⟩ := hr.holds (hl.keeps.drawn hd)
    exact guarded_operationCode hcode hk₃ (hl.keeps.trans hr.keeps).temps
      (hfirst.append hsecond hl.keeps.temps hr.keeps.temps) (hpl.later (hr.keeps.trans hk₃).frames)
      (hpr.later hk₃.frames)
  negate s₁ := fun {_ _ place _ _} ho _ _ hd => by
    simp only [Collector.expr]
    obtain ⟨hoperand, hp⟩ := ho.holds hd
    exact ⟨hoperand.finish [.op s₁.currentFrame (.negate (.temp ⟨s₁.supply.temps⟩) place)] ho.keeps.temps
      (Keeps.withTemp s₁) (by simp [Tac.destination?]) fun temp => writers_append temp _ _,
      (hp.later (Keeps.withTemp s₁).frames).left _⟩
  variablePlace _ _ _ hnote _ := ⟨.nil ((keeps.noteUse _).apply hnote), .none⟩
  field s₁ index := fun {s _ _ _ _ _ _ _ _ _ _ _ _} hb _ _ _ hload hk hd => by
    simp only [Collector.lvalue]
    obtain ⟨hrecord, hp⟩ := hb.holds hd
    have hoffset : s.Guarded s₁.withTemp _ _ := hrecord.finish
      [.op s₁.currentFrame (.binary .mul (.temp ⟨s₁.supply.temps⟩) (.int (Int32.ofNat index)) .word)] hb.keeps.temps
      (Keeps.withTemp s₁) (by simp [Tac.destination?]) fun temp => writers_append temp _ _
    have hcode := hoffset.append (guarded_toSimple hload) (hb.keeps.trans (Keeps.withTemp s₁)).temps hk.temps
    exact ⟨by simpa using hcode, (hp.later ((Keeps.withTemp s₁).trans hk).frames).left _⟩
  subscript s s₂ s₃ offset := fun hb _ hi _ _ _ hload _ hk hd => by
    simp only [Collector.lvalue, hb.run]
    obtain ⟨hbefore, hp⟩ :=
      join (hb.holds hd) (hi.holds (hb.keeps.drawn hd)) hb.keeps.temps hi.keeps.temps hi.keeps.frames
    have hparts := hbefore.append (guarded_toSimple hload) (hb.keeps.trans hi.keeps).temps hk.temps
    rw [List.append_nil] at hparts
    exact ⟨Guarded.finish [.op s₂.currentFrame (.binary .mul (.temp ⟨s₃.supply.temps⟩) offset .word)] hparts
      ((hb.keeps.trans hi.keeps).trans hk).temps (Keeps.withTemp s₃) (by simp [Tac.destination?])
      fun temp => writers_append temp _ _, ((hp.later (hk.trans (Keeps.withTemp s₃)).frames).left _).left _⟩

lemma destination_moveInto {frame : FrameId} {destination : Option Temp} {value : Option Access} {op : FrameId × Tac}
    (hm : op ∈ ops (moveInto frame destination value)) {temp : Temp} (hw : op.2.destination? = some (.temp temp)) :
    destination = some temp := by
  unfold moveInto at hm
  split at hm
  · simp only [ops_op, ops_nil, List.mem_singleton] at hm
    subst hm
    simpa [Tac.destination?] using hw
  · cases hm

lemma Writable.insideFor {counter : String} {n : Nat} (h : (s.insideFor counter).Writable n) : s.Writable n := by
  obtain ⟨name, info, hb, ha, hn⟩ := h
  rcases ScopeStack.binds_put hb with ⟨-, he⟩ | hb
  · cases he
    cases ha
  · exact ⟨name, info, ScopeStack.binds_open hb, ha, hn⟩

lemma guarding_forCode {counter : String} {low high inside : Lowered} (s₁ : Analyzer) {s₂ s₃ : Analyzer}
    {lowest highest : Access} {loops : List ForLoop} (hb : Guarding loops (s₂.insideFor counter) inside.code s₃)
    (hd : s₂.Drawn) (hs : s₂.Sound) (hs₃ : s₃.Sound) (hkeeps : (s₂.insideFor counter).Keeps s₃)
    (hk : s₂.withLabel.withTemp.Keeps s₃.leaveFor)
    (hpl : low.place = some lowest) (hph : high.place = some highest)
    (hbelow : Temp.Below s₂.supply.temps highest.temps) :
    let final := withLabel (withTemp s₃.leaveFor)
    let loop := ForLoop.ofLowered s₂.currentFrame (low, s₁) (high, s₂) (inside, s₃)
    let codes := forCode s₃.currentFrame ⟨s₃.supply.labels⟩ ⟨s₂.supply.labels⟩ ⟨s₂.supply.temps⟩
      ⟨s₃.supply.temps⟩ lowest highest inside.code
    s₂.Guarded final codes (loop :: loops) ∧ AllPlaced final.frames codes (loop :: loops) := by
  intro final loop codes
  have hframe : s₃.currentFrame = s₂.currentFrame := hkeeps.currentFrame
  have hsLabel : s₂.withLabel.Sound := { hs with }
  let closed := s₃.leaveFor
  have hsClosed : closed.Sound := { sound_closeValues hs₃ with }
  have hclosed : s₃.Grows closed := { Grows.refl s₃ with }
  have hgrows : s₃.Grows final := hclosed.trans ((Keeps.withTemp closed).trans (Keeps.withLabel _)).toGrows
  have hlast : loop.last = highest := by simp [loop, ofLowered, hph]
  have hcode : loop.code = codes := by simp [ForLoop.code, loop, codes, ofLowered, hframe, hpl, hph]
  have hwritable : final.Writable = s₂.Writable :=
    ((Keeps.withTemp closed).trans (Keeps.withLabel _)).writable.trans hk.writable
  obtain ⟨hinner, hp⟩ := hb (usage_drawn.insideFor hd hs trivial)
  have hloop : Guards s₂.Writable final.Writable s₂.supply.temps (s₃.supply.temps + 1) loop.code (loop :: loops) := by
    have hbody := hinner.enclose (fun _ => Writable.insideFor) fun n hn => Nat.lt_succ_of_lt (hd.lt hn)
    rw [hwritable]
    exact hbody.forCode (fun n hn => hd.lt hn) hkeeps.temps rfl rfl rfl
  have hcounter : Frame.Stores final.frames s₂.currentFrame ⟨s₂.supply.temps⟩ :=
    (stores_withTemp hsLabel).mono (hkeeps.frames.trans hgrows.frames)
  have hbound : Frame.Stores final.frames s₃.currentFrame ⟨s₃.supply.temps⟩ := stores_withTemp hsClosed
  rw [hframe] at hbound
  rw [← hcode]
  -- The last bound is evaluated before the counter is drawn.
  have hplaced : loop.Placed final.frames :=
    ⟨hcounter, hbound, fun hm => absurd (hbelow _ (hlast ▸ hm)) (Nat.lt_irrefl _)⟩
  exact ⟨hloop, List.forall_mem_cons.mpr ⟨⟨hplaced, List.infix_rfl⟩, ((hp.later hgrows.frames).right _).left _⟩⟩

lemma controlCases_guarding : ControlCases (fun e s a t => Guarding (e.forLoops s) s a.code t)
    (fun es s a t => Guarding (collector.sequence es s) s a.code t) where
  breakLoop _ _ _ := ⟨.own (.refl _) (by simp [Tac.destination?]), .none⟩
  ifThen s₂ := fun {s _ _ _ value _ _ _} hc hp _ hd => by
    simp only [Collector.expr, hc.run]
    obtain ⟨hfirst, hpt⟩ := hc.holds hd
    obtain ⟨hsecond, hpb⟩ := hp.holds (hc.keeps.drawn hd)
    have hparts : s.Guarded s₂ _ _ := hfirst.append hsecond hc.keeps.temps hp.keeps.temps
    refine ⟨hparts.finish [skipUnless s₂.currentFrame value ⟨s₂.supply.labels⟩] (hc.keeps.trans hp.keeps).temps
      (Keeps.withLabel s₂) (by simp [skipUnless, Tac.destination?]) fun temp => ?_, ?_⟩
    · simp [skipUnless, Tac.destination?]
    · have hpt := hpt.later (hp.keeps.trans (Keeps.withLabel s₂)).frames
      have hpb := hpb.later (Keeps.withLabel s₂).frames
      exact (hpt.join (hpb.cons _)).left _
  ifThenElse s₃ s₄ result := fun {s _ _ yes _ no _ value _ _ _ _} hc hp hn _ hresult _ hk _ hd => by
    simp only [Collector.expr, hc.run, hp.run]
    have hk₂ := hc.keeps.trans hp.keeps
    have hk₄ : s₃.Keeps s₄.withLabel.withLabel := hk.trans ((Keeps.withLabel s₄).trans (Keeps.withLabel _))
    have hdrawn : ∀ temp, result = some temp → temp.number < s₄.supply.temps ∧ s₃.supply.temps ≤ temp.number := by
      rcases resultTemp_eq hresult hn.after with ⟨-, rfl, rfl⟩ | ⟨-, rfl, rfl⟩ <;> simp
    obtain ⟨hfirst, hpt⟩ := hc.holds hd
    obtain ⟨hsecond, hpy⟩ := hp.holds (hc.keeps.drawn hd)
    obtain ⟨hthird, hpn⟩ := hn.holds (hk₂.drawn hd)
    have hparts : s.Guarded s₃ _ _ :=
      (hfirst.append hsecond hc.keeps.temps hp.keeps.temps).append hthird hk₂.temps hn.keeps.temps
    refine ⟨hparts.finish (skipUnless s₄.currentFrame value ⟨s₄.supply.labels⟩ ::
      .op s₄.currentFrame (.goto ⟨s₄.supply.labels + 1⟩) :: (moveInto s₄.currentFrame result yes.place ++
        moveInto s₄.currentFrame result no.place)) (hk₂.trans hn.keeps).temps hk₄ ?_ fun temp => ?_, ?_⟩
    · simp only [skipUnless, ops_op, ops_append, List.forall_mem_cons, List.forall_mem_append]
      exact ⟨by simp [Tac.destination?], by simp [Tac.destination?],
        fun op hm temp hw => hdrawn temp (destination_moveInto hm hw),
        fun op hm temp hw => hdrawn temp (destination_moveInto hm hw)⟩
    · simp [skipUnless, Tac.destination?]
      omega
    · have hpt := hpt.later (hp.keeps.trans (hn.keeps.trans hk₄)).frames
      have hpy := hpy.later (hn.keeps.trans hk₄).frames
      have hpn := hpn.later hk₄.frames
      have hbefore := (hpt.left (skipUnless s₄.currentFrame value ⟨s₄.supply.labels⟩ :: yes.code)).both
        ((hpy.cons _).right _)
      exact ((((hbefore.left _).left _).left _).both (hpn.right _) |>.left _).left _
  whileLoop s s₁ s₂ := fun {_ _ value _ _ _} _ hc hb _ _ hd => by
    simp only [Collector.expr, hc.run]
    have hd₀ : s.withLabel.withLabel.Drawn := hd
    obtain ⟨hfirst, hpt⟩ := hc.holds hd₀
    obtain ⟨hsecond, hpb⟩ := hb.holds (hc.keeps.drawn hd₀)
    have hparts : s.Guarded s₂ _ _ := hfirst.append hsecond hc.keeps.temps hb.keeps.temps
    refine ⟨Guards.finish [skipUnless s₂.currentFrame value ⟨s.supply.labels + 1⟩,
      .op s₂.currentFrame (.goto ⟨s.supply.labels⟩)] hparts (hc.keeps.temps.trans hb.keeps.temps) le_rfl
      (fun _ => Or.inl)
      (by simp [skipUnless, Tac.destination?]) fun temp => ?_, ?_⟩
    · simp [skipUnless, Tac.destination?]
    · exact (((hpt.later hb.keeps.frames).cons _).left _ |>.both ((hpb.cons _).right _)).left _
  forLoop s s₂ s₃ := fun {_ s₁ _ _ _ _ _ counter _ last _} hf hl hb hk hpl hph hd => by
    simp only [Collector.expr, collector_loop, List.singleton_append, hf.run, hl.run, hb.run]
    have hd₁ := hf.keeps.drawn hd
    have hk₂ := hf.keeps.trans hl.keeps
    have hbelow := (draws_lowerExpr last hl.run hl.sound hd₁ hl.clean).places
    simp only [hph, Option.toList, List.flatMap_cons, List.flatMap_nil, List.append_nil] at hbelow
    have hloop := guarding_forCode s₁ hb.holds (hk₂.drawn hd) hl.after hb.after hb.keeps hk hpl hph hbelow
    rw [hk₂.currentFrame] at hloop
    have hclosed := ((Keeps.withLabel s₂).trans (Keeps.withTemp _)).trans (hk.trans
      ((Keeps.withTemp _).trans (Keeps.withLabel _)))
    exact join (join (hf.holds hd) (hl.holds hd₁) hf.keeps.temps hl.keeps.temps hl.keeps.frames) hloop hk₂.temps
      hclosed.temps hclosed.frames
  sequence h hd := by simpa only [Collector.expr] using h.holds hd
  emptySequence _ _ := ⟨.nil (.refl _), .none⟩
  single h hd := by simpa [Collector.sequence] using h.holds hd
  longer hf hr hd := by
    simp only [Collector.sequence.eq_2 _ _ _ (_ :: _), hf.run]
    exact join (hf.holds hd) (hr.holds (hf.keeps.drawn hd)) hf.keeps.temps hr.keeps.temps hr.keeps.frames

lemma aggregateCases_guarding : AggregateCases (fun e s a t => Guarding (e.forLoops s) s a.code t)
    (fun _ es s a t => Guarding (collector.sequence es s) s a.1 t)
    (fun _ _ _ fields s => Guarding (collector.inits fields s) s) where
  array s₂ := fun {s _ _ _ _ _ _ _ _ _ _ _ _} _ _ hs hi _ _ _ hd => by
    simp only [Collector.expr, hs.run]
    have hk := Keeps.filling s₂
    obtain ⟨hparts, hp⟩ : s.Guarded s₂ _ _ ∧ _ :=
      join (hs.holds hd) (hi.holds (hs.keeps.drawn hd)) hs.keeps.temps hi.keeps.temps hi.keeps.frames
    refine ⟨hparts.finish _ (hs.keeps.trans hi.keeps).temps hk ?_ fun temp => writers_append temp _ _,
      (hp.later hk.frames).left _⟩
    simp [arrayCode, Tac.destination?]
    omega
  record s declared := fun _ _ _ hf hd => by
    simp only [Collector.expr]
    have hk := Keeps.asking s
    have hallocated : s.Guarded (s.withTemp.withTemp.usingRuntime Runtime.malloc.name)
        [.op s.currentFrame (.binary .mul (.temp ⟨s.supply.temps + 1⟩) (.int (Int32.ofNat declared.length)) .word),
          .op s.currentFrame (.callRuntime (some (.temp ⟨s.supply.temps⟩)) Runtime.malloc.name
            [.temp ⟨s.supply.temps + 1⟩])] [] := .own hk (by simp [Tac.destination?])
    obtain ⟨hstored, hp⟩ := hf.holds (hk.drawn hd)
    exact ⟨hallocated.append hstored hk.temps hf.keeps.temps, hp.right _⟩
  call s s₁ s₄ t result :=
      fun {_ _ _ _ _ s₃ operation _ _ _} _ ha hcall hedge hs₃ hresult _ hoperation _ hk₄ hk₅ hd => by
    simp only [Collector.expr]
    have hkNote : s₁.Keeps s₃ := ((keeps.noteCall _).apply hcall).trans ((keeps.noteEdge _).apply hedge)
    have hk := hkNote.trans (hk₄.trans hk₅)
    have hle := hk₅.temps
    have hdestination : operation.destination? = result.map Access.temp := by
      rcases callOperation_eq hoperation with ⟨_, -, -, rfl⟩ | ⟨-, -, rfl⟩ <;> rfl
    have hdrawn : ∀ temp, result = some temp → temp.number < s₄.supply.temps ∧ s₃.supply.temps ≤ temp.number := by
      rcases resultTemp_eq hresult hs₃ with ⟨-, rfl, rfl⟩ | ⟨-, rfl, rfl⟩ <;> simp
    obtain ⟨hpassed, hp⟩ := ha.holds hd
    refine ⟨hpassed.finish [.op t.currentFrame operation] ha.keeps.temps hk ?_ fun temp => writers_append temp _ _,
      (hp.later hk.frames).left _⟩
    simp only [ops_op, ops_nil, List.mem_singleton, forall_eq, hdestination, Option.map_eq_some_iff, Access.temp.injEq]
    rintro temp ⟨_, hr, rfl⟩
    have := hdrawn _ hr
    have := hkNote.temps
    omega
  noArguments _ _ := ⟨.nil (.refl _), .none⟩
  argument hv _ hr hd := by
    simp only [Collector.sequence, hv.run]
    exact join (hv.holds hd) (hr.holds (hv.keeps.drawn hd)) hv.keeps.temps hr.keeps.temps hr.keeps.frames
  noFields _ _ := ⟨.nil (.refl _), .none⟩
  fields target index s₁ place := fun hv _ _ hr hd => by
    simp only [Collector.inits, hv.run]
    obtain ⟨hvalue, hpv⟩ := hv.holds hd
    have hfirst := hvalue.finish [.op s₁.currentFrame (.move (.memory (.temp target)
      (.int (fieldStride * Int32.ofNat index))) place)] hv.keeps.temps (.refl s₁) (by simp [Tac.destination?])
      fun temp => writers_append temp _ _
    have hcode := join ⟨hfirst, hpv.left _⟩ (hr.holds (hv.keeps.drawn hd)) hv.keeps.temps hr.keeps.temps hr.keeps.frames
    simpa only [List.append_assoc, List.singleton_append] using hcode

def Declared.Uses (declared : Declared) (n : Nat) : Prop :=
  ∃ temp ∈ declared.entry.formals ++ declared.entry.resultPlace.toList, temp.number = n

def GuardingBodies (declared : List Declared) (loops : List ForLoop) (s : Analyzer) (codes : List Code) (t : Analyzer) :
    Prop :=
  s.Drawn → (∀ d ∈ declared, s.Opens d) → ∀ V : Nat → Prop, (∀ n, s.Writable n → V n) →
    (∀ d ∈ declared, ∀ n, d.Uses n → V n) → (∀ n, V n → n < s.supply.temps) →
      Guards V V s.supply.temps t.supply.temps codes loops ∧ AllPlaced t.frames codes loops

lemma Writable.enterFunction {declared : Declared} {n : Nat} (h : (enterFunction declared s).2.Writable n) :
    declared.Uses n ∨ s.Writable n := by
  obtain ⟨name, info, hb, ha, rfl⟩ := h
  rcases ScopeStack.binds_foldl_put (fun pair : Param × Temp => pair.1.name)
    (fun pair => Value.var { ty := pair.1.ty, place := pair.2, assignable := true })
    (show ScopeStack.Binds (List.foldl _ _ (declared.params.zip declared.entry.formals)) name _ from hb) with
    ⟨pair, hm, -, he⟩ | hb
  · cases he
    exact Or.inl ⟨pair.2, List.mem_append_left _ (List.of_mem_zip hm).2, rfl⟩
  · exact Or.inr ⟨name, info, ScopeStack.binds_open hb, ha, rfl⟩

lemma guarded_functionBody {declared : Declared} {inside : Lowered} {loops : List ForLoop} {s₁ : Analyzer}
    (hb : Guarding loops (enterFunction declared s).2 inside.code s₁) (hk : (enterFunction declared s).2.Keeps s₁)
    (hd : s.Drawn) (hopens : s.Opens declared) {V : Nat → Prop} (hw : ∀ n, s.Writable n → V n)
    (hu : ∀ n, declared.Uses n → V n) (hv : ∀ n, V n → n < s.supply.temps) :
    let codes := .label declared.entry.label :: inside.code ++
      moveInto declared.entry.frame declared.entry.resultPlace inside.place ++ [.op declared.entry.frame .ret]
    Guards V V s.supply.temps s₁.supply.temps codes loops ∧ AllPlaced s₁.frames codes loops := by
  obtain ⟨hcode, hp⟩ := hb (usage_drawn.enterFunction hd hopens fun _ _ => trivial)
  have hinner := hcode.enclose (fun n hn => (Writable.enterFunction hn).elim (hu n) (hw n)) hv
  refine ⟨hinner.finish (moveInto declared.entry.frame declared.entry.resultPlace inside.place ++
    [.op declared.entry.frame .ret]) hk.temps le_rfl (fun _ => Or.inl) ?_ fun temp => ?_, ((hp.cons _).left _).left _⟩
  · rw [ops_append]
    refine List.forall_mem_append.mpr ⟨fun op hm temp hd => ?_, by simp [Tac.destination?]⟩
    have hresult := hu _ ⟨temp, List.mem_append_right _ (by simp [destination_moveInto hm hd]), rfl⟩
    exact ⟨(hv _ hresult).trans_le hk.temps, Or.inl hresult⟩
  · simp [Tac.destination?]

lemma uses_declareFunctions {members : List FunctionDecl} {seen : List String} {declared : List Declared}
    (hm : declareFunctions seen members s = (declared, t)) :
    (∀ d ∈ declared, ∀ n, d.Uses n → s.supply.temps ≤ n) ∧ ∀ n, t.Writable n → s.Writable n := by
  induction members generalizing seen s t declared with
  | nil =>
    obtain ⟨rfl, rfl⟩ := pure_eq.mp hm
    exact ⟨by simp, fun _ => id⟩
  | cons decl rest ih =>
    obtain ⟨first, s₁, s₂, others, hfirst, henter, hothers, rfl⟩ := declareFunctions_cons hm
    have hk₁ := (keeps_declareFunction decl).apply hfirst
    have hk₂ := (declares_enterName _ _ _).apply henter
    obtain ⟨hrest, hscope⟩ := ih hothers
    have hentered : ∀ n, s₂.Writable n → s₁.Writable n := by
      rcases enterName_eq henter with ⟨errors, rfl⟩ | rfl
      · exact fun _ => id
      · rintro n ⟨name, info, hb, ha, rfl⟩
        rcases ScopeStack.binds_put hb with ⟨-, he⟩ | hb
        · cases he
        · exact ⟨name, info, hb, ha, rfl⟩
    refine ⟨List.forall_mem_cons.mpr ⟨?_, fun d hd n hn => (hk₁.temps.trans hk₂.temps).trans (hrest d hd n hn)⟩,
      fun n hn => hk₁.writable ▸ hentered n (hscope n hn)⟩
    obtain ⟨_, params, result, ⟨errors, types, table, rfl⟩, rfl, -⟩ := declareFunction_state hfirst
    rintro n ⟨temp, hm, rfl⟩
    rcases List.mem_append.mp hm with hm | hm
    · obtain ⟨k, hk, rfl⟩ := List.mem_map.mp hm
      exact (Nat.le_succ _).trans (List.mem_range'_1.mp hk).1
    · simp only [declaredAs, declaredFrame, Option.mem_toList] at hm
      split at hm
      · obtain rfl := Option.some.inj hm
        simp only
        omega
      · cases hm

lemma declarationCases_guarding : DeclarationCases (fun e s a t => Guarding (e.forLoops s) s a.code t)
    (fun es s a t => Guarding (collector.sequence es s) s a.code t)
    (fun groups s => Guarding (collector.groups groups s) s) (fun group s => Guarding (collector.group group s) s)
    (fun members declared s => GuardingBodies declared (collector.bodies members declared s) s) where
  letIn s _ s₂ := fun {_ _ _ groups _} _ hd hb hdrawn => by
    simp only [Collector.expr, hd.run]
    have hd₀ : s.insideLet.Drawn := fun name info hv => hdrawn name info (ScopeStack.binds_open hv)
    have hd₁ := drawn_lowerGroups groups hd.run hd.sound hd₀ hd.clean
    obtain ⟨hparts, hp⟩ := join (hd.holds hd₀) (hb.holds hd₁) hd.keeps.temps hb.keeps.temps hb.keeps.frames
    have hvalues := ScopeStack.close_eq_of_sameOuter rfl (trans_of Declares hd.keeps hb.keeps.declares).values
    have hclosed : s₂.leaveLet.values = s.values := hvalues
    have hwritable : Writable s₂.leaveLet = s.Writable := by
      unfold Writable
      rw [hclosed]
    refine ⟨?_, hp⟩
    rw [Guarded, hwritable]
    exact hparts.enclose (fun _ => Writable.open) fun n hn => hdrawn.lt hn
  noGroups _ _ := ⟨.nil (.refl _), .none⟩
  groups _ := fun {_ _ _ _ group _} hg hr hd => by
    simp only [Collector.groups, hg.run]
    have hd₁ := drawn_lowerGroup group hg.run hg.sound hd hg.clean
    exact join (hg.holds hd) (hr.holds hd₁) hg.keeps.temps hr.keeps.temps hr.keeps.frames
  var s₁ := fun {_ _ _ source _ _ _} hv _ _ hd => by
    simp only [Collector.group, collector_binding, List.append_nil]
    obtain ⟨hvalue, hp⟩ := hv.holds hd
    refine ⟨Guards.finish [.op s₁.currentFrame (.move (.temp ⟨s₁.supply.temps⟩) source)] hvalue hv.keeps.temps
      (Nat.le_succ _) ?_ (by simp [Tac.destination?]) fun temp => writers_append temp _ _,
      (hp.later (Keeps.withTemp s₁).frames).left _⟩
    rintro n ⟨other, info, hb, ha, rfl⟩
    rcases ScopeStack.binds_put hb with ⟨-, he⟩ | hb
    · cases he
      exact Or.inr le_rfl
    · exact Or.inl ⟨other, info, hb, ha, rfl⟩
  types _ _ _ := ⟨Guards.own (fun _ => Or.inl) (by simp), .none⟩
  functions s₁ declared inside s₃ := fun {s s₂ members} _ hdeclared _ hb _ hk hd => by
    simp only [Collector.group, hdeclared]
    obtain ⟨-, -, hd₁, hopens⟩ := opens_declareFunctions usage_drawn hdeclared hd
    obtain ⟨hfresh, hscope⟩ := uses_declareFunctions hdeclared
    have hg₁ := (declares_declareFunctions _ _).apply hdeclared
    have hk₃ : s₂.Keeps s₃.withLabel := hk.trans (Keeps.withLabel s₃)
    have hwritable : s₃.withLabel.Writable = s₁.Writable := hk₃.writable.trans hb.keeps.writable
    obtain ⟨hbodies, hp⟩ := hb.holds hd₁ hopens (fun n => s₁.Writable n ∨ ∃ d ∈ declared, d.Uses n) (fun _ => Or.inl)
      (fun d hm n hn => Or.inr ⟨d, hm, hn⟩) (by
        rintro n (hn | ⟨d, hm, temp, ht, rfl⟩)
        · exact hd₁.lt hn
        · rcases List.mem_append.mp ht with ht | ht
          · exact ((hopens d hm).formals temp ht).2
          · exact ((hopens d hm).result temp (by simpa using ht)).2)
    have hgroup : Guards s.Writable s₃.withLabel.Writable s.supply.temps s₃.withLabel.supply.temps inside
        (collector.bodies members declared s₁) := by
      refine hbodies.widen ?_ (fun n hn => ?_) (fun n hn => ?_) hg₁.temps hk₃.temps
      · rintro n (hn | ⟨d, hm, hn⟩)
        · exact Or.inl (hscope n hn)
        · exact Or.inr (hfresh d hm n hn)
      · exact Or.inl (hscope n (hwritable ▸ hn))
      · exact Or.inl (Or.inl (hwritable ▸ hn))
    refine ⟨hgroup.of_writers fun temp => ?_, ((hp.later hk₃.frames).cons _).left _⟩
    simp [Tac.destination?]
  noBodies _ _ _ _ _ _ _ := ⟨.own (fun _ => Or.inl) (by simp), .none⟩
  bodies _ declared _ _ := fun _ _ hb hfits hk hr hd hin V hw hu hv => by
    simp only [Collector.bodies, collector_params, List.nil_append, functionBody_state hb.run hfits]
    have hfirst := guarded_functionBody hb.holds hb.keeps hd (hin declared List.mem_cons_self) hw
      (hu declared List.mem_cons_self) hv
    have hrest :=
      hr.holds (hk.drawn hd) (fun d hm => (hin d (List.mem_cons_of_mem _ hm)).mono hk.toGrows hk.currentFrame) V
      (fun n hn => hw n (hk.writable ▸ hn)) (fun d hm => hu d (List.mem_cons_of_mem _ hm))
      fun n hn => (hv n hn).trans_le hk.temps
    have hcode := join hfirst hrest hk.temps hr.keeps.temps hr.keeps.frames
    simpa only [List.append_assoc, List.singleton_append] using hcode

lemma guarding_lowerExpr (expression : Expr) {a : Lowered} (hm : lowerExpr expression s = (a, t)) (hs : s.Sound)
    (hd : s.Drawn) (ht : t.errors = []) :
    s.Guarded t a.code (expression.forLoops s) ∧ AllPlaced t.frames a.code (expression.forLoops s) :=
  ((RunCases.mk operandCases_guarding controlCases_guarding aggregateCases_guarding declarationCases_guarding).lowerExpr
    expression hm hs ht).holds hd

end Analysis

end TigerMips
