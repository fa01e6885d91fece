import TigerMips.Proofs.Analysis.Sound

/-! What each construct does in a run without errors. -/

namespace TigerMips

namespace Analyzer

def withTemp (s : Analyzer) : Analyzer :=
  { s with
    supply := ⟨s.supply.temps + 1, s.supply.labels⟩
    frames := s.frames.modify s.currentFrame (·.addLocal ⟨s.supply.temps⟩)
    stray := s.stray || !s.frames.has s.currentFrame }

def withLabel (s : Analyzer) : Analyzer := { s with supply := ⟨s.supply.temps, s.supply.labels + 1⟩ }

def usingRuntime (s : Analyzer) (name : String) : Analyzer := { s with runtime := s.runtime.insert name }

def leaveFor (s : Analyzer) : Analyzer :=
  { s with
    values := s.values.close
    exits := s.exits.tail
    overclosed := s.overclosed || s.values.inner.isEmpty }

def leaveLet (s : Analyzer) : Analyzer :=
  { s with
    values := s.values.close
    types := s.types.close
    overclosed := s.overclosed || s.values.inner.isEmpty || s.types.inner.isEmpty }

section

variable (s : Analyzer) (name : String)

@[simp] lemma withTemp_temps : s.withTemp.supply.temps = s.supply.temps + 1 := rfl

@[simp] lemma withTemp_labels : s.withTemp.supply.labels = s.supply.labels := rfl

@[simp] lemma withTemp_currentFrame : s.withTemp.currentFrame = s.currentFrame := rfl

@[simp] lemma withTemp_size : s.withTemp.frames.size = s.frames.size := s.frames.size_modify _ _

@[simp] lemma withTemp_functions : s.withTemp.functions = s.functions := rfl

@[simp] lemma withLabel_temps : s.withLabel.supply.temps = s.supply.temps := rfl

@[simp] lemma withLabel_labels : s.withLabel.supply.labels = s.supply.labels + 1 := rfl

@[simp] lemma withLabel_currentFrame : s.withLabel.currentFrame = s.currentFrame := rfl

@[simp] lemma withLabel_frames : s.withLabel.frames = s.frames := rfl

@[simp] lemma withLabel_functions : s.withLabel.functions = s.functions := rfl

@[simp] lemma usingRuntime_supply : (s.usingRuntime name).supply = s.supply := rfl

@[simp] lemma usingRuntime_currentFrame : (s.usingRuntime name).currentFrame = s.currentFrame := rfl

@[simp] lemma usingRuntime_frames : (s.usingRuntime name).frames = s.frames := rfl

@[simp] lemma usingRuntime_functions : (s.usingRuntime name).functions = s.functions := rfl

end

end Analyzer

namespace Analysis

open Analyzer

variable {α : Type} {s t : Analyzer}

@[simp] lemma newTemp_bind (f : Temp → Analysis α) : (newTemp >>= f) s = f ⟨s.supply.temps⟩ s.withTemp := rfl

@[simp] lemma newLabel_bind (f : Label → Analysis α) : (newLabel >>= f) s = f ⟨s.supply.labels⟩ s.withLabel := rfl

@[simp] lemma currentFrame_bind (f : FrameId → Analysis α) : (currentFrame >>= f) s = f s.currentFrame s := rfl

@[simp] lemma useRuntime_bind (name : String) (f : Unit → Analysis α) :
    (useRuntime name >>= f) s = f () (s.usingRuntime name) := rfl

@[simp] lemma value?_bind (name : String) (f : Option Value → Analysis α) :
    (value? name >>= f) s = f (s.values.get? name) s := rfl

@[simp] lemma type?_bind (name : String) (f : Option Ty → Analysis α) :
    (type? name >>= f) s = f (s.types.get? name) s := rfl

@[simp] lemma actual_bind (ty : Ty) (f : Ty → Analysis α) : (actual ty >>= f) s = f (s.typeTable.actual ty) s := rfl

lemma report_clean {fault : Fault} {span : Span} {u : Unit} (h : report fault span s = (u, t)) (ht : t.errors = []) :
    False := by
  obtain rfl := congrArg Prod.snd h
  exact absurd ht (List.append_ne_nil_of_right_ne_nil _ (List.cons_ne_nil _ _))

lemma report_bind_clean {fault : Fault} {span : Span} {a b : α}
    (h : (do report fault span; return b : Analysis α) s = (a, t)) (ht : t.errors = []) : False := by
  obtain ⟨_, s₁, hr, h⟩ := bind_eq.mp h
  obtain ⟨-, rfl⟩ := pure_eq.mp h
  exact report_clean hr ht

lemma reportIf_clean {condition : Bool} {fault : Fault} {span : Span} {u : Unit}
    (h : reportIf condition fault span s = (u, t)) (ht : t.errors = []) : condition = false ∧ t = s := by
  unfold reportIf at h
  split at h
  · exact (report_clean h ht).elim
  · rename_i hc
    exact ⟨by simpa using hc, (pure_eq.mp h).2⟩

lemma checkType_clean {needed given : Ty} {span : Span} {u : Unit} (h : checkType needed given span s = (u, t))
    (ht : t.errors = []) : s.typeTable.fits given needed ∧ t = s := by
  obtain ⟨fit, s₁, hf, h⟩ := bind_eq.mp h
  obtain ⟨rfl, rfl⟩ := Prod.mk.inj hf
  split at h
  · exact ⟨‹_›, (pure_eq.mp h).2⟩
  · exact (report_clean h ht).elim

lemma unlessError_clean {fallback a : α} {m : Analysis α}
    (h : (do if ← hasError then return fallback else m) s = (a, t)) (ht : t.errors = []) :
    s.errors = [] ∧ m s = (a, t) := by
  obtain ⟨failed, s₁, hf, h⟩ := bind_eq.mp h
  obtain ⟨rfl, rfl⟩ := Prod.mk.inj hf
  split at h
  · obtain ⟨-, rfl⟩ := pure_eq.mp h
    simp [ht] at *
  · rename_i he
    exact ⟨by simpa using he, h⟩

lemma internString_eq {text : String} {constant : Const} (h : internString text s = (constant, t)) :
    (∃ label, s.strings.find? text = some label ∧ constant = .string label ∧ t = s) ∨
    (s.strings.find? text = none ∧ constant = .string ⟨s.supply.labels⟩ ∧
      t = { s.withLabel with strings := s.strings.add ⟨s.supply.labels⟩ text }) := by
  simp only [internString, modifyGet, MonadStateOf.modifyGet, StateT.modifyGet, StringTable.intern] at h
  cases hfound : s.strings.find? text with
  | some label =>
    rw [hfound] at h
    obtain ⟨rfl, rfl⟩ := Prod.mk.inj h
    exact Or.inl ⟨label, rfl, rfl, rfl⟩
  | none =>
    rw [hfound] at h
    obtain ⟨rfl, rfl⟩ := Prod.mk.inj h
    exact Or.inr ⟨rfl, rfl, rfl⟩

structure Placed (value : Lowered) : Prop where
  none_iff : value.place = none ↔ value.ty = .void
  string : ∀ label, value.place = some (.const (.string label)) → value.ty = .string

lemma Placed.exists_place {value : Lowered} (h : Placed value) (hv : value.ty ≠ .void) :
    ∃ place, value.place = some place :=
  Option.ne_none_iff_exists'.mp fun hn => hv (h.none_iff.mp hn)

structure Lowers (m : Analysis Lowered) : Prop where
  keeps : Within Keeps m
  ensures : Ensures Typed m
  placed : ∀ {s a t}, m s = (a, t) → s.Sound → t.errors = [] → Placed a

structure Locates (m : Analysis Lowered) : Prop where
  keeps : Within Keeps m
  ensures : Ensures Valued m
  placed : ∀ {s a t}, m s = (a, t) → s.Sound → t.errors = [] → ∃ place, a.place = some place ∧ place.isPlace

namespace Lowers

variable {m : Analysis Lowered} {a : Lowered}

lemma sound (h : Lowers m) (hm : m s = (a, t)) (hs : s.Sound) : t.Sound := (h.ensures.apply hm hs).1

lemma clean (h : Lowers m) (hm : m s = (a, t)) (ht : t.errors = []) : s.errors = [] := (h.keeps.apply hm).clean ht

lemma exists_place (h : Lowers m) (hm : m s = (a, t)) (hs : s.Sound) (ht : t.errors = []) {table : TypeTable}
    (htable : table.Sound) {needed : Ty} (hf : table.fits a.ty needed) (hn : needed.isSolid) :
    ∃ place, a.place = some place :=
  (h.placed hm hs ht).exists_place (TypeTable.ne_void_of_fits htable hn hf)

end Lowers

namespace Locates

variable {m : Analysis Lowered} {a : Lowered}

lemma sound (h : Locates m) (hm : m s = (a, t)) (hs : s.Sound) : t.Sound := (h.ensures.apply hm hs).1

lemma lowers (h : Locates m) : Lowers m where
  keeps := h.keeps
  ensures s hs := ⟨(h.ensures s hs).1, Ty.isGiven_of_isHeld (h.ensures s hs).2⟩
  placed hm hs ht := by
    obtain ⟨place, hp, hc⟩ := h.placed hm hs ht
    have hheld := (h.ensures.apply hm hs).2
    refine ⟨⟨fun hn => ?_, fun hv => ?_⟩, fun label he => ?_⟩
    · rw [hp] at hn
      cases hn
    · rw [Valued, hv] at hheld
      cases hheld
    · rw [hp] at he
      rw [Option.some.inj he] at hc
      cases hc

end Locates

lemma variablePlace_clean {assigning : Bool} {name : Ident} {a : Lowered}
    (h : variablePlace assigning name s = (a, t)) (ht : t.errors = []) :
    ∃ info, s.values.get? name.name = some (.var info) ∧ (assigning && !info.assignable) = false ∧
      noteUse name.name s = ((), t) ∧ a = { ty := info.ty, place := some (.temp info.place) } := by
  unfold variablePlace at h
  rw [value?_bind] at h
  cases hfound : s.values.get? name.name with
  | none =>
    rw [hfound] at h
    exact (report_bind_clean h ht).elim
  | some value =>
    cases value with
    | function id signature =>
      rw [hfound] at h
      exact (report_bind_clean h ht).elim
    | var info =>
      rw [hfound] at h
      obtain ⟨_, s₁, hr, r₁⟩ := bind_eq.mp h
      obtain ⟨_, s₂, hn, r₂⟩ := bind_eq.mp r₁
      obtain ⟨rfl, rfl⟩ := pure_eq.mp r₂
      obtain ⟨hassignable, rfl⟩ := reportIf_clean hr (((keeps.noteUse _).apply hn).clean ht)
      exact ⟨info, rfl, hassignable, hn, rfl⟩

lemma fieldPlace_clean {base : Analysis Lowered} (hb : Locates base) {field : Ident} {a : Lowered}
    (h : fieldPlace base field s = (a, t)) (hs : s.Sound) (ht : t.errors = []) :
    ∃ record s₁ identity fields index ty place simple load, base s = (record, s₁) ∧ s₁.errors = [] ∧
      s₁.typeTable.actual record.ty = .record identity fields ∧ Ty.field? fields field.name = some (index, ty) ∧
      record.place = some place ∧ toSimple place s₁.withTemp = ((simple, load), t) ∧
      a = {
        code := record.code ++
          .op s₁.currentFrame (.binary .mul (.temp ⟨s₁.supply.temps⟩) (.int (Int32.ofNat index)) .word) :: load
        ty
        place := some (.memory simple (.temp ⟨s₁.supply.temps⟩)) } := by
  obtain ⟨record, s₁, hbase, r₁⟩ := bind_eq.mp h
  rw [actual_bind] at r₁
  cases hactual : s₁.typeTable.actual record.ty with
  | record identity fields =>
    simp only [hactual] at r₁
    cases hfield : Ty.field? fields field.name with
    | none =>
      simp only [hfield] at r₁
      exact (report_bind_clean r₁ ht).elim
    | some found =>
      simp only [hfield] at r₁
      obtain ⟨he, r₂⟩ := unlessError_clean r₁ ht
      obtain ⟨place, hplace, -⟩ := hb.placed hbase hs he
      simp only [hplace, currentFrame_bind, newTemp_bind] at r₂
      obtain ⟨⟨simple, load⟩, s₂, hl, r₃⟩ := bind_eq.mp r₂
      obtain ⟨rfl, rfl⟩ := pure_eq.mp r₃
      exact ⟨record, s₁, identity, fields, found.1, found.2, place, simple, load, hbase, he, hactual, hfield, hplace,
        hl, rfl⟩
  | _ =>
    simp only [hactual] at r₁
    exact (report_bind_clean r₁ ht).elim

lemma elementPlace_clean {span : Span} {base : Analysis Lowered} {index : Part} (hb : Locates base)
    (hi : Lowers index.lower) {a : Lowered} (h : elementPlace span base index s = (a, t)) (hs : s.Sound)
    (ht : t.errors = []) :
    ∃ array s₁ identity ty subscript s₂ place position simple load s₃, base s = (array, s₁) ∧ s₁.errors = [] ∧
      s₁.typeTable.actual array.ty = .array identity ty ∧ index.lower s₁ = (subscript, s₂) ∧ s₂.errors = [] ∧
      s₂.typeTable.fits subscript.ty .int ∧ array.place = some place ∧ subscript.place = some position ∧
      toSimple place s₂ = ((simple, load), s₃) ∧ t = s₃.withTemp ∧
      a = {
        code := array.code ++ subscript.code ++ load ++
          [.op s₂.currentFrame (.binary .mul (.temp ⟨s₃.supply.temps⟩) position .word)]
        ty
        place := some (.memory simple (.temp ⟨s₃.supply.temps⟩)) } := by
  obtain ⟨array, s₁, hbase, r₁⟩ := bind_eq.mp h
  obtain ⟨ty, s₁', hty, r₂⟩ := bind_eq.mp r₁
  obtain ⟨subscript, s₂, hindex, r₃⟩ := bind_eq.mp r₂
  obtain ⟨_, s₂', hc, r₄⟩ := bind_eq.mp r₃
  obtain ⟨he₂, r₅⟩ := unlessError_clean r₄ ht
  obtain ⟨hfits, rfl⟩ := checkType_clean hc he₂
  have he₁ := hi.clean hindex he₂
  have helement : ∃ identity, s₁.typeTable.actual array.ty = .array identity ty ∧ s₁' = s₁ := by
    unfold elementType at hty
    rw [actual_bind] at hty
    cases hactual : s₁.typeTable.actual array.ty with
    | array identity element =>
      simp only [hactual] at hty
      obtain ⟨rfl, rfl⟩ := pure_eq.mp hty
      exact ⟨identity, rfl, rfl⟩
    | _ =>
      simp only [hactual] at hty
      exact (report_bind_clean hty he₁).elim
  obtain ⟨identity, hactual, rfl⟩ := helement
  have hs₁ := hb.sound hbase hs
  obtain ⟨place, hplace, -⟩ := hb.placed hbase hs he₁
  obtain ⟨position, hposition⟩ := hi.exists_place hindex hs₁ he₂ (hi.sound hindex hs₁).table hfits rfl
  simp only [hplace, hposition, currentFrame_bind] at r₅
  obtain ⟨⟨simple, load⟩, s₃, hl, r₆⟩ := bind_eq.mp r₅
  simp only [newTemp_bind] at r₆
  obtain ⟨rfl, rfl⟩ := pure_eq.mp r₆
  exact ⟨array, s₁', identity, ty, subscript, s₂', place, position, simple, load, s₃, hbase, he₁, hactual, hindex, he₂,
    hfits, hplace, hposition, hl, rfl, rfl⟩

lemma assignment_clean {span : Span} {target value : Analysis Lowered} (htarget : Locates target)
    (hvalue : Lowers value) {a : Lowered} (h : assignment span target value s = (a, t)) (hs : s.Sound)
    (ht : t.errors = []) :
    ∃ location s₁ source destination place, target s = (location, s₁) ∧ s₁.errors = [] ∧ value s₁ = (source, t) ∧
      t.typeTable.fits source.ty location.ty ∧ location.place = some destination ∧
      destination.isPlace ∧ source.place = some place ∧
      a = {
        code := location.code ++ source.code ++ [.op t.currentFrame (.move destination place)]
        ty := .void } := by
  obtain ⟨location, s₁, hl, r₁⟩ := bind_eq.mp h
  obtain ⟨source, s₂, hv, r₂⟩ := bind_eq.mp r₁
  obtain ⟨_, s₃, hc, r₃⟩ := bind_eq.mp r₂
  obtain ⟨he, r₄⟩ := unlessError_clean r₃ ht
  obtain ⟨hfits, rfl⟩ := checkType_clean hc he
  have he₁ := hvalue.clean hv he
  have hs₁ := htarget.sound hl hs
  obtain ⟨destination, hd, hwritable⟩ := htarget.placed hl hs he₁
  have hsolid := Ty.isSolid_of_isHeld (htarget.ensures.apply hl hs).2
  obtain ⟨place, hp⟩ := hvalue.exists_place hv hs₁ he (hvalue.sound hv hs₁).table hfits hsolid
  simp only [hd, hp, currentFrame_bind] at r₄
  obtain ⟨rfl, rfl⟩ := pure_eq.mp r₄
  exact ⟨location, s₁, source, destination, place, hl, he₁, hv, hfits, hd, hwritable, hp, rfl⟩

lemma negation_clean {operand : Part} (ho : Lowers operand.lower) {a : Lowered} (h : negation operand s = (a, t))
    (hs : s.Sound) (ht : t.errors = []) :
    ∃ value s₁ place, operand.lower s = (value, s₁) ∧ s₁.errors = [] ∧ s₁.typeTable.fits value.ty .int ∧
      value.place = some place ∧ t = s₁.withTemp ∧
      a = {
        code := value.code ++ [.op s₁.currentFrame (.negate (.temp ⟨s₁.supply.temps⟩) place)]
        ty := .int
        place := some (.temp ⟨s₁.supply.temps⟩) } := by
  obtain ⟨value, s₁, hv, r₁⟩ := bind_eq.mp h
  obtain ⟨_, s₂, hc, r₂⟩ := bind_eq.mp r₁
  rw [newTemp_bind] at r₂
  obtain ⟨he, r₃⟩ := unlessError_clean r₂ ht
  obtain ⟨hfits, rfl⟩ := checkType_clean hc he
  obtain ⟨place, hp⟩ := ho.exists_place hv hs he (ho.sound hv hs).table hfits rfl
  simp only [hp, currentFrame_bind] at r₃
  obtain ⟨rfl, rfl⟩ := pure_eq.mp r₃
  exact ⟨value, s₂, place, hv, he, hfits, hp, rfl, rfl⟩

lemma checkBoth_clean {ty left right : Ty} {leftSpan rightSpan : Span} {operands found : Operands}
    (h : (do
      checkType ty left leftSpan
      checkType ty right rightSpan
      return operands : Analysis Operands) s = (found, t)) (ht : t.errors = []) :
    s.typeTable.fits left ty ∧ s.typeTable.fits right ty ∧ found = operands ∧ t = s := by
  obtain ⟨_, s₁, hl, r₁⟩ := bind_eq.mp h
  obtain ⟨_, s₂, hr, r₂⟩ := bind_eq.mp r₁
  obtain ⟨rfl, rfl⟩ := pure_eq.mp r₂
  obtain ⟨hright, rfl⟩ := checkType_clean hr ht
  obtain ⟨hleft, rfl⟩ := checkType_clean hl ht
  exact ⟨hleft, hright, rfl, rfl⟩

lemma ne_void_of_isReference {table : TypeTable} {left right : Ty}
    (hr : table.isReference (table.actual left) ∨ table.isReference (table.actual right))
    (hf : table.fits left right ∨ table.fits right left) : left ≠ .void := by
  rintro rfl
  have ha : table.actual right = .void :=
    hf.elim TypeTable.actual_eq_void_of_fits_left TypeTable.actual_eq_void_of_fits_right
  rw [ha] at hr
  rcases hr with hr | hr <;> cases hr

lemma checkOperands_clean {span operatorSpan leftSpan rightSpan : Span} {operator : Operator} {left right : Ty}
    {operands : Operands} (h : checkOperands span operator operatorSpan left right leftSpan rightSpan s = (operands, t))
    (hs : s.Sound) (ht : t.errors = []) : operands ≠ .invalid ∧ left ≠ .void ∧ right ≠ .void ∧ t = s := by
  change (if _ then _ else _ : Analysis Operands) s = _ at h
  split at h
  · obtain ⟨hl, hr, rfl, rfl⟩ := checkBoth_clean h ht
    exact ⟨by decide, TypeTable.ne_void_of_fits hs.table rfl hl, TypeTable.ne_void_of_fits hs.table rfl hr, rfl⟩
  split at h
  · split at h
    · obtain ⟨hl, hr, rfl, rfl⟩ := checkBoth_clean h ht
      exact ⟨by decide, TypeTable.ne_void_of_fits hs.table rfl hl, TypeTable.ne_void_of_fits hs.table rfl hr, rfl⟩
    · exact (report_bind_clean h ht).elim
  split at h
  · rename_i href
    simp only [Bool.and_eq_true, Bool.or_eq_true] at href
    split at h
    · rename_i hfits
      obtain ⟨rfl, rfl⟩ := pure_eq.mp h
      simp only [Bool.or_eq_true] at hfits
      exact ⟨by decide, ne_void_of_isReference href.2 hfits, ne_void_of_isReference href.2.symm hfits.symm, rfl⟩
    · exact (report_bind_clean h ht).elim
  · exact (report_bind_clean h ht).elim

lemma operation_clean {span operatorSpan : Span} {operator : Operator} {lhs rhs : Part} (hl : Lowers lhs.lower)
    (hr : Lowers rhs.lower) {a : Lowered} (h : operation span operator operatorSpan lhs rhs s = (a, t)) (hs : s.Sound)
    (ht : t.errors = []) :
    ∃ left s₁ right s₂ operands leftPlace rightPlace code, lhs.lower s = (left, s₁) ∧ s₁.errors = [] ∧
      rhs.lower s₁ = (right, s₂) ∧ s₂.errors = [] ∧ left.place = some leftPlace ∧ right.place = some rightPlace ∧
      checkOperands span operator operatorSpan left.ty right.ty lhs.span rhs.span s₂ = (operands, s₂) ∧
      operationCode operator operands ⟨s₂.supply.temps⟩ left right leftPlace rightPlace s₂.withTemp = (code, t) ∧
      a = { code, ty := .int, place := some (.temp ⟨s₂.supply.temps⟩) } := by
  obtain ⟨left, s₁, hleft, r₁⟩ := bind_eq.mp h
  obtain ⟨right, s₂, hright, r₂⟩ := bind_eq.mp r₁
  obtain ⟨operands, s₃, hc, r₃⟩ := bind_eq.mp r₂
  rw [newTemp_bind] at r₃
  obtain ⟨he, r₄⟩ := unlessError_clean r₃ ht
  have hs₁ := hl.sound hleft hs
  obtain ⟨hvalid, hvl, hvr, rfl⟩ := checkOperands_clean hc (hr.sound hright hs₁) he
  have he₁ := hr.clean hright he
  obtain ⟨leftPlace, hpl⟩ := (hl.placed hleft hs he₁).exists_place hvl
  obtain ⟨rightPlace, hpr⟩ := (hr.placed hright hs₁ he).exists_place hvr
  simp only [if_neg hvalid, hpl, hpr] at r₄
  obtain ⟨code, s₄, hcode, r₅⟩ := bind_eq.mp r₄
  obtain ⟨rfl, rfl⟩ := pure_eq.mp r₅
  exact ⟨left, s₁, right, s₃, operands, leftPlace, rightPlace, code, hleft, he₁, hright, he, hpl, hpr, hc, hcode, rfl⟩

lemma breakLoop_clean {span : Span} {a : Lowered} (h : breakLoop span s = (a, t)) (ht : t.errors = []) :
    ∃ exit outer, s.exits = some exit :: outer ∧ t = s ∧
      a = { code := [.op s.currentFrame (.goto exit)], ty := .void } := by
  obtain ⟨_, _, hg, r₁⟩ := bind_eq.mp h
  obtain ⟨rfl, rfl⟩ := Prod.mk.inj hg
  rcases hx : s.exits with - | ⟨- | exit, outer⟩
  all_goals simp only [hx] at r₁
  · exact (report_bind_clean r₁ ht).elim
  · exact (report_bind_clean r₁ ht).elim
  · rw [currentFrame_bind] at r₁
    obtain ⟨rfl, rfl⟩ := pure_eq.mp r₁
    exact ⟨exit, outer, rfl, rfl, rfl⟩

lemma ifThen_clean {condition positive : Part} (hc : Lowers condition.lower) (hp : Lowers positive.lower) {a : Lowered}
    (h : ifThen condition positive s = (a, t)) (hs : s.Sound) (ht : t.errors = []) :
    ∃ test s₁ body s₂ value, condition.lower s = (test, s₁) ∧ s₁.errors = [] ∧ positive.lower s₁ = (body, s₂) ∧
      s₂.errors = [] ∧ test.place = some value ∧ t = s₂.withLabel ∧
      a = {
        code := test.code ++ skipUnless s₂.currentFrame value ⟨s₂.supply.labels⟩ :: body.code ++
          [.label ⟨s₂.supply.labels⟩]
        ty := .void } := by
  obtain ⟨test, s₁, htest, r₁⟩ := bind_eq.mp h
  obtain ⟨_, s₁', hint, r₂⟩ := bind_eq.mp r₁
  obtain ⟨body, s₂, hbody, r₃⟩ := bind_eq.mp r₂
  obtain ⟨_, s₂', hvoid, r₄⟩ := bind_eq.mp r₃
  obtain ⟨he₂, r₅⟩ := unlessError_clean r₄ ht
  obtain ⟨-, rfl⟩ := checkType_clean hvoid he₂
  have he₁ := hp.clean hbody he₂
  obtain ⟨hfits, rfl⟩ := checkType_clean hint he₁
  obtain ⟨value, hv⟩ := hc.exists_place htest hs he₁ (hc.sound htest hs).table hfits rfl
  simp only [hv, currentFrame_bind, newLabel_bind] at r₅
  obtain ⟨rfl, rfl⟩ := pure_eq.mp r₅
  exact ⟨test, s₁', body, s₂', value, htest, he₁, hbody, he₂, hv, rfl, rfl⟩

lemma branchType_clean {positive negative : Part} {yes no ty : Ty} (h : branchType positive negative yes no s = (ty, t))
    (ht : t.errors = []) : (ty = no ∧ s.typeTable.fits yes no ∨ ty = yes ∧ s.typeTable.fits no yes) ∧ t = s := by
  obtain ⟨nil, s₁, hn, r₁⟩ := bind_eq.mp h
  obtain ⟨rfl, rfl⟩ := Prod.mk.inj hn
  split at r₁
  all_goals
    obtain ⟨_, s₂, hc, r₂⟩ := bind_eq.mp r₁
    obtain ⟨rfl, rfl⟩ := pure_eq.mp r₂
    obtain ⟨hfits, rfl⟩ := checkType_clean hc ht
  · exact ⟨Or.inl ⟨rfl, hfits⟩, rfl⟩
  · exact ⟨Or.inr ⟨rfl, hfits⟩, rfl⟩

lemma resultTemp_eq {ty : Ty} {result : Option Temp} (h : resultTemp ty s = (result, t)) (hs : s.Sound) :
    (ty = .void ∧ result = none ∧ t = s) ∨ (ty ≠ .void ∧ result = some ⟨s.supply.temps⟩ ∧ t = s.withTemp) := by
  obtain ⟨void, s₁, hv, r₁⟩ := bind_eq.mp h
  obtain ⟨rfl, rfl⟩ := Prod.mk.inj hv
  split at r₁
  · rename_i hvoid
    exact Or.inl ⟨(TypeTable.isVoid_iff hs.table).mp hvoid, pure_eq.mp r₁⟩
  · rename_i hvoid
    exact Or.inr ⟨fun he => hvoid ((TypeTable.isVoid_iff hs.table).mpr he), pure_eq.mp r₁⟩

lemma ifThenElse_clean {condition positive negative : Part} (hc : Lowers condition.lower) (hp : Lowers positive.lower)
    (hn : Lowers negative.lower) {a : Lowered} (h : ifThenElse condition positive negative s = (a, t)) (hs : s.Sound)
    (ht : t.errors = []) :
    ∃ test s₁ yes s₂ no s₃ result s₄ value, condition.lower s = (test, s₁) ∧ s₁.errors = [] ∧
      positive.lower s₁ = (yes, s₂) ∧ s₂.errors = [] ∧ negative.lower s₂ = (no, s₃) ∧ s₃.errors = [] ∧
      (a.ty = no.ty ∧ s₃.typeTable.fits yes.ty no.ty ∨ a.ty = yes.ty ∧ s₃.typeTable.fits no.ty yes.ty) ∧
      resultTemp a.ty s₃ = (result, s₄) ∧
      test.place = some value ∧ t = s₄.withLabel.withLabel ∧
      a.code = test.code ++ skipUnless s₄.currentFrame value ⟨s₄.supply.labels⟩ :: yes.code ++
        moveInto s₄.currentFrame result yes.place ++
        [.op s₄.currentFrame (.goto ⟨s₄.supply.labels + 1⟩), .label ⟨s₄.supply.labels⟩] ++
        no.code ++ moveInto s₄.currentFrame result no.place ++ [.label ⟨s₄.supply.labels + 1⟩] ∧
      a.place = result.map .temp := by
  obtain ⟨test, s₁, htest, r₁⟩ := bind_eq.mp h
  obtain ⟨_, s₁', hint, r₂⟩ := bind_eq.mp r₁
  obtain ⟨yes, s₂, hyes, r₃⟩ := bind_eq.mp r₂
  obtain ⟨no, s₃, hno, r₄⟩ := bind_eq.mp r₃
  obtain ⟨ty, s₃', hty, r₅⟩ := bind_eq.mp r₄
  obtain ⟨result, s₄, hresult, r₆⟩ := bind_eq.mp r₅
  obtain ⟨he₄, r₇⟩ := unlessError_clean r₆ ht
  have he₃ := ((within_resultTemp keeps _).apply hresult).clean he₄
  have he₃' := ((within_branchType keeps _ _ _ _).apply hty).clean he₃
  have he₂ := hn.clean hno he₃'
  have he₁ := hp.clean hyes he₂
  obtain ⟨hfits, rfl⟩ := checkType_clean hint he₁
  have hs₁ := hc.sound htest hs
  obtain ⟨hbranch, rfl⟩ := branchType_clean hty he₃
  obtain ⟨value, hv⟩ := hc.exists_place htest hs he₁ hs₁.table hfits rfl
  simp only [hv, currentFrame_bind, newLabel_bind] at r₇
  obtain ⟨rfl, rfl⟩ := pure_eq.mp r₇
  exact ⟨test, s₁', yes, s₂, no, s₃', result, s₄, value, htest, he₁, hyes, he₂, hno, he₃, hbranch,
    hresult, hv, rfl, rfl, rfl⟩

lemma whileLoop_clean {condition body : Part} (hc : Lowers condition.lower) (hb : Lowers body.lower) {a : Lowered}
    (h : whileLoop condition body s = (a, t)) (hs : s.Sound) (ht : t.errors = []) :
    ∃ test s₁ inside value, condition.lower s.withLabel.withLabel = (test, s₁) ∧ s₁.errors = [] ∧
      inLoop ⟨s.supply.labels + 1⟩ body.lower s₁ = (inside, t) ∧ test.place = some value ∧
      a = {
        code := .label ⟨s.supply.labels⟩ :: test.code ++ skipUnless t.currentFrame value ⟨s.supply.labels + 1⟩ ::
          inside.code ++ [.op t.currentFrame (.goto ⟨s.supply.labels⟩), .label ⟨s.supply.labels + 1⟩]
        ty := .void } := by
  unfold whileLoop at h
  simp only [newLabel_bind] at h
  obtain ⟨test, s₁, htest, r₁⟩ := bind_eq.mp h
  obtain ⟨inside, s₂, hinside, r₂⟩ := bind_eq.mp r₁
  obtain ⟨_, s₂', hint, r₃⟩ := bind_eq.mp r₂
  obtain ⟨_, s₂'', hvoid, r₄⟩ := bind_eq.mp r₃
  obtain ⟨he₂, r₅⟩ := unlessError_clean r₄ ht
  obtain ⟨-, rfl⟩ := checkType_clean hvoid he₂
  obtain ⟨hfits, rfl⟩ := checkType_clean hint he₂
  have he₁ := ((keeps.inLoop _ hb.keeps).apply hinside).clean he₂
  have hs' : s.withLabel.withLabel.Sound := { hs with }
  have hs₁ := hc.sound htest hs'
  obtain ⟨value, hv⟩ :=
    hc.exists_place htest hs' he₁ ((ensures_inLoop _ hb.ensures).apply hinside hs₁).1.table hfits rfl
  simp only [hv, currentFrame_bind] at r₅
  obtain ⟨rfl, rfl⟩ := pure_eq.mp r₅
  exact ⟨test, s₁, inside, value, htest, he₁, hinside, hv, rfl⟩

lemma forLoop_clean {counter : Ident} {first last body : Part} (hf : Lowers first.lower) (hl : Lowers last.lower)
    (hb : Lowers body.lower) {a : Lowered} (h : forLoop counter first last body s = (a, t)) (hs : s.Sound)
    (ht : t.errors = []) :
    ∃ low s₁ high s₂ inside s₃ lowest highest, first.lower s = (low, s₁) ∧ s₁.errors = [] ∧
      last.lower s₁ = (high, s₂) ∧ s₂.errors = [] ∧
      forBody counter ⟨s₂.supply.temps⟩ ⟨s₂.supply.labels⟩ body s₂.withLabel.withTemp = (inside, s₃) ∧
      s₃.errors = [] ∧ low.place = some lowest ∧ high.place = some highest ∧ t = s₃.withTemp.withLabel ∧
      a = {
        code := low.code ++ high.code ++ forCode s₃.currentFrame ⟨s₃.supply.labels⟩ ⟨s₂.supply.labels⟩
          ⟨s₂.supply.temps⟩ ⟨s₃.supply.temps⟩ lowest highest inside.code
        ty := .void } := by
  obtain ⟨low, s₁, hlow, r₁⟩ := bind_eq.mp h
  obtain ⟨high, s₂, hhigh, r₂⟩ := bind_eq.mp r₁
  obtain ⟨_, s₂', hclow, r₃⟩ := bind_eq.mp r₂
  obtain ⟨_, s₂'', hchigh, r₄⟩ := bind_eq.mp r₃
  simp only [newLabel_bind, newTemp_bind] at r₄
  obtain ⟨inside, s₃, hinside, r₅⟩ := bind_eq.mp r₄
  obtain ⟨he₃, r₆⟩ := unlessError_clean r₅ ht
  have he₂ : s₂''.errors = [] := ((keeps.forBody _ _ _ hb.keeps).apply hinside).clean he₃
  obtain ⟨hhfits, rfl⟩ := checkType_clean hchigh he₂
  obtain ⟨hlfits, rfl⟩ := checkType_clean hclow he₂
  have he₁ := hl.clean hhigh he₂
  have hs₁ := hf.sound hlow hs
  have hs₂ := hl.sound hhigh hs₁
  obtain ⟨lowest, hpl⟩ := hf.exists_place hlow hs he₁ hs₂.table hlfits rfl
  obtain ⟨highest, hph⟩ := hl.exists_place hhigh hs₁ he₂ hs₂.table hhfits rfl
  simp only [hpl, hph, newTemp_bind, newLabel_bind, currentFrame_bind] at r₆
  obtain ⟨rfl, rfl⟩ := pure_eq.mp r₆
  exact ⟨low, s₁, high, _, inside, s₃, lowest, highest, hlow, he₁, hhigh, he₂, hinside, he₃, hpl, hph, rfl, rfl⟩

lemma letIn_eq {declarations : Analysis (List Code)} {body : Analysis Lowered} {a : Lowered}
    (h : letIn declarations body s = (a, t)) :
    ∃ before s₁ inside s₂,
      declarations { s with values := s.values.openScope, types := s.types.openScope } = (before, s₁) ∧
      body s₁ = (inside, s₂) ∧ t = s₂.leaveLet ∧ a = { inside with code := before ++ inside.code } := by
  obtain ⟨_, _, hv, r₁⟩ := bind_eq.mp h
  obtain rfl := congrArg Prod.snd hv
  obtain ⟨_, _, hty, r₂⟩ := bind_eq.mp r₁
  obtain rfl := congrArg Prod.snd hty
  obtain ⟨before, s₁, hd, r₃⟩ := bind_eq.mp r₂
  obtain ⟨inside, s₂, hb, r₄⟩ := bind_eq.mp r₃
  obtain ⟨rfl, rfl⟩ := Prod.mk.inj r₄
  exact ⟨before, s₁, inside, s₂, hd, hb, rfl, rfl⟩

lemma arrayType?_clean {name : Ident} {found : Option (Ty × Ty)} (h : arrayType? name s = (found, t))
    (ht : t.errors = []) :
    ∃ ty identity element, found = some (ty, element) ∧ s.types.get? name.name = some ty ∧
      s.typeTable.actual ty = .array identity element ∧ t = s := by
  unfold arrayType? at h
  rw [type?_bind] at h
  cases hty : s.types.get? name.name with
  | none =>
    simp only [hty] at h
    exact (report_bind_clean h ht).elim
  | some ty =>
    simp only [hty, actual_bind] at h
    cases hactual : s.typeTable.actual ty with
    | array identity element =>
      simp only [hactual] at h
      obtain ⟨rfl, rfl⟩ := pure_eq.mp h
      exact ⟨ty, identity, element, rfl, rfl, hactual, rfl⟩
    | _ =>
      simp only [hactual] at h
      exact (report_bind_clean h ht).elim

lemma recordType?_clean {name : Ident} {found : Option (Ty × List (String × Ty))} (h : recordType? name s = (found, t))
    (ht : t.errors = []) :
    ∃ ty identity fields, found = some (ty, fields) ∧ s.types.get? name.name = some ty ∧
      s.typeTable.actual ty = .record identity fields ∧ t = s := by
  unfold recordType? at h
  rw [type?_bind] at h
  cases hty : s.types.get? name.name with
  | none =>
    simp only [hty] at h
    exact (report_bind_clean h ht).elim
  | some ty =>
    simp only [hty, actual_bind] at h
    cases hactual : s.typeTable.actual ty with
    | record identity fields =>
      simp only [hactual] at h
      obtain ⟨rfl, rfl⟩ := pure_eq.mp h
      exact ⟨ty, identity, fields, rfl, rfl, hactual, rfl⟩
    | _ =>
      simp only [hactual] at h
      exact (report_bind_clean h ht).elim

lemma arrayCreation_clean {name : Ident} {size init : Part} (hsize : Lowers size.lower) (hinit : Lowers init.lower)
    {a : Lowered} (h : arrayCreation name size init s = (a, t)) (hs : s.Sound) (ht : t.errors = []) :
    ∃ ty identity element count s₁ value s₂ countPlace valuePlace, s.types.get? name.name = some ty ∧
      s.typeTable.actual ty = .array identity element ∧ size.lower s = (count, s₁) ∧ s₁.errors = [] ∧
      init.lower s₁ = (value, s₂) ∧ s₂.errors = [] ∧ s₂.typeTable.fits value.ty element ∧
      count.place = some countPlace ∧ value.place = some valuePlace ∧
      arrayOf count value ty countPlace valuePlace s₂ = (a, t) := by
  obtain ⟨found, s₀, hfound, r₁⟩ := bind_eq.mp h
  obtain ⟨count, s₁, hcount, r₂⟩ := bind_eq.mp r₁
  obtain ⟨_, s₁', hint, r₃⟩ := bind_eq.mp r₂
  obtain ⟨value, s₂, hvalue, r₄⟩ := bind_eq.mp r₃
  -- An unknown type has been reported before the parts were lowered.
  have hknown : s₂.errors = [] → ∃ ty identity element, found = some (ty, element) ∧
      s.types.get? name.name = some ty ∧ s.typeTable.actual ty = .array identity element ∧ s₀ = s ∧ s₁' = s₁ ∧
      s₁.typeTable.fits count.ty .int ∧ s₁.errors = [] := fun he₂ => by
    have he₁ := hinit.clean hvalue he₂
    obtain ⟨hfits, rfl⟩ := checkType_clean hint he₁
    obtain ⟨ty, identity, element, he, hty, hactual, rfl⟩ := arrayType?_clean hfound (hsize.clean hcount he₁)
    exact ⟨ty, identity, element, he, hty, hactual, rfl, rfl, hfits, he₁⟩
  cases found with
  | none =>
    obtain ⟨_, s₃, hty, r₅⟩ := bind_eq.mp r₄
    obtain ⟨-, rfl⟩ := pure_eq.mp r₅
    obtain rfl := congrArg Prod.snd hty
    obtain ⟨_, _, _, hnone, -⟩ := hknown ht
    cases hnone
  | some pair =>
    obtain ⟨_, s₂', hc, r₅⟩ := bind_eq.mp r₄
    obtain ⟨he₂, r₆⟩ := unlessError_clean r₅ ht
    obtain ⟨hfits, rfl⟩ := checkType_clean hc he₂
    obtain ⟨ty, identity, element, hpair, hty, hactual, rfl, rfl, hcfits, he₁⟩ := hknown he₂
    obtain rfl := Option.some.inj hpair
    have hs₁ := hsize.sound hcount hs
    have hplain := hs.types _ _ (ScopeStack.binds_of_get? hty)
    have hsolid := TypeTable.isSolid_actual hs.table (Ty.isSolid_of_isPlain hplain)
    rw [hactual] at hsolid
    obtain ⟨countPlace, hpc⟩ := hsize.exists_place hcount hs he₁ hs₁.table hcfits rfl
    obtain ⟨valuePlace, hpv⟩ := hinit.exists_place hvalue hs₁ he₂ (hinit.sound hvalue hs₁).table hfits
      (Ty.isSolid_of_isPlain hsolid)
    simp only [hpc, hpv] at r₆
    exact ⟨ty, identity, element, count, _, value, _, countPlace, valuePlace, hty, hactual, hcount, he₁, hvalue, he₂,
      hfits, hpc, hpv, r₆⟩

lemma initField_clean {target : Temp} {index : Nat} {expected : String} {ty : Ty} {name : Ident} {value : Part}
    (hv : Lowers value.lower) {code : List Code} (h : initField target index expected ty name value s = (code, t))
    (hs : s.Sound) (hty : ty.isSolid) (ht : t.errors = []) :
    ∃ init place, expected = name.name ∧ value.lower s = (init, t) ∧ t.typeTable.fits init.ty ty ∧
      init.place = some place ∧
      code = init.code ++
        [.op t.currentFrame (.move (.memory (.temp target) (.int (fieldStride * Int32.ofNat index))) place)] := by
  obtain ⟨_, s₀, hname, r₁⟩ := bind_eq.mp h
  obtain ⟨init, s₁, hinit, r₂⟩ := bind_eq.mp r₁
  obtain ⟨_, s₂, hc, r₃⟩ := bind_eq.mp r₂
  obtain ⟨he₂, r₄⟩ := unlessError_clean r₃ ht
  obtain ⟨hfits, rfl⟩ := checkType_clean hc he₂
  obtain ⟨hexpected, rfl⟩ := reportIf_clean hname (hv.clean hinit he₂)
  obtain ⟨place, hp⟩ := hv.exists_place hinit hs he₂ (hv.sound hinit hs).table hfits hty
  simp only [hp, currentFrame_bind] at r₄
  obtain ⟨rfl, rfl⟩ := pure_eq.mp r₄
  exact ⟨init, place, by simpa using hexpected, hinit, hfits, hp, rfl⟩

lemma recordCreation_clean {span : Span} {name : Ident} {given : Nat}
    {init : Temp → List (String × Ty) → Analysis (List Code)} {check : Analysis Unit}
    (hi : ∀ target declared, Within Keeps (init target declared)) (hc : Within Keeps check) {a : Lowered}
    (h : recordCreation span name given init check s = (a, t)) (ht : t.errors = []) :
    ∃ ty identity fields allocation s₁ stores, s.types.get? name.name = some ty ∧
      s.typeTable.actual ty = .record identity fields ∧
      allocateRecord ⟨s.supply.temps⟩ fields.length s.withTemp = (allocation, s₁) ∧ s₁.errors = [] ∧
      init ⟨s.supply.temps⟩ fields s₁ = (stores, t) ∧ fields.length = given ∧
      a = { code := allocation ++ stores, ty, place := some (.temp ⟨s.supply.temps⟩) } := by
  obtain ⟨found, s₀, hfound, r₁⟩ := bind_eq.mp h
  cases found with
  | none =>
    obtain ⟨_, s₁, hcheck, r₂⟩ := bind_eq.mp r₁
    obtain ⟨_, s₂, hty, r₃⟩ := bind_eq.mp r₂
    obtain ⟨-, rfl⟩ := pure_eq.mp r₃
    obtain rfl := congrArg Prod.snd hty
    obtain ⟨_, _, _, hnone, -⟩ := recordType?_clean hfound ((hc.apply hcheck).clean ht)
    cases hnone
  | some pair =>
    simp only [newTemp_bind] at r₁
    obtain ⟨allocation, s₁, halloc, r₂⟩ := bind_eq.mp r₁
    obtain ⟨stores, s₂, hstores, r₃⟩ := bind_eq.mp r₂
    obtain ⟨_, s₂', hcount, r₄⟩ := bind_eq.mp r₃
    obtain ⟨he₂, r₅⟩ := unlessError_clean r₄ ht
    obtain ⟨hgiven, rfl⟩ := reportIf_clean hcount he₂
    have he₁ := ((hi _ _).apply hstores).clean he₂
    have he₀ : s₀.errors = [] := ((within_allocateRecord keeps _ _).apply halloc).clean he₁
    obtain ⟨ty, identity, fields, hpair, hty, hactual, rfl⟩ := recordType?_clean hfound he₀
    obtain rfl := Option.some.inj hpair
    obtain ⟨rfl, rfl⟩ := pure_eq.mp r₅
    exact ⟨ty, identity, fields, allocation, s₁, stores, hty, hactual, halloc, he₁, hstores, by simpa using hgiven, rfl⟩

lemma callCode_clean {name : String} {signature : Signature} {code : List Code} {actuals : List Access} {a : Lowered}
    (h : callCode name signature code actuals s = (a, t)) (ht : t.errors = []) :
    ∃ result s₁ operation, resultTemp signature.result s = (result, s₁) ∧
      callOperation name signature.entry result actuals s₁ = (operation, t) ∧
      a = { code := code ++ [.op t.currentFrame operation], ty := signature.result, place := result.map .temp } := by
  obtain ⟨-, r₁⟩ := unlessError_clean h ht
  obtain ⟨result, s₁, hresult, r₂⟩ := bind_eq.mp r₁
  obtain ⟨operation, s₂, hoperation, r₃⟩ := bind_eq.mp r₂
  rw [currentFrame_bind] at r₃
  obtain ⟨rfl, rfl⟩ := pure_eq.mp r₃
  exact ⟨result, s₁, operation, hresult, hoperation, rfl⟩

lemma call_clean {span : Span} {function : Ident} {given : Nat}
    {arguments : List Param → Analysis (List Code × List Access)} {a : Lowered}
    (h : call span function given arguments s = (a, t)) (ht : t.errors = []) :
    ∃ id signature code actuals s₁ s₂ s₃, s.values.get? function.name = some (.function id signature) ∧
      arguments signature.params s = ((code, actuals), s₁) ∧ s₁.errors = [] ∧ signature.params.length = given ∧
      noteCall id s₁ = ((), s₂) ∧ noteEdge signature.entry s₂ = ((), s₃) ∧
      callCode function.name signature code actuals s₃ = (a, t) := by
  unfold call at h
  rw [value?_bind] at h
  rcases hfound : s.values.get? function.name with - | ⟨info | ⟨id, signature⟩⟩
  all_goals simp only [hfound] at h
  · exact (report_bind_clean h ht).elim
  · exact (report_bind_clean h ht).elim
  · obtain ⟨⟨code, actuals⟩, s₁, hargs, r₁⟩ := bind_eq.mp h
    obtain ⟨_, s₁', hcount, r₂⟩ := bind_eq.mp r₁
    obtain ⟨_, s₂, hcall, r₃⟩ := bind_eq.mp r₂
    obtain ⟨_, s₃, hedge, r₄⟩ := bind_eq.mp r₃
    have he₃ := ((within_callCode keeps _ _ _ _).apply r₄).clean ht
    have he₁ := ((keeps.noteCall _).apply hcall).clean (((keeps.noteEdge _).apply hedge).clean he₃)
    obtain ⟨hgiven, rfl⟩ := reportIf_clean hcount he₁
    exact ⟨id, signature, code, actuals, _, s₂, s₃, rfl, hargs, he₁, by simpa using hgiven, hcall, hedge, r₄⟩

lemma variableType_clean {name : Ident} {declared : Option Ident} {given ty : Ty} {span : Span}
    (h : variableType name declared given span s = (ty, t)) (hs : s.Sound) (ht : t.errors = []) :
    given ≠ .void ∧ (ty = given ∨ s.typeTable.fits given ty) ∧ t = s := by
  unfold variableType at h
  cases declared with
  | none =>
    obtain ⟨nil, _, hn, r₁⟩ := bind_eq.mp h
    obtain ⟨rfl, rfl⟩ := Prod.mk.inj hn
    obtain ⟨void, _, hv, r₂⟩ := bind_eq.mp r₁
    obtain ⟨rfl, rfl⟩ := Prod.mk.inj hv
    split at r₂
    · exact (report_bind_clean r₂ ht).elim
    · rename_i hneither
      obtain ⟨rfl, rfl⟩ := pure_eq.mp r₂
      simp only [Bool.or_eq_true, not_or, TypeTable.isVoid_iff hs.table] at hneither
      exact ⟨hneither.2, Or.inl rfl, rfl⟩
  | some declared =>
    simp only [type?_bind] at h
    cases hty : s.types.get? declared.name with
    | none =>
      simp only [hty] at h
      exact (report_bind_clean h ht).elim
    | some found =>
      simp only [hty] at h
      obtain ⟨_, s₁, hc, r₁⟩ := bind_eq.mp h
      obtain ⟨rfl, rfl⟩ := pure_eq.mp r₁
      obtain ⟨hfits, rfl⟩ := checkType_clean hc ht
      have hplain := hs.types _ _ (ScopeStack.binds_of_get? hty)
      exact ⟨TypeTable.ne_void_of_fits hs.table (Ty.isSolid_of_isPlain hplain) hfits, Or.inr hfits, rfl⟩

lemma variableDeclaration_clean {name : Ident} {declared : Option Ident} {value : Part} (hv : Lowers value.lower)
    {code : List Code} (h : variableDeclaration name declared value s = (code, t)) (hs : s.Sound) (ht : t.errors = []) :
    ∃ init s₁ ty source, value.lower s = (init, s₁) ∧ s₁.errors = [] ∧ init.place = some source ∧
      (ty = init.ty ∨ s₁.typeTable.fits init.ty ty) ∧
      t = { s₁.withTemp with
        values := s₁.values.put name.name (.var { ty, place := ⟨s₁.supply.temps⟩, assignable := true }) } ∧
      code = init.code ++ [.op s₁.currentFrame (.move (.temp ⟨s₁.supply.temps⟩) source)] := by
  obtain ⟨init, s₁, hinit, r₁⟩ := bind_eq.mp h
  obtain ⟨ty, s₁', hty, r₂⟩ := bind_eq.mp r₁
  simp only [newTemp_bind] at r₂
  obtain ⟨_, s₂, hput, r₃⟩ := bind_eq.mp r₂
  obtain rfl := congrArg Prod.snd hput
  obtain ⟨he, r₄⟩ := unlessError_clean r₃ ht
  obtain ⟨hvoid, hfits, rfl⟩ := variableType_clean hty (hv.sound hinit hs) he
  obtain ⟨source, hsource⟩ := (hv.placed hinit hs he).exists_place hvoid
  simp only [hsource, currentFrame_bind] at r₄
  obtain ⟨rfl, rfl⟩ := pure_eq.mp r₄
  exact ⟨init, _, ty, source, hinit, he, hsource, hfits, rfl, rfl⟩

lemma functionBody_clean {declared : Declared} {body : Part} {code : List Code}
    (h : functionBody declared body s = (code, t)) (ht : t.errors = []) :
    ∃ inside, inFunction declared body.lower s = (inside, t) ∧ t.typeTable.fits inside.ty declared.result ∧
      code = .label declared.entry.label :: inside.code ++
        moveInto declared.entry.frame declared.entry.resultPlace inside.place ++ [.op declared.entry.frame .ret] := by
  obtain ⟨inside, s₁, hinside, r₁⟩ := bind_eq.mp h
  obtain ⟨_, s₂, hc, r₂⟩ := bind_eq.mp r₁
  obtain ⟨he, r₃⟩ := unlessError_clean r₂ ht
  obtain ⟨hfits, rfl⟩ := checkType_clean hc he
  obtain ⟨rfl, rfl⟩ := pure_eq.mp r₃
  exact ⟨inside, hinside, hfits, rfl⟩

lemma functionGroup_clean {members : List FunctionDecl} {bodies : List Declared → Analysis (List Code)}
    {code : List Code} (h : functionGroup members bodies s = (code, t)) (ht : t.errors = []) :
    ∃ declared s₁ inside s₂ s₃, declareFunctions [] members s = (declared, s₁) ∧ bodies declared s₁ = (inside, s₂) ∧
      s₂.errors = [] ∧ closeForeigns (declared.map Declared.id) s₂ = ((), s₃) ∧ t = s₃.withLabel ∧
      code = .op s₃.currentFrame (.goto ⟨s₃.supply.labels⟩) :: inside ++ [.label ⟨s₃.supply.labels⟩] := by
  obtain ⟨declared, s₁, hd, r₁⟩ := bind_eq.mp h
  obtain ⟨inside, s₂, hb, r₂⟩ := bind_eq.mp r₁
  obtain ⟨_, s₃, hclose, r₃⟩ := bind_eq.mp r₂
  obtain ⟨he₃, r₄⟩ := unlessError_clean r₃ ht
  simp only [newLabel_bind, currentFrame_bind] at r₄
  obtain ⟨rfl, rfl⟩ := pure_eq.mp r₄
  exact ⟨declared, s₁, inside, s₂, s₃, hd, hb, ((keeps_closeForeigns _).apply hclose).clean he₃, hclose, rfl, rfl⟩

lemma placed_void (code : List Code) : Placed { code, ty := .void } := ⟨by simp, by simp⟩

lemma placed_temp (code : List Code) {ty : Ty} (hty : ty ≠ .void) (temp : Temp) :
    Placed { code, ty, place := some (.temp temp) } :=
  ⟨by simp [hty], by simp⟩

lemma placed_result {code : List Code} {ty : Ty} {result : Option Temp} (h : resultTemp ty s = (result, t))
    (hs : s.Sound) : Placed { code, ty, place := result.map .temp } := by
  rcases resultTemp_eq h hs with ⟨rfl, rfl, -⟩ | ⟨hty, rfl, -⟩
  · exact placed_void code
  · exact placed_temp code hty _

lemma ne_void_of_isPlain {ty : Ty} (h : ty.isPlain) : ty ≠ .void := by
  rintro rfl
  cases h

lemma lowers_int (value : Word) : Lowers (pure { ty := .int, place := some (.int value) }) where
  keeps := .pure _
  ensures := .pure rfl
  placed hm _ _ := by
    obtain ⟨rfl, -⟩ := pure_eq.mp hm
    exact ⟨by simp, by simp [Access.int]⟩

lemma lowers_string (text : String) :
    Lowers (do return { ty := .string, place := some (.const (← internString text)) }) where
  keeps := compositional_keeps.string text
  ensures := (ensures_internString _).bind fun _ _ => .pure rfl
  placed hm _ _ := by
    obtain ⟨constant, _, -, r₁⟩ := bind_eq.mp hm
    obtain ⟨rfl, -⟩ := pure_eq.mp r₁
    exact ⟨by simp, by simp⟩

lemma lowers_nil : Lowers (pure { ty := .nil, place := some (.int 0) }) where
  keeps := .pure _
  ensures := .pure rfl
  placed hm _ _ := by
    obtain ⟨rfl, -⟩ := pure_eq.mp hm
    exact ⟨by simp, by simp [Access.int]⟩

lemma locates_variablePlace (assigning : Bool) (name : Ident) : Locates (variablePlace assigning name) where
  keeps := within_variablePlace keeps _ _
  ensures := ensures_variablePlace _ _
  placed hm _ ht := by
    obtain ⟨info, -, -, -, rfl⟩ := variablePlace_clean hm ht
    exact ⟨_, rfl, rfl⟩

lemma locates_fieldPlace {base : Analysis Lowered} (hb : Locates base) (field : Ident) :
    Locates (fieldPlace base field) where
  keeps := within_fieldPlace keeps hb.keeps _
  ensures := ensures_fieldPlace hb.ensures _
  placed hm hs ht := by
    obtain ⟨_, _, _, _, _, _, _, _, _, -, -, -, -, -, -, rfl⟩ := fieldPlace_clean hb hm hs ht
    exact ⟨_, rfl, rfl⟩

lemma locates_elementPlace (span : Span) {base : Analysis Lowered} {index : Part} (hb : Locates base)
    (hi : Lowers index.lower) : Locates (elementPlace span base index) where
  keeps := within_elementPlace keeps _ hb.keeps hi.keeps
  ensures := ensures_elementPlace _ hb.ensures hi.ensures
  placed hm hs ht := by
    obtain ⟨_, _, _, _, _, _, _, _, _, _, _, -, -, -, -, -, -, -, -, -, -, rfl⟩ := elementPlace_clean hb hi hm hs ht
    exact ⟨_, rfl, rfl⟩

lemma lowers_assignment (span : Span) {target value : Analysis Lowered} (htarget : Locates target)
    (hvalue : Lowers value) : Lowers (assignment span target value) where
  keeps := within_assignment keeps _ htarget.keeps hvalue.keeps
  ensures := ensures_assignment _ htarget.ensures hvalue.ensures
  placed hm hs ht := by
    obtain ⟨_, _, _, _, _, -, -, -, -, -, -, -, rfl⟩ := assignment_clean htarget hvalue hm hs ht
    exact placed_void _

lemma lowers_negation {operand : Part} (ho : Lowers operand.lower) : Lowers (negation operand) where
  keeps := within_negation keeps ho.keeps
  ensures := ensures_negation ho.ensures
  placed hm hs ht := by
    obtain ⟨_, _, _, -, -, -, -, -, rfl⟩ := negation_clean ho hm hs ht
    exact placed_temp _ (by simp) _

lemma lowers_operation (span : Span) (operator : Operator) (operatorSpan : Span) {lhs rhs : Part}
    (hl : Lowers lhs.lower) (hr : Lowers rhs.lower) : Lowers (operation span operator operatorSpan lhs rhs) where
  keeps := within_operation keeps _ _ _ hl.keeps hr.keeps
  ensures := ensures_operation _ _ _ hl.ensures hr.ensures
  placed hm hs ht := by
    obtain ⟨_, _, _, _, _, _, _, _, -, -, -, -, -, -, -, -, rfl⟩ := operation_clean hl hr hm hs ht
    exact placed_temp _ (by simp) _

lemma lowers_breakLoop (span : Span) : Lowers (breakLoop span) where
  keeps := within_breakLoop keeps _
  ensures := ensures_breakLoop _
  placed hm _ ht := by
    obtain ⟨_, _, -, -, rfl⟩ := breakLoop_clean hm ht
    exact placed_void _

lemma lowers_ifThen {condition positive : Part} (hc : Lowers condition.lower) (hp : Lowers positive.lower) :
    Lowers (ifThen condition positive) where
  keeps := within_ifThen keeps hc.keeps hp.keeps
  ensures := ensures_ifThen hc.ensures hp.ensures
  placed hm hs ht := by
    obtain ⟨_, _, _, _, _, -, -, -, -, -, -, rfl⟩ := ifThen_clean hc hp hm hs ht
    exact placed_void _

lemma lowers_ifThenElse {condition positive negative : Part} (hc : Lowers condition.lower)
    (hp : Lowers positive.lower) (hn : Lowers negative.lower) : Lowers (ifThenElse condition positive negative) where
  keeps := within_ifThenElse keeps hc.keeps hp.keeps hn.keeps
  ensures := ensures_ifThenElse hc.ensures hp.ensures hn.ensures
  placed {s a t} hm hs ht := by
    obtain ⟨_, _, _, _, _, s₃, result, _, _, htest, -, hyes, -, hno, -, -, hresult, -, -, -, hplace⟩ :=
      ifThenElse_clean hc hp hn hm hs ht
    have hs₃ := hn.sound hno (hp.sound hyes (hc.sound htest hs))
    have hplaced : Placed { a with place := result.map .temp } := placed_result hresult hs₃
    rwa [← hplace] at hplaced

lemma lowers_whileLoop {condition body : Part} (hc : Lowers condition.lower) (hb : Lowers body.lower) :
    Lowers (whileLoop condition body) where
  keeps := within_whileLoop keeps hc.keeps hb.keeps
  ensures := ensures_whileLoop hc.ensures hb.ensures
  placed hm hs ht := by
    obtain ⟨_, _, _, _, -, -, -, -, rfl⟩ := whileLoop_clean hc hb hm hs ht
    exact placed_void _

lemma lowers_forLoop (counter : Ident) {first last body : Part} (hf : Lowers first.lower) (hl : Lowers last.lower)
    (hb : Lowers body.lower) : Lowers (forLoop counter first last body) where
  keeps := within_forLoop keeps _ hf.keeps hl.keeps hb.keeps
  ensures := ensures_forLoop _ hf.ensures hl.ensures hb.ensures
  placed hm hs ht := by
    obtain ⟨_, _, _, _, _, _, _, _, -, -, -, -, -, -, -, -, -, rfl⟩ := forLoop_clean hf hl hb hm hs ht
    exact placed_void _

lemma lowers_letIn {declarations : Analysis (List Code)} {body : Analysis Lowered} (hk : Within Declares declarations)
    (he : Ensures (fun _ => True) declarations) (hb : Lowers body) : Lowers (letIn declarations body) where
  keeps := keeps.letIn hk hb.keeps
  ensures := ensures_letIn he hb.ensures
  placed {s a t} hm hs ht := by
    obtain ⟨_, s₁, inside, s₂, hd, hbody, rfl, rfl⟩ := letIn_eq hm
    have hplaced := hb.placed hbody (he.apply hd (sound_openScopes hs)).1 ht
    exact ⟨hplaced.none_iff, hplaced.string⟩

lemma lowers_arrayCreation (name : Ident) {size init : Part} (hsize : Lowers size.lower) (hinit : Lowers init.lower) :
    Lowers (arrayCreation name size init) where
  keeps := within_arrayCreation keeps _ hsize.keeps hinit.keeps
  ensures := ensures_arrayCreation _ hsize.ensures hinit.ensures
  placed hm hs ht := by
    obtain ⟨ty, _, _, _, _, _, _, _, _, hty, -, -, -, -, -, -, -, -, harray⟩ :=
      arrayCreation_clean hsize hinit hm hs ht
    obtain rfl := congrArg Prod.fst harray
    exact placed_temp _ (ne_void_of_isPlain (hs.types _ _ (ScopeStack.binds_of_get? hty))) _

lemma lowers_recordCreation (span : Span) (name : Ident) (given : Nat)
    {init : Temp → List (String × Ty) → Analysis (List Code)} {check : Analysis Unit}
    (hki : ∀ target declared, Within Keeps (init target declared)) (hkc : Within Keeps check)
    (hi : ∀ target declared, Ensures (fun _ => True) (init target declared)) (hc : Ensures (fun _ => True) check) :
    Lowers (recordCreation span name given init check) where
  keeps := within_recordCreation keeps _ _ _ hki hkc
  ensures := ensures_recordCreation _ _ _ hi hc
  placed hm hs ht := by
    obtain ⟨ty, _, _, _, _, _, hty, -, -, -, -, -, rfl⟩ := recordCreation_clean hki hkc hm ht
    exact placed_temp _ (ne_void_of_isPlain (hs.types _ _ (ScopeStack.binds_of_get? hty))) _

lemma lowers_call (span : Span) (function : Ident) (given : Nat)
    {arguments : List Param → Analysis (List Code × List Access)} (hk : ∀ params, Within Keeps (arguments params))
    (ha : ∀ params, Ensures (fun _ => True) (arguments params)) : Lowers (call span function given arguments) where
  keeps := within_call keeps _ _ _ hk
  ensures := ensures_call _ _ _ hk ha
  placed {s a t} hm hs ht := by
    obtain ⟨id, signature, _, _, s₁, s₂, s₃, hfound, hargs, -, -, hcall, hedge, hcode⟩ := call_clean hm ht
    obtain ⟨result, _, _, hresult, -, rfl⟩ := callCode_clean hcode ht
    exact placed_result hresult (sound_noted ((ha _).apply hargs hs).1 ((hk _).apply hargs)
      (ScopeStack.binds_of_get? hfound) hcall hedge)

lemma lowers_sequence {first rest : Analysis Lowered} (hf : Lowers first) (hr : Lowers rest) : Lowers (do
    let value ← first
    let others ← rest
    return { others with code := value.code ++ others.code }) where
  keeps := compositional_keeps.sequence _ _ hf.keeps hr.keeps
  ensures := hf.ensures.bind fun _ _ => hr.ensures.bind fun _ h => .pure h
  placed hm hs ht := by
    obtain ⟨value, s₁, hvalue, r₁⟩ := bind_eq.mp hm
    obtain ⟨others, s₂, hothers, r₂⟩ := bind_eq.mp r₁
    obtain ⟨rfl, rfl⟩ := pure_eq.mp r₂
    have hplaced := hr.placed hothers (hf.sound hvalue hs) ht
    exact ⟨hplaced.none_iff, hplaced.string⟩

lemma lowers_emptySequence : Lowers (pure { ty := .void }) where
  keeps := .pure _
  ensures := .pure rfl
  placed hm _ _ := by
    obtain ⟨rfl, -⟩ := pure_eq.mp hm
    exact placed_void _

end Analysis

lemma codes_analyze {expression : Expr} (h : (analyze expression).1 = []) :
    (analyze expression).2.codes = (Analysis.lowerExpr expression Analyzer.initial).1.code :=
  if_pos (List.isEmpty_iff.mpr h)

end TigerMips
