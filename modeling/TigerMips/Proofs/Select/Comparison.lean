import TigerMips.Proofs.Analysis.Parts
import TigerMips.Proofs.Select.Simulation
import TigerMips.Proofs.Select.Texts

/-! The order of two texts. Their bytes are compared with a sign, up to the first one that differs, and the zero behind
a text is compared as one of them. -/

namespace TigerMips

def signed (byte : UInt8) : Int := byte.toInt8.toInt

/-- The order of two texts by their first bytes that differ. The zero behind a text counts as one of them. -/
def textOrder : List UInt8 → List UInt8 → Ordering
  | [], [] => .eq
  | [], b :: _ => compare (signed 0) (signed b)
  | a :: _, [] => compare (signed a) (signed 0)
  | a :: left, b :: right => if a = b then textOrder left right else compare (signed a) (signed b)

def SameHalf (left right : List UInt8) : Prop :=
  ∀ common a b rest rest', left = common ++ a :: rest → right = common ++ b :: rest' → a ≠ b → (a < 128 ↔ b < 128)

def Word.ofOrdering : Ordering → Word
  | .lt => -1
  | .eq => 0
  | .gt => 1

def Relation.holds : Relation → Ordering → Bool
  | eq => Ordering.isEq
  | neq => Ordering.isNe
  | lt => Ordering.isLT
  | leq => Ordering.isLE
  | gt => Ordering.isGT
  | geq => Ordering.isGE

lemma Relation.test_ofOrdering (relation : Relation) (order : Ordering) :
    relation.test (Word.ofOrdering order) 0 = relation.holds order := by
  cases relation <;> cases order <;> decide

section

variable {a b : UInt8} {left right : List UInt8}

lemma signed_eq (a : UInt8) : signed a = if a.toNat < 128 then (a.toNat : Int) else a.toNat - 256 := by
  have hint : signed a = _ := BitVec.toInt_eq_toNat_cond a.toBitVec
  have hnat : a.toBitVec.toNat = a.toNat := rfl
  rw [hint]
  split <;> split <;> omega

lemma signed_inj : signed a = signed b ↔ a = b := by
  refine ⟨fun h => ?_, congrArg signed⟩
  have ha := a.toNat_lt
  have hb := b.toNat_lt
  rw [signed_eq, signed_eq] at h
  apply UInt8.toNat_inj.mp
  split at h <;> split at h <;> omega

lemma compare_signed_iff (h : a ≠ b) :
    compare (signed a) (signed b) = compareOfLessAndEq a b ↔ (a < 128 ↔ b < 128) := by
  have hne : a.toNat ≠ b.toNat := fun hc => h (UInt8.toNat_inj.mp hc)
  have ha := a.toNat_lt
  have hb := b.toNat_lt
  have h128 : UInt8.toNat 128 = 128 := rfl
  simp only [compareOfLessAndEq, if_neg h, UInt8.lt_iff_toNat_lt, h128]
  rcases lt_or_gt_of_ne hne with hlt | hgt
  · rw [if_pos hlt, compare_lt_iff_lt, signed_eq, signed_eq]
    split <;> split <;> omega
  · rw [if_neg (by omega), compare_gt_iff_gt, signed_eq, signed_eq]
    split <;> split <;> omega

lemma sameHalf_cons :
    SameHalf (a :: left) (b :: right) ↔ if a = b then SameHalf left right else (a < 128 ↔ b < 128) := by
  split
  · rename_i hab
    subst hab
    refine ⟨fun h common c d rest rest' hl hr => h (a :: common) c d rest rest' (by simp [hl]) (by simp [hr]), ?_⟩
    intro h common c d rest rest' hl hr hne
    cases common with
    | nil =>
      obtain ⟨rfl, -⟩ := List.cons.inj hl
      obtain ⟨rfl, -⟩ := List.cons.inj hr
      exact absurd rfl hne
    | cons e common => exact h common c d rest rest' (List.cons.inj hl).2 (List.cons.inj hr).2 hne
  · rename_i hab
    refine ⟨fun h => h [] a b left right rfl rfl hab, ?_⟩
    intro h common c d rest rest' hl hr _
    cases common with
    | nil =>
      obtain ⟨rfl, -⟩ := List.cons.inj hl
      obtain ⟨rfl, -⟩ := List.cons.inj hr
      exact h
    | cons e common => exact absurd ((List.cons.inj hl).1.trans (List.cons.inj hr).1.symm) hab

lemma textOrder_eq_iff (hl : ∀ byte ∈ left, byte ≠ 0) (hr : ∀ byte ∈ right, byte ≠ 0) :
    textOrder left right = compareOfLessAndEq left right ↔ SameHalf (left ++ [0]) (right ++ [0]) := by
  induction left generalizing right with
  | nil =>
    cases right with
    | nil =>
      have hnil : SameHalf ([] : List UInt8) [] := by simp [SameHalf]
      simp [textOrder, compareOfLessAndEq, sameHalf_cons, hnil]
    | cons b right =>
      have hb : (0 : UInt8) ≠ b := (hr b (by simp)).symm
      have hlt : compareOfLessAndEq [] (b :: right) = compareOfLessAndEq 0 b := by
        have : 0 < b := UInt8.pos_iff_ne_zero.mpr hb.symm
        simp [compareOfLessAndEq, this]
      rw [hlt, List.nil_append, List.cons_append, sameHalf_cons, if_neg hb]
      exact compare_signed_iff hb
  | cons a left ih =>
    have ha : a ≠ 0 := hl a (by simp)
    cases right with
    | nil =>
      have hgt : compareOfLessAndEq (a :: left) [] = compareOfLessAndEq a 0 := by
        simp [compareOfLessAndEq, ha]
      rw [hgt, List.nil_append, List.cons_append, sameHalf_cons, if_neg ha]
      exact compare_signed_iff ha
    | cons b right =>
      rw [List.cons_append, List.cons_append, sameHalf_cons, List.compareOfLessAndEq_cons, textOrder]
      by_cases hab : a = b
      · rw [if_pos hab, if_pos hab, if_pos hab]
        exact ih (fun byte hm => hl byte (by simp [hm])) fun byte hm => hr byte (by simp [hm])
      · rw [if_neg hab, if_neg hab, if_neg hab]
        exact compare_signed_iff hab

lemma textOrder_eq_eq (hl : ∀ byte ∈ left, byte ≠ 0) (hr : ∀ byte ∈ right, byte ≠ 0) :
    textOrder left right = .eq ↔ left = right := by
  induction left generalizing right with
  | nil =>
    cases right with
    | nil => simp [textOrder]
    | cons b right =>
      have hb : signed 0 ≠ signed b := fun hc => hr b (by simp) (signed_inj.mp hc).symm
      simpa [textOrder] using hb
  | cons a left ih =>
    cases right with
    | nil =>
      have ha : signed a ≠ signed 0 := fun hc => hl a (by simp) (signed_inj.mp hc)
      simpa [textOrder] using ha
    | cons b right =>
      by_cases hab : a = b
      · simpa [textOrder, hab] using ih (fun byte hm => hl byte (by simp [hm])) fun byte hm => hr byte (by simp [hm])
      · simp [textOrder, hab, signed_inj]

end

namespace Select

open Machine Memory

structure Comparison where
  left : Temp
  right : Temp
  leftByte : Temp
  rightByte : Temp
  start : Label
  exit : Label
  decided : Ordering → Label
  storing : Ordering → List Line

namespace Comparison

variable (comparison : Comparison) (context : Context)

def loop : List Line :=
  [.label comparison.start,
    loadByte context comparison.leftByte comparison.left,
    loadByte context comparison.rightByte comparison.right,
    context.line (.branch .gt comparison.leftByte comparison.rightByte (comparison.decided .gt)),
    context.line (.branch .lt comparison.leftByte comparison.rightByte (comparison.decided .lt)),
    context.line (.branch .eq comparison.leftByte context.registers.zero (comparison.decided .eq)),
    increment context comparison.left 1,
    increment context comparison.right 1,
    context.line (.jump comparison.start)]

def lines : List Line :=
  comparison.loop context ++ .label (comparison.decided .gt) :: comparison.storing .gt ++
    [context.line (.jump comparison.exit), .label (comparison.decided .lt)] ++ comparison.storing .lt ++
    [context.line (.jump comparison.exit), .label (comparison.decided .eq)] ++ comparison.storing .eq ++
    [.label comparison.exit]

def entry : Ordering → Nat
  | .gt => 9
  | .lt => 9 + (comparison.storing .gt).length + 2
  | .eq => 9 + (comparison.storing .gt).length + 2 + (comparison.storing .lt).length + 2

def temps : List Temp := [comparison.left, comparison.right, comparison.leftByte, comparison.rightByte]

lemma exists_lines_eq (order : Ordering) : ∃ before rest, before.length = comparison.entry order ∧
    comparison.lines context = before ++ .label (comparison.decided order) :: comparison.storing order ++ rest ∧
    (rest = [.label comparison.exit] ∨
      ∃ others, rest = context.line (.jump comparison.exit) :: others ++ [.label comparison.exit]) := by
  cases order with
  | gt =>
    refine ⟨comparison.loop context, _, rfl, by simp [lines], Or.inr ⟨.label (comparison.decided .lt) ::
      comparison.storing .lt ++ [context.line (.jump comparison.exit), .label (comparison.decided .eq)] ++
      comparison.storing .eq, rfl⟩⟩
  | lt =>
    refine ⟨comparison.loop context ++ .label (comparison.decided .gt) :: comparison.storing .gt ++
      [context.line (.jump comparison.exit)], _, ?_, by simp [lines],
      Or.inr ⟨.label (comparison.decided .eq) :: comparison.storing .eq, rfl⟩⟩
    simp [loop, entry]
    omega
  | eq =>
    refine ⟨comparison.loop context ++ .label (comparison.decided .gt) :: comparison.storing .gt ++
      [context.line (.jump comparison.exit), .label (comparison.decided .lt)] ++ comparison.storing .lt ++
      [context.line (.jump comparison.exit)], _, ?_, by simp [lines], Or.inl rfl⟩
    simp [loop, entry]
    omega

lemma getElem?_entry (order : Ordering) :
    (comparison.lines context)[comparison.entry order]? = some (.label (comparison.decided order)) := by
  obtain ⟨before, rest, hlength, hlines, -⟩ := comparison.exists_lines_eq context order
  simp [hlines, ← hlength]

variable {comparison context} {link : Linkage} {store : Store} {left right : List UInt8}

lemma leads_storing {after : Store} (order : Ordering) (h : run? link store (comparison.storing order) = some after) :
    Leads link (comparison.lines context) (comparison.entry order) store [] (comparison.lines context).length
      after := by
  obtain ⟨before, rest, hlength, hlines, hrest⟩ := comparison.exists_lines_eq context order
  have hstored : Passes link (.label (comparison.decided order) :: comparison.storing order) store [] after :=
    .of_run? (by rw [run?_cons]; exact h)
  rw [← hlength, hlines]
  refine (hstored.within before rest).followed ?_
  rw [← List.length_append]
  rcases hrest with rfl | ⟨others, rfl⟩
  · exact .last _ _ _
  · generalize before ++ .label (comparison.decided order) :: comparison.storing order = front
    have hline : (front ++ context.line (.jump comparison.exit) :: others ++ [.label comparison.exit])[front.length]? =
        some (context.line (.jump comparison.exit)) := by simp
    have hjump : Leads link (front ++ context.line (.jump comparison.exit) :: others ++ [.label comparison.exit])
        front.length after [] (front ++ context.line (.jump comparison.exit) :: others).length after :=
      .jump _ _ hline (by simp) rfl
    rw [← List.append_assoc]
    exact hjump.followed (.last _ _ _)

variable (hd : (context.registers.zero :: comparison.temps).Nodup) (hz : store.temps context.registers.zero = 0)

def read (comparison : Comparison) (store : Store) : Store :=
  (store.put comparison.leftByte (store.memory.loadByte (store.temps comparison.left))).put comparison.rightByte
    (store.memory.loadByte (store.temps comparison.right))

lemma test_loadByte_loadByte (memory : Memory) (a b : Word) :
    (Relation.gt.test (memory.loadByte a) (memory.loadByte b) = decide (signed (memory b) < signed (memory a))) ∧
      Relation.lt.test (memory.loadByte a) (memory.loadByte b) = decide (signed (memory a) < signed (memory b)) := by
  have hint : ∀ c, (memory.loadByte c).toInt = signed (memory c) := fun c => Int8.toInt_toInt32 _
  exact ⟨decide_eq_decide.mpr (by rw [Int32.lt_iff_toInt_lt, hint, hint]),
    decide_eq_decide.mpr (by rw [Int32.lt_iff_toInt_lt, hint, hint])⟩

lemma sameBut_read : store.SameBut comparison.temps (comparison.read store) :=
  ((Store.SameOn.refl store).put (by simp [temps]) _).put (by simp [temps]) _

include hd hz

lemma leads_decided {a b : UInt8} (ha : store.memory (store.temps comparison.left) = a)
    (hb : store.memory (store.temps comparison.right) = b) (h : a = b → a = 0) :
    Leads link (comparison.lines context) 0 store [] (comparison.entry (compare (signed a) (signed b)))
      (comparison.read store) := by
  simp only [temps, List.nodup_cons, List.mem_cons, List.not_mem_nil, or_false, not_or] at hd
  obtain ⟨⟨-, -, hzl, hzr⟩, ⟨-, hll, hlr⟩, ⟨hrl, hrr⟩, hlb, -⟩ := hd
  obtain ⟨hgt, hlt⟩ := test_loadByte_loadByte store.memory (store.temps comparison.left) (store.temps comparison.right)
  rw [ha, hb] at hgt hlt
  have hread : Leads link (comparison.lines context) 0 store [] 3 (comparison.read store) := by
    refine .stretch 0 3 (by simp [lines, loop]) (?_ : run? link store [.label comparison.start,
      loadByte context comparison.leftByte comparison.left, loadByte context comparison.rightByte comparison.right] = _)
    simp [run?_cons, Line.pass?, loadByte, Context.line, Operation.exec?, Operation.loadFrom, read, Store.put, hrl]
  have htest : ∀ relation : Relation, relation.test ((comparison.read store).temps comparison.leftByte)
      ((comparison.read store).temps comparison.rightByte) = relation.test (store.memory.loadByte
        (store.temps comparison.left)) (store.memory.loadByte (store.temps comparison.right)) := by
    simp [read, Store.put, hlb]
  have hentry := comparison.getElem?_entry context
  refine hread.followed ?_
  rcases hc : compare (signed a) (signed b) with - | - | -
  · have hlt' : signed a < signed b := compare_lt_iff_lt.mp hc
    have hpass : run? link (comparison.read store) [context.line (.branch .gt comparison.leftByte comparison.rightByte
        (comparison.decided .gt))] = some (comparison.read store) := by
      simp [run?_cons, Line.pass?, Context.line, Operation.exec?, htest, hgt, hlt'.le]
    exact (Leads.stretch 3 1 (by simp [lines, loop]) hpass).followed (.jump 4 _ rfl (hentry .lt) (by
      simp [Operation.exec?, htest, hlt, hlt']))
  · have heq : signed a = signed b := compare_eq_iff_eq.mp hc
    have hzero := h (signed_inj.mp heq)
    have hpass : run? link (comparison.read store) [context.line (.branch .gt comparison.leftByte comparison.rightByte
        (comparison.decided .gt)), context.line (.branch .lt comparison.leftByte comparison.rightByte
        (comparison.decided .lt))] = some (comparison.read store) := by
      simp [run?_cons, Line.pass?, Context.line, Operation.exec?, htest, hgt, hlt, heq]
    have hleave : Relation.eq.test ((comparison.read store).temps comparison.leftByte)
        ((comparison.read store).temps context.registers.zero) = true := by
      simp [read, Store.put, hlb, hzl, hzr, hz, test_loadByte, ha, hzero]
    exact (Leads.stretch 3 2 (by simp [lines, loop]) hpass).followed (.jump 5 _ rfl (hentry .eq) (by
      simp [Operation.exec?, hleave]))
  · have hgt' : signed b < signed a := compare_gt_iff_gt.mp hc
    exact .jump 3 _ rfl (hentry .gt) (by simp [Operation.exec?, htest, hgt, hgt'])

lemma leads_next (link : Linkage)
    (ha : store.memory (store.temps comparison.left) = store.memory (store.temps comparison.right))
    (hne : store.memory (store.temps comparison.left) ≠ 0) :
    ∃ next, Leads link (comparison.lines context) 0 store [] 0 next ∧ next.memory = store.memory ∧
      next.temps comparison.left = store.temps comparison.left + 1 ∧
      next.temps comparison.right = store.temps comparison.right + 1 ∧ store.SameBut comparison.temps next := by
  simp only [temps, List.nodup_cons, List.mem_cons, List.not_mem_nil, or_false, not_or] at hd
  obtain ⟨⟨hzl, hzr, hzlb, hzrb⟩, ⟨hlr, hllb, hlrb⟩, ⟨hrlb, hrrb⟩, hbb, -⟩ := hd
  obtain ⟨hgt, hlt⟩ := test_loadByte_loadByte store.memory (store.temps comparison.left) (store.temps comparison.right)
  have hend := test_loadByte store.memory (store.temps comparison.left)
  let next := ((comparison.read store).put comparison.left (store.temps comparison.left + 1)).put comparison.right
    (store.temps comparison.right + 1)
  have hpass : run? link store [.label comparison.start, loadByte context comparison.leftByte comparison.left,
      loadByte context comparison.rightByte comparison.right,
      context.line (.branch .gt comparison.leftByte comparison.rightByte (comparison.decided .gt)),
      context.line (.branch .lt comparison.leftByte comparison.rightByte (comparison.decided .lt)),
      context.line (.branch .eq comparison.leftByte context.registers.zero (comparison.decided .eq)),
      increment context comparison.left 1, increment context comparison.right 1] = some next := by
    simp [run?_cons, Line.pass?, loadByte, increment, Context.line, Operation.exec?, Operation.loadFrom,
      Immediate.value, next, read, Store.put, hrlb, hbb, hzlb, hzrb, hllb, hlrb, hrrb, Ne.symm hlr, hz, hgt, hlt, hend,
      ha, ha ▸ hne]
  refine ⟨next, (Leads.stretch 0 8 (by simp [lines, loop]) hpass).followed (.jump 8 0 rfl rfl rfl), rfl, ?_, ?_,
    (sameBut_read.put (by simp [temps]) _).put (by simp [temps]) _⟩
  · simp [next, Store.put, hlr]
  · simp [next, Store.put]

lemma leads_loop (hleft : store.memory.HasText (store.temps comparison.left) left)
    (hright : store.memory.HasText (store.temps comparison.right) right) :
    ∃ after, Leads link (comparison.lines context) 0 store [] (comparison.entry (textOrder left right)) after ∧
      after.memory = store.memory ∧ store.SameBut comparison.temps after := by
  induction left generalizing right store with
  | nil =>
    cases right with
    | nil => exact ⟨_, leads_decided hd hz hleft hright fun _ => rfl, rfl, sameBut_read⟩
    | cons b right =>
      obtain ⟨hne, hb, -⟩ := hright
      exact ⟨_, leads_decided hd hz hleft hb fun _ => rfl, rfl, sameBut_read⟩
  | cons a left ih =>
    obtain ⟨hne, ha, hrest⟩ := hleft
    cases right with
    | nil => exact ⟨_, leads_decided hd hz ha hright id, rfl, sameBut_read⟩
    | cons b right =>
      obtain ⟨-, hb, hrest'⟩ := hright
      rw [textOrder]
      split
      · rename_i hab
        obtain ⟨next, hnext, hmemory, hl, hr, hsame⟩ := leads_next hd hz link (ha.trans (hab.trans hb.symm))
          (ha ▸ hne)
        have hzero : next.temps context.registers.zero = 0 := (hsame _ (List.nodup_cons.mp hd).1).trans hz
        obtain ⟨after, hleads, hmemory', hsame'⟩ := ih hzero (by rw [hl, hmemory]; exact hrest)
          (by rw [hr, hmemory]; exact hrest')
        exact ⟨after, hnext.followed hleads, hmemory'.trans hmemory, hsame.trans hsame'⟩
      · rename_i hab
        exact ⟨_, leads_decided hd hz ha hb fun hc => absurd hc hab, rfl, sameBut_read⟩

end Comparison

variable {context : Context} {link : Linkage} {bound : Nat} {store : Store} {s s' : Selection} {lines : List Line}
  {first second : Access} {destination : Option Access}

lemma compareStrings_eq_ok (h : compareStrings context first second destination s = .ok (lines, s')) :
    ∃ (comparison : Comparison) (firstLines secondLines : List Line) (s₁ s₂ s₃ s₄ : Selection),
      comparison.temps = Temp.fresh s.supply.temps 4 ∧
      loadInto context comparison.left first (s.drawn context.frame 4 5) = .ok (firstLines, s₁) ∧
      loadInto context comparison.right second s₁ = .ok (secondLines, s₂) ∧
      storeResult context destination (.int 1) s₂ = .ok (comparison.storing .gt, s₃) ∧
      storeResult context destination (.int (-1)) s₃ = .ok (comparison.storing .lt, s₄) ∧
      storeResult context destination (.int 0) s₄ = .ok (comparison.storing .eq, s') ∧
      lines = firstLines ++ secondLines ++ comparison.lines context := by
  have hlabeled := newLabel_bind context.frame (newLabel_bind context.frame (newLabel_bind context.frame h))
  have htemps := newLabel_bind context.frame (newLabel_bind context.frame hlabeled)
  have h := newTempIn_bind (newTempIn_bind (newTempIn_bind (newTempIn_bind htemps)))
  obtain ⟨firstLines, s₁, hfirst, h⟩ := bind_eq_ok.mp h
  obtain ⟨secondLines, s₂, hsecond, h⟩ := bind_eq_ok.mp h
  obtain ⟨one, s₃, hone, h⟩ := bind_eq_ok.mp h
  obtain ⟨minusOne, s₄, hminusOne, h⟩ := bind_eq_ok.mp h
  obtain ⟨zero, s₅, hzero, h⟩ := bind_eq_ok.mp h
  obtain ⟨rfl, rfl⟩ := pure_eq_ok.mp h
  simp only [Selection.drawn_drawn] at hfirst
  let comparison : Comparison := {
    left := ⟨s.supply.temps⟩
    right := ⟨s.supply.temps + 1⟩
    leftByte := ⟨s.supply.temps + 2⟩
    rightByte := ⟨s.supply.temps + 3⟩
    start := ⟨s.supply.labels⟩
    exit := ⟨s.supply.labels + 4⟩
    decided
      | .gt => ⟨s.supply.labels + 1⟩
      | .lt => ⟨s.supply.labels + 2⟩
      | .eq => ⟨s.supply.labels + 3⟩
    storing
      | .gt => one
      | .lt => minusOne
      | .eq => zero }
  exact ⟨comparison, firstLines, secondLines, _, _, _, _, rfl, hfirst, hsecond, hone, hminusOne, hzero, by
    simp [Comparison.lines, Comparison.loop, comparison]⟩

lemma callRuntime_strcmp {rest : List Access} :
    callRuntime context destination Runtime.strcmp.name (first :: second :: rest) s =
      compareStrings context first second destination s := by
  simp only [callRuntime, Runtime.ofName?_name, expand, argument, List.getElem?_cons_zero,
    List.getElem?_cons_succ, pure_bind]

lemma run?_storing {comparison : Comparison} {s₂ s₃ s₄ : Selection} {start : Store}
    (hgt : storeResult context destination (.int 1) s₂ = .ok (comparison.storing .gt, s₃))
    (hlt : storeResult context destination (.int (-1)) s₃ = .ok (comparison.storing .lt, s₄))
    (heq : storeResult context destination (.int 0) s₄ = .ok (comparison.storing .eq, s'))
    (hready : Ready context.registers bound s₂) (hd : ∀ place ∈ destination, Temp.Below bound place.temps)
    (hz : store.temps context.registers.zero = 0)
    (hsame : ∀ u : Temp, u.number < bound → store.temps u = start.temps u) (order : Ordering) :
    ∃ after, run? link store (comparison.storing order) = some after ∧
      start.Delivers link bound store.memory destination (Word.ofOrdering order) after ∧
      after.temps context.registers.zero = 0 := by
  have hconst : ∀ (t : Selection) (value : Word), Temp.Below t.supply.temps (Access.int value).temps :=
    fun _ _ _ h => nomatch h
  obtain ⟨⟨k, rfl⟩, -⟩ := storeResult_ok link hgt hready hd (hconst _ _)
  obtain ⟨⟨l, rfl⟩, -⟩ := storeResult_ok link hlt (hready.drawn _ _ _) hd (hconst _ _)
  cases order with
  | gt => exact run?_storeResult link hgt hready hd (hconst _ _) hz hsame
  | lt => exact run?_storeResult link hlt (hready.drawn _ _ _) hd (hconst _ _) hz hsame
  | eq => exact run?_storeResult link heq ((hready.drawn _ _ _).drawn _ _ _) hd (hconst _ _) hz hsame

lemma passes_compareStrings (h : compareStrings context first second destination s = .ok (lines, s'))
    (hready : Ready context.registers bound s) (hfirst : Temp.Below bound first.temps)
    (hsecond : Temp.Below bound second.temps) (hd : ∀ place ∈ destination, Temp.Below bound place.temps)
    (hz : store.temps context.registers.zero = 0) {left right : List UInt8}
    (hleft : store.memory.HasText (first.value link store) left)
    (hright : store.memory.HasText (second.value link store) right) :
    ∃ after, Passes link lines store [] after ∧
      store.Delivers link bound store.memory destination (Word.ofOrdering (textOrder left right)) after ∧
      after.temps context.registers.zero = 0 := by
  obtain ⟨comparison, firstLines, secondLines, s₁, s₂, s₃, s₄, htemps, hfirstLines, hsecondLines, hgt, hlt, heq, rfl⟩ :=
    compareStrings_eq_ok h
  have hzero := hready.zero_drawn
  have hbound := hready.bound_le
  have hnodup : (context.registers.zero :: comparison.temps).Nodup :=
    htemps ▸ Temp.nodup_append_fresh (List.nodup_singleton _) (by simpa using hzero) 4
  have hold : ∀ {t : Temp}, t.number < s.supply.temps → t ∉ comparison.temps := fun ht =>
    htemps ▸ fun hm => absurd ht (Nat.not_lt.mpr (Temp.le_of_mem_fresh hm))
  obtain ⟨hleftTemp, htail⟩ := List.cons.inj htemps
  obtain ⟨hrightTemp, -⟩ := List.cons.inj htail
  have hne : comparison.left ≠ comparison.right := hleftTemp ▸ hrightTemp ▸ Temp.ne_of_lt (by simp)
  have hmem : comparison.left ∈ comparison.temps ∧ comparison.right ∈ comparison.temps := by simp [Comparison.temps]
  -- Both operands are read into new temps.
  obtain ⟨⟨k, rfl⟩, hreadFirst⟩ := loadInto_ok link hfirstLines (by simp; omega) (hfirst.mono (by simp; omega))
  obtain ⟨⟨l, rfl⟩, hreadSecond⟩ := loadInto_ok link hsecondLines (by simp; omega) (hsecond.mono (by simp; omega))
  obtain ⟨one, hone, hagree₁⟩ := hreadFirst store hz
  let two := one.put comparison.left (first.value link store)
  have hsame₂ : store.SameBelow (s.supply.temps + 4) comparison.temps two :=
    .put (fun t ht => (hagree₁.2 t ht.1).symm) (fun ht => ht.2 hmem.1) _
  have hzero₂ : two.temps context.registers.zero = 0 := (hsame₂ _ ⟨by omega, hold hzero⟩).trans hz
  have hvalue : second.value link two = second.value link store := Access.value_congr (fun t ht =>
    hsame₂ t ⟨by have := hsecond t ht; omega, hold ((hsecond t ht).trans_le hbound)⟩) hagree₁.1.symm
  obtain ⟨three, hthree, hagree₂⟩ := hreadSecond two hzero₂
  rw [hvalue] at hthree
  let four := three.put comparison.right (second.value link store)
  have hsame₄ : store.SameBelow (s.supply.temps + 4) comparison.temps four :=
    .put (hsame₂.trans fun t ht => (hagree₂.2 t (by simp; omega)).symm) (fun ht => ht.2 hmem.2) _
  have hmemory₄ : four.memory = store.memory := (hagree₁.1.trans hagree₂.1).symm
  have hleft₄ : four.temps comparison.left = first.value link store := by
    have hkept : two.temps comparison.left = three.temps comparison.left := hagree₂.2 _ (by simp [hleftTemp]; omega)
    simp [four, Store.put, hne, ← hkept, two]
  have hright₄ : four.temps comparison.right = second.value link store := by simp [four, Store.put]
  obtain ⟨five, hfive, hmemory₅, hsame₅⟩ := Comparison.leads_loop hnodup ((hsame₄ _ ⟨by omega, hold hzero⟩).trans hz)
    (by rw [hleft₄, hmemory₄]; exact hleft) (by rw [hright₄, hmemory₄]; exact hright)
  have hkept : ∀ t : Temp, t.number < s.supply.temps → five.temps t = store.temps t := fun t ht =>
    (hsame₅ t (hold ht)).trans (hsame₄ t ⟨by omega, hold ht⟩)
  obtain ⟨after, hrun, hdelivers, hafter⟩ := run?_storing hgt hlt heq
    (((hready.drawn _ _ _).drawn _ _ _).drawn _ _ _) hd ((hkept _ hzero).trans hz)
    (fun t ht => hkept t (ht.trans_le hbound)) (textOrder left right)
  refine ⟨after, ((Passes.of_run? hone).append (.of_run? hthree)).append
    (hfive.followed (Comparison.leads_storing _ hrun)), ?_, hafter⟩
  rwa [hmemory₅, hmemory₄] at hdelivers

end Select

open Machine Memory Select

namespace Tac.Program

variable {program : Tac.Program} {machine : Machine.Program} {position : Nat} {c : Code} {frame : FrameId}

lemma Selects.next {before own before' own' : List Line} (h : program.Selects machine position before own)
    (h' : program.Selects machine (position + 1) before' own') : before' = before ++ own := by
  obtain ⟨s, s₁, s₂, c, earlier, saves, hc, hreserve, hbefore, hown, -⟩ := h
  obtain ⟨t, t₁, t₂, c', earlier', saves', -, hreserve', hbefore', -, -⟩ := h'
  obtain ⟨-, rfl⟩ := Prod.mk.inj (Except.ok.inj (hreserve.symm.trans hreserve'))
  have hboth := codes_concat hbefore (by rwa [Nat.zero_add])
  rw [List.take_add_one, hc, Option.toList_some] at hbefore'
  exact (Prod.mk.inj (Prod.mk.inj (Except.ok.inj (hbefore'.symm.trans hboth))).1).1

lemma Numbered.runsAt_local (h : program.Numbered) (hgenerate : program.generate = .ok machine)
    (hc : program.codes[position]? = some c) {tac : Tac} (hop : c.op? = some (frame, tac)) (hlocal : tac.isLocal)
    {link : Linkage} (address : Nat → Word) {store result : Store} (hz : store.temps machine.registers.zero = 0)
    (he : tac.exec? link store = some (result, none)) :
    ∃ after, program.RunsAt machine position link address store [] after ∧ result.Agree program.supply.temps after ∧
      after.temps machine.registers.zero = 0 := by
  obtain ⟨s, before, own, saves, s', hselects, hown, hsettled⟩ := exists_settled hgenerate hc
  have hsettled : Settled (Context.mk frame machine.registers).registers program.supply.temps s := hsettled
  obtain ⟨-, htranslates⟩ := translates_code hown hsettled.ready
    (fun op ho => by
      obtain rfl := Option.some.inj (hop.symm.trans ho)
      exact hlocal)
    (fun op ho => by
      obtain rfl := Option.some.inj (hop.symm.trans ho)
      exact h.below hc hop)
  obtain ⟨lines, rfl, hcarries⟩ := htranslates link
  rw [hop] at hcarries
  obtain ⟨start, last, rfl, -, hcarries⟩ := hcarries
  obtain ⟨middle, after, hstart, hlast, hagree, hzero⟩ := hcarries store result none hz he
  have hlabel : run? link store (c.label?.toList.map .label) = some store := by cases c.label? <;> rfl
  exact ⟨after, hselects.runsAt hgenerate h
    (.of_run? (run?_append hlabel (run?_append hstart (run?_instruction hlast)))), hagree, hzero⟩

def ComparesAt (program : Tac.Program) (machine : Machine.Program) (position : Nat) (destination : Option Access)
    (first second : Access) : Prop :=
  ∀ (link : Linkage) (address : Nat → Word) (store : Store) (left right : List UInt8),
    store.temps machine.registers.zero = 0 →
    store.memory.HasText (first.value link store) left → store.memory.HasText (second.value link store) right →
    ∃ after, program.RunsAt machine position link address store [] after ∧
      store.Delivers link program.supply.temps store.memory destination (Word.ofOrdering (textOrder left right)) after ∧
      after.temps machine.registers.zero = 0

/-- The codes at a position and behind it test a relation of two texts, with their order on the way. -/
def RelatesAt (program : Tac.Program) (machine : Machine.Program) (position : Nat) (relation : Relation)
    (order result : Temp) (first second : Access) : Prop :=
  ∀ (link : Linkage) (address : Nat → Word) (store : Store) (left right : List UInt8),
    store.temps machine.registers.zero = 0 →
    store.memory.HasText (first.value link store) left → store.memory.HasText (second.value link store) right →
    ∃ before own others after, program.Selects machine position before own ∧
      program.Selects machine (position + 1) (before ++ own) others ∧
      Runs link address machine.frames machine.lines ⟨before.length, store⟩ []
        ⟨before.length + own.length + others.length, after⟩ ∧
      ((store.put order (Word.ofOrdering (textOrder left right))).put result
        (Word.ofBool (relation.holds (textOrder left right)))).Agree program.supply.temps after ∧
      after.temps machine.registers.zero = 0

namespace Numbered

variable (h : program.Numbered) (hgenerate : program.generate = .ok machine) (hc : program.codes[position]? = some c)

include h hgenerate hc

lemma comparesAt {destination : Option Access} {first second : Access} {rest : List Access}
    (hcall : c.op? = some (frame, .callRuntime destination Runtime.strcmp.name (first :: second :: rest))) :
    program.ComparesAt machine position destination first second := by
  intro link address store left right hz hleft hright
  obtain ⟨s, lines, s', hlines, hsettled, hbelow, hruns⟩ := h.expands hgenerate hc hcall
  obtain ⟨after, hpasses, hdelivers, hzero⟩ := passes_compareStrings (callRuntime_strcmp.symm.trans hlines)
    hsettled.ready (hbelow first (by simp)) (hbelow second (by simp))
    (fun place hm => hbelow place (by simp [Option.mem_def.mp hm])) hz hleft hright
  exact ⟨after, hruns hpasses, hdelivers, hzero⟩

lemma relatesAt {c' : Code} (hc' : program.codes[position + 1]? = some c') {frame' : FrameId} {relation : Relation}
    {order result : Temp} {first second : Access} {rest : List Access}
    (hcall : c.op? = some (frame, .callRuntime (some (.temp order)) Runtime.strcmp.name (first :: second :: rest)))
    (htest : c'.op? = some (frame', .binary (.compare relation) (.temp result) (.temp order) (.int 0))) :
    program.RelatesAt machine position relation order result first second := by
  intro link address store left right hz hleft hright
  obtain ⟨middle, ⟨before, own, hselects, hruns⟩, ⟨expected, hdeliver, hagree⟩, hzero⟩ :=
    h.comparesAt hgenerate hc hcall link address store left right hz hleft hright
  obtain rfl := Option.some.inj hdeliver
  have horder : middle.temps order = Word.ofOrdering (textOrder left right) := by
    have hbelow := h.below hc hcall order (by simp [Tac.temps, Access.temps])
    rw [← hagree.2 order hbelow]
    simp [Store.put]
  have hexec : (Tac.binary (.compare relation) (.temp result) (.temp order) (.int 0)).exec? link middle =
      some (middle.put result (Word.ofBool (relation.holds (textOrder left right))), none) := by
    rw [← relation.test_ofOrdering, ← horder]
    rfl
  obtain ⟨after, ⟨before', others, hselects', hruns'⟩, hagree', hafter⟩ :=
    h.runsAt_local hgenerate hc' htest rfl address hzero hexec
  obtain rfl := hselects.next hselects'
  rw [List.length_append] at hruns'
  exact ⟨before, own, others, after, hselects, hselects', hruns.followed hruns', (hagree.put result _).trans hagree',
    hafter⟩

end Numbered

end Tac.Program

namespace Analysis

lemma checkOperands_string {span operatorSpan leftSpan rightSpan : Span} {relation : Relation} {left right : Ty}
    {operands : Operands} {s t : Analyzer}
    (h : checkOperands span (.strict (.compare relation)) operatorSpan left right leftSpan rightSpan s = (operands, t))
    (ht : t.errors = []) (hs : s.typeTable.isString left) : operands = .strings := by
  have hs : s.typeTable.actual left = .string := by
    unfold TypeTable.isString at hs
    split at hs
    · assumption
    · cases hs
  change (if _ then _ else _ : Analysis Operands) s = _ at h
  split at h
  · obtain ⟨hl, -⟩ := checkBoth_clean h ht
    rw [TypeTable.fits, hs] at hl
    cases hl
  · rw [if_pos (by rw [hs]; rfl), if_pos (by cases relation <;> rfl)] at h
    exact (checkBoth_clean h ht).2.2.1

end Analysis

open Analysis

lemma Visit.Clean.comparison {span operatorSpan : Span} {relation : Relation} {lhs rhs : Expr} {s : Analyzer}
    (h : Visit.Clean ⟨.operation span (.strict (.compare relation)) operatorSpan lhs rhs, s⟩)
    (hty : (lowerExpr rhs (lowerExpr lhs s).2).2.typeTable.isString (lowerExpr lhs s).1.ty) :
    ∃ frame first second order result, (lowerExpr lhs s).1.place = some first ∧
      (lowerExpr rhs (lowerExpr lhs s).2).1.place = some second ∧
      (Visit.lowered ⟨.operation span (.strict (.compare relation)) operatorSpan lhs rhs, s⟩).place =
        some (.temp result) ∧
      (Visit.lowered ⟨.operation span (.strict (.compare relation)) operatorSpan lhs rhs, s⟩).code =
        (lowerExpr lhs s).1.code ++ (lowerExpr rhs (lowerExpr lhs s).2).1.code ++
          [.op frame (.callRuntime (some (.temp order)) Runtime.strcmp.name [first, second]),
            .op frame (.binary (.compare relation) (.temp result) (.temp order) (.int 0))] := by
  obtain ⟨hs, -, ht⟩ := h
  obtain ⟨⟨a, t⟩, hm⟩ : ∃ r, lowerExpr (.operation span (.strict (.compare relation)) operatorSpan lhs rhs) s = r :=
    ⟨_, rfl⟩
  simp only [Visit.after, hm] at ht
  obtain ⟨left, s₁, right, s₂, operands, first, second, code, hleft, he₁, hright, he₂, hfirst, hsecond, hchecked, hcode,
      rfl⟩ := operation_clean (lowers_lowerExpr lhs) (lowers_lowerExpr rhs) hm hs ht
  change lowerExpr lhs s = (left, s₁) at hleft
  change lowerExpr rhs s₁ = (right, s₂) at hright
  simp only [hleft, hright] at hty ⊢
  obtain rfl := checkOperands_string hchecked he₂ hty
  obtain ⟨rfl, -⟩ := Prod.mk.inj hcode
  exact ⟨s₂.withTemp.currentFrame, first, second, ⟨s₂.withTemp.supply.temps⟩, ⟨s₂.supply.temps⟩, hfirst, hsecond,
    congrArg (fun r => r.1.place) hm, congrArg (fun r => r.1.code) hm⟩

/-- The order of two texts is found, and each of the six relations of strings in a program is tested with it. Equal
texts are told from others. The order is the one of unsigned bytes exactly if the first bytes that differ are in the
same half. -/
theorem comparesAt_relatesAt_generate {program : Tac.Program} {machine : Machine.Program}
    (hgenerate : program.generate = .ok machine) (h : program.Numbered) :
    (∀ (position : Nat) (c : Code) (frame : FrameId) (destination : Option Access) (first second : Access)
      (rest : List Access), program.codes[position]? = some c →
      c.op? = some (frame, .callRuntime destination Runtime.strcmp.name (first :: second :: rest)) →
        program.ComparesAt machine position destination first second) ∧
    (∀ (expression : Expr), analyze expression = ([], program) →
      ∀ (path : Path) (span operatorSpan : Span) (relation : Relation) (lhs rhs : Expr),
      expression.at? path = some (.operation span (.strict (.compare relation)) operatorSpan lhs rhs) →
        ∃ s p, (Visit.start expression).at? path =
            some ⟨.operation span (.strict (.compare relation)) operatorSpan lhs rhs, s⟩ ∧
          List.At program.codes p
            (lowerExpr (.operation span (.strict (.compare relation)) operatorSpan lhs rhs) s).1.code ∧
          ((lowerExpr rhs (lowerExpr lhs s).2).2.typeTable.isString (lowerExpr lhs s).1.ty →
            ∃ first second order result, (lowerExpr lhs s).1.place = some first ∧
              (lowerExpr rhs (lowerExpr lhs s).2).1.place = some second ∧
              (lowerExpr (.operation span (.strict (.compare relation)) operatorSpan lhs rhs) s).1.place =
                some (.temp result) ∧
              program.RelatesAt machine
                (p + (lowerExpr lhs s).1.code.length + (lowerExpr rhs (lowerExpr lhs s).2).1.code.length) relation order
                result first second)) ∧
    ∀ left right : List UInt8, (∀ byte ∈ left, byte ≠ 0) → (∀ byte ∈ right, byte ≠ 0) →
      (textOrder left right = .eq ↔ left = right) ∧
      (textOrder left right = compareOfLessAndEq left right ↔ SameHalf (left ++ [0]) (right ++ [0])) := by
  refine ⟨fun position c frame destination first second rest hc hcall => h.comparesAt hgenerate hc hcall, ?_,
    fun left right hl hr => ⟨textOrder_eq_eq hl hr, textOrder_eq_iff hl hr⟩⟩
  intro expression hanalyze path span operatorSpan relation lhs rhs hp
  have hclean : (analyze expression).1 = [] := congrArg Prod.fst hanalyze
  obtain ⟨s, hvisit⟩ := Visit.exists_at?_start hp
  obtain ⟨hpart, p, hplaced⟩ := Visit.placed_start hclean hvisit
  rw [hanalyze] at hplaced
  refine ⟨s, p, hvisit, hplaced, fun hty => ?_⟩
  obtain ⟨frame, first, second, order, result, hfirst, hsecond, hresult, hcode⟩ := hpart.comparison hty
  rw [hcode, List.at_append, List.length_append, ← Nat.add_assoc] at hplaced
  simp only [List.at_cons] at hplaced
  obtain ⟨-, hcall, htest, -⟩ := hplaced
  exact ⟨first, second, order, result, hfirst, hsecond, hresult, h.relatesAt hgenerate hcall htest rfl rfl⟩

def textsInOrder (left right : String) : Expr :=
  .letIn {} [.var { name := "s" } none (.string {} left), .var { name := "t" } none (.string {} right)]
    [.operation {} (.strict (.compare .lt)) {} (.lvalue {} (.var {} { name := "s" }))
      (.lvalue {} (.var {} { name := "t" }))]

def textsStore (left right : List UInt8) : Store :=
  ⟨fun t => if t.number = 2 then 16 else 0, storeBytes (storeBytes (fun _ => 0) 0 (left ++ [0])) 16 (right ++ [0])⟩

lemma hasText_textsStore {left right : List UInt8} (hl : ∀ byte ∈ left, byte ≠ 0) (hr : ∀ byte ∈ right, byte ≠ 0)
    (hlength : left.length < 16) (hlength' : right.length < 16) :
    (textsStore left right).memory.HasText 0 left ∧ (textsStore left right).memory.HasText 16 right := by
  have hgains : Gains (storeBytes (fun _ => 0) 0 (left ++ [0])) 16 right (textsStore left right).memory :=
    gains_storeBytes hr (by omega)
  have hapart : Disjoint (block (0 : Word) (left.length + 1)) (block 16 (right.length + 1)) :=
    disjoint_block (0 : Word) (i := 0) (j := 16) (by omega) (by omega)
  exact ⟨hgains.hasText (hasText_storeBytes hl (by omega)) hapart.symm, hgains.holds⟩

theorem textsInOrder_before : (analyze (textsInOrder "ab" "abc")).1 = [] ∧
    ∃ machine, (analyze (textsInOrder "ab" "abc")).2.generate = .ok machine ∧
      (analyze (textsInOrder "ab" "abc")).2.ComparesAt machine 2 (some (.temp ⟨4⟩)) (.temp ⟨1⟩) (.temp ⟨2⟩) ∧
      (∃ first last after, Runs default (fun _ => 0) machine.frames machine.lines
        ⟨first, textsStore [97, 98] [97, 98, 99]⟩ [] ⟨last, after⟩ ∧ after.temps ⟨3⟩ = 1) ∧
      textOrder [97, 98] [97, 98, 99] = compareOfLessAndEq [97, 98] [97, 98, 99] := by
  have hclean : (analyze (textsInOrder "ab" "abc")).1 = [] := List.isEmpty_iff.mp (by decide +kernel)
  have hcode : (analyze (textsInOrder "ab" "abc")).2.codes[2]? = some (.op ⟨0⟩ (.callRuntime (some (.temp ⟨4⟩)) "strcmp"
      [.temp ⟨1⟩, .temp ⟨2⟩])) := by decide +kernel
  obtain ⟨machine, hgenerate, -⟩ := Select.generate_ok (selectable_analyze hclean)
  have hsupply : (analyze (textsInOrder "ab" "abc")).2.supply.temps = 5 := by decide +kernel
  have hregister := Tac.Program.le_of_mem_registers hgenerate (zero_mem_temps machine.registers)
  have hzero : (textsStore [97, 98] [97, 98, 99]).temps machine.registers.zero = 0 := if_neg (by omega)
  obtain ⟨hcompares, hrelates, horder⟩ := comparesAt_relatesAt_generate hgenerate (numbered_analyze hclean)
  obtain ⟨s, p, hvisit, -, hcomparison⟩ := hrelates (textsInOrder "ab" "abc") (Prod.ext hclean rfl) [2] {} {} .lt
    (.lvalue {} (.var {} { name := "s" })) (.lvalue {} (.var {} { name := "t" })) rfl
  have hlowered : ((Visit.start (textsInOrder "ab" "abc")).at? [2]).map (fun visit =>
      let left := lowerExpr (.lvalue {} (.var {} { name := "s" })) visit.state
      let right := lowerExpr (.lvalue {} (.var {} { name := "t" })) left.2
      (right.2.typeTable.isString left.1.ty, left.1.place, right.1.place, visit.lowered.place)) =
      some (true, some (.temp ⟨1⟩), some (.temp ⟨2⟩), some (.temp ⟨3⟩)) := by decide +kernel
  rw [hvisit, Option.map_some, Option.some.injEq] at hlowered
  obtain ⟨hty, hrest⟩ := Prod.mk.inj hlowered
  obtain ⟨hfirst, hrest⟩ := Prod.mk.inj hrest
  obtain ⟨hsecond, hresult⟩ := Prod.mk.inj hrest
  obtain ⟨first, second, order, result, hfirst', hsecond', hresult', hrelatesAt⟩ := hcomparison hty
  obtain rfl := Option.some.inj (hfirst'.symm.trans hfirst)
  obtain rfl := Option.some.inj (hsecond'.symm.trans hsecond)
  obtain rfl := Access.temp.inj (Option.some.inj (hresult'.symm.trans hresult))
  have hbytes : ∀ byte ∈ ([97, 98] : List UInt8), byte ≠ 0 := by simp
  have hbytes' : ∀ byte ∈ ([97, 98, 99] : List UInt8), byte ≠ 0 := by simp
  obtain ⟨hleft, hright⟩ := hasText_textsStore hbytes hbytes' (by decide) (by decide)
  obtain ⟨before, own, others, after, -, -, hruns, hagree, -⟩ :=
    hrelatesAt default (fun _ => 0) _ _ _ hzero hleft hright
  refine ⟨hclean, machine, hgenerate, hcompares 2 _ ⟨0⟩ (some (.temp ⟨4⟩)) (.temp ⟨1⟩) (.temp ⟨2⟩) [] hcode rfl,
    ⟨_, _, after, hruns, ?_⟩, (horder _ _ hbytes hbytes').2.mpr ?_⟩
  · rw [← hagree.2 ⟨3⟩ (by rw [hsupply]; decide)]
    rfl
  · simp [sameHalf_cons]

/-- The bytes of the second text have a sign, and the first text is taken to be the greater one. -/
theorem textsInOrder_reversed : (analyze (textsInOrder "a" "é")).1 = [] ∧
    ∃ machine, (analyze (textsInOrder "a" "é")).2.generate = .ok machine ∧
      "a".toUTF8.toList = [97] ∧ "é".toUTF8.toList = [195, 169] ∧
      (textsStore [97] [195, 169]).memory.HasText 0 [97] ∧ (textsStore [97] [195, 169]).memory.HasText 16 [195, 169] ∧
      compareOfLessAndEq ([97] : List UInt8) [195, 169] = .lt ∧
      ∃ first last after, Runs default (fun _ => 0) machine.frames machine.lines ⟨first, textsStore [97] [195, 169]⟩ []
        ⟨last, after⟩ ∧ after.temps ⟨4⟩ = 1 ∧ after.temps ⟨3⟩ = 0 := by
  have hclean : (analyze (textsInOrder "a" "é")).1 = [] := List.isEmpty_iff.mp (by decide +kernel)
  have hcodes : (analyze (textsInOrder "a" "é")).2.codes[2]? = some (.op ⟨0⟩ (.callRuntime (some (.temp ⟨4⟩)) "strcmp"
      [.temp ⟨1⟩, .temp ⟨2⟩])) ∧ (analyze (textsInOrder "a" "é")).2.codes[3]? = some (.op ⟨0⟩ (.binary (.compare .lt)
      (.temp ⟨3⟩) (.temp ⟨4⟩) (.int 0))) := by decide +kernel
  obtain ⟨machine, hgenerate, -⟩ := Select.generate_ok (selectable_analyze hclean)
  have hsupply : (analyze (textsInOrder "a" "é")).2.supply.temps = 5 := by decide +kernel
  have hregister := Tac.Program.le_of_mem_registers hgenerate (zero_mem_temps machine.registers)
  have hzero : (textsStore [97] [195, 169]).temps machine.registers.zero = 0 := if_neg (by omega)
  have hbytes : ∀ byte ∈ ([97] : List UInt8), byte ≠ 0 := by simp
  have hbytes' : ∀ byte ∈ ([195, 169] : List UInt8), byte ≠ 0 := by simp
  obtain ⟨hleft, hright⟩ := hasText_textsStore hbytes hbytes' (by decide) (by decide)
  obtain ⟨before, own, others, after, -, -, hruns, hagree, -⟩ := (numbered_analyze hclean).relatesAt hgenerate hcodes.1
    hcodes.2 rfl rfl default (fun _ => 0) _ _ _ hzero hleft hright
  refine ⟨hclean, machine, hgenerate, by decide +kernel, by decide +kernel, hleft, hright, by decide +kernel, _, _,
    after, hruns, ?_, ?_⟩
  · rw [← hagree.2 ⟨4⟩ (by rw [hsupply]; decide)]
    rfl
  · rw [← hagree.2 ⟨3⟩ (by rw [hsupply]; decide)]
    rfl

end TigerMips
