import TigerMips.Proofs.Analysis.Faultless
import TigerMips.Proofs.Eval.Basic

/-! The temps that an analysis gives to the variables of a program. They are drawn in the order in
which the variables are declared. -/

namespace TigerMips

open Analysis in
mutual

def Expr.slots (here : Path) : Expr → Analyzer → List (Path × Temp)
  | .assign _ target value, s => value.slots (0 :: here) (lowerLValue true target s).2
  | .operation _ _ _ lhs rhs, s => lhs.slots (0 :: here) s ++ rhs.slots (1 :: here) (lowerExpr lhs s).2
  | .negate _ operand, s => operand.slots (0 :: here) s
  | .call _ _ arguments, s => sequenceSlots here arguments s
  | .sequence _ expressions, s => sequenceSlots here expressions s
  | .ifThen _ condition positive, s =>
    condition.slots (0 :: here) s ++ positive.slots (1 :: here) (lowerExpr condition s).2
  | .ifThenElse _ condition positive negative, s =>
    condition.slots (0 :: here) s ++ (positive.slots (1 :: here) (lowerExpr condition s).2 ++
      negative.slots (2 :: here) (lowerExpr positive (lowerExpr condition s).2).2)
  | .whileLoop _ condition body, s =>
    condition.slots (0 :: here) s.withLabel.withLabel ++ body.slots (1 :: here)
      ((lowerExpr condition s.withLabel.withLabel).2.insideLoop ⟨s.supply.labels + 1⟩)
  | .forLoop _ counter first last body, s =>
    first.slots (0 :: here) s ++ (last.slots (1 :: here) (lowerExpr first s).2 ++
      (here, ⟨(lowerExpr last (lowerExpr first s).2).2.supply.temps⟩) :: body.slots (2 :: here)
        ((lowerExpr last (lowerExpr first s).2).2.insideFor counter.name))
  | .letIn _ groups body, s =>
    groupsSlots (0 :: here) groups s.insideLet ++
      sequenceSlots (1 :: here) body (lowerGroups groups s.insideLet).2
  | .array _ _ size init, s => size.slots (0 :: here) s ++ init.slots (1 :: here) (lowerExpr size s).2
  | .int _ _, _ | .string _ _, _ | .nil _, _ | .breakLoop _, _ | .lvalue _ _, _ | .record _ _ _, _ => []

def sequenceSlots (here : Path) : List Expr → Analyzer → List (Path × Temp)
  | [], _ => []
  | expression :: rest, s =>
    expression.slots (0 :: here) s ++ sequenceSlots (1 :: here) rest (lowerExpr expression s).2

def groupsSlots (here : Path) : List Group → Analyzer → List (Path × Temp)
  | [], _ => []
  | group :: rest, s => group.slots (0 :: here) s ++ groupsSlots (1 :: here) rest (lowerGroup group s).2

def Group.slots (here : Path) : Group → Analyzer → List (Path × Temp)
  | .var _ _ value, s => value.slots (0 :: here) s ++ [(here, ⟨(lowerExpr value s).2.supply.temps⟩)]
  | .types _, _ | .functions _, _ => []

end

structure Laid (slots : List (Path × Temp)) (first last : Nat) : Prop where
  le : first ≤ last
  sorted : slots.Pairwise fun one other => one.2.number < other.2.number
  within : ∀ slot ∈ slots, first ≤ slot.2.number ∧ slot.2.number < last

namespace Laid

variable {slots others : List (Path × Temp)} {first middle last : Nat}

lemma nil (h : first ≤ last) : Laid [] first last := ⟨h, .nil, by simp⟩

lemma append (h : Laid slots first middle) (h' : Laid others middle last) : Laid (slots ++ others) first last where
  le := h.le.trans h'.le
  sorted := List.pairwise_append.mpr ⟨h.sorted, h'.sorted, fun one hone other hother =>
    (h.within one hone).2.trans_le (h'.within other hother).1⟩
  within slot hm := by
    rcases List.mem_append.mp hm with hm | hm
    · exact ⟨(h.within slot hm).1, (h.within slot hm).2.trans_le h'.le⟩
    · exact ⟨h.le.trans (h'.within slot hm).1, (h'.within slot hm).2⟩

lemma mono (h : Laid slots middle last) {first' last' : Nat} (hf : first' ≤ middle) (hl : last ≤ last') :
    Laid slots first' last' :=
  ⟨hf.trans (h.le.trans hl), h.sorted, fun slot hm => ⟨hf.trans (h.within slot hm).1, (h.within slot hm).2.trans_le hl⟩⟩

lemma cons (key : Path) (h : Laid slots (first + 1) last) : Laid ((key, ⟨first⟩) :: slots) first last where
  le := (Nat.le_succ _).trans h.le
  sorted := List.pairwise_cons.mpr ⟨fun slot hm => (h.within slot hm).1, h.sorted⟩
  within slot hm := by
    rcases List.mem_cons.mp hm with rfl | hm
    · exact ⟨le_rfl, h.le⟩
    · exact ⟨(Nat.le_succ _).trans (h.within slot hm).1, (h.within slot hm).2⟩

end Laid

namespace Analysis

open Analyzer Code

variable {s t : Analyzer}

lemma runCases_lays : RunCases (fun e s _ t => ∀ here, Laid (e.slots here s) s.supply.temps t.supply.temps)
    (fun es s _ t => ∀ here, Laid (sequenceSlots here es s) s.supply.temps t.supply.temps) (fun _ _ _ _ _ => True)
    (fun _ es s _ t => ∀ here, Laid (sequenceSlots here es s) s.supply.temps t.supply.temps)
    (fun _ _ _ _ _ _ _ => True) (fun gs s _ t => ∀ here, Laid (groupsSlots here gs s) s.supply.temps t.supply.temps)
    (fun g s _ t => ∀ here, Laid (g.slots here s) s.supply.temps t.supply.temps) (fun _ _ _ _ _ => True) where
  int _ _ := .nil le_rfl
  string _ hintern _ := .nil ((keeps.internString _).apply hintern).temps
  nil _ _ := .nil le_rfl
  lvalue h _ := .nil h.keeps.temps
  assign hl hv _ _ _ _ here := by
    simp only [Expr.slots, hl.run]
    exact (hv.holds (0 :: here)).mono hl.keeps.temps le_rfl
  operation _ := fun hl hr _ _ _ _ hk here => by
    simp only [Expr.slots, hl.run]
    exact (hl.holds (0 :: here)).append ((hr.holds (1 :: here)).mono le_rfl ((Nat.le_succ _).trans hk.temps))
  negate _ := fun ho _ _ here => (ho.holds (0 :: here)).mono le_rfl (Nat.le_succ _)
  variablePlace _ _ _ _ := trivial
  field _ _ := fun _ _ _ _ _ _ => trivial
  subscript _ _ _ _ := fun _ _ _ _ _ _ _ _ _ => trivial
  breakLoop _ _ _ := .nil le_rfl
  ifThen _ := fun hc hp _ here => by
    simp only [Expr.slots, hc.run]
    exact (hc.holds (0 :: here)).append (hp.holds (1 :: here))
  ifThenElse _ _ _ := fun hc hp hn _ _ _ hk _ here => by
    simp only [Expr.slots, hc.run, hp.run]
    exact (hc.holds (0 :: here)).append ((hp.holds (1 :: here)).append ((hn.holds (2 :: here)).mono le_rfl hk.temps))
  whileLoop _ _ _ := fun _ hc hb _ _ here => by
    simp only [Expr.slots, hc.run]
    exact (hc.holds (0 :: here)).append (hb.holds (1 :: here))
  forLoop _ s₂ s₃ := fun {_ _ _ _ _ _ _ counter _ _ body} hf hl hb _ _ _ here => by
    simp only [Expr.slots, hf.run, hl.run]
    have hbody : Laid (body.slots (2 :: here) (s₂.insideFor counter.name)) (s₂.supply.temps + 1) s₃.supply.temps :=
      hb.holds (2 :: here)
    exact (hf.holds (0 :: here)).append
      ((hl.holds (1 :: here)).append ((hbody.mono le_rfl (Nat.le_succ _)).cons here))
  sequence h here := h.holds here
  emptySequence _ _ := .nil le_rfl
  single h here := by simpa [sequenceSlots] using h.holds (0 :: here)
  longer hf hr here := by
    simp only [sequenceSlots.eq_2 _ _ _ (_ :: _), hf.run]
    exact (hf.holds (0 :: here)).append (hr.holds (1 :: here))
  array _ := fun _ _ hs hi _ _ _ here => by
    simp only [Expr.slots, hs.run]
    exact (hs.holds (0 :: here)).append ((hi.holds (1 :: here)).mono le_rfl (by simp; omega))
  record _ _ := fun _ _ _ hf _ => .nil ((Nat.le_add_right _ 2).trans hf.keeps.temps)
  call _ _ _ _ _ := fun _ ha hcall hedge _ _ _ _ _ hk₄ hk here =>
    (ha.holds here).mono le_rfl
      (((keeps.noteCall _).apply hcall).trans (((keeps.noteEdge _).apply hedge).trans (hk₄.trans hk))).temps
  noArguments _ _ := .nil le_rfl
  argument hv _ hr here := by
    simp only [sequenceSlots, hv.run]
    exact (hv.holds (0 :: here)).append (hr.holds (1 :: here))
  noFields _ := trivial
  fields _ _ _ _ := fun _ _ _ _ => trivial
  letIn _ _ _ := fun _ hd hb here => by
    simp only [Expr.slots, hd.run]
    exact (hd.holds (0 :: here)).append (hb.holds (1 :: here))
  noGroups _ _ := .nil le_rfl
  groups _ := fun hg hr here => by
    simp only [groupsSlots, hg.run]
    exact (hg.holds (0 :: here)).append (hr.holds (1 :: here))
  var s₁ := fun hv _ _ here => by
    simp only [Group.slots, hv.run]
    exact (hv.holds (0 :: here)).append (Laid.cons here (.nil le_rfl))
  types _ _ _ := .nil le_rfl
  functions _ _ _ s₃ := fun _ hdeclared _ hb _ hk _ =>
    .nil (((declares_declareFunctions _ _).apply hdeclared).temps.trans (hb.keeps.trans hk).temps)
  noBodies _ := trivial
  bodies _ _ _ _ := fun _ _ _ _ _ _ => trivial

end Analysis

structure Rooted (here : Path) (slots : List (Path × Temp)) : Prop where
  below : ∀ slot ∈ slots, here <:+ slot.1
  nodup : (slots.map Prod.fst).Nodup

structure Spread (here : Path) (branch : Nat) (slots : List (Path × Temp)) : Prop where
  below : ∀ slot ∈ slots, slot.1 = here ∨ ∃ i, branch ≤ i ∧ i :: here <:+ slot.1
  nodup : (slots.map Prod.fst).Nodup

section

variable {here : Path} {branch : Nat} {slots others : List (Path × Temp)} {temp : Temp}

lemma Rooted.nil (here : Path) : Rooted here [] := ⟨by simp, by simp⟩

lemma Rooted.spread (h : Rooted (branch :: here) slots) : Spread here branch slots :=
  ⟨fun slot hm => Or.inr ⟨branch, le_rfl, h.below slot hm⟩, h.nodup⟩

lemma Spread.rooted (h : Spread here branch slots) : Rooted here slots where
  below slot hm := by
    rcases h.below slot hm with he | ⟨i, -, hs⟩
    · exact he ▸ List.suffix_rfl
    · exact (List.suffix_cons i here).trans hs
  nodup := h.nodup

lemma Spread.single (here : Path) (branch : Nat) (temp : Temp) : Spread here branch [(here, temp)] :=
  ⟨by simp, by simp⟩

lemma not_suffix_self (i : Nat) (here : Path) : ¬ i :: here <:+ here := fun h => by
  simpa using h.length_le

lemma Spread.append (h : Rooted (branch :: here) slots) (h' : Spread here (branch + 1) others) :
    Spread here branch (slots ++ others) where
  below slot hm := by
    rcases List.mem_append.mp hm with hm | hm
    · exact Or.inr ⟨branch, le_rfl, h.below slot hm⟩
    · exact (h'.below slot hm).imp_right fun ⟨i, hi, hs⟩ => ⟨i, Nat.le_of_succ_le hi, hs⟩
  nodup := by
    rw [List.map_append, List.nodup_append]
    refine ⟨h.nodup, h'.nodup, fun key hk other ho he => ?_⟩
    obtain ⟨one, hone, rfl⟩ := List.mem_map.mp hk
    obtain ⟨two, htwo, rfl⟩ := List.mem_map.mp ho
    have hs := h.below one hone
    rw [he] at hs
    rcases h'.below two htwo with hself | ⟨i, hi, hs'⟩
    · rw [hself] at hs
      exact not_suffix_self branch here hs
    · have hsame : branch :: here = i :: here := (List.suffix_of_suffix_length_le hs hs' le_rfl).eq_of_length rfl
      have := (List.cons.inj hsame).1
      omega

lemma Spread.cons (h : Rooted (branch :: here) slots) (temp : Temp) : Spread here branch ((here, temp) :: slots) where
  below slot hm := by
    rcases List.mem_cons.mp hm with rfl | hm
    · exact Or.inl rfl
    · exact h.spread.below slot hm
  nodup := by
    refine List.nodup_cons.mpr ⟨fun hm => ?_, h.nodup⟩
    obtain ⟨slot, hslot, he⟩ := List.mem_map.mp hm
    have hs := h.below slot hslot
    rw [he] at hs
    exact not_suffix_self branch here hs

end

mutual

lemma rooted_slots (here : Path) (expression : Expr) (s : Analyzer) : Rooted here (expression.slots here s) := by
  cases expression with
  | assign span target value => exact (rooted_slots (0 :: here) value _).spread.rooted
  | operation span operator operatorSpan lhs rhs =>
    exact (Spread.append (rooted_slots (0 :: here) lhs _) (rooted_slots (1 :: here) rhs _).spread).rooted
  | negate span operand => exact (rooted_slots (0 :: here) operand _).spread.rooted
  | call span function arguments => exact rooted_sequenceSlots here arguments _
  | sequence span expressions => exact rooted_sequenceSlots here expressions _
  | ifThen span condition positive =>
    exact (Spread.append (rooted_slots (0 :: here) condition _) (rooted_slots (1 :: here) positive _).spread).rooted
  | ifThenElse span condition positive negative =>
    exact (Spread.append (rooted_slots (0 :: here) condition _) (Spread.append (rooted_slots (1 :: here) positive _)
      (rooted_slots (2 :: here) negative _).spread)).rooted
  | whileLoop span condition body =>
    exact (Spread.append (rooted_slots (0 :: here) condition _) (rooted_slots (1 :: here) body _).spread).rooted
  | forLoop span counter first last body =>
    exact (Spread.append (rooted_slots (0 :: here) first _) (Spread.append (rooted_slots (1 :: here) last _)
      (Spread.cons (rooted_slots (2 :: here) body _) _))).rooted
  | letIn span groups body =>
    exact (Spread.append (rooted_groupsSlots (0 :: here) groups _)
      (rooted_sequenceSlots (1 :: here) body _).spread).rooted
  | array span ty size init =>
    exact (Spread.append (rooted_slots (0 :: here) size _) (rooted_slots (1 :: here) init _).spread).rooted
  | int | string | nil | breakLoop | lvalue | record => exact .nil here

lemma rooted_sequenceSlots (here : Path) (expressions : List Expr) (s : Analyzer) :
    Rooted here (sequenceSlots here expressions s) := by
  match expressions with
  | [] => exact .nil here
  | expression :: rest =>
    exact (Spread.append (rooted_slots (0 :: here) expression _)
      (rooted_sequenceSlots (1 :: here) rest _).spread).rooted

lemma rooted_groupsSlots (here : Path) (groups : List Group) (s : Analyzer) :
    Rooted here (groupsSlots here groups s) := by
  match groups with
  | [] => exact .nil here
  | group :: rest =>
    exact (Spread.append (rooted_groupSlots (0 :: here) group _) (rooted_groupsSlots (1 :: here) rest _).spread).rooted

lemma rooted_groupSlots (here : Path) (group : Group) (s : Analyzer) : Rooted here (group.slots here s) := by
  cases group with
  | var name ty value => exact (Spread.append (rooted_slots (0 :: here) value _) (.single here 1 _)).rooted
  | types | functions => exact .nil here

end

end TigerMips
