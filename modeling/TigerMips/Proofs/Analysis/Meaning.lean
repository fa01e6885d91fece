import TigerMips.Proofs.Analysis.Follows

/-! The code of an expression does what the expression does when the values of variables are read
late. For each construct, `runs` lemmas say how control gets through the code around its parts. -/

namespace TigerMips

namespace Analysis

open Analyzer Code

variable {layout : Layout} {link : Linkage} {names : Names} {turns : Nat} {here : Path} {s t : Analyzer}

lemma checkOperands_of_int {span operatorSpan leftSpan rightSpan : Span} {operator : Operator} {left right : Ty}
    {operands : Operands} (h : checkOperands span operator operatorSpan left right leftSpan rightSpan s = (operands, t))
    (hint : s.typeTable.actual left = .int) : operands = .words := by
  have hi : s.typeTable.isInt (s.typeTable.actual left) := by rw [hint]; rfl
  change (if _ then _ else _ : Analysis Operands) s = _ at h
  rw [hi, Bool.true_or, if_pos rfl] at h
  obtain ⟨_, _, -, r₁⟩ := bind_eq.mp h
  obtain ⟨_, _, -, r₂⟩ := bind_eq.mp r₁
  exact (pure_eq.mp r₂).1

lemma operationCode_strict {operator : BinaryOp} {operands : Operands} {result : Temp} {left right : Lowered}
    {lhs rhs : Access} {code : List Code}
    (h : operationCode (.strict operator) operands result left right lhs rhs s = (code, t)) :
    ∃ rest, code = left.code ++ right.code ++ rest ∧ (operands = .words →
      rest = [.op s.currentFrame (.binary operator (.temp result) lhs rhs)] ∧ t = s) := by
  change (if _ then _ else _ : Analysis (List Code)) s = _ at h
  split at h
  · rename_i hstrings
    obtain ⟨rfl, -⟩ := Prod.mk.inj h
    exact ⟨_, rfl, fun hwords => by simp [hstrings] at hwords⟩
  · obtain ⟨rfl, rfl⟩ := Prod.mk.inj h
    exact ⟨_, rfl, fun _ => ⟨rfl, rfl⟩⟩

lemma follows_strict {operator : BinaryOp} {lhs rhs : Expr} {left right : Lowered} {s₁ s₂ : Analyzer}
    {operands : Operands} {span operatorSpan : Span} {leftPlace rightPlace : Access} {code : List Code}
    (hl : Faultless Keeps (lowerExpr lhs) (FollowsExpr layout link turns lhs) s left s₁)
    (hr : Faultless Keeps (lowerExpr rhs) (FollowsExpr layout link turns rhs) s₁ right s₂)
    (hpl : left.place = some leftPlace) (hpr : right.place = some rightPlace)
    (hcheck : checkOperands span (.strict operator) operatorSpan left.ty right.ty lhs.span rhs.span s₂ = (operands, s₂))
    (hcode : operationCode (.strict operator) operands ⟨s₂.supply.temps⟩ left right leftPlace rightPlace s₂.withTemp =
      (code, t)) (hk : s₂.withTemp.Keeps t) :
    Follows layout link names (lhs.slots (0 :: here) s ++ rhs.slots (1 :: here) s₁)
      (.strict true operator (lhs.behavior true turns (0 :: here) names) (rhs.behavior true turns (1 :: here) names)) s
      { code, ty := .int, place := some (.temp ⟨s₂.supply.temps⟩) } t := by
  intro all p hsite cells ending store hagree hb
  have hle : s₂.supply.temps ≤ t.supply.temps := (Nat.le_succ _).trans hk.temps
  have hlaid := (hl.laid (0 :: here)).append (hr.laid (1 :: here))
  obtain ⟨rest, rfl, hrest⟩ := operationCode_strict hcode
  rcases ends_operands hl hr (hsite.before hle (List.at_append.mp hsite.installed).1) hagree hb with
    ⟨one, other, middle, after, first, second, hnext, hrun, hagree', hun, hint, hfirst, hsecond, huse, hstands⟩ | hout
  · obtain rfl := Option.some.inj (hpl.symm.trans hfirst)
    obtain rfl := Option.some.inj (hpr.symm.trans hsecond)
    obtain ⟨word, hword, hnext⟩ := Behavior.withUse_eq_some hnext
    obtain ⟨rfl, rfl⟩ :=
      hrest (checkOperands_of_int hcheck (TypeTable.follow_eq_int_of_prefix hr.keeps.bindings _ hint))
    cases hvalue : operator.eval? word other.word with
    | none =>
      rw [hvalue] at hnext
      cases hnext
    | some value =>
      rw [hvalue] at hnext
      obtain rfl := Option.some.inj hnext
      have hat := hsite.installed
      simp only [List.at_append, List.at_cons, List.at_nil, and_true, List.length_append] at hat
      have hfree : layout.Free ⟨s₂.supply.temps⟩ :=
        hsite.covers.free hlaid hlaid.le le_rfl (Nat.lt_succ_self _)
      have hresult := hrun.trans (.binary (by simpa [Nat.add_assoc] using hat.2) rfl
        (by rw [huse word hword, hstands.value hagree', hvalue]))
      refine ⟨_, by simpa [Nat.add_assoc] using hresult, hagree'.put_free hfree _,
        (hun.mono le_rfl hle).trans (.put _ _ _ hlaid.le (Nat.lt_succ_self _)), ?_⟩
      exact given_temp rfl rfl (Nat.lt_succ_self _) hfree _
  · exact hout _ hle _ _

lemma test_deciding (conjunction : Bool) (word : Word) :
    (if conjunction then Relation.eq else Relation.neq).test word 0 = (decide (word = 0) == conjunction) := by
  cases conjunction <;> simp [Relation.test]

lemma runs_decidingCode {all leftCode rightCode code : List Code} {p : Nat} {frame : FrameId} {conjunction : Bool}
    {decided exit : Label} {result : Temp} {lhs rhs : Access}
    (hc : code = decidingCode frame conjunction decided exit result leftCode lhs rightCode rhs) (h : List.At all p code)
    (hn : (labels all).Nodup) (link : Linkage) :
    List.At all p leftCode ∧ List.At all (p + leftCode.length + 1) rightCode ∧
    (∀ store, decide (lhs.value link store = 0) = conjunction →
      Runs link all (p + leftCode.length) store (p + code.length) (store.put result (Word.ofBool !conjunction))) ∧
    (∀ store, decide (lhs.value link store = 0) ≠ conjunction →
      Runs link all (p + leftCode.length) store (p + leftCode.length + 1) store) ∧
    ∀ store, Runs link all (p + leftCode.length + 1 + rightCode.length) store (p + code.length)
      (store.put result (Word.ofBool (rhs.value link store ≠ 0))) := by
  have hlength : p + code.length = p + leftCode.length + 1 + rightCode.length + 5 := by
    simp only [hc, decidingCode, List.length_append, List.length_cons, List.length_nil]
    omega
  simp only [hc, decidingCode, List.append_assoc, List.cons_append, List.at_append, List.at_cons, List.at_nil, and_true]
    at h
  obtain ⟨hleft, hbranchLeft, hright, hbranchRight, hmove, hgoto, hdecided, hexit⟩ := h
  have hfindDecided := find?_of_getElem? hn hdecided rfl
  have hfindExit := find?_of_getElem? hn hexit rfl
  have hdecide : (if conjunction then (0 : Word) else 1) = Word.ofBool !conjunction := by cases conjunction <;> rfl
  have hopen : (if conjunction then (1 : Word) else 0) = Word.ofBool conjunction := by cases conjunction <;> rfl
  -- From the label on, the decided result is written.
  have hlast : ∀ store, Runs link all (p + leftCode.length + 1 + rightCode.length + 3) store (p + code.length)
      (store.put result (Word.ofBool !conjunction)) := fun store => by
    rw [hlength, ← hdecide]
    exact (Runs.move hdecided rfl).trans (.label hexit)
  rw [hlength] at hlast ⊢
  refine ⟨hleft, hright, fun store hw => ?_, fun store hw => .passed hbranchLeft rfl ?_, fun store => ?_⟩
  · refine (Runs.taken hbranchLeft rfl ?_ hfindDecided).trans (hlast store)
    exact (test_deciding _ _).trans (by simpa using hw)
  · exact (test_deciding _ _).trans (by simpa using hw)
  by_cases hw : decide (rhs.value link store = 0) = conjunction
  · have hword : decide (rhs.value link store ≠ 0) = !conjunction := by simp [← hw]
    rw [hword]
    refine (Runs.taken hbranchRight rfl ?_ hfindDecided).trans (hlast store)
    exact (test_deciding _ _).trans (by simpa using hw)
  · have hword : decide (rhs.value link store ≠ 0) = conjunction := by
      rw [decide_not]
      exact Bool.eq_not.mpr hw ▸ Bool.not_not conjunction
    rw [hword, ← hopen]
    refine (Runs.passed hbranchRight rfl ?_).trans ((Runs.move hmove rfl).trans
      ((Runs.goto hgoto rfl hfindExit).trans (.label hexit)))
    exact (test_deciding _ _).trans (by simpa using hw)

lemma follows_deciding {operator : Operator} {conjunction : Bool} (hop : operator = if conjunction then .and else .or)
    {lhs rhs : Expr} {left right : Lowered} {s₁ s₂ : Analyzer} {operands : Operands} {leftPlace rightPlace : Access}
    {code : List Code} (hl : Faultless Keeps (lowerExpr lhs) (FollowsExpr layout link turns lhs) s left s₁)
    (hr : Faultless Keeps (lowerExpr rhs) (FollowsExpr layout link turns rhs) s₁ right s₂)
    (hpl : left.place = some leftPlace) (hpr : right.place = some rightPlace)
    (hcode : operationCode operator operands ⟨s₂.supply.temps⟩ left right leftPlace rightPlace
      s₂.withTemp = (code, t)) :
    Follows layout link names (lhs.slots (0 :: here) s ++ rhs.slots (1 :: here) s₁)
      (.deciding conjunction (lhs.behavior true turns (0 :: here) names) (rhs.behavior true turns (1 :: here) names)) s
      { code, ty := .int, place := some (.temp ⟨s₂.supply.temps⟩) } t := by
  intro all p hsite cells ending store hagree hb
  have hdeciding : deciding conjunction ⟨s₂.supply.temps⟩ left right leftPlace rightPlace s₂.withTemp = (code, t) := by
    cases conjunction <;> subst hop <;> exact hcode
  unfold deciding at hdeciding
  simp only [newLabel_bind, currentFrame_bind] at hdeciding
  obtain ⟨hcodes, rfl⟩ := pure_eq.mp hdeciding
  obtain ⟨hatLeft, hatRight, hdecided, hopen, hfinish⟩ := runs_decidingCode hcodes hsite.installed hsite.nodup link
  have hlaid := (hl.laid (0 :: here)).append (hr.laid (1 :: here))
  have hfree : layout.Free ⟨s₂.supply.temps⟩ := hsite.covers.free hlaid hlaid.le le_rfl (Nat.lt_succ_self _)
  have hresult : ∀ {middle : Cells} {after : Store} (word : Word), layout.Agrees middle after →
      layout.Untouched s.supply.temps s₂.supply.temps store after →
      Runs link all p store (p + code.length) (after.put ⟨s₂.supply.temps⟩ word) →
      Ends layout link all s.exits s.supply.temps (s₂.supply.temps + 1) p store (p + code.length)
        (Given layout link s₂.withTemp.withLabel.withLabel
          { code, ty := .int, place := some (.temp ⟨s₂.supply.temps⟩) }) (.done (some { word }) middle) :=
    fun word hagree hun hrun => ⟨_, hrun, hagree.put_free hfree _, (hun.mono le_rfl (Nat.le_succ _)).trans
      (.put _ _ _ hlaid.le (Nat.lt_succ_self _)), given_temp rfl rfl (Nat.lt_succ_self _) hfree _⟩
  have hsiteLeft := hsite.first (hr.laid (1 :: here)) (hr.keeps.temps.trans (Nat.le_succ _)) hatLeft
  have hsiteRight := (hsite.second hl.keeps (hl.laid (0 :: here)) hatRight).before (Nat.le_succ _) hatRight
  rcases (hl.holds _ _).withValue hsiteLeft hagree hb with
    ⟨one, middle₁, after₁, first, hnext₁, hrun₁, hagree₁, hun₁, -, hfirst, hstands₁⟩ | hout
  · obtain rfl := Option.some.inj (hpl.symm.trans hfirst)
    rw [← hstands₁.value hagree₁] at hnext₁
    split at hnext₁
    · rename_i hdecides
      obtain rfl := Option.some.inj hnext₁
      exact hresult _ hagree₁ (hun₁.mono le_rfl hr.keeps.temps) (hrun₁.trans (hdecided after₁ hdecides))
    · rename_i hundecided
      have hrun := hrun₁.trans (hopen after₁ hundecided)
      rcases (hr.holds _ _).withValue hsiteRight hagree₁ hnext₁ with
        ⟨other, middle, after, second, hnext, hrun₂, hagree₂, hun₂, -, hsecond, hstands₂⟩ | hout
      · obtain rfl := Option.some.inj (hpr.symm.trans hsecond)
        obtain rfl := Option.some.inj hnext
        have hlast := hrun.trans (hrun₂.trans (hfinish after))
        rw [hstands₂.value hagree₂] at hlast
        exact hresult _ hagree₂ ((hun₁.mono le_rfl hr.keeps.temps).trans (hun₂.mono hl.keeps.temps le_rfl)) hlast
      · rw [hl.keeps.exits] at hout
        exact (hout _ (Nat.le_succ _) _ _).prepend hrun (hun₁.mono le_rfl (hr.keeps.temps.trans (Nat.le_succ _)))
          hl.keeps.temps le_rfl
  · exact hout _ (hr.keeps.temps.trans (Nat.le_succ _)) _ _

lemma operandCases_follows : OperandCases (FollowsExpr layout link turns) (fun _ _ _ _ _ => True) where
  int _ here names all p hsite cells ending store hagree hb := by
    obtain rfl := Option.some.inj hb
    refine ⟨store, .refl _, hagree, .refl _ _ _ _, ?_⟩
    rintro reading ⟨⟩
    exact ⟨rfl, _, rfl, .scratch rfl (by simp [Access.int, Access.temps])⟩
  string _ _ := fun _ _ _ _ _ _ _ _ _ hb => by cases hb
  nil _ := fun _ _ _ _ _ _ _ _ _ hb => by cases hb
  lvalue := fun {s a t span place} h here names all p hsite cells ending store hagree hb => by
    cases place with
    | var _ name =>
      obtain ⟨info, hinfo, -, hnote, rfl⟩ := variablePlace_clean h.run h.clean
      simp only [Expr.behavior] at hb
      cases hlookup : names.lookup name.name with
      | none =>
        rw [hlookup] at hb
        cases hb
      | some key =>
        rw [hlookup] at hb
        obtain ⟨word, hword, rfl⟩ := Behavior.read_eq_some hb
        have hk := (keeps.noteUse _).apply hnote
        obtain ⟨hplace, hlt, hint⟩ := hsite.inScope.keeps hk name.name info key (by rw [hk.values, hinfo]) hlookup
        refine ⟨store, .refl _, hagree, .refl _ _ _ _, ?_⟩
        rintro reading ⟨⟩
        exact ⟨hint, _, rfl, .cell hplace hlt hword⟩
    | field _ _ _ | subscript _ _ _ => cases hb
  assign := fun {t s location s₁ source destination place span target value} hl hv _ hd _ hplace here names all p hsite
      cells ending store hagree hb => by
    cases target with
    | var _ name =>
      obtain ⟨info, hinfo, -, hnote, rfl⟩ := variablePlace_clean hl.run hl.clean
      obtain rfl := Option.some.inj hd
      simp only [Expr.slots, hl.run] at hsite
      have hk := hl.keeps
      have hat := hsite.installed
      simp only [List.nil_append, List.at_append, List.at_cons, List.at_nil, and_true] at hat
      obtain ⟨hcode, hmove⟩ := hat
      have hpart : Site layout names (value.slots (0 :: here) s₁) s₁ t all p source.code :=
        ⟨hsite.inScope.keeps hk, hsite.covers.mono hk.temps le_rfl, hsite.nodup, hcode⟩
      have hend : p + (source.code ++ [Code.op t.currentFrame (.move (.temp info.place) place)]).length =
          p + source.code.length + 1 := by simp [Nat.add_assoc]
      rcases (hv.holds _ _).withValue hpart hagree hb with
        ⟨reading, middle, after, access, hnext, hrun, hagree₁, hun, -, haccess, hstands⟩ | hleft
      · obtain rfl := Option.some.inj (hplace.symm.trans haccess)
        cases hlookup : names.lookup name.name with
        | none =>
          rw [hlookup] at hnext
          cases hnext
        | some key =>
          rw [hlookup] at hnext
          obtain rfl := Option.some.inj hnext
          obtain ⟨hkey, -, -⟩ := hsite.inScope name.name info key hinfo hlookup
          have hmoved := hrun.trans (.move hmove rfl)
          rw [hstands.value hagree₁, ← hend] at hmoved
          exact ⟨_, hmoved, hagree₁.put hkey _, (hun.mono hk.temps le_rfl).trans (.put_variable _ hkey _), given_none⟩
      · rw [← hk.exits]
        exact (hleft _ le_rfl _ _).mono hk.temps le_rfl fun _ _ _ hp => hp
    | field _ _ _ | subscript _ _ _ => cases hb
  operation _ := fun {_ _ _ _ _ _ _ _ _ _ operator _ _ _} hl hr hpl hpr hcheck hcode hk here names => by
    simp only [Expr.slots, Expr.behavior, hl.run]
    cases operator with
    | strict operator => exact follows_strict hl hr hpl hpr hcheck hcode hk
    | and => exact follows_deciding (show Operator.and = if true then .and else .or from rfl) hl hr hpl hpr hcode
    | or => exact follows_deciding (show Operator.or = if false then .and else .or from rfl) hl hr hpl hpr hcode
  negate s₁ := fun ho _ hplace here names all p hsite cells ending store hagree hb => by
    have hat := hsite.installed
    simp only [List.at_append, List.at_cons, List.at_nil, and_true] at hat
    obtain ⟨hcode, hnegate⟩ := hat
    rcases (ho.holds _ _).withValue (hsite.before (Nat.le_succ _) hcode) hagree hb with
      ⟨reading, middle, after, access, hnext, hrun, hagree₁, hun, -, haccess, hstands⟩ | hleft
    · obtain rfl := Option.some.inj (hplace.symm.trans haccess)
      obtain rfl := Option.some.inj hnext
      have hfree : layout.Free ⟨s₁.supply.temps⟩ :=
        hsite.covers.free (ho.laid (0 :: here)) ho.keeps.temps le_rfl (Nat.lt_succ_self _)
      have hnegated := hrun.trans (.negate hnegate rfl)
      rw [hstands.value hagree₁] at hnegated
      refine ⟨_, by simpa [Nat.add_assoc] using hnegated, hagree₁.put_free hfree _,
        (hun.mono le_rfl (Nat.le_succ _)).trans (.put _ _ _ ho.keeps.temps (Nat.lt_succ_self _)), ?_⟩
      exact given_temp rfl rfl (Nat.lt_succ_self _) hfree _
    · exact hleft _ (Nat.le_succ _) _ _
  variablePlace _ _ _ _ := trivial
  field _ _ := fun _ _ _ _ _ _ => trivial
  subscript _ _ _ _ := fun _ _ _ _ _ _ _ _ _ => trivial

lemma runs_ifThenCode {all testCode bodyCode code : List Code} {p : Nat} {frame : FrameId} {exit : Label}
    {test : Access} (hc : code = testCode ++ skipUnless frame test exit :: bodyCode ++ [.label exit])
    (h : List.At all p code)
    (hn : (labels all).Nodup) (link : Linkage) :
    List.At all p testCode ∧ List.At all (p + testCode.length + 1) bodyCode ∧
    (∀ store, test.value link store = 0 → Runs link all (p + testCode.length) store (p + code.length) store) ∧
    (∀ store, test.value link store ≠ 0 →
      Runs link all (p + testCode.length) store (p + testCode.length + 1) store) ∧
    ∀ store, Runs link all (p + testCode.length + 1 + bodyCode.length) store (p + code.length) store := by
  have hlength : p + code.length = p + testCode.length + 1 + bodyCode.length + 1 := by
    simp only [hc, List.length_append, List.length_cons, List.length_nil]
    omega
  simp only [hc, List.append_assoc, List.cons_append, List.at_append, List.at_cons, List.at_nil, and_true] at h
  obtain ⟨htest, hskip, hbody, hexit⟩ := h
  have hfind := find?_of_getElem? hn hexit rfl
  rw [hlength]
  exact ⟨htest, hbody, fun store hw => (Runs.taken hskip rfl (decide_eq_true hw) hfind).trans (.label hexit),
    fun store hw => .passed hskip rfl (decide_eq_false hw), fun store => .label hexit⟩

def movedInto (link : Linkage) (result : Option Temp) (value : Option Access) (store : Store) : Store :=
  match result, value with
  | some temp, some value => store.put temp (value.value link store)
  | _, _ => store

lemma runs_moveInto {all : List Code} {p : Nat} {frame : FrameId} {result : Option Temp} {value : Option Access}
    (h : List.At all p (moveInto frame result value)) (link : Linkage) (store : Store) :
    Runs link all p store (p + (moveInto frame result value).length) (movedInto link result value store) := by
  cases result with
  | none => exact .refl store
  | some temp =>
    cases value with
    | none => exact .refl store
    | some value => exact .move (List.at_cons.mp h).1 rfl

lemma runs_ifThenElseCode {all testCode yesCode noCode code : List Code} {p : Nat} {frame : FrameId}
    {otherwise exit : Label} {test : Access} {result : Option Temp} {yes no : Option Access}
    (hc : code = testCode ++ skipUnless frame test otherwise :: yesCode ++ moveInto frame result yes ++
      [.op frame (.goto exit), .label otherwise] ++ noCode ++ moveInto frame result no ++ [.label exit])
    (h : List.At all p code) (hn : (labels all).Nodup) (link : Linkage) :
    ∃ q, List.At all p testCode ∧ List.At all (p + testCode.length + 1) yesCode ∧ List.At all q noCode ∧
    (∀ store, test.value link store = 0 → Runs link all (p + testCode.length) store q store) ∧
    (∀ store, test.value link store ≠ 0 →
      Runs link all (p + testCode.length) store (p + testCode.length + 1) store) ∧
    (∀ store, Runs link all (p + testCode.length + 1 + yesCode.length) store (p + code.length)
      (movedInto link result yes store)) ∧
    ∀ store, Runs link all (q + noCode.length) store (p + code.length) (movedInto link result no store) := by
  have hlength : p + code.length = p + testCode.length + 1 + yesCode.length + (moveInto frame result yes).length + 2 +
      noCode.length + (moveInto frame result no).length + 1 := by
    simp only [hc, List.length_append, List.length_cons, List.length_nil]
    omega
  simp only [hc, List.append_assoc, List.cons_append, List.nil_append, List.at_append, List.at_cons, List.at_nil,
    and_true] at h
  obtain ⟨htest, hskip, hyes, hmoveYes, hgoto, hotherwise, hno, hmoveNo, hexit⟩ := h
  have hfindOtherwise := find?_of_getElem? hn hotherwise rfl
  have hfindExit := find?_of_getElem? hn hexit rfl
  rw [hlength]
  exact ⟨_, htest, hyes, hno,
    fun store hw => (Runs.taken hskip rfl (decide_eq_true hw) hfindOtherwise).trans (.label hotherwise),
    fun store hw => .passed hskip rfl (decide_eq_false hw),
    fun store => (runs_moveInto hmoveYes link store).trans ((Runs.goto hgoto rfl hfindExit).trans (.label hexit)),
    fun store => (runs_moveInto hmoveNo link store).trans (.label hexit)⟩

lemma given_movedInto {branch a : Lowered} {u s₃ s₄ : Analyzer} {result : Option Temp} {value : Option Reading}
    {cells : Cells} {store : Store} (hresult : resultTemp a.ty s₃ = (result, s₄)) (hs : s₃.Sound)
    (hp : a.place = result.map .temp) (hfree : ∀ temp, result = some temp → layout.Free temp)
    (hagree : layout.Agrees cells store) (hgiven : Given layout link u branch value cells store)
    (hint : u.typeTable.actual branch.ty = .int → s₃.typeTable.actual a.ty = .int) :
    layout.Agrees cells (movedInto link result branch.place store) ∧
    layout.Untouched s₃.supply.temps s₄.supply.temps store (movedInto link result branch.place store) ∧
    Given layout link s₄ a (value.map fun reading => { word := reading.word }) cells
      (movedInto link result branch.place store) := by
  rcases resultTemp_eq hresult hs with ⟨hvoid, rfl, rfl⟩ | ⟨hvoid, rfl, rfl⟩
  · refine ⟨hagree, .refl _ _ _ _, fun reading hr => ?_⟩
    obtain ⟨found, rfl, -⟩ := Option.map_eq_some_iff.mp hr
    have habsurd := hint (hgiven found rfl).1
    rw [hvoid] at habsurd
    cases habsurd
  · have hfree' := hfree _ rfl
    cases hplace : branch.place with
    | none =>
      refine ⟨hagree, .refl _ _ _ _, fun reading hr => ?_⟩
      obtain ⟨found, rfl, -⟩ := Option.map_eq_some_iff.mp hr
      obtain ⟨-, access, haccess, -⟩ := hgiven found rfl
      rw [hplace] at haccess
      cases haccess
    | some access =>
      refine ⟨hagree.put_free hfree' _, .put _ _ _ le_rfl (Nat.lt_succ_self _), fun reading hr => ?_⟩
      obtain ⟨found, rfl, rfl⟩ := Option.map_eq_some_iff.mp hr
      obtain ⟨hi, other, haccess, hstands⟩ := hgiven found rfl
      obtain rfl := Option.some.inj (hplace.symm.trans haccess)
      have hty : s₃.withTemp.typeTable.actual a.ty = .int := hint hi
      rw [movedInto, hstands.value hagree]
      exact given_temp hty hp (Nat.lt_succ_self _) hfree' _ _ rfl

lemma ends_branch {slots : List (Path × Temp)} {x : Behavior} {branch a : Lowered} {u v s₃ s₄ : Analyzer}
    {result : Option Temp} (hx : Follows layout link names slots x u branch v) {all : List Code} {p q : Nat}
    (hsite : Site layout names slots u v all p branch.code) (hresult : resultTemp a.ty s₃ = (result, s₄))
    (hs : s₃.Sound)
    (hp : a.place = result.map .temp) (hfree : ∀ temp, result = some temp → layout.Free temp)
    (hint : v.typeTable.actual branch.ty = .int → s₃.typeTable.actual a.ty = .int)
    (hu : u.supply.temps ≤ v.supply.temps) (hv : v.supply.temps ≤ s₃.supply.temps)
    (hle : s₃.supply.temps ≤ s₄.supply.temps)
    (hleave : ∀ store, Runs link all (p + branch.code.length) store q (movedInto link result branch.place store))
    {cells : Cells} {ending : Ending} {store : Store} (hagree : layout.Agrees cells store)
    (hb : (x.andThen fun value => .give (value.map fun reading => { word := reading.word })) cells = some ending) :
    Ends layout link all u.exits u.supply.temps s₄.supply.temps p store q (Given layout link s₄ a) ending := by
  rcases Ends.andThen (hx hsite hagree) hb with ⟨value, middle, after, hdone, hrun, hagree', hun, hgiven⟩ | hout
  · obtain rfl := Option.some.inj hdone
    obtain ⟨hagree'', hun', hgiven'⟩ := given_movedInto hresult hs hp hfree hagree' hgiven hint
    exact ⟨_, hrun.trans (hleave after), hagree'',
      (hun.mono le_rfl (hv.trans hle)).trans (hun'.mono (hu.trans hv) le_rfl), hgiven'⟩
  · exact hout _ (hv.trans hle) _ _

lemma runs_whileCode {all testCode bodyCode code : List Code} {p : Nat} {frame : FrameId} {head exit : Label}
    {test : Access}
    (hc : code = .label head :: testCode ++ skipUnless frame test exit :: bodyCode ++
      [.op frame (.goto head), .label exit])
    (h : List.At all p code) (hn : (labels all).Nodup) (link : Linkage) :
    ∃ target, find? all exit = some target ∧ List.At all (p + 1) testCode ∧
    List.At all (p + 1 + testCode.length + 1) bodyCode ∧
    (∀ store, Runs link all p store (p + 1) store) ∧
    (∀ store, test.value link store = 0 → Runs link all (p + 1 + testCode.length) store (p + code.length) store) ∧
    (∀ store, test.value link store ≠ 0 →
      Runs link all (p + 1 + testCode.length) store (p + 1 + testCode.length + 1) store) ∧
    (∀ store, Runs link all (p + 1 + testCode.length + 1 + bodyCode.length) store p store) ∧
    ∀ store, Runs link all target store (p + code.length) store := by
  have hlength : p + code.length = p + 1 + testCode.length + 1 + bodyCode.length + 1 + 1 := by
    simp only [hc, List.length_append, List.length_cons, List.length_nil]
    omega
  simp only [hc, List.append_assoc, List.cons_append, List.at_append, List.at_cons, List.at_nil, and_true] at h
  obtain ⟨hhead, htest, hskip, hbody, hgoto, hexit⟩ := h
  have hfindHead := find?_of_getElem? hn hhead rfl
  have hfindExit := find?_of_getElem? hn hexit rfl
  rw [hlength]
  exact ⟨_, hfindExit, htest, hbody, fun store => .label hhead,
    fun store hw => (Runs.taken hskip rfl (decide_eq_true hw) hfindExit).trans (.label hexit),
    fun store hw => .passed hskip rfl (decide_eq_false hw), fun store => .goto hgoto rfl hfindHead,
    fun store => .label hexit⟩

lemma runs_forCode {all bodyCode code : List Code} {p : Nat} {frame : FrameId} {head exit : Label}
    {counter bound : Temp}
    {first last : Access} (hc : code = forCode frame head exit counter bound first last bodyCode)
    (h : List.At all p code)
    (hn : (labels all).Nodup) (link : Linkage) :
    ∃ target, find? all exit = some target ∧ List.At all (p + 3) bodyCode ∧
    (∀ store, Runs link all p store (p + 2) ((store.put counter (first.value link store)).put bound
      (last.value link (store.put counter (first.value link store))))) ∧
    (∀ store, store.temps bound < store.temps counter → Runs link all (p + 2) store (p + code.length) store) ∧
    (∀ store, ¬ store.temps bound < store.temps counter → Runs link all (p + 2) store (p + 3) store) ∧
    (∀ store, Runs link all (p + 3 + bodyCode.length) store (p + 2) (store.put counter (store.temps counter + 1))) ∧
    ∀ store, Runs link all target store (p + code.length) store := by
  have hlength : p + code.length = p + 3 + bodyCode.length + 2 + 1 := by
    simp only [hc, forCode, List.length_append, List.length_cons, List.length_nil]
    omega
  simp only [hc, forCode, List.cons_append, List.nil_append, List.at_append, List.at_cons, List.at_nil, and_true] at h
  obtain ⟨hcounter, hbound, hhead, hbody, hadd, hgoto, hexit⟩ := h
  have hfindHead := find?_of_getElem? hn hhead rfl
  have hfindExit := find?_of_getElem? hn hexit rfl
  rw [hlength]
  exact ⟨_, hfindExit, hbody, fun store => (Runs.move hcounter rfl).trans (.move hbound rfl),
    fun store hw => (Runs.taken hhead rfl (decide_eq_true hw) hfindExit).trans (.label hexit),
    fun store hw => .passed hhead rfl (decide_eq_false hw),
    fun store => (Runs.binary hadd rfl rfl).trans (.goto hgoto rfl hfindHead), fun store => .label hexit⟩

lemma ends_countLoop {slots : List (Path × Temp)} {z : Behavior} {inside : Lowered}
    (hz : Follows layout link names slots z s inside t) {all : List Code} {p q : Nat}
    (hsite : Site layout names slots s t all (p + 1) inside.code) {exit : Label} {outer : List (Option Label)}
    (hinside : s.exits = some exit :: outer) {target : Nat} (htarget : find? all exit = some target) {key : Path}
    {counter bound : Temp} (hkey : layout.place key = some counter) (hfree : layout.Free bound)
    (hbound : t.supply.temps ≤ bound.number)
    (hstop : ∀ store : Store, store.temps bound < store.temps counter → Runs link all p store q store)
    (hgo : ∀ store : Store, ¬ store.temps bound < store.temps counter → Runs link all p store (p + 1) store)
    (hback : ∀ store : Store, Runs link all (p + 1 + inside.code.length) store p
      (store.put counter (store.temps counter + 1)))
    (hexit : ∀ store, Runs link all target store q store) {cells : Cells} {ending : Ending}
    {store : Store} (hagree : layout.Agrees cells store)
    (hb : Behavior.countLoop key (store.temps bound) z turns cells = some ending) (exits : List (Option Label)) :
    Ends layout link all exits s.supply.temps t.supply.temps p store q (fun value _ _ => value = none) ending := by
  have hne : bound ≠ counter := fun he => hfree key (he ▸ hkey)
  induction turns generalizing cells store with
  | zero => cases hb
  | succ turns ih =>
    obtain ⟨word, hword, hnext⟩ := Behavior.read_withValue_eq_some hb
    have hcounter : store.temps counter = word := hagree key counter word hkey hword
    simp only [← hcounter] at hnext
    split at hnext
    · obtain rfl := Option.some.inj hnext
      exact ⟨store, hstop store ‹_›, hagree, .refl _ _ _ _, rfl⟩
    · have hentered := hgo store ‹_›
      rcases hz.turn hsite hinside htarget hagree hnext with
        ⟨middle, after, hagain, hrun, hagree', hun⟩ | ⟨left, after, rfl, hrun, hagree', hun⟩ | hout
      · obtain ⟨count, hcount, hagain⟩ := Behavior.increment_andThen_eq_some hagain
        have hturned := hentered.trans (hrun.trans (hback after))
        -- The bound is a temp that neither the body nor the counter uses.
        have hkept : (after.put counter (after.temps counter + 1)).temps bound = store.temps bound := by
          rw [← hun.temps bound (Or.inr hbound) hfree]
          simp [Store.put, hne]
        rw [← hkept] at hagain
        rw [hagree' key counter count hkey hcount] at hturned hagain
        exact (ih (hagree'.put hkey _) hagain).prepend hturned (hun.trans (.put_variable _ hkey _)) le_rfl le_rfl
      · exact ⟨after, hentered.trans (hrun.trans (hexit after)), hagree', hun, rfl⟩
      · exact (hout _ _ _ _ _).prepend hentered (.refl _ _ _ _) le_rfl le_rfl

lemma ends_forCode {slots : List (Path × Temp)} {z : Behavior} {inside : Lowered}
    (hz : Follows layout link names slots z s inside t) {all : List Code} {p : Nat} {frame : FrameId}
    {head exit : Label}
    {counter bound : Temp} {lowest highest : Access}
    (hat : List.At all p (forCode frame head exit counter bound lowest highest inside.code))
    (hsite : List.At all (p + 3) inside.code → Site layout names slots s t all (p + 3) inside.code)
    (hn : (labels all).Nodup)
    {outer : List (Option Label)} (hinside : s.exits = some exit :: outer) {key : Path}
    (hkey : layout.place key = some counter) (hfree : layout.Free bound) (hle : s.supply.temps ≤ t.supply.temps)
    (hbound : t.supply.temps ≤ bound.number) {cells : Cells} {ending : Ending} {store : Store} {low high : Word}
    (hagree : layout.Agrees cells store) (hlow : lowest.value link store = low)
    (hhigh : highest.value link (store.put counter low) = high)
    (hb : Behavior.countLoop key high z turns (Function.update cells key (some low)) = some ending)
    (exits : List (Option Label)) :
    Ends layout link all exits s.supply.temps (bound.number + 1) p store
      (p + (forCode frame head exit counter bound lowest highest inside.code).length) (fun value _ _ => value = none)
      ending := by
  obtain ⟨target, htarget, hatBody, hstart, hstop, hgo, hback, hexit⟩ := runs_forCode rfl hat hn link
  have hstarted := hstart store
  rw [hlow, hhigh] at hstarted
  have hheld : ((store.put counter low).put bound high).temps bound = high := by simp [Store.put]
  rw [← hheld] at hb
  have hloop := ends_countLoop hz (hsite hatBody) hinside htarget hkey hfree hbound hstop hgo hback hexit
    ((hagree.put hkey low).put_free hfree high) hb exits
  have hbefore : layout.Untouched s.supply.temps (bound.number + 1) store ((store.put counter low).put bound high) :=
    (Layout.Untouched.put_variable _ hkey _).trans (.put _ _ _ (hle.trans hbound) (Nat.lt_succ_self _))
  exact hloop.prepend hstarted hbefore le_rfl (hbound.trans (Nat.le_succ _))

def FollowsSequence (layout : Layout) (link : Linkage) (turns : Nat) (es : List Expr) (s : Analyzer) (a : Lowered)
    (t : Analyzer) : Prop :=
  ∀ here names, Follows layout link names (sequenceSlots here es s) (sequenceBehavior true turns here names es) s a t

lemma Faultless.laidSequence {es : List Expr} {P : Analyzer → Lowered → Analyzer → Prop} {a : Lowered}
    (h : Faultless Keeps (lowerSequence es) P s a t) (here : Path) :
    Laid (sequenceSlots here es s) s.supply.temps t.supply.temps :=
  (runCases_lays.lowerSequence es h.run h.sound h.clean).holds here

lemma controlCases_follows : ControlCases (FollowsExpr layout link turns) (FollowsSequence layout link turns) where
  breakLoop _ hexits := fun here names all p hsite cells ending store hagree hb => by
    obtain rfl := Option.some.inj hb
    obtain ⟨hgoto, -⟩ := List.at_cons.mp hsite.installed
    exact ⟨_, _, hexits, fun target hfind => ⟨store, .goto hgoto rfl hfind, hagree, .refl _ _ _ _⟩⟩
  ifThen s₂ := fun hc hp hvalue here names all p hsite cells ending store hagree hb => by
    obtain ⟨hatTest, hatBody, hzero, hnonzero, hexit⟩ := runs_ifThenCode rfl hsite.installed hsite.nodup link
    simp only [Expr.slots, hc.run] at hsite
    have hsiteTest := hsite.first (hp.laid (1 :: here)) hp.keeps.temps hatTest
    have hsiteBody := (hsite.second hc.keeps (hc.laid (0 :: here)) hatBody).before (Nat.le_refl s₂.supply.temps) hatBody
    rcases (hc.holds _ _).withValue hsiteTest hagree hb with
      ⟨reading, middle, after, access, hnext, hrun, hagree₁, hun, -, haccess, hstands⟩ | hout
    · obtain rfl := Option.some.inj (hvalue.symm.trans haccess)
      rw [← hstands.value hagree₁] at hnext
      split at hnext
      · obtain rfl := Option.some.inj hnext
        exact ⟨after, hrun.trans (hzero after ‹_›), hagree₁, hun.mono le_rfl hp.keeps.temps, given_none⟩
      · have hentered := hrun.trans (hnonzero after ‹_›)
        have hbefore := hun.mono le_rfl hp.keeps.temps
        rcases Ends.andThen (hp.holds _ _ hsiteBody hagree₁) hnext with
          ⟨_, middle', after', hdone, hrun', hagree', hun', -⟩ | hout
        · obtain rfl := Option.some.inj hdone
          exact ⟨after', hentered.trans (hrun'.trans (hexit after')), hagree',
            hbefore.trans (hun'.mono hc.keeps.temps le_rfl), given_none⟩
        · rw [hc.keeps.exits] at hout
          exact (hout _ le_rfl _ _).prepend hentered hbefore hc.keeps.temps le_rfl
    · exact hout _ hp.keeps.temps _ _
  ifThenElse s₃ s₄ result :=
      fun {s test s₁ yes s₂ no ty value span condition positive negative} hc hp hn hbranch hresult _
      hk hvalue here names all p hsite cells ending store hagree hb => by
    obtain ⟨q, hatTest, hatYes, hatNo, hzero, hnonzero, hfromYes, hfromNo⟩ :=
      runs_ifThenElseCode rfl hsite.installed hsite.nodup link
    have hlaidRest := (hp.laid (1 :: here)).append (hn.laid (2 :: here))
    have hlaid := (hc.laid (0 :: here)).append hlaidRest
    simp only [Expr.slots, hc.run, hp.run] at hsite
    have hlast := hp.keeps.temps.trans (hn.keeps.temps.trans hk.temps)
    have hsiteTest := hsite.first hlaidRest hlast hatTest
    have hsiteRest := hsite.second hc.keeps (hc.laid (0 :: here)) hatYes
    have hsiteYes := hsiteRest.first (hn.laid (2 :: here)) (hn.keeps.temps.trans hk.temps) hatYes
    have hsiteNo := (hsiteRest.second hp.keeps (hp.laid (1 :: here)) hatNo).before hk.temps hatNo
    have hfree : ∀ temp, result = some temp → layout.Free temp := by
      rintro temp rfl
      rcases resultTemp_eq hresult hn.after with ⟨-, hr', -⟩ | ⟨-, hr', rfl⟩
      · cases hr'
      · obtain rfl := Option.some.inj hr'
        exact hsite.covers.free hlaid hlaid.le le_rfl (Nat.lt_succ_self _)
    have hintYes : s₂.typeTable.actual yes.ty = .int → s₃.typeTable.actual ty = .int := by
      intro hint
      have hint₃ := TypeTable.follow_eq_int_of_prefix hn.keeps.bindings _ hint
      rcases hbranch with ⟨hty, hfits⟩ | ⟨hty, -⟩
      · exact hty ▸ TypeTable.actual_eq_int_of_fits hint₃ hfits
      · exact hty ▸ hint₃
    have hintNo : s₃.typeTable.actual no.ty = .int → s₃.typeTable.actual ty = .int := by
      intro hint
      rcases hbranch with ⟨hty, -⟩ | ⟨hty, hfits⟩
      · exact hty ▸ hint
      · exact hty ▸ TypeTable.actual_eq_int_of_fits hint hfits
    rcases (hc.holds _ _).withValue hsiteTest hagree hb with
      ⟨reading, middle, after, access, hnext, hrun, hagree₁, hun, -, haccess, hstands⟩ | hout
    · obtain rfl := Option.some.inj (hvalue.symm.trans haccess)
      rw [← hstands.value hagree₁] at hnext
      have hbefore := hun.mono le_rfl hlast
      split at hnext
      · have hends := ends_branch (a := ⟨[], ty, _⟩) (hn.holds _ _) hsiteNo hresult hn.after rfl hfree hintNo
          hn.keeps.temps le_rfl hk.temps hfromNo hagree₁ hnext
        rw [hp.keeps.exits, hc.keeps.exits] at hends
        exact hends.prepend (hrun.trans (hzero after ‹_›)) hbefore (hc.keeps.temps.trans hp.keeps.temps) le_rfl
      · have hends := ends_branch (a := ⟨[], ty, _⟩) (hp.holds _ _) hsiteYes hresult hn.after rfl hfree hintYes
          hp.keeps.temps hn.keeps.temps hk.temps hfromYes hagree₁ hnext
        rw [hc.keeps.exits] at hends
        exact hends.prepend (hrun.trans (hnonzero after ‹_›)) hbefore hc.keeps.temps le_rfl
    · exact hout _ hlast _ _
  whileLoop s s₁ s₂ :=
      fun {test inside value span condition body} _ hc hb _ hvalue here names all p hsite cells ending store
      hagree hbehavior => by
    obtain ⟨target, htarget, hatTest, hatBody, hhead, hzero, hnonzero, hback, hexit⟩ :=
      runs_whileCode rfl hsite.installed hsite.nodup link
    simp only [Expr.slots, hc.run] at hsite
    simp only [Expr.behavior] at hbehavior
    have hsite₀ : Site layout names (condition.slots (0 :: here) s.withLabel.withLabel ++ body.slots (1 :: here)
        (s₁.insideLoop ⟨s.supply.labels + 1⟩)) s.withLabel.withLabel s₂ all p _ := { hsite with }
    have hsiteTest := (hsite₀.first (hb.laid (1 :: here)) hb.keeps.temps hatTest).before
      (Nat.le_refl s₁.supply.temps) hatTest
    have hsiteBody : Site layout names (body.slots (1 :: here) (s₁.insideLoop ⟨s.supply.labels + 1⟩))
        (s₁.insideLoop ⟨s.supply.labels + 1⟩) s₂ all _ inside.code :=
      { hsite₀.second hc.keeps (hc.laid (0 :: here)) hatBody with }
    have hx := hc.holds (0 :: here) names
    have hy := hb.holds (1 :: here) names
    generalize condition.behavior true turns (0 :: here) names = x at hx hbehavior
    generalize body.behavior true turns (1 :: here) names = y at hy hbehavior
    -- The loop starts again at its head after each turn.
    generalize turns = left at hbehavior
    induction left generalizing cells store with
    | zero => cases hbehavior
    | succ left ih =>
      rcases hx.withValue hsiteTest hagree hbehavior with
        ⟨reading, middle, after, access, hnext, hrun, hagree₁, hun, -, haccess, hstands⟩ | hout
      · obtain rfl := Option.some.inj (hvalue.symm.trans haccess)
        rw [← hstands.value hagree₁] at hnext
        have htested := (hhead store).trans hrun
        have hbefore := hun.mono le_rfl hb.keeps.temps
        split at hnext
        · obtain rfl := Option.some.inj hnext
          exact ⟨after, htested.trans (hzero after ‹_›), hagree₁, hbefore, given_none⟩
        · have hentered := htested.trans (hnonzero after ‹_›)
          rcases hy.turn hsiteBody rfl htarget hagree₁ hnext with
            ⟨middle', after', hagain, hrun', hagree', hun'⟩ | ⟨left, after', rfl, hrun', hagree', hun'⟩ | hout
          · exact (ih _ _ hagree' hagain).prepend (hentered.trans (hrun'.trans (hback after')))
              (hbefore.trans (hun'.mono hc.keeps.temps le_rfl)) le_rfl le_rfl
          · exact ⟨after', hentered.trans (hrun'.trans (hexit after')), hagree',
              hbefore.trans (hun'.mono hc.keeps.temps le_rfl), given_none⟩
          · exact (hout _ _ _ _ _).prepend hentered hbefore le_rfl le_rfl
      · exact (hout _ hb.keeps.temps _ _).prepend (hhead store) (.refl _ _ _ _) le_rfl le_rfl
  forLoop s s₂ s₃ :=
      fun {low s₁ high inside lowest highest span counter first last body} hf hl hb _ hpl hph here names all p
      hsite cells ending store hagree hbehavior => by
    have hle : s₂.supply.temps + 1 ≤ s₃.supply.temps := hb.keeps.temps
    have hlast : s₂.supply.temps ≤ s₃.supply.temps + 1 := (Nat.le_succ _).trans (hle.trans (Nat.le_succ _))
    have hlaid := (hf.laid (0 :: here)).append (hl.laid (1 :: here))
    have hlaidBody : Laid (body.slots (2 :: here) (s₂.insideFor counter.name)) (s₂.supply.temps + 1) s₃.supply.temps :=
      hb.laid (2 :: here)
    simp only [Expr.slots, hf.run, hl.run, ← List.append_assoc] at hsite
    obtain ⟨hatOperands, hatLoop⟩ := List.at_append.mp hsite.installed
    have hsiteOperands := hsite.first (hlaidBody.cons here) hlast hatOperands
    have hcovers := hsite.covers.right hlaid hlaid.le
    have hkey := hcovers.head
    have hfreeBound : layout.Free ⟨s₃.supply.temps⟩ := hsite.covers.free (hlaid.append (hlaidBody.cons here))
      (hlaid.append (hlaidBody.cons here)).le le_rfl (Nat.lt_succ_self _)
    have hscoped : Scoped layout ((counter.name, here) :: names) (s₂.insideFor counter.name) :=
      (hsite.inScope.keeps (hf.keeps.trans hl.keeps)).declare (fun other => ScopeStack.get?_put _ _ _ _) (Nat.le_succ _)
        rfl hkey (Nat.lt_succ_self _) rfl
    have hsiteBody {q : Nat} (hat : List.At all q inside.code) : Site layout ((counter.name, here) :: names)
        (body.slots (2 :: here) (s₂.insideFor counter.name)) (s₂.insideFor counter.name) s₃ all q inside.code :=
      ⟨hscoped, hcovers.tail.mono le_rfl (Nat.le_succ _), hsite.nodup, hat⟩
    rcases ends_operands hf hl hsiteOperands hagree hbehavior with
      ⟨one, other, middle, after, lowPlace, highPlace, hnext, hrun, hagree', hun, -, hlowPlace, hhighPlace, huse,
        hstands⟩ | hout
    · obtain rfl := Option.some.inj (hpl.symm.trans hlowPlace)
      obtain rfl := Option.some.inj (hph.symm.trans hhighPlace)
      obtain ⟨word, hword, hnext⟩ := Behavior.withUse_eq_some hnext
      -- The counter is not a temp of the upper bound, which is read after it has been set.
      have hhighest : highest.value link (after.put ⟨s₂.supply.temps⟩ word) = other.word := by
        rw [Access.value_put (fun hm => (hstands.below _ hm).ne rfl), hstands.value hagree']
      have hloop := ends_forCode (hb.holds _ _) hatLoop hsiteBody hsite.nodup rfl hkey hfreeBound hle le_rfl hagree'
        (huse word hword) hhighest hnext s.exits
      rw [Nat.add_assoc, ← List.length_append] at hrun
      rw [List.length_append, ← Nat.add_assoc]
      refine (hloop.mono le_rfl le_rfl ?_).prepend hrun (hun.mono le_rfl hlast) (hlaid.le.trans (Nat.le_succ _)) le_rfl
      rintro value cells after rfl
      exact given_none
    · exact hout _ hlast _ _
  sequence h here names := h.holds here names
  emptySequence _ := fun here names all p hsite cells ending store hagree hb => by
    obtain rfl := Option.some.inj hb
    exact ⟨store, .refl _, hagree, .refl _ _ _ _, given_none⟩
  single h here names := by
    simp only [sequenceSlots, List.append_nil]
    exact h.holds (0 :: here) names
  longer hf hr := fun here names all p hsite cells ending store hagree hb => by
    simp only [sequenceSlots.eq_2 _ _ _ (_ :: _), hf.run] at hsite
    obtain ⟨hatFirst, hatRest⟩ := List.at_append.mp hsite.installed
    have hsiteFirst := hsite.first (hr.laidSequence (1 :: here)) hr.keeps.temps hatFirst
    have hsiteRest := hsite.second hf.keeps (hf.laid (0 :: here)) hatRest
    rcases Ends.andThen (hf.holds _ _ hsiteFirst hagree) hb with ⟨_, middle, after, hnext, hrun, hagree', hun, -⟩ | hout
    · have hends := hr.holds _ _ hsiteRest hagree' hnext
      rw [hf.keeps.exits, Nat.add_assoc, ← List.length_append] at hends
      exact hends.prepend hrun (hun.mono le_rfl hr.keeps.temps) hf.keeps.temps le_rfl
    · exact hout _ hr.keeps.temps _ _

def Supplies (layout : Layout) (link : Linkage) (turns : Nat) (es : List Expr) (s : Analyzer)
    (a : List Code × List Access) (t : Analyzer) : Prop :=
  ∀ here, Laid (sequenceSlots here es s) s.supply.temps t.supply.temps ∧
    ∀ names ⦃all p⦄, Site layout names (sequenceSlots here es s) s t all p a.1 →
      ∀ ⦃cells ending store evaluated places⦄, layout.Agrees cells store →
        argumentsBehavior true turns here names evaluated es cells = some ending →
        List.Forall₂ (Lasts layout link s.supply.temps store) places evaluated →
        ∀ ⦃frame tac⦄, all[p + a.1.length]? = some (.op frame tac) →
          (∀ after, tac.Asks link after (.call ((places ++ a.2).map (·.value link after)))) →
          ∀ q post, Ends layout link all s.exits s.supply.temps t.supply.temps p store q post ending

lemma map_value_of_lasts {first : Nat} {store : Store} {places : List Access} {evaluated : List Reading} {cells : Cells}
    {words : List Word} (h : List.Forall₂ (Lasts layout link first store) places evaluated)
    (hagree : layout.Agrees cells store) (hw : evaluated.mapM (Reading.use true cells) = some words) :
    places.map (·.value link store) = words := by
  induction h generalizing words with
  | nil => simpa using hw
  | @cons access reading places evaluated hfirst _ ih =>
    cases huse : reading.use true cells with
    | none => simp [huse] at hw
    | some word =>
      cases hrest : evaluated.mapM (Reading.use true cells) with
      | none => simp [huse, hrest] at hw
      | some others =>
        obtain rfl : word :: others = words := by simpa [huse, hrest] using hw
        rw [List.map_cons, ih hrest, hfirst (.refl _ first first _) hagree huse]

lemma callOperation_asks {name : String} {entry : Option Entry} {destination : Option Temp} {actuals : List Access}
    {operation : Tac} (h : callOperation name entry destination actuals s = (operation, t)) (store : Store) :
    operation.Asks link store (.call (actuals.map (·.value link store))) := by
  cases entry with
  | some entry =>
    obtain ⟨rfl, -⟩ := Prod.mk.inj h
    rfl
  | none =>
    obtain ⟨rfl, -⟩ := Prod.mk.inj h
    rfl

lemma aggregateCases_follows : AggregateCases (FollowsExpr layout link turns) (fun _ => Supplies layout link turns)
    (fun _ _ _ _ _ _ _ => True) where
  array s₂ := fun _ _ hs hi _ hpc _ here names all p hsite cells ending store hagree hb => by
    obtain ⟨hatOperands, hatArray⟩ := List.at_append.mp hsite.installed
    simp only [Expr.slots, hs.run] at hsite
    have hle : s₂.supply.temps ≤ s₂.supply.temps + 1 + 1 + 1 := by omega
    rcases ends_operands hs hi (hsite.before hle hatOperands) hagree hb with
      ⟨one, other, middle, after, first, second, hnext, hrun, hagree', -, -, hfirst, -, huse, -⟩ | hout
    · obtain rfl := Option.some.inj (hpc.symm.trans hfirst)
      obtain ⟨word, hword, hnext⟩ := Behavior.withUse_eq_some hnext
      obtain rfl := Option.some.inj hnext
      rw [Nat.add_assoc, ← List.length_append] at hrun
      exact ⟨_, after, _, _, hrun, (List.at_cons.mp hatArray).1, huse word hword, rfl⟩
    · exact hout _ hle _ _
  record _ _ := fun _ _ _ _ _ _ _ _ _ _ _ _ _ hb => by cases hb
  call _ _ _ _ _ :=
      fun _ ha hcall hedge _ _ _ hoperation _ hk₄ hk here names all p hsite cells ending store hagree hb => by
    have hle := (((keeps.noteCall _).apply hcall).trans (((keeps.noteEdge _).apply hedge).trans (hk₄.trans hk))).temps
    obtain ⟨hatCode, hatCall⟩ := List.at_append.mp hsite.installed
    exact ((ha.holds here).2 names (hsite.before hle hatCode) hagree hb .nil (List.at_cons.mp hatCall).1
      (callOperation_asks hoperation) _ _).mono le_rfl hle fun _ _ _ hp => hp
  noArguments _ :=
      fun here => ⟨.nil le_rfl, fun names all p hsite cells ending store evaluated places hagree hb hlasts frame
      tac hop hasks q post => by
    obtain ⟨words, hwords, rfl⟩ := Option.map_eq_some_iff.mp hb
    have hcall := hasks store
    rw [List.append_nil, map_value_of_lasts hlasts hagree hwords] at hcall
    exact ⟨p, store, frame, tac, .refl _, hop, hcall⟩⟩
  argument := fun {t s first place s₁ code others param params expression rest} hv hplace hr here => by
    simp only [sequenceSlots, hv.run]
    obtain ⟨hlaid, hrest⟩ := hr.holds (1 :: here)
    refine ⟨(hv.laid (0 :: here)).append hlaid,
      fun names all p hsite cells ending store evaluated places hagree hb hlasts frame tac hop hasks q post => ?_⟩
    obtain ⟨hatFirst, hatRest⟩ := List.at_append.mp hsite.installed
    have hsiteFirst := hsite.first hlaid hr.keeps.temps hatFirst
    have hsiteRest := hsite.second hv.keeps (hv.laid (0 :: here)) hatRest
    rcases (hv.holds _ _).withValue hsiteFirst hagree hb with
      ⟨reading, middle, after, access, hnext, hrun, hagree', hun, -, haccess, hstands⟩ | hout
    · have hbefore : List.Forall₂ (Lasts layout link s₁.supply.temps after) places evaluated :=
        hlasts.imp fun _ _ hl => hl.later hun hv.keeps.temps
      have hall := List.rel_append hbefore (.cons hstands.lasts .nil)
      rw [List.length_append, ← Nat.add_assoc] at hop
      obtain rfl := Option.some.inj (hplace.symm.trans haccess)
      have hends := hrest names hsiteRest hagree' hnext hall hop (fun after => by simpa using hasks after) q post
      rw [hv.keeps.exits] at hends
      exact hends.prepend hrun (hun.mono le_rfl hr.keeps.temps) hv.keeps.temps le_rfl
    · exact hout _ hr.keeps.temps _ _
  noFields _ := trivial
  fields _ _ _ _ := fun _ _ _ _ => trivial

def Establishes (layout : Layout) (link : Linkage) (names others : Names) (slots : List (Path × Temp))
    (behavior : Behavior) (s : Analyzer) (code : List Code) (t : Analyzer) : Prop :=
  ∀ ⦃all p⦄, Site layout names slots s t all p code →
    ∀ ⦃cells ending store⦄, layout.Agrees cells store → behavior cells = some ending →
      Ends layout link all s.exits s.supply.temps t.supply.temps p store (p + code.length)
        (fun _ _ _ => Scoped layout others t) ending

lemma declareFunctions_get? {seen : List String} {members : List FunctionDecl} {declared : List Declared}
    (h : declareFunctions seen members s = (declared, t)) {name : String} {info : Variable}
    (hget : t.values.get? name = some (.var info)) : s.values.get? name = some (.var info) := by
  induction members generalizing seen s declared with
  | nil =>
    obtain ⟨-, rfl⟩ := pure_eq.mp h
    exact hget
  | cons decl rest ih =>
    obtain ⟨first, s₁, hfirst, r₁⟩ := bind_eq.mp h
    obtain ⟨_, s₂, hname, r₂⟩ := bind_eq.mp r₁
    obtain ⟨others, s₃, hrest, r₃⟩ := bind_eq.mp r₂
    obtain ⟨-, rfl⟩ := pure_eq.mp r₃
    have hbound := ih hrest
    rw [← ((keeps_declareFunction decl).apply hfirst).values]
    unfold enterName at hname
    split at hname
    · obtain rfl := congrArg Prod.snd hname
      exact hbound
    · obtain rfl := congrArg Prod.snd hname
      change (s₁.values.put _ _).get? _ = _ at hbound
      rw [ScopeStack.get?_put] at hbound
      split at hbound
      · cases hbound
      · exact hbound

lemma declarationCases_follows : DeclarationCases (FollowsExpr layout link turns) (FollowsSequence layout link turns)
    (fun gs s code t => ∀ here names, Establishes layout link names (names.declare here gs) (groupsSlots here gs s)
      (groupsBehavior true turns here names gs) s code t)
    (fun g s code t => ∀ here names, Establishes layout link names (g.declare here names) (g.slots here s)
      (g.behavior true turns here names) s code t) (fun _ _ _ _ _ => True) where
  letIn s before s₂ :=
      fun {s₁ inside span groups body} _ hd hb here names all p hsite cells ending store hagree hbehavior => by
    simp only [Expr.slots, hd.run] at hsite
    obtain ⟨hatBefore, hatInside⟩ := List.at_append.mp hsite.installed
    have hsite₀ : Site layout names (groupsSlots (0 :: here) groups s.insideLet ++ sequenceSlots (1 :: here) body s₁)
        s.insideLet s₂ all p _ := { hsite with }
    have hlaid := (runCases_lays.lowerGroups groups hd.run hd.sound hd.clean).holds (0 :: here)
    have hsiteBefore := hsite₀.first (hb.laidSequence (1 :: here)) hb.keeps.temps hatBefore
    rcases Ends.andThen (hd.holds _ _ hsiteBefore hagree) hbehavior with
      ⟨_, middle, after, hnext, hrun, hagree', hun, hscoped⟩ | hout
    · have hends :=
        hb.holds _ _ ⟨hscoped, hsite₀.covers.right hlaid hd.keeps.temps, hsite.nodup, hatInside⟩ hagree' hnext
      rw [hd.keeps.exits, Nat.add_assoc, ← List.length_append] at hends
      exact hends.prepend hrun (hun.mono le_rfl hb.keeps.temps) hd.keeps.temps le_rfl
    · exact hout _ hb.keeps.temps _ _
  noGroups _ := fun here names all p hsite cells ending store hagree hb => by
    obtain rfl := Option.some.inj hb
    exact ⟨store, .refl _, hagree, .refl _ _ _ _, hsite.inScope⟩
  groups code := fun {s s₁ codes t group rest} hg hr here names all p hsite cells ending store hagree hb => by
    simp only [groupsSlots, hg.run] at hsite
    obtain ⟨hatFirst, hatRest⟩ := List.at_append.mp hsite.installed
    have hlaid := (runCases_lays.lowerGroup group hg.run hg.sound hg.clean).holds (0 :: here)
    have hlaidRest := (runCases_lays.lowerGroups rest hr.run hr.sound hr.clean).holds (1 :: here)
    have hsiteFirst := hsite.first hlaidRest hr.keeps.temps hatFirst
    rcases Ends.andThen (hg.holds _ _ hsiteFirst hagree) hb with
      ⟨_, middle, after, hnext, hrun, hagree', hun, hscoped⟩ | hout
    · have hends := hr.holds _ _ ⟨hscoped, hsite.covers.right hlaid hg.keeps.temps, hsite.nodup, hatRest⟩ hagree' hnext
      rw [hg.keeps.exits, Nat.add_assoc, ← List.length_append] at hends
      exact hends.prepend hrun (hun.mono le_rfl hr.keeps.temps) hg.keeps.temps le_rfl
    · exact hout _ hr.keeps.temps _ _
  var s₁ := fun {s init ty source name declared value} hv hsource hty here names all p hsite cells ending store hagree
      hb => by
    simp only [Group.slots, hv.run] at hsite
    have hat := hsite.installed
    simp only [List.at_append, List.at_cons, List.at_nil, and_true] at hat
    obtain ⟨hcode, hmove⟩ := hat
    have hkey : layout.place here = some ⟨s₁.supply.temps⟩ :=
      hsite.covers.placed (here, ⟨s₁.supply.temps⟩) (List.mem_append_right _ List.mem_cons_self)
    have hsiteInit := hsite.first (Laid.cons here (.nil le_rfl)) (Nat.le_succ _) hcode
    rcases (hv.holds _ _).withValue hsiteInit hagree hb with
      ⟨reading, middle, after, access, hnext, hrun, hagree', hun, hint, haccess, hstands⟩ | hout
    · obtain rfl := Option.some.inj (hsource.symm.trans haccess)
      obtain rfl := Option.some.inj hnext
      have hmoved := hrun.trans (.move hmove rfl)
      rw [hstands.value hagree'] at hmoved
      have hdeclared : s₁.typeTable.actual ty = .int := by
        rcases hty with rfl | hfits
        · exact hint
        · exact TypeTable.actual_eq_int_of_fits hint hfits
      refine ⟨_, by simpa [Nat.add_assoc] using hmoved, hagree'.put hkey _,
        (hun.mono le_rfl (Nat.le_succ _)).trans (.put_variable _ hkey _), ?_⟩
      exact (hsite.inScope.keeps hv.keeps).declare (fun other => ScopeStack.get?_put _ _ _ _) (Nat.le_succ _) rfl hkey
        (Nat.lt_succ_self _) hdeclared
    · exact hout _ (Nat.le_succ _) _ _
  types _ hgroup := fun here names all p hsite cells ending store hagree hb => by
    obtain rfl := Option.some.inj hb
    have hgrows := ((declares_typeGroup _).apply hgroup).toGrows
    exact ⟨store, .refl _, hagree, .refl _ _ _ _, hsite.inScope.grow hgrows fun _ _ hget => hget⟩
  functions s₁ declared inside s₃ := fun _ hdeclared _ hb _ hk here names all p hsite cells ending store hagree
      hbehavior => by
    obtain rfl := Option.some.inj hbehavior
    have hd := (declares_declareFunctions _ _).apply hdeclared
    have hkept := (hb.keeps.trans hk).trans (.withLabel s₃)
    have hat := hsite.installed
    simp only [List.cons_append, List.at_append, List.at_cons, List.at_nil, and_true] at hat
    obtain ⟨hgoto, -, hexit⟩ := hat
    have hskip : Runs link all p store _ store :=
      (Runs.goto hgoto rfl (find?_of_getElem? hsite.nodup hexit rfl)).trans (.label hexit)
    refine ⟨store, ?_, hagree, .refl _ _ _ _, hsite.inScope.grow (hd.toGrows.trans hkept.toGrows)
      fun name info hget => ?_⟩
    · convert hskip using 1
      simp only [List.cons_append, List.length_append, List.length_cons, List.length_nil]
      omega
    · exact declareFunctions_get? hdeclared (hkept.values ▸ hget)
  noBodies _ := trivial
  bodies _ _ _ _ := fun _ _ _ _ _ _ => trivial

end Analysis

end TigerMips
