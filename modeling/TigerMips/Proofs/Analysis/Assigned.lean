import TigerMips.Proofs.Analysis.Confined
import TigerMips.Proofs.Analysis.Meaning
import TigerMips.Proofs.Analysis.Owners
import TigerMips.Proofs.Assignment

/-! The code of a program without errors reads no temp before it is written. -/

namespace TigerMips

namespace Access

def inner : Access → List Temp
  | memory base offset => base.temps ++ offset.temps
  | temp _ | const _ => []

def written : Access → List Temp
  | temp place => [place]
  | const _ | memory _ _ => []

end Access

namespace Tac

def reads : Tac → Set Temp
  | move destination source => {temp | temp ∈ destination.inner ++ source.temps}
  | binary _ destination lhs rhs => {temp | temp ∈ destination.inner ++ lhs.temps ++ rhs.temps}
  | negate destination operand => {temp | temp ∈ destination.inner ++ operand.temps}
  | call destination _ arguments | callRuntime destination _ arguments =>
    {temp | temp ∈ destination.toList.flatMap Access.inner ++ arguments.flatMap Access.temps}
  | branch _ lhs rhs _ => {temp | temp ∈ lhs.temps ++ rhs.temps}
  | goto _ => ∅
  | ret => .univ

def writes : Tac → List Temp
  | move destination _ | binary _ destination _ _ | negate destination _ => destination.written
  | call destination _ _ => destination.toList.flatMap Access.written
  | callRuntime destination name _ =>
    if (Runtime.ofName? name).any Runtime.hasResult then destination.toList.flatMap Access.written else []
  | ret | goto _ | branch _ _ _ _ => []

def effect (tac : Tac) : Effect where
  reads := tac.reads
  writes := tac.writes
  jumps := tac.jump?.toList
  passes := tac.passes

end Tac

namespace Code

def effect : Code → Effect
  | label place => { label? := some place }
  | op _ tac => tac.effect
  | labeled place _ tac => { tac.effect with label? := some place }

section

variable {marks : Label → Set Temp} {known after : Set Temp} {rest : List Code}

@[simp] lemma assigned_nil : Assigned effect marks known [] after ↔ after ⊆ known := Iff.rfl

@[simp] lemma assigned_label (place : Label) : Assigned effect marks known (label place :: rest) after ↔
    marks place ⊆ known ∧ Assigned effect marks (marks place) rest after :=
  Assigned.cons_label_iff rfl

@[simp] lemma assigned_op (frame : FrameId) (tac : Tac) : Assigned effect marks known (op frame tac :: rest) after ↔
    ((∀ temp ∈ tac.reads, temp ∈ known) ∧ ∀ target ∈ tac.jump?.toList, marks target ⊆ known) ∧
      Assigned effect marks (tac.effect.leaving known) rest after :=
  Assigned.cons_iff rfl

@[simp] lemma assigned_labeled (place : Label) (frame : FrameId) (tac : Tac) :
    Assigned effect marks known (labeled place frame tac :: rest) after ↔
      marks place ⊆ known ∧ Assigned effect marks (marks place) (op frame tac :: rest) after := by
  rw [assigned_op, ← and_assoc]
  exact and_congr_left' ⟨fun h => ⟨h.label place rfl, h.reads, h.jumps⟩,
    fun h => ⟨by simpa [effect] using h.1, h.2.1, h.2.2⟩⟩

end

end Code

namespace Analyzer

def Knows (s : Analyzer) (known : Set Temp) : Prop :=
  ∀ name info, s.values.get? name = some (.var info) → info.place ∈ known

def Leaving (s : Analyzer) (known : Set Temp) (marks : Label → Set Temp) : Prop := ∀ l, s.Leaves l → marks l ⊆ known

variable {s t : Analyzer} {known known' : Set Temp} {marks : Label → Set Temp}

lemma Knows.mono (h : s.Knows known) (hv : t.values = s.values) (hk : known ⊆ known') : t.Knows known' :=
  fun name info hfound => hk (h name info (hv ▸ hfound))

lemma knows_univ : s.Knows .univ := fun _ _ _ => trivial

lemma Knows.put (h : s.Knows known) (hk : known ⊆ known') {values : ScopeStack Value}
    (hv : ∀ name, values.get? name = s.values.get? name) {name : String} {info : Variable}
    (ht : t.values = values.put name (.var info)) (hi : info.place ∈ known') : t.Knows known' := by
  intro other found hfound
  rw [ht, ScopeStack.get?_put, hv] at hfound
  split at hfound
  · obtain rfl := Value.var.inj (Option.some.inj hfound)
    exact hi
  · exact hk (h other found hfound)

lemma Leaving.later (h : s.Leaving known marks) (hx : t.exits = s.exits) (hk : known ⊆ known') :
    t.Leaving known' marks :=
  fun l hl => (h l (by unfold Leaves at hl ⊢; rwa [← hx])).trans hk

lemma Leaving.of_exit {exit : Label} {outer : List (Option Label)}
    (hx : s.exits = some exit :: outer) (h : marks exit ⊆ known) : s.Leaving known marks := by
  intro l hl
  obtain rfl : exit = l := by simpa [Leaves, hx] using hl
  exact h

end Analyzer

namespace Analysis

open Analyzer Code

variable {s t : Analyzer} {known known' mid : Set Temp}

def Holds (known : Set Temp) (places : List Access) : Prop := ∀ place ∈ places, ∀ temp ∈ place.temps, temp ∈ known

lemma Holds.mono {list : List Access} (h : Holds known list) (hk : known ⊆ known') : Holds known' list :=
  fun place hp temp ht => hk (h place hp temp ht)

lemma Holds.of_place {value : Lowered} {place : Access} (h : Holds known value.place.toList)
    (hp : value.place = some place) : ∀ temp ∈ place.temps, temp ∈ known :=
  h place (by simp [hp])

def Assigns (s : Analyzer) (codes : List Code) (places : List Access) (t : Analyzer) : Prop :=
  ∀ known, s.Knows known → ∃ after, known ⊆ after ∧ Holds after places ∧
    Settles effect (s.Leaving known) s.supply.labels t.supply.labels known codes after

lemma Assigns.part {s₁ s₂ : Analyzer} {codes : List Code} {places : List Access} (h : Assigns s₁ codes places s₂)
    (hk : s.Keeps s₁) (hknows : s.Knows known) (hmid : known ⊆ mid) :
    ∃ after, mid ⊆ after ∧ Holds after places ∧
      Settles effect (s.Leaving known) s₁.supply.labels s₂.supply.labels mid codes after := by
  obtain ⟨after, ha, hp, hcode⟩ := h mid (hknows.mono hk.values hmid)
  exact ⟨after, ha, hp, hcode.mono fun marks hl => hl.later hk.exits hmid⟩

lemma assigns_nil {places : List Access} (hp : Holds ∅ places) (hl : s.supply.labels ≤ t.supply.labels) :
    Assigns s [] places t :=
  fun known _ => ⟨known, Set.Subset.rfl, hp.mono (Set.empty_subset _), .nil hl⟩

section

attribute [local simp] Tac.effect Effect.leaving Tac.passes Tac.reads Tac.writes Tac.jump? Access.inner Access.written
  Access.temps
  Access.int Access.word Runtime.ofName?_name

lemma settles_toSimple {access simple : Access} {load : List Code} (h : toSimple access s = ((simple, load), t))
    {K : (Label → Set Temp) → Prop} (ha : ∀ temp ∈ access.temps, temp ∈ known) :
    ∃ after, known ⊆ after ∧ (∀ temp ∈ simple.temps, temp ∈ after) ∧
      Settles effect K s.supply.labels t.supply.labels known load after := by
  rcases toSimple_eq h with ⟨rfl, rfl, rfl⟩ | ⟨rfl, rfl, rfl⟩
  · exact ⟨known, Set.Subset.rfl, ha, .nil le_rfl⟩
  · refine ⟨insert ⟨s.supply.temps⟩ known, Set.subset_insert _ _, by simp, .of_assigned le_rfl fun marks _ => ?_⟩
    simpa using ha

lemma settles_deciding {conjunction : Bool} {result : Temp} {left right : Lowered} {lhs rhs : Access}
    {K : (Label → Set Temp) → Prop} {first second : Set Temp} {i j : Nat}
    (hl : Settles effect K i j known left.code first) (hr : Settles effect K j s.supply.labels first right.code second)
    (hlhs : ∀ temp ∈ lhs.temps, temp ∈ first) (hrhs : ∀ temp ∈ rhs.temps, temp ∈ second) (hsub : first ⊆ second) :
    Settles effect K i s.withLabel.withLabel.supply.labels known (decidingCode s.currentFrame conjunction
      ⟨s.supply.labels⟩ ⟨s.supply.labels + 1⟩ result left.code lhs right.code rhs) (insert result first) := by
  let decided : Label := ⟨s.supply.labels⟩
  let exit : Label := ⟨s.supply.labels + 1⟩
  let K' : (Label → Set Temp) → Prop := fun marks => marks decided = first ∧ marks exit = insert result first ∧ K marks
  have hskip : Settles effect K' j j first
      [.op s.currentFrame (.branch (if conjunction then .eq else .neq) lhs (.int 0) decided)] first :=
    .of_assigned le_rfl fun marks hk => by simpa [hk.1] using hlhs
  have hend : Settles effect K' s.supply.labels s.supply.labels second
      [.op s.currentFrame (.branch (if conjunction then .eq else .neq) rhs (.int 0) decided),
        .op s.currentFrame (.move (.temp result) (.int (if conjunction then 1 else 0))),
        .op s.currentFrame (.goto exit),
        .labeled decided s.currentFrame (.move (.temp result) (.int (if conjunction then 0 else 1))),
        .label exit] (insert result first) := .of_assigned le_rfl fun marks hk => by
    simpa [hk.1, hk.2.1, hsub, Set.insert_subset_insert hsub] using hrhs
  have hall := ((hl.mono fun _ hk => hk.2.2).append (hskip.append (hr.mono fun _ hk => hk.2.2))).append hend
  have hle := hl.1.trans hr.1
  have hdecided := hall.place decided first le_rfl (Nat.le_succ _) (Or.inr le_rfl) hle (Nat.lt_succ_self _)
  exact hdecided.place exit _ le_rfl (Nat.le_succ _) (Or.inr le_rfl) (hle.trans (Nat.le_succ _)) (Nat.lt_succ_self _)

lemma settles_operationCode {operator : Operator} {operands : Operands} {result : Temp} {left right : Lowered}
    {lhs rhs : Access} {code : List Code} (h : operationCode operator operands result left right lhs rhs s = (code, t))
    {K : (Label → Set Temp) → Prop} {first second : Set Temp} {i j : Nat}
    (hl : Settles effect K i j known left.code first) (hr : Settles effect K j s.supply.labels first right.code second)
    (hlhs : ∀ temp ∈ lhs.temps, temp ∈ first) (hrhs : ∀ temp ∈ rhs.temps, temp ∈ second) (hsub : first ⊆ second) :
    Settles effect K i t.supply.labels known code (insert result first) := by
  have hleft := fun temp htemp => hsub (hlhs temp htemp)
  rcases operationCode_eq h with ⟨conjunction, rfl, rfl⟩ | ⟨operator, ⟨rfl, rfl⟩ | ⟨rfl, rfl⟩⟩
  · exact settles_deciding hl hr hlhs hrhs hsub
  · refine .weaken ((hl.append hr).append (.of_assigned le_rfl fun marks _ => ?_)) (Set.insert_subset_insert hsub)
    simpa [or_imp, forall_and, Set.insert_subset_insert] using ⟨hleft, hrhs⟩
  · refine .weaken ((hl.append hr).append (.of_assigned le_rfl fun marks _ => ?_)) (Set.insert_subset_insert hsub)
    simpa [or_imp, forall_and] using ⟨hleft, hrhs⟩

lemma operandCases_assigns : OperandCases (fun _ s a t => Assigns s a.code a.place.toList t)
    (fun _ _ s a t => Assigns s a.code a.place.toList t) where
  int _ := assigns_nil (by simp [Holds]) le_rfl
  string _ hintern := assigns_nil (by simp [Holds]) ((keeps.internString _).apply hintern).labels
  nil _ := assigns_nil (by simp [Holds]) le_rfl
  lvalue h := h.holds
  assign := fun {_ _ _ _ _ destination _ _ _ _} hl hv _ hdest _ hplace known hknows => by
    obtain ⟨mid, hmid, htarget, hcode₁⟩ := hl.holds known hknows
    obtain ⟨after, hafter, hvalue, hcode₂⟩ := hv.holds.part hl.keeps hknows hmid
    have hread := hvalue.of_place hplace
    have hinner : ∀ temp ∈ destination.inner, temp ∈ after := fun temp htemp => by
      refine hafter (htarget.of_place hdest temp ?_)
      cases destination with
      | memory base offset => exact htemp
      | temp | const => cases htemp
    refine ⟨after, hmid.trans hafter, by simp [Holds], (hcode₁.append hcode₂).append
      (.of_assigned le_rfl fun _ _ => ?_)⟩
    simpa [or_imp, forall_and] using ⟨hinner, hread⟩
  operation s₂ := fun hl hr hpl hpr _ hcode _ known hknows => by
    obtain ⟨first, hfirst, hlhs, hcode₁⟩ := hl.holds known hknows
    obtain ⟨second, hsecond, hrhs, hcode₂⟩ := hr.holds.part hl.keeps hknows hfirst
    exact ⟨insert ⟨s₂.supply.temps⟩ first, hfirst.trans (Set.subset_insert _ _), by simp [Holds],
      settles_operationCode hcode hcode₁ hcode₂ (hlhs.of_place hpl) (hrhs.of_place hpr) hsecond⟩
  negate s₁ := fun ho _ hplace known hknows => by
    obtain ⟨mid, hmid, hoperand, hcode⟩ := ho.holds known hknows
    have hread := hoperand.of_place hplace
    exact ⟨insert ⟨s₁.supply.temps⟩ mid, hmid.trans (Set.subset_insert _ _), by simp [Holds],
      hcode.append (.of_assigned le_rfl fun _ _ => by simpa using hread)⟩
  variablePlace _ hfound _ hnote known hknows :=
    ⟨known, Set.Subset.rfl, by simpa [Holds] using hknows _ _ hfound, .nil ((keeps.noteUse _).apply hnote).labels⟩
  field s₁ index := fun {s} _ _ _ _ _ _ _ _ _ _ _ _ hb _ _ hplace hload _ known hknows => by
    obtain ⟨mid, hmid, hrecord, hcode⟩ := hb.holds known hknows
    have hoffset : Settles effect (s.Leaving known) s₁.supply.labels s₁.supply.labels mid
        [.op s₁.currentFrame (.binary .mul (.temp ⟨s₁.supply.temps⟩) (.int (Int32.ofNat index)) .word)]
        (insert ⟨s₁.supply.temps⟩ mid) := .of_assigned le_rfl (by simp)
    obtain ⟨after, hafter, hsimple, hload⟩ := settles_toSimple (K := s.Leaving known) hload fun temp htemp =>
      Set.mem_insert_of_mem ⟨s₁.supply.temps⟩ (hrecord.of_place hplace temp htemp)
    refine ⟨after, hmid.trans ((Set.subset_insert _ _).trans hafter), ?_, hcode.append (hoffset.append hload)⟩
    simpa [Holds, or_imp, forall_and] using ⟨hsimple, hafter (Set.mem_insert _ _)⟩
  subscript s s₂ s₃ offset := fun hb _ hi _ hplace hposition hload _ _ known hknows => by
    obtain ⟨first, hfirst, harray, hcode₁⟩ := hb.holds known hknows
    obtain ⟨second, hsecond, hsubscript, hcode₂⟩ := hi.holds.part hb.keeps hknows hfirst
    obtain ⟨after, hafter, hsimple, hload⟩ := settles_toSimple (K := s.Leaving known) hload
      ((harray.mono hsecond).of_place hplace)
    have hread : ∀ temp ∈ offset.temps, temp ∈ after :=
      fun temp htemp => hafter (hsubscript.of_place hposition temp htemp)
    refine ⟨insert ⟨s₃.supply.temps⟩ after, ((hfirst.trans hsecond).trans hafter).trans (Set.subset_insert _ _), ?_,
      ((hcode₁.append hcode₂).append hload).append (.of_assigned le_rfl fun _ _ => by simpa using hread)⟩
    simpa [Holds, or_imp, forall_and] using fun temp htemp => Or.inr (hsimple temp htemp)

lemma assigned_moveInto {marks : Label → Set Temp} (frame : FrameId) {result : Option Temp} {value : Option Access}
    (hp : result.isSome → value.isSome) (hv : Holds known value.toList) :
    Assigned effect marks known (moveInto frame result value) (known ∪ {temp | temp ∈ result}) := by
  cases result with
  | none => simp [moveInto]
  | some temp =>
    obtain ⟨access, rfl⟩ := Option.isSome_iff_exists.mp (hp rfl)
    have hread : ∀ temp ∈ access.temps, temp ∈ known := hv access (by simp)
    simpa [moveInto] using hread

lemma holds_result (result : Option Temp) : Holds (known ∪ {temp | temp ∈ result}) (result.map Access.temp).toList := by
  cases result <;> simp [Holds]

lemma ne_void_of_branch {table : TypeTable} (h : table.Sound) {ty yes no : Ty}
    (hb : ty = no ∧ table.fits yes no ∨ ty = yes ∧ table.fits no yes) (hty : ty ≠ .void) :
    yes ≠ .void ∧ no ≠ .void := by
  have hother : ∀ {given : Ty}, table.fits given ty → given ≠ .void := by
    rintro _ hfits rfl
    exact hty (TypeTable.eq_of_actual h (TypeTable.actual_eq_void_of_fits_left hfits) rfl)
  rcases hb with ⟨rfl, hfits⟩ | ⟨rfl, hfits⟩
  · exact ⟨hother hfits, hty⟩
  · exact ⟨hty, hother hfits⟩

lemma controlCases_assigns : ControlCases (fun _ s a t => Assigns s a.code a.place.toList t)
    (fun _ s a t => Assigns s a.code a.place.toList t) where
  breakLoop _ hexits known _ := by
    refine ⟨known, Set.Subset.rfl, by simp [Holds], .of_assigned le_rfl fun marks hk => ?_⟩
    simpa using hk _ (by simp [Leaves, hexits])
  ifThen s₂ := fun {s _ s₁ _ value _ _ _} hc hp hvalue known hknows => by
    obtain ⟨mid, hmid, hread, hcode₁⟩ := hc.holds known hknows
    obtain ⟨after, hafter, -, hcode₂⟩ := hp.holds.part hc.keeps hknows hmid
    have hread := hread.of_place hvalue
    let exit : Label := ⟨s₂.supply.labels⟩
    let K : (Label → Set Temp) → Prop := fun marks => marks exit = mid ∧ s.Leaving known marks
    have hskip : Settles effect K s₁.supply.labels s₁.supply.labels mid [skipUnless s₂.currentFrame value exit] mid :=
      .of_assigned le_rfl fun marks hk => by simpa [skipUnless, hk.1] using hread
    have hexit : Settles effect K s₂.supply.labels s₂.supply.labels after [.label exit] mid :=
      .of_assigned le_rfl fun marks hk => by simpa [hk.1] using hafter
    have hall := ((hcode₁.mono fun _ => And.right).append (hskip.append (hcode₂.mono fun _ => And.right))).append hexit
    exact ⟨mid, hmid, by simp [Holds], hall.place exit mid le_rfl (Nat.le_succ _) (Or.inr le_rfl)
      (hcode₁.1.trans hcode₂.1) (Nat.lt_succ_self _)⟩
  ifThenElse s₃ s₄ result := fun {s _ s₁ yes s₂ no ty value _ _ _ _} hc hp hn hty hresult _ _ hvalue known hknows => by
    obtain ⟨mid, hmid, hread, hcode₁⟩ := hc.holds known hknows
    obtain ⟨first, hfirst, hyesPlace, hcode₂⟩ := hp.holds.part hc.keeps hknows hmid
    obtain ⟨second, hsecond, hnoPlace, hcode₃⟩ := hn.holds.part (hc.keeps.trans hp.keeps) hknows hmid
    have hread := hread.of_place hvalue
    have hdrawn : s₄.supply.labels = s₃.supply.labels ∧ (result.isSome → ty ≠ .void) := by
      rcases resultTemp_eq hresult hn.after with ⟨-, rfl, rfl⟩ | ⟨hty, -, rfl⟩
      · simp
      · exact ⟨rfl, fun _ => hty⟩
    have hyesSome : result.isSome → yes.place.isSome := fun hsome => Option.isSome_iff_exists.mpr
      (((lowers_lowerExpr _).placed hp.run hp.sound hp.clean).exists_place
        (ne_void_of_branch hn.after.table hty (hdrawn.2 hsome)).1)
    have hnoSome : result.isSome → no.place.isSome := fun hsome => Option.isSome_iff_exists.mpr
      (((lowers_lowerExpr _).placed hn.run hn.sound hn.clean).exists_place
        (ne_void_of_branch hn.after.table hty (hdrawn.2 hsome)).2)
    let written : Set Temp := {temp | temp ∈ result}
    let otherwise : Label := ⟨s₃.supply.labels⟩
    let exit : Label := ⟨s₃.supply.labels + 1⟩
    let K : (Label → Set Temp) → Prop := fun marks =>
      marks otherwise = mid ∧ marks exit = mid ∪ written ∧ s.Leaving known marks
    have hskip :
        Settles effect K s₁.supply.labels s₁.supply.labels mid [skipUnless s₄.currentFrame value otherwise] mid :=
      .of_assigned le_rfl fun marks hk => by simpa [skipUnless, hk.1] using hread
    have hyesMove : Settles effect K s₂.supply.labels s₂.supply.labels first
        (moveInto s₄.currentFrame result yes.place) (first ∪ written) :=
      .of_assigned le_rfl fun _ _ => assigned_moveInto _ hyesSome hyesPlace
    have hswitch : Settles effect K s₂.supply.labels s₂.supply.labels (first ∪ written)
        [.op s₄.currentFrame (.goto exit), .label otherwise] mid := .of_assigned le_rfl fun marks hk => by
      simpa [hk.1, hk.2.1] using Set.union_subset_union_left written hfirst
    have hnoMove : Settles effect K s₃.supply.labels s₃.supply.labels second
        (moveInto s₄.currentFrame result no.place) (second ∪ written) :=
      .of_assigned le_rfl fun _ _ => assigned_moveInto _ hnoSome hnoPlace
    have hexit : Settles effect K s₃.supply.labels s₃.supply.labels (second ∪ written) [.label exit] (mid ∪ written) :=
      .of_assigned le_rfl fun marks hk => by simpa [hk.2.1] using Set.union_subset_union_left written hsecond
    have hall := ((((((hcode₁.mono fun _ hk => hk.2.2).append (hskip.append (hcode₂.mono fun _ hk => hk.2.2))).append
      hyesMove).append hswitch).append (hcode₃.mono fun _ hk => hk.2.2)).append hnoMove).append hexit
    have hle := hcode₁.1.trans (hcode₂.1.trans hcode₃.1)
    have hplaced :=
      (hall.place otherwise mid le_rfl (Nat.le_succ _) (Or.inr le_rfl) hle (Nat.lt_succ_self _)).place exit
      (mid ∪ written) le_rfl (Nat.le_succ _) (Or.inr le_rfl) (hle.trans (Nat.le_succ _)) (Nat.lt_succ_self _)
    refine ⟨mid ∪ written, hmid.trans Set.subset_union_left, ?_, ?_⟩
    · exact holds_result result
    · simpa [hdrawn.1] using hplaced
  whileLoop s s₁ s₂ := fun {_ _ value _ _ _} _ hc hb _ hvalue known hknows => by
    let head : Label := ⟨s.supply.labels⟩
    let exit : Label := ⟨s.supply.labels + 1⟩
    obtain ⟨mid, hmid, hread, hcode₁⟩ := hc.holds known (hknows.mono rfl Set.Subset.rfl)
    obtain ⟨after, hafter, -, hcode₂⟩ := hb.holds mid (hknows.mono hc.keeps.values hmid)
    have hread := hread.of_place hvalue
    let K : (Label → Set Temp) → Prop := fun marks => marks exit = known ∧ marks head = known ∧ s.Leaving known marks
    have hhead : Settles effect K (s.supply.labels + 2) (s.supply.labels + 2) known [.label head] known :=
      .of_assigned le_rfl fun marks hk => by simp [hk.2.1]
    have hskip : Settles effect K s₁.supply.labels s₁.supply.labels mid [skipUnless s₂.currentFrame value exit] mid :=
      .of_assigned le_rfl fun marks hk => by simpa [skipUnless, hk.1, hmid] using hread
    have hback : Settles effect K s₂.supply.labels s₂.supply.labels after
        [.op s₂.currentFrame (.goto head), .label exit] known := .of_assigned le_rfl fun marks hk => by
      simpa [hk.1, hk.2.1] using hmid.trans hafter
    have hall := ((hhead.append (hcode₁.mono fun _ hk => hk.2.2)).append (hskip.append (hcode₂.mono fun marks hk =>
      .of_exit rfl (hk.1.trans_subset hmid)))).append hback
    have hle : s.supply.labels + 2 ≤ s₂.supply.labels := hcode₁.1.trans hcode₂.1
    have hexit := hall.place exit known (Nat.le_succ _) le_rfl (Or.inl (Nat.lt_succ_self _)) le_rfl hle
    have hplaced := hexit.place head known (Nat.le_succ _) le_rfl (Or.inl (Nat.lt_succ_self _)) le_rfl
      ((Nat.le_succ _).trans hle)
    exact ⟨known, Set.Subset.rfl, by simp [Holds], hplaced⟩
  forLoop s s₂ s₃ := fun {_ _ _ _ lowest highest _ counter _ _ _} hf hl hb _ hpl hph known hknows => by
    obtain ⟨before, hbefore, hlowRead, hcode₁⟩ := hf.holds known hknows
    obtain ⟨mid, hmid, hhighRead, hcode₂⟩ := hl.holds.part hf.keeps hknows hbefore
    let index : Temp := ⟨s₂.supply.temps⟩
    let bound : Temp := ⟨s₃.supply.temps⟩
    let head : Label := ⟨s₃.supply.labels⟩
    let exit : Label := ⟨s₂.supply.labels⟩
    -- What has values in the loop.
    let inner : Set Temp := insert bound (insert index mid)
    have hinner : mid ⊆ inner := (Set.subset_insert _ _).trans (Set.subset_insert _ _)
    have hknown : (s₂.insideFor counter.name).Knows inner :=
      (hknows.mono (hf.keeps.trans hl.keeps).values (hbefore.trans hmid)).put hinner s₂.values.get?_openScope rfl
        (Set.mem_insert_of_mem _ (Set.mem_insert _ _))
    obtain ⟨after, hafter, -, hcode₃⟩ := hb.holds inner hknown
    have hlowRead := (hlowRead.mono hmid).of_place hpl
    have hhighRead := hhighRead.of_place hph
    let K : (Label → Set Temp) → Prop := fun marks => marks exit = inner ∧ marks head = inner ∧ s.Leaving known marks
    have hstart : Settles effect K (s₂.supply.labels + 1) (s₂.supply.labels + 1) mid
        [.op s₃.currentFrame (.move (.temp index) lowest), .op s₃.currentFrame (.move (.temp bound) highest),
          .labeled head s₃.currentFrame (.branch .gt (.temp index) (.temp bound) exit)] inner :=
      .of_assigned le_rfl fun marks hk => by
        have hread : ∀ temp ∈ highest.temps, temp = index ∨ temp ∈ mid :=
          fun temp htemp => Or.inr (hhighRead temp htemp)
        simpa [hk.1, hk.2.1, inner] using ⟨hlowRead, hread⟩
    have hnext : Settles effect K s₃.supply.labels s₃.supply.labels after
        [.op s₃.currentFrame (.binary .add (.temp index) (.temp index) (.int 1)), .op s₃.currentFrame (.goto head),
          .label exit] inner :=
      .of_assigned le_rfl fun marks hk => by
        have hindex : index ∈ after := hafter (Set.mem_insert_of_mem _ (Set.mem_insert _ _))
        simpa [hk.1, hk.2.1, hindex] using hafter
    have hall := (hstart.append (hcode₃.mono fun marks hk => .of_exit rfl hk.1.subset)).append hnext
    have hle : s₂.supply.labels + 1 ≤ s₃.supply.labels := hcode₃.1
    have hexit := hall.place exit inner (Nat.le_succ _) le_rfl (Or.inl (Nat.lt_succ_self _)) le_rfl hle
    have hplaced := hexit.place head inner le_rfl (Nat.le_succ _) (Or.inr le_rfl) ((Nat.le_succ _).trans hle)
      (Nat.lt_succ_self _)
    exact ⟨inner, (hbefore.trans hmid).trans hinner, by simp [Holds], (hcode₁.append hcode₂).append hplaced⟩
  sequence h := h.holds
  emptySequence _ := assigns_nil (by simp [Holds]) le_rfl
  single h := h.holds
  longer hf hr known hknows := by
    obtain ⟨mid, hmid, -, hfirst⟩ := hf.holds known hknows
    obtain ⟨after, hafter, hplaces, hrest⟩ := hr.holds.part hf.keeps hknows hmid
    exact ⟨after, hmid.trans hafter, hplaces, hfirst.append hrest⟩

lemma assigned_arrayCode {marks : Label → Set Temp} (frame : FrameId) {bytes array index : Temp} {head exit : Label}
    {count value : Access} {after : Set Temp} (ha : after = insert index (insert array (insert bytes known)))
    (hc : ∀ temp ∈ count.temps, temp ∈ known) (hv : ∀ temp ∈ value.temps, temp ∈ known)
    (hh : marks head = after) (he : marks exit = after) :
    Assigned effect marks known (arrayCode frame bytes array index head exit count value) after := by
  subst ha
  have hread : ∀ temp ∈ value.temps, temp = index ∨ temp = array ∨ temp = bytes ∨ temp ∈ known :=
    fun temp htemp => Or.inr (Or.inr (Or.inr (hv temp htemp)))
  simpa [arrayCode, hh, he] using ⟨hc, hread⟩

lemma assigned_callOperation {marks : Label → Set Temp} {name : String} {id : FunctionId} {signature : Signature}
    {result : Option Temp} {actuals : List Access} {operation : Tac} {s₁ : Analyzer}
    (hresult : resultTemp signature.result s = (result, s₁))
    (h : callOperation name signature.entry result actuals s₁ = (operation, t)) (hs : s.Sound)
    (hb : s.values.Binds name (.function id signature)) (hread : Holds known actuals) (frame : FrameId) :
    Assigned effect marks known [.op frame operation] (known ∪ {temp | temp ∈ result}) := by
  have hsignature := (hs.values _ _ hb).2
  have hplain : result.isSome → signature.result.isPlain := by
    rcases resultTemp_eq hresult hs with ⟨-, rfl, -⟩ | ⟨hty, -, -⟩
    · simp
    · exact fun _ => hsignature.result.resolve_left hty
  have hread : ∀ place ∈ actuals, ∀ temp ∈ place.temps, temp ∈ known := hread
  unfold callOperation at h
  cases hentry : signature.entry with
  | some entry =>
    rw [hentry] at h
    obtain ⟨rfl, rfl⟩ := pure_eq.mp h
    cases result <;> simpa using fun temp place hp ht => hread place hp temp ht
  | none =>
    rw [hentry] at h
    simp only [useRuntime_bind] at h
    obtain ⟨rfl, rfl⟩ := pure_eq.mp h
    obtain ⟨function, -, rfl, rfl⟩ := hsignature.runtime hentry
    cases result with
    | none => simpa using fun temp place hp ht => hread place hp temp ht
    | some temp =>
      have hyields : function.hasResult := hplain rfl
      simpa [hyields] using fun temp place hp ht => hread place hp temp ht

def Fills (target : Temp) (s : Analyzer) (codes : List Code) (t : Analyzer) : Prop :=
  ∀ known, s.Knows known → target ∈ known →
    ∃ after, known ⊆ after ∧ Settles effect (s.Leaving known) s.supply.labels t.supply.labels known codes after

lemma aggregateCases_assigns : AggregateCases (fun _ s a t => Assigns s a.code a.place.toList t)
    (fun _ _ s a t => Assigns s a.1 a.2 t) (fun target _ _ _ => Fills target) where
  array s₂ := fun {s _ _ _ _ _ _ countPlace valuePlace _ _ _ _} _ _ hs hi _ hpc hpv known hknows => by
    obtain ⟨first, hfirst, hcountRead, hcode₁⟩ := hs.holds known hknows
    obtain ⟨second, hsecond, hvalueRead, hcode₂⟩ := hi.holds.part hs.keeps hknows hfirst
    have hcountRead := (hcountRead.mono hsecond).of_place hpc
    have hvalueRead := hvalueRead.of_place hpv
    let bytes : Temp := ⟨s₂.supply.temps⟩
    let array : Temp := ⟨s₂.supply.temps + 1⟩
    let index : Temp := ⟨s₂.supply.temps + 2⟩
    let head : Label := ⟨s₂.supply.labels⟩
    let exit : Label := ⟨s₂.supply.labels + 1⟩
    obtain ⟨after, hafter⟩ : ∃ after, after = insert index (insert array (insert bytes second)) := ⟨_, rfl⟩
    have hsub : second ⊆ after := hafter ▸
      ((Set.subset_insert _ _).trans (Set.subset_insert _ _)).trans (Set.subset_insert _ _)
    let K : (Label → Set Temp) → Prop := fun marks => marks head = after ∧ marks exit = after ∧ s.Leaving known marks
    have hfill : Settles effect K s₂.supply.labels s₂.supply.labels second
        (arrayCode s₂.currentFrame bytes array index head exit countPlace valuePlace) after :=
      .of_assigned le_rfl fun marks hk => assigned_arrayCode _ hafter hcountRead hvalueRead hk.1 hk.2.1
    have hhead := hfill.place head after le_rfl (Nat.le_succ _) (Or.inr le_rfl) le_rfl (Nat.lt_succ_self _)
    have hplaced := hhead.place exit after le_rfl (Nat.le_succ _) (Or.inr le_rfl) (Nat.le_succ _) (Nat.lt_succ_self _)
    have hmade : array ∈ after := hafter ▸ Set.mem_insert_of_mem _ (Set.mem_insert _ _)
    have hall := (hcode₁.append hcode₂).append hplaced
    exact ⟨after, (hfirst.trans hsecond).trans hsub, by simpa [Holds] using hmade, by simpa using hall⟩
  record s declared := fun _ _ _ hf known hknows => by
    let target : Temp := ⟨s.supply.temps⟩
    let bytes : Temp := ⟨s.supply.temps + 1⟩
    let mid : Set Temp := insert target (insert bytes known)
    have hmid : known ⊆ mid := (Set.subset_insert _ _).trans (Set.subset_insert _ _)
    have hallocation : Settles effect (s.Leaving known) s.supply.labels s.supply.labels known
        [.op s.currentFrame (.binary .mul (.temp bytes) (.int (Int32.ofNat declared.length)) .word),
          .op s.currentFrame (.callRuntime (some (.temp target)) Runtime.malloc.name [.temp bytes])] mid :=
      .of_assigned le_rfl fun marks _ => by simp [mid]
    obtain ⟨after, hafter, hfill⟩ := hf.holds mid (hknows.mono rfl hmid) (Set.mem_insert _ _)
    have hall := hallocation.append (hfill.mono fun _ hl => hl.later rfl hmid)
    exact ⟨after, hmid.trans hafter, by simpa [Holds] using hafter (Set.mem_insert target _), hall⟩
  call s s₁ s₄ t result := fun hfound ha hcall hedge hs₃ hresult _ hoperation _ hk₄ hk known hknows => by
    have hk₃ := ((keeps.noteCall _).apply hcall).trans ((keeps.noteEdge _).apply hedge)
    obtain ⟨mid, hmid, hread, hcode⟩ := ha.holds known hknows
    have hbinds := ScopeStack.binds_of_get? hfound
    rw [← ha.keeps.values, ← hk₃.values] at hbinds
    exact ⟨_, hmid.trans Set.subset_union_left, holds_result result, hcode.append (.of_assigned
      (hk₃.trans (hk₄.trans hk)).labels fun _ _ => assigned_callOperation hresult hoperation hs₃ hbinds hread _)⟩
  noArguments _ := assigns_nil (by simp [Holds]) le_rfl
  argument hv hplace hr known hknows := by
    obtain ⟨mid, hmid, hread, hcode₁⟩ := hv.holds known hknows
    obtain ⟨after, hafter, hplaces, hcode₂⟩ := hr.holds.part hv.keeps hknows hmid
    refine ⟨after, hmid.trans hafter, fun place hp => ?_, hcode₁.append hcode₂⟩
    rcases List.mem_cons.mp hp with rfl | hp
    · exact (hread.mono hafter).of_place hplace
    · exact hplaces place hp
  noFields _ known _ _ := ⟨known, Set.Subset.rfl, .nil le_rfl⟩
  fields target index s₁ place := fun {_ s} _ _ _ _ _ _ _ hv _ hplace hr known hknows htarget => by
    obtain ⟨mid, hmid, hread, hfirst⟩ := hv.holds known hknows
    have hread := hread.of_place hplace
    have hstore : Settles effect (s.Leaving known) s₁.supply.labels s₁.supply.labels mid
        [.op s₁.currentFrame (.move (.memory (.temp target) (.int (fieldStride * Int32.ofNat index))) place)] mid :=
      .of_assigned le_rfl fun marks _ => by simpa [hmid htarget] using hread
    obtain ⟨after, hafter, hrest⟩ := hr.holds mid (hknows.mono hv.keeps.values hmid) (hmid htarget)
    exact ⟨after, hmid.trans hafter,
      hfirst.append (hstore.append (hrest.mono fun _ hl => hl.later hv.keeps.exits hmid))⟩

def IntroducesAssigned (s : Analyzer) (codes : List Code) (t : Analyzer) : Prop :=
  ∀ known, s.Knows known → ∃ after, known ⊆ after ∧ t.Knows after ∧
    Settles effect (s.Leaving known) s.supply.labels t.supply.labels known codes after

def ImplementsAssigned (declared : List Declared) (s : Analyzer) (codes : List Code) (t : Analyzer) : Prop :=
  Settles effect (fun marks => ∀ d ∈ declared, marks d.entry.label = .univ) s.supply.labels t.supply.labels
    .univ codes .univ

lemma declareFunctions_labels {members : List FunctionDecl} {seen : List String} {declared : List Declared}
    (h : declareFunctions seen members s = (declared, t)) :
    ∀ d ∈ declared, s.supply.labels ≤ d.entry.label.number ∧ d.entry.label.number < t.supply.labels := by
  induction members generalizing seen s t declared with
  | nil =>
    obtain ⟨rfl, rfl⟩ := pure_eq.mp h
    simp
  | cons decl rest ih =>
    obtain ⟨first, s₁, hfirst, r₁⟩ := bind_eq.mp h
    obtain ⟨_, s₂, henter, r₂⟩ := bind_eq.mp r₁
    obtain ⟨others, s₃, hothers, r₃⟩ := bind_eq.mp r₂
    obtain ⟨rfl, rfl⟩ := pure_eq.mp r₃
    have hentered : s₂.supply = s₁.supply := by
      unfold enterName at henter
      split at henter <;> obtain rfl := congrArg Prod.snd henter <;> rfl
    have hlater := ((declares_declareFunctions _ _).apply hothers).labels
    have hgrown := ((keeps_declareFunction decl).apply hfirst).labels
    rw [hentered] at hlater
    have hdrawn : s.supply.labels ≤ first.entry.label.number ∧ first.entry.label.number < s₁.supply.labels := by
      obtain ⟨result, u₁, typed, u₂, params, hresult, htyped, -, rfl, rfl⟩ := declareFunction_eq hfirst
      exact ⟨((within_resultType keeps.report _).apply hresult).labels.trans
        ((within_typedNames keeps.report _).apply htyped).labels, Nat.lt_succ_self _⟩
    intro d hd
    rcases List.mem_cons.mp hd with rfl | hd
    · exact ⟨hdrawn.1, hdrawn.2.trans_le hlater⟩
    · obtain ⟨hl, hr⟩ := ih hothers d hd
      rw [hentered] at hl
      exact ⟨hgrown.trans hl, hr⟩

lemma declarationCases_assigns : DeclarationCases (fun _ s a t => Assigns s a.code a.place.toList t)
    (fun _ s a t => Assigns s a.code a.place.toList t) (fun _ => IntroducesAssigned) (fun _ => IntroducesAssigned)
    (fun _ => ImplementsAssigned) where
  letIn _ _ _ := fun _ hd hb known hknows => by
    obtain ⟨mid, hmid, hscope, hfirst⟩ := hd.holds known hknows
    obtain ⟨after, hafter, hplaces, hsecond⟩ := hb.holds mid hscope
    exact ⟨after, hmid.trans hafter, hplaces, hfirst.append (hsecond.mono fun _ hl => hl.later hd.keeps.exits hmid)⟩
  noGroups _ known hknows := ⟨known, Set.Subset.rfl, hknows, .nil le_rfl⟩
  groups _ := fun hg hr known hknows => by
    obtain ⟨mid, hmid, hscope, hfirst⟩ := hg.holds known hknows
    obtain ⟨after, hafter, hscope', hsecond⟩ := hr.holds mid hscope
    exact ⟨after, hmid.trans hafter, hscope', hfirst.append (hsecond.mono fun _ hl => hl.later hg.keeps.exits hmid)⟩
  var s₁ := fun hv hsource _ known hknows => by
    obtain ⟨mid, hmid, hread, hcode⟩ := hv.holds known hknows
    have hread := hread.of_place hsource
    exact ⟨insert ⟨s₁.supply.temps⟩ mid, hmid.trans (Set.subset_insert _ _),
      (hknows.mono hv.keeps.values hmid).put (Set.subset_insert _ _) (fun _ => rfl) rfl (Set.mem_insert _ _),
      hcode.append (.of_assigned le_rfl fun _ _ => by simpa using hread)⟩
  types _ _ known hknows := ⟨known, Set.Subset.rfl, hknows, .nil le_rfl⟩
  functions s₁ declared inside s₃ := fun {s s₂ _} _ hdeclared _ hb _ hk known hknows => by
    have hle : s.supply.labels ≤ s₁.supply.labels := ((declares_declareFunctions _ _).apply hdeclared).labels
    let exit : Label := ⟨s₃.supply.labels⟩
    let K : (Label → Set Temp) → Prop := fun marks => marks exit = known ∧ s.Leaving known marks
    -- No item before a function goes on to its label.
    have hfunctions : Settles effect K s.supply.labels s₂.supply.labels .univ inside .univ :=
      .fill .univ (hb.holds.mono fun marks hk d hd => hk.1 _ (declareFunctions_labels hdeclared d hd).1
        (declareFunctions_labels hdeclared d hd).2) hle
    have hskip : Settles effect K s.supply.labels s.supply.labels known [.op s₃.currentFrame (.goto exit)] .univ :=
      .of_assigned le_rfl fun marks hk => by simp [hk.1]
    have hexit : Settles effect K s₂.supply.labels s₃.supply.labels .univ [.label exit] known :=
      .of_assigned hk.labels fun marks hk => by simp [hk.1]
    have hall := (hskip.append hfunctions).append hexit
    refine ⟨known, Set.Subset.rfl, fun name info hfound => ?_, hall.place exit known le_rfl (Nat.le_succ _)
      (Or.inr le_rfl) (hle.trans (hb.keeps.trans hk).labels) (Nat.lt_succ_self _)⟩
    change s₃.values.get? name = _ at hfound
    rw [(hb.keeps.trans hk).values] at hfound
    exact hknows name info (declareFunctions_get? hdeclared hfound)
  noBodies _ := .nil le_rfl
  bodies s declared s₁ _ := fun {inside _ _ _ _ _ _ others} _ _ hb _ _ hr => by
    obtain ⟨after, hafter, -, hown⟩ := hb.holds .univ knows_univ
    obtain rfl := Set.univ_subset_iff.mp hafter
    let K : (Label → Set Temp) → Prop := fun marks => ∀ d ∈ declared :: others, marks d.entry.label = .univ
    have hstart : Settles effect K s.supply.labels s.supply.labels .univ [.label declared.entry.label] .univ :=
      .of_assigned le_rfl fun marks hk => by simp [hk declared List.mem_cons_self]
    have hmove : Settles effect K s₁.supply.labels s₁.supply.labels .univ
        (moveInto declared.entry.frame declared.entry.resultPlace inside.place) .univ :=
          .of_assigned le_rfl fun _ _ => by
      unfold moveInto
      split <;> simp
    have hret : Settles effect K s₁.supply.labels s₁.supply.labels .univ [.op declared.entry.frame .ret] .univ :=
      .of_assigned le_rfl (by simp)
    exact ((hstart.append (hown.mono fun _ _ _ _ => Set.subset_univ _)).append hmove).append
      (hret.append (hr.holds.mono fun marks hk d hm => hk d (List.mem_cons_of_mem _ hm)))

end

end Analysis

lemma assigned_analyze {expression : Expr} (h : (analyze expression).1 = []) :
    ∃ marks after, Assigned Code.effect marks ∅ (analyze expression).2.codes after := by
  have hnone : Analyzer.initial.Knows ∅ := fun name info hfound => (Analyzer.get?_initial name info hfound).elim
  have hcases := Analysis.RunCases.mk Analysis.operandCases_assigns Analysis.controlCases_assigns
    Analysis.aggregateCases_assigns Analysis.declarationCases_assigns
  obtain ⟨after, -, -, -, chosen, hcode⟩ := (hcases.lowerExpr expression rfl Analyzer.sound_initial h).holds ∅ hnone
  rw [codes_analyze h]
  exact ⟨chosen, after, hcode chosen (fun _ _ _ => rfl) fun l hl => by cases hl⟩

end TigerMips
