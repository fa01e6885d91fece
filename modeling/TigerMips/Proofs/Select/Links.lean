import TigerMips.Proofs.Analysis.Returns
import TigerMips.Proofs.Select.Assigned
import TigerMips.Proofs.Select.Passing

/-! Each call is followed by a label of its own, which is a place that the callee returns to. No other jump leads
there. -/

namespace TigerMips

namespace Machine

def Operation.callee? : Operation → Option Label
  | jumpAndLink target _ => some target
  | _ => none

lemma Operation.callee?_eq_some {operation : Operation} {target : Label} :
    operation.callee? = some target ↔ ∃ register, operation = .jumpAndLink target register := by
  cases operation <;> simp [callee?]

lemma Operation.target?_of_callee? {operation : Operation} {target : Label} (h : operation.callee? = some target) :
    operation.target? = some target := by
  obtain ⟨register, rfl⟩ := callee?_eq_some.mp h
  rfl

namespace Line

structure CallsAt (lines : List Line) (p : Nat) (id : FrameId) (target back : Label) : Prop where
  call : ∃ i, lines[p]? = some (.instruction i) ∧ i.operation.callee? = some target ∧ i.frame = id
  back : lines[p + 1]? = some (.label back)
  next : ∃ i, lines[p + 2]? = some (.instruction i)

def returnsFrom (frame : FrameId) : Line → Bool
  | label _ => false
  | instruction i => match i.operation with
    | .jumpRegister _ => i.frame = frame
    | _ => false

lemma returnsFrom_eq_true {frame : FrameId} {line : Line} : line.returnsFrom frame = true ↔
    ∃ i register, line = .instruction i ∧ i.operation = .jumpRegister register ∧ i.frame = frame := by
  cases line with
  | label place => simp [returnsFrom]
  | instruction i =>
    rcases i with ⟨id, operation, transfer⟩
    cases operation <;> simp [returnsFrom]

def NoCalls (lines : List Line) : Prop := ∀ i, .instruction i ∈ lines → i.operation.callee? = none

variable {first second lines : List Line} {p : Nat} {id : FrameId} {target back : Label}

lemma noCalls_of_isLocal (h : lines.all isLocal) : NoCalls lines := fun i hi => by
  have hl := List.all_eq_true.mp h _ hi
  rcases i with ⟨frame, operation, transfer⟩
  cases operation <;> first | rfl | cases hl

lemma countP_returnsFrom_of_isLocal (h : lines.all isLocal) (frame : FrameId) :
    lines.countP (returnsFrom frame) = 0 := by
  refine List.countP_eq_zero.mpr fun line hm hr => ?_
  have hl := List.all_eq_true.mp h line hm
  cases line with
  | label place => cases hr
  | instruction i =>
    rcases i with ⟨id, operation, transfer⟩
    cases operation <;> first | cases hr | cases hl

lemma NoCalls.not_callsAt (h : NoCalls lines) : ¬ CallsAt lines p id target back := fun hc => by
  obtain ⟨i, hi, hcall, -⟩ := hc.call
  rw [h i (List.mem_of_getElem? hi)] at hcall
  cases hcall

lemma CallsAt.append_right (h : CallsAt first p id target back) (second : List Line) :
    CallsAt (first ++ second) p id target back := by
  obtain ⟨⟨i, hi, hcall⟩, hback, j, hj⟩ := h
  have hkeep : ∀ {q line}, first[q]? = some line → (first ++ second)[q]? = some line := fun hq => by
    rw [List.getElem?_append_left (List.getElem?_eq_some_iff.mp hq).1, hq]
  exact ⟨⟨i, hkeep hi, hcall⟩, hkeep hback, j, hkeep hj⟩

lemma CallsAt.append_left (h : CallsAt second p id target back) (first : List Line) :
    CallsAt (first ++ second) (first.length + p) id target back := by
  obtain ⟨⟨i, hi, hcall⟩, hback, j, hj⟩ := h
  have hmove : ∀ {q line}, second[q]? = some line → (first ++ second)[first.length + q]? = some line := fun hq => by
    rw [List.getElem?_append_right (Nat.le_add_right _ _), Nat.add_sub_cancel_left, hq]
  exact ⟨⟨i, hmove hi, hcall⟩, hmove hback, j, hmove hj⟩

end Line

end Machine

namespace Select

open Machine

variable {base : Nat} {s t u : Selection} {first second lines : List Line}

structure Linked (base : Nat) (s t : Selection) (lines : List Line) : Prop where
  le : s.supply.labels ≤ t.supply.labels
  size : t.frames.size = s.frames.size
  calls : ∀ p i target, lines[p]? = some (.instruction i) → i.operation.callee? = some target → ∃ back,
    Line.CallsAt lines p i.frame target back ∧ s.supply.labels ≤ back.number ∧ back.number < t.supply.labels ∧
      ∃ f, t.frames.get? i.frame = some f ∧ f.entry = some target ∧ back ∈ f.returns
  frames : ∀ id f, s.frames.get? id = some f → ∃ g, t.frames.get? id = some g ∧ g.entry = f.entry ∧
    f.returns ⊆ g.returns ∧ ∀ back ∈ g.returns, back ∈ f.returns ∨ ∃ p target, Line.CallsAt lines p id target back
  targets : ∀ target ∈ Line.targets lines, target.number < base ∨ s.supply.labels ≤ target.number ∧
    target.number < t.supply.labels ∧ ∀ p id entry, ¬ Line.CallsAt lines p id entry target

namespace Linked

lemma callsAt_append (h : Linked base s t first) {p : Nat} {id : FrameId} {target back : Label}
    (hc : Line.CallsAt (first ++ second) p id target back) :
    Line.CallsAt first p id target back ∨ ∃ q, Line.CallsAt second q id target back := by
  obtain ⟨⟨i, hi, hcall, rfl⟩, hback, j, hj⟩ := hc
  by_cases hp : p < first.length
  · rw [List.getElem?_append_left hp] at hi
    obtain ⟨own, hown, -⟩ := h.calls p i target hi hcall
    have hlt := (List.getElem?_eq_some_iff.mp hown.back).1
    rw [List.getElem?_append_left hlt, hown.back] at hback
    obtain rfl : own = back := by simpa using hback
    exact Or.inl hown
  · obtain ⟨q, rfl⟩ := Nat.exists_eq_add_of_le (Nat.not_lt.mp hp)
    have hmove : ∀ r, (first ++ second)[first.length + r]? = second[r]? := fun r => by
      rw [List.getElem?_append_right (Nat.le_add_right _ _), Nat.add_sub_cancel_left]
    rw [hmove] at hi
    rw [Nat.add_assoc, hmove] at hback hj
    exact Or.inr ⟨q, ⟨i, hi, hcall, rfl⟩, hback, j, hj⟩

lemma lt_of_callsAt (h : Linked base s t lines) {p : Nat} {id : FrameId} {target back : Label}
    (hc : Line.CallsAt lines p id target back) : s.supply.labels ≤ back.number ∧ back.number < t.supply.labels := by
  obtain ⟨i, hi, hcall, rfl⟩ := hc.call
  obtain ⟨own, hown, hle, hlt, -⟩ := h.calls p i target hi hcall
  obtain rfl : own = back := by simpa using hown.back.symm.trans hc.back
  exact ⟨hle, hlt⟩

lemma append (h : Linked base s t first) (h' : Linked base t u second) : Linked base s u (first ++ second) where
  le := h.le.trans h'.le
  size := h'.size.trans h.size
  calls p i target hi hcall := by
    by_cases hp : p < first.length
    · rw [List.getElem?_append_left hp] at hi
      obtain ⟨back, hown, hle, hlt, f, hf, he, hm⟩ := h.calls p i target hi hcall
      obtain ⟨g, hg, hentry, hsub, -⟩ := h'.frames _ f hf
      exact ⟨back, hown.append_right second, hle, hlt.trans_le h'.le, g, hg, hentry.trans he, hsub hm⟩
    · obtain ⟨q, rfl⟩ := Nat.exists_eq_add_of_le (Nat.not_lt.mp hp)
      rw [List.getElem?_append_right (Nat.le_add_right _ _), Nat.add_sub_cancel_left] at hi
      obtain ⟨back, hown, hle, hlt, hframe⟩ := h'.calls q i target hi hcall
      exact ⟨back, hown.append_left first, h.le.trans hle, hlt, hframe⟩
  frames id f hf := by
    obtain ⟨g, hg, he, hsub, hnew⟩ := h.frames id f hf
    obtain ⟨k, hk, he', hsub', hnew'⟩ := h'.frames id g hg
    refine ⟨k, hk, he'.trans he, List.Subset.trans hsub hsub', fun back hm => ?_⟩
    rcases hnew' back hm with hm | ⟨p, target, hown⟩
    · rcases hnew back hm with hm | ⟨p, target, hown⟩
      · exact Or.inl hm
      · exact Or.inr ⟨p, target, hown.append_right second⟩
    · exact Or.inr ⟨_, target, hown.append_left first⟩
  targets target ht := by
    rw [Line.targets_append] at ht
    rcases List.mem_append.mp ht with ht | ht
    · refine (h.targets target ht).imp_right fun ⟨hle, hlt, hno⟩ => ⟨hle, hlt.trans_le h'.le, fun p id entry hc => ?_⟩
      rcases h.callsAt_append hc with hc | ⟨q, hc⟩
      · exact hno p id entry hc
      · exact absurd hlt (Nat.not_lt.mpr (h'.lt_of_callsAt hc).1)
    · refine (h'.targets target ht).imp_right fun ⟨hle, hlt, hno⟩ => ⟨h.le.trans hle, hlt, fun p id entry hc => ?_⟩
      rcases h.callsAt_append hc with hc | ⟨q, hc⟩
      · exact absurd (h.lt_of_callsAt hc).2 (Nat.not_lt.mpr hle)
      · exact hno q id entry hc

lemma of_noCalls {frame : FrameId} {k l : Nat} (hn : Line.NoCalls lines)
    (ht : ∀ target ∈ Line.targets lines, target.number < base ∨
      s.supply.labels ≤ target.number ∧ target.number < s.supply.labels + l) :
    Linked base s (s.drawn frame k l) lines where
  le := by simp
  size := s.drawn_size frame k l
  calls p i target hi hcall := by
    rw [hn i (List.mem_of_getElem? hi)] at hcall
    cases hcall
  frames id f hf := by
    simp only [Selection.drawn, Arena.get?_modify, hf]
    split
    · exact ⟨_, rfl, rfl, List.Subset.refl _, fun back hm => Or.inl hm⟩
    · exact ⟨f, rfl, rfl, List.Subset.refl _, fun back hm => Or.inl hm⟩
  targets target hm := (ht target hm).imp_right fun ⟨hle, hlt⟩ => ⟨hle, hlt, fun _ _ _ => hn.not_callsAt⟩

lemma of_call {i j : Instruction} {f : Frame} {target : Label} (hf : s.frames.get? i.frame = some f)
    (he : f.entry = some target) (hi : i.operation.callee? = some target) (hj : j.operation.target? = none)
    (hb : target.number < base) :
    Linked base s (returning s i.frame) [.instruction i, .label ⟨s.supply.labels⟩, .instruction j] := by
  have hat : Line.CallsAt [.instruction i, .label ⟨s.supply.labels⟩, .instruction j] 0 i.frame target
      ⟨s.supply.labels⟩ :=
    ⟨⟨i, rfl, hi, rfl⟩, rfl, j, rfl⟩
  have hafter : (returning s i.frame).frames.get? i.frame = some (f.addReturn ⟨s.supply.labels⟩) := by
    simp [returning, Arena.get?_modify, hf]
  refine ⟨Nat.le_succ _, s.frames.size_modify _ _, fun p other entry hp hcall => ?_, fun id g hg => ?_,
    fun place hm => ?_⟩
  · rcases p with _ | _ | _ | p
    · obtain rfl : i = other := by simpa using hp
      obtain rfl : target = entry := by simpa [hi] using hcall
      exact ⟨_, hat, le_rfl, Nat.lt_succ_self _, _, hafter, he, by simp [Frame.addReturn]⟩
    · simp at hp
    · obtain rfl : j = other := by simpa using hp
      rw [Operation.target?_of_callee? hcall] at hj
      cases hj
    · simp at hp
  · simp only [returning, Arena.get?_modify, hg]
    split
    · rename_i hid
      subst hid
      refine ⟨_, rfl, rfl, List.subset_append_left _ _, fun back hm => ?_⟩
      refine (List.mem_append.mp hm).imp_right fun hm => ⟨0, target, ?_⟩
      exact List.mem_singleton.mp hm ▸ hat
    · exact ⟨g, rfl, rfl, List.Subset.refl _, fun back hm => Or.inl hm⟩
  · have htarget := Operation.target?_of_callee? hi
    obtain rfl : place = target := by simpa [htarget, hj] using hm
    exact Or.inl hb

end Linked

structure Quiet (lines : List Line) : Prop where
  isLocal : lines.all Line.isLocal
  targets : Line.targets lines = []

namespace Quiet

lemma append (h : Quiet first) (h' : Quiet second) : Quiet (first ++ second) :=
  ⟨by simp [h.isLocal, h'.isLocal], by simp [h.targets, h'.targets]⟩

lemma linked (h : Quiet lines) (s : Selection) (frame : FrameId) (k l : Nat) :
    Linked base s (s.drawn frame k l) lines :=
  .of_noCalls (Line.noCalls_of_isLocal h.isLocal) (by simp [h.targets])

lemma linked_self (h : Quiet lines) (s : Selection) : Linked base s s lines := by
  have hdrawn : Linked base s (s.drawn ⟨0⟩ 0 0) lines := h.linked s _ _ _
  rwa [Selection.drawn_zero] at hdrawn

end Quiet

variable {context : Context}

lemma Straight.quiet (h : Straight context lines) : Quiet lines := ⟨h.2.all_isLocal, h.targets⟩

def Surrounds (call : Instruction) (back : Label) (lines : List Line) : Prop :=
  ∃ before next after, lines = before ++ [.instruction call, .label back, .instruction next] ++ after ∧
    Quiet before ∧ Quiet [.instruction next] ∧ Quiet after

lemma surrounds_callLines (id : FrameId) (recursive : Bool) (display : Temp) (target back : Label)
    {passing taking : List Line} (hp : Quiet passing) (ht : Quiet taking) :
    Surrounds ⟨id, .jumpAndLink target context.registers.ra, false⟩ back
      (callLines context { context with frame := id } recursive display target back passing taking) := by
  let callee : Context := { context with frame := id }
  let saving : List Line := if recursive then [context.line .save] else []
  let restoring : List Line := if recursive then [context.line .restore] else []
  have hsaving : Quiet saving ∧ Quiet restoring := by
    cases recursive <;> exact ⟨⟨rfl, rfl⟩, rfl, rfl⟩
  have hadjust : ∀ amount, Quiet [adjustStack context amount] := fun _ => ⟨rfl, rfl⟩
  have hleaving : Quiet ((leaveCallee context callee display back).drop 2) := ⟨rfl, rfl⟩
  refine ⟨saving ++ adjustStack context (-wordLength) :: passing ++ setUp context callee display,
    ⟨id, .addImmediate context.registers.sp context.registers.sp (.frameSize id), false⟩,
    (leaveCallee context callee display back).drop 2 ++ taking ++ [adjustStack context wordLength] ++ restoring,
    ?_, ?_, ⟨rfl, rfl⟩, ?_⟩
  · cases recursive <;> simp [callLines, savingAround, enterCallee_eq, leaveCallee, Context.line, callee,
      saving, restoring]
  · exact (hsaving.1.append ((hadjust _).append hp)).append ⟨rfl, rfl⟩
  · exact ((hleaving.append ht).append (hadjust _)).append hsaving.2

lemma Surrounds.countP_returnsFrom {call : Instruction} {back target : Label} (h : Surrounds call back lines)
    (hcall : call.operation.callee? = some target) (frame : FrameId) : lines.countP (Line.returnsFrom frame) = 0 := by
  obtain ⟨before, next, after, rfl, hbefore, hnext, hafter⟩ := h
  have hnone : Line.returnsFrom frame (.instruction call) = false := by
    obtain ⟨register, ho⟩ := Operation.callee?_eq_some.mp hcall
    simp [Line.returnsFrom, ho]
  have hone := Line.countP_returnsFrom_of_isLocal hnext.isLocal frame
  simp only [List.countP_append, List.countP_cons, hnone, Line.countP_returnsFrom_of_isLocal hbefore.isLocal,
    Line.countP_returnsFrom_of_isLocal hafter.isLocal] at hone ⊢
  simpa [Line.returnsFrom] using hone

def CallsOnce (s t : Selection) (frame : FrameId) (target : Label) (lines : List Line) : Prop :=
  ∃ call f k l, Surrounds call ⟨s.supply.labels⟩ lines ∧ call.operation.callee? = some target ∧
    s.frames.get? call.frame = some f ∧ f.entry = some target ∧ t = (returning s call.frame).drawn frame k l

lemma CallsOnce.linked {frame : FrameId} {target : Label} (h : CallsOnce s t frame target lines)
    (hb : target.number < base) : Linked base s t lines := by
  obtain ⟨call, f, k, l, ⟨before, next, after, rfl, hbefore, hnext, hafter⟩, hcall, hf, he, rfl⟩ := h
  have hmiddle := Linked.of_call hf he hcall (by simpa using hnext.targets) hb
  exact ((hbefore.linked_self s).append hmiddle).append (hafter.linked _ _ _ _)

section

variable {graph : CallGraph} {start : Nat} {tac : Tac} {saves : List CallSave}

lemma callsOnce_callLines {target : Label} {id : FrameId} {f : Frame} {recursive : Bool} {passing taking : List Line}
    (hfound : entered? s.frames target = some (id, f)) (hp : Straight context passing) (ht : Straight context taking)
    (hlines : lines = callLines context { context with frame := id } recursive f.display target
      ⟨s.supply.labels⟩ passing
      taking) (k : Nat) : CallsOnce s ((returning s id).drawn context.frame k 0) context.frame target lines := by
  obtain ⟨hf, he⟩ := get?_of_entered? hfound
  exact ⟨_, f, k, 0, hlines ▸ surrounds_callLines id _ f.display _ _ hp.quiet ht.quiet, rfl, hf, he, rfl⟩

lemma Selected.linked (h : Selected context graph start s tac lines saves t)
    (ht : ∀ target ∈ tac.target?, target.number < base) : Linked base s t lines := by
  cases h with
  | ret =>
    have hlinked : Linked base s (s.drawn ⟨0⟩ 0 0) [context.line (.jumpRegister context.registers.ra)] :=
      .of_noCalls (by simp [Line.NoCalls, Context.line, Operation.callee?]) (by simp [Context.line, Operation.target?])
    rwa [Selection.drawn_zero] at hlinked
  | call id f hfound _ hp htake hlines k => exact (callsOnce_callLines hfound hp htake hlines k).linked (ht _ rfl)
  | other hcall hret k l hlays =>
    exact .of_noCalls (Line.noCalls_of_isLocal hlays.2.all_isLocal) fun target hm =>
      (hlays.2.targets target hm).symm.imp (ht target) Label.mem_range.mp

lemma Selected.countP_returnsFrom (h : Selected context graph start s tac lines saves t) (frame : FrameId) :
    lines.countP (Line.returnsFrom frame) = [(context.frame, tac)].count (frame, .ret) := by
  cases h with
  | ret => by_cases hframe : context.frame = frame <;> simp [Line.returnsFrom, Context.line, hframe]
  | call id f hfound _ hp ht hlines k =>
    obtain ⟨call, g, _, _, hsurrounds, hcallee, -⟩ := callsOnce_callLines hfound hp ht hlines k
    simpa using hsurrounds.countP_returnsFrom hcallee frame
  | other hcall hret k l hlays => simpa [hret] using Line.countP_returnsFrom_of_isLocal hlays.2.all_isLocal frame

end

variable {registers : Registers} {graph : CallGraph} {start : Nat} {saves : List CallSave}

lemma linked_code {c : Code} (h : code registers graph start c s = .ok ((lines, saves), t))
    (hs : ∀ op ∈ c.op?, ∀ target ∈ op.2.target?, target.number < base) :
    Linked base s t lines ∧ ∀ frame, lines.countP (Line.returnsFrom frame) = Code.returns [c] frame := by
  have hlabel : ∀ place, Linked base s s [.label place] := fun place => Quiet.linked_self ⟨rfl, rfl⟩ s
  cases c with
  | label place =>
    obtain ⟨rfl, -, rfl⟩ := pure_pair_eq_ok.mp h
    exact ⟨hlabel place, fun frame => rfl⟩
  | op frame tac =>
    have hselected : Selected ⟨frame, registers⟩ graph start s tac lines saves t := selected_operation h
    exact ⟨hselected.linked (hs _ rfl), hselected.countP_returnsFrom⟩
  | labeled place frame tac =>
    obtain ⟨⟨own, ownSaves⟩, _, hrun, h⟩ := bind_eq_ok.mp h
    obtain ⟨rfl, -, rfl⟩ := pure_pair_eq_ok.mp h
    have hselected := selected_operation hrun
    exact ⟨(hlabel place).append (hselected.linked (hs _ rfl)), hselected.countP_returnsFrom⟩

lemma linked_codes {all : List Code} (h : codes registers graph start all s = .ok ((lines, saves), t))
    (hs : ∀ c ∈ all, ∀ op ∈ c.op?, ∀ target ∈ op.2.target?, target.number < base) :
    Linked base s t lines ∧ ∀ frame, lines.countP (Line.returnsFrom frame) = Code.returns all frame := by
  induction all generalizing start s lines saves with
  | nil =>
    obtain ⟨rfl, -, rfl⟩ := pure_pair_eq_ok.mp h
    exact ⟨Quiet.linked_self ⟨rfl, rfl⟩ _, fun frame => rfl⟩
  | cons first rest ih =>
    obtain ⟨⟨own, ownSaves⟩, s₁, hfirst, h⟩ := bind_eq_ok.mp h
    obtain ⟨⟨others, otherSaves⟩, s₂, hrest, h⟩ := bind_eq_ok.mp h
    obtain ⟨rfl, -, rfl⟩ := pure_pair_eq_ok.mp h
    obtain ⟨hlinked, hcount⟩ := linked_code hfirst (hs first List.mem_cons_self)
    obtain ⟨hlinked', hcount'⟩ := ih hrest fun c hm => hs c (List.mem_cons_of_mem _ hm)
    refine ⟨hlinked.append hlinked', fun frame => ?_⟩
    rw [List.countP_append, hcount, hcount', ← Code.returns_append]
    rfl

end Select

open Machine Select

structure Tac.Program.LinkedIn (program : Tac.Program) (machine : Machine.Program) : Prop where
  calls : ∀ p i target, machine.lines[p]? = some (.instruction i) → i.operation.callee? = some target → ∃ back f,
    Line.CallsAt machine.lines p i.frame target back ∧ machine.frames.get? i.frame = some f ∧ f.entry = some target ∧
      back ∈ f.returns
  returns : ∀ id f, machine.frames.get? id = some f → ∀ back ∈ f.returns, ∃ p target,
    Line.CallsAt machine.lines p id target back
  apart : ∀ target ∈ Line.targets machine.lines, ∀ p id entry, ¬ Line.CallsAt machine.lines p id entry target
  entries : ∀ id, (machine.frames.get? id).map Frame.entry = (program.frames.get? id).map Frame.entry
  count : ∀ frame, machine.lines.countP (Line.returnsFrom frame) = Code.returns program.codes frame

lemma Tac.Program.Selectable.linkedIn {program : Tac.Program} {machine : Machine.Program} (hs : program.Selectable)
    (h : program.generate = .ok machine) (hbelow : ∀ l ∈ Code.labels program.codes, l.number < program.supply.labels) :
    program.LinkedIn machine := by
  obtain ⟨s, t, hreserve, hcodes, hframes⟩ := generate_eq_ok_frames h
  obtain ⟨-, rfl⟩ := reserve_eq_ok hreserve
  have hstart : Linked program.supply.labels ⟨program.frames, program.supply⟩
      (Selection.drawn ⟨program.frames, program.supply⟩ program.mainFrame 7 0) [] := Quiet.linked ⟨rfl, rfl⟩ _ _ _ _
  have htargets :
      ∀ c ∈ program.codes, ∀ op ∈ c.op?, ∀ target ∈ op.2.target?, target.number < program.supply.labels := by
    rintro c hm op hop target ht
    have hc := hs.codes c hm
    cases c with
    | label place => cases hop
    | op frame tac | labeled place frame tac =>
      obtain rfl := Option.some.inj hop
      exact hbelow target ((hc.2.2 target ht).resolve_right id)
  obtain ⟨hlinked, hcount⟩ := linked_codes hcodes htargets
  have hall := hstart.append hlinked
  rw [List.nil_append] at hall
  refine ⟨fun p i target hi hcall => ?_, fun id g hg back hm => ?_, fun target hm p id entry hat => ?_,
    fun id => ?_, hcount⟩
  · obtain ⟨back, hat, -, -, f, hf, he, hm⟩ := hall.calls p i target hi hcall
    exact ⟨back, f, hat, hframes ▸ hf, he, hm⟩
  · rw [hframes] at hg
    obtain ⟨f, hf⟩ := program.frames.exists_get?.mpr (hall.size ▸ t.frames.lt_size hg)
    obtain ⟨g', hg', -, -, hnew⟩ := hall.frames id f hf
    obtain rfl := Option.some.inj (hg.symm.trans hg')
    exact (hnew back hm).resolve_left (by simp [hs.returns id f hf])
  · rcases hall.targets target hm with hlt | ⟨-, -, hno⟩
    · exact absurd hlt (Nat.not_lt.mpr (hall.lt_of_callsAt hat).1)
    · exact hno p id entry hat
  · rw [hframes]
    cases hf : program.frames.get? id with
    | some f =>
      obtain ⟨g, hg, he, -⟩ := hall.frames id f hf
      simp [hg, he]
    | none =>
      have hnone : t.frames.get? id = none := by
        rw [← Option.not_isSome_iff_eq_none] at hf ⊢
        rw [Option.isSome_iff_exists, Arena.exists_get?] at hf ⊢
        rwa [hall.size]
      simp [hnone]

end TigerMips
