import TigerMips.Proofs.Select.Mentions

/-! Instruction selection fails for malformed operations only. Each jump of the lines that are selected for code leads
to a label that is placed. -/

namespace TigerMips

namespace Access

variable {access : Access} {destination : Option Access}

lemma constant?_of_isPlace (h : access.isPlace) : access.constant? = none := by
  cases access with
  | const constant => cases h
  | temp t | memory base offset => rfl

lemma bind_constant?_of_isPlace (h : ∀ place ∈ destination, place.isPlace) : destination.bind constant? = none := by
  rcases destination with _ | place
  · rfl
  · exact constant?_of_isPlace (h place rfl)

end Access

namespace Select

open Machine

variable {α : Type} {size : Nat} {frame : FrameId} {context : Context} {known : Label → Prop}

lemma exists_entered? {frames : Arena .frame Frame} {target : Label}
    (h : ∃ id f, frames.get? id = some f ∧ f.entry = some target) :
    ∃ id f, entered? frames target = some (id, f) ∧ id.position < frames.size := by
  obtain ⟨id, f, hf, he⟩ := h
  have hm : (id, f) ∈ frames.entries.reverse := List.mem_reverse.mpr (frames.mem_entries.mpr hf)
  cases hfound : entered? frames target with
  | none => exact absurd he (by simpa using List.find?_eq_none.mp hfound _ hm)
  | some found =>
    have hfound' := frames.mem_entries.mp (List.mem_reverse.mp (List.mem_of_find?_eq_some hfound))
    exact ⟨found.1, found.2, rfl, frames.lt_size hfound'⟩

lemma get?_of_entered? {frames : Arena .frame Frame} {target : Label} {id : FrameId} {f : Frame}
    (h : entered? frames target = some (id, f)) : frames.get? id = some f ∧ f.entry = some target :=
  ⟨frames.mem_entries.mp (List.mem_reverse.mp (List.mem_of_find?_eq_some h)), by simpa using List.find?_some h⟩

lemma flaw?_of_selectable {frames : Arena .frame Frame} {tac : Tac} (h : tac.Selectable frames) :
    tac.flaw? frames = none := by
  cases tac with
  | move destination source | binary operator destination lhs rhs =>
    exact congrArg (Option.map _) (Access.constant?_of_isPlace h)
  | negate destination operand =>
    have hoperand : operand.address? = none := by
      rcases operand with t | (n | _ | label) | ⟨base, offset⟩ <;> first | rfl | exact absurd rfl (h.2 _)
    simp [Tac.flaw?, Access.constant?_of_isPlace h.1, hoperand]
  | call destination target arguments =>
    obtain ⟨hd, _, _, hf, he, -⟩ := h
    obtain ⟨id, f, hfound, -⟩ := exists_entered? ⟨_, _, hf, he⟩
    simp [Tac.flaw?, hfound, Access.bind_constant?_of_isPlace hd]
  | callRuntime destination name arguments =>
    obtain ⟨hd, function, hfunction, ha⟩ := h
    simp [Tac.flaw?, hfunction, Access.bind_constant?_of_isPlace hd, Nat.not_lt.mpr ha]
  | ret | goto target | branch relation lhs rhs target => rfl

def returning (s : Selection) (id : FrameId) : Selection where
  frames := s.frames.modify id (·.addReturn ⟨s.supply.labels⟩)
  supply := ⟨s.supply.temps, s.supply.labels + 1⟩

variable {graph : CallGraph} {s t : Selection} {lines : List Line} {destination : Option Access} {target : Label}
  {arguments : List Access}

lemma call_apply {id : FrameId} {f : Frame} (hfound : entered? s.frames target = some (id, f)) :
    call context graph destination target arguments s = (do
      let passing ← passArguments context f.params arguments
      let taking ← takeResult context destination f.returnValue
      let recursive := graph.isLoopEdge context.frame id
      return (callLines context { context with frame := id } recursive f.display target ⟨s.supply.labels⟩
        passing taking, recursive) : Select (List Line × Bool)) (returning s id) := by
  unfold call
  rw [get_bind, hfound]
  rfl

lemma call_eq_ok {recursive : Bool}
    (h : call context graph destination target arguments s = .ok ((lines, recursive), t)) :
    ∃ id f passing taking s₁, entered? s.frames target = some (id, f) ∧
      passArguments context f.params arguments (returning s id) = .ok (passing, s₁) ∧
      takeResult context destination f.returnValue s₁ = .ok (taking, t) ∧
      lines = callLines context { context with frame := id } recursive f.display target ⟨s.supply.labels⟩
        passing taking ∧
      recursive = graph.isLoopEdge context.frame id := by
  cases hfound : entered? s.frames target with
  | none =>
    unfold call at h
    rw [get_bind, hfound] at h
    exact (throw_ne_ok h).elim
  | some found =>
    rw [call_apply hfound] at h
    obtain ⟨passing, s₁, hpassing, h⟩ := bind_eq_ok.mp h
    obtain ⟨taking, s₂, htaking, h⟩ := bind_eq_ok.mp h
    obtain ⟨rfl, rfl, rfl⟩ := pure_pair_eq_ok.mp h
    exact ⟨found.1, found.2, passing, taking, s₁, rfl, hpassing, htaking, rfl, rfl⟩

lemma failure?_operation (start : Nat) (tac : Tac) (hc : context.frame.position < s.frames.size) :
    failure? (operation context graph start tac s) = tac.flaw? s.frames := by
  let limits : Limits := ⟨fun _ => True, fun _ => True⟩
  cases hcall : tac.callee? with
  | none =>
    by_cases hret : tac = .ret
    · subst hret
      rfl
    · have hmentions : Mentions context limits (tac.flaw? s.frames) _ (operation context graph start tac) :=
        mentions_operation (by simp [limits]) graph start hcall hret (by simp [limits]) (by simp [limits]) s.frames
      exact hmentions.ends s hc
  | some target =>
    cases tac with
    | call destination entry arguments =>
      have hbind : failure? (operation context graph start (.call destination entry arguments) s) =
          failure? (call context graph destination entry arguments s) := failure?_bind fun _ _ => rfl
      rw [hbind]
      simp only [Tac.flaw?]
      cases hfound : entered? s.frames entry with
      | none =>
        unfold call
        rw [get_bind, hfound]
        rfl
      | some found =>
        rw [call_apply hfound]
        refine Mentions.ends (?_ : Mentions context limits _ (fun _ _ => True) _) (returning s found.1)
          (by simpa [returning] using hc)
        exact .read (unlabeled_passArguments (by simp [limits]) (by simp [limits]) (by simp [limits, Allows])) fun _ =>
          .store (unlabeled_takeResult (by simp [limits]) destination (by simp [limits, Allows]) (by simp [limits]))
            fun _ => .pure fun _ _ => trivial
    | _ => cases hcall

inductive Selected (context : Context) (graph : CallGraph) (start : Nat) (s : Selection) :
    Tac → List Line → List CallSave → Selection → Prop
  | ret : Selected context graph start s .ret [context.line (.jumpRegister context.registers.ra)] [] s
  | call {destination target arguments passing taking recursive lines} (id : FrameId) (f : Frame)
      (hfound : entered? s.frames target = some (id, f)) (hrecursive : recursive = graph.isLoopEdge context.frame id)
      (hp : Straight context passing) (ht : Straight context taking) (hlines : lines = callLines context
        { context with frame := id } recursive f.display target ⟨s.supply.labels⟩ passing taking) (k : Nat) :
      Selected context graph start s (.call destination target arguments) lines
        (if recursive then [⟨context.frame, start, start + lines.length - 1⟩] else [])
        ((returning s id).drawn context.frame k 0)
  | other {tac lines} (hcall : tac.callee? = none) (hret : tac ≠ .ret) (k l : Nat)
      (hlays : Lays context ⟨fun _ => True, fun label => label ∈ Label.range s.supply.labels l ∨ label ∈ tac.target?⟩
        (Label.range s.supply.labels l) lines) :
      Selected context graph start s tac lines [] (s.drawn context.frame k l)

lemma selected_operation {start : Nat} {tac : Tac} {saves : List CallSave}
    (h : operation context graph start tac s = .ok ((lines, saves), t)) :
    Selected context graph start s tac lines saves t := by
  cases hcall : tac.callee? with
  | none =>
    by_cases hret : tac = .ret
    · subst hret
      obtain ⟨rfl, rfl, rfl⟩ := pure_pair_eq_ok.mp h
      exact .ret
    · let limits : Limits := ⟨fun _ => True, fun label => label ∈ s.supply.labelsTo t.supply ∨ label ∈ tac.target?⟩
      have hmentions : Mentions context limits (tac.flaw? s.frames)
          (fun labels result => Lays context limits labels result.1 ∧ result.2 = [])
            (operation context graph start tac) :=
        mentions_operation (by simp [limits]) graph start hcall hret (by simp [limits]) (fun _ h => Or.inr h) s.frames
      obtain ⟨⟨k, l, rfl, -⟩, hp⟩ := hmentions.apply h
      obtain ⟨hlays, hsaves⟩ := hp (fun _ _ => trivial) fun _ h => Or.inl h
      obtain rfl : saves = [] := hsaves
      have hlabels : s.supply.labelsTo (s.drawn context.frame k l).supply = Label.range s.supply.labels l := by
        simp [Supply.labelsTo]
      simp only [limits, hlabels] at hlays
      exact .other hcall hret k l hlays
  | some entry =>
    cases tac with
    | call destination target arguments =>
      obtain ⟨⟨own, recursive⟩, _, hrun, h⟩ := bind_eq_ok.mp h
      obtain ⟨rfl, rfl, rfl⟩ := pure_pair_eq_ok.mp h
      obtain ⟨id, f, passing, taking, s₁, hfound, hpass, htake, hlines, hrecursive⟩ := call_eq_ok hrun
      obtain ⟨k, rfl, hpassing⟩ := passArguments_eq_ok hpass
      obtain ⟨k', rfl, htaking⟩ := takeResult_eq_ok htake
      rw [Selection.drawn_drawn]
      exact .call id f hfound hrecursive hpassing htaking hlines _
    | _ => cases hcall

structure Laid (size : Nat) (known : Label → Prop) (lines : List Line) : Prop where
  within : Line.Within size lines
  targets : ∀ target ∈ Line.targets lines, target ∈ Line.labels lines ∨ known target

lemma Laid.append {first second : List Line} (h : Laid size known first) (h' : Laid size known second) :
    Laid size known (first ++ second) := by
  refine ⟨by simp [h.within, h'.within], fun target hm => ?_⟩
  rw [Line.targets_append] at hm
  rcases List.mem_append.mp hm with hm | hm
  · exact (h.targets target hm).imp_left fun hl => by simp [hl]
  · exact (h'.targets target hm).imp_left fun hl => by simp [hl]

lemma Laid.mono {known' : Label → Prop} {lines : List Line} (h : Laid size known lines)
    (hk : ∀ target, known target → known' target) : Laid size known' lines :=
  ⟨h.within, fun target hm => (h.targets target hm).imp_right (hk target)⟩

structure Advances (s t : Selection) (lines : List Line) : Prop where
  size : t.frames.size = s.frames.size
  temps : s.supply.temps ≤ t.supply.temps
  frames : ∀ id f, s.frames.get? id = some f → ∃ g, t.frames.get? id = some g ∧ f.Alike g ∧
    ∀ place ∈ g.returns, place ∈ f.returns ∨ place ∈ Line.labels lines

lemma Advances.drawn (s : Selection) (frame : FrameId) (k l : Nat) (lines : List Line) :
    Advances s (s.drawn frame k l) lines where
  size := s.drawn_size frame k l
  temps := by simp
  frames id f hf := by
    simp only [Selection.drawn, Arena.get?_modify, hf]
    split
    · exact ⟨_, rfl, ⟨rfl, rfl, rfl⟩, fun place hm => Or.inl hm⟩
    · exact ⟨f, rfl, .refl f, fun place hm => Or.inl hm⟩

lemma Advances.refl (s : Selection) (lines : List Line) : Advances s s lines where
  size := rfl
  temps := le_rfl
  frames _ f hf := ⟨f, hf, .refl f, fun _ hm => Or.inl hm⟩

lemma Advances.trans {s t u : Selection} {first second : List Line} (h : Advances s t first)
    (h' : Advances t u second) : Advances s u (first ++ second) where
  size := h'.size.trans h.size
  temps := h.temps.trans h'.temps
  frames id f hf := by
    obtain ⟨g, hg, he, hr⟩ := h.frames id f hf
    obtain ⟨g', hg', he', hr'⟩ := h'.frames id g hg
    refine ⟨g', hg', he.trans he', fun place hm => ?_⟩
    rcases hr' place hm with hm | hm
    · exact (hr place hm).imp_right fun hl => by simp [hl]
    · exact Or.inr (by simp [hm])

lemma labels_callLines (context callee : Context) (recursive : Bool) (display : Temp) (target back : Label)
    {passing taking : List Line} (hp : Line.labels passing = []) (ht : Line.labels taking = []) :
    Line.labels (callLines context callee recursive display target back passing taking) = [back] := by
  cases recursive <;>
    simp [callLines, savingAround, adjustStack, enterCallee, leaveCallee, store, Context.line, hp, ht]

lemma laid_callLines (hc : context.frame.position < size) (callee : Context) (hcallee : callee.frame.position < size)
    (recursive : Bool) (display : Temp) (target back : Label) {passing taking : List Line}
    (hp : Straight context passing) (ht : Straight context taking) :
    Laid size (· ∈ some target) (callLines context callee recursive display target back passing taking) := by
  constructor
  · cases recursive <;>
      simp [callLines, savingAround, adjustStack, enterCallee, leaveCallee, store, Context.line, hc, hcallee,
        hp.2.within hc, ht.2.within hc]
  · cases recursive <;>
      simp [callLines, savingAround, adjustStack, enterCallee, leaveCallee, store, Context.line, Operation.target?,
        hp.targets, ht.targets]

lemma advances_returning (s : Selection) (id : FrameId) {lines : List Line}
    (h : ⟨s.supply.labels⟩ ∈ Line.labels lines) : Advances s (returning s id) lines where
  size := s.frames.size_modify _ _
  temps := le_rfl
  frames other f hf := by
    simp only [returning, Arena.get?_modify, hf]
    split
    · refine ⟨_, rfl, ⟨rfl, rfl, rfl⟩, fun place hm => ?_⟩
      rcases List.mem_append.mp hm with hm | hm
      · exact Or.inl hm
      · obtain rfl := List.mem_singleton.mp hm
        exact Or.inr h
    · exact ⟨f, rfl, .refl f, fun place hm => Or.inl hm⟩

lemma Selected.laid {start : Nat} {tac : Tac} {saves : List CallSave}
    (h : Selected context graph start s tac lines saves t)
    (hc : context.frame.position < s.frames.size) :
    Advances s t lines ∧ Laid s.frames.size (· ∈ tac.target?) lines := by
  cases h with
  | ret => exact ⟨.refl _ _, by simp [Context.line, hc], by simp [Context.line, Operation.target?]⟩
  | call id f hfound _ hp ht hlines k =>
    have hback : ⟨s.supply.labels⟩ ∈ Line.labels lines := by
      rw [hlines, labels_callLines _ _ _ _ _ _ hp.1 ht.1]
      exact List.mem_singleton_self _
    have hadvances := (advances_returning s id hback).trans (.drawn _ context.frame k 0 [])
    rw [List.append_nil] at hadvances
    refine ⟨hadvances, ?_⟩
    rw [hlines]
    exact laid_callLines hc _ (s.frames.lt_size (get?_of_entered? hfound).1) _ _ _ _ hp ht
  | other hcall hret k l hlays =>
    exact ⟨.drawn s _ k l lines, hlays.2.within hc, fun target hm => hlays.1 ▸ hlays.2.targets target hm⟩

lemma operation_ok (context : Context) (graph : CallGraph) (start : Nat) {tac : Tac} {s : Selection}
    (hc : context.frame.position < s.frames.size) (hs : tac.Selectable s.frames) :
    ∃ lines saves t, operation context graph start tac s = .ok ((lines, saves), t) ∧
      Advances s t lines ∧ Laid s.frames.size (· ∈ tac.target?) lines := by
  have hnone : failure? (operation context graph start tac s) = none :=
    (failure?_operation start tac hc).trans (flaw?_of_selectable hs)
  obtain ⟨⟨⟨lines, saves⟩, t⟩, hrun⟩ := failure?_eq_none.mp hnone
  obtain ⟨hadvances, hlaid⟩ := (selected_operation hrun).laid hc
  exact ⟨lines, saves, t, hrun, hadvances, hlaid⟩

lemma code_ok (registers : Registers) (graph : CallGraph) (start : Nat) {code : Code} {s : Selection}
    (h : code.Selectable known s.frames) :
    ∃ lines saves t, Select.code registers graph start code s = .ok ((lines, saves), t) ∧ Advances s t lines ∧
      Laid s.frames.size known lines ∧ Code.labels [code] ⊆ Line.labels lines := by
  cases code with
  | label place => exact ⟨_, _, s, rfl, .refl s _, ⟨by simp, by simp⟩, by simp⟩
  | op frame tac =>
    obtain ⟨hf, hs, hk⟩ := h
    obtain ⟨lines, saves, t, ho, ha, hl⟩ := operation_ok ⟨frame, registers⟩ graph start hf hs
    exact ⟨lines, saves, t, ho, ha, hl.mono hk, by simp⟩
  | labeled place frame tac =>
    obtain ⟨hf, hs, hk⟩ := h
    obtain ⟨lines, saves, t, ho, ha, hl⟩ := operation_ok ⟨frame, registers⟩ graph (start + 1) hf hs
    have hlabel : Laid s.frames.size known [.label place] := ⟨by simp, by simp⟩
    exact ⟨.label place :: lines, saves, t, bind_eq_ok.mpr ⟨_, t, ho, rfl⟩, (Advances.refl s [.label place]).trans ha,
      hlabel.append (hl.mono hk), by simp⟩

lemma codes_ok (registers : Registers) (graph : CallGraph) (start : Nat) {codes : List Code} {s : Selection}
    (h : ∀ code ∈ codes, code.Selectable known s.frames) :
    ∃ lines saves t, Select.codes registers graph start codes s = .ok ((lines, saves), t) ∧ Advances s t lines ∧
      Laid s.frames.size known lines ∧ Code.labels codes ⊆ Line.labels lines := by
  induction codes generalizing start s with
  | nil => exact ⟨[], [], s, rfl, .refl s [], ⟨by simp, by simp⟩, by simp⟩
  | cons first rest ih =>
    obtain ⟨lines, saves, t, hf, ha, hl, hlabels⟩ := code_ok registers graph start (h first List.mem_cons_self)
    have hrest : ∀ code ∈ rest, code.Selectable known t.frames := fun code hm =>
      (h code (List.mem_cons_of_mem _ hm)).of_entries fun id f hf => by
        obtain ⟨g, hg, he, -⟩ := ha.frames id f hf
        exact ⟨g, hg, he⟩
    obtain ⟨others, otherSaves, u, hr, ha', hl', hlabels'⟩ := ih (start + lines.length) hrest
    rw [ha.size] at hl'
    refine ⟨lines ++ others, saves ++ otherSaves, u, bind_eq_ok.mpr ⟨_, t, hf, bind_eq_ok.mpr ⟨_, u, hr, rfl⟩⟩,
      ha.trans ha', hl.append hl', ?_⟩
    rw [Line.labels_append, ← List.singleton_append, Code.labels_append]
    exact List.append_subset.mpr ⟨List.subset_append_of_subset_left _ hlabels,
      List.subset_append_of_subset_right _ hlabels'⟩

lemma exists_reserve {s : Selection} (hf : frame.position < s.frames.size) :
    ∃ registers, reserve frame s = .ok (registers, s.drawn frame 7 0) := by
  have hnew : ∀ k, newTempIn frame (s.drawn frame k 0) = .ok (⟨s.supply.temps + k⟩, s.drawn frame (k + 1) 0) := fun k =>
    newTempIn_eq_ok.mpr ⟨by simpa using hf, rfl, by rw [Selection.drawn_drawn]⟩
  have hzero := hnew 0
  rw [Selection.drawn_zero] at hzero
  exact ⟨_, bind_eq_ok.mpr ⟨_, _, hzero, bind_eq_ok.mpr ⟨_, _, hnew 1, bind_eq_ok.mpr ⟨_, _, hnew 2, bind_eq_ok.mpr
    ⟨_, _, hnew 3, bind_eq_ok.mpr ⟨_, _, hnew 4, bind_eq_ok.mpr ⟨_, _, hnew 5, bind_eq_ok.mpr
    ⟨_, _, hnew 6, rfl⟩⟩⟩⟩⟩⟩⟩⟩

lemma generate_ok {program : Tac.Program} (h : program.Selectable) :
    ∃ machine, program.generate = .ok machine ∧ Laid machine.frames.size (fun _ => False) machine.lines ∧
      ∀ id f, machine.frames.get? id = some f → ∀ place ∈ f.returns, place ∈ Line.labels machine.lines := by
  obtain ⟨registers, hreserve⟩ := exists_reserve (s := ⟨program.frames, program.supply⟩) h.mainFrame
  have hadvances := Advances.drawn ⟨program.frames, program.supply⟩ program.mainFrame 7 0 []
  have hcodes : ∀ code ∈ program.codes, code.Selectable (· ∈ Code.labels program.codes)
      (Selection.drawn ⟨program.frames, program.supply⟩ program.mainFrame 7 0).frames := fun code hm =>
    ((h.codes code hm).mono (.refl _) fun target ht => ht.resolve_right id).of_entries fun id f hf => by
      obtain ⟨g, hg, he, -⟩ := hadvances.frames id f hf
      exact ⟨g, hg, he⟩
  obtain ⟨lines, saves, t, hrun, ha, hl, hlabels⟩ := codes_ok registers program.callGraph 0 hcodes
  have hselect : (do
      let registers ← reserve program.mainFrame
      return (registers, ← codes registers program.callGraph 0 program.codes) :
        Select (Registers × List Line × List CallSave)) ⟨program.frames, program.supply⟩ =
      .ok ((registers, lines, saves), t) :=
    bind_eq_ok.mpr ⟨registers, _, hreserve, bind_eq_ok.mpr ⟨_, t, hrun, rfl⟩⟩
  refine ⟨{ lines, frames := t.frames, registers, callSaves := saves, strings := program.strings.entries }, ?_, ?_, ?_⟩
  · unfold Tac.Program.generate
    simp only [hselect]
    rfl
  · rw [← ha.size] at hl
    exact ⟨hl.within, fun target hm => Or.inl ((hl.targets target hm).elim id fun hm => hlabels hm)⟩
  · intro id g hg place hm
    have hall := hadvances.trans ha
    obtain ⟨f, hf⟩ := program.frames.exists_get?.mpr (hall.size ▸ t.frames.lt_size hg)
    obtain ⟨g', hg', -, hr⟩ := hall.frames id f hf
    obtain rfl := Option.some.inj (hg.symm.trans hg')
    exact (hr place hm).resolve_left (by simp [h.returns id f hf])

end Select

end TigerMips
