import TigerMips.Proofs.Analysis.Tracing
import TigerMips.Proofs.Tac.Flow

/-! Control stays inside of its function: the code of each function, which lies between the codes
of the function around it, is entered and left only by calls and returns. -/

namespace TigerMips

def Owned.IsEntryOf (x : Owned) (entry : Entry) : Prop :=
  x.code.label? = some entry.label ∧ x.owner = entry.frame ∧ x.isEntry = true

namespace Analyzer

def Leaves (s : Analyzer) (l : Label) : Prop := s.exits.head? = some (some l)

def Covers (s t : Analyzer) (xs : List Owned) : Prop :=
  ∀ id : FunctionId, s.functions.size ≤ id.position → id.position < t.functions.size →
    ∃ f entry, t.functions.get? id = some f ∧ f.signature.entry = some entry ∧ s.frames.size ≤ entry.frame.position ∧
      ∃ x ∈ xs, x.IsEntryOf entry

/-- Code made between two states inside of a function. It places some labels for jumps, and may
jump to others that are known. -/
structure Confined (frame : FrameId) (known : Label → Prop) (placed : List Label) (s t : Analyzer) (codes : List Code) :
    Prop where
  grows : s.Grows t
  owned : ∃ xs : List Owned, xs.map Owned.code = codes ∧ Owned.Inside frame known placed xs ∧ Covers s t xs

variable {s t u : Analyzer} {frame : FrameId} {known known' : Label → Prop} {placed placed' : List Label}
  {codes rest : List Code} {xs ys : List Owned}

lemma Covers.mono (h : Covers s t xs) (hs : xs ⊆ ys) : Covers s t ys := fun id hl hr => by
  obtain ⟨f, entry, hf, he, hnew, x, hx, hentry⟩ := h id hl hr
  exact ⟨f, entry, hf, he, hnew, x, hs hx, hentry⟩

lemma Covers.later (h : Covers s t xs) (hg : t.Grows u) (hs : u.functions.size = t.functions.size) : Covers s u xs := by
  intro id hl hr
  obtain ⟨f, entry, hf, he, hrest⟩ := h id hl (hs ▸ hr)
  obtain ⟨_, hf', _, _, rfl, -⟩ := hg.functions id f hf
  exact ⟨_, entry, hf', he, hrest⟩

lemma Covers.trans (h : Covers s t xs) (h' : Covers t u ys) (hst : s.Grows t) (htu : t.Grows u) :
    Covers s u (xs ++ ys) := by
  intro id hl hr
  by_cases hlt : id.position < t.functions.size
  · obtain ⟨f, entry, hf, he, hnew, x, hx, hentry⟩ := h id hl hlt
    obtain ⟨_, hf', _, _, rfl, -⟩ := htu.functions id f hf
    exact ⟨_, entry, hf', he, hnew, x, List.mem_append_left _ hx, hentry⟩
  · obtain ⟨f, entry, hf, he, hnew, x, hx, hentry⟩ := h' id (Nat.le_of_not_lt hlt) hr
    exact ⟨f, entry, hf, he, hst.frames.size_le.trans hnew, x, List.mem_append_right _ hx, hentry⟩

lemma covers_nothing (hs : t.functions.size = s.functions.size) : Covers s t xs := fun id hl hr => by omega

namespace Confined

lemma append (h : Confined frame known placed s t codes) (h' : Confined frame known placed' t u rest) :
    Confined frame known (placed ++ placed') s u (codes ++ rest) := by
  obtain ⟨xs, rfl, hxs, hcx⟩ := h.owned
  obtain ⟨ys, rfl, hys, hcy⟩ := h'.owned
  exact ⟨h.grows.trans h'.grows, xs ++ ys, by simp, hxs.append hys, hcx.trans hcy h.grows h'.grows⟩

lemma places (places : List Label) (hg : s.Grows t) (hs : t.functions.size = s.functions.size)
    (hp : places ⊆ Code.labels codes)
    (h : ∀ code ∈ codes, (∀ op ∈ code.op?, op.1 = frame) ∧ ∀ target ∈ code.jump?, known target) :
    Confined frame known places s t codes := by
  have hown : Owned.Inside frame known (Code.labels codes) (codes.map (Owned.mk frame false)) := .own h
  exact ⟨hg, _, by simp [Function.comp_def], { hown with placed := fun l hm => hown.placed l (hp hm) },
    covers_nothing hs⟩

lemma own (hg : s.Grows t) (hs : t.functions.size = s.functions.size)
    (h : ∀ code ∈ codes, (∀ op ∈ code.op?, op.1 = frame) ∧ ∀ target ∈ code.jump?, known target) :
    Confined frame known [] s t codes :=
  places [] hg hs (by simp) h

lemma one {code : Code} (h : (∀ op ∈ code.op?, op.1 = frame) ∧ ∀ target ∈ code.jump?, known target) :
    Confined frame known [] s s [code] :=
  own (.refl s) rfl (by simpa using h)

lemma nil (hg : s.Grows t) (hs : t.functions.size = s.functions.size) : Confined frame known [] s t [] :=
  ⟨hg, [], rfl, .nil, covers_nothing hs⟩

lemma mono (h : Confined frame known placed s t codes) (hk : ∀ target, known target → known' target) :
    Confined frame known' placed s t codes := by
  obtain ⟨xs, hcodes, hxs, hc⟩ := h.owned
  exact ⟨h.grows, xs, hcodes, hxs.mono hk, hc⟩

lemma offer (places : List Label) (h : Confined frame known placed s t codes) :
    Confined frame (fun target => target ∈ places ∨ known target) placed s t codes :=
  h.mono fun _ => Or.inr

lemma place (places : List Label) (h : Confined frame (fun target => target ∈ places ∨ known target) placed s t codes)
    (hp : places ⊆ placed) : Confined frame known [] s t codes := by
  obtain ⟨xs, hcodes, hxs, hc⟩ := h.owned
  exact ⟨h.grows, xs, hcodes, hxs.resolve fun _ => Or.imp_left fun hm => hp hm, hc⟩

lemma later (h : Confined frame known placed s t codes) (hg : t.Grows u) (hs : u.functions.size = t.functions.size) :
    Confined frame known placed s u codes := by
  obtain ⟨xs, hcodes, hxs, hc⟩ := h.owned
  exact ⟨h.grows.trans hg, xs, hcodes, hxs, hc.later hg hs⟩

lemma cons {code : Code} (hg : s.Grows t) (hs : t.functions.size = s.functions.size)
    (h : (∀ op ∈ code.op?, op.1 = frame) ∧ ∀ target ∈ code.jump?, known target)
    (hr : Confined frame known placed t u codes) : Confined frame known placed s u (code :: codes) := by
  have hcode : Confined frame known [] s t [code] := own hg hs (by simpa using h)
  exact hcode.append hr

lemma rebind (h : Confined frame known placed s t codes) (hg : s.Grows u) (hf : u.functions = t.functions) :
    Confined frame known placed s u codes := by
  obtain ⟨xs, hcodes, hxs, hc⟩ := h.owned
  refine ⟨hg, xs, hcodes, hxs, ?_⟩
  unfold Covers
  rwa [hf]

lemma part {s₀ : Analyzer} (h : Confined s.currentFrame s.Leaves placed s t codes) (hd : s₀.Declares s) :
    Confined s₀.currentFrame s₀.Leaves placed s t codes := by
  rw [hd.currentFrame] at h
  refine h.mono fun target hl => ?_
  unfold Leaves at hl ⊢
  rwa [← hd.exits]

end Confined

end Analyzer

namespace Analysis

open Analyzer Code

variable {s t : Analyzer}

abbrev Confines (s : Analyzer) (codes : List Code) (t : Analyzer) : Prop :=
    Confined s.currentFrame s.Leaves [] s t codes

lemma confines_toSimple {access simple : Access} {load : List Code} (h : toSimple access s = ((simple, load), t))
    {frame : FrameId} (hf : s.currentFrame = frame) (known : Label → Prop) : Confined frame known [] s t load := by
  rcases toSimple_eq h with ⟨-, rfl, rfl⟩ | ⟨-, rfl, rfl⟩
  · exact .nil (.refl _) rfl
  · exact (Confined.own (Keeps.withTemp s).toGrows rfl (by simp [op?, Code.jump?, Tac.jump?, hf]))

lemma confined_operationCode {operator : Operator} {operands : Operands} {result : Temp} {left right : Lowered}
    {lhs rhs : Access} {code : List Code} {s₀ s₁ : Analyzer} {frame : FrameId} {known : Label → Prop}
    (h : operationCode operator operands result left right lhs rhs s = (code, t)) (hf : s.currentFrame = frame)
    (hl : Confined frame known [] s₀ s₁ left.code) (hr : Confined frame known [] s₁ s right.code) :
    Confined frame known [] s₀ t code := by
  subst hf
  rcases operationCode_eq h with ⟨conjunction, rfl, rfl⟩ | ⟨operator, ⟨rfl, rfl⟩ | ⟨rfl, rfl⟩⟩
  · have hg : s.Grows s.withLabel.withLabel := ((Keeps.withLabel s).trans (Keeps.withLabel _)).toGrows
    refine .place [⟨s.supply.labels⟩, ⟨s.supply.labels + 1⟩] (((hl.offer _).append
      ((Confined.one ?_).append (hr.offer _))).append
      (.places [⟨s.supply.labels⟩, ⟨s.supply.labels + 1⟩] hg rfl (by simp) ?_)) (by simp)
    · simp [op?, Code.jump?, Tac.jump?]
    · simp [op?, Code.jump?, Tac.jump?]
  · have hg : s.Grows (s.withTemp.usingRuntime Runtime.strcmp.name) :=
      ((Keeps.withTemp s).trans (keeps_useRuntime _ _)).toGrows
    exact (hl.append hr).append (.own hg rfl (by simp [op?, Code.jump?, Tac.jump?]))
  · exact (hl.append hr).append (.own (.refl _) rfl (by simp [op?, Code.jump?, Tac.jump?]))

lemma operandCases_confines :
    OperandCases (fun _ s a t => Confines s a.code t) (fun _ _ s a t => Confines s a.code t) where
  int _ := .nil (.refl _) rfl
  string _ hintern := by
    have hg := ((keeps.internString _).apply hintern).toGrows
    obtain rfl := congrArg Prod.snd hintern
    exact .nil hg rfl
  nil _ := .nil (.refl _) rfl
  lvalue h := h.holds
  assign hl hv _ _ _ _ := by
    have hframe := (hl.keeps.trans hv.keeps).currentFrame
    exact (hl.holds.append (hv.holds.part hl.keeps.declares)).append
      (.one (by simp [op?, Code.jump?, Tac.jump?, hframe]))
  operation s₂ :=
    fun hl hr _ _ _ hcode _ => confined_operationCode hcode (hl.keeps.trans hr.keeps).currentFrame hl.holds
    ((hr.holds.part hl.keeps.declares).later (Keeps.withTemp s₂).toGrows rfl)
  negate s₁ := fun ho _ _ => ho.holds.append
    (.own (Keeps.withTemp s₁).toGrows rfl (by simp [op?, Code.jump?, Tac.jump?, ho.keeps.currentFrame]))
  variablePlace _ _ _ hnote := .nil ((keeps.noteUse _).apply hnote).toGrows ((notes_noteUse _).apply hnote).size
  field s₁ _ := fun hb _ _ _ hload _ => by
    have hframe := hb.keeps.currentFrame
    exact hb.holds.append (.cons (Keeps.withTemp s₁).toGrows rfl (by simp [op?, Code.jump?, Tac.jump?, hframe])
      (confines_toSimple hload hframe _))
  subscript _ _ s₃ _ := fun hb _ hi _ _ _ hload _ _ => by
    have hframe := (hb.keeps.trans hi.keeps).currentFrame
    exact ((hb.holds.append (hi.holds.part hb.keeps.declares)).append (confines_toSimple hload hframe _)).append
      (.own (Keeps.withTemp s₃).toGrows rfl (by simp [op?, Code.jump?, Tac.jump?, hframe]))

lemma confined_moveInto {frame : FrameId} (destination : Option Temp) (value : Option Access) (known : Label → Prop)
    (s : Analyzer) : Confined frame known [] s s (moveInto frame destination value) := by
  unfold moveInto
  split
  · exact .own (.refl s) rfl (by simp [op?, Code.jump?, Tac.jump?])
  · exact .nil (.refl s) rfl

lemma confined_loop {exit : Label} {outer : List (Option Label)} {frame : FrameId} {codes : List Code}
    (h : Confined frame s.Leaves [] s t codes) (hx : s.exits = some exit :: outer) :
    Confined frame (fun target => target = exit) [] s t codes :=
  h.mono fun target hl => by
    unfold Leaves at hl
    rw [hx] at hl
    exact (Option.some.inj (Option.some.inj hl)).symm

lemma controlCases_confines :
    ControlCases (fun _ s a t => Confines s a.code t) (fun _ s a t => Confines s a.code t) where
  breakLoop _ hexits := .own (.refl _) rfl (by simp [op?, Code.jump?, Tac.jump?, Leaves, hexits])
  ifThen s₂ := fun hc hp _ => by
    have hframe := (hc.keeps.trans hp.keeps).currentFrame
    refine .place [⟨s₂.supply.labels⟩] ((((hc.holds.offer _).append ((Confined.one ?_).append
      ((hp.holds.part hc.keeps.declares).offer _))).append
      (.places [⟨s₂.supply.labels⟩] (Keeps.withLabel s₂).toGrows rfl (by simp) (by simp [op?, Code.jump?])))) (by simp)
    simp [skipUnless, op?, Code.jump?, Tac.jump?, hframe]
  ifThenElse s₃ s₄ _ := fun hc hp hn _ hresult _ hk _ => by
    have hk₂ := hc.keeps.trans hp.keeps
    have hframe := ((hk₂.trans hn.keeps).trans hk).currentFrame
    have hsize : s₄.functions.size = s₃.functions.size := by
      rcases resultTemp_eq hresult hn.after with ⟨-, -, rfl⟩ | ⟨-, -, rfl⟩ <;> rfl
    have hg : s₃.Grows s₄.withLabel.withLabel := (hk.trans ((Keeps.withLabel s₄).trans (Keeps.withLabel _))).toGrows
    have htest := hc.holds.offer [⟨s₄.supply.labels⟩, ⟨s₄.supply.labels + 1⟩]
    have hyes := (hp.holds.part hc.keeps.declares).offer [⟨s₄.supply.labels⟩, ⟨s₄.supply.labels + 1⟩]
    have hno := (hn.holds.part hk₂.declares).offer [⟨s₄.supply.labels⟩, ⟨s₄.supply.labels + 1⟩]
    rw [← hframe] at htest hyes hno
    unfold Confines
    rw [← hframe]
    refine .place [⟨s₄.supply.labels⟩, ⟨s₄.supply.labels + 1⟩] ((((((htest.append
      ((Confined.one ?_).append hyes)).append (confined_moveInto _ _ _ _)).append
      (.places [⟨s₄.supply.labels⟩] (.refl _) rfl (by simp) ?_)).append hno).append (confined_moveInto _ _ _ _)).append
      (.places [⟨s₄.supply.labels + 1⟩] hg hsize (by simp) ?_)) (by simp)
    · simp [skipUnless, op?, Code.jump?, Tac.jump?]
    · simp [op?, Code.jump?, Tac.jump?]
    · simp [op?, Code.jump?]
  whileLoop s s₁ s₂ := fun _ hc hb hk _ => by
    have hk₀ : s.Keeps s.withLabel.withLabel := (Keeps.withLabel s).trans (Keeps.withLabel _)
    have hk₁ := hk₀.trans hc.keeps
    have hframe : s₂.currentFrame = s.currentFrame := (hk₁.trans hk).currentFrame
    have hinside := confined_loop hb.holds rfl
    have hbody : Confined s.currentFrame (fun target => target = ⟨s.supply.labels + 1⟩) [] s₁
        { s₂ with exits := s₂.exits.tail } _ := ⟨hk.toGrows, hk₁.currentFrame ▸ hinside.owned⟩
    have hhead :
        Confined s.currentFrame (fun target => target ∈ [⟨s.supply.labels⟩, ⟨s.supply.labels + 1⟩] ∨ s.Leaves target)
        [⟨s.supply.labels⟩] s s.withLabel.withLabel [.label ⟨s.supply.labels⟩] :=
      .places _ hk₀.toGrows rfl (by simp) (by simp [op?, Code.jump?])
    refine .place [⟨s.supply.labels⟩, ⟨s.supply.labels + 1⟩]
      (((hhead.append ((hc.holds.part hk₀.declares).offer _)).append ((Confined.one ?_).append (hbody.mono ?_))).append
      (.places [⟨s.supply.labels + 1⟩] (.refl _) rfl (by simp) ?_)) (by simp)
    · simp [skipUnless, op?, Code.jump?, Tac.jump?, hframe]
    · rintro target rfl
      simp
    · simp [op?, Code.jump?, Tac.jump?, hframe]
  forLoop s s₂ s₃ := fun hf hl hb hk _ _ => by
    have hk₂ := hf.keeps.trans hl.keeps
    have hk₃ : s₂.Keeps s₂.withLabel.withTemp := (Keeps.withLabel s₂).trans (Keeps.withTemp _)
    have hframe : s₃.currentFrame = s.currentFrame := ((hk₂.trans hk₃).trans hk).currentFrame
    have hinside := confined_loop hb.holds rfl
    have hbody : Confined s₃.currentFrame (fun target => target = ⟨s₂.supply.labels⟩) [] s₂.withLabel.withTemp
        s₃.leaveFor _ :=
      ⟨hk.toGrows, (show s₃.currentFrame = s₂.currentFrame from hk.currentFrame) ▸ hinside.owned⟩
    have hbounds := (hf.holds.append (hl.holds.part hf.keeps.declares)).offer [⟨s₃.supply.labels⟩, ⟨s₂.supply.labels⟩]
    rw [← hframe] at hbounds
    unfold Confines
    rw [← hframe]
    refine .place [⟨s₃.supply.labels⟩, ⟨s₂.supply.labels⟩] (hbounds.append (((Confined.places [⟨s₃.supply.labels⟩]
      hk₃.toGrows rfl (by simp) ?_).append (hbody.mono ?_)).append (.places [⟨s₂.supply.labels⟩]
      ((Keeps.withTemp _).trans (Keeps.withLabel _)).toGrows rfl (by simp) ?_))) (by simp)
    · simp [op?, Code.jump?, Tac.jump?]
    · rintro target rfl
      simp
    · simp [op?, Code.jump?, Tac.jump?]
  sequence h := h.holds
  emptySequence _ := .nil (.refl _) rfl
  single h := h.holds
  longer hf hr := hf.holds.append (hr.holds.part hf.keeps.declares)

lemma functions_noteEdge {entry : Option Entry} (h : noteEdge entry s = ((), t)) : t.functions = s.functions := by
  obtain rfl := congrArg Prod.snd h
  cases entry <;> rfl

lemma aggregateCases_confines : AggregateCases (fun _ s a t => Confines s a.code t) (fun _ _ s a t => Confines s a.1 t)
    (fun _ _ _ _ => Confines) where
  array s₂ := fun _ _ hs hi _ _ _ => by
    have hframe := (hs.keeps.trans hi.keeps).currentFrame
    have hparts := (hs.holds.append (hi.holds.part hs.keeps.declares)).offer
      [⟨s₂.supply.labels⟩, ⟨s₂.supply.labels + 1⟩]
    refine .place [⟨s₂.supply.labels⟩, ⟨s₂.supply.labels + 1⟩] (hparts.append
      (.places [⟨s₂.supply.labels⟩, ⟨s₂.supply.labels + 1⟩] (Keeps.filling s₂).toGrows ?_ ?_ ?_)) (by simp)
    · simp
    · simp [arrayCode]
    · simp [arrayCode, op?, Code.jump?, Tac.jump?, hframe]
  record s _ := fun _ _ _ hf => by
    have hk := Keeps.asking s
    exact .append (.own hk.toGrows rfl (by simp [op?, Code.jump?, Tac.jump?])) (hf.holds.part hk.declares)
  call s s₁ s₄ t _ := fun _ ha hcall hedge hs₃ hresult _ hoperation _ hk₄ hk => by
    have hk₁ : s₁.Keeps t :=
      (((keeps.noteCall _).apply hcall).trans ((keeps.noteEdge _).apply hedge)).trans (hk₄.trans hk)
    have hsize : s₄.functions.size = s₁.functions.size := by
      rw [← ((notes_noteCall _).apply hcall).size, ← functions_noteEdge hedge]
      rcases resultTemp_eq hresult hs₃ with ⟨-, -, rfl⟩ | ⟨-, -, rfl⟩ <;> rfl
    have hframe : s₄.currentFrame = s.currentFrame := hk.currentFrame.symm.trans (ha.keeps.trans hk₁).currentFrame
    rcases callOperation_eq hoperation with ⟨_, -, rfl, rfl⟩ | ⟨-, rfl, rfl⟩
    all_goals exact ha.holds.append (.own hk₁.toGrows hsize (by simp [op?, Code.jump?, Tac.jump?, hframe]))
  noArguments _ := .nil (.refl _) rfl
  argument hv _ hr := hv.holds.append (hr.holds.part hv.keeps.declares)
  noFields _ := .nil (.refl _) rfl
  fields _ _ _ _ := fun hv _ _ hr => by
    have hframe := hv.keeps.currentFrame
    exact hv.holds.append (.cons (.refl _) rfl (by simp [op?, Code.jump?, Tac.jump?, hframe])
      (hr.holds.part hv.keeps.declares))

def ImplementsWhole (declared : List Declared) (s : Analyzer) (a : List Code) (t : Analyzer) : Prop :=
  ∃ xs : List Owned, xs.map Owned.code = a ∧ Owned.Whole xs ∧ Covers s t xs ∧ ∀ d ∈ declared, ∃ x ∈ xs,
    x.IsEntryOf d.entry

lemma whole_body {s₁ : Analyzer} {declared : Declared} {inside : Lowered}
    (h : Confines (enterFunction declared s).2 inside.code s₁) : ∃ xs : List Owned,
      xs.map Owned.code = .label declared.entry.label :: inside.code ++
        (moveInto declared.entry.frame declared.entry.resultPlace inside.place ++ [.op declared.entry.frame .ret]) ∧
      Owned.Whole xs ∧ Covers s (leaveFunction s.currentFrame s₁).2 xs ∧ ∃ x ∈ xs, x.IsEntryOf declared.entry := by
  have hbody : Confined declared.entry.frame (fun _ => False) [] (enterFunction declared s).2 s₁ inside.code :=
    h.mono fun target hl => by cases hl
  obtain ⟨xs, hxs, hinside, hcx⟩ :=
    (hbody.append (confined_moveInto declared.entry.resultPlace inside.place _ s₁)).owned
  have hcovers : Covers s (leaveFunction s.currentFrame s₁).2 xs := hcx
  refine ⟨_, ?_, Owned.Whole.function hinside declared.entry.label, hcovers.mono (by simp), _, List.mem_cons_self, rfl,
    rfl, rfl⟩
  simp [hxs]

lemma declareFunction_added {decl : FunctionDecl} {declared : Declared} (h : declareFunction decl s = (declared, t)) :
    t.functions.size = s.functions.size + 1 ∧ s.frames.size ≤ declared.entry.frame.position ∧
      ∃ f, t.functions.get? s.functions.next = some f ∧ f.signature.entry = some declared.entry := by
  obtain ⟨_, params, result, ⟨errors, types, table, rfl⟩, rfl, rfl⟩ := declareFunction_state h
  exact ⟨by simp, by simp [declaredAs, Arena.next], _, (Arena.get?_push _ _ _).trans (if_pos rfl), rfl⟩

lemma declareFunctions_added {members : List FunctionDecl} {seen : List String} {declared : List Declared}
    (h : declareFunctions seen members s = (declared, t)) {id : FunctionId} (hl : s.functions.size ≤ id.position)
    (hr : id.position < t.functions.size) :
    ∃ f, ∃ d ∈ declared, t.functions.get? id = some f ∧ f.signature.entry = some d.entry ∧
      s.frames.size ≤ d.entry.frame.position := by
  induction members generalizing seen s t declared with
  | nil =>
    obtain ⟨rfl, rfl⟩ := pure_eq.mp h
    omega
  | cons decl rest ih =>
    obtain ⟨first, s₁, s₂, others, hfirst, henter, hothers, rfl⟩ := declareFunctions_cons h
    have hgrows := ((keeps_declareFunction decl).apply hfirst).toGrows
    obtain ⟨hsize, hnew, f, hf, he⟩ := declareFunction_added hfirst
    have hentered : s₂.functions = s₁.functions ∧ s₂.frames = s₁.frames := by
      rcases enterName_eq henter with ⟨errors, rfl⟩ | rfl <;> exact ⟨rfl, rfl⟩
    by_cases hlater : s₂.functions.size ≤ id.position
    · obtain ⟨f, d, hd, hf, he, hnew⟩ := ih hothers hlater hr
      exact ⟨f, d, List.mem_cons_of_mem _ hd, hf, he, hgrows.frames.size_le.trans (hentered.2 ▸ hnew)⟩
    · have hid : id = s.functions.next := by
        obtain ⟨position⟩ := id
        rw [hentered.1] at hlater
        simp only [Arena.next, Index.mk.injEq] at hl hlater ⊢
        omega
      subst hid
      rw [← hentered.1] at hf
      obtain ⟨_, hf', _, _, rfl, -⟩ := ((declares_declareFunctions _ _).apply hothers).functions _ f hf
      exact ⟨_, first, List.mem_cons_self, hf', he, hnew⟩

lemma covers_declareFunctions {members : List FunctionDecl} {declared : List Declared} {xs : List Owned}
    (h : declareFunctions [] members s = (declared, t)) (hx : ∀ d ∈ declared, ∃ x ∈ xs, x.IsEntryOf d.entry) :
    Covers s t xs := fun id hl hr => by
  obtain ⟨f, d, hd, hf, he, hnew⟩ := declareFunctions_added h hl hr
  exact ⟨f, d.entry, hf, he, hnew, hx d hd⟩

lemma declarationCases_confines : DeclarationCases (fun _ s a t => Confines s a.code t)
    (fun _ s a t => Confines s a.code t) (fun _ => Confines) (fun _ => Confines) (fun _ => ImplementsWhole) where
  letIn _ _ _ := fun _ hd hb => by
    have hcode := hd.holds.append (hb.holds.part hd.keeps)
    exact ⟨{ hcode.grows with }, hcode.owned⟩
  noGroups _ := .nil (.refl _) rfl
  groups _ := fun hg hr => hg.holds.append (hr.holds.part hg.keeps)
  var s₁ := fun hv _ _ => by
    have hg := (hv.keeps.trans (.withTemp s₁)).toGrows
    exact .rebind (t := s₁.withTemp) (hv.holds.append (.own (Keeps.withTemp s₁).toGrows rfl
      (by simp [op?, Code.jump?, Tac.jump?, hv.keeps.currentFrame]))) { hg with } rfl
  types _ hgroup := .nil ((declares_typeGroup _).apply hgroup).toGrows rfl
  functions s₁ declared inside s₃ := fun _ hdeclared _ hb hclose hk => by
    obtain ⟨xs, rfl, hwhole, hcovers, hentries⟩ := hb.holds
    have hd := (declares_declareFunctions _ _).apply hdeclared
    have hall :=
      ((covers_declareFunctions hdeclared hentries).trans hcovers hd.toGrows hb.keeps.toGrows).later hk.toGrows
      ((notes_closeForeigns _).apply hclose).size
    have hframe := (hb.keeps.trans hk).currentFrame.trans hd.currentFrame
    rw [hframe]
    refine ⟨hd.toGrows.trans ((hb.keeps.trans hk).trans (.withLabel s₃)).toGrows, _, ?_,
      hwhole.skipped _ _ ⟨s₃.supply.labels⟩, ?_⟩
    · simp
    · exact Covers.mono (t := s₃.withLabel) hall (by simp)
  noBodies _ := ⟨[], rfl, .nil, covers_nothing rfl, by simp⟩
  bodies s declared s₁ _ := fun _ _ hb _ hk hr => by
    obtain ⟨xs, hxs, hwhole, hcovers, x, hx, hentry⟩ := whole_body hb.holds
    obtain ⟨ys, rfl, hys, hcy, hentries⟩ := hr.holds
    refine ⟨xs ++ ys, ?_, hwhole.append hys, hcovers.trans hcy hk.toGrows hr.keeps.toGrows, fun d hm => ?_⟩
    · simp [hxs]
    · rcases List.mem_cons.mp hm with rfl | hm
      · exact ⟨x, List.mem_append_left _ hx, hentry⟩
      · obtain ⟨y, hy, hentry⟩ := hentries d hm
        exact ⟨y, List.mem_append_right _ hy, hentry⟩

lemma runCases_confines : RunCases (fun _ s a t => Confines s a.code t) (fun _ s a t => Confines s a.code t)
    (fun _ _ s a t => Confines s a.code t) (fun _ _ s a t => Confines s a.1 t) (fun _ _ _ _ => Confines)
    (fun _ => Confines) (fun _ => Confines) (fun _ => ImplementsWhole) :=
  { operandCases_confines, controlCases_confines, aggregateCases_confines, declarationCases_confines with }

end Analysis

namespace Tac.Program

def Declares (program : Tac.Program) (entry : Entry) : Prop :=
  ∃ id f, program.functions.get? id = some f ∧ f.signature.entry = some entry

/-- Control stays inside of its function. From the start of the code it comes to operations of the
main program only, and from the entry of a function to operations of that function. No path leads
to an entry, and a path through a function ends with a return. -/
structure Confined (program : Tac.Program) : Prop where
  main : ∀ i, Code.Reaches program.codes 0 i → ∀ code ∈ program.codes[i]?, ∀ op ∈ code.op?, op.1 = program.mainFrame
  placed : ∀ entry, program.Declares entry → ∃ start, Code.find? program.codes entry.label = some start
  function : ∀ entry start, program.Declares entry → Code.find? program.codes entry.label = some start →
    ∀ i, Code.Reaches program.codes start i → ∀ code ∈ program.codes[i]?, ∀ op ∈ code.op?, op.1 = entry.frame
  not_entered : ∀ entry i, program.Declares entry → Code.find? program.codes entry.label = some i →
    ¬ Code.Reaches program.codes 0 i
  not_reentered : ∀ entry start other i, program.Declares entry → Code.find? program.codes entry.label = some start →
    program.Declares other → Code.find? program.codes other.label = some i →
    ¬ Relation.TransGen (Code.Flows program.codes) start i
  returns : ∀ entry start, program.Declares entry → Code.find? program.codes entry.label = some start →
    ∀ i, Code.Reaches program.codes start i → ∃ code, program.codes[i]? = some code ∧
      ((∃ j, Code.Flows program.codes i j) ∨ code.op? = some (entry.frame, .ret))

end Tac.Program

lemma Owned.Inside.confined {program : Tac.Program} {placed : List Label} {xs : List Owned}
    (h : Owned.Inside program.mainFrame (fun _ => False) placed xs) (hcodes : xs.map Owned.code = program.codes)
    (hn : (Code.labels program.codes).Nodup)
    (hentries : ∀ entry, program.Declares entry → entry.frame ≠ program.mainFrame ∧ ∃ x ∈ xs, x.IsEntryOf entry) :
    program.Confined := by
  rw [← hcodes] at hn
  -- The item at the entry of a function, and the items that a path can come to.
  have hstart : ∀ entry start, program.Declares entry → Code.find? (xs.map Owned.code) entry.label = some start →
      ∃ x, xs[start]? = some x ∧ x.owner = entry.frame ∧ x.isEntry = true := by
    intro entry start he hf
    obtain ⟨-, x, hx, hl, howner, hentry⟩ := hentries entry he
    obtain ⟨k, hk⟩ := List.mem_iff_getElem?.mp hx
    have hcode : (xs.map Owned.code)[k]? = some x.code := by simp [hk]
    obtain rfl := Option.some.inj ((Code.find?_of_getElem? hn hcode hl).symm.trans hf)
    exact ⟨x, hk, howner, hentry⟩
  have hmain : ∀ i, Code.Reaches (xs.map Owned.code) 0 i → ∀ x, xs[i]? = some x →
      x.owner = program.mainFrame ∧ x.isEntry = false := by
    intro i hr x hx
    have hfirst : ∀ y, xs[0]? = some y → y.owner = program.mainFrame ∧ y.isEntry = false := fun y hy =>
      h.first y (by rw [List.head?_eq_getElem?]; exact hy)
    rcases Relation.reflTransGen_iff_eq_or_transGen.mp hr with rfl | hr
    · exact hfirst x hx
    · cases hxs : xs with
      | nil => simp [hxs] at hx
      | cons y ys =>
        obtain ⟨howner, -⟩ := hfirst y (by simp [hxs])
        rcases Owned.path h hn hr (x := y) (by simp [hxs]) with ⟨rfl, -⟩ | ⟨z, hz, hzowner, hzentry⟩
        · simp at hx
        · obtain rfl := Option.some.inj (hz.symm.trans hx)
          exact ⟨hzowner.trans howner, hzentry⟩
  have hinside : ∀ entry start, program.Declares entry → Code.find? (xs.map Owned.code) entry.label = some start →
      ∀ i, Relation.TransGen (Code.Flows (xs.map Owned.code)) start i →
        ∃ x, xs[i]? = some x ∧ x.owner = entry.frame ∧ x.isEntry = false := by
    intro entry start he hf i hr
    obtain ⟨x, hx, howner, -⟩ := hstart entry start he hf
    rcases Owned.path h hn hr hx with ⟨-, hm⟩ | ⟨y, hy, hyowner, hyentry⟩
    · exact absurd (howner.symm.trans hm) (hentries entry he).1
    · exact ⟨y, hy, hyowner.trans howner, hyentry⟩
  have hfunction : ∀ entry start, program.Declares entry → Code.find? (xs.map Owned.code) entry.label = some start →
      ∀ i, Code.Reaches (xs.map Owned.code) start i → ∃ x, xs[i]? = some x ∧ x.owner = entry.frame := by
    intro entry start he hf i hr
    rcases Relation.reflTransGen_iff_eq_or_transGen.mp hr with rfl | hr
    · obtain ⟨x, hx, howner, -⟩ := hstart entry _ he hf
      exact ⟨x, hx, howner⟩
    · obtain ⟨x, hx, howner, -⟩ := hinside entry start he hf i hr
      exact ⟨x, hx, howner⟩
  constructor <;> rw [← hcodes]
  · intro i hr code hc op ho
    obtain ⟨x, hx, rfl⟩ : ∃ x, xs[i]? = some x ∧ x.code = code := by simpa using hc
    exact (h.frames x (List.mem_of_getElem? hx) op ho).trans (hmain i hr x hx).1
  · intro entry he
    obtain ⟨-, x, hx, hl, -⟩ := hentries entry he
    obtain ⟨k, hk⟩ := List.mem_iff_getElem?.mp hx
    exact ⟨k, Code.find?_of_getElem? hn (by simp [hk]) hl⟩
  · intro entry start he hf i hr code hc op ho
    obtain ⟨x, hx, howner⟩ := hfunction entry start he hf i hr
    obtain rfl : x.code = code := by simpa [hx] using hc
    exact (h.frames x (List.mem_of_getElem? hx) op ho).trans howner
  · intro entry i he hf hr
    obtain ⟨x, hx, -, hentry⟩ := hstart entry i he hf
    rw [(hmain i hr x hx).2] at hentry
    cases hentry
  · intro entry start other i he hf hother hi hr
    obtain ⟨x, hx, -, hentry⟩ := hstart other i hother hi
    obtain ⟨y, hy, -, hyentry⟩ := hinside entry start he hf i hr
    obtain rfl := Option.some.inj (hy.symm.trans hx)
    rw [hyentry] at hentry
    cases hentry
  · intro entry start he hf i hr
    obtain ⟨x, hx, howner⟩ := hfunction entry start he hf i hr
    exact ⟨x.code, by simp [hx], howner ▸ Owned.exists_flows h hn hx⟩

lemma Runtime.entry_eq_none {f : Function} {id : FunctionId} (h : Runtime.table.get? id = some f) :
    f.signature.entry = none := by
  obtain ⟨function, -, rfl⟩ := Runtime.get?_table h
  cases function <;> rfl

lemma Analyzer.Covers.entries {t : Analyzer} {xs : List Owned} (h : Analyzer.initial.Covers t xs)
    (hg : Analyzer.initial.Grows t) {codes : List Code} {entry : Entry} (he : (t.program codes).Declares entry) :
    entry.frame ≠ t.mainFrame ∧ ∃ x ∈ xs, x.IsEntryOf entry := by
  obtain ⟨id, f, hf, hentry⟩ := he
  have hsize : id.position < t.functions.size := t.functions.lt_size hf
  by_cases hlt : id.position < Analyzer.initial.functions.size
  · -- A function of the runtime has no entry.
    obtain ⟨g, hr⟩ := Analyzer.initial.functions.exists_get?.mpr hlt
    obtain ⟨_, hf', _, _, rfl, -⟩ := hg.functions id g hr
    obtain rfl := Option.some.inj (hf'.symm.trans hf)
    exact absurd (hentry.symm.trans (Runtime.entry_eq_none (f := g) hr)) (by simp)
  · obtain ⟨f', entry', hf', hentry', hnew, hx⟩ := h id (Nat.le_of_not_lt hlt) hsize
    obtain rfl := Option.some.inj (hf'.symm.trans hf)
    obtain rfl := Option.some.inj (hentry'.symm.trans hentry)
    refine ⟨fun heq => ?_, hx⟩
    rw [heq, hg.mainFrame] at hnew
    exact absurd hnew (by decide)

lemma owned_analyze {expression : Expr} (h : (analyze expression).1 = []) :
    ∃ placed xs, xs.map Owned.code = (analyze expression).2.codes ∧
      Owned.Inside (analyze expression).2.mainFrame (fun _ => False) placed xs ∧
      ∀ entry, (analyze expression).2.Declares entry →
        entry.frame ≠ (analyze expression).2.mainFrame ∧ ∃ x ∈ xs, x.IsEntryOf entry := by
  have hlowered := Analysis.runCases_confines.lowerExpr expression rfl Analyzer.sound_initial h
  have hgrows := hlowered.keeps.toGrows
  obtain ⟨xs, hcodes, hinside, hcovers⟩ := hlowered.holds.owned
  have hmain : Analyzer.initial.currentFrame = (analyze expression).2.mainFrame := hgrows.mainFrame.symm
  rw [hmain] at hinside
  -- There is no loop around the main program.
  have hnone : ∀ l, Analyzer.initial.Leaves l → False := fun l hl => by cases hl
  exact ⟨_, xs, hcodes.trans (codes_analyze h).symm, hinside.mono hnone, fun entry => hcovers.entries hgrows⟩

theorem confined_analyze (expression : Expr) (h : (analyze expression).1 = []) :
    (analyze expression).2.Confined := by
  obtain ⟨placed, xs, hcodes, hinside, hentries⟩ := owned_analyze h
  exact hinside.confined hcodes (Analysis.nodup_labels_analyze h) hentries

def nestedLoop : Expr :=
  .letIn {} [.functions [.mk { name := "f" } [({ name := "n" }, { name := "int" })] none
    (.whileLoop {} (.lvalue {} (.var {} { name := "n" }))
      (.letIn {} [.functions [.mk { name := "g" } [] none (.assign {} (.var {} { name := "n" }) (.int {} 0))]]
        [.call {} { name := "g" } [], .breakLoop {}]))]]
    [.call {} { name := "f" } [.int {} 1]]

theorem nestedLoop_confined : (analyze nestedLoop).1 = [] ∧ (analyze nestedLoop).2.Confined := by
  have hclean : (analyze nestedLoop).1 = [] := List.isEmpty_iff.mp (by decide +kernel)
  exact ⟨hclean, confined_analyze nestedLoop hclean⟩

end TigerMips
