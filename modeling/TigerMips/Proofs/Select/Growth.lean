import TigerMips.Proofs.Select.Saves

/-! Selection gives frames more temps and return labels and changes nothing else in them. The temps that a code needs
go to the frame of its operation, and the return label of a call goes to the frame of the callee. -/

namespace TigerMips

lemma Arena.nodup_indices {kind : Kind} {α : Type} (arena : Arena kind α) : arena.indices.Nodup :=
  List.nodup_range.map fun _ _ h => congrArg Index.position h

def Code.frame? (c : Code) : Option FrameId := c.op?.map Prod.fst

def Code.callee? (frames : Arena .frame Frame) (c : Code) : Option FrameId :=
  (c.op?.bind (·.2.callee?)).bind fun target => (Select.entered? frames target).map Prod.fst

def Frame.extend (f : Frame) (temps : List Temp) (labels : List Label) : Frame :=
  { f with locals := f.locals ++ temps, returns := f.returns ++ labels }

namespace Frame

lemma extend_nil (f : Frame) : f.extend [] [] = f := by simp [extend]

lemma extend_extend (f : Frame) (temps temps' : List Temp) (labels labels' : List Label) :
    (f.extend temps labels).extend temps' labels' = f.extend (temps ++ temps') (labels ++ labels') := by
  simp [extend]

def Interface (frames : Arena .frame Frame) (t : Temp) : Prop :=
  ∃ id f, frames.get? id = some f ∧ (t ∈ f.params ∨ t = f.display ∨ f.returnValue = some t)

end Frame

namespace Selection

lemma get?_drawn (s : Selection) (frame : FrameId) (k l : Nat) (id : FrameId) :
    (s.drawn frame k l).frames.get? id = (s.frames.get? id).map
      (·.extend (if frame = id then s.supply.tempsTo (s.drawn frame k l).supply else []) []) := by
  by_cases hid : frame = id
  · subst hid
    simp [drawn, Arena.get?_modify, Supply.tempsTo, Frame.extend]
  · simp [drawn, Arena.get?_modify, Ne.symm hid, hid, Frame.extend]

end Selection

namespace Select

open Machine

lemma get?_returning (s : Selection) (callee id : FrameId) :
    (returning s callee).frames.get? id = (s.frames.get? id).map
      (·.extend [] (if callee = id then [⟨s.supply.labels⟩] else [])) := by
  by_cases hid : callee = id
  · subst hid
    simp [returning, Arena.get?_modify, Frame.extend, Frame.addReturn]
  · simp [returning, Arena.get?_modify, Ne.symm hid, hid, Frame.extend]

structure Widens (c : Code) (s t : Selection) : Prop where
  size : t.frames.size = s.frames.size
  temps : s.supply.temps ≤ t.supply.temps
  labels : s.supply.labels ≤ t.supply.labels
  back : (c.callee? s.frames).isSome → s.supply.labels < t.supply.labels
  owner : s.supply.temps < t.supply.temps → ∃ id, c.frame? = some id ∧ id.position < s.frames.size
  frames : ∀ id f, s.frames.get? id = some f → t.frames.get? id = some (f.extend
    (if c.frame? = some id then s.supply.tempsTo t.supply else [])
    (if c.callee? s.frames = some id then [⟨s.supply.labels⟩] else []))

variable {registers : Registers} {graph : CallGraph} {start : Nat} {c : Code} {s t : Selection} {lines : List Line}
  {saves : List CallSave}

lemma Widens.of_drawn {frame : FrameId} {tac : Tac} (hop : c.op? = some (frame, tac)) (hcall : tac.callee? = none)
    {k l : Nat} (hk : 0 < k → frame.position < s.frames.size) : Widens c s (s.drawn frame k l) := by
  have hframe : c.frame? = some frame := by simp [Code.frame?, hop]
  have hcallee : c.callee? s.frames = none := by simp [Code.callee?, hop, hcall]
  refine ⟨by simp, by simp, by simp, by simp [hcallee], fun h => ⟨frame, hframe, hk ?_⟩, fun id f hf => ?_⟩
  · simpa using h
  · simp [Selection.get?_drawn, hf, hframe, hcallee]

lemma Widens.of_call {frame : FrameId} {tac : Tac} {target : Label} {id : FrameId} {f : Frame}
    (hop : c.op? = some (frame, tac)) (hcall : tac.callee? = some target)
    (hfound : entered? s.frames target = some (id, f))
    {k l : Nat} (hk : 0 < k → frame.position < s.frames.size) : Widens c s ((returning s id).drawn frame k l) := by
  have hframe : c.frame? = some frame := by simp [Code.frame?, hop]
  have hcallee : c.callee? s.frames = some id := by simp [Code.callee?, hop, hcall, hfound]
  refine ⟨by simp [returning], by simp [returning], ?_, fun _ => ?_, fun h => ⟨frame, hframe, hk ?_⟩,
    fun other g hg => ?_⟩
  · simp only [Selection.drawn_labels, returning]
    omega
  · simp only [Selection.drawn_labels, returning]
    omega
  · simpa [returning] using h
  · simp [Selection.get?_drawn, get?_returning, hg, hframe, hcallee, Frame.extend_extend]
    rfl

def Nameable (registers : Registers) (c : Code) (s t : Selection) (temp : Temp) : Prop :=
  temp ∈ Code.temps [c] ∨ Frame.Interface s.frames temp ∨ temp ∈ registers.temps ∨ temp ∈ s.supply.tempsTo t.supply

lemma widens_operation {frame : FrameId} {tac : Tac} (hop : c.op? = some (frame, tac))
    (h : operation ⟨frame, registers⟩ graph start tac s = .ok ((lines, saves), t)) :
    Widens c s t ∧ Line.Names (Nameable registers c s t) lines := by
  let limits : Limits := ⟨Nameable registers c s t, fun _ => True⟩
  have htemps : ∀ temp ∈ tac.temps, limits.temps temp := fun temp hm =>
    Or.inl (List.mem_flatMap.mpr ⟨(frame, tac), List.mem_filterMap.mpr ⟨c, List.mem_singleton_self c, hop⟩, hm⟩)
  have hregisters : ∀ temp ∈ (Context.mk frame registers).registers.temps, limits.temps temp :=
    fun temp hm => Or.inr (Or.inr (Or.inl hm))
  have hdrawn : ∀ temp ∈ s.supply.tempsTo t.supply, limits.temps temp := fun temp hm => Or.inr (Or.inr (Or.inr hm))
  cases hcall : tac.callee? with
  | none =>
    by_cases hret : tac = .ret
    · subst hret
      obtain ⟨rfl, -, rfl⟩ := pure_pair_eq_ok.mp h
      refine ⟨?_, by simpa [Context.line, Operation.temps] using hregisters _ (by simp [Registers.temps])⟩
      simpa [Selection.drawn_zero] using Widens.of_drawn hop hcall (s := t) (k := 0) (l := 0) (by simp)
    · obtain ⟨⟨k, l, rfl, hk⟩, hp⟩ :=
        (mentions_operation hregisters graph start hcall hret htemps (fun _ _ => trivial) s.frames).apply h
      exact ⟨.of_drawn hop hcall hk, (hp hdrawn fun _ _ => trivial).1.2.names⟩
  | some entry =>
    cases tac with
    | call destination target arguments =>
      obtain ⟨⟨own, recursive⟩, u, hrun, h⟩ := bind_eq_ok.mp h
      obtain ⟨rfl, -, rfl⟩ := pure_pair_eq_ok.mp h
      obtain ⟨id, f, passing, taking, s₁, hfound, hpassing, htaking, rfl, -⟩ := call_eq_ok hrun
      have hinterface : ∀ temp, temp ∈ f.params ∨ temp = f.display ∨ f.returnValue = some temp → limits.temps temp :=
        fun temp hm => Or.inr (Or.inl ⟨id, f, (get?_of_entered? hfound).1, hm⟩)
      have hargument : ∀ access ∈ destination.toList ++ arguments, Allows limits access :=
        fun access hm temp ht => htemps temp (List.mem_flatMap.mpr ⟨access, hm, ht⟩)
      obtain ⟨⟨k, l, rfl, hk⟩, hpass⟩ := (unlabeled_passArguments hregisters
        (fun temp hm => hinterface temp (Or.inl hm))
        fun argument hm => hargument argument (by simp [hm])).apply hpassing
      obtain ⟨⟨k', l', rfl, hk'⟩, htake⟩ := (unlabeled_takeResult hregisters destination
        (fun place hm => hargument place (by simp [Option.mem_def.mp hm]))
        fun temp hm => hinterface temp (Or.inr (Or.inr hm))).apply htaking
      have hsize : (returning s id).frames.size = s.frames.size := s.frames.size_modify _ _
      simp only [Supply.mem_tempsTo, Selection.drawn_temps] at hdrawn hpass htake
      refine ⟨?_, names_callLines hregisters id _ (hinterface _ (Or.inr (Or.inl rfl))) target _
        (hpass (fun temp hm => hdrawn temp ⟨hm.1, by omega⟩) fun _ _ => trivial).2.2.names
        (htake (fun temp hm => hdrawn temp ⟨(Nat.le_add_right _ _).trans hm.1, hm.2⟩) fun _ _ => trivial).2.2.names⟩
      rw [Selection.drawn_drawn]
      refine .of_call hop rfl hfound fun hpos => ?_
      rcases Nat.eq_zero_or_pos k with rfl | hpos'
      · simpa [hsize] using hk' (by omega)
      · simpa [hsize] using hk hpos'
    | _ => cases hcall

lemma widens_code (h : code registers graph start c s = .ok ((lines, saves), t)) :
    Widens c s t ∧ Line.Names (Nameable registers c s t) lines := by
  cases c with
  | label place =>
    obtain ⟨rfl, -, rfl⟩ := pure_pair_eq_ok.mp h
    refine ⟨⟨rfl, le_rfl, le_rfl, by simp [Code.callee?, Code.op?], by simp, fun id f hf => ?_⟩, by simp⟩
    simp [Code.frame?, Code.callee?, Code.op?, Frame.extend_nil, hf]
  | op frame tac => exact widens_operation rfl h
  | labeled place frame tac =>
    obtain ⟨⟨own, ownSaves⟩, u, ho, h⟩ := bind_eq_ok.mp h
    obtain ⟨rfl, -, rfl⟩ := pure_pair_eq_ok.mp h
    obtain ⟨hwidens, hnames⟩ := widens_operation (c := .labeled place frame tac) rfl ho
    exact ⟨hwidens, by simpa using hnames⟩

lemma Widens.map_items (h : Widens c s t) {β : Type} {g : Frame → β}
    (hg : ∀ f temps labels, g (f.extend temps labels) = g f) : t.frames.items.map g = s.frames.items.map g := by
  refine List.ext_getElem? fun i => ?_
  simp only [List.getElem?_map]
  cases hf : s.frames.items[i]? with
  | none =>
    have hi : t.frames.items[i]? = none :=
      List.getElem?_eq_none_iff.mpr (h.size.trans_le (List.getElem?_eq_none_iff.mp hf))
    rw [hi]
  | some f =>
    have hi : t.frames.items[i]? = _ := h.frames ⟨i⟩ f hf
    rw [hi, Option.map_some, Option.map_some, hg]

lemma codes_concat {before : List Code} {lines own : List Line} {saves ownSaves : List CallSave} {s t u : Selection}
    (h : codes registers graph start before s = .ok ((lines, saves), t))
    (hc : code registers graph (start + lines.length) c t = .ok ((own, ownSaves), u)) :
    codes registers graph start (before ++ [c]) s = .ok ((lines ++ own, saves ++ ownSaves), u) := by
  induction before generalizing start s lines saves with
  | nil =>
    obtain ⟨rfl, rfl, rfl⟩ := pure_pair_eq_ok.mp h
    exact bind_eq_ok.mpr ⟨_, u, hc, bind_eq_ok.mpr ⟨_, u, rfl, by simp [pure_eq_ok]⟩⟩
  | cons first rest ih =>
    obtain ⟨⟨firstLines, firstSaves⟩, s₁, hf, h⟩ := bind_eq_ok.mp h
    obtain ⟨⟨others, otherSaves⟩, s₂, hr, h⟩ := bind_eq_ok.mp h
    obtain ⟨rfl, rfl, rfl⟩ := pure_pair_eq_ok.mp h
    rw [List.length_append, ← Nat.add_assoc] at hc
    exact bind_eq_ok.mpr ⟨_, s₁, hf, bind_eq_ok.mpr ⟨_, u, ih hr hc, by simp [pure_eq_ok]⟩⟩

lemma exists_code_of_mem {all : List Code} (h : codes registers graph start all s = .ok ((lines, saves), t))
    {line : Line} (hm : line ∈ lines) : ∃ position c before earlier s₁ own ownSaves s₂, all[position]? = some c ∧
      codes registers graph start (all.take position) s = .ok ((before, earlier), s₁) ∧
      code registers graph (start + before.length) c s₁ = .ok ((own, ownSaves), s₂) ∧ line ∈ own := by
  induction all generalizing start s lines saves with
  | nil =>
    obtain ⟨rfl, rfl, rfl⟩ := pure_pair_eq_ok.mp h
    cases hm
  | cons first rest ih =>
    obtain ⟨⟨firstLines, firstSaves⟩, s₁, hf, h⟩ := bind_eq_ok.mp h
    obtain ⟨⟨others, otherSaves⟩, s₂, hr, h⟩ := bind_eq_ok.mp h
    obtain ⟨rfl, rfl, rfl⟩ := pure_pair_eq_ok.mp h
    rcases List.mem_append.mp hm with hm | hm
    · exact ⟨0, first, [], [], s, firstLines, firstSaves, s₁, rfl, rfl, hf, hm⟩
    · obtain ⟨position, c, before, earlier, t₁, own, ownSaves, t₂, hc, hb, ho, hm⟩ := ih hr hm
      refine ⟨position + 1, c, firstLines ++ before, firstSaves ++ earlier, t₁, own, ownSaves, t₂, hc,
        bind_eq_ok.mpr ⟨_, s₁, hf, bind_eq_ok.mpr ⟨_, t₁, hb, rfl⟩⟩, ?_, hm⟩
      rwa [List.length_append, ← Nat.add_assoc]

end Select

open Machine Select

namespace Tac.Program

def stateAt (program : Tac.Program) (position : Nat) : Except Failure Selection := do
  let (registers, s) ← reserve program.mainFrame ⟨program.frames, program.supply⟩
  let (_, t) ← Select.codes registers program.callGraph 0 (program.codes.take position) s
  return t

def supplyAt (program : Tac.Program) (position : Nat) : Supply :=
  match program.stateAt position with
  | .ok s => s.supply
  | .error _ => program.supply

def drawnAt (program : Tac.Program) (position : Nat) : List Temp :=
  (program.supplyAt position).tempsTo (program.supplyAt (position + 1))

def backAt (program : Tac.Program) (position : Nat) : Label := ⟨(program.supplyAt position).labels⟩

def positionsOf (program : Tac.Program) (id : FrameId) : List Nat :=
  (List.range program.codes.length).filter fun p => program.codes[p]?.bind Code.frame? = some id

def callsOf (program : Tac.Program) (id : FrameId) : List Nat :=
  (List.range program.codes.length).filter fun p => program.codes[p]?.bind (Code.callee? program.frames) = some id

def added (program : Tac.Program) (registers : Registers) (id : FrameId) : List Temp :=
  (if id = program.mainFrame then registers.temps else []) ++ (program.positionsOf id).flatMap program.drawnAt

lemma eq_of_between {f : Nat → Nat} {last p q x : Nat} (hf : ∀ {i j}, i ≤ j → j ≤ last → f i ≤ f j) (hp : p < last)
    (hq : q < last) (hpx : f p ≤ x ∧ x < f (p + 1)) (hqx : f q ≤ x ∧ x < f (q + 1)) : p = q := by
  by_contra hne
  rcases Nat.lt_or_gt_of_ne hne with hlt | hlt
  · exact absurd (hqx.1.trans_lt hpx.2) (Nat.not_lt.mpr (hf hlt hq.le))
  · exact absurd (hpx.1.trans_lt hqx.2) (Nat.not_lt.mpr (hf hlt hp.le))

structure Trace (program : Tac.Program) (state : Nat → Selection) : Prop where
  start : state 0 = Selection.drawn ⟨program.frames, program.supply⟩ program.mainFrame 7 0
  reached : ∀ n ≤ program.codes.length, program.stateAt n = .ok (state n)
  widens : ∀ p c, program.codes[p]? = some c → Widens c (state p) (state (p + 1))

variable {program : Tac.Program} {machine : Machine.Program} {state : Nat → Selection}

lemma exists_trace (h : program.generate = .ok machine) : ∃ state, program.Trace state ∧
    machine.frames = (state program.codes.length).frames ∧
    machine.registers.temps = program.supply.tempsTo (state 0).supply ∧
    ∀ i, .instruction i ∈ machine.lines → ∃ p c, program.codes[p]? = some c ∧
      ∀ temp ∈ i.operation.temps, Nameable machine.registers c (state p) (state (p + 1)) temp := by
  obtain ⟨s, t, hreserve, hcodes, hframes⟩ := generate_eq_ok_frames h
  have hstate : ∀ {n lines saves u}, Select.codes machine.registers program.callGraph 0 (program.codes.take n) s =
      .ok ((lines, saves), u) → program.stateAt n = .ok u := fun hrun => by
    simp only [stateAt, hreserve, hrun, bind, Except.bind]
    rfl
  let state := fun n => match program.stateAt n with
    | .ok u => u
    | .error _ => s
  have hat : ∀ {n u}, program.stateAt n = .ok u → state n = u := fun hu => by simp only [state, hu]
  have hnext : ∀ {p c before earlier s₁ own ownSaves s₂}, program.codes[p]? = some c →
      Select.codes machine.registers program.callGraph 0 (program.codes.take p) s = .ok ((before, earlier), s₁) →
      code machine.registers program.callGraph (0 + before.length) c s₁ = .ok ((own, ownSaves), s₂) →
      state p = s₁ ∧ state (p + 1) = s₂ := fun hc hbefore hown => by
    have hafter := codes_concat hbefore hown
    rw [← Option.toList_some, ← hc, ← List.take_add_one] at hafter
    exact ⟨hat (hstate hbefore), hat (hstate hafter)⟩
  have hlast : program.stateAt program.codes.length = .ok t := hstate (by rwa [List.take_length])
  refine ⟨state, ⟨(hat (hstate (n := 0) rfl)).trans (reserve_eq_ok hreserve).2, fun n hn => ?_, fun p c hc => ?_⟩,
    by rw [hat hlast, hframes], ?_, fun i hi => ?_⟩
  · rcases Nat.eq_or_lt_of_le hn with rfl | hlt
    · rw [hat hlast, hlast]
    · obtain ⟨_, _, s₁, _, _, _, hbefore, -⟩ := codes_getElem? hcodes (List.getElem?_eq_getElem hlt)
      rw [hat (hstate hbefore), hstate hbefore]
  · obtain ⟨before, earlier, s₁, own, ownSaves, s₂, hbefore, hown, -⟩ := codes_getElem? hcodes hc
    obtain ⟨hp, hp'⟩ := hnext hc hbefore hown
    rw [hp, hp']
    exact (widens_code hown).1
  · rw [hat (hstate (n := 0) rfl), (reserve_eq_ok hreserve).1, (reserve_eq_ok hreserve).2]
    simp [Registers.temps, Supply.tempsTo, List.range']
  · obtain ⟨p, c, before, earlier, s₁, own, ownSaves, s₂, hc, hbefore, hown, hm⟩ := exists_code_of_mem hcodes hi
    obtain ⟨hp, hp'⟩ := hnext hc hbefore hown
    rw [← hp, ← hp'] at hown
    exact ⟨p, c, hc, (widens_code hown).2 i hm⟩

lemma exists_mainFrame (h : program.generate = .ok machine) :
    ∃ main, program.frames.get? program.mainFrame = some main := by
  obtain ⟨s, t, hreserve, -⟩ := generate_eq_ok_frames h
  obtain ⟨_, _, hfirst, -⟩ := bind_eq_ok.mp hreserve
  exact program.frames.exists_get?.mpr (newTempIn_eq_ok.mp hfirst).1

namespace Trace

variable (h : program.Trace state) {n p q : Nat} {c : Code} {id : FrameId} {f : Frame}

include h

lemma supplyAt_eq (hn : n ≤ program.codes.length) : program.supplyAt n = (state n).supply := by
  simp only [supplyAt, h.reached n hn]

lemma widens_getElem (hp : p < program.codes.length) : Widens program.codes[p] (state p) (state (p + 1)) :=
  h.widens p _ (List.getElem?_eq_getElem hp)

lemma supply_mono (hpq : p ≤ q) (hq : q ≤ program.codes.length) :
    (state p).supply.temps ≤ (state q).supply.temps ∧ (state p).supply.labels ≤ (state q).supply.labels := by
  induction q, hpq using Nat.le_induction with
  | base => exact ⟨le_rfl, le_rfl⟩
  | succ q hpq ih =>
    have hstep := h.widens_getElem hq
    exact ⟨(ih (by omega)).1.trans hstep.temps, (ih (by omega)).2.trans hstep.labels⟩

lemma size_eq (hn : n ≤ program.codes.length) : (state n).frames.size = program.frames.size := by
  induction n with
  | zero => simp [h.start]
  | succ n ih => rw [(h.widens_getElem hn).size, ih (by omega)]

lemma entries_eq (hn : n ≤ program.codes.length) : entries (state n).frames = entries program.frames := by
  induction n with
  | zero => rw [h.start, entries_drawn]
  | succ n ih => exact ((h.widens_getElem hn).map_items fun _ _ _ => rfl).trans (ih (by omega))

lemma callee?_eq (hn : n ≤ program.codes.length) (c : Code) :
    c.callee? (state n).frames = c.callee? program.frames := by
  simp only [Code.callee?, map_fst_entered?, h.entries_eq hn]

lemma get?_frames {registers : Registers} (hregisters : registers.temps = program.supply.tempsTo (state 0).supply)
    (hf : program.frames.get? id = some f) (hn : n ≤ program.codes.length) :
    (state n).frames.get? id = some (f.extend
      ((if id = program.mainFrame then registers.temps else []) ++
        ((List.range n).filter fun p => program.codes[p]?.bind Code.frame? = some id).flatMap program.drawnAt)
      (((List.range n).filter fun p => program.codes[p]?.bind (Code.callee? program.frames) = some id).map
        program.backAt)) := by
  induction n with
  | zero =>
    rw [h.start] at hregisters ⊢
    simp [Selection.get?_drawn, hf, hregisters, eq_comm]
  | succ n ih =>
    have hstep := (h.widens_getElem hn).frames id _ (ih (by omega))
    have hget := List.getElem?_eq_getElem hn
    have hdrawn : (state n).supply.tempsTo (state (n + 1)).supply = program.drawnAt n := by
      rw [drawnAt, h.supplyAt_eq hn, h.supplyAt_eq (Nat.le_of_succ_le hn)]
    have hback : (⟨(state n).supply.labels⟩ : Label) = program.backAt n := by
      rw [backAt, h.supplyAt_eq (Nat.le_of_succ_le hn)]
    have htemps : ([n].filter fun p => program.codes[p]?.bind Code.frame? = some id).flatMap program.drawnAt =
        if program.codes[n].frame? = some id then program.drawnAt n else [] := by
      split <;> simp [*]
    have hlabels : ([n].filter fun p => program.codes[p]?.bind (Code.callee? program.frames) = some id).map
        program.backAt = if program.codes[n].callee? program.frames = some id then [program.backAt n] else [] := by
      split <;> simp [*]
    rw [hstep, h.callee?_eq (Nat.le_of_succ_le hn), hdrawn, hback, Frame.extend_extend, List.append_assoc,
      List.range_succ, List.filter_append, List.filter_append, List.flatMap_append, List.map_append, htemps, hlabels]

lemma exists_frame (hn : n ≤ program.codes.length) {registers : Registers}
    (hregisters : registers.temps = program.supply.tempsTo (state 0).supply) {g : Frame}
    (hg : (state n).frames.get? id = some g) :
    ∃ f temps labels, program.frames.get? id = some f ∧ g = f.extend temps labels := by
  obtain ⟨f, hf⟩ := program.frames.exists_get?.mpr (h.size_eq hn ▸ (state n).frames.lt_size hg)
  exact ⟨f, _, _, hf, Option.some.inj (hg.symm.trans (h.get?_frames hregisters hf hn))⟩

lemma interface (hn : n ≤ program.codes.length) {registers : Registers}
    (hregisters : registers.temps = program.supply.tempsTo (state 0).supply) {temp : Temp}
    (ht : Frame.Interface (state n).frames temp) : Frame.Interface program.frames temp := by
  obtain ⟨id, g, hg, hm⟩ := ht
  obtain ⟨f, temps, labels, hf, rfl⟩ := h.exists_frame hn hregisters hg
  exact ⟨id, f, hf, hm⟩

lemma mem_drawnAt (hp : p < program.codes.length) {temp : Temp} (ht : temp ∈ program.drawnAt p) :
    (state p).supply.temps ≤ temp.number ∧ temp.number < (state (p + 1)).supply.temps := by
  rw [drawnAt, h.supplyAt_eq hp.le, h.supplyAt_eq hp] at ht
  exact Supply.mem_tempsTo.mp ht

lemma drawnAt_inj (hp : p < program.codes.length) (hq : q < program.codes.length) {temp : Temp}
    (htp : temp ∈ program.drawnAt p) (htq : temp ∈ program.drawnAt q) : p = q :=
  eq_of_between (fun hij hj => (h.supply_mono hij hj).1) hp hq (h.mem_drawnAt hp htp) (h.mem_drawnAt hq htq)

end Trace

lemma mem_positionsOf {id : FrameId} {p : Nat} :
    p ∈ program.positionsOf id ↔ p < program.codes.length ∧ program.codes[p]?.bind Code.frame? = some id := by
  simp [positionsOf]

lemma mem_callsOf {id : FrameId} {p : Nat} : p ∈ program.callsOf id ↔
    p < program.codes.length ∧ program.codes[p]?.bind (Code.callee? program.frames) = some id := by
  simp [callsOf]

lemma Trace.mem_added {registers : Registers} {id : FrameId} {temp : Temp} (h : program.Trace state)
    (hregisters : registers.temps = program.supply.tempsTo (state 0).supply) (ht : temp ∈ program.added registers id) :
    (id = program.mainFrame ∧ program.supply.temps ≤ temp.number ∧ temp.number < (state 0).supply.temps) ∨
      ∃ p ∈ program.positionsOf id, temp ∈ program.drawnAt p ∧ (state 0).supply.temps ≤ temp.number := by
  rcases List.mem_append.mp ht with ht | ht
  · split at ht
    · rw [hregisters] at ht
      exact Or.inl ⟨‹_›, Supply.mem_tempsTo.mp ht⟩
    · cases ht
  · obtain ⟨p, hp, ht⟩ := List.mem_flatMap.mp ht
    have hlt := (mem_positionsOf.mp hp).1
    exact Or.inr ⟨p, hp, ht, (h.supply_mono (Nat.zero_le p) hlt.le).1.trans (h.mem_drawnAt hlt ht).1⟩

lemma Trace.nodup_added {registers : Registers} (h : program.Trace state)
    (hregisters : registers.temps = program.supply.tempsTo (state 0).supply) (id : FrameId) :
    (program.added registers id).Nodup := by
  have hpositions : (program.positionsOf id).Nodup := List.nodup_range.filter _
  refine List.nodup_append'.mpr ⟨?_, List.nodup_flatMap.mpr ⟨fun p _ => Supply.nodup_tempsTo _ _, ?_⟩,
    fun temp ht ht' => ?_⟩
  · split
    · exact hregisters ▸ Supply.nodup_tempsTo _ _
    · exact List.nodup_nil
  · refine hpositions.imp_of_mem fun hp hq hne temp htp htq => hne ?_
    exact h.drawnAt_inj (mem_positionsOf.mp hp).1 (mem_positionsOf.mp hq).1 htp htq
  · obtain ⟨p, hp, htp⟩ := List.mem_flatMap.mp ht'
    have hlt := (mem_positionsOf.mp hp).1
    have hle := (h.supply_mono (Nat.zero_le p) hlt.le).1.trans (h.mem_drawnAt hlt htp).1
    split at ht
    · rw [hregisters] at ht
      have := (Supply.mem_tempsTo.mp ht).2
      omega
    · cases ht

lemma Trace.disjoint_added {registers : Registers} (h : program.Trace state)
    (hregisters : registers.temps = program.supply.tempsTo (state 0).supply) {id id' : FrameId} (hne : id ≠ id') :
    List.Disjoint (program.added registers id) (program.added registers id') := by
  intro temp ht ht'
  rcases h.mem_added hregisters ht with ⟨rfl, -, hlt⟩ | ⟨p, hp, htp, hle⟩ <;>
    rcases h.mem_added hregisters ht' with ⟨rfl, -, hlt'⟩ | ⟨q, hq, htq, hle'⟩
  · exact hne rfl
  · omega
  · omega
  · obtain ⟨hp, hframe⟩ := mem_positionsOf.mp hp
    obtain ⟨hq, hframe'⟩ := mem_positionsOf.mp hq
    obtain rfl := h.drawnAt_inj hp hq htp htq
    exact hne (Option.some.inj (hframe.symm.trans hframe'))

lemma Trace.backAt_between (h : program.Trace state) {id : FrameId} {p : Nat} (hp : p ∈ program.callsOf id) :
    (state p).supply.labels ≤ (program.backAt p).number ∧ (program.backAt p).number <
      (state (p + 1)).supply.labels := by
  obtain ⟨hlt, hcallee⟩ := mem_callsOf.mp hp
  rw [List.getElem?_eq_getElem hlt, Option.bind_some] at hcallee
  rw [backAt, h.supplyAt_eq hlt.le]
  exact ⟨le_rfl, (h.widens_getElem hlt).back (by simp [h.callee?_eq hlt.le, hcallee])⟩

lemma Trace.backAt_inj (h : program.Trace state) {id id' : FrameId} {p q : Nat} (hp : p ∈ program.callsOf id)
    (hq : q ∈ program.callsOf id') (he : program.backAt p = program.backAt q) : p = q :=
  eq_of_between (fun hij hj => (h.supply_mono hij hj).2) (mem_callsOf.mp hp).1 (mem_callsOf.mp hq).1
    (h.backAt_between hp) (he ▸ h.backAt_between hq)

structure Grown (program : Tac.Program) (machine : Machine.Program) : Prop where
  size : machine.frames.size = program.frames.size
  frames : ∀ id f, program.frames.get? id = some f → machine.frames.get? id = some { f with
    locals := f.locals ++ program.added machine.registers id
    returns := f.returns ++ (program.callsOf id).map program.backAt }
  distinct : (program.frames.indices.flatMap (program.added machine.registers)).Nodup
  new : ∀ id, ∀ temp ∈ program.added machine.registers id, program.supply.temps ≤ temp.number
  distinct_backs : ((program.frames.indices.flatMap program.callsOf).map program.backAt).Nodup
  new_backs : ∀ id, ∀ p ∈ program.callsOf id,
    program.supply.labels ≤ (program.backAt p).number ∧ (program.backAt p).number < (program.supplyAt (p + 1)).labels
  named : ∀ i, .instruction i ∈ machine.lines → ∀ temp ∈ i.operation.temps,
    temp ∈ Code.temps program.codes ∨ Frame.Interface program.frames temp ∨
      ∃ id f, program.frames.get? id = some f ∧ temp ∈ program.added machine.registers id

/-- Instruction selection changes frames only in that it adds new temps and return labels to them, and instructions
name no temps but these and those of the three-address code. -/
theorem grown_generate (h : program.generate = .ok machine) : program.Grown machine := by
  obtain ⟨state, htrace, hframes, hregisters, hnamed⟩ := exists_trace h
  obtain ⟨main, hmain⟩ := exists_mainFrame h
  refine ⟨?_, fun id f hf => ?_, ?_, fun id temp ht => ?_, ?_, fun id p hp => ?_, fun i hi temp ht => ?_⟩
  · rw [hframes, htrace.size_eq le_rfl]
  · rw [hframes, htrace.get?_frames hregisters hf le_rfl]
    rfl
  · refine List.nodup_flatMap.mpr ⟨fun id _ => htrace.nodup_added hregisters id, ?_⟩
    exact program.frames.nodup_indices.imp fun hne => htrace.disjoint_added hregisters hne
  · have hstart : program.supply.temps ≤ (state 0).supply.temps := by simp [htrace.start]
    rcases htrace.mem_added hregisters ht with ⟨-, hle, -⟩ | ⟨_, _, _, hle⟩
    · exact hle
    · exact hstart.trans hle
  · refine List.Nodup.map_on (fun p hp q hq he => ?_) (List.nodup_flatMap.mpr ⟨fun id _ => ?_, ?_⟩)
    · obtain ⟨id, -, hp⟩ := List.mem_flatMap.mp hp
      obtain ⟨id', -, hq⟩ := List.mem_flatMap.mp hq
      exact htrace.backAt_inj hp hq he
    · exact List.nodup_range.filter _
    · refine program.frames.nodup_indices.imp fun hne p hp hp' => hne ?_
      exact Option.some.inj ((mem_callsOf.mp hp).2.symm.trans (mem_callsOf.mp hp').2)
  · have hstart : program.supply.labels ≤ (state 0).supply.labels := by simp [htrace.start]
    have hlt := (mem_callsOf.mp hp).1
    obtain ⟨hle, hnext⟩ := htrace.backAt_between hp
    rw [htrace.supplyAt_eq hlt]
    exact ⟨(hstart.trans (htrace.supply_mono (Nat.zero_le p) hlt.le).2).trans hle, hnext⟩
  · obtain ⟨p, c, hc, hnameable⟩ := hnamed i hi
    have hlt := (List.getElem?_eq_some_iff.mp hc).1
    rcases hnameable temp ht with hown | hinterface | hregister | hdrawn
    · obtain ⟨op, hop, hown⟩ := List.mem_flatMap.mp hown
      have hsub : [c] ⊆ program.codes := List.cons_subset.mpr ⟨List.mem_of_getElem? hc, List.nil_subset _⟩
      exact Or.inl (List.mem_flatMap.mpr ⟨op, List.filterMap_subset _ hsub hop, hown⟩)
    · exact Or.inr (Or.inl (htrace.interface hlt.le hregisters hinterface))
    · exact Or.inr (Or.inr ⟨program.mainFrame, _, hmain, by simp [added, hregister]⟩)
    · have hbounds := Supply.mem_tempsTo.mp hdrawn
      obtain ⟨id, hframe, hid⟩ := (htrace.widens p c hc).owner (by omega)
      obtain ⟨f, hf⟩ := program.frames.exists_get?.mpr (htrace.size_eq hlt.le ▸ hid)
      refine Or.inr (Or.inr ⟨id, f, hf, List.mem_append_right _ (List.mem_flatMap.mpr ⟨p, ?_, ?_⟩)⟩)
      · exact mem_positionsOf.mpr ⟨hlt, by rw [hc, Option.bind_some, hframe]⟩
      · rwa [drawnAt, htrace.supplyAt_eq hlt.le, htrace.supplyAt_eq hlt]

theorem crossedCalls_grown : crossedCalls.drawnAt 2 = [⟨13⟩] ∧
    (crossedCalls.callsOf ⟨1⟩).map crossedCalls.backAt = [⟨4⟩, ⟨6⟩] ∧
    ∃ machine, crossedCalls.generate = .ok machine ∧ crossedCalls.Grown machine := by
  refine ⟨by decide +kernel, by decide +kernel, ?_⟩
  have hok : crossedCalls.generate.isOk = true := by decide +kernel
  cases h : crossedCalls.generate with
  | error failure =>
    rw [h] at hok
    cases hok
  | ok machine => exact ⟨machine, rfl, grown_generate h⟩

end Tac.Program

end TigerMips
