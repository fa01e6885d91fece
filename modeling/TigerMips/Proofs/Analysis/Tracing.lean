import TigerMips.Proofs.Analysis.Drawn
import TigerMips.Proofs.Analysis.Storage

/-! The code of a program without errors. Each operation reads and writes what it may use where it stands, the tables of
calls record these operations and nothing else, and labels and returns are the ones that have been drawn and
declared. -/

namespace TigerMips

namespace Tac

def accesses : Tac → List Access
  | move destination source => [destination, source]
  | binary _ destination lhs rhs => [destination, lhs, rhs]
  | negate destination operand => [destination, operand]
  | call destination _ arguments => destination.toList ++ arguments
  | callRuntime destination _ arguments => destination.toList ++ arguments
  | ret | goto _ => []
  | branch _ lhs rhs _ => [lhs, rhs]

lemma temps_eq_flatMap (tac : Tac) : tac.temps = tac.accesses.flatMap Access.temps := by
  cases tac <;> simp [temps, accesses]

def runtime? : Tac → Option String
  | callRuntime _ name _ => some name
  | _ => none

end Tac

namespace Code

@[simp] lemma ops_nil : ops [] = [] := rfl

@[simp] lemma ops_append (first second : List Code) : ops (first ++ second) = ops first ++ ops second := by simp [ops]

lemma returns_eq_zero {codes : List Code} {frame : FrameId} (h : ∀ op ∈ ops codes, op.2 ≠ .ret) :
    returns codes frame = 0 :=
  List.count_eq_zero.mpr fun hm => h _ hm rfl

lemma mem_ops_append {first second : List Code} {op : FrameId × Tac} :
    op ∈ ops (first ++ second) ↔ op ∈ ops first ∨ op ∈ ops second := by simp

@[simp] lemma ops_label (place : Label) (rest : List Code) : ops (label place :: rest) = ops rest := rfl

@[simp] lemma ops_op (frame : FrameId) (tac : Tac) (rest : List Code) :
    ops (op frame tac :: rest) = (frame, tac) :: ops rest := rfl

@[simp] lemma ops_labeled (place : Label) (frame : FrameId) (tac : Tac) (rest : List Code) :
    ops (labeled place frame tac :: rest) = (frame, tac) :: ops rest := rfl

end Code

namespace Frame

def Stores (frames : Arena .frame Frame) (id : FrameId) (temp : Temp) : Prop :=
  ∃ frame, frames.get? id = some frame ∧ temp ∈ frame.locals

def EntersAt (frames : Arena .frame Frame) (id : FrameId) (label : Label) : Prop :=
  ∃ frame, frames.get? id = some frame ∧ frame.entry = some label

variable {frames frames' : Arena .frame Frame} {id : FrameId}

lemma Stores.mono {temp : Temp} (h : Stores frames id temp) (hf : frames.Grows Frame.Grows frames') :
    Stores frames' id temp := by
  obtain ⟨frame, hframe, hm⟩ := h
  obtain ⟨_, hframe', more, rfl⟩ := hf id frame hframe
  exact ⟨_, hframe', List.mem_append_left _ hm⟩

lemma EntersAt.mono {label : Label} (h : EntersAt frames id label) (hf : frames.Grows Frame.Grows frames') :
    EntersAt frames' id label := by
  obtain ⟨frame, hframe, he⟩ := h
  obtain ⟨_, hframe', more, rfl⟩ := hf id frame hframe
  exact ⟨_, hframe', he⟩

end Frame

namespace Analyzer

def Holds (s : Analyzer) (frame : FrameId) (temp : Temp) : Prop :=
  Frame.Stores s.frames frame temp ∧ temp.number < s.supply.temps

structure Opens (s : Analyzer) (declared : Analysis.Declared) : Prop where
  parent : ∃ frame, s.frames.get? declared.entry.frame = some frame ∧ frame.parent = some s.currentFrame
  formals : ∀ temp ∈ declared.entry.formals, s.Holds declared.entry.frame temp
  result : ∀ temp ∈ declared.entry.resultPlace, s.Holds declared.entry.frame temp
  function : ∃ f, s.functions.get? declared.id = some f ∧ f.signature.entry = some declared.entry

/-- The codes between two states use what they may. The calls among them are the ones that have been recorded, labels
are placed at most as often as they are drawn, and there is a return for each function that has been declared. Functions
that are owed a body have been declared before. -/
structure Traced (P : Analyzer → FrameId → Access → Prop) (owed : List Analysis.Declared) (s t : Analyzer)
    (codes : List Code) : Prop where
  selectable : ∀ op ∈ Code.ops codes, op.1.position < t.frames.size ∧ op.2.Selectable t.frames
  accesses : ∀ op ∈ Code.ops codes, ∀ access ∈ op.2.accesses, P t op.1 access
  calls : ∀ op ∈ Code.ops codes, ∀ label ∈ op.2.callee?,
    ∃ callee, (op.1, callee) ∈ t.callGraph.edges ∧ Frame.EntersAt t.frames callee label
  edges : ∀ edge ∈ t.callGraph.edges, edge ∈ s.callGraph.edges ∨
    ∃ op ∈ Code.ops codes, op.1 = edge.1 ∧ ∃ label ∈ op.2.callee?, Frame.EntersAt t.frames edge.2 label
  names : ∀ op ∈ Code.ops codes, ∀ name ∈ op.2.runtime?, name ∈ t.runtime
  runtime : ∀ name ∈ t.runtime, name ∈ s.runtime ∨ ∃ op ∈ Code.ops codes, name ∈ op.2.runtime?
  labels : ∀ l, Code.placings codes l + t.budget l ≤ (owed.map (·.entry.label)).count l + s.budget l
  returns : ∀ frame, Function.owners t.functions frame + Analysis.groupOwners owed frame =
    Function.owners s.functions frame + Code.returns codes frame

def Plain (P : Analyzer → FrameId → Access → Prop) (t : Analyzer) (op : FrameId × Tac) : Prop :=
  (op.1.position < t.frames.size ∧ op.2.Selectable t.frames) ∧ (∀ access ∈ op.2.accesses, P t op.1 access) ∧
    op.2.callee? = none ∧ op.2.runtime? = none ∧ op.2 ≠ .ret

structure Records (declared : List Analysis.Declared) (s t : Analyzer) : Prop where
  callGraph : t.callGraph = s.callGraph
  runtime : t.runtime = s.runtime
  owners : ∀ frame, Function.owners t.functions frame =
    Function.owners s.functions frame + Analysis.groupOwners declared frame

abbrev Unrecorded : Analyzer → Analyzer → Prop := Records []

variable {s t u : Analyzer} {declared : Analysis.Declared}

lemma Unrecorded.refl (s : Analyzer) : s.Unrecorded s := ⟨rfl, rfl, fun _ => rfl⟩

lemma Records.trans {first second : List Analysis.Declared} (h : s.Records first t) (h' : t.Records second u) :
    s.Records (first ++ second) u :=
  ⟨h'.callGraph.trans h.callGraph, h'.runtime.trans h.runtime, fun frame => by
    rw [h'.owners, h.owners, Analysis.groupOwners, Analysis.groupOwners, Analysis.groupOwners, List.countP_append,
      Nat.add_assoc]⟩

lemma Holds.mono {frame : FrameId} {temp : Temp} (h : s.Holds frame temp) (hg : s.Grows t) : t.Holds frame temp :=
  ⟨h.1.mono hg.frames, h.2.trans_le hg.temps⟩

lemma Opens.mono (h : s.Opens declared) (hg : s.Grows t) (hc : t.currentFrame = s.currentFrame) : t.Opens declared := by
  refine ⟨?_, fun temp hm => (h.formals temp hm).mono hg, fun temp hm => (h.result temp hm).mono hg, ?_⟩
  · obtain ⟨frame, hframe, hp⟩ := h.parent
    obtain ⟨_, hframe', more, rfl⟩ := hg.frames _ frame hframe
    exact ⟨_, hframe', hc ▸ hp⟩
  · obtain ⟨f, hf, he⟩ := h.function
    obtain ⟨_, hf', calls, names, rfl, -⟩ := hg.functions _ f hf
    exact ⟨_, hf', he⟩

lemma stores_withTemp (hs : s.Sound) : Frame.Stores s.withTemp.frames s.currentFrame ⟨s.supply.temps⟩ := by
  obtain ⟨frame, hframe⟩ := s.frames.exists_get?.mpr hs.currentFrame
  refine ⟨frame.addLocal ⟨s.supply.temps⟩, ?_, by simp [Frame.addLocal]⟩
  exact (Arena.get?_modify _ _ _ _).trans (by simp [hframe])

lemma holds_withTemp (hs : s.Sound) : s.withTemp.Holds s.currentFrame ⟨s.supply.temps⟩ :=
  ⟨stores_withTemp hs, Nat.lt_succ_self _⟩

namespace Traced

variable {P : Analyzer → FrameId → Access → Prop} {owed more : List Analysis.Declared} {first second : List Code}

lemma append (h : Traced P owed s t first) (h' : Traced P more t u second) (hg : t.Grows u)
    (hp : ∀ {frame access}, P t frame access → P u frame access) : Traced P (owed ++ more) s u (first ++ second) where
  selectable op hm := by
    rcases Code.mem_ops_append.mp hm with hm | hm
    · obtain ⟨hframe, hselectable⟩ := h.selectable op hm
      exact ⟨hframe.trans_le hg.frames.size_le, hselectable.of_entries (hg.frames.mono fun _ _ => Frame.Grows.alike)⟩
    · exact h'.selectable op hm
  accesses op hm access ha := by
    rcases Code.mem_ops_append.mp hm with hm | hm
    · exact hp (h.accesses op hm access ha)
    · exact h'.accesses op hm access ha
  calls op hm label hl := by
    rcases Code.mem_ops_append.mp hm with hm | hm
    · obtain ⟨callee, he, henters⟩ := h.calls op hm label hl
      exact ⟨callee, hg.callGraph.subset he, henters.mono hg.frames⟩
    · exact h'.calls op hm label hl
  edges edge hm := by
    rcases h'.edges edge hm with hm | ⟨op, hop, hedge⟩
    · rcases h.edges edge hm with hm | ⟨op, hop, hcaller, label, hl, henters⟩
      · exact Or.inl hm
      · exact Or.inr ⟨op, Code.mem_ops_append.mpr (Or.inl hop), hcaller, label, hl, henters.mono hg.frames⟩
    · exact Or.inr ⟨op, Code.mem_ops_append.mpr (Or.inr hop), hedge⟩
  names op hm name hn := by
    rcases Code.mem_ops_append.mp hm with hm | hm
    · exact hg.runtime (h.names op hm name hn)
    · exact h'.names op hm name hn
  runtime name hm := by
    rcases h'.runtime name hm with hm | ⟨op, hop, hn⟩
    · rcases h.runtime name hm with hm | ⟨op, hop, hn⟩
      · exact Or.inl hm
      · exact Or.inr ⟨op, Code.mem_ops_append.mpr (Or.inl hop), hn⟩
    · exact Or.inr ⟨op, Code.mem_ops_append.mpr (Or.inr hop), hn⟩
  labels l := by
    have hfirst := h.labels l
    have hsecond := h'.labels l
    simp only [List.map_append, List.count_append, Code.placings_append]
    omega
  returns frame := by
    have hfirst := h.returns frame
    have hsecond := h'.returns frame
    simp only [Analysis.groupOwners, List.countP_append, Code.returns_append] at *
    omega

lemma perm (h : Traced P owed s t first) (hp : second.Perm first) : Traced P owed s t second := by
  have hops : (Code.ops second).Perm (Code.ops first) := hp.filterMap _
  refine ⟨fun op hm => h.selectable op (hops.subset hm), fun op hm => h.accesses op (hops.subset hm),
    fun op hm => h.calls op (hops.subset hm), fun edge hm => (h.edges edge hm).imp_right fun ⟨op, hop, he⟩ =>
      ⟨op, hops.symm.subset hop, he⟩, fun op hm => h.names op (hops.subset hm), fun name hm =>
    (h.runtime name hm).imp_right fun ⟨op, hop, hn⟩ => ⟨op, hops.symm.subset hop, hn⟩, fun l => ?_, fun frame => ?_⟩
  · have hlabels : (Code.labels second).Perm (Code.labels first) := hp.filterMap _
    rw [Code.placings, hlabels.count_eq]
    exact h.labels l
  · rw [Code.returns, hops.count_eq]
    exact h.returns frame

lemma plain (hc : s.Unrecorded t) (hl : ∀ l, Code.placings first l + t.budget l ≤ s.budget l)
    (ho : ∀ op ∈ Code.ops first, Plain P t op) : Traced P [] s t first where
  selectable op hm := (ho op hm).1
  accesses op hm := (ho op hm).2.1
  calls op hm label hl := by simp [(ho op hm).2.2.1] at hl
  edges edge hm := Or.inl (hc.callGraph ▸ hm)
  names op hm name hl := by simp [(ho op hm).2.2.2.1] at hl
  runtime name hm := Or.inl (hc.runtime ▸ hm)
  labels l := by simpa using hl l
  returns frame := by
    rw [Code.returns_eq_zero fun op hm => (ho op hm).2.2.2.2]
    exact hc.owners frame

lemma nil (hc : s.Unrecorded t) (hl : ∀ l, t.budget l ≤ s.budget l) : Traced P [] s t [] :=
  .plain hc (by simpa using hl) (by simp [Code.ops])

lemma callRuntime {name : String} {destination : Option Access} {arguments : List Access} {frame : FrameId}
    (hc : s.Unrecorded t) (hl : t.budget = s.budget) (hf : frame.position < t.frames.size)
    (hs : (Tac.callRuntime destination name arguments).Selectable t.frames)
    (ha : ∀ access ∈ destination.toList ++ arguments, P (t.usingRuntime name) frame access) :
    Traced P [] s (t.usingRuntime name) [.op frame (.callRuntime destination name arguments)] where
  selectable op hm := by
    obtain rfl := List.mem_singleton.mp hm
    exact ⟨hf, hs⟩
  accesses op hm := by
    obtain rfl := List.mem_singleton.mp hm
    exact ha
  calls op hm label hl := by
    obtain rfl := List.mem_singleton.mp hm
    cases hl
  edges edge hm := Or.inl (hc.callGraph ▸ hm)
  names op hm other hn := by
    obtain rfl := List.mem_singleton.mp hm
    obtain rfl := Option.some.inj hn
    exact List.mem_insert_self
  runtime other hm := by
    rcases List.mem_insert_iff.mp hm with rfl | hm
    · exact Or.inr ⟨_, List.mem_singleton.mpr rfl, rfl⟩
    · exact Or.inl (hc.runtime ▸ hm)
  labels l := by simp [hl]
  returns owner := by
    rw [Code.returns_eq_zero (by simp)]
    exact hc.owners owner

lemma mem_addEdge {graph : CallGraph} {edge : FrameId × FrameId} {caller callee : FrameId} :
    edge ∈ (graph.addEdge caller callee).edges ↔ edge ∈ graph.edges ∨ edge = (caller, callee) := by
  unfold CallGraph.addEdge
  split
  · rename_i hm
    exact ⟨Or.inl, fun h => h.elim id fun he => he ▸ hm⟩
  · simp

lemma call {destination : Option Access} {arguments : List Access} {caller callee : FrameId} {label : Label}
    (hc : t.callGraph = s.callGraph.addEdge caller callee) (hr : t.runtime = s.runtime)
    (ho : ∀ frame, Function.owners t.functions frame = Function.owners s.functions frame) (hl : t.budget = s.budget)
    (he : Frame.EntersAt t.frames callee label) (hf : caller.position < t.frames.size)
    (hs : (Tac.call destination label arguments).Selectable t.frames)
    (ha : ∀ access ∈ destination.toList ++ arguments, P t caller access) :
    Traced P [] s t [.op caller (.call destination label arguments)] where
  selectable op hm := by
    obtain rfl := List.mem_singleton.mp hm
    exact ⟨hf, hs⟩
  accesses op hm := by
    obtain rfl := List.mem_singleton.mp hm
    exact ha
  calls op hm place hl := by
    obtain rfl := List.mem_singleton.mp hm
    obtain rfl := Option.some.inj hl
    exact ⟨callee, hc ▸ mem_addEdge.mpr (Or.inr rfl), he⟩
  edges edge hm := by
    rw [hc] at hm
    rcases mem_addEdge.mp hm with hm | rfl
    · exact Or.inl hm
    · exact Or.inr ⟨_, List.mem_singleton.mpr rfl, rfl, label, rfl, he⟩
  names op hm name hn := by
    obtain rfl := List.mem_singleton.mp hm
    cases hn
  runtime name hm := Or.inl (hr ▸ hm)
  labels l := by simp [hl]
  returns owner := by
    rw [Code.returns_eq_zero (by simp)]
    exact ho owner

lemma function (hf : declared.entry.frame.position < s.frames.size) :
    Traced P [declared] s s [.label declared.entry.label, .op declared.entry.frame .ret] where
  selectable op hm := by
    obtain rfl := List.mem_singleton.mp hm
    exact ⟨hf, trivial⟩
  accesses op hm access ha := by
    obtain rfl := List.mem_singleton.mp hm
    cases ha
  calls op hm label hl := by
    obtain rfl := List.mem_singleton.mp hm
    cases hl
  edges edge hm := Or.inl hm
  names op hm name hn := by
    obtain rfl := List.mem_singleton.mp hm
    cases hn
  runtime name hm := Or.inl hm
  labels l := by simp [List.count_singleton]
  returns frame := by simp [Analysis.groupOwners, Code.returns, List.countP_singleton, List.count_singleton]

lemma settle {s₁ : Analyzer} (h : Traced P owed s₁ t first) (hr : s.Records owed s₁)
    (hl : ∀ l, (owed.map (·.entry.label)).count l + s₁.budget l ≤ s.budget l) : Traced P [] s t first :=
  { h with
    edges := hr.callGraph ▸ h.edges
    runtime := hr.runtime ▸ h.runtime
    labels := fun l => by simpa using (h.labels l).trans (hl l)
    returns := fun frame => by
      have hcount := h.returns frame
      rw [hr.owners] at hcount
      simp only [Analysis.groupOwners, List.countP_nil] at hcount ⊢
      omega }

end Traced

end Analyzer

namespace Analysis

open Analyzer Code

/-- Which accesses an operation may use in a frame. `V` holds of the variables of a program, and `I` of the states in
which the variables in scope may be used. -/
structure Usage (V : Storage → Prop) (I : Analyzer → Prop) (P : Analyzer → FrameId → Access → Prop) : Prop where
  later : ∀ {s t frame access}, s.Grows t → P s frame access → P t frame access
  int : ∀ s frame value, P s frame (.int value)
  word : ∀ s frame, P s frame .word
  string : ∀ {s t text constant} frame, internString text s = (constant, t) → P t frame (.const constant)
  memory : ∀ {s frame base offset}, base.isSimple → offset.isSimple → P s frame base → P s frame offset →
    P s frame (.memory base offset)
  own : ∀ {s frame temp}, s.Holds frame temp → P s frame (.temp temp)
  variablePlace : ∀ {s t name info}, I s → s.values.get? name = some (.var info) → noteUse name s = ((), t) →
    P t s.currentFrame (.temp info.place)
  kept : ∀ {s t}, I s → s.Grows t → t.values = s.values → t.enclosing = s.enclosing →
    t.currentFrame = s.currentFrame → I t
  openScope : ∀ {s}, I s → I { s with values := s.values.openScope }
  openFunction : ∀ {s declared}, I s → s.Opens declared →
    I { s with
      values := s.values.openFunction
      currentFrame := declared.entry.frame
      enclosing := declared.id :: s.enclosing }
  putVariable : ∀ {s} name info, I s → s.Holds s.currentFrame info.place →
    V ⟨s.currentFrame, name, info.place⟩ → I { s with values := s.values.put name (.var info) }
  putFunction : ∀ {s} name id signature, I s → I { s with values := s.values.put name (.function id signature) }

section

variable {V : Storage → Prop} {I : Analyzer → Prop} {P : Analyzer → FrameId → Access → Prop}

def Traces (V : Storage → Prop) (I : Analyzer → Prop) (P : Analyzer → FrameId → Access → Prop) (sites : List Storage)
    (s : Analyzer) (codes : List Code) (places : List Access) (t : Analyzer) : Prop :=
  I s → (∀ v ∈ sites, V v) → Traced P [] s t codes ∧ ∀ place ∈ places, P t s.currentFrame place

variable {s t : Analyzer}

lemma Traces.apply {sites : List Storage} {a : Lowered} {place : Access}
    (ht : Traces V I P sites s a.code a.place.toList t) (hp : a.place = some place) (hi : I s) (hv : ∀ v ∈ sites, V v) :
    Traced P [] s t a.code ∧ P t s.currentFrame place := by
  obtain ⟨htraced, hplaces⟩ := ht hi hv
  exact ⟨htraced, hplaces place (by simp [hp])⟩

variable (h : Usage V I P)

include h

attribute [local simp] Plain Tac.accesses Tac.callee? Tac.runtime? Tac.Selectable

namespace Usage

lemma keeps (hi : I s) (hk : s.Keeps t) : I t := h.kept hi hk.toGrows hk.values hk.enclosing hk.currentFrame

lemma fresh (hs : s.Sound) : P s.withTemp s.currentFrame (.temp ⟨s.supply.temps⟩) := h.own (holds_withTemp hs)

lemma insideLoop (hi : I s) (exit : Label) : I (s.insideLoop exit) := h.kept hi { Grows.refl s with } rfl rfl rfl

lemma insideLet (hi : I s) : I s.insideLet :=
  h.kept (h.openScope hi) { Grows.refl { s with values := s.values.openScope } with } rfl rfl rfl

lemma insideFor (hi : I s) (hs : s.Sound) {counter : String} (hv : V ⟨s.currentFrame, counter, ⟨s.supply.temps⟩⟩) :
    I (s.insideFor counter) := by
  have hdrawn : I s.withLabel.withTemp := h.keeps hi ((Keeps.withLabel s).trans (Keeps.withTemp _))
  have hsound : s.withLabel.Sound := { hs with }
  have hput := h.putVariable counter { ty := .int, place := ⟨s.supply.temps⟩, assignable := false } (h.openScope hdrawn)
    (holds_withTemp hsound) hv
  exact h.kept hput { Grows.refl _ with } rfl rfl rfl

lemma enterFunction {declared : Declared} (hi : I s) (ho : s.Opens declared) (hv : ∀ v ∈ declared.storage, V v) :
    I (enterFunction declared s).2 := by
  let inner := { s with
    values := s.values.openFunction
    currentFrame := declared.entry.frame
    enclosing := declared.id :: s.enclosing }
  have hparams : ∀ (pairs : List (Param × Temp)) (values : ScopeStack Value),
      pairs ⊆ declared.params.zip declared.entry.formals →
      I { inner with values } → I { inner with
        values := pairs.foldl (fun values pair =>
          values.put pair.1.name (.var { ty := pair.1.ty, place := pair.2, assignable := true })) values } := by
    intro pairs
    induction pairs with
    | nil => exact fun _ _ hinner => hinner
    | cons pair rest ih =>
      intro values hsub hinner
      obtain ⟨hpair, hrest⟩ := List.cons_subset.mp hsub
      have hstorage : ⟨declared.entry.frame, pair.1.name, pair.2⟩ ∈ declared.storage :=
        List.mem_map.mpr ⟨pair, hpair, rfl⟩
      exact ih _ hrest (h.putVariable _ _ hinner (ho.formals _ (List.of_mem_zip hpair).2) (hv _ hstorage))
  exact h.kept (hparams _ _ (List.Subset.refl _) (h.openFunction hi ho)) { Grows.refl _ with } rfl rfl rfl

lemma append {u : Analyzer} {owed more : List Declared} {first second : List Code} (ht : Traced P owed s t first)
    (ht' : Traced P more t u second) (hg : t.Grows u) : Traced P (owed ++ more) s u (first ++ second) :=
  ht.append ht' hg (h.later hg)

lemma finish {u : Analyzer} {owed : List Declared} {first whole : List Code} (own : List Code)
    (ht : Traced P owed s t first) (hg : t.Grows u) (hc : t.Unrecorded u)
    (hl : ∀ l, placings own l + u.budget l ≤ t.budget l) (ho : ∀ op ∈ ops own, Plain P u op)
    (hp : whole.Perm (first ++ own)) : Traced P owed s u whole := by
  have hcode := h.append ht (.plain hc hl ho) hg
  rw [List.append_nil] at hcode
  exact hcode.perm hp

lemma follow {u : Analyzer} {owed : List Declared} {first : List Code} (own : List Code) (ht : Traced P owed s t first)
    (hg : t.Grows u) (hc : t.Unrecorded u) (hb : u.budget = t.budget) (hn : labels own = [])
    (ho : ∀ op ∈ ops own, Plain P u op) : Traced P owed s u (first ++ own) :=
  h.finish own ht hg hc (fun l => by simp [placings, hn, hb]) ho (.refl _)

end Usage

omit h in
lemma unrecorded_notes (hn : Notes s t) (hk : s.Keeps t) : s.Unrecorded t ∧ t.budget = s.budget := by
  obtain ⟨functions, groups, stray, rfl, hsize⟩ := hn
  exact ⟨⟨rfl, rfl, hk.toGrows.owners hsize⟩, rfl⟩

lemma traced_toSimple {access simple : Access} {load : List Code} (hl : toSimple access s = ((simple, load), t))
    (hs : s.Sound) (ha : P s s.currentFrame access) : Traced P [] s t load ∧ P t s.currentFrame simple := by
  rcases toSimple_eq hl with ⟨rfl, rfl, rfl⟩ | ⟨rfl, rfl, rfl⟩
  · exact ⟨.nil (.refl _) fun _ => le_rfl, ha⟩
  · have hread := h.later (Keeps.withTemp s).toGrows ha
    have hown := h.fresh hs
    exact ⟨.plain ⟨rfl, rfl, fun _ => rfl⟩ (by simp) (by simp [hs.currentFrame, hread, hown]), hown⟩

omit h in
lemma ne_string_of_fits {value : Lowered} (hp : Placed value) {table : TypeTable} (hf : table.fits value.ty .int)
    {place : Access} (hplace : value.place = some place) (label : Label) : place ≠ .const (.string label) := by
  rintro rfl
  rw [hp.string label hplace] at hf
  cases hf

omit h in
lemma selectable_callRuntime (function : Runtime) (temp : Temp) {arguments : List Access}
    (hl : function.signature.params.length ≤ arguments.length) (frames : Arena .frame Frame) :
    (Tac.callRuntime (some (.temp temp)) function.name arguments).Selectable frames :=
  ⟨by simp, function, function.ofName?_name, hl⟩

lemma traced_operationCode {operator : Operator} {operands : Operands} {result : Temp} {left right : Lowered}
    {lhs rhs : Access} {code : List Code} {s₀ : Analyzer}
    (hm : operationCode operator operands result left right lhs rhs s = (code, t)) (hs : s.Sound)
    (hparts : Traced P [] s₀ s (left.code ++ right.code)) (hresult : P s s.currentFrame (.temp result))
    (hl : P s s.currentFrame lhs) (hr : P s s.currentFrame rhs) : Traced P [] s₀ t code := by
  have hframe := hs.currentFrame
  rcases operationCode_eq hm with ⟨conjunction, rfl, rfl⟩ | ⟨operator, ⟨rfl, rfl⟩ | ⟨rfl, rfl⟩⟩
  · have hg := ((Keeps.withLabel s).trans (Keeps.withLabel _)).toGrows
    refine h.finish (decidingCode s.currentFrame conjunction ⟨s.supply.labels⟩ ⟨s.supply.labels + 1⟩ result
      [] lhs [] rhs) hparts hg ⟨rfl, rfl, fun _ => rfl⟩ (fun l => ?_) ?_ ?_
    · have hdrawn := budget_withLabels s l
      simp only [decidingCode, placings_append, placings_op, placings_labeled, placings_label, placings_nil]
      omega
    · simp [decidingCode, hframe, h.later hg hresult, h.later hg hl, h.later hg hr, h.int]
    · simp [decidingCode, List.perm_iff_count, List.count_cons]
      omega
  · have hg₁ := (Keeps.withTemp s).toGrows
    have hg₂ : s.withTemp.Grows (s.withTemp.usingRuntime Runtime.strcmp.name) := (keeps.useRuntime _ _).toGrows
    have hg := hg₁.trans hg₂
    have horder := h.later hg₂ (h.fresh hs)
    have hcall : Traced P [] s (s.withTemp.usingRuntime Runtime.strcmp.name)
        [.op s.currentFrame (.callRuntime (some (.temp ⟨s.supply.temps⟩)) Runtime.strcmp.name [lhs, rhs])] := by
      refine .callRuntime ⟨rfl, rfl, fun _ => rfl⟩ rfl (by simpa using hframe) (selectable_callRuntime _ _ le_rfl _) ?_
      simpa using ⟨horder, h.later hg hl, h.later hg hr⟩
    have hcompared := h.append hparts hcall hg
    have hcode :=
      h.follow [.op s.currentFrame (.binary operator (.temp result) (.temp ⟨s.supply.temps⟩) (.int 0))] hcompared
      (.refl _) (.refl _) rfl rfl (by simp [hframe, h.later hg hresult, horder, h.int])
    simpa using hcode
  · exact h.follow [.op t.currentFrame (.binary operator (.temp result) lhs rhs)] hparts (.refl t) (.refl t) rfl rfl
      (by simp [hframe, hresult, hl, hr])

lemma operandCases_traces :
    OperandCases (fun e s a t => Traces V I P (e.storage s) s a.code a.place.toList t)
      (fun assigning l s a t => Traces V I P (Storage.collector.lvalue assigning l s) s a.code a.place.toList t) where
  int _ _ _ := ⟨.nil (.refl _) fun _ => le_rfl, by simp [h.int]⟩
  string _ hintern _ _ := by
    have hbudget := budget_internString hintern
    refine ⟨.nil ?_ fun l => (congrFun hbudget l).le, by simpa using h.string _ hintern⟩
    obtain rfl := congrArg Prod.snd hintern
    exact ⟨rfl, rfl, fun _ => rfl⟩
  nil _ _ _ := ⟨.nil (.refl _) fun _ => le_rfl, by simp [h.int]⟩
  lvalue hp hi hv := hp.holds hi (by simpa [Collector.expr] using hv)
  assign := fun {t _ _ _ _ destination place _ _ _} hl hv _ hdest hwritable hplace hi hsites => by
    simp only [Collector.expr, hl.run, List.mem_append, or_imp, forall_and] at hsites
    obtain ⟨htarget, hwritten⟩ := hl.holds.apply hdest hi hsites.1
    obtain ⟨hvalue, hread⟩ := hv.holds.apply hplace (h.keeps hi hl.keeps) hsites.2
    have hwritten := h.later hv.keeps.toGrows hwritten
    rw [hl.keeps.currentFrame] at hread
    have hframe := hv.after.currentFrame
    rw [hv.keeps.currentFrame, hl.keeps.currentFrame] at hframe
    exact ⟨h.follow [.op t.currentFrame (.move destination place)] (h.append htarget hvalue hv.keeps.toGrows) (.refl t)
      (.refl t) rfl rfl (by simp [hv.keeps.currentFrame, hl.keeps.currentFrame, hframe, hwritable, hwritten, hread]),
      by simp⟩
  operation s₂ := fun hl hr hpl hpr _ hcode hk hi hv => by
    simp only [Collector.expr, hl.run, List.mem_append, or_imp, forall_and] at hv
    have hframe := hr.keeps.currentFrame.trans hl.keeps.currentFrame
    have hg := (Keeps.withTemp s₂).toGrows
    obtain ⟨hfirst, hreadLeft⟩ := hl.holds.apply hpl hi hv.1
    obtain ⟨hsecond, hreadRight⟩ := hr.holds.apply hpr (h.keeps hi hl.keeps) hv.2
    have hparts := h.follow (u := s₂.withTemp) [] (h.append hfirst hsecond hr.keeps.toGrows) hg ⟨rfl, rfl, fun _ => rfl⟩
      rfl rfl (by simp)
    simp only [List.append_nil] at hparts
    have hresult := h.fresh hr.after
    rw [← hframe] at hreadLeft ⊢
    rw [← hr.keeps.currentFrame] at hreadRight
    exact ⟨traced_operationCode h hcode hr.after.withTemp hparts hresult (h.later (hr.keeps.toGrows.trans hg) hreadLeft)
      (h.later hg hreadRight), by simpa using h.later hk.toGrows hresult⟩
  negate s₁ := fun {_ _ place _ _} ho hfits hplace hi hv => by
    have hg := (Keeps.withTemp s₁).toGrows
    obtain ⟨hoperand, hread⟩ := ho.holds.apply hplace hi (by simpa [Collector.expr] using hv)
    have hresult := h.fresh ho.after
    have hread := h.later hg hread
    have hno := ne_string_of_fits ((lowers_lowerExpr _).placed ho.run ho.sound ho.clean) hfits hplace
    rw [← ho.keeps.currentFrame] at hread ⊢
    exact ⟨h.follow [.op s₁.currentFrame (.negate (.temp ⟨s₁.supply.temps⟩) place)] hoperand hg ⟨rfl, rfl, fun _ => rfl⟩
      rfl rfl (by simp [ho.after.currentFrame, hresult, hread, hno]), by simpa using hresult⟩
  variablePlace _ hfound _ hnote hi _ := by
    obtain ⟨hunrecorded, hbudget⟩ := unrecorded_notes ((notes_noteUse _).apply hnote) ((keeps.noteUse _).apply hnote)
    exact ⟨.nil hunrecorded fun l => (congrFun hbudget l).le, by simpa using h.variablePlace hi hfound hnote⟩
  field s₁ index := fun {s _ _ _ _ _ _ _ _ _ _ _ _} hb _ _ hplace hload hk hi hv => by
    have hframe := hb.keeps.currentFrame
    have hg := (Keeps.withTemp s₁).toGrows
    obtain ⟨hrecord, hread⟩ := hb.holds.apply hplace hi (by simpa [Collector.lvalue] using hv)
    have hoffset := h.fresh hb.after
    rw [← hframe] at hread
    obtain ⟨hloaded, hsimple⟩ := traced_toSimple h hload hb.after.withTemp (h.later hg hread)
    have hscaled : Traced P [] s s₁.withTemp _ := h.follow [.op s₁.currentFrame (.binary .mul (.temp ⟨s₁.supply.temps⟩)
      (.int (Int32.ofNat index)) .word)] hrecord hg ⟨rfl, rfl, fun _ => rfl⟩ rfl rfl
      (by simp [hb.after.currentFrame, hoffset, h.int, h.word])
    refine ⟨by simpa using h.append hscaled hloaded hk.toGrows, ?_⟩
    simpa [← hframe] using h.memory (isSimple_toSimple hload) rfl hsimple (h.later hk.toGrows hoffset)
  subscript _ s₂ s₃ offset := fun hb _ hi _ hplace hposition hload hs₃ hk hinv hv => by
    simp only [Collector.lvalue, hb.run, List.mem_append, or_imp, forall_and] at hv
    have hframe := hi.keeps.currentFrame.trans hb.keeps.currentFrame
    have hg := (Keeps.withTemp s₃).toGrows
    obtain ⟨harray, hread⟩ := hb.holds.apply hplace hinv hv.1
    obtain ⟨hsubscript, hread'⟩ := hi.holds.apply hposition (h.keeps hinv hb.keeps) hv.2
    rw [← hframe] at hread
    rw [← hi.keeps.currentFrame] at hread'
    obtain ⟨hloaded, hsimple⟩ := traced_toSimple h hload hi.after (h.later hi.keeps.toGrows hread)
    have hoffset := h.fresh hs₃
    rw [hk.currentFrame] at hoffset
    have hparts := h.append (h.append harray hsubscript hi.keeps.toGrows) hloaded hk.toGrows
    have hposition := h.later (hk.toGrows.trans hg) hread'
    have hbound := hi.after.currentFrame.trans_le hk.frames.size_le
    refine ⟨h.follow [.op s₂.currentFrame (.binary .mul (.temp ⟨s₃.supply.temps⟩) offset .word)] hparts hg
      ⟨rfl, rfl, fun _ => rfl⟩ rfl rfl (by simp [hbound, hoffset, hposition, h.word]), ?_⟩
    simpa [← hframe] using h.memory (isSimple_toSimple hload) rfl (h.later hg hsimple) hoffset

omit h in
lemma plain_moveInto {frame : FrameId} {destination : Option Temp} (value : Option Access)
    (hf : frame.position < t.frames.size) (hd : ∀ temp ∈ destination, P t frame (.temp temp))
    (hv : ∀ access ∈ value, P t frame access) :
    (∀ op ∈ ops (moveInto frame destination value), Plain P t op) ∧
    ∀ l, placings (moveInto frame destination value) l = 0 := by
  unfold moveInto
  split
  · rename_i temp access
    exact ⟨by simp [hf, hd temp rfl, hv access rfl], by simp⟩
  · simp

lemma controlCases_traces :
    ControlCases (fun e s a t => Traces V I P (e.storage s) s a.code a.place.toList t)
      (fun es s a t => Traces V I P (Storage.collector.sequence es s) s a.code a.place.toList t) where
  breakLoop hs _ _ _ := ⟨.plain (.refl _) (by simp) (by simp [hs.currentFrame]), by simp⟩
  ifThen s₂ := fun {_ _ _ _ value _ _ _} hc hp hvalue hi hv => by
    simp only [Collector.expr, hc.run, List.mem_append, or_imp, forall_and] at hv
    have hframe := hp.keeps.currentFrame.trans hc.keeps.currentFrame
    have hg := (Keeps.withLabel s₂).toGrows
    obtain ⟨hfirst, hread⟩ := hc.holds.apply hvalue hi hv.1
    obtain ⟨hsecond, -⟩ := hp.holds (h.keeps hi hc.keeps) hv.2
    have hread := h.later (hp.keeps.toGrows.trans hg) hread
    rw [← hframe] at hread
    refine ⟨h.finish [skipUnless s₂.currentFrame value ⟨s₂.supply.labels⟩, .label ⟨s₂.supply.labels⟩]
      (h.append hfirst hsecond hp.keeps.toGrows) hg ⟨rfl, rfl, fun _ => rfl⟩ (fun l => ?_)
      (by simp [skipUnless, hp.after.currentFrame, hread, h.int]) ?_, by simp⟩
    · have hdrawn := budget_withLabel s₂ l
      simp only [skipUnless, placings_op, placings_label, placings_nil]
      omega
    · simp [List.perm_iff_count, List.count_cons]
      omega
  ifThenElse s₃ s₄ result := fun {_ _ _ yes _ no _ value _ _ _ _} hc hp hn _ hresult hs₄ hk hvalue hi hv => by
    simp only [Collector.expr, hc.run, hp.run, List.mem_append, or_imp, forall_and] at hv
    have hk₄ := hk.trans ((Keeps.withLabel s₄).trans (Keeps.withLabel _))
    have hframe := hk.currentFrame.trans (hn.keeps.currentFrame.trans
      (hp.keeps.currentFrame.trans hc.keeps.currentFrame))
    have htemp : s₃.Unrecorded s₄ ∧ s₄.budget = s₃.budget ∧ ∀ temp ∈ result, P s₄ s₄.currentFrame (.temp temp) := by
      rcases resultTemp_eq hresult hn.after with ⟨-, rfl, rfl⟩ | ⟨-, rfl, rfl⟩
      · exact ⟨.refl _, rfl, by simp⟩
      · exact ⟨⟨rfl, rfl, fun _ => rfl⟩, rfl, by simpa using h.fresh hn.after⟩
    obtain ⟨hunrecorded, hbudget, htemp⟩ := htemp
    have hwritten : ∀ temp ∈ result, P s₄.withLabel.withLabel s₄.currentFrame (.temp temp) := fun temp hr =>
      h.later ((Keeps.withLabel s₄).trans (Keeps.withLabel _)).toGrows (htemp temp hr)
    obtain ⟨hfirst, hread⟩ := hc.holds.apply hvalue hi hv.1.1
    obtain ⟨hsecond, hyesPlace⟩ := hp.holds (h.keeps hi hc.keeps) hv.1.2
    obtain ⟨hthird, hnoPlace⟩ := hn.holds (h.keeps hi (hc.keeps.trans hp.keeps)) hv.2
    have hread := h.later (hp.keeps.trans (hn.keeps.trans hk₄)).toGrows hread
    rw [← hframe] at hread
    have hbound : s₄.currentFrame.position < s₄.withLabel.withLabel.frames.size := hs₄.currentFrame
    have hyesMove := plain_moveInto yes.place hbound hwritten fun access ha => by
      have hread := h.later (hn.keeps.trans hk₄).toGrows (hyesPlace access (by simpa using ha))
      rwa [hc.keeps.currentFrame, ← hframe] at hread
    have hnoMove := plain_moveInto no.place hbound hwritten fun access ha => by
      have hread := h.later hk₄.toGrows (hnoPlace access (by simpa using ha))
      rwa [hp.keeps.currentFrame, hc.keeps.currentFrame, ← hframe] at hread
    have hparts := h.append (h.append hfirst hsecond hp.keeps.toGrows) hthird hn.keeps.toGrows
    refine ⟨h.finish ([skipUnless s₄.currentFrame value ⟨s₄.supply.labels⟩,
      .op s₄.currentFrame (.goto ⟨s₄.supply.labels + 1⟩), .label ⟨s₄.supply.labels⟩, .label ⟨s₄.supply.labels + 1⟩] ++
        (moveInto s₄.currentFrame result yes.place ++ moveInto s₄.currentFrame result no.place)) hparts hk₄.toGrows
      ⟨hunrecorded.callGraph, hunrecorded.runtime, hunrecorded.owners⟩ (fun l => ?_) ?_ ?_, ?_⟩
    · have hdrawn := budget_withLabels s₄ l
      rw [← hbudget]
      simp only [skipUnless, placings_append, placings_op, placings_label, placings_nil, hyesMove.2, hnoMove.2]
      omega
    · simp only [ops_append, List.forall_mem_append]
      exact ⟨by simp [skipUnless, hs₄.currentFrame, hread, h.int], hyesMove.1, hnoMove.1⟩
    · simp [List.perm_iff_count, List.count_cons]
      omega
    · rw [hframe] at hwritten
      simpa using hwritten
  whileLoop s s₁ s₂ := fun {test inside value _ _ _} _ hc hb _ hvalue hi hv => by
    simp only [Collector.expr, hc.run, List.mem_append, or_imp, forall_and] at hv
    have hk₀ := (Keeps.withLabel s).trans (Keeps.withLabel _)
    have hg₁ : s₁.Grows s₂ := { hb.keeps.toGrows with }
    have hg₂ : s₂.Grows { s₂ with exits := s₂.exits.tail } := { Grows.refl s₂ with }
    have hframe : s₂.currentFrame = s.withLabel.withLabel.currentFrame :=
      hb.keeps.currentFrame.trans hc.keeps.currentFrame
    obtain ⟨hfirst, hread⟩ := hc.holds.apply hvalue (h.keeps hi hk₀) hv.1
    obtain ⟨hsecond, -⟩ := hb.holds (h.insideLoop (h.keeps hi (hk₀.trans hc.keeps)) _) hv.2
    rw [← hframe] at hread
    have hread := h.later (hg₁.trans hg₂) hread
    have hparts : Traced P [] s.withLabel.withLabel s₂ (test.code ++ inside.code) :=
      h.append hfirst { hsecond with } hg₁
    have hplaced : Traced P [] s s.withLabel.withLabel [.label ⟨s.supply.labels⟩, .label ⟨s.supply.labels + 1⟩] :=
      .plain ⟨rfl, rfl, fun _ => rfl⟩ (fun l => by
        have hdrawn := budget_withLabels s l
        simp only [placings_label, placings_nil]
        omega) (by simp)
    have hall := h.append hplaced hparts (hc.keeps.toGrows.trans hg₁)
    refine ⟨h.finish [skipUnless s₂.currentFrame value ⟨s.supply.labels + 1⟩, .op s₂.currentFrame
      (.goto ⟨s.supply.labels⟩)] hall hg₂ ⟨rfl, rfl, fun _ => rfl⟩ (fun l => by simp [skipUnless, budget])
      (by simp [skipUnless, hb.after.currentFrame, hread, h.int]) ?_, by simp⟩
    simp [List.perm_iff_count, List.count_cons]
    omega
  forLoop s s₂ s₃ := fun {low _ high inside lowest highest _ counter _ _ _} hf hl hb _ hpl hph hi hv => by
    simp only [Collector.expr, hf.run, hl.run, Storage.collector_loop, List.mem_append, List.mem_singleton, or_imp,
      forall_and, forall_eq] at hv
    obtain ⟨⟨hvf, hvl⟩, hcounter, hvb⟩ := hv
    have hdrawn : s₂.Grows (s₂.insideFor counter.name) :=
      Grows.trans ((Keeps.withLabel s₂).trans (Keeps.withTemp _)).toGrows { Grows.refl _ with }
    let closed := s₃.leaveFor
    have hclosed : s₃.Grows closed := { Grows.refl s₃ with }
    have hg₃ : s₃.Grows closed.withTemp.withLabel :=
      hclosed.trans ((Keeps.withTemp closed).trans (Keeps.withLabel _)).toGrows
    have hframe₂ := hl.keeps.currentFrame.trans hf.keeps.currentFrame
    have hframe : s₃.currentFrame = s.currentFrame := hb.keeps.currentFrame.trans hframe₂
    rw [← hframe₂] at hcounter
    obtain ⟨hfirst, hreadLow⟩ := hf.holds.apply hpl hi hvf
    obtain ⟨hsecond, hreadHigh⟩ := hl.holds.apply hph (h.keeps hi hf.keeps) hvl
    obtain ⟨hthird, -⟩ := hb.holds (h.insideFor (h.keeps hi (hf.keeps.trans hl.keeps)) hl.after hcounter) hvb
    have hreadLow := h.later (hl.keeps.toGrows.trans ((hdrawn.trans hb.keeps.toGrows).trans hg₃)) hreadLow
    have hreadHigh := h.later ((hdrawn.trans hb.keeps.toGrows).trans hg₃) hreadHigh
    rw [hf.keeps.currentFrame] at hreadHigh
    have hplace : P closed.withTemp.withLabel s.currentFrame (.temp ⟨s₂.supply.temps⟩) := by
      have hsLabel : s₂.withLabel.Sound := { hl.after with }
      have hfresh := h.own (s := s₂.insideFor counter.name) (holds_withTemp hsLabel)
      exact hframe₂ ▸ h.later (hb.keeps.toGrows.trans hg₃) hfresh
    have hsClosed : closed.Sound := { sound_closeValues hb.after with }
    have hbound : P closed.withTemp.withLabel s.currentFrame (.temp ⟨s₃.supply.temps⟩) :=
      hframe ▸ h.later (Keeps.withLabel closed.withTemp).toGrows (h.fresh hsClosed)
    have hposition : s.currentFrame.position < closed.frames.size := hframe ▸ hb.after.currentFrame
    -- The exit is drawn before the body, and the head after it.
    have hexit : Traced P [] s₂ (s₂.insideFor counter.name) [.label ⟨s₂.supply.labels⟩] :=
      .plain ⟨rfl, rfl, fun _ => rfl⟩ (fun l => by
        have hdrawn : (s₂.insideFor counter.name).budget l + _ = s₂.budget l := budget_withLabel s₂ l
        simp only [placings_label, placings_nil]
        omega) (by simp)
    have hparts := h.append (h.append (h.append hfirst hsecond hl.keeps.toGrows) hexit hdrawn) hthird hb.keeps.toGrows
    change Traced P [] s closed.withTemp.withLabel _ ∧ _
    refine ⟨h.finish [.op s.currentFrame (.move (.temp ⟨s₂.supply.temps⟩) lowest),
      .op s.currentFrame (.move (.temp ⟨s₃.supply.temps⟩) highest),
      .labeled ⟨s₃.supply.labels⟩ s.currentFrame
      (.branch .gt (.temp ⟨s₂.supply.temps⟩) (.temp ⟨s₃.supply.temps⟩) ⟨s₂.supply.labels⟩),
      .op s.currentFrame (.binary .add (.temp ⟨s₂.supply.temps⟩) (.temp ⟨s₂.supply.temps⟩) (.int 1)),
      .op s.currentFrame (.goto ⟨s₃.supply.labels⟩)] hparts hg₃ ⟨rfl, rfl, fun _ => rfl⟩ (fun l => ?_)
      (by simp [hposition, hplace, hbound, hreadLow, hreadHigh, h.int]) ?_, by simp⟩
    · have hhead : closed.withTemp.withLabel.budget l + (if (⟨s₃.supply.labels⟩ : Label) = l then 1 else 0) =
          s₃.budget l :=
        budget_withLabel closed.withTemp l
      simp only [placings_op, placings_labeled, placings_nil]
      omega
    · simp [forCode, hframe, List.perm_iff_count, List.count_cons]
      omega
  sequence hm hi hv := hm.holds hi (by simpa [Collector.expr] using hv)
  emptySequence _ _ _ := ⟨.nil (.refl _) fun _ => le_rfl, by simp⟩
  single hm hi hv := hm.holds hi (by simpa [Collector.sequence] using hv)
  longer hf hr hi hv := by
    simp only [Collector.sequence.eq_2 _ _ _ (_ :: _), hf.run, List.mem_append, or_imp, forall_and] at hv
    obtain ⟨hfirst, -⟩ := hf.holds hi hv.1
    obtain ⟨hrest, hplaces⟩ := hr.holds (h.keeps hi hf.keeps) hv.2
    rw [hf.keeps.currentFrame] at hplaces
    exact ⟨h.append hfirst hrest hr.keeps.toGrows, hplaces⟩

omit h in
lemma traced_callOperation {id : FunctionId} {signature : Signature} {name : String} {result : Option Temp}
    {actuals : List Access} {operation : Tac} {s₁ s₂ s₃ : Analyzer} (hcall : noteCall id s = ((), s₁))
    (hedge : noteEdge signature.entry s₁ = ((), s₂)) (hunrecorded : s₂.Unrecorded s₃) (hbudget : s₃.budget = s₂.budget)
    (hoperation : callOperation name signature.entry result actuals s₃ = (operation, t)) (hs : t.Sound)
    (hsignature : signature.Sound t.frames name) (hframe : t.currentFrame = s.currentFrame)
    (hlength : actuals.length = signature.params.length)
    (hread : ∀ access ∈ (result.map Access.temp).toList ++ actuals, P t s.currentFrame access) :
    Traced P [] s t [.op s.currentFrame operation] := by
  obtain ⟨hnoted, hbudget₁⟩ := unrecorded_notes ((notes_noteCall _).apply hcall) ((keeps.noteCall _).apply hcall)
  have hcurrent := ((keeps.noteCall _).apply hcall).currentFrame
  have hbound := hframe ▸ hs.currentFrame
  have hresult : ∀ place ∈ result.map Access.temp, place.isPlace := by cases result <;> simp
  rcases callOperation_eq hoperation with ⟨entry, hentry, rfl, rfl⟩ | ⟨hentry, rfl, rfl⟩
  · rw [hentry] at hedge
    obtain rfl := congrArg Prod.snd hedge
    have hadded : t.callGraph = s.callGraph.addEdge s.currentFrame entry.frame := by
      rw [← hcurrent, ← hnoted.callGraph]
      exact hunrecorded.callGraph
    obtain ⟨frame, hf, hl, hparams⟩ := hsignature.entered entry hentry
    exact .call hadded (hunrecorded.runtime.trans hnoted.runtime)
      (fun owner => (hunrecorded.owners owner).trans (hnoted.owners owner)) (hbudget.trans hbudget₁)
      ⟨frame, hf, hl⟩ hbound ⟨hresult, entry.frame, frame, hf, hl, hparams.trans hlength.symm⟩ hread
  · rw [hentry] at hedge
    obtain rfl := congrArg Prod.snd hedge
    obtain ⟨function, -, rfl, rfl⟩ := hsignature.runtime hentry
    exact .callRuntime (hnoted.trans hunrecorded) (hbudget.trans hbudget₁) hbound
      ⟨hresult, function, function.ofName?_name, hlength.ge⟩ hread

lemma aggregateCases_traces :
    AggregateCases (fun e s a t => Traces V I P (e.storage s) s a.code a.place.toList t)
      (fun params es s a t => a.2.length = params.length ∧ Traces V I P (Storage.collector.sequence es s) s a.1 a.2 t)
      (fun target _ _ fields s a t => P s s.currentFrame (.temp target) →
        Traces V I P (Storage.collector.inits fields s) s a [] t) where
  array s₂ := fun {s _ _ _ _ _ _ countPlace valuePlace _ _ _ _} _ _ hs hi _ hpc hpv hinv hv => by
    simp only [Collector.expr, hs.run, List.mem_append, or_imp, forall_and] at hv
    have hframe := hi.keeps.currentFrame.trans hs.keeps.currentFrame
    have hposition := hi.after.currentFrame
    obtain ⟨hfirst, hreadCount⟩ := hs.holds.apply hpc hinv hv.1
    obtain ⟨hsecond, hreadValue⟩ := hi.holds.apply hpv (h.keeps hinv hs.keeps) hv.2
    rw [← hframe] at hreadCount ⊢
    rw [← hi.keeps.currentFrame] at hreadValue
    let drawn := s₂.withTemp.withTemp.withTemp
    let called := drawn.usingRuntime Runtime.malloc.name
    have hg₁ : s₂.withTemp.Grows called := ((Keeps.withTemp _).trans ((Keeps.withTemp _).trans
      (keeps.useRuntime Runtime.malloc.name drawn))).toGrows
    have hg₂ : s₂.withTemp.withTemp.Grows called :=
      ((Keeps.withTemp _).trans (keeps.useRuntime Runtime.malloc.name drawn)).toGrows
    have hg₃ : drawn.Grows called := (keeps.useRuntime Runtime.malloc.name drawn).toGrows
    have hg : s₂.Grows called := (Keeps.withTemp s₂).toGrows.trans hg₁
    have hlabels := ((Keeps.withLabel called).trans (Keeps.withLabel _)).toGrows
    have hbytes : P called s₂.currentFrame (.temp ⟨s₂.supply.temps⟩) := h.later hg₁ (h.fresh hi.after)
    have harray : P called s₂.currentFrame (.temp ⟨s₂.supply.temps + 1⟩) := h.later hg₂ (h.fresh hi.after.withTemp)
    have hindex : P called s₂.currentFrame (.temp ⟨s₂.supply.temps + 1 + 1⟩) :=
      h.later hg₃ (h.fresh hi.after.withTemp.withTemp)
    have hcall : Traced P [] s₂ called [.op s₂.currentFrame (.callRuntime (some (.temp ⟨s₂.supply.temps + 1⟩))
        Runtime.malloc.name [.temp ⟨s₂.supply.temps⟩])] :=
      .callRuntime ⟨rfl, rfl, fun _ => rfl⟩ rfl (by simpa [drawn] using hposition) (selectable_callRuntime _ _ le_rfl _)
        (by simpa using ⟨harray, hbytes⟩)
    have hparts := h.append (h.append hfirst hsecond hi.keeps.toGrows) hcall hg
    have hbytes := h.later hlabels hbytes
    have harray := h.later hlabels harray
    have hindex := h.later hlabels hindex
    have hreadCount := h.later (hi.keeps.toGrows.trans (hg.trans hlabels)) hreadCount
    have hreadValue := h.later (hg.trans hlabels) hreadValue
    have hbound : s₂.currentFrame.position < called.frames.size := by simpa [called, drawn] using hposition
    change Traced P [] s called.withLabel.withLabel _ ∧ _
    refine ⟨h.finish [.op s₂.currentFrame (.binary .mul (.temp ⟨s₂.supply.temps⟩) countPlace .word),
      .op s₂.currentFrame (.move (.temp ⟨s₂.supply.temps + 1 + 1⟩) (.int 0)),
      .labeled ⟨s₂.supply.labels⟩ s₂.currentFrame
        (.branch .geq (.temp ⟨s₂.supply.temps + 1 + 1⟩) (.temp ⟨s₂.supply.temps⟩) ⟨s₂.supply.labels + 1⟩),
      .op s₂.currentFrame (.move (.memory (.temp ⟨s₂.supply.temps + 1⟩) (.temp ⟨s₂.supply.temps + 1 + 1⟩)) valuePlace),
      .op s₂.currentFrame (.binary .add (.temp ⟨s₂.supply.temps + 1 + 1⟩) (.temp ⟨s₂.supply.temps + 1 + 1⟩) .word),
      .op s₂.currentFrame (.goto ⟨s₂.supply.labels⟩), .label ⟨s₂.supply.labels + 1⟩] hparts hlabels
      ⟨rfl, rfl, fun _ => rfl⟩ (fun l => ?_) ?_ ?_, by simpa using harray⟩
    · have hdrawn : called.withLabel.withLabel.budget l + (if (⟨s₂.supply.labels⟩ : Label) = l then 1 else 0) +
        (if (⟨s₂.supply.labels + 1⟩ : Label) = l then 1 else 0) = called.budget l := budget_withLabels called l
      simp only [placings_op, placings_labeled, placings_label, placings_nil]
      omega
    · simp [hbound, hbytes, hreadCount, hindex, hreadValue, h.memory rfl rfl harray hindex, h.word, h.int]
    · simp [arrayCode, List.perm_iff_count, List.count_cons]
      omega
  record s declared := fun hs _ _ hf hi hv => by
    let drawn := s.withTemp.withTemp
    let called := drawn.usingRuntime Runtime.malloc.name
    have hk₀ : s.Keeps called := .asking s
    have hg₀ : drawn.Grows called := (keeps.useRuntime Runtime.malloc.name drawn).toGrows
    have htarget : P called s.currentFrame (.temp ⟨s.supply.temps⟩) :=
      h.later ((Keeps.withTemp s.withTemp).toGrows.trans hg₀) (h.fresh hs)
    have hbytes : P called s.currentFrame (.temp ⟨s.supply.temps + 1⟩) := h.later hg₀ (h.fresh hs.withTemp)
    have hbound : s.currentFrame.position < called.frames.size := by simpa [called, drawn] using hs.currentFrame
    have hcall :
        Traced P [] s called [.op s.currentFrame (.callRuntime (some (.temp ⟨s.supply.temps⟩)) Runtime.malloc.name
        [.temp ⟨s.supply.temps + 1⟩])] :=
      .callRuntime ⟨rfl, rfl, fun _ => rfl⟩ rfl hbound (selectable_callRuntime _ _ le_rfl _)
        (by simpa using ⟨htarget, hbytes⟩)
    have hallocated := h.finish [.op s.currentFrame (.binary .mul (.temp ⟨s.supply.temps + 1⟩)
      (.int (Int32.ofNat declared.length)) .word)] hcall (.refl _) (.refl _) (by simp)
      (by simp [hbound, hbytes, h.int, h.word]) (List.Perm.swap _ _ _)
    obtain ⟨hstored, -⟩ := hf.holds htarget (h.keeps hi hk₀) (by simpa [Collector.expr] using hv)
    exact ⟨h.append hallocated hstored hf.keeps.toGrows, by simpa using h.later hf.keeps.toGrows htarget⟩
  call s s₁ s₄ t result :=
      fun {_ _ _ _ _ s₃ _ _ _ _} hfound ha hcall hedge hs₃ hresult _ hoperation hs hk₄ hk₅ hi hv => by
    obtain ⟨hlength, htraces⟩ := ha.holds
    obtain ⟨hpassed, hplaces⟩ := htraces hi (by simpa [Collector.expr] using hv)
    have hkNote := ((keeps.noteCall _).apply hcall).trans ((keeps.noteEdge _).apply hedge)
    have hk := hkNote.trans (hk₄.trans hk₅)
    have hsignature := (ha.sound.values _ _ (ScopeStack.binds_of_get? hfound)).2.mono
      (ha.keeps.toGrows.trans hk.toGrows).frames
    have htemp : s₃.Unrecorded s₄ ∧ s₄.budget = s₃.budget ∧ ∀ temp ∈ result, P s₄ s₁.currentFrame (.temp temp) := by
      rw [← hkNote.currentFrame]
      rcases resultTemp_eq hresult hs₃ with ⟨-, rfl, rfl⟩ | ⟨-, rfl, rfl⟩
      · exact ⟨.refl _, rfl, by simp⟩
      · exact ⟨⟨rfl, rfl, fun _ => rfl⟩, rfl, by simpa using h.fresh hs₃⟩
    have hplace : ∀ access ∈ (result.map Access.temp).toList, P t s₁.currentFrame access := by
      intro access ha
      obtain ⟨temp, hr, rfl⟩ := Option.map_eq_some_iff.mp (Option.mem_toList.mp ha)
      exact h.later hk₅.toGrows (htemp.2.2 temp hr)
    rw [← ha.keeps.currentFrame] at hplaces ⊢
    have hown := traced_callOperation hcall hedge htemp.1 htemp.2.1 hoperation hs hsignature hk.currentFrame hlength
      (List.forall_mem_append.mpr ⟨hplace, fun access ha => h.later hk.toGrows (hplaces access ha)⟩)
    exact ⟨by simpa [hk.currentFrame] using h.append hpassed hown hk.toGrows, hplace⟩
  noArguments _ := ⟨rfl, fun _ _ => ⟨.nil (.refl _) fun _ => le_rfl, by simp⟩⟩
  argument hv hplace hr := ⟨congrArg (· + 1) hr.holds.1, fun hi hsites => by
    simp only [Collector.sequence, hv.run, List.mem_append, or_imp, forall_and] at hsites
    have hg := hr.keeps.toGrows
    obtain ⟨hvalue, hread⟩ := hv.holds.apply hplace hi hsites.1
    obtain ⟨hothers, hplaces⟩ := hr.holds.2 (h.keeps hi hv.keeps) hsites.2
    rw [hv.keeps.currentFrame] at hplaces
    exact ⟨h.append hvalue hothers hg, List.forall_mem_cons.mpr ⟨h.later hg hread, hplaces⟩⟩⟩
  noFields _ _ _ _ := ⟨.nil (.refl _) fun _ => le_rfl, by simp⟩
  fields target index s₁ place := fun hv _ hplace hr htarget hi hsites => by
    simp only [Collector.inits, hv.run, List.mem_append, or_imp, forall_and] at hsites
    obtain ⟨hvalue, hread⟩ := hv.holds.apply hplace hi hsites.1
    have hwritten := h.later hv.keeps.toGrows htarget
    rw [← hv.keeps.currentFrame] at hread hwritten
    have hfirst := h.follow [.op s₁.currentFrame (.move (.memory (.temp target)
      (.int (fieldStride * Int32.ofNat index))) place)] hvalue (.refl s₁) (.refl s₁) rfl rfl
      (by simp [hv.after.currentFrame, h.memory rfl rfl hwritten (h.int _ _ _), hread])
    obtain ⟨hrest, -⟩ := hr.holds hwritten (h.keeps hi hv.keeps) hsites.2
    exact ⟨by simpa using h.append hfirst hrest hr.keeps.toGrows, by simp⟩

def TracesGroup (V : Storage → Prop) (I : Analyzer → Prop) (P : Analyzer → FrameId → Access → Prop)
    (sites : List Storage) (s : Analyzer) (codes : List Code) (t : Analyzer) : Prop :=
  I s → (∀ v ∈ sites, V v) → Traced P [] s t codes ∧ I t

omit h in
lemma opens_declareFunction {decl : FunctionDecl} {declared : Declared} (hm : declareFunction decl s = (declared, t)) :
    s.Records [declared] t ∧ (∀ l, [declared.entry.label].count l + t.budget l = s.budget l) ∧ t.Opens declared := by
  obtain ⟨u, params, result, ⟨errors, types, table, rfl⟩, rfl, rfl⟩ := declareFunction_state hm
  have hframe : ∀ v : Analyzer, (v.frames.push (declaredFrame v decl.name.name params.length result)).get?
      v.frames.next =
      some (declaredFrame v decl.name.name params.length result) := fun v => (Arena.get?_push _ _ _).trans (if_pos rfl)
  refine ⟨⟨rfl, rfl, fun frame => ?_⟩, fun l => ?_, ⟨_, hframe _, rfl⟩, fun temp hp => ⟨⟨_, hframe _, ?_⟩, ?_⟩,
    fun temp hr => ⟨⟨_, hframe _, ?_⟩, ?_⟩, _, (Arena.get?_push _ _ _).trans (if_pos rfl), rfl⟩
  · rw [Function.owners_push]
    simp [groupOwners, List.countP_singleton]
  · rw [← budget_withLabel s l, List.count_singleton, Nat.add_comm]
    simp [budget, withLabel, declaredAs]
  all_goals
    simp only [declaredAs, declaredFrame, List.mem_map, List.mem_range'_1, Option.mem_def] at *
  · obtain ⟨n, hn, rfl⟩ := hp
    exact ⟨n, by split <;> omega, rfl⟩
  · obtain ⟨n, hn, rfl⟩ := hp
    simp only
    split <;> omega
  · split at hr
    · rename_i hvoid
      obtain rfl := Option.some.inj hr
      exact ⟨_, by rw [if_pos hvoid]; omega, rfl⟩
    · cases hr
  · split at hr
    · rename_i hvoid
      obtain rfl := Option.some.inj hr
      simp only [hvoid, if_true]
      omega
    · cases hr

lemma opens_declareFunctions {members : List FunctionDecl} {seen : List String} {declared : List Declared}
    (hm : declareFunctions seen members s = (declared, t)) (hi : I s) :
    s.Records declared t ∧ (∀ l, (declared.map (·.entry.label)).count l + t.budget l = s.budget l) ∧ I t ∧
      ∀ d ∈ declared, t.Opens d := by
  induction members generalizing seen s t declared with
  | nil =>
    obtain ⟨rfl, rfl⟩ := pure_eq.mp hm
    exact ⟨Unrecorded.refl _, by simp, hi, by simp⟩
  | cons decl rest ih =>
    obtain ⟨first, s₁, s₂, others, hfirst, henter, hothers, rfl⟩ := declareFunctions_cons hm
    obtain ⟨hrecords, hlabel, hopens⟩ := opens_declareFunction hfirst
    have hi₁ := h.keeps hi ((keeps_declareFunction decl).apply hfirst)
    have hentered : s₁.Unrecorded s₂ ∧ s₂.budget = s₁.budget ∧ I s₂ := by
      have hg := ((declares_enterName _ _ _).apply henter).toGrows
      rcases enterName_eq henter with ⟨errors, rfl⟩ | rfl
      · exact ⟨⟨rfl, rfl, fun _ => rfl⟩, rfl, h.kept hi₁ hg rfl rfl rfl⟩
      · exact ⟨⟨rfl, rfl, fun _ => rfl⟩, rfl, h.putFunction _ _ _ hi₁⟩
    obtain ⟨hunrecorded, hbudget, hi₂⟩ := hentered
    obtain ⟨hrecords', hlabels, hi₃, hall⟩ := ih hothers hi₂
    have hlater :=
      trans_of Declares ((declares_enterName _ _ _).apply henter) ((declares_declareFunctions _ _).apply hothers)
    refine ⟨hrecords.trans (hunrecorded.trans hrecords'), fun l => ?_, hi₃,
      List.forall_mem_cons.mpr ⟨hopens.mono hlater.toGrows hlater.currentFrame, hall⟩⟩
    rw [← hlabel l, ← hbudget, ← hlabels l, List.map_cons, ← List.singleton_append, List.count_append, Nat.add_assoc]

lemma traced_functionBody {declared : Declared} {inside : Lowered} {sites : List Storage} {s₁ : Analyzer}
    (hi : I s) (ho : s.Opens declared) (hv : ∀ v ∈ declared.storage, V v) (hk : (enterFunction declared s).2.Keeps s₁)
    (hb : Traces V I P sites (enterFunction declared s).2 inside.code inside.place.toList s₁) (hs : ∀ v ∈ sites, V v) :
    Traced P [declared] s (leaveFunction s.currentFrame s₁).2 (.label declared.entry.label :: inside.code ++
      moveInto declared.entry.frame declared.entry.resultPlace inside.place ++ [.op declared.entry.frame .ret]) := by
  obtain ⟨hcode, hplaces⟩ := hb (h.enterFunction hi ho hv) hs
  have hg₁ : s.Grows s₁ := { hk.toGrows with }
  have hg₂ : s₁.Grows (leaveFunction s.currentFrame s₁).2 := { Grows.refl s₁ with }
  obtain ⟨frame, hframe, -⟩ := ho.parent
  have hbound : declared.entry.frame.position < s₁.frames.size :=
    (s.frames.lt_size hframe).trans_le hg₁.frames.size_le
  have hmove := plain_moveInto (t := (leaveFunction s.currentFrame s₁).2) inside.place hbound
    (fun temp hr => h.own ((ho.result temp hr).mono (hg₁.trans hg₂)))
    (fun access ha => h.later hg₂ (hplaces access (by simpa using ha)))
  have hbody : Traced P [] s s₁ inside.code := { hcode with }
  refine h.finish _ (h.append hbody (.function hbound) (.refl _)) hg₂ ⟨rfl, rfl, fun _ => rfl⟩
    (fun l => ?_) hmove.1 ?_
  · rw [hmove.2, Nat.zero_add]
    rfl
  · simp [List.perm_iff_count, List.count_cons]
    omega

lemma declarationCases_traces :
    DeclarationCases (fun e s a t => Traces V I P (e.storage s) s a.code a.place.toList t)
      (fun es s a t => Traces V I P (Storage.collector.sequence es s) s a.code a.place.toList t)
      (fun groups s => TracesGroup V I P (Storage.collector.groups groups s) s)
      (fun group s => TracesGroup V I P (Storage.collector.group group s) s)
      (fun members declared s a t => (∀ d ∈ declared, s.Opens d) → I s →
        (∀ v ∈ Storage.collector.bodies members declared s, V v) → Traced P declared s t a) where
  letIn s before s₂ := fun {_ inside _ _ _} _ hd hb hi hv => by
    simp only [Collector.expr, hd.run, List.mem_append, or_imp, forall_and] at hv
    obtain ⟨hfirst, hi₁⟩ := hd.holds (h.insideLet hi) hv.1
    obtain ⟨hsecond, hplaces⟩ := hb.holds hi₁ hv.2
    let closed := s₂.leaveLet
    have hclosed : s₂.Grows closed := { Grows.refl s₂ with }
    rw [hd.keeps.currentFrame] at hplaces
    have hparts : Traced P [] s s₂ (before ++ inside.code) := { h.append hfirst hsecond hb.keeps.toGrows with }
    refine ⟨?_, fun place hp => h.later hclosed (hplaces place hp)⟩
    simpa using h.follow (u := closed) [] hparts hclosed ⟨rfl, rfl, fun _ => rfl⟩ rfl rfl (by simp)
  noGroups _ hi _ := ⟨.nil (.refl _) fun _ => le_rfl, hi⟩
  groups _ := fun hg hr hi hv => by
    simp only [Collector.groups, hg.run, List.mem_append, or_imp, forall_and] at hv
    obtain ⟨hfirst, hi₁⟩ := hg.holds hi hv.1
    obtain ⟨hsecond, hi₂⟩ := hr.holds hi₁ hv.2
    exact ⟨h.append hfirst hsecond hr.keeps.toGrows, hi₂⟩
  var s₁ := fun {_ _ ty source name _ _} hv hsource _ hi hsites => by
    simp only [Collector.group, hv.run, Storage.collector_binding, List.mem_append, List.mem_singleton,
      or_imp, forall_and, forall_eq] at hsites
    obtain ⟨hsites, hvariable⟩ := hsites
    obtain ⟨hvalue, hread⟩ := hv.holds.apply hsource hi hsites
    rw [← hv.keeps.currentFrame] at hread hvariable
    have hg : s₁.Grows { s₁.withTemp with
        values := s₁.values.put name.name (.var { ty, place := ⟨s₁.supply.temps⟩, assignable := true }) } :=
      { (Keeps.withTemp s₁).toGrows with }
    have hplace := h.own (s := { s₁.withTemp with
      values := s₁.values.put name.name (.var { ty, place := ⟨s₁.supply.temps⟩, assignable := true }) })
      (holds_withTemp hv.after)
    have hdrawn : I s₁.withTemp := h.keeps hi (hv.keeps.trans (Keeps.withTemp s₁))
    exact ⟨h.follow [.op s₁.currentFrame (.move (.temp ⟨s₁.supply.temps⟩) source)] hvalue hg
      ⟨rfl, rfl, fun _ => rfl⟩ rfl rfl (by simpa using ⟨hv.after.currentFrame, hplace, h.later hg hread⟩),
      h.putVariable _ _ hdrawn (holds_withTemp hv.after) hvariable⟩
  types _ hgroup hi _ := ⟨.nil ⟨rfl, rfl, fun _ => rfl⟩ fun _ => le_rfl,
    h.kept hi ((declares_typeGroup _).apply hgroup).toGrows rfl rfl rfl⟩
  functions _ _ inside s₃ := fun {s s₂ _} _ hdeclared _ hb hclose hk hi hv => by
    simp only [Collector.group, hdeclared] at hv
    obtain ⟨hrecords, hlabels, hi₁, hopens⟩ := opens_declareFunctions h hdeclared hi
    have hk₃ := hk.trans (Keeps.withLabel s₃)
    obtain ⟨hunrecorded, hbudget⟩ := unrecorded_notes ((notes_closeForeigns _).apply hclose) hk
    have hframe := hk₃.currentFrame ▸ hb.after.currentFrame.trans_le hk₃.frames.size_le
    have hparts := (hb.holds hopens hi₁ hv).settle hrecords fun l => (hlabels l).le
    refine ⟨h.finish [.op s₃.currentFrame (.goto ⟨s₃.supply.labels⟩), .label ⟨s₃.supply.labels⟩] hparts hk₃.toGrows
      ⟨hunrecorded.callGraph, hunrecorded.runtime, hunrecorded.owners⟩ (fun l => ?_) (by simpa using hframe) ?_,
      h.keeps hi₁ (hb.keeps.trans hk₃)⟩
    · have hdrawn := budget_withLabel s₃ l
      rw [← hbudget]
      simp only [placings_op, placings_label, placings_nil]
      omega
    · simp [List.perm_iff_count, List.count_cons]
      omega
  noBodies _ _ _ _ := .nil (.refl _) fun _ => le_rfl
  bodies _ declared _ _ := fun _ _ hb hfits hk hr hopens hi hv => by
    simp only [Collector.bodies, Storage.collector_params, functionBody_state hb.run hfits, List.mem_append, or_imp,
      forall_and] at hv
    obtain ⟨hparams, hinside, hothers⟩ := hv
    have hfirst := traced_functionBody h hi (hopens declared List.mem_cons_self) hparams hb.keeps hb.holds hinside
    have hrest := hr.holds (fun d hm => (hopens d (List.mem_cons_of_mem _ hm)).mono hk.toGrows hk.currentFrame)
      (h.keeps hi hk) hothers
    simpa using h.append hfirst hrest hr.keeps.toGrows

lemma runCases_traces :
    RunCases (fun e s a t => Traces V I P (e.storage s) s a.code a.place.toList t)
      (fun es s a t => Traces V I P (Storage.collector.sequence es s) s a.code a.place.toList t)
      (fun assigning l s a t => Traces V I P (Storage.collector.lvalue assigning l s) s a.code a.place.toList t)
      (fun params es s a t => a.2.length = params.length ∧ Traces V I P (Storage.collector.sequence es s) s a.1 a.2 t)
      (fun target _ _ fields s a t => P s s.currentFrame (.temp target) →
        Traces V I P (Storage.collector.inits fields s) s a [] t)
      (fun groups s => TracesGroup V I P (Storage.collector.groups groups s) s)
      (fun group s => TracesGroup V I P (Storage.collector.group group s) s)
      (fun members declared s a t => (∀ d ∈ declared, s.Opens d) → I s →
        (∀ v ∈ Storage.collector.bodies members declared s, V v) → Traced P declared s t a) :=
  { operandCases_traces h, controlCases_traces h, aggregateCases_traces h, declarationCases_traces h with }

lemma traces_lowerExpr (expression : Expr) {a : Lowered} (hm : lowerExpr expression s = (a, t))
    (hs : s.Sound) (hi : I s) (hv : ∀ v ∈ expression.storage s, V v) (ht : t.errors = []) :
    Traced P [] s t a.code ∧ ∀ place ∈ a.place.toList, P t s.currentFrame place :=
  ((runCases_traces h).lowerExpr expression hm hs ht).holds hi hv

lemma traced_analyze {expression : Expr} (hi : I .initial) (hv : ∀ v ∈ expression.storage .initial, V v)
    (he : (analyze expression).1 = []) :
    Traced P [] .initial (lowerExpr expression .initial).2 (analyze expression).2.codes := by
  rw [codes_analyze he]
  exact (traces_lowerExpr h expression rfl sound_initial hi hv he).1

end

lemma usage_drawn : Usage (fun _ => True) Drawn (fun s _ access => Temp.Below s.supply.temps access.temps) where
  later hg hp := hp.mono hg.temps
  int _ _ _ := by simp [Access.int, Access.temps]
  word _ _ := by simp [Access.word, Access.temps]
  string _ _ := by simp [Access.temps]
  memory _ _ hb ho := by simpa [Access.temps] using ⟨hb, ho⟩
  own hh := by simpa [Access.temps] using hh.2
  variablePlace hi hfound hnote := by
    have hdrawn := ((keeps.noteUse _).apply hnote).drawn hi
    rw [Drawn, ((keeps.noteUse _).apply hnote).values] at hdrawn
    simpa [Access.temps] using hdrawn _ _ (ScopeStack.binds_of_get? hfound)
  kept hi hg hv _ _ name info hb := (hi name info (hv ▸ hb)).trans_le hg.temps
  openScope hi name info hb := hi name info (ScopeStack.binds_open hb)
  openFunction hi _ name info hb := hi name info (ScopeStack.binds_open hb)
  putVariable _ _ hi hh _ other info hb := by
    rcases ScopeStack.binds_put hb with ⟨-, he⟩ | hb
    · cases he
      exact hh.2
    · exact hi other info hb
  putFunction _ _ _ hi other info hb := by
    rcases ScopeStack.binds_put hb with ⟨-, he⟩ | hb
    · cases he
    · exact hi other info hb

lemma draws_lowerExpr (expression : Expr) {s t : Analyzer} {a : Lowered} (hm : lowerExpr expression s = (a, t))
    (hs : s.Sound) (hd : s.Drawn) (ht : t.errors = []) : Draws s t a.code a.place.toList := by
  obtain ⟨htraced, hplaces⟩ := traces_lowerExpr usage_drawn expression hm hs hd (fun _ _ => trivial) ht
  refine ⟨fun l => by simpa using htraced.labels l, fun temp htemp => ?_, fun temp htemp => ?_⟩
  · obtain ⟨op, hop, hread⟩ := List.mem_flatMap.mp htemp
    rw [Tac.temps_eq_flatMap] at hread
    obtain ⟨access, ha, htemp⟩ := List.mem_flatMap.mp hread
    exact htraced.accesses op hop access ha temp htemp
  · obtain ⟨place, hplace, htemp⟩ := List.mem_flatMap.mp htemp
    exact hplaces place hplace temp htemp

lemma draws_analyze {expression : Expr} (h : (analyze expression).1 = []) :
    Draws .initial (lowerExpr expression .initial).2 (analyze expression).2.codes
      (lowerExpr expression .initial).1.place.toList := by
  rw [codes_analyze h]
  exact draws_lowerExpr expression rfl sound_initial drawn_initial h

lemma nodup_labels_analyze {expression : Expr} (h : (analyze expression).1 = []) :
    (Code.labels (analyze expression).2.codes).Nodup :=
  (draws_analyze h).nodup ((lowers_lowerExpr expression).keeps .initial).toGrows

variable {s t : Analyzer} {codes : List Code}

lemma drawn_lowerGroup (group : Group) (hm : lowerGroup group s = (codes, t)) (hs : s.Sound) (hd : s.Drawn)
    (ht : t.errors = []) : t.Drawn :=
  (((runCases_traces usage_drawn).lowerGroup group hm hs ht).holds hd fun _ _ => trivial).2

lemma drawn_lowerGroups (groups : List Group) (hm : lowerGroups groups s = (codes, t)) (hs : s.Sound) (hd : s.Drawn)
    (ht : t.errors = []) : t.Drawn :=
  (((runCases_traces usage_drawn).lowerGroups groups hm hs ht).holds hd fun _ _ => trivial).2

end Analysis

end TigerMips
