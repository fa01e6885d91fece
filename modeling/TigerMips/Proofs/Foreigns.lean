import Mathlib.Order.Bounds.Basic
import TigerMips.Proofs.Function

/-! Closing a group of functions gives the least sets of foreign names that the calls of the group ask for. -/

namespace TigerMips.Function.Table

def names (functions : Table) (id : FunctionId) : Set String :=
  {name | ∃ f, functions.get? id = some f ∧ name ∈ f.foreigns}

def ClosedUnder (functions : Table) (group : List FunctionId) (family : FunctionId → Set String) : Prop :=
  ∀ id ∈ group, ∀ f, functions.get? id = some f → ∀ call ∈ f.invocations, functions.has call.callee →
    family call.callee \ {name | name ∈ call.locals} ⊆ family id

def closures (functions : Table) (group : List FunctionId) : Set (FunctionId → Set String) :=
  {family | functions.names ≤ family ∧ functions.ClosedUnder group family}

lemma closures_congr (functions : Table) {group other : List FunctionId} (h : ∀ id, id ∈ other ↔ id ∈ group) :
    functions.closures other = functions.closures group := by
  simp only [closures, ClosedUnder, h]

lemma mem_inherited {functions : Table} {call : Invocation} {name : String} :
    name ∈ functions.inherited call ↔ name ∈ functions.names call.callee ∧ name ∉ call.locals := by
  unfold inherited
  cases hc : functions.get? call.callee with
  | none => simp [names, hc]
  | some callee => simp [names, hc]

lemma mem_extended {functions : Table} {caller : Function} {name : String} : name ∈ functions.extended caller ↔
    (∃ call ∈ caller.invocations, name ∈ functions.inherited call) ∨ name ∈ caller.foreigns := by
  rw [← List.mem_flatMap]
  exact List.mem_union_iff

variable {start functions : Table} {group : List FunctionId} {family : FunctionId → Set String}

namespace Closing

lemma invocations (h : Closing start group functions) {id : FunctionId} {f : Function}
    (hf : functions.get? id = some f) : ∃ before, start.get? id = some before ∧ before.invocations = f.invocations := by
  obtain ⟨before, hb⟩ := start.exists_get?.mpr (h.size ▸ functions.lt_size hf)
  obtain ⟨_, hg, added, rfl, -⟩ := h.adds id before hb
  obtain rfl := Option.some.inj (hf.symm.trans hg)
  exact ⟨before, hb, rfl⟩

lemma names_extend_le (h : Closing start group functions) (hc : start.ClosedUnder group family)
    (hle : functions.names ≤ family) {id : FunctionId} (hid : id ∈ group) : (functions.extend id).1.names ≤ family := by
  unfold extend
  cases hf : functions.get? id with
  | none => exact hle
  | some caller =>
    obtain ⟨before, hbefore, hcalls⟩ := h.invocations hf
    rintro other name ⟨f, hget, hn⟩
    rw [Arena.get?_set] at hget
    split at hget
    · rename_i hsame
      obtain rfl := Option.some.inj hget
      rw [hsame.1]
      rcases mem_extended.mp hn with ⟨call, hcall, hinherited⟩ | hown
      · obtain ⟨⟨callee, hcallee, hname⟩, hlocal⟩ := mem_inherited.mp hinherited
        have hhas : start.has call.callee := Arena.has_eq_true (h.size ▸ functions.lt_size hcallee)
        exact hc id hid before hbefore call (hcalls ▸ hcall) hhas ⟨hle _ ⟨callee, hcallee, hname⟩, hlocal⟩
      · exact hle id ⟨caller, hf, hown⟩
    · exact hle other ⟨f, hget, hn⟩

lemma extend (h : Closing start group functions) {id : FunctionId} (hid : id ∈ group) :
    Closing start group (functions.extend id).1 := by
  rcases h.extend_cases hid with ⟨he, -⟩ | ⟨hnext, -⟩
  · rwa [he]
  · exact hnext

lemma names_sweep_le (h : Closing start group functions) (hc : start.ClosedUnder group family)
    (hle : functions.names ≤ family) : (functions.sweep group).1.names ≤ family := by
  refine (List.foldlRecOn (motive := fun state : Table × Bool => Closing start group state.1 ∧ state.1.names ≤ family)
    group _ (b := (functions, false)) ⟨h, hle⟩ ?_).2
  intro state hstate id hid
  exact ⟨hstate.1.extend hid, hstate.1.names_extend_le hc hstate.2 hid⟩

end Closing

lemma names_closeForeigns_le (functions : Table) (hc : functions.ClosedUnder group family)
    (hle : functions.names ≤ family) : (functions.closeForeigns group).1.names ≤ family := by
  obtain ⟨state, ⟨hclosing, hnames⟩, -, hlast⟩ := (functions.closeForeigns_sweeps group).exists_last
    (P := fun state => Closing functions group state ∧ state.names ≤ family)
    (fun _ h => ⟨h.1.sweep_cases.1, h.1.names_sweep_le hc h.2⟩) ⟨.refl functions group, hle⟩
  exact hlast ▸ hclosing.names_sweep_le hc hnames

lemma names_closeForeigns_mem (functions : Table) (group : List FunctionId) :
    (functions.closeForeigns group).1.names ∈ functions.closures group := by
  obtain ⟨hclosing, hclosed⟩ := functions.closeForeigns_closed group
  constructor
  · rintro id name ⟨f, hf, hn⟩
    obtain ⟨_, hg, added, rfl, -⟩ := hclosing.adds id f hf
    exact ⟨_, hg, List.mem_append_right _ hn⟩
  · rintro id hid f hf call hcall - name hname
    obtain ⟨_, hg, added, rfl, -⟩ := hclosing.adds id f hf
    exact ⟨_, hg, hclosed id hid _ hg call hcall (mem_inherited.mpr hname)⟩

lemma isLeast_closeForeigns (functions : Table) (group : List FunctionId) :
    IsLeast (functions.closures group) (functions.closeForeigns group).1.names :=
  ⟨functions.names_closeForeigns_mem group, fun _ hfamily => functions.names_closeForeigns_le hfamily.2 hfamily.1⟩

structure ClosesTo (functions : Table) (group : List FunctionId) (result : Table) (sweeps : Nat) : Prop where
  stops : Sweeps (sweep group) functions result sweeps
  least : IsLeast (functions.closures group) result.names
  size : result.size = functions.size
  others : ∀ id ∉ group, result.get? id = functions.get? id
  fields : ∀ id f, functions.get? id = some f → ∃ foreigns, result.get? id = some { f with foreigns }

/-- Passing on the foreign names in a group of functions comes to an end, with the least sets that contain those
before and are closed under the calls of the group. Nothing else changes, and the order of the group and
repetitions in it make no difference. -/
theorem closesTo_closeForeigns (functions : Table) (group : List FunctionId) (h : ∀ id ∈ group, functions.has id) :
    ∃ result sweeps, functions.closeForeigns? group = some (result, sweeps) ∧
      functions.ClosesTo group result sweeps ∧
      ∀ other : List FunctionId, (∀ id, id ∈ other ↔ id ∈ group) → ∃ result' sweeps',
        functions.closeForeigns? other = some (result', sweeps') ∧ result'.names = result.names := by
  have hdefined : ∀ other : List FunctionId, (∀ id, id ∈ other ↔ id ∈ group) →
      functions.closeForeigns? other = some (functions.closeForeigns other) := fun other hsame =>
    if_pos (List.all_eq_true.mpr fun id hm => by
      simpa [Arena.has, Option.isSome_iff_exists, Arena.exists_get?] using h id ((hsame id).mp hm))
  refine ⟨_, _, hdefined group fun _ => Iff.rfl, ?_, fun other hsame => ⟨_, _, hdefined other hsame, ?_⟩⟩
  · obtain ⟨hclosing, -⟩ := functions.closeForeigns_closed group
    refine ⟨functions.closeForeigns_sweeps group, functions.isLeast_closeForeigns group, hclosing.size,
      hclosing.others, fun id f hf => ?_⟩
    obtain ⟨_, hg, added, rfl, -⟩ := hclosing.adds id f hf
    exact ⟨_, hg⟩
  · have hother := functions.isLeast_closeForeigns other
    rw [functions.closures_congr hsame] at hother
    exact hother.unique (functions.isLeast_closeForeigns group)

def mutualCallers : Table where
  items := [
    { name := "first", invocations := [⟨⟨1⟩, ["y"]⟩, ⟨⟨0⟩, []⟩, ⟨⟨7⟩, []⟩], foreigns := ["a"] },
    { name := "second", invocations := [⟨⟨0⟩, []⟩], foreigns := ["x", "y"] },
    { name := "outside", invocations := [⟨⟨1⟩, []⟩] }]

theorem mutualCallers_closesTo : (∀ id ∈ [⟨1⟩, ⟨0⟩, ⟨1⟩], mutualCallers.has id) ∧
    ∃ result sweeps, mutualCallers.closeForeigns? [⟨1⟩, ⟨0⟩, ⟨1⟩] = some (result, sweeps) ∧
      mutualCallers.ClosesTo [⟨1⟩, ⟨0⟩, ⟨1⟩] result sweeps ∧
      ∀ other : List FunctionId, (∀ id, id ∈ other ↔ id ∈ [⟨1⟩, ⟨0⟩, ⟨1⟩]) → ∃ result' sweeps',
        mutualCallers.closeForeigns? other = some (result', sweeps') ∧ result'.names = result.names := by
  have hin : ∀ id ∈ [⟨1⟩, ⟨0⟩, ⟨1⟩], mutualCallers.has id := by decide
  exact ⟨hin, closesTo_closeForeigns mutualCallers _ hin⟩

end TigerMips.Function.Table
