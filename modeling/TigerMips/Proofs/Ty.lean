import Mathlib.Tactic
import TigerMips.Ty

/-! Types in a program: which of them names, variables and expressions can have. -/

namespace TigerMips

namespace Ty

def isPlain : Ty → Bool
  | int | string | name _ _ => true
  | void | nil | array _ _ | record _ _ => false

def isFormed : Ty → Bool
  | array _ element => element.isPlain
  | record _ fields => fields.all (·.2.isPlain)
  | _ => true

def isSolid : Ty → Bool
  | void | nil => false
  | ty => ty.isFormed

def isGiven : Ty → Bool
  | array _ element => element.isPlain
  | record _ fields => fields.isEmpty
  | _ => true

def isHeld : Ty → Bool
  | void | nil => false
  | ty => ty.isGiven

lemma isSolid_of_isPlain {ty : Ty} (h : ty.isPlain) : ty.isSolid := by cases ty <;> first | rfl | cases h

lemma isHeld_of_isPlain {ty : Ty} (h : ty.isPlain) : ty.isHeld := by cases ty <;> first | rfl | cases h

lemma isGiven_of_isHeld {ty : Ty} (h : ty.isHeld) : ty.isGiven := by cases ty <;> first | exact h | cases h

lemma isSolid_of_isHeld {ty : Ty} (h : ty.isHeld) : ty.isSolid := by
  cases ty with
  | record identity fields =>
    obtain rfl := List.isEmpty_iff.mp h
    rfl
  | _ => exact h

lemma isPlain_of_field? {fields : List (String × Ty)} (h : fields.all (·.2.isPlain)) {name : String} {index : Nat}
    {ty : Ty} (hf : field? fields name = some (index, ty)) : ty.isPlain := by
  obtain ⟨found, hm, he⟩ := Option.map_eq_some_iff.mp hf
  obtain ⟨rfl, rfl⟩ := Prod.mk.inj he
  have hmem := List.mem_zipIdx_iff_getElem?.mp (List.mem_of_find?_eq_some hm)
  exact List.all_eq_true.mp h _ (List.mem_of_getElem? hmem)

end Ty

namespace TypeTable

def Sound (table : TypeTable) : Prop := ∀ id ty, table.binding? id = some ty → ty.isSolid

variable {table : TypeTable}

lemma isSolid_follow (h : table.Sound) (steps : Nat) {ty : Ty} (ht : ty.isSolid) : (table.follow steps ty).isSolid := by
  induction steps generalizing ty with
  | zero => exact ht
  | succ steps ih =>
    cases ty with
    | name id text =>
      unfold follow
      cases hb : table.binding? id with
      | none => rfl
      | some bound => exact ih (h id bound hb)
    | _ => exact ht

lemma isSolid_actual (h : table.Sound) {ty : Ty} (ht : ty.isSolid) : (table.actual ty).isSolid :=
  isSolid_follow h _ ht

lemma actual_eq_void_of_fits_left {needed : Ty} (hf : table.fits .void needed) : table.actual needed = .void := by
  have hv : table.actual .void = .void := rfl
  unfold fits at hf
  rw [hv] at hf
  cases ha : table.actual needed with
  | void => rfl
  | _ =>
    rw [ha] at hf
    cases hf

lemma actual_eq_void_of_fits_right {given : Ty} (hf : table.fits given .void) : table.actual given = .void := by
  have hv : table.actual .void = .void := rfl
  unfold fits at hf
  rw [hv] at hf
  cases ha : table.actual given with
  | void => rfl
  | _ =>
    rw [ha] at hf
    cases hf

lemma ne_void_of_fits (h : table.Sound) {given needed : Ty} (hn : needed.isSolid) (hf : table.fits given needed) :
    given ≠ .void := by
  rintro rfl
  have hs := isSolid_actual h hn
  rw [actual_eq_void_of_fits_left hf] at hs
  cases hs

lemma actual_eq_int_of_fits {given needed : Ty} (hg : table.actual given = .int) (hf : table.fits given needed) :
    table.actual needed = .int := by
  unfold fits at hf
  rw [hg] at hf
  cases ha : table.actual needed with
  | int => rfl
  | _ =>
    rw [ha] at hf
    cases hf

lemma binding?_of_isPrefix {others : TypeTable} (h : table.bindings.items <+: others.bindings.items) {id : TypeNameId}
    {bound : Ty} (hb : table.binding? id = some bound) : others.binding? id = some bound := by
  obtain ⟨more, he⟩ := h
  have hi : table.bindings.items[id.position]? = some (some bound) := Option.join_eq_some_iff.mp hb
  have hlt : id.position < table.bindings.items.length := (List.getElem?_eq_some_iff.mp hi).1
  refine Option.join_eq_some_iff.mpr ?_
  change others.bindings.items[_]? = _
  rw [← he, List.getElem?_append_left hlt, hi]

lemma follow_eq_int_of_prefix {others : TypeTable} (h : table.bindings.items <+: others.bindings.items) (steps : Nat)
    {ty : Ty} (ht : table.follow steps ty = .int) : others.follow steps ty = .int := by
  induction steps generalizing ty with
  | zero => exact ht
  | succ steps ih =>
    cases ty with
    | name id text =>
      unfold follow at ht ⊢
      cases hb : table.binding? id with
      | none =>
        rw [hb] at ht
        cases ht
      | some bound =>
        rw [hb] at ht
        rw [binding?_of_isPrefix h hb]
        exact ih ht
    | _ => exact ht

lemma eq_of_actual (h : table.Sound) {ty found : Ty} (ha : table.actual ty = found) (hf : found.isSolid = false) :
    ty = found := by
  cases ty with
  | name id text =>
    have hs := isSolid_actual h (show (Ty.name id text).isSolid from rfl)
    rw [ha, hf] at hs
    cases hs
  | _ => exact ha

lemma isVoid_iff (h : table.Sound) {ty : Ty} : table.isVoid ty ↔ ty = .void := by
  constructor
  · intro hv
    unfold isVoid at hv
    split at hv
    · exact eq_of_actual h ‹_› rfl
    · cases hv
  · rintro rfl
    rfl

lemma isNil_iff (h : table.Sound) {ty : Ty} : table.isNil ty ↔ ty = .nil := by
  constructor
  · intro hv
    unfold isNil at hv
    split at hv
    · exact eq_of_actual h ‹_› rfl
    · cases hv
  · rintro rfl
    rfl

end TypeTable

end TigerMips
