import Mathlib.Tactic
import TigerMips.Scope
import TigerMips.Ty

/-! Types that are declared after others. Their numbers are larger, and nothing else about them changes. -/

namespace TigerMips

def TypeNameId.after (earlier : TypeTable) (id : TypeNameId) : TypeNameId := ⟨earlier.bindings.size + id.position⟩

@[simp]
lemma TypeNameId.after_inj {earlier : TypeTable} {id other : TypeNameId} :
    after earlier id = after earlier other ↔ id = other := by
  cases id
  cases other
  simp [after]

namespace Ty

mutual

def after (earlier : TypeTable) : Ty → Ty
  | int => int
  | string => string
  | void => void
  | nil => nil
  | array identity element => array (earlier.identities + identity) (element.after earlier)
  | record identity fields => record (earlier.identities + identity) (fieldsAfter earlier fields)
  | name id text => name (TypeNameId.after earlier id) text

def fieldsAfter (earlier : TypeTable) : List (String × Ty) → List (String × Ty)
  | [] => []
  | (field, ty) :: rest => (field, ty.after earlier) :: fieldsAfter earlier rest

end

variable {earlier : TypeTable}

mutual

@[simp]
lemma text_after (ty : Ty) : (ty.after earlier).text = ty.text := by
  cases ty with
  | array identity element => simp [after, text, text_after element]
  | record identity fields => simp [after, text, fieldTexts_after fields]
  | _ => rfl

lemma fieldTexts_after (fields : List (String × Ty)) : fieldTexts (fieldsAfter earlier fields) = fieldTexts fields := by
  match fields with
  | [] => rfl
  | (field, ty) :: rest => simp [fieldsAfter, fieldTexts, text_after ty, fieldTexts_after rest]

end

mutual

@[simp]
lemma after_empty (ty : Ty) : ty.after {} = ty := by
  cases ty with
  | array identity element => simp [after, after_empty element]
  | record identity fields => simp [after, fieldsAfter_empty fields]
  | name id text => simp [after, TypeNameId.after, Arena.size]
  | _ => rfl

lemma fieldsAfter_empty (fields : List (String × Ty)) : fieldsAfter {} fields = fields := by
  match fields with
  | [] => rfl
  | (field, ty) :: rest => simp [fieldsAfter, after_empty ty, fieldsAfter_empty rest]

end

lemma fieldsAfter_eq_map (fields : List (String × Ty)) :
    fieldsAfter earlier fields = fields.map fun field => (field.1, field.2.after earlier) := by
  induction fields with
  | nil => rfl
  | cons field rest ih => simp [fieldsAfter, ih]

@[simp]
lemma length_fieldsAfter (fields : List (String × Ty)) : (fieldsAfter earlier fields).length = fields.length := by
  simp [fieldsAfter_eq_map]

lemma field?_after (fields : List (String × Ty)) (name : String) :
    field? (fieldsAfter earlier fields) name = (field? fields name).map fun found =>
      (found.1, found.2.after earlier) := by
  unfold field?
  rw [fieldsAfter_eq_map, List.zipIdx_map, List.find?_map, Option.map_map, Option.map_map]
  rfl

end Ty

namespace TypeTable

def append (earlier later : TypeTable) : TypeTable where
  bindings := ⟨earlier.bindings.items ++ later.bindings.items.map (Option.map (Ty.after earlier))⟩
  identities := earlier.identities + later.identities

variable {earlier : TypeTable} (table : TypeTable)

@[simp]
lemma append_empty : earlier.append {} = earlier := by simp [append]

@[simp]
lemma empty_append : append {} table = table := by
  simp [append, Option.map_id_fun', funext Ty.after_empty]

@[simp]
lemma next_append : (earlier.append table).bindings.next = TypeNameId.after earlier table.bindings.next := by
  simp [append, Arena.next, Arena.size, TypeNameId.after]

lemma push_append : (earlier.append table).bindings.push none =
    (earlier.append { table with bindings := table.bindings.push none }).bindings := by
  simp [append, Arena.push]

@[simp]
lemma bind_append (id : TypeNameId) (ty : Ty) :
    (earlier.append table).bind (TypeNameId.after earlier id) (ty.after earlier) = earlier.append
      (table.bind id ty) := by
  simp [append, bind, Arena.set, TypeNameId.after, Arena.size, List.set_append_right, List.map_set]

@[simp]
lemma binding?_append (id : TypeNameId) :
    (earlier.append table).binding? (TypeNameId.after earlier id) = (table.binding? id).map (Ty.after earlier) := by
  unfold binding?
  simp only [append, Arena.get?, TypeNameId.after, Arena.size, List.getElem?_append_right (Nat.le_add_right _ _),
    Nat.add_sub_cancel_left, List.getElem?_map]
  cases table.bindings.items[id.position]? <;> rfl

lemma follow_append (steps : Nat) (ty : Ty) :
    (earlier.append table).follow steps (ty.after earlier) = (table.follow steps ty).after earlier := by
  induction steps generalizing ty with
  | zero => cases ty <;> rfl
  | succ steps ih =>
    cases ty with
    | name id text =>
      simp only [Ty.after, follow, binding?_append]
      cases table.binding? id with
      | none => rfl
      | some bound => exact ih bound
    | _ => rfl

@[simp]
lemma actual_append (ty : Ty) : (earlier.append table).actual (ty.after earlier) = (table.actual ty).after earlier :=
  follow_append table maxChain ty

lemma leadsTo_append (goal : TypeNameId) (steps : Nat) (ty : Option Ty) :
    (earlier.append table).leadsTo (TypeNameId.after earlier goal) steps (ty.map (Ty.after earlier)) =
      table.leadsTo goal steps ty := by
  induction steps generalizing ty with
  | zero => cases ty <;> rfl
  | succ steps ih =>
    match ty with
    | some (.name id text) => simp [Ty.after, leadsTo, ih]
    | none | some .int | some .string | some .void | some .nil | some (.array _ _) | some (.record _ _) => rfl

@[simp]
lemma isCycle_append (id : TypeNameId) :
    (earlier.append table).isCycle (TypeNameId.after earlier id) = table.isCycle id := by
  simp [isCycle, leadsTo_append]

@[simp]
lemma fits_append (given needed : Ty) :
    (earlier.append table).fits (given.after earlier) (needed.after earlier) = table.fits given needed := by
  unfold fits
  rw [actual_append, actual_append]
  cases table.actual given <;> cases table.actual needed <;> simp [Ty.after]

@[simp]
lemma isInt_append (ty : Ty) : (earlier.append table).isInt (ty.after earlier) = table.isInt ty := by
  unfold isInt
  rw [actual_append]
  cases table.actual ty <;> rfl

@[simp]
lemma isString_append (ty : Ty) : (earlier.append table).isString (ty.after earlier) = table.isString ty := by
  unfold isString
  rw [actual_append]
  cases table.actual ty <;> rfl

@[simp]
lemma isVoid_append (ty : Ty) : (earlier.append table).isVoid (ty.after earlier) = table.isVoid ty := by
  unfold isVoid
  rw [actual_append]
  cases table.actual ty <;> rfl

@[simp]
lemma isNil_append (ty : Ty) : (earlier.append table).isNil (ty.after earlier) = table.isNil ty := by
  unfold isNil
  rw [actual_append]
  cases table.actual ty <;> rfl

@[simp]
lemma isReference_append (ty : Ty) : (earlier.append table).isReference (ty.after earlier) = table.isReference ty := by
  unfold isReference
  rw [actual_append]
  cases table.actual ty <;> rfl

end TypeTable

def Scope.map {α β : Type} (f : α → β) (scope : Scope α) : Scope β where
  bindings := scope.bindings.map fun binding => (binding.1, f binding.2)
  isFunction := scope.isFunction

namespace ScopeStack

variable {α β : Type} {f : α → β} (stack : ScopeStack α)

def map (f : α → β) (stack : ScopeStack α) : ScopeStack β where
  inner := stack.inner.map (Scope.map f)
  global := stack.global.map f

@[simp]
lemma map_id : stack.map (fun entry => entry) = stack := by
  have hscope : Scope.map (fun entry : α => entry) = id := funext fun scope => by simp [Scope.map]
  simp [map, hscope]

lemma scope_get?_map (scope : Scope α) (name : String) : (scope.map f).get? name = (scope.get? name).map f := by
  unfold Scope.get? Scope.map
  induction scope.bindings with
  | nil => rfl
  | cons binding rest ih =>
    obtain ⟨key, entry⟩ := binding
    simp only [List.map_cons, List.lookup_cons]
    cases name == key
    · exact ih
    · rfl

lemma scope_put_map (scope : Scope α) (name : String) (entry : α) :
    (scope.put name entry).map f = (scope.map f).put name (f entry) := by
  simp [Scope.map, Scope.put, List.filter_map, Function.comp_def]

@[simp]
lemma get?_map (name : String) : (stack.map f).get? name = (stack.get? name).map f := by
  have hscopes : (stack.map f).scopes = stack.scopes.map (Scope.map f) := by simp [scopes, map]
  unfold get?
  rw [hscopes]
  induction stack.scopes with
  | nil => rfl
  | cons scope rest ih =>
    simp only [List.map_cons, List.findSome?_cons, scope_get?_map]
    cases scope.get? name <;> simp [ih]

@[simp]
lemma put_map (name : String) (entry : α) : (stack.put name entry).map f = (stack.map f).put name (f entry) := by
  unfold put map
  cases stack.inner <;> simp [scope_put_map]

@[simp]
lemma openScope_map : stack.openScope.map f = (stack.map f).openScope := rfl

@[simp]
lemma openFunction_map : stack.openFunction.map f = (stack.map f).openFunction := rfl

@[simp]
lemma close_map : stack.close.map f = (stack.map f).close := by simp [map, close]

end ScopeStack

end TigerMips
