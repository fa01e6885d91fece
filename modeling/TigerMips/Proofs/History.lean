import TigerMips.Proofs.Scope

/-! Histories of a stack of scopes: which names are foreign after any of them, and that scopes which have been closed
again leave no trace. -/

namespace TigerMips

inductive ScopeStep (α : Type) where
  | openScope
  | openFunction
  | put (name : String) (entry : α)
  | close
  deriving Repr

namespace ScopeStep

variable {α : Type}

/-- The steps close the `depth` scopes that are open before them and all that they open, and no other one. Names are put
only into these scopes. -/
def Closes : Nat → List (ScopeStep α) → Prop
  | depth, [] => depth = 0
  | depth, .openScope :: rest => Closes (depth + 1) rest
  | depth, .openFunction :: rest => Closes (depth + 1) rest
  | depth, .put _ _ :: rest => 0 < depth ∧ Closes depth rest
  | depth, .close :: rest => 0 < depth ∧ Closes (depth - 1) rest

instance decidableCloses : ∀ (depth : Nat) (steps : List (ScopeStep α)), Decidable (Closes depth steps)
  | depth, [] => inferInstanceAs (Decidable (depth = 0))
  | depth, .openScope :: rest => decidableCloses (depth + 1) rest
  | depth, .openFunction :: rest => decidableCloses (depth + 1) rest
  | depth, .put _ _ :: rest =>
    have := decidableCloses depth rest
    inferInstanceAs (Decidable (0 < depth ∧ Closes depth rest))
  | depth, .close :: rest =>
    have := decidableCloses (depth - 1) rest
    inferInstanceAs (Decidable (0 < depth ∧ Closes (depth - 1) rest))

abbrev Balanced (steps : List (ScopeStep α)) : Prop := Closes 0 steps

end ScopeStep

namespace ScopeStack

variable {α : Type}

def step? (stack : ScopeStack α) : ScopeStep α → Option (ScopeStack α)
  | .openScope => some stack.openScope
  | .openFunction => some stack.openFunction
  | .put name entry => some (stack.put name entry)
  | .close => stack.close?

def run? (stack : ScopeStack α) (steps : List (ScopeStep α)) : Option (ScopeStack α) := steps.foldlM step? stack

def InFunction (stack : ScopeStack α) : Prop := ∃ scope ∈ stack.inner, scope.isFunction = true

lemma mem_names {scope : Scope α} {name : String} : name ∈ scope.names ↔ scope.binds name = true := by
  rw [Scope.names, Scope.binds, Scope.get?, List.lookup_isSome_iff, List.mem_map]
  simp only [beq_iff_eq, @eq_comm _ name]

lemma mem_locals {stack : ScopeStack α} {name : String} :
    name ∈ stack.locals ↔ (stack.localScopes.findIdx? (·.binds name)).isSome = true := by
  rw [List.findIdx?_isSome, List.any_eq_true]
  simp [locals, List.mem_flatMap, mem_names]

lemma mem_locals_of_functionDepth? {stack : ScopeStack α} {function : Nat} (h : stack.functionDepth? = some function)
    (name : String) : name ∈ stack.locals ↔ ∃ depth ≤ function, stack.depth? name = some depth := by
  have hscopes : stack.localScopes = stack.scopes.take (function + 1) := by simp only [localScopes, h]
  rw [mem_locals, hscopes, List.findIdx?_take]
  change ((stack.depth? name).bind _).isSome = true ↔ _
  cases stack.depth? name <;> simp [Option.isSome_guard]

lemma isForeign_iff_functionDepth? (stack : ScopeStack α) (name : String) : stack.isForeign name = true ↔
    stack.functionDepth?.isSome = true ∧ (stack.get? name).isSome = true ∧ name ∉ stack.locals := by
  rw [← isSome_depth?]
  cases hf : stack.functionDepth? with
  | none => cases hd : stack.depth? name <;> simp [isForeign, hf, hd]
  | some function =>
    rw [mem_locals_of_functionDepth? hf]
    cases hd : stack.depth? name <;> simp [isForeign, hf, hd]

lemma isFunction_global_step? {stack after : ScopeStack α} {step : ScopeStep α} (h : stack.step? step = some after) :
    after.global.isFunction = stack.global.isFunction := by
  cases step with
  | openScope | openFunction =>
    obtain rfl := Option.some.inj h
    rfl
  | put name entry =>
    obtain rfl := Option.some.inj h
    unfold put
    split <;> rfl
  | close =>
    simp only [step?, close?] at h
    split at h
    · cases h
    · obtain rfl := Option.some.inj h
      rfl

lemma isFunction_global_run? {stack after : ScopeStack α} {steps : List (ScopeStep α)}
    (h : stack.run? steps = some after) : after.global.isFunction = stack.global.isFunction := by
  induction steps generalizing stack with
  | nil => rw [← Option.some.inj h]
  | cons step rest ih =>
    obtain ⟨next, hstep, hrest⟩ := Option.bind_eq_some_iff.mp h
    rw [ih hrest, isFunction_global_step? hstep]

lemma isSome_functionDepth? {stack : ScopeStack α} (h : stack.global.isFunction = false) :
    stack.functionDepth?.isSome = true ↔ stack.InFunction := by
  rw [functionDepth?, List.findIdx?_isSome, List.any_eq_true]
  simp [scopes, InFunction, or_and_right, exists_or, h]

lemma run?_of_closes (inside outside : List (Scope α)) (global : Scope α) {steps : List (ScopeStep α)}
    (h : ScopeStep.Closes inside.length steps) : run? ⟨inside ++ outside, global⟩ steps = some ⟨outside, global⟩ := by
  induction steps generalizing inside with
  | nil =>
    rw [List.length_eq_zero_iff.mp h]
    rfl
  | cons step rest ih =>
    cases step with
    | openScope => exact ih ({} :: inside) h
    | openFunction => exact ih ({ isFunction := true } :: inside) h
    | put name entry =>
      obtain ⟨hpos, hrest⟩ := h
      obtain ⟨scope, inner, rfl⟩ := List.exists_cons_of_length_pos hpos
      exact ih (scope.put name entry :: inner) hrest
    | close =>
      obtain ⟨hpos, hrest⟩ := h
      obtain ⟨scope, inner, rfl⟩ := List.exists_cons_of_length_pos hpos
      exact ih inner hrest

lemma run?_of_balanced (stack : ScopeStack α) {steps : List (ScopeStep α)} (h : ScopeStep.Balanced steps) :
    stack.run? steps = some stack :=
  run?_of_closes [] stack.inner stack.global h

/-- After any history a name is foreign if it is found, but not among the names of the function around it. Scopes that
are opened and closed again change neither that nor what is found. -/
theorem isForeign_iff_of_history {history : List (ScopeStep α)} {stack : ScopeStack α}
    (h : run? {} history = some stack) :
    (∀ name, stack.isForeign name = true ↔
      stack.InFunction ∧ (stack.get? name).isSome = true ∧ name ∉ stack.locals) ∧
    ∀ steps, ScopeStep.Balanced steps → ∃ after, stack.run? steps = some after ∧ after.locals = stack.locals ∧
      ∀ name, after.get? name = stack.get? name ∧ after.isForeign name = stack.isForeign name := by
  refine ⟨fun name => ?_, fun steps hb => ⟨stack, run?_of_balanced stack hb, rfl, fun _ => ⟨rfl, rfl⟩⟩⟩
  rw [isForeign_iff_functionDepth?, isSome_functionDepth? (isFunction_global_run? h)]

def nestedFunction : List (ScopeStep Nat) :=
  [.put "outer" 0, .openScope, .put "count" 1, .put "step" 2, .openFunction, .put "step" 3, .openScope, .put "inner" 4]

theorem nestedFunction_foreign : ∃ stack, run? {} nestedFunction = some stack ∧ stack.isForeign "count" = true ∧
    stack.isForeign "step" = false ∧ stack.InFunction ∧ "count" ∉ stack.locals ∧
    ∃ after, stack.run? [.openFunction, .put "inner" 5, .openScope, .put "count" 6, .close, .close] = some after ∧
      after.isForeign "inner" = stack.isForeign "inner" := by
  obtain ⟨stack, hrun⟩ := Option.isSome_iff_exists.mp (show (run? {} nestedFunction).isSome by decide)
  have hcount : stack.isForeign "count" = true := by
    have : ((run? {} nestedFunction).map (·.isForeign "count")) = some true := by decide +kernel
    simpa [hrun] using this
  have hstep : stack.isForeign "step" = false := by
    have : ((run? {} nestedFunction).map (·.isForeign "step")) = some false := by decide +kernel
    simpa [hrun] using this
  obtain ⟨hforeign, hbalanced⟩ := isForeign_iff_of_history hrun
  obtain ⟨hfunction, -, hlocal⟩ := (hforeign "count").mp hcount
  obtain ⟨after, hafter, -, hsame⟩ := hbalanced
    [.openFunction, .put "inner" 5, .openScope, .put "count" 6, .close, .close] (by decide)
  exact ⟨stack, hrun, hcount, hstep, hfunction, hlocal, after, hafter, (hsame "inner").2⟩

end ScopeStack

end TigerMips
