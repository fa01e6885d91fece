import Mathlib.Tactic
import TigerMips.Ast
import TigerMips.Proofs.Store

/-! What expressions on integers do to the variables. Operands are evaluated from left to right. The value of a variable
can also be read late, when it is used. -/

namespace TigerMips

abbrev Path := List Nat

abbrev Cells := Path → Option Word

abbrev Names := List (String × Path)

structure Reading where
  word : Word
  source : Option Path := none

def Reading.use (late : Bool) (cells : Cells) (reading : Reading) : Option Word :=
  match late, reading.source with
  | true, some key => cells key
  | _, _ => some reading.word

inductive Request where
  | call (arguments : List Word)
  | array (size : Word)
  deriving DecidableEq

inductive Ending where
  | done (value : Option Reading) (cells : Cells)
  | broken (cells : Cells)
  | stopped (request : Request)

def Ending.Leaves : Ending → Prop
  | done _ _ => False
  | broken _ | stopped _ => True

abbrev Behavior := Cells → Option Ending

namespace Behavior

def fail : Behavior := fun _ => none

def give (value : Option Reading) : Behavior := fun cells => some (.done value cells)

def leave : Behavior := fun cells => some (.broken cells)

def read (key : Path) : Behavior := fun cells =>
  (cells key).map fun word => .done (some { word, source := key }) cells

def write (key : Path) (word : Word) : Behavior := fun cells =>
  some (.done none (Function.update cells key (some word)))

def andThen (first : Behavior) (next : Option Reading → Behavior) : Behavior := fun cells =>
  match first cells with
  | some (.done value cells) => next value cells
  | left => left

def withValue (first : Behavior) (next : Reading → Behavior) : Behavior :=
  first.andThen fun value => value.elim fail next

def withUse (late : Bool) (reading : Reading) (next : Word → Behavior) : Behavior := fun cells =>
  (reading.use late cells).bind (next · cells)

def negation (operand : Behavior) : Behavior :=
  operand.withValue fun value => give (some { word := -value.word })

def strict (late : Bool) (operator : BinaryOp) (lhs rhs : Behavior) : Behavior :=
  lhs.withValue fun left => rhs.withValue fun right => withUse late left fun word =>
    (operator.eval? word right.word).elim fail fun word => give (some { word })

def deciding (conjunction : Bool) (lhs rhs : Behavior) : Behavior :=
  lhs.withValue fun left =>
    if decide (left.word = 0) = conjunction then give (some { word := Word.ofBool !conjunction })
    else rhs.withValue fun right => give (some { word := Word.ofBool (right.word ≠ 0) })

def operation (late : Bool) : Operator → Behavior → Behavior → Behavior
  | .strict operator => strict late operator
  | .and => deciding true
  | .or => deciding false

def assignment (key : Option Path) (value : Behavior) : Behavior :=
  value.withValue fun reading => key.elim fail (write · reading.word)

def ifThen (condition positive : Behavior) : Behavior :=
  condition.withValue fun test =>
    if test.word = 0 then give none else positive.andThen fun _ => give none

def ifThenElse (condition positive negative : Behavior) : Behavior :=
  condition.withValue fun test =>
    (if test.word = 0 then negative else positive).andThen fun value =>
      give (value.map fun reading => { word := reading.word })

def turn (body next : Behavior) : Behavior := fun cells =>
  match body cells with
  | some (.done _ cells) => next cells
  | some (.broken cells) => some (.done none cells)
  | stopped => stopped

def whileLoop (condition body : Behavior) : Nat → Behavior
  | 0 => fail
  | turns + 1 => condition.withValue fun test =>
    if test.word = 0 then give none else body.turn (whileLoop condition body turns)

def increment (key : Path) : Behavior :=
  (read key).withValue fun count => write key (count.word + 1)

def countLoop (counter : Path) (last : Word) (body : Behavior) : Nat → Behavior
  | 0 => fail
  | turns + 1 => (read counter).withValue fun count =>
    if last < count.word then give none
    else body.turn ((increment counter).andThen fun _ => countLoop counter last body turns)

def forLoop (late : Bool) (turns : Nat) (counter : Path) (first last body : Behavior) : Behavior :=
  first.withValue fun low => last.withValue fun high => withUse late low fun word =>
    (write counter word).andThen fun _ => countLoop counter high.word body turns

def array (late : Bool) (size init : Behavior) : Behavior :=
  size.withValue fun count => init.withValue fun _ => withUse late count fun word _ =>
    some (.stopped (.array word))

def call (late : Bool) (arguments : List Reading) : Behavior := fun cells =>
  (arguments.mapM (Reading.use late cells)).map fun words => .stopped (.call words)

section

variable {first body : Behavior} {cells : Cells} {ending : Ending}

lemma andThen_eq_some {next : Option Reading → Behavior} (h : first.andThen next cells = some ending) :
    (∃ value middle, first cells = some (.done value middle) ∧ next value middle = some ending) ∨
      (first cells = some ending ∧ ending.Leaves) := by
  unfold andThen at h
  split at h
  · exact Or.inl ⟨_, _, ‹_›, h⟩
  · rename_i hnot
    refine Or.inr ⟨h, ?_⟩
    cases ending with
    | done value middle => exact (hnot value middle h).elim
    | broken _ | stopped _ => trivial

lemma withUse_eq_some {late : Bool} {reading : Reading} {next : Word → Behavior}
    (h : withUse late reading next cells = some ending) :
    ∃ word, reading.use late cells = some word ∧ next word cells = some ending :=
  Option.bind_eq_some_iff.mp h

lemma turn_eq_some {next : Behavior} (h : body.turn next cells = some ending) :
    (∃ value middle, body cells = some (.done value middle) ∧ next middle = some ending) ∨
      (∃ left, body cells = some (.broken left) ∧ ending = .done none left) ∨
      ∃ request, body cells = some (.stopped request) ∧ ending = .stopped request := by
  unfold turn at h
  cases hbody : body cells with
  | none => simp [hbody] at h
  | some result =>
    rw [hbody] at h
    cases result with
    | done value middle => exact Or.inl ⟨value, middle, rfl, h⟩
    | broken left => exact Or.inr (Or.inl ⟨left, rfl, (Option.some.inj h).symm⟩)
    | stopped request => exact Or.inr (Or.inr ⟨request, rfl, (Option.some.inj h).symm⟩)

lemma read_eq_some {key : Path} (h : read key cells = some ending) :
    ∃ word, cells key = some word ∧ ending = .done (some { word, source := key }) cells := by
  obtain ⟨word, hw, rfl⟩ := Option.map_eq_some_iff.mp h
  exact ⟨word, hw, rfl⟩

lemma read_withValue_eq_some {key : Path} {next : Reading → Behavior}
    (h : (read key).withValue next cells = some ending) :
    ∃ word, cells key = some word ∧ next { word, source := key } cells = some ending := by
  cases hc : cells key with
  | none => simp [withValue, andThen, read, hc] at h
  | some word => exact ⟨word, rfl, by simpa [withValue, andThen, read, hc] using h⟩

lemma increment_andThen_eq_some {key : Path} {next : Option Reading → Behavior}
    (h : (increment key).andThen next cells = some ending) :
    ∃ word, cells key = some word ∧ next none (Function.update cells key (some (word + 1))) = some ending := by
  cases hc : cells key with
  | none => simp [increment, withValue, andThen, read, hc] at h
  | some word => exact ⟨word, rfl, by simpa [increment, withValue, andThen, read, write, hc] using h⟩

end

end Behavior

def Group.declare (here : Path) (names : Names) : Group → Names
  | .var name _ _ => (name.name, here) :: names
  | .types _ | .functions _ => names

def Names.declare (here : Path) (names : Names) : List Group → Names
  | [] => names
  | group :: rest => declare (1 :: here) (group.declare (0 :: here) names) rest

mutual

/-- The behavior of the expression at `here`. Strings, nil, records, fields and elements have none. -/
def Expr.behavior (late : Bool) (turns : Nat) (here : Path) (names : Names) : Expr → Behavior
  | .int _ value => .give (some { word := value })
  | .breakLoop _ => .leave
  | .lvalue _ (.var _ name) => (names.lookup name.name).elim .fail .read
  | .assign _ (.var _ name) value =>
    .assignment (names.lookup name.name) (value.behavior late turns (0 :: here) names)
  | .operation _ operator _ lhs rhs =>
    .operation late operator (lhs.behavior late turns (0 :: here) names)
      (rhs.behavior late turns (1 :: here) names)
  | .negate _ operand => .negation (operand.behavior late turns (0 :: here) names)
  | .call _ _ arguments => argumentsBehavior late turns here names [] arguments
  | .sequence _ expressions => sequenceBehavior late turns here names expressions
  | .ifThen _ condition positive =>
    .ifThen (condition.behavior late turns (0 :: here) names)
      (positive.behavior late turns (1 :: here) names)
  | .ifThenElse _ condition positive negative =>
    .ifThenElse (condition.behavior late turns (0 :: here) names)
      (positive.behavior late turns (1 :: here) names)
      (negative.behavior late turns (2 :: here) names)
  | .whileLoop _ condition body =>
    .whileLoop (condition.behavior late turns (0 :: here) names)
      (body.behavior late turns (1 :: here) names) turns
  | .forLoop _ counter first last body =>
    .forLoop late turns here (first.behavior late turns (0 :: here) names)
      (last.behavior late turns (1 :: here) names)
      (body.behavior late turns (2 :: here) ((counter.name, here) :: names))
  | .letIn _ groups body =>
    (groupsBehavior late turns (0 :: here) names groups).andThen fun _ =>
      sequenceBehavior late turns (1 :: here) (names.declare (0 :: here) groups) body
  | .array _ _ size init =>
    .array late (size.behavior late turns (0 :: here) names)
      (init.behavior late turns (1 :: here) names)
  | .string _ _ | .nil _ | .lvalue _ _ | .assign _ _ _ | .record _ _ _ => .fail

def sequenceBehavior (late : Bool) (turns : Nat) (here : Path) (names : Names) :
    List Expr → Behavior
  | [] => .give none
  | [expression] => expression.behavior late turns (0 :: here) names
  | expression :: rest => (expression.behavior late turns (0 :: here) names).andThen fun _ =>
    sequenceBehavior late turns (1 :: here) names rest

def argumentsBehavior (late : Bool) (turns : Nat) (here : Path) (names : Names)
    (evaluated : List Reading) : List Expr → Behavior
  | [] => .call late evaluated
  | argument :: rest => (argument.behavior late turns (0 :: here) names).withValue fun value =>
    argumentsBehavior late turns (1 :: here) names (evaluated ++ [value]) rest

def groupsBehavior (late : Bool) (turns : Nat) (here : Path) (names : Names) :
    List Group → Behavior
  | [] => .give none
  | group :: rest => (group.behavior late turns (0 :: here) names).andThen fun _ =>
    groupsBehavior late turns (1 :: here) (group.declare (0 :: here) names) rest

def Group.behavior (late : Bool) (turns : Nat) (here : Path) (names : Names) : Group → Behavior
  | .var _ _ value => .assignment (some here) (value.behavior late turns (0 :: here) names)
  | .types _ | .functions _ => .give none

end

def Expr.evaluate (late : Bool) (turns : Nat) (program : Expr) : Option Ending :=
  program.behavior late turns [] [] fun _ => none

end TigerMips
