import TigerMips.Proofs.Eval.Basic

/-! Operands whose values do not change before they are used. It makes no difference when they are
read. -/

namespace TigerMips

mutual

def Expr.source (here : Path) (names : Names) : Expr → Option Path
  | .lvalue _ (.var _ name) => names.lookup name.name
  | .sequence _ expressions => sequenceSource here names expressions
  | .letIn _ groups body => sequenceSource (1 :: here) (names.declare (0 :: here) groups) body
  | _ => none

def sequenceSource (here : Path) (names : Names) : List Expr → Option Path
  | [] => none
  | [expression] => expression.source (0 :: here) names
  | _ :: rest => sequenceSource (1 :: here) names rest

end

mutual

def Expr.writes (here : Path) (names : Names) : Expr → List Path
  | .assign _ (.var _ name) value =>
    (names.lookup name.name).toList ++ value.writes (0 :: here) names
  | .operation _ _ _ lhs rhs => lhs.writes (0 :: here) names ++ rhs.writes (1 :: here) names
  | .negate _ operand => operand.writes (0 :: here) names
  | .call _ _ arguments => sequenceWrites here names arguments
  | .sequence _ expressions => sequenceWrites here names expressions
  | .ifThen _ condition positive =>
    condition.writes (0 :: here) names ++ positive.writes (1 :: here) names
  | .ifThenElse _ condition positive negative =>
    condition.writes (0 :: here) names ++
      (positive.writes (1 :: here) names ++ negative.writes (2 :: here) names)
  | .whileLoop _ condition body => condition.writes (0 :: here) names ++ body.writes (1 :: here) names
  | .forLoop _ counter first last body =>
    here :: (first.writes (0 :: here) names ++ (last.writes (1 :: here) names ++
      body.writes (2 :: here) ((counter.name, here) :: names)))
  | .letIn _ groups body =>
    groupsWrites (0 :: here) names groups ++
      sequenceWrites (1 :: here) (names.declare (0 :: here) groups) body
  | .array _ _ size init => size.writes (0 :: here) names ++ init.writes (1 :: here) names
  | _ => []

def sequenceWrites (here : Path) (names : Names) : List Expr → List Path
  | [] => []
  | expression :: rest => expression.writes (0 :: here) names ++ sequenceWrites (1 :: here) names rest

def groupsWrites (here : Path) (names : Names) : List Group → List Path
  | [] => []
  | group :: rest => group.writes (0 :: here) names ++
    groupsWrites (1 :: here) (group.declare (0 :: here) names) rest

def Group.writes (here : Path) (names : Names) : Group → List Path
  | .var _ _ value => here :: value.writes (0 :: here) names
  | .types _ | .functions _ => []

end

def settled (source : Option Path) (writes : List Path) : Bool := source.all (· ∉ writes)

mutual

/-- No operand is the value of a variable that a later operand of the same operation writes. -/
def Expr.steady (here : Path) (names : Names) : Expr → Bool
  | .assign _ _ value => value.steady (0 :: here) names
  | .operation _ operator _ lhs rhs =>
    lhs.steady (0 :: here) names && rhs.steady (1 :: here) names &&
      match operator with
      | .strict _ => settled (lhs.source (0 :: here) names) (rhs.writes (1 :: here) names)
      | .and | .or => true
  | .negate _ operand => operand.steady (0 :: here) names
  | .call _ _ arguments => argumentsSteady here names arguments
  | .sequence _ expressions => sequenceSteady here names expressions
  | .ifThen _ condition positive =>
    condition.steady (0 :: here) names && positive.steady (1 :: here) names
  | .ifThenElse _ condition positive negative =>
    condition.steady (0 :: here) names &&
      (positive.steady (1 :: here) names && negative.steady (2 :: here) names)
  | .whileLoop _ condition body =>
    condition.steady (0 :: here) names && body.steady (1 :: here) names
  | .forLoop _ counter first last body =>
    first.steady (0 :: here) names && last.steady (1 :: here) names &&
      body.steady (2 :: here) ((counter.name, here) :: names) &&
      settled (first.source (0 :: here) names) (last.writes (1 :: here) names)
  | .letIn _ groups body =>
    groupsSteady (0 :: here) names groups &&
      sequenceSteady (1 :: here) (names.declare (0 :: here) groups) body
  | .array _ _ size init =>
    size.steady (0 :: here) names && init.steady (1 :: here) names &&
      settled (size.source (0 :: here) names) (init.writes (1 :: here) names)
  | .int _ _ | .string _ _ | .nil _ | .breakLoop _ | .lvalue _ _ | .record _ _ _ => true

def sequenceSteady (here : Path) (names : Names) : List Expr → Bool
  | [] => true
  | expression :: rest => expression.steady (0 :: here) names && sequenceSteady (1 :: here) names rest

def argumentsSteady (here : Path) (names : Names) : List Expr → Bool
  | [] => true
  | argument :: rest =>
    argument.steady (0 :: here) names && argumentsSteady (1 :: here) names rest &&
      settled (argument.source (0 :: here) names) (sequenceWrites (1 :: here) names rest)

def groupsSteady (here : Path) (names : Names) : List Group → Bool
  | [] => true
  | group :: rest => group.steady (0 :: here) names &&
    groupsSteady (1 :: here) (group.declare (0 :: here) names) rest

def Group.steady (here : Path) (names : Names) : Group → Bool
  | .var _ _ value => value.steady (0 :: here) names
  | .types _ | .functions _ => true

end

def Ending.cells? : Ending → Option Cells
  | done _ cells | broken cells => some cells
  | stopped _ => none

namespace Behavior

variable {writes others : List Path} {source : Option Path} {first body : Behavior}

def Spares (writes : List Path) (behavior : Behavior) : Prop :=
  ∀ ⦃cells ending after⦄, behavior cells = some ending → ending.cells? = some after →
    ∀ key ∉ writes, after key = cells key

def Reads (source : Option Path) (behavior : Behavior) : Prop :=
  ∀ ⦃cells reading after⦄, behavior cells = some (.done (some reading) after) →
    reading.source = source ∧ ∀ key, source = some key → after key = some reading.word

lemma Spares.mono (h : Spares writes first) (hs : writes ⊆ others) : Spares others first :=
  fun _ _ _ hb hc key hk => h hb hc key fun hm => hk (hs hm)

lemma Spares.left (h : Spares writes first) : Spares (writes ++ others) first :=
  h.mono (List.subset_append_left _ _)

lemma Spares.right (h : Spares others first) : Spares (writes ++ others) first :=
  h.mono (List.subset_append_right _ _)

lemma spares_fail : Spares writes fail := by
  rintro cells ending after ⟨⟩

lemma spares_give (value : Option Reading) : Spares writes (give value) := by
  rintro cells ending after ⟨⟩ ⟨⟩ key -
  rfl

lemma spares_leave : Spares writes leave := by
  rintro cells ending after ⟨⟩ ⟨⟩ key -
  rfl

lemma spares_read (key : Path) : Spares writes (read key) := by
  intro cells ending after hb hc other _
  obtain ⟨word, -, rfl⟩ := read_eq_some hb
  obtain rfl := Option.some.inj hc
  rfl

lemma spares_write {key : Path} (hk : key ∈ writes) (word : Word) : Spares writes (write key word) := by
  rintro cells ending after ⟨⟩ ⟨⟩ other ho
  have hne : other ≠ key := fun he => ho (he ▸ hk)
  exact Function.update_of_ne hne _ _

lemma Spares.andThen {next : Option Reading → Behavior} (hf : Spares writes first)
    (hn : ∀ value, Spares writes (next value)) : Spares writes (first.andThen next) := by
  intro cells ending after hb hc key hk
  rcases andThen_eq_some hb with ⟨value, middle, hfirst, hnext⟩ | ⟨hfirst, -⟩
  · exact (hn value hnext hc key hk).trans (hf hfirst rfl key hk)
  · exact hf hfirst hc key hk

lemma Spares.withValue {next : Reading → Behavior} (hf : Spares writes first)
    (hn : ∀ reading, Spares writes (next reading)) : Spares writes (first.withValue next) :=
  hf.andThen fun value => by
    cases value with
    | none => exact spares_fail
    | some reading => exact hn reading

lemma Spares.withUse {late : Bool} {reading : Reading} {next : Word → Behavior}
    (hn : ∀ word, Spares writes (next word)) : Spares writes (withUse late reading next) := by
  intro cells ending after hb hc key hk
  obtain ⟨word, -, hnext⟩ := withUse_eq_some hb
  exact hn word hnext hc key hk

lemma Spares.turn {next : Behavior} (hb : Spares writes body) (hn : Spares writes next) :
    Spares writes (body.turn next) := by
  intro cells ending after h hc key hk
  rcases turn_eq_some h with ⟨value, middle, hbody, hnext⟩ | ⟨left, hbody, rfl⟩ | ⟨request, hbody, rfl⟩
  · exact (hn hnext hc key hk).trans (hb hbody rfl key hk)
  · exact hb hbody hc key hk
  · cases hc

lemma Spares.ite {p : Prop} [Decidable p] {other : Behavior} (hf : Spares writes first) (ho : Spares writes other) :
    Spares writes (if p then first else other) := by
  split
  · exact hf
  · exact ho

lemma Spares.whileLoop (hf : Spares writes first) (hb : Spares writes body) (turns : Nat) :
    Spares writes (whileLoop first body turns) := by
  induction turns with
  | zero => exact spares_fail
  | succ turns ih => exact hf.withValue fun test => .ite (spares_give _) (hb.turn ih)

lemma Spares.countLoop {counter : Path} (hk : counter ∈ writes) (last : Word) (hb : Spares writes body) (turns : Nat) :
    Spares writes (countLoop counter last body turns) := by
  induction turns with
  | zero => exact spares_fail
  | succ turns ih =>
    have hstep : Spares writes (increment counter) := (spares_read counter).withValue fun count => spares_write hk _
    exact (spares_read counter).withValue fun count => .ite (spares_give _) (hb.turn (hstep.andThen fun _ => ih))

lemma spares_forLoop (late : Bool) (turns : Nat) {counter : Path} {last : Behavior} {written : List Path}
    (hf : Spares writes first) (hl : Spares others last) (hb : Spares written body) :
    Spares (counter :: (writes ++ (others ++ written))) (forLoop late turns counter first last body) := by
  have hcounter : counter ∈ counter :: (writes ++ (others ++ written)) := List.mem_cons_self
  refine (hf.mono (by grind)).withValue fun low => (hl.mono (by grind)).withValue fun high => .withUse fun word => ?_
  exact (spares_write hcounter word).andThen fun _ => .countLoop hcounter high.word (hb.mono (by grind)) turns

lemma spares_operation (late : Bool) (operator : Operator) (hf : Spares writes first) (hb : Spares writes body) :
    Spares writes (operation late operator first body) := by
  cases operator with
  | strict operator =>
    refine hf.withValue fun left => hb.withValue fun right => .withUse fun word => ?_
    cases operator.eval? word right.word with
    | none => exact spares_fail
    | some value => exact spares_give _
  | and | or => exact hf.withValue fun left => .ite (spares_give _) (hb.withValue fun right => spares_give _)

lemma spares_assignment (key : Option Path) (hf : Spares writes first) :
    Spares (key.toList ++ writes) (assignment key first) :=
  hf.right.withValue fun reading => by
    cases key with
    | none => exact spares_fail
    | some place => exact spares_write (by simp) _

lemma spares_call (late : Bool) (arguments : List Reading) : Spares writes (call late arguments) := by
  intro cells ending after hb hc
  obtain ⟨words, -, rfl⟩ := Option.map_eq_some_iff.mp hb
  cases hc

lemma reads_word (word : Word) : Reads none (give (some { word })) := by
  rintro cells reading after ⟨⟩
  exact ⟨rfl, by rintro key ⟨⟩⟩

lemma reads_nothing : Reads source (give none) := by
  rintro cells reading after ⟨⟩

lemma reads_fail : Reads source fail := by
  rintro cells reading after ⟨⟩

lemma reads_read (key : Path) : Reads (some key) (read key) := by
  intro cells reading after h
  obtain ⟨word, hword, he⟩ := read_eq_some h
  cases he
  exact ⟨rfl, by rintro other ⟨⟩; exact hword⟩

lemma Reads.andThen {next : Option Reading → Behavior} (hn : ∀ value, Reads source (next value)) :
    Reads source (first.andThen next) := by
  intro cells reading after h
  rcases andThen_eq_some h with ⟨value, middle, -, hnext⟩ | ⟨-, hleaves⟩
  · exact hn value hnext
  · exact hleaves.elim

lemma Reads.withValue {next : Reading → Behavior} (hn : ∀ reading, Reads source (next reading)) :
    Reads source (first.withValue next) :=
  .andThen fun value => by
    cases value with
    | none => exact reads_fail
    | some reading => exact hn reading

lemma Reads.withUse {late : Bool} {reading : Reading} {next : Word → Behavior} (hn : ∀ word, Reads source (next word)) :
    Reads source (withUse late reading next) := by
  intro cells value after h
  obtain ⟨word, -, hnext⟩ := withUse_eq_some h
  exact hn word hnext

lemma Reads.turn {next : Behavior} (hn : Reads source next) : Reads source (body.turn next) := by
  intro cells reading after h
  rcases turn_eq_some h with ⟨value, middle, -, hnext⟩ | ⟨left, -, he⟩ | ⟨request, -, he⟩
  · exact hn hnext
  · cases he
  · cases he

lemma Reads.ite {p : Prop} [Decidable p] {other : Behavior} (hf : Reads source first) (ho : Reads source other) :
    Reads source (if p then first else other) := by
  split
  · exact hf
  · exact ho

lemma reads_write (key : Path) (word : Word) : Reads source (write key word) := by
  rintro cells reading after ⟨⟩

lemma reads_operation (late : Bool) (operator : Operator) (lhs rhs : Behavior) :
    Reads none (operation late operator lhs rhs) := by
  cases operator with
  | strict operator =>
    refine .withValue fun left => .withValue fun right => .withUse fun word => ?_
    cases operator.eval? word right.word with
    | none => exact reads_fail
    | some value => exact reads_word _
  | and | or => exact .withValue fun left => .ite (reads_word _) (.withValue fun right => reads_word _)

lemma reads_assignment (key : Option Path) (value : Behavior) : Reads none (assignment key value) :=
  .withValue fun reading => by
    cases key with
    | none => exact reads_fail
    | some place => exact reads_write _ _

lemma reads_ifThenElse (condition positive negative : Behavior) :
    Reads none (ifThenElse condition positive negative) :=
  .withValue fun test => .andThen fun value => by
    cases value with
    | none => exact reads_nothing
    | some reading => exact reads_word _

lemma reads_whileLoop (condition body : Behavior) (turns : Nat) : Reads none (whileLoop condition body turns) := by
  induction turns with
  | zero => exact reads_fail
  | succ turns ih => exact .withValue fun test => .ite reads_nothing (.turn ih)

lemma reads_countLoop (counter : Path) (last : Word) (body : Behavior) (turns : Nat) :
    Reads none (countLoop counter last body turns) := by
  induction turns with
  | zero => exact reads_fail
  | succ turns ih => exact .withValue fun count => .ite reads_nothing (.turn (.andThen fun _ => ih))

lemma reads_call (late : Bool) (arguments : List Reading) : Reads none (call late arguments) := by
  intro cells reading after h
  obtain ⟨words, -, he⟩ := Option.map_eq_some_iff.mp h
  cases he

end Behavior

mutual

lemma spares_behavior (late : Bool) (turns : Nat) (here : Path) (names : Names) (expression : Expr) :
    Behavior.Spares (expression.writes here names) (expression.behavior late turns here names) := by
  cases expression with
  | int _ _ => exact Behavior.spares_give _
  | string _ _ | nil _ | record _ _ _ => exact Behavior.spares_fail
  | breakLoop _ => exact Behavior.spares_leave
  | lvalue _ lvalue =>
    cases lvalue with
    | var _ name =>
      simp only [Expr.behavior]
      cases names.lookup name.name with
      | none => exact Behavior.spares_fail
      | some key => exact Behavior.spares_read key
    | field _ _ _ | subscript _ _ _ => exact Behavior.spares_fail
  | assign _ target value =>
    have hvalue := spares_behavior late turns (0 :: here) names value
    cases target with
    | var _ name => exact Behavior.spares_assignment _ hvalue
    | field _ _ _ | subscript _ _ _ => exact Behavior.spares_fail
  | operation _ operator _ lhs rhs =>
    have hlhs := spares_behavior late turns (0 :: here) names lhs
    have hrhs := spares_behavior late turns (1 :: here) names rhs
    exact Behavior.spares_operation late operator hlhs.left hrhs.right
  | negate _ operand =>
    exact (spares_behavior late turns (0 :: here) names operand).withValue fun _ => Behavior.spares_give _
  | call _ _ arguments => exact spares_argumentsBehavior late turns here names [] arguments
  | sequence _ expressions => exact spares_sequenceBehavior late turns here names expressions
  | ifThen _ condition positive =>
    have hc := spares_behavior late turns (0 :: here) names condition
    have hp := spares_behavior late turns (1 :: here) names positive
    exact hc.left.withValue fun test => .ite (Behavior.spares_give _)
      (hp.right.andThen fun _ => Behavior.spares_give _)
  | ifThenElse _ condition positive negative =>
    have hc := spares_behavior late turns (0 :: here) names condition
    have hp := spares_behavior late turns (1 :: here) names positive
    have hn := spares_behavior late turns (2 :: here) names negative
    exact hc.left.withValue fun test =>
      (Behavior.Spares.ite hn.right.right hp.left.right).andThen fun _ => Behavior.spares_give _
  | whileLoop _ condition body =>
    have hc := spares_behavior late turns (0 :: here) names condition
    have hb := spares_behavior late turns (1 :: here) names body
    exact hc.left.whileLoop hb.right turns
  | forLoop _ counter first last body =>
    have hf := spares_behavior late turns (0 :: here) names first
    have hl := spares_behavior late turns (1 :: here) names last
    have hb := spares_behavior late turns (2 :: here) ((counter.name, here) :: names) body
    exact Behavior.spares_forLoop late turns hf hl hb
  | letIn _ groups body =>
    have hg := spares_groupsBehavior late turns (0 :: here) names groups
    have hb := spares_sequenceBehavior late turns (1 :: here) (names.declare (0 :: here) groups) body
    exact hg.left.andThen fun _ => hb.right
  | array _ _ size init =>
    have hs := spares_behavior late turns (0 :: here) names size
    have hi := spares_behavior late turns (1 :: here) names init
    refine hs.left.withValue fun count => hi.right.withValue fun _ => .withUse fun word => ?_
    rintro cells ending after ⟨⟩ ⟨⟩

lemma spares_sequenceBehavior (late : Bool) (turns : Nat) (here : Path) (names : Names) (expressions : List Expr) :
    Behavior.Spares (sequenceWrites here names expressions) (sequenceBehavior late turns here names expressions) := by
  match expressions with
  | [] => exact Behavior.spares_give _
  | [expression] => exact (spares_behavior late turns (0 :: here) names expression).mono (by simp [sequenceWrites])
  | expression :: second :: rest =>
    have hfirst := spares_behavior late turns (0 :: here) names expression
    have hrest := spares_sequenceBehavior late turns (1 :: here) names (second :: rest)
    rw [sequenceBehavior, sequenceWrites]
    · exact hfirst.left.andThen fun _ => hrest.right
    · simp

lemma spares_argumentsBehavior (late : Bool) (turns : Nat) (here : Path) (names : Names) (evaluated : List Reading)
    (arguments : List Expr) :
    Behavior.Spares (sequenceWrites here names arguments)
      (argumentsBehavior late turns here names evaluated arguments) := by
  cases arguments with
  | nil => exact Behavior.spares_call late evaluated
  | cons argument rest =>
    have hfirst := spares_behavior late turns (0 :: here) names argument
    exact hfirst.left.withValue fun value =>
      (spares_argumentsBehavior late turns (1 :: here) names (evaluated ++ [value]) rest).right

lemma spares_groupsBehavior (late : Bool) (turns : Nat) (here : Path) (names : Names) (groups : List Group) :
    Behavior.Spares (groupsWrites here names groups) (groupsBehavior late turns here names groups) := by
  cases groups with
  | nil => exact Behavior.spares_give _
  | cons group rest =>
    have hfirst := spares_groupBehavior late turns (0 :: here) names group
    have hrest := spares_groupsBehavior late turns (1 :: here) (group.declare (0 :: here) names) rest
    exact hfirst.left.andThen fun _ => hrest.right

lemma spares_groupBehavior (late : Bool) (turns : Nat) (here : Path) (names : Names) (group : Group) :
    Behavior.Spares (group.writes here names) (group.behavior late turns here names) := by
  cases group with
  | var name _ value =>
    have hvalue := spares_behavior late turns (0 :: here) names value
    exact Behavior.spares_assignment (some here) hvalue
  | types _ | functions _ => exact Behavior.spares_give _

end

lemma reads_argumentsBehavior (late : Bool) (turns : Nat) (here : Path) (names : Names) (evaluated : List Reading)
    (arguments : List Expr) :
    Behavior.Reads none (argumentsBehavior late turns here names evaluated arguments) := by
  induction arguments generalizing here evaluated with
  | nil => exact Behavior.reads_call late evaluated
  | cons argument rest ih => exact .withValue fun value => ih (1 :: here) (evaluated ++ [value])

mutual

lemma reads_behavior (late : Bool) (turns : Nat) (here : Path) (names : Names) (expression : Expr) :
    Behavior.Reads (expression.source here names) (expression.behavior late turns here names) := by
  cases expression with
  | int _ _ => exact Behavior.reads_word _
  | string _ _ | nil _ | record _ _ _ => exact Behavior.reads_fail
  | breakLoop _ => rintro cells reading after ⟨⟩
  | lvalue _ lvalue =>
    cases lvalue with
    | var _ name =>
      simp only [Expr.behavior, Expr.source]
      cases names.lookup name.name with
      | none => exact Behavior.reads_fail
      | some key => exact Behavior.reads_read key
    | field _ _ _ | subscript _ _ _ => exact Behavior.reads_fail
  | assign _ target value =>
    cases target with
    | var _ name => exact Behavior.reads_assignment _ _
    | field _ _ _ | subscript _ _ _ => exact Behavior.reads_fail
  | operation _ operator _ lhs rhs => exact Behavior.reads_operation _ _ _ _
  | negate _ operand => exact .withValue fun _ => Behavior.reads_word _
  | call _ _ arguments => exact reads_argumentsBehavior late turns here names [] arguments
  | sequence _ expressions => exact reads_sequenceBehavior late turns here names expressions
  | ifThen _ condition positive =>
    exact .withValue fun test => .ite Behavior.reads_nothing (.andThen fun _ => Behavior.reads_nothing)
  | ifThenElse _ condition positive negative => exact Behavior.reads_ifThenElse _ _ _
  | whileLoop _ condition body => exact Behavior.reads_whileLoop _ _ _
  | forLoop _ counter first last body =>
    exact .withValue fun low => .withValue fun high => .withUse fun word => .andThen fun _ =>
      Behavior.reads_countLoop _ _ _ _
  | letIn _ groups body =>
    exact .andThen fun _ => reads_sequenceBehavior late turns (1 :: here) (names.declare (0 :: here) groups) body
  | array _ _ size init =>
    refine .withValue fun count => .withValue fun _ => .withUse fun word => ?_
    rintro cells reading after ⟨⟩

lemma reads_sequenceBehavior (late : Bool) (turns : Nat) (here : Path) (names : Names) (expressions : List Expr) :
    Behavior.Reads (sequenceSource here names expressions) (sequenceBehavior late turns here names expressions) := by
  match expressions with
  | [] => exact Behavior.reads_nothing
  | [expression] => exact reads_behavior late turns (0 :: here) names expression
  | expression :: second :: rest =>
    rw [sequenceBehavior, sequenceSource]
    · exact .andThen fun _ => reads_sequenceBehavior late turns (1 :: here) names (second :: rest)
    all_goals simp

end

lemma settled_iff {source : Option Path} {writes : List Path} :
    settled source writes ↔ ∀ key, source = some key → key ∉ writes := by
  cases source <;> simp [settled]

lemma settled_append {source : Option Path} {writes others : List Path} :
    settled source (writes ++ others) ↔ settled source writes ∧ settled source others := by
  cases source <;> simp [settled]

def Reading.Current (cells : Cells) (reading : Reading) : Prop :=
  ∀ key, reading.source = some key → cells key = some reading.word

lemma Reading.Current.use_eq {cells : Cells} {reading : Reading} (h : reading.Current cells) (late : Bool) :
    reading.use late cells = some reading.word := by
  unfold use
  split
  · exact h _ ‹_›
  · rfl

lemma mapM_use_eq {cells : Cells} {readings : List Reading} (h : ∀ reading ∈ readings, reading.Current cells)
    (late : Bool) : readings.mapM (Reading.use late cells) = some (readings.map Reading.word) := by
  induction readings with
  | nil => rfl
  | cons reading rest ih =>
    obtain ⟨hfirst, hrest⟩ := List.forall_mem_cons.mp h
    simp [List.mapM_cons, hfirst.use_eq, ih hrest]

namespace Behavior

variable {writes : List Path} {source : Option Path} {lhs rhs : Behavior}

lemma Reads.current {cells after : Cells} {reading : Reading} (h : Reads source lhs)
    (hb : lhs cells = some (.done (some reading) after)) : reading.Current after := by
  obtain ⟨hsource, hcell⟩ := h hb
  intro key hk
  exact hcell key (hsource.symm.trans hk)

lemma Spares.current {cells after : Cells} {value : Option Reading} {reading : Reading} (h : Spares writes lhs)
    (hb : lhs cells = some (.done value after)) (hr : reading.Current cells) (hs : settled reading.source writes) :
    reading.Current after := by
  intro key hk
  rw [h hb rfl key (settled_iff.mp hs key hk)]
  exact hr key hk

lemma withValue_congr {first : Behavior} {next other : Reading → Behavior} {cells : Cells}
    (h : ∀ reading middle, first cells = some (.done (some reading) middle) →
      next reading middle = other reading middle) :
    first.withValue next cells = first.withValue other cells := by
  unfold withValue andThen
  split
  · rename_i value middle hfirst
    cases value with
    | none => rfl
    | some reading => exact h reading middle hfirst
  · rfl

lemma operands_eq (hl : Reads source lhs) (hr : Spares writes rhs) (hs : settled source writes)
    (next : Reading → Word → Behavior) :
    (lhs.withValue fun left => rhs.withValue fun right => withUse true left (next right)) =
      lhs.withValue fun left => rhs.withValue fun right => withUse false left (next right) := by
  funext cells
  refine withValue_congr fun left middle hleft => withValue_congr fun right after hright => ?_
  have hcurrent : left.Current after :=
    hr.current hright (hl.current hleft) (by rw [(hl hleft).1]; exact hs)
  simp only [withUse, hcurrent.use_eq]

end Behavior

mutual

lemma behavior_late_eq (turns : Nat) (here : Path) (names : Names) (expression : Expr)
    (h : expression.steady here names) :
    expression.behavior true turns here names = expression.behavior false turns here names := by
  cases expression with
  | int _ _ | string _ _ | nil _ | record _ _ _ | breakLoop _ => rfl
  | lvalue _ lvalue => cases lvalue <;> rfl
  | assign _ target value =>
    have hvalue := behavior_late_eq turns (0 :: here) names value h
    cases target with
    | var _ name => simp only [Expr.behavior, hvalue]
    | field _ _ _ | subscript _ _ _ => rfl
  | operation _ operator _ lhs rhs =>
    simp only [Expr.steady, Bool.and_eq_true] at h
    obtain ⟨⟨hl, hr⟩, hs⟩ := h
    simp only [Expr.behavior, behavior_late_eq turns (0 :: here) names lhs hl,
      behavior_late_eq turns (1 :: here) names rhs hr]
    cases operator with
    | strict operator =>
      exact Behavior.operands_eq (reads_behavior false turns (0 :: here) names lhs)
        (spares_behavior false turns (1 :: here) names rhs) hs _
    | and | or => rfl
  | negate _ operand => simp only [Expr.behavior, behavior_late_eq turns (0 :: here) names operand h]
  | call _ _ arguments =>
    funext cells
    exact argumentsBehavior_late_eq turns here names [] arguments cells h (by simp)
  | sequence _ expressions => exact sequenceBehavior_late_eq turns here names expressions h
  | ifThen _ condition positive =>
    simp only [Expr.steady, Bool.and_eq_true] at h
    simp only [Expr.behavior, behavior_late_eq turns (0 :: here) names condition h.1,
      behavior_late_eq turns (1 :: here) names positive h.2]
  | ifThenElse _ condition positive negative =>
    simp only [Expr.steady, Bool.and_eq_true] at h
    simp only [Expr.behavior, behavior_late_eq turns (0 :: here) names condition h.1,
      behavior_late_eq turns (1 :: here) names positive h.2.1, behavior_late_eq turns (2 :: here) names negative h.2.2]
  | whileLoop _ condition body =>
    simp only [Expr.steady, Bool.and_eq_true] at h
    simp only [Expr.behavior, behavior_late_eq turns (0 :: here) names condition h.1,
      behavior_late_eq turns (1 :: here) names body h.2]
  | forLoop _ counter first last body =>
    simp only [Expr.steady, Bool.and_eq_true] at h
    obtain ⟨⟨⟨hf, hl⟩, hb⟩, hs⟩ := h
    simp only [Expr.behavior, behavior_late_eq turns (0 :: here) names first hf,
      behavior_late_eq turns (1 :: here) names last hl, behavior_late_eq turns (2 :: here) _ body hb]
    exact Behavior.operands_eq (reads_behavior false turns (0 :: here) names first)
      (spares_behavior false turns (1 :: here) names last) hs _
  | letIn _ groups body =>
    simp only [Expr.steady, Bool.and_eq_true] at h
    simp only [Expr.behavior, groupsBehavior_late_eq turns (0 :: here) names groups h.1,
      sequenceBehavior_late_eq turns (1 :: here) _ body h.2]
  | array _ _ size init =>
    simp only [Expr.steady, Bool.and_eq_true] at h
    obtain ⟨⟨hz, hi⟩, hs⟩ := h
    simp only [Expr.behavior, behavior_late_eq turns (0 :: here) names size hz,
      behavior_late_eq turns (1 :: here) names init hi]
    exact Behavior.operands_eq (reads_behavior false turns (0 :: here) names size)
      (spares_behavior false turns (1 :: here) names init) hs _

lemma sequenceBehavior_late_eq (turns : Nat) (here : Path) (names : Names) (expressions : List Expr)
    (h : sequenceSteady here names expressions) :
    sequenceBehavior true turns here names expressions = sequenceBehavior false turns here names expressions := by
  match expressions with
  | [] => rfl
  | expression :: rest =>
    simp only [sequenceSteady, Bool.and_eq_true] at h
    cases rest with
    | nil => simp only [sequenceBehavior, behavior_late_eq turns (0 :: here) names expression h.1]
    | cons second rest =>
      simp only [sequenceBehavior, behavior_late_eq turns (0 :: here) names expression h.1,
        sequenceBehavior_late_eq turns (1 :: here) names (second :: rest) h.2]

lemma argumentsBehavior_late_eq (turns : Nat) (here : Path) (names : Names) (evaluated : List Reading)
    (arguments : List Expr) (cells : Cells) (h : argumentsSteady here names arguments)
    (he : ∀ reading ∈ evaluated, reading.Current cells ∧ settled reading.source (sequenceWrites here names arguments)) :
    argumentsBehavior true turns here names evaluated arguments cells =
      argumentsBehavior false turns here names evaluated arguments cells := by
  cases arguments with
  | nil =>
    have hcurrent : ∀ reading ∈ evaluated, reading.Current cells := fun reading hm => (he reading hm).1
    simp only [argumentsBehavior, Behavior.call, mapM_use_eq hcurrent]
  | cons argument rest =>
    simp only [argumentsSteady, Bool.and_eq_true] at h
    obtain ⟨⟨hfirst, hrest⟩, hs⟩ := h
    simp only [argumentsBehavior, behavior_late_eq turns (0 :: here) names argument hfirst]
    refine Behavior.withValue_congr fun value middle hvalue => ?_
    refine argumentsBehavior_late_eq turns (1 :: here) names _ rest middle hrest fun reading hm => ?_
    have hreads := reads_behavior false turns (0 :: here) names argument
    rcases List.mem_append.mp hm with hm | hm
    · obtain ⟨hcurrent, hsettled⟩ := he reading hm
      obtain ⟨hnow, hlater⟩ := settled_append.mp hsettled
      exact ⟨(spares_behavior false turns (0 :: here) names argument).current hvalue hcurrent hnow, hlater⟩
    · obtain rfl := List.mem_singleton.mp hm
      exact ⟨hreads.current hvalue, by rw [(hreads hvalue).1]; exact hs⟩

lemma groupsBehavior_late_eq (turns : Nat) (here : Path) (names : Names) (groups : List Group)
    (h : groupsSteady here names groups) :
    groupsBehavior true turns here names groups = groupsBehavior false turns here names groups := by
  cases groups with
  | nil => rfl
  | cons group rest =>
    simp only [groupsSteady, Bool.and_eq_true] at h
    simp only [groupsBehavior, groupBehavior_late_eq turns (0 :: here) names group h.1,
      groupsBehavior_late_eq turns (1 :: here) _ rest h.2]

lemma groupBehavior_late_eq (turns : Nat) (here : Path) (names : Names) (group : Group) (h : group.steady here names) :
    group.behavior true turns here names = group.behavior false turns here names := by
  cases group with
  | var name _ value => simp only [Group.behavior, behavior_late_eq turns (0 :: here) names value h]
  | types _ | functions _ => rfl

end

end TigerMips
