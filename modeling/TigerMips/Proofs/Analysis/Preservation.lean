import TigerMips.Proofs.Analysis.Meaning
import TigerMips.Proofs.Analysis.Tracing
import TigerMips.Proofs.Eval.Structured

/-! The code of a program does what the program does if operands are read when they are used. If no operand is
overwritten before it is used, that is what the program does from left to right. -/

namespace TigerMips

def Held (names : Names) (slots : List (Path × Temp)) (keys : List Path) : Prop :=
  ∀ key ∈ keys, key ∈ names.map Prod.snd ∨ key ∈ slots.map Prod.fst

section

variable {names inner : Names} {slots others : List (Path × Temp)} {keys more : List Path} {here : Path}

lemma held_nil : Held names slots [] := by simp [Held]

lemma held_names : Held names slots (names.map Prod.snd) := fun _ hk => Or.inl hk

lemma held_lookup (name : String) : Held names slots (names.lookup name).toList := by
  intro key hk
  obtain ⟨before, after, rfl, -⟩ := List.lookup_eq_some_iff.mp (Option.mem_toList.mp hk)
  simp

lemma Held.mono (h : Held names slots keys) (hs : slots ⊆ others) : Held names others keys :=
  fun key hk => (h key hk).imp_right fun hm => List.map_subset _ hs hm

lemma Held.scope (h : Held inner others more) (hn : Held names slots (inner.map Prod.snd)) :
    Held names (slots ++ others) more := by
  intro key hk
  rcases h key hk with hm | hm
  · exact hn.mono (List.subset_append_left _ _) key hm
  · exact Or.inr (List.map_subset _ (List.subset_append_right _ _) hm)

lemma Held.union (h : Held names slots keys) (h' : Held names slots more) : Held names slots (keys ++ more) :=
  fun key hk => (List.mem_append.mp hk).elim (h key) (h' key)

lemma Held.append (h : Held names slots keys) (h' : Held names others more) :
    Held names (slots ++ others) (keys ++ more) :=
  (h.mono (List.subset_append_left _ _)).union (h'.scope held_names)

lemma held_key (hs : here ∈ slots.map Prod.fst) : Held names slots [here] := by
  simpa [Held] using Or.inr hs

lemma held_declared (name : String) (hs : here ∈ slots.map Prod.fst) :
    Held names slots (((name, here) :: names).map Prod.snd) :=
  (held_key hs).union held_names

end

lemma held_group (here : Path) (names : Names) (group : Group) (s : Analyzer) :
    Held names (group.slots here s) ((group.declare here names).map Prod.snd) := by
  cases group with
  | var name ty value => exact held_declared name.name (by simp [Group.slots])
  | types _ | functions _ => exact held_names

lemma held_groups (here : Path) (names : Names) (groups : List Group) (s : Analyzer) :
    Held names (groupsSlots here groups s) ((names.declare here groups).map Prod.snd) := by
  induction groups generalizing here names s with
  | nil => exact held_names
  | cons group rest ih => exact (ih (1 :: here) _ _).scope (held_group (0 :: here) names group s)

mutual

lemma held_writes (here : Path) (names : Names) (expression : Expr) (s : Analyzer) :
    Held names (expression.slots here s) (expression.writes here names) := by
  cases expression with
  | assign _ target value =>
    cases target with
    | var _ name => exact (held_lookup name.name).union (held_writes (0 :: here) names value _)
    | field _ _ _ | subscript _ _ _ => exact held_nil
  | operation _ _ _ lhs rhs =>
    exact (held_writes (0 :: here) names lhs _).append (held_writes (1 :: here) names rhs _)
  | negate _ operand => exact held_writes (0 :: here) names operand _
  | call _ _ arguments => exact held_sequenceWrites here names arguments s
  | sequence _ expressions => exact held_sequenceWrites here names expressions s
  | ifThen _ condition positive =>
    exact (held_writes (0 :: here) names condition _).append (held_writes (1 :: here) names positive _)
  | ifThenElse _ condition positive negative =>
    exact (held_writes (0 :: here) names condition _).append
      ((held_writes (1 :: here) names positive _).append (held_writes (2 :: here) names negative _))
  | whileLoop _ condition body =>
    exact (held_writes (0 :: here) names condition _).append (held_writes (1 :: here) names body _)
  | forLoop _ counter first last body =>
    have hcounter (temp : Temp) : Held names [(here, temp)] (((counter.name, here) :: names).map Prod.snd) :=
      held_declared counter.name (by simp)
    have hbody := held_writes (2 :: here) ((counter.name, here) :: names) body
    exact (held_key (by simp [Expr.slots])).union ((held_writes (0 :: here) names first _).append
      ((held_writes (1 :: here) names last _).append ((hbody _).scope (hcounter _))))
  | letIn _ groups body =>
    exact ((held_groupsWrites (0 :: here) names groups _).mono (List.subset_append_left _ _)).union
      ((held_sequenceWrites (1 :: here) _ body _).scope (held_groups (0 :: here) names groups _))
  | array _ _ size init =>
    exact (held_writes (0 :: here) names size _).append (held_writes (1 :: here) names init _)
  | int | string | nil | breakLoop | lvalue | record => exact held_nil

lemma held_sequenceWrites (here : Path) (names : Names) (expressions : List Expr) (s : Analyzer) :
    Held names (sequenceSlots here expressions s) (sequenceWrites here names expressions) := by
  cases expressions with
  | nil => exact held_nil
  | cons expression rest =>
    exact (held_writes (0 :: here) names expression _).append (held_sequenceWrites (1 :: here) names rest _)

lemma held_groupsWrites (here : Path) (names : Names) (groups : List Group) (s : Analyzer) :
    Held names (groupsSlots here groups s) (groupsWrites here names groups) := by
  cases groups with
  | nil => exact held_nil
  | cons group rest =>
    exact ((held_groupWrites (0 :: here) names group s).mono (List.subset_append_left _ _)).union
      ((held_groupsWrites (1 :: here) _ rest _).scope (held_group (0 :: here) names group s))

lemma held_groupWrites (here : Path) (names : Names) (group : Group) (s : Analyzer) :
    Held names (group.slots here s) (group.writes here names) := by
  cases group with
  | var name ty value =>
    exact (held_key (by simp [Group.slots])).union
      ((held_writes (0 :: here) names value _).mono (List.subset_append_left _ _))
  | types _ | functions _ => exact held_nil

end

def Expr.temp? (program : Expr) (key : Path) : Option Temp := (program.slots [] Analyzer.initial).lookup key

def Expr.result? (program : Expr) : Option Access := (Analysis.lowerExpr program Analyzer.initial).1.place

lemma exists_temp_of_evaluate {program : Expr} {late : Bool} {turns : Nat} {ending : Ending} {cells : Cells}
    {key : Path} {word : Word} (h : program.evaluate late turns = some ending) (hc : ending.cells? = some cells)
    (hw : cells key = some word) : ∃ temp, program.temp? key = some temp := by
  have hwritten : key ∈ program.writes [] [] := by
    by_contra hnot
    have hkept := spares_behavior late turns [] [] program h hc key hnot
    simp [hw] at hkept
  rcases held_writes [] [] program Analyzer.initial key hwritten with hm | hm
  · cases hm
  · obtain ⟨slot, hslot, rfl⟩ := List.mem_map.mp hm
    exact ⟨slot.2, List.lookup_of_mem (rooted_slots [] program _).nodup hslot⟩

def Expr.layout (program : Expr) {first last : Nat} (h : Laid (program.slots [] Analyzer.initial) first last) :
    Layout where
  place := program.temp?
  injective {one other temp} hone hother := by
    have hnodup : ((program.slots [] Analyzer.initial).map Prod.snd).Nodup :=
      List.pairwise_map.mpr (h.sorted.imp fun hlt he => hlt.ne (congrArg Temp.number he))
    exact congrArg Prod.fst (List.inj_on_of_nodup_map hnodup (List.mem_of_lookup hone) (List.mem_of_lookup hother) rfl)

def Ending.Realized (link : Linkage) (program : Expr) : Ending → Prop
  | done value cells => ∀ store, ∃ after,
      Code.Runs link (analyze program).2.codes 0 store (analyze program).2.codes.length after ∧
      (∀ key word, cells key = some word → ∃ temp, program.temp? key = some temp ∧ after.temps temp = word) ∧
      ∀ reading, value = some reading → ∃ place, program.result? = some place ∧ place.value link after = reading.word
  | broken _ => False
  | stopped request => ∀ store, ∃ position after frame tac,
      Code.Runs link (analyze program).2.codes 0 store position after ∧
      (analyze program).2.codes[position]? = some (.op frame tac) ∧ tac.Asks link after request

lemma realized_evaluate (link : Linkage) {program : Expr} {turns : Nat} {ending : Ending}
    (h : (analyze program).1 = []) (he : program.evaluate true turns = some ending) : ending.Realized link program := by
  cases hrun : Analysis.lowerExpr program Analyzer.initial with
  | mk value t =>
    have hclean : t.errors = [] := by simpa [analyze, hrun] using h
    have hgrows : Analyzer.initial.Grows t :=
      ((Analysis.lowers_lowerExpr program).keeps.apply hrun).toGrows
    have hnodup : (Code.labels value.code).Nodup :=
      (Analysis.draws_lowerExpr program hrun Analyzer.sound_initial Analyzer.drawn_initial hclean).nodup hgrows
    have hcode : (analyze program).2.codes = value.code := by simp [analyze, hrun, Analyzer.program, hclean]
    have hlaid := (Analysis.runCases_lays.lowerExpr program hrun Analyzer.sound_initial hclean).holds []
    let layout := program.layout hlaid
    have hsite : Analysis.Site layout [] (program.slots [] Analyzer.initial) Analyzer.initial t value.code
        0 value.code :=
      { inScope := fun _ _ _ _ hlookup => by cases hlookup
        covers :=
          { placed := fun slot hm => List.lookup_of_mem (rooted_slots [] program _).nodup hm
            only := fun key temp hp _ _ => List.mem_of_lookup hp }
        nodup := hnodup
        installed := List.at_self value.code }
    have hstart (store : Store) : layout.Agrees (fun _ => none) store := fun _ _ _ _ hc => by cases hc
    have hcases := Analysis.RunCases.mk (@Analysis.operandCases_follows layout link turns) Analysis.controlCases_follows
      Analysis.aggregateCases_follows Analysis.declarationCases_follows
    have hfollows := hcases.lowerExpr program hrun Analyzer.sound_initial hclean
    have hends (store : Store) := hfollows.holds [] [] hsite (hstart store) he
    rw [zero_add] at hends
    cases ending with
    | done result cells =>
      intro store
      obtain ⟨after, hruns, hagree, -, hgiven⟩ := hends store
      refine ⟨after, by rwa [hcode], fun key word hw => ?_, fun reading hr => ?_⟩
      · obtain ⟨temp, htemp⟩ := exists_temp_of_evaluate he rfl hw
        exact ⟨temp, htemp, hagree key temp word htemp hw⟩
      · obtain ⟨-, access, hplace, hstands⟩ := hgiven reading hr
        exact ⟨access, by simp [Expr.result?, hrun, hplace], hstands.value hagree⟩
    | broken cells =>
      -- There is no loop around the main program.
      obtain ⟨exit, outer, hexits, -⟩ := hends ⟨fun _ => 0, fun _ => 0⟩
      cases hexits
    | stopped request =>
      intro store
      rw [hcode]
      exact hends store

/-- The code of a structured program computes what the program says. -/
theorem analyze_structured (link : Linkage) {program : Expr} {turns : Nat} {value : Option Reading} {cells : Cells}
    (hclean : (analyze program).1 = []) (hs : program.isStructured)
    (he : program.evaluate false turns = some (.done value cells)) (store : Store) :
    ∃ after, Code.Runs link (analyze program).2.codes 0 store (analyze program).2.codes.length after ∧
      (∀ key word, cells key = some word → ∃ temp, program.temp? key = some temp ∧ after.temps temp = word) ∧
      ∀ reading, value = some reading → ∃ place, program.result? = some place ∧ place.value link after =
      reading.word := by
  have hlate : program.evaluate true turns = some (.done value cells) := by
    rw [evaluate_late_eq_of_isStructured hs, he]
  exact realized_evaluate link hclean hlate store

def shadowedLoop : Expr :=
  let x : Expr := .lvalue {} (.var {} { name := "x" })
  let n : Expr := .lvalue {} (.var {} { name := "n" })
  .letIn {} [.var { name := "x" } none (.int {} 0), .var { name := "n" } none (.int {} 5)]
    [.whileLoop {} (.operation {} (.strict (.compare .gt)) {} n (.int {} 0))
      (.sequence {} [
        .letIn {} [.var { name := "x" } none (.operation {} (.strict .sub) {} n x)]
          [.ifThenElse {} (.operation {} .or {} (.operation {} (.strict (.compare .lt)) {} x (.negate {} (.int {} 5)))
              (.operation {} (.strict (.compare .eq)) {} x (.int {} 0)))
            (.breakLoop {})
            (.assign {} (.var {} { name := "n" }) (.operation {} (.strict .sub) {} n (.int {} 1)))],
        .assign {} (.var {} { name := "x" }) (.operation {} (.strict .add) {} x n)]),
    .ifThenElse {} (.operation {} .and {} x n) (.operation {} (.strict .mul) {} x n) (.int {} 0)]

theorem shadowedLoop_computed : (analyze shadowedLoop).1 = [] ∧ shadowedLoop.isStructured ∧ ∀ link store, ∃ after,
    Code.Runs link (analyze shadowedLoop).2.codes 0 store (analyze shadowedLoop).2.codes.length after ∧
    after.temps ⟨1⟩ = 4 ∧ after.temps ⟨2⟩ = 4 ∧ after.temps ⟨5⟩ = 0 ∧ after.temps ⟨14⟩ = 16 := by
  have hclean : (analyze shadowedLoop).1 = [] := List.isEmpty_iff.mp (by decide +kernel)
  have hs : shadowedLoop.isStructured := by decide +kernel
  refine ⟨hclean, hs, fun link store => ?_⟩
  obtain ⟨reading, cells, he, hword, hx, hn, hinner⟩ : ∃ reading cells,
      shadowedLoop.evaluate false 2 = some (.done (some reading) cells) ∧ reading.word = 16 ∧
      cells [0, 0] = some 4 ∧ cells [0, 1, 0] = some 4 ∧ cells [0, 0, 0, 1, 0, 1] = some 0 := by
    refine ⟨_, _, rfl, ?_⟩
    decide +kernel
  have htemps : shadowedLoop.temp? [0, 0] = some ⟨1⟩ ∧ shadowedLoop.temp? [0, 1, 0] = some ⟨2⟩ ∧
      shadowedLoop.temp? [0, 0, 0, 1, 0, 1] = some ⟨5⟩ ∧ shadowedLoop.result? = some (.temp ⟨14⟩) := by decide +kernel
  obtain ⟨after, hruns, hcells, hvalue⟩ := analyze_structured link hclean hs he store
  have htemp {key : Path} {word : Word} {temp : Temp} (hc : cells key = some word)
      (ht : shadowedLoop.temp? key = some temp) : after.temps temp = word := by
    obtain ⟨place, hplace, hafter⟩ := hcells key word hc
    rwa [Option.some.inj (ht.symm.trans hplace)]
  obtain ⟨place, hplace, hafter⟩ := hvalue reading rfl
  obtain rfl := Option.some.inj (htemps.2.2.2.symm.trans hplace)
  exact ⟨after, hruns, htemp hx htemps.1, htemp hn htemps.2.1, htemp hinner htemps.2.2.1, hafter.trans hword⟩

/-- An operand that is a variable is read when the operation is executed. This is its value from left
to right if no later operand writes the variable. -/
theorem analyze_operands (link : Linkage) {program : Expr} (hclean : (analyze program).1 = []) (turns : Nat) :
    (∀ ending, program.evaluate true turns = some ending → ending.Realized link program) ∧
    (program.steady [] [] → ∀ ending, program.evaluate false turns = some ending → ending.Realized link program) := by
  constructor
  · intro ending he
    exact realized_evaluate link hclean he
  · intro hs ending he
    have hlate : program.evaluate true turns = program.evaluate false turns :=
      congrFun (behavior_late_eq turns [] [] program hs) _
    exact realized_evaluate link hclean (hlate.trans he)

def effectfulOperands : Expr :=
  let x : Expr := .lvalue {} (.var {} { name := "x" })
  let y : Expr := .lvalue {} (.var {} { name := "y" })
  let i : Expr := .lvalue {} (.var {} { name := "i" })
  let setX (value : Expr) : Expr := .assign {} (.var {} { name := "x" }) value
  let setY (value : Expr) : Expr := .assign {} (.var {} { name := "y" }) value
  .letIn {} [.var { name := "x" } none (.int {} 1), .var { name := "y" } none (.int {} 2),
      .functions [.mk { name := "f" } [({ name := "a" }, { name := "int" }), ({ name := "b" }, { name := "int" })] none
        (.sequence {} [])]]
    [setY (.operation {} (.strict .add) {} (.sequence {} [setX (.int {} 0), y]) (.sequence {} [setX (.int {} 5), x])),
    .forLoop {} { name := "i" } y (.sequence {} [setX (.int {} 9), x]) (setX (.operation {} (.strict .add) {} x i)),
    .call {} { name := "f" } [x, .sequence {} [setY (.int {} 4), y]]]

theorem effectfulOperands_passed : (analyze effectfulOperands).1 = [] ∧ effectfulOperands.steady [] [] ∧
    ∀ link store, ∃ position after frame tac,
      Code.Runs link (analyze effectfulOperands).2.codes 0 store position after ∧
      (analyze effectfulOperands).2.codes[position]? = some (.op frame tac) ∧ tac.Asks link after (.call [33, 4]) := by
  have hclean : (analyze effectfulOperands).1 = [] := List.isEmpty_iff.mp (by decide +kernel)
  have hs : effectfulOperands.steady [] [] := by decide +kernel
  obtain ⟨request, he, rfl⟩ : ∃ request, effectfulOperands.evaluate false 4 = some (.stopped request) ∧
      request = .call [33, 4] := ⟨_, rfl, by decide +kernel⟩
  exact ⟨hclean, hs, fun link => (analyze_operands link hclean 4).2 hs _ he⟩

def overwrittenOperand : Expr :=
  .letIn {} [.var { name := "x" } none (.int {} 1)]
    [.operation {} (.strict .add) {} (.lvalue {} (.var {} { name := "x" }))
      (.sequence {} [.assign {} (.var {} { name := "x" }) (.int {} 5), .int {} 3])]

theorem overwrittenOperand_computed : (analyze overwrittenOperand).1 = [] ∧
    (∃ reading cells, overwrittenOperand.evaluate false 0 = some (.done (some reading) cells) ∧ reading.word = 4) ∧
    ∀ link store, ∃ after place,
      Code.Runs link (analyze overwrittenOperand).2.codes 0 store (analyze overwrittenOperand).2.codes.length after ∧
      overwrittenOperand.result? = some place ∧ place.value link after = 8 := by
  have hclean : (analyze overwrittenOperand).1 = [] := List.isEmpty_iff.mp (by decide +kernel)
  refine ⟨hclean, ⟨_, _, rfl, by decide +kernel⟩, fun link store => ?_⟩
  obtain ⟨reading, cells, he, hword⟩ : ∃ reading cells,
      overwrittenOperand.evaluate true 0 = some (.done (some reading) cells) ∧ reading.word = 8 :=
    ⟨_, _, rfl, by decide +kernel⟩
  obtain ⟨after, hruns, -, hvalue⟩ := realized_evaluate link hclean he store
  obtain ⟨place, hplace, hafter⟩ := hvalue reading rfl
  exact ⟨after, place, hruns, hplace, hafter.trans hword⟩

end TigerMips
