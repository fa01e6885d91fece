import TigerMips.Analysis.Control
import TigerMips.Proofs.Tac.Calls

/-! Runs of for loops. The counter of a loop takes the values from its first bound to its last one. A loop whose last
bound is the largest word never ends, since no counter exceeds it. -/

namespace TigerMips

lemma Word.toInt_succ {w : Word} (h : w.toInt < Int32.maxValue.toInt) : (w + 1).toInt = w.toInt + 1 := by
  have hlow := w.le_toInt
  have hmax : Int32.maxValue.toInt = 2147483647 := by decide
  rw [Int32.toInt_add, show Int32.toInt 1 = 1 from rfl, Int.bmod_eq_of_le] <;> omega

namespace Tac.Program

variable {program : Tac.Program} {link : Linkage} {host : Host} {a : State} {code : Code} {id : FrameId} {q : Nat}

lemma advance?_move {t : Temp} {source : Access} (hc : program.codes[a.position]? = some code)
    (hop : code.op? = some (id, .move (.temp t) source)) : program.advance? link host a =
      some { a with position := a.position + 1, store := a.store.put t (source.value link a.store) } := by
  simp [advance?, hc, hop, perform?, Tac.exec?, Access.write?, Running.follow, State.go]

lemma advance?_add {t : Temp} {lhs rhs : Access} (hc : program.codes[a.position]? = some code)
    (hop : code.op? = some (id, .binary .add (.temp t) lhs rhs)) : program.advance? link host a =
      some { a with
        position := a.position + 1
        store := a.store.put t (lhs.value link a.store + rhs.value link a.store) } := by
  simp [advance?, hc, hop, perform?, Tac.exec?, BinaryOp.eval?, Access.write?, Running.follow, State.go]

lemma advance?_goto {target : Label} (hc : program.codes[a.position]? = some code)
    (hop : code.op? = some (id, .goto target)) (hf : Code.find? program.codes target = some q) :
    program.advance? link host a = some { a with position := q } := by
  simp [advance?, hc, hop, perform?, Tac.exec?, Running.follow, State.go, hf]

lemma advance?_taken {relation : Relation} {lhs rhs : Access} {target : Label}
    (hc : program.codes[a.position]? = some code) (hop : code.op? = some (id, .branch relation lhs rhs target))
    (ht : relation.test (lhs.value link a.store) (rhs.value link a.store) = true)
    (hf : Code.find? program.codes target = some q) : program.advance? link host a = some { a with position := q } := by
  simp [advance?, hc, hop, perform?, Tac.exec?, Running.follow, State.go, ht, hf]

lemma advance?_passed {relation : Relation} {lhs rhs : Access} {target : Label}
    (hc : program.codes[a.position]? = some code) (hop : code.op? = some (id, .branch relation lhs rhs target))
    (ht : relation.test (lhs.value link a.store) (rhs.value link a.store) = false) :
    program.advance? link host a = some { a with position := a.position + 1 } := by
  simp [advance?, hc, hop, perform?, Tac.exec?, Running.follow, State.go, ht]

end Tac.Program

structure ForLoop where
  frame : FrameId
  head : Label
  exit : Label
  counter : Temp
  bound : Temp
  first : Access
  last : Access
  body : List Code
  deriving DecidableEq, Repr

namespace ForLoop

open Tac

variable (loop : ForLoop)

def code : List Code :=
  Analysis.forCode loop.frame loop.head loop.exit loop.counter loop.bound loop.first loop.last loop.body

def behind (p : Nat) : Nat := p + 3 + loop.body.length

structure Stands (program : Tac.Program) (p : Nat) : Prop where
  placed : List.At program.codes p loop.code
  head : Code.find? program.codes loop.head = some (p + 2)
  exit : Code.find? program.codes loop.exit = some (loop.behind p + 2)
  counter : program.Private loop.frame (fun q => p + 3 ≤ q ∧ q < loop.behind p) loop.counter
  bound : program.Private loop.frame (fun q => p + 3 ≤ q ∧ q < loop.behind p) loop.bound
  ne : loop.counter ≠ loop.bound
  notMem : loop.counter ∉ loop.last.temps

section

variable (program : Tac.Program) (link : Linkage) (host : Host) (p : Nat)

def Starts (state a : State) : Prop := (program.advance? link host state).bind (program.advance? link host) = some a

inductive Rounds : List Word → State → State → Prop
  | none (a : State) : Rounds [] a a
  | round {values : List Word} {a inside done next again b : State} :
    program.advance? link host a = some inside → program.Completes link host (p + 3) (loop.behind p) inside done →
    program.advance? link host done = some next → program.advance? link host next = some again →
    again.position = p + 2 →
    Rounds values again b → Rounds (inside.store.temps loop.counter :: values) a b

def BodyEnds (state : State) : Prop :=
  ∀ values a b inside, Starts program link host state a → loop.Rounds program link host p values a b →
    program.advance? link host b = some inside → inside.position = p + 3 →
    ∃ done, program.Completes link host (p + 3) (loop.behind p) inside done

abbrev Stays (base : List Activation) : State → State → Prop :=
  program.Inside link host base fun q => p ≤ q ∧ q < loop.behind p + 2

def Counts (values : List Word) (state final : State) : Prop :=
  ∃ a b, Starts program link host state a ∧ loop.Rounds program link host p values a b ∧
    program.advance? link host b = some final ∧ final.position = loop.behind p + 2 ∧ final.calls = state.calls

end

variable {loop} {program : Tac.Program} {link : Linkage} {host : Host} {p : Nat}

structure AtHead (loop : ForLoop) (p : Nat) (base : List Activation) (last counter : Word) (a : State) : Prop where
  position : a.position = p + 2
  calls : a.calls = base
  counter : a.store.temps loop.counter = counter
  bound : a.store.temps loop.bound = last

variable {base : List Activation} {last counter : Word} {values others : List Word} {a b inside done state : State}

lemma Rounds.trans (h : loop.Rounds program link host p values a b) {c : State}
    (h' : loop.Rounds program link host p others b c) : loop.Rounds program link host p (values ++ others) a c := by
  induction h with
  | none _ => exact h'
  | round hin hbody hadd hback hp _ ih => exact .round hin hbody hadd hback hp (ih h')

namespace Stands

lemma codes (h : loop.Stands program p) :
    program.codes[p]? = some (.op loop.frame (.move (.temp loop.counter) loop.first)) ∧
    program.codes[p + 1]? = some (.op loop.frame (.move (.temp loop.bound) loop.last)) ∧
    program.codes[p + 2]? = some
      (.labeled loop.head loop.frame (.branch .gt (.temp loop.counter) (.temp loop.bound) loop.exit)) ∧
    program.codes[loop.behind p]? = some
      (.op loop.frame (.binary .add (.temp loop.counter) (.temp loop.counter) (.int 1))) ∧
    program.codes[loop.behind p + 1]? = some (.op loop.frame (.goto loop.head)) := by
  have hplaced := h.placed
  simp only [code, Analysis.forCode, List.cons_append, List.nil_append, List.at_cons, List.at_append, List.at_nil]
    at hplaced
  obtain ⟨hfirst, hlast, htest, -, hadd, hback, -⟩ := hplaced
  exact ⟨hfirst, hlast, htest, hadd, hback⟩

variable (link host) in
lemma starts (h : loop.Stands program p) (hp : state.position = p) :
    ∃ next a, program.advance? link host state = some next ∧
    program.advance? link host next = some a ∧ next.position = p + 1 ∧ next.calls = state.calls ∧
    AtHead loop p state.calls (loop.last.value link state.store) (loop.first.value link state.store) a := by
  subst hp
  obtain ⟨hfirst, hlast, -⟩ := h.codes
  refine ⟨_, _, Program.advance?_move hfirst rfl, Program.advance?_move hlast rfl, rfl, rfl, rfl, rfl, ?_, ?_⟩
  · simp [Store.put, h.ne]
  · exact (Function.update_self ..).trans (Access.value_put h.notMem _)

variable (link host) in
lemma enters (h : loop.Stands program p) (ha : AtHead loop p base last counter a) (hle : counter ≤ last) :
    program.advance? link host a = some { a with position := p + 3 } := by
  obtain ⟨-, -, htest, -⟩ := h.codes
  have hpassed : Relation.gt.test (a.store.temps loop.counter) (a.store.temps loop.bound) = false := by
    simpa [Relation.test, ha.counter, ha.bound] using hle
  rw [← ha.position] at htest
  rw [Program.advance?_passed htest rfl hpassed, ha.position]

variable (link host) in
lemma leaves (h : loop.Stands program p) (ha : AtHead loop p base last counter a) (hlt : last < counter) :
    program.advance? link host a = some { a with position := loop.behind p + 2 } := by
  obtain ⟨-, -, htest, -⟩ := h.codes
  have htaken : Relation.gt.test (a.store.temps loop.counter) (a.store.temps loop.bound) = true := by
    simpa [Relation.test, ha.counter, ha.bound] using hlt
  rw [← ha.position] at htest
  exact Program.advance?_taken htest rfl htaken h.exit

lemma again (h : loop.Stands program p) (hl : program.Connected) (ha : AtHead loop p base last counter a)
    (hbody : program.Completes link host (p + 3) (loop.behind p) { a with position := p + 3 } done) :
    ∃ next e, program.advance? link host done = some next ∧ program.advance? link host next = some e ∧
      next.position = loop.behind p + 1 ∧ next.calls = base ∧ AtHead loop p base last (counter + 1) e := by
  obtain ⟨-, -, -, hadd, hback⟩ := h.codes
  rw [← hbody.ends] at hadd hback
  have hcounter : done.store.temps loop.counter = counter := (hbody.kept hl h.counter).trans ha.counter
  have hbound : done.store.temps loop.bound = last := (hbody.kept hl h.bound).trans ha.bound
  have hcalls : done.calls = base := hbody.calls.trans ha.calls
  refine ⟨_, _, Program.advance?_add hadd rfl, Program.advance?_goto hback rfl h.head, by simp [hbody.ends], hcalls,
    rfl, hcalls, ?_, ?_⟩
  · simp [Store.put, Access.value, Access.int, Const.value, hcounter]
  · simp [Store.put, h.ne.symm, hbound]

lemma round (h : loop.Stands program p) (hl : program.Connected) (ha : AtHead loop p base last counter a)
    (hle : counter ≤ last)
    (hbody : program.Completes link host (p + 3) (loop.behind p) { a with position := p + 3 } done) :
    ∃ e, loop.Rounds program link host p [counter] a e ∧ AtHead loop p base last (counter + 1) e ∧
      loop.Stays program link host p base a { a with position := p + 3 } ∧
      Relation.ReflTransGen (loop.Stays program link host p base) { a with position := p + 3 } e := by
  obtain rfl := ha.calls
  have hin := h.enters link host ha hle
  obtain ⟨next, e, hadd, hback, hposition, hcalls, he⟩ := h.again hl ha hbody
  have hone := Rounds.round hin hbody hadd hback he.position (.none e)
  simp only [ha.counter] at hone
  have hthrough : Relation.ReflTransGen (loop.Stays program link host p a.calls) { a with position := p + 3 } done :=
    hbody.run.lift id fun _ _ hxy => hxy.mono fun q hq => by omega
  have hpositions : a.position < loop.behind p ∧ p ≤ a.position := by
    simp only [ha.position, behind]
    omega
  refine ⟨e, hone, he, ⟨hin, fun _ => by omega, List.suffix_refl _⟩, (hthrough.tail ⟨hadd, fun _ => ?_, ?_⟩).tail
    ⟨hback, fun _ => by omega, ?_⟩⟩
  · rw [hbody.ends]
    omega
  · rw [hcalls]
  · rw [he.calls]

lemma rounds (h : loop.Stands program p) (hl : program.Connected) (hmax : last.toInt < Int32.maxValue.toInt)
    (hbody : ∀ values b inside, loop.Rounds program link host p values a b →
      program.advance? link host b = some inside →
      inside.position = p + 3 → ∃ done, program.Completes link host (p + 3) (loop.behind p) inside done)
    (n : Nat) (before : List Word) (hbefore : loop.Rounds program link host p before a b)
    (hb : AtHead loop p base last counter b) (hn : counter.toInt + n = last.toInt + 1) :
    ∃ values c, loop.Rounds program link host p values b c ∧ AtHead loop p base last (last + 1) c ∧
      values.Pairwise (· < ·) ∧ ∀ i, i ∈ values ↔ counter ≤ i ∧ i ≤ last := by
  induction n generalizing before b counter with
  | zero =>
    have hnext : counter = last + 1 := by
      rw [← Int32.toInt_inj, Word.toInt_succ hmax]
      omega
    refine ⟨[], b, .none b, hnext ▸ hb, .nil, fun i => ?_⟩
    simp only [List.not_mem_nil, Int32.le_iff_toInt_le, false_iff]
    omega
  | succ n ih =>
    have hle : counter.toInt ≤ last.toInt := by omega
    have hpassed := Int32.le_iff_toInt_le.mpr hle
    obtain ⟨done, hdone⟩ := hbody before b _ hbefore (h.enters link host hb hpassed) rfl
    obtain ⟨e, hone, he, -⟩ := h.round hl hb hpassed hdone
    have hsucc := Word.toInt_succ (hle.trans_lt hmax)
    obtain ⟨values, c, hmore, hc, hsorted, hmem⟩ := ih (before ++ [counter]) (hbefore.trans hone) he (by omega)
    refine ⟨counter :: values, c, hone.trans hmore, hc, .cons (fun i hi => ?_) hsorted, fun i => ?_⟩
    · have hi := (hmem i).mp hi
      simp only [Int32.le_iff_toInt_le, Int32.lt_iff_toInt_lt] at hi ⊢
      omega
    · rw [List.mem_cons, hmem, ← Int32.toInt_inj]
      simp only [Int32.le_iff_toInt_le]
      omega

lemma counts (h : loop.Stands program p) (hl : program.Connected) (hp : state.position = p)
    (hbody : loop.BodyEnds program link host p state) (hmax : loop.last.value link state.store < Int32.maxValue) :
    ∃ values final, loop.Counts program link host p values state final ∧ values.Pairwise (· < ·) ∧
      ∀ i, i ∈ values ↔ loop.first.value link state.store ≤ i ∧ i ≤ loop.last.value link state.store := by
  obtain ⟨next, a, hfirst, hsecond, -, -, ha⟩ := h.starts link host hp
  have hstarts : Starts program link host state a := Option.bind_eq_some_iff.mpr ⟨next, hfirst, hsecond⟩
  have hmax := Int32.lt_iff_toInt_lt.mp hmax
  rcases lt_or_ge (loop.last.value link state.store).toInt (loop.first.value link state.store).toInt with hlt | hge
  · refine ⟨[], _, ⟨a, a, hstarts, .none a, h.leaves link host ha (Int32.lt_iff_toInt_lt.mpr hlt), rfl, ha.calls⟩, .nil,
      fun i => ?_⟩
    simp only [List.not_mem_nil, Int32.le_iff_toInt_le, false_iff]
    omega
  · obtain ⟨values, b, hrounds, hb, hsorted, hmem⟩ := h.rounds hl hmax
      (fun values b inside hrounds => hbody values a b inside hstarts hrounds)
      ((loop.last.value link state.store).toInt + 1 - (loop.first.value link state.store).toInt).toNat [] (.none a) ha
      (by omega)
    have hover : loop.last.value link state.store < loop.last.value link state.store + 1 := by
      rw [Int32.lt_iff_toInt_lt, Word.toInt_succ hmax]
      omega
    exact ⟨values, _, ⟨a, b, hstarts, hrounds, h.leaves link host hb hover, rfl, hb.calls⟩, hsorted, hmem⟩

lemma atHead (h : loop.Stands program p) (hl : program.Connected) (hle : ∀ c : Word, c ≤ last)
    (hrounds : loop.Rounds program link host p values a b) (ha : AtHead loop p base last counter a) :
    ∃ c, AtHead loop p base last c b := by
  induction hrounds generalizing counter with
  | none _ => exact ⟨counter, ha⟩
  | round hin hbody hadd hback _ _ ih =>
    obtain rfl := Option.some.inj (hin.symm.trans (h.enters link host ha (hle counter)))
    obtain ⟨next, e, hadd', hback', -, -, he⟩ := h.again hl ha hbody
    obtain rfl := Option.some.inj (hadd.symm.trans hadd')
    obtain rfl := Option.some.inj (hback.symm.trans hback')
    exact ih he

lemma never_ends (h : loop.Stands program p) (hl : program.Connected) (hp : state.position = p)
    (hbody : loop.BodyEnds program link host p state) (hmax : loop.last.value link state.store = Int32.maxValue)
    (hrun : Relation.ReflTransGen (fun x y => program.advance? link host x = some y) state b) :
    (∃ c, program.advance? link host b = some c) ∧
      (b.calls = state.calls → p ≤ b.position ∧ b.position < loop.behind p + 2) := by
  obtain ⟨next, a, hfirst, hsecond, hposition, hcalls, ha⟩ := h.starts link host hp
  have hstarts : Starts program link host state a := Option.bind_eq_some_iff.mpr ⟨next, hfirst, hsecond⟩
  have hle : ∀ c : Word, c ≤ loop.last.value link state.store := fun c => hmax ▸ Int32.le_maxValue c
  -- From each state control comes to the head again, and does not leave the loop before.
  have hgoes : ∀ x, (∃ values c, loop.Rounds program link host p values a c ∧
      Relation.ReflTransGen (loop.Stays program link host p state.calls) x c) →
      ∃ y, loop.Stays program link host p state.calls x y ∧
        ∃ values c, loop.Rounds program link host p values a c ∧
          Relation.ReflTransGen (loop.Stays program link host p state.calls) y c := by
    rintro x ⟨values, c, hrounds, hreaches⟩
    rcases hreaches.cases_head with rfl | ⟨y, hxy, hreaches⟩
    · obtain ⟨counter, hx⟩ := h.atHead hl hle hrounds ha
      obtain ⟨done, hdone⟩ := hbody values a x _ hstarts hrounds (h.enters link host hx (hle counter)) rfl
      obtain ⟨e, hone, -, hin, hthrough⟩ := h.round hl hx (hle counter) hdone
      exact ⟨_, hin, _, e, hrounds.trans hone, hthrough⟩
    · exact ⟨y, hxy, values, c, hrounds, hreaches⟩
  have hreached : ∃ values c, loop.Rounds program link host p values a c ∧
      Relation.ReflTransGen (loop.Stays program link host p state.calls) b c := by
    induction hrun with
    | refl =>
      have hbounds : p < loop.behind p := by simp only [behind]; omega
      refine ⟨[], a, .none a, .head ⟨hfirst, fun _ => by omega, ?_⟩ (.single ⟨hsecond, fun _ => by omega, ?_⟩)⟩
      · rw [hcalls]
      · rw [ha.calls]
    | tail _ hstep ih =>
      obtain ⟨y, hxy, hy⟩ := hgoes _ ih
      obtain rfl := Option.some.inj (hxy.step.symm.trans hstep)
      exact hy
  obtain ⟨y, hby, -⟩ := hgoes b hreached
  exact ⟨⟨y, hby.step⟩, hby.home⟩

end Stands

end ForLoop

end TigerMips
