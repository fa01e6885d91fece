import TigerMips.Proofs.Analysis.ForLoops
import TigerMips.Proofs.Analysis.Owners

/-! For loops count from their first bound to their last one, in each program without errors. -/

namespace TigerMips

namespace Code

variable {first rest codes : List Code} {code : Code} {q : Nat}

lemma writers_ne_zero {temp : Temp} {op : FrameId × Tac} (hc : codes[q]? = some code) (ho : op ∈ code.op?)
    (hw : op.2.destination? = some (.temp temp)) : writers codes temp ≠ 0 :=
  (writers_pos.mpr ⟨op, List.mem_filterMap.mpr ⟨code, List.mem_of_getElem? hc, ho⟩, hw⟩).ne'

end Code

namespace ForLoop

open Code

variable {loop : ForLoop} {program : Tac.Program} {before after : List Code} {t : Temp}

lemma isPrivate (hcodes : program.codes = before ++ loop.code ++ after) (hbefore : writers before t = 0)
    (hbody : writers loop.body t = 0) (hafter : writers after t = 0) (hs : Frame.Stores program.frames loop.frame t) :
    program.Private loop.frame (fun q => before.length + 3 ≤ q ∧ q < loop.behind before.length) t where
  stored := by
    obtain ⟨f, hf, hm⟩ := hs
    exact Tac.Program.locals_eq hf ▸ hm
  written q code op hc ho hw := by
    rw [hcodes, List.append_assoc, ForLoop.code, Analysis.forCode, List.append_assoc, List.append_assoc] at hc
    have hown : ∀ codes : List Code, code ∈ codes → (∀ c ∈ codes, ∀ op ∈ c.op?, op.1 = loop.frame) →
        op.1 = loop.frame :=
      fun codes hm hall => hall code hm op ho
    unfold behind
    rcases List.getElem?_append_cases hc with hc | ⟨hq₁, hc⟩
    · exact absurd hbefore (writers_ne_zero hc ho hw)
    rcases List.getElem?_append_cases hc with hc | ⟨hq₂, hc⟩
    · have hlt := (List.getElem?_eq_some_iff.mp hc).1
      simp only [List.length_cons, List.length_nil] at hlt
      exact ⟨hown _ (List.mem_of_getElem? hc) (by simp [op?]), by omega⟩
    rcases List.getElem?_append_cases hc with hc | ⟨hq₃, hc⟩
    · exact absurd hbody (writers_ne_zero hc ho hw)
    rcases List.getElem?_append_cases hc with hc | ⟨-, hc⟩
    · simp only [List.length_cons, List.length_nil] at hq₂ hq₃
      exact ⟨hown _ (List.mem_of_getElem? hc) (by simp [op?]), by omega⟩
    · exact absurd hafter (writers_ne_zero hc ho hw)

lemma Placed.stands (h : loop.Placed program.frames) (hwithin : loop.code <:+: program.codes)
    (hn : (labels program.codes).Nodup) (hne : loop.counter ≠ loop.bound) (hc : writers program.codes loop.counter = 2)
    (hb : writers program.codes loop.bound = 1) : ∃ p, loop.Stands program p := by
  obtain ⟨before, after, hcodes⟩ := hwithin
  have hplaced : List.At program.codes before.length loop.code := hcodes ▸ List.at_infix before _ after
  have hlabels := hplaced
  simp only [code, Analysis.forCode, List.cons_append, List.nil_append, List.at_cons, List.at_append, List.at_nil]
    at hlabels
  obtain ⟨-, -, htest, -, -, -, hexit, -⟩ := hlabels
  simp only [← hcodes, code, Analysis.forCode, writers_append, writers_op, writers_labeled, writers_label, writers_nil,
    Tac.destination?, Option.some.injEq, Access.temp.injEq, hne, hne.symm, reduceCtorEq, if_true, if_false] at hc hb
  exact ⟨before.length, hplaced, find?_of_getElem? hn htest rfl, find?_of_getElem? hn hexit rfl,
    isPrivate hcodes.symm (by omega) (by omega) (by omega) h.counter,
    isPrivate hcodes.symm (by omega) (by omega) (by omega) h.bound, hne, h.notMem⟩

end ForLoop

namespace Analysis

open Analyzer

lemma invariant_declared : Invariant fun s => ∀ id f label, s.frames.get? id = some f → f.entry = some label →
    ∃ function g entry, s.functions.get? function = some g ∧ g.signature.entry = some entry ∧ entry.frame = id ∧
      entry.label = label where
  same h hf hg _ _ := by rwa [hf, hg]
  newLabel h := h
  newTemp {s} h id f label hf he := by
    simp only [withTemp, Arena.get?_modify] at hf
    split at hf
    · obtain ⟨g, hg, rfl⟩ := Option.map_eq_some_iff.mp hf
      exact h id g label hg he
    · exact h id f label hf he
  internString hi h := by
    rcases internString_eq hi with ⟨_, -, -, rfl⟩ | ⟨-, -, rfl⟩ <;> exact h
  functions {s} functions hg _ h id f label hf he := by
    obtain ⟨function, g, entry, hold, hentry, hrest⟩ := h id f label hf he
    obtain ⟨_, hnew, calls, names, rfl, -⟩ := hg function g hold
    exact ⟨function, _, entry, hnew, hentry, hrest⟩
  declare {s} name params result h id f label hf he := by
    rcases Arena.get?_push_cases hf with ⟨rfl, rfl⟩ | hf
    · exact ⟨s.functions.next, _, _, (Arena.get?_push _ _ _).trans (if_pos rfl), rfl, rfl, Option.some.inj he⟩
    · obtain ⟨function, g, entry, hold, hentry, hrest⟩ := h id f label hf he
      obtain ⟨_, hnew, calls, names, rfl, -⟩ := Arena.Grows.push (R := Function.Grows) s.functions
        { name, signature := ⟨params, result, some (declaredAs s name params result).entry⟩ } function g hold
      exact ⟨function, _, entry, hnew, hentry, hrest⟩

end Analysis

section

variable {expression : Expr} (h : (analyze expression).1 = [])

include h

lemma connected_analyze : (analyze expression).2.Connected := by
  constructor
  · obtain ⟨placed, xs, hcodes, hinside, hentries⟩ := owned_analyze h
    exact hinside.confined hcodes (Analysis.nodup_labels_analyze h) hentries
  · intro id f label hf he
    obtain ⟨function, g, entry, hg, hentry, hframe, hlabel⟩ := Analysis.invariant_declared.analyze
      (fun id f label hf he => by
        obtain rfl := List.mem_singleton.mp (List.mem_of_getElem? hf)
        cases he) expression id f label hf he
    exact ⟨entry, ⟨function, g, hg, hentry⟩, hframe, hlabel⟩
  · exact fun id f hf t ht => Analysis.invariant_housed.analyze Analyzer.housed_initial expression id f hf t
      (List.mem_append_left _ ht)

lemma stands_analyze {loop : ForLoop} (hm : loop ∈ expression.forLoops Analyzer.initial) :
    ∃ p, loop.Stands (analyze expression).2 p := by
  obtain ⟨hguards, hplaced⟩ := Analysis.guarding_lowerExpr expression rfl Analyzer.sound_initial
    Analyzer.drawn_initial h
  have hne : loop.counter ≠ loop.bound := fun hc => by
    have := (hguards.fresh loop hm).2.1
    rw [hc] at this
    exact Nat.lt_irrefl _ this
  obtain ⟨hcounter, hbound⟩ := hguards.counted loop hm
  rw [← codes_analyze h] at hcounter hbound hplaced
  obtain ⟨hloop, hwithin⟩ := hplaced loop hm
  exact hloop.stands hwithin (Analysis.nodup_labels_analyze h) hne hcounter hbound

end

/-- A loop that starts at a position runs its body once for each counter from its first bound to its last one, in
increasing order, and comes to its exit. If the last bound is the largest word, it runs on forever instead. The bounds
are read when the loop starts. The body may call functions, and has to come to its end each time that it is entered. -/
structure Tac.Program.CountsAt (program : Tac.Program) (loop : ForLoop) (p : Nat) : Prop where
  placed : List.At program.codes p loop.code
  ends : ∀ (link : Linkage) (host : Host) (state : State), state.position = p →
    loop.BodyEnds program link host p state → loop.last.value link state.store < Int32.maxValue →
    ∃ values final, loop.Counts program link host p values state final ∧ values.Pairwise (· < ·) ∧
      ∀ i, i ∈ values ↔ loop.first.value link state.store ≤ i ∧ i ≤ loop.last.value link state.store
  never_ends : ∀ (link : Linkage) (host : Host) (state b : State), state.position = p →
    loop.BodyEnds program link host p state → loop.last.value link state.store = Int32.maxValue →
    Relation.ReflTransGen (fun x y => program.advance? link host x = some y) state b →
    (∃ c, program.advance? link host b = some c) ∧
      (b.calls = state.calls → p ≤ b.position ∧ b.position < loop.behind p + 2)

/-- The for loops of a program without errors count, unless the last bound is the largest word. -/
theorem countsAt_analyze (expression : Expr) (h : (analyze expression).1 = []) (loop : ForLoop)
    (hm : loop ∈ expression.forLoops Analyzer.initial) : ∃ p, (analyze expression).2.CountsAt loop p := by
  obtain ⟨p, hstands⟩ := stands_analyze h hm
  have hconnected := connected_analyze h
  exact ⟨p, hstands.placed, fun link host state hp hbody hmax => hstands.counts hconnected hp hbody hmax,
    fun link host state b hp hbody hmax hrun => hstands.never_ends hconnected hp hbody hmax hrun⟩

def visitedCounters : Expr :=
  .letIn {} [.functions [.mk { name := "f" } [({ name := "n" }, { name := "int" })] none
      (.assign {} (.var {} { name := "n" }) (.int {} 0))]]
    [.forLoop {} { name := "i" } (.int {} 1) (.int {} 3)
      (.call {} { name := "f" } [.lvalue {} (.var {} { name := "i" })])]

theorem visitedCounters_countsAt : (analyze visitedCounters).1 = [] ∧
    ∃ loop ∈ visitedCounters.forLoops Analyzer.initial, ∃ p, (analyze visitedCounters).2.CountsAt loop p ∧
      ∀ (link : Linkage) (host : Host) (store : Store), ∃ values final,
        loop.Counts (analyze visitedCounters).2 link host p values ⟨p, store, [], 0⟩ final ∧ values.Pairwise (· < ·) ∧
          ∀ i, i ∈ values ↔ 1 ≤ i ∧ i ≤ 3 := by
  have hclean : (analyze visitedCounters).1 = [] := List.isEmpty_iff.mp (by decide +kernel)
  let loop : ForLoop := ⟨⟨0⟩, ⟨3⟩, ⟨2⟩, ⟨3⟩, ⟨4⟩, .int 1, .int 3, [.op ⟨0⟩ (.call none ⟨0⟩ [.temp ⟨3⟩])]⟩
  have hloop : loop ∈ visitedCounters.forLoops Analyzer.initial := by decide +kernel
  obtain ⟨p, hcounts⟩ := countsAt_analyze visitedCounters hclean loop hloop
  refine ⟨hclean, loop, hloop, p, hcounts, fun link host store => ?_⟩
  refine hcounts.ends link host ⟨p, store, [], 0⟩ rfl (fun values a b inside _ _ _ hinside => ?_)
    (show (3 : Word) < Int32.maxValue by decide)
  -- The call, the two operations of the function, and the return.
  have hcall : (analyze visitedCounters).2.codes[inside.position]? = some (.op ⟨0⟩ (.call none ⟨0⟩ [.temp ⟨3⟩])) := by
    rw [hinside]
    exact (List.at_cons.mp (List.at_append.mp (List.at_append.mp hcounts.placed).1).2).1
  have hcallee : (analyze visitedCounters).2.callee? ⟨0⟩ = some (⟨1⟩, {
      name := "f", entry := some ⟨0⟩, parent := some ⟨0⟩, params := [⟨2⟩], display := ⟨1⟩, locals := [⟨2⟩] }) := by
    decide +kernel
  have hstart : Code.find? (analyze visitedCounters).2.codes ⟨0⟩ = some 1 := by decide +kernel
  have hlabel : (analyze visitedCounters).2.codes[1]? = some (.label ⟨0⟩) := by decide +kernel
  have hmove : (analyze visitedCounters).2.codes[2]? = some (.op ⟨1⟩ (.move (.temp ⟨2⟩) (.int 0))) := by decide +kernel
  have hret : (analyze visitedCounters).2.codes[3]? = some (.op ⟨1⟩ .ret) := by decide +kernel
  have hframe := (Tac.Program.callee?_eq_some hcallee).1
  generalize (analyze visitedCounters).2 = program at *
  let called : Tac.State := { inside with
    position := 1
    store := inside.store.receive [(⟨2⟩, inside.store.temps ⟨3⟩)]
    calls := ⟨inside.position + 1, none, ⟨1⟩, inside.store.temps⟩ :: inside.calls }
  let written : Tac.State := { called with position := 3, store := called.store.put ⟨2⟩ 0 }
  let done : Tac.State := { inside with
    position := inside.position + 1
    store := written.store.restore [⟨2⟩] inside.store.temps }
  have hcalled : program.advance? link host inside = some called := by
    simp [Tac.Program.advance?, hcall, Code.op?, Tac.Program.perform?, hcallee, hstart, called, Access.value]
  have hentered : program.advance? link host called = some { called with position := 2 } := by
    simp [Tac.Program.advance?, called, hlabel, Code.op?]
  have hwritten : program.advance? link host { called with position := 2 } = some written := by
    rw [Tac.Program.advance?_move hmove rfl]
    rfl
  have hback : program.advance? link host written = some done := by
    simp [Tac.Program.advance?, written, called, done, hret, Code.op?, Tac.Program.perform?, hframe, Store.deliver?]
  have hdeeper : ∀ last : Tac.Activation, last :: inside.calls ≠ inside.calls := fun last => List.cons_ne_self last _
  refine ⟨done, hinside, by simp [done, hinside, loop, ForLoop.behind], rfl,
    .head ⟨hcalled, fun _ => ?_, List.suffix_cons _ _⟩
    (.head ⟨hentered, fun hc => absurd hc (hdeeper _), List.suffix_cons _ _⟩
      (.head ⟨hwritten, fun hc => absurd hc (hdeeper _), List.suffix_cons _ _⟩
        (.single ⟨hback, fun hc => absurd hc (hdeeper _), List.suffix_refl _⟩)))⟩
  simp [hinside, loop, ForLoop.behind]

def endlessCount : Expr := .forLoop {} { name := "i" } (.int {} 2147483647) (.int {} 2147483647) (.sequence {} [])

/-- The loop does not come to its exit, at position 5, after the only counter between its bounds. -/
theorem endlessCount_never_ends : (analyze endlessCount).1 = [] ∧
    Code.find? (analyze endlessCount).2.codes ⟨0⟩ = some 5 ∧
      ∀ (link : Linkage) (host : Host) (store : Store) (b : Tac.State),
      Relation.ReflTransGen (fun x y => (analyze endlessCount).2.advance? link host x = some y) ⟨0, store, [], 0⟩ b →
      (∃ c, (analyze endlessCount).2.advance? link host b = some c) ∧ (b.calls = [] → b.position < 5) := by
  have hclean : (analyze endlessCount).1 = [] := List.isEmpty_iff.mp (by decide +kernel)
  let loop : ForLoop := ⟨⟨0⟩, ⟨1⟩, ⟨0⟩, ⟨1⟩, ⟨2⟩, .int 2147483647, .int 2147483647, []⟩
  have hloop : loop ∈ endlessCount.forLoops Analyzer.initial := by decide +kernel
  have hexit : Code.find? (analyze endlessCount).2.codes ⟨0⟩ = some 5 := by decide +kernel
  obtain ⟨p, hstands⟩ := stands_analyze hclean hloop
  obtain rfl : p = 0 := by
    have := Option.some.inj (hstands.exit.symm.trans hexit)
    simp only [ForLoop.behind, loop, List.length_nil] at this
    omega
  refine ⟨hclean, hexit, fun link host store b hrun => ?_⟩
  obtain ⟨hnext, hinside⟩ := hstands.never_ends (connected_analyze hclean) rfl
    (fun values a b inside _ _ _ hinside => ⟨inside, hinside, hinside, rfl, .refl⟩) rfl hrun
  exact ⟨hnext, fun hc => (hinside hc).2⟩

end TigerMips
