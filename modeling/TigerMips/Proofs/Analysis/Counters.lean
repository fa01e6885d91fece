import TigerMips.Proofs.Analysis.Counting
import TigerMips.Proofs.Analysis.Parts

/-! The temps of for loops belong to the loops. In a program without errors the counter of a loop is written where the
loop starts and where it is increased, its bound is written once, and no other operation of the program writes them. -/

namespace TigerMips

open Analysis

namespace Code

def writes (temp : Temp) (code : Code) : Bool := code.op?.any (·.2.destination? = some (.temp temp))

def writing (codes : List Code) (temp : Temp) : List Nat := codes.findIdxs (writes temp)

variable {temp : Temp}

lemma countP_writes (codes : List Code) : codes.countP (writes temp) = writers codes temp := by
  induction codes with
  | nil => rfl
  | cons code rest ih => cases code <;> simp [List.countP_cons, ih, writes, op?]

lemma findIdxs_writes {codes : List Code} (h : writers codes temp = 0) (start : Nat) :
    codes.findIdxs (writes temp) start = [] := by
  rwa [← List.length_eq_zero_iff, List.length_findIdxs, countP_writes]

end Code

namespace ForLoop

open Code

def lowered (counter : Ident) (first last body : Expr) (s : Analyzer) : ForLoop :=
  let low := lowerExpr first s
  let high := lowerExpr last low.2
  .ofLowered s.currentFrame low high (lowerExpr body (high.2.insideFor counter.name))

/-- A loop owns its temps. The counter is written at its start and behind its body, the bound once between, and no other
operation of the program writes them. -/
structure OwnsAt (codes : List Code) (loop : ForLoop) (p : Nat) : Prop where
  placed : List.At codes p loop.code
  starts : codes[p]? = some (.op loop.frame (.move (.temp loop.counter) loop.first))
  increases : codes[loop.behind p]? =
    some (.op loop.frame (.binary .add (.temp loop.counter) (.temp loop.counter) (.int 1)))
  counter : writing codes loop.counter = [p, loop.behind p]
  bound : writing codes loop.bound = [p + 1]

variable {loop : ForLoop} {before after : List Code}

lemma ownsAt (hne : loop.counter ≠ loop.bound) (hc : writers (before ++ loop.code ++ after) loop.counter = 2)
    (hb : writers (before ++ loop.code ++ after) loop.bound = 1) :
    loop.OwnsAt (before ++ loop.code ++ after) before.length := by
  have hplaced := List.at_infix before loop.code after
  have hparts := hplaced
  simp only [code, Analysis.forCode, List.cons_append, List.nil_append, List.at_cons, List.at_append] at hparts
  obtain ⟨hstart, -, -, -, hincrease, -⟩ := hparts
  refine ⟨hplaced, hstart, hincrease, ?_, ?_⟩
  all_goals
    simp only [code, Analysis.forCode, writers_append, writers_op, writers_labeled, writers_label, writers_nil,
      Tac.destination?, Option.some.injEq, Access.temp.injEq, hne, hne.symm, reduceCtorEq, if_true, if_false] at hc hb
  · have hbefore : writers before loop.counter = 0 := by omega
    have hbody : writers loop.body loop.counter = 0 := by omega
    have hafter : writers after loop.counter = 0 := by omega
    simp [writing, code, Analysis.forCode, List.findIdxs_append, findIdxs_writes, hbefore, hbody, hafter, writes, op?,
      Tac.destination?, hne.symm, behind]
  · have hbefore : writers before loop.bound = 0 := by omega
    have hbody : writers loop.body loop.bound = 0 := by omega
    have hafter : writers after loop.bound = 0 := by omega
    simp [writing, code, Analysis.forCode, List.findIdxs_append, findIdxs_writes, hbefore, hbody, hafter, writes, op?,
      Tac.destination?, hne]

end ForLoop

/-- Each for loop of a program without errors, at whatever depth of scopes and functions, owns its counter and its
bound: a program cannot write them. -/
theorem ownsAt_analyze (expression : Expr) (h : (analyze expression).1 = []) (path : Path) (span : Span)
    (counter : Ident) (first last body : Expr)
    (hp : expression.at? path = some (.forLoop span counter first last body)) :
    ∃ s p, (Visit.start expression).at? path = some ⟨.forLoop span counter first last body, s⟩ ∧
      (ForLoop.lowered counter first last body s).OwnsAt (analyze expression).2.codes p := by
  obtain ⟨s, hvisit⟩ := Visit.exists_at?_start hp
  have hm : ForLoop.lowered counter first last body s ∈ expression.forLoops .initial :=
    Visit.collected_at? ForLoop.collector hvisit (by simp [Visit.collected, Collector.expr, ForLoop.lowered])
  obtain ⟨hguards, hplaced⟩ := guarding_lowerExpr expression rfl Analyzer.sound_initial Analyzer.drawn_initial h
  obtain ⟨hcounter, hbound⟩ := hguards.counted _ hm
  obtain ⟨before, after, hcodes⟩ := (hplaced _ hm).2
  rw [← hcodes] at hcounter hbound
  rw [codes_analyze h, ← hcodes]
  exact ⟨s, before.length, hvisit,
    ForLoop.ownsAt (fun hc => (hguards.fresh _ hm).2.1.ne (congrArg Temp.number hc)) hcounter hbound⟩

def shadowedCounters : Expr :=
  .forLoop {} { name := "i" } (.int {} 1) (.int {} 3)
    (.letIn {} [.functions [.mk { name := "f" } [({ name := "i" }, { name := "int" })] none
        (.sequence {} [.assign {} (.var {} { name := "i" }) (.int {} 0),
          .forLoop {} { name := "i" } (.lvalue {} (.var {} { name := "i" })) (.int {} 9) (.sequence {} [])])]]
      [.call {} { name := "f" } [.lvalue {} (.var {} { name := "i" })]])

theorem shadowedCounters_ownsAt : (analyze shadowedCounters).1 = [] ∧
    shadowedCounters.at? [2, 0, 1] =
      some (.forLoop {} { name := "i" } (.lvalue {} (.var {} { name := "i" })) (.int {} 9) (.sequence {} [])) ∧
    ∃ s p, (Visit.start shadowedCounters).at? [2, 0, 1] = some ⟨.forLoop {} { name := "i" }
        (.lvalue {} (.var {} { name := "i" })) (.int {} 9) (.sequence {} []), s⟩ ∧
      (ForLoop.lowered { name := "i" } (.lvalue {} (.var {} { name := "i" })) (.int {} 9) (.sequence {} []) s).OwnsAt
        (analyze shadowedCounters).2.codes p := by
  have hclean : (analyze shadowedCounters).1 = [] := List.isEmpty_iff.mp (by decide +kernel)
  exact ⟨hclean, rfl, ownsAt_analyze shadowedCounters hclean [2, 0, 1] _ _ _ _ _ rfl⟩

end TigerMips
