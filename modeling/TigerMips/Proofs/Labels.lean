import TigerMips.Proofs.Analysis.Code
import TigerMips.Proofs.Select.Labels

/-! Labels of programs without errors: each is placed once, and each jump leads to one of them. That
holds of the three-address code and of the machine code made from it. -/

namespace TigerMips

/-- Each label is placed at most once and names no string, and each jump and call leads to one. -/
structure Tac.Program.WellLabeled (program : Tac.Program) : Prop where
  nodup : (Code.labels program.codes).Nodup
  targets : ∀ op ∈ Code.ops program.codes, ∀ target ∈ op.2.target?, target ∈ Code.labels program.codes
  strings : ∀ entry ∈ program.strings.entries, entry.1 ∉ Code.labels program.codes

structure Machine.Program.WellLabeled (machine : Machine.Program) : Prop where
  nodup : (Line.labels machine.lines).Nodup
  targets : ∀ target ∈ Line.targets machine.lines, target ∈ Line.labels machine.lines
  returns : ∀ id frame, machine.frames.get? id = some frame → ∀ place ∈ frame.returns,
    place ∈ Line.labels machine.lines

lemma Tac.Program.nodup_generate {program : Tac.Program} {machine : Machine.Program}
    (h : program.generate = .ok machine) (hn : (Code.labels program.codes).Nodup)
    (hd : ∀ l ∈ Code.labels program.codes, l.number < program.supply.labels) :
    (Machine.Line.labels machine.lines).Nodup := by
  obtain ⟨_, n, -, hperm, -⟩ := Select.mixed_generate h
  refine hperm.nodup_iff.mpr (hn.append (Label.nodup_range _ n) fun l hm hr => ?_)
  exact absurd (hd l hm) (Nat.not_lt.mpr (Label.mem_range.mp hr).1)

lemma Analyzer.budget_initial (l : Label) : Analyzer.initial.budget l = 1 := by
  simp [budget, initial]

section

variable {expression : Expr} (h : (analyze expression).1 = [])

include h

lemma placings_analyze (l : Label) : Code.placings (analyze expression).2.codes l +
    (((analyze expression).2.strings.entries.map Prod.fst).count l +
      if (analyze expression).2.supply.labels ≤ l.number then 1 else 0) ≤ 1 := by
  have hl := (Analysis.draws_analyze h).labels l
  rw [Analyzer.budget_initial] at hl
  exact hl

lemma wellLabeled_codes : (analyze expression).2.WellLabeled where
  nodup := Analysis.nodup_labels_analyze h
  targets op hm target ht := by
    obtain ⟨code, hcode, hop⟩ := List.mem_filterMap.mp hm
    have hselectable := (selectable_analyze h).codes code hcode
    cases code with
    | label place => cases hop
    | op frame tac | labeled place frame tac =>
      obtain rfl := Option.some.inj hop
      exact (hselectable.2.2 target ht).resolve_right id
  strings entry hm hlabel := by
    have hone := placings_analyze h entry.1
    have hplaced : 0 < Code.placings (analyze expression).2.codes entry.1 := List.count_pos_iff.mpr hlabel
    have hnamed : 0 < ((analyze expression).2.strings.entries.map Prod.fst).count entry.1 :=
      List.count_pos_iff.mpr (List.mem_map_of_mem hm)
    omega

lemma lt_supply_of_mem_labels {l : Label} (hl : l ∈ Code.labels (analyze expression).2.codes) :
    l.number < (analyze expression).2.supply.labels := by
  have hone := placings_analyze h l
  have hplaced : 0 < Code.placings (analyze expression).2.codes l := List.count_pos_iff.mpr hl
  by_contra hge
  rw [if_pos (Nat.not_lt.mp hge)] at hone
  omega

end

/-- A program without errors has well formed labels, and so has the machine code that is generated for it, where
the labels of the program are in the same order. -/
theorem wellLabeled_analyze (expression : Expr) (h : (analyze expression).1 = []) :
    (analyze expression).2.WellLabeled ∧
    ∃ machine, (analyze expression).2.generate = .ok machine ∧ machine.WellLabeled ∧
      (Code.labels (analyze expression).2.codes).Sublist (Machine.Line.labels machine.lines) := by
  have hcodes := wellLabeled_codes h
  obtain ⟨machine, hgenerate, hlaid, hreturns⟩ := Select.generate_ok (selectable_analyze h)
  obtain ⟨_, _, _, -, hsublist⟩ := Select.mixed_generate hgenerate
  refine ⟨hcodes, machine, hgenerate, ⟨?_, ?_, hreturns⟩, hsublist⟩
  · exact Tac.Program.nodup_generate hgenerate hcodes.nodup fun l => lt_supply_of_mem_labels h
  · exact fun target ht => (hlaid.targets target ht).resolve_right id

def countedText : Expr :=
  .letIn {} [.functions [.mk { name := "text" } [({ name := "n" }, { name := "int" })] (some { name := "string" })
    (.ifThenElse {} (.lvalue {} (.var {} { name := "n" }))
      (.call {} { name := "concat" } [.string {} "-",
        .call {} { name := "text" } [.operation {} (.strict .sub) {} (.lvalue {} (.var {} { name := "n" }))
          (.int {} 1)]])
      (.string {} "."))]]
    [.forLoop {} { name := "i" } (.int {} 0) (.int {} 9)
      (.ifThen {} (.operation {} (.strict (.compare .eq)) {}
        (.call {} { name := "text" } [.lvalue {} (.var {} { name := "i" })]) (.string {} "--."))
        (.breakLoop {}))]

theorem countedText_wellLabeled : (analyze countedText).1 = [] ∧ (analyze countedText).2.WellLabeled ∧
    ∃ machine, (analyze countedText).2.generate = .ok machine ∧ machine.WellLabeled ∧
      (Code.labels (analyze countedText).2.codes).Sublist (Machine.Line.labels machine.lines) := by
  have hclean : (analyze countedText).1 = [] := List.isEmpty_iff.mp (by decide +kernel)
  exact ⟨hclean, wellLabeled_analyze countedText hclean⟩

end TigerMips
