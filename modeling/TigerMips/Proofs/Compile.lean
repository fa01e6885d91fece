import TigerMips.Compile
import TigerMips.Proofs.Analysis.Code
import TigerMips.Proofs.Flow.Graph
import TigerMips.Proofs.Select.Total

/-! Compilation never fails: a program without errors is compiled, and any other has its errors in
the log. -/

namespace TigerMips

lemma Outcome.hasError_logFaults (log : Log) (faults : List (Fault × Span)) :
    (logFaults log faults).hasError ↔ log.hasError ∨ faults ≠ [] := by
  induction faults generalizing log with
  | nil => simp [logFaults]
  | cons fault rest ih =>
    have hlogged : (log.error fault.1.message (some fault.2)).hasError := by simp [Log.hasError, Log.error]
    have hstep : logFaults log (fault :: rest) = logFaults (log.error fault.1.message (some fault.2)) rest := rfl
    rw [hstep, ih]
    simp [hlogged]

namespace Tac.Program

variable {program : Tac.Program}

lemma generate_build_ok (h : program.Selectable) : ∃ machine graph, program.generate = .ok machine ∧
    Flow.Graph.build machine.lines machine.frames = .ok graph := by
  obtain ⟨machine, hm, hl, hr⟩ := Select.generate_ok h
  have htargets : Machine.Line.targets machine.lines ⊆ Machine.Line.labels machine.lines := fun target ht =>
    (hl.targets target ht).resolve_right id
  obtain ⟨graph, hg⟩ := Flow.Graph.build_ok hl.within htargets hr
  exact ⟨machine, graph, hm, hg⟩

lemma compile_eq {machine : Machine.Program} {graph : Flow.Graph} (hm : program.generate = .ok machine)
    (hg : Flow.Graph.build machine.lines machine.frames = .ok graph) :
    program.compile = .ok { tac := program, machine, flow := graph, liveness := Flow.Liveness.analyze graph } := by
  unfold compile
  rw [hm]
  change (Flow.Graph.build machine.lines machine.frames >>= _) = _
  rw [hg]
  rfl

end Tac.Program

lemma compile_of_hasError (options : CompileOptions) {log : Log} {expression : Expr}
    (h : log.hasError ∨ (analyze expression).1 ≠ []) : (compile options log expression).result = .ok none := by
  have hlogged := (Outcome.hasError_logFaults log (analyze expression).1).mpr h
  simp [compile, hlogged]

lemma compile_of_clean (options : CompileOptions) {log : Log} {expression : Expr} {compilation : Compilation}
    (hl : log.hasError = false) (he : (analyze expression).1 = [])
    (hc : (analyze expression).2.compile = .ok compilation) :
    (compile options log expression).result = .ok (some compilation) := by
  simp [compile, he, Outcome.logFaults, hl, hc]

/-- Whatever the program, compilation comes to an end without a failure, and it gives a result exactly when there are
no errors. The analysis uses each table only where it has entries, and takes no function for one of the runtime that
is not. The flow graph of a program without errors leads from block to block. -/
theorem compile_result_ok (options : CompileOptions) (log : Log) (expression : Expr) :
    (Analysis.lowerExpr expression Analyzer.initial).2.stray = false ∧
    (∀ id f, (analyze expression).2.functions.get? id = some f → f.isRuntime →
      ∃ function ∈ Runtime.visible, function.name = f.name ∧ function.signature = f.signature) ∧
    ((analyze expression).1 = [] → ∃ machine graph, (analyze expression).2.generate = .ok machine ∧
      Flow.Graph.build machine.lines machine.frames = .ok graph ∧ graph.InRange) ∧
    ∃ result, (compile options log expression).result = .ok result ∧
      (result.isSome ↔ log.hasError = false ∧ (analyze expression).1 = []) := by
  have hs := Analysis.sound_lowerExpr expression
  refine ⟨hs.intact, fun id f hf => (hs.functions id f hf).runtime, fun he => ?_, ?_⟩
  · obtain ⟨machine, graph, hm, hg⟩ := Tac.Program.generate_build_ok (selectable_analyze he)
    exact ⟨machine, graph, hm, hg, Flow.Graph.inRange_of_build hg⟩
  · by_cases hfailed : log.hasError ∨ (analyze expression).1 ≠ []
    · refine ⟨none, compile_of_hasError options hfailed, ?_⟩
      rcases hfailed with hl | he
      · simp [hl]
      · simp [he]
    · simp only [not_or, not_not, Bool.not_eq_true] at hfailed
      obtain ⟨hl, he⟩ := hfailed
      obtain ⟨machine, graph, hm, hg⟩ := Tac.Program.generate_build_ok (selectable_analyze he)
      exact ⟨_, compile_of_clean options hl he (Tac.Program.compile_eq hm hg), by simp [hl, he]⟩

end TigerMips
