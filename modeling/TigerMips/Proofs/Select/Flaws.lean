import TigerMips.Proofs.Select.Growth

/-! Instruction selection fails on malformed operations and on nothing else, with the failure of the first of them. -/

namespace TigerMips

namespace Select

open Machine

def outline (frames : Arena .frame Frame) : List (Option Label × Option Temp) :=
  frames.items.map fun f => (f.entry, f.returnValue)

lemma map_returnValue_entered? (frames : Arena .frame Frame) (target : Label) :
    (entered? frames target).map (·.2.returnValue) =
      ((outline frames).reverse.find? (·.1 = some target)).map Prod.snd := by
  have hitems : frames.entries.map Prod.snd = frames.items := by
    simp [Arena.entries, List.map_map, Function.comp_def, List.zipIdx_map_fst]
  rw [outline, ← hitems, List.map_map, ← List.map_reverse, List.find?_map, Option.map_map]
  rfl

lemma flaw?_congr {frames others : Arena .frame Frame} (h : outline frames = outline others) (tac : Tac) :
    tac.flaw? frames = tac.flaw? others := by
  cases tac with
  | call destination target arguments =>
    have hcall : ∀ table, (Tac.call destination target arguments).flaw? table =
        match (entered? table target).map (·.2.returnValue) with
        | none => some (.undefinedLabel target)
        | some result =>
          if result.isSome then (destination.bind Access.constant?).map .invalidDestination else none := fun table => by
      simp only [Tac.flaw?]
      cases entered? table target <;> rfl
    rw [hcall, hcall, map_returnValue_entered?, map_returnValue_entered?, h]
  | _ => rfl

lemma failure?_code (registers : Registers) (graph : CallGraph) (start : Nat) {c : Code} {s : Selection}
    (hc : ∀ frame ∈ c.frame?, frame.position < s.frames.size) :
    failure? (code registers graph start c s) = c.op?.bind (·.2.flaw? s.frames) := by
  cases c with
  | label place => rfl
  | op frame tac =>
    have hrun : failure? (operation ⟨frame, registers⟩ graph start tac s) = tac.flaw? s.frames :=
      failure?_operation start tac (hc frame rfl)
    exact hrun
  | labeled place frame tac =>
    have hrun : failure? (operation ⟨frame, registers⟩ graph (start + 1) tac s) = tac.flaw? s.frames :=
      failure?_operation (start + 1) tac (hc frame rfl)
    exact (failure?_bind fun _ _ => rfl).trans hrun

def firstFlaw? (frames : Arena .frame Frame) (all : List Code) : Option Failure :=
  (Code.ops all).findSome? (·.2.flaw? frames)

lemma firstFlaw?_cons (frames : Arena .frame Frame) (c : Code) (rest : List Code) :
    firstFlaw? frames (c :: rest) = (c.op?.bind (·.2.flaw? frames)).or (firstFlaw? frames rest) := by
  cases c with
  | label place => rfl
  | op frame tac | labeled place frame tac =>
    simp only [firstFlaw?, Code.ops_op, Code.ops_labeled, List.findSome?_cons, Code.op?, Option.bind_some]
    cases tac.flaw? frames <;> rfl

lemma failure?_codes (registers : Registers) (graph : CallGraph) (start : Nat) {all : List Code} {s : Selection}
    (hc : ∀ op ∈ Code.ops all, op.1.position < s.frames.size) :
    failure? (codes registers graph start all s) = firstFlaw? s.frames all := by
  induction all generalizing start s with
  | nil => rfl
  | cons c rest ih =>
    have hfirst := failure?_code registers graph start (c := c) (s := s) fun frame hm => by
      obtain ⟨op, hop, rfl⟩ := Option.map_eq_some_iff.mp hm
      exact hc op (List.mem_filterMap.mpr ⟨c, List.mem_cons_self, hop⟩)
    rw [firstFlaw?_cons, ← hfirst]
    cases hrun : code registers graph start c s with
    | error failure => exact congrArg failure? (bind_eq_error hrun)
    | ok result =>
      obtain ⟨⟨lines, saves⟩, t⟩ := result
      have hwidens := (widens_code hrun).1
      have hsame : outline t.frames = outline s.frames := hwidens.map_items fun _ _ _ => rfl
      have hrest := ih (start + lines.length) (s := t) fun op hm => by
        rw [hwidens.size]
        obtain ⟨c', hm', hop⟩ := List.mem_filterMap.mp hm
        exact hc op (List.mem_filterMap.mpr ⟨c', List.mem_cons_of_mem _ hm', hop⟩)
      simp only [firstFlaw?, flaw?_congr hsame] at hrest
      exact (congrArg failure? (bind_apply_ok hrun)).trans ((failure?_bind fun _ _ => rfl).trans hrest)

lemma failure?_generate {program : Tac.Program} (hmain : program.mainFrame.position < program.frames.size)
    (hframes : ∀ op ∈ Code.ops program.codes, op.1.position < program.frames.size) :
    failure? program.generate = firstFlaw? program.frames program.codes := by
  obtain ⟨registers, hreserve⟩ := exists_reserve (s := ⟨program.frames, program.supply⟩) hmain
  have hsame : outline (Selection.drawn ⟨program.frames, program.supply⟩ program.mainFrame 7 0).frames =
      outline program.frames := map_items_modify _ _ fun _ => rfl
  have hcodes := failure?_codes registers program.callGraph 0
    (s := Selection.drawn ⟨program.frames, program.supply⟩ program.mainFrame 7 0) (by simpa using hframes)
  simp only [firstFlaw?, flaw?_congr hsame] at hcodes
  unfold Tac.Program.generate
  dsimp only
  rw [bind_apply_ok hreserve, firstFlaw?, ← hcodes]
  cases hrun : codes registers program.callGraph 0 program.codes
      (Selection.drawn ⟨program.frames, program.supply⟩ program.mainFrame 7 0) with
  | error failure =>
    rw [bind_eq_error hrun]
    rfl
  | ok result =>
    rw [bind_apply_ok hrun]
    rfl

end Select

/-- Instruction selection fails exactly if some operation has a flaw, and then with that of the first such operation. -/
theorem generate_eq_error_iff {program : Tac.Program} (hmain : program.mainFrame.position < program.frames.size)
    (hframes : ∀ op ∈ Code.ops program.codes, op.1.position < program.frames.size) :
    ((∃ failure, program.generate = .error failure) ↔
      ∃ op ∈ Code.ops program.codes, (op.2.flaw? program.frames).isSome) ∧
    ∀ failure, program.generate = .error failure ↔
      ∃ before op after, Code.ops program.codes = before ++ op :: after ∧ op.2.flaw? program.frames = some failure ∧
        ∀ other ∈ before, other.2.flaw? program.frames = none := by
  have hiff : ∀ failure, program.generate = .error failure ↔
      Select.firstFlaw? program.frames program.codes = some failure := fun failure => by
    rw [← Select.failure?_generate hmain hframes, Select.failure?_eq_some]
  refine ⟨?_, fun failure => (hiff failure).trans List.findSome?_eq_some_iff⟩
  simp only [hiff, ← Option.isSome_iff_exists, Select.firstFlaw?, List.findSome?_isSome_iff]

def flawed : Tac.Program where
  codes := [
    .op ⟨0⟩ (.call (some (.int 1)) ⟨0⟩ [.memory (.const (.string ⟨2⟩)) (.memory (.temp ⟨0⟩) .word)]),
    .op ⟨0⟩ (.callRuntime (some .word) "print" [.const (.string ⟨2⟩), .int 7]),
    .labeled ⟨0⟩ ⟨1⟩ (.callRuntime (some (.int 0)) "substring" [.const (.string ⟨2⟩), .int 3]),
    .op ⟨1⟩ (.negate .word (.const (.string ⟨2⟩))),
    .op ⟨1⟩ (.call none ⟨1⟩ [])]
  frames := ⟨[
    { name := "main", entry := none, parent := none, display := ⟨0⟩ },
    { name := "function", entry := some ⟨0⟩, parent := some ⟨0⟩, params := [⟨2⟩], display := ⟨1⟩, locals := [⟨2⟩] }]⟩
  supply := ⟨3, 3⟩

theorem flawed_generate : flawed.generate = .error (.missingArgument "substring" 2) :=
  ((generate_eq_error_iff (by decide) (by decide)).2 _).mpr
    ⟨(Code.ops flawed.codes).take 2, _, (Code.ops flawed.codes).drop 3, rfl, by decide, by decide⟩

end TigerMips
