import TigerMips.Proofs.Compile
import TigerMips.Proofs.Flow.Edges
import TigerMips.Proofs.Flow.Liveness
import TigerMips.Proofs.Labels
import TigerMips.Proofs.Select.Assigned
import TigerMips.Proofs.Select.Passing

/-! A program without calls writes each temp before it reads it, on every walk through its flow graph. -/

namespace TigerMips

open Machine

namespace Machine.Line

structure Known (lines : List Line) (frames : Arena .frame Frame) (marks : Label → Set Temp) (known : Nat → Set Temp) :
    Prop where
  label : ∀ p place, lines[p]? = some (.label place) → marks place ⊆ known p ∧ known (p + 1) ⊆ marks place
  uses : ∀ p i, lines[p]? = some (.instruction i) → ∀ t ∈ i.operation.uses, t ∈ known p
  exits : ∀ p i, lines[p]? = some (.instruction i) → ∀ place ∈ i.exits frames, marks place ⊆ known p
  next : ∀ p i, lines[p]? = some (.instruction i) → i.operation.fallsThrough = true →
    known (p + 1) ⊆ known p ∪ {t | t ∈ i.operation.defs}

variable {lines : List Line} {marks : Label → Set Temp} {given after : Set Temp}

lemma ready_instruction {i : Instruction} {known : Set Temp} (frames : Arena .frame Frame)
    (h : (effect (.instruction i)).Ready marks known) :
    (∀ t ∈ i.operation.uses, t ∈ known) ∧ ∀ place ∈ i.exits frames, marks place ⊆ known := by
  have harrived : (effect (.instruction i)).arrived marks known = known := by
    rw [Effect.arrived, label?_effect_instruction, Option.elim_none]
  have hreads := harrived ▸ h.reads
  have hjumps := harrived ▸ h.jumps
  rcases i with ⟨frame, operation, transfer⟩
  cases operation with
  | jumpAndLink target returnAddress | jumpRegister register =>
    exact ⟨fun t _ => hreads t trivial, fun _ _ t _ => hreads t trivial⟩
  | _ => exact ⟨hreads, hjumps⟩

lemma after_instruction {i : Instruction} {known : Set Temp} (hf : i.operation.fallsThrough = true) :
    (effect (.instruction i)).after marks known = known ∪ {t | t ∈ i.operation.defs} := by
  rw [Effect.after, Effect.arrived, label?_effect_instruction, Option.elim_none, Effect.leaving]
  rcases i with ⟨frame, operation, transfer⟩
  cases operation <;> first | rfl | cases hf

lemma known_of_assigned (frames : Arena .frame Frame) (h : Assigned effect marks given lines after) :
    Known lines frames marks (Assigned.knownAt effect marks given lines) where
  label p place hp := by
    refine ⟨(h.ready_knownAt hp).label place rfl, ?_⟩
    rw [Assigned.knownAt_succ hp]
    simp [effect, Effect.after, Effect.leaving, Effect.arrived]
  uses p i hp := (ready_instruction frames (h.ready_knownAt hp)).1
  exits p i hp := (ready_instruction frames (h.ready_knownAt hp)).2
  next p i hp hf := by rw [Assigned.knownAt_succ hp, after_instruction hf]

end Machine.Line

namespace Flow.Graph

variable {lines : List Line} {frames : Arena .frame Frame} {graph : Graph} {marks : Label → Set Temp}
  {known : Nat → Set Temp}

def body (graph : Graph) (id : BlockId) (block : Block) : Nat :=
  start graph.blocks.items id.position + block.labels.length

namespace Built

variable {id next : BlockId} {block other last : Block} {passed : List Block} {before rest : List Instruction}
  (h : Built lines frames graph) (hk : Line.Known lines frames marks known)
include h hk

lemma known_body_subset (hb : graph.blocks.get? id = some block) {j d : Nat} (hj : j + d = block.labels.length) :
    known (graph.body id block) ⊆ known (start graph.blocks.items id.position + j) := by
  induction d generalizing j with
  | zero =>
    obtain rfl : j = block.labels.length := hj
    exact Set.Subset.rfl
  | succ d ih =>
    obtain ⟨place, hplace⟩ : ∃ place, block.labels[j]? = some place := ⟨_, List.getElem?_eq_getElem (by omega)⟩
    have hline := h.lines_eq ▸ (getElem?_start_label hb hplace).2
    have hrest := ih (j := j + 1) (by omega)
    exact hrest.trans ((hk.label _ place hline).2.trans (hk.label _ place hline).1)

lemma known_body_subset_mark (hb : graph.blocks.get? id = some block) {j : Nat} {place : Label}
    (hplace : block.labels[j]? = some place) : known (graph.body id block) ⊆ marks place := by
  have hj := (List.getElem?_eq_some_iff.mp hplace).1
  have hline := h.lines_eq ▸ (getElem?_start_label hb hplace).2
  have hrest := h.known_body_subset hk hb (j := j + 1) (d := block.labels.length - (j + 1)) (by omega)
  exact hrest.trans (hk.label _ place hline).2

omit hk in
lemma getElem?_body (hb : graph.blocks.get? id = some block) {j : Nat} {i : Instruction}
    (hi : block.instructions[j]? = some i) : lines[graph.body id block + j]? = some (.instruction i) := by
  have hj := (List.getElem?_eq_some_iff.mp hi).1
  have hlength := block.length_lines
  rw [← h.lines_eq, body, Nat.add_assoc, getElem?_start hb (by omega), Block.getElem?_lines_instruction, hi,
    Option.map_some]

lemma known_inside (hb : graph.blocks.get? id = some block) (hi : block.instructions = before ++ rest)
    (hf : ∀ i ∈ before, i.operation.fallsThrough = true) : known (graph.body id block + before.length) ⊆
      known (graph.body id block) ∪ {t | ∃ i ∈ before, t ∈ i.operation.defs} := by
  induction before using List.reverseRecOn generalizing rest with
  | nil => exact Set.subset_union_left
  | append_singleton earlier i ih =>
    have hline : lines[graph.body id block + earlier.length]? = some (.instruction i) :=
      h.getElem?_body hb (by simp [hi])
    have hbefore := ih (by simpa using hi) fun e he => hf e (by simp [he])
    rw [List.length_append, List.length_singleton, ← Nat.add_assoc]
    refine (hk.next _ i hline (hf i (by simp))).trans (Set.union_subset (hbefore.trans ?_) fun t ht => ?_)
    · exact Set.union_subset_union_right _ fun t ⟨e, he, ht⟩ => ⟨e, List.mem_append_left _ he, ht⟩
    · exact Or.inr ⟨i, by simp, ht⟩

omit hk in
lemma falls_before (hb : graph.blocks.get? id = some block) {i : Instruction}
    (hi : block.instructions = before ++ i :: rest) : ∀ e ∈ before, e.operation.fallsThrough = true := fun e he => by
  refine Operation.fallsThrough_of_not_isJump ((h.formed block (graph.blocks.mem_items.mpr ⟨id, hb⟩)).straight e ?_)
  rw [hi, List.dropLast_append_of_ne_nil (by simp)]
  exact List.mem_append_left _ he

lemma known_body_of_successor (hb : graph.blocks.get? id = some block) (hn : next ∈ block.successors)
    (ho : graph.blocks.get? next = some other) :
    known (graph.body next other) ⊆ known (graph.body id block) ∪ {t | block.Writes t} := by
  rcases (h.successors id block hb next).mp hn with ⟨place, hp, hplaced⟩ | ⟨hf, hnext, -⟩
  · obtain ⟨i, hlast, hexit⟩ := Block.mem_exits.mp hp
    obtain ⟨before, hi⟩ := List.getLast?_eq_some_iff.mp hlast
    obtain ⟨found, hfound, hlabel⟩ := h.mem_labels_of_placed? hplaced
    obtain rfl := Option.some.inj (ho.symm.trans hfound)
    obtain ⟨j, hplace⟩ := List.mem_iff_getElem?.mp hlabel
    have hline : lines[graph.body id block + before.length]? = some (.instruction i) :=
      h.getElem?_body hb (by simp [hi])
    calc known (graph.body next other)
        ⊆ marks place := h.known_body_subset_mark hk ho hplace
      _ ⊆ known (graph.body id block + before.length) := hk.exits _ i hline place hexit
      _ ⊆ known (graph.body id block) ∪ {t | ∃ i ∈ before, t ∈ i.operation.defs} :=
        h.known_inside hk hb hi (h.falls_before hb hi)
      _ ⊆ known (graph.body id block) ∪ {t | block.Writes t} :=
        Set.union_subset_union_right _ fun t ⟨e, he, ht⟩ => ⟨e, hi ▸ List.mem_append_left _ he, ht⟩
  · have hstart : start graph.blocks.items next.position = graph.body id block + block.instructions.length := by
      rw [hnext, start_succ hb, Block.length_lines, body, Nat.add_assoc]
    have hfalls : ∀ i ∈ block.instructions, i.operation.fallsThrough = true := fun i hi => by
      obtain ⟨before, rest, hsplit⟩ := List.append_of_mem hi
      rcases List.eq_nil_or_concat rest with rfl | ⟨inner, final, rfl⟩
      · exact Block.fallsThrough_eq_true.mp hf i (by simp [hsplit])
      · have hlast : block.instructions = (before ++ i :: inner) ++ final :: [] := by simp [hsplit]
        exact h.falls_before hb hlast i (by simp)
    calc known (graph.body next other)
        ⊆ known (start graph.blocks.items next.position) :=
          h.known_body_subset hk ho (j := 0) (Nat.zero_add _)
      _ = known (graph.body id block + block.instructions.length) := by rw [hstart]
      _ ⊆ known (graph.body id block) ∪ {t | block.Writes t} :=
        h.known_inside hk hb (List.append_nil _).symm hfalls

lemma known_of_walk (hb : graph.blocks.get? id = some block) (hw : graph.Walk id passed last) :
    ∃ final, graph.blocks.get? final = some last ∧
      known (graph.body final last) ⊆ known (graph.body id block) ∪ {t | ∃ b ∈ passed, b.Writes t} := by
  induction hw generalizing block with
  | here hlast =>
    obtain rfl := Option.some.inj (hb.symm.trans hlast)
    exact ⟨_, hb, Set.subset_union_left⟩
  | @step id first next passed last hfirst hn hw ih =>
    obtain rfl := Option.some.inj (hb.symm.trans hfirst)
    obtain ⟨other, ho⟩ := hw.exists_first
    obtain ⟨final, hfinal, hknown⟩ := ih ho
    refine ⟨final, hfinal, fun t ht => ?_⟩
    rcases hknown ht with ht | ⟨b, hm, ht⟩
    · exact (h.known_body_of_successor hk hb hn ho ht).imp_right fun ht => ⟨_, List.mem_cons_self, ht⟩
    · exact Or.inr ⟨b, List.mem_cons_of_mem _ hm, ht⟩

end Built

def AssignsFrom (graph : Graph) (id : BlockId) (t : Temp) : Prop :=
  ∀ passed last before i after, graph.Walk id passed last → last.instructions = before ++ i :: after →
    t ∈ i.operation.uses → (∃ block ∈ passed, block.Writes t) ∨ ∃ earlier ∈ before, t ∈ earlier.operation.defs

lemma AssignsFrom.not_liveAt {id : BlockId} {t : Temp} (h : graph.AssignsFrom id t) : ¬ graph.LiveAt t id := by
  rintro ⟨passed, last, hw, hp, before, i, after, hi, hu, hbefore⟩
  rcases h passed last before i after hw hi hu with ⟨block, hm, hwrites⟩ | ⟨earlier, hm, hd⟩
  · exact hp block hm hwrites
  · exact hbefore earlier hm hd

lemma Built.assignsFrom (h : Built lines frames graph) (hk : Line.Known lines frames marks known) {t : Temp}
    (ht : t ∉ known 0) : graph.AssignsFrom ⟨0⟩ t := by
  intro passed last before i after hw hi hu
  obtain ⟨first, hfirst⟩ := hw.exists_first
  obtain ⟨final, hfinal, hknown⟩ := h.known_of_walk hk hfirst hw
  have huse := hk.uses _ i (h.getElem?_body hfinal (j := before.length) (by simp [hi])) t hu
  rcases h.known_inside hk hfinal hi (h.falls_before hfinal hi) huse with huse | hbefore
  · refine (hknown huse).elim (fun hentry => absurd ?_ ht) Or.inl
    exact h.known_body_subset hk hfirst (j := 0) (Nat.zero_add _) hentry
  · exact Or.inr hbefore

end Flow.Graph

open Select

/-- Where a check of the lines fails, control passes a request to end the program on its way to the label at their
end, and the temp is not written. -/
def Machine.Line.PassesExit (registers : Registers) (t : Temp) (lines : List Line) : Prop :=
  ∃ checks fail failing request exit,
    lines = checks ++ .label fail :: (failing ++ [request]).map .instruction ++ [.label exit] ∧
    fail ∈ Line.targets checks ∧ request.operation = .syscall .exitWithCode registers.v0 registers.a0 registers.a1 ∧
    ∀ i ∈ failing ++ [request], i.operation.isJump = false ∧ t ∉ i.operation.defs

namespace Select

lemma passesExit_oneChar {context : Context} {code : Access} {destination : Option Access} {s s' : Selection}
    {lines : List Line} (h : oneChar context code destination s = .ok (lines, s')) {t : Temp}
    (ha : t ≠ context.registers.a0) (hv : t ≠ context.registers.v0) :
    Line.PassesExit context.registers t lines := by
  obtain ⟨fail, _, -, h⟩ := bind_eq_ok.mp h
  obtain ⟨exit, _, -, h⟩ := bind_eq_ok.mp h
  obtain ⟨max, _, -, h⟩ := bind_eq_ok.mp h
  obtain ⟨⟨byte, byteLines⟩, _, -, h⟩ := bind_eq_ok.mp h
  obtain ⟨buffer, _, -, h⟩ := bind_eq_ok.mp h
  obtain ⟨allocation, _, -, h⟩ := bind_eq_ok.mp h
  obtain ⟨result, _, -, h⟩ := bind_eq_ok.mp h
  obtain ⟨failure, _, hfailure, h⟩ := bind_eq_ok.mp h
  obtain ⟨rfl, -⟩ := pure_eq_ok.mp h
  obtain ⟨rfl, -⟩ := Prod.mk.inj (Except.ok.inj hfailure)
  refine ⟨context.line (.loadImmediate max 255) :: byteLines ++
    [context.line (.branch .gt byte max fail), context.line (.branch .lt byte context.registers.zero fail)] ++
    allocation ++ [storeByte context byte buffer 0, storeByte context context.registers.zero buffer 1] ++ result ++
    [context.line (.jump exit)], fail,
    [⟨context.frame, .loadImmediate context.registers.a0 1, false⟩,
      ⟨context.frame, .loadImmediate context.registers.v0 Service.exitWithCode.code, false⟩],
    ⟨context.frame, .syscall .exitWithCode context.registers.v0 context.registers.a0 context.registers.a1, false⟩, exit,
    ?_, ?_, rfl, ?_⟩
  · simp [syscall, Context.line, loadConstant]
  · exact List.mem_filterMap.mpr ⟨context.line (.branch .gt byte max fail), by simp, rfl⟩
  · simp [Operation.isJump, Operation.defs, ha, hv]

lemma passesExit_operation {context : Context} {graph : CallGraph} {start : Nat} {destination : Option Access}
    {arguments : List Access} {s s' : Selection} {lines : List Line} {saves : List CallSave}
    (h : operation context graph start (.callRuntime destination Runtime.chr.name arguments) s =
      .ok ((lines, saves), s')) {t : Temp} (ha : t ≠ context.registers.a0) (hv : t ≠ context.registers.v0) :
    Line.PassesExit context.registers t lines := by
  obtain ⟨own, _, hown, h⟩ := bind_eq_ok.mp h
  obtain ⟨rfl, -, -⟩ := pure_pair_eq_ok.mp h
  obtain ⟨argument, _, -, hown⟩ := bind_eq_ok.mp hown
  exact passesExit_oneChar hown ha hv

lemma passesExit_code {registers : Registers} {graph : CallGraph} {start : Nat} {c : Code} {s s' : Selection}
    {lines : List Line} {saves : List CallSave} (h : code registers graph start c s = .ok ((lines, saves), s'))
    {frame : FrameId} {destination : Option Access} {arguments : List Access}
    (hc : c.op? = some (frame, .callRuntime destination Runtime.chr.name arguments)) {t : Temp} (ha : t ≠ registers.a0)
    (hv : t ≠ registers.v0) : Line.PassesExit registers t lines := by
  cases c with
  | label place => cases hc
  | op own tac =>
    obtain ⟨rfl, rfl⟩ := Prod.mk.inj (Option.some.inj hc)
    have hown : operation ⟨own, registers⟩ graph start (.callRuntime destination Runtime.chr.name arguments) s =
      .ok ((lines, saves), s') := h
    exact passesExit_operation hown ha hv
  | labeled place own tac =>
    obtain ⟨rfl, rfl⟩ := Prod.mk.inj (Option.some.inj hc)
    obtain ⟨⟨rest, restSaves⟩, _, ho, h⟩ := bind_eq_ok.mp h
    obtain ⟨rfl, -, -⟩ := pure_pair_eq_ok.mp h
    obtain ⟨checks, fail, failing, request, exit, rfl, hfail, hrequest, hi⟩ := passesExit_operation ho ha hv
    exact ⟨.label place :: checks, fail, failing, request, exit, by simp, hfail, hrequest, hi⟩

end Select

namespace Tac.Program

variable {program : Tac.Program}

def Converts (program : Tac.Program) (t : Temp) : Prop :=
  ∃ frame arguments, (frame, .callRuntime (some (.temp t)) Runtime.chr.name arguments) ∈ Code.ops program.codes

lemma converts_iff {t : Temp} : program.Converts t ↔ ∃ op ∈ Code.ops program.codes, t ∈ op.2.unset := by
  constructor
  · rintro ⟨frame, arguments, hm⟩
    refine ⟨_, hm, ?_⟩
    have hname : Runtime.ofName? Runtime.chr.name = some .chr := by decide
    simp [Tac.unset, hname, Access.written]
  · rintro ⟨⟨frame, tac⟩, hm, ht⟩
    cases tac with
    | callRuntime destination name arguments =>
      simp only [Tac.unset] at ht
      split at ht
      · rename_i hname
        obtain ⟨access, hd, ht⟩ := List.mem_flatMap.mp ht
        obtain rfl := Option.mem_toList.mp hd
        obtain rfl : Runtime.chr.name = name := by simpa using List.find?_some hname
        cases access with
        | temp place =>
          obtain rfl := List.mem_singleton.mp ht
          exact ⟨frame, arguments, hm⟩
        | const constant | memory base offset => cases ht
      · cases ht
    | _ => cases ht

lemma exists_selects {machine : Machine.Program} (h : program.generate = .ok machine) {position : Nat} {c : Code}
    (hc : program.codes[position]? = some c) : ∃ before own, program.Selects machine position before own := by
  obtain ⟨s, saves, s', hreserve, hcodes⟩ := generate_eq_ok h
  obtain ⟨before, earlier, s₁, own, ownSaves, s₂, hbefore, hown, hlines⟩ := codes_getElem? hcodes hc
  rw [Nat.zero_add] at hown
  exact ⟨before, own, s, s₁, s₂, c, earlier, ownSaves, hc, hreserve, hbefore, hown, hlines⟩

lemma lt_of_converts {expression : Expr} (h : (analyze expression).1 = []) {t : Temp}
    (ht : (analyze expression).2.Converts t) : t.number < (analyze expression).2.supply.temps := by
  obtain ⟨frame, arguments, hm⟩ := ht
  exact below_analyze h t (List.mem_flatMap.mpr ⟨_, hm, by simp [Tac.temps, Access.temps]⟩)

end Tac.Program

lemma lt_supply_of_mem_code {expression : Expr} (h : (analyze expression).1 = []) {code : Code} {l : Label}
    (hc : code ∈ (analyze expression).2.codes) (hl : l ∈ code.label? ∨ l ∈ code.jump?) :
    l.number < (analyze expression).2.supply.labels := by
  refine lt_supply_of_mem_labels h ?_
  rcases hl with hl | hl
  · exact List.mem_filterMap.mpr ⟨code, hc, hl⟩
  · obtain ⟨⟨frame, tac⟩, hop, hj⟩ := Option.bind_eq_some_iff.mp hl
    refine (wellLabeled_codes h).targets _ (List.mem_filterMap.mpr ⟨code, hc, hop⟩) l ?_
    cases tac with
    | goto target | branch relation lhs rhs target => exact hj
    | _ => cases hj

/-- A program without calls is compiled to a flow graph that writes each temp before it reads it, except the zero
register and the strings of single characters: where a conversion fails, control passes the request to end the
program, and goes on without the string. -/
theorem assignsFrom_compile (expression : Expr) (h : (analyze expression).1 = [])
    (hcall : ∀ op ∈ Code.ops (analyze expression).2.codes, op.2.callee? = none) :
    ∃ compilation, (analyze expression).2.compile = .ok compilation ∧
      (∀ t ∈ Flow.Liveness.liveInOf compilation.liveness.sets ⟨0⟩,
        t = compilation.machine.registers.zero ∨ (analyze expression).2.Converts t) ∧
      (∀ t, t ≠ compilation.machine.registers.zero → ¬ (analyze expression).2.Converts t →
        compilation.flow.AssignsFrom ⟨0⟩ t) ∧
      ∀ position c frame t arguments, (analyze expression).2.codes[position]? = some c →
        c.op? = some (frame, .callRuntime (some (.temp t)) Runtime.chr.name arguments) →
        ∃ before own, (analyze expression).2.Selects compilation.machine position before own ∧
          Line.PassesExit compilation.machine.registers t own := by
  have hselectable := selectable_analyze h
  obtain ⟨machine, graph, hm, hg⟩ := Tac.Program.generate_build_ok hselectable
  have hbuilt := Flow.Graph.built_of_build hg
  obtain ⟨marks, known, hassigned⟩ := assigned_analyze h
  obtain ⟨marks, known, hlines⟩ :=
    assigned_generate hm hcall (fun code hc l => lt_supply_of_mem_code h hc) hassigned rfl
  have hknown := Line.known_of_assigned machine.frames hlines
  have hassigns : ∀ t, t ≠ machine.registers.zero → ¬ (analyze expression).2.Converts t →
      graph.AssignsFrom ⟨0⟩ t := fun t hz hc => hbuilt.assignsFrom hknown <| by
    rw [Assigned.knownAt_zero]
    rintro (rfl | ht)
    · exact hz rfl
    · exact hc (Tac.Program.converts_iff.mpr ht)
  refine ⟨_, Tac.Program.compile_eq hm hg, fun t ht => ?_, hassigns, fun position c frame t arguments hc hop => ?_⟩
  · by_contra hno
    rw [not_or] at hno
    exact (hassigns t hno.1 hno.2).not_liveAt ((Flow.Liveness.analyze_settled graph).1.liveAt ht)
  · obtain ⟨before, own, hselects⟩ := Tac.Program.exists_selects hm hc
    refine ⟨before, own, hselects, ?_⟩
    obtain ⟨s, s₁, s₂, found, earlier, saves, hfound, hreserve, -, hown, -⟩ := hselects
    obtain rfl := Option.some.inj (hc.symm.trans hfound)
    have hlt :=
      Tac.Program.lt_of_converts h ⟨frame, arguments, List.mem_filterMap.mpr ⟨c, List.mem_of_getElem? hc, hop⟩⟩
    obtain ⟨hregisters, -⟩ := reserve_eq_ok hreserve
    refine passesExit_code hown hop ?_ ?_ <;>
    · rw [hregisters]
      rintro rfl
      simp at hlt

def spelledLoop : Expr :=
  .letIn {} [.functions [.mk { name := "unused" } [] none (.call {} { name := "flush" } [])]]
    [.forLoop {} { name := "i" } (.int {} 60) (.int {} 300)
      (.ifThenElse {} (.operation {} (.strict (.compare .eq)) {} (.lvalue {} (.var {} { name := "i" })) (.int {} 90))
        (.breakLoop {})
        (.call {} { name := "print" } [.call {} { name := "chr" } [.lvalue {} (.var {} { name := "i" })]]))]

theorem spelledLoop_assignsFrom : (analyze spelledLoop).1 = [] ∧
    (∀ op ∈ Code.ops (analyze spelledLoop).2.codes, op.2.callee? = none) ∧
    ∃ compilation, (analyze spelledLoop).2.compile = .ok compilation ∧
      ∀ t, t ≠ compilation.machine.registers.zero → ¬ (analyze spelledLoop).2.Converts t →
        compilation.flow.AssignsFrom ⟨0⟩ t := by
  have hclean : (analyze spelledLoop).1 = [] := List.isEmpty_iff.mp (by decide +kernel)
  have hcall : ∀ op ∈ Code.ops (analyze spelledLoop).2.codes, op.2.callee? = none := by decide +kernel
  obtain ⟨compilation, hcompile, -, hassigns, -⟩ := assignsFrom_compile spelledLoop hclean hcall
  exact ⟨hclean, hcall, compilation, hcompile, hassigns⟩

end TigerMips
