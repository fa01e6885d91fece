import TigerMips.Proofs.Select.Operation
import TigerMips.Select.Program

/-! Machine code simulates three-address code without calls, each code with its own lines. -/

namespace TigerMips.Select

open Machine

variable {registers : Registers} {link : Linkage} {bound : Nat}

def Translates (registers : Registers) (link : Linkage) (bound : Nat) (c : Code) (lines : List Line) : Prop :=
  ∃ rest, lines = c.label?.toList.map .label ++ rest ∧
    match c.op? with
    | none => rest = []
    | some (frame, tac) => Carries ⟨frame, registers⟩ link bound tac rest

lemma Carries.labels {context : Context} {tac : Tac} {lines : List Line} (h : Carries context link bound tac lines) :
    Line.labels lines = [] := by
  obtain ⟨before, instruction, rfl, hb, -⟩ := h
  simp [hb]

lemma Carries.length_pos {context : Context} {tac : Tac} {lines : List Line}
    (h : Carries context link bound tac lines) : 0 < lines.length := by
  obtain ⟨before, instruction, rfl, -⟩ := h
  simp

lemma Translates.find? {c : Code} {lines : List Line} (h : Translates registers link bound c lines) (place : Label) :
    Line.find? lines place = if c.label? = some place then some 0 else none := by
  obtain ⟨rest, rfl, hrest⟩ := h
  have hnone : Line.find? rest place = none := by
    have hl : Line.labels rest = [] := by
      cases hop : c.op? with
      | none =>
        rw [hop] at hrest
        simp [hrest]
      | some p =>
        rw [hop] at hrest
        exact hrest.labels
    refine List.findIdx?_eq_none_iff.mpr fun line hm => ?_
    simp [List.filterMap_eq_nil_iff.mp hl line hm]
  cases hc : c.label? with
  | none => simpa using hnone
  | some found =>
    unfold Line.find? at hnone ⊢
    by_cases he : found = place <;> simp [List.findIdx?_cons, he, -List.findIdx?_eq_none_iff, hnone]

lemma translates_code {graph : CallGraph} {start : Nat} {c : Code} {s s' : Selection} {lines : List Line}
    {saves : List CallSave} (h : code registers graph start c s = .ok ((lines, saves), s'))
    (hready : Ready registers bound s) (hlocal : ∀ op ∈ c.op?, op.2.isLocal)
    (ht : ∀ op ∈ c.op?, ∀ t ∈ op.2.temps, t.number < bound) :
    Ready registers bound s' ∧ ∀ link, Translates registers link bound c lines := by
  have hcarry : ∀ {frame tac start lines saves}, operation ⟨frame, registers⟩ graph start tac s =
      .ok ((lines, saves), s') → (frame, tac) ∈ c.op? →
      Ready registers bound s' ∧ ∀ link, Carries ⟨frame, registers⟩ link bound tac lines := by
    intro frame tac start lines saves h hop
    obtain ⟨⟨k, rfl⟩, -⟩ := carries_operation default h (hlocal _ hop) hready (ht _ hop)
    exact ⟨hready.drawn _ _ _, fun link => (carries_operation link h (hlocal _ hop) hready (ht _ hop)).2⟩
  cases c with
  | label place =>
    obtain ⟨rfl, rfl, rfl⟩ := pure_pair_eq_ok.mp h
    exact ⟨hready, fun _ => ⟨[], rfl, rfl⟩⟩
  | op frame tac =>
    obtain ⟨hready', hc⟩ := hcarry h rfl
    exact ⟨hready', fun link => ⟨lines, rfl, hc link⟩⟩
  | labeled place frame tac =>
    obtain ⟨⟨rest, restSaves⟩, s₁, ho, h⟩ := bind_eq_ok.mp h
    obtain ⟨rfl, rfl, rfl⟩ := pure_pair_eq_ok.mp h
    obtain ⟨hready', hc⟩ := hcarry ho rfl
    exact ⟨hready', fun link => ⟨rest, rfl, hc link⟩⟩

lemma translates_codes {graph : CallGraph} {start : Nat} {all : List Code} {s s' : Selection} {lines : List Line}
    {saves : List CallSave} (h : codes registers graph start all s = .ok ((lines, saves), s'))
    (hready : Ready registers bound s) (hlocal : ∀ op ∈ Code.ops all, op.2.isLocal)
    (ht : ∀ op ∈ Code.ops all, ∀ t ∈ op.2.temps, t.number < bound) :
    ∃ chunks, lines = chunks.flatten ∧ ∀ link, List.Forall₂ (Translates registers link bound) all chunks := by
  induction all generalizing start s lines saves with
  | nil =>
    obtain ⟨he, -⟩ := pure_eq_ok.mp h
    exact ⟨[], (Prod.mk.inj he).1, fun _ => .nil⟩
  | cons c rest ih =>
    obtain ⟨⟨first, firstSaves⟩, s₁, hf, h⟩ := bind_eq_ok.mp h
    obtain ⟨⟨others, otherSaves⟩, s₂, hr, h⟩ := bind_eq_ok.mp h
    obtain ⟨rfl, rfl, rfl⟩ := pure_pair_eq_ok.mp h
    have hhead : ∀ op ∈ c.op?, op ∈ Code.ops (c :: rest) := fun op ho =>
      List.mem_filterMap.mpr ⟨c, List.mem_cons_self, ho⟩
    have htail : ∀ op ∈ Code.ops rest, op ∈ Code.ops (c :: rest) := fun op ho => by
      obtain ⟨d, hd, ho⟩ := List.mem_filterMap.mp ho
      exact List.mem_filterMap.mpr ⟨d, List.mem_cons_of_mem _ hd, ho⟩
    obtain ⟨hready', hc⟩ := translates_code hf hready (fun op ho => hlocal op (hhead op ho))
      fun op ho => ht op (hhead op ho)
    obtain ⟨chunks, rfl, hall⟩ := ih hr hready' (fun op ho => hlocal op (htail op ho)) fun op ho => ht op (htail op ho)
    exact ⟨first :: chunks, rfl, fun link => .cons (hc link) (hall link)⟩

def layout (chunks : List (List Line)) (position : Nat) : Nat := (chunks.take position).flatten.length

lemma layout_succ {chunks : List (List Line)} {position : Nat} {chunk : List Line}
    (h : chunks[position]? = some chunk) : layout chunks (position + 1) = layout chunks position + chunk.length := by
  simp [layout, List.take_add_one, h]

lemma flatten_eq {chunks : List (List Line)} {position : Nat} {chunk : List Line}
    (h : chunks[position]? = some chunk) :
    chunks.flatten = (chunks.take position).flatten ++ chunk ++ (chunks.drop (position + 1)).flatten := by
  conv_lhs => rw [← List.take_append_drop (position + 1) chunks]
  simp [List.take_add_one, h]

lemma find?_flatten {all : List Code} {chunks : List (List Line)}
    (h : List.Forall₂ (Translates registers link bound) all chunks) (place : Label) :
    Line.find? chunks.flatten place = (Code.find? all place).map (layout chunks) := by
  induction h with
  | nil => rfl
  | @cons c chunk rest chunks hc _ ih =>
    have hchunk := hc.find? place
    unfold Line.find? Code.find? at *
    rw [List.flatten_cons, List.findIdx?_append, hchunk, ih, List.findIdx?_cons]
    by_cases hl : c.label? = some place
    · simp [hl, layout]
    · simp [hl, Function.comp_def, layout, Nat.add_comm]

lemma Carries.steps? {context : Context} {tac : Tac} {lines : List Line} (h : Carries context link bound tac lines)
    (before after : List Line) {store result : Store} {target : Option Label}
    (hzero : store.temps context.registers.zero = 0) (he : tac.exec? link store = some (result, target)) :
    ∃ final, result.Agree bound final ∧ final.temps context.registers.zero = 0 ∧
      Running.steps? (step? link (before ++ lines ++ after)) lines.length ⟨before.length, store⟩ =
        Running.follow (Line.find? (before ++ lines ++ after)) (before.length + lines.length - 1) (final, target) := by
  obtain ⟨start, last, rfl, -, hcarry⟩ := h
  obtain ⟨middle, final, hr, hop, hagree, hz⟩ := hcarry store result target hzero he
  refine ⟨final, hagree, hz, ?_⟩
  have hstart := steps?_of_run? before start (.instruction last :: after) hr
  simp only [List.append_assoc, List.cons_append, List.nil_append, List.length_append, List.length_singleton]
    at hstart ⊢
  rw [Running.steps?_add, hstart, Option.bind_some, ← Nat.add_assoc, Nat.add_sub_cancel]
  simp [Running.steps?, step?, hop]

/-- A machine state at the lines of the code that runs, with the same memory, the same temps
below `bound`, and zero in its register. -/
structure Corresponds (registers : Registers) (bound : Nat) (place : Nat → Nat) (a m : Running) : Prop where
  position : m.position = place a.position
  agree : a.store.Agree bound m.store
  zero : m.store.temps registers.zero = 0

section

variable {all : List Code} {chunks : List (List Line)} {a b m : Running}

lemma exists_chunk (hall : List.Forall₂ (Translates registers link bound) all chunks) {position : Nat} {c : Code}
    (hc : all[position]? = some c) :
    ∃ chunk, chunks[position]? = some chunk ∧ Translates registers link bound c chunk := by
  obtain ⟨hi, rfl⟩ := List.getElem?_eq_some_iff.mp hc
  have hi' : position < chunks.length := hall.length_eq ▸ hi
  exact ⟨chunks[position], List.getElem?_eq_getElem hi', hall.get hi hi'⟩

lemma corresponds_follow (hall : List.Forall₂ (Translates registers link bound) all chunks) {position line : Nat}
    {result final : Store} {target : Option Label} (hagree : result.Agree bound final)
    (hzero : final.temps registers.zero = 0) (hline : line + 1 = layout chunks (position + 1))
    (hb : Running.follow (Code.find? all) position (result, target) = some b) :
    ∃ m, Running.follow (Line.find? chunks.flatten) line (final, target) = some m ∧
      Corresponds registers bound (layout chunks) b m := by
  cases target with
  | none =>
    obtain rfl := Option.some.inj hb
    exact ⟨_, rfl, hline, hagree, hzero⟩
  | some place =>
    obtain ⟨next, hf, rfl⟩ := Option.map_eq_some_iff.mp hb
    exact ⟨⟨layout chunks next, final⟩, by simp [Running.follow, find?_flatten hall, hf], rfl, hagree, hzero⟩

lemma corresponds_carries (hall : List.Forall₂ (Translates registers link bound) all chunks) {frame : FrameId}
    {tac : Tac} (ht : ∀ t ∈ tac.temps, t.number < bound) {before lines after : List Line}
    (hcarry : Carries ⟨frame, registers⟩ link bound tac lines) (hflat : chunks.flatten = before ++ lines ++ after)
    (hlayout : layout chunks (a.position + 1) = before.length + lines.length) {store : Store}
    (hagree : a.store.Agree bound store) (hzero : store.temps registers.zero = 0)
    (hs : (tac.exec? link a.store).bind (Running.follow (Code.find? all) a.position) = some b) :
    ∃ m, Running.steps? (step? link chunks.flatten) lines.length ⟨before.length, store⟩ = some m ∧
      Corresponds registers bound (layout chunks) b m := by
  obtain ⟨⟨result, target⟩, he, hb⟩ := Option.bind_eq_some_iff.mp hs
  obtain ⟨result', he', hr⟩ := hagree.exec? ht he
  obtain ⟨final, hf, hz, hsteps⟩ := hcarry.steps? before after hzero he'
  have hpos := hcarry.length_pos
  rw [← hflat] at hsteps
  rw [hsteps]
  exact corresponds_follow hall (hr.trans hf) hz (by omega) hb

lemma corresponds_step (hall : List.Forall₂ (Translates registers link bound) all chunks)
    (ht : ∀ op ∈ Code.ops all, ∀ t ∈ op.2.temps, t.number < bound)
    (hm : Corresponds registers bound (layout chunks) a m) (hs : Code.step? link all a = some b) :
    ∃ m', Running.steps? (step? link chunks.flatten) (layout chunks (a.position + 1) - layout chunks a.position) m =
      some m' ∧ Corresponds registers bound (layout chunks) b m' := by
  obtain ⟨line, store⟩ := m
  obtain ⟨rfl, hagree, hzero⟩ := hm
  unfold Code.step? at hs
  cases hc : all[a.position]? with
  | none => simp [hc] at hs
  | some c =>
    obtain ⟨chunk, hchunk, rest, rfl, hrest⟩ := exists_chunk hall hc
    have hop : ∀ op ∈ c.op?, op ∈ Code.ops all := fun op ho =>
      List.mem_filterMap.mpr ⟨c, List.mem_of_getElem? hc, ho⟩
    have hflat := flatten_eq hchunk
    have hsucc := layout_succ hchunk
    rw [hsucc, Nat.add_sub_cancel_left]
    rw [hc] at hs
    cases c with
    | label place =>
      obtain rfl := Option.some.inj hs
      obtain rfl : rest = [] := hrest
      refine ⟨⟨layout chunks (a.position + 1), store⟩, Running.steps?_one ?_, rfl, hagree, hzero⟩
      rw [hflat, hsucc]
      simp [step?, layout, Code.label?]
    | op frame tac =>
      exact corresponds_carries hall (ht _ (hop _ rfl)) hrest hflat hsucc hagree hzero hs
    | labeled place frame tac =>
      have hlabel : step? link chunks.flatten ⟨layout chunks a.position, store⟩ =
          some ⟨layout chunks a.position + 1, store⟩ := by
        rw [hflat]
        simp [step?, layout, Code.label?]
      rw [List.length_append, Running.steps?_add]
      simp only [Code.label?, Option.toList, List.map_cons, List.map_nil, List.length_singleton,
        Running.steps?_one hlabel, Option.bind_some]
      have hsplit : chunks.flatten = ((chunks.take a.position).flatten ++ [.label place]) ++ rest ++
          (chunks.drop (a.position + 1)).flatten := by
        rw [hflat]
        simp [Code.label?]
      obtain ⟨m', hsteps, hcorr⟩ := corresponds_carries hall (ht _ (hop _ rfl)) hrest hsplit
        (by rw [hsucc]; simp [layout, Code.label?]; omega) hagree hzero hs
      exact ⟨m', by simpa [layout] using hsteps, hcorr⟩

lemma Translates.length_pos {c : Code} {lines : List Line} (h : Translates registers link bound c lines) :
    0 < lines.length := by
  obtain ⟨rest, rfl, hrest⟩ := h
  cases c with
  | label place => simp [Code.label?]
  | op frame tac => exact hrest.length_pos
  | labeled place frame tac => simp [Code.label?]

lemma layout_lt_succ (hall : List.Forall₂ (Translates registers link bound) all chunks) {position : Nat}
    (h : position < all.length) : layout chunks position < layout chunks (position + 1) := by
  obtain ⟨chunk, hchunk, hc⟩ := exists_chunk hall (List.getElem?_eq_getElem h)
  have := hc.length_pos
  rw [layout_succ hchunk]
  omega

lemma corresponds_run (hall : List.Forall₂ (Translates registers link bound) all chunks)
    (ht : ∀ op ∈ Code.ops all, ∀ t ∈ op.2.temps, t.number < bound) {n : Nat}
    (hm : Corresponds registers bound (layout chunks) a m)
    (hs : Running.steps? (Code.step? link all) n a = some b) :
    ∃ k m', n ≤ k ∧ Running.steps? (step? link chunks.flatten) k m = some m' ∧
      Corresponds registers bound (layout chunks) b m' := by
  induction n generalizing a m with
  | zero =>
    obtain rfl := Option.some.inj hs
    exact ⟨0, m, le_rfl, rfl, hm⟩
  | succ n ih =>
    obtain ⟨next, hstep, hrest⟩ := Option.bind_eq_some_iff.mp hs
    obtain ⟨m₁, hsteps, hm₁⟩ := corresponds_step hall ht hm hstep
    obtain ⟨k, m', hk, hrun, hm'⟩ := ih hm₁ hrest
    have hlt : a.position < all.length := by
      by_contra hge
      simp [Code.step?, List.getElem?_eq_none (Nat.le_of_not_lt hge)] at hstep
    have hpos := layout_lt_succ hall hlt
    refine ⟨layout chunks (a.position + 1) - layout chunks a.position + k, m', by omega, ?_, hm'⟩
    rw [Running.steps?_add, hsteps]
    exact hrun

end

lemma reserve_eq_ok {frame : FrameId} {s s' : Selection} {registers : Registers}
    (h : reserve frame s = .ok (registers, s')) :
    registers = ⟨⟨s.supply.temps⟩, ⟨s.supply.temps + 1⟩, ⟨s.supply.temps + 2⟩, ⟨s.supply.temps + 3⟩,
      ⟨s.supply.temps + 4⟩, ⟨s.supply.temps + 5⟩, ⟨s.supply.temps + 6⟩⟩ ∧ s' = s.drawn frame 7 0 := by
  have hfirst := newTempIn_bind (newTempIn_bind (newTempIn_bind (newTempIn_bind h)))
  have hothers := newTempIn_bind (newTempIn_bind (newTempIn_bind hfirst))
  obtain ⟨rfl, rfl⟩ := pure_eq_ok.mp hothers
  simp [Selection.drawn_drawn]

lemma generate_eq_ok_frames {program : Tac.Program} {machine : Machine.Program} (h : program.generate = .ok machine) :
    ∃ s s', reserve program.mainFrame ⟨program.frames, program.supply⟩ = .ok (machine.registers, s) ∧
      codes machine.registers program.callGraph 0 program.codes s = .ok ((machine.lines, machine.callSaves), s') ∧
      machine.frames = s'.frames := by
  unfold Tac.Program.generate at h
  simp only at h
  cases hs : (do
      let registers ← reserve program.mainFrame
      return (registers, ← codes registers program.callGraph 0 program.codes) :
        Select (Registers × List Line × List CallSave)) ⟨program.frames, program.supply⟩ with
  | error failure =>
    rw [hs] at h
    cases h
  | ok p =>
    obtain ⟨⟨registers, lines, saves⟩, s'⟩ := p
    rw [hs] at h
    obtain rfl := Except.ok.inj h
    obtain ⟨registers', s, hr, hs⟩ := bind_eq_ok.mp hs
    obtain ⟨⟨lines', saves'⟩, t, hc, hs⟩ := bind_eq_ok.mp hs
    obtain ⟨rfl, hp, rfl⟩ := pure_pair_eq_ok.mp hs
    obtain ⟨rfl, rfl⟩ := Prod.mk.inj hp
    exact ⟨s, s', hr, hc, rfl⟩

lemma generate_eq_ok {program : Tac.Program} {machine : Machine.Program} (h : program.generate = .ok machine) :
    ∃ s saves s', reserve program.mainFrame ⟨program.frames, program.supply⟩ = .ok (machine.registers, s) ∧
      codes machine.registers program.callGraph 0 program.codes s = .ok ((machine.lines, saves), s') := by
  obtain ⟨s, s', hreserve, hcodes, -⟩ := generate_eq_ok_frames h
  exact ⟨s, _, s', hreserve, hcodes⟩

structure Simulates (program : Tac.Program) (machine : Machine.Program) (place : Nat → Nat) : Prop where
  first : place 0 = 0
  last : place program.codes.length = machine.lines.length
  next : ∀ position < program.codes.length, place position < place (position + 1)
  step : ∀ link a b m, Corresponds machine.registers program.supply.temps place a m →
    Code.step? link program.codes a = some b →
    ∃ m', Running.steps? (step? link machine.lines) (place (a.position + 1) - place a.position) m = some m' ∧
      Corresponds machine.registers program.supply.temps place b m'
  run : ∀ link n a b m, Corresponds machine.registers program.supply.temps place a m →
    Running.steps? (Code.step? link program.codes) n a = some b →
    ∃ k m', n ≤ k ∧ Running.steps? (step? link machine.lines) k m = some m' ∧
      Corresponds machine.registers program.supply.temps place b m'

theorem generate_simulates {program : Tac.Program} {machine : Machine.Program} (h : program.generate = .ok machine)
    (hlocal : ∀ op ∈ Code.ops program.codes, op.2.isLocal)
    (hdrawn : ∀ op ∈ Code.ops program.codes, ∀ t ∈ op.2.temps, t.number < program.supply.temps) :
    ∃ place, Simulates program machine place := by
  obtain ⟨s, saves, s', hr, hc⟩ := generate_eq_ok h
  obtain ⟨hregisters, rfl⟩ := reserve_eq_ok hr
  have hready : Ready machine.registers program.supply.temps
      (Selection.drawn ⟨program.frames, program.supply⟩ program.mainFrame 7 0) := by
    constructor <;> simp [hregisters]
  obtain ⟨chunks, hlines, hall⟩ := translates_codes hc hready hlocal hdrawn
  refine ⟨layout chunks, rfl, ?_, fun _ => layout_lt_succ (hall default), ?_, ?_⟩
  · rw [(hall default).length_eq, hlines]
    simp [layout]
  · intro link a b m hm hs
    rw [hlines]
    exact corresponds_step (hall link) hdrawn hm hs
  · intro link n a b m hm hs
    rw [hlines]
    exact corresponds_run (hall link) hdrawn hm hs

def countdown : Tac.Program where
  codes := [
    .label ⟨0⟩,
    .op ⟨0⟩ (.binary .sub (.memory (.const (.string ⟨2⟩)) .word) (.memory (.const (.string ⟨2⟩)) .word) (.int 1)),
    .op ⟨0⟩ (.branch .gt (.memory (.const (.string ⟨2⟩)) .word) (.int 0) ⟨0⟩),
    .labeled ⟨1⟩ ⟨0⟩ (.negate (.temp ⟨1⟩) (.temp ⟨1⟩)),
    .op ⟨0⟩ (.goto ⟨1⟩)]
  frames := ⟨[{ name := "main", entry := none, parent := none, display := ⟨0⟩ }]⟩
  supply := ⟨2, 3⟩

theorem countdown_simulated :
    ∃ machine, countdown.generate = .ok machine ∧ ∃ place, Simulates countdown machine place := by
  have hok : countdown.generate.isOk = true := by decide +kernel
  cases h : countdown.generate with
  | error failure =>
    rw [h] at hok
    cases hok
  | ok machine => exact ⟨machine, rfl, generate_simulates h (by decide) (by decide)⟩

end TigerMips.Select
