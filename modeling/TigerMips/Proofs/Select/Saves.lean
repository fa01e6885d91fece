import TigerMips.Proofs.CallGraph
import TigerMips.Proofs.Select.Links

/-! Places to save temps stand around the recursive calls of a program, one pair for each of them, and nowhere else. -/

namespace TigerMips

namespace Machine

lemma Operation.isPlain_iff {operation : Operation} :
    operation.isPlain ↔ operation.callee? = none ∧ operation ≠ .save ∧ operation ≠ .restore := by
  cases operation <;> simp [isPlain, callee?]

namespace Line

/-- A pair of places where a function saves and restores temps, with one call between them and no other such place. -/
structure Brackets (lines : List Line) (save : CallSave) (caller : FrameId) (target : Label) : Prop where
  frame : save.frame = caller
  lt : save.save < save.restore
  saves : lines[save.save]? = some (.instruction { frame := caller, operation := .save })
  restores : lines[save.restore]? = some (.instruction { frame := caller, operation := .restore })
  call : ∃ p, save.save < p ∧ p < save.restore ∧
    (∃ i, lines[p]? = some (.instruction i) ∧ i.operation.callee? = some target) ∧
    ∀ q i, save.save < q → q < save.restore → q ≠ p → lines[q]? = some (.instruction i) → i.operation.callee? = none
  inside : ∀ p i, save.save < p → p < save.restore → lines[p]? = some (.instruction i) →
    i.operation ≠ .save ∧ i.operation ≠ .restore

variable {before first second lines : List Line} {save : CallSave} {caller : FrameId} {target : Label}

lemma Brackets.append_right (h : Brackets first save caller target) (second : List Line) :
    Brackets (first ++ second) save caller target := by
  have hlt : save.restore < first.length := (List.getElem?_eq_some_iff.mp h.restores).1
  have hget : ∀ {p}, p ≤ save.restore → (first ++ second)[p]? = first[p]? := fun hp =>
    List.getElem?_append_left (hp.trans_lt hlt)
  obtain ⟨p, hsave, hrestore, ⟨i, hi, hcall⟩, hothers⟩ := h.call
  refine ⟨h.frame, h.lt, (hget h.lt.le).trans h.saves, (hget le_rfl).trans h.restores,
    ⟨p, hsave, hrestore, ⟨i, (hget hrestore.le).trans hi, hcall⟩, fun q j hq hq' hne hj => ?_⟩, fun q j hq hq' hj => ?_⟩
  · exact hothers q j hq hq' hne ((hget hq'.le).symm.trans hj)
  · exact h.inside q j hq hq' ((hget hq'.le).symm.trans hj)

def OneCall (target : Label) (lines : List Line) : Prop :=
  ∃ (n : Nat) (i : Instruction), lines[n]? = some (.instruction i) ∧ i.operation.callee? = some target ∧
    ∀ r line, r ≠ n → lines[r]? = some line → line.isPlain

lemma oneCall_of_plain {call : Instruction} (hc : call.operation.callee? = some target) (hf : first.all isPlain)
    (hs : second.all isPlain) : OneCall target (first ++ .instruction call :: second) := by
  refine ⟨first.length, call, by simp, hc, fun r line hr hline => ?_⟩
  have hmem : line ∈ first ∨ line ∈ second := by
    rcases Nat.lt_trichotomy r first.length with hlt | heq | hgt
    · rw [List.getElem?_append_left hlt] at hline
      exact Or.inl (List.mem_of_getElem? hline)
    · exact absurd heq hr
    · obtain ⟨k, rfl⟩ := Nat.exists_eq_add_of_lt hgt
      rw [List.getElem?_append_right (by omega), show first.length + k + 1 - first.length = k + 1 by omega,
        List.getElem?_cons_succ] at hline
      exact Or.inr (List.mem_of_getElem? hline)
  exact hmem.elim (List.all_eq_true.mp hf line) (List.all_eq_true.mp hs line)

lemma OneCall.not_placeholder (h : OneCall target lines) {p : Nat} {i : Instruction}
    (hp : lines[p]? = some (.instruction i)) : i.operation ≠ .save ∧ i.operation ≠ .restore := by
  obtain ⟨n, j, hj, hcall, hothers⟩ := h
  by_cases hn : p = n
  · subst hn
    obtain rfl : j = i := by simpa using hj.symm.trans hp
    constructor <;> rintro he <;> rw [he] at hcall <;> cases hcall
  · exact (Operation.isPlain_iff.mp (hothers p _ hn hp)).2

def Marked (place : CallSave → Nat) (operation : Operation) (before lines : List Line) (saves : List CallSave) : Prop :=
  ∀ p i, lines[p]? = some (.instruction i) → i.operation = operation → ∃ save ∈ saves, place save = before.length + p

lemma Marked.append {place : CallSave → Nat} {operation : Operation} {saves more : List CallSave}
    (h : Marked place operation before first saves) (h' : Marked place operation (before ++ first) second more) :
    Marked place operation before (first ++ second) (saves ++ more) := by
  intro p i hi ho
  by_cases hp : p < first.length
  · rw [List.getElem?_append_left hp] at hi
    obtain ⟨save, hm, he⟩ := h p i hi ho
    exact ⟨save, List.mem_append_left _ hm, he⟩
  · obtain ⟨q, rfl⟩ := Nat.exists_eq_add_of_le (Nat.not_lt.mp hp)
    rw [List.getElem?_append_right (Nat.le_add_right _ _), Nat.add_sub_cancel_left] at hi
    obtain ⟨save, hm, he⟩ := h' q i hi ho
    exact ⟨save, List.mem_append_right _ hm, by rw [he, List.length_append, Nat.add_assoc]⟩

structure Saved (before lines : List Line) (saves : List CallSave) (calls : List (FrameId × Label)) : Prop where
  brackets : List.Forall₂ (fun save call => Brackets (before ++ lines) save call.1 call.2) saves calls
  within : ∀ save ∈ saves, before.length ≤ save.save ∧ save.restore < before.length + lines.length
  increasing : saves.Pairwise fun first second => first.restore < second.save
  starts : Marked CallSave.save .save before lines saves
  ends : Marked CallSave.restore .restore before lines saves

namespace Saved

lemma of_free (h : ∀ (p : Nat) (i : Instruction), lines[p]? = some (.instruction i) →
      i.operation ≠ .save ∧ i.operation ≠ .restore) :
    Saved before lines [] [] where
  brackets := .nil
  within := by simp
  increasing := .nil
  starts p i hi ho := absurd ho (h p i hi).1
  ends p i hi ho := absurd ho (h p i hi).2

lemma of_plain (h : lines.all isPlain) : Saved before lines [] [] :=
  of_free fun _ _ hi => (Operation.isPlain_iff.mp (List.all_eq_true.mp h _ (List.mem_of_getElem? hi))).2

lemma append {saves more : List CallSave} {calls others : List (FrameId × Label)}
    (h : Saved before first saves calls) (h' : Saved (before ++ first) second more others) :
    Saved before (first ++ second) (saves ++ more) (calls ++ others) where
  brackets := by
    have hfirst := h.brackets.imp fun _ _ hb => hb.append_right second
    have hsecond := h'.brackets
    rw [List.append_assoc] at hfirst hsecond
    exact List.rel_append hfirst hsecond
  within save hm := by
    rcases List.mem_append.mp hm with hm | hm
    · have hw := h.within save hm
      simp only [List.length_append]
      omega
    · have hw := h'.within save hm
      simp only [List.length_append] at hw ⊢
      omega
  increasing := by
    refine List.pairwise_append.mpr ⟨h.increasing, h'.increasing, fun a ha b hb => ?_⟩
    have hfirst := (h.within a ha).2
    have hsecond := (h'.within b hb).1
    rw [List.length_append] at hsecond
    omega
  starts := h.starts.append h'.starts
  ends := h.ends.append h'.ends

end Saved

def bracketed (caller : FrameId) (lines : List Line) : List Line :=
  .instruction { frame := caller, operation := .save } :: lines ++
    [.instruction { frame := caller, operation := .restore }]

lemma getElem?_bracketed {r : Nat} (h : r < lines.length) : (bracketed caller lines)[r + 1]? = lines[r]? := by
  rw [bracketed, List.cons_append, List.getElem?_cons_succ, List.getElem?_append_left h]

lemma getElem?_bracketed_last (caller : FrameId) (lines : List Line) : (bracketed caller lines)[lines.length + 1]? =
    some (.instruction { frame := caller, operation := .restore }) := by
  rw [bracketed, List.cons_append, List.getElem?_cons_succ, List.getElem?_concat_length]

lemma getElem?_append_add (before lines : List Line) (r : Nat) : (before ++ lines)[before.length + r]? = lines[r]? := by
  rw [List.getElem?_append_right (Nat.le_add_right _ _), Nat.add_sub_cancel_left]

lemma getElem?_between (caller : FrameId) {q : Nat} (hq : before.length < q)
    (hq' : q < before.length + lines.length + 1) :
    ∃ r, q = before.length + (r + 1) ∧ (before ++ bracketed caller lines)[q]? = lines[r]? := by
  obtain ⟨r, rfl⟩ := Nat.exists_eq_add_of_lt hq
  exact ⟨r, Nat.add_assoc _ _ _, by rw [Nat.add_assoc, getElem?_append_add, getElem?_bracketed (by omega)]⟩

lemma OneCall.brackets (h : OneCall target lines) (before : List Line) (caller : FrameId) :
    Brackets (before ++ bracketed caller lines) ⟨caller, before.length, before.length + lines.length + 1⟩ caller
      target where
  frame := rfl
  lt := by simp only; omega
  saves := getElem?_append_add before _ 0
  restores := (getElem?_append_add before _ _).trans (getElem?_bracketed_last caller lines)
  call := by
    obtain ⟨n, call, hcall, hcallee, hothers⟩ := h
    have hn : n < lines.length := (List.getElem?_eq_some_iff.mp hcall).1
    refine ⟨before.length + (n + 1), by simp, by simp only; omega, ⟨call, ?_, hcallee⟩, fun q i hq hq' hne hi => ?_⟩
    · rw [getElem?_append_add, getElem?_bracketed hn, hcall]
    · obtain ⟨r, rfl, hr⟩ := getElem?_between caller hq hq'
      exact (Operation.isPlain_iff.mp (hothers r _ (by omega) (hr.symm.trans hi))).1
  inside q i hq hq' hi := by
    obtain ⟨r, rfl, hr⟩ := getElem?_between caller hq hq'
    exact h.not_placeholder (hr.symm.trans hi)

lemma OneCall.bracketed_cases (h : OneCall target lines) {p : Nat} {i : Instruction}
    (hi : (bracketed caller lines)[p]? = some (.instruction i)) :
    p = 0 ∧ i.operation = .save ∨ p = lines.length + 1 ∧ i.operation = .restore ∨
      i.operation ≠ .save ∧ i.operation ≠ .restore := by
  rcases p with _ | p
  · obtain rfl : _ = i := by simpa [bracketed] using hi
    exact Or.inl ⟨rfl, rfl⟩
  · by_cases hp : p < lines.length
    · rw [getElem?_bracketed hp] at hi
      exact Or.inr (Or.inr (h.not_placeholder hi))
    · obtain rfl : p = lines.length := by
        have hlt : p + 1 < lines.length + 2 := by simpa [bracketed] using (List.getElem?_eq_some_iff.mp hi).1
        omega
      obtain rfl : _ = i := by simpa using (getElem?_bracketed_last caller lines).symm.trans hi
      exact Or.inr (Or.inl ⟨rfl, rfl⟩)

lemma OneCall.saved (h : OneCall target lines) (before : List Line) (caller : FrameId) :
    Saved before (bracketed caller lines) [⟨caller, before.length, before.length + lines.length + 1⟩]
      [(caller, target)] where
  brackets := .cons (h.brackets before caller) .nil
  within := by simp [bracketed, Nat.add_assoc]
  increasing := List.pairwise_singleton _ _
  starts p i hi ho := by
    rcases h.bracketed_cases hi with ⟨rfl, -⟩ | ⟨-, he⟩ | hne
    · exact ⟨_, List.mem_singleton_self _, rfl⟩
    · rw [ho] at he
      cases he
    · exact absurd ho hne.1
  ends p i hi ho := by
    rcases h.bracketed_cases hi with ⟨-, he⟩ | ⟨rfl, -⟩ | hne
    · rw [ho] at he
      cases he
    · exact ⟨_, List.mem_singleton_self _, Nat.add_assoc _ _ _⟩
    · exact absurd ho hne.2

end Line

end Machine

open Machine

def Code.calls (codes : List Code) : List (FrameId × Label) :=
  (ops codes).filterMap fun op => op.2.callee?.map (op.1, ·)

lemma Code.calls_append (first second : List Code) : calls (first ++ second) = calls first ++ calls second := by
  simp [calls]

namespace Select

def recurs (graph : CallGraph) (frames : Arena .frame Frame) (call : FrameId × Label) : Bool :=
  (entered? frames call.2).any fun callee => graph.isLoopEdge call.1 callee.1

def entries (frames : Arena .frame Frame) : List (Option Label) := frames.items.map Frame.entry

lemma map_items_modify (frames : Arena .frame Frame) (id : FrameId) {β : Type} {f : Frame → Frame} {g : Frame → β}
    (h : ∀ frame, g (f frame) = g frame) : (frames.modify id f).items.map g = frames.items.map g := by
  refine List.ext_getElem? fun i => ?_
  simp only [Arena.modify, List.getElem?_map, List.getElem?_modify]
  cases frames.items[i]? with
  | none => rfl
  | some frame =>
    by_cases hi : id.position = i
    · simp [hi, h]
    · simp [hi]

lemma entries_drawn (s : Selection) (frame : FrameId) (k l : Nat) :
    entries (s.drawn frame k l).frames = entries s.frames :=
  map_items_modify _ _ fun _ => rfl

lemma entries_returning (s : Selection) (id : FrameId) : entries (returning s id).frames = entries s.frames :=
  map_items_modify _ _ fun _ => rfl

lemma map_fst_entered? (frames : Arena .frame Frame) (target : Label) : (entered? frames target).map Prod.fst =
    ((entries frames).zipIdx.reverse.find? (·.1 = some target)).map fun found => ⟨found.2⟩ := by
  simp only [entered?, entries, Arena.entries, List.zipIdx_map, ← List.map_reverse, List.find?_map, Option.map_map]
  rfl

lemma recurs_congr (graph : CallGraph) {frames others : Arena .frame Frame} (h : entries frames = entries others) :
    recurs graph frames = recurs graph others := by
  funext call
  have hsame : (entered? frames call.2).map Prod.fst = (entered? others call.2).map Prod.fst := by
    rw [map_fst_entered?, map_fst_entered?, h]
  have hany : ∀ found : Option (FrameId × Frame), found.any (fun callee => graph.isLoopEdge call.1 callee.1) =
      (found.map Prod.fst).any (graph.isLoopEdge call.1) := by
    rintro (_ | _) <;> rfl
  rw [recurs, recurs, hany, hany, hsame]

variable {context : Context} {graph : CallGraph} {before lines : List Line} {saves : List CallSave} {s t : Selection}

lemma oneCall_callLines (context callee : Context) (display : Temp) (target back : Label) {passing taking : List Line}
    (hp : passing.all Line.isPlain) (ht : taking.all Line.isPlain) :
    Line.OneCall target (callLines context callee false display target back passing taking) := by
  have hleave : (leaveCallee context callee display back).all Line.isPlain := rfl
  have hsetUp : (setUp context callee display).all Line.isPlain := rfl
  have hadjust : ∀ amount, (adjustStack context amount).isPlain := fun _ => rfl
  have hlines : callLines context callee false display target back passing taking =
      (adjustStack context (-wordLength) :: passing ++ setUp context callee display) ++
        callee.line (.jumpAndLink target context.registers.ra) ::
          (leaveCallee context callee display back ++ taking ++ [adjustStack context wordLength]) := by
    simp [callLines, savingAround, enterCallee_eq]
  rw [hlines]
  exact Line.oneCall_of_plain rfl (by simp [hadjust, hp, hsetUp]) (by simp [hadjust, hleave, ht])

lemma callLines_true (callee : Context) (display : Temp) (target back : Label) (passing taking : List Line) :
    callLines context callee true display target back passing taking =
      Line.bracketed context.frame (callLines context callee false display target back passing taking) := rfl

lemma saved_operation {tac : Tac} (h : operation context graph before.length tac s = .ok ((lines, saves), t)) :
    Line.Saved before lines saves ((Code.calls [.op context.frame tac]).filter (recurs graph s.frames)) ∧
      entries t.frames = entries s.frames := by
  cases selected_operation h with
  | ret => exact ⟨.of_plain rfl, rfl⟩
  | call id f hfound hrecursive hp ht hlines k =>
    rename_i target _ _ _ recursive
    have hone := oneCall_callLines context { context with frame := id } f.display target ⟨s.supply.labels⟩
      hp.2.all_isPlain ht.2.all_isPlain
    have hrecurs : recurs graph s.frames (context.frame, target) = recursive := by simp [recurs, hfound, hrecursive]
    refine ⟨?_, by rw [entries_drawn, entries_returning]⟩
    change Line.Saved before lines _ ([(context.frame, target)].filter _)
    subst hlines
    cases recursive with
    | false => simpa [hrecurs] using Line.Saved.of_free fun _ _ => hone.not_placeholder
    | true => simpa [hrecurs, callLines_true, Line.bracketed, Nat.add_assoc] using hone.saved before context.frame
  | other hcall hret k l hlays =>
    have hcalls : Code.calls [.op context.frame tac] = [] := by
      cases tac <;> first | rfl | cases hcall
    exact hcalls ▸ ⟨.of_plain hlays.2.all_isPlain, entries_drawn _ _ _ _⟩

variable {registers : Registers}

lemma saved_code {c : Code} (h : code registers graph before.length c s = .ok ((lines, saves), t)) :
    Line.Saved before lines saves ((Code.calls [c]).filter (recurs graph s.frames)) ∧
      entries t.frames = entries s.frames := by
  cases c with
  | label place =>
    obtain ⟨rfl, rfl, rfl⟩ := pure_pair_eq_ok.mp h
    exact ⟨.of_plain rfl, rfl⟩
  | op frame tac =>
    have h : operation ⟨frame, registers⟩ graph before.length tac s = .ok ((lines, saves), t) := h
    exact saved_operation h
  | labeled place frame tac =>
    obtain ⟨⟨own, ownSaves⟩, s₁, hrun, h⟩ := bind_eq_ok.mp h
    obtain ⟨rfl, rfl, rfl⟩ := pure_pair_eq_ok.mp h
    have hlabel : Line.Saved before [.label place] [] [] := .of_plain rfl
    rw [show before.length + 1 = (before ++ [Line.label place]).length by simp] at hrun
    obtain ⟨hsaved, hentries⟩ := saved_operation hrun
    exact ⟨hlabel.append hsaved, hentries⟩

lemma saved_codes {all : List Code} (h : codes registers graph before.length all s = .ok ((lines, saves), t)) :
    Line.Saved before lines saves ((Code.calls all).filter (recurs graph s.frames)) := by
  induction all generalizing before s lines saves with
  | nil =>
    obtain ⟨rfl, rfl, rfl⟩ := pure_pair_eq_ok.mp h
    exact .of_plain rfl
  | cons first rest ih =>
    obtain ⟨⟨own, ownSaves⟩, s₁, hfirst, h⟩ := bind_eq_ok.mp h
    obtain ⟨⟨others, otherSaves⟩, s₂, hrest, h⟩ := bind_eq_ok.mp h
    obtain ⟨rfl, rfl, rfl⟩ := pure_pair_eq_ok.mp h
    obtain ⟨hsaved, hentries⟩ := saved_code hfirst
    rw [← List.length_append] at hrest
    have hsaved' := ih hrest
    rw [recurs_congr graph hentries] at hsaved'
    rw [← List.singleton_append, Code.calls_append, List.filter_append]
    exact hsaved.append hsaved'

end Select

def Tac.Program.recursiveCalls (program : Tac.Program) : List (FrameId × Label) :=
  (Code.calls program.codes).filter (Select.recurs program.callGraph program.frames)

/-- One pair of places to save temps for each of the calls, in the same order and one after the other, and no other
such place. -/
structure Machine.Program.SavesAround (machine : Machine.Program) (calls : List (FrameId × Label)) : Prop where
  brackets : List.Forall₂ (fun save call => Line.Brackets machine.lines save call.1 call.2) machine.callSaves calls
  increasing : machine.callSaves.Pairwise fun first second => first.restore < second.save
  saves : ∀ p i, machine.lines[p]? = some (.instruction i) → i.operation = .save →
    ∃ save ∈ machine.callSaves, save.save = p
  restores : ∀ p i, machine.lines[p]? = some (.instruction i) → i.operation = .restore →
    ∃ save ∈ machine.callSaves, save.restore = p

/-- Whatever code a program has, its machine code saves temps around its recursive calls and nowhere else. -/
theorem savesAround_generate {program : Tac.Program} {machine : Machine.Program} (h : program.generate = .ok machine) :
    machine.SavesAround program.recursiveCalls := by
  obtain ⟨s, t, hreserve, hcodes, -⟩ := Select.generate_eq_ok_frames h
  obtain ⟨-, rfl⟩ := Select.reserve_eq_ok hreserve
  have hsaved : Line.Saved [] machine.lines machine.callSaves program.recursiveCalls := by
    have hrun : Line.Saved [] machine.lines machine.callSaves _ := Select.saved_codes hcodes
    rwa [Select.recurs_congr _ (Select.entries_drawn _ _ _ _)] at hrun
  refine ⟨hsaved.brackets, hsaved.increasing, fun p i hi ho => ?_, fun p i hi ho => ?_⟩
  · simpa using hsaved.starts p i hi ho
  · simpa using hsaved.ends p i hi ho

def crossedCalls : Tac.Program where
  codes := [
    .op ⟨0⟩ (.goto ⟨2⟩),
    .label ⟨0⟩,
    .op ⟨1⟩ (.call (some (.temp ⟨5⟩)) ⟨1⟩ [.memory (.temp ⟨5⟩) (.temp ⟨1⟩)]),
    .op ⟨1⟩ .ret,
    .labeled ⟨1⟩ ⟨2⟩ (.call none ⟨0⟩ []),
    .op ⟨2⟩ (.call (some (.memory (.temp ⟨4⟩) (.int 4))) ⟨1⟩ [.temp ⟨3⟩]),
    .op ⟨2⟩ .ret,
    .labeled ⟨2⟩ ⟨0⟩ (.call none ⟨0⟩ [])]
  frames := ⟨[
    { name := "main", entry := none, parent := none, display := ⟨0⟩ },
    { name := "first", entry := some ⟨0⟩, parent := some ⟨0⟩, display := ⟨1⟩, locals := [⟨5⟩] },
    { name := "second", entry := some ⟨1⟩, parent := some ⟨0⟩, params := [⟨3⟩], display := ⟨2⟩, locals := [⟨3⟩, ⟨4⟩],
      returnValue := some ⟨4⟩ }]⟩
  callGraph := .ofCalls [(⟨0⟩, ⟨1⟩), (⟨1⟩, ⟨2⟩), (⟨2⟩, ⟨1⟩), (⟨2⟩, ⟨2⟩)]
  supply := ⟨6, 3⟩

theorem crossedCalls_savesAround : crossedCalls.recursiveCalls = [(⟨1⟩, ⟨1⟩), (⟨2⟩, ⟨0⟩), (⟨2⟩, ⟨1⟩)] ∧
    ∃ machine, crossedCalls.generate = .ok machine ∧ machine.SavesAround crossedCalls.recursiveCalls := by
  refine ⟨by decide +kernel, ?_⟩
  have hok : crossedCalls.generate.isOk = true := by decide +kernel
  cases h : crossedCalls.generate with
  | error failure =>
    rw [h] at hok
    cases hok
  | ok machine => exact ⟨machine, rfl, savesAround_generate h⟩

end TigerMips
