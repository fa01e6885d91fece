import Mathlib
import TigerMips.Proofs.Analysis.Counting
import TigerMips.Proofs.Analysis.Parts
import TigerMips.Proofs.Tac.Filling

/-! Arrays are created with their initial value in each element, in each program without errors. -/

namespace TigerMips

open Analysis Memory

def Filling.lowered (size init : Expr) (s : Analyzer) : Filling :=
  let count := lowerExpr size s
  let value := lowerExpr init count.2
  { frame := s.currentFrame
    bytes := ⟨value.2.supply.temps⟩
    array := ⟨value.2.supply.temps + 1⟩
    index := ⟨value.2.supply.temps + 2⟩
    head := ⟨value.2.supply.labels⟩
    exit := ⟨value.2.supply.labels + 1⟩
    -- The size and the initial value of an array without errors have a place.
    count := count.1.place.getD (.int 0)
    value := value.1.place.getD (.int 0) }

structure Filling.Lowers (size init array : Visit) (filling : Filling) : Prop where
  count : size.lowered.place = some filling.count
  value : init.lowered.place = some filling.value
  code : array.lowered.code = size.lowered.code ++ init.lowered.code ++ filling.code
  place : array.lowered.place = some (.temp filling.array)

lemma Filling.lowers {span : Span} {ty : Ident} {size init : Expr} {s : Analyzer}
    (h : Visit.Clean ⟨.array span ty size init, s⟩) :
    (lowered size init s).Lowers ⟨size, s⟩ ⟨init, (lowerExpr size s).2⟩ ⟨.array span ty size init, s⟩ ∧
      ∀ temp ∈ (lowered size init s).value.temps, temp ∉ (lowered size init s).temps := by
  obtain ⟨hs, hd, ht⟩ := h
  obtain ⟨⟨a, t⟩, hm⟩ : ∃ r, lowerExpr (.array span ty size init) s = r := ⟨_, rfl⟩
  simp only [Visit.after, hm] at ht
  obtain ⟨_, _, _, count, s₁, value, s₂, _, _, -, -, hcount, -, hvalue, he₂, -, hcp, hvp, harray⟩ :=
    arrayCreation_clean (lowers_lowerExpr size) (lowers_lowerExpr init) hm hs ht
  change lowerExpr size s = (count, s₁) at hcount
  change lowerExpr init s₁ = (value, s₂) at hvalue
  simp only [arrayOf, newTemp_bind, useRuntime_bind, newLabel_bind, currentFrame_bind] at harray
  obtain ⟨rfl, rfl⟩ := pure_eq.mp harray
  have hk₁ := (lowers_lowerExpr size).keeps.apply hcount
  have hk₂ := (lowers_lowerExpr init).keeps.apply hvalue
  have hbelow := (draws_lowerExpr init hvalue ((lowers_lowerExpr size).sound hcount hs) (hk₁.drawn hd) he₂).places
  simp only [hvp, Option.toList, List.flatMap_cons, List.flatMap_nil, List.append_nil] at hbelow
  have hframe : s₂.currentFrame = s.currentFrame := (hk₁.trans hk₂).currentFrame
  refine ⟨⟨?_, ?_, ?_, ?_⟩, fun temp htemp hc => ?_⟩
  · simp [Visit.lowered, lowered, hcount, hcp]
  · simp [Visit.lowered, lowered, hcount, hvalue, hvp]
  · simp [Visit.lowered, lowered, Filling.code, hm, hcount, hvalue, hcp, hvp, hframe]
  · simp [Visit.lowered, lowered, hcount, hvalue, hm]
  · simp only [lowered, hcount, hvalue, hvp, Option.getD_some, temps, List.mem_cons, List.not_mem_nil, or_false]
      at htemp hc
    have hlt : temp.number < s₂.supply.temps := hbelow temp htemp
    rcases hc with rfl | rfl | rfl <;> simp at hlt

/-- Where an array is created, a block of four bytes for each element is asked for. If the block does not overlap the
word that the initial value is read from, control comes to the exit, with the initial value in each word of the block
and the address of the block in the temp of the array. No other byte of the memory and no other temp has changed. -/
structure Tac.Program.FillsAt (program : Tac.Program) (filling : Filling) (p : Nat) : Prop where
  placed : List.At program.codes p filling.code
  asks : ∀ (link : Linkage) (host : Host) (start : State) (n : Nat), start.position = p →
    (filling.count.value link start.store).toInt = n →
    program.advance? link host start =
      some { start with position := p + 1, store := start.store.put filling.bytes (.ofNat (4 * n)) }
  fills : ∀ (link : Linkage) (host : Host) (start : State) (n : Nat) (granted : Memory) (address : Word),
    start.position = p → (filling.count.value link start.store).toInt = n → n < 2 ^ 29 →
    host start.events Runtime.malloc.name [.ofNat (4 * n)] start.store.memory = some (granted, address) →
    (∀ a ∉ block address (4 * n), granted a = start.store.memory a) →
    (∀ word ∈ filling.value.words link start.store, Disjoint (block word 4) (block address (4 * n))) →
    ∃ final, Relation.ReflTransGen (fun x y => program.advance? link host x = some y) start final ∧
      Code.find? program.codes filling.exit = some final.position ∧ final.calls = start.calls ∧
      final.events = start.events + 1 ∧ filling.Filled link start.store address n n final.store

/-- Each array expression of a program without errors creates an array with the initial value in each element. -/
theorem fillsAt_analyze (expression : Expr) (h : (analyze expression).1 = []) (path : Path) (span : Span) (ty : Ident)
    (size init : Expr) (hp : expression.at? path = some (.array span ty size init)) :
    ∃ s p, (Visit.start expression).at? path = some ⟨.array span ty size init, s⟩ ∧
      (Filling.lowered size init s).Lowers ⟨size, s⟩ ⟨init, (lowerExpr size s).2⟩ ⟨.array span ty size init, s⟩ ∧
      List.At (analyze expression).2.codes p (lowerExpr (.array span ty size init) s).1.code ∧
      (analyze expression).2.FillsAt (Filling.lowered size init s)
        (p + (lowerExpr size s).1.code.length + (lowerExpr init (lowerExpr size s).2).1.code.length) := by
  obtain ⟨s, hvisit⟩ := Visit.exists_at?_start hp
  obtain ⟨hclean, p, hplaced⟩ := Visit.placed_start h hvisit
  obtain ⟨hlowers, hvalue⟩ := Filling.lowers hclean
  have hparts := hplaced
  rw [hlowers.code, List.at_append, List.length_append, ← Nat.add_assoc] at hparts
  have hstands := Filling.stands (Analysis.nodup_labels_analyze h) hparts.2
    (by simp [Filling.temps, Filling.lowered]) hvalue
  refine ⟨s, p, hvisit, hlowers, hplaced, hparts.2, fun link host start n hpos hcount =>
    hstands.asks link host hpos hcount,
    fun link host start n granted address hpos hcount hn hhost hgranted hwords => ?_⟩
  obtain ⟨a, hstart, hhead⟩ := hstands.starts hpos hcount hhost hgranted
  obtain ⟨b, hfills, hposition, hcalls, hevents, hfilled⟩ := hstands.fills hpos hn hwords (Nat.zero_le n) hhead
  exact ⟨b, hstart.trans hfills, hposition ▸ hstands.exit, hcalls, hevents, hfilled⟩

def repeatedElement : Expr :=
  .letIn {} [.types [⟨{ name := "row" }, .array { name := "int" }⟩],
      .var { name := "first" } none (.array {} { name := "row" } (.int {} 2) (.int {} 7))]
    [.array {} { name := "row" } (.int {} 3) (.lvalue {} (.subscript {} (.var {} { name := "first" }) (.int {} 1)))]

theorem repeatedElement_fillsAt : (analyze repeatedElement).1 = [] ∧ ∃ filling p,
    filling.value = .memory (.temp ⟨4⟩) (.temp ⟨5⟩) ∧ (analyze repeatedElement).2.FillsAt filling p ∧
    ∀ (link : Linkage) (memory : Memory), ∃ final, Relation.ReflTransGen
      (fun x y => (analyze repeatedElement).2.advance? link (fun _ _ _ memory => some (memory, 1000)) x = some y)
      ⟨p, ⟨fun _ => 0, memory⟩, [], 0⟩ final ∧
      (∀ i < 3, final.store.memory.loadWord (1000 + .ofNat (4 * i)) = memory.loadWord 0) ∧
      ∀ a ∉ block 1000 12, final.store.memory a = memory a := by
  have hclean : (analyze repeatedElement).1 = [] := List.isEmpty_iff.mp (by decide +kernel)
  obtain ⟨s, p, hvisit, -, -, hfills⟩ := fillsAt_analyze repeatedElement hclean [1] {} { name := "row" } (.int {} 3)
    (.lvalue {} (.subscript {} (.var {} { name := "first" }) (.int {} 1))) rfl
  have hlowered : ((Visit.start repeatedElement).at? [1]).map (fun visit => Filling.lowered (.int {} 3)
      (.lvalue {} (.subscript {} (.var {} { name := "first" }) (.int {} 1))) visit.state) =
      some ⟨⟨0⟩, ⟨6⟩, ⟨7⟩, ⟨8⟩, ⟨2⟩, ⟨3⟩, .int 3, .memory (.temp ⟨4⟩) (.temp ⟨5⟩)⟩ := by decide +kernel
  rw [hvisit, Option.map_some, Option.some.injEq] at hlowered
  rw [hlowered] at hfills
  refine ⟨hclean, _, _, rfl, hfills, fun link memory => ?_⟩
  have hdisjoint : Disjoint (block 0 4) (block 1000 12) :=
    disjoint_block 0 (i := 0) (m := 4) (j := 1000) (n := 12) (by decide) (by decide)
  obtain ⟨final, hrun, -, -, -, hfilled⟩ := hfills.fills link (fun _ _ _ memory => some (memory, 1000))
    ⟨_, ⟨fun _ => 0, memory⟩, [], 0⟩ 3 memory 1000 rfl rfl (by decide) rfl (fun _ _ => rfl)
    (by simpa [Access.words, Access.value] using hdisjoint)
  exact ⟨final, hrun, hfilled.words, hfilled.memory⟩

end TigerMips
