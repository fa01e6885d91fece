import TigerMips.Proofs.Lists
import TigerMips.Proofs.Machine.Execution

/-! Runs of machine code through stretches of a program, with the system calls on the way. -/

namespace TigerMips

namespace Store

def SameOn (kept : Temp → Prop) (a b : Store) : Prop := ∀ t, kept t → b.temps t = a.temps t

abbrev SameBut (written : List Temp) (a b : Store) : Prop := SameOn (· ∉ written) a b

abbrev SameBelow (bound : Nat) (written : List Temp) (a b : Store) : Prop :=
  SameOn (fun t => t.number < bound ∧ t ∉ written) a b

variable {kept others : Temp → Prop} {written more : List Temp} {m n : Nat} {a b c : Store}

lemma SameOn.refl (a : Store) : SameOn kept a a := fun _ _ => rfl

lemma SameOn.trans (h : SameOn kept a b) (h' : SameOn kept b c) : SameOn kept a c :=
  fun t ht => (h' t ht).trans (h t ht)

lemma SameOn.mono (h : SameOn kept a b) (hk : ∀ t, others t → kept t) : SameOn others a b := fun t ht => h t (hk t ht)

lemma SameOn.put (h : SameOn kept a b) {t : Temp} (ht : ¬ kept t) (value : Word) : SameOn kept a (b.put t value) := by
  intro u hu
  have hne : u ≠ t := fun hc => ht (hc ▸ hu)
  exact (Function.update_of_ne hne _ _).trans (h u hu)

lemma SameOn.widen (h : SameOn (fun t => t.number < m ∧ t ∉ written) a b) (hle : n ≤ m) (hs : written ⊆ more) :
    SameBelow n more a b :=
  h.mono fun _ ht => ⟨ht.1.trans_le hle, fun hm => ht.2 (hs hm)⟩

lemma SameBut.below_of_subset (h : SameBut written a b) (hs : written ⊆ more) : SameBelow n more a b :=
  h.mono fun _ ht hm => ht.2 (hs hm)

end Store

namespace Machine

structure Forced (link : Linkage) (address : Nat → Word) (frames : Arena .frame Frame) (lines : List Line) (a : Running)
    (event : Option Interaction) (b : Running) : Prop where
  step : Step link address frames lines a event b
  request : ∀ other c, Step link address frames lines a other c →
    other.map Interaction.toSystemCall = event.map Interaction.toSystemCall
  unique : ∀ c, Step link address frames lines a event c → c = b

namespace Forced

variable {link : Linkage} {address : Nat → Word} {frames : Arena .frame Frame} {all : List Line} {p q : Nat}
  {store after : Store} {i : Instruction} {place : Label}

lemma label (hline : all[p]? = some (.label place)) :
    Forced link address frames all ⟨p, store⟩ none ⟨p + 1, store⟩ where
  step := .label hline
  request other c h := by cases h <;> simp_all
  unique c h := by cases h <;> simp_all

lemma pass (hline : all[p]? = some (.instruction i)) (hexec : i.operation.exec? link store = some (after, none)) :
    Forced link address frames all ⟨p, store⟩ none ⟨p + 1, after⟩ where
  step := .pass hline hexec
  request other c h := by cases h <;> simp_all [Operation.exec?]
  unique c h := by cases h <;> simp_all [Operation.exec?]

lemma jump (hn : (Line.labels all).Nodup) (hline : all[p]? = some (.instruction i))
    (hexec : i.operation.exec? link store = some (after, some place)) (hplace : all[q]? = some (.label place)) :
    Forced link address frames all ⟨p, store⟩ none ⟨q, after⟩ where
  step := .jump hline hexec ((Line.places_iff_of_nodup hn).mpr hplace)
  request other c h := by cases h <;> simp_all [Operation.exec?]
  unique c h := by
    cases h with
    | jump hline' hexec' hplace' =>
      obtain rfl := Line.instruction.inj (Option.some.inj (hline.symm.trans hline'))
      obtain ⟨rfl, hp⟩ := Prod.mk.inj (Option.some.inj (hexec.symm.trans hexec'))
      obtain rfl := Option.some.inj hp
      rw [Line.getElem?_inj_of_nodup hn hplace hplace'.1]
    | _ => simp_all [Operation.exec?]

lemma sbrk {v0 a0 a1 : Temp} {grant : Interaction} (hline : all[p]? = some (.instruction i))
    (hi : i.operation = .syscall .sbrk v0 a0 a1) (h : grant.toSystemCall = store.request .sbrk v0 a0 a1) :
    Forced link address frames all ⟨p, store⟩ (some grant) ⟨p + 1, store.put v0 grant.result⟩ where
  step := .syscall hline hi h
  request other c h := by cases h <;> simp_all [Operation.exec?]
  unique c h := by
    cases h with
    | syscall hline' hi' =>
      obtain rfl := Line.instruction.inj (Option.some.inj (hline.symm.trans hline'))
      obtain ⟨rfl, rfl, -⟩ := Operation.syscall.inj (hi.symm.trans hi')
      rfl

end Forced

/-- Steps one after the other, with the system calls that are made in them. There is no other way, as long as the system
gives these answers. -/
inductive Runs (link : Linkage) (address : Nat → Word) (frames : Arena .frame Frame) (lines : List Line) :
    Running → List Interaction → Running → Prop
  | refl (a : Running) : Runs link address frames lines a [] a
  | step {a b c event events} : Forced link address frames lines a event b → Runs link address frames lines b events c →
      Runs link address frames lines a (event.toList ++ events) c

namespace Runs

variable {link : Linkage} {address : Nat → Word} {frames : Arena .frame Frame} {all lines : List Line} {a b c : Running}
  {events others : List Interaction} {p : Nat} {store after : Store}

lemma trans (h : Runs link address frames all a events b) (h' : Runs link address frames all b others c) :
    Runs link address frames all a (events ++ others) c := by
  induction h with
  | refl _ => exact h'
  | step hstep _ ih =>
    rw [List.append_assoc]
    exact .step hstep (ih h')

lemma followed (h : Runs link address frames all a [] b) (h' : Runs link address frames all b others c) :
    Runs link address frames all a others c := h.trans h'

lemma single {event : Option Interaction} (h : Forced link address frames all a event b) :
    Runs link address frames all a event.toList b := by
  simpa using Runs.step h (.refl b)

lemma pass (hat : List.At all p lines) (h : run? link store lines = some after) :
    Runs link address frames all ⟨p, store⟩ [] ⟨p + lines.length, after⟩ := by
  induction lines generalizing p store with
  | nil =>
    obtain rfl := Option.some.inj h
    exact .refl _
  | cons line rest ih =>
    obtain ⟨hline, hrest⟩ := List.at_cons.mp hat
    obtain ⟨next, hpass, h⟩ := Option.bind_eq_some_iff.mp (run?_cons.symm.trans h)
    have hstep : Forced link address frames all ⟨p, store⟩ none ⟨p + 1, next⟩ := by
      cases line with
      | label place =>
        obtain rfl := Option.some.inj hpass
        exact .label hline
      | instruction i =>
        obtain ⟨⟨result, target⟩, he, ht⟩ := Option.bind_eq_some_iff.mp hpass
        by_cases hn : target = none
        · subst hn
          obtain rfl := Option.some.inj ht
          exact .pass hline he
        · simp [hn] at ht
    rw [List.length_cons, Nat.add_comm rest.length, ← Nat.add_assoc]
    exact (single hstep).followed (ih hrest h)

end Runs

/-- Wherever some lines stand in a program whose labels are distinct, control comes from one of them to another one,
with these system calls. The lines are counted from the first one. -/
def Leads (link : Linkage) (lines : List Line) (i : Nat) (store : Store) (events : List Interaction) (j : Nat)
    (after : Store) : Prop :=
  ∀ (address : Nat → Word) (frames : Arena .frame Frame) (all : List Line) (p : Nat), (Line.labels all).Nodup →
    List.At all p lines → Runs link address frames all ⟨p + i, store⟩ events ⟨p + j, after⟩

def Passes (link : Linkage) (lines : List Line) (store : Store) (events : List Interaction) (after : Store) : Prop :=
  Leads link lines 0 store events lines.length after

section

variable {link : Linkage} {lines rest : List Line} {i j k : Nat} {store middle after : Store}
  {events others : List Interaction} {instruction : Instruction}

namespace Leads

lemma trans (h : Leads link lines i store events j middle) (h' : Leads link lines j middle others k after) :
    Leads link lines i store (events ++ others) k after :=
  fun address frames all p hn hat => (h address frames all p hn hat).trans (h' address frames all p hn hat)

lemma followed (h : Leads link lines i store [] j middle) (h' : Leads link lines j middle others k after) :
    Leads link lines i store others k after := h.trans h'

lemma stretch (i n : Nat) (hlength : i + n ≤ lines.length)
    (h : run? link store ((lines.drop i).take n) = some after) : Leads link lines i store [] (i + n) after := by
  intro address frames all p _ hat
  have hn : ((lines.drop i).take n).length = n := by
    rw [List.length_take, List.length_drop]
    omega
  have hruns : Runs link address frames all _ [] _ := .pass (hat.slice i n) h
  rwa [hn, Nat.add_assoc] at hruns

lemma jump {place : Label} (i j : Nat) (hline : lines[i]? = some (.instruction instruction))
    (hplace : lines[j]? = some (.label place)) (h : instruction.operation.exec? link store = some (after, some place)) :
    Leads link lines i store [] j after :=
  fun _ _ _ _ hn hat => .single (.jump hn (hat.getElem? hline) h (hat.getElem? hplace))

lemma sbrk {v0 a0 a1 : Temp} {grant : Interaction} (i : Nat) (hline : lines[i]? = some (.instruction instruction))
    (hi : instruction.operation = .syscall .sbrk v0 a0 a1) (h : grant.toSystemCall = store.request .sbrk v0 a0 a1) :
    Leads link lines i store [grant] (i + 1) (store.put v0 grant.result) :=
  fun _ _ _ _ _ hat => .single (.sbrk (hat.getElem? hline) hi h)

end Leads

namespace Passes

lemma append (h : Passes link lines store events middle) (h' : Passes link rest middle others after) :
    Passes link (lines ++ rest) store (events ++ others) after := by
  intro address frames all p hn hat
  obtain ⟨hfirst, hrest⟩ := List.at_append.mp hat
  rw [List.length_append, ← Nat.add_assoc]
  exact (h address frames all p hn hfirst).trans (h' address frames all _ hn hrest)

lemma of_run? (h : run? link store lines = some after) : Passes link lines store [] after :=
  fun _ _ _ _ _ hat => .pass hat h

lemma within (h : Passes link lines store events after) (before rest : List Line) :
    Leads link (before ++ lines ++ rest) before.length store events (before.length + lines.length) after := by
  intro address frames all p hn hat
  obtain ⟨hfirst, -⟩ := List.at_append.mp hat
  rw [← Nat.add_assoc]
  exact h address frames all _ hn (List.at_append.mp hfirst).2

end Passes

lemma Leads.last (lines : List Line) (place : Label) (store : Store) :
    Leads link (lines ++ [.label place]) lines.length store [] (lines ++ [Line.label place]).length store := by
  have hlabel : Passes link [.label place] store [] store := .of_run? rfl
  simpa using hlabel.within lines []

end

end Machine

end TigerMips
