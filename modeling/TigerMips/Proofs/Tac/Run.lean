import TigerMips.Proofs.Lists
import TigerMips.Proofs.Tac.Flow

/-! Runs through a stretch of code that stands somewhere in a longer list. -/

namespace TigerMips

namespace Code

variable {all : List Code} {code : Code} {p q r : Nat}

def Runs (link : Linkage) (all : List Code) (p : Nat) (store : Store) (q : Nat) (after : Store) : Prop :=
  ∃ n, Running.steps? (step? link all) n ⟨p, store⟩ = some ⟨q, after⟩

namespace Runs

variable {link : Linkage} {store middle after : Store} {frame : FrameId} {tac : Tac} {l : Label}

lemma refl (store : Store) : Runs link all p store p store := ⟨0, rfl⟩

lemma trans (h : Runs link all p store q middle) (h' : Runs link all q middle r after) :
    Runs link all p store r after := by
  obtain ⟨m, hm⟩ := h
  obtain ⟨n, hn⟩ := h'
  exact ⟨m + n, by rw [Running.steps?_add, hm, Option.bind_some, hn]⟩

lemma label (hc : all[p]? = some (.label l)) : Runs link all p store (p + 1) store :=
  ⟨1, Running.steps?_one (by simp [step?, hc])⟩

lemma step?_op (hc : all[p]? = some code) (hop : code.op? = some (frame, tac)) :
    step? link all ⟨p, store⟩ = (tac.exec? link store).bind (Running.follow (find? all) p) := by
  unfold step?
  cases code with
  | label _ => cases hop
  | op _ _ | labeled _ _ _ =>
    obtain ⟨rfl, rfl⟩ := Prod.mk.inj (Option.some.inj hop)
    simp only [hc]

lemma op (hc : all[p]? = some code) (hop : code.op? = some (frame, tac))
    (he : tac.exec? link store = some (after, none)) : Runs link all p store (p + 1) after :=
  ⟨1, Running.steps?_one (by rw [step?_op hc hop, he]; rfl)⟩

lemma jump (hc : all[p]? = some code) (hop : code.op? = some (frame, tac))
    (he : tac.exec? link store = some (after, some l)) (hf : find? all l = some q) : Runs link all p store q after :=
  ⟨1, Running.steps?_one (by rw [step?_op hc hop, he]; simp [Running.follow, hf])⟩

lemma move {temp : Temp} {source : Access} (hc : all[p]? = some code)
    (hop : code.op? = some (frame, .move (.temp temp) source)) :
    Runs link all p store (p + 1) (store.put temp (source.value link store)) :=
  op hc hop rfl

lemma binary {operator : BinaryOp} {temp : Temp} {lhs rhs : Access} {value : Word} (hc : all[p]? = some code)
    (hop : code.op? = some (frame, .binary operator (.temp temp) lhs rhs))
    (hv : operator.eval? (lhs.value link store) (rhs.value link store) = some value) :
    Runs link all p store (p + 1) (store.put temp value) :=
  op hc hop (by simp [Tac.exec?, hv, Access.write?])

lemma negate {temp : Temp} {operand : Access} (hc : all[p]? = some code)
    (hop : code.op? = some (frame, .negate (.temp temp) operand)) :
    Runs link all p store (p + 1) (store.put temp (-operand.value link store)) :=
  op hc hop rfl

lemma goto (hc : all[p]? = some code) (hop : code.op? = some (frame, .goto l)) (hf : find? all l = some q) :
    Runs link all p store q store :=
  jump hc hop rfl hf

lemma taken {relation : Relation} {lhs rhs : Access} (hc : all[p]? = some code)
    (hop : code.op? = some (frame, .branch relation lhs rhs l))
    (ht : relation.test (lhs.value link store) (rhs.value link store) = true) (hf : find? all l = some q) :
    Runs link all p store q store :=
  jump hc hop (by simp [Tac.exec?, ht]) hf

lemma passed {relation : Relation} {lhs rhs : Access} (hc : all[p]? = some code)
    (hop : code.op? = some (frame, .branch relation lhs rhs l))
    (ht : relation.test (lhs.value link store) (rhs.value link store) = false) :
    Runs link all p store (p + 1) store :=
  op hc hop (by simp [Tac.exec?, ht])

end Runs

end Code

end TigerMips
