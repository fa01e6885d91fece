import TigerMips.Machine.Program
import TigerMips.Proofs.Machine.Step

/-! Where control can go from a line of machine code. -/

namespace TigerMips.Machine

def Operation.fallsThrough : Operation → Bool
  | jump _ | jumpAndLink _ _ | jumpRegister _ => false
  | _ => true

def Instruction.exits (frames : Arena .frame Frame) (i : Instruction) : List Label :=
  match i.operation with
  | .jumpRegister _ => ((frames.get? i.frame).map Frame.returns).getD []
  | operation => operation.target?.toList

lemma Operation.fallsThrough_of_not_isJump {operation : Operation} (h : operation.isJump = false) :
    operation.fallsThrough = true := by
  cases operation <;> first | rfl | cases h

lemma Instruction.exits_of_not_isJump (frames : Arena .frame Frame) {i : Instruction} (h : i.operation.isJump = false) :
    i.exits frames = [] := by
  rcases i with ⟨frame, operation, transfer⟩
  cases operation <;> first | rfl | cases h

namespace Line

def fallsThrough : Line → Bool
  | label _ => true
  | instruction i => i.operation.fallsThrough

def exits (frames : Arena .frame Frame) : Line → List Label
  | label _ => []
  | instruction i => i.exits frames

def Places (lines : List Line) (place : Label) (position : Nat) : Prop :=
  lines[position]? = some (label place) ∧ ∀ later > position, lines[later]? ≠ some (label place)

lemma mem_labels {lines : List Line} {place : Label} :
    place ∈ labels lines ↔ ∃ position : Nat, lines[position]? = some (label place) := by
  rw [← List.mem_iff_getElem?]
  simp only [labels, List.mem_filterMap]
  constructor
  · rintro ⟨line, hm, hl⟩
    cases line with
    | label other =>
      obtain rfl := Option.some.inj hl
      exact hm
    | instruction i => cases hl
  · exact fun hm => ⟨_, hm, rfl⟩

lemma getElem?_inj_of_nodup {lines : List Line} (hn : (labels lines).Nodup) {place : Label} {p q : Nat}
    (hp : lines[p]? = some (label place)) (hq : lines[q]? = some (label place)) : p = q := by
  induction lines generalizing p q with
  | nil => cases hp
  | cons line rest ih =>
    have hrest : (labels rest).Nodup := by
      cases line with
      | label other => exact (List.nodup_cons.mp hn).2
      | instruction i => exact hn
    have hfirst : ∀ r : Nat, line = label place → rest[r]? ≠ some (label place) := by
      rintro r rfl hr
      exact (List.nodup_cons.mp hn).1 (mem_labels.mpr ⟨r, hr⟩)
    rcases p with _ | p <;> rcases q with _ | q
    · rfl
    · exact absurd hq (hfirst q (Option.some.inj hp))
    · exact absurd hp (hfirst p (Option.some.inj hq))
    · rw [ih hrest hp hq]

lemma exists_places {lines : List Line} {place : Label} (h : place ∈ labels lines) :
    ∃ position, Places lines place position := by
  induction lines with
  | nil => cases h
  | cons line rest ih =>
    by_cases hr : place ∈ labels rest
    · obtain ⟨position, hp, hlater⟩ := ih hr
      refine ⟨position + 1, hp, fun later hl => ?_⟩
      obtain ⟨n, rfl⟩ : ∃ n, later = n + 1 := ⟨later - 1, by omega⟩
      exact hlater n (by omega)
    · obtain ⟨p, hp⟩ := mem_labels.mp h
      refine ⟨0, ?_, fun later hl hlater => ?_⟩
      · rcases p with _ | p
        · exact hp
        · exact absurd (mem_labels.mpr ⟨p, hp⟩) hr
      · obtain ⟨n, rfl⟩ : ∃ n, later = n + 1 := ⟨later - 1, by omega⟩
        exact hr (mem_labels.mpr ⟨n, hlater⟩)

lemma Places.mem_labels {lines : List Line} {place : Label} {position : Nat} (h : Places lines place position) :
    place ∈ labels lines :=
  Line.mem_labels.mpr ⟨position, h.1⟩

lemma places_iff_of_nodup {lines : List Line} (hn : (labels lines).Nodup) {place : Label} {position : Nat} :
    Places lines place position ↔ lines[position]? = some (label place) := by
  refine ⟨And.left, fun h => ⟨h, fun later hl hp => ?_⟩⟩
  have := getElem?_inj_of_nodup hn h hp
  omega

end Line

end TigerMips.Machine
