import Mathlib
import TigerMips.Proofs.Lists
import TigerMips.Text.Color
import TigerMips.Text.Plain
import TigerMips.Word

/-! Plain text. It has no control characters but line feeds. Without escapes in it, a text is made plain by removing the
other control characters one by one. -/

namespace TigerMips.Text

open Text.Reading

lemma Color.paint_false (color : Color) (text : String) : color.paint false text = text := rfl

def isShown (c : Char) : Bool := !(isBetween 0 0x1F c || isBetween 0x80 0x9F c)

def isOneLine (text : String) : Bool := text.toList.all isShown

lemma isOneLine_iff {text : String} : isOneLine text ↔ ∀ c ∈ text.toList, isShown c := List.all_eq_true

def isPlain (c : Char) : Bool := isShown c || c == '\n'

lemma filter_isPlain {text : String} (h : isOneLine text) : text.toList.filter isPlain = text.toList :=
  List.filter_eq_self.mpr fun c hc => by simp [isPlain, isOneLine_iff.mp h c hc]

lemma not_isEscape_of_isPlain {c : Char} (h : isPlain c) : isEscape c = false := by
  simp only [isPlain, isShown, isBetween, isEscape, Bool.or_eq_true, Bool.not_eq_true', Bool.or_eq_false_iff] at *
  rcases h with h | h
  · simp at h ⊢
    omega
  · rw [beq_iff_eq.mp h]
    rfl

lemma next_shown {c : Char} (h : isEscape c = false) : next .shown c = (.shown, [c].filter isPlain) := by
  unfold next
  rw [if_neg (by simp [h])]
  by_cases hcancel : isCancel c
  · have hcontrol : isShown c = false := by
      simp only [isCancel, Bool.or_eq_true, beq_iff_eq] at hcancel
      simp [isShown, isBetween]
      omega
    have hline : c ≠ '\n' := fun hc => by rw [hc] at hcancel; exact absurd hcancel (by decide)
    simp [hcancel, isPlain, hcontrol, hline]
  · by_cases hcontrol : isBetween 0 0x1F c || isBetween 0x80 0x9F c
    · have hplain : isPlain c = (c == '\n') := by simp [isPlain, isShown, hcontrol]
      rcases eq_or_ne c '\n' with rfl | hline
      · rfl
      · simp [hcancel, hcontrol, lineFeed, hplain, hline]
    · simp [hcancel, hcontrol, isPlain, isShown]

lemma plainFrom_shown {text : List Char} (h : ∀ c ∈ text, isEscape c = false) :
    plainFrom .shown text = text.filter isPlain := by
  induction text with
  | nil => rfl
  | cons c rest ih =>
    obtain ⟨hc, hrest⟩ := List.forall_mem_cons.mp h
    rw [plainFrom, next_shown hc, ih hrest, ← List.filter_append, List.singleton_append]

lemma mem_lineFeed {c d : Char} (h : d ∈ lineFeed c) : d = '\n' := by
  unfold lineFeed at h
  split at h <;> simp_all

lemma mem_inData {c d : Char} (h : d ∈ (inData c).2) : isShown d := by
  unfold inData at h
  split at h
  · cases h
  · obtain ⟨byte, -, hd⟩ := List.mem_flatMap.mp h
    unfold strayByte at hd
    split at hd
    · cases hd
    · obtain rfl := List.mem_singleton.mp hd
      decide

lemma mem_next {reading : Reading} {c d : Char} (h : d ∈ (reading.next c).2) : isShown d ∨ d = '\n' := by
  unfold next at h
  split at h
  · cases h
  split at h
  · cases h
  cases reading with
  | shown =>
    simp only at h
    split at h
    · exact Or.inr (mem_lineFeed h)
    · rename_i hc
      obtain rfl := List.mem_singleton.mp h
      exact Or.inl (by simpa [isShown] using hc)
  | command | ignored | device | deviceParams | deviceIntermediate => cases h
  | deviceData => exact Or.inl (mem_inData h)
  | escape => exact Or.inr (mem_lineFeed h)
  | intermediate | control =>
    simp only at h
    split at h
    · cases h
    · exact Or.inr (mem_lineFeed h)

lemma mem_plainFrom {reading : Reading} {text : List Char} {c : Char} (h : c ∈ plainFrom reading text) :
    isShown c ∨ c = '\n' := by
  induction text generalizing reading with
  | nil => cases h
  | cons d rest ih => exact (List.mem_append.mp h).elim mem_next ih

lemma isShown_of_isDigit {c : Char} (h : c.isDigit) : isShown c := by
  simp only [Char.isDigit, Bool.and_eq_true, decide_eq_true_eq] at h
  have hlow : 48 ≤ c.toNat := h.1
  have hhigh : c.toNat ≤ 57 := h.2
  simp [isShown, isBetween]
  omega

@[simp] lemma isOneLine_append {a b : String} : isOneLine (a ++ b) = (isOneLine a && isOneLine b) := by
  simp [isOneLine]

lemma isOneLine_nat (n : Nat) : isOneLine (toString n) := isOneLine_iff.mpr fun c hc => by
  have hdigits : c ∈ Nat.toDigits 10 n := by rwa [← Nat.toList_repr]
  exact isShown_of_isDigit (Nat.isDigit_of_mem_toDigits (by decide) (by decide) hdigits)

lemma isOneLine_word (w : Word) : isOneLine (toString w) := by
  change isOneLine (Int.repr w.toInt)
  cases w.toInt with
  | ofNat n => exact isOneLine_nat n
  | negSucc n => exact isOneLine_append.trans (isOneLine_nat (n + 1))

end TigerMips.Text
