import TigerMips.Proofs.Tac.Step
import TigerMips.Proofs.Tac.Supported

/-! Where control can go in a list of codes, and codes that each belong to one function. -/

namespace TigerMips

def Tac.jump? : Tac → Option Label
  | goto target | branch _ _ _ target => some target
  | _ => none

def Tac.passes : Tac → Bool
  | goto _ | ret => false
  | _ => true

namespace Code

def jump? (code : Code) : Option Label := code.op?.bind (·.2.jump?)

def passes (code : Code) : Bool := code.op?.all (·.2.passes)

inductive Flows (codes : List Code) : Nat → Nat → Prop
  | next {position : Nat} {code : Code} :
      codes[position]? = some code → code.passes → Flows codes position (position + 1)
  | jump {position place : Nat} {code : Code} {target : Label} : codes[position]? = some code → target ∈ code.jump? →
    find? codes target = some place → Flows codes position place

abbrev Reaches (codes : List Code) : Nat → Nat → Prop := Relation.ReflTransGen (Flows codes)

lemma find?_of_getElem? {codes : List Code} (hn : (labels codes).Nodup) {position : Nat} {code : Code} {l : Label}
    (hc : codes[position]? = some code) (hl : code.label? = some l) : find? codes l = some position := by
  induction codes generalizing position with
  | nil => simp at hc
  | cons first rest ih =>
    cases position with
    | zero =>
      obtain rfl : first = code := by simpa using hc
      simp [find?, List.findIdx?_cons, hl]
    | succ position =>
      have hrest : rest[position]? = some code := by simpa using hc
      have hm : l ∈ labels rest := List.mem_filterMap.mpr ⟨code, List.mem_of_getElem? hrest, hl⟩
      have hsub : (labels rest).Nodup := hn.sublist (List.Sublist.filterMap _ (List.sublist_cons_self first rest))
      have hne : first.label? ≠ some l := by
        intro hf
        have hcons : labels (first :: rest) = l :: labels rest := List.filterMap_cons_some hf
        rw [hcons] at hn
        exact (List.nodup_cons.mp hn).1 hm
      have hfound := ih hsub hrest
      unfold find? at hfound ⊢
      simp [List.findIdx?_cons, hne, hfound]

end Code

structure Owned where
  owner : FrameId
  isEntry : Bool
  code : Code

namespace Owned

def Follows (x y : Owned) : Prop := x.code.passes → y.owner = x.owner ∧ y.isEntry = false

def IsTarget (x : Owned) (owner : FrameId) (l : Label) : Prop :=
  x.code.label? = some l ∧ x.owner = owner ∧ x.isEntry = false

structure Apart (leaves : FrameId → Label → Prop) (xs : List Owned) : Prop where
  frames : ∀ x ∈ xs, ∀ op ∈ x.code.op?, op.1 = x.owner
  chain : xs.IsChain Follows
  jumps : ∀ x ∈ xs, ∀ target ∈ x.code.jump?, (∃ y ∈ xs, y.IsTarget x.owner target) ∨ leaves x.owner target

structure Inside (frame : FrameId) (known : Label → Prop) (placed : List Label) (xs : List Owned) : Prop
    extends Apart (fun owner target => owner = frame ∧ known target) xs where
  first : ∀ x ∈ xs.head?, x.owner = frame ∧ x.isEntry = false
  last : ∀ x ∈ xs.getLast?, x.owner = frame
  placed : ∀ l ∈ placed, ∃ x ∈ xs, x.IsTarget frame l

structure Whole (xs : List Owned) : Prop extends Apart (fun _ _ => False) xs where
  last : ∀ x ∈ xs.getLast?, x.code.passes = false

variable {leaves leaves' : FrameId → Label → Prop} {frame : FrameId} {known known' : Label → Prop}
  {placed placed' : List Label} {xs ys : List Owned}

lemma Apart.append (h : Apart leaves xs) (h' : Apart leaves ys)
    (hseam : ∀ x ∈ xs.getLast?, ∀ y ∈ ys.head?, Follows x y) : Apart leaves (xs ++ ys) where
  frames x hm := (List.mem_append.mp hm).elim (h.frames x) (h'.frames x)
  chain := List.isChain_append.mpr ⟨h.chain, h'.chain, hseam⟩
  jumps x hm target ht := by
    rcases List.mem_append.mp hm with hm | hm
    · exact (h.jumps x hm target ht).imp_left fun ⟨y, hy, he⟩ => ⟨y, List.mem_append_left _ hy, he⟩
    · exact (h'.jumps x hm target ht).imp_left fun ⟨y, hy, he⟩ => ⟨y, List.mem_append_right _ hy, he⟩

lemma Apart.resolve (h : Apart leaves xs)
    (hl : ∀ x ∈ xs, ∀ target ∈ x.code.jump?, leaves x.owner target →
      (∃ y ∈ xs, y.IsTarget x.owner target) ∨ leaves' x.owner target) : Apart leaves' xs :=
  ⟨h.frames, h.chain, fun x hm target ht => (h.jumps x hm target ht).elim Or.inl (hl x hm target ht)⟩

namespace Inside

lemma nil : Inside frame known [] [] := ⟨⟨by simp, .nil, by simp⟩, by simp, by simp, by simp⟩

lemma append (h : Inside frame known placed xs) (h' : Inside frame known placed' ys) :
    Inside frame known (placed ++ placed') (xs ++ ys) where
  toApart := h.toApart.append h'.toApart fun x hx y hy _ =>
    ⟨(h'.first y hy).1.trans (h.last x hx).symm, (h'.first y hy).2⟩
  first x hm := by
    rw [List.head?_append] at hm
    cases hh : xs.head? with
    | none => exact h'.first x (by simpa [hh] using hm)
    | some y => exact h.first x (by simpa [hh] using hm)
  last x hm := by
    rw [List.getLast?_append] at hm
    cases hh : ys.getLast? with
    | none => exact h.last x (by simpa [hh] using hm)
    | some y => exact h'.last x (by simpa [hh] using hm)
  placed l hm := by
    rcases List.mem_append.mp hm with hm | hm
    · obtain ⟨x, hx, ht⟩ := h.placed l hm
      exact ⟨x, List.mem_append_left _ hx, ht⟩
    · obtain ⟨x, hx, ht⟩ := h'.placed l hm
      exact ⟨x, List.mem_append_right _ hx, ht⟩

lemma mono (h : Inside frame known placed xs) (hk : ∀ target, known target → known' target) :
    Inside frame known' placed xs :=
  { h with toApart := h.toApart.resolve fun _ _ _ _ hl => Or.inr ⟨hl.1, hk _ hl.2⟩ }

lemma resolve (h : Inside frame known' placed xs) (hk : ∀ target, known' target → target ∈ placed ∨ known target) :
    Inside frame known [] xs where
  toApart := h.toApart.resolve fun x _ target _ hl => by
    rcases hk target hl.2 with hp | hk
    · exact Or.inl (hl.1 ▸ h.placed target hp)
    · exact Or.inr ⟨hl.1, hk⟩
  first := h.first
  last := h.last
  placed := by simp

lemma own {codes : List Code} (h : ∀ code ∈ codes, (∀ op ∈ code.op?, op.1 = frame) ∧ ∀ target ∈ code.jump?,
    known target) : Inside frame known (Code.labels codes) (codes.map (Owned.mk frame false)) where
  frames := by
    rintro _ hm op ho
    obtain ⟨code, hc, rfl⟩ := List.mem_map.mp hm
    exact (h code hc).1 op ho
  chain := by
    refine List.Pairwise.isChain (List.pairwise_map.mpr (List.pairwise_of_forall fun _ _ => ?_))
    exact fun _ => ⟨rfl, rfl⟩
  jumps := by
    rintro _ hm target ht
    obtain ⟨code, hc, rfl⟩ := List.mem_map.mp hm
    exact Or.inr ⟨rfl, (h code hc).2 target ht⟩
  first := by
    intro x hm
    obtain ⟨code, -, rfl⟩ := List.mem_map.mp (List.mem_of_mem_head? hm)
    exact ⟨rfl, rfl⟩
  last := by
    intro x hm
    obtain ⟨code, -, rfl⟩ := List.mem_map.mp (List.mem_of_getLast? hm)
    rfl
  placed l hm := by
    obtain ⟨code, hc, hl⟩ := List.mem_filterMap.mp hm
    exact ⟨_, List.mem_map_of_mem hc, hl, rfl, rfl⟩

end Inside

namespace Whole

lemma nil : Whole [] := ⟨⟨by simp, .nil, by simp⟩, by simp⟩

lemma append (h : Whole xs) (h' : Whole ys) : Whole (xs ++ ys) where
  toApart := h.toApart.append h'.toApart fun x hx y _ hp => absurd hp (by simp [h.last x hx])
  last x hm := by
    rw [List.getLast?_append] at hm
    cases hh : ys.getLast? with
    | none => exact h.last x (by simpa [hh] using hm)
    | some y => exact h'.last x (by simpa [hh] using hm)

lemma function (h : Inside frame (fun _ => False) placed xs) (l : Label) :
    Whole (⟨frame, true, .label l⟩ :: xs ++ [⟨frame, false, .op frame .ret⟩]) where
  toApart := by
    have hret : Apart (fun _ _ => False) [⟨frame, false, .op frame .ret⟩] :=
      ⟨by simp [Code.op?], .singleton _, by simp [Code.jump?, Code.op?, Tac.jump?]⟩
    have hentry : Apart (fun _ _ => False) [⟨frame, true, .label l⟩] :=
      ⟨by simp [Code.op?], .singleton _, by simp [Code.jump?, Code.op?]⟩
    have hbody : Apart (fun _ _ => False) xs := h.toApart.resolve fun _ _ _ _ hl => hl.2.elim
    refine (hentry.append hbody fun x hx y hy _ => ?_).append hret fun x hx y hy _ => ?_
    · obtain rfl := Option.some.inj hx
      exact h.first y hy
    · obtain rfl := Option.some.inj hy
      refine ⟨?_, rfl⟩
      rw [List.getLast?_append] at hx
      cases hh : xs.getLast? with
      | none =>
        obtain rfl : _ = x := by simpa [hh] using hx
        rfl
      | some z =>
        obtain rfl : z = x := by simpa [hh] using hx
        exact (h.last z hh).symm
  last := by
    intro x hm
    rw [List.getLast?_append] at hm
    obtain rfl := Option.some.inj hm
    rfl

lemma skipped (h : Whole xs) (frame : FrameId) (known : Label → Prop) (l : Label) :
    Inside frame known [] (⟨frame, false, .op frame (.goto l)⟩ :: xs ++ [⟨frame, false, .label l⟩]) where
  toApart := by
    have hgoto : Apart (fun owner target => owner = frame ∧ target = l) [⟨frame, false, .op frame (.goto l)⟩] :=
      ⟨by simp [Code.op?], .singleton _, by simp [Code.jump?, Code.op?, Tac.jump?]⟩
    have hlabel : Apart (fun owner target => owner = frame ∧ target = l) [⟨frame, false, .label l⟩] :=
      ⟨by simp [Code.op?], .singleton _, by simp [Code.jump?, Code.op?]⟩
    have hwhole : Apart (fun owner target => owner = frame ∧ target = l) xs :=
      h.toApart.resolve fun _ _ _ _ hl => hl.elim
    have hall := (hgoto.append hwhole fun x hx y _ hp => ?_).append hlabel fun x hx y _ hp => ?_
    · refine hall.resolve fun x _ target _ hl => Or.inl ⟨⟨frame, false, .label l⟩, by simp, ?_⟩
      exact ⟨congrArg some hl.2.symm, hl.1.symm, rfl⟩
    · obtain rfl := Option.some.inj hx
      cases hp
    · rw [List.getLast?_append] at hx
      cases hh : xs.getLast? with
      | none =>
        obtain rfl : _ = x := by simpa [hh] using hx
        cases hp
      | some z =>
        obtain rfl : z = x := by simpa [hh] using hx
        rw [h.last z hh] at hp
        cases hp
  first := by
    intro x hm
    obtain rfl : _ = x := by simpa using hm
    exact ⟨rfl, rfl⟩
  last := by
    intro x hm
    rw [List.getLast?_append] at hm
    obtain rfl := Option.some.inj hm
    rfl
  placed := by simp

end Whole

section

variable {main : FrameId} (h : Inside main (fun _ => False) placed xs)
  (hn : (Code.labels (xs.map Owned.code)).Nodup)

include h hn

lemma flows {i j : Nat} {x : Owned} (hf : Code.Flows (xs.map Owned.code) i j) (hx : xs[i]? = some x) :
    (j = xs.length ∧ x.owner = main) ∨ ∃ y, xs[j]? = some y ∧ y.owner = x.owner ∧ y.isEntry = false := by
  have hm := List.mem_of_getElem? hx
  cases hf with
  | next hc hp =>
    obtain rfl : x.code = _ := by simpa [hx] using hc
    by_cases hlast : i + 1 < xs.length
    · have hfollows : Follows xs[i] xs[i + 1] := List.isChain_iff_getElem.mp h.chain i hlast
      obtain ⟨hi, rfl⟩ := List.getElem?_eq_some_iff.mp hx
      exact Or.inr ⟨xs[i + 1], List.getElem?_eq_getElem hlast, hfollows hp⟩
    · obtain ⟨hi, rfl⟩ := List.getElem?_eq_some_iff.mp hx
      refine Or.inl ⟨by omega, h.last _ ?_⟩
      rw [List.getLast?_eq_getElem?, show xs.length - 1 = i by omega, List.getElem?_eq_getElem hi]
      rfl
  | jump hc ht hfind =>
    obtain rfl : x.code = _ := by simpa [hx] using hc
    rcases h.jumps x hm _ ht with ⟨y, hy, hl, howner, hentry⟩ | ⟨-, hk⟩
    · obtain ⟨k, hk⟩ := List.mem_iff_getElem?.mp hy
      have hcode : (xs.map Owned.code)[k]? = some y.code := by simp [hk]
      obtain rfl := Option.some.inj ((Code.find?_of_getElem? hn hcode hl).symm.trans hfind)
      exact Or.inr ⟨y, hk, howner, hentry⟩
    · exact hk.elim

lemma path {i j : Nat} {x : Owned} (hr : Relation.TransGen (Code.Flows (xs.map Owned.code)) i j)
    (hx : xs[i]? = some x) :
    (j = xs.length ∧ x.owner = main) ∨ ∃ y, xs[j]? = some y ∧ y.owner = x.owner ∧ y.isEntry = false := by
  induction hr with
  | single hf => exact flows h hn hf hx
  | tail _ hf ih =>
    rcases ih with ⟨rfl, -⟩ | ⟨y, hy, howner, -⟩
    · -- There is no code at the end to go on from.
      cases hf <;> simp_all
    · rw [← howner]
      exact flows h hn hf hy

lemma exists_flows {i : Nat} {x : Owned} (hx : xs[i]? = some x) :
    (∃ j, Code.Flows (xs.map Owned.code) i j) ∨ x.code.op? = some (x.owner, .ret) := by
  have hc : (xs.map Owned.code)[i]? = some x.code := by simp [hx]
  by_cases hp : x.code.passes
  · exact Or.inl ⟨_, .next hc hp⟩
  · have hm := List.mem_of_getElem? hx
    cases hop : x.code.op? with
    | none => simp [Code.passes, hop] at hp
    | some op =>
      obtain ⟨frame, tac⟩ := op
      obtain rfl : frame = x.owner := h.frames x hm _ hop
      cases tac with
      | ret => exact Or.inr rfl
      | goto target =>
        have ht : target ∈ x.code.jump? := by simp [Code.jump?, hop, Tac.jump?]
        rcases h.jumps x hm target ht with ⟨y, hy, hl, -⟩ | ⟨-, hk⟩
        · obtain ⟨k, hk⟩ := List.mem_iff_getElem?.mp hy
          have hcode : (xs.map Owned.code)[k]? = some y.code := by simp [hk]
          exact Or.inl ⟨k, .jump hc ht (Code.find?_of_getElem? hn hcode hl)⟩
        · exact hk.elim
      | _ => simp [Code.passes, hop, Tac.passes] at hp

end

end Owned

end TigerMips
