import TigerMips.Proofs.Analysis.Layout

/-! Code that does what a behavior says: wherever it stands, it comes from its first position to the
end, to the exit of the innermost loop, or to an operation that has been asked for. -/

namespace TigerMips

namespace Analysis

open Analyzer Code

def Scoped (layout : Layout) (names : Names) (s : Analyzer) : Prop :=
  ∀ name info key, s.values.get? name = some (.var info) → names.lookup name = some key →
    layout.place key = some info.place ∧ info.place.number < s.supply.temps ∧ s.typeTable.actual info.ty = .int

def Given (layout : Layout) (link : Linkage) (t : Analyzer) (a : Lowered) (value : Option Reading) (cells : Cells)
    (store : Store) : Prop :=
  ∀ reading, value = some reading → t.typeTable.actual a.ty = .int ∧
    ∃ access, a.place = some access ∧ Stands layout link t.supply.temps cells store access reading

def Ends (layout : Layout) (link : Linkage) (all : List Code) (exits : List (Option Label)) (first last : Nat) (p : Nat)
    (store : Store) (q : Nat) (post : Option Reading → Cells → Store → Prop) : Ending → Prop
  | .done value cells => ∃ after, Runs link all p store q after ∧ layout.Agrees cells after ∧
      layout.Untouched first last store after ∧ post value cells after
  | .broken cells => ∃ exit outer, exits = some exit :: outer ∧ ∀ target, find? all exit = some target →
      ∃ after, Runs link all p store target after ∧ layout.Agrees cells after ∧ layout.Untouched first last store after
  | .stopped request => ∃ place after frame tac, Runs link all p store place after ∧
      all[place]? = some (.op frame tac) ∧ tac.Asks link after request

namespace Ends

variable {layout : Layout} {link : Linkage} {all : List Code} {exits : List (Option Label)}
  {first last first' last' p q r : Nat} {store middle : Store} {post post' : Option Reading → Cells → Store → Prop}
  {ending : Ending}

lemma leave (h : Ends layout link all exits first last p store q post ending) (hl : ending.Leaves) :
    Ends layout link all exits first last p store r post' ending := by
  cases ending with
  | done _ _ => exact hl.elim
  | broken _ => exact h
  | stopped _ => exact h

lemma prepend (h : Ends layout link all exits first' last' q middle r post ending)
    (hr : Runs link all p store q middle) (hu : layout.Untouched first last store middle) (hf : first ≤ first')
    (hl : last' ≤ last) : Ends layout link all exits first last p store r post ending := by
  cases ending with
  | done value cells =>
    obtain ⟨after, hrun, hagree, hun, hpost⟩ := h
    exact ⟨after, hr.trans hrun, hagree, hu.trans (hun.mono hf hl), hpost⟩
  | broken cells =>
    obtain ⟨exit, outer, hexits, htarget⟩ := h
    refine ⟨exit, outer, hexits, fun target hfind => ?_⟩
    obtain ⟨after, hrun, hagree, hun⟩ := htarget target hfind
    exact ⟨after, hr.trans hrun, hagree, hu.trans (hun.mono hf hl)⟩
  | stopped request =>
    obtain ⟨place, after, frame, tac, hrun, hop, hasks⟩ := h
    exact ⟨place, after, frame, tac, hr.trans hrun, hop, hasks⟩

lemma mono (h : Ends layout link all exits first' last' p store q post ending) (hf : first ≤ first') (hl : last' ≤ last)
    (hp : ∀ value cells after, post value cells after → post' value cells after) :
    Ends layout link all exits first last p store q post' ending := by
  have h' := h.prepend (.refl store) (.refl layout first last store) hf hl
  cases ending with
  | done value cells =>
    obtain ⟨after, hrun, hagree, hun, hpost⟩ := h'
    exact ⟨after, hrun, hagree, hun, hp _ _ _ hpost⟩
  | broken _ => exact h'
  | stopped _ => exact h'

lemma andThen {x : Behavior} {next : Option Reading → Behavior} {cells : Cells}
    (h : ∀ {ending}, x cells = some ending → Ends layout link all exits first last p store q post ending)
    (hb : x.andThen next cells = some ending) :
    (∃ value middle after, next value middle = some ending ∧ Runs link all p store q after ∧
      layout.Agrees middle after ∧ layout.Untouched first last store after ∧ post value middle after) ∨
    ∀ last', last ≤ last' → ∀ r post', Ends layout link all exits first last' p store r post' ending := by
  rcases Behavior.andThen_eq_some hb with ⟨value, middle, hx, hnext⟩ | ⟨hx, hleaves⟩
  · obtain ⟨after, hrun, hagree, hun, hpost⟩ := h hx
    exact Or.inl ⟨value, middle, after, hnext, hrun, hagree, hun, hpost⟩
  · exact Or.inr fun last' hl r post' => ((h hx).leave hleaves).mono le_rfl hl fun _ _ _ hp => hp

end Ends

variable {layout : Layout} {link : Linkage} {names : Names}

lemma Scoped.grow {s t : Analyzer} (h : Scoped layout names s) (hg : s.Grows t)
    (hv : ∀ name info, t.values.get? name = some (.var info) → s.values.get? name = some (.var info)) :
    Scoped layout names t := by
  intro name info key hget hlookup
  obtain ⟨hplace, hlt, hint⟩ := h name info key (hv name info hget) hlookup
  exact ⟨hplace, hlt.trans_le hg.temps, TypeTable.follow_eq_int_of_prefix hg.bindings _ hint⟩

lemma Scoped.keeps {s t : Analyzer} (h : Scoped layout names s) (hk : s.Keeps t) : Scoped layout names t :=
  h.grow hk.toGrows fun _ _ hget => hk.values ▸ hget

lemma Scoped.declare {s t : Analyzer} (h : Scoped layout names s) {name : String} {info : Variable} {key : Path}
    (hv : ∀ other, t.values.get? other = if other = name then some (.var info) else s.values.get? other)
    (hle : s.supply.temps ≤ t.supply.temps) (htable : t.typeTable = s.typeTable)
    (hp : layout.place key = some info.place) (hlt : info.place.number < t.supply.temps)
    (hint : s.typeTable.actual info.ty = .int) : Scoped layout ((name, key) :: names) t := by
  intro other found place hget hlookup
  rw [hv] at hget
  rw [htable]
  split at hget
  · rename_i hname
    obtain rfl := Value.var.inj (Option.some.inj hget)
    obtain rfl : key = place := by simpa [hname] using hlookup
    exact ⟨hp, hlt, hint⟩
  · rename_i hname
    have hne : (other == name) = false := by simpa using hname
    rw [List.lookup_cons, hne] at hlookup
    obtain ⟨hplace, hlt', hint'⟩ := h other found place hget hlookup
    exact ⟨hplace, hlt'.trans_le hle, hint'⟩

structure Site (layout : Layout) (names : Names) (slots : List (Path × Temp)) (s t : Analyzer) (all : List Code)
    (p : Nat) (code : List Code) : Prop where
  inScope : Scoped layout names s
  covers : layout.Covers slots s.supply.temps t.supply.temps
  nodup : (labels all).Nodup
  installed : List.At all p code

variable {slots others : List (Path × Temp)} {s s₁ t : Analyzer} {all code part : List Code} {p q bound : Nat}

namespace Site

lemma first (h : Site layout names (slots ++ others) s t all p code) (ho : Laid others s₁.supply.temps bound)
    (hl : s₁.supply.temps ≤ t.supply.temps) (hat : List.At all q part) : Site layout names slots s s₁ all q part :=
  { h with covers := h.covers.left ho hl, installed := hat }

lemma second (h : Site layout names (slots ++ others) s t all p code) (hk : s.Keeps s₁)
    (ho : Laid slots bound s₁.supply.temps) (hat : List.At all q part) : Site layout names others s₁ t all q part :=
  { h with inScope := h.inScope.keeps hk, covers := h.covers.right ho hk.temps, installed := hat }

lemma before (h : Site layout names slots s t all p code) (hl : s₁.supply.temps ≤ t.supply.temps)
    (hat : List.At all q part) : Site layout names slots s s₁ all q part :=
  { h with covers := h.covers.mono le_rfl hl, installed := hat }

end Site

def Follows (layout : Layout) (link : Linkage) (names : Names) (slots : List (Path × Temp)) (behavior : Behavior)
    (s : Analyzer) (a : Lowered) (t : Analyzer) : Prop :=
  ∀ ⦃all p⦄, Site layout names slots s t all p a.code →
    ∀ ⦃cells ending store⦄, layout.Agrees cells store → behavior cells = some ending →
      Ends layout link all s.exits s.supply.temps t.supply.temps p store (p + a.code.length)
      (Given layout link t a) ending

def FollowsExpr (layout : Layout) (link : Linkage) (turns : Nat) (e : Expr) (s : Analyzer) (a : Lowered)
    (t : Analyzer) :
    Prop :=
  ∀ here names, Follows layout link names (e.slots here s) (e.behavior true turns here names) s a t

lemma Faultless.laid {e : Expr} {P : Analyzer → Lowered → Analyzer → Prop} {a : Lowered}
    (h : Faultless Keeps (lowerExpr e) P s a t) (here : Path) : Laid (e.slots here s) s.supply.temps t.supply.temps :=
  (runCases_lays.lowerExpr e h.run h.sound h.clean).holds here

variable {x : Behavior} {cells : Cells} {ending : Ending} {store : Store}

lemma Follows.withValue {a : Lowered} (h : Follows layout link names slots x s a t)
    (hsite : Site layout names slots s t all p a.code) (hagree : layout.Agrees cells store) {next : Reading → Behavior}
    (hb : x.withValue next cells = some ending) :
    (∃ reading middle after access, next reading middle = some ending ∧
      Runs link all p store (p + a.code.length) after ∧ layout.Agrees middle after ∧
      layout.Untouched s.supply.temps t.supply.temps store after ∧ t.typeTable.actual a.ty = .int ∧
      a.place = some access ∧ Stands layout link t.supply.temps middle after access reading) ∨
    ∀ last, t.supply.temps ≤ last → ∀ q post,
      Ends layout link all s.exits s.supply.temps last p store q post ending := by
  rcases Ends.andThen (h hsite hagree) hb with ⟨value, middle, after, hnext, hrun, hagree', hun, hgiven⟩ | hout
  · cases value with
    | none => cases hnext
    | some reading =>
      obtain ⟨hint, access, hplace, hstands⟩ := hgiven reading rfl
      exact Or.inl ⟨reading, middle, after, access, hnext, hrun, hagree', hun, hint, hplace, hstands⟩
  · exact Or.inr hout

lemma given_none {a : Lowered} : Given layout link t a none cells store := by
  rintro reading ⟨⟩

lemma given_temp {a : Lowered} {temp : Temp} (hty : t.typeTable.actual a.ty = .int) (hp : a.place = some (.temp temp))
    (hlt : temp.number < t.supply.temps) (hf : layout.Free temp) (word : Word) :
    Given layout link t a (some { word }) cells (store.put temp word) := by
  rintro reading ⟨⟩
  exact ⟨hty, _, hp, .scratch (by simp [Access.value, Store.put]) (by simpa [Access.temps] using ⟨hlt, hf⟩)⟩

lemma ends_operands {turns : Nat} {lhs rhs : Expr} {left right : Lowered} {s₂ : Analyzer} {here : Path}
    (hl : Faultless Keeps (lowerExpr lhs) (FollowsExpr layout link turns lhs) s left s₁)
    (hr : Faultless Keeps (lowerExpr rhs) (FollowsExpr layout link turns rhs) s₁ right s₂)
    (hsite : Site layout names (lhs.slots (0 :: here) s ++ rhs.slots (1 :: here) s₁) s s₂ all p
      (left.code ++ right.code))
    (hagree : layout.Agrees cells store) {next : Reading → Reading → Behavior}
    (hb : ((lhs.behavior true turns (0 :: here) names).withValue fun one =>
      (rhs.behavior true turns (1 :: here) names).withValue fun other => next one other) cells = some ending) :
    (∃ one other middle after first second, next one other middle = some ending ∧
      Runs link all p store (p + left.code.length + right.code.length) after ∧ layout.Agrees middle after ∧
      layout.Untouched s.supply.temps s₂.supply.temps store after ∧ s₁.typeTable.actual left.ty = .int ∧
      left.place = some first ∧ right.place = some second ∧
      (∀ word, one.use true middle = some word → first.value link after = word) ∧
      Stands layout link s₂.supply.temps middle after second other) ∨
    ∀ last, s₂.supply.temps ≤ last → ∀ q post,
      Ends layout link all s.exits s.supply.temps last p store q post ending := by
  obtain ⟨hatLeft, hatRight⟩ := List.at_append.mp hsite.installed
  have hfirst := hsite.first (hr.laid (1 :: here)) hr.keeps.temps hatLeft
  have hsecond := hsite.second hl.keeps (hl.laid (0 :: here)) hatRight
  rcases (hl.holds _ _).withValue hfirst hagree hb with
    ⟨one, middle₁, after₁, first, hnext₁, hrun₁, hagree₁, hun₁, hint, hplace₁, hstands₁⟩ | hleft
  · rcases (hr.holds _ _).withValue hsecond hagree₁ hnext₁ with
      ⟨other, middle, after, second, hnext, hrun₂, hagree₂, hun₂, -, hplace₂, hstands₂⟩ | hleft
    · exact Or.inl ⟨one, other, middle, after, first, second, hnext, hrun₁.trans hrun₂, hagree₂,
        (hun₁.mono le_rfl hr.keeps.temps).trans (hun₂.mono hl.keeps.temps le_rfl), hint, hplace₁, hplace₂,
        fun word hw => hstands₁.lasts hun₂ hagree₂ hw, hstands₂⟩
    · rw [hl.keeps.exits] at hleft
      exact Or.inr fun last hlast q post => (hleft last hlast q post).prepend hrun₁
        (hun₁.mono le_rfl (hr.keeps.temps.trans hlast)) hl.keeps.temps le_rfl
  · exact Or.inr fun last hlast q post => hleft last (hr.keeps.temps.trans hlast) q post

lemma Follows.turn {a : Lowered} (h : Follows layout link names slots x s a t)
    (hsite : Site layout names slots s t all p a.code) {exit : Label} {outer : List (Option Label)}
    (hinside : s.exits = some exit :: outer) {target : Nat} (htarget : find? all exit = some target)
    (hagree : layout.Agrees cells store) {next : Behavior} (hb : x.turn next cells = some ending) :
    (∃ middle after, next middle = some ending ∧ Runs link all p store (p + a.code.length) after ∧
      layout.Agrees middle after ∧ layout.Untouched s.supply.temps t.supply.temps store after) ∨
    (∃ left after, ending = .done none left ∧ Runs link all p store target after ∧ layout.Agrees left after ∧
      layout.Untouched s.supply.temps t.supply.temps store after) ∨
    ∀ exits first last q post, Ends layout link all exits first last p store q post ending := by
  rcases Behavior.turn_eq_some hb with ⟨value, middle, hx, hnext⟩ | ⟨left, hx, rfl⟩ | ⟨request, hx, rfl⟩
  · obtain ⟨after, hrun, hagree', hun, -⟩ := h hsite hagree hx
    exact Or.inl ⟨middle, after, hnext, hrun, hagree', hun⟩
  · obtain ⟨found, _, hexits, hbroken⟩ := h hsite hagree hx
    obtain ⟨rfl, -⟩ : exit = found ∧ outer = _ := by simpa using hinside.symm.trans hexits
    obtain ⟨after, hrun, hagree', hun⟩ := hbroken target htarget
    exact Or.inr (Or.inl ⟨left, after, rfl, hrun, hagree', hun⟩)
  · exact Or.inr (Or.inr fun _ _ _ _ _ => h hsite hagree hx)

end Analysis

end TigerMips
