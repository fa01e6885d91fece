import Mathlib
import TigerMips.Proofs.Analysis.Counting
import TigerMips.Proofs.Analysis.Places
import TigerMips.Proofs.Analysis.RecordTypes
import TigerMips.Proofs.Tac.Construction

/-! Records are created and used with one layout, in each program without errors. The literal of a record stores its
values four bytes apart, and a field is found at as many bytes as it is behind the start of its record. -/

namespace TigerMips

open Analysis Memory

lemma Tac.mem_temps_of_destination? {tac : Tac} {t : Temp} (h : tac.destination? = some (.temp t)) : t ∈ tac.temps := by
  cases tac <;> simp_all [destination?, temps, Access.temps]

namespace Visit

def storage (visit : Visit) : List Storage := visit.collected Storage.collector

def Draws (visit : Visit) (n : Nat) : Prop := visit.state.supply.temps ≤ n ∧ n < visit.after.supply.temps

structure Spread (sites : List Storage) (visits : List Visit) (s t : Analyzer) : Prop where
  grows : s.Grows t
  within : ∀ site ∈ sites, s.supply.temps ≤ site.temp.number ∧ site.temp.number < t.supply.temps
  nested : ∀ visit ∈ visits, s.Grows visit.state ∧ visit.after.Grows t
  own : ∀ visit ∈ visits, ∀ site ∈ sites, visit.Draws site.temp.number → site ∈ visit.storage

namespace Spread

variable {sites others : List Storage} {visits rest : List Visit} {s t u : Analyzer}

lemma sites_only (h : s.Grows t)
    (hs : ∀ site ∈ sites, s.supply.temps ≤ site.temp.number ∧ site.temp.number < t.supply.temps) :
    Spread sites [] s t := ⟨h, hs, by simp, by simp⟩

lemma nil (h : s.Grows t) : Spread [] [] s t := sites_only h (by simp)

lemma append (h : Spread sites visits s t) (h' : Spread others rest t u) :
    Spread (sites ++ others) (visits ++ rest) s u := by
  have hle := h.grows.temps
  have hle' := h'.grows.temps
  refine ⟨h.grows.trans h'.grows, fun site hm => ?_, fun visit hm => ?_, fun visit hv site hs hn => ?_⟩
  · rcases List.mem_append.mp hm with hm | hm
    · have := h.within site hm
      omega
    · have := h'.within site hm
      omega
  · rcases List.mem_append.mp hm with hm | hm
    · exact (h.nested visit hm).imp_right fun hg => hg.trans h'.grows
    · exact (h'.nested visit hm).imp_left h.grows.trans
  · obtain ⟨hn₁, hn₂⟩ := hn
    rcases List.mem_append.mp hv with hv | hv <;> rcases List.mem_append.mp hs with hs | hs
    · exact h.own visit hv site hs ⟨hn₁, hn₂⟩
    · have := (h.nested visit hv).2.temps
      have := h'.within site hs
      omega
    · have := (h'.nested visit hv).1.temps
      have := h.within site hs
      omega
    · exact h'.own visit hv site hs ⟨hn₁, hn₂⟩

lemma before (hg : s.Grows t) (h : Spread sites visits t u) : Spread sites visits s u := (nil hg).append h

lemma after (h : Spread sites visits s t) (hg : t.Grows u) : Spread sites visits s u := by
  simpa using h.append (nil hg)

lemma subset (h : Spread others visits s t) (hs : sites ⊆ others) : Spread sites visits s t :=
  { h with within := fun site hm => h.within site (hs hm), own := fun visit hv site hm => h.own visit hv site (hs hm) }

lemma single (frame : FrameId) (name : String) (h : s.withTemp.Grows t) :
    Spread [⟨frame, name, ⟨s.supply.temps⟩⟩] [] s t :=
  sites_only ((Analyzer.Keeps.withTemp s).toGrows.trans h) (by simpa using h.temps)

end Spread

def init (visit : Visit) : List Code × Access := (visit.lowered.code, visit.lowered.place.getD (.int 0))

end Visit

structure Construction.Inits (target : Temp) (index : Nat) (declared : List (String × Ty))
    (fields : List (Ident × Expr)) (s : Analyzer) (codes : List Code) : Prop where
  names : fields.map (·.1.name) = declared.map Prod.fst
  places : ∀ part ∈ Visit.inOrder (fields.map Prod.snd) s, ∃ place, part.lowered.place = some place
  code : ∀ record : Construction, record.frame = s.currentFrame → record.target = target →
    codes = record.stores index ((Visit.inOrder (fields.map Prod.snd) s).map Visit.init)

namespace Visit

open Analyzer

variable {s t : Analyzer}

lemma spread_self {e : Expr} {a : Lowered}
    (h : Faultless Keeps (lowerExpr e) (fun s _ t => Spread (e.storage s) (Visit.mk e s).parts s t) s a t) :
    Spread (e.storage s) [⟨e, s⟩] s t where
  grows := h.holds.grows
  within := h.holds.within
  nested visit hm := by
    obtain rfl := List.mem_singleton.mp hm
    rw [after, h.run]
    exact ⟨.refl s, .refl t⟩
  own visit hm site hs _ := by
    obtain rfl := List.mem_singleton.mp hm
    exact hs

lemma runCases_spread :
    RunCases (fun e s _ t => Spread (e.storage s) (Visit.mk e s).parts s t)
      (fun es s _ t => Spread (Storage.collector.sequence es s) (inOrder es s) s t)
      (fun assigning l s _ t => Spread (Storage.collector.lvalue assigning l s) (l.parts assigning s) s t)
      (fun _ es s _ t => Spread (Storage.collector.sequence es s) (inOrder es s) s t)
      (fun target index declared fields s codes t =>
        Spread (Storage.collector.inits fields s) (inOrder (fields.map Prod.snd) s) s t ∧
          Construction.Inits target index declared fields s codes)
      (fun groups s _ t => Spread (Storage.collector.groups groups s) (declarations groups s) s t)
      (fun group s _ t => Spread (Storage.collector.group group s) (group.parts s) s t)
      (fun members declared s _ t => ∃ sites,
        Storage.collector.bodies members declared s ⊆ declared.flatMap Declared.storage ++ sites ∧
        Spread sites (bodies members declared s) s t) where
  int _ := .nil (.refl _)
  string _ hintern := .nil ((keeps.internString _).apply hintern).toGrows
  nil _ := .nil (.refl _)
  lvalue h := h.holds
  assign hl hv _ _ _ _ := by
    simp only [Collector.expr, parts, hl.run]
    exact hl.holds.append (spread_self hv)
  operation s₂ := fun hl hr _ _ _ _ hk => by
    simp only [Collector.expr, parts, inOrder, hl.run]
    exact (spread_self hl).append ((spread_self hr).after ((Keeps.withTemp s₂).trans hk).toGrows)
  negate s₁ := fun ho _ _ => (spread_self ho).after (Keeps.withTemp s₁).toGrows
  variablePlace _ _ _ hnote := .nil ((keeps.noteUse _).apply hnote).toGrows
  field s₁ _ := fun hb _ _ _ _ hk => hb.holds.after ((Keeps.withTemp s₁).trans hk).toGrows
  subscript _ _ s₃ _ := fun hb _ hi _ _ _ _ _ hk => by
    simp only [Collector.lvalue, LValue.parts, hb.run]
    exact hb.holds.append ((spread_self hi).after (hk.trans (Keeps.withTemp s₃)).toGrows)
  breakLoop _ _ := .nil (.refl _)
  ifThen s₂ := fun hc hp _ => by
    simp only [Collector.expr, parts, inOrder, hc.run]
    exact (spread_self hc).append ((spread_self hp).after (Keeps.withLabel s₂).toGrows)
  ifThenElse _ s₄ _ := fun hc hp hn _ _ _ hk _ => by
    simp only [Collector.expr, parts, inOrder, hc.run, hp.run]
    have hlabels := hk.trans ((Keeps.withLabel s₄).trans (Keeps.withLabel _))
    exact ((spread_self hc).append (spread_self hp)).append ((spread_self hn).after hlabels.toGrows)
  whileLoop s s₁ s₂ := fun _ hc hb _ _ => by
    simp only [Collector.expr, parts, hc.run]
    have hinside : s₁.Grows (s₁.insideLoop ⟨s.supply.labels + 1⟩) := { Grows.refl s₁ with }
    have hbehind : s₂.Grows { s₂ with exits := s₂.exits.tail } := { Grows.refl s₂ with }
    have hlabels := (Keeps.withLabel s).trans (Keeps.withLabel _)
    exact (((spread_self hc).append ((spread_self hb).before hinside)).after hbehind).before hlabels.toGrows
  forLoop _ s₂ s₃ := fun {_ _ _ _ _ _ _ counter _ _ _} hf hl hb _ _ _ => by
    simp only [Collector.expr, parts, inOrder, hf.run, hl.run]
    have hinside : s₂.withTemp.Grows (s₂.insideFor counter.name) :=
      { (Keeps.withLabel s₂.withTemp).toGrows with }
    have hbehind : s₃.Grows s₃.leaveFor.withTemp.withLabel :=
      { ((Keeps.withTemp s₃.leaveFor).trans (Keeps.withLabel _)).toGrows with }
    exact ((spread_self hf).append (spread_self hl)).append
      ((Spread.single _ _ hinside).append ((spread_self hb).after hbehind))
  sequence h := h.holds
  emptySequence _ := .nil (.refl _)
  single h := by simpa [Collector.sequence, inOrder] using spread_self h
  longer hf hr := by
    simp only [Collector.sequence.eq_2, inOrder, hf.run]
    exact (spread_self hf).append hr.holds
  array s₂ := fun _ _ hs hi _ _ _ => by
    simp only [Collector.expr, parts, inOrder, hs.run]
    have hdrawn := (Keeps.withTemp s₂).trans ((Keeps.withTemp _).trans ((Keeps.withTemp _).trans
      ((keeps.useRuntime Runtime.malloc.name _).trans ((Keeps.withLabel _).trans (Keeps.withLabel _)))))
    exact (spread_self hs).append ((spread_self hi).after hdrawn.toGrows)
  record s _ := fun _ _ _ hf => hf.holds.1.before (Keeps.asking s).toGrows
  call _ _ _ _ _ := fun _ ha hcall hedge _ _ _ _ _ hk₄ hk => ha.holds.after
    (((keeps.noteCall _).apply hcall).trans (((keeps.noteEdge _).apply hedge).trans (hk₄.trans hk))).toGrows
  noArguments _ := .nil (.refl _)
  argument hv _ hr := by
    simp only [Collector.sequence, inOrder, hv.run]
    exact (spread_self hv).append hr.holds
  noFields _ := ⟨.nil (.refl _), rfl, by simp [inOrder], fun _ _ _ => rfl⟩
  fields target index s₁ place := fun hv _ hplace hr => by
    obtain ⟨hspread, hinits⟩ := hr.holds
    have hframe := hv.keeps.currentFrame
    simp only [Collector.inits, List.map_cons, inOrder, hv.run]
    refine ⟨(spread_self hv).append hspread, congrArg _ hinits.names, ?_, fun record hf ht => ?_⟩
    · simpa only [List.map_cons, inOrder, hv.run, List.forall_mem_cons] using
        And.intro ⟨place, by simp [lowered, hv.run, hplace]⟩ hinits.places
    · rw [hinits.code record (hf.trans hframe.symm) ht]
      simp [inOrder, Construction.stores, Construction.storing, init, lowered, hv.run, hplace, hf, ht, hframe]
  letIn s _ s₂ := fun _ hd hb => by
    simp only [Collector.expr, parts, hd.run]
    have hinside : s.Grows s.insideLet := { Grows.refl s with }
    exact ((hd.holds.append hb.holds).before hinside).after { Grows.refl s₂ with }
  noGroups _ := .nil (.refl _)
  groups _ := fun hg hr => by
    simp only [Collector.groups, declarations, hg.run]
    exact hg.holds.append hr.holds
  var s₁ := fun hv _ _ => by
    simp only [Collector.group, Group.parts, hv.run]
    exact (spread_self hv).append (Spread.single _ _ { Grows.refl s₁.withTemp with })
  types s htypes := .nil ((declares_typeGroup _).apply htypes).toGrows
  functions s₁ declared _ s₃ := fun _ hdeclared _ hb _ hk => by
    obtain ⟨-, -, -, hopens⟩ := opens_declareFunctions usage_flat hdeclared trivial
    obtain ⟨hfresh, -⟩ := uses_declareFunctions hdeclared
    obtain ⟨sites, hsites, hspread⟩ := hb.holds
    have hparams : Spread (declared.flatMap Declared.storage) [] _ s₁ :=
      .sites_only ((declares_declareFunctions _ _).apply hdeclared).toGrows fun site hm => by
        obtain ⟨d, hd, hsite⟩ := List.mem_flatMap.mp hm
        obtain ⟨pair, hpair, rfl⟩ := List.mem_map.mp hsite
        have hformal := (List.of_mem_zip hpair).2
        exact ⟨hfresh d hd _ ⟨_, List.mem_append_left _ hformal, rfl⟩, ((hopens d hd).formals _ hformal).2⟩
    simp only [Collector.group, Group.parts, hdeclared]
    exact ((hparams.append hspread).subset hsites).after (hk.trans (Keeps.withLabel s₃)).toGrows
  noBodies _ := ⟨[], List.nil_subset _, .nil (.refl _)⟩
  bodies s declared s₁ t := fun {_ _ _ _ _ body _ _} _ _ hb hfits _ hr => by
    obtain ⟨sites, hsites, hspread⟩ := hr.holds
    simp only [Collector.bodies, bodies, functionBody_state hb.run hfits]
    have hinside : s.Grows (enterFunction declared s).2 := { Grows.refl s with }
    have hbehind : s₁.Grows (leaveFunction s.currentFrame s₁).2 := { Grows.refl s₁ with }
    refine ⟨body.storage (enterFunction declared s).2 ++ sites, fun site hm => ?_,
      (((spread_self hb).before hinside).after hbehind).append hspread⟩
    have := @hsites site
    simp only [List.mem_append, List.flatMap_cons] at hm this ⊢
    tauto

lemma Clean.spread {visit : Visit} (h : visit.Clean) :
    Spread visit.storage visit.parts visit.state visit.after :=
  (runCases_spread.lowerExpr visit.expression rfl h.sound h.errors).holds

lemma storage_at? {visit part : Visit} {path : Path} (h : visit.Clean) (hp : visit.at? path = some part) :
    visit.state.Grows part.state ∧ part.after.Grows visit.after ∧
      ∀ site ∈ visit.storage, part.Draws site.temp.number → site ∈ part.storage := by
  induction path generalizing visit with
  | nil =>
    obtain rfl := Option.some.inj hp
    exact ⟨.refl _, .refl _, fun _ hm _ => hm⟩
  | cons i rest ih =>
    obtain ⟨next, hnext, hp⟩ := Option.bind_eq_some_iff.mp hp
    have hm := List.mem_of_getElem? hnext
    obtain ⟨hbefore, hafter, hsites⟩ := ih (h.parts next hm).1 hp
    obtain ⟨hstart, hend⟩ := h.spread.nested next hm
    refine ⟨hstart.trans hbefore, hafter.trans hend, fun site hsite hn =>
      hsites site (h.spread.own next hm site hsite ?_) hn⟩
    exact ⟨hbefore.temps.trans hn.1, hn.2.trans_le hafter.temps⟩

lemma keeps_inOrder (expressions : List Expr) (s : Analyzer) : ∀ part ∈ inOrder expressions s, s.Keeps part.state := by
  induction expressions generalizing s with
  | nil => simp [inOrder]
  | cons first rest ih =>
    have hfirst := (lowers_lowerExpr first).keeps s
    exact List.forall_mem_cons.mpr ⟨.refl s, fun part hm => hfirst.trans (ih _ part hm)⟩

end Visit

namespace Construction

open Analyzer

def lowered (inits : List (Ident × Expr)) (s : Analyzer) : Construction where
  frame := s.currentFrame
  bytes := ⟨s.supply.temps + 1⟩
  target := ⟨s.supply.temps⟩
  inits := (Visit.inOrder (inits.map Prod.snd) (s.withTemp.withTemp.usingRuntime Runtime.malloc.name)).map Visit.init

structure Lowers (fields : List (String × Ty)) (given : List (Ident × Expr)) (literal : Visit) (record : Construction) :
    Prop where
  names : given.map (·.1.name) = fields.map Prod.fst
  length : record.inits.length = fields.length
  inits : ∀ (i : Nat) (part : Visit), literal.parts[i]? = some part →
    ∃ place, part.lowered.place = some place ∧ record.inits[i]? = some (part.lowered.code, place)
  code : literal.lowered.code = record.code
  place : literal.lowered.place = some (.temp record.target)

variable {span : Span} {name : Ident} {inits : List (Ident × Expr)} {s : Analyzer}

lemma lowers (h : Visit.Clean ⟨.record span name inits, s⟩) :
    ∃ ty identity fields, s.types.get? name.name = some ty ∧ s.typeTable.actual ty = .record identity fields ∧
      (lowered inits s).Lowers fields inits ⟨.record span name inits, s⟩ ∧
      Visit.Draws ⟨.record span name inits, s⟩ s.supply.temps ∧
      ∀ site ∈ Visit.storage ⟨.record span name inits, s⟩, site.temp ≠ ⟨s.supply.temps⟩ := by
  obtain ⟨hs, hd, ht⟩ := h
  obtain ⟨⟨a, t⟩, hm⟩ : ∃ r, lowerExpr (.record span name inits) s = r := ⟨_, rfl⟩
  simp only [Visit.after, hm] at ht
  obtain ⟨ty, identity, fields, allocation, s₁, stores, hty, hactual, halloc, he₁, hstores, hgiven, rfl⟩ :=
    recordCreation_clean (fun target declared => (compositional_lowers.lowerFields target 0 declared inits).1)
      (compositional_lowers.checkFields inits).1 hm ht
  have hsolid := TypeTable.isSolid_actual hs.table
    (Ty.isSolid_of_isPlain (hs.types _ _ (ScopeStack.binds_of_get? hty)))
  rw [hactual] at hsolid
  have hs₁ := ((ensures_allocateRecord _ _).apply halloc hs.withTemp).1
  obtain ⟨hspread, hinits⟩ := (Visit.runCases_spread.lowerFields _ 0 fields inits hstores hs₁ ht hsolid hgiven).holds
  obtain ⟨-, r₁⟩ := unlessError_clean halloc he₁
  obtain ⟨rfl, rfl⟩ := Prod.mk.inj r₁
  have hlength : (lowered inits s).inits.length = fields.length := by
    have := congrArg List.length
      (Visit.map_inOrder (inits.map Prod.snd) (s.withTemp.withTemp.usingRuntime Runtime.malloc.name))
    simpa [lowered, hgiven] using this
  refine ⟨ty, identity, fields, hty, hactual, ⟨hinits.names, hlength, fun i part hpart => ?_, ?_, ?_⟩, ⟨le_rfl, ?_⟩,
    fun site hm hc => ?_⟩
  · obtain ⟨place, hplace⟩ := hinits.places part (List.mem_of_getElem? hpart)
    refine ⟨place, hplace, ?_⟩
    rw [lowered, List.getElem?_map, show (Visit.inOrder _ _)[i]? = some part from hpart]
    simp [Visit.init, hplace]
  · rw [Visit.lowered, hm, code, hlength, hinits.code (lowered inits s) rfl rfl]
    rfl
  · rw [Visit.lowered, hm]
    rfl
  · rw [Visit.after, hm]
    exact (Nat.lt_add_of_pos_right Nat.two_pos).trans_le hspread.grows.temps
  · have hlow : s.supply.temps + 2 ≤ site.temp.number := (hspread.within site hm).1
    rw [hc] at hlow
    exact absurd hlow (by simp)

lemma writers_init (h : Visit.Clean ⟨.record span name inits, s⟩) {part : Visit}
    (hm : part ∈ Visit.parts ⟨.record span name inits, s⟩) : Code.writers part.lowered.code ⟨s.supply.temps⟩ = 0 := by
  have hclean := (h.parts part hm).1
  have hkept := Visit.keeps_inOrder _ _ part hm
  obtain ⟨hguards, -⟩ := guarding_lowerExpr part.expression rfl hclean.sound hclean.drawn hclean.errors
  by_contra hne
  obtain ⟨-, hw | hle⟩ := hguards.written _ (Nat.pos_of_ne_zero hne)
  · rw [((Keeps.asking s).trans hkept).writable] at hw
    exact Nat.lt_irrefl _ (h.drawn.lt hw)
  · have htemps : s.supply.temps + 2 ≤ part.state.supply.temps := hkept.temps
    exact absurd (htemps.trans hle) (by simp)

lemma stands {expression : Expr} {path : Path} {p : Nat} (h : (analyze expression).1 = [])
    (hp : (Visit.start expression).at? path = some ⟨.record span name inits, s⟩)
    (hplaced : List.At (analyze expression).2.codes p (lowered inits s).code) :
    (lowered inits s).Stands (analyze expression).2 p := by
  have hclean := (Visit.placed_start h hp).1
  obtain ⟨-, -, -, -, -, -, hdraws, hown⟩ := lowers hclean
  have hvariable : ∀ site ∈ expression.storage Analyzer.initial, site.temp ≠ ⟨s.supply.temps⟩ := fun site hm hc =>
    hown site ((Visit.storage_at? (Visit.clean_start h) hp).2.2 site hm (hc ▸ hdraws)) hc
  -- The target is not the temp of a variable. So it is a local of each function that mentions it.
  have hstores : ∀ op ∈ Code.ops (analyze expression).2.codes, ⟨s.supply.temps⟩ ∈ op.2.temps →
      Frame.Stores (analyze expression).2.frames op.1 ⟨s.supply.temps⟩ := fun op hop ht => by
    rcases reaches_analyze h hop ht with hs | ⟨_, _, -, -, hm, -⟩
    · exact hs
    · exact absurd rfl (hvariable _ hm)
  obtain ⟨-, hask, -⟩ := by simpa only [code, List.cons_append, List.at_cons] using hplaced
  obtain ⟨f, hf, hlocal⟩ := hstores _ (List.mem_filterMap.mpr ⟨_, List.mem_of_getElem? hask, rfl⟩)
    (by simp [Tac.temps, lowered, Access.temps])
  refine ⟨hplaced, fun i init hi => ⟨Tac.Program.locals_eq hf ▸ hlocal, fun q code op hc ho hw => ⟨?_, ?_⟩⟩⟩
  · obtain ⟨g, hg, hlocal'⟩ := hstores op (List.mem_filterMap.mpr ⟨code, List.mem_of_getElem? hc, ho⟩)
      (Tac.mem_temps_of_destination? hw)
    by_contra hne
    exact (invariant_apart.analyze apart_initial expression).disjoint hg hf hne hlocal' hlocal
  · rintro ⟨hle, hlt⟩
    obtain ⟨k, rfl⟩ := Nat.exists_eq_add_of_le hle
    obtain ⟨part, hpart, rfl⟩ := Option.map_eq_some_iff.mp (List.getElem?_map .. ▸ hi)
    have hinit := (List.at_append.mp (at_init hplaced hi)).1
    rw [hinit.getElem?_eq (by simpa using hlt)] at hc
    exact Code.writers_ne_zero hc ho hw (writers_init hclean (List.mem_of_getElem? hpart))

end Construction

def Ty.fields : Ty → List (String × Ty)
  | record _ fields => fields
  | _ => []

lemma Ty.idxOf?_of_field? {fields : List (String × Ty)} {name : String} {i : Nat} {ty : Ty}
    (h : field? fields name = some (i, ty)) : (fields.map Prod.fst).idxOf? name = some i := by
  obtain ⟨⟨⟨found, _⟩, _⟩, hfind, he⟩ := Option.map_eq_some_iff.mp h
  obtain ⟨rfl, rfl⟩ := Prod.mk.inj he
  obtain ⟨hname, k, hk, hget, hbefore⟩ := List.find?_eq_some_iff_getElem.mp hfind
  simp only [List.getElem_zipIdx, Nat.zero_add, Prod.mk.injEq, decide_eq_true_eq] at hget hname hbefore
  obtain ⟨hget, rfl⟩ := hget
  rw [List.length_zipIdx] at hk
  refine List.findIdx?_eq_some_iff_getElem.mpr ⟨by simpa using hk, by simp [hget, hname], fun j hj => ?_⟩
  simpa using hbefore j hj

def LValue.chain : LValue → List LValue
  | .var span name => [.var span name]
  | .field span base name => .field span base name :: base.chain
  | .subscript span base index => .subscript span base index :: base.chain

lemma LValue.self_mem_chain (place : LValue) : place ∈ place.chain := by cases place <;> exact List.mem_cons_self

lemma LValue.mem_chain_of_field {place base : LValue} {span : Span} {name : Ident}
    (h : .field span base name ∈ place.chain) : base ∈ place.chain := by
  fun_induction LValue.chain place with
  | case1 => simp at h
  | case2 span' inner name' ih =>
    rcases List.mem_cons.mp h with he | h
    · obtain ⟨-, rfl, -⟩ := LValue.field.inj he
      exact List.mem_cons_of_mem _ base.self_mem_chain
    · exact List.mem_cons_of_mem _ (ih h)
  | case3 span' inner index ih =>
    rcases List.mem_cons.mp h with he | h
    · cases he
    · exact List.mem_cons_of_mem _ (ih h)

def Expr.location? : Expr → Option (Bool × LValue)
  | .lvalue _ place => some (false, place)
  | .assign _ place _ => some (true, place)
  | _ => none

/-- Behind the code of a record, the code of a field finds the field as many bytes behind the start of the record as it
has fields before it, four bytes each. It changes neither the memory nor a temp that the record may be read from. -/
def Tac.Program.AddressesAt (program : Tac.Program) (record : Lowered × Analyzer) (field : Lowered)
    (i p : Nat) : Prop :=
  ∃ place base offset, record.1.place = some place ∧ field.place = some (.memory base offset) ∧
    ∀ (link : Linkage) (host : Host) (start : State), start.position = p + record.1.code.length →
      ∃ final, Relation.ReflTransGen (fun x y => program.advance? link host x = some y) start final ∧
        final.position = p + field.code.length ∧ final.calls = start.calls ∧
        final.store.memory = start.store.memory ∧
        (∀ t, t.number < record.2.supply.temps → final.store.temps t = start.store.temps t) ∧
        base.value link final.store + offset.value link final.store = place.value link start.store + .ofNat (4 * i)

namespace Analysis

variable {s t : Analyzer} {a : Lowered} {assigning : Bool} {place : LValue}

lemma lowerLValue_chain {member : LValue} (hmember : member ∈ place.chain) (hm : lowerLValue assigning place s = (a, t))
    (hs : s.Sound) (ht : t.errors = []) :
    (lowerLValue assigning member s).2.errors = [] ∧ (lowerLValue assigning member s).1.code <+: a.code ∧
      (lowerLValue assigning member s).2.typeTable.bindings.items <+: t.typeTable.bindings.items := by
  fun_induction LValue.chain place generalizing a t with
  | case1 span name =>
    obtain rfl := List.mem_singleton.mp hmember
    rw [hm]
    exact ⟨ht, List.prefix_rfl, List.prefix_rfl⟩
  | case2 span base name ih =>
    rcases List.mem_cons.mp hmember with rfl | hmember
    · rw [hm]
      exact ⟨ht, List.prefix_rfl, List.prefix_rfl⟩
    · obtain ⟨record, s₁, _, _, _, _, _, _, _, hb, he₁, -, -, -, hload, rfl⟩ :=
        fieldPlace_clean (locates_lowerLValue assigning base) hm hs ht
      obtain ⟨he, hcode, hbound⟩ := ih hmember hb he₁
      have hkept := (Analyzer.Keeps.withTemp s₁).trans ((within_toSimple keeps _).apply hload)
      exact ⟨he, hcode.trans (List.prefix_append _ _), hbound.trans hkept.bindings⟩
  | case3 span base index ih =>
    rcases List.mem_cons.mp hmember with rfl | hmember
    · rw [hm]
      exact ⟨ht, List.prefix_rfl, List.prefix_rfl⟩
    · obtain ⟨array, s₁, _, _, _, s₂, _, _, _, _, s₃, hb, he₁, -, hindex, -, -, -, -, hload, rfl, rfl⟩ :=
        elementPlace_clean (locates_lowerLValue assigning base) (lowers_lowerExpr index) hm hs ht
      obtain ⟨he, hcode, hbound⟩ := ih hmember hb he₁
      have hkept := ((lowers_lowerExpr index).keeps.apply hindex).trans
        (((within_toSimple keeps _).apply hload).trans (Analyzer.Keeps.withTemp s₃))
      refine ⟨he, hcode.trans ?_, hbound.trans hkept.bindings⟩
      simp only [List.append_assoc]
      exact List.prefix_append _ _

lemma lowerLValue_location {e : Expr} (h : Visit.Clean ⟨e, s⟩) (hl : e.location? = some (assigning, place)) :
    (lowerLValue assigning place s).2.errors = [] ∧
      (lowerLValue assigning place s).1.code <+: (Visit.lowered ⟨e, s⟩).code ∧
      (lowerLValue assigning place s).2.typeTable.bindings.items <+:
        (Visit.after ⟨e, s⟩).typeTable.bindings.items := by
  obtain ⟨hs, -, ht⟩ := h
  cases e with
  | lvalue span location =>
    obtain ⟨rfl, rfl⟩ := Prod.mk.inj (Option.some.inj hl)
    exact ⟨ht, List.prefix_rfl, List.prefix_rfl⟩
  | assign span location value =>
    obtain ⟨rfl, rfl⟩ := Prod.mk.inj (Option.some.inj hl)
    obtain ⟨⟨a, t⟩, hm⟩ : ∃ r, lowerExpr (.assign span location value) s = r := ⟨_, rfl⟩
    simp only [Visit.after, hm] at ht
    obtain ⟨target, s₁, _, _, _, htarget, he₁, hvalue, -, -, -, -, rfl⟩ :=
      assignment_clean (locates_lowerLValue true location) (lowers_lowerExpr value) hm hs ht
    change lowerLValue true location s = (target, s₁) at htarget
    rw [htarget, Visit.lowered, Visit.after, hm]
    refine ⟨he₁, ?_, ((lowers_lowerExpr value).keeps.apply hvalue).bindings⟩
    simp only [List.append_assoc]
    exact List.prefix_append _ _
  | _ => cases hl

variable {program : Tac.Program} {span : Span} {base : LValue} {name : Ident} {p : Nat}

lemma addressesAt (hs : s.Sound) (hd : s.Drawn)
    (ht : (lowerLValue assigning (.field span base name) s).2.errors = [])
    (hp : List.At program.codes p (lowerLValue assigning (.field span base name) s).1.code) : ∃ identity fields i,
      (lowerLValue assigning base s).2.typeTable.actual (lowerLValue assigning base s).1.ty = .record identity fields ∧
      (fields.map Prod.fst).idxOf? name.name = some i ∧ program.AddressesAt (lowerLValue assigning base s)
        (lowerLValue assigning (.field span base name) s).1 i p := by
  obtain ⟨⟨a, t⟩, hm⟩ : ∃ r, lowerLValue assigning (.field span base name) s = r := ⟨_, rfl⟩
  rw [hm] at ht hp ⊢
  obtain ⟨record, s₁, identity, fields, i, ty, place, simple, load, hb, he₁, hactual, hfield, hplace, hload, rfl⟩ :=
    fieldPlace_clean (locates_lowerLValue assigning base) hm hs ht
  have hbelow : Temp.Below s₁.supply.temps place.temps :=
    (((runCases_traces usage_drawn).lowerLValue assigning base hb hs he₁).holds.apply hplace hd fun _ _ => trivial).2
  rw [hb]
  refine ⟨identity, fields, i, hactual, Ty.idxOf?_of_field? hfield, place, simple, _, hplace, rfl,
    fun link host start hstart => ?_⟩
  obtain ⟨-, hmul, hrest⟩ := by simpa only [List.at_append, List.at_cons] using hp
  have hoffset : (Access.int (.ofNat i)).value link start.store * Access.word.value link start.store =
      .ofNat (4 * i) := by
    rw [Nat.mul_comm, Int32.ofNat_mul]
    rfl
  let found : Tac.State := { start with
    position := p + record.code.length + 1
    store := start.store.put ⟨s₁.supply.temps⟩ (.ofNat (4 * i)) }
  have hfound : program.advance? link host start = some found := by
    rw [Tac.Program.advance?_next (hstart ▸ hmul) rfl (by simp only [Tac.exec?, BinaryOp.eval?, hoffset]; rfl), hstart]
  have hread : place.value link found.store = place.value link start.store :=
    Access.value_put (fun hc => Nat.lt_irrefl _ (hbelow _ hc)) _
  have hkept : ∀ t : Temp, t.number < s₁.supply.temps → found.store.temps t = start.store.temps t := fun t hlt => by
    have hne : t ≠ ⟨s₁.supply.temps⟩ := fun hc => Nat.lt_irrefl _ (hc ▸ hlt)
    simp [found, Store.put, hne]
  rcases toSimple_eq hload with ⟨rfl, rfl, -⟩ | ⟨rfl, rfl, -⟩
  · refine ⟨found, .single hfound, by simp [found, Nat.add_assoc], rfl, rfl, hkept, ?_⟩
    rw [hread]
    simp [found, Access.value, Store.put]
  · -- A record that is read from memory is read into a temp first.
    have hloaded : program.advance? link host found = some _ :=
      Tac.Program.advance?_move (List.at_cons.mp hrest).1 rfl
    refine ⟨_, Relation.ReflTransGen.head hfound (.single hloaded), by simp [found, Nat.add_assoc], rfl, rfl,
      fun t hlt => ?_, ?_⟩
    · have hne : t ≠ ⟨s₁.supply.temps + 1⟩ := fun hc => absurd (hc ▸ hlt) (by simp)
      rw [← hkept t hlt]
      simp [Store.put, hne]
    · rw [hread]
      simp [found, Access.value, Store.put]

end Analysis

/-- Where a record is created, a block of four bytes for each field is asked for. Then the initial values are stored in
it, each in the word of its field. The words do not overlap, and they lie inside of the block. -/
structure Tac.Program.BuildsAt (program : Tac.Program) (record : Construction) (p : Nat) : Prop where
  placed : List.At program.codes p record.code
  size : (Int32.ofNat (4 * record.inits.length)).toInt = 4 * record.inits.length
  asks : ∀ (link : Linkage) (host : Host) (state : State) (granted : Memory) (address : Word), state.position = p →
    host state.events Runtime.malloc.name [.ofNat (4 * record.inits.length)] state.store.memory =
    some (granted, address) →
    ∃ asked given, program.advance? link host state = some asked ∧ program.advance? link host asked = some given ∧
      given.position = p + 2 ∧ given.calls = state.calls ∧ given.store.memory = granted ∧
      given.store.temps record.target = address ∧
      ∀ t, t ≠ record.bytes → t ≠ record.target → given.store.temps t = state.store.temps t
  builds : ∀ (link : Linkage) (host : Host) (given : State), given.position = p + 2 →
    record.InitsEnd program link host p given →
    ∃ final, record.Stored program link host p (given.store.temps record.target) given record.inits.length final ∧
      final.position = p + record.code.length ∧ final.calls = given.calls ∧
      final.store.temps record.target = given.store.temps record.target
  apart : ∀ (address : Word) (i j : Nat), i < j → j < record.inits.length →
    Disjoint (block (address + .ofNat (4 * i)) 4) (block (address + .ofNat (4 * j)) 4)
  inside : ∀ (address : Word) (i : Nat), i < record.inits.length →
    block (address + .ofNat (4 * i)) 4 ⊆ block address (4 * record.inits.length)

lemma Construction.Stands.buildsAt {program : Tac.Program} {record : Construction} {p : Nat}
    (h : record.Stands program p)
    (hl : program.Connected) (hn : record.inits.length < 2 ^ 29) : program.BuildsAt record p where
  placed := h.placed
  size := Filling.toInt_ofNat_four_mul hn
  asks _ _ _ _ _ hp hhost := h.allocates hp hhost
  builds _ _ _ hp hends := by
    obtain ⟨final, hstored, hrest⟩ := h.exists_stored hl hends le_rfl
    exact ⟨final, hstored, (hstored.position hp).trans start_length, hrest⟩
  apart address i j hij hj := disjoint_block address (by omega) (by omega)
  inside _ i hi := block_subset (by omega)

/-- The records of a program without errors have one layout for each record type. A literal stores its values in the
order of the fields. A field of a record is found where the literals of the same type store the first field with its
name. -/
theorem recordLayout_analyze (expression : Expr) (h : (analyze expression).1 = []) :
    ∃ layout : Nat → List (String × Ty),
      (∀ (path : Path) (span : Span) (name : Ident) (given : List (Ident × Expr)),
        expression.at? path = some (.record span name given) →
        ∃ s ty identity, (Visit.start expression).at? path = some ⟨.record span name given, s⟩ ∧
          s.types.get? name.name = some ty ∧ s.typeTable.actual ty = .record identity (layout identity) ∧
          (Construction.lowered given s).Lowers (layout identity) given ⟨.record span name given, s⟩ ∧
          ((layout identity).length < 2 ^ 29 → ∃ p, (analyze expression).2.BuildsAt (Construction.lowered given s) p)) ∧
      ∀ (path : Path) (e : Expr) (assigning : Bool) (place : LValue) (span : Span) (base : LValue) (name : Ident),
        expression.at? path = some e → e.location? = some (assigning, place) → .field span base name ∈ place.chain →
        ∃ s p identity i, (Visit.start expression).at? path = some ⟨e, s⟩ ∧
          (lowerLValue assigning base s).2.typeTable.actual (lowerLValue assigning base s).1.ty =
            .record identity (layout identity) ∧
          ((layout identity).map Prod.fst).idxOf? name.name = some i ∧
          List.At (analyze expression).2.codes p (lowerLValue assigning (.field span base name) s).1.code ∧
          (analyze expression).2.AddressesAt (lowerLValue assigning base s)
            (lowerLValue assigning (.field span base name) s).1 i p := by
  obtain ⟨layout, hlayout⟩ := exists_fields_of_identity expression
  refine ⟨layout, fun path span name given hp => ?_, fun path e assigning place span base name hp hl hmember => ?_⟩
  · obtain ⟨s, hvisit⟩ := Visit.exists_at?_start hp
    obtain ⟨hclean, p, hplaced⟩ := Visit.placed_start h hvisit
    obtain ⟨ty, identity, fields, hty, hactual, hlowers, -⟩ := Construction.lowers hclean
    have hplain := hclean.sound.types _ _ (ScopeStack.binds_of_get? hty)
    have hgrows := (Visit.storage_at? (Visit.clean_start h) hvisit).2.1
    obtain rfl := hlayout s ty identity fields (((lowers_lowerExpr _).keeps s).bindings.trans hgrows.bindings) hactual
      (by rintro rfl; cases hplain)
    refine ⟨s, ty, identity, hvisit, hty, hactual, hlowers, fun hn => ⟨p, ?_⟩⟩
    rw [hlowers.code] at hplaced
    exact (Construction.stands h hvisit hplaced).buildsAt (connected_analyze h) (hlowers.length ▸ hn)
  · obtain ⟨s, hvisit⟩ := Visit.exists_at?_start hp
    obtain ⟨hclean, p, hplaced⟩ := Visit.placed_start h hvisit
    have hgrows := (Visit.storage_at? (Visit.clean_start h) hvisit).2.1
    obtain ⟨he, hcode, hbound⟩ := lowerLValue_location hclean hl
    obtain ⟨hefield, hpart, -⟩ := lowerLValue_chain hmember rfl hclean.sound he
    obtain ⟨-, -, hbase⟩ := lowerLValue_chain (LValue.mem_chain_of_field hmember) rfl hclean.sound he
    have hfield := (hpart.trans hcode).trans hplaced
    obtain ⟨identity, fields, i, hactual, hfirst, haddress⟩ := addressesAt hclean.sound hclean.drawn hefield hfield
    -- The record has a field, so its type is not one that has been made up.
    have hnamed : (lowerLValue assigning base s).1.ty ≠ .record identity fields := fun hty => by
      have hheld : (lowerLValue assigning base s).1.ty.isHeld :=
        ((locates_lowerLValue assigning base).ensures s hclean.sound).2
      rw [hty] at hheld
      obtain rfl := List.isEmpty_iff.mp hheld
      cases hfirst
    obtain rfl := hlayout _ _ identity fields ((hbase.trans hbound).trans hgrows.bindings) hactual hnamed
    exact ⟨s, p, identity, i, hvisit, hactual, hfirst, hfield, haddress⟩

def assignedKey : LValue :=
  .field {} (.field {} (.subscript {} (.var {} { name := "all" }) (.int {} 1)) { name := "next" }) { name := "key" }

def chainedNodes : Expr :=
  .letIn {} [
      .types [⟨{ name := "node" }, .record [({ name := "key" }, { name := "int" }),
          ({ name := "next" }, { name := "node" }), ({ name := "key" }, { name := "int" })]⟩,
        ⟨{ name := "nodes" }, .array { name := "node" }⟩],
      .var { name := "first" } none (.record {} { name := "node" }
        [({ name := "key" }, .int {} 7), ({ name := "next" }, .nil {}), ({ name := "key" }, .int {} 2)]),
      .var { name := "all" } none
      (.array {} { name := "nodes" } (.int {} 2) (.lvalue {} (.var {} { name := "first" })))]
    [.assign {} assignedKey (.int {} 5)]

theorem chainedNodes_recordLayout : (analyze chainedNodes).1 = [] ∧
    (∃ record p, record.inits = [([], .int 7), ([], .int 0), ([], .int 2)] ∧
      (analyze chainedNodes).2.BuildsAt record p ∧ ∀ (link : Linkage) (memory : Memory), ∃ given final,
        record.Stored (analyze chainedNodes).2 link (fun _ _ _ memory => some (memory, 1000)) p 1000 given 3 final ∧
        given.store.memory = memory ∧ final.position = p + 5) ∧
    ∃ record field p, record.1.place = some (.memory (.temp ⟨10⟩) (.temp ⟨9⟩)) ∧
      field.place = some (.memory (.temp ⟨12⟩) (.temp ⟨11⟩)) ∧
      (analyze chainedNodes).2.AddressesAt record field 0 p := by
  have hclean : (analyze chainedNodes).1 = [] := List.isEmpty_iff.mp (by decide +kernel)
  obtain ⟨layout, hliterals, hlocations⟩ := recordLayout_analyze chainedNodes hclean
  refine ⟨hclean, ?_, ?_⟩
  · obtain ⟨s, ty, identity, hvisit, -, -, hlowers, hbuilds⟩ := hliterals [0] {} { name := "node" } _ rfl
    have hlowered : ((Visit.start chainedNodes).at? [0]).map (fun visit => Construction.lowered
        [({ name := "key" }, .int {} 7), ({ name := "next" }, .nil {}), ({ name := "key" }, .int {} 2)] visit.state) =
        some ⟨⟨0⟩, ⟨2⟩, ⟨1⟩, [([], .int 7), ([], .int 0), ([], .int 2)]⟩ := by decide +kernel
    rw [hvisit, Option.map_some, Option.some.injEq] at hlowered
    rw [hlowered] at hlowers hbuilds
    obtain ⟨p, hbuilds⟩ := hbuilds (hlowers.length ▸ by decide)
    refine ⟨_, p, rfl, hbuilds, fun link memory => ?_⟩
    obtain ⟨_, given, -, -, hposition, -, hmemory, htarget, -⟩ := hbuilds.asks link
      (fun _ _ _ memory => some (memory, 1000)) ⟨p, ⟨fun _ => 0, memory⟩, [], 0⟩ memory 1000 rfl rfl
    obtain ⟨final, hstored, hend, -⟩ := hbuilds.builds link (fun _ _ _ memory => some (memory, 1000)) given hposition
      (Construction.initsEnd_of_eq_nil (by simp) hposition)
    exact ⟨given, final, htarget ▸ hstored, hmemory, hend⟩
  · obtain ⟨s, p, identity, i, hvisit, hactual, hfirst, -, haddress⟩ :=
      hlocations [2] _ true assignedKey _ _ _ rfl rfl List.mem_cons_self
    have hfound : ((Visit.start chainedNodes).at? [2]).map (fun visit =>
        let record := lowerLValue true (.field {} (.subscript {} (.var {} { name := "all" }) (.int {} 1))
          { name := "next" }) visit.state
        (record.1.place, (lowerLValue true assignedKey visit.state).1.place,
          (record.2.typeTable.actual record.1.ty).fields.map Prod.fst)) =
        some (some (.memory (.temp ⟨10⟩) (.temp ⟨9⟩)), some (.memory (.temp ⟨12⟩) (.temp ⟨11⟩)),
            ["key", "next", "key"]) := by
      decide +kernel
    rw [hvisit, Option.map_some, Option.some.injEq] at hfound
    obtain ⟨hrecord, hfound⟩ := Prod.mk.inj hfound
    obtain ⟨hfield, hnames⟩ := Prod.mk.inj hfound
    rw [hactual, Ty.fields] at hnames
    rw [hnames] at hfirst
    obtain rfl : i = 0 := (Option.some.inj hfirst).symm
    exact ⟨_, _, p, hrecord, hfield, haddress⟩

end TigerMips
