import TigerMips.Proofs.Analysis.Confined
import TigerMips.Proofs.Analysis.Invariant

/-! Each temp belongs to one frame. Code uses the temps of its own frame, and of the frames around it
only where variables are, which are recorded as foreign names of its function. -/

namespace TigerMips

def Frame.Inside (frames : Arena .frame Frame) : FrameId → FrameId → Prop :=
  Relation.TransGen fun inner outer => ∃ frame, frames.get? inner = some frame ∧ frame.parent = some outer

def Function.Owns (functions : Table) (id : FunctionId) (frame : FrameId) : Prop :=
  ∃ f entry, functions.get? id = some f ∧ f.signature.entry = some entry ∧ entry.frame = frame

def Frame.Reaches (stored : List Storage) (frames : Arena .frame Frame) (functions : Function.Table)
    (frame : FrameId) (temp : Temp) : Prop :=
  Stores frames frame temp ∨
    ∃ outer name, Inside frames frame outer ∧ Stores frames outer temp ∧ ⟨outer, name, temp⟩ ∈ stored ∧
      ∃ id f, Function.Owns functions id frame ∧ functions.get? id = some f ∧ name ∈ f.foreigns

lemma Frame.Inside.mono {frames frames' : Arena .frame Frame} {inner outer : FrameId} (h : Inside frames inner outer)
    (hf : frames.Grows Frame.Grows frames') : Inside frames' inner outer := by
  refine Relation.TransGen.mono (fun id parent hlink => ?_) inner outer h
  obtain ⟨frame, hframe, hp⟩ := hlink
  obtain ⟨_, hframe', more, rfl⟩ := hf id frame hframe
  exact ⟨_, hframe', hp⟩

lemma Function.Owns.mono {functions functions' : Table} {id : FunctionId} {frame : FrameId}
    (h : Owns functions id frame) (hf : functions.Grows Function.Grows functions') : Owns functions' id frame := by
  obtain ⟨f, entry, hfound, he, hframe⟩ := h
  obtain ⟨_, hfound', calls, names, rfl, -⟩ := hf id f hfound
  exact ⟨_, entry, hfound', he, hframe⟩

lemma Frame.Reaches.mono {stored : List Storage} {frames frames' : Arena .frame Frame}
    {functions functions' : Function.Table} {frame : FrameId} {temp : Temp}
    (h : Reaches stored frames functions frame temp) (hf : frames.Grows Frame.Grows frames')
    (hg : functions.Grows Function.Grows functions') : Reaches stored frames' functions' frame temp := by
  rcases h with hown | ⟨outer, name, hinside, hstores, hvariable, id, f, howns, hfound, hname⟩
  · exact Or.inl (hown.mono hf)
  · obtain ⟨_, hfound', calls, names, rfl, hnames⟩ := hg id f hfound
    exact Or.inr ⟨outer, name, hinside.mono hf, hstores.mono hf, hvariable, id, _, howns.mono hg, hfound', hnames hname⟩

structure Frame.Apart (frames : Arena .frame Frame) (supply : Supply) : Prop where
  nodup : ∀ {id f}, frames.get? id = some f → f.locals.Nodup
  drawn : ∀ {id f}, frames.get? id = some f → Temp.Below supply.temps (f.display :: f.locals)
  disjoint : ∀ {id f id' f'}, frames.get? id = some f → frames.get? id' = some f' → id ≠ id' →
    List.Disjoint f.locals f'.locals
  display : ∀ {id f id' f'}, frames.get? id = some f → frames.get? id' = some f' → f.display ∉ f'.locals

def Frame.Housed (f : Frame) : Prop := ∀ t ∈ f.params ++ f.returnValue.toList, t ∈ f.locals

namespace Frame.Apart

variable {frames : Arena .frame Frame} {supply supply' : Supply}

lemma mono (h : Apart frames supply) (ht : supply.temps ≤ supply'.temps) : Apart frames supply' :=
  ⟨h.nodup, fun hf => (h.drawn hf).mono ht, h.disjoint, h.display⟩

lemma not_mem_of_le (h : Apart frames supply) {id : FrameId} {f : Frame} (hf : frames.get? id = some f) {temp : Temp}
    (ht : supply.temps ≤ temp.number) : temp ∉ f.display :: f.locals :=
  fun hm => absurd (h.drawn hf temp hm) (Nat.not_lt.mpr ht)

lemma push (h : Apart frames supply) {f : Frame} (hn : (f.display :: f.locals).Nodup)
    (hnew : ∀ temp ∈ f.display :: f.locals, supply.temps ≤ temp.number) (ht : supply.temps ≤ supply'.temps)
    (hd : Temp.Below supply'.temps (f.display :: f.locals)) : Apart (frames.push f) supply' := by
  obtain ⟨hdisplay, hlocals⟩ := List.nodup_cons.mp hn
  have hother : ∀ {id g temp}, frames.get? id = some g → temp ∈ f.display :: f.locals → temp ∉ g.display :: g.locals :=
    fun hg hm => h.not_mem_of_le hg (hnew _ hm)
  constructor
  · intro id g hg
    rcases Arena.get?_push_cases hg with ⟨-, rfl⟩ | hg
    · exact hlocals
    · exact h.nodup hg
  · intro id g hg
    rcases Arena.get?_push_cases hg with ⟨-, rfl⟩ | hg
    · exact hd
    · exact (h.drawn hg).mono ht
  · intro id g id' g' hg hg' hne
    rcases Arena.get?_push_cases hg with ⟨rfl, rfl⟩ | hold <;> rcases Arena.get?_push_cases hg' with ⟨rfl, rfl⟩ | hold'
    · exact absurd rfl hne
    · exact fun temp hm hm' => hother hold' (List.mem_cons_of_mem _ hm) (List.mem_cons_of_mem _ hm')
    · exact fun temp hm hm' => hother hold (List.mem_cons_of_mem _ hm') (List.mem_cons_of_mem _ hm)
    · exact h.disjoint hold hold' hne
  · intro id g id' g' hg hg'
    rcases Arena.get?_push_cases hg with ⟨-, rfl⟩ | hold <;> rcases Arena.get?_push_cases hg' with ⟨-, rfl⟩ | hold'
    · exact hdisplay
    · exact fun hm => hother hold' List.mem_cons_self (List.mem_cons_of_mem _ hm)
    · exact fun hm => hother hold (List.mem_cons_of_mem _ hm) List.mem_cons_self
    · exact h.display hold hold'

lemma addLocal (h : Apart frames supply) (current : FrameId) :
    Apart (frames.modify current (·.addLocal ⟨supply.temps⟩)) ⟨supply.temps + 1, supply.labels⟩ := by
  have hcases : ∀ {id g}, (frames.modify current (·.addLocal ⟨supply.temps⟩)).get? id = some g →
      ∃ f, frames.get? id = some f ∧ g.display = f.display ∧
        (g.locals = f.locals ∨ id = current ∧ g.locals = f.locals ++ [⟨supply.temps⟩]) := by
    intro id g hg
    obtain ⟨f, hf, ⟨rfl, rfl⟩ | rfl⟩ := Arena.get?_modify_cases hg
    · exact ⟨f, hf, rfl, Or.inr ⟨rfl, rfl⟩⟩
    · exact ⟨g, hf, rfl, Or.inl rfl⟩
  have hnew : ∀ {id f}, frames.get? id = some f → ⟨supply.temps⟩ ∉ f.display :: f.locals := fun hf =>
    h.not_mem_of_le hf le_rfl
  constructor
  · intro id g hg
    obtain ⟨f, hf, -, hl | ⟨-, hl⟩⟩ := hcases hg
    · exact hl ▸ h.nodup hf
    · rw [hl]
      simpa using (h.nodup hf).concat fun hm => hnew hf (List.mem_cons_of_mem _ hm)
  · intro id g hg
    obtain ⟨f, hf, hd, hl | ⟨-, hl⟩⟩ := hcases hg <;> rw [hd, hl]
    · exact (h.drawn hf).mono (Nat.le_succ _)
    · simpa using (h.drawn hf).mono (Nat.le_succ _)
  · intro id g id' g' hg hg' hne temp hm hm'
    obtain ⟨f, hf, -, hl⟩ := hcases hg
    obtain ⟨f', hf', -, hl'⟩ := hcases hg'
    have hold := h.disjoint hf hf' hne
    have hin := hnew hf
    have hin' := hnew hf'
    rcases hl with hl | ⟨rfl, hl⟩ <;> rcases hl' with hl' | ⟨rfl, hl'⟩ <;> rw [hl] at hm <;> rw [hl'] at hm'
    · exact hold hm hm'
    · rcases List.mem_append.mp hm' with hm' | hm'
      · exact hold hm hm'
      · exact hin (List.mem_cons_of_mem _ (List.mem_singleton.mp hm' ▸ hm))
    · rcases List.mem_append.mp hm with hm | hm
      · exact hold hm hm'
      · exact hin' (List.mem_cons_of_mem _ (List.mem_singleton.mp hm ▸ hm'))
    · exact hne rfl
  · intro id g id' g' hg hg' hm
    obtain ⟨f, hf, hd, -⟩ := hcases hg
    obtain ⟨f', hf', -, hl | ⟨-, hl⟩⟩ := hcases hg' <;> rw [hd, hl] at hm
    · exact h.display hf hf' hm
    · rcases List.mem_append.mp hm with hm | hm
      · exact h.display hf hf' hm
      · exact hnew hf (List.mem_cons.mpr (Or.inl (List.mem_singleton.mp hm).symm))

end Frame.Apart

structure Function.Apart (functions : Table) (frames : Nat) : Prop where
  within : ∀ {id frame}, Owns functions id frame → frame.position < frames
  unique : ∀ {id id' frame}, Owns functions id frame → Owns functions id' frame → id = id'

namespace Analyzer

structure Lexical (stored : List Storage) (s : Analyzer) : Prop where
  near : ∀ name info, s.values.get? name = some (.var info) → s.values.isForeign name = false →
    Frame.Stores s.frames s.currentFrame info.place ∧ ⟨s.currentFrame, name, info.place⟩ ∈ stored
  far : ∀ name info, s.values.get? name = some (.var info) → s.values.isForeign name = true →
    ∃ outer, Frame.Inside s.frames s.currentFrame outer ∧ Frame.Stores s.frames outer info.place ∧
      ⟨outer, name, info.place⟩ ∈ stored
  owner : ∀ name, s.values.isForeign name = true →
    ∃ id, s.enclosing.head? = some id ∧ Function.Owns s.functions id s.currentFrame

variable {stored : List Storage} {s t : Analyzer}

namespace Lexical

lemma kept (h : Lexical stored s) (hg : s.Grows t) (hv : t.values = s.values) (he : t.enclosing = s.enclosing)
    (hc : t.currentFrame = s.currentFrame) : Lexical stored t := by
  constructor
  · intro name info hfound hforeign
    rw [hv] at hfound hforeign
    rw [hc]
    obtain ⟨hstores, hvariable⟩ := h.near name info hfound hforeign
    exact ⟨hstores.mono hg.frames, hvariable⟩
  · intro name info hfound hforeign
    rw [hv] at hfound hforeign
    rw [hc]
    obtain ⟨outer, hinside, hstores, hvariable⟩ := h.far name info hfound hforeign
    exact ⟨outer, hinside.mono hg.frames, hstores.mono hg.frames, hvariable⟩
  · intro name hforeign
    rw [hv] at hforeign
    rw [he, hc]
    obtain ⟨id, hhead, howns⟩ := h.owner name hforeign
    exact ⟨id, hhead, howns.mono hg.functions⟩

lemma openScope (h : Lexical stored s) : Lexical stored { s with values := s.values.openScope } where
  near name info hfound hforeign := h.near name info hfound (by simpa using hforeign)
  far name info hfound hforeign := h.far name info hfound (by simpa using hforeign)
  owner name hforeign := h.owner name (by simpa using hforeign)

lemma openFunction {declared : Analysis.Declared} (h : Lexical stored s) (ho : s.Opens declared) :
    Lexical stored { s with
      values := s.values.openFunction
      currentFrame := declared.entry.frame
      enclosing := declared.id :: s.enclosing } where
  near name info hfound hforeign := by
    have hfound' : s.values.get? name = some (.var info) := hfound
    simp [ScopeStack.isForeign_openFunction, hfound'] at hforeign
  far name info hfound _ := by
    have hparent : Frame.Inside s.frames declared.entry.frame s.currentFrame := .single ho.parent
    cases hforeign : s.values.isForeign name with
    | false =>
      obtain ⟨hstores, hvariable⟩ := h.near name info hfound hforeign
      exact ⟨s.currentFrame, hparent, hstores, hvariable⟩
    | true =>
      obtain ⟨outer, hinside, hstores, hvariable⟩ := h.far name info hfound hforeign
      exact ⟨outer, hparent.trans hinside, hstores, hvariable⟩
  owner name _ := by
    obtain ⟨f, hfound, he⟩ := ho.function
    exact ⟨declared.id, rfl, f, declared.entry, hfound, he, rfl⟩

lemma put (h : Lexical stored s) (name : String) (value : Value)
    (hv : ∀ info, value = .var info →
      Frame.Stores s.frames s.currentFrame info.place ∧ ⟨s.currentFrame, name, info.place⟩ ∈ stored) :
    Lexical stored { s with values := s.values.put name value } := by
  constructor
  · intro other info hfound hforeign
    simp only [ScopeStack.get?_put, ScopeStack.isForeign_put] at hfound hforeign
    split at hfound
    · rename_i he
      exact he ▸ hv info (Option.some.inj hfound)
    · rename_i he
      exact h.near other info hfound (by rwa [if_neg he] at hforeign)
  · intro other info hfound hforeign
    simp only [ScopeStack.get?_put, ScopeStack.isForeign_put] at hfound hforeign
    split at hforeign
    · cases hforeign
    · rename_i he
      exact h.far other info (by rwa [if_neg he] at hfound) hforeign
  · intro other hforeign
    simp only [ScopeStack.isForeign_put] at hforeign
    split at hforeign
    · cases hforeign
    · exact h.owner other hforeign

lemma reaches {name : String} {info : Variable} (h : Lexical stored s)
    (hfound : s.values.get? name = some (.var info)) (hnote : Analysis.noteUse name s = ((), t)) :
    Frame.Reaches stored t.frames t.functions s.currentFrame info.place := by
  have hg := ((Analysis.keeps.noteUse name).apply hnote).toGrows
  cases hforeign : s.values.isForeign name with
  | false => exact Or.inl ((h.near name info hfound hforeign).1.mono hg.frames)
  | true =>
    obtain ⟨outer, hinside, hstores, hvariable⟩ := h.far name info hfound hforeign
    obtain ⟨id, hhead, howns⟩ := h.owner name hforeign
    have howns' := howns.mono hg.functions
    obtain ⟨f, -, hf, -⟩ := howns
    obtain ⟨rest, hrest⟩ : ∃ rest, s.enclosing = id :: rest := by
      cases henclosing : s.enclosing with
      | nil => simp [henclosing] at hhead
      | cons first rest => exact ⟨rest, by simp_all⟩
    have ht : t.functions = s.functions.modify id (·.addForeign name) := by
      obtain rfl := congrArg Prod.snd hnote
      unfold Analysis.noteUse
      rw [Analysis.snd_modify, hrest, hforeign]
      rfl
    refine Or.inr ⟨outer, name, hinside.mono hg.frames, hstores.mono hg.frames, hvariable, id, f.addForeign name,
      howns', ?_, List.mem_insert_self⟩
    rw [ht, Arena.get?_modify, if_pos rfl, hf]
    rfl

end Lexical

end Analyzer

namespace Analysis

open Analyzer

def ReachesTemps (stored : List Storage) (s : Analyzer) (frame : FrameId) (access : Access) : Prop :=
  ∀ temp ∈ access.temps, Frame.Reaches stored s.frames s.functions frame temp

lemma usage_reachesTemps (stored : List Storage) :
    Usage (· ∈ stored) (Lexical stored) (ReachesTemps stored) where
  later hg hp temp hm := (hp temp hm).mono hg.frames hg.functions
  int _ _ _ := by simp [ReachesTemps, Access.int, Access.temps]
  word _ _ := by simp [ReachesTemps, Access.word, Access.temps]
  string _ _ := by simp [ReachesTemps, Access.temps]
  memory _ _ hb ho temp hm := (List.mem_append.mp hm).elim (hb temp) (ho temp)
  own hs temp hm := by
    obtain rfl := List.mem_singleton.mp hm
    exact Or.inl hs.1
  variablePlace hi hfound hnote temp hm := by
    obtain rfl := List.mem_singleton.mp hm
    exact hi.reaches hfound hnote
  kept hi hg hv he hc := hi.kept hg hv he hc
  openScope hi := hi.openScope
  openFunction hi ho := hi.openFunction ho
  putVariable name info hi hs hv := hi.put name _ fun _ he => by
    obtain rfl := Value.var.inj he
    exact ⟨hs.1, hv⟩
  putFunction name _ _ hi := hi.put name _ fun _ he => nomatch he

lemma invariant_apart : Invariant fun s => Frame.Apart s.frames s.supply where
  same h hf _ _ hs := by rwa [hf, hs]
  newLabel h := h.mono le_rfl
  newTemp {s} h := h.addLocal s.currentFrame
  internString hi h := by
    rcases internString_eq hi with ⟨_, -, -, rfl⟩ | ⟨-, -, rfl⟩
    · exact h
    · exact h.mono le_rfl
  functions _ _ _ h := h
  declare {s} name params result h := by
    refine h.push ?_ (fun temp hm => ?_) (by change s.supply.temps ≤ s.supply.temps + 1 + _; omega) fun temp hm => ?_
    · have hrange : (List.range' s.supply.temps
        ((if !s.typeTable.isVoid result then params.length + 1 else params.length) + 1)).Nodup := List.nodup_range'
      have hmapped := hrange.map fun _ _ => Temp.mk.inj
      rwa [List.range'_succ, List.map_cons] at hmapped
    all_goals
      have hn := List.mem_cons.mp hm
      simp only [declaredFrame, List.mem_map, List.mem_range'_1] at hn
      rcases hn with rfl | ⟨n, hn, rfl⟩
    · exact le_rfl
    · change s.supply.temps ≤ n
      omega
    · change s.supply.temps < s.supply.temps + 1 + _
      omega
    · change n < s.supply.temps + 1 + _
      omega

lemma invariant_housed : Invariant fun s => ∀ id f, s.frames.get? id = some f → f.Housed where
  same h hf _ _ _ := by rwa [hf]
  newLabel h := h
  newTemp {s} h id f hf := by
    simp only [withTemp, Arena.get?_modify] at hf
    split at hf
    · obtain ⟨g, hg, rfl⟩ := Option.map_eq_some_iff.mp hf
      exact fun t ht => List.mem_append_left _ (h id g hg t ht)
    · exact h id f hf
  internString hi h := by
    rcases internString_eq hi with ⟨_, -, -, rfl⟩ | ⟨-, -, rfl⟩ <;> exact h
  functions _ _ _ h := h
  declare {s} name params result h id f hf := by
    rcases Arena.get?_push_cases hf with ⟨-, rfl⟩ | hf
    · rintro ⟨n⟩ ht
      rcases List.mem_append.mp ht with hp | hr
      · obtain ⟨m, hm, he⟩ := List.mem_map.mp hp
        refine List.mem_map.mpr ⟨m, List.mem_range'_1.mpr ?_, he⟩
        have hrange := List.mem_range'_1.mp hm
        split <;> omega
      · cases hvoid : s.typeTable.isVoid result with
        | true => simp [declaredFrame, hvoid] at hr
        | false =>
          have hn : n = s.supply.temps + 1 + params.length := by simpa [declaredFrame, hvoid] using hr
          have hmem : n ∈ List.range' (s.supply.temps + 1) (params.length + 1) := List.mem_range'_1.mpr (by omega)
          simpa [declaredFrame, hvoid] using hmem
    · exact h id f hf

lemma invariant_owners : Invariant fun s => Function.Apart s.functions s.frames.size where
  same h hf hg _ _ := by rwa [hf, hg]
  newLabel h := h
  newTemp {s} h := by simpa using h
  internString hi h := by rcases internString_eq hi with ⟨_, -, -, rfl⟩ | ⟨-, -, rfl⟩ <;> exact h
  functions {s} functions hgrows hsize h := by
    have hback : ∀ {id frame}, Function.Owns functions id frame → Function.Owns s.functions id frame := by
      rintro id frame ⟨g, entry, hg, he, hframe⟩
      obtain ⟨f, hf⟩ := s.functions.exists_get?.mpr (hsize ▸ functions.lt_size hg)
      obtain ⟨_, hg', calls, names, rfl, -⟩ := hgrows id f hf
      obtain rfl := Option.some.inj (hg.symm.trans hg')
      exact ⟨f, entry, hf, he, hframe⟩
    exact ⟨fun ho => h.within (hback ho), fun ho ho' => h.unique (hback ho) (hback ho')⟩
  declare {s} name params result h := by
    have hcases : ∀ {id frame}, Function.Owns (s.functions.push
        { name, signature := ⟨params, result, some (declaredAs s name params result).entry⟩ }) id frame →
        (id = s.functions.next ∧ frame = s.frames.next) ∨ Function.Owns s.functions id frame := by
      rintro id frame ⟨g, entry, hg, he, hframe⟩
      rcases Arena.get?_push_cases hg with ⟨rfl, rfl⟩ | hold
      · obtain rfl := Option.some.inj he
        exact Or.inl ⟨rfl, hframe.symm⟩
      · exact Or.inr ⟨g, entry, hold, he, hframe⟩
    have hnew : ∀ {id}, ¬ Function.Owns s.functions id s.frames.next := fun ho => Nat.lt_irrefl _ (h.within ho)
    constructor
    · intro id frame ho
      rcases hcases ho with ⟨-, rfl⟩ | ho
      · simp [Arena.next]
      · exact (h.within ho).trans_le (by simp)
    · intro id id' frame ho ho'
      rcases hcases ho with ⟨rfl, rfl⟩ | ho <;> rcases hcases ho' with ⟨rfl, hframe⟩ | ho'
      · rfl
      · exact absurd ho' hnew
      · exact absurd (hframe ▸ ho) hnew
      · exact h.unique ho ho'

end Analysis

/-- Each temp belongs to at most one frame, and code uses temps of its own frame or variables of the frames around it
that are foreign names of its function. -/
structure Tac.Program.Lexical (program : Tac.Program) (stored : List Storage) : Prop where
  nodup : ∀ id f, program.frames.get? id = some f → f.locals.Nodup
  disjoint : ∀ id f id' f', program.frames.get? id = some f → program.frames.get? id' = some f' → id ≠ id' →
    List.Disjoint f.locals f'.locals
  display : ∀ id f id' f', program.frames.get? id = some f → program.frames.get? id' = some f' → f.display ∉ f'.locals
  owner : ∀ id id' frame, Function.Owns program.functions id frame → Function.Owns program.functions id'
    frame → id = id'
  reaches : ∀ op ∈ Code.ops program.codes, ∀ temp ∈ op.2.temps,
    Frame.Reaches stored program.frames program.functions op.1 temp

lemma Analyzer.get?_initial (name : String) (info : Variable) :
    Analyzer.initial.values.get? name ≠ some (.var info) := by
  intro hfound
  obtain ⟨scope, hm, hb⟩ := ScopeStack.binds_of_get? hfound
  obtain rfl := List.mem_singleton.mp hm
  obtain ⟨⟨id, f⟩, -, he⟩ := List.mem_map.mp hb
  cases (Prod.mk.inj he).2

lemma Analyzer.lexical_initial (stored : List Storage) : Analyzer.initial.Lexical stored where
  near name info hfound _ := absurd hfound (Analyzer.get?_initial name info)
  far name info hfound _ := absurd hfound (Analyzer.get?_initial name info)
  owner name hforeign := by
    have hfunction : Analyzer.initial.values.functionDepth? = none := rfl
    unfold ScopeStack.isForeign at hforeign
    rw [hfunction] at hforeign
    cases Analyzer.initial.values.depth? name <;> simp at hforeign

lemma Analyzer.apart_initial : Frame.Apart Analyzer.initial.frames Analyzer.initial.supply := by
  have hempty : Frame.Apart ⟨[]⟩ {} := by constructor <;> simp [Arena.get?]
  exact hempty.push (f := { name := "main", entry := none, parent := none, display := ⟨0⟩ }) (by decide) (by simp)
    (by decide) (by simp [Temp.Below, initial])

lemma Analyzer.housed_initial (id : FrameId) (f : Frame) (hf : Analyzer.initial.frames.get? id = some f) :
    f.Housed := by
  obtain rfl := List.mem_singleton.mp (List.mem_of_getElem? hf)
  simp [Frame.Housed]

lemma Analyzer.owners_initial : Function.Apart Analyzer.initial.functions Analyzer.initial.frames.size := by
  have hnone : ∀ {id frame}, ¬ Function.Owns Analyzer.initial.functions id frame := by
    rintro id frame ⟨f, entry, hf, he, -⟩
    exact absurd (he.symm.trans (Runtime.entry_eq_none hf)) (by simp)
  exact ⟨fun ho => absurd ho hnone, fun ho => absurd ho hnone⟩

lemma reaches_analyze {expression : Expr} (h : (analyze expression).1 = []) {op : FrameId × Tac}
    (hop : op ∈ Code.ops (analyze expression).2.codes) {temp : Temp} (ht : temp ∈ op.2.temps) :
    Frame.Reaches (expression.storage Analyzer.initial) (analyze expression).2.frames (analyze expression).2.functions
      op.1 temp := by
  have htraced := Analysis.traced_analyze (Analysis.usage_reachesTemps _) (Analyzer.lexical_initial _) (fun _ => id) h
  rw [Tac.temps_eq_flatMap] at ht
  obtain ⟨access, ha, ht⟩ := List.mem_flatMap.mp ht
  exact htraced.accesses op hop access ha temp ht

theorem lexical_analyze (expression : Expr) (h : (analyze expression).1 = []) :
    (analyze expression).2.Lexical (expression.storage Analyzer.initial) := by
  have hframes := Analysis.invariant_apart.analyze Analyzer.apart_initial expression
  have howners := Analysis.invariant_owners.analyze Analyzer.owners_initial expression
  exact ⟨fun _ _ => hframes.nodup, fun _ _ _ _ => hframes.disjoint, fun _ _ _ _ => hframes.display,
    fun _ _ _ => howners.unique, fun _ hm _ => reaches_analyze h hm⟩

def nestedAccumulator : Expr :=
  let read (name : String) : Expr := .lvalue {} (.var {} { name })
  let add (name other : String) : Expr :=
    .assign {} (.var {} { name }) (.operation {} (.strict .add) {} (read name) (read other))
  .letIn {} [.var { name := "total" } none (.int {} 0),
      .functions [.mk { name := "outer" } [({ name := "n" }, { name := "int" })] none
        (.letIn {} [.functions [.mk { name := "inner" } [({ name := "k" }, { name := "int" })] none
            (.sequence {} [add "n" "k", .forLoop {} { name := "n" } (.int {} 0) (read "k") (add "total" "n")])]]
          [.call {} { name := "inner" } [read "n"], add "total" "n"])]]
    [.call {} { name := "outer" } [.int {} 3]]

theorem nestedAccumulator_lexical : (analyze nestedAccumulator).1 = [] ∧
    (analyze nestedAccumulator).2.Lexical (nestedAccumulator.storage Analyzer.initial) := by
  have hclean : (analyze nestedAccumulator).1 = [] := List.isEmpty_iff.mp (by decide +kernel)
  exact ⟨hclean, lexical_analyze nestedAccumulator hclean⟩

end TigerMips
