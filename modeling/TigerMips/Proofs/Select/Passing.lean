import TigerMips.Proofs.Analysis.Code
import TigerMips.Proofs.Select.Simulation
import TigerMips.Proofs.Select.Total

/-! A call moves its arguments to the parameters of the function one after the other. If no move disturbs an argument
that is moved later, the parameters get the values from before the call. -/

namespace TigerMips

namespace Store

variable {link : Linkage} {store : Store} {params : List Temp} {arguments : List Access}

def pass (link : Linkage) : Store → List Temp → List Access → Store
  | store, param :: params, argument :: arguments =>
    pass link (store.put param (argument.value link store)) params arguments
  | store, _, _ => store

def Receives (link : Linkage) (before after : Store) (params : List Temp) (arguments : List Access) : Prop :=
  ∀ passed ∈ params.zip arguments, after.temps passed.1 = passed.2.value link before

def Steady (link : Linkage) (store : Store) (params : List Temp) (arguments : List Access) : Prop :=
  ∀ (i : Nat) (argument : Access), arguments[i]? = some argument →
    argument.value link (store.pass link (params.take i) (arguments.take i)) = argument.value link store

lemma pass_temps_of_notMem {temp : Temp} (h : temp ∉ params) :
    (store.pass link params arguments).temps temp = store.temps temp := by
  induction params generalizing store arguments with
  | nil => rfl
  | cons param params ih =>
    cases arguments with
    | nil => rfl
    | cons argument arguments =>
      obtain ⟨hne, hrest⟩ := not_or.mp fun hc => h (List.mem_cons.mpr hc)
      rw [pass, ih hrest]
      simp [put, hne]

@[simp] lemma pass_memory : (store.pass link params arguments).memory = store.memory := by
  induction params generalizing store arguments with
  | nil => rfl
  | cons param params ih =>
    cases arguments with
    | nil => rfl
    | cons argument arguments => exact ih

lemma pass_temps_of_getElem? (hn : params.Nodup) {i : Nat} {param : Temp} {argument : Access}
    (hp : params[i]? = some param)
    (ha : arguments[i]? = some argument) : (store.pass link params arguments).temps param =
      argument.value link (store.pass link (params.take i) (arguments.take i)) := by
  induction params generalizing store arguments i with
  | nil => simp at hp
  | cons first params ih =>
    cases arguments with
    | nil => simp at ha
    | cons value arguments =>
      obtain ⟨hnew, hrest⟩ := List.nodup_cons.mp hn
      cases i with
      | zero =>
        obtain rfl : first = param := by simpa using hp
        obtain rfl : value = argument := by simpa using ha
        rw [pass, pass_temps_of_notMem hnew]
        simp [put, pass]
      | succ i => exact ih hrest (by simpa using hp) (by simpa using ha)

lemma Agree.pass {n : Nat} {other : Store} (h : store.Agree n other) (link : Linkage) (params : List Temp)
    {arguments : List Access} (ha : ∀ argument ∈ arguments, Temp.Below n argument.temps) :
    (store.pass link params arguments).Agree n (other.pass link params arguments) := by
  induction params generalizing store other arguments with
  | nil => exact h
  | cons param params ih =>
    cases arguments with
    | nil => exact h
    | cons argument arguments =>
      obtain ⟨hargument, harguments⟩ := List.forall_mem_cons.mp ha
      rw [Store.pass, Store.pass, h.value link argument hargument]
      exact ih (h.put _ _) harguments

lemma receives_pass_iff (hn : params.Nodup) (hl : params.length = arguments.length) :
    store.Receives link (store.pass link params arguments) params arguments ↔ store.Steady link params arguments := by
  constructor
  · intro h i argument ha
    obtain ⟨param, hp⟩ : ∃ param, params[i]? = some param := by
      have hi := (List.getElem?_eq_some_iff.mp ha).1
      exact ⟨_, List.getElem?_eq_getElem (hl ▸ hi)⟩
    rw [← pass_temps_of_getElem? hn hp ha]
    exact h (param, argument) (List.mem_of_getElem? (List.getElem?_zip_eq_some.mpr ⟨hp, ha⟩))
  · intro h passed hm
    obtain ⟨i, hi⟩ := List.mem_iff_getElem?.mp hm
    obtain ⟨hp, ha⟩ := List.getElem?_zip_eq_some.mp hi
    rw [pass_temps_of_getElem? hn hp ha]
    exact h i passed.2 ha

end Store

def undisturbed : List Temp → List Access → Bool
  | param :: params, argument :: arguments =>
    (argument = .temp param || arguments.all (param ∉ ·.temps)) && undisturbed params arguments
  | _, _ => true

lemma Store.receives_pass {link : Linkage} {store : Store} {params : List Temp} {arguments : List Access}
    (hn : params.Nodup) (h : undisturbed params arguments) :
    store.Receives link (store.pass link params arguments) params arguments := by
  induction params generalizing store arguments with
  | nil => simp [Receives]
  | cons param params ih =>
    cases arguments with
    | nil => simp [Receives]
    | cons argument arguments =>
      obtain ⟨hnew, hrest⟩ := List.nodup_cons.mp hn
      simp only [undisturbed, Bool.and_eq_true, Bool.or_eq_true, decide_eq_true_eq, List.all_eq_true] at h
      obtain ⟨hfirst, hothers⟩ := h
      have hlater := @ih (store.put param (argument.value link store)) arguments hrest hothers
      intro passed hm
      rcases List.mem_cons.mp hm with rfl | hm
      · rw [pass, pass_temps_of_notMem hnew]
        simp [put]
      · rw [pass, hlater passed hm]
        rcases hfirst with rfl | hfirst
        · -- The parameter keeps its value.
          have hsame : store.put param (Access.value link store (.temp param)) = store := by
            simp [put, Access.value]
          rw [hsame]
        · exact Access.value_put (hfirst passed.2 (List.of_mem_zip hm).2) _

namespace Select

open Machine

variable {context : Context} {bound : Nat}

lemma transfer_ok (link : Linkage) {destination : Temp} {source : Access} {s s' : Selection} {lines : List Line}
    (h : transfer context destination source s = .ok (lines, s')) (hready : Ready context.registers bound s)
    (ht : Temp.Below s.supply.temps source.temps) (hd : destination.number < bound) :
    (∃ k, s' = s.drawn context.frame k 0) ∧ ∀ store, store.temps context.registers.zero = 0 →
      ∃ after, run? link store lines = some after ∧
        (store.put destination (source.value link store)).Agree s.supply.temps after ∧
        after.temps context.registers.zero = 0 := by
  obtain ⟨⟨before, operation⟩, s₁, hl, h⟩ := bind_eq_ok.mp h
  obtain ⟨rfl, rfl⟩ := pure_eq_ok.mp h
  obtain ⟨hk, -, hload⟩ := loading_ok link hl hready.zero_drawn ht
  refine ⟨hk, fun store hzero => ?_⟩
  obtain ⟨middle, hr, hagree, hexec⟩ := hload store hzero
  refine ⟨_, run?_append hr (run?_instruction hexec), hagree.put _ _, ?_⟩
  have hne : context.registers.zero ≠ destination := by
    have := hready.zero_new
    rintro rfl
    omega
  simp [Store.put, hne, ← hagree.2 _ hready.zero_drawn, hzero]

lemma passArguments_ok (link : Linkage) {params : List Temp} {arguments : List Access} {s s' : Selection}
    {lines : List Line} (h : passArguments context params arguments s = .ok (lines, s'))
    (hready : Ready context.registers bound s) (hp : Temp.Below bound params)
    (ha : ∀ argument ∈ arguments, Temp.Below bound argument.temps) {store : Store}
    (hzero : store.temps context.registers.zero = 0) :
    ∃ after, run? link store lines = some after ∧
      (store.pass link params arguments).Agree s.supply.temps after := by
  induction params generalizing arguments s lines store with
  | nil =>
    obtain ⟨rfl, rfl⟩ := pure_eq_ok.mp h
    exact ⟨store, rfl, .refl _ _⟩
  | cons param params ih =>
    cases arguments with
    | nil =>
      obtain ⟨rfl, rfl⟩ := pure_eq_ok.mp h
      exact ⟨store, rfl, .refl _ _⟩
    | cons argument arguments =>
      obtain ⟨first, s₁, hf, h⟩ := bind_eq_ok.mp h
      obtain ⟨others, s₂, ho, h⟩ := bind_eq_ok.mp h
      obtain ⟨rfl, rfl⟩ := pure_eq_ok.mp h
      obtain ⟨hargument, harguments⟩ := List.forall_mem_cons.mp ha
      obtain ⟨⟨k, rfl⟩, hmove⟩ := transfer_ok link hf hready (hready.lt hargument) (hp param List.mem_cons_self)
      obtain ⟨middle, hr, hm, hz⟩ := hmove store hzero
      obtain ⟨after, hr', hafter⟩ := ih ho (hready.drawn _ _ _) (fun t ht => hp t (List.mem_cons_of_mem _ ht))
        harguments hz
      have hpass := hm.pass link params fun argument hm => hready.lt (harguments argument hm)
      exact ⟨after, run?_append hr hr', hpass.trans (hafter.mono (by simp))⟩

def setUp (context callee : Context) (display : Temp) : List Line :=
  let { fp, sp, ra, .. } := context.registers
  [store context .word fp ⟨sp, 0⟩,
    store context .word ra ⟨sp, -wordLength⟩,
    store context .word display ⟨sp, -2 * wordLength⟩,
    context.line (.move display sp),
    context.line (.move fp sp),
    callee.line (.addImmediate sp sp (.negatedFrameSize callee.frame))]

lemma enterCallee_eq (callee : Context) (display : Temp) (target : Label) : enterCallee context callee display target =
    setUp context callee display ++ [callee.line (.jumpAndLink target context.registers.ra)] := rfl

lemma run?_setUp (link : Linkage) (context callee : Context) (display : Temp) (store : Store) :
    ∃ after, run? link store (setUp context callee display) = some after ∧
      ∀ t, t ≠ display → t ≠ context.registers.fp → t ≠ context.registers.sp → after.temps t = store.temps t := by
  refine ⟨_, rfl, fun t hd hf hs => ?_⟩
  simp [Store.put, hd, hf, hs]

def Enters (registers : Registers) (bound : Nat) (id : FrameId) (f : Frame) (target : Label) (arguments : List Access)
    (lines : List Line) : Prop :=
  ∃ entering, entering ++ [Context.line ⟨id, registers⟩ (.jumpAndLink target registers.ra)] <+: lines ∧
    ∀ link store, store.temps registers.zero = 0 → ∃ after, run? link store entering = some after ∧
      ∀ t : Temp, t.number < bound → t ≠ f.display → after.temps t = (store.pass link f.params arguments).temps t

structure Registers.Above (registers : Registers) (bound : Nat) : Prop where
  fp : bound ≤ registers.fp.number
  sp : bound ≤ registers.sp.number
  sp_ne_zero : registers.sp ≠ registers.zero

lemma enters_call {graph : CallGraph} {destination : Option Access} {target : Label} {arguments : List Access}
    {s s' : Selection} {lines : List Line} {recursive : Bool}
    (h : call context graph destination target arguments s = .ok ((lines, recursive), s'))
    (hready : Ready context.registers bound s) (habove : Registers.Above context.registers bound)
    (hp : ∀ id f, s.frames.get? id = some f → Temp.Below bound f.params)
    (ha : ∀ argument ∈ arguments, Temp.Below bound argument.temps) :
    ∃ id f, entered? s.frames target = some (id, f) ∧ Enters context.registers bound id f target arguments lines := by
  obtain ⟨id, f, passing, taking, s₁, hfound, hpassing, -, rfl, -⟩ := call_eq_ok h
  have hf : s.frames.get? id = some f :=
    s.frames.mem_entries.mp (List.mem_reverse.mp (List.mem_of_find?_eq_some hfound))
  refine ⟨id, f, hfound, (if recursive then [context.line .save] else []) ++ adjustStack context
    (-wordLength) :: passing ++ setUp context { context with frame := id } f.display, ?_, fun link store hzero => ?_⟩
  · cases recursive <;> simp [callLines, savingAround, enterCallee_eq]
  · -- The stack pointer moves first.
    have hsave : run? link store (if recursive then [context.line .save] else []) = some store := by
      cases recursive <;> rfl
    let lowered := store.put context.registers.sp (store.temps context.registers.sp + -wordLength)
    have hadjust : run? link store [adjustStack context (-wordLength)] = some lowered := rfl
    have hagree : store.Agree bound lowered := (Store.Agree.refl bound store).put_right habove.sp _
    have hlowered : lowered.temps context.registers.zero = 0 := by
      simp [lowered, Store.put, habove.sp_ne_zero.symm, hzero]
    have hready' : Ready context.registers bound (returning s id) :=
      ⟨hready.bound_le, hready.zero_new, hready.zero_drawn⟩
    obtain ⟨passed, hr, hpassed⟩ := passArguments_ok link hpassing hready' (hp id f hf) ha hlowered
    have hpass := (hagree.pass link f.params ha).trans (hpassed.mono hready'.bound_le)
    obtain ⟨after, hr', hafter⟩ := run?_setUp link context { context with frame := id } f.display passed
    refine ⟨after, run?_append (run?_append hsave (run?_append hadjust hr)) hr', fun t ht hd => ?_⟩
    have hfp : t ≠ context.registers.fp := by
      have := habove.fp
      rintro rfl
      omega
    have hsp : t ≠ context.registers.sp := by
      have := habove.sp
      rintro rfl
      omega
    rw [hafter t hd hfp hsp, hpass.2 t ht]

lemma operation_of_code {registers : Registers} {graph : CallGraph} {start : Nat} {c : Code}
    {frame : FrameId} {tac : Tac} {s s' : Selection} {lines : List Line} {saves : List CallSave}
    (h : code registers graph start c s = .ok ((lines, saves), s')) (hc : c.op? = some (frame, tac)) :
    ∃ label first own, operation ⟨frame, registers⟩ graph first tac s = .ok ((own, saves), s') ∧ lines = label ++ own ∧
      ∀ link store, run? link store label = some store := by
  cases c with
  | label place => cases hc
  | op frame' tac' =>
    obtain ⟨rfl, rfl⟩ := Prod.mk.inj (Option.some.inj hc)
    exact ⟨[], start, lines, h, rfl, fun _ _ => rfl⟩
  | labeled place frame' tac' =>
    obtain ⟨rfl, rfl⟩ := Prod.mk.inj (Option.some.inj hc)
    obtain ⟨⟨own, ownSaves⟩, s₁, ho, h⟩ := bind_eq_ok.mp h
    obtain ⟨rfl, rfl, rfl⟩ := pure_pair_eq_ok.mp h
    exact ⟨[.label place], start + 1, own, ho, rfl, fun _ _ => rfl⟩

lemma call_of_code {registers : Registers} {graph : CallGraph} {start : Nat} {c : Code} {frame : FrameId}
    {destination : Option Access} {target : Label} {arguments : List Access} {s s' : Selection} {lines : List Line}
    {saves : List CallSave} (h : code registers graph start c s = .ok ((lines, saves), s'))
    (hc : c.op? = some (frame, .call destination target arguments)) :
    ∃ label own recursive t, call ⟨frame, registers⟩ graph destination target arguments s = .ok ((own, recursive), t) ∧
      lines = label ++ own ∧ ∀ link store, run? link store label = some store := by
  obtain ⟨label, first, own, h, hlines, hlabel⟩ := operation_of_code h hc
  obtain ⟨⟨callLines, recursive⟩, t, hcall, h⟩ := bind_eq_ok.mp h
  obtain ⟨rfl, -, -⟩ := pure_pair_eq_ok.mp h
  exact ⟨label, _, recursive, t, hcall, hlines, hlabel⟩

lemma codes_getElem? {registers : Registers} {graph : CallGraph} {start : Nat} {all : List Code} {s s' : Selection}
    {lines : List Line} {saves : List CallSave} (h : codes registers graph start all s = .ok ((lines, saves), s'))
    {position : Nat} {c : Code} (hc : all[position]? = some c) :
    ∃ before earlier s₁ own ownSaves s₂, codes registers graph start (all.take position) s =
      .ok ((before, earlier), s₁) ∧
      code registers graph (start + before.length) c s₁ = .ok ((own, ownSaves), s₂) ∧ before ++ own <+: lines := by
  induction all generalizing start s lines saves position with
  | nil => simp at hc
  | cons first rest ih =>
    obtain ⟨⟨firstLines, firstSaves⟩, s₁, hf, h⟩ := bind_eq_ok.mp h
    obtain ⟨⟨others, otherSaves⟩, s₂, hr, h⟩ := bind_eq_ok.mp h
    obtain ⟨rfl, rfl, rfl⟩ := pure_pair_eq_ok.mp h
    cases position with
    | zero =>
      obtain rfl : first = c := by simpa using hc
      exact ⟨[], [], s, firstLines, firstSaves, s₁, rfl, hf, by simp⟩
    | succ position =>
      obtain ⟨before, earlier, t₁, own, ownSaves, t₂, hb, ho, hpre⟩ := ih hr (by simpa using hc)
      refine ⟨firstLines ++ before, firstSaves ++ earlier, t₁, own, ownSaves, t₂,
        bind_eq_ok.mpr ⟨_, s₁, hf, bind_eq_ok.mpr ⟨_, t₁, hb, rfl⟩⟩, ?_, ?_⟩
      · rw [List.length_append, ← Nat.add_assoc]
        exact ho
      · rw [List.append_assoc]
        exact List.prefix_append_right_inj _ |>.mpr hpre

lemma Advances.exists_alike {s t : Selection} {lines : List Line} (h : Advances s t lines) {id : FrameId} {g : Frame}
    (hg : t.frames.get? id = some g) : ∃ f, s.frames.get? id = some f ∧ f.Alike g := by
  obtain ⟨f, hf⟩ := s.frames.exists_get?.mpr (h.size ▸ t.frames.lt_size hg)
  obtain ⟨g', hg', halike, -⟩ := h.frames id f hf
  obtain rfl := Option.some.inj (hg.symm.trans hg')
  exact ⟨f, hf, halike⟩

end Select

open Machine Select

def Tac.Program.Selects (program : Tac.Program) (machine : Machine.Program) (position : Nat)
    (before own : List Line) : Prop :=
  ∃ s s₁ s₂ c earlier saves, program.codes[position]? = some c ∧
    reserve program.mainFrame ⟨program.frames, program.supply⟩ = .ok (machine.registers, s) ∧
    Select.codes machine.registers program.callGraph 0 (program.codes.take position) s = .ok ((before, earlier), s₁) ∧
    Select.code machine.registers program.callGraph before.length c s₁ = .ok ((own, saves), s₂) ∧
    before ++ own <+: machine.lines

/-- How the call at a position passes its arguments. It reaches its jump from every store in which
the zero register is zero. -/
structure Tac.Program.PassesAt (program : Tac.Program) (machine : Machine.Program) (position : Nat) (target : Label)
    (arguments : List Access) (id : FrameId) (callee : Frame) : Prop where
  found : program.frames.get? id = some callee
  entry : callee.entry = some target
  unique : ∀ id' f, program.frames.get? id' = some f → f.entry = some target → id' = id
  arity : callee.params.length = arguments.length
  reaches : ∃ before own entering, program.Selects machine position before own ∧
    entering ++ [Context.line ⟨id, machine.registers⟩ (.jumpAndLink target machine.registers.ra)] <+: own ∧
    ∀ link store, store.temps machine.registers.zero = 0 → ∃ after,
      Running.steps? (step? link machine.lines) entering.length ⟨before.length, store⟩ =
        some ⟨before.length + entering.length, after⟩ ∧
      (store.Receives link after callee.params arguments ↔ store.Steady link callee.params arguments) ∧
      (undisturbed callee.params arguments → store.Receives link after callee.params arguments)

lemma Code.Selectable.call {known : Label → Prop} {frames : Arena .frame Frame} {c : Code}
    (h : c.Selectable known frames)
    {frame : FrameId} {destination : Option Access} {target : Label} {arguments : List Access}
    (hc : c.op? = some (frame, .call destination target arguments)) :
    ∃ id f, frames.get? id = some f ∧ f.entry = some target ∧ f.params.length = arguments.length := by
  cases c with
  | label place => cases hc
  | op frame' tac | labeled place frame' tac =>
    obtain ⟨rfl, rfl⟩ := Prod.mk.inj (Option.some.inj hc)
    exact h.2.1.2

lemma Tac.Program.Selectable.passesAt {program : Tac.Program} (h : program.Selectable)
    (hseparate : Frame.Separate program.frames program.supply)
    (hdrawn : Temp.Below program.supply.temps (Code.temps program.codes)) {machine : Machine.Program}
    (hgenerate : program.generate = .ok machine) {position : Nat} {c : Code} (hc : program.codes[position]? = some c)
    {frame : FrameId} {destination : Option Access} {target : Label} {arguments : List Access}
    (hcall : c.op? = some (frame, .call destination target arguments)) :
    ∃ id callee, program.PassesAt machine position target arguments id callee := by
  obtain ⟨s, saves, s', hreserve, hcodes⟩ := generate_eq_ok hgenerate
  obtain ⟨hregisters, rfl⟩ := reserve_eq_ok hreserve
  obtain ⟨before, earlier, s₁, own, ownSaves, s₂, hbefore, hown, hlines⟩ := codes_getElem? hcodes hc
  rw [Nat.zero_add] at hown
  -- The selection of the codes before the call has left the frames as they were.
  have hstart : Advances ⟨program.frames, program.supply⟩
      (Selection.drawn ⟨program.frames, program.supply⟩ program.mainFrame 7 0) [] := .drawn _ _ _ _ _
  have hselectable : ∀ code ∈ program.codes, code.Selectable (fun _ => True)
      (Selection.drawn ⟨program.frames, program.supply⟩ program.mainFrame 7 0).frames := fun code hm =>
    ((h.codes code hm).mono (.refl _) fun _ _ => trivial).of_entries fun id f hf => by
      obtain ⟨g, hg, halike, -⟩ := hstart.frames id f hf
      exact ⟨g, hg, halike⟩
  obtain ⟨before', earlier', t, hbefore', hadvances, -⟩ := codes_ok machine.registers program.callGraph 0
    fun code hm => hselectable code (List.mem_of_mem_take hm)
  rw [hbefore] at hbefore'
  obtain ⟨he, rfl⟩ := Prod.mk.inj (Except.ok.inj hbefore')
  have hall := hstart.trans hadvances
  have htemps : program.supply.temps + 7 ≤ s₁.supply.temps := hadvances.temps
  have hready : Ready machine.registers program.supply.temps s₁ := by
    constructor
    · omega
    · simp [hregisters]
    · simp only [hregisters]
      omega
  have habove : Registers.Above machine.registers program.supply.temps := by
    constructor <;> simp [hregisters]
  have hparams : ∀ id f, s₁.frames.get? id = some f → Temp.Below program.supply.temps f.params := by
    intro id g hg
    obtain ⟨f, hf, halike⟩ := hall.exists_alike hg
    exact halike.params ▸ (hseparate.drawn id f hf).params
  have harguments : ∀ argument ∈ arguments, Temp.Below program.supply.temps argument.temps := by
    intro argument hm temp ht
    refine hdrawn temp (List.mem_flatMap.mpr ⟨_, List.mem_filterMap.mpr ⟨c, List.mem_of_getElem? hc, hcall⟩, ?_⟩)
    exact List.mem_flatMap.mpr ⟨argument, List.mem_append_right _ hm, ht⟩
  obtain ⟨label, _, _, _, hselected, rfl, hlabel⟩ := call_of_code hown hcall
  obtain ⟨id, g, hfound, entering, hpre, hrun⟩ := enters_call hselected hready habove hparams harguments
  have hg : s₁.frames.get? id = some g :=
    s₁.frames.mem_entries.mp (List.mem_reverse.mp (List.mem_of_find?_eq_some hfound))
  obtain ⟨callee, hcallee, halike⟩ := hall.exists_alike hg
  have hentry : callee.entry = some target := by
    rw [← halike.entry]
    simpa using List.find?_some hfound
  have hframe := hseparate.drawn id callee hcallee
  have harity : callee.params.length = arguments.length := by
    obtain ⟨id', f, hf, hentry', hlength⟩ := (h.codes c (List.mem_of_getElem? hc)).call hcall
    obtain rfl := hseparate.entries hf hcallee hentry' hentry
    obtain rfl := Option.some.inj (hf.symm.trans hcallee)
    exact hlength
  refine ⟨id, callee, hcallee, hentry, fun id' f hf he => hseparate.entries hf hcallee he hentry, harity,
    before, _, label ++ entering, ⟨_, s₁, s₂, c, earlier, ownSaves, hc, hreserve, hbefore, hown, hlines⟩,
    List.append_assoc label entering _ ▸ (List.prefix_append_right_inj label).mpr hpre, fun link store hzero => ?_⟩
  obtain ⟨after, hr, hafter⟩ := hrun link store hzero
  -- The parameters are no registers, and are not the static link.
  have hreceives : store.Receives link after callee.params arguments ↔
      store.Receives link (store.pass link callee.params arguments) callee.params arguments := by
    refine forall₂_congr fun passed hm => ?_
    have hparam : passed.1 ∈ callee.params := (List.of_mem_zip hm).1
    have hne : passed.1 ≠ g.display := fun hc => hframe.display (halike.display ▸ hc ▸ hparam)
    rw [hafter _ (hframe.params _ hparam) hne, halike.params]
  refine ⟨after, ?_, hreceives.trans (Store.receives_pass_iff hframe.nodup harity), fun hu =>
    hreceives.mpr (Store.receives_pass hframe.nodup hu)⟩
  obtain ⟨rest, hlines⟩ := ((List.prefix_append_right_inj before).mpr ((List.prefix_append_right_inj label).mpr
    ((List.prefix_append _ _).trans hpre))).trans hlines
  rw [← hlines]
  exact steps?_of_run? before (label ++ entering) rest (run?_append (hlabel link store) hr)

lemma below_analyze {expression : Expr} (h : (analyze expression).1 = []) :
    Temp.Below (analyze expression).2.supply.temps (Code.temps (analyze expression).2.codes) :=
  (Analysis.draws_analyze h).temps

/-- Each call of a program without errors reaches its jump. Then the parameters have the values that
the arguments had before the call, if and only if no move has disturbed an argument; none does where
no argument reads a parameter that has been written before. -/
theorem passesAt_analyze (expression : Expr) (h : (analyze expression).1 = []) :
    ∃ machine, (analyze expression).2.generate = .ok machine ∧
      ∀ (position : Nat) (c : Code) (frame : FrameId) (destination : Option Access) (target : Label)
        (arguments : List Access), (analyze expression).2.codes[position]? = some c →
        c.op? = some (frame, .call destination target arguments) →
        ∃ id callee, (analyze expression).2.PassesAt machine position target arguments id callee := by
  have hselectable := selectable_analyze h
  obtain ⟨machine, hgenerate, -⟩ := generate_ok hselectable
  exact ⟨machine, hgenerate, fun position c frame destination target arguments hc hcall =>
    hselectable.passesAt (separate_analyze expression) (below_analyze h) hgenerate hc hcall⟩

def summing : Expr :=
  .letIn {}
    [.functions [.mk { name := "f" } [({ name := "a" }, { name := "int" }), ({ name := "b" }, { name := "int" })] none
    (.call {} { name := "f" } [.lvalue {} (.var {} { name := "a" }),
      .operation {} (.strict .add) {} (.lvalue {} (.var {} { name := "a" })) (.lvalue {} (.var {} { name := "b" }))])]]
    [.call {} { name := "f" } [.int {} 1, .int {} 2]]

theorem summing_passesAt : (analyze summing).1 = [] ∧ undisturbed [⟨2⟩, ⟨3⟩] [.temp ⟨2⟩, .temp ⟨4⟩] ∧
    ∃ machine, (analyze summing).2.generate = .ok machine ∧
      ∃ id callee, (analyze summing).2.PassesAt machine 3 ⟨0⟩ [.temp ⟨2⟩, .temp ⟨4⟩] id callee := by
  have hclean : (analyze summing).1 = [] := List.isEmpty_iff.mp (by decide +kernel)
  have hcall :
      (analyze summing).2.codes[3]? = some (.op ⟨1⟩ (.call none ⟨0⟩ [.temp ⟨2⟩, .temp ⟨4⟩])) := by decide +kernel
  obtain ⟨machine, hgenerate, hpasses⟩ := passesAt_analyze summing hclean
  exact ⟨hclean, by decide, machine, hgenerate, hpasses 3 _ ⟨1⟩ none ⟨0⟩ _ hcall rfl⟩

def exchanging : Expr :=
  .letIn {}
    [.functions [.mk { name := "f" } [({ name := "a" }, { name := "int" }), ({ name := "b" }, { name := "int" })] none
    (.call {} { name := "f" } [.lvalue {} (.var {} { name := "b" }), .lvalue {} (.var {} { name := "a" })])]]
    [.call {} { name := "f" } [.int {} 1, .int {} 2]]

/-- Before the call the parameters are 1 and 2. At the jump, ten lines later, both are 2. -/
theorem exchanging_not_receives : (analyze exchanging).1 = [] ∧
    ((analyze exchanging).2.frames.get? ⟨1⟩).map (fun f => (f.entry, f.params)) = some (some ⟨0⟩, [⟨2⟩, ⟨3⟩]) ∧
    (analyze exchanging).2.codes[2]? = some (.op ⟨1⟩ (.call none ⟨0⟩ [.temp ⟨3⟩, .temp ⟨2⟩])) ∧
    ∃ machine, (analyze exchanging).2.generate = .ok machine ∧
      machine.lines[12]? = some (.instruction { frame := ⟨1⟩, operation := .jumpAndLink ⟨0⟩ machine.registers.ra }) ∧
      ∃ store after : Store, store.temps machine.registers.zero = 0 ∧ store.temps ⟨2⟩ = 1 ∧ store.temps ⟨3⟩ = 2 ∧
        Running.steps? (step? default machine.lines) 10 ⟨2, store⟩ = some ⟨12, after⟩ ∧
        ¬ store.Receives default after [⟨2⟩, ⟨3⟩] [.temp ⟨3⟩, .temp ⟨2⟩] := by
  let store : Store := ⟨fun t => if t = ⟨2⟩ then 1 else if t = ⟨3⟩ then 2 else 0, fun _ => 0⟩
  let reached (machine : Machine.Program) := Running.steps? (step? default machine.lines) 10 ⟨2, store⟩
  have hclean : (analyze exchanging).1 = [] := List.isEmpty_iff.mp (by decide +kernel)
  have hframe : ((analyze exchanging).2.frames.get? ⟨1⟩).map (fun f => (f.entry, f.params)) =
      some (some ⟨0⟩, [⟨2⟩, ⟨3⟩]) := by decide +kernel
  have hcall : (analyze exchanging).2.codes[2]? = some (.op ⟨1⟩ (.call none ⟨0⟩ [.temp ⟨3⟩, .temp ⟨2⟩])) := by
    decide +kernel
  have hrun : (analyze exchanging).2.generate.toOption.map (fun machine => (machine.lines[12]?, machine.registers.zero,
      machine.registers.ra, (reached machine).map fun running => (running.position, running.store.temps ⟨3⟩))) =
      some (some (.instruction { frame := ⟨1⟩, operation := .jumpAndLink ⟨0⟩ ⟨7⟩ }), ⟨4⟩, ⟨7⟩, some (12, 2)) := by
    decide +kernel
  refine ⟨hclean, hframe, hcall, ?_⟩
  cases hgenerate : (analyze exchanging).2.generate with
  | error failure =>
    rw [hgenerate] at hrun
    cases hrun
  | ok machine =>
    simp only [hgenerate, Except.toOption, Option.map_some, Option.some.injEq, Prod.mk.injEq] at hrun
    obtain ⟨hjump, hzero, hra, hreached⟩ := hrun
    obtain ⟨⟨position, after⟩, hsteps, hafter⟩ := Option.map_eq_some_iff.mp hreached
    obtain ⟨rfl, hvalue⟩ := Prod.mk.inj hafter
    refine ⟨machine, rfl, by rw [hjump, hra], store, after, by rw [hzero]; rfl, rfl, rfl, hsteps, fun hc => ?_⟩
    have hreceived := hc (⟨3⟩, .temp ⟨2⟩) (by simp)
    rw [hvalue] at hreceived
    exact absurd hreceived (by decide)

end TigerMips
