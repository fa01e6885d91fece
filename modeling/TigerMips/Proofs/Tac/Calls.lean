import TigerMips.Proofs.Analysis.Confined
import TigerMips.Proofs.Tac.Run

/-! Three-address code with calls. A function has its locals to itself: when a call returns, they have the values from
before the call again. -/

namespace TigerMips

def Tac.destination? : Tac → Option Access
  | move destination _ | binary _ destination _ _ | negate destination _ => some destination
  | call destination _ _ | callRuntime destination _ _ => destination
  | ret | goto _ | branch _ _ _ _ => none

namespace Store

def restore (store : Store) (locals : List Temp) (temps : Temp → Word) : Store :=
  { store with temps := fun t => if t ∈ locals then temps t else store.temps t }

def receive (store : Store) (passed : List (Temp × Word)) : Store :=
  passed.foldl (fun store param => store.put param.1 param.2) store

def deliver? (link : Linkage) (store : Store) : Option Access → Option Word → Option Store
  | some place, some value => place.write? link store value
  | _, _ => some store

variable {store after : Store} {link : Linkage} {t : Temp}

lemma receive_temps_of_notMem {passed : List (Temp × Word)} (h : t ∉ passed.map Prod.fst) :
    (store.receive passed).temps t = store.temps t := by
  induction passed generalizing store with
  | nil => rfl
  | cons first rest ih =>
    obtain ⟨hne, hrest⟩ := List.ne_and_not_mem_of_not_mem_cons h
    refine (ih hrest).trans ?_
    simp [put, hne]

lemma temps_of_write? {place : Access} {value : Word} (h : place.write? link store value = some after)
    (hne : place ≠ .temp t) : after.temps t = store.temps t := by
  cases place with
  | temp u =>
    obtain rfl := Option.some.inj h
    have : t ≠ u := fun hc => hne (hc ▸ rfl)
    simp [put, this]
  | const constant => cases h
  | memory base offset =>
    obtain rfl := Option.some.inj h
    rfl

lemma temps_of_deliver? {destination : Option Access} {value : Option Word}
    (h : store.deliver? link destination value = some after) (hne : destination ≠ some (.temp t)) :
    after.temps t = store.temps t := by
  unfold deliver? at h
  split at h
  · exact temps_of_write? h fun hc => hne (hc ▸ rfl)
  · obtain rfl := Option.some.inj h
    rfl

end Store

abbrev Host := Nat → String → List Word → Memory → Option (Memory × Word)

namespace Tac

lemma temps_of_exec? {link : Linkage} {store after : Store} {tac : Tac} {jump : Option Label} {t : Temp}
    (h : tac.exec? link store = some (after, jump)) (hne : tac.destination? ≠ some (.temp t)) :
    after.temps t = store.temps t := by
  cases tac with
  | move destination source =>
    obtain ⟨_, hw, he⟩ := Option.map_eq_some_iff.mp h
    obtain ⟨rfl, -⟩ := Prod.mk.inj he
    exact Store.temps_of_write? hw fun hc => hne (hc ▸ rfl)
  | binary operator destination lhs rhs =>
    obtain ⟨value, -, h⟩ := Option.bind_eq_some_iff.mp h
    obtain ⟨_, hw, he⟩ := Option.bind_eq_some_iff.mp h
    obtain ⟨rfl, -⟩ := Prod.mk.inj (Option.some.inj he)
    exact Store.temps_of_write? hw fun hc => hne (hc ▸ rfl)
  | negate destination operand =>
    obtain ⟨_, hw, he⟩ := Option.map_eq_some_iff.mp h
    obtain ⟨rfl, -⟩ := Prod.mk.inj he
    exact Store.temps_of_write? hw fun hc => hne (hc ▸ rfl)
  | goto target | branch relation lhs rhs target =>
    obtain ⟨rfl, -⟩ := Prod.mk.inj (Option.some.inj h)
    rfl
  | call _ _ _ | callRuntime _ _ _ | ret => cases h

lemma goes_of_exec? {link : Linkage} {store after : Store} {tac : Tac} {jump : Option Label}
    (h : tac.exec? link store = some (after, jump)) : (jump = none → tac.passes) ∧ ∀ l ∈ jump, l ∈ tac.jump? := by
  cases tac with
  | move _ _ | negate _ _ =>
    obtain ⟨_, -, he⟩ := Option.map_eq_some_iff.mp h
    obtain ⟨-, rfl⟩ := Prod.mk.inj he
    exact ⟨fun _ => rfl, by simp⟩
  | binary _ _ _ _ =>
    obtain ⟨_, -, h⟩ := Option.bind_eq_some_iff.mp h
    obtain ⟨_, -, he⟩ := Option.bind_eq_some_iff.mp h
    obtain ⟨-, rfl⟩ := Prod.mk.inj (Option.some.inj he)
    exact ⟨fun _ => rfl, by simp⟩
  | goto target =>
    obtain ⟨-, rfl⟩ := Prod.mk.inj (Option.some.inj h)
    exact ⟨nofun, by simp [jump?]⟩
  | branch relation lhs rhs target =>
    obtain ⟨-, rfl⟩ := Prod.mk.inj (Option.some.inj h)
    exact ⟨fun _ => rfl, fun l hl => by split at hl <;> simp_all [jump?]⟩
  | call _ _ _ | callRuntime _ _ _ | ret => cases h

structure Activation where
  back : Nat
  destination : Option Access
  frame : FrameId
  temps : Temp → Word

structure State where
  position : Nat
  store : Store
  calls : List Activation
  events : Nat

def State.go (state : State) (running : Running) : State :=
  { state with position := running.position, store := running.store }

namespace Program

variable (program : Tac.Program) (link : Linkage) (host : Host)

def callee? (target : Label) : Option (FrameId × Frame) := program.frames.entries.find? (·.2.entry = some target)

def perform? (state : State) : Tac → Option State
  | .call destination target arguments => do
    let (frame, callee) ← program.callee? target
    let start ← Code.find? program.codes target
    return { state with
      position := start
      store := state.store.receive (callee.params.zip (arguments.map (·.value link state.store)))
      calls := ⟨state.position + 1, destination, frame, state.store.temps⟩ :: state.calls }
  | .ret =>
    match state.calls with
    | [] => none
    | last :: calls => do
      let callee ← program.frames.get? last.frame
      let store ← (state.store.restore callee.locals last.temps).deliver? link last.destination
        (callee.returnValue.map state.store.temps)
      return { state with position := last.back, store, calls }
  | .callRuntime destination name arguments => do
    let (memory, value) ← host state.events name (arguments.map (·.value link state.store)) state.store.memory
    let store ← { state.store with memory }.deliver? link destination (some value)
    return { state with position := state.position + 1, store, events := state.events + 1 }
  | tac => ((tac.exec? link state.store).bind (Running.follow (Code.find? program.codes) state.position)).map state.go

def advance? (state : State) : Option State :=
  (program.codes[state.position]?).bind fun code =>
    match code.op? with
    | none => some { state with position := state.position + 1 }
    | some (_, tac) => program.perform? link host state tac

variable {program link host} {a b : State}

structure Goes (program : Tac.Program) (code : Code) (a b : State) : Prop where
  calls : b.calls = a.calls
  flows : Code.Flows program.codes a.position b.position
  temps : ∀ t, (∀ op ∈ code.op?, op.2.destination? ≠ some (.temp t)) → b.store.temps t = a.store.temps t

lemma goes_of_local {code : Code} {id : FrameId} {tac : Tac} (hcode : program.codes[a.position]? = some code)
    (hop : code.op? = some (id, tac)) (h : ((tac.exec? link a.store).bind
      (Running.follow (Code.find? program.codes) a.position)).map a.go = some b) : program.Goes code a b := by
  obtain ⟨running, hrunning, rfl⟩ := Option.map_eq_some_iff.mp h
  obtain ⟨⟨after, jump⟩, hexec, hfollow⟩ := Option.bind_eq_some_iff.mp hrunning
  have htemps : ∀ t, (∀ op ∈ code.op?, op.2.destination? ≠ some (.temp t)) → after.temps t = a.store.temps t :=
    fun t ht => temps_of_exec? hexec (ht _ hop)
  obtain ⟨hpasses, hjump⟩ := goes_of_exec? hexec
  cases jump with
  | none =>
    obtain rfl := Option.some.inj hfollow
    exact ⟨rfl, .next hcode (by simp [Code.passes, hop, hpasses rfl]), htemps⟩
  | some l =>
    obtain ⟨place, hfind, rfl⟩ := Option.map_eq_some_iff.mp hfollow
    have hm : l ∈ code.jump? := by simpa [Code.jump?, hop] using hjump l rfl
    exact ⟨rfl, .jump hcode hm hfind, htemps⟩

lemma advance?_cases (h : program.advance? link host a = some b) : ∃ code, program.codes[a.position]? = some code ∧
    (program.Goes code a b ∨
      (∃ id destination target arguments frame callee start,
        code.op? = some (id, .call destination target arguments) ∧ program.callee? target = some (frame, callee) ∧
        Code.find? program.codes target = some start ∧ b = { a with
          position := start
          store := a.store.receive (callee.params.zip (arguments.map (·.value link a.store)))
          calls := ⟨a.position + 1, destination, frame, a.store.temps⟩ :: a.calls }) ∨
      ∃ last calls callee store, a.calls = last :: calls ∧ program.frames.get? last.frame = some callee ∧
        (a.store.restore callee.locals last.temps).deliver? link last.destination
          (callee.returnValue.map a.store.temps) = some store ∧
        b = { a with position := last.back, store, calls }) := by
  obtain ⟨code, hcode, h⟩ := Option.bind_eq_some_iff.mp h
  refine ⟨code, hcode, ?_⟩
  cases hop : code.op? with
  | none =>
    rw [hop] at h
    obtain rfl := Option.some.inj h
    exact Or.inl ⟨rfl, .next hcode (by simp [Code.passes, hop]), fun _ _ => rfl⟩
  | some op =>
    obtain ⟨id, tac⟩ := op
    simp only [hop] at h
    cases tac with
    | move _ _ | binary _ _ _ _ | negate _ _ | goto _ | branch _ _ _ _ => exact Or.inl (goes_of_local hcode hop h)
    | call destination target arguments =>
      obtain ⟨⟨frame, callee⟩, hcallee, h⟩ := Option.bind_eq_some_iff.mp h
      obtain ⟨start, hstart, h⟩ := Option.bind_eq_some_iff.mp h
      obtain rfl := Option.some.inj h
      exact Or.inr (Or.inl ⟨id, destination, target, arguments, frame, callee, start, rfl, hcallee, hstart, rfl⟩)
    | callRuntime destination name arguments =>
      obtain ⟨⟨memory, value⟩, -, h⟩ := Option.bind_eq_some_iff.mp h
      obtain ⟨store, hstore, h⟩ := Option.bind_eq_some_iff.mp h
      obtain rfl := Option.some.inj h
      exact Or.inl ⟨rfl, .next hcode (by simp [Code.passes, hop, passes]), fun t ht =>
        (Store.temps_of_deliver? hstore (ht _ hop)).trans rfl⟩
    | ret =>
      simp only [perform?] at h
      split at h
      · cases h
      · rename_i last calls hcalls
        obtain ⟨callee, hcallee, h⟩ := Option.bind_eq_some_iff.mp h
        obtain ⟨store, hstore, h⟩ := Option.bind_eq_some_iff.mp h
        obtain rfl := Option.some.inj h
        exact Or.inr (Or.inr ⟨last, calls, callee, store, hcalls, hcallee, hstore, rfl⟩)

variable (program)

def locals (id : FrameId) : List Temp := (program.frames.get? id).elim [] Frame.locals

def under (t : Temp) : List Activation → Word → Word
  | [], value => value
  | last :: calls, value => under t calls (if t ∈ program.locals last.frame then last.temps t else value)

def Active (home : Nat → Prop) : List Activation → Nat → Prop
  | [], position => home position
  | last :: calls, position =>
    (∃ entry start, program.Declares entry ∧ entry.frame = last.frame ∧
      Code.find? program.codes entry.label = some start ∧ Code.Reaches program.codes start position) ∧
    ∃ caller code id target arguments, last.back = caller + 1 ∧ program.codes[caller]? = some code ∧
      code.op? = some (id, .call last.destination target arguments) ∧ Active home calls caller

structure Connected : Prop where
  confined : program.Confined
  declared : ∀ id f label, program.frames.get? id = some f → f.entry = some label →
    ∃ entry, program.Declares entry ∧ entry.frame = id ∧ entry.label = label
  housed : ∀ id f, program.frames.get? id = some f → ∀ t ∈ f.params, t ∈ f.locals

structure Private (frame : FrameId) (home : Nat → Prop) (t : Temp) : Prop where
  stored : t ∈ program.locals frame
  written : ∀ q code op, program.codes[q]? = some code → op ∈ code.op? → op.2.destination? = some (.temp t) →
    op.1 = frame ∧ ¬ home q

/-- A step of a call that has not returned yet, or of one that it has made. The positions of the call itself are in
`home`. -/
structure Inside (link : Linkage) (host : Host) (base : List Activation) (home : Nat → Prop) (a b : State) : Prop where
  step : program.advance? link host a = some b
  home : a.calls = base → home a.position
  calls : base <:+ b.calls

structure Completes (link : Linkage) (host : Host) (first last : Nat) (a b : State) : Prop where
  begins : a.position = first
  ends : b.position = last
  calls : b.calls = a.calls
  run : Relation.ReflTransGen (program.Inside link host a.calls fun p => first ≤ p ∧ p < last) a b

variable {program} {base calls : List Activation} {home : Nat → Prop} {frame : FrameId} {t : Temp} {q : Nat}
  {code : Code}

lemma Inside.mono {home' : Nat → Prop} (h : program.Inside link host base home a b) (hh : ∀ p, home p → home' p) :
    program.Inside link host base home' a b :=
  ⟨h.step, fun hc => hh _ (h.home hc), h.calls⟩

lemma callee?_eq_some {target : Label} {id : FrameId} {callee : Frame}
    (h : program.callee? target = some (id, callee)) :
    program.frames.get? id = some callee ∧ callee.entry = some target :=
  ⟨program.frames.mem_entries.mp (List.mem_of_find?_eq_some h), by simpa using List.find?_some h⟩

lemma locals_eq {id : FrameId} {f : Frame} (h : program.frames.get? id = some f) : program.locals id = f.locals := by
  simp [locals, h]

lemma Active.flows {r : Nat} (h : program.Active home calls q) (hf : Code.Flows program.codes q r) (hne : calls ≠ []) :
    program.Active home calls r := by
  cases calls with
  | nil => exact absurd rfl hne
  | cons last calls =>
    obtain ⟨⟨entry, start, hd, hframe, hstart, hr⟩, hcaller⟩ := h
    exact ⟨⟨entry, start, hd, hframe, hstart, hr.tail hf⟩, hcaller⟩

lemma Private.under_eq (h : program.Private frame home t) (hl : program.Connected) (ha : program.Active home calls q)
    (hc : program.codes[q]? = some code) {op : FrameId × Tac} (ho : op ∈ code.op?)
    (hw : op.2.destination? = some (.temp t)) (v w : Word) : program.under t calls v = program.under t calls w := by
  obtain ⟨hframe, haway⟩ := h.written q code op hc ho hw
  cases calls with
  | nil => exact absurd ha haway
  | cons last calls =>
    obtain ⟨⟨entry, start, hd, hlast, hstart, hr⟩, -⟩ := ha
    have howner := hl.confined.function entry start hd hstart q hr code hc op ho
    have hstored : t ∈ program.locals last.frame := by rw [← hlast, ← howner, hframe]; exact h.stored
    simp only [under, if_pos hstored]

lemma Private.step (h : program.Private frame home t) (hl : program.Connected)
    (hs : program.advance? link host a = some b)
    (ha : a.calls = calls ++ base) (hactive : program.Active home calls a.position) (hb : base <:+ b.calls) :
    ∃ calls', b.calls = calls' ++ base ∧
      program.under t calls' (b.store.temps t) = program.under t calls (a.store.temps t) ∧
      (calls' ≠ [] → program.Active home calls' b.position) := by
  obtain ⟨code, hcode, hgoes | ⟨id, destination, target, arguments, frame', callee, start, hop, hcallee, hstart, rfl⟩ |
    ⟨last, rest, callee, store, hcalls, hcallee, hstore, rfl⟩⟩ := advance?_cases hs
  · -- The function goes on.
    refine ⟨calls, hgoes.calls.trans ha, ?_, hactive.flows hgoes.flows⟩
    by_cases hw : ∃ op ∈ code.op?, op.2.destination? = some (.temp t)
    · obtain ⟨op, ho, hw⟩ := hw
      exact h.under_eq hl hactive hcode ho hw _ _
    · rw [hgoes.temps t fun op ho hc => hw ⟨op, ho, hc⟩]
  · -- A call saves the temps from before.
    obtain ⟨hframe, hentry⟩ := callee?_eq_some hcallee
    obtain ⟨entry, hd, rfl, rfl⟩ := hl.declared frame' callee target hframe hentry
    refine ⟨⟨a.position + 1, destination, entry.frame, a.store.temps⟩ :: calls, by simp [ha], ?_, fun _ =>
      ⟨⟨entry, start, hd, rfl, hstart, .refl⟩, a.position, code, id, entry.label, arguments, rfl, hcode, hop, hactive⟩⟩
    by_cases hm : t ∈ program.locals entry.frame
    · simp [under, hm]
    · have hparams : t ∉ (callee.params.zip (arguments.map (·.value link a.store))).map Prod.fst := by
        intro hc
        obtain ⟨⟨param, value⟩, hz, rfl⟩ := List.mem_map.mp hc
        exact hm (locals_eq hframe ▸ hl.housed _ _ hframe _ (List.of_mem_zip hz).1)
      simp [under, hm, Store.receive_temps_of_notMem hparams]
  · -- A return restores them.
    cases calls with
    | nil =>
      obtain rfl : base = last :: rest := ha.symm.trans hcalls
      exact absurd hb.length_le (by simp)
    | cons first calls =>
      obtain ⟨rfl, rfl⟩ := List.cons.inj (hcalls.symm.trans ha)
      obtain ⟨-, caller, code', id, target, arguments, hback, hcaller, hop, hactive⟩ := hactive
      have hflows : Code.Flows program.codes caller (caller + 1) := .next hcaller (by simp [Code.passes, hop, passes])
      refine ⟨calls, rfl, ?_, fun hne => by simpa [hback] using hactive.flows hflows hne⟩
      by_cases hw : last.destination = some (.temp t)
      · exact h.under_eq hl hactive hcaller hop hw _ _
      · simp only [under, locals_eq hcallee, Store.temps_of_deliver? hstore hw, Store.restore]

lemma Private.run (h : program.Private frame home t) (hl : program.Connected)
    (hr : Relation.ReflTransGen (program.Inside link host a.calls home) a b) :
    ∃ calls, b.calls = calls ++ a.calls ∧ program.under t calls (b.store.temps t) = a.store.temps t ∧
      (calls ≠ [] → program.Active home calls b.position) := by
  induction hr with
  | refl => exact ⟨[], rfl, rfl, fun hne => absurd rfl hne⟩
  | @tail x y _ hstep ih =>
    obtain ⟨calls, hx, hunder, hactive⟩ := ih
    have hinside : program.Active home calls x.position := by
      cases calls with
      | nil => exact hstep.home hx
      | cons last calls => exact hactive (List.cons_ne_nil _ _)
    obtain ⟨calls', hy, hunder', hactive'⟩ := h.step hl hstep.step hx hinside hstep.calls
    exact ⟨calls', hy, hunder'.trans hunder, hactive'⟩

lemma Completes.kept {first last : Nat} (hc : program.Completes link host first last a b) (hl : program.Connected)
    (h : program.Private frame (fun p => first ≤ p ∧ p < last) t) : b.store.temps t = a.store.temps t := by
  obtain ⟨calls, hcalls, hunder, -⟩ := h.run hl hc.run
  have hnone : calls = [] := by simpa using hcalls.symm.trans hc.calls
  rwa [hnone] at hunder

end Program

end Tac

end TigerMips
