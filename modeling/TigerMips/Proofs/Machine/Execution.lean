import TigerMips.Proofs.Arena
import TigerMips.Proofs.Machine.Control
import TigerMips.Proofs.Ordered

/-! Executions of whole programs of machine code, with their calls, returns and system calls. Stores that
agree on what is read take the same steps. -/

namespace TigerMips

namespace Machine

structure SystemCall where
  service : Service
  selector : Word
  argument : Word
  limit : Option Word

structure Interaction extends SystemCall where
  result : Word
  memory : Memory

end Machine

open Machine

namespace Store

def request (store : Store) (service : Service) (v0 a0 a1 : Temp) : SystemCall where
  service := service
  selector := store.temps v0
  argument := store.temps a0
  limit := if service = .readString then some (store.temps a1) else none

def respond (store : Store) (service : Service) (v0 : Temp) (interaction : Interaction) : Store :=
  match service with
  | .sbrk => store.put v0 interaction.result
  | .readString => { store with memory := interaction.memory }
  | .printInt | .printString | .exitWithCode => store

structure Alike (temps : Set Temp) (a b : Store) : Prop where
  memory : a.memory = b.memory
  temps : ∀ t ∈ temps, a.temps t = b.temps t

namespace Alike

variable {before after : Set Temp} {a b : Store}

lemma mono (h : a.Alike before b) (hs : after ⊆ before) : a.Alike after b :=
  ⟨h.memory, fun t ht => h.temps t (hs ht)⟩

lemma put (h : a.Alike before b) {t : Temp} (hs : ∀ u ∈ after, u ≠ t → u ∈ before) (value : Word) :
    (a.put t value).Alike after (b.put t value) := by
  refine ⟨h.memory, fun u hu => ?_⟩
  by_cases hut : u = t
  · subst hut
    simp [Store.put]
  · simpa [Store.put, hut] using h.temps u (hs u hu hut)

end Alike

end Store

namespace Machine

def Operation.before (operation : Operation) (after : Set Temp) : Set Temp :=
  {t | t ∈ operation.uses ∨ t ∈ after ∧ t ∉ operation.defs}

def Line.before (line : Line) (after : Set Temp) : Set Temp :=
  match line with
  | label _ => after
  | instruction i => i.operation.before after

/-- A step of a program with its lines at some addresses. A return goes to a place where its frame is left to, and an
exit leaves the program. -/
inductive Step (link : Linkage) (address : Nat → Word) (frames : Arena .frame Frame) (lines : List Line) :
    Running → Option Interaction → Running → Prop
  | label {position store place} : lines[position]? = some (.label place) →
      Step link address frames lines ⟨position, store⟩ none ⟨position + 1, store⟩
  | pass {position store i after} : lines[position]? = some (.instruction i) →
      i.operation.exec? link store = some (after, none) →
      Step link address frames lines ⟨position, store⟩ none ⟨position + 1, after⟩
  | jump {position store i after place target} : lines[position]? = some (.instruction i) →
      i.operation.exec? link store = some (after, some place) → Line.Places lines place target →
      Step link address frames lines ⟨position, store⟩ none ⟨target, after⟩
  | call {position store i place register target} : lines[position]? = some (.instruction i) →
      i.operation = .jumpAndLink place register → Line.Places lines place target →
      Step link address frames lines ⟨position, store⟩ none ⟨target, store.put register (address (position + 1))⟩
  | ret {position store i register frame place target} : lines[position]? = some (.instruction i) →
      i.operation = .jumpRegister register → frames.get? i.frame = some frame → place ∈ frame.returns →
      Line.Places lines place target → store.temps register = address target →
      Step link address frames lines ⟨position, store⟩ none ⟨target, store⟩
  | syscall {position store i service v0 a0 a1 interaction} : lines[position]? = some (.instruction i) →
      i.operation = .syscall service v0 a0 a1 → interaction.toSystemCall = store.request service v0 a0 a1 →
      Step link address frames lines ⟨position, store⟩ (some interaction)
        ⟨if service = .exitWithCode then lines.length else position + 1, store.respond service v0 interaction⟩

def Executes (link : Linkage) (address : Nat → Word) (frames : Arena .frame Frame) (lines : List Line)
    (length : ℕ∞) (states : Nat → Running) (events : Nat → Option Interaction) : Prop :=
  ∀ n : Nat, n < length → Step link address frames lines (states n) (events n) (states (n + 1))

variable {link : Linkage} {address : Nat → Word} {frames : Arena .frame Frame} {lines : List Line}

lemma Operation.alike_exec? {operation : Operation} {after : Set Temp} {a b a' : Store} {target : Option Label}
    (h : a.Alike (operation.before after) b) (he : operation.exec? link a = some (a', target)) :
    ∃ b', operation.exec? link b = some (b', target) ∧ a'.Alike after b' := by
  have hread : ∀ t ∈ operation.uses, b.temps t = a.temps t := fun t ht => (h.temps t (Or.inl ht)).symm
  have hkept : operation.defs = [] → a.Alike after b := fun hd => h.mono fun t ht => Or.inr ⟨ht, by simp [hd]⟩
  have hput : ∀ t value, operation.defs = [t] → (a.put t value).Alike after (b.put t value) := fun t value hd =>
    h.put (fun u hu hne => Or.inr ⟨hu, by simpa [hd] using hne⟩) value
  have hmemory := h.memory
  cases operation with
  | arithmetic operator destination lhs rhs =>
    obtain ⟨value, hv, he⟩ := Option.map_eq_some_iff.mp he
    cases he
    refine ⟨_, ?_, hput destination value rfl⟩
    simp [exec?, hread lhs (by simp [uses, Ordered.mem_ofList]), hread rhs (by simp [uses, Ordered.mem_ofList]), hv]
  | addImmediate destination source immediate | setLessImmediate destination source immediate
  | negate destination source | move destination source =>
    cases he
    exact ⟨_, by rw [exec?, hread source List.mem_cons_self], hput destination _ rfl⟩
  | loadImmediate destination value | loadAddress destination value =>
    cases he
    exact ⟨_, rfl, hput destination _ rfl⟩
  | load width destination base offset =>
    cases he
    exact ⟨_, by rw [exec?, hread base List.mem_cons_self, ← hmemory], hput destination _ rfl⟩
  | store width source base offset =>
    cases he
    refine ⟨_, rfl, ⟨?_, (hkept rfl).temps⟩⟩
    simp only [hmemory, hread source (by simp [uses, Ordered.mem_ofList]),
      hread base (by simp [uses, Ordered.mem_ofList])]
  | jump place | save | restore =>
    cases he
    exact ⟨b, rfl, hkept rfl⟩
  | branch relation lhs rhs place =>
    cases he
    refine ⟨b, ?_, hkept rfl⟩
    simp [exec?, hread lhs (by simp [uses, Ordered.mem_ofList]), hread rhs (by simp [uses, Ordered.mem_ofList])]
  | jumpAndLink | jumpRegister | syscall => cases he

lemma Operation.fallsThrough_of_exec? {operation : Operation} {a a' : Store}
    (h : operation.exec? link a = some (a', none)) : operation.fallsThrough = true := by
  cases operation <;> first | rfl | cases h

lemma Instruction.mem_exits_of_exec? {i : Instruction} {a a' : Store} {place : Label}
    (h : i.operation.exec? link a = some (a', some place)) : place ∈ i.exits frames := by
  rcases i with ⟨frame, operation, transfer⟩
  cases operation with
  | jump target =>
    cases h
    exact List.mem_singleton_self _
  | branch relation lhs rhs target =>
    simp only [Operation.exec?, Option.some.injEq, Prod.mk.injEq] at h
    obtain ⟨-, h⟩ := h
    split at h
    · cases h
      exact List.mem_singleton_self _
    · cases h
  | arithmetic operator destination lhs rhs =>
    obtain ⟨_, -, h⟩ := Option.map_eq_some_iff.mp h
    cases h
  | _ => cases h

section

variable {service : Service} {v0 a0 a1 : Temp} {after : Set Temp} {a b : Store}

lemma request_congr (h : a.Alike ((Operation.syscall service v0 a0 a1).before after) b) :
    a.request service v0 a0 a1 = b.request service v0 a0 a1 := by
  have hread : ∀ t ∈ (Operation.syscall service v0 a0 a1).uses, a.temps t = b.temps t :=
    fun t ht => h.temps t (Or.inl ht)
  cases service <;> simp_all [Store.request, Operation.uses, Ordered.mem_ofList]

lemma alike_respond (h : a.Alike ((Operation.syscall service v0 a0 a1).before after) b) (interaction : Interaction) :
    (a.respond service v0 interaction).Alike after (b.respond service v0 interaction) := by
  have hkept : (Operation.syscall service v0 a0 a1).defs = [] → a.Alike after b := fun hd =>
    h.mono fun t ht => Or.inr ⟨ht, by simp [hd]⟩
  cases service with
  | sbrk => exact h.put (fun u hu hne => Or.inr ⟨hu, by simpa [Operation.defs] using hne⟩) _
  | readString => exact ⟨rfl, (hkept rfl).temps⟩
  | printInt | printString | exitWithCode => exact hkept rfl

end

namespace Step

variable {s s' t : Running} {event : Option Interaction}

lemma exists_line (h : Step link address frames lines s event s') : ∃ line, lines[s.position]? = some line := by
  cases h <;> exact ⟨_, ‹_›⟩

lemma leaves (h : Step link address frames lines s event s') {line : Line} (hl : lines[s.position]? = some line) :
    line.fallsThrough = true ∧ s'.position = s.position + 1 ∨
      (∃ place ∈ line.exits frames, Line.Places lines place s'.position) ∨ s'.position = lines.length := by
  cases h with
  | label hline =>
    obtain rfl := Option.some.inj (hline.symm.trans hl)
    exact Or.inl ⟨rfl, rfl⟩
  | pass hline he =>
    obtain rfl := Option.some.inj (hline.symm.trans hl)
    exact Or.inl ⟨Operation.fallsThrough_of_exec? he, rfl⟩
  | jump hline he hp =>
    obtain rfl := Option.some.inj (hline.symm.trans hl)
    exact Or.inr (Or.inl ⟨_, Instruction.mem_exits_of_exec? he, hp⟩)
  | call hline hi hp =>
    obtain rfl := Option.some.inj (hline.symm.trans hl)
    exact Or.inr (Or.inl ⟨_, by simp [Line.exits, Instruction.exits, hi, Operation.target?], hp⟩)
  | ret hline hi hf hr hp =>
    obtain rfl := Option.some.inj (hline.symm.trans hl)
    exact Or.inr (Or.inl ⟨_, by simpa [Line.exits, Instruction.exits, hi, hf] using hr, hp⟩)
  | @syscall _ _ _ service _ _ _ _ hline hi =>
    obtain rfl := Option.some.inj (hline.symm.trans hl)
    by_cases hexit : service = .exitWithCode
    · exact Or.inr (Or.inr (if_pos hexit))
    · exact Or.inl ⟨by simp [Line.fallsThrough, hi, Operation.fallsThrough], if_neg hexit⟩

lemma alike (h : Step link address frames lines s event s') {line : Line} (hl : lines[s.position]? = some line)
    {after : Set Temp} (hp : t.position = s.position) (ha : s.store.Alike (line.before after) t.store) :
    ∃ t', Step link address frames lines t event t' ∧ t'.position = s'.position ∧ s'.store.Alike after t'.store := by
  rcases t with ⟨position, store⟩
  obtain rfl := hp
  cases h with
  | label hline =>
    obtain rfl := Option.some.inj (hline.symm.trans hl)
    exact ⟨_, .label hline, rfl, ha⟩
  | pass hline he =>
    obtain rfl := Option.some.inj (hline.symm.trans hl)
    obtain ⟨after', he', ha'⟩ := Operation.alike_exec? ha he
    exact ⟨_, .pass hline he', rfl, ha'⟩
  | jump hline he hplace =>
    obtain rfl := Option.some.inj (hline.symm.trans hl)
    obtain ⟨after', he', ha'⟩ := Operation.alike_exec? ha he
    exact ⟨_, .jump hline he' hplace, rfl, ha'⟩
  | call hline hi hplace =>
    obtain rfl := Option.some.inj (hline.symm.trans hl)
    simp only [Line.before, hi] at ha
    exact ⟨_, .call hline hi hplace, rfl, ha.put (fun u hu hne => Or.inr ⟨hu, by simpa [Operation.defs] using hne⟩) _⟩
  | ret hline hi hf hr hplace haddress =>
    obtain rfl := Option.some.inj (hline.symm.trans hl)
    simp only [Line.before, hi] at ha
    refine ⟨_, .ret hline hi hf hr hplace ?_, rfl, ha.mono fun u hu => Or.inr ⟨hu, by simp [Operation.defs]⟩⟩
    rw [← haddress]
    exact (ha.temps _ (Or.inl (by simp [Operation.uses]))).symm
  | @syscall _ _ _ service v0 a0 a1 interaction hline hi hrequest =>
    obtain rfl := Option.some.inj (hline.symm.trans hl)
    simp only [Line.before, hi] at ha
    exact ⟨_, .syscall hline hi (hrequest.trans (request_congr ha)), rfl, alike_respond ha interaction⟩

end Step

lemma Executes.exists_matching {R : Running → Running → Prop}
    (hstep : ∀ {s t event s'}, R s t → Step link address frames lines s event s' →
      ∃ t', Step link address frames lines t event t' ∧ R s' t')
    {length : ℕ∞} {states : Nat → Running} {events : Nat → Option Interaction}
    (h : Executes link address frames lines length states events) {t : Running} (ht : R (states 0) t) :
    ∃ others, others 0 = t ∧ Executes link address frames lines length others events ∧
      ∀ n : Nat, n ≤ length → R (states n) (others n) := by
  classical
  let Answers (n : Nat) (t t' : Running) : Prop :=
    Step link address frames lines t (events n) t' ∧ R (states (n + 1)) t'
  let others : Nat → Running := fun n => n.rec t fun n t => if ht : ∃ t', Answers n t t' then ht.choose else t
  have hnext : ∀ n : Nat, n < length → R (states n) (others n) → Answers n (others n) (others (n + 1)) := by
    intro n hn hr
    have hex : ∃ t', Answers n (others n) t' := hstep hr (h n hn)
    have he : others (n + 1) = hex.choose := dif_pos hex
    exact he ▸ hex.choose_spec
  have hall : ∀ n : Nat, n ≤ length → R (states n) (others n) := by
    intro n
    induction n with
    | zero => exact fun _ => ht
    | succ n ih =>
      intro hn
      have hlt : (n : ℕ∞) < length := lt_of_lt_of_le (by exact_mod_cast Nat.lt_succ_self n) hn
      exact (hnext n hlt (ih hlt.le)).2
  exact ⟨others, rfl, fun n hn => (hnext n hn (hall n hn.le)).1, hall⟩

end Machine

end TigerMips
