import TigerMips.Proofs.Block
import TigerMips.Proofs.Labels
import TigerMips.Proofs.Machine.Run
import TigerMips.Proofs.Select.Unwinding
import TigerMips.Proofs.Tac.Calls

/-! The functions of the runtime that work on texts, and the loops that they are made of. A text is measured and copied
byte by byte, up to the zero behind it. -/

namespace TigerMips

namespace Temp

def fresh (n count : Nat) : List Temp := (List.range' n count).map mk

variable {n count : Nat} {t : Temp} {temps : List Temp}

lemma le_of_mem_fresh (h : t ∈ fresh n count) : n ≤ t.number := by
  obtain ⟨m, hm, rfl⟩ := List.mem_map.mp h
  exact (List.mem_range'_1.mp hm).1

lemma notMem_append_fresh (h : t ∉ temps) (ht : t.number < n) : t ∉ temps ++ fresh n count := fun hm =>
  (List.mem_append.mp hm).elim h fun hm => absurd ht (Nat.not_lt.mpr (le_of_mem_fresh hm))

lemma ne_of_lt {t u : Temp} (h : t.number < u.number) : t ≠ u := fun hc => absurd h (hc ▸ Nat.lt_irrefl _)

lemma nodup_append_fresh (hn : temps.Nodup) (hb : Below n temps) (count : Nat) : (temps ++ fresh n count).Nodup := by
  refine hn.append (List.Nodup.map (fun _ _ => congrArg number) List.nodup_range') fun t ht hf => ?_
  exact absurd (hb t ht) (Nat.not_lt.mpr (le_of_mem_fresh hf))

end Temp

lemma Store.SameBut.below {n count : Nat} {written : List Temp} {a b : Store}
    (h : a.SameBut (written ++ Temp.fresh n count) b) : a.SameBelow n written b :=
  h.mono fun _ ht => Temp.notMem_append_fresh ht.2 ht.1

def Machine.SystemCall.grow (size : Word) : SystemCall := ⟨.sbrk, Service.sbrk.code, size, none⟩

namespace Store

def Delivers (link : Linkage) (bound : Nat) (store : Store) (memory : Memory) (destination : Option Access)
    (result : Word) (after : Store) : Prop :=
  ∃ expected, { store with memory }.deliver? link destination (some result) = some expected ∧ expected.Agree bound after

namespace Agree

variable {n : Nat} {a b : Store}

lemma symm (h : Agree n a b) : Agree n b a := ⟨h.1.symm, fun t ht => (h.2 t ht).symm⟩

lemma deliver? {expected : Store} {link : Linkage} {destination : Option Access} {value : Option Word} (h : Agree n a b)
    (hd : ∀ place ∈ destination, Temp.Below n place.temps) (hw : a.deliver? link destination value = some expected) :
    ∃ other, b.deliver? link destination value = some other ∧ Agree n expected other := by
  unfold Store.deliver? at hw ⊢
  split at hw
  · exact h.write? (hd _ rfl) hw
  · obtain rfl := Option.some.inj hw
    exact ⟨b, rfl, h⟩

end Agree

end Store

namespace Select

open Machine Memory

variable {context : Context} {link : Linkage} {bound : Nat} {store : Store} {text : List UInt8} {s s' : Selection}
  {lines : List Line}

def measureLoop (context : Context) (string size cursor byte : Temp) (start exit : Label) : List Line :=
  [context.line (.move cursor string),
    context.line (.move size context.registers.zero),
    .label start,
    loadByte context byte cursor,
    context.line (.branch .eq byte context.registers.zero exit),
    increment context cursor 1,
    increment context size 1,
    context.line (.jump start),
    .label exit]

def copyLoop (context : Context) (source target byte : Temp) (start exit : Label) : List Line :=
  [.label start,
    loadByte context byte source,
    context.line (.branch .eq byte context.registers.zero exit),
    storeByte context byte target 0,
    increment context source 1,
    increment context target 1,
    context.line (.jump start),
    .label exit]

lemma test_loadByte (memory : Memory) (a : Word) : Relation.eq.test (memory.loadByte a) 0 = decide (memory a = 0) := by
  simp [Relation.test, loadByte_eq_zero]

lemma exec?_branch_zero {byte : Temp} {exit : Label} {a : Word} (hzb : context.registers.zero ≠ byte)
    (hz : store.temps context.registers.zero = 0) (ha : store.memory a = 0) :
    (Operation.branch .eq byte context.registers.zero exit).exec? link (store.put byte (store.memory.loadByte a)) =
      some (store.put byte (store.memory.loadByte a), some exit) := by
  simp [Operation.exec?, Store.put, hzb, hz, loadByte_eq_zero.mpr ha, Relation.test]

lemma leads_measureLoop {string size cursor byte : Temp} {start exit : Label}
    (hd : [context.registers.zero, size, cursor, byte].Nodup) (hz : store.temps context.registers.zero = 0)
    (htext : store.memory.HasText (store.temps cursor) text) :
    ∃ after, Leads link (measureLoop context string size cursor byte start exit) 2 store [] 9 after ∧
      after.temps size = store.temps size + .ofNat text.length ∧ after.memory = store.memory ∧
      store.SameBut [size, cursor, byte] after := by
  simp only [List.nodup_cons, List.mem_cons, List.not_mem_nil, or_false, not_or] at hd
  obtain ⟨⟨hzs, hzc, hzb⟩, ⟨hsc, hsb⟩, hcb, -⟩ := hd
  induction text generalizing store with
  | nil =>
    let read := store.put byte (store.memory.loadByte (store.temps cursor))
    have hread : run? link store [.label start, loadByte context byte cursor] = some read := by
      simp [run?_cons, Line.pass?, loadByte, Context.line, Operation.exec?, Operation.loadFrom, read]
    refine ⟨read, (Leads.stretch 2 2 (by simp [measureLoop]) hread).followed ((Leads.jump 4 8 rfl rfl
      (exec?_branch_zero hzb hz htext)).followed
      (Leads.stretch 8 1 (by simp [measureLoop]) rfl)), ?_, rfl, (Store.SameOn.refl store).put (by simp) _⟩
    simp [read, Store.put, hsb]
  | cons b rest ih =>
    obtain ⟨hne, hbyte, hrest⟩ := htext
    let next := ((store.put byte (store.memory.loadByte (store.temps cursor))).put cursor (store.temps cursor + 1)).put
      size (store.temps size + 1)
    have hpass : run? link store [.label start, loadByte context byte cursor,
        context.line (.branch .eq byte context.registers.zero exit), increment context cursor 1,
        increment context size 1] = some next := by
      have htest := test_loadByte store.memory (store.temps cursor)
      simp [run?_cons, Line.pass?, loadByte, increment, Context.line, Operation.exec?, Operation.loadFrom,
        next, Store.put, Immediate.value, hzb, hcb, hsc, hsb, hz, htest, hbyte, hne]
    have hcursor : next.temps cursor = store.temps cursor + 1 := by simp [next, Store.put, Ne.symm hsc]
    have hsize : next.temps size = store.temps size + 1 := by simp [next, Store.put]
    have hzero : next.temps context.registers.zero = 0 := by simp [next, Store.put, hzs, hzc, hzb, hz]
    obtain ⟨after, hleads, hcounted, hmemory, hsame⟩ := ih hzero (hcursor ▸ hrest)
    refine ⟨after, (Leads.stretch 2 5 (by simp [measureLoop]) hpass).followed
      ((Leads.jump 7 2 rfl rfl rfl).followed hleads), ?_, hmemory, .trans ?_ hsame⟩
    · rw [hcounted, hsize, add_ofNat_length_cons]
    · exact (((Store.SameOn.refl store).put (by simp) _).put (by simp) _).put (by simp) _

lemma passes_measureLoop {string size cursor byte : Temp} {start exit : Label}
    (hd : [context.registers.zero, size, cursor, byte].Nodup) (hz : store.temps context.registers.zero = 0)
    (htext : store.memory.HasText (store.temps string) text) :
    ∃ after, Passes link (measureLoop context string size cursor byte start exit) store [] after ∧
      after.temps size = .ofNat text.length ∧ after.memory = store.memory ∧
      store.SameBut [size, cursor, byte] after := by
  let started := (store.put cursor (store.temps string)).put size 0
  have hne := hd
  simp only [List.nodup_cons, List.mem_cons, List.not_mem_nil, or_false, not_or] at hne
  obtain ⟨⟨hzs, hzc, -⟩, ⟨hsc, -⟩, -⟩ := hne
  have hstarted : run? link store [context.line (.move cursor string),
      context.line (.move size context.registers.zero)] = some started := by
    simp [run?_cons, Line.pass?, Context.line, Operation.exec?, started, Store.put, hzc, hz]
  have hzero : started.temps context.registers.zero = 0 := by simp [started, Store.put, hzs, hzc, hz]
  have hcursor : started.temps cursor = store.temps string := by simp [started, Store.put, Ne.symm hsc]
  obtain ⟨after, hleads, hsize, hmemory, hsame⟩ := leads_measureLoop hd hzero (hcursor ▸ htext)
  refine ⟨after, (Leads.stretch 0 2 (by simp [measureLoop]) hstarted).followed hleads, ?_, hmemory, .trans ?_ hsame⟩
  · simpa [started, Store.put] using hsize
  · exact ((Store.SameOn.refl store).put (by simp) _).put (by simp) _

lemma passes_copyLoop {source target byte : Temp} {start exit : Label}
    (hd : [context.registers.zero, source, target, byte].Nodup) (hz : store.temps context.registers.zero = 0)
    (htext : store.memory.HasText (store.temps source) text)
    (hapart : Disjoint (block (store.temps target) text.length) (block (store.temps source) (text.length + 1))) :
    ∃ after, Passes link (copyLoop context source target byte start exit) store [] after ∧
      after.temps target = store.temps target + .ofNat text.length ∧
      after.memory = store.memory.storeBytes (store.temps target) text ∧
      store.SameBut [source, target, byte] after := by
  simp only [List.nodup_cons, List.mem_cons, List.not_mem_nil, or_false, not_or] at hd
  obtain ⟨⟨hzs, hzt, hzb⟩, ⟨hst, hsb⟩, htb, -⟩ := hd
  induction text generalizing store with
  | nil =>
    let read := store.put byte (store.memory.loadByte (store.temps source))
    have hread : run? link store [.label start, loadByte context byte source] = some read := by
      simp [run?_cons, Line.pass?, loadByte, Context.line, Operation.exec?, Operation.loadFrom, read]
    refine ⟨read, (Leads.stretch 0 2 (by simp [copyLoop]) hread).followed ((Leads.jump 2 7 rfl rfl
      (exec?_branch_zero hzb hz htext)).followed
      (Leads.stretch 7 1 (by simp [copyLoop]) rfl)), ?_, rfl, (Store.SameOn.refl store).put (by simp) _⟩
    simp [read, Store.put, htb]
  | cons b rest ih =>
    obtain ⟨hne, hbyte, hrest⟩ := htext
    let next := (((Store.mk store.temps (store.memory.storeByte (store.temps target) b)).put byte
      (store.memory.loadByte (store.temps source))).put source (store.temps source + 1)).put target
      (store.temps target + 1)
    have hpass : run? link store [.label start, loadByte context byte source,
        context.line (.branch .eq byte context.registers.zero exit), storeByte context byte target 0,
        increment context source 1, increment context target 1] = some next := by
      have htest := test_loadByte store.memory (store.temps source)
      have hlow := extract_loadByte store.memory (store.temps source)
      simp [run?_cons, Line.pass?, loadByte, storeByte, Select.store, increment, Context.line, Operation.exec?,
        Operation.loadFrom, Operation.storeTo, next, Store.put, Immediate.value, hzb, hsb, Ne.symm hst, htb,
        hz, htest, hlow,
        hbyte, hne]
    have hsource : next.temps source = store.temps source + 1 := by simp [next, Store.put, hst]
    have htarget : next.temps target = store.temps target + 1 := by simp [next, Store.put]
    have hzero : next.temps context.registers.zero = 0 := by simp [next, Store.put, hzs, hzt, hzb, hz]
    obtain ⟨hkept, hapart⟩ := hrest.copy_first hapart
    rw [← hsource, ← htarget] at hapart
    obtain ⟨after, hleads, hended, hmemory, hsame⟩ := ih hzero (hsource ▸ hkept) hapart
    refine ⟨after, (Leads.stretch 0 6 (by simp [copyLoop]) hpass).followed
      ((Leads.jump 6 0 rfl rfl rfl).followed hleads), ?_, ?_, .trans ?_ hsame⟩
    · rw [hended, htarget, add_ofNat_length_cons]
    · rw [hmemory, htarget]
      rfl
    · exact (((Store.SameOn.refl store).put (by simp) _).put (by simp) _).put (by simp) _

lemma measure_eq_ok {string size : Temp} (h : measure context string size s = .ok (lines, s')) :
    lines = measureLoop context string size ⟨s.supply.temps⟩ ⟨s.supply.temps + 1⟩ ⟨s.supply.labels⟩
      ⟨s.supply.labels + 1⟩ ∧ s' = s.drawn context.frame 2 2 := by
  have htemps := newTempIn_bind (newTempIn_bind (newLabel_bind context.frame (newLabel_bind context.frame h)))
  obtain ⟨rfl, rfl⟩ := pure_eq_ok.mp htemps
  exact ⟨rfl, by simp [Selection.drawn_drawn]⟩

lemma passes_measure (link : Linkage) {string size : Temp} (h : measure context string size s = .ok (lines, s'))
    (hzero : context.registers.zero.number < s.supply.temps) (hsize : size.number < s.supply.temps)
    (hne : context.registers.zero ≠ size)
    (hz : store.temps context.registers.zero = 0) (htext : store.memory.HasText (store.temps string) text) :
    ∃ after, Passes link lines store [] after ∧ after.temps size = .ofNat text.length ∧ after.memory = store.memory ∧
      store.SameBelow s.supply.temps [size] after := by
  obtain ⟨rfl, -⟩ := measure_eq_ok h
  have hold : [context.registers.zero, size].Nodup := by simpa using hne
  have hbelow : Temp.Below s.supply.temps [context.registers.zero, size] := by simp [hzero, hsize]
  obtain ⟨after, hpasses, hlength, hmemory, hsame⟩ :=
    passes_measureLoop (Temp.nodup_append_fresh hold hbelow 2) hz htext
  have hsame : store.SameBut ([size] ++ Temp.fresh s.supply.temps 2) after := hsame
  exact ⟨after, hpasses, hlength, hmemory, hsame.below⟩

lemma copyBytes_eq_ok {source target : Temp} (h : copyBytes context source target s = .ok (lines, s')) :
    lines = copyLoop context source target ⟨s.supply.temps⟩ ⟨s.supply.labels⟩ ⟨s.supply.labels + 1⟩ ∧
      s' = s.drawn context.frame 1 2 := by
  have htemp := newTempIn_bind (newLabel_bind context.frame (newLabel_bind context.frame h))
  obtain ⟨rfl, rfl⟩ := pure_eq_ok.mp htemp
  exact ⟨rfl, by simp [Selection.drawn_drawn]⟩

lemma passes_copyBytes (link : Linkage) {source target : Temp} (h : copyBytes context source target s = .ok (lines, s'))
    (hb : Temp.Below s.supply.temps [context.registers.zero, source, target])
    (hd : [context.registers.zero, source, target].Nodup) (hz : store.temps context.registers.zero = 0)
    (htext : store.memory.HasText (store.temps source) text)
    (hapart : Disjoint (block (store.temps target) text.length) (block (store.temps source) (text.length + 1))) :
    ∃ after, Passes link lines store [] after ∧ after.temps target = store.temps target + .ofNat text.length ∧
      after.memory = store.memory.storeBytes (store.temps target) text ∧
      store.SameBelow s.supply.temps [source, target] after := by
  obtain ⟨rfl, -⟩ := copyBytes_eq_ok h
  obtain ⟨after, hpasses, hended, hmemory, hsame⟩ := passes_copyLoop (Temp.nodup_append_fresh hd hb 1) hz htext hapart
  have hsame : store.SameBut ([source, target] ++ Temp.fresh s.supply.temps 1) after := hsame
  exact ⟨after, hpasses, hended, hmemory, hsame.below⟩

def allocation (context : Context) (size result : Temp) : List Line :=
  let { v0, a0, a1, .. } := context.registers
  [context.line (.move a0 size),
    context.line (.loadImmediate v0 Service.sbrk.code),
    context.line (.syscall .sbrk v0 a0 a1),
    context.line (.move result v0)]

lemma allocate_temp (size result : Temp) (s : Selection) :
    allocate context (.temp size) result s = .ok (allocation context size result, s) := rfl

lemma passes_allocation (link : Linkage) {size : Temp} (result : Temp)
    (hd : context.registers.a0 ≠ context.registers.v0) {grant : Interaction}
    (hgrant : grant.toSystemCall = .grow (store.temps size)) :
    ∃ after, Passes link (allocation context size result) store [grant] after ∧ after.temps result = grant.result ∧
      after.memory = store.memory ∧ store.SameBut [context.registers.a0, context.registers.v0, result] after := by
  let asked := (store.put context.registers.a0 (store.temps size)).put context.registers.v0 Service.sbrk.code
  have hrequest : grant.toSystemCall =
      asked.request .sbrk context.registers.v0 context.registers.a0 context.registers.a1 := by
    simp [hgrant, SystemCall.grow, Store.request, asked, Store.put, hd]
  let given := asked.put context.registers.v0 grant.result
  have hgiven :
      run? link given [context.line (.move result context.registers.v0)] = some (given.put result grant.result) := by
    simp [run?_cons, Line.pass?, Context.line, Operation.exec?, given, Store.put]
  exact ⟨_, (Leads.stretch 0 2 (by simp [allocation]) rfl).followed
    ((Leads.sbrk 2 rfl rfl hrequest).trans (Leads.stretch 3 1 (by simp [allocation]) hgiven)), by simp [Store.put], rfl,
    ((((Store.SameOn.refl store).put (by simp) _).put (by simp) _).put (by simp) _).put (by simp) _⟩

lemma loadInto_ok (link : Linkage) {destination : Temp} {source : Access}
    (h : loadInto context destination source s = .ok (lines, s')) (hz : context.registers.zero.number < s.supply.temps)
    (ht : Temp.Below s.supply.temps source.temps) :
    (∃ k, s' = s.drawn context.frame k 0) ∧ ∀ store, store.temps context.registers.zero = 0 →
      ∃ middle, run? link store lines = some (middle.put destination (source.value link store)) ∧
        store.Agree s.supply.temps middle := by
  obtain ⟨⟨reading, operation⟩, s₁, hloading, h⟩ := bind_eq_ok.mp h
  obtain ⟨rfl, rfl⟩ := pure_eq_ok.mp h
  obtain ⟨hdrawn, -, hcomputes⟩ := loading_ok link hloading hz ht
  refine ⟨hdrawn, fun store hzero => ?_⟩
  obtain ⟨middle, hrun, hagree, hexec⟩ := hcomputes store hzero
  exact ⟨middle, run?_append hrun (run?_instruction hexec), hagree⟩

lemma storeResult_ok (link : Linkage) {destination : Option Access} {source : Access} {s s' : Selection}
    {lines : List Line} (h : storeResult context destination source s = .ok (lines, s'))
    (hready : Ready context.registers bound s) (hd : ∀ place ∈ destination, Temp.Below bound place.temps)
    (hs : Temp.Below s.supply.temps source.temps) :
    (∃ k, s' = s.drawn context.frame k 0) ∧ ∀ store, store.temps context.registers.zero = 0 →
      ∃ expected after, store.deliver? link destination (some (source.value link store)) = some expected ∧
        run? link store lines = some after ∧ expected.Agree bound after ∧ after.temps context.registers.zero = 0 := by
  cases destination with
  | none =>
    obtain ⟨rfl, rfl⟩ := pure_eq_ok.mp h
    exact ⟨⟨0, (Selection.drawn_zero _ _).symm⟩, fun store hz => ⟨store, store, rfl, rfl, .refl _ _, hz⟩⟩
  | some place =>
    have hbelow := hd place rfl
    have hne : place ≠ .temp context.registers.zero := by
      rintro rfl
      exact absurd (hbelow _ (by simp [Access.temps])) (Nat.not_lt.mpr hready.zero_new)
    obtain ⟨hdrawn, before, last, rfl, -, hcarries⟩ := carries_move link h hready (fun u hu =>
      (List.mem_append.mp hu).elim (fun hu => (hbelow u hu).trans_le hready.bound_le) (hs u)) hne
    refine ⟨hdrawn, fun store hz => ?_⟩
    obtain ⟨expected, hwrite⟩ : ∃ expected, place.write? link store (source.value link store) = some expected := by
      cases place with
      | const constant => exact (throw_ne_ok h).elim
      | temp u | memory base offset => exact ⟨_, rfl⟩
    obtain ⟨middle, after, hbefore, hlast, hagree, hzero⟩ := hcarries store expected none hz (by
      simp [Tac.exec?, hwrite])
    exact ⟨expected, after, hwrite, run?_append hbefore (run?_instruction hlast), hagree, hzero⟩

lemma run?_storeResult (link : Linkage) {destination : Option Access} {source : Access} {s s' : Selection}
    {lines : List Line} {start : Store} (h : storeResult context destination source s = .ok (lines, s'))
    (hready : Ready context.registers bound s) (hd : ∀ place ∈ destination, Temp.Below bound place.temps)
    (hs : Temp.Below s.supply.temps source.temps) (hz : store.temps context.registers.zero = 0)
    (hsame : ∀ u : Temp, u.number < bound → store.temps u = start.temps u) :
    ∃ after, run? link store lines = some after ∧
      start.Delivers link bound store.memory destination (source.value link store) after ∧
      after.temps context.registers.zero = 0 := by
  obtain ⟨expected, after, hdeliver, hrun, hagree, hzero⟩ := (storeResult_ok link h hready hd hs).2 store hz
  have hstart : store.Agree bound { start with memory := store.memory } := ⟨rfl, hsame⟩
  obtain ⟨other, hother, hexpected⟩ := hstart.deliver? hd hdeliver
  exact ⟨after, hrun, ⟨other, hother, hexpected.symm.trans hagree⟩, hzero⟩

lemma passes_storeResult (link : Linkage) {destination : Option Access} {t : Temp} {s s' : Selection}
    {lines : List Line} {start : Store}
    (h : storeResult context destination (.temp t) s = .ok (lines, s')) (hready : Ready context.registers bound s)
    (hd : ∀ place ∈ destination, Temp.Below bound place.temps) (ht : t.number < s.supply.temps)
    (hz : store.temps context.registers.zero = 0)
    (hsame : ∀ u : Temp, u.number < bound → store.temps u = start.temps u) :
    ∃ after, Passes link lines store [] after ∧
      start.Delivers link bound store.memory destination (store.temps t) after ∧
      after.temps context.registers.zero = 0 := by
  obtain ⟨after, hrun, hdelivers, hzero⟩ := run?_storeResult link h hready hd
    (fun u hu => List.mem_singleton.mp hu ▸ ht) hz hsame
  exact ⟨after, .of_run? hrun, hdelivers, hzero⟩

namespace Settled

variable (h : Settled context.registers bound s)

include h

lemma calls : Temp.Below s.supply.temps [context.registers.a0, context.registers.v0] ∧
    (∀ r ∈ [context.registers.a0, context.registers.v0], bound ≤ r.number) ∧
    [context.registers.zero, context.registers.a0, context.registers.v0].Nodup := by
  have hmem : ∀ r ∈ [context.registers.a0, context.registers.v0], r ∈ context.registers.temps := by
    simp [Registers.temps]
  refine ⟨fun r hr => h.drawn r (hmem r hr), fun r hr => h.above r (hmem r hr), ?_⟩
  have hnodup := h.nodup
  simp only [Registers.temps, List.nodup_cons, List.mem_cons, List.not_mem_nil, or_false, not_or] at hnodup ⊢
  grind

lemma register_ne {access : Access} {t : Temp} (ha : Temp.Below bound access.temps)
    (ht : register context access s = .ok ((t, lines), s')) : t ∉ [context.registers.a0, context.registers.v0] := by
  obtain ⟨hdrawn, habove, hdistinct⟩ := h.calls
  have hnew : (⟨s.supply.temps⟩ : Temp) ∉ [context.registers.a0, context.registers.v0] := fun hm =>
    absurd (hdrawn _ hm) (Nat.lt_irrefl _)
  cases access with
  | temp u =>
    obtain ⟨rfl, -, -⟩ := pure_pair_eq_ok.mp ht
    exact fun hm => absurd (ha t (by simp [Access.temps])) (Nat.not_lt.mpr (habove t hm))
  | const constant =>
    by_cases hc : constant = .int 0
    · simp only [register, if_pos hc] at ht
      obtain ⟨rfl, -, -⟩ := pure_pair_eq_ok.mp ht
      exact (List.nodup_cons.mp hdistinct).1
    · simp only [register, if_neg hc] at ht
      have ht := newTempIn_bind ht
      obtain ⟨rfl, -, -⟩ := pure_pair_eq_ok.mp ht
      exact hnew
  | memory base offset =>
    simp only [register] at ht
    have ht := newTempIn_bind ht
    obtain ⟨_, s₂, -, ht⟩ := bind_eq_ok.mp ht
    obtain ⟨rfl, -, -⟩ := pure_pair_eq_ok.mp ht
    exact hnew

lemma later (frame : FrameId) (m n : Nat) : Settled context.registers bound (s.drawn frame m n) :=
  ⟨h.toFixed, fun r hr => (h.drawn r hr).trans_le (by simp)⟩

end Settled

end Select

open Machine Select

namespace Tac.Program

structure Numbered (program : Tac.Program) : Prop where
  temps : Temp.Below program.supply.temps (Code.temps program.codes)
  labels : ∀ place ∈ Code.labels program.codes, place.number < program.supply.labels
  nodup : (Code.labels program.codes).Nodup

def RunsAt (program : Tac.Program) (machine : Machine.Program) (position : Nat) (link : Linkage) (address : Nat → Word)
    (store : Store) (events : List Interaction) (after : Store) : Prop :=
  ∃ before own, program.Selects machine position before own ∧
    Runs link address machine.frames machine.lines ⟨before.length, store⟩ events ⟨before.length + own.length, after⟩

variable {program : Tac.Program} {machine : Machine.Program}

lemma le_of_mem_registers (hgenerate : program.generate = .ok machine) {r : Temp} (hr : r ∈ machine.registers.temps) :
    program.supply.temps ≤ r.number := by
  obtain ⟨state, -, -, hregisters, -⟩ := exists_trace hgenerate
  exact (Supply.mem_tempsTo.mp (hregisters ▸ hr)).1

section

variable {position : Nat} {c : Code}

lemma Selects.runsAt (hgenerate : program.generate = .ok machine) (h : program.Numbered) {before own : List Line}
    (hselects : program.Selects machine position before own) {link : Linkage} {address : Nat → Word}
    {store after : Store}
    {events : List Interaction} (hpasses : Passes link own store events after) :
    program.RunsAt machine position link address store events after := by
  obtain ⟨_, _, _, _, _, _, -, -, -, -, rest, hlines⟩ := id hselects
  refine ⟨before, own, hselects, hpasses address machine.frames machine.lines before.length
    (nodup_generate hgenerate h.nodup h.labels) ⟨rest, ?_⟩⟩
  rw [← hlines, List.append_assoc, List.drop_left]

lemma exists_settled (hgenerate : program.generate = .ok machine) (hc : program.codes[position]? = some c) :
    ∃ s before own saves s', program.Selects machine position before own ∧
      Select.code machine.registers program.callGraph before.length c s = .ok ((own, saves), s') ∧
      Settled machine.registers program.supply.temps s := by
  obtain ⟨state, htrace, -, hregisters, -⟩ := exists_trace hgenerate
  obtain ⟨before, own, saves, t, hselects, hown⟩ := htrace.selects hgenerate hc
  exact ⟨state position, before, own, saves, t, hselects, hown,
    htrace.settled hregisters (List.getElem?_eq_some_iff.mp hc).1.le⟩

lemma Numbered.below (h : program.Numbered) (hc : program.codes[position]? = some c) {frame : FrameId} {tac : Tac}
    (hop : c.op? = some (frame, tac)) : Temp.Below program.supply.temps tac.temps :=
  fun t ht => h.temps t (List.mem_flatMap.mpr ⟨_, List.mem_filterMap.mpr ⟨c, List.mem_of_getElem? hc, hop⟩, ht⟩)

lemma Numbered.expands (h : program.Numbered) (hgenerate : program.generate = .ok machine)
    (hc : program.codes[position]? = some c) {frame : FrameId} {destination : Option Access} {name : String}
    {arguments : List Access} (hcall : c.op? = some (frame, .callRuntime destination name arguments)) :
    ∃ s lines s', Select.callRuntime ⟨frame, machine.registers⟩ destination name arguments s = .ok (lines, s') ∧
      Settled machine.registers program.supply.temps s ∧
      (∀ access ∈ destination.toList ++ arguments, Temp.Below program.supply.temps access.temps) ∧
      ∀ {link address store events after}, Passes link lines store events after →
        program.RunsAt machine position link address store events after := by
  obtain ⟨s, before, own, saves, t, hselects, hown, hsettled⟩ := exists_settled hgenerate hc
  have hbelow : ∀ access ∈ destination.toList ++ arguments, Temp.Below program.supply.temps access.temps :=
    fun access hm t ht => h.below hc hcall t (List.mem_flatMap.mpr ⟨access, hm, ht⟩)
  obtain ⟨label, first, lines, ho, rfl, hlabel⟩ := operation_of_code hown hcall
  obtain ⟨called, s₁, hcalled, ho⟩ := bind_eq_ok.mp ho
  obtain ⟨rfl, -, -⟩ := pure_pair_eq_ok.mp ho
  exact ⟨s, _, s₁, hcalled, hsettled, hbelow, fun hpasses =>
    hselects.runsAt hgenerate h ((Passes.of_run? (hlabel _ _)).append hpasses)⟩

end

end Tac.Program

lemma numbered_analyze {expression : Expr} (h : (analyze expression).1 = []) : (analyze expression).2.Numbered where
  temps := below_analyze h
  labels _ hl := lt_supply_of_mem_labels h hl
  nodup := (wellLabeled_codes h).nodup

end TigerMips
