import TigerMips.Proofs.Analysis.Owners
import TigerMips.Proofs.Memory
import TigerMips.Proofs.Select.Growth

/-! A call takes down what it has set up. The registers of the caller and the static link of the callee are saved in
three words below the stack pointer, and come back from there. -/

namespace TigerMips

def Memory.save (memory : Memory) (address first second third : Word) : Memory :=
  ((memory.storeWord (address - 4) first).storeWord (address - 8) second).storeWord (address - 12) third

lemma Memory.loadWord_save (memory : Memory) (address first second third : Word) :
    (memory.save address first second third).loadWord (address - 4) = first ∧
      (memory.save address first second third).loadWord (address - 8) = second ∧
      (memory.save address first second third).loadWord (address - 12) = third := by
  have hapart : ∀ {a b : Word}, Apart (-a) (-b) → Apart (address - a) (address - b) := fun h => by
    rw [Int32.sub_eq_add_neg, Int32.sub_eq_add_neg]
    exact apart_add address h
  refine ⟨?_, ?_, loadWord_storeWord _ _ _⟩
  · rw [save, loadWord_storeWord_of_apart (hapart (by decide)),
      loadWord_storeWord_of_apart (hapart (by decide)), loadWord_storeWord]
  · rw [save, loadWord_storeWord_of_apart (hapart (by decide)), loadWord_storeWord]

lemma below_words (address : Word) :
    address + -4 = address - 4 ∧ address - 4 + -4 = address - 8 ∧ address - 4 + -8 = address - 12 := by
  grind

def Store.Takes (link : Linkage) (returned after : Store) : Option Access → Option Temp → Prop
  | some (.temp t), some result => after.temps t = returned.temps result ∧ after.memory = returned.memory
  | some (.memory base offset), some result =>
    after.memory = returned.memory.storeWord (base.value link returned + offset.value link returned)
      (returned.temps result)
  | _, _ => after.memory = returned.memory

lemma Store.Takes.congr {link : Linkage} {resumed returned taken after : Store} {destination : Option Access}
    {result : Option Temp} (h : resumed.Takes link taken destination result) (hm : resumed.memory = returned.memory)
    (hr : ∀ t ∈ result, resumed.temps t = returned.temps t)
    (hd : ∀ place ∈ destination, ∀ t ∈ place.temps, resumed.temps t = returned.temps t)
    (ha : after.memory = taken.memory) (ht : ∀ t, destination = some (.temp t) → after.temps t = taken.temps t) :
    returned.Takes link after destination result := by
  rcases destination with _ | (t | constant | ⟨base, offset⟩) <;> rcases result with _ | r
  case some.temp.some => exact ⟨by rw [ht t rfl, h.1, hr r rfl], by rw [ha, h.2, hm]⟩
  case some.memory.some =>
    have hvalue : ∀ access : Access, (∀ t ∈ access.temps, t ∈ (Access.memory base offset).temps) →
        access.value link resumed = access.value link returned := fun access hsub =>
      Access.value_congr (fun t hmem => hd _ rfl t (hsub t hmem)) hm
    rw [Takes, ha, h, hm, hr r rfl, hvalue base fun _ => List.mem_append_left _,
      hvalue offset fun _ => List.mem_append_right _]
  all_goals exact ha.trans (h.trans hm)

structure Store.Returns (registers : Machine.Registers) (address : Word) (called returned : Store) : Prop where
  zero : returned.temps registers.zero = 0
  sp : returned.temps registers.sp = called.temps registers.sp
  words : ∀ offset ∈ ([4, 8, 12] : List Word),
    returned.memory.loadWord (address - offset) = called.memory.loadWord (address - offset)

structure Store.Restores (registers : Machine.Registers) (display : Temp) (before after : Store) : Prop where
  sp : after.temps registers.sp = before.temps registers.sp
  fp : after.temps registers.fp = before.temps registers.fp
  ra : after.temps registers.ra = before.temps registers.ra
  display : after.temps display = before.temps display

namespace Select

open Machine

variable {context : Context} {bound : Nat} {link : Linkage}

def takeDown (context callee : Context) (display : Temp) : List Line :=
  let { fp, sp, ra, .. } := context.registers
  [callee.line (.addImmediate sp sp (.frameSize callee.frame)),
    callee.line (.load .word fp sp 0),
    context.line (.load .word display sp (-2 * wordLength)),
    context.line (.load .word ra sp (-wordLength))]

lemma leaveCallee_eq (callee : Context) (display : Temp) (back : Label) :
    leaveCallee context callee display back = .label back :: takeDown context callee display := rfl

structure Registers.Fixed (registers : Registers) (bound : Nat) : Prop where
  nodup : registers.temps.Nodup
  above : ∀ t ∈ registers.temps, bound ≤ t.number

namespace Registers.Fixed

variable {registers : Registers} (h : Registers.Fixed registers bound)

include h

lemma distinct : registers.fp ≠ registers.sp ∧ registers.fp ≠ registers.ra ∧ registers.sp ≠ registers.ra ∧
    registers.zero ≠ registers.fp ∧ registers.zero ≠ registers.sp ∧ registers.zero ≠ registers.ra := by
  have hnodup := h.nodup
  simp only [Registers.temps, List.nodup_cons, List.mem_cons, List.not_mem_nil, or_false, not_or] at hnodup
  grind

lemma ne {t : Temp} (ht : t.number < bound) :
    t ≠ registers.zero ∧ t ≠ registers.fp ∧ t ≠ registers.sp ∧ t ≠ registers.ra := by
  have hnot : t ∉ registers.temps := fun hm => absurd ht (Nat.not_lt.mpr (h.above t hm))
  simp only [Registers.temps, List.mem_cons, List.not_mem_nil, or_false, not_or] at hnot
  grind

end Registers.Fixed

structure Settled (registers : Registers) (bound : Nat) (s : Selection) : Prop extends
    Registers.Fixed registers bound where
  drawn : ∀ r ∈ registers.temps, r.number < s.supply.temps

lemma zero_mem_temps (registers : Registers) : registers.zero ∈ registers.temps := by simp [Registers.temps]

lemma Settled.ready {s : Selection} (h : Settled context.registers bound s) : Ready context.registers bound s where
  bound_le := (h.above _ (zero_mem_temps _)).trans (h.drawn _ (zero_mem_temps _)).le
  zero_new := h.above _ (zero_mem_temps _)
  zero_drawn := h.drawn _ (zero_mem_temps _)

lemma run?_setUp_saves (link : Linkage) (callee : Context) {display : Temp} {store : Store}
    (hfixed : Registers.Fixed context.registers bound) (hd : display.number < bound) :
    ∃ called, run? link store (setUp context callee display) = some called ∧
      called.memory =
        ((store.memory.storeWord (store.temps context.registers.sp) (store.temps context.registers.fp)).storeWord
        (store.temps context.registers.sp + -4) (store.temps context.registers.ra)).storeWord
        (store.temps context.registers.sp + -8) (store.temps display) ∧
      called.temps context.registers.sp = store.temps context.registers.sp + -link.frameSize callee.frame := by
  obtain ⟨hfs, hfr, hsr, -⟩ := hfixed.distinct
  obtain ⟨-, hdf, hds, hdr⟩ := hfixed.ne hd
  refine ⟨_, rfl, ?_, ?_⟩
  · simp [Store.put, Operation.storeTo, wordLength]
  · simp [Store.put, hfs.symm, hds.symm, Immediate.value]

lemma run?_takeDown (link : Linkage) (callee : Context) {display : Temp} (returned : Store)
    (hfixed : Registers.Fixed context.registers bound) (hd : display.number < bound) :
    ∃ resumed, run? link returned (takeDown context callee display) = some resumed ∧ resumed.memory = returned.memory ∧
      resumed.temps context.registers.sp = returned.temps context.registers.sp + link.frameSize callee.frame ∧
      resumed.temps context.registers.fp = returned.memory.loadWord (resumed.temps context.registers.sp) ∧
      resumed.temps context.registers.ra = returned.memory.loadWord (resumed.temps context.registers.sp + -4) ∧
      resumed.temps display = returned.memory.loadWord (resumed.temps context.registers.sp + -8) ∧
      ∀ t, t ≠ display → t ∉ [context.registers.fp, context.registers.sp, context.registers.ra] →
        resumed.temps t = returned.temps t := by
  obtain ⟨hfs, hfr, hsr, -⟩ := hfixed.distinct
  obtain ⟨-, hdf, hds, hdr⟩ := hfixed.ne hd
  refine ⟨_, rfl, rfl, ?_, ?_, ?_, ?_, fun t htd ht => ?_⟩
  · simp [Store.put, hsr, hds.symm, hfs.symm, Immediate.value]
  · simp [Store.put, hfr, hdf.symm, hsr, hds.symm, hfs.symm, Operation.loadFrom]
  · simp [Store.put, hsr, hds.symm, hfs.symm, Operation.loadFrom, wordLength]
  · simp [Store.put, hdr, hsr, hds.symm, hfs.symm, Operation.loadFrom, wordLength]
  · simp only [List.mem_cons, List.not_mem_nil, or_false, not_or] at ht
    simp [Store.put, htd, ht]

lemma takeResult_ok (link : Linkage) {destination : Option Access} {result : Option Temp} {s s' : Selection}
    {lines : List Line} (h : takeResult context destination result s = .ok (lines, s'))
    (hready : Ready context.registers bound s) (hd : ∀ place ∈ destination, Temp.Below bound place.temps)
    (hr : ∀ t ∈ result, t.number < bound) {store : Store} (hzero : store.temps context.registers.zero = 0) :
    ∃ after, run? link store lines = some after ∧ store.Takes link after destination result ∧
      ∀ t : Temp, t.number < s.supply.temps → destination ≠ some (.temp t) → after.temps t = store.temps t := by
  unfold takeResult at h
  split at h
  · rename_i t r
    obtain ⟨rfl, rfl⟩ := pure_eq_ok.mp h
    refine ⟨store.put t (store.temps r), rfl, ⟨by simp [Store.put], rfl⟩, fun u _ hu => ?_⟩
    have hne : u ≠ t := fun hc => hu (by rw [hc])
    simp [Store.put, hne]
  · rename_i place r hnot
    cases place with
    | temp t => exact (hnot t rfl).elim
    | const constant => exact (throw_ne_ok h).elim
    | memory base offset =>
      obtain ⟨⟨address, lines⟩, s₁, ha, h⟩ := bind_eq_ok.mp h
      obtain ⟨⟨t, more⟩, s₂, hs, h⟩ := bind_eq_ok.mp h
      obtain ⟨rfl, rfl⟩ := pure_eq_ok.mp h
      obtain ⟨rfl, rfl, rfl⟩ := pure_pair_eq_ok.mp hs
      obtain ⟨-, -, -, hlocate⟩ := locates_address link base offset _ _ _ _ ha hready.zero_drawn (hready.lt (hd _ rfl))
      obtain ⟨after, hrun, hagree, hvalue⟩ := hlocate store hzero
      refine ⟨_, run?_append (run?_append hrun rfl) (run?_instruction rfl), ?_, fun u hu _ => (hagree.2 u hu).symm⟩
      simp only [Store.Takes, Operation.storeTo, hvalue, ← hagree.1, hagree.2 t ((hr t rfl).trans_le hready.bound_le)]
  · obtain ⟨rfl, rfl⟩ := pure_eq_ok.mp h
    refine ⟨store, rfl, ?_, fun _ _ _ => rfl⟩
    rename_i hnone
    rcases destination with _ | (_ | _ | _) <;> rcases result with _ | _ <;>
      first | rfl | exact (hnone _ _ rfl rfl).elim

/-- Lines around the jump to a function. Those before it save what it needs, and those behind it restore that and take
the result. -/
def Undoes (registers : Registers) (id : FrameId) (f : Frame) (destination : Option Access) (target back : Label)
    (lines : List Line) : Prop :=
  ∃ entering leaving, lines = entering ++
      Context.line ⟨id, registers⟩ (.jumpAndLink target registers.ra) :: .label back :: leaving ∧
    ∀ link store, store.temps registers.zero = 0 → ∃ called, run? link store entering = some called ∧
      called.memory = store.memory.save (store.temps registers.sp) (store.temps registers.fp) (store.temps registers.ra)
        (store.temps f.display) ∧
      ∀ returned, called.Returns registers (store.temps registers.sp) returned →
        ∃ after, run? link returned leaving = some after ∧ store.Restores registers f.display after ∧
          returned.Takes link after destination f.returnValue

structure Callable (bound : Nat) (f : Frame) : Prop where
  drawn : Temp.Below bound (f.display :: f.params)
  display : f.display ∉ f.params
  result : ∀ t ∈ f.returnValue, t.number < bound ∧ t ≠ f.display

section

variable {display : Temp} (hfixed : Registers.Fixed context.registers bound) (hd : display.number < bound)

include hfixed hd

lemma run?_entering {params : List Temp} {arguments : List Access} {s s' : Selection} {passing : List Line}
    (hpassing : passArguments context params arguments s = .ok (passing, s')) (hready : Ready context.registers bound s)
    (hdrawn : ∀ t ∈ context.registers.temps, t.number < s.supply.temps) (hp : Temp.Below bound params)
    (hnot : display ∉ params) (ha : ∀ argument ∈ arguments, Temp.Below bound argument.temps) (callee : Context)
    (link : Linkage) {store : Store} (hzero : store.temps context.registers.zero = 0) :
    ∃ called,
      run? link store (adjustStack context (-wordLength) :: passing ++ setUp context callee display) = some called ∧
      called.memory = store.memory.save (store.temps context.registers.sp) (store.temps context.registers.fp)
        (store.temps context.registers.ra) (store.temps display) ∧
      called.temps context.registers.sp = store.temps context.registers.sp - 4 + -link.frameSize callee.frame := by
  obtain ⟨hfs, -, hsr, -, hzs, -⟩ := hfixed.distinct
  obtain ⟨-, -, hds, -⟩ := hfixed.ne hd
  let lowered := store.put context.registers.sp (store.temps context.registers.sp + -wordLength)
  have hadjust : run? link store [adjustStack context (-wordLength)] = some lowered := rfl
  have hlowered : lowered.temps context.registers.zero = 0 := by simp [lowered, Store.put, hzs, hzero]
  obtain ⟨passed, hpass, hagree⟩ := passArguments_ok link hpassing hready hp ha hlowered
  -- The moves change parameters and new temps only, which the registers and the static link are not.
  have hkept : ∀ t : Temp, t.number < s.supply.temps → t ∉ params → passed.temps t = lowered.temps t :=
      fun t ht hm => by
    rw [← hagree.2 t ht, Store.pass_temps_of_notMem hm]
  have hregister : ∀ t ∈ context.registers.temps, passed.temps t = lowered.temps t := fun t ht =>
    hkept t (hdrawn t ht) fun hm => absurd (hp t hm) (Nat.not_lt.mpr (hfixed.above t ht))
  obtain ⟨called, hset, hmemory, hsp⟩ := run?_setUp_saves link callee hfixed hd
  have hword : wordLength = 4 := rfl
  have haddress := below_words (store.temps context.registers.sp)
  refine ⟨called, run?_append (run?_append hadjust hpass) hset, ?_, ?_⟩
  · rw [hmemory, ← hagree.1, Store.pass_memory, hkept display (hd.trans_le hready.bound_le) hnot,
      hregister _ (by simp [Registers.temps]), hregister _ (by simp [Registers.temps]),
        hregister _ (by simp [Registers.temps])]
    simp only [lowered, Store.put, Function.update_self, Function.update_of_ne hfs, Function.update_of_ne hsr.symm,
      Function.update_of_ne hds, Memory.save, hword, haddress.1, haddress.2.1, haddress.2.2]
  · rw [hsp, hregister _ (by simp [Registers.temps])]
    simp only [lowered, Store.put, Function.update_self, hword, haddress.1]

lemma run?_leaving {destination : Option Access} {result : Option Temp} {s s' : Selection} {taking : List Line}
    (htaking : takeResult context destination result s = .ok (taking, s')) (hready : Ready context.registers bound s)
    (hdrawn : ∀ t ∈ context.registers.temps, t.number < s.supply.temps)
    (hplace : ∀ place ∈ destination, Temp.Below bound place.temps ∧ display ∉ place.temps)
    (hresult : ∀ t ∈ result, t.number < bound ∧ t ≠ display) (callee : Context) (link : Linkage)
    {store called returned : Store}
    (hmemory : called.memory = store.memory.save (store.temps context.registers.sp) (store.temps context.registers.fp)
      (store.temps context.registers.ra) (store.temps display))
    (hsp : called.temps context.registers.sp = store.temps context.registers.sp - 4 + -link.frameSize callee.frame)
    (hreturns : called.Returns context.registers (store.temps context.registers.sp) returned) :
    ∃ after, run? link returned (takeDown context callee display ++ taking ++ [adjustStack context wordLength]) =
      some after ∧ store.Restores context.registers display after ∧ returned.Takes link after destination result := by
  obtain ⟨hfs, -, hsr, hzf, hzs, hzr⟩ := hfixed.distinct
  obtain ⟨hdz, -, hds, -⟩ := hfixed.ne hd
  obtain ⟨resumed, hdown, hsame, hrsp, hrfp, hrra, hrdisplay, hother⟩ :=
    run?_takeDown link callee returned hfixed hd
  have haddress : resumed.temps context.registers.sp = store.temps context.registers.sp - 4 := by
    rw [hrsp, hreturns.sp, hsp]
    grind
  -- What is below the bound is no register, so that it has the value that it had at the return.
  have hbelow : ∀ t : Temp, t.number < bound → t ≠ display → resumed.temps t = returned.temps t := fun t ht hne => by
    obtain ⟨-, hf, hs, hr⟩ := hfixed.ne ht
    exact hother t hne (by simp [hf, hs, hr])
  have hzero : resumed.temps context.registers.zero = 0 := by
    rw [hother _ hdz.symm (by simp [hzf, hzs, hzr]), hreturns.zero]
  obtain ⟨taken, htake, htakes, hkept⟩ := takeResult_ok link htaking hready (fun place hp => (hplace place hp).1)
    (fun t ht => (hresult t ht).1) hzero
  have hregister : ∀ r ∈ context.registers.temps, taken.temps r = resumed.temps r := fun r hr =>
    hkept r (hdrawn r hr) fun hc =>
      absurd ((hplace _ hc).1 r List.mem_cons_self) (Nat.not_lt.mpr (hfixed.above r hr))
  have htakenDisplay : taken.temps display = resumed.temps display :=
    hkept display (hd.trans_le hready.bound_le) fun hc => (hplace _ hc).2 List.mem_cons_self
  obtain ⟨-, hsecond, hthird⟩ := below_words (store.temps context.registers.sp)
  obtain ⟨hfp, hra, hdisplay⟩ := hmemory ▸ Memory.loadWord_save store.memory (store.temps context.registers.sp)
    (store.temps context.registers.fp) (store.temps context.registers.ra) (store.temps display)
  refine ⟨_, run?_append (run?_append hdown htake) (run?_instruction rfl), ⟨?_, ?_, ?_, ?_⟩, ?_⟩
  · simp only [Store.put, Function.update_self, hregister context.registers.sp (by simp [Registers.temps]), haddress]
    exact Int32.sub_add_cancel ..
  · simp only [Store.put, Function.update_of_ne hfs, hregister context.registers.fp (by simp [Registers.temps]), hrfp,
      haddress, hreturns.words 4 (by simp), hfp]
  · simp only [Store.put, Function.update_of_ne hsr.symm, hregister context.registers.ra (by simp [Registers.temps]),
      hrra, haddress, hsecond, hreturns.words 8 (by simp), hra]
  · simp only [Store.put, Function.update_of_ne hds, htakenDisplay, hrdisplay, haddress, hthird,
      hreturns.words 12 (by simp), hdisplay]
  · refine htakes.congr hsame (fun t ht => hbelow t (hresult t ht).1 (hresult t ht).2)
      (fun place hp t ht => hbelow t ((hplace place hp).1 t ht) fun hc => (hplace place hp).2 (hc ▸ ht)) rfl
        fun t ht => ?_
    have hne : t ≠ context.registers.sp := (hfixed.ne ((hplace _ ht).1 t List.mem_cons_self)).2.2.1
    simp [Store.put, hne]

end

lemma undoes_call {graph : CallGraph} {destination : Option Access} {target : Label} {arguments : List Access}
    {s s' : Selection} {lines : List Line} {recursive : Bool}
    (h : call context graph destination target arguments s = .ok ((lines, recursive), s'))
    (hsettled : Settled context.registers bound s) (hframes : ∀ id f, s.frames.get? id = some f → Callable bound f)
    (ha : ∀ argument ∈ arguments, Temp.Below bound argument.temps)
    (hd : ∀ place ∈ destination, Temp.Below bound place.temps ∧
      ∀ id f, s.frames.get? id = some f → f.display ∉ place.temps) :
    ∃ id f, entered? s.frames target = some (id, f) ∧
      Undoes context.registers id f destination target ⟨s.supply.labels⟩ lines := by
  obtain ⟨hfixed, hdrawn⟩ := id hsettled
  have hready := hsettled.ready
  obtain ⟨id, f, passing, taking, s₁, hfound, hpassing, htaking, rfl, -⟩ := call_eq_ok h
  have hf := (get?_of_entered? hfound).1
  obtain ⟨hbelow, hnot, hresult⟩ := hframes id f hf
  obtain ⟨hdisplay, hparams⟩ := List.forall_mem_cons.mp hbelow
  have hready' : Ready context.registers bound (returning s id) := ⟨hready.bound_le, hready.zero_new, hready.zero_drawn⟩
  obtain ⟨k, rfl, -⟩ := passArguments_eq_ok hpassing
  let saving (operation : Operation) := if recursive then [context.line operation] else []
  have hsaving : ∀ link store, run? link store (saving .save) = some store ∧
      run? link store (saving .restore) = some store := by
    intro link store
    cases recursive <;> exact ⟨rfl, rfl⟩
  let callee := { context with frame := id }
  refine ⟨id, f, hfound, saving .save ++
    (adjustStack context (-wordLength) :: passing ++ setUp context callee f.display),
    takeDown context callee f.display ++ taking ++ [adjustStack context wordLength] ++ saving .restore, ?_,
    fun link store hzero => ?_⟩
  · cases recursive <;> simp [callLines, savingAround, enterCallee_eq, leaveCallee_eq, saving, callee]
  · obtain ⟨called, henter, hmemory, hsp⟩ := run?_entering hfixed hdisplay hpassing hready' hdrawn hparams hnot
      ha callee link hzero
    refine ⟨called, run?_append (hsaving link store).1 henter, hmemory, fun returned hreturns => ?_⟩
    obtain ⟨after, hleave, hrestores, htakes⟩ := run?_leaving hfixed hdisplay htaking (hready'.drawn _ _ _)
      (fun t ht => (hdrawn t ht).trans_le (Nat.le_add_right _ _))
      (fun place hp => ⟨(hd place hp).1, (hd place hp).2 id f hf⟩)
      hresult callee link hmemory hsp hreturns
    exact ⟨after, run?_append hleave (hsaving link after).2, hrestores, htakes⟩

end Select

open Machine Select

namespace Tac.Program

variable {program : Tac.Program} {machine : Machine.Program} {state : Nat → Selection}

lemma Trace.selects (h : program.Trace state) (hgenerate : program.generate = .ok machine) {position : Nat} {c : Code}
    (hc : program.codes[position]? = some c) : ∃ before own saves t, program.Selects machine position before own ∧
      Select.code machine.registers program.callGraph before.length c (state position) = .ok ((own, saves), t) := by
  obtain ⟨s, t, hreserve, hcodes, -⟩ := generate_eq_ok_frames hgenerate
  obtain ⟨before, earlier, s₁, own, saves, s₂, hbefore, hown, hlines⟩ := codes_getElem? hcodes hc
  rw [Nat.zero_add] at hown
  have hstate : program.stateAt position = .ok s₁ := by
    simp only [stateAt, hreserve, hbefore, bind, Except.bind]
    rfl
  have hp := (List.getElem?_eq_some_iff.mp hc).1
  obtain rfl := Except.ok.inj ((h.reached position hp.le).symm.trans hstate)
  exact ⟨before, own, saves, s₂, ⟨s, _, s₂, c, earlier, saves, hc, hreserve, hbefore, hown, hlines⟩, hown⟩

lemma Trace.settled (h : program.Trace state)
    (hregisters : machine.registers.temps = program.supply.tempsTo (state 0).supply) {position : Nat}
    (hp : position ≤ program.codes.length) : Settled machine.registers program.supply.temps (state position) := by
  have hmono := (h.supply_mono (Nat.zero_le position) hp).1
  have hrange : ∀ r ∈ machine.registers.temps,
      program.supply.temps ≤ r.number ∧ r.number < (state position).supply.temps := fun r hr => by
    have := Supply.mem_tempsTo.mp (hregisters ▸ hr)
    omega
  exact ⟨⟨hregisters ▸ Supply.nodup_tempsTo _ _, fun r hr => (hrange r hr).1⟩, fun r hr => (hrange r hr).2⟩

/-- How the call at a position undoes itself. The lines before its jump save three words, and those behind its return
label, from a store that still has these words and the stack pointer, restore what they stand for and take the
result. -/
structure UndoesAt (program : Tac.Program) (machine : Machine.Program) (position : Nat) (destination : Option Access)
    (target : Label) (id : FrameId) (callee : Frame) : Prop where
  found : program.frames.get? id = some callee
  entry : callee.entry = some target
  unique : ∀ id' f, program.frames.get? id' = some f → f.entry = some target → id' = id
  undone : ∃ before entering leaving, program.Selects machine position before (entering ++
      Context.line ⟨id, machine.registers⟩ (.jumpAndLink target machine.registers.ra) ::
        .label (program.backAt position) :: leaving) ∧
    ∀ link store, store.temps machine.registers.zero = 0 → ∃ called,
      Running.steps? (step? link machine.lines) entering.length ⟨before.length, store⟩ =
        some ⟨before.length + entering.length, called⟩ ∧
      called.memory = store.memory.save (store.temps machine.registers.sp) (store.temps machine.registers.fp)
        (store.temps machine.registers.ra) (store.temps callee.display) ∧
      ∀ returned, called.Returns machine.registers (store.temps machine.registers.sp) returned → ∃ after,
        Running.steps? (step? link machine.lines) (leaving.length + 1) ⟨before.length + entering.length + 1, returned⟩ =
          some ⟨before.length + entering.length + 1 + (leaving.length + 1), after⟩ ∧
        store.Restores machine.registers callee.display after ∧ returned.Takes link after destination callee.returnValue

structure Laid (program : Tac.Program) : Prop where
  separate : Frame.Separate program.frames program.supply
  callable : ∀ id f, program.frames.get? id = some f → Callable program.supply.temps f
  temps : Temp.Below program.supply.temps (Code.temps program.codes)
  display : ∀ id f, program.frames.get? id = some f → f.display ∉ Code.temps program.codes

lemma Laid.undoesAt (h : program.Laid) (hgenerate : program.generate = .ok machine) {position : Nat} {c : Code}
    (hc : program.codes[position]? = some c) {frame : FrameId} {destination : Option Access} {target : Label}
    {arguments : List Access} (hcall : c.op? = some (frame, .call destination target arguments)) :
    ∃ id callee, program.UndoesAt machine position destination target id callee := by
  obtain ⟨state, htrace, -, hregisters, -⟩ := exists_trace hgenerate
  obtain ⟨before, own, saves, t, hselects, hown⟩ := htrace.selects hgenerate hc
  have hp := (List.getElem?_eq_some_iff.mp hc).1
  have hframes : ∀ id g, (state position).frames.get? id = some g →
      ∃ f temps labels, program.frames.get? id = some f ∧ g = f.extend temps labels := fun id g hg =>
    htrace.exists_frame hp.le hregisters hg
  have hused : ∀ access ∈ destination.toList ++ arguments, ∀ t ∈ access.temps, t ∈ Code.temps program.codes := by
    intro access hm temp ht
    refine List.mem_flatMap.mpr ⟨_, List.mem_filterMap.mpr ⟨c, List.mem_of_getElem? hc, hcall⟩, ?_⟩
    exact List.mem_flatMap.mpr ⟨access, hm, ht⟩
  obtain ⟨label, _, _, _, hselected, rfl, hlabel⟩ := call_of_code hown hcall
  obtain ⟨id, g, hfound, entering, leaving, rfl, hrun⟩ := undoes_call hselected (htrace.settled hregisters hp.le)
    (fun id g hg => by
      obtain ⟨f, temps, labels, hf, rfl⟩ := hframes id g hg
      exact ⟨(h.callable id f hf).drawn, (h.callable id f hf).display, (h.callable id f hf).result⟩)
    (fun argument hm t ht => h.temps t (hused argument (List.mem_append_right _ hm) t ht))
    (fun place hm => ⟨fun t ht => h.temps t (hused place (List.mem_append_left _ (Option.mem_toList.mpr hm)) t ht),
      fun id g hg ht => by
        obtain ⟨f, temps, labels, hf, rfl⟩ := hframes id g hg
        exact h.display id f hf (hused place (List.mem_append_left _ (Option.mem_toList.mpr hm)) _ ht)⟩)
  obtain ⟨hg, hentry⟩ := get?_of_entered? hfound
  obtain ⟨callee, temps, labels, hcallee, rfl⟩ := hframes id g hg
  have hback : (⟨(state position).supply.labels⟩ : Label) = program.backAt position := by
    rw [backAt, htrace.supplyAt_eq hp.le]
  rw [hback] at hselects
  refine ⟨id, callee, hcallee, hentry, fun id' f hf he => h.separate.entries hf hcallee he hentry, before,
    label ++ entering, leaving, by rwa [List.append_assoc], fun link store hzero => ?_⟩
  obtain ⟨called, henter, hmemory, hleave⟩ := hrun link store hzero
  obtain ⟨_, _, _, _, _, _, -, -, -, -, rest, hlines⟩ := hselects
  refine ⟨called, ?_, hmemory, fun returned hreturns => ?_⟩
  · have hsteps := steps?_of_run? before (label ++ entering) (Context.line ⟨id, machine.registers⟩
      (.jumpAndLink target machine.registers.ra) :: .label (program.backAt position) :: leaving ++ rest)
      (run?_append (hlabel link store) henter)
    simpa [← hlines] using hsteps
  · obtain ⟨after, hr, hrestores, htakes⟩ := hleave returned hreturns
    refine ⟨after, ?_, hrestores, htakes⟩
    have hsteps := steps?_of_run? (before ++ (label ++ entering ++
      [Context.line ⟨id, machine.registers⟩ (.jumpAndLink target machine.registers.ra)]))
      (.label (program.backAt position) :: leaving) rest (run?_cons.trans hr)
    simpa [← hlines, Nat.add_assoc] using hsteps

end Tac.Program

lemma stored_analyze {expression : Expr} (h : (analyze expression).1 = []) {temp : Temp}
    (ht : temp ∈ Code.temps (analyze expression).2.codes) :
    ∃ id, Frame.Stores (analyze expression).2.frames id temp := by
  obtain ⟨op, hop, ht⟩ := List.mem_flatMap.mp ht
  obtain hs | ⟨outer, -, -, hs, -⟩ := reaches_analyze h hop ht
  all_goals exact ⟨_, hs⟩

lemma laid_analyze {expression : Expr} (h : (analyze expression).1 = []) : (analyze expression).2.Laid := by
  have hseparate := separate_analyze expression
  have happart : Frame.Apart (analyze expression).2.frames (analyze expression).2.supply :=
    Analysis.invariant_apart.analyze Analyzer.apart_initial expression
  have hhoused : ∀ id f, (analyze expression).2.frames.get? id = some f → f.Housed :=
    Analysis.invariant_housed.analyze Analyzer.housed_initial expression
  refine ⟨hseparate, fun id f hf => ⟨?_, (hseparate.drawn id f hf).display, fun t ht => ?_⟩, below_analyze h,
    fun id f hf ht => ?_⟩
  · exact List.forall_mem_cons.mpr ⟨happart.drawn hf _ List.mem_cons_self, (hseparate.drawn id f hf).params⟩
  · have hlocal := hhoused id f hf t (List.mem_append_right _ (Option.mem_toList.mpr ht))
    exact ⟨happart.drawn hf t (List.mem_cons_of_mem _ hlocal), fun hc => happart.display hf hf (hc ▸ hlocal)⟩
  · -- The temps of the code are locals, and no static link is a local.
    obtain ⟨_, g, hg, hlocal⟩ := stored_analyze h ht
    exact happart.display hf hg hlocal

theorem undoesAt_analyze (expression : Expr) (h : (analyze expression).1 = []) :
    ∃ machine, (analyze expression).2.generate = .ok machine ∧
      ∀ (position : Nat) (c : Code) (frame : FrameId) (destination : Option Access) (target : Label)
        (arguments : List Access), (analyze expression).2.codes[position]? = some c →
        c.op? = some (frame, .call destination target arguments) →
        ∃ id callee, (analyze expression).2.UndoesAt machine position destination target id callee := by
  obtain ⟨machine, hgenerate, -⟩ := generate_ok (selectable_analyze h)
  exact ⟨machine, hgenerate, fun position c frame destination target arguments hc hcall =>
    (laid_analyze h).undoesAt hgenerate hc hcall⟩

def descending : Expr :=
  let n : Expr := .lvalue {} (.var {} { name := "n" })
  .letIn {} [.functions [.mk { name := "f" } [({ name := "n" }, { name := "int" })] (some { name := "int" })
    (.operation {} (.strict .add) {} n (.call {} { name := "f" } [.operation {} (.strict .sub) {} n (.int {} 1)]))]]
    [.call {} { name := "f" } [.int {} 5]]

theorem descending_undoesAt : (analyze descending).1 = [] ∧ ∃ machine, (analyze descending).2.generate = .ok machine ∧
    ∃ id callee, (analyze descending).2.UndoesAt machine 3 (some (.temp ⟨5⟩)) ⟨0⟩ id callee := by
  have hclean : (analyze descending).1 = [] := List.isEmpty_iff.mp (by decide +kernel)
  have hcall : (analyze descending).2.codes[3]? = some (.op ⟨1⟩ (.call (some (.temp ⟨5⟩)) ⟨0⟩ [.temp ⟨4⟩])) := by
    decide +kernel
  obtain ⟨machine, hgenerate, hundoes⟩ := undoesAt_analyze descending hclean
  exact ⟨hclean, machine, hgenerate, hundoes 3 _ ⟨1⟩ (some (.temp ⟨5⟩)) ⟨0⟩ _ hcall rfl⟩

end TigerMips
