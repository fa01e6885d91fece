import TigerMips.Proofs.Select.Texts

/-! A piece of a text in a block of its own. The block is one byte larger than the length that is asked for. As the
length is counted down to zero, a negative one does not end the piece before the text ends, and the block for it has no
bytes. -/

namespace TigerMips

namespace Select

open Machine Memory

variable {context : Context} {link : Linkage} {bound : Nat} {store : Store} {text : List UInt8} {s s' : Selection}
  {lines : List Line}

def cutLoop (context : Context) (source target remaining byte : Temp) (start exit : Label) : List Line :=
  [.label start,
    context.line (.branch .eq remaining context.registers.zero exit),
    loadByte context byte source,
    context.line (.branch .eq byte context.registers.zero exit),
    storeByte context byte target 0,
    increment context target 1,
    increment context source 1,
    increment context remaining (-1),
    context.line (.jump start),
    .label exit]

lemma passes_cutLoop {source target remaining byte : Temp} {start exit : Label} {count : Nat}
    (hd : [context.registers.zero, source, target, remaining, byte].Nodup)
    (hz : store.temps context.registers.zero = 0) (hcount : store.temps remaining = .ofNat count) (hlt : count < 2 ^ 32)
    (htext : store.memory.HasText (store.temps source) text)
    (hapart : Disjoint (block (store.temps target) (text.take count).length)
      (block (store.temps source) (text.length + 1))) :
    ∃ after, Passes link (cutLoop context source target remaining byte start exit) store [] after ∧
      after.temps target = store.temps target + .ofNat (text.take count).length ∧
      after.memory = store.memory.storeBytes (store.temps target) (text.take count) ∧
      store.SameBut [source, target, remaining, byte] after := by
  simp only [List.nodup_cons, List.mem_cons, List.not_mem_nil, or_false, not_or] at hd
  obtain ⟨⟨hzs, hzt, hzr, hzb⟩, ⟨hst, hsr, hsb⟩, ⟨htr, htb⟩, hrb, -⟩ := hd
  induction count generalizing store text with
  | zero =>
    have hleave : (Operation.branch .eq remaining context.registers.zero exit).exec? link store =
        some (store, some exit) := by
      simp [Operation.exec?, hz, hcount, Relation.test]
    refine ⟨store, (Leads.stretch 0 1 (by simp [cutLoop]) rfl).followed ((Leads.jump 1 9 rfl rfl hleave).followed
      (Leads.stretch 9 1 (by simp [cutLoop]) rfl)), (Int32.add_zero _).symm, by simp [storeBytes], .refl store⟩
  | succ count ih =>
    have hgo : Relation.eq.test (store.temps remaining) 0 = false := by
      have hne : store.temps remaining ≠ 0 := fun hc =>
        Nat.succ_ne_zero count (Word.ofNat_inj hlt (by decide) (hcount.symm.trans hc))
      simp [Relation.test, hne]
    cases text with
    | nil =>
      let read := store.put byte (store.memory.loadByte (store.temps source))
      have hread : run? link store [.label start, context.line (.branch .eq remaining context.registers.zero exit),
          loadByte context byte source] = some read := by
        simp [run?_cons, Line.pass?, loadByte, Context.line, Operation.exec?, Operation.loadFrom, read, hz, hgo]
      refine ⟨read, (Leads.stretch 0 3 (by simp [cutLoop]) hread).followed ((Leads.jump 3 9 rfl rfl
        (exec?_branch_zero hzb hz htext)).followed
        (Leads.stretch 9 1 (by simp [cutLoop]) rfl)), ?_, rfl, (Store.SameOn.refl store).put (by simp) _⟩
      simp [read, Store.put, htb]
    | cons b rest =>
      obtain ⟨hne, hbyte, hrest⟩ := htext
      let next := ((((Store.mk store.temps (store.memory.storeByte (store.temps target) b)).put byte
        (store.memory.loadByte (store.temps source))).put target (store.temps target + 1)).put source
        (store.temps source + 1)).put remaining (.ofNat count)
      have hdown : store.temps remaining + -1 = .ofNat count := by
        rw [hcount, Int32.ofNat_add, ← Int32.sub_eq_add_neg]
        exact Int32.add_sub_cancel _ _
      have hpass : ∀ down, store.temps remaining + down = .ofNat count → run? link store [.label start,
          context.line (.branch .eq remaining context.registers.zero exit), loadByte context byte source,
          context.line (.branch .eq byte context.registers.zero exit), storeByte context byte target 0,
          increment context target 1, increment context source 1, increment context remaining down] = some next := by
        intro down hdown
        have htest := test_loadByte store.memory (store.temps source)
        have hlow := extract_loadByte store.memory (store.temps source)
        simp [run?_cons, Line.pass?, loadByte, storeByte, Select.store, increment, Context.line, Operation.exec?,
          Operation.loadFrom, Operation.storeTo, next, Store.put, Immediate.value, hzb, hsb, hst, htb, hrb, Ne.symm hsr,
          Ne.symm htr, hz, hgo, htest, hlow, hbyte, hne, hdown]
      have hsource : next.temps source = store.temps source + 1 := by simp [next, Store.put, hsr]
      have htarget : next.temps target = store.temps target + 1 := by simp [next, Store.put, htr, Ne.symm hst]
      have hzero : next.temps context.registers.zero = 0 := by simp [next, Store.put, hzs, hzt, hzr, hzb, hz]
      rw [List.take_succ_cons] at hapart ⊢
      obtain ⟨hkept, hapart⟩ := hrest.copy_first hapart
      rw [← hsource, ← htarget] at hapart
      obtain ⟨after, hleads, hended, hmemory, hsame⟩ :=
        ih hzero (by simp [next, Store.put]) (by omega) (hsource ▸ hkept) hapart
      refine ⟨after, (Leads.stretch 0 8 (by simp [cutLoop]) (hpass (-1) hdown)).followed
        ((Leads.jump 8 0 rfl rfl rfl).followed hleads), ?_, ?_, .trans ?_ hsame⟩
      · rw [hended, htarget, add_ofNat_length_cons]
      · rw [hmemory, htarget]
        rfl
      · exact ((((Store.SameOn.refl store).put (by simp) _).put (by simp) _).put (by simp) _).put (by simp) _

lemma passes_cut {source target remaining byte : Temp} {start exit : Label}
    (hd : [context.registers.zero, source, target, remaining, byte].Nodup)
    (hz : store.temps context.registers.zero = 0) (htext : store.memory.HasText (store.temps source) text)
    (hapart : Disjoint (block (store.temps target) (text.take (store.temps remaining).toUInt32.toNat).length)
      (block (store.temps source) (text.length + 1))) :
    ∃ after, Passes link (cutLoop context source target remaining byte start exit ++
        [storeByte context context.registers.zero target 0]) store [] after ∧
      after.memory = store.memory.storeBytes (store.temps target)
        (text.take (store.temps remaining).toUInt32.toNat ++ [0]) ∧
      store.SameBut [source, target, remaining, byte] after := by
  obtain ⟨one, hone, htarget, hmemory, hsame⟩ :=
    passes_cutLoop hd hz (Word.ofNat_toUInt32 _).symm (UInt32.toNat_lt _) htext hapart
  have hzero : one.temps context.registers.zero = 0 := (hsame _ (List.nodup_cons.mp hd).1).trans hz
  let two : Store := { one with memory := one.memory.storeByte (one.temps target) 0 }
  have htwo : run? link one [storeByte context context.registers.zero target 0] = some two := by
    simp [run?_cons, Line.pass?, storeByte, Select.store, Context.line, Operation.exec?, Operation.storeTo, two, hzero]
  refine ⟨two, hone.append (.of_run? htwo), ?_, hsame⟩
  rw [storeBytes_append, ← htarget, ← hmemory]
  rfl

lemma passes_request (link : Linkage) {length : Access} {remaining capacity result : Temp} {reading : List Line}
    (h : loadInto context remaining length s = .ok (reading, s'))
    (hzero : context.registers.zero.number < s.supply.temps)
    (hlength : Temp.Below s.supply.temps length.temps)
    (hd : [context.registers.a0, context.registers.v0, remaining, capacity, result].Nodup)
    (hz : store.temps context.registers.zero = 0) {grant : Interaction}
    (hgrant : grant.toSystemCall = .grow (length.value link store + 1)) :
    ∃ after, Passes link (reading ++ context.line (.addImmediate capacity remaining (.int 1)) ::
        allocation context capacity result) store [grant] after ∧
      after.temps result = grant.result ∧ after.temps remaining = length.value link store ∧
      after.memory = store.memory ∧
      store.SameBelow s.supply.temps
        [context.registers.a0, context.registers.v0, remaining, capacity, result] after := by
  simp only [List.nodup_cons, List.mem_cons, List.not_mem_nil, or_false, not_or] at hd
  obtain ⟨⟨hav, har, -⟩, ⟨hvr, -⟩, ⟨hrc, hrr⟩, -⟩ := hd
  obtain ⟨middle, hread, hagree⟩ := (loadInto_ok link h hzero hlength).2 store hz
  let asked := (middle.put remaining (length.value link store)).put capacity (length.value link store + 1)
  have hasked : run? link (middle.put remaining (length.value link store))
      [context.line (.addImmediate capacity remaining (.int 1))] = some asked := by
    simp [run?_cons, Line.pass?, Context.line, Operation.exec?, Immediate.value, asked, Store.put]
  have hcapacity : grant.toSystemCall = .grow (asked.temps capacity) := hgrant.trans (by simp [asked, Store.put])
  obtain ⟨after, hpasses, hresult, hmemory, hsame⟩ := passes_allocation link result hav hcapacity
  have hold : store.SameBelow s.supply.temps
      [context.registers.a0, context.registers.v0, remaining, capacity, result] asked :=
    (Store.SameOn.put (fun t ht => (hagree.2 t ht.1).symm) (by simp) _).put (by simp) _
  refine ⟨after, ?_, hresult, ?_, hmemory.trans hagree.1.symm, hold.trans (hsame.below_of_subset (by simp))⟩
  · exact (Passes.of_run? hread).append ((Passes.of_run? hasked).append hpasses)
  · rw [hsame remaining (by simp [Ne.symm har, Ne.symm hvr, hrr])]
    simp [asked, Store.put, hrc]

lemma passes_start (link : Linkage) {string first : Access} {text source : Temp} (target result : Temp)
    {reading adding : List Line} {s₁ : Selection} (hread : register context string s = .ok ((text, reading), s₁))
    (hadd : binaryInto context .add (.temp text) first source s₁ = .ok (adding, s'))
    (hzero : context.registers.zero.number < s.supply.temps) (hstring : Temp.Below s.supply.temps string.temps)
    (hfirst : Temp.Below s.supply.temps first.temps) (hresult : result.number < s.supply.temps)
    (hst : source ≠ target) (hsr : source ≠ result) (hz : store.temps context.registers.zero = 0) :
    (∃ k, s' = s.drawn context.frame k 0) ∧
    ∃ after, Passes link (reading ++ adding ++ [context.line (.move target result)]) store [] after ∧
      after.temps source = string.value link store + first.value link store ∧
      after.temps target = store.temps result ∧ after.memory = store.memory ∧
      store.SameBelow s.supply.temps [source, target] after := by
  obtain ⟨⟨k, rfl⟩, -, htext, hcomputes⟩ := reads_register link string _ _ _ _ hread hzero hstring
  obtain ⟨one, hone, hagree₁, hvalue⟩ := hcomputes store hz
  have hbinary : Makes context link _ _ _ := makes_binaryInto .add (.temp text) first
  obtain ⟨⟨l, rfl⟩, before, operation, rfl, -, hmakes⟩ := hbinary _ _ _ _ hadd (hzero.trans_le (by simp)) fun t ht => by
    rcases List.mem_append.mp ht with ht | ht
    · exact List.mem_singleton.mp ht ▸ htext
    · exact (hfirst t ht).trans_le (by simp)
  obtain ⟨two, htwo, hagree₂, hexec⟩ := hmakes one (string.value link store + first.value link store)
    ((hagree₁.2 _ hzero).symm.trans hz) (by
      rw [hagree₁.value link first hfirst]
      simp [BinaryOp.eval?, Access.value, hvalue])
  have hagree := hagree₁.trans (hagree₂.mono (by simp))
  let three := two.put source (string.value link store + first.value link store)
  have hthree : three.temps result = store.temps result := by
    simp [three, Store.put, Ne.symm hsr, (hagree.2 result hresult).symm]
  have hfour : run? link three [context.line (.move target result)] = some (three.put target (store.temps result)) := by
    simp [run?_cons, Line.pass?, Context.line, Operation.exec?, hthree]
  refine ⟨⟨k + l, Selection.drawn_drawn _ _ _ _ _ _⟩, _,
    ((Passes.of_run? hone).append (.of_run? (run?_append htwo (run?_instruction hexec)))).append
    (.of_run? hfour), ?_, by simp [Store.put], hagree.1.symm, ?_⟩
  · simp [three, Store.put, hst]
  · exact (Store.SameOn.put (fun t ht => (hagree.2 t ht.1).symm) (by simp) _).put (by simp) _

lemma substring_eq_ok {string first length : Access} {destination : Option Access}
    (h : substring context string first length destination s = .ok (lines, s')) (n : Nat) (hn : n = s.supply.temps) :
    ∃ x start exit lengthLines textLines startLines ending s₁ s₂ s₃,
      loadInto context ⟨n + 3⟩ length (s.drawn context.frame 6 2) = .ok (lengthLines, s₁) ∧
      register context string s₁ = .ok ((x, textLines), s₂) ∧
      binaryInto context .add (.temp x) first ⟨n + 1⟩ s₂ = .ok (startLines, s₃) ∧
      storeResult context destination (.temp ⟨n⟩) s₃ = .ok (ending, s') ∧
      lines = (lengthLines ++ context.line (.addImmediate ⟨n + 4⟩ ⟨n + 3⟩ (.int 1)) :: allocation context
        ⟨n + 4⟩ ⟨n⟩) ++ (textLines ++ startLines ++ [context.line (.move ⟨n + 2⟩ ⟨n⟩)]) ++
        (cutLoop context ⟨n + 1⟩ ⟨n + 2⟩ ⟨n + 3⟩ ⟨n + 5⟩ start exit ++
          [storeByte context context.registers.zero ⟨n + 2⟩ 0]) ++ ending := by
  subst hn
  have htemps := newTempIn_bind (newTempIn_bind (newLabel_bind context.frame (newLabel_bind context.frame h)))
  have h := newTempIn_bind (newTempIn_bind (newTempIn_bind (newTempIn_bind htemps)))
  obtain ⟨lengthLines, s₁, hlengthLines, h⟩ := bind_eq_ok.mp h
  obtain ⟨asking, s₂, hasking, h⟩ := bind_eq_ok.mp h
  obtain ⟨⟨x, textLines⟩, s₃, hx, h⟩ := bind_eq_ok.mp h
  obtain ⟨startLines, s₄, hstartLines, h⟩ := bind_eq_ok.mp h
  obtain ⟨ending, s₅, hending, h⟩ := bind_eq_ok.mp h
  obtain ⟨rfl, rfl⟩ := pure_eq_ok.mp h
  obtain ⟨rfl, rfl⟩ := Prod.mk.inj (Except.ok.inj ((allocate_temp _ _ _).symm.trans hasking))
  simp only [Selection.drawn_drawn] at hlengthLines
  exact ⟨x, ⟨s.supply.labels⟩, ⟨s.supply.labels + 1⟩, lengthLines, textLines, startLines, ending, _, _, _,
    hlengthLines, hx, hstartLines, hending, by simp [cutLoop]⟩

lemma passes_substring {string first length : Access} {destination : Option Access}
    (h : substring context string first length destination s = .ok (lines, s'))
    (hsettled : Settled context.registers bound s) (hstring : Temp.Below bound string.temps)
    (hfirst : Temp.Below bound first.temps) (hlength : Temp.Below bound length.temps)
    (hd : ∀ place ∈ destination, Temp.Below bound place.temps) (hz : store.temps context.registers.zero = 0)
    (htext : store.memory.HasText (string.value link store + first.value link store) text) {grant : Interaction}
    (hgrant : grant.toSystemCall = .grow (length.value link store + 1))
    (hapart : Disjoint (block grant.result (text.take (length.value link store).toUInt32.toNat).length)
      (block (string.value link store + first.value link store) (text.length + 1))) :
    ∃ after, Passes link lines store [grant] after ∧ store.Delivers link bound (store.memory.storeBytes grant.result
        (text.take (length.value link store).toUInt32.toNat ++ [0])) destination grant.result after ∧
      after.temps context.registers.zero = 0 := by
  obtain ⟨n, hn⟩ : ∃ n, n = s.supply.temps := ⟨_, rfl⟩
  have hready := hsettled.ready
  have hzero : context.registers.zero.number < n := hn ▸ hready.zero_drawn
  have hbound : bound ≤ n := hn ▸ hready.bound_le
  obtain ⟨hdrawn, habove, hdistinct⟩ := hsettled.calls
  obtain ⟨x, start, exit, lengthLines, textLines, startLines, ending, s₁, s₂, s₃, hlengthLines, hx,
    hstartLines, hending, rfl⟩ := substring_eq_ok h n hn
  have hregisters : Temp.Below n [context.registers.zero, context.registers.a0, context.registers.v0] :=
    hn ▸ Temp.below_cons.mpr ⟨hready.zero_drawn, hdrawn⟩
  have hnodup : ([context.registers.zero, context.registers.a0, context.registers.v0] ++
    ([⟨n⟩, ⟨n + 1⟩, ⟨n + 2⟩, ⟨n + 3⟩, ⟨n + 4⟩, ⟨n + 5⟩] : List Temp)).Nodup :=
    Temp.nodup_append_fresh hdistinct hregisters 6
  obtain ⟨hd₁, hd₃⟩ : [context.registers.a0, context.registers.v0, ⟨n + 3⟩, ⟨n + 4⟩, ⟨n⟩].Nodup ∧
      [context.registers.zero, ⟨n + 1⟩, ⟨n + 2⟩, ⟨n + 3⟩, ⟨n + 5⟩].Nodup := by
    simp only [List.cons_append, List.nil_append, List.nodup_cons, List.mem_cons, List.not_mem_nil, or_false,
      not_or] at hnodup ⊢
    grind
  -- All that is written are registers of the call and new temps.
  let written := [context.registers.a0, context.registers.v0] ++ Temp.fresh n 6
  have hwritten :
      written = [context.registers.a0, context.registers.v0, ⟨n⟩, ⟨n + 1⟩, ⟨n + 2⟩, ⟨n + 3⟩, ⟨n + 4⟩, ⟨n + 5⟩] :=
    rfl
  have hold : ∀ t : Temp, t.number < bound → t ∉ written := fun t ht =>
    Temp.notMem_append_fresh (fun hm => absurd ht (Nat.not_lt.mpr (habove t hm))) (by omega)
  have hzw : context.registers.zero ∉ written := Temp.notMem_append_fresh (List.nodup_cons.mp hdistinct).1 hzero
  have hsix : (s.drawn context.frame 6 2).supply.temps = n + 6 := by simp [hn]
  have hlt : ∀ {temps}, Temp.Below bound temps → Temp.Below (n + 6) temps := fun h => h.mono (by omega)
  obtain ⟨⟨k, rfl⟩, -⟩ := loadInto_ok link hlengthLines (by omega) (hsix ▸ hlt hlength)
  obtain ⟨one, hone, hresult₁, hremaining₁, hmemory₁, hsame₁⟩ := passes_request link hlengthLines (by omega)
    (hsix ▸ hlt hlength) hd₁ hz hgrant
  rw [hsix] at hsame₁
  have hkept₁ : store.SameBelow (n + 6) written one := hsame₁.widen le_rfl (by simp [hwritten])
  have hagree₁ : store.Agree bound one :=
    ⟨hmemory₁.symm, fun t ht => (hkept₁ t ⟨by omega, hold t ht⟩).symm⟩
  have hmore : n + 6 ≤ ((s.drawn context.frame 6 2).drawn context.frame k 0).supply.temps := by simp [hn]
  obtain ⟨⟨l, rfl⟩, two, htwo, hsource₂, htarget₂, hmemory₂, hsame₂⟩ := passes_start link ⟨n + 2⟩ ⟨n⟩ hx hstartLines
    (by omega) ((hlt hstring).mono hmore) ((hlt hfirst).mono hmore) (by simp [hn]; omega) (by simp) (by simp)
    ((hkept₁ _ ⟨by omega, hzw⟩).trans hz)
  rw [← hagree₁.value link string hstring, ← hagree₁.value link first hfirst] at hsource₂
  have hkept₂ := hkept₁.trans (hsame₂.widen hmore (by simp [hwritten]))
  have hremaining₂ : two.temps ⟨n + 3⟩ = length.value link store :=
    (hsame₂ _ ⟨by simp [hn]; omega, by simp⟩).trans hremaining₁
  obtain ⟨three, hthree, hmemory₃, hsame₃⟩ := passes_cut hd₃ ((hkept₂ _ ⟨by omega, hzw⟩).trans hz) (by
      rw [hsource₂, hmemory₂, hmemory₁]
      exact htext) (by
      rw [hsource₂, htarget₂, hresult₁, hremaining₂]
      exact hapart)
  have hkept₃ := hkept₂.trans (hsame₃.below_of_subset (by simp [hwritten]))
  have hresult₃ : three.temps ⟨n⟩ = grant.result :=
    (hsame₃ _ (by simp)).trans ((hsame₂ _ ⟨by simp [hn]; omega, by simp⟩).trans hresult₁)
  obtain ⟨after, hafter, hdelivers, hzero'⟩ := passes_storeResult link hending
    ⟨by simp; omega, hready.zero_new, by simp; omega⟩ hd (by simp; omega) ((hkept₃ _ ⟨by omega, hzw⟩).trans hz)
    fun t ht => hkept₃ t ⟨by omega, hold t ht⟩
  refine ⟨after, ((hone.append htwo).append hthree).append hafter, ?_, hzero'⟩
  rwa [hresult₃, hmemory₃, htarget₂, hresult₁, hremaining₂, hmemory₂, hmemory₁] at hdelivers

end Select

open Machine Memory Select

def Machine.Interaction.given (grant : Interaction) : Set Word := block grant.result grant.argument.toNatClampNeg

def piece (text : List UInt8) (start : Nat) (length : Word) : List UInt8 := (text.drop start).take length.toUInt32.toNat

section

variable {text : List UInt8} {start : Nat} {length : Word} {grant : Interaction}

lemma piece_of_nonneg (h : 0 ≤ length) : piece text start length = (text.drop start).take length.toNatClampNeg := by
  rw [piece, Int32.toNat_toUInt32_of_le h]

lemma piece_of_neg (h : length < 0) (htext : text.length ≤ 2 ^ 31) : piece text start length = text.drop start := by
  refine List.take_of_length_le ?_
  have hneg : length.toInt < 0 := Int32.lt_iff_toInt_lt.mp h
  have hlarge : 2 ^ 31 ≤ length.toUInt32.toNat := by
    have hint : length.toInt = _ := BitVec.toInt_eq_toNat_cond length.toBitVec
    have hnat : length.toUInt32.toNat = length.toBitVec.toNat := rfl
    split at hint <;> omega
  rw [List.length_drop]
  omega

lemma size_request (h : grant.toSystemCall = .grow (length + 1)) :
    grant.argument.toNatClampNeg = (length + 1).toInt.toNat := by
  rw [show grant.argument = length + 1 from congrArg SystemCall.argument h, Int32.toNat_toInt]

lemma block_piece_subset (h : grant.toSystemCall = .grow (length + 1)) (hle : 0 ≤ length)
    (hlt : length < Int32.maxValue) : block grant.result ((piece text start length).length + 1) ⊆ grant.given := by
  apply block_subset_block
  rw [size_request h, piece_of_nonneg hle, List.length_take, ← Int32.toNat_toInt, Int32.toInt_add]
  have h₀ : 0 ≤ length.toInt := Int32.le_iff_toInt_le.mp hle
  have h₁ : length.toInt < 2147483647 := Int32.lt_iff_toInt_lt.mp hlt
  have h₂ : (1 : Int32).toInt = 1 := rfl
  rw [h₂, Int.bmod_eq_of_le (by omega) (by omega)]
  omega

lemma given_eq_empty (h : grant.toSystemCall = .grow (length + 1)) (hlength : length < 0 ∨ length = Int32.maxValue) :
    grant.given = ∅ := by
  rw [Interaction.given, size_request h]
  rcases hlength with hneg | rfl
  · have hneg : length.toInt < 0 := Int32.lt_iff_toInt_lt.mp hneg
    have hmin := Int32.le_toInt length
    have hone : (1 : Int32).toInt = 1 := rfl
    rw [Int32.toInt_add, hone, Int.bmod_eq_of_le (by omega) (by omega), Int.toNat_of_nonpos (by omega), block_zero]
  · exact block_zero

end

namespace Tac.Program

/-- The code at a position cuts a piece out of a text. It asks for a block that is one byte larger than the length, and
if the piece that comes out of it is apart from the text, writes it there with a zero behind it. For a length that is
neither negative nor the largest one, that is in the block. Else there is no block. -/
def CutsAt (program : Tac.Program) (machine : Machine.Program) (position : Nat) (destination : Option Access)
    (string first length : Access) : Prop :=
  ∀ (link : Linkage) (address : Nat → Word) (store : Store) (text : List UInt8) (start : Nat) (n : Word)
    (grant : Interaction),
    store.temps machine.registers.zero = 0 → store.memory.HasText (string.value link store) text →
    first.value link store = .ofNat start → start ≤ text.length → length.value link store = n →
    grant.toSystemCall = .grow (n + 1) →
    Disjoint (block grant.result ((piece text start n).length + 1))
    (block (string.value link store) (text.length + 1)) →
    (∃ memory after, program.RunsAt machine position link address store [grant] after ∧
      store.memory.Gains grant.result (piece text start n) memory ∧ memory.HasText (string.value link store) text ∧
      store.Delivers link program.supply.temps memory destination grant.result after ∧
      after.temps machine.registers.zero = 0) ∧
    (0 ≤ n → n < Int32.maxValue → piece text start n = (text.drop start).take n.toNatClampNeg ∧
      block grant.result ((piece text start n).length + 1) ⊆ grant.given) ∧
    (n < 0 → text.length ≤ 2 ^ 31 → piece text start n = text.drop start) ∧
    (n < 0 ∨ n = Int32.maxValue → grant.given = ∅)

lemma Numbered.cutsAt {program : Tac.Program} {machine : Machine.Program} (h : program.Numbered)
    (hgenerate : program.generate = .ok machine) {position : Nat} {c : Code} (hc : program.codes[position]? = some c)
    {frame : FrameId} {destination : Option Access} {string first length : Access} {rest : List Access}
    (hcall : c.op? =
      some (frame, .callRuntime destination Runtime.substring.name (string :: first :: length :: rest))) :
    program.CutsAt machine position destination string first length := by
  rintro link address store text start _ grant hz htext hfirst hstart rfl hgrant hapart
  refine ⟨?_, fun hle hlt => ⟨piece_of_nonneg hle, block_piece_subset hgrant hle hlt⟩, piece_of_neg,
    given_eq_empty hgrant⟩
  obtain ⟨s, lines, s', hlines, hsettled, hbelow, hruns⟩ := h.expands hgenerate hc hcall
  have hsub : block (string.value link store + .ofNat start) ((text.drop start).length + 1) ⊆
      block (string.value link store) (text.length + 1) := block_subset (by rw [List.length_drop]; omega)
  have hrest := htext.drop hstart
  rw [← hfirst] at hrest hsub
  obtain ⟨after, hpasses, hdelivers, hzero⟩ := passes_substring hlines hsettled (hbelow string (by simp))
    (hbelow first (by simp)) (hbelow length (by simp)) (fun place hm => hbelow place (by simp [Option.mem_def.mp hm]))
    hz hrest hgrant (hapart.mono (block_subset_block (Nat.le_succ _)) hsub)
  have hlength : (piece text start (length.value link store)).length < 2 ^ 32 :=
    (List.length_take_le _ _).trans_lt (UInt32.toNat_lt _)
  have hgains : store.memory.Gains grant.result (piece text start (length.value link store)) _ :=
    gains_storeBytes (fun byte hm => htext.ne_zero byte (List.mem_of_mem_drop (List.mem_of_mem_take hm))) hlength
  exact ⟨_, after, hruns hpasses, hgains, hgains.hasText htext hapart, hdelivers, hzero⟩

end Tac.Program

/-- A piece of a text is cut out, but not every length is in bounds. -/
theorem cutsAt_generate {program : Tac.Program} {machine : Machine.Program} (hgenerate : program.generate = .ok machine)
    (h : program.Numbered) {position : Nat} {c : Code} (hc : program.codes[position]? = some c) {frame : FrameId}
    {destination : Option Access} {string first length : Access} {rest : List Access}
    (hcall : c.op? =
      some (frame, .callRuntime destination Runtime.substring.name (string :: first :: length :: rest))) :
    program.CutsAt machine position destination string first length :=
  h.cutsAt hgenerate hc hcall

def longLength : Expr :=
  .letIn {} [.var { name := "s" } none (.string {} "abc")]
    [.call {} { name := "substring" } [.lvalue {} (.var {} { name := "s" }), .int {} 1, .int {} 5]]

theorem longLength_cut : (analyze longLength).1 = [] ∧
    ∃ machine, (analyze longLength).2.generate = .ok machine ∧
      (let store : Store := ⟨fun _ => 0, storeBytes (fun _ => 0) 0 [97, 98, 99, 0]⟩
      let grant : Interaction := { SystemCall.grow 6 with result := 16, memory := store.memory }
      ∃ memory after, (analyze longLength).2.RunsAt machine 1 default (fun _ => 0) store [grant] after ∧
        store.memory.Gains 16 [98, 99] memory ∧ memory.HasText 0 [97, 98, 99] ∧
        store.Delivers default 3 memory (some (.temp ⟨2⟩)) 16 after) := by
  have hclean : (analyze longLength).1 = [] := List.isEmpty_iff.mp (by decide +kernel)
  have hcode : (analyze longLength).2.codes[1]? = some (.op ⟨0⟩ (.callRuntime (some (.temp ⟨2⟩)) "substring"
      [.temp ⟨1⟩, .int 1, .int 5])) := by decide +kernel
  obtain ⟨machine, hgenerate, -⟩ := Select.generate_ok (selectable_analyze hclean)
  refine ⟨hclean, machine, hgenerate, ?_⟩
  intro store grant
  have hbytes : ∀ byte ∈ ([97, 98, 99] : List UInt8), byte ≠ 0 := by simp
  have htext : store.memory.HasText 0 [97, 98, 99] := hasText_storeBytes hbytes (by decide)
  have hapart : Disjoint (block grant.result 3) (block (0 : Word) 4) :=
    (disjoint_block (0 : Word) (i := 0) (m := 4) (j := 16) (n := 3) (by decide) (by decide)).symm
  have hsupply : (analyze longLength).2.supply.temps = 3 := by decide +kernel
  obtain ⟨⟨memory, after, hruns, hgains, hkept, hdelivers, -⟩, -⟩ :=
    cutsAt_generate hgenerate (numbered_analyze hclean) hcode rfl default (fun _ => 0) store [97, 98, 99] 1 5
      grant rfl htext rfl (by decide) rfl rfl hapart
  exact ⟨memory, after, hruns, hgains, hkept, hsupply ▸ hdelivers⟩

def negativeLength : Expr :=
  .letIn {} [.var { name := "s" } none (.string {} "abc")]
    [.call {} { name := "substring" } [.lvalue {} (.var {} { name := "s" }), .int {} 1, .negate {} (.int {} 1)]]

/-- No byte is asked for, and three are written. -/
theorem negativeLength_overruns : (analyze negativeLength).1 = [] ∧
    ∃ machine, (analyze negativeLength).2.generate = .ok machine ∧
      (let store : Store := ⟨fun t => if t.number = 2 then -1 else 0, storeBytes (fun _ => 7) 0 [97, 98, 99, 0]⟩
      let grant : Interaction := { SystemCall.grow 0 with result := 16, memory := store.memory }
      grant.given = ∅ ∧ ∃ after, (analyze negativeLength).2.RunsAt machine 2 default (fun _ => 0) store [grant] after ∧
        [16, 17, 18].map store.memory = [7, 7, 7] ∧ [16, 17, 18].map after.memory = [98, 99, 0]) := by
  have hclean : (analyze negativeLength).1 = [] := List.isEmpty_iff.mp (by decide +kernel)
  have hcode : (analyze negativeLength).2.codes[2]? = some (.op ⟨0⟩ (.callRuntime (some (.temp ⟨3⟩)) "substring"
      [.temp ⟨1⟩, .int 1, .temp ⟨2⟩])) := by decide +kernel
  obtain ⟨machine, hgenerate, -⟩ := Select.generate_ok (selectable_analyze hclean)
  have hsupply : (analyze negativeLength).2.supply.temps = 4 := by decide +kernel
  have hregister := Tac.Program.le_of_mem_registers hgenerate (zero_mem_temps machine.registers)
  refine ⟨hclean, machine, hgenerate, ?_⟩
  intro store grant
  have hzero : store.temps machine.registers.zero = 0 := if_neg (by omega)
  have hbytes : ∀ byte ∈ ([97, 98, 99] : List UInt8), byte ≠ 0 := by simp
  have htext : store.memory.HasText 0 [97, 98, 99] := hasText_storeBytes hbytes (by decide)
  have hapart : Disjoint (block grant.result 3) (block (0 : Word) 4) :=
    (disjoint_block (0 : Word) (i := 0) (m := 4) (j := 16) (n := 3) (by decide) (by decide)).symm
  obtain ⟨⟨memory, after, hruns, hgains, -, ⟨expected, hdeliver, hagree⟩, -⟩, -, -, hgiven⟩ :=
    (numbered_analyze hclean).cutsAt hgenerate hcode rfl default (fun _ => 0) store [97, 98, 99] 1 (-1)
      grant hzero htext rfl (by decide) rfl rfl hapart
  obtain rfl := Option.some.inj hdeliver
  refine ⟨hgiven (Or.inl (by decide)), after, hruns, by decide, ?_⟩
  obtain ⟨-, hfirst, -, hsecond, hlast⟩ := hgains.holds
  rw [← hagree.1]
  exact List.cons_eq_cons.mpr ⟨hfirst, List.cons_eq_cons.mpr ⟨hsecond, List.cons_eq_cons.mpr ⟨hlast, rfl⟩⟩⟩

end TigerMips
