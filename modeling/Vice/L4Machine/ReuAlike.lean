import Vice.L4Machine.ReuRegisters

/-!
# Units that nobody can tell apart

The upper bits of a bank, beyond the addresses that are put back, are neither read nor used. The bus
latch is only seen in a unit with addresses without memory.

Results:
* `Alike`: what two units have to have in common.
* `step_alike`: an access gives the same value, and leaves the units alike.
* `trace_alike`: so all accesses do.
-/
namespace Vice.L4.ReuAlike
open Vice.L4.ReuCore Vice.L4.ReuTransfer Vice.L4.ReuRegisters

/-! ## What is seen -/

/-- The value of an access, and the line and the memories after it. -/
structure Observation where
  value : UInt8
  irq : Bool
  host : UInt16 → UInt8
  ram : Nat → UInt8

/-- The value that an access gives. -/
def valueOf (o : RecOptions) (s : Reu) : Access → UInt8
  | .read addr => (reuIo2Read o s addr).1
  | _ => 0

/-- What is seen of a unit. -/
def observe (o : RecOptions) (value : UInt8) (s : Reu) : Observation :=
  ⟨value, s.irq, s.host, fun i => if i < o.reuSize then s.reuRam i else 0⟩

def trace (o : RecOptions) : Reu → List Access → List Observation
  | _, [] => []
  | s, e :: es => (step o s e).elim [] fun s' => observe o (valueOf o s e) s' :: trace o s' es

section
variable {val k len reuStep a b : Nat} {o : RecOptions} {s t s' t' : Reu} {r q : Rec} {p p' : Place} {hostStep : UInt16}
  {value : UInt8}

/-! ## Addresses -/

/-- What the sizes have in common: `k` bits of an address are put back. -/
structure Latch (o : RecOptions) (k : Nat) : Prop where
  ge : 19 ≤ k
  mask : o.wrapAroundMaskWhenStoring = 2 ^ k - 1
  dram : ∃ j ≤ k, o.dramWrapAround = 2 ^ j
  backed : o.notBackedupAddresses = o.reuSize
  unused : o.regBankUnused = 0 ∧ o.dramWrapAround = 2 ^ k ∧ o.reuSize = 2 ^ k ∨ o.regBankUnused = 0xf8 ∧ k = 19

theorem latch_of (h : setReuSize val = some o) : ∃ k, Latch o k := by
  obtain rfl | rfl | rfl | rfl | rfl | rfl | rfl | rfl := setReuSize_cases h <;> cases h
  · exact ⟨19, by decide, rfl, ⟨17, by decide, rfl⟩, rfl, Or.inr ⟨rfl, rfl⟩⟩
  · exact ⟨19, by decide, rfl, ⟨19, by decide, rfl⟩, rfl, Or.inr ⟨rfl, rfl⟩⟩
  · exact ⟨19, by decide, rfl, ⟨19, by decide, rfl⟩, rfl, Or.inr ⟨rfl, rfl⟩⟩
  · exact ⟨20, by decide, rfl, ⟨20, by decide, rfl⟩, rfl, Or.inl ⟨rfl, rfl, rfl⟩⟩
  · exact ⟨21, by decide, rfl, ⟨21, by decide, rfl⟩, rfl, Or.inl ⟨rfl, rfl, rfl⟩⟩
  · exact ⟨22, by decide, rfl, ⟨22, by decide, rfl⟩, rfl, Or.inl ⟨rfl, rfl, rfl⟩⟩
  · exact ⟨23, by decide, rfl, ⟨23, by decide, rfl⟩, rfl, Or.inl ⟨rfl, rfl, rfl⟩⟩
  · exact ⟨24, by decide, rfl, ⟨24, by decide, rfl⟩, rfl, Or.inl ⟨rfl, rfl, rfl⟩⟩

/-- The bits that are put back are the same. -/
def SameBits (k a b : Nat) : Prop := a % 2 ^ k = b % 2 ^ k

theorem SameBits.mono {j : Nat} (h : SameBits k a b) (hj : j ≤ k) : SameBits j a b := by
  have hdvd := Nat.pow_dvd_pow 2 hj
  have hmod : a % 2 ^ k % 2 ^ j = b % 2 ^ k % 2 ^ j := congrArg (· % 2 ^ j) h
  rwa [Nat.mod_mod_of_dvd _ hdvd, Nat.mod_mod_of_dvd _ hdvd] at hmod

theorem increment_same (hlatch : Latch o k) (h : SameBits k a b) (reuStep : Nat) :
    SameBits k (incrementReuWithWrapAround o a reuStep) (incrementReuWithWrapAround o b reuStep) := by
  have hchip : a % 2 ^ 19 = b % 2 ^ 19 := h.mono hlatch.ge
  unfold SameBits incrementReuWithWrapAround
  dsimp only
  rw [chip_bits, chip_bits, hchip, Nat.or_mod_two_pow, Nat.or_mod_two_pow, Nat.and_mod_two_pow, Nat.and_mod_two_pow,
    show a % 2 ^ k = b % 2 ^ k from h]

theorem cell_same (hlatch : Latch o k) (h : SameBits k a b) :
    a &&& (o.dramWrapAround - 1) = b &&& (o.dramWrapAround - 1) := by
  obtain ⟨j, hj, hdram⟩ := hlatch.dram
  rw [hdram, Nat.and_two_pow_sub_one_eq_mod, Nat.and_two_pow_sub_one_eq_mod]
  exact h.mono hj

theorem putBack_same (hlatch : Latch o k) (h : SameBits k a b) :
    a &&& o.wrapAroundMaskWhenStoring = b &&& o.wrapAroundMaskWhenStoring := by
  rw [hlatch.mask, Nat.and_two_pow_sub_one_eq_mod, Nat.and_two_pow_sub_one_eq_mod]
  exact h

/-! ## Units -/

/-- Banks that name the same memory. -/
def SameBank (o : RecOptions) (b b' : UInt8) : Prop :=
  b.toNat <<< 16 &&& o.wrapAroundMaskWhenStoring = b'.toNat <<< 16 &&& o.wrapAroundMaskWhenStoring

theorem sameBank_iff (hlatch : Latch o k) (b b' : UInt8) :
    SameBank o b b' ↔ SameBits k (b.toNat * 2 ^ 16) (b'.toNat * 2 ^ 16) := by
  unfold SameBank SameBits
  rw [hlatch.mask, Nat.and_two_pow_sub_one_eq_mod, Nat.and_two_pow_sub_one_eq_mod, Nat.shiftLeft_eq, Nat.shiftLeft_eq]

theorem bank_low (b : UInt8) : (b ||| 0xf8).toNat % 2 ^ 3 = b.toNat % 2 ^ 3 := by
  rw [UInt8.toNat_or, Nat.or_mod_two_pow]
  exact Nat.or_zero _

/-- A bank is read without its upper bits. -/
theorem bank_reads (b b' : UInt8) : b ||| 0xf8 = b' ||| 0xf8 ↔ b.toNat % 2 ^ 3 = b'.toNat % 2 ^ 3 := by
  have hmask : ∀ i < 8, (0xf8#8).getLsbD i = decide (3 ≤ i) := by decide
  constructor
  · intro h
    rw [← bank_low b, h, bank_low b']
  · intro h
    rw [← UInt8.toBitVec_inj]
    refine BitVec.eq_of_getLsbD_eq fun i hi => ?_
    rw [UInt8.toBitVec_or, UInt8.toBitVec_or, BitVec.getLsbD_or, BitVec.getLsbD_or]
    by_cases hlow : i < 3
    · have hbit := congrArg (Nat.testBit · i) h
      simp only [Nat.testBit_mod_two_pow, hlow, decide_true, Bool.true_and] at hbit
      exact congrArg (· || _) hbit
    · have hset : (0xf8 : UInt8).toBitVec.getLsbD i = true := (hmask i hi).trans (decide_eq_true (by omega))
      rw [hset, Bool.or_true, Bool.or_true]

theorem SameBank.reads {b b' : UInt8} (h : SameBank o b b') (hlatch : Latch o k) :
    b ||| o.regBankUnused ||| 0xf8 = b' ||| o.regBankUnused ||| 0xf8 := by
  have hbits : SameBits 19 (b.toNat * 2 ^ 16) (b'.toNat * 2 ^ 16) := ((sameBank_iff hlatch b b').mp h).mono hlatch.ge
  have hunused : o.regBankUnused ||| 0xf8 = 0xf8 := by
    obtain ⟨hzero, -⟩ | ⟨hchip, -⟩ := hlatch.unused
    · rw [hzero]
      rfl
    · rw [hchip]
      rfl
  rw [UInt8.or_assoc, UInt8.or_assoc, hunused]
  refine (bank_reads b b').mpr ?_
  unfold SameBits at hbits
  omega

/-- Registers that differ in the banks, in the bits that name no memory. -/
def AlikeRegs (o : RecOptions) (r q : Rec) : Prop :=
  ∃ bank shadow, q = { r with bankReu := bank, bankReuShadow := shadow } ∧ SameBank o r.bankReu bank ∧
    SameBank o r.bankReuShadow shadow

structure Alike (o : RecOptions) (s t : Reu) : Prop where
  regs : AlikeRegs o s.regs t.regs
  ram : ∀ i < o.reuSize, s.reuRam i = t.reuRam i
  bus : o.reuSize < o.dramWrapAround → s.floatingBusValue = t.floatingBusValue
  delay : s.delay = t.delay
  irq : s.irq = t.irq
  host : s.host = t.host

/-- The places of a transfer. -/
def SamePlace (k : Nat) (p p' : Place) : Prop := p.hostAddr = p'.hostAddr ∧ SameBits k p.reuAddr p'.reuAddr

theorem next_same (hlatch : Latch o k) (h : SamePlace k p p') (hostStep : UInt16) (reuStep : Nat) :
    SamePlace k (p.next o hostStep reuStep) (p'.next o hostStep reuStep) :=
  ⟨congrArg (· + hostStep) h.1, increment_same hlatch h.2 reuStep⟩

theorem readFromReu_alike (hlatch : Latch o k) (h : Alike o s t) (hab : SameBits k a b) :
    readFromReu o s a = readFromReu o t b := by
  have hcell := cell_same hlatch hab
  have hlt : b &&& (o.dramWrapAround - 1) < o.dramWrapAround := by
    obtain ⟨j, -, hdram⟩ := hlatch.dram
    rw [hdram, Nat.and_two_pow_sub_one_eq_mod]
    exact Nat.mod_lt _ (Nat.two_pow_pos j)
  unfold readFromReu
  dsimp only
  rw [hcell, hlatch.backed]
  split_ifs with hsize
  · rw [h.ram _ hsize]
  · rw [h.bus (by omega)]

theorem storeToReu_alike (hlatch : Latch o k) (h : Alike o s t) (hab : SameBits k a b) (value : UInt8) :
    ∃ s' t', storeToReu o s a value = some s' ∧ storeToReu o t b value = some t' ∧ Alike o s' t' := by
  unfold storeToReu
  dsimp only
  rw [cell_same hlatch hab, hlatch.backed]
  split_ifs with hsize
  · refine ⟨_, _, rfl, rfl, h.regs, fun i hi => ?_, h.bus, h.delay, h.irq, h.host⟩
    dsimp only
    by_cases hcell : i = b &&& (o.dramWrapAround - 1)
    · rw [hcell, Function.update_self, Function.update_self]
    · rw [Function.update_of_ne hcell, Function.update_of_ne hcell]
      exact h.ram i hi
  · exact ⟨s, t, rfl, rfl, h⟩

/-! ## Transfers -/

/-- Both units go on, and are alike. -/
def BothAlike (o : RecOptions) (x y : Option Reu) : Prop :=
  ∃ s t, x = some s ∧ y = some t ∧ Alike o s t

theorem hostToReu_alike (hlatch : Latch o k) (hostStep : UInt16) (reuStep len : Nat) (value : UInt8)
    (h : Alike o s t) (hp : SamePlace k p p') :
    ∃ value' q q' s' t', hostToReu o hostStep reuStep len value p s = some (value', q, s') ∧
      hostToReu o hostStep reuStep len value p' t = some (value', q', t') ∧ SamePlace k q q' ∧ Alike o s' t' := by
  induction len generalizing value p p' s t with
  | zero => exact ⟨value, p, p', s, t, rfl, rfl, hp, h⟩
  | succ len ih =>
    obtain ⟨s1, t1, hs, ht, h1⟩ := storeToReu_alike hlatch h hp.2 (s.host p.hostAddr)
    rw [hostToReu, hostToReu, ← h.host, ← hp.1, hs, ht]
    exact ih _ h1 (next_same hlatch hp hostStep reuStep)

section
variable {j : Nat} (hshape : Shape o j) (hlatch : Latch o k)
include hshape hlatch

theorem reuToHost_alike (hostStep : UInt16) (reuStep len : Nat) (h : Alike o s t) (hp : SamePlace k p p') :
    ∃ q q' s' t', reuToHost o hostStep reuStep len p s = some (q, s') ∧
      reuToHost o hostStep reuStep len p' t = some (q', t') ∧ SamePlace k q q' ∧ Alike o s' t' := by
  induction len generalizing p p' s t with
  | zero => exact ⟨p, p', s, t, rfl, rfl, hp, h⟩
  | succ len ih =>
    obtain ⟨value, hread⟩ := readFromReu_total hshape s p.reuAddr
    have hread' := (readFromReu_alike hlatch h hp.2).symm.trans hread
    rw [reuToHost, reuToHost, ← h.host, ← hp.1, hread, hread']
    exact ih ⟨h.regs, h.ram, fun _ => rfl, h.delay, h.irq, rfl⟩ (next_same hlatch hp hostStep reuStep)

theorem swap_alike (hostStep : UInt16) (reuStep len : Nat) (h : Alike o s t) (hp : SamePlace k p p') :
    ∃ q q' s' t', swap o hostStep reuStep len p s = some (q, s') ∧
      swap o hostStep reuStep len p' t = some (q', t') ∧ SamePlace k q q' ∧ Alike o s' t' := by
  induction len generalizing p p' s t with
  | zero => exact ⟨p, p', s, t, rfl, rfl, hp, h⟩
  | succ len ih =>
    obtain ⟨value, hread⟩ := readFromReu_total hshape s p.reuAddr
    have hread' := (readFromReu_alike hlatch h hp.2).symm.trans hread
    obtain ⟨s1, t1, hs, ht, h1⟩ := storeToReu_alike hlatch h hp.2 (s.host p.hostAddr)
    rw [swap, swap, ← h.host, ← hp.1, hread, hread']
    change ∃ q q' s' t', (storeToReu o s p.reuAddr (s.host p.hostAddr)).bind _ = _ ∧
      (storeToReu o t p'.reuAddr (s.host p.hostAddr)).bind _ = _ ∧ _ ∧ _
    rw [hs, ht]
    exact ih ⟨h1.regs, h1.ram, h1.bus, h1.delay, h1.irq, congrArg (Function.update · p.hostAddr value) h1.host⟩
      (next_same hlatch hp hostStep reuStep)

theorem compare_alike (hostStep : UInt16) (reuStep len : Nat) (h : Alike o s t) (hp : SamePlace k p p') :
    ∃ differs left q q', ReuCore.compare o hostStep reuStep s len p = some (differs, left, q) ∧
      ReuCore.compare o hostStep reuStep t len p' = some (differs, left, q') ∧ SamePlace k q q' ∧
      (differs = true ∨ left = 0) := by
  induction len generalizing p p' with
  | zero => exact ⟨false, 0, p, p', rfl, rfl, hp, Or.inr rfl⟩
  | succ len ih =>
    obtain ⟨value, hread⟩ := readFromReu_total hshape s p.reuAddr
    have hread' := (readFromReu_alike hlatch h hp.2).symm.trans hread
    have hnext := next_same hlatch hp hostStep reuStep
    rw [ReuCore.compare, ReuCore.compare, hread, hread', ← h.host, ← hp.1]
    dsimp only [bind, Option.bind]
    split_ifs
    · exact ⟨true, len, _, _, rfl, rfl, hnext, Or.inl rfl⟩
    · exact ih hnext

end

theorem raise_alike (h : Alike o s t) (bits mask : UInt8) : Alike o (raise s bits mask) (raise t bits mask) := by
  obtain ⟨regs, ram, bus, delay, irq, host⟩ := s
  obtain ⟨regs', ram', bus', delay', irq', host'⟩ := t
  obtain ⟨⟨bank, shadow, hregs, hbank, hshadow⟩, hram, hbus, hdelay, hirq, hhost⟩ := h
  dsimp only at hregs
  subst hregs
  unfold raise
  dsimp only
  split_ifs
  · exact ⟨⟨bank, shadow, rfl, hbank, hshadow⟩, hram, hbus, hdelay, rfl, hhost⟩
  · exact ⟨⟨bank, shadow, rfl, hbank, hshadow⟩, hram, hbus, hdelay, hirq, hhost⟩

theorem update_alike (hlatch : Latch o k) (h : Alike o s t) (hp : SamePlace k p p') (len : Nat) (mask : UInt8) :
    Alike o (reuDmaUpdateRegs o s p.hostAddr p.reuAddr len mask)
      (reuDmaUpdateRegs o t p'.hostAddr p'.reuAddr len mask) := by
  obtain ⟨regs, ram, bus, delay, irq, host⟩ := s
  obtain ⟨regs', ram', bus', delay', irq', host'⟩ := t
  obtain ⟨⟨bank, shadow, hregs, hbank, hshadow⟩, hram, hbus, hdelay, hirq, hhost⟩ := h
  dsimp only at hregs
  subst hregs
  unfold reuDmaUpdateRegs
  dsimp only
  rw [← hp.1, ← putBack_same hlatch hp.2]
  apply raise_alike
  apply raise_alike
  refine ⟨?_, hram, hbus, hdelay, hirq, hhost⟩
  unfold loadRegs
  dsimp only
  split_ifs
  · exact ⟨_, shadow, rfl, rfl, hshadow⟩
  · exact ⟨bank, shadow, rfl, hbank, hshadow⟩
  · exact ⟨_, shadow, rfl, rfl, hshadow⟩
  · exact ⟨bank, shadow, rfl, hbank, hshadow⟩
  · exact ⟨shadow, shadow, rfl, hshadow, hshadow⟩

theorem compareStatus_alike (hlatch : Latch o k) (h : Alike o s t) (hp : SamePlace k p p') (differs : Bool)
    (len : Nat) : compareStatus o s differs len p = compareStatus o t differs len p' := by
  unfold compareStatus
  rw [readFromReu_alike hlatch h hp.2, h.host, hp.1]

/-- The registers name the same place, with the same steps and length. -/
theorem start_alike (hlatch : Latch o k) (h : AlikeRegs o r q) :
    SamePlace k (startPlace r) (startPlace q) ∧ ReuRegisters.hostStep q = ReuRegisters.hostStep r ∧
      ReuRegisters.reuStep q = ReuRegisters.reuStep r ∧ dmaLength q = dmaLength r ∧ q.command = r.command := by
  obtain ⟨bank, shadow, rfl, hbank, -⟩ := h
  refine ⟨⟨rfl, ?_⟩, rfl, rfl, rfl, rfl⟩
  unfold startPlace SameBits
  dsimp only
  have hbits : r.bankReu.toNat * 2 ^ 16 % 2 ^ k = bank.toNat * 2 ^ 16 % 2 ^ k := (sameBank_iff hlatch _ _).mp hbank
  rw [dmaReuAddr_eq, dmaReuAddr_eq, Nat.add_mod, hbits, ← Nat.add_mod]

theorem transfer_alike {j : Nat} (hshape : Shape o j) (hlatch : Latch o k) (h : Alike o s t) :
    BothAlike o (transfer o s) (transfer o t) := by
  obtain ⟨hplace, hstep, hstep', hlen, hcommand⟩ := start_alike hlatch h.regs
  unfold transfer
  dsimp only
  rw [hstep, hstep', hlen, hcommand]
  split_ifs
  · obtain ⟨value, p, p', s1, t1, hs, ht, hp, h1⟩ := hostToReu_alike hlatch (ReuRegisters.hostStep s.regs)
      (ReuRegisters.reuStep s.regs) (dmaLength s.regs) 0 h hplace
    have hupdate := update_alike hlatch h1 hp 1 STATUS_END_OF_BLOCK
    rw [reuDmaHostToReu, reuDmaHostToReu, hs, ht]
    exact ⟨_, _, rfl, rfl, hupdate.regs, hupdate.ram, fun _ => rfl, hupdate.delay, hupdate.irq, hupdate.host⟩
  · obtain ⟨p, p', s1, t1, hs, ht, hp, h1⟩ := reuToHost_alike hshape hlatch (ReuRegisters.hostStep s.regs)
      (ReuRegisters.reuStep s.regs) (dmaLength s.regs) h hplace
    have hupdate := update_alike hlatch h1 hp 1 STATUS_END_OF_BLOCK
    -- the bus has what would have come next
    obtain ⟨value, hread⟩ := readFromReu_total hshape
      (reuDmaUpdateRegs o s1 p.hostAddr p.reuAddr 1 STATUS_END_OF_BLOCK) p.reuAddr
    have hread' := (readFromReu_alike hlatch hupdate hp.2).symm.trans hread
    rw [reuDmaReuToHost, reuDmaReuToHost, hs, ht]
    change BothAlike o ((readFromReu o _ p.reuAddr).bind _) ((readFromReu o _ p'.reuAddr).bind _)
    rw [hread, hread']
    exact ⟨_, _, rfl, rfl, hupdate.regs, hupdate.ram, fun _ => rfl, hupdate.delay, hupdate.irq, hupdate.host⟩
  · obtain ⟨p, p', s1, t1, hs, ht, hp, h1⟩ := swap_alike hshape hlatch (ReuRegisters.hostStep s.regs)
      (ReuRegisters.reuStep s.regs) (dmaLength s.regs) h hplace
    rw [reuDmaSwap, reuDmaSwap, hs, ht]
    exact ⟨_, _, rfl, rfl, update_alike hlatch h1 hp 1 STATUS_END_OF_BLOCK⟩
  · obtain ⟨differs, left, p, p', hs, ht, hp, hends⟩ := compare_alike hshape hlatch (ReuRegisters.hostStep s.regs)
      (ReuRegisters.reuStep s.regs) (dmaLength s.regs) h hplace
    obtain ⟨mask, len, hstatus, -⟩ := compareStatus_total hshape s p hends
    have hstatus' := (compareStatus_alike hlatch h hp differs left).symm.trans hstatus
    have hupdate := update_alike hlatch h hp len mask
    rw [reuDmaCompare, reuDmaCompare, hs, ht]
    change BothAlike o ((compareStatus o s differs left p).bind _) ((compareStatus o t differs left p').bind _)
    rw [hstatus, hstatus']
    exact ⟨_, _, rfl, rfl, hupdate⟩

/-! ## Accesses -/

theorem AlikeRegs.same (h : AlikeRegs o r q) : q.command = r.command ∧ q.status = r.status := by
  obtain ⟨bank, shadow, rfl, -⟩ := h
  exact ⟨rfl, rfl⟩

/-- Other registers, and a line, that are alike. -/
theorem Alike.setRegs (h : Alike o s t) (hregs : AlikeRegs o r q) (irq : Bool) :
    Alike o { s with regs := r, irq := irq } { t with regs := q, irq := irq } :=
  ⟨hregs, h.ram, h.bus, h.delay, rfl, h.host⟩

theorem start_dma_alike {j : Nat} (hshape : Shape o j) (hlatch : Latch o k) (h : Alike o s t) :
    BothAlike o (reuDmaStart o s) (reuDmaStart o t) := by
  obtain ⟨s1, t1, hs, ht, h1⟩ := transfer_alike hshape hlatch h
  obtain ⟨bank, shadow, hregs, hbank, hshadow⟩ := h1.regs
  rw [reuDmaStart_eq, reuDmaStart_eq, hs, ht]
  refine ⟨_, _, rfl, rfl, ⟨bank, shadow, ?_, hbank, hshadow⟩, h1.ram, h1.bus, h1.delay, h1.irq, h1.host⟩
  unfold endCommand
  rw [hregs]

theorem dma_alike {j : Nat} (hshape : Shape o j) (hlatch : Latch o k) (h : Alike o s t) (immediate : Option Bool) :
    BothAlike o (reuDma o s immediate) (reuDma o t immediate) := by
  have hstart : BothAlike o (reuDmaStart o { s with delay := false }) (reuDmaStart o { t with delay := false }) :=
    start_dma_alike hshape hlatch ⟨h.regs, h.ram, h.bus, rfl, h.irq, h.host⟩
  cases immediate with
  | none =>
    unfold reuDma
    dsimp only
    rw [← h.delay]
    split_ifs
    · exact hstart
    · exact ⟨s, t, rfl, rfl, h⟩
  | some immediate =>
    cases immediate with
    | false => exact ⟨_, _, rfl, rfl, h.regs, h.ram, h.bus, rfl, h.irq, h.host⟩
    | true => exact hstart

/-- A bank that is written is the same in both. -/
theorem storeRegs_alike (h : AlikeRegs o r q) (addr : Nat) (byte : UInt8) :
    AlikeRegs o (reuStoreWithoutSideeffects o r addr byte) (reuStoreWithoutSideeffects o q addr byte) := by
  obtain ⟨bank, shadow, rfl, hbank, hshadow⟩ := h
  unfold reuStoreWithoutSideeffects
  split
  case h_6 => exact ⟨_, _, rfl, rfl, rfl⟩
  all_goals exact ⟨bank, shadow, rfl, hbank, hshadow⟩

theorem readRegs_alike (h : AlikeRegs o r q) {addr : Nat} (hne : addr ≠ 6) :
    reuReadWithoutSideeffects o r addr = reuReadWithoutSideeffects o q addr := by
  obtain ⟨bank, shadow, rfl, -⟩ := h
  unfold reuReadWithoutSideeffects
  split
  case h_7 => exact absurd rfl hne
  all_goals rfl

theorem store_alike {j : Nat} (hshape : Shape o j) (hlatch : Latch o k) (h : Alike o s t) (addr : Nat) (byte : UInt8) :
    BothAlike o (reuIo2Store o s addr byte) (reuIo2Store o t addr byte) := by
  have hregs := storeRegs_alike h.regs addr byte
  obtain ⟨hcommand, hstatus⟩ := hregs.same
  have hstored : Alike o { s with regs := reuStoreWithoutSideeffects o s.regs addr byte }
      { t with regs := reuStoreWithoutSideeffects o t.regs addr byte } :=
    ⟨hregs, h.ram, h.bus, h.delay, h.irq, h.host⟩
  unfold reuIo2Store
  split_ifs
  · dsimp only
    rw [hcommand, hstatus]
    split
    · split_ifs
      · exact dma_alike hshape hlatch hstored _
      · exact ⟨_, _, rfl, rfl, hstored⟩
    · have hend := raise_alike hstored (reuStoreWithoutSideeffects o s.regs 0x09 byte).status STATUS_END_OF_BLOCK
      rw [hend.regs.same.2]
      exact ⟨_, _, rfl, rfl, raise_alike hend _ _⟩
    · exact ⟨_, _, rfl, rfl, hstored⟩
  · exact ⟨s, t, rfl, rfl, h⟩

theorem read_alike (hlatch : Latch o k) (h : Alike o s t) (addr : Nat) :
    (reuIo2Read o s addr).1 = (reuIo2Read o t addr).1 ∧ Alike o (reuIo2Read o s addr).2 (reuIo2Read o t addr).2 := by
  obtain ⟨bank, shadow, heq, hbank, hshadow⟩ := h.regs
  unfold reuIo2Read
  split_ifs
  · dsimp only
    split
    · refine ⟨readRegs_alike h.regs (by decide : 0 ≠ 6), h.setRegs ?_ false⟩
      rw [heq]
      exact ⟨bank, shadow, rfl, hbank, hshadow⟩
    · rw [heq]
      exact ⟨hbank.reads hlatch, h⟩
    · next hbankReg => exact ⟨readRegs_alike h.regs hbankReg, h⟩
  · exact ⟨rfl, h⟩

theorem step_alike {j : Nat} (hshape : Shape o j) (hlatch : Latch o k) (h : Alike o s t) (e : Access) :
    valueOf o s e = valueOf o t e ∧ BothAlike o (step o s e) (step o t e) := by
  cases e with
  | store addr byte => exact ⟨rfl, store_alike hshape hlatch h addr byte⟩
  | read addr =>
    obtain ⟨hvalue, hafter⟩ := read_alike hlatch h addr
    exact ⟨hvalue, _, _, rfl, rfl, hafter⟩
  | ff00 => exact ⟨rfl, dma_alike hshape hlatch h none⟩
  | poke addr byte =>
    exact ⟨rfl, _, _, rfl, rfl, h.regs, h.ram, h.bus, h.delay, h.irq, congrArg (Function.update · addr byte) h.host⟩

theorem observe_alike (h : Alike o s t) (value : UInt8) : observe o value s = observe o value t := by
  unfold observe
  rw [h.irq, h.host]
  congr 1
  funext i
  split_ifs with hi
  · exact h.ram i hi
  · rfl

/-- Nothing that the computer does shows a difference. -/
theorem trace_alike (hsize : setReuSize val = some o) (h : Alike o s t) (es : List Access) :
    trace o s es = trace o t es := by
  obtain ⟨j, hshape⟩ := shape_of hsize
  obtain ⟨k, hlatch⟩ := latch_of hsize
  induction es generalizing s t with
  | nil => rfl
  | cons e es ih =>
    obtain ⟨hvalue, s', t', hs, ht, h'⟩ := step_alike hshape hlatch h e
    rw [trace, trace, hs, ht, hvalue]
    exact congrArg₂ List.cons (observe_alike h' _) (ih h')

end

end Vice.L4.ReuAlike
