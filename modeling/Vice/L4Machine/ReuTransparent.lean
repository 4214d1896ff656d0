import Vice.L4Machine.ReuSnapshot

/-!
# What a snapshot of the RAM expansion unit loses

The status, a transfer that waits for $FF00 and the value on the bus are not saved, and the shadow
registers are loaded from the registers.

Results:
* `survives_alike`: if nothing of this makes a difference, the restored unit cannot be told apart.
* `shows_status`, `shows_delay`, `shows_bus`, `shows_shadows`: otherwise, it can.
* `snapshot_transparent_iff`: from every reachable state, into every unit.
-/
namespace Vice.L4.ReuTransparent
open Vice.L4.ReuCore Vice.L4.ReuTransfer Vice.L4.ReuRegisters Vice.L4.ReuExact Vice.L4.ReuAlike
  Vice.L4.ReuSnapshot

/-- What the unit that is read into has to have in common with the one that was saved, as to what is not
saved, and the shadow registers that are as the registers. -/
structure Survives (o : RecOptions) (s t : Reu) : Prop where
  status : t.regs.status = s.regs.status
  delay : t.delay = s.delay
  bus : o.reuSize < o.dramWrapAround → t.floatingBusValue = s.floatingBusValue
  computer : s.regs.baseComputerShadow = s.regs.baseComputer
  reu : s.regs.baseReuShadow = s.regs.baseReu
  bank : SameBank o s.regs.bankReuShadow s.regs.bankReu
  length : s.regs.transferLengthShadow = s.regs.transferLength

/-- A snapshot is read back, with the memory of the computer, and nothing shows that it was. -/
def Transparent (o : RecOptions) (s : Reu) (c : Cart) : Prop :=
  ∃ c', reuReadSnapshotModule c (reuWriteSnapshotModule o s) = some c' ∧
    ∀ es, trace o s es = trace c'.options { c'.reu with host := s.host } es

section
variable {val k : Nat} {o : RecOptions} {s t s' t' : Reu} {e : Access}

/-! ## Restoring -/

def restored (o : RecOptions) (s t : Reu) : Reu :=
  { t with
    regs := storeRegisters o (fun i => reuReadWithoutSideeffects o s.regs i) t.regs
    reuRam := fun i => if i < o.reuSize then s.reuRam i else t.reuRam i
    irq := decide (s.regs.status &&& 0x80 ≠ 0)
    host := s.host }

theorem size_kept (h : setReuSize val = some o) : o.reuSize >>> 10 = val ∧ ¬ 16384 < val := by
  obtain rfl | rfl | rfl | rfl | rfl | rfl | rfl | rfl := setReuSize_cases h <;> cases h <;> decide

theorem enable_options (c : Cart) : c.enable.options = c.options := by
  unfold Cart.enable
  split_ifs <;> rfl

theorem setSize_options (h : setReuSize val = some o) (c : Cart) : (c.setSize val).options = o := by
  unfold Cart.setSize
  by_cases hsame : val = c.sizeKb
  · rw [if_pos hsame]
    exact Option.some.inj ((hsame ▸ c.sized).symm.trans h)
  · rw [if_neg hsame]
    split
    · next hnone => exact absurd (hnone.symm.trans h) (Option.some_ne_none o).symm
    · next o' hsome => exact Option.some.inj (hsome.symm.trans h)

/-- The module that was written is always accepted. -/
theorem read_written (h : setReuSize val = some o) (s : Reu) (c : Cart) :
    ∃ c', reuReadSnapshotModule c (reuWriteSnapshotModule o s) = some c' ∧ c'.options = o ∧
      { c'.reu with host := s.host } = restored o s (c.resized val) := by
  obtain ⟨hsize, hle⟩ := size_kept h
  have hoptions : (c.setSize val).enable.options = o := (enable_options _).trans (setSize_options h c)
  have hmodule : (reuWriteSnapshotModule o s).size = val := hsize
  refine ⟨_, if_neg (hmodule ▸ hle), ?_, ?_⟩
  · unfold Cart.load
    dsimp only
    rw [hmodule]
    exact hoptions
  · unfold restored Cart.load Cart.resized
    dsimp only
    rw [hmodule, hoptions]
    rfl

/-- The registers that are stored, for those that were read. -/
theorem restored_read (hkept : Kept s) (r : Rec) :
    storeRegisters o (fun i => reuReadWithoutSideeffects o s.regs i) r = { s.regs with
      status := r.status
      bankReu := (s.regs.bankReu ||| o.regBankUnused) &&& ~~~o.regBankUnused
      baseComputerShadow := s.regs.baseComputer
      baseReuShadow := s.regs.baseReu
      bankReuShadow := (s.regs.bankReu ||| o.regBankUnused) &&& ~~~o.regBankUnused
      transferLengthShadow := s.regs.transferLength } := by
  have hcomputer := wordOf_bytes s.regs.baseComputer
  have hreu := wordOf_bytes s.regs.baseReu
  have hlength := wordOf_bytes s.regs.transferLength
  rw [restored_regs, Rec.mk.injEq]
  exact ⟨rfl, rfl, hcomputer, hreu, rfl, hlength, hkept.intMask, hkept.control, hcomputer, hreu, rfl, hlength⟩

/-- The status is not stored. -/
theorem restored_status (o : RecOptions) (s t : Reu) : (restored o s t).regs.status = t.regs.status := by
  unfold restored
  dsimp only
  rw [restored_regs]

theorem stored_bank (hlatch : Latch o k) (bank : UInt8) :
    SameBank o bank ((bank ||| o.regBankUnused) &&& ~~~o.regBankUnused) := by
  obtain ⟨hunused, -⟩ | ⟨hunused, rfl⟩ := hlatch.unused
  · have hall : ~~~(0 : UInt8) = -1 := by decide
    rw [hunused, UInt8.or_zero, hall, UInt8.and_neg_one]
    exact rfl
  · have hlow : ((bank ||| 0xf8) &&& ~~~0xf8).toNat = bank.toNat % 2 ^ 3 := by
      rw [← bank_low bank]
      exact Nat.and_two_pow_sub_one_eq_mod _ 3
    rw [hunused, sameBank_iff hlatch, hlow]
    unfold SameBits
    omega

theorem survives_alike (hlatch : Latch o k) (hkept : Kept s) (h : Survives o s t) : Alike o s (restored o s t) := by
  have hbank := stored_bank hlatch s.regs.bankReu
  have hregs : (restored o s t).regs = { s.regs with
      bankReu := (s.regs.bankReu ||| o.regBankUnused) &&& ~~~o.regBankUnused
      bankReuShadow := (s.regs.bankReu ||| o.regBankUnused) &&& ~~~o.regBankUnused } := by
    refine (restored_read hkept t.regs).trans ?_
    dsimp only
    rw [h.status, ← h.computer, ← h.reu, ← h.length]
  have hregs' : AlikeRegs o s.regs (restored o s t).regs := ⟨_, _, hregs, hbank, h.bank.trans hbank⟩
  unfold restored at hregs' ⊢
  exact ⟨hregs', fun i hi => (if_pos hi).symm, fun hlt => (h.bus hlt).symm, h.delay.symm, hkept.line, rfl⟩

/-! ## What shows -/

/-- Nothing shows a difference. -/
def Same (o : RecOptions) (s t : Reu) : Prop := ∀ es, trace o s es = trace o t es

theorem Same.observed (h : Same o s t) (hs : step o s e = some s') (ht : step o t e = some t') :
    observe o (valueOf o s e) s' = observe o (valueOf o t e) t' := by
  have hone := h [e]
  rw [trace, trace, hs, ht] at hone
  exact (List.cons.inj hone).1

theorem Same.host (h : Same o s t) (hs : step o s e = some s') (ht : step o t e = some t') : s'.host = t'.host :=
  congrArg Observation.host (h.observed hs ht)

theorem Same.ram (h : Same o s t) (hs : step o s e = some s') (ht : step o t e = some t') {i : Nat}
    (hi : i < o.reuSize) :
    s'.reuRam i = t'.reuRam i := by
  have hram := congrFun (congrArg Observation.ram (h.observed hs ht)) i
  dsimp only [observe] at hram
  rwa [if_pos hi, if_pos hi] at hram

theorem Same.after (h : Same o s t) (hs : step o s e = some s') (ht : step o t e = some t') : Same o s' t' := by
  intro es
  have hcons := h (e :: es)
  rw [trace, trace, hs, ht] at hcons
  exact (List.cons.inj hcons).2

theorem Same.register (h : Same o s t) (addr : Nat) : (reuIo2Read o s addr).1 = (reuIo2Read o t addr).1 :=
  congrArg Observation.value (@Same.observed o s t _ _ (.read addr) h rfl rfl)

/-- The status is read. -/
theorem shows_status (h : Same o s t) : s.regs.status = t.regs.status := h.register 0

/-- A transfer that waits leaves its mark on the status. -/
theorem armed_status (hshape : Shape o k) (hdelay : s.delay = true) (hclear : s.regs.status &&& 0x60 = 0) :
    ∃ s', step o s .ff00 = some s' ∧ s'.regs.status &&& 0x60 ≠ 0 := by
  obtain ⟨s1, hrun, ⟨u⟩⟩ := transfer_updated hshape { s with delay := false }
  have hstart : reuDmaStart o { s with delay := false } = some (endCommand s1) := by
    rw [reuDmaStart_eq, hrun]
    rfl
  refine ⟨endCommand s1, ?_, ?_⟩
  · change reuDma o s none = _
    unfold reuDma
    dsimp only
    rw [if_pos hdelay]
    exact hstart
  · have hstatus : (endCommand s1).regs.status &&& 0x60 = u.mask &&& 0x60 := by
      have hupdate := update_status o u.looped u.place.hostAddr u.place.reuAddr u.length u.mask 0x60 (by decide)
      rw [u.untouched.1, hclear, UInt8.zero_or] at hupdate
      rw [← hupdate]
      exact congrArg (·.regs.status &&& 0x60) u.result
    rw [hstatus]
    obtain hmask | hmask | hmask := u.ended <;> rw [hmask] <;> decide

theorem status_cleared (o : RecOptions) (s : Reu) : (reuIo2Read o s 0).2.regs.status &&& 0x60 = 0 := by
  change s.regs.status &&& _ &&& 0x60 = 0
  rw [UInt8.and_assoc]
  exact UInt8.and_zero

theorem delay_left (hshape : Shape o k) (h : Same o s t) (hs : s.delay = true) : t.delay = true := by
  -- the status is cleared, and $FF00 is written
  have hread : Same o (reuIo2Read o s 0).2 (reuIo2Read o t 0).2 := @Same.after o s t _ _ (.read 0) h rfl rfl
  obtain ⟨s1, hrun, hmark⟩ := armed_status (s := (reuIo2Read o s 0).2) hshape hs (status_cleared o s)
  by_contra hnone
  have hidle : step o (reuIo2Read o t 0).2 .ff00 = some (reuIo2Read o t 0).2 := if_neg hnone
  rw [shows_status (hread.after hrun hidle)] at hmark
  exact hmark (status_cleared o t)

theorem shows_delay (hshape : Shape o k) (h : Same o s t) : t.delay = s.delay := by
  have hback : Same o t s := fun es => (h es).symm
  have hforth := delay_left hshape h
  have hconverse := delay_left hshape hback
  cases hs : s.delay
  · cases ht : t.delay
    · rfl
    · exact absurd ((hconverse ht).symm.trans hs) (by decide)
  · exact hforth hs

/-- The bytes of a word are read. -/
theorem word_of_reads {x y : UInt16} (hlow : x.toUInt8 = y.toUInt8) (hhigh : (x >>> 8).toUInt8 = (y >>> 8).toUInt8) :
    x = y := by
  rw [← wordOf_bytes x, hlow, hhigh, wordOf_bytes]

/-- A command that is executed at once. -/
theorem execute_step (o : RecOptions) (s : Reu) {c : UInt8} (hexecute : bitsAreAllSet c COMMAND_EXECUTE = true)
    (hnow : c &&& COMMAND_FF00_TRIGGER_DISABLED ≠ 0) :
    step o s (.store 1 c) = reuDmaStart o { s with regs := { s.regs with command := c }, delay := false } := by
  change reuIo2Store o s 1 c = _
  unfold reuIo2Store
  rw [if_pos (by decide : 1 < 0x0b)]
  change (if bitsAreAllSet c COMMAND_EXECUTE = true then
      reuDma o { s with regs := { s.regs with command := c } } (some (decide (c &&& COMMAND_FF00_TRIGGER_DISABLED ≠ 0)))
    else _) = _
  rw [if_pos hexecute, decide_eq_true hnow]
  rfl

/-- A stash with the autoload bit brings the shadow registers to light. -/
theorem autoload_step (h : setReuSize val = some o) (s : Reu) :
    ∃ s', step o s (.store 1 0xb0) = some s' ∧ Autoloaded s.regs s'.regs := by
  obtain ⟨s', hrun, -, hfinished⟩ := dma_outcome h { s with regs := { s.regs with command := 0xb0 }, delay := false }
  have hverify : ¬ (0xb0 : UInt8) &&& 3 = 3 := by decide
  have hloaded := hfinished fun hc => absurd hc hverify
  have hautoload : ¬ (0xb0 : UInt8) &&& COMMAND_AUTOLOAD = 0 := by decide
  unfold Finished at hloaded
  dsimp only at hloaded
  rw [if_neg hautoload] at hloaded
  exact ⟨s', (execute_step o s (by decide) (by decide)).trans hrun, hloaded.host, hloaded.reu, hloaded.bank,
    hloaded.length⟩

/-! ## A byte that is moved -/

theorem stash_byte (hshape : Shape o k) {r : Rec} (hc : r.command &&& 3 = 0) (hlen : dmaLength r = 1)
    (hcell : dmaReuAddr r &&& (o.dramWrapAround - 1) < o.reuSize) (s : Reu) :
    ∃ s', reuDmaStart o { s with regs := r, delay := false } = some s' ∧ s'.reuRam =
      Function.update s.reuRam (dmaReuAddr r &&& (o.dramWrapAround - 1)) (s.host r.baseComputer) := by
  have hrun : ∃ p, hostToReu o (hostStep r) (reuStep r) 1 0 (startPlace r) { s with regs := r, delay := false } =
      some (s.host r.baseComputer, p, { s with
        regs := r
        delay := false
        reuRam := Function.update s.reuRam (dmaReuAddr r &&& (o.dramWrapAround - 1)) (s.host r.baseComputer) }) := by
    refine ⟨(startPlace r).next o (hostStep r) (reuStep r), ?_⟩
    rw [hostToReu]
    change (storeToReu o _ (dmaReuAddr r) (s.host r.baseComputer)).bind _ = _
    rw [storeToReu_eq hshape hcell]
    rfl
  obtain ⟨p, hrun⟩ := hrun
  rw [reuDmaStart_eq]
  unfold transfer
  dsimp only
  rw [if_pos hc, hlen, reuDmaHostToReu, hrun]
  exact ⟨_, rfl, (update_memory o _ _ _ _ _).2⟩

theorem fetch_byte (hshape : Shape o k) {r : Rec} (hc : r.command &&& 3 = 1) (hlen : dmaLength r = 1) {value : UInt8}
    (hread : readFromReu o s (dmaReuAddr r) = some value) :
    ∃ s', reuDmaStart o { s with regs := r, delay := false } = some s' ∧
      s'.host = Function.update s.host r.baseComputer value := by
  have hrun : ∃ p, reuToHost o (hostStep r) (reuStep r) 1 (startPlace r) { s with regs := r, delay := false } =
      some (p, { s with
        regs := r
        delay := false
        floatingBusValue := value
        host := Function.update s.host r.baseComputer value }) := by
    refine ⟨(startPlace r).next o (hostStep r) (reuStep r), ?_⟩
    rw [reuToHost]
    change (readFromReu o s (dmaReuAddr r)).bind _ = _
    rw [hread]
    rfl
  obtain ⟨p, hrun⟩ := hrun
  obtain ⟨bus, hend⟩ := reuToHost_end hshape hrun
  have hzero : ¬ r.command &&& 3 = 0 := by rw [hc]; decide
  rw [reuDmaStart_eq]
  unfold transfer
  dsimp only
  rw [if_neg hzero, if_pos hc, hlen, hend]
  exact ⟨_, rfl, (update_memory o _ _ _ _ _).1⟩

/-- The registers name the first bytes of the computer, and of the bank. -/
def oneByte : List Access := [.store 2 0, .store 3 0, .store 4 0, .store 5 0, .store 7 1, .store 8 0]

/-- The registers after this. -/
def oneByteRegs (r : Rec) : Rec :=
  { r with
    baseComputer := 0
    baseReu := 0
    transferLength := 1
    baseComputerShadow := 0
    baseReuShadow := 0
    transferLengthShadow := 1 }

theorem run_oneByte (o : RecOptions) (s : Reu) : run o s oneByte = some { s with regs := oneByteRegs s.regs } := by
  have hzero : ∀ shadow, withHigh (withLow shadow 0) 0 = 0 := fun shadow => withHigh_withLow shadow 0 0
  have hone : ∀ shadow, withHigh (withLow shadow 1) 0 = 1 := fun shadow => withHigh_withLow shadow 0 1
  have hrun : run o s oneByte = some { s with regs := { s.regs with
      baseComputer := withHigh (withLow s.regs.baseComputerShadow 0) 0
      baseReu := withHigh (withLow s.regs.baseReuShadow 0) 0
      transferLength := withHigh (withLow s.regs.transferLengthShadow 1) 0
      baseComputerShadow := withHigh (withLow s.regs.baseComputerShadow 0) 0
      baseReuShadow := withHigh (withLow s.regs.baseReuShadow 0) 0
      transferLengthShadow := withHigh (withLow s.regs.transferLengthShadow 1) 0 } } := rfl
  rw [hrun, hzero, hzero, hone]
  rfl

theorem Same.run (h : Same o s t) {es : List Access} (hs : run o s es = some s') (ht : run o t es = some t') :
    Same o s' t' := by
  induction es generalizing s t with
  | nil => exact Option.some.inj hs ▸ Option.some.inj ht ▸ h
  | cons e es ih =>
    unfold ReuRegisters.run at hs ht
    rw [List.foldlM_cons] at hs ht
    obtain ⟨s1, hstep, hrest⟩ := Option.bind_eq_some_iff.mp hs
    obtain ⟨t1, hstep', hrest'⟩ := Option.bind_eq_some_iff.mp ht
    exact ih (h.after hstep hstep') hrest hrest'

/-- The registers of a transfer of one byte. -/
def aimed (r : Rec) (command : UInt8) : Rec := { oneByteRegs r with command := command }

theorem aimed_start (r : Rec) (command : UInt8) :
    dmaReuAddr (aimed r command) = r.bankReu.toNat <<< 16 ∧ dmaLength (aimed r command) = 1 :=
  ⟨Nat.zero_or _, rfl⟩

/-- A byte is stashed, to the start of the bank. -/
theorem stash_one (hshape : Shape o k) (s : Reu)
    (hcell : s.regs.bankReu.toNat <<< 16 &&& (o.dramWrapAround - 1) < o.reuSize) :
    ∃ s1 s2, run o s oneByte = some s1 ∧ step o s1 (.store 1 0x90) = some s2 ∧ s2.reuRam =
      Function.update s.reuRam (s.regs.bankReu.toNat <<< 16 &&& (o.dramWrapAround - 1)) (s.host 0) := by
  obtain ⟨haddr, hlen⟩ := aimed_start s.regs 0x90
  obtain ⟨s2, hrun, hram⟩ := stash_byte (r := aimed s.regs 0x90) hshape (by decide : (0x90 : UInt8) &&& 3 = 0) hlen
    (haddr ▸ hcell) s
  rw [haddr] at hram
  exact ⟨_, s2, run_oneByte o s, (execute_step o _ (by decide) (by decide)).trans hrun, hram⟩

/-- A byte is fetched, from the start of the bank. -/
theorem fetch_one (hshape : Shape o k) {value : UInt8}
    (hread : readFromReu o s (s.regs.bankReu.toNat <<< 16) = some value) :
    ∃ s1 s2, run o s oneByte = some s1 ∧ step o s1 (.store 1 0x91) = some s2 ∧
      s2.host = Function.update s.host 0 value := by
  obtain ⟨haddr, hlen⟩ := aimed_start s.regs 0x91
  obtain ⟨s2, hrun, hhost⟩ := fetch_byte (r := aimed s.regs 0x91) hshape (by decide : (0x91 : UInt8) &&& 3 = 1) hlen
    (haddr ▸ hread)
  exact ⟨_, s2, run_oneByte o s, (execute_step o _ (by decide) (by decide)).trans hrun, hhost⟩

/-! ## The bank -/

/-- A byte that is stashed shows where the bank is. -/
theorem shows_bank (h : setReuSize val = some o) (hsame : Same o s t) : SameBank o s.regs.bankReu t.regs.bankReu := by
  obtain ⟨j, hshape⟩ := shape_of h
  obtain ⟨k, hlatch⟩ := latch_of h
  obtain ⟨-, hdram, hsize⟩ | ⟨hunused, rfl⟩ := hlatch.unused
  · -- the bit that differs is in an address of the memory
    have hmask : o.wrapAroundMaskWhenStoring = o.dramWrapAround - 1 := hlatch.mask.trans (by rw [hdram])
    have hcell : ∀ b : UInt8, b.toNat <<< 16 &&& (o.dramWrapAround - 1) < o.reuSize := fun b => by
      rw [hdram, hsize, Nat.and_two_pow_sub_one_eq_mod]
      exact Nat.mod_lt _ (Nat.two_pow_pos k)
    unfold SameBank
    rw [hmask]
    by_contra hne
    -- a byte that is not there yet
    have : Nontrivial UInt8 := ⟨0, 1, by decide⟩
    obtain ⟨v, hv⟩ := exists_ne (t.reuRam (s.regs.bankReu.toNat <<< 16 &&& (o.dramWrapAround - 1)))
    have hpoked : Same o { s with host := Function.update s.host 0 v } { t with host := Function.update t.host 0 v } :=
      @Same.after o s t _ _ (.poke 0 v) hsame rfl rfl
    obtain ⟨s1, s2, hs, hs', hram⟩ := stash_one hshape { s with host := Function.update s.host 0 v }
      (hcell s.regs.bankReu)
    obtain ⟨t1, t2, ht, ht', hram'⟩ := stash_one hshape { t with host := Function.update t.host 0 v }
      (hcell t.regs.bankReu)
    have hequal := (hpoked.run hs ht).ram hs' ht' (hcell s.regs.bankReu)
    rw [hram, hram'] at hequal
    dsimp only at hequal
    rw [Function.update_self, Function.update_self, Function.update_of_ne hne] at hequal
    exact hv hequal
  · have hread : s.regs.bankReu ||| o.regBankUnused ||| 0xf8 = t.regs.bankReu ||| o.regBankUnused ||| 0xf8 :=
      hsame.register 6
    rw [hunused, or_or_self, or_or_self] at hread
    have hlow := (bank_reads _ _).mp hread
    rw [sameBank_iff hlatch]
    unfold SameBits
    omega

theorem shows_shadows (h : setReuSize val = some o) (hsame : Same o s t) :
    s.regs.baseComputerShadow = t.regs.baseComputerShadow ∧ s.regs.baseReuShadow = t.regs.baseReuShadow ∧
      SameBank o s.regs.bankReuShadow t.regs.bankReuShadow ∧
      s.regs.transferLengthShadow = t.regs.transferLengthShadow := by
  obtain ⟨s1, hs, hloaded⟩ := autoload_step h s
  obtain ⟨t1, ht, hloaded'⟩ := autoload_step h t
  have hafter := hsame.after hs ht
  have hread := hafter.register
  rw [← hloaded.host, ← hloaded'.host, ← hloaded.reu, ← hloaded'.reu, ← hloaded.bank, ← hloaded'.bank,
    ← hloaded.length, ← hloaded'.length]
  exact ⟨word_of_reads (hread 2) (hread 3), word_of_reads (hread 4) (hread 5), shows_bank h hafter,
    word_of_reads (hread 7) (hread 8)⟩

/-! ## The bus -/

def unit1764 : RecOptions := ⟨0x80000, 0x80000, 0x40000, 0x7ffff, 0xf8, 0x10, 0x40000⟩

theorem size_1764 : setReuSize 256 = some unit1764 := rfl

/-- Only the 1764 has addresses without memory. -/
theorem only_1764 (h : setReuSize val = some o) (hlt : o.reuSize < o.dramWrapAround) : o = unit1764 := by
  obtain rfl | rfl | rfl | rfl | rfl | rfl | rfl | rfl := setReuSize_cases h <;> cases h
  case inr.inl => rfl
  all_goals exact absurd hlt (by decide)

/-- A fetch of a byte that is not there brings the value of the bus to light. -/
theorem shows_bus (h : setReuSize val = some o) (hlt : o.reuSize < o.dramWrapAround) (hsame : Same o s t) :
    s.floatingBusValue = t.floatingBusValue := by
  obtain rfl := only_1764 h hlt
  obtain ⟨k, hshape⟩ := shape_of h
  have hread : ∀ s : Reu, s.regs.bankReu = 4 →
      readFromReu unit1764 s (s.regs.bankReu.toNat <<< 16) = some s.floatingBusValue := by
    intro s hbank
    rw [hbank]
    rfl
  -- the bank after the memory
  have hbank : Same unit1764 { s with regs := { s.regs with bankReu := 4, bankReuShadow := 4 } }
      { t with regs := { t.regs with bankReu := 4, bankReuShadow := 4 } } :=
    @Same.after unit1764 s t _ _ (.store 6 4) hsame rfl rfl
  obtain ⟨s1, s2, hs, hs', hhost⟩ := fetch_one hshape
    (hread { s with regs := { s.regs with bankReu := 4, bankReuShadow := 4 } } rfl)
  obtain ⟨t1, t2, ht, ht', hhost'⟩ := fetch_one hshape
    (hread { t with regs := { t.regs with bankReu := 4, bankReuShadow := 4 } } rfl)
  have hequal := congrFun ((hbank.run hs ht).host hs' ht') 0
  rw [hhost, hhost', Function.update_self, Function.update_self] at hequal
  exact hequal

/-! ## Transparency -/

theorem same_survives (h : setReuSize val = some o) (hkept : Kept s) (hsame : Same o s (restored o s t)) :
    Survives o s t := by
  obtain ⟨j, hshape⟩ := shape_of h
  obtain ⟨k, hlatch⟩ := latch_of h
  obtain ⟨hcomputer, hreu, hbank, hlength⟩ := shows_shadows h hsame
  have hstatus := shows_status hsame
  have hdelay := shows_delay hshape hsame
  have hbus := fun hlt => shows_bus h hlt hsame
  have hregs : (restored o s t).regs = _ := restored_read hkept t.regs
  rw [hregs] at hcomputer hreu hbank hlength hstatus
  unfold restored at hdelay hbus
  exact ⟨hstatus.symm, hdelay, fun hlt => (hbus hlt).symm, hcomputer, hreu,
    hbank.trans (stored_bank hlatch s.regs.bankReu).symm, hlength⟩

end

/-- For every size, every state that the computer can bring a unit to after a reset, and every unit that the
snapshot is read into: no accesses show a difference if and only if what is lost makes none. -/
theorem snapshot_transparent_iff (val : Nat) (o : RecOptions) (h : setReuSize val = some o) (s0 s : Reu)
    (es : List Access) (hrun : run o (reuReset o { s0 with irq := false }) es = some s) (c : Cart) :
    Transparent o s c ↔ Survives o s (c.resized val) := by
  obtain ⟨j, hshape⟩ := shape_of h
  obtain ⟨k, hlatch⟩ := latch_of h
  have hkept := run_kept hshape (reset_kept h s0) hrun
  obtain ⟨c', hload, hoptions, hreu⟩ := read_written h s c
  constructor
  · rintro ⟨c'', hload', hsame⟩
    obtain rfl := Option.some.inj (hload.symm.trans hload')
    rw [hoptions, hreu] at hsame
    exact same_survives h hkept hsame
  · intro hsurvives
    refine ⟨c', hload, ?_⟩
    rw [hoptions, hreu]
    exact trace_alike h (survives_alike hlatch hkept hsurvives)

/-- A unit after a reset. -/
def freshCart : Cart := ⟨true, 256, unit1764, size_1764, reuReset unit1764 (twoBytes 0 0x3f)⟩

/-- An address is written, and a snapshot is read into a unit after a reset. -/
theorem address_survives : ∃ s, run unit1764 (reuReset unit1764 { twoBytes 0 0x3f with irq := false })
    [.store 2 0x34, .store 3 0x12] = some s ∧ Transparent unit1764 s freshCart :=
  ⟨_, rfl, (snapshot_transparent_iff 256 unit1764 size_1764 (twoBytes 0 0x3f) _ [.store 2 0x34, .store 3 0x12] rfl
    freshCart).mpr ⟨rfl, rfl, fun _ => rfl, rfl, rfl, rfl, rfl⟩⟩

/-- The end of a stash is forgotten. -/
theorem end_of_block_lost : ¬ ∀ (val : Nat) (o : RecOptions), setReuSize val = some o →
    ∀ (s0 s : Reu) (es : List Access), run o (reuReset o { s0 with irq := false }) es = some s → ∀ c : Cart, Transparent o s c := by
  intro h
  obtain ⟨s, hrun, -⟩ := run_shadows size_1764 { twoBytes 0 0x3f with irq := false }
    [.store 7 1, .store 8 0, .store 1 0x90]
  have hstatus : (run unit1764 (reuReset unit1764 { twoBytes 0 0x3f with irq := false })
      [.store 7 1, .store 8 0, .store 1 0x90]).map (·.regs.status) = some 0x50 := by
    decide +kernel
  rw [hrun] at hstatus
  obtain ⟨c, hload, hsame⟩ := h 256 unit1764 size_1764 (twoBytes 0 0x3f) s _ hrun freshCart
  obtain ⟨c', hload', hoptions, hreu⟩ := read_written size_1764 s freshCart
  obtain rfl := Option.some.inj (hload.symm.trans hload')
  rw [hoptions, hreu] at hsame
  have hfresh : (freshCart.resized 256).regs.status = 0x10 := rfl
  have hlost : s.regs.status = 0x10 := (shows_status hsame).trans ((restored_status unit1764 s _).trans hfresh)
  rw [Option.map_some, hlost] at hstatus
  exact absurd hstatus (by decide)

end Vice.L4.ReuTransparent
