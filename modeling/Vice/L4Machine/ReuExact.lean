import Vice.L4Machine.ReuRegisters

/-!
# Transfers of the RAM expansion unit are exact

Results:
* `stash_moves`, `fetch_moves`, `swap_moves`, `verify_equal`: what the four commands do.
* `reu_exact`: stashes, fetches, swaps and comparisons with the same registers, and the registers after.
-/
namespace Vice.L4.ReuExact
open Vice.L0.CellMove Vice.L4.ReuCore Vice.L4.ReuTransfer Vice.L4.ReuRegisters

section
variable {val k : Nat} {o : RecOptions} {s s1 : Reu} {r : Rec} {host : UInt16 → UInt8}

/-! ## Commands -/

/-- The cells of the computer that the registers name. -/
def dmaHostCells (o : RecOptions) (r : Rec) : Nat → UInt16 := hostCells o (hostStep r) (reuStep r) (startPlace r)

/-- The cells of the unit. -/
def dmaReuCells (o : RecOptions) (r : Rec) : Nat → Nat := reuCells o (hostStep r) (reuStep r) (startPlace r)

/-- Both addresses go up, and the memory of the unit is there. -/
structure Plain (o : RecOptions) (r : Rec) : Prop where
  host : r.addressControlReg &&& FIX_C64 = 0
  reu : r.addressControlReg &&& FIX_REC = 0
  populated : ∀ i < dmaLength r, dmaReuCells o r i < o.reuSize

theorem Plain.distinct (h : Plain o r) (hshape : Shape o k) :
    Distinct (dmaLength r) (dmaHostCells o r) ∧ Distinct (dmaLength r) (dmaReuCells o r) := by
  have hone : hostStep r = 1 := if_pos h.host
  have hone' : reuStep r = 1 := if_pos h.reu
  unfold dmaHostCells dmaReuCells
  rw [hone, hone']
  exact ⟨hostCells_distinct (dmaLength_le r), reuCells_distinct hshape (dmaLength_le r)⟩

theorem raise_memory (s : Reu) (bits mask : UInt8) :
    (raise s bits mask).host = s.host ∧ (raise s bits mask).reuRam = s.reuRam := by
  unfold raise
  split_ifs <;> exact ⟨rfl, rfl⟩

theorem update_memory (o : RecOptions) (s : Reu) (hostAddr : UInt16) (reuAddr len : Nat) (mask : UInt8) :
    (reuDmaUpdateRegs o s hostAddr reuAddr len mask).host = s.host ∧
      (reuDmaUpdateRegs o s hostAddr reuAddr len mask).reuRam = s.reuRam := by
  unfold reuDmaUpdateRegs
  dsimp only
  rw [(raise_memory _ _ _).1, (raise_memory _ _ _).2, (raise_memory _ _ _).1, (raise_memory _ _ _).2]
  exact ⟨rfl, rfl⟩

theorem stash_moves (hshape : Shape o k) (hplain : Plain o s.regs) (hc : s.regs.command &&& 3 = 0) :
    ∃ s1, reuDmaStart o s = some s1 ∧ s1.host = s.host ∧
      s1.reuRam = copyCells (dmaLength s.regs) (dmaHostCells o s.regs) (dmaReuCells o s.regs) s.host s.reuRam := by
  obtain ⟨value, hrun⟩ := hostToReu_eq (s := s) hshape hplain.populated 0
  rw [reuDmaStart_eq]
  unfold transfer
  dsimp only
  rw [if_pos hc, reuDmaHostToReu, hrun]
  exact ⟨_, rfl, (update_memory o _ _ _ _ _).1, (update_memory o _ _ _ _ _).2⟩

theorem fetch_moves (hshape : Shape o k) (hplain : Plain o s.regs) (hc : s.regs.command &&& 3 = 1) :
    ∃ s1, reuDmaStart o s = some s1 ∧ s1.reuRam = s.reuRam ∧
      s1.host = copyCells (dmaLength s.regs) (dmaReuCells o s.regs) (dmaHostCells o s.regs) s.reuRam s.host := by
  obtain ⟨value, hrun⟩ := reuToHost_eq (s := s) hshape hplain.populated
  have hzero : ¬ s.regs.command &&& 3 = 0 := by rw [hc]; decide
  rw [reuDmaStart_eq]
  unfold transfer
  dsimp only
  obtain ⟨bus, hend⟩ := reuToHost_end hshape hrun
  rw [if_neg hzero, if_pos hc, hend]
  exact ⟨_, rfl, (update_memory o _ _ _ _ _).2, (update_memory o _ _ _ _ _).1⟩

theorem swap_moves (hshape : Shape o k) (hplain : Plain o s.regs) (hc : s.regs.command &&& 3 = 2) :
    ∃ s1, reuDmaStart o s = some s1 ∧ (s1.host, s1.reuRam) =
      exchangeCells (dmaLength s.regs) (dmaHostCells o s.regs) (dmaReuCells o s.regs) (s.host, s.reuRam) := by
  have hrun := swap_eq (s := s) hshape hplain.populated
  have hzero : ¬ s.regs.command &&& 3 = 0 := by rw [hc]; decide
  have hone : ¬ s.regs.command &&& 3 = 1 := by rw [hc]; decide
  rw [reuDmaStart_eq]
  unfold transfer
  dsimp only
  rw [if_neg hzero, if_neg hone, if_pos hc, reuDmaSwap, hrun]
  exact ⟨_, rfl, Prod.ext (update_memory o _ _ _ _ _).1 (update_memory o _ _ _ _ _).2⟩

/-! ## Comparisons -/

theorem and_or (x m b : UInt8) : (x ||| m) &&& b = x &&& b ||| m &&& b := by
  rw [← UInt8.toNat_inj, UInt8.toNat_and, UInt8.toNat_or, UInt8.toNat_or, UInt8.toNat_and, UInt8.toNat_and,
    Nat.and_or_distrib_right]

/-- Some bits of a set, and all of it. -/
theorem and_or_self (x m : UInt8) : x &&& m ||| m = m := by
  rw [← UInt8.toNat_inj, UInt8.toNat_or, UInt8.toNat_and]
  refine Nat.eq_of_testBit_eq fun i => ?_
  rw [Nat.testBit_or, Nat.testBit_and]
  cases x.toNat.testBit i <;> cases m.toNat.testBit i <;> rfl

/-- Only the interrupt bit comes with those that are set. -/
theorem update_status (o : RecOptions) (s : Reu) (hostAddr : UInt16) (reuAddr len : Nat) (mask b : UInt8)
    (hb : STATUS_INTERRUPT_PENDING &&& b = 0) :
    (reuDmaUpdateRegs o s hostAddr reuAddr len mask).regs.status &&& b = s.regs.status &&& b ||| mask &&& b := by
  have hraise : ∀ (s : Reu) (bits mask : UInt8), (raise s bits mask).regs.status &&& b = s.regs.status &&& b := by
    intro s bits mask
    unfold raise
    split_ifs
    · dsimp only
      rw [and_or, hb, UInt8.or_zero]
    · rfl
  have hload : ∀ r r' : Rec, r'.status = r.status ||| mask → r'.status &&& b = r.status &&& b ||| mask &&& b := by
    intro r r' hstatus
    rw [hstatus, and_or]
  unfold reuDmaUpdateRegs
  dsimp only
  rw [hraise, hraise]
  refine hload s.regs _ ?_
  unfold loadRegs
  split_ifs <;> rfl

theorem verify_equal (hc : s.regs.command &&& 3 = 3)
    (hequal : ∀ i < dmaLength s.regs, EqualAt o (hostStep s.regs) (reuStep s.regs) (startPlace s.regs) s i) :
    ∃ s1, reuDmaStart o s = some s1 ∧ s1.regs.status &&& STATUS_END_OF_BLOCK = STATUS_END_OF_BLOCK ∧
      s1.regs.status &&& STATUS_VERIFY_ERROR = s.regs.status &&& STATUS_VERIFY_ERROR := by
  have hrun := compare_equal hequal
  have hzero : ¬ s.regs.command &&& 3 = 0 := by rw [hc]; decide
  have hone : ¬ s.regs.command &&& 3 = 1 := by rw [hc]; decide
  have htwo : ¬ s.regs.command &&& 3 = 2 := by rw [hc]; decide
  rw [reuDmaStart_eq]
  unfold transfer
  dsimp only
  rw [if_neg hzero, if_neg hone, if_neg htwo, reuDmaCompare, hrun]
  refine ⟨_, rfl, ?_, ?_⟩
  · refine (update_status o s _ _ 1 (0 ||| STATUS_END_OF_BLOCK) STATUS_END_OF_BLOCK (by decide)).trans ?_
    exact and_or_self s.regs.status STATUS_END_OF_BLOCK
  · refine (update_status o s _ _ 1 (0 ||| STATUS_END_OF_BLOCK) STATUS_VERIFY_ERROR (by decide)).trans ?_
    exact UInt8.or_zero

/-! ## Exactness -/

/-- The same addresses, length and steps. -/
structure SameAddresses (r r' : Rec) : Prop where
  computer : r'.baseComputer = r.baseComputer
  reu : r'.baseReu = r.baseReu
  bank : r'.bankReu = r.bankReu
  length : r'.transferLength = r.transferLength
  control : r'.addressControlReg = r.addressControlReg

theorem SameAddresses.start (h : SameAddresses s.regs r) :
    dmaLength r = dmaLength s.regs ∧ hostStep r = hostStep s.regs ∧ reuStep r = reuStep s.regs ∧
      startPlace r = startPlace s.regs := by
  unfold dmaLength hostStep reuStep startPlace dmaReuAddr
  rw [h.computer, h.reu, h.bank, h.length, h.control]
  exact ⟨rfl, rfl, rfl, rfl⟩

theorem SameAddresses.cells (h : SameAddresses s.regs r) :
    dmaHostCells o r = dmaHostCells o s.regs ∧ dmaReuCells o r = dmaReuCells o s.regs := by
  obtain ⟨-, hhost, hreu, hstart⟩ := h.start
  unfold dmaHostCells dmaReuCells
  rw [hhost, hreu, hstart]
  exact ⟨rfl, rfl⟩

theorem Plain.same (hplain : Plain o s.regs) (h : SameAddresses s.regs r) : Plain o r := by
  refine ⟨by rw [h.control]; exact hplain.host, by rw [h.control]; exact hplain.reu, ?_⟩
  rw [h.start.1, h.cells.2]
  exact hplain.populated

/-- The memory of the computer has its old bytes in the cells of the transfer, and is as it was elsewhere. -/
def Restored (o : RecOptions) (s : Reu) (host host' : UInt16 → UInt8) : Prop :=
  ∀ c, ((∃ i < dmaLength s.regs, c = dmaHostCells o s.regs i) → host' c = s.host c) ∧
    ((∀ i < dmaLength s.regs, c ≠ dmaHostCells o s.regs i) → host' c = host c)

/-- After a stash, a comparison of the same cells finds them equal. -/
theorem stash_verified (hshape : Shape o k) (hplain : Plain o s.regs) (hsame : SameAddresses s.regs r)
    (hc : r.command &&& 3 = 3) (hhost : s1.host = s.host)
    (hram : s1.reuRam = copyCells (dmaLength s.regs) (dmaHostCells o s.regs) (dmaReuCells o s.regs) s.host s.reuRam) :
    ∃ s2, reuDmaStart o { s1 with regs := r } = some s2 ∧
      s2.regs.status &&& STATUS_END_OF_BLOCK = STATUS_END_OF_BLOCK ∧
      s2.regs.status &&& STATUS_VERIFY_ERROR = r.status &&& STATUS_VERIFY_ERROR := by
  refine verify_equal (s := { s1 with regs := r }) hc fun i hi => ?_
  obtain ⟨hlen, hstep, hstep', hstart⟩ := hsame.start
  have hi' : i < dmaLength s.regs := hlen ▸ hi
  dsimp only
  rw [hstep, hstep', hstart]
  unfold EqualAt
  refine (readFromReu_eq hshape (hplain.populated i hi')).trans (congrArg some ?_)
  dsimp only
  rw [hram, hhost]
  exact copied_at (hplain.distinct hshape).2 hi'

/-- After a stash, a fetch of the same cells brings them back. -/
theorem stash_fetched (hshape : Shape o k) (hplain : Plain o s.regs) (hsame : SameAddresses s.regs r)
    (hc : r.command &&& 3 = 1)
    (hram : s1.reuRam = copyCells (dmaLength s.regs) (dmaHostCells o s.regs) (dmaReuCells o s.regs) s.host s.reuRam) :
    ∃ s2, reuDmaStart o { s1 with regs := r, host := host } = some s2 ∧ Restored o s host s2.host := by
  obtain ⟨s2, hrun, -, hfetched⟩ :=
    fetch_moves (s := { s1 with regs := r, host := host }) hshape (hplain.same hsame) hc
  obtain ⟨hdistinct, hdistinct'⟩ := hplain.distinct hshape
  refine ⟨s2, hrun, ?_⟩
  dsimp only at hfetched
  rw [hsame.start.1, hsame.cells.1, hsame.cells.2, hram] at hfetched
  rw [hfetched]
  exact copied_back hdistinct hdistinct' host

theorem swapped_back (hshape : Shape o k) (hplain : Plain o s.regs) (hsame : SameAddresses s.regs r)
    (hc : r.command &&& 3 = 2) (hswapped : (s1.host, s1.reuRam) =
      exchangeCells (dmaLength s.regs) (dmaHostCells o s.regs) (dmaReuCells o s.regs) (s.host, s.reuRam)) :
    ∃ s2, reuDmaStart o { s1 with regs := r } = some s2 ∧ s2.host = s.host ∧ s2.reuRam = s.reuRam := by
  obtain ⟨s2, hrun, hagain⟩ := swap_moves (s := { s1 with regs := r }) hshape (hplain.same hsame) hc
  obtain ⟨hdistinct, hdistinct'⟩ := hplain.distinct hshape
  dsimp only at hagain
  rw [hsame.start.1, hsame.cells.1, hsame.cells.2, hswapped, exchanged_twice hdistinct hdistinct'] at hagain
  exact ⟨s2, hrun, congrArg Prod.fst hagain, congrArg Prod.snd hagain⟩

end

/-- For every size and all contents: a transfer accesses no cell past the end, and leaves the registers
advanced or loaded again if it goes to its end; what a stash stored compares equal and can be fetched; a
swap done twice changes nothing; and the registers are loaded with what was written last. -/
theorem reu_exact (val : Nat) (o : RecOptions) (h : setReuSize val = some o) (s : Reu) :
    (∃ s', reuDmaStart o s = some s' ∧ (Completes o s → Finished val s.regs s'.regs)) ∧
      (Plain o s.regs → s.regs.command &&& 3 = 0 → ∃ s1, reuDmaStart o s = some s1 ∧
        ∀ r, SameAddresses s.regs r →
          (r.command &&& 3 = 3 → ∃ s2, reuDmaStart o { s1 with regs := r } = some s2 ∧
            s2.regs.status &&& STATUS_END_OF_BLOCK = STATUS_END_OF_BLOCK ∧
            s2.regs.status &&& STATUS_VERIFY_ERROR = r.status &&& STATUS_VERIFY_ERROR) ∧
          (r.command &&& 3 = 1 → ∀ host, ∃ s2, reuDmaStart o { s1 with regs := r, host := host } = some s2 ∧
            Restored o s host s2.host)) ∧
      (Plain o s.regs → s.regs.command &&& 3 = 2 → ∃ s1, reuDmaStart o s = some s1 ∧
        ∀ r, SameAddresses s.regs r → r.command &&& 3 = 2 →
          ∃ s2, reuDmaStart o { s1 with regs := r } = some s2 ∧ s2.host = s.host ∧ s2.reuRam = s.reuRam) ∧
      (∀ es, ∃ s', run o (reuReset o s) es = some s' ∧ Written o (lastWritten o es) s'.regs) := by
  obtain ⟨k, hshape⟩ := shape_of h
  refine ⟨?_, fun hplain hc => ?_, fun hplain hc => ?_, run_shadows h s⟩
  · obtain ⟨s', hrun, -, hfinished⟩ := dma_outcome h s
    exact ⟨s', hrun, hfinished⟩
  · obtain ⟨s1, hrun, hhost, hram⟩ := stash_moves hshape hplain hc
    exact ⟨s1, hrun, fun r hsame => ⟨fun hverify => stash_verified hshape hplain hsame hverify hhost hram,
      fun hfetch host => stash_fetched hshape hplain hsame hfetch hram⟩⟩
  · obtain ⟨s1, hrun, hswapped⟩ := swap_moves hshape hplain hc
    exact ⟨s1, hrun, fun r hsame hswap => swapped_back hshape hplain hsame hswap hswapped⟩

/-! ## A transfer of the 1700 -/

def unit1700 : RecOptions := ⟨0x20000, 0x20000, 0x20000, 0x7ffff, 0xf8, 0, 0x20000⟩

/-- Two bytes, the second of them past the wrap around. -/
def twoBytes (command control : UInt8) : Reu :=
  { regs := ⟨0, command, 0x1000, 0xffff, 1, 2, 0x1f, control, 0x1000, 0xffff, 1, 2⟩
    reuRam := fun _ => 0
    floatingBusValue := 0xff
    delay := false
    irq := false
    host := fun a => a.toUInt8 }

theorem reu_exact_1700 : (∃ s', reuDmaStart unit1700 (twoBytes 0x90 0x3f) = some s' ∧
      Finished 128 (twoBytes 0x90 0x3f).regs s'.regs) ∧
      ∃ s1, reuDmaStart unit1700 (twoBytes 0x90 0x3f) = some s1 ∧
        ∃ s2, reuDmaStart unit1700 { s1 with regs := (twoBytes 0x93 0x3f).regs } = some s2 ∧
          s2.regs.status &&& STATUS_END_OF_BLOCK = STATUS_END_OF_BLOCK := by
  obtain ⟨⟨s', hrun, hfinished⟩, hstash, -⟩ := reu_exact 128 unit1700 rfl (twoBytes 0x90 0x3f)
  obtain ⟨s1, hrun1, hsame⟩ := hstash ⟨by decide, by decide, by decide +kernel⟩ (by decide)
  obtain ⟨s2, hrun2, hend, -⟩ := (hsame (twoBytes 0x93 0x3f).regs ⟨rfl, rfl, rfl, rfl, rfl⟩).1 (by decide)
  exact ⟨⟨s', hrun, hfinished fun hverify => absurd hverify (by decide)⟩, s1, hrun1, s2, hrun2, hend⟩

/-- An address that is fixed stays in its register. -/
theorem fixed_address_stays : ¬ ∀ (val : Nat) (o : RecOptions), setReuSize val = some o → ∀ s : Reu,
    s.regs.command &&& 3 = 0 → s.regs.command &&& COMMAND_AUTOLOAD = 0 →
    (reuDmaStart o s).map (·.regs.baseComputer) = some (s.regs.baseComputer + UInt16.ofNat (dmaLength s.regs)) :=
  fun h => absurd (h 128 unit1700 rfl (twoBytes 0x90 0xbf) (by decide) (by decide)) (by decide +kernel)

end Vice.L4.ReuExact
