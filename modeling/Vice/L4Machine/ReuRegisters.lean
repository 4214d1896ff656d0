import Vice.L4Machine.ReuTransfer

/-!
# Registers of the RAM expansion unit after a transfer

Results:
* `dma_outcome`: every transfer ends, with the registers updated at some place.
* `run_shadows`: what is loaded are the values that were written last.
-/
namespace Vice.L4.ReuRegisters
open Vice.L0.CellMove Vice.L4.ReuCore Vice.L4.ReuTransfer

section
variable {val k : Nat} {o : RecOptions} {s s' : Reu} {r r' : Rec} {mask : UInt8}

/-! ## The start of a transfer -/

def startPlace (r : Rec) : Place := ⟨r.baseComputer, dmaReuAddr r⟩

def hostStep (r : Rec) : UInt16 := if r.addressControlReg &&& FIX_C64 = 0 then 1 else 0

def reuStep (r : Rec) : Nat := if r.addressControlReg &&& FIX_REC = 0 then 1 else 0

/-- Where the transfer of the registers is after `n` bytes. -/
def dmaPlace (o : RecOptions) (r : Rec) (n : Nat) : Place := placeAt o (hostStep r) (reuStep r) (startPlace r) n

theorem dmaLength_le (r : Rec) : dmaLength r ≤ 2 ^ 16 := by
  have hlt := r.transferLength.toNat_lt
  unfold dmaLength
  split_ifs <;> omega

theorem dmaReuAddr_eq (r : Rec) : dmaReuAddr r = r.baseReu.toNat + r.bankReu.toNat * 2 ^ 16 := by
  unfold dmaReuAddr
  rw [Nat.shiftLeft_eq, Nat.or_comm, Nat.mul_comm, ← Nat.two_pow_add_eq_or_of_lt r.baseReu.toNat_lt, Nat.add_comm]

theorem dmaReuAddr_lt (r : Rec) : dmaReuAddr r < 2 ^ 24 := by
  have hbase := r.baseReu.toNat_lt
  have hbank := r.bankReu.toNat_lt
  rw [dmaReuAddr_eq]
  omega

/-- A comparison goes to the end if at most the last bytes differ, and the other transfers always do. -/
def Completes (o : RecOptions) (s : Reu) : Prop :=
  s.regs.command &&& 3 = 3 →
    ∀ i, i + 1 < dmaLength s.regs → EqualAt o (hostStep s.regs) (reuStep s.regs) (startPlace s.regs) s i

/-! ## Updates -/

/-- The registers that the autoload loads. -/
structure SameShadows (r r' : Rec) : Prop where
  computer : r'.baseComputerShadow = r.baseComputerShadow
  reu : r'.baseReuShadow = r.baseReuShadow
  bank : r'.bankReuShadow = r.bankReuShadow
  length : r'.transferLengthShadow = r.transferLengthShadow

/-- The registers go on where the transfer ended, but for addresses that are fixed. -/
structure Advanced (val : Nat) (r r' : Rec) : Prop where
  host : r'.baseComputer =
    if r.addressControlReg &&& FIX_C64 = 0 then r.baseComputer + UInt16.ofNat (dmaLength r) else r.baseComputer
  reu : dmaReuAddr r' =
    if r.addressControlReg &&& FIX_REC = 0 then documented val (dmaReuAddr r) (dmaLength r) else dmaReuAddr r
  length : r'.transferLength = 1

/-- The registers are loaded again. -/
structure Autoloaded (r r' : Rec) : Prop where
  host : r'.baseComputer = r.baseComputerShadow
  reu : r'.baseReu = r.baseReuShadow
  bank : r'.bankReu = r.bankReuShadow
  length : r'.transferLength = r.transferLengthShadow

def Finished (val : Nat) (r r' : Rec) : Prop :=
  if r.command &&& COMMAND_AUTOLOAD = 0 then Advanced val r r' else Autoloaded r r'

/-- Registers that differ in the status and the command only. -/
def Matching (r r' : Rec) : Prop := r' = { r with status := r'.status, command := r'.command }

theorem raise_regs (s : Reu) (bits mask : UInt8) : Matching s.regs (raise s bits mask).regs := by
  unfold raise
  split_ifs <;> rfl

theorem SameShadows.matching {r'' : Rec} (h : SameShadows r r') (h' : Matching r' r'') : SameShadows r r'' := by
  rw [h']
  exact ⟨h.computer, h.reu, h.bank, h.length⟩

theorem Finished.matching {r'' : Rec} (h : Finished val r r') (h' : Matching r' r'') : Finished val r r'' := by
  unfold Finished at *
  rw [h']
  split_ifs at h ⊢
  · exact ⟨h.host, h.reu, h.length⟩
  · exact ⟨h.host, h.reu, h.bank, h.length⟩

theorem update_shadows (o : RecOptions) (s : Reu) (hostAddr : UInt16) (reuAddr len : Nat) (mask : UInt8) :
    SameShadows s.regs (reuDmaUpdateRegs o s hostAddr reuAddr len mask).regs := by
  unfold reuDmaUpdateRegs
  dsimp only
  refine SameShadows.matching (SameShadows.matching ?_ (raise_regs _ _ _)) (raise_regs _ _ _)
  unfold loadRegs
  split_ifs <;> exact ⟨rfl, rfl, rfl, rfl⟩

/-- The address is put back in its registers. -/
theorem putBack_eq {x : Nat} (hx : x < 2 ^ 24) :
    (UInt16.ofNat (x &&& 0xffff)).toNat + (UInt8.ofNat ((x >>> 16) &&& 0xff)).toNat * 2 ^ 16 = x := by
  rw [show x &&& 0xffff = x % 2 ^ 16 from Nat.and_two_pow_sub_one_eq_mod x 16,
    show (x >>> 16) &&& 0xff = (x >>> 16) % 2 ^ 8 from Nat.and_two_pow_sub_one_eq_mod _ 8,
    Nat.shiftRight_eq_div_pow, UInt16.toNat_ofNat', UInt8.toNat_ofNat']
  omega

theorem documented_lt (h : setReuSize val = some o) (hn : k ≤ 2 ^ 16) {a : Nat} (ha : a < 2 ^ 24) :
    documented val a k < 2 ^ 24 := by
  have hstores := stores_of h
  have hsizes := setReuSize_cases h
  have hplace := placeAt_documented (p := ⟨0, a⟩) h 0 ha hn
  have hle : documented val a k ≤ o.wrapAroundMaskWhenStoring := hplace ▸ Nat.and_le_right
  by_cases hsmall : val ≤ 512
  · rw [hstores.cut hsmall] at hle
    omega
  · obtain ⟨n, hsize, hmask⟩ := hstores.latched (by omega)
    rw [hmask, ← hsize] at hle
    omega

theorem update_finished (h : setReuSize val = some o) (s : Reu) (mask : UInt8) :
    Finished val s.regs (reuDmaUpdateRegs o s (dmaPlace o s.regs (dmaLength s.regs)).hostAddr
      (dmaPlace o s.regs (dmaLength s.regs)).reuAddr 1 mask).regs := by
  have hlen := dmaLength_le s.regs
  have hstart := dmaReuAddr_lt s.regs
  -- the places, for addresses that are not fixed
  have hhostAddr : s.regs.addressControlReg &&& FIX_C64 = 0 →
      (dmaPlace o s.regs (dmaLength s.regs)).hostAddr = s.regs.baseComputer + UInt16.ofNat (dmaLength s.regs) := by
    intro hfree
    unfold dmaPlace hostStep
    rw [placeAt_host, if_pos hfree, UInt16.mul_one]
    rfl
  have hreuAddr : s.regs.addressControlReg &&& FIX_REC = 0 →
      (dmaPlace o s.regs (dmaLength s.regs)).reuAddr &&& o.wrapAroundMaskWhenStoring =
        documented val (dmaReuAddr s.regs) (dmaLength s.regs) := by
    intro hfree
    unfold dmaPlace reuStep
    rw [if_pos hfree]
    exact placeAt_documented h _ hstart hlen
  have hback := putBack_eq (documented_lt h hlen hstart)
  unfold reuDmaUpdateRegs
  dsimp only
  refine Finished.matching (Finished.matching ?_ (raise_regs _ _ _)) (raise_regs _ _ _)
  unfold Finished loadRegs
  by_cases hload : s.regs.command &&& COMMAND_AUTOLOAD = 0
  · rw [if_pos hload, if_pos hload]
    refine ⟨?_, ?_, rfl⟩
    · dsimp only
      split_ifs with hhost
      · exact hhostAddr hhost
      · rfl
    · rw [dmaReuAddr_eq]
      dsimp only
      split_ifs with hreu
      · rw [hreuAddr hreu]
        exact hback
      · exact (dmaReuAddr_eq s.regs).symm
  · rw [if_neg hload, if_neg hload]
    exact ⟨rfl, rfl, rfl, rfl⟩

/-! ## Transfers -/

/-- The transfer of the command. -/
def transfer (o : RecOptions) (s : Reu) : Option Reu :=
  let r := s.regs
  if r.command &&& 3 = 0 then reuDmaHostToReu o s (startPlace r) (hostStep r) (reuStep r) (dmaLength r)
  else if r.command &&& 3 = 1 then reuDmaReuToHost o s (startPlace r) (hostStep r) (reuStep r) (dmaLength r)
  else if r.command &&& 3 = 2 then reuDmaSwap o s (startPlace r) (hostStep r) (reuStep r) (dmaLength r)
  else reuDmaCompare o s (startPlace r) (hostStep r) (reuStep r) (dmaLength r)

/-- The command is over. -/
def endCommand (s : Reu) : Reu :=
  { s with regs := { s.regs with
    command := (s.regs.command &&& ~~~COMMAND_EXECUTE) ||| COMMAND_FF00_TRIGGER_DISABLED } }

theorem reuDmaStart_eq (o : RecOptions) (s : Reu) : reuDmaStart o s = (transfer o s).map endCommand := by
  have hbind : reuDmaStart o s = (transfer o s).bind fun s => some (endCommand s) := rfl
  rw [hbind]
  cases transfer o s <;> rfl

theorem command_cases (c : UInt8) : c &&& 3 = 0 ∨ c &&& 3 = 1 ∨ c &&& 3 = 2 ∨ c &&& 3 = 3 := by
  have hmod : (c &&& 3).toNat = c.toNat % 4 := Nat.and_two_pow_sub_one_eq_mod c.toNat 2
  have hlt : c.toNat % 4 < 4 := Nat.mod_lt _ (by decide)
  rw [← UInt8.toNat_inj, ← UInt8.toNat_inj, ← UInt8.toNat_inj, ← UInt8.toNat_inj, hmod]
  change c.toNat % 4 = 0 ∨ c.toNat % 4 = 1 ∨ c.toNat % 4 = 2 ∨ c.toNat % 4 = 3
  omega

/-- After a fetch the bus has what would have come next. -/
theorem reuToHost_end (hshape : Shape o k) {hostStep : UInt16} {reuStep len : Nat} {p p' : Place}
    (hrun : reuToHost o hostStep reuStep len p s = some (p', s')) :
    ∃ value, reuDmaReuToHost o s p hostStep reuStep len =
      some { reuDmaUpdateRegs o s' p'.hostAddr p'.reuAddr 1 STATUS_END_OF_BLOCK with floatingBusValue := value } := by
  obtain ⟨value, hread⟩ := readFromReu_total hshape
    (reuDmaUpdateRegs o s' p'.hostAddr p'.reuAddr 1 STATUS_END_OF_BLOCK) p'.reuAddr
  refine ⟨value, ?_⟩
  rw [reuDmaReuToHost, hrun]
  change (readFromReu o _ p'.reuAddr).bind _ = _
  rw [hread]
  rfl

/-- A transfer ends at the end of the block, or at a difference, or at both. -/
def IsEnd (mask : UInt8) : Prop :=
  mask = STATUS_END_OF_BLOCK ∨ mask = STATUS_VERIFY_ERROR ∨ mask = STATUS_VERIFY_ERROR ||| STATUS_END_OF_BLOCK

theorem compareStatus_total (h : Shape o k) (s : Reu) {differs : Bool} {len : Nat} (p : Place)
    (hend : differs = true ∨ len = 0) :
    ∃ mask len', compareStatus o s differs len p = some (mask, len') ∧ (len = 0 → len' = 1) ∧ IsEnd mask := by
  obtain ⟨value, hread⟩ := readFromReu_total h s p.reuAddr
  unfold compareStatus
  cases differs with
  | false =>
    obtain rfl := hend.resolve_left Bool.false_ne_true
    exact ⟨_, 1, rfl, fun _ => rfl, Or.inl rfl⟩
  | true =>
    rw [if_pos rfl, hread]
    by_cases hzero : len = 0
    · rw [if_pos hzero]
      exact ⟨_, 1, rfl, fun _ => rfl, Or.inr (Or.inr rfl)⟩
    · rw [if_neg hzero]
      dsimp only [bind, Option.bind]
      split_ifs
      · exact ⟨_, len, rfl, fun heq => absurd heq hzero, Or.inr (Or.inr rfl)⟩
      · exact ⟨_, len, rfl, fun heq => absurd heq hzero, Or.inr (Or.inl rfl)⟩
      · exact ⟨_, len, rfl, fun heq => absurd heq hzero, Or.inr (Or.inl rfl)⟩

/-- A transfer updates the registers where its loop ended. -/
structure Updated (o : RecOptions) (s s' : Reu) where
  looped : Reu
  place : Place
  length : Nat
  mask : UInt8
  bus : UInt8
  untouched : Untouched s looped
  ended : IsEnd mask
  result : s' = { reuDmaUpdateRegs o looped place.hostAddr place.reuAddr length mask with floatingBusValue := bus }
  complete : Completes o s → place = dmaPlace o s.regs (dmaLength s.regs) ∧ length = 1

theorem compare_updated (hshape : Shape o k) (s : Reu) (hc : s.regs.command &&& 3 = 3) :
    ∃ s', reuDmaCompare o s (startPlace s.regs) (hostStep s.regs) (reuStep s.regs) (dmaLength s.regs) = some s' ∧
      Nonempty (Updated o s s') := by
  obtain ⟨differs, left, p, hrun, hends⟩ := compare_total hshape (hostStep s.regs) (reuStep s.regs) s
    (dmaLength s.regs) (startPlace s.regs)
  obtain ⟨mask, len, hstatus, hone, hmask⟩ := compareStatus_total hshape s p hends
  refine ⟨reuDmaUpdateRegs o s p.hostAddr p.reuAddr len mask, ?_,
    ⟨s, p, len, mask, _, ⟨rfl, rfl⟩, hmask, rfl, fun hcompletes => ?_⟩⟩
  · rw [reuDmaCompare, hrun]
    change (compareStatus o s differs left p).bind _ = _
    rw [hstatus]
    rfl
  · obtain ⟨differs', hend⟩ := compare_completed hshape (hcompletes hc)
    have heq := Option.some.inj (hrun.symm.trans hend)
    exact ⟨congrArg (·.2.2) heq, hone (congrArg (·.2.1) heq)⟩

theorem transfer_updated (hshape : Shape o k) (s : Reu) :
    ∃ s', transfer o s = some s' ∧ Nonempty (Updated o s s') := by
  unfold transfer
  dsimp only
  split_ifs with hzero hone htwo
  · obtain ⟨value, s1, hrun, hsame⟩ := hostToReu_total hshape (hostStep s.regs) (reuStep s.regs)
      (dmaLength s.regs) 0 (startPlace s.regs) s
    rw [reuDmaHostToReu, hrun]
    exact ⟨_, rfl, ⟨s1, _, 1, _, value, hsame, Or.inl rfl, rfl, fun _ => ⟨rfl, rfl⟩⟩⟩
  · obtain ⟨s1, hrun, hsame⟩ := reuToHost_total hshape (hostStep s.regs) (reuStep s.regs)
      (dmaLength s.regs) (startPlace s.regs) s
    obtain ⟨value, hend⟩ := reuToHost_end hshape hrun
    exact ⟨_, hend, ⟨s1, _, 1, _, value, hsame, Or.inl rfl, rfl, fun _ => ⟨rfl, rfl⟩⟩⟩
  · obtain ⟨s1, hrun, hsame⟩ := swap_total hshape (hostStep s.regs) (reuStep s.regs)
      (dmaLength s.regs) (startPlace s.regs) s
    rw [reuDmaSwap, hrun]
    exact ⟨_, rfl, ⟨s1, _, 1, _, _, hsame, Or.inl rfl, rfl, fun _ => ⟨rfl, rfl⟩⟩⟩
  · have hcases := command_cases s.regs.command
    exact compare_updated hshape s (by tauto)

theorem transfer_outcome (h : setReuSize val = some o) (s : Reu) :
    ∃ s', transfer o s = some s' ∧ SameShadows s.regs s'.regs ∧ (Completes o s → Finished val s.regs s'.regs) := by
  obtain ⟨k, hshape⟩ := shape_of h
  obtain ⟨s', hrun, ⟨u⟩⟩ := transfer_updated hshape s
  obtain ⟨hregs, -⟩ := u.untouched
  refine ⟨s', hrun, ?_, fun hcompletes => ?_⟩
  · rw [u.result, ← hregs]
    exact update_shadows o _ _ _ _ _
  · obtain ⟨hplace, hlength⟩ := u.complete hcompletes
    rw [u.result, hplace, hlength, ← hregs]
    exact update_finished h u.looped u.mask

theorem dma_outcome (h : setReuSize val = some o) (s : Reu) :
    ∃ s', reuDmaStart o s = some s' ∧ SameShadows s.regs s'.regs ∧ (Completes o s → Finished val s.regs s'.regs) := by
  obtain ⟨s', hrun, hshadows, hfinished⟩ := transfer_outcome h s
  refine ⟨endCommand s', ?_, hshadows.matching rfl, fun hcompletes => (hfinished hcompletes).matching rfl⟩
  rw [reuDmaStart_eq, hrun]
  rfl

/-! ## Values that were written -/

/-- What the computer does. -/
inductive Access
  | store (addr : Nat) (byte : UInt8)
  | read (addr : Nat)
  | ff00
  | poke (addr : UInt16) (byte : UInt8)

def step (o : RecOptions) (s : Reu) : Access → Option Reu
  | .store addr byte => reuIo2Store o s addr byte
  | .read addr => some (reuIo2Read o s addr).2
  | .ff00 => reuDma o s none
  | .poke addr byte => some { s with host := Function.update s.host addr byte }

def run (o : RecOptions) (s : Reu) (es : List Access) : Option Reu := es.foldlM (step o) s

/-- The word of two bytes. -/
def wordOf (high low : UInt8) : UInt16 := low.toUInt16 ||| (high.toUInt16 <<< (8 : UInt16))

/-- What is loaded: the bank up to the bits that it does not have. -/
structure Written (o : RecOptions) (last : Nat → UInt8) (r : Rec) : Prop where
  computer : r.baseComputerShadow = wordOf (last 3) (last 2)
  reu : r.baseReuShadow = wordOf (last 5) (last 4)
  bank : r.bankReuShadow ||| o.regBankUnused = last 6 ||| o.regBankUnused
  length : r.transferLengthShadow = wordOf (last 8) (last 7)

theorem withLow_wordOf (high low byte : UInt8) : withLow (wordOf high low) byte = wordOf high byte := by
  have hmask : ∀ i < 16, (0xff00#16).getLsbD i = decide (8 ≤ i) := by decide
  unfold withLow wordOf
  rw [← UInt16.toBitVec_inj]
  refine BitVec.eq_of_getLsbD_eq fun i hi => ?_
  by_cases hlow : i < 8
  · have hge : ¬ 8 ≤ i := by omega
    simp [hmask i hi, hlow, hge]
  · have hge : 8 ≤ i := by omega
    simp [hmask i hi, hlow, hge, Bool.or_comm]

theorem withHigh_wordOf (high low byte : UInt8) : withHigh (wordOf high low) byte = wordOf byte low := by
  have hmask : ∀ i < 16, (0x00ff#16).getLsbD i = decide (i < 8) := by decide
  unfold withHigh wordOf
  rw [← UInt16.toBitVec_inj]
  refine BitVec.eq_of_getLsbD_eq fun i hi => ?_
  by_cases hlow : i < 8
  · simp [hmask i hi, hlow]
  · have hzero : low.toBitVec.getLsbD i = false := BitVec.getLsbD_of_ge _ _ (by omega)
    simp [hmask i hi, hlow, hzero]

/-- The values that were written last, after one more. -/
def remembered (last : Nat → UInt8) (addr : Nat) (byte : UInt8) (reg : Nat) : UInt8 :=
  if addr = reg then byte else last reg

/-- The bits that a bank does not have read as ones. -/
theorem bank_masked (byte unused : UInt8) : byte &&& ~~~unused ||| unused = byte ||| unused := by
  rw [← UInt8.toBitVec_inj]
  refine BitVec.eq_of_getLsbD_eq fun i hi => ?_
  simp only [UInt8.toBitVec_or, UInt8.toBitVec_and, UInt8.toBitVec_not, BitVec.getLsbD_or, BitVec.getLsbD_and,
    BitVec.getLsbD_not, hi, decide_true, Bool.true_and]
  cases byte.toBitVec.getLsbD i <;> cases unused.toBitVec.getLsbD i <;> rfl

theorem store_written {last : Nat → UInt8} (h : Written o last r) (addr : Nat) (byte : UInt8) :
    Written o (remembered last addr byte) (reuStoreWithoutSideeffects o r addr byte) := by
  unfold reuStoreWithoutSideeffects
  split
  · exact ⟨h.computer, h.reu, h.bank, h.length⟩
  · exact ⟨by rw [h.computer]; exact withLow_wordOf _ _ _, h.reu, h.bank, h.length⟩
  · exact ⟨by rw [h.computer]; exact withHigh_wordOf _ _ _, h.reu, h.bank, h.length⟩
  · exact ⟨h.computer, by rw [h.reu]; exact withLow_wordOf _ _ _, h.bank, h.length⟩
  · exact ⟨h.computer, by rw [h.reu]; exact withHigh_wordOf _ _ _, h.bank, h.length⟩
  · exact ⟨h.computer, h.reu, bank_masked byte _, h.length⟩
  · exact ⟨h.computer, h.reu, h.bank, by rw [h.length]; exact withLow_wordOf _ _ _⟩
  · exact ⟨h.computer, h.reu, h.bank, by rw [h.length]; exact withHigh_wordOf _ _ _⟩
  · exact ⟨h.computer, h.reu, h.bank, h.length⟩
  · exact ⟨h.computer, h.reu, h.bank, h.length⟩
  · rename_i h1 h2 h3 h4 h5 h6 h7 h8 h9 h10
    have hcomputer : remembered last addr byte 3 = last 3 ∧ remembered last addr byte 2 = last 2 :=
      ⟨if_neg h3, if_neg h2⟩
    have hreu : remembered last addr byte 5 = last 5 ∧ remembered last addr byte 4 = last 4 := ⟨if_neg h5, if_neg h4⟩
    have hbank : remembered last addr byte 6 = last 6 := if_neg h6
    have hlength : remembered last addr byte 8 = last 8 ∧ remembered last addr byte 7 = last 7 := ⟨if_neg h8, if_neg h7⟩
    refine ⟨?_, ?_, ?_, ?_⟩
    · rw [hcomputer.1, hcomputer.2]
      exact h.computer
    · rw [hreu.1, hreu.2]
      exact h.reu
    · rw [hbank]
      exact h.bank
    · rw [hlength.1, hlength.2]
      exact h.length

theorem Written.congr {last : Nat → UInt8} (h : Written o last r) (hsame : SameShadows r r') : Written o last r' :=
  ⟨hsame.computer.trans h.computer, hsame.reu.trans h.reu, by rw [hsame.bank]; exact h.bank,
    hsame.length.trans h.length⟩

/-- A transfer that starts at once, or later, or not at all. -/
theorem dma_shadows (h : setReuSize val = some o) (s : Reu) (immediate : Option Bool) :
    ∃ s', reuDma o s immediate = some s' ∧ SameShadows s.regs s'.regs := by
  have hstart : ∃ s', reuDmaStart o { s with delay := false } = some s' ∧ SameShadows s.regs s'.regs := by
    obtain ⟨s', hrun, hshadows, -⟩ := dma_outcome h { s with delay := false }
    exact ⟨s', hrun, hshadows⟩
  unfold reuDma
  split
  · exact ⟨_, rfl, ⟨rfl, rfl, rfl, rfl⟩⟩
  · exact hstart
  · split_ifs
    · exact hstart
    · exact ⟨s, rfl, ⟨rfl, rfl, rfl, rfl⟩⟩

theorem Matching.shadows (h : Matching r r') : SameShadows r r' := by
  rw [h]
  exact ⟨rfl, rfl, rfl, rfl⟩

theorem read_shadows (o : RecOptions) (s : Reu) (addr : Nat) : SameShadows s.regs (reuIo2Read o s addr).2.regs := by
  unfold reuIo2Read
  split_ifs
  · dsimp only
    split <;> exact ⟨rfl, rfl, rfl, rfl⟩
  · exact ⟨rfl, rfl, rfl, rfl⟩

theorem store_step (h : setReuSize val = some o) {last : Nat → UInt8} (hwritten : Written o last s.regs) (addr : Nat)
    (byte : UInt8) :
    ∃ s', reuIo2Store o s addr byte = some s' ∧ Written o (remembered last addr byte) s'.regs := by
  have hstored := store_written hwritten addr byte
  unfold reuIo2Store
  split_ifs with haddr
  · dsimp only
    split
    · split_ifs
      · obtain ⟨s', hrun, hshadows⟩ := dma_shadows h { s with regs := reuStoreWithoutSideeffects o s.regs 0x01 byte }
          (some ((reuStoreWithoutSideeffects o s.regs 0x01 byte).command &&& COMMAND_FF00_TRIGGER_DISABLED ≠ 0))
        exact ⟨s', hrun, hstored.congr hshadows⟩
      · exact ⟨_, rfl, hstored⟩
    · refine ⟨_, rfl, (hstored.congr (Matching.shadows ?_)).congr (Matching.shadows (raise_regs _ _ _))⟩
      exact raise_regs { s with regs := reuStoreWithoutSideeffects o s.regs 0x09 byte } _ _
    · exact ⟨_, rfl, hstored⟩
  · -- registers that are not there
    refine ⟨s, rfl, ?_⟩
    have hsame : reuStoreWithoutSideeffects o s.regs addr byte = s.regs := by
      unfold reuStoreWithoutSideeffects
      split <;> first | rfl | omega
    exact hsame ▸ hstored

/-- The values that were written last, after an access. -/
def Access.remember (last : Nat → UInt8) : Access → Nat → UInt8
  | .store addr byte => remembered last addr byte
  | _ => last

theorem step_written (h : setReuSize val = some o) {last : Nat → UInt8} (hwritten : Written o last s.regs)
    (e : Access) :
    ∃ s', step o s e = some s' ∧ Written o (e.remember last) s'.regs := by
  cases e with
  | store addr byte => exact store_step h hwritten addr byte
  | read addr => exact ⟨_, rfl, hwritten.congr (read_shadows o s addr)⟩
  | ff00 =>
    obtain ⟨s', hrun, hshadows⟩ := dma_shadows h s none
    exact ⟨s', hrun, hwritten.congr hshadows⟩
  | poke addr byte => exact ⟨_, rfl, hwritten⟩

/-- The values of the registers 2 to 8 after a reset. -/
def resetValue (o : RecOptions) (reg : Nat) : UInt8 :=
  if reg = 6 then o.regBankUnused else if reg = 7 ∨ reg = 8 then 0xff else 0

/-- The values that were written last, since the reset. -/
def lastWritten (o : RecOptions) (es : List Access) : Nat → UInt8 :=
  es.foldl (fun last e => e.remember last) (resetValue o)

theorem run_written (h : setReuSize val = some o) (es : List Access) {last : Nat → UInt8}
    (hwritten : Written o last s.regs) :
    ∃ s', run o s es = some s' ∧ Written o (es.foldl (fun last e => e.remember last) last) s'.regs := by
  induction es generalizing s last with
  | nil => exact ⟨s, rfl, hwritten⟩
  | cons e es ih =>
    obtain ⟨s1, hstep, hwritten1⟩ := step_written h hwritten e
    obtain ⟨s', hrun, hwritten'⟩ := ih hwritten1
    refine ⟨s', ?_, hwritten'⟩
    unfold run
    rw [List.foldlM_cons, hstep]
    exact hrun

theorem run_shadows (h : setReuSize val = some o) (s : Reu) (es : List Access) :
    ∃ s', run o (reuReset o s) es = some s' ∧ Written o (lastWritten o es) s'.regs :=
  run_written h es ⟨(by decide : (0 : UInt16) = wordOf 0 0), (by decide : (0 : UInt16) = wordOf 0 0), rfl,
    (by decide : (0xffff : UInt16) = wordOf 0xff 0xff)⟩

end

end Vice.L4.ReuRegisters
