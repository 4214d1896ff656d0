import Vice.L0Core.CellMove
import Vice.L4Machine.ReuCore
import Mathlib.Data.Nat.Bitwise
import Mathlib.Tactic.SplitIfs

/-!
# Transfers of the RAM expansion unit

The expansion chip counts in the lower 19 bits of an address, and wraps around at 512 KiB, or at 128 KiB
in the 1700. In each case the address modulo 128 KiB goes up by one, so no cell of a transfer comes twice.

Results:
* `shape_of`: what all sizes have in common.
* `documented`, `placeAt_documented`: the address that is put back.
* `compare_equal`, `compare_completed`: what a comparison comes to.
-/
namespace Vice.L4.ReuTransfer
open Vice.L0.CellMove Vice.L4.ReuCore

section
variable {val k n i : Nat} {o : RecOptions} {p : Place} {hostStep : UInt16} {reuStep a : Nat}

/-! ## Sizes -/

structure Shape (o : RecOptions) (k : Nat) : Prop where
  wrap : o.wrapAround = 2 ^ 17 ∨ o.wrapAround = 2 ^ 19
  dram : o.dramWrapAround = 2 ^ k
  dram_ge : 17 ≤ k
  backed : o.notBackedupAddresses = o.reuSize

theorem setReuSize_cases (h : setReuSize val = some o) :
    val = 128 ∨ val = 256 ∨ val = 512 ∨ val = 1024 ∨ val = 2048 ∨ val = 4096 ∨ val = 8192 ∨ val = 16384 := by
  unfold setReuSize at h
  split_ifs at h <;> omega

theorem shape_of (h : setReuSize val = some o) : ∃ k, Shape o k := by
  obtain rfl | rfl | rfl | rfl | rfl | rfl | rfl | rfl := setReuSize_cases h <;> cases h
  · exact ⟨17, Or.inl rfl, rfl, by decide, rfl⟩
  · exact ⟨19, Or.inr rfl, rfl, by decide, rfl⟩
  · exact ⟨19, Or.inr rfl, rfl, by decide, rfl⟩
  · exact ⟨20, Or.inr rfl, rfl, by decide, rfl⟩
  · exact ⟨21, Or.inr rfl, rfl, by decide, rfl⟩
  · exact ⟨22, Or.inr rfl, rfl, by decide, rfl⟩
  · exact ⟨23, Or.inr rfl, rfl, by decide, rfl⟩
  · exact ⟨24, Or.inr rfl, rfl, by decide, rfl⟩

/-- What becomes of the bits above those that the chip counts. -/
structure Stores (o : RecOptions) (val : Nat) : Prop where
  narrow : val = 128 → o.wrapAround = 2 ^ 17
  wide : val ≠ 128 → o.wrapAround = 2 ^ 19
  cut : val ≤ 512 → o.wrapAroundMaskWhenStoring = 2 ^ 19 - 1
  latched : 512 < val → ∃ k, val * 1024 = 2 ^ k ∧ o.wrapAroundMaskWhenStoring = 2 ^ k - 1

theorem stores_of (h : setReuSize val = some o) : Stores o val := by
  obtain rfl | rfl | rfl | rfl | rfl | rfl | rfl | rfl := setReuSize_cases h <;> cases h
  · exact ⟨fun _ => rfl, fun hne => absurd rfl hne, fun _ => rfl, fun hlt => absurd hlt (by decide)⟩
  · exact ⟨fun heq => absurd heq (by decide), fun _ => rfl, fun _ => rfl, fun hlt => absurd hlt (by decide)⟩
  · exact ⟨fun heq => absurd heq (by decide), fun _ => rfl, fun _ => rfl, fun hlt => absurd hlt (by decide)⟩
  · exact ⟨fun heq => absurd heq (by decide), fun _ => rfl, fun hle => absurd hle (by decide), fun _ => ⟨20, rfl, rfl⟩⟩
  · exact ⟨fun heq => absurd heq (by decide), fun _ => rfl, fun hle => absurd hle (by decide), fun _ => ⟨21, rfl, rfl⟩⟩
  · exact ⟨fun heq => absurd heq (by decide), fun _ => rfl, fun hle => absurd hle (by decide), fun _ => ⟨22, rfl, rfl⟩⟩
  · exact ⟨fun heq => absurd heq (by decide), fun _ => rfl, fun hle => absurd hle (by decide), fun _ => ⟨23, rfl, rfl⟩⟩
  · exact ⟨fun heq => absurd heq (by decide), fun _ => rfl, fun hle => absurd hle (by decide), fun _ => ⟨24, rfl, rfl⟩⟩

/-! ## Steps -/

theorem chip_bits (a : Nat) : a &&& 0x0007ffff = a % 2 ^ 19 := Nat.and_two_pow_sub_one_eq_mod a 19

/-- The latched bits are multiples of 512 KiB. -/
theorem latched_bits (a : Nat) : a &&& 0x00f80000 = a / 2 ^ 19 % 32 * 2 ^ 19 := by
  have hmask : (0x00f80000 : Nat) = (2 ^ 5 - 1) * 2 ^ 19 := by decide
  refine Nat.eq_of_testBit_eq fun i => ?_
  rw [hmask, show 32 = 2 ^ 5 from rfl, Nat.testBit_and, Nat.testBit_mul_two_pow, Nat.testBit_two_pow_sub_one,
    Nat.testBit_mul_two_pow, Nat.testBit_mod_two_pow, Nat.testBit_div_two_pow]
  by_cases hi : 19 ≤ i
  · rw [decide_eq_true hi, Bool.true_and, Bool.true_and, Nat.sub_add_cancel hi, Bool.and_comm]
  · rw [decide_eq_false hi, Bool.false_and, Bool.false_and, Bool.and_false]

/-- Modulo 128 KiB the address goes up by the step. -/
theorem increment_low (hwrap : o.wrapAround = 2 ^ 17 ∨ o.wrapAround = 2 ^ 19) (a reuStep : Nat) :
    incrementReuWithWrapAround o a reuStep % 2 ^ 17 = (a + reuStep) % 2 ^ 17 := by
  unfold incrementReuWithWrapAround
  dsimp only
  rw [Nat.or_mod_two_pow, chip_bits, latched_bits]
  have hhigh : a / 2 ^ 19 % 32 * 2 ^ 19 % 2 ^ 17 = 0 := by omega
  rw [hhigh, Nat.zero_or]
  obtain hwrap | hwrap := hwrap <;> rw [hwrap] <;> split_ifs <;> omega

/-! ## Transfers -/

/-- Where a transfer is after `n` bytes. -/
def placeAt (o : RecOptions) (hostStep : UInt16) (reuStep : Nat) (p : Place) : Nat → Place
  | 0 => p
  | n + 1 => placeAt o hostStep reuStep (p.next o hostStep reuStep) n

/-- The cells of the computer. -/
def hostCells (o : RecOptions) (hostStep : UInt16) (reuStep : Nat) (p : Place) (n : Nat) : UInt16 :=
  (placeAt o hostStep reuStep p n).hostAddr

/-- The cells of the unit. -/
def reuCells (o : RecOptions) (hostStep : UInt16) (reuStep : Nat) (p : Place) (n : Nat) : Nat :=
  (placeAt o hostStep reuStep p n).reuAddr &&& (o.dramWrapAround - 1)

theorem placeAt_host (n : Nat) :
    (placeAt o hostStep reuStep p n).hostAddr = p.hostAddr + UInt16.ofNat n * hostStep := by
  induction n generalizing p with
  | zero => simp [placeAt]
  | succ n ih =>
    rw [placeAt, ih]
    change p.hostAddr + hostStep + UInt16.ofNat n * hostStep = _
    rw [UInt16.ofNat_add, UInt16.add_mul, UInt16.add_assoc, UInt16.add_comm hostStep]
    congr 2
    exact (UInt16.one_mul hostStep).symm

theorem placeAt_low (hwrap : o.wrapAround = 2 ^ 17 ∨ o.wrapAround = 2 ^ 19) (n : Nat) :
    (placeAt o hostStep reuStep p n).reuAddr % 2 ^ 17 = (p.reuAddr + n * reuStep) % 2 ^ 17 := by
  induction n generalizing p with
  | zero => rw [placeAt, Nat.zero_mul, Nat.add_zero]
  | succ n ih =>
    have hstep := increment_low hwrap p.reuAddr reuStep
    rw [placeAt, ih]
    change (incrementReuWithWrapAround o p.reuAddr reuStep + n * reuStep) % 2 ^ 17 = _
    rw [Nat.add_mod, hstep, ← Nat.add_mod, Nat.succ_mul]
    congr 1
    omega

/-- No cell of the computer comes twice. -/
theorem hostCells_distinct (hn : n ≤ 2 ^ 16) : Distinct n (hostCells o 1 reuStep p) := by
  intro i hi j hj heq
  unfold hostCells at heq
  rw [placeAt_host, placeAt_host, UInt16.mul_one, UInt16.mul_one] at heq
  have hval := congrArg UInt16.toNat ((UInt16.add_right_inj _).mp heq)
  rw [UInt16.toNat_ofNat', UInt16.toNat_ofNat'] at hval
  omega

/-- Nor does a cell of the unit. -/
theorem reuCells_distinct (h : Shape o k) (hn : n ≤ 2 ^ 16) : Distinct n (reuCells o hostStep 1 p) := by
  intro i hi j hj heq
  have hlow : ∀ m, reuCells o hostStep 1 p m % 2 ^ 17 = (p.reuAddr + m) % 2 ^ 17 := by
    intro m
    unfold reuCells
    rw [h.dram, Nat.and_two_pow_sub_one_eq_mod, Nat.mod_mod_of_dvd _ (Nat.pow_dvd_pow 2 h.dram_ge),
      placeAt_low h.wrap, Nat.mul_one]
  have hmod := hlow i
  rw [heq, hlow j] at hmod
  omega

/-! ## The address that is put back -/

/-- The address `n` bytes on: the 1700 wraps around at 128 KiB, the others at 512 KiB, and what is above
stays as it is in the latch of the larger ones, as far as they have memory. -/
def documented (val start n : Nat) : Nat :=
  if val = 128 ∧ start % 2 ^ 19 < 2 ^ 17 then (start % 2 ^ 19 + n) % 2 ^ 17
  else if val ≤ 512 then (start + n) % 2 ^ 19
  else (start / 2 ^ 19 * 2 ^ 19 + (start + n) % 2 ^ 19) % (val * 1024)

theorem increment_wide (hwrap : o.wrapAround = 2 ^ 19) (ha : a < 2 ^ 24) :
    incrementReuWithWrapAround o a 1 = a / 2 ^ 19 * 2 ^ 19 + (a + 1) % 2 ^ 19 := by
  have hlatch : a / 2 ^ 19 % 32 = a / 2 ^ 19 := Nat.mod_eq_of_lt (by omega)
  unfold incrementReuWithWrapAround
  dsimp only
  rw [chip_bits, latched_bits, hlatch, hwrap]
  have hor : ∀ x < 2 ^ 19, a / 2 ^ 19 * 2 ^ 19 ||| x = a / 2 ^ 19 * 2 ^ 19 + x := by
    intro x hx
    rw [Nat.mul_comm]
    exact (Nat.two_pow_add_eq_or_of_lt hx _).symm
  split_ifs
  · rw [hor 0 (by decide)]
    omega
  · rw [hor _ (by omega)]
    omega

theorem placeAt_wide (hwrap : o.wrapAround = 2 ^ 19) (hp : p.reuAddr < 2 ^ 24) (n : Nat) :
    (placeAt o hostStep 1 p n).reuAddr = p.reuAddr / 2 ^ 19 * 2 ^ 19 + (p.reuAddr + n) % 2 ^ 19 := by
  induction n generalizing p with
  | zero =>
    change p.reuAddr = _
    omega
  | succ n ih =>
    have hnext : (p.next o hostStep 1).reuAddr = p.reuAddr / 2 ^ 19 * 2 ^ 19 + (p.reuAddr + 1) % 2 ^ 19 :=
      increment_wide hwrap hp
    rw [placeAt, ih (by rw [hnext]; omega), hnext]
    omega

/-- In the 1700 the lower 19 bits go up by one, and are 0 when they come to 128 KiB or 512 KiB. -/
theorem increment_narrow (hwrap : o.wrapAround = 2 ^ 17) (a : Nat) : incrementReuWithWrapAround o a 1 % 2 ^ 19 =
      if a % 2 ^ 19 + 1 = 2 ^ 17 then 0 else (a % 2 ^ 19 + 1) % 2 ^ 19 := by
  unfold incrementReuWithWrapAround
  dsimp only
  rw [Nat.or_mod_two_pow, chip_bits, latched_bits, hwrap, Nat.mul_mod_left, Nat.zero_or]
  split_ifs
  · rfl
  · rfl

theorem placeAt_narrow (hwrap : o.wrapAround = 2 ^ 17) (hn : n ≤ 2 ^ 16) :
    (placeAt o hostStep 1 p n).reuAddr % 2 ^ 19 =
      if p.reuAddr % 2 ^ 19 < 2 ^ 17 then (p.reuAddr % 2 ^ 19 + n) % 2 ^ 17 else (p.reuAddr + n) % 2 ^ 19 := by
  induction n generalizing p with
  | zero =>
    change p.reuAddr % 2 ^ 19 = _
    split_ifs <;> omega
  | succ n ih =>
    have hnext : (p.next o hostStep 1).reuAddr % 2 ^ 19 =
        if p.reuAddr % 2 ^ 19 + 1 = 2 ^ 17 then 0 else (p.reuAddr % 2 ^ 19 + 1) % 2 ^ 19 :=
      increment_narrow hwrap p.reuAddr
    rw [placeAt, ih (Nat.le_of_succ_le hn)]
    generalize (p.next o hostStep 1).reuAddr = next at hnext
    by_cases hlow : p.reuAddr % 2 ^ 19 < 2 ^ 17
    · rw [if_pos hlow]
      split_ifs at hnext
      · rw [if_pos (by omega), hnext]
        omega
      · rw [if_pos (by omega), hnext]
        omega
    · rw [if_neg hlow]
      rw [if_neg (by omega)] at hnext
      -- past 512 KiB the lower bits are 0, and there are too few bytes to come to 128 KiB
      split_ifs <;> omega

/-- A transfer puts back the documented address. -/
theorem placeAt_documented (h : setReuSize val = some o) (hostStep : UInt16) (hp : p.reuAddr < 2 ^ 24)
    (hn : n ≤ 2 ^ 16) :
    (placeAt o hostStep 1 p n).reuAddr &&& o.wrapAroundMaskWhenStoring = documented val p.reuAddr n := by
  have hstores := stores_of h
  unfold documented
  by_cases hnarrow : val = 128
  · rw [hstores.cut (by omega), Nat.and_two_pow_sub_one_eq_mod, placeAt_narrow (hstores.narrow hnarrow) hn]
    by_cases hlow : p.reuAddr % 2 ^ 19 < 2 ^ 17
    · rw [if_pos hlow, if_pos ⟨hnarrow, hlow⟩]
    · rw [if_neg hlow, if_neg (fun hc => hlow hc.2), if_pos (by omega)]
  · rw [if_neg (fun hc => hnarrow hc.1), placeAt_wide (hstores.wide hnarrow) hp]
    by_cases hsmall : val ≤ 512
    · rw [if_pos hsmall, hstores.cut hsmall, Nat.and_two_pow_sub_one_eq_mod]
      omega
    · obtain ⟨k, hsize, hmask⟩ := hstores.latched (by omega)
      rw [if_neg hsmall, hmask, Nat.and_two_pow_sub_one_eq_mod, hsize]

end

section
variable {val k len reuStep a : Nat} {o : RecOptions} {s : Reu} {p : Place} {hostStep : UInt16} {value : UInt8}

/-! ## Bytes -/

theorem storeToReu_total (h : Shape o k) (s : Reu) (a : Nat) (value : UInt8) :
    ∃ s', storeToReu o s a value = some s' ∧ s' = { s with reuRam := s'.reuRam } := by
  unfold storeToReu
  dsimp only
  split_ifs with hbacked hsize
  · exact ⟨_, rfl, rfl⟩
  · exact absurd (h.backed ▸ hbacked) hsize
  · exact ⟨s, rfl, rfl⟩

theorem readFromReu_total (h : Shape o k) (s : Reu) (a : Nat) : ∃ value, readFromReu o s a = some value := by
  unfold readFromReu
  dsimp only
  split_ifs with hbacked hsize
  · exact ⟨_, rfl⟩
  · exact absurd (h.backed ▸ hbacked) hsize
  · exact ⟨_, rfl⟩

theorem storeToReu_eq (h : Shape o k) (hsize : a &&& (o.dramWrapAround - 1) < o.reuSize) :
    storeToReu o s a value =
      some { s with reuRam := Function.update s.reuRam (a &&& (o.dramWrapAround - 1)) value } := by
  have hbacked : a &&& (o.dramWrapAround - 1) < o.notBackedupAddresses := h.backed ▸ hsize
  unfold storeToReu
  dsimp only
  rw [if_pos hbacked, if_pos hsize]

theorem readFromReu_eq (h : Shape o k) (hsize : a &&& (o.dramWrapAround - 1) < o.reuSize) :
    readFromReu o s a = some (s.reuRam (a &&& (o.dramWrapAround - 1))) := by
  have hbacked : a &&& (o.dramWrapAround - 1) < o.notBackedupAddresses := h.backed ▸ hsize
  unfold readFromReu
  dsimp only
  rw [if_pos hbacked, if_pos hsize]

/-! ## Loops that always end -/

/-- A loop leaves the registers and the line alone. -/
def Untouched (s s' : Reu) : Prop := s'.regs = s.regs ∧ s'.irq = s.irq

theorem hostToReu_total (h : Shape o k) (hostStep : UInt16) (reuStep len : Nat) (value : UInt8) (p : Place) (s : Reu) :
    ∃ value' s', hostToReu o hostStep reuStep len value p s = some (value', placeAt o hostStep reuStep p len, s') ∧
      Untouched s s' := by
  induction len generalizing value p s with
  | zero => exact ⟨value, s, rfl, rfl, rfl⟩
  | succ len ih =>
    obtain ⟨s1, hstore, heq⟩ := storeToReu_total h s p.reuAddr (s.host p.hostAddr)
    obtain ⟨value', s', hrun, hregs, hirq⟩ := ih (s.host p.hostAddr) (p.next o hostStep reuStep) s1
    refine ⟨value', s', ?_, hregs.trans (by rw [heq]), hirq.trans (by rw [heq])⟩
    rw [hostToReu, hstore]
    exact hrun

theorem reuToHost_total (h : Shape o k) (hostStep : UInt16) (reuStep len : Nat) (p : Place) (s : Reu) :
    ∃ s', reuToHost o hostStep reuStep len p s = some (placeAt o hostStep reuStep p len, s') ∧ Untouched s s' := by
  induction len generalizing p s with
  | zero => exact ⟨s, rfl, rfl, rfl⟩
  | succ len ih =>
    obtain ⟨value, hread⟩ := readFromReu_total h s p.reuAddr
    obtain ⟨s', hrun, hsame⟩ := ih (p.next o hostStep reuStep)
      { s with floatingBusValue := value, host := Function.update s.host p.hostAddr value }
    refine ⟨s', ?_, hsame⟩
    rw [reuToHost, hread]
    exact hrun

theorem swap_total (h : Shape o k) (hostStep : UInt16) (reuStep len : Nat) (p : Place) (s : Reu) :
    ∃ s', swap o hostStep reuStep len p s = some (placeAt o hostStep reuStep p len, s') ∧ Untouched s s' := by
  induction len generalizing p s with
  | zero => exact ⟨s, rfl, rfl, rfl⟩
  | succ len ih =>
    obtain ⟨value, hread⟩ := readFromReu_total h s p.reuAddr
    obtain ⟨s1, hstore, heq⟩ := storeToReu_total h s p.reuAddr (s.host p.hostAddr)
    obtain ⟨s', hrun, hregs, hirq⟩ := ih (p.next o hostStep reuStep)
      { s1 with host := Function.update s1.host p.hostAddr value }
    refine ⟨s', ?_, hregs.trans (by rw [heq]), hirq.trans (by rw [heq])⟩
    rw [swap, hread]
    change (storeToReu o s p.reuAddr (s.host p.hostAddr)).bind _ = _
    rw [hstore]
    exact hrun

theorem compare_total (h : Shape o k) (hostStep : UInt16) (reuStep : Nat) (s : Reu) (len : Nat) (p : Place) :
    ∃ differs left p', compare o hostStep reuStep s len p = some (differs, left, p') ∧ (differs = true ∨ left = 0) := by
  induction len generalizing p with
  | zero => exact ⟨false, 0, p, rfl, Or.inr rfl⟩
  | succ len ih =>
    obtain ⟨value, hread⟩ := readFromReu_total h s p.reuAddr
    rw [ReuCore.compare, hread]
    dsimp only [bind, Option.bind]
    split_ifs
    · exact ⟨_, _, _, rfl, Or.inl rfl⟩
    · exact ih _

/-! ## Loops in memory that is there -/

/-- All cells of a transfer are in the memory of the unit. -/
def Populated (o : RecOptions) (hostStep : UInt16) (reuStep : Nat) (p : Place) (len : Nat) : Prop :=
  ∀ i < len, reuCells o hostStep reuStep p i < o.reuSize

theorem Populated.next (h : Populated o hostStep reuStep p (len + 1)) :
    Populated o hostStep reuStep (p.next o hostStep reuStep) len := fun i hi =>
  h (i + 1) (Nat.succ_lt_succ hi)

theorem hostToReu_eq (h : Shape o k) (hp : Populated o hostStep reuStep p len) (value : UInt8) :
    ∃ value', hostToReu o hostStep reuStep len value p s = some (value', placeAt o hostStep reuStep p len,
      { s with reuRam :=
          copyCells len (hostCells o hostStep reuStep p) (reuCells o hostStep reuStep p) s.host s.reuRam }) := by
  induction len generalizing value p s with
  | zero => exact ⟨value, rfl⟩
  | succ len ih =>
    have hfirst : p.reuAddr &&& (o.dramWrapAround - 1) < o.reuSize := hp 0 (Nat.succ_pos len)
    rw [hostToReu, storeToReu_eq h hfirst]
    exact ih hp.next _

theorem reuToHost_eq (h : Shape o k) (hp : Populated o hostStep reuStep p len) :
    ∃ value, reuToHost o hostStep reuStep len p s = some (placeAt o hostStep reuStep p len,
      { s with
        floatingBusValue := value
        host := copyCells len (reuCells o hostStep reuStep p) (hostCells o hostStep reuStep p) s.reuRam s.host }) := by
  induction len generalizing p s with
  | zero => exact ⟨s.floatingBusValue, rfl⟩
  | succ len ih =>
    have hfirst : p.reuAddr &&& (o.dramWrapAround - 1) < o.reuSize := hp 0 (Nat.succ_pos len)
    rw [reuToHost, readFromReu_eq h hfirst]
    exact ih hp.next

theorem swap_eq (h : Shape o k) (hp : Populated o hostStep reuStep p len) :
    swap o hostStep reuStep len p s = some (placeAt o hostStep reuStep p len,
      { s with
        host := (exchangeCells len (hostCells o hostStep reuStep p) (reuCells o hostStep reuStep p)
          (s.host, s.reuRam)).1
        reuRam := (exchangeCells len (hostCells o hostStep reuStep p) (reuCells o hostStep reuStep p)
          (s.host, s.reuRam)).2 }) := by
  induction len generalizing p s with
  | zero => rfl
  | succ len ih =>
    have hfirst : p.reuAddr &&& (o.dramWrapAround - 1) < o.reuSize := hp 0 (Nat.succ_pos len)
    rw [swap, readFromReu_eq h hfirst]
    change (storeToReu o s p.reuAddr (s.host p.hostAddr)).bind _ = _
    rw [storeToReu_eq h hfirst]
    exact ih hp.next

/-! ## Comparisons -/

/-- The bytes of a comparison are equal. -/
def EqualAt (o : RecOptions) (hostStep : UInt16) (reuStep : Nat) (p : Place) (s : Reu) (i : Nat) : Prop :=
  readFromReu o s (placeAt o hostStep reuStep p i).reuAddr = some (s.host (placeAt o hostStep reuStep p i).hostAddr)

theorem compare_equal (h : ∀ i < len, EqualAt o hostStep reuStep p s i) :
    compare o hostStep reuStep s len p = some (false, 0, placeAt o hostStep reuStep p len) := by
  induction len generalizing p with
  | zero => rfl
  | succ len ih =>
    have hfirst : readFromReu o s p.reuAddr = some (s.host p.hostAddr) := h 0 (Nat.succ_pos len)
    rw [ReuCore.compare, hfirst]
    dsimp only [bind, Option.bind]
    rw [if_neg (fun hne => hne rfl)]
    exact ih fun i hi => h (i + 1) (Nat.succ_lt_succ hi)

/-- A comparison in which at most the last bytes differ goes to the end. -/
theorem compare_completed (hshape : Shape o k) (h : ∀ i, i + 1 < len → EqualAt o hostStep reuStep p s i) :
    ∃ differs, compare o hostStep reuStep s len p = some (differs, 0, placeAt o hostStep reuStep p len) := by
  induction len generalizing p with
  | zero => exact ⟨false, rfl⟩
  | succ len ih =>
    obtain ⟨value, hread⟩ := readFromReu_total hshape s p.reuAddr
    rw [ReuCore.compare, hread]
    dsimp only [bind, Option.bind]
    split_ifs with hne
    · cases len with
      | zero => exact ⟨true, rfl⟩
      | succ len =>
        have hfirst : readFromReu o s p.reuAddr = some (s.host p.hostAddr) := h 0 (by omega)
        exact absurd (Option.some.inj (hread.symm.trans hfirst)) hne
    · exact ih fun i hi => h (i + 1) (by omega)

end

end Vice.L4.ReuTransfer
