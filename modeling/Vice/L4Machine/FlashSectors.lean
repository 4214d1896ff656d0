import Vice.L4Machine.FlashCommand
import Mathlib.Data.Nat.Bitwise
import Mathlib.Tactic.SplitIfs

/-!
# The sectors of a flash chip

Results:
* `shape_of`: each type has a power of two of sectors, and the number of an address's sector.
* `MaskIs`: the sectors that the mask stands for, and what becomes of them.
-/
namespace Vice.L4.FlashSectors
open Vice.L4.FlashCore Vice.L4.FlashCommand

section
variable {t : FlashType} {s s' : Flash} {sectors : Finset Nat} {k addr i j n : Nat}

/-! ## Shapes -/

/-- There are 2^k sectors. -/
structure Shape (t : FlashType) (k : Nat) : Prop where
  sectorSize : t.sectorSize = 2 ^ t.sectorShift
  size : t.size = 2 ^ k * 2 ^ t.sectorShift
  sectorMask : t.sectorMask = (2 ^ k - 1) <<< t.sectorShift
  large : 4 ≤ t.size

theorem shape_of (h : IsType t) : ∃ k, Shape t k := by
  cases h with
  | flash040 ty =>
    cases ty with
    | normal | b | type010 => exact ⟨3, by decide, by decide, by decide, by decide⟩
    | type032bSwapped => exact ⟨6, by decide, by decide, by decide, by decide⟩
    | type064 => exact ⟨7, by decide, by decide, by decide, by decide⟩
  | flash800 => exact ⟨4, by decide, by decide, by decide, by decide⟩

theorem sectorNumber_eq (h : Shape t k) (haddr : addr < t.size) :
    flashAddrToSectorNumber t addr = addr / t.sectorSize := by
  have hlt : addr / 2 ^ t.sectorShift < 2 ^ k := by
    rw [h.size] at haddr
    exact Nat.div_lt_of_lt_mul (by rwa [Nat.mul_comm])
  unfold flashAddrToSectorNumber
  rw [h.sectorMask, Nat.shiftRight_and_distrib, Nat.shiftLeft_shiftRight, Nat.and_comm,
    Nat.and_two_pow_sub_one_eq_mod, Nat.shiftRight_eq_div_pow, Nat.mod_eq_of_lt hlt, h.sectorSize]

/-- A sector is in the array. -/
theorem sector_le (h : Shape t k) (haddr : addr < t.size) : (addr / t.sectorSize + 1) * t.sectorSize ≤ t.size := by
  have hlt : addr / 2 ^ t.sectorShift < 2 ^ k := by
    rw [h.size] at haddr
    exact Nat.div_lt_of_lt_mul (by rwa [Nat.mul_comm])
  rw [h.sectorSize, h.size]
  exact Nat.mul_le_mul_right _ hlt

/-! ## Bits of the mask -/

theorem maskBit_toNat (i : Nat) : (maskBit i).toNat = 2 ^ (i % 8) := by
  have hlt : i % 8 < 8 := Nat.mod_lt i (by decide)
  have hpow : 2 ^ (i % 8) < 2 ^ 8 := Nat.pow_lt_pow_right (by decide) hlt
  unfold maskBit
  rw [show i &&& 7 = i % 8 from Nat.and_two_pow_sub_one_eq_mod i 3, Nat.shiftLeft_eq, Nat.one_mul,
    UInt8.toNat_ofNat']
  exact Nat.mod_eq_of_lt hpow

/-- Whether a sector is in the mask. -/
def inMask (mask : Nat → UInt8) (i : Nat) : Bool := (mask (i >>> 3)).toNat.testBit (i % 8)

theorem bit_eq (mask : Nat → UInt8) (i : Nat) : decide (mask (i >>> 3) &&& maskBit i ≠ 0) = inMask mask i := by
  have hpos : 0 < 2 ^ (i % 8) := Nat.two_pow_pos _
  have hbit : (mask (i >>> 3) &&& maskBit i).toNat = (inMask mask i).toNat * 2 ^ (i % 8) := by
    rw [UInt8.toNat_and, maskBit_toNat, Nat.and_two_pow]
    rfl
  rw [← Bool.coe_iff_coe, decide_eq_true_iff, ne_eq, ← UInt8.toNat_inj, hbit]
  cases inMask mask i with
  | false => simp
  | true => simp

/-- A sector has its byte and its bit. -/
theorem place_iff (i n : Nat) : i = n ↔ i >>> 3 = n >>> 3 ∧ i % 8 = n % 8 := by
  rw [Nat.shiftRight_eq_div_pow, Nat.shiftRight_eq_div_pow]
  omega

theorem inMask_add (mask : Nat → UInt8) (n i : Nat) :
    inMask (fun j => if j = n >>> 3 then mask j ||| maskBit n else mask j) i = (inMask mask i || decide (i = n)) := by
  have hsplit := place_iff i n
  unfold inMask
  dsimp only
  by_cases hbyte : i >>> 3 = n >>> 3
  · rw [if_pos hbyte, UInt8.toNat_or, maskBit_toNat, Nat.testBit_or, Nat.testBit_two_pow, hbyte]
    congr 1
    rw [decide_eq_decide, hsplit]
    exact ⟨fun h => ⟨hbyte, h.symm⟩, fun h => h.2.symm⟩
  · rw [if_neg hbyte, decide_eq_false (fun h => hbyte (hsplit.mp h).1), Bool.or_false]

theorem inMask_remove (mask : Nat → UInt8) (n i : Nat) :
    inMask (fun j => if j = n >>> 3 then mask j &&& ~~~ maskBit n else mask j) i =
      (inMask mask i && decide (i ≠ n)) := by
  have hsplit := place_iff i n
  have hlt : i % 8 < 8 := Nat.mod_lt i (by decide)
  have hpow : 2 ^ (n % 8) < 2 ^ 8 := Nat.pow_lt_pow_right (by decide) (Nat.mod_lt n (by decide))
  unfold inMask
  dsimp only
  by_cases hbyte : i >>> 3 = n >>> 3
  · have hnot : UInt8.size - 1 - 2 ^ (n % 8) = 2 ^ 8 - (2 ^ (n % 8) + 1) := by
      rw [show UInt8.size = 2 ^ 8 from rfl]
      omega
    rw [if_pos hbyte, UInt8.toNat_and, UInt8.toNat_not, maskBit_toNat, hnot, Nat.testBit_and,
      Nat.testBit_two_pow_sub_succ hpow, Nat.testBit_two_pow, hbyte, decide_eq_true hlt, Bool.true_and]
    congr 1
    rw [← decide_not, decide_eq_decide, ne_eq, hsplit]
    exact ⟨fun h h' => h h'.2.symm, fun h h' => h ⟨hbyte, h'.symm⟩⟩
  · have hne : i ≠ n := fun h => hbyte (hsplit.mp h).1
    rw [if_neg hbyte, decide_eq_true hne, Bool.and_true]

theorem foldl_or (mask : Nat → UInt8) (l : List Nat) (m : UInt8) :
    l.foldl (fun m i => m ||| mask i) m = 0 ↔ m = 0 ∧ ∀ i ∈ l, mask i = 0 := by
  induction l generalizing m with
  | nil => simp
  | cons a l ih =>
    rw [List.foldl_cons, ih, UInt8.or_eq_zero_iff, and_assoc, List.forall_mem_cons]

theorem byte_zero (mask : Nat → UInt8) (j : Nat) : mask j = 0 ↔ ∀ b < 8, inMask mask (j * 8 + b) = false := by
  have hplace : ∀ b < 8, inMask mask (j * 8 + b) = (mask j).toNat.testBit b := by
    intro b hb
    unfold inMask
    rw [Nat.shiftRight_eq_div_pow, show (j * 8 + b) / 2 ^ 3 = j by omega, show (j * 8 + b) % 8 = b by omega]
  constructor
  · intro hzero b hb
    rw [hplace b hb, hzero]
    exact Nat.zero_testBit b
  · intro hall
    by_contra hne
    obtain ⟨b, hb⟩ := Nat.exists_testBit_of_ne_zero (fun h => hne (UInt8.toNat_inj.mp h))
    have hlt : b < 8 := by
      by_contra hge
      have hbig : (mask j).toNat < 2 ^ b :=
        Nat.lt_of_lt_of_le (mask j).toNat_lt (Nat.pow_le_pow_right (by decide) (Nat.le_of_not_lt hge))
      rw [Nat.testBit_lt_two_pow hbig] at hb
      exact Bool.false_ne_true hb
    rw [← hplace b hlt, hall b hlt] at hb
    exact Bool.false_ne_true hb

/-- Something is left of a mask if a sector is. -/
theorem maskLeft_iff (s : Flash) : maskLeft s = 0 ↔ ∀ i < 64, inMask s.eraseMask i = false := by
  unfold maskLeft
  rw [foldl_or]
  constructor
  · rintro ⟨-, hall⟩ i hi
    have hbyte := (byte_zero s.eraseMask (i / 8)).mp (hall _ (List.mem_range.mpr (by unfold ERASE_MASK_SIZE; omega)))
      (i % 8) (Nat.mod_lt i (by decide))
    rwa [Nat.div_add_mod'] at hbyte
  · intro hall
    refine ⟨rfl, fun j hj => (byte_zero s.eraseMask j).mpr fun b hb => hall _ ?_⟩
    have hj' : j < 8 := List.mem_range.mp hj
    omega

/-! ## Sets of sectors -/

/-- The mask stands for the set, whose sectors are in the array. -/
structure MaskIs (t : FlashType) (s : Flash) (sectors : Finset Nat) : Prop where
  mem_iff : ∀ i, i ∈ sectors ↔ i < 64 ∧ inMask s.eraseMask i = true
  le_size : ∀ i ∈ sectors, (i + 1) * t.sectorSize ≤ t.size

theorem MaskIs.congr (h : MaskIs t s sectors) (heq : s'.eraseMask = s.eraseMask) : MaskIs t s' sectors :=
  ⟨heq ▸ h.mem_iff, h.le_size⟩

theorem cleared_mask (t : FlashType) (s : Flash) : MaskIs t (flashClearEraseMask s) ∅ := by
  refine ⟨fun i => ⟨fun h => absurd h (Finset.notMem_empty i), fun ⟨hi, hbit⟩ => ?_⟩,
    fun i h => absurd h (Finset.notMem_empty i)⟩
  have hj : i >>> 3 < ERASE_MASK_SIZE := by
    rw [Nat.shiftRight_eq_div_pow]
    unfold ERASE_MASK_SIZE
    omega
  unfold inMask flashClearEraseMask at hbit
  dsimp only at hbit
  rw [if_pos hj, UInt8.toNat_zero, Nat.zero_testBit] at hbit
  exact absurd hbit Bool.false_ne_true

/-- An address of a sector that has a bit adds it. -/
theorem add_mask (hshape : Shape t k) (h : MaskIs t s sectors) (haddr : addr < t.size)
    (hfit : addr / t.sectorSize < 64) :
    ∃ s', flashAddSectorToEraseMask t s addr = some s' ∧ MaskIs t s' (insert (addr / t.sectorSize) sectors) ∧
      s' = { s with eraseMask := s'.eraseMask } := by
  have hj : (addr / t.sectorSize) >>> 3 < ERASE_MASK_SIZE := by
    rw [Nat.shiftRight_eq_div_pow]
    unfold ERASE_MASK_SIZE
    omega
  unfold flashAddSectorToEraseMask
  dsimp only
  rw [sectorNumber_eq hshape haddr, if_pos hj]
  refine ⟨_, rfl, ⟨fun i => ?_, fun i hi => ?_⟩, rfl⟩
  · rw [inMask_add, Finset.mem_insert, h.mem_iff, Bool.or_eq_true, decide_eq_true_iff]
    constructor
    · rintro (rfl | ⟨hlt, hbit⟩)
      · exact ⟨hfit, Or.inr rfl⟩
      · exact ⟨hlt, Or.inl hbit⟩
    · rintro ⟨hlt, hbit | rfl⟩
      · exact Or.inr ⟨hlt, hbit⟩
      · exact Or.inl rfl
  · obtain rfl | hi := Finset.mem_insert.mp hi
    · exact sector_le hshape haddr
    · exact h.le_size i hi

theorem remove_mask (h : MaskIs t s sectors) (n : Nat)
    (hmask : s'.eraseMask = fun j => if j = n >>> 3 then s.eraseMask j &&& ~~~ maskBit n else s.eraseMask j) :
    MaskIs t s' (sectors.erase n) := by
  refine ⟨fun i => ?_, fun i hi => h.le_size i (Finset.mem_of_mem_erase hi)⟩
  rw [hmask, inMask_remove, Finset.mem_erase, h.mem_iff, Bool.and_eq_true, decide_eq_true_iff]
  exact ⟨fun ⟨hne, hlt, hbit⟩ => ⟨hlt, hbit, hne⟩, fun ⟨hlt, hbit, hne⟩ => ⟨hne, hlt, hbit⟩⟩

/-- Nothing is left of the mask of no sectors. -/
theorem maskLeft_empty (h : MaskIs t s sectors) : maskLeft s = 0 ↔ sectors = ∅ := by
  rw [maskLeft_iff, Finset.eq_empty_iff_forall_notMem]
  constructor
  · intro hall i hi
    obtain ⟨hlt, hbit⟩ := (h.mem_iff i).mp hi
    rw [hall i hlt] at hbit
    exact Bool.false_ne_true hbit
  · intro hnone i hi
    cases hbit : inMask s.eraseMask i with
    | false => rfl
    | true => exact absurd ((h.mem_iff i).mpr ⟨hi, hbit⟩) (hnone i)

/-! ## Erasing -/

/-- A whole sector. -/
theorem erase_sector (hshape : Shape t k) (s : Flash) (hle : (n + 1) * t.sectorSize ≤ t.size) :
    flashEraseSector t s n = some { s with flashData := (Effect.eraseSector n).apply t s.flashData } := by
  have hpos : 0 < t.sectorSize := by
    rw [hshape.sectorSize]
    exact Nat.two_pow_pos _
  have hend : n * t.sectorSize + t.sectorSize = (n + 1) * t.sectorSize := (Nat.succ_mul n t.sectorSize).symm
  unfold flashEraseSector setFF flashSectorToAddr
  rw [if_pos (hend ▸ hle)]
  congr 2
  funext i
  unfold Effect.apply
  have hplace : (n * t.sectorSize ≤ i ∧ i < n * t.sectorSize + t.sectorSize) ↔ i / t.sectorSize = n := by
    rw [Nat.div_eq_iff hpos]
    omega
  simp only [hplace]

theorem first_sector (h : MaskIs t s sectors) (hne : sectors.Nonempty) :
    ((List.range (8 * ERASE_MASK_SIZE)).find? fun i => s.eraseMask (i >>> 3) &&& maskBit i ≠ 0) =
      some (sectors.min' hne) := by
  have hmin := (h.mem_iff _).mp (sectors.min'_mem hne)
  rw [List.find?_range_eq_some]
  refine ⟨(bit_eq _ _).trans hmin.2, List.mem_range.mpr hmin.1, fun j hj => ?_⟩
  rw [bit_eq, Bool.not_eq_true']
  cases hbit : inMask s.eraseMask j with
  | false => rfl
  | true => exact absurd (sectors.min'_le j ((h.mem_iff j).mpr ⟨Nat.lt_trans hj hmin.1, hbit⟩)) (Nat.not_le_of_lt hj)

theorem eraseFirst_eq (hshape : Shape t k) (h : MaskIs t s sectors) (hne : sectors.Nonempty) :
    ∃ s', eraseFirst t s = some s' ∧ MaskIs t s' (sectors.erase (sectors.min' hne)) ∧
      s' = { s with
        flashData := (Effect.eraseSector (sectors.min' hne)).apply t s.flashData
        eraseMask := s'.eraseMask } := by
  unfold eraseFirst
  rw [first_sector h hne]
  dsimp only
  rw [erase_sector hshape s (h.le_size _ (sectors.min'_mem hne))]
  exact ⟨_, rfl, remove_mask h _ rfl, rfl⟩

/-- With no sectors in the mask nothing happens. -/
theorem eraseFirst_empty (h : MaskIs t s ∅) : eraseFirst t s = some s := by
  have hnone : ((List.range (8 * ERASE_MASK_SIZE)).find? fun i => s.eraseMask (i >>> 3) &&& maskBit i ≠ 0) = none := by
    rw [List.find?_range_eq_none]
    intro i hi
    rw [bit_eq, Bool.not_eq_true']
    cases hbit : inMask s.eraseMask i with
    | false => rfl
    | true => exact absurd ((h.mem_iff i).mpr ⟨hi, hbit⟩) (Finset.notMem_empty i)
  unfold eraseFirst
  rw [hnone]

end

end Vice.L4.FlashSectors
