import Vice.L4Machine.ReuAlike
import Vice.L4Machine.ReuExact

/-!
# Snapshots of the RAM expansion unit (`c64/cart/reu.c`)

The registers are saved as the computer would read them, and come back as the computer would write them.


Results:
* `run_kept`: the line follows the status, and bits that are not there read as ones.
* `restored_regs`: the registers after a restore.
-/
namespace Vice.L4.ReuSnapshot
open Vice.L4.ReuCore Vice.L4.ReuTransfer Vice.L4.ReuRegisters Vice.L4.ReuExact

/-! ## Snapshots -/

/-- mirrors src/c64/cart/reu.c:1563-1580: the size in KB, the registers and the memory. -/
structure Module where
  size : Nat
  registers : Fin 16 → UInt8
  ram : Nat → UInt8

/-- The unit of the machine. The default size is 512 KB, so there is always one. -/
structure Cart where
  enabled : Bool
  sizeKb : Nat
  options : RecOptions
  sized : setReuSize sizeKb = some options
  reu : Reu

/-- mirrors src/c64/cart/reu.c:363-439 (`set_reu_size`): what it does to the unit. A size that is not
known is ignored. The contents of the memory, from an image or not, are left out. -/
def Cart.setSize (c : Cart) (val : Nat) : Cart :=
  if val = c.sizeKb then c
  else match h : setReuSize val with
    | none => c
    | some o => ⟨c.enabled, val, o, h, if c.enabled then reuReset o c.reu else c.reu⟩

/-- mirrors src/c64/cart/reu.c:321-345 (`set_reu_enabled`), to enable the unit. -/
def Cart.enable (c : Cart) : Cart :=
  if c.enabled then c else { c with enabled := true, reu := reuReset c.options c.reu }

/-- The unit in which the registers of a snapshot are stored. -/
def Cart.resized (c : Cart) (val : Nat) : Reu := (c.setSize val).enable.reu

/-- mirrors src/c64/cart/reu.c:1591-1619 (`reu_write_snapshot_module`) -/
def reuWriteSnapshotModule (o : RecOptions) (s : Reu) : Module where
  size := o.reuSize >>> 10
  registers := fun reuAddress => reuReadWithoutSideeffects o s.regs reuAddress
  ram := s.reuRam

/-- The registers that are stored one after the other. -/
def storeRegisters (o : RecOptions) (registers : Fin 16 → UInt8) (r : Rec) : Rec :=
  (List.finRange 16).foldl (fun r (reuAddress : Fin 16) =>
    reuStoreWithoutSideeffects o r reuAddress (registers reuAddress)) r

/-- mirrors src/c64/cart/reu.c:1664-1682: the registers, the memory and the line. -/
def Cart.load (c : Cart) (m : Module) : Cart :=
  { c with reu := { c.reu with
    regs := storeRegisters c.options m.registers c.reu.regs
    reuRam := fun i => if i < c.options.reuSize then m.ram i else c.reu.reuRam i
    irq := m.registers 0 &&& 0x80 ≠ 0 } }

/-- mirrors src/c64/cart/reu.c:1628-1688 (`reu_read_snapshot_module`), with -1 as `none`. -/
def reuReadSnapshotModule (c : Cart) (m : Module) : Option Cart :=
  if 16384 < m.size then none else some ((c.setSize m.size).enable.load m)

section
variable {val k : Nat} {o : RecOptions} {s s' : Reu} {r : Rec} {mask : UInt8}

/-! ## Reachable states -/

/-- What all reachable states have in common. -/
structure Kept (s : Reu) : Prop where
  intMask : s.regs.intMaskReg ||| 0x1f = s.regs.intMaskReg
  control : s.regs.addressControlReg ||| 0x3f = s.regs.addressControlReg
  line : s.irq = decide (s.regs.status &&& STATUS_INTERRUPT_PENDING ≠ 0)

theorem or_or_self (x m : UInt8) : x ||| m ||| m = x ||| m := by
  rw [UInt8.or_assoc, UInt8.or_self]

theorem preset_not_pending (h : setReuSize val = some o) : o.statusPreset &&& STATUS_INTERRUPT_PENDING = 0 := by
  obtain rfl | rfl | rfl | rfl | rfl | rfl | rfl | rfl := setReuSize_cases h <;> cases h <;> decide

theorem reset_kept (h : setReuSize val = some o) (s : Reu) : Kept (reuReset o { s with irq := false }) :=
  ⟨UInt8.or_self, UInt8.or_self, (decide_eq_false (not_not.mpr (preset_not_pending h))).symm⟩

/-- The line is raised with its bit of the status. -/
theorem raise_kept (h : Kept s) (bits mask : UInt8) : Kept (raise s bits mask) := by
  unfold raise
  split_ifs
  · have hset : (s.regs.status ||| STATUS_INTERRUPT_PENDING) &&& STATUS_INTERRUPT_PENDING =
        STATUS_INTERRUPT_PENDING := by
      rw [and_or, UInt8.and_self, and_or_self]
    refine ⟨h.intMask, h.control, (decide_eq_true ?_).symm⟩
    dsimp only
    rw [hset]
    decide
  · exact h

/-- Registers with the same masks, and a status with the same bit. -/
theorem Kept.congr (h : Kept s) (hmask : s'.regs.intMaskReg = s.regs.intMaskReg)
    (hcontrol : s'.regs.addressControlReg = s.regs.addressControlReg)
    (hstatus : s'.regs.status &&& STATUS_INTERRUPT_PENDING = s.regs.status &&& STATUS_INTERRUPT_PENDING)
    (hirq : s'.irq = s.irq) : Kept s' :=
  ⟨hmask ▸ h.intMask, hcontrol ▸ h.control, by rw [hirq, hstatus]; exact h.line⟩

theorem end_not_pending (h : IsEnd mask) : mask &&& STATUS_INTERRUPT_PENDING = 0 := by
  obtain rfl | rfl | rfl := h <;> decide

theorem update_kept (o : RecOptions) (h : Kept s) (hend : IsEnd mask) (hostAddr : UInt16) (reuAddr len : Nat) :
    Kept (reuDmaUpdateRegs o s hostAddr reuAddr len mask) := by
  unfold reuDmaUpdateRegs
  dsimp only
  apply raise_kept
  apply raise_kept
  refine h.congr ?_ ?_ ?_ rfl
  · unfold loadRegs
    split_ifs <;> rfl
  · unfold loadRegs
    split_ifs <;> rfl
  · have hpending : (s.regs.status ||| mask) &&& STATUS_INTERRUPT_PENDING =
        s.regs.status &&& STATUS_INTERRUPT_PENDING := by
      rw [and_or, end_not_pending hend, UInt8.or_zero]
    unfold loadRegs
    split_ifs <;> exact hpending

theorem start_kept (hshape : Shape o k) (h : Kept s) (hrun : reuDmaStart o s = some s') : Kept s' := by
  obtain ⟨s1, htransfer, ⟨u⟩⟩ := transfer_updated hshape s
  rw [reuDmaStart_eq, htransfer] at hrun
  obtain rfl := Option.some.inj hrun
  have hlooped : Kept u.looped := h.congr (congrArg _ u.untouched.1) (congrArg _ u.untouched.1)
    (congrArg (·.status &&& STATUS_INTERRUPT_PENDING) u.untouched.1) u.untouched.2
  have hupdate := update_kept o hlooped u.ended u.place.hostAddr u.place.reuAddr u.length
  rw [u.result]
  exact hupdate.congr rfl rfl rfl rfl

theorem dma_kept (hshape : Shape o k) (h : Kept s) {immediate : Option Bool} (hrun : reuDma o s immediate = some s') :
    Kept s' := by
  have hstopped : Kept { s with delay := false } := h.congr rfl rfl rfl rfl
  unfold reuDma at hrun
  split at hrun
  · obtain rfl := Option.some.inj hrun
    exact h.congr rfl rfl rfl rfl
  · exact start_kept hshape hstopped hrun
  · split_ifs at hrun
    · exact start_kept hshape hstopped hrun
    · exact Option.some.inj hrun ▸ h

/-- Bits that are not there are stored as ones. -/
theorem stored_kept (h : Kept s) (o : RecOptions) (addr : Nat) (byte : UInt8) :
    Kept { s with regs := reuStoreWithoutSideeffects o s.regs addr byte } := by
  obtain ⟨hmask, hcontrol, hline⟩ := h
  unfold reuStoreWithoutSideeffects
  split
  case h_9 => exact ⟨or_or_self _ _, hcontrol, hline⟩
  case h_10 => exact ⟨hmask, or_or_self _ _, hline⟩
  all_goals exact ⟨hmask, hcontrol, hline⟩

theorem read_kept (h : Kept s) (o : RecOptions) (addr : Nat) : Kept (reuIo2Read o s addr).2 := by
  unfold reuIo2Read
  split_ifs
  · dsimp only
    split
    · refine ⟨h.intMask, h.control, (decide_eq_false (not_not.mpr ?_)).symm⟩
      dsimp only
      rw [UInt8.and_assoc]
      exact UInt8.and_zero
    · exact h
    · exact h
  · exact h

theorem step_kept (hshape : Shape o k) (h : Kept s) {e : Access} (hstep : step o s e = some s') : Kept s' := by
  cases e with
  | store addr byte =>
    have hstored := stored_kept h o addr byte
    change reuIo2Store o s addr byte = some s' at hstep
    unfold reuIo2Store at hstep
    split_ifs at hstep
    · dsimp only at hstep
      split at hstep
      · split_ifs at hstep
        · exact dma_kept hshape hstored hstep
        · exact Option.some.inj hstep ▸ hstored
      · exact Option.some.inj hstep ▸ raise_kept (raise_kept hstored _ _) _ _
      · exact Option.some.inj hstep ▸ hstored
    · exact Option.some.inj hstep ▸ h
  | read addr => exact Option.some.inj hstep ▸ read_kept h o addr
  | ff00 =>
    change reuDma o s none = some s' at hstep
    exact dma_kept hshape h hstep
  | poke addr byte => exact Option.some.inj hstep ▸ h.congr rfl rfl rfl rfl

theorem run_kept (hshape : Shape o k) (h : Kept s) {es : List Access} (hrun : run o s es = some s') : Kept s' := by
  induction es generalizing s with
  | nil => exact Option.some.inj hrun ▸ h
  | cons e es ih =>
    unfold run at hrun
    rw [List.foldlM_cons] at hrun
    obtain ⟨s1, hstep, hrest⟩ := Option.bind_eq_some_iff.mp hrun
    exact ih (step_kept hshape h hstep) hrest

/-! ## Restored registers -/

/-- A word is the word of its bytes. -/
theorem wordOf_bytes (x : UInt16) : wordOf (x >>> 8).toUInt8 x.toUInt8 = x := by
  have hx := x.toNat_lt
  have hbytes : (wordOf (x >>> 8).toUInt8 x.toUInt8).toNat =
      x.toNat % 2 ^ 8 ||| (x.toNat >>> 8 % 2 ^ 8) <<< 8 % 2 ^ 16 := rfl
  rw [← UInt16.toNat_inj, hbytes, Nat.shiftRight_eq_div_pow, Nat.shiftLeft_eq, Nat.or_comm]
  rw [Nat.mod_eq_of_lt (by omega : x.toNat / 2 ^ 8 % 2 ^ 8 * 2 ^ 8 < 2 ^ 16), Nat.mul_comm,
    ← Nat.two_pow_add_eq_or_of_lt (Nat.mod_lt _ (by decide))]
  omega

theorem withHigh_withLow (shadow : UInt16) (high low : UInt8) :
    withHigh (withLow shadow low) high = wordOf high low := by
  rw [← wordOf_bytes shadow, withLow_wordOf, withHigh_wordOf]

/-- The registers after a restore: the status is as before, and the shadow registers are as the registers. -/
theorem restored_regs (o : RecOptions) (registers : Fin 16 → UInt8) (r : Rec) : storeRegisters o registers r = {
      status := r.status
      command := registers 1
      baseComputer := wordOf (registers 3) (registers 2)
      baseReu := wordOf (registers 5) (registers 4)
      bankReu := registers 6 &&& ~~~o.regBankUnused
      transferLength := wordOf (registers 8) (registers 7)
      intMaskReg := registers 9 ||| 0x1f
      addressControlReg := registers 10 ||| 0x3f
      baseComputerShadow := wordOf (registers 3) (registers 2)
      baseReuShadow := wordOf (registers 5) (registers 4)
      bankReuShadow := registers 6 &&& ~~~o.regBankUnused
      transferLengthShadow := wordOf (registers 8) (registers 7) } := by
  rw [← withHigh_withLow r.baseComputerShadow, ← withHigh_withLow r.baseReuShadow,
    ← withHigh_withLow r.transferLengthShadow]
  rfl

end

end Vice.L4.ReuSnapshot
