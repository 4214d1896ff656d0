import Vice.L4Machine.M93c86Memory

/-!
# Snapshots of the EEPROM

A snapshot keeps a byte of everything. The shift register has up to 29 bits, and the address ten, so a
snapshot in a command can lose some of them. It does no harm if those that are lost are not used any
more: `used` is how many bits of the register still are.

Results:
* `alike_step`: states that differ in bits that are not used go on the same way.
* `eeprom_is_memory`: with such snapshots anywhere, reads return what was stored.
-/
namespace Vice.L4.M93c86Snapshot
open Vice.L4.M93c86 Vice.L4.M93c86Frames Vice.L4.M93c86Memory

section
variable {s t u : Eeprom} {m : Memory} {k : Cmd} {count : Nat}

/-! ## Registers -/

/-- The lower bits of the register that are used at some time: the address and the word, and all of it
before the opcode is known. A counter that has gone past everything starts again after 2^32 bits. -/
def used (k : Cmd) (count : Nat) : Nat :=
  if count < 5 then 32
  else if count < 29 then
    match k with
    | .read | .write | .erase => count - 3
    | .wral => count - 13
    | _ => 0
  else min 32 (count - 256)

theorem used_le (k : Cmd) (count : Nat) : used k count ≤ 32 := by
  unfold used
  split_ifs
  · exact Nat.le_refl 32
  · cases k <;> dsimp only <;> omega
  · exact Nat.min_le_left _ _

/-- The lower `n` bits are the same. -/
def Agree (n x y : Nat) : Prop := x % 2 ^ n = y % 2 ^ n

theorem Agree.mono {n n' x y : Nat} (h : Agree n x y) (hle : n' ≤ n) : Agree n' x y := by
  have hdvd : 2 ^ n' ∣ 2 ^ n := Nat.pow_dvd_pow 2 hle
  have hmod : x % 2 ^ n % 2 ^ n' = y % 2 ^ n % 2 ^ n' := congrArg (· % 2 ^ n') h
  rwa [Nat.mod_mod_of_dvd _ hdvd, Nat.mod_mod_of_dvd _ hdvd] at hmod

/-- A bit that comes in is the same. -/
theorem Agree.shift {n x y : Nat} (h : Agree n x y) (b : Nat) :
    Agree (min 32 (n + 1)) ((x * 2 + b) % 2 ^ 32) ((y * 2 + b) % 2 ^ 32) := by
  have hword : ∀ z : Nat, (z * 2 + b) % 2 ^ (n + 1) = (z % 2 ^ n * 2 + b) % 2 ^ (n + 1) := by
    intro z
    rw [Nat.add_mod, Nat.add_mod (z % 2 ^ n * 2), Nat.pow_succ, Nat.mul_mod_mul_right, Nat.mul_mod_mul_right,
      Nat.mod_mod]
  have hnext : (x * 2 + b) % 2 ^ (n + 1) = (y * 2 + b) % 2 ^ (n + 1) := by
    rw [hword x, hword y, show x % 2 ^ n = y % 2 ^ n from h]
  have hdvd : 2 ^ min 32 (n + 1) ∣ 2 ^ 32 := Nat.pow_dvd_pow 2 (Nat.min_le_left _ _)
  unfold Agree
  rw [Nat.mod_mod_of_dvd _ hdvd, Nat.mod_mod_of_dvd _ hdvd]
  exact Agree.mono (n := n + 1) hnext (Nat.min_le_right _ _)

/-- Registers that agree have the same bits. -/
theorem Agree.bits {n x y : Nat} (h : Agree n x y) {i w : Nat} (hw : i + w ≤ n) :
    x >>> i % 2 ^ w = y >>> i % 2 ^ w := by
  have hfield : ∀ z : Nat, z >>> i % 2 ^ w = z % 2 ^ (i + w) / 2 ^ i := by
    intro z
    rw [Nat.shiftRight_eq_div_pow, Nat.pow_add, Nat.mod_mul_right_div_self]
  rw [hfield, hfield, show x % 2 ^ (i + w) = y % 2 ^ (i + w) from h.mono hw]

/-! ## States -/

/-- Nobody can tell the states apart, if no more than `n` bits of what came in are used. -/
structure Near (n : Nat) (s t : Eeprom) : Prop where
  data : s.data = t.data
  cs : s.cs = t.cs
  clock : s.clock = t.clock
  dataIn : s.dataIn = t.dataIn
  dataOut : s.dataOut = t.dataOut
  command : s.command = t.command
  enabled : s.writeEnableStatus = t.writeEnableStatus
  inputCount : s.inputCount = t.inputCount
  input : Agree n s.inputShiftreg t.inputShiftreg
  addr : isReading s.command → s.addr = t.addr
  output : s.command = .readData → s.outputCount = t.outputCount ∧ Agree 8 s.outputShiftreg t.outputShiftreg

/-- States that nobody can tell apart. -/
def Alike (s t : Eeprom) : Prop := Near (used s.command s.inputCount) s t

theorem Alike.refl (s : Eeprom) : Alike s s :=
  ⟨rfl, rfl, rfl, rfl, rfl, rfl, rfl, rfl, rfl, fun _ => rfl, fun _ => ⟨rfl, rfl⟩⟩

theorem Alike.trans (h : Alike s t) (h' : Alike t u) : Alike s u := by
  have hinput : Agree (used t.command t.inputCount) t.inputShiftreg u.inputShiftreg := h'.input
  rw [← h.command, ← h.inputCount] at hinput
  refine ⟨h.data.trans h'.data, h.cs.trans h'.cs, h.clock.trans h'.clock, h.dataIn.trans h'.dataIn,
    h.dataOut.trans h'.dataOut, h.command.trans h'.command, h.enabled.trans h'.enabled,
    h.inputCount.trans h'.inputCount, Eq.trans h.input hinput, fun hk => ?_, fun hk => ?_⟩
  · exact (h.addr hk).trans (h'.addr (h.command ▸ hk))
  · have hleft := h.output hk
    have hright := h'.output (h.command ▸ hk)
    exact ⟨hleft.1.trans hright.1, Eq.trans hleft.2 hright.2⟩

theorem Near.mono {n n' : Nat} (h : Near n s t) (hle : n' ≤ n) : Near n' s t :=
  ⟨h.data, h.cs, h.clock, h.dataIn, h.dataOut, h.command, h.enabled, h.inputCount, h.input.mono hle, h.addr, h.output⟩

/-- No other bits of what came in are used than the next ones. -/
def isQuiet (k : Cmd) : Prop := k ≠ .read ∧ k ≠ .write ∧ k ≠ .erase ∧ k ≠ .wral ∧ ¬ isReading k

instance (k : Cmd) : Decidable (isQuiet k) := inferInstanceAs (Decidable (_ ∧ _ ∧ _ ∧ _ ∧ _))

theorem used_quiet {k' : Cmd} (hk' : isQuiet k') (k : Cmd) (count : Nat) : used k' count ≤ used k count := by
  obtain ⟨hread, hwrite, herase, hwral, -⟩ := hk'
  unfold used
  split_ifs
  · exact Nat.le_refl 32
  · cases k' <;> first | exact Nat.zero_le _ | contradiction
  · exact Nat.le_refl _

theorem Near.recommand {n : Nat} (h : Near n s t) (hk : isQuiet k) :
    Near n { s with command := k } { t with command := k } :=
  ⟨h.data, h.cs, h.clock, h.dataIn, h.dataOut, rfl, h.enabled, h.inputCount, h.input,
    fun hread => absurd hread hk.2.2.2.2, fun hread => absurd (Or.inr hread) hk.2.2.2.2⟩

theorem Alike.recommand (h : Alike s t) (hk : isQuiet k) : Alike { s with command := k } { t with command := k } :=
  (Near.recommand h hk).mono (used_quiet hk s.command s.inputCount)

theorem Near.cleared {n n' : Nat} (h : Near n s t) : Near n' (resetInputShiftreg s) (resetInputShiftreg t) :=
  ⟨h.data, h.cs, h.clock, h.dataIn, h.dataOut, h.command, h.enabled, rfl, rfl, h.addr, h.output⟩

/-! ## Accesses -/

theorem readData_alike (h : Alike s t) : (readData s).1 = (readData t).1 ∧ Alike (readData s).2 (readData t).2 := by
  obtain ⟨data, cs, clock, dataIn, dataOut, ireg, icount, oreg, ocount, command, addr, wen⟩ := s
  obtain ⟨data', cs', clock', dataIn', dataOut', ireg', icount', oreg', ocount', command', addr', wen'⟩ := t
  obtain rfl : cs = cs' := h.cs
  obtain rfl : command = command' := h.command
  cases cs with
  | false => exact ⟨rfl, h⟩
  | true =>
    cases command with
    | isBusy => exact ⟨rfl, h.recommand (k := .isReady) (by decide)⟩
    | isReady => exact ⟨rfl, h.recommand (k := .none) (by decide)⟩
    | _ => exact ⟨h.dataOut, h⟩

theorem writeData_alike (h : Alike s t) (value : Bool) : Alike (writeData s value) (writeData t value) := by
  unfold writeData
  by_cases hcs : s.cs = true
  · rw [if_pos hcs, if_pos (h.cs ▸ hcs)]
    exact ⟨h.data, h.cs, h.clock, rfl, h.dataOut, h.command, h.enabled, h.inputCount, h.input, h.addr, h.output⟩
  · rw [if_neg hcs, if_neg (h.cs ▸ hcs)]
    exact h

theorem Alike.selected (h : Alike s t) (value : Bool) : Alike { s with cs := value } { t with cs := value } :=
  ⟨h.data, rfl, h.clock, h.dataIn, h.dataOut, h.command, h.enabled, h.inputCount, h.input, h.addr, h.output⟩

theorem writeSelect_alike (h : Alike s t) (value : Bool) : Alike (writeSelect s value) (writeSelect t value) := by
  obtain ⟨data, cs, clock, dataIn, dataOut, ireg, icount, oreg, ocount, command, addr, wen⟩ := s
  obtain ⟨data', cs', clock', dataIn', dataOut', ireg', icount', oreg', ocount', command', addr', wen'⟩ := t
  obtain rfl : cs = cs' := h.cs
  obtain rfl : clock = clock' := h.clock
  obtain rfl : command = command' := h.command
  cases cs with
  | false =>
    cases value with
    | false =>
      cases command with
      | read | readDummy | readData => exact h.recommand (k := .none) (by decide)
      | _ => exact h
    | true =>
      cases clock with
      | false => exact Alike.selected h.cleared true
      | true => exact h.selected true
  | true =>
    cases value with
    | false =>
      cases command with
      | write | wral | eral => exact (h.recommand (k := .isBusy) (by decide)).selected false
      | read | readDummy | readData => exact (h.recommand (k := .none) (by decide)).selected false
      | _ => exact h.selected false
    | true => exact h

/-! ## Bits going out -/

theorem firstBit_alike (h : Alike s t) (hk : isReading s.command) : Alike (firstBit s) (firstBit t) := by
  have haddr := h.addr hk
  have hless : used .readData s.inputCount ≤ used s.command s.inputCount := by
    obtain hdummy | hdata := hk
    · rw [hdummy]
      exact Nat.le_refl _
    · rw [hdata]
  unfold firstBit
  obtain ⟨data, cs, clock, dataIn, dataOut, ireg, icount, oreg, ocount, command, addr, wen⟩ := s
  obtain ⟨data', cs', clock', dataIn', dataOut', ireg', icount', oreg', ocount', command', addr', wen'⟩ := t
  obtain rfl : data = data' := h.data
  obtain rfl : addr = addr' := haddr
  exact ⟨rfl, h.cs, h.clock, h.dataIn, rfl, rfl, h.enabled, h.inputCount, h.input.mono hless, fun _ => rfl,
    fun _ => ⟨rfl, rfl⟩⟩

theorem nextBit_alike (h : Alike s t) (hk : s.command = .readData) : Alike (nextBit s) (nextBit t) := by
  obtain ⟨hcount, hreg⟩ := h.output hk
  have hbit : (s.outputShiftreg >>> 7) &&& 1 = (t.outputShiftreg >>> 7) &&& 1 := by
    rw [Nat.and_one_is_mod, Nat.and_one_is_mod]
    exact hreg.bits (i := 7) (w := 1) (by decide)
  have hshift : Agree 8 ((s.outputShiftreg <<< 1) % 2 ^ 32) ((t.outputShiftreg <<< 1) % 2 ^ 32) := by
    rw [Nat.shiftLeft_eq, Nat.shiftLeft_eq]
    exact (hreg.shift 0).mono (by decide)
  obtain ⟨data, cs, clock, dataIn, dataOut, ireg, icount, oreg, ocount, command, addr, wen⟩ := s
  obtain ⟨data', cs', clock', dataIn', dataOut', ireg', icount', oreg', ocount', command', addr', wen'⟩ := t
  obtain rfl : data = data' := h.data
  obtain rfl : addr = addr' := h.addr (Or.inr hk)
  obtain rfl : ocount = ocount' := hcount
  dsimp only at hbit hshift
  unfold nextBit
  dsimp only
  rw [hbit]
  split_ifs
  · exact ⟨rfl, h.cs, h.clock, h.dataIn, rfl, h.command, h.enabled, h.inputCount, h.input, fun _ => rfl,
      fun _ => ⟨rfl, rfl⟩⟩
  · exact ⟨rfl, h.cs, h.clock, h.dataIn, rfl, h.command, h.enabled, h.inputCount, h.input, fun _ => rfl,
      fun _ => ⟨rfl, rfl⟩⟩
  · exact ⟨rfl, h.cs, h.clock, h.dataIn, rfl, h.command, h.enabled, h.inputCount, h.input, fun _ => rfl,
      fun _ => ⟨rfl, hshift⟩⟩

/-! ## Bits coming in -/

theorem used_wrap (k : Cmd) {count : Nat} (h : 2 ^ 32 ≤ count + 1) : used k count = 32 := by
  unfold used
  rw [if_neg (by omega), if_neg (by omega)]
  omega

/-- The bit that comes in is used as long as those before it. -/
theorem used_next (k : Cmd) (count : Nat) : used k ((count + 1) % 2 ^ 32) ≤ min 32 (used k count + 1) := by
  have hle := used_le k ((count + 1) % 2 ^ 32)
  by_cases hwrap : count + 1 < 2 ^ 32
  · rw [Nat.mod_eq_of_lt hwrap] at hle ⊢
    unfold used at hle ⊢
    split_ifs at hle ⊢
    all_goals first | omega | cases k <;> dsimp only at hle ⊢ <;> omega
  · rw [used_wrap k (Nat.le_of_not_lt hwrap)]
    exact hle

/-- Everything is used while the opcode comes in. -/
theorem used_opcode (k : Cmd) {count : Nat} (h : (count + 1) % 2 ^ 32 ≤ 5) : 32 ≤ min 32 (used k count + 1) := by
  have hall : used k count = 32 := by
    by_cases hwrap : count + 1 < 2 ^ 32
    · rw [Nat.mod_eq_of_lt hwrap] at h
      exact if_pos (by omega)
    · exact used_wrap k (Nat.le_of_not_lt hwrap)
  rw [hall]
  decide

theorem used_last (k : Cmd) {count : Nat} (h : (count + 1) % 2 ^ 32 = 29) :
    used k 28 + 1 ≤ min 32 (used k count + 1) := by
  have hmost : used k 28 + 1 ≤ 32 := by cases k <;> decide
  by_cases hwrap : count + 1 < 2 ^ 32
  · rw [Nat.mod_eq_of_lt hwrap] at h
    obtain rfl : count = 28 := by omega
    exact Nat.le_min.mpr ⟨hmost, Nat.le_refl _⟩
  · rw [used_wrap k (Nat.le_of_not_lt hwrap)]
    exact hmost

theorem startBit_alike {n : Nat} (h : Near n s t) : Near n (startBit s) (startBit t) := by
  unfold startBit
  rw [← h.dataIn]
  split_ifs
  · exact h.cleared
  · exact h

/-- Registers that agree in everything are equal. -/
theorem Near.input_eq (h : Near 32 s t) (hs : s.inputShiftreg < 2 ^ 32) (ht : t.inputShiftreg < 2 ^ 32) :
    s.inputShiftreg = t.inputShiftreg := by
  have hmod : s.inputShiftreg % 2 ^ 32 = t.inputShiftreg % 2 ^ 32 := h.input
  rwa [Nat.mod_eq_of_lt hs, Nat.mod_eq_of_lt ht] at hmod

/-- A command that has just been found out. -/
theorem Near.found {n : Nat} (h : Near n s t) (hk : ¬ isReading k) :
    Near n { s with command := k } { t with command := k } :=
  ⟨h.data, h.cs, h.clock, h.dataIn, h.dataOut, rfl, h.enabled, h.inputCount, h.input,
    fun hread => absurd hread hk, fun hread => absurd (Or.inr hread) hk⟩

theorem opcode_near {n : Nat} (h : Near n s t) (hreg : s.inputShiftreg = t.inputShiftreg) :
    Near n (opcode s) (opcode t) := by
  obtain ⟨data, cs, clock, dataIn, dataOut, ireg, icount, oreg, ocount, command, addr, wen⟩ := s
  obtain ⟨data', cs', clock', dataIn', dataOut', ireg', icount', oreg', ocount', command', addr', wen'⟩ := t
  obtain rfl : ireg = ireg' := hreg
  unfold opcode
  dsimp only
  split
  · exact h.found (k := .cmd00) (by decide)
  · exact h.found (k := .write) (by decide)
  · exact h.found (k := .read) (by decide)
  · exact h.found (k := .erase) (by decide)
  · exact h

theorem opcode00_near {n : Nat} (h : Near n s t) (hreg : s.inputShiftreg = t.inputShiftreg) :
    Near n (opcode00 s) (opcode00 t) := by
  obtain ⟨data, cs, clock, dataIn, dataOut, ireg, icount, oreg, ocount, command, addr, wen⟩ := s
  obtain ⟨data', cs', clock', dataIn', dataOut', ireg', icount', oreg', ocount', command', addr', wen'⟩ := t
  obtain rfl : ireg = ireg' := hreg
  obtain rfl : command = command' := h.command
  unfold opcode00
  dsimp only
  split_ifs
  · split
    · exact h.found (k := .wds) (by decide)
    · exact h.found (k := .wral) (by decide)
    · exact h.found (k := .eral) (by decide)
    · exact ⟨h.data, h.cs, h.clock, h.dataIn, h.dataOut, rfl, rfl, h.inputCount, h.input,
        fun hread => absurd hread (by decide : ¬ isReading .wen), fun hread => Cmd.noConfusion hread⟩
    · exact h
  · exact h

/-- A command is over, or has nothing more to wait for. -/
theorem Near.settled {n l : Nat} (h : Near n s t) (hk : ¬ isReading k) (data : Nat → UInt8) (a a' : Nat) (wen : Bool) :
    Near l { resetInputShiftreg s with command := k, data := data, addr := a, writeEnableStatus := wen }
      { resetInputShiftreg t with command := k, data := data, addr := a', writeEnableStatus := wen } :=
  ⟨rfl, h.cs, h.clock, h.dataIn, h.dataOut, rfl, rfl, rfl, rfl,
    fun hread => absurd hread hk, fun hread => absurd (Or.inr hread) hk⟩

theorem addressed_alike {n : Nat} (h : Near n s t) (hcount : s.inputCount = 13) (hn : used s.command s.inputCount ≤ n) :
    Alike (addressed s) (addressed t) := by
  have haddr : s.command = .read ∨ s.command = .erase → s.inputShiftreg &&& 0x3ff = t.inputShiftreg &&& 0x3ff := by
    intro hk
    rw [hcount] at hn
    have hten : 10 ≤ n := by obtain hk | hk := hk <;> rw [hk] at hn <;> exact hn
    rw [mask_eq, mask_eq]
    exact h.input.bits (i := 0) (w := 10) hten
  obtain ⟨data, cs, clock, dataIn, dataOut, ireg, icount, oreg, ocount, command, addr, wen⟩ := s
  obtain ⟨data', cs', clock', dataIn', dataOut', ireg', icount', oreg', ocount', command', addr', wen'⟩ := t
  obtain rfl : data = data' := h.data
  obtain rfl : command = command' := h.command
  obtain rfl : wen = wen' := h.enabled
  cases command with
  | read =>
    have hsame := haddr (Or.inl rfl)
    exact ⟨rfl, h.cs, h.clock, h.dataIn, h.dataOut, rfl, rfl, rfl, rfl, fun _ => hsame, fun hk => Cmd.noConfusion hk⟩
  | wds => exact h.settled (k := .none) (by decide) data _ _ false
  | wen => exact h.settled (k := .none) (by decide) data _ _ true
  | erase =>
    cases wen with
    | false => exact h.settled (k := .none) (by decide) data _ _ false
    | true =>
      have hsame : ireg &&& 0x3ff = ireg' &&& 0x3ff := haddr (Or.inr rfl)
      have hnext := fun a a' => h.settled (l := 32) (k := .erase) (by decide)
        (storeWord data (ireg &&& 0x3ff) 0xff 0xff) a a' true
      unfold addressed
      dsimp only
      rw [if_neg (by decide), if_neg (by decide), ← hsame]
      exact hnext _ _
  | eral =>
    cases wen with
    | false => exact h.settled (k := .none) (by decide) data _ _ false
    | true => exact h.settled (k := .eral) (by decide) _ _ _ true
  | _ => exact h.mono hn

/-- The bytes of the word. -/
theorem Agree.bytes {n x y : Nat} (h : Agree n x y) (hn : 16 ≤ n) :
    (x >>> 8).toUInt8 = (y >>> 8).toUInt8 ∧ x.toUInt8 = y.toUInt8 := by
  have hbyte : ∀ {z z' : Nat}, z % 2 ^ 8 = z' % 2 ^ 8 → z.toUInt8 = z'.toUInt8 := by
    intro z z' hmod
    rw [← UInt8.toNat_inj, Nat.toUInt8_eq, Nat.toUInt8_eq, UInt8.toNat_ofNat', UInt8.toNat_ofNat']
    exact hmod
  exact ⟨hbyte (h.bits (i := 8) (w := 8) hn), hbyte (h.bits (i := 0) (w := 8) (by omega))⟩

theorem filled_alike {n : Nat} (h : Near n s t) (hn : used s.command s.inputCount ≤ n)
    (hroom : used s.command 28 + 1 ≤ n) : Alike (filled s) (filled t) := by
  obtain ⟨data, cs, clock, dataIn, dataOut, ireg, icount, oreg, ocount, command, addr, wen⟩ := s
  obtain ⟨data', cs', clock', dataIn', dataOut', ireg', icount', oreg', ocount', command', addr', wen'⟩ := t
  obtain rfl : data = data' := h.data
  obtain rfl : command = command' := h.command
  obtain rfl : wen = wen' := h.enabled
  have hreg : Agree n ireg ireg' := h.input
  cases command with
  | write =>
    have htwentysix : 26 ≤ n := hroom
    obtain ⟨h0, h1⟩ := hreg.bytes (by omega)
    have haddr : (ireg >>> 16) &&& 0x3ff = (ireg' >>> 16) &&& 0x3ff := by
      rw [mask_eq, mask_eq]
      exact hreg.bits (i := 16) (w := 10) htwentysix
    unfold filled
    dsimp only
    rw [← h0, ← h1, ← haddr]
    cases wen with
    | false => exact h.settled (k := .none) (by decide) data _ _ false
    | true => exact h.settled (k := .write) (by decide) _ _ _ true
  | wral =>
    obtain ⟨h0, h1⟩ := hreg.bytes hroom
    unfold filled
    dsimp only
    rw [← h0, ← h1]
    cases wen with
    | false => exact h.settled (k := .none) (by decide) data _ _ false
    | true => exact h.settled (k := .wral) (by decide) _ _ _ true
  | _ => exact h.mono hn

theorem shiftIn_alike (h : Alike s t) : Alike (shiftIn s) (shiftIn t) := by
  have hnext := h.input.shift s.dataIn.toNat
  have hless := used_next s.command s.inputCount
  have hword : ∀ x : Nat, x % 2 ^ 32 < 2 ^ 32 := fun x => Nat.mod_lt x (by decide)
  obtain ⟨data, cs, clock, dataIn, dataOut, ireg, icount, oreg, ocount, command, addr, wen⟩ := s
  obtain ⟨data', cs', clock', dataIn', dataOut', ireg', icount', oreg', ocount', command', addr', wen'⟩ := t
  obtain rfl : dataIn = dataIn' := h.dataIn
  obtain rfl : icount = icount' := h.inputCount
  -- both, with the bit in
  have htaken : Near (min 32 (used command icount + 1))
      ⟨data, cs, clock, dataIn, dataOut, (ireg * 2 + dataIn.toNat) % 2 ^ 32, (icount + 1) % 2 ^ 32, oreg, ocount,
        command, addr, wen⟩
      ⟨data', cs', clock', dataIn, dataOut', (ireg' * 2 + dataIn.toNat) % 2 ^ 32, (icount + 1) % 2 ^ 32, oreg', ocount',
        command', addr', wen'⟩ :=
    ⟨h.data, h.cs, h.clock, rfl, h.dataOut, h.command, h.enabled, rfl, hnext, h.addr, h.output⟩
  unfold shiftIn
  dsimp only
  split_ifs with h1 h3 h5 h13 h29
  · exact (startBit_alike (htaken.mono (used_opcode command (by omega)))).mono (used_le _ _)
  · have hall := htaken.mono (used_opcode command (by omega))
    exact (opcode_near hall (hall.input_eq (hword _) (hword _))).mono (used_le _ _)
  · have hall := htaken.mono (used_opcode command (by omega))
    exact (opcode00_near hall (hall.input_eq (hword _) (hword _))).mono (used_le _ _)
  · exact addressed_alike htaken h13 hless
  · exact filled_alike htaken hless (used_last command h29)
  · exact htaken.mono hless

theorem writeClock_alike (h : Alike s t) (value : Bool) : Alike (writeClock s value) (writeClock t value) := by
  have hset : ∀ {s t : Eeprom}, Alike s t → Alike { s with clock := value } { t with clock := value } := fun h =>
    ⟨h.data, h.cs, rfl, h.dataIn, h.dataOut, h.command, h.enabled, h.inputCount, h.input, h.addr, h.output⟩
  unfold writeClock
  rw [← h.cs, ← h.clock, ← h.command]
  dsimp only
  split_ifs with hrise hdummy hdata
  · exact hset (firstBit_alike h (Or.inl hdummy))
  · exact hset (nextBit_alike h hdata)
  · exact hset (shiftIn_alike h)
  · exact hset h

/-! ## Snapshots -/

/-- Everything that is still used fits in a byte. -/
structure Fits (s : Eeprom) : Prop where
  count : s.inputCount < 256
  input : s.inputShiftreg % 2 ^ used s.command s.inputCount < 256
  addr : isReading s.command → s.addr < 256
  output : s.command = .readData → s.outputCount < 256

theorem byte_eq (x : Nat) : x.toUInt8.toNat = x % 256 := by
  rw [Nat.toUInt8_eq, UInt8.toNat_ofNat']

/-- The byte of a number that has no other bits. -/
theorem agree_byte {n x : Nat} (h : x % 2 ^ n < 256) : Agree n x (x % 256) := by
  unfold Agree
  obtain hle | hle := Nat.le_total n 8
  · exact (Nat.mod_mod_of_dvd x (Nat.pow_dvd_pow 2 hle)).symm
  · have hmod : x % 2 ^ n % 256 = x % 256 := Nat.mod_mod_of_dvd x (Nat.pow_dvd_pow 2 hle)
    rw [Nat.mod_eq_of_lt h] at hmod
    rw [← hmod, Nat.mod_mod]

theorem snapshot_alike (h : Fits s) : Alike s (step s .snap) := by
  refine ⟨rfl, rfl, rfl, rfl, rfl, rfl, rfl, ?_, ?_, fun hk => ?_, fun hk => ⟨?_, ?_⟩⟩
  · exact ((byte_eq _).trans (Nat.mod_eq_of_lt h.count)).symm
  · change Agree _ _ s.inputShiftreg.toUInt8.toNat
    rw [byte_eq]
    exact agree_byte h.input
  · exact ((byte_eq _).trans (Nat.mod_eq_of_lt (h.addr hk))).symm
  · exact ((byte_eq _).trans (Nat.mod_eq_of_lt (h.output hk))).symm
  · change Agree _ _ s.outputShiftreg.toUInt8.toNat
    rw [byte_eq]
    exact (Nat.mod_mod s.outputShiftreg 256).symm

/-! ## Runs -/

/-- Each snapshot of the run fits. -/
def FitsAll : Eeprom → List Op → Prop
  | _, [] => True
  | s, op :: ops => (op = .snap → Fits s) ∧ FitsAll (step s op) ops

theorem alike_step {op : Op} (hop : op ≠ .snap) (h : Alike s t) : Alike (step s op) (step t op) := by
  cases op with
  | select value => exact writeSelect_alike h value
  | data value => exact writeData_alike h value
  | clock value => exact writeClock_alike h value
  | out => exact (readData_alike h).2
  | poll => exact (readData_alike h).2
  | snap => exact absurd rfl hop

/-- All bits that are read, of polls too. -/
def seen (s : Eeprom) : List Op → List Bool
  | [] => []
  | .out :: ops => (readData s).1 :: seen (step s .out) ops
  | .poll :: ops => (readData s).1 :: seen (step s .poll) ops
  | op :: ops => seen (step s op) ops

/-- The run without its snapshots. -/
def unsnapped (ops : List Op) : List Op := ops.filter (· ≠ .snap)

theorem unsnapped_cons {op : Op} (hop : op ≠ .snap) (ops : List Op) : unsnapped (op :: ops) = op :: unsnapped ops :=
  List.filter_cons_of_pos (decide_eq_true hop)

/-- A run without its snapshots reads the same. -/
theorem unsnapped_reads (ops : List Op) (h : Alike s t) (hfits : FitsAll t ops) :
    outs s (unsnapped ops) = outs t ops ∧ seen s (unsnapped ops) = seen t ops := by
  induction ops generalizing s t with
  | nil => exact ⟨rfl, rfl⟩
  | cons op ops ih =>
    by_cases hop : op = .snap
    · subst hop
      exact ih (h.trans (snapshot_alike (hfits.1 rfl))) hfits.2
    · obtain ⟨houts, hseen⟩ := ih (alike_step hop h) hfits.2
      have hbit := (readData_alike h).1
      rw [unsnapped_cons hop]
      cases op with
      | out => exact ⟨congrArg₂ List.cons hbit houts, congrArg₂ List.cons hbit hseen⟩
      | poll => exact ⟨houts, congrArg₂ List.cons hbit hseen⟩
      | snap => exact absurd rfl hop
      | _ => exact ⟨houts, hseen⟩

/-- Snapshots that fit are not noticed, and a read returns the words that were last stored. -/
theorem eeprom_is_memory (s : Eeprom) (ops : List Op) (hfits : FitsAll s ops) :
    seen s ops = seen s (unsnapped ops) ∧
      ∀ (m : Memory) (fs : List Frame), Idle s m → unsnapped ops = fs.flatMap Frame.ops →
        outs s ops = Memory.answers m fs := by
  obtain ⟨houts, hseen⟩ := unsnapped_reads ops (Alike.refl s) hfits
  refine ⟨hseen.symm, fun m fs hidle hframes => ?_⟩
  rw [← houts, hframes]
  exact frames_spec fs hidle

end

/-! ## Runs from the start -/

/-- The state before anything is done. -/
def initial (data : Nat → UInt8) : Eeprom :=
  ⟨data, false, false, false, false, 0, 0, 0, 0, .none, 0, false⟩

/-- The words of the bytes. -/
def wordsOf (data : Nat → UInt8) (a : Fin 1024) : UInt16 :=
  UInt16.ofNat ((data (a.val <<< 1)).toNat * 256 + (data ((a.val <<< 1) + 1)).toNat)

theorem initial_idle (data : Nat → UInt8) : Idle (initial data) ⟨wordsOf data, false⟩ := by
  refine ⟨rfl, rfl, (by decide : isIdle .none), rfl, fun a => ?_⟩
  have h0 := (data (a.val <<< 1)).toNat_lt
  have h1 := (data ((a.val <<< 1) + 1)).toNat_lt
  dsimp only [initial, wordsOf]
  rw [UInt16.toNat_ofNat']
  omega

instance (s : Eeprom) : Decidable (Fits s) :=
  decidable_of_iff (s.inputCount < 256 ∧ s.inputShiftreg % 2 ^ used s.command s.inputCount < 256 ∧
      (isReading s.command → s.addr < 256) ∧ (s.command = .readData → s.outputCount < 256))
    ⟨fun ⟨hcount, hinput, haddr, houtput⟩ => ⟨hcount, hinput, haddr, houtput⟩,
      fun ⟨hcount, hinput, haddr, houtput⟩ => ⟨hcount, hinput, haddr, houtput⟩⟩

def decideFits : (s : Eeprom) → (ops : List Op) → Decidable (FitsAll s ops)
  | _, [] => .isTrue trivial
  | s, op :: ops => @instDecidableAnd _ _ inferInstance (decideFits (step s op) ops)

instance (s : Eeprom) (ops : List Op) : Decidable (FitsAll s ops) := decideFits s ops

/-- A word is stored. -/
def storeFrames : List Frame := [⟨2, .wen 0, none⟩, ⟨0, .write 5 0x1234, some 3⟩]

/-- A word is read, with a snapshot in the frame after so many accesses. -/
def readOps (a : Fin 1024) (n : Nat) : List Op :=
  let ops := Frame.ops ⟨0, .read a 1 fun _ => false, none⟩
  ops.take n ++ .snap :: ops.drop n

theorem eeprom_stores_word : outs (initial fun _ => 0) (storeFrames.flatMap Frame.ops ++ readOps 5 45) =
      Memory.answers ⟨wordsOf fun _ => 0, false⟩ (storeFrames ++ [⟨0, .read 5 1 fun _ => false, none⟩]) :=
  (eeprom_is_memory (initial fun _ => 0) (storeFrames.flatMap Frame.ops ++ readOps 5 45)
    (by decide +kernel)).2 _ _ (initial_idle _) (by decide +kernel)

/-- The word at 0x100, and no other. -/
def lastByte (i : Nat) : UInt8 := if i = 0x200 then 0xff else 0

/-- After the bits of the address a snapshot keeps eight of them. -/
theorem snapshot_loses_address : ¬ ∀ (s : Eeprom) (ops : List Op) (m : Memory) (fs : List Frame), Idle s m →
    unsnapped ops = fs.flatMap Frame.ops → outs s ops = Memory.answers m fs := fun h =>
  absurd (h (initial lastByte) (readOps 0x100 40) _ [⟨0, .read 0x100 1 fun _ => false, none⟩] (initial_idle _)
    (by decide +kernel)) (by decide +kernel)

end Vice.L4.M93c86Snapshot
