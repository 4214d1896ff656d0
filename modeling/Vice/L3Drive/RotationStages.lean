import Vice.L3Drive.Rotation
import Mathlib.Tactic.IntervalCases

/-!
# The stages of a pass

What a pass does in cycles in which nothing comes up, what its last cycle does after them, and
what each stage leaves alone.

Results:
* `gcrPass_quiet`, `iterate_quiet`: quiet cycles in one pass and one at a time.
* `gcrPass_late`: a pass without a flux reversal is its quiet cycles and one more.
* `divide_frame`, `bitcell_frame`: the counters a stage does not touch.
-/
namespace Vice.L3.RotationStages
open Vice.L0.BatchedSteps Vice.L3.Rotation

section
variable {d : Drive} {c : Circuit} {i j k n : Nat}

/-! ## Ranges -/

theorem cycSumFrv_le (d : Drive) : cycSumFrv d ≤ 524288 := by
  have hsize := d.trackSize_le
  unfold cycSumFrv
  split <;> omega

/-- At every speed the program can be set to, a bitcell of the longest track is five cycles long. -/
theorem countNewBitcell_ge (d : Drive) : 2900000 ≤ countNewBitcell d := by
  obtain ⟨hlo, hhi⟩ := d.wobble_bounds
  have hpos := d.rpm_pos
  have hle := d.rpm_le
  unfold countNewBitcell
  obtain hslow | hfast : d.rpm ≤ 44 ∨ 45 ≤ d.rpm := by omega
  · generalize d.rpm = rpm at *
    interval_cases rpm <;> omega
  · have hleast : 30000 * 3200000 / 32000 ≤ 30000 * 3200000 / d.rpm := Nat.div_le_div_left hle hpos
    have hmost : 30000 * 3200000 / d.rpm ≤ 30000 * 3200000 / 45 :=
      Nat.div_le_div_left hfast (by omega)
    omega

theorem cycSumFrv_lt (d : Drive) : cycSumFrv d < countNewBitcell d := by
  have hcyc := cycSumFrv_le d
  have hcount := countNewBitcell_ge d
  omega

/-- The counters in the ranges the circuit keeps them in. -/
structure InRange (d : Drive) (c : Circuit) : Prop where
  ue7 : c.ue7Counter < 16
  dcba : c.ue7Dcba < 4
  accum : c.accum < countNewBitcell d + 2 ^ 31
  frRandcount : c.frRandcount < 2 ^ 32

/-! ## Quiet cycles -/

/-- Nothing comes up in the next `k` cycles. -/
structure Quiet (d : Drive) (k : Nat) (c : Circuit) : Prop where
  so : c.soDelay = 0 ∨ k < c.soDelay
  ue7 : c.ue7Counter + k < 16
  accum : c.accum + cycSumFrv d * k < countNewBitcell d
  filter : d.readWriteMode = true → c.filterCounter + k < 40 ∨ c.filterLastState = c.filterState
  random : d.readWriteMode = true → c.frRandcount = 0 ∨ k < c.frRandcount

/-- What `k` quiet cycles do. -/
def idle (d : Drive) (k : Nat) (c : Circuit) : Circuit :=
  { c with
    soDelay := c.soDelay - k
    ue7Counter := c.ue7Counter + k
    accum := c.accum + cycSumFrv d * k
    cycleIndex := (c.cycleIndex + k) % 2 ^ 32
    filterCounter := if d.readWriteMode then c.filterCounter + k else c.filterCounter
    frRandcount :=
      if d.readWriteMode then (c.frRandcount + 2 ^ 32 - k) % 2 ^ 32 else c.frRandcount }

theorem countNewBitcell_lt (d : Drive) : countNewBitcell d < 2 ^ 32 := by
  unfold countNewBitcell
  omega

theorem soSignal_quiet (h : c.soDelay = 0 ∨ k < c.soDelay) :
    soSignal k c = { c with soDelay := c.soDelay - k } := by
  unfold soSignal
  obtain hzero | hmore := h
  · simp [hzero]
    cases c
    simp_all
  · have hne : c.soDelay ≠ 0 := by omega
    have hrest : c.soDelay - k ≠ 0 := by omega
    simp only [hne, hrest, ne_eq, not_false_eq_true, ↓reduceIte]

theorem fluxFilter_quiet (hf : c.filterCounter + k < 40 ∨ c.filterLastState = c.filterState)
    (hr : (c.frRandcount + 2 ^ 32 - k) % 2 ^ 32 ≠ 0) :
    fluxFilter k c = { c with
      filterCounter := c.filterCounter + k
      frRandcount := (c.frRandcount + 2 ^ 32 - k) % 2 ^ 32 } := by
  have hno : ¬(40 ≤ c.filterCounter + k ∧ c.filterLastState ≠ c.filterState) := by
    rintro ⟨hle, hne⟩
    exact hf.elim (by omega) hne
  simp only [fluxFilter, hno, hr, ↓reduceIte]

theorem divide_quiet (h : c.ue7Counter + k < 16) :
    divide d k c = { c with ue7Counter := c.ue7Counter + k } := by
  have hne : c.ue7Counter + k ≠ 16 := by omega
  simp only [divide, hne, ↓reduceIte]

theorem bitcell_quiet (h : c.accum + cycSumFrv d * k < countNewBitcell d) :
    bitcell d k c = { c with accum := c.accum + cycSumFrv d * k } := by
  have hcount := countNewBitcell_lt d
  have hmod : (c.accum + cycSumFrv d * k) % 2 ^ 32 = c.accum + cycSumFrv d * k :=
    Nat.mod_eq_of_lt (by omega)
  have hle : ¬countNewBitcell d ≤ c.accum + cycSumFrv d * k := by omega
  simp only [bitcell, hmod, hle, ↓reduceIte]

theorem gcrPass_read (hmode : d.readWriteMode = true) :
    gcrPass d k c = cyclesDone k (bitcell d k (divide d k (fluxFilter k (soSignal k c)))) := by
  simp only [gcrPass, hmode, ↓reduceIte]

theorem gcrPass_write (hmode : d.readWriteMode = false) :
    gcrPass d k c = cyclesDone k (divide d k (bitcell d k (soSignal k c))) := by
  simp only [gcrPass, hmode, Bool.false_eq_true, ↓reduceIte]

theorem gcrPass_quiet (h : Quiet d k c) (hk : 0 < k) (hr : c.frRandcount < 2 ^ 32) :
    gcrPass d k c = idle d k c := by
  cases hmode : d.readWriteMode with
  | true =>
    rw [gcrPass_read hmode, soSignal_quiet h.so, fluxFilter_quiet, divide_quiet, bitcell_quiet]
    · simp only [cyclesDone, idle, hmode, ↓reduceIte]
    · exact h.accum
    · exact h.ue7
    · exact h.filter hmode
    · have hrandom := h.random hmode
      have hue7 := h.ue7
      simp only
      omega
  | false =>
    rw [gcrPass_write hmode, soSignal_quiet h.so, bitcell_quiet, divide_quiet]
    · simp only [cyclesDone, idle, hmode, Bool.false_eq_true, ↓reduceIte]
    · exact h.ue7
    · exact h.accum

theorem idle_idle (hr : i + j ≤ 2 ^ 32) : idle d j (idle d i c) = idle d (i + j) c := by
  unfold idle
  cases hmode : d.readWriteMode with
  | true =>
    simp only [↓reduceIte, Nat.mul_add, Circuit.mk.injEq, true_and, and_true]
    omega
  | false =>
    simp only [Bool.false_eq_true, ↓reduceIte, Nat.mul_add, Circuit.mk.injEq, true_and, and_true]
    omega

theorem idle_frRandcount (hr : c.frRandcount < 2 ^ 32) : (idle d k c).frRandcount < 2 ^ 32 := by
  simp only [idle]
  split
  · omega
  · exact hr

theorem Quiet.mono (h : Quiet d k c) (hj : j ≤ k) : Quiet d j c where
  so := h.so.imp_right (Nat.lt_of_le_of_lt hj)
  ue7 := Nat.lt_of_le_of_lt (Nat.add_le_add_left hj _) h.ue7
  accum := Nat.lt_of_le_of_lt (Nat.add_le_add_left (Nat.mul_le_mul_left _ hj) _) h.accum
  filter hm := (h.filter hm).imp_left (Nat.lt_of_le_of_lt (Nat.add_le_add_left hj _))
  random hm := (h.random hm).imp_right (Nat.lt_of_le_of_lt hj)

theorem Quiet.later (h : Quiet d (i + j) c) (hr : c.frRandcount < 2 ^ 32) : Quiet d j (idle d i c) := by
  have hue7 := h.ue7
  refine ⟨?_, ?_, ?_, fun hm => ?_, fun hm => ?_⟩
  · have hso := h.so
    simp only [idle]
    omega
  · simp only [idle]
    omega
  · have haccum := h.accum
    simp only [idle, Nat.add_assoc, ← Nat.mul_add]
    exact haccum
  · have hfilter := h.filter hm
    simp only [idle, hm, ↓reduceIte]
    exact hfilter.imp_left (by omega)
  · have hrandom := h.random hm
    simp only [idle, hm, ↓reduceIte]
    omega

/-- Quiet cycles one at a time. -/
theorem iterate_quiet (h : Quiet d k c) (hk : 0 < k) (hr : c.frRandcount < 2 ^ 32) :
    (gcrPass d 1)^[k] c = idle d k c := by
  induction k with
  | zero => exact absurd hk (Nat.lt_irrefl 0)
  | succ k ih =>
    obtain rfl | hpos := Nat.eq_zero_or_pos k
    · exact gcrPass_quiet h hk hr
    · have hue7 := h.ue7
      rw [Function.iterate_succ_apply', ih (h.mono k.le_succ) hpos,
        gcrPass_quiet (h.later hr) Nat.one_pos (idle_frRandcount hr), idle_idle (by omega)]

/-! ## The last cycle of a pass -/

/-- The counters of the stages still to come, some cycles further on. -/
def ahead (bits ticks cycles : Nat) (c : Circuit) : Circuit :=
  { c with
    accum := c.accum + bits
    ue7Counter := c.ue7Counter + ticks
    cycleIndex := (c.cycleIndex + cycles) % 2 ^ 32 }

variable {bits ticks : Nat}

theorem cycle_low (x : Nat) : (x % 2 ^ 32) &&& 15 = x &&& 15 := by
  rw [show 15 = 2 ^ 4 - 1 from rfl, Nat.and_two_pow_sub_one_eq_mod, Nat.and_two_pow_sub_one_eq_mod]
  omega

theorem byteReady_ahead :
    byteReady d 1 (ahead bits ticks k c) = ahead bits ticks k (byteReady d (k + 1) c) := by
  unfold byteReady
  split
  · simp only [ahead, Nat.add_sub_cancel, Nat.sub_self, Nat.add_zero, cycle_low]
  · rfl

theorem readShift_ahead :
    readShift d 1 (ahead bits ticks k c) = ahead bits ticks k (readShift d (k + 1) c) := by
  have hin : readIn (ahead bits ticks k c) = ahead bits ticks k (readIn c) := rfl
  simp only [readShift, hin]
  generalize readIn c = r
  rw [apply_ite (ahead bits ticks k), apply_ite (ahead bits ticks k)]
  exact if_congr Iff.rfl rfl (if_congr Iff.rfl (@byteReady_ahead d (byteRead r) k bits ticks) rfl)

theorem writeNextBit_ahead (value : UInt8) :
    writeNextBit d (ahead bits ticks k c) value = ahead bits ticks k (writeNextBit d c value) := by
  have htrack : (ahead bits ticks k c).track = c.track := rfl
  simp only [writeNextBit, htrack]
  cases d.gcrImageLoaded with
  | false => rfl
  | true => cases c.track <;> rfl

theorem writeShift_ahead : writeShift d 1 (ahead 0 ticks k c) = ahead 0 ticks k (writeShift d (k + 1) c) := by
  have hout : writeOut d (ahead 0 ticks k c) = ahead 0 ticks k (writeOut d c) := by
    have hin : shiftIn (ahead 0 ticks k c) = ahead 0 ticks k (shiftIn c) := rfl
    simp only [writeOut, hin, writeNextBit_ahead]
    rfl
  simp only [writeShift, hout]
  generalize writeOut d c = w
  rw [apply_ite (ahead 0 ticks k)]
  exact if_congr Iff.rfl
    (@byteReady_ahead d { w with bitCounter := 0, lastWriteData := d.gcrWriteValue } k 0 ticks) rfl

theorem divide_ahead (hbits : d.readWriteMode = false → bits = 0) :
    divide d 1 (ahead bits k k c) = ahead bits 0 k (divide d (k + 1) c) := by
  have hue7 : (ahead bits k k c).ue7Counter + 1 = c.ue7Counter + (k + 1) := Nat.add_assoc _ _ _
  simp only [divide, hue7]
  rw [apply_ite (ahead bits 0 k), apply_ite (ahead bits 0 k), apply_ite (ahead bits 0 k)]
  refine if_congr Iff.rfl (if_congr Iff.rfl ?_ rfl) ?_
  · generalize hc : { c with ue7Counter := c.ue7Dcba, uf4Counter := (c.uf4Counter + 1) &&& 0xf } = e
    have he : ({ ahead bits k k c with
        ue7Counter := (ahead bits k k c).ue7Dcba
        uf4Counter := ((ahead bits k k c).uf4Counter + 1) &&& 0xf } : Circuit) =
        ahead bits 0 k e := by
      rw [← hc]
      rfl
    rw [he]
    cases hmode : d.readWriteMode with
    | true => exact readShift_ahead
    | false =>
      rw [hbits hmode]
      exact writeShift_ahead
  · simp only [ahead, Nat.add_zero]

theorem readNextBit_ahead : readNextBit d (ahead 0 ticks k c) =
      ((readNextBit d c).1, ahead 0 ticks k (readNextBit d c).2) := by
  have htrack : (ahead 0 ticks k c).track = c.track := rfl
  simp only [readNextBit, htrack]
  cases d.gcrImageLoaded with
  | false => rfl
  | true => cases c.track <;> rfl

theorem bitRead_ahead : bitRead d (ahead 0 ticks k c) = ahead 0 ticks k (bitRead d c) := by
  simp only [bitRead, readNextBit_ahead]
  generalize readNextBit d c = r
  rw [apply_ite (ahead 0 ticks k)]
  rfl

theorem bitcell_ahead : bitcell d 1 (ahead (cycSumFrv d * k) ticks k c) =
      ahead 0 ticks k (bitcell d (k + 1) c) := by
  have hsum : (ahead (cycSumFrv d * k) ticks k c).accum + cycSumFrv d * 1 =
      c.accum + cycSumFrv d * (k + 1) := by
    simp only [ahead, Nat.mul_add, Nat.add_assoc]
  simp only [bitcell, hsum]
  rw [apply_ite (ahead 0 ticks k), apply_ite (ahead 0 ticks k)]
  generalize (c.accum + cycSumFrv d * (k + 1)) % 2 ^ 32 = sum
  exact if_congr Iff.rfl (if_congr Iff.rfl
    (@bitRead_ahead d { c with accum := sum - countNewBitcell d } k ticks) rfl) rfl

theorem cyclesDone_ahead : cyclesDone 1 (ahead 0 0 k c) = cyclesDone (k + 1) c := by
  have hcycle : ((c.cycleIndex + k) % 2 ^ 32 + 1) % 2 ^ 32 = (c.cycleIndex + (k + 1)) % 2 ^ 32 := by
    omega
  simp only [cyclesDone, ahead, hcycle, Nat.add_zero]

/-- A flux reversal, real or random, comes up in a pass of `k` cycles. -/
def FluxIn (k : Nat) (c : Circuit) : Prop :=
  (40 ≤ c.filterCounter + k ∧ c.filterLastState ≠ c.filterState) ∨ c.frRandcount = k

/-- `idle` but for the so signal. -/
def counters (d : Drive) (k : Nat) (c : Circuit) : Circuit :=
  { idle d k c with soDelay := c.soDelay }

theorem soSignal_late (h : c.soDelay = 0 ∨ k + 1 ≤ c.soDelay) :
    soSignal 1 (idle d k c) = counters d k (soSignal (k + 1) c) := by
  obtain hzero | hlast | hmore : c.soDelay = 0 ∨ c.soDelay = k + 1 ∨ k + 1 < c.soDelay := by omega
  · have hnone : (idle d k c).soDelay = 0 := by
      simp only [idle, hzero, Nat.zero_sub]
    unfold soSignal
    rw [if_neg (not_not.2 hnone), if_neg (not_not.2 hzero)]
    simp only [counters, idle, hzero, Nat.zero_sub]
  · simp only [soSignal, counters, idle, hlast, Nat.add_sub_cancel_left, Nat.sub_self, ne_eq,
      Nat.one_ne_zero, Nat.add_eq_zero_iff, and_false, not_false_eq_true, ↓reduceIte]
  · rw [soSignal_quiet (.inr hmore), soSignal_quiet (.inr (by simp only [idle]; omega))]
    simp only [counters, idle, Nat.sub_sub]

theorem fluxFilter_late (hmode : d.readWriteMode = true) (hk : k < 16)
    (hr : c.frRandcount < 2 ^ 32) (hflux : ¬FluxIn (k + 1) c) :
    fluxFilter 1 (counters d k c) =
      ahead (cycSumFrv d * k) k k (fluxFilter (k + 1) c) := by
  have hreal : c.filterCounter + (k + 1) < 40 ∨ c.filterLastState = c.filterState := by
    by_contra hno
    rw [not_or, Nat.not_lt] at hno
    exact hflux (.inl hno)
  have hrandom : c.frRandcount ≠ k + 1 := fun h => hflux (.inr h)
  have hcount : ((c.frRandcount + 2 ^ 32 - k) % 2 ^ 32 + 2 ^ 32 - 1) % 2 ^ 32 =
      (c.frRandcount + 2 ^ 32 - (k + 1)) % 2 ^ 32 := by
    omega
  have hne : (c.frRandcount + 2 ^ 32 - (k + 1)) % 2 ^ 32 ≠ 0 := by omega
  rw [fluxFilter_quiet hreal hne, fluxFilter_quiet]
  · simp only [counters, idle, ahead, hmode, ↓reduceIte, hcount, Nat.add_assoc]
  · simp only [counters, idle, hmode, ↓reduceIte, Nat.add_assoc]
    exact hreal
  · simp only [counters, idle, hmode, ↓reduceIte, hcount]
    exact hne

theorem soSignal_flux : FluxIn k (soSignal j c) ↔ FluxIn k c := by
  unfold soSignal FluxIn
  split
  · simp only
    split <;> rfl
  · rfl

theorem soSignal_frRandcount : (soSignal k c).frRandcount = c.frRandcount := by
  unfold soSignal
  split
  · simp only
    split <;> rfl
  · rfl

/-- Without a flux reversal a pass is its quiet cycles and one more. -/
theorem gcrPass_late (hso : c.soDelay = 0 ∨ k + 1 ≤ c.soDelay) (hk : k < 16)
    (hr : c.frRandcount < 2 ^ 32) (hflux : d.readWriteMode = true → ¬FluxIn (k + 1) c) :
    gcrPass d 1 (idle d k c) = gcrPass d (k + 1) c := by
  cases hmode : d.readWriteMode with
  | true =>
    have hflux' : ¬FluxIn (k + 1) (soSignal (k + 1) c) := by
      rw [soSignal_flux]
      exact hflux hmode
    rw [gcrPass_read hmode, gcrPass_read hmode, soSignal_late hso,
      fluxFilter_late hmode hk (by rw [soSignal_frRandcount]; exact hr) hflux',
      divide_ahead (by rw [hmode]; intro h; cases h), bitcell_ahead, cyclesDone_ahead]
  | false =>
    have hcounters : counters d k (soSignal (k + 1) c) =
        ahead (cycSumFrv d * k) k k (soSignal (k + 1) c) := by
      simp only [counters, idle, ahead, hmode, Bool.false_eq_true, ↓reduceIte]
    rw [gcrPass_write hmode, gcrPass_write hmode, soSignal_late hso, hcounters, bitcell_ahead,
      divide_ahead fun _ => rfl, cyclesDone_ahead]

/-! ## What a stage leaves alone -/

/-- The counters that the shifter and the head do not touch. -/
def frame (c : Circuit) : Nat × Nat × Nat × Nat × Nat :=
  (c.ue7Counter, c.ue7Dcba, c.frRandcount, c.filterState, c.filterLastState)

theorem byteReady_frame : frame (byteReady d k c) = frame c ∧ (byteReady d k c).accum = c.accum := by
  unfold byteReady
  split <;> exact ⟨rfl, rfl⟩

theorem readShift_frame : frame (readShift d k c) = frame c ∧ (readShift d k c).accum = c.accum := by
  unfold readShift
  simp only
  split
  · exact ⟨rfl, rfl⟩
  · split
    · exact @byteReady_frame d (byteRead (readIn c)) k
    · exact ⟨rfl, rfl⟩

theorem writeNextBit_frame (value : UInt8) : frame (writeNextBit d c value) = frame c := by
  unfold writeNextBit
  simp only
  split
  · rfl
  · split <;> rfl

theorem writeShift_frame : frame (writeShift d k c) = frame c ∧ (writeShift d k c).accum = cycSumFrv d * 2 := by
  have hout : frame (writeOut d c) = frame c :=
    (@writeNextBit_frame d (shiftIn c) (c.lastWriteData &&& 0x80)).trans rfl
  unfold writeShift
  simp only
  split
  · obtain ⟨hframe, haccum⟩ := @byteReady_frame d
      { writeOut d c with bitCounter := 0, lastWriteData := d.gcrWriteValue } k
    exact ⟨hframe.trans hout, haccum.trans rfl⟩
  · exact ⟨hout, rfl⟩

theorem soSignal_frame : frame (soSignal k c) = frame c ∧ (soSignal k c).accum = c.accum := by
  unfold soSignal
  split
  · simp only
    split <;> exact ⟨rfl, rfl⟩
  · exact ⟨rfl, rfl⟩

theorem divide_frame : frame (divide d k c) =
      (if c.ue7Counter + k = 16 then c.ue7Dcba else c.ue7Counter + k, c.ue7Dcba, c.frRandcount,
        c.filterState, c.filterLastState) ∧
    ((divide d k c).accum = c.accum ∨
      d.readWriteMode = false ∧ (divide d k c).accum = cycSumFrv d * 2) := by
  unfold divide
  split
  · simp only
    split
    · cases d.readWriteMode with
      | true =>
        obtain ⟨hframe, haccum⟩ := @readShift_frame d
          { c with ue7Counter := c.ue7Dcba, uf4Counter := (c.uf4Counter + 1) &&& 0xf } k
        exact ⟨hframe, .inl haccum⟩
      | false =>
        obtain ⟨hframe, haccum⟩ := @writeShift_frame d
          { c with ue7Counter := c.ue7Dcba, uf4Counter := (c.uf4Counter + 1) &&& 0xf } k
        exact ⟨hframe, .inr ⟨rfl, haccum⟩⟩
    · exact ⟨rfl, .inl rfl⟩
  · exact ⟨rfl, .inl rfl⟩

theorem bitRead_frame : (bitRead d c).ue7Counter = c.ue7Counter ∧ (bitRead d c).ue7Dcba = c.ue7Dcba ∧
      (bitRead d c).frRandcount = c.frRandcount ∧ (bitRead d c).accum = c.accum := by
  have hread : (readNextBit d c).2.ue7Counter = c.ue7Counter ∧
      (readNextBit d c).2.ue7Dcba = c.ue7Dcba ∧
      (readNextBit d c).2.frRandcount = c.frRandcount ∧
      (readNextBit d c).2.accum = c.accum := by
    unfold readNextBit
    simp only
    split
    · exact ⟨rfl, rfl, rfl, rfl⟩
    · split <;> exact ⟨rfl, rfl, rfl, rfl⟩
  unfold bitRead
  generalize readNextBit d c = r at hread
  simp only
  split <;> exact hread

theorem bitcell_frame : (bitcell d k c).ue7Counter = c.ue7Counter ∧ (bitcell d k c).ue7Dcba = c.ue7Dcba ∧
      (bitcell d k c).frRandcount = c.frRandcount ∧
      (bitcell d k c).accum =
        (if countNewBitcell d ≤ (c.accum + cycSumFrv d * k) % 2 ^ 32 then
          (c.accum + cycSumFrv d * k) % 2 ^ 32 - countNewBitcell d
        else (c.accum + cycSumFrv d * k) % 2 ^ 32) := by
  unfold bitcell
  simp only
  split
  · split
    · exact bitRead_frame
    · exact ⟨rfl, rfl, rfl, rfl⟩
  · exact ⟨rfl, rfl, rfl, rfl⟩

end
end Vice.L3.RotationStages
