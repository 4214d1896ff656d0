import Vice.L4Machine.ViaTimer2

/-!
# Timer 2 of the VIA ticks

Results:
* `timer2_ticks`: in a run whose accesses are all `Kept` every read agrees with the counter, and the
  interrupt flag.
* `timer2_tears`: the two kinds of writes to ACR that are not `Kept`, a run for each.

What the timer is at is a `Stage`: one for each alarm that may be pending, one without an alarm, and
one for pulse counting.
-/
namespace Vice.L4.ViaTimer2
open Vice.L0.LazyClock
open Vice.L4.ViaTimer1 (lowByte highByte fullCycle2)

variable {t d n : Nat} {v : Timer2} {r : Counter2} {high low byte : UInt8} {w : UInt16}

/-! ## Two bytes -/

theorem toNat_word (high low : UInt8) : (word high low).toNat = high.toNat * 256 + low.toNat := by
  have hlow : low.toNat < 2 ^ 8 := low.toNat_lt
  have hhigh := high.toNat_lt
  have hshift : high.toNat <<< 8 < 2 ^ 16 := by
    rw [Nat.shiftLeft_eq]
    omega
  simp only [word, UInt16.toNat_or, UInt16.toNat_shiftLeft, UInt8.toNat_toUInt16]
  rw [show (8 : UInt16).toNat % 16 = 8 from rfl, Nat.mod_eq_of_lt hshift,
    ← Nat.shiftLeft_add_eq_or_of_lt hlow, Nat.shiftLeft_eq]

theorem toNat_lowByte (w : UInt16) : (lowByte w).toNat = w.toNat % 256 := by
  simp only [lowByte, UInt16.toNat_toUInt8]

theorem toNat_highByte (w : UInt16) : (highByte w).toNat = w.toNat / 256 := by
  have hw := w.toNat_lt
  simp only [highByte, UInt16.toNat_toUInt8, UInt16.toNat_shiftRight]
  rw [show (8 : UInt16).toNat % 16 = 8 from rfl, Nat.shiftRight_eq_div_pow]
  omega

theorem lowByte_word (high low : UInt8) : lowByte (word high low) = low := by
  have hlow := low.toNat_lt
  refine UInt8.toNat_inj.1 ?_
  rw [toNat_lowByte, toNat_word]
  omega

theorem highByte_word (high low : UInt8) : highByte (word high low) = high := by
  have hlow := low.toNat_lt
  refine UInt8.toNat_inj.1 ?_
  rw [toNat_highByte, toNat_word]
  omega

theorem word_bytes (w : UInt16) : word (highByte w) (lowByte w) = w := by
  refine UInt16.toNat_inj.1 ?_
  rw [toNat_word, toNat_highByte, toNat_lowByte]
  omega

theorem toNat_ofNat_low (hn : n < 256) : (UInt8.ofNat n).toNat = n := by
  rw [UInt8.toNat_ofNat', Nat.mod_eq_of_lt (by exact hn)]

/-- The low byte counts down. -/
theorem word_pred (high : UInt8) (hn : n + 1 < 256) :
    word high (UInt8.ofNat (n + 1)) - 1 = word high (UInt8.ofNat n) := by
  have hhigh := high.toNat_lt
  refine UInt16.toNat_inj.1 ?_
  rw [UInt16.toNat_sub, toNat_word, toNat_word, toNat_ofNat_low hn, toNat_ofNat_low (by omega)]
  rw [show (1 : UInt16).toNat = 1 from rfl]
  omega

/-- The low byte underflows. -/
theorem word_borrow (high : UInt8) : word high 0 - 1 = word (high - 1) 0xff := by
  have hhigh := high.toNat_lt
  refine UInt16.toNat_inj.1 ?_
  rw [UInt16.toNat_sub, toNat_word, toNat_word, UInt8.toNat_sub]
  rw [show (1 : UInt16).toNat = 1 from rfl, show (0 : UInt8).toNat = 0 from rfl,
    show (1 : UInt8).toNat = 1 from rfl, show (0xff : UInt8).toNat = 255 from rfl]
  omega

theorem word_eq_zero (high : UInt8) : word high 0 = 0 ↔ high - 1 = 0xff := by
  have hhigh := high.toNat_lt
  rw [← UInt16.toNat_inj, ← UInt8.toNat_inj, toNat_word, UInt8.toNat_sub]
  rw [show (0 : UInt16).toNat = 0 from rfl, show (0 : UInt8).toNat = 0 from rfl,
    show (1 : UInt8).toNat = 1 from rfl, show (0xff : UInt8).toNat = 255 from rfl]
  omega

theorem ofNat_sub_succ (z t : Nat) :
    UInt16.ofNat z - UInt16.ofNat (t + 1) = UInt16.ofNat z - UInt16.ofNat t - 1 := by
  refine UInt16.toNat_inj.1 ?_
  simp only [UInt16.toNat_sub, UInt16.toNat_ofNat']
  rw [show (1 : UInt16).toNat = 1 from rfl]
  omega

theorem lowByte_ofNat_sub {z : Nat} (htz : t ≤ z) (hn : z < t + 256) :
    lowByte (UInt16.ofNat z - UInt16.ofNat t) = UInt8.ofNat (z - t) := by
  refine UInt8.toNat_inj.1 ?_
  rw [toNat_lowByte, toNat_ofNat_low (by omega), UInt16.toNat_sub, UInt16.toNat_ofNat',
    UInt16.toNat_ofNat']
  omega

/-! ## Alarms -/

/-- One alarm at most, where `t2zero` says. -/
structure Alarms (v : Timer2) : Prop where
  zero : ∀ d, v.t2ZeroAlarm = some d → v.t2zero = d ∧ v.t2UnderflowAlarm = none
  underflow : ∀ d, v.t2UnderflowAlarm = some d → v.t2zero + 1 = d ∧ v.t2ZeroAlarm = none

theorem due_zero (h : v.t2ZeroAlarm = some d) (hnone : v.t2UnderflowAlarm = none) : v.due = some d := by
  simp only [Timer2.due, h, hnone]

theorem due_underflow (h : v.t2UnderflowAlarm = some d) (hnone : v.t2ZeroAlarm = none) : v.due = some d := by
  simp only [Timer2.due, h, hnone]

theorem due_none (hzero : v.t2ZeroAlarm = none) (hunder : v.t2UnderflowAlarm = none) : v.due = none := by
  simp only [Timer2.due, hzero, hunder]

theorem handle_zero (h : v.t2ZeroAlarm = some d) (hnone : v.t2UnderflowAlarm = none) :
    v.handle = viacoreT2ZeroAlarm v d := by
  simp only [Timer2.handle, due_zero h hnone, h, if_true]

theorem handle_underflow (h : v.t2UnderflowAlarm = some d) (hnone : v.t2ZeroAlarm = none) :
    v.handle = viacoreT2UnderflowAlarm v := by
  simp only [Timer2.handle, due_underflow h hnone, hnone, reduceCtorEq, if_false]

/-- Which of the alarms is due. -/
theorem Alarms.due_cases (h : Alarms v) (hdue : v.due = some d) :
    (v.t2ZeroAlarm = some d ∧ v.t2UnderflowAlarm = none ∧ v.t2zero = d) ∨
      (v.t2UnderflowAlarm = some d ∧ v.t2ZeroAlarm = none ∧ v.t2zero + 1 = d) := by
  cases hz : v.t2ZeroAlarm with
  | some z =>
    obtain ⟨hzero, hnone⟩ := h.zero z hz
    rw [due_zero hz hnone] at hdue
    cases hdue
    exact .inl ⟨rfl, hnone, hzero⟩
  | none =>
    cases hu : v.t2UnderflowAlarm with
    | none =>
      rw [due_none hz hu] at hdue
      cases hdue
    | some u =>
      rw [due_underflow hu hz] at hdue
      cases hdue
      exact .inr ⟨rfl, rfl, (h.underflow _ hu).1⟩

theorem underflow_reload (h : isSrT2Controlled v.acr = true) : viacoreT2UnderflowAlarm v = { v with
        t2cl := v.t2ll
        t2UnderflowAlarm := none
        t2zero := v.t2zero + (v.t2ll.toNat + 2)
        t2xx00 := true
        t2ZeroAlarm := some (v.t2zero + (v.t2ll.toNat + 2)) } := by
  simp only [viacoreT2UnderflowAlarm, h, if_true, fullCycle2, if_pos (Nat.succ_ne_zero _)]

theorem underflow_again (h : isSrT2Controlled v.acr = false) (hhigh : v.t2ch ≠ 0xff) :
    viacoreT2UnderflowAlarm v =
      { v with
        t2cl := 0xff
        t2UnderflowAlarm := none
        t2zero := v.t2zero + 256
        t2xx00 := true
        t2ZeroAlarm := some (v.t2zero + 256) } := by
  simp only [viacoreT2UnderflowAlarm, h, Bool.false_eq_true, if_false, bne_iff_ne.2 hhigh, if_true,
    if_pos (show 256 ≠ 0 by decide)]

theorem underflow_last (h : isSrT2Controlled v.acr = false) (hhigh : v.t2ch = 0xff) :
    viacoreT2UnderflowAlarm v =
      { v with t2cl := 0xff, t2UnderflowAlarm := none, t2ZeroAlarm := none, t2xx00 := false } := by
  simp only [viacoreT2UnderflowAlarm, h, hhigh, bne_self_eq_false, Bool.false_eq_true, if_false,
    if_neg (show ¬0 ≠ 0 by decide)]

/-- The next alarm is two cycles later at least. -/
theorem underflow_alarms (v : Timer2) : Alarms (viacoreT2UnderflowAlarm v) ∧
      ∀ d, (viacoreT2UnderflowAlarm v).due = some d → v.t2zero + 2 ≤ d := by
  cases h : isSrT2Controlled v.acr with
  | true =>
    rw [underflow_reload h]
    refine ⟨⟨fun d hd => ⟨Option.some.inj hd, rfl⟩, fun d hd => nomatch hd⟩, fun d hd => ?_⟩
    have hd := Option.some.inj hd
    omega
  | false =>
    by_cases hhigh : v.t2ch = 0xff
    · rw [underflow_last h hhigh]
      exact ⟨⟨fun d hd => (nomatch hd), fun d hd => nomatch hd⟩, fun d hd => nomatch hd⟩
    · rw [underflow_again h hhigh]
      refine ⟨⟨fun d hd => ⟨Option.some.inj hd, rfl⟩, fun d hd => nomatch hd⟩, fun d hd => ?_⟩
      have hd := Option.some.inj hd
      omega

theorem zero_alarms (v : Timer2) (d : Nat) (hzero : v.t2zero = d) :
    Alarms (viacoreT2ZeroAlarm v d) ∧ (viacoreT2ZeroAlarm v d).due = some (d + 1) := by
  simp only [viacoreT2ZeroAlarm]
  split
  · refine ⟨⟨fun d hd => (nomatch hd), fun u hu => ⟨?_, rfl⟩⟩, rfl⟩
    rw [← Option.some.inj hu, ← hzero]
  · refine ⟨⟨fun d hd => (nomatch hd), fun u hu => ⟨?_, rfl⟩⟩, rfl⟩
    rw [← Option.some.inj hu, ← hzero]

theorem forward : timer2Machine.Forward Alarms where
  keep {v d} hv hdue := by
    obtain ⟨h, hnone, hzero⟩ | ⟨h, hnone, hzero⟩ := hv.due_cases hdue
    · show Alarms v.handle
      rw [handle_zero h hnone]
      exact (zero_alarms v d hzero).1
    · show Alarms v.handle
      rw [handle_underflow h hnone]
      exact (underflow_alarms v).1
  later {v d d'} hv hdue hnext := by
    have hnext : v.handle.due = some d' := hnext
    obtain ⟨h, hnone, hzero⟩ | ⟨h, hnone, hzero⟩ := hv.due_cases hdue
    · rw [handle_zero h hnone, (zero_alarms v d hzero).2] at hnext
      have hnext := Option.some.inj hnext
      omega
    · rw [handle_underflow h hnone] at hnext
      have hlater := (underflow_alarms v).2 d' hnext
      omega

/-! ## Stages -/

/-- What the timer is at in the cycle `t`. -/
inductive Stage (t : Nat) (v : Timer2) (r : Counter2) : Prop
  | ahead (htimer : isT2PulseCounting r.acr = false) (halarm : v.t2ZeroAlarm = some v.t2zero)
      (hnone : v.t2UnderflowAlarm = none) (hxx : v.t2xx00 = true) (hdue : t ≤ v.t2zero)
      (hnear : v.t2zero < t + 256)
      (hcounter : r.counter = word v.t2ch (UInt8.ofNat (v.t2zero - t)))
      (hunderflowed : r.underflowed = false)
  | underflow (htimer : isT2PulseCounting r.acr = false) (hnone : v.t2ZeroAlarm = none)
      (halarm : v.t2UnderflowAlarm = some t) (hxx : v.t2xx00 = true) (hdue : v.t2zero + 1 = t)
      (hcounter : r.counter = word v.t2ch 0xff) (hunderflowed : r.underflowed = true)
      (hlast : v.t2ch = 0xff → r.t2IrqAllowed = false)
  | free (htimer : isT2PulseCounting r.acr = false) (hnone : v.t2ZeroAlarm = none)
      (hnone' : v.t2UnderflowAlarm = none) (hxx : v.t2xx00 = false)
      (hcounter : r.counter = UInt16.ofNat v.t2zero - UInt16.ofNat t)
      (hallowed : r.t2IrqAllowed = false) (hplain : isSrT2Controlled r.acr = false)
  | pulses (hpulses : isT2PulseCounting r.acr = true) (hnone : v.t2ZeroAlarm = none)
      (hnone' : v.t2UnderflowAlarm = none) (hxx : v.t2xx00 = false)
      (hcounter : r.counter = word v.t2ch v.t2cl)

/-- Agreement at the start of the cycle `t`. -/
structure Follows (t : Nat) (v : Timer2) (r : Counter2) : Prop where
  control : v.toControl = r.toControl
  counting : r.counting = !isT2PulseCounting r.acr
  hold : r.hold = false
  stage : Stage t v r

theorem Stage.alarms (h : Stage t v r) : Alarms v := by
  cases h with
  | ahead htimer halarm hnone hxx hdue hnear hcounter hunderflowed =>
    refine ⟨fun d hd => ⟨?_, hnone⟩, fun d hd => ?_⟩
    · rw [halarm] at hd
      exact Option.some.inj hd
    · rw [hnone] at hd
      cases hd
  | underflow htimer hnone halarm hxx hdue hcounter hunderflowed hlast =>
    refine ⟨fun d hd => ?_, fun d hd => ⟨?_, hnone⟩⟩
    · rw [hnone] at hd
      cases hd
    · rw [halarm] at hd
      exact hdue.trans (Option.some.inj hd)
  | free htimer hnone hnone' hxx hcounter hallowed hplain =>
    exact ⟨fun d hd => (nomatch hnone.symm.trans hd), fun d hd => nomatch hnone'.symm.trans hd⟩
  | pulses hpulses hnone hnone' hxx hcounter =>
    exact ⟨fun d hd => (nomatch hnone.symm.trans hd), fun d hd => nomatch hnone'.symm.trans hd⟩

theorem Stage.settled (h : Stage t v r) : timer2Machine.Settled t v := by
  intro d hd
  have hd : v.due = some d := hd
  cases h with
  | ahead htimer halarm hnone hxx hdue hnear hcounter hunderflowed =>
    rw [due_zero halarm hnone] at hd
    cases hd
    exact hdue
  | underflow htimer hnone halarm hxx hdue hcounter hunderflowed hlast =>
    rw [due_underflow halarm hnone] at hd
    cases hd
    exact Nat.le_refl t
  | free htimer hnone hnone' hxx hcounter hallowed hplain =>
    rw [due_none hnone hnone'] at hd
    cases hd
  | pulses hpulses hnone hnone' hxx hcounter =>
    rw [due_none hnone hnone'] at hd
    cases hd

/-- No alarm in this cycle. -/
theorem settle_same (h : timer2Machine.Settled (t + 1) v) : timer2Machine.settle (t + 1) v = v :=
  loop_settled h

/-- The alarm of this cycle. -/
theorem settle_now (halarms : Alarms v) (hdue : v.due = some t) :
    timer2Machine.settle (t + 1) v = v.handle := by
  have hsettled : timer2Machine.Settled t v := by
    intro d hd
    rw [show v.due = some d from hd] at hdue
    cases hdue
    exact Nat.le_refl _
  rw [settle_succ forward halarms hsettled]
  exact if_pos hdue

theorem Follows.viacoreT2 (h : Follows t v r) : viacoreT2 v t = r.counter := by
  have hacr : v.acr = r.acr := congrArg (·.acr) h.control
  cases h.stage with
  | ahead htimer halarm hnone hxx hdue hnear hcounter hunderflowed =>
    simp only [ViaTimer2.viacoreT2, hacr, htimer, hxx, Bool.false_eq_true, if_false, if_true,
      lowByte_ofNat_sub hdue hnear, hcounter]
  | underflow htimer hnone halarm hxx hdue hcounter hunderflowed hlast =>
    have hlow : lowByte (UInt16.ofNat v.t2zero - UInt16.ofNat t) = 0xff := by
      rw [← hdue, ofNat_sub_succ, UInt16.sub_self]
      decide
    simp only [ViaTimer2.viacoreT2, hacr, htimer, hxx, Bool.false_eq_true, if_false, if_true, hlow, hcounter]
  | free htimer hnone hnone' hxx hcounter hallowed hplain =>
    simp only [ViaTimer2.viacoreT2, hacr, htimer, hxx, Bool.false_eq_true, if_false, hcounter]
  | pulses hpulses hnone hnone' hxx hcounter =>
    simp only [ViaTimer2.viacoreT2, hacr, hpulses, if_true, hcounter]

/-! ## The end of a cycle -/

theorem tick_standing (h : r.hold = true ∨ r.counting = false) : r.tick =
      { r with underflowed := false, counting := !isT2PulseCounting r.acr, hold := false } := by
  have hstand : (r.hold || !r.counting) = true := by
    obtain h | h := h
    · rw [h, Bool.true_or]
    · rw [h, Bool.not_false, Bool.or_true]
  simp only [Counter2.tick, Counter2.count, hstand, if_true]

theorem tick_stopping (hhold : r.hold = false) (hcounting : r.counting = true)
    (hpulses : isT2PulseCounting r.acr = true) :
    r.tick = { r with counter := r.counter - 1, underflowed := false, counting := false } := by
  simp only [Counter2.tick, Counter2.count, hhold, hcounting, hpulses, Bool.not_true, Bool.or_self,
    Bool.false_eq_true, if_false, if_true]

/-- In timer mode the low byte is loaded behind its underflow. -/
theorem tick_reload (hhold : r.hold = false) (hcounting : r.counting = true)
    (htimer : isT2PulseCounting r.acr = false) (hunderflowed : r.underflowed = true)
    (hcontrolled : isSrT2Controlled r.acr = true) :
    r.tick = { r with counter := word (highByte r.counter) r.t2ll, underflowed := false } := by
  simp only [Counter2.tick, Counter2.count, hhold, hcounting, htimer, hunderflowed, hcontrolled,
    Bool.not_true, Bool.not_false, Bool.or_self, Bool.and_self, Bool.false_eq_true, if_false, if_true]

/-- A cycle of timer mode. -/
theorem tick_down (hhold : r.hold = false) (hcounting : r.counting = true)
    (htimer : isT2PulseCounting r.acr = false)
    (hplain : (r.underflowed && isSrT2Controlled r.acr) = false) :
    r.tick =
      { r.timeOut with counter := r.counter - 1, underflowed := lowByte r.counter == 0 } := by
  simp only [Counter2.tick, Counter2.count, hhold, hcounting, htimer, hplain, Bool.not_true,
    Bool.not_false, Bool.or_self, Bool.false_eq_true, if_false, Counter2.timeOut]
  split
  · rfl
  · simp only [hhold, hcounting]

theorem timeOut_later (h : r.counter ≠ 0 ∨ r.t2IrqAllowed = false) : r.timeOut = r := by
  have hno : (r.counter == 0 && r.t2IrqAllowed) = false := by
    obtain h | h := h
    · rw [beq_eq_false_iff_ne.2 h, Bool.false_and]
    · rw [h, Bool.and_false]
  simp only [Counter2.timeOut, hno, Bool.false_eq_true, if_false]

/-- The counter starts in the next cycle, with the value it has. -/
theorem follows_start (hcontrol : v.toControl = r.toControl)
    (hstand : r.hold = true ∨ r.counting = false) (htimer : isT2PulseCounting r.acr = false)
    (halarm : v.t2ZeroAlarm = some v.t2zero) (hnone : v.t2UnderflowAlarm = none)
    (hxx : v.t2xx00 = true) (hzero : v.t2zero = t + 1 + low.toNat)
    (hcounter : r.counter = word v.t2ch low) :
    Follows (t + 1) (timer2Machine.settle (t + 1) v) r.tick := by
  have hlow := low.toNat_lt
  rw [tick_standing hstand]
  have hstage : Stage (t + 1) v
      { r with underflowed := false, counting := !isT2PulseCounting r.acr, hold := false } := by
    refine .ahead htimer halarm hnone hxx (by omega) (by omega) ?_ rfl
    rw [show v.t2zero - (t + 1) = low.toNat by omega, UInt8.ofNat_toNat]
    exact hcounter
  rw [settle_same hstage.settled]
  exact ⟨hcontrol, rfl, rfl, hstage⟩

/-- While it counts pulses the counter stands still. -/
theorem follows_pulses (hcontrol : v.toControl = r.toControl)
    (hstand : r.hold = true ∨ r.counting = false) (hstage : Stage t v r)
    (hpulses : isT2PulseCounting r.acr = true) :
    Follows (t + 1) (timer2Machine.settle (t + 1) v) r.tick := by
  rw [tick_standing hstand]
  have hstage' : Stage (t + 1) v
      { r with underflowed := false, counting := !isT2PulseCounting r.acr, hold := false } := by
    cases hstage with
    | pulses _ hnone hnone' hxx hcounter => exact .pulses hpulses hnone hnone' hxx hcounter
    | ahead htimer => exact absurd (htimer.symm.trans hpulses) Bool.false_ne_true
    | underflow htimer => exact absurd (htimer.symm.trans hpulses) Bool.false_ne_true
    | free htimer => exact absurd (htimer.symm.trans hpulses) Bool.false_ne_true
  rw [settle_same hstage'.settled]
  exact ⟨hcontrol, rfl, rfl, hstage'⟩

/-- The low byte does not read 0 yet. -/
theorem follows_down (h : Follows t v r) (hcounting : r.counting = true)
    (htimer : isT2PulseCounting r.acr = false) (halarm : v.t2ZeroAlarm = some v.t2zero)
    (hnone : v.t2UnderflowAlarm = none) (hxx : v.t2xx00 = true) (hdue : t + 1 ≤ v.t2zero)
    (hnear : v.t2zero < t + 256) (hcounter : r.counter = word v.t2ch (UInt8.ofNat (v.t2zero - t)))
    (hunderflowed : r.underflowed = false) :
    Follows (t + 1) (timer2Machine.settle (t + 1) v) r.tick := by
  obtain ⟨n, hn⟩ : ∃ n, v.t2zero = t + 1 + n := ⟨v.t2zero - (t + 1), by omega⟩
  rw [show v.t2zero - t = n + 1 by omega] at hcounter
  have hlow : lowByte r.counter = UInt8.ofNat (n + 1) := by rw [hcounter, lowByte_word]
  have hpos : UInt8.ofNat (n + 1) ≠ 0 := by
    intro hzero
    have hzero := congrArg UInt8.toNat hzero
    rw [toNat_ofNat_low (by omega)] at hzero
    exact absurd hzero (Nat.succ_ne_zero n)
  have hnonzero : r.counter ≠ 0 := by
    intro hzero
    rw [hzero] at hlow
    exact hpos hlow.symm
  have hplain : (r.underflowed && isSrT2Controlled r.acr) = false := by
    rw [hunderflowed, Bool.false_and]
  rw [tick_down h.hold hcounting htimer hplain, timeOut_later (.inl hnonzero), hlow,
    beq_eq_false_iff_ne.2 hpos, hcounter, word_pred v.t2ch (by omega)]
  have hstage : Stage (t + 1) v
      { r with counter := word v.t2ch (UInt8.ofNat n), underflowed := false } := by
    refine .ahead htimer halarm hnone hxx hdue (by omega) ?_ rfl
    rw [show v.t2zero - (t + 1) = n by omega]
  rw [settle_same hstage.settled]
  exact ⟨h.control, h.counting, h.hold, hstage⟩

/-- The low byte reads 0: the high byte counts down, and when it was 0 too the interrupt comes. -/
theorem follows_zero (h : Follows t v r) (hcounting : r.counting = true)
    (htimer : isT2PulseCounting r.acr = false) (halarm : v.t2ZeroAlarm = some t)
    (hnone : v.t2UnderflowAlarm = none) (hxx : v.t2xx00 = true) (hdue : v.t2zero = t)
    (hcounter : r.counter = word v.t2ch 0) (hunderflowed : r.underflowed = false) :
    Follows (t + 1) (timer2Machine.settle (t + 1) v) r.tick := by
  have hallowed : v.t2IrqAllowed = r.t2IrqAllowed := congrArg (·.t2IrqAllowed) h.control
  have hcontrol := h.control
  have hplain : (r.underflowed && isSrT2Controlled r.acr) = false := by
    rw [hunderflowed, Bool.false_and]
  rw [settle_now h.stage.alarms (due_zero halarm hnone), handle_zero halarm hnone,
    tick_down h.hold hcounting htimer hplain, hcounter, lowByte_word, word_borrow]
  by_cases hirq : v.t2ch - 1 = 0xff ∧ r.t2IrqAllowed = true
  · obtain ⟨hlast, hyes⟩ := hirq
    have htimeOut : r.timeOut = { r with irq := true, t2IrqAllowed := false } := by
      simp only [Counter2.timeOut, hcounter, (word_eq_zero v.t2ch).2 hlast, hyes, beq_self_eq_true,
        Bool.and_self, if_true]
    simp only [viacoreT2ZeroAlarm, hlast, hallowed, hyes, beq_self_eq_true, Bool.and_self, if_true, htimeOut]
    refine ⟨?_, h.counting, h.hold, .underflow htimer rfl rfl hxx ?_ rfl rfl fun _ => rfl⟩
    · simp only [← hcontrol]
    · exact congrArg (· + 1) hdue
  · have htimeOut : r.timeOut = r := by
      refine timeOut_later ?_
      by_cases hlast : v.t2ch - 1 = 0xff
      · exact .inr (Bool.eq_false_iff.2 fun hyes => hirq ⟨hlast, hyes⟩)
      · refine .inl fun hzero => hlast ((word_eq_zero v.t2ch).1 ?_)
        rw [← hcounter, hzero]
    have hno : (v.t2ch - 1 == 0xff && v.t2IrqAllowed) = false := by
      rw [Bool.and_eq_false_iff, beq_eq_false_iff_ne, hallowed]
      by_cases hlast : v.t2ch - 1 = 0xff
      · exact .inr (Bool.eq_false_iff.2 fun hyes => hirq ⟨hlast, hyes⟩)
      · exact .inl hlast
    simp only [viacoreT2ZeroAlarm, hno, htimeOut, Bool.false_eq_true, if_false]
    refine ⟨h.control, h.counting, h.hold, .underflow htimer rfl rfl hxx ?_ rfl rfl fun hlast => ?_⟩
    · exact congrArg (· + 1) hdue
    · exact Bool.eq_false_iff.2 fun hyes => hirq ⟨hlast, hyes⟩

/-- Behind xxFF the low byte is loaded, or counts down, and the alarm for the next underflow is set
unless that sets no interrupt. -/
theorem follows_underflow (h : Follows t v r) (hcounting : r.counting = true)
    (htimer : isT2PulseCounting r.acr = false) (hnone : v.t2ZeroAlarm = none)
    (halarm : v.t2UnderflowAlarm = some t) (hdue : v.t2zero + 1 = t)
    (hcounter : r.counter = word v.t2ch 0xff) (hunderflowed : r.underflowed = true)
    (hlast : v.t2ch = 0xff → r.t2IrqAllowed = false) :
    Follows (t + 1) (timer2Machine.settle (t + 1) v) r.tick := by
  have hacr : v.acr = r.acr := congrArg (·.acr) h.control
  have hlatch : v.t2ll = r.t2ll := congrArg (·.t2ll) h.control
  have hsmall := v.t2ll.toNat_lt
  have hlow : lowByte r.counter = 0xff := by rw [hcounter, lowByte_word]
  have hnonzero : r.counter ≠ 0 := by
    intro hzero
    rw [hzero] at hlow
    exact absurd hlow (by decide)
  rw [settle_now h.stage.alarms (due_underflow halarm hnone), handle_underflow halarm hnone]
  cases hcontrolled : isSrT2Controlled r.acr with
  | true =>
    rw [tick_reload h.hold hcounting htimer hunderflowed hcontrolled,
      underflow_reload (hacr ▸ hcontrolled), hcounter, highByte_word]
    refine ⟨h.control, h.counting, h.hold, .ahead htimer rfl rfl rfl ?_ ?_ ?_ rfl⟩
    · show t + 1 ≤ v.t2zero + (v.t2ll.toNat + 2)
      omega
    · show v.t2zero + (v.t2ll.toNat + 2) < t + 1 + 256
      omega
    · rw [show v.t2zero + (v.t2ll.toNat + 2) - (t + 1) = v.t2ll.toNat by omega, UInt8.ofNat_toNat,
        hlatch]
  | false =>
    have hplain : (r.underflowed && isSrT2Controlled r.acr) = false := by
      rw [hcontrolled, Bool.and_false]
    have hnext : r.counter - 1 = word v.t2ch 0xfe := by
      rw [hcounter]
      exact word_pred v.t2ch (show 254 + 1 < 256 by decide)
    rw [tick_down h.hold hcounting htimer hplain, timeOut_later (.inl hnonzero), hnext, hlow]
    by_cases hhigh : v.t2ch = 0xff
    · rw [underflow_last (hacr ▸ hcontrolled) hhigh]
      refine ⟨h.control, h.counting, h.hold,
        .free htimer rfl rfl rfl ?_ (hlast hhigh) hcontrolled⟩
      rw [← hdue, ofNat_sub_succ, ofNat_sub_succ, UInt16.sub_self, hhigh]
      show word 0xff 0xfe = 0 - 1 - 1
      decide
    · rw [underflow_again (hacr ▸ hcontrolled) hhigh]
      refine ⟨h.control, h.counting, h.hold, .ahead htimer rfl rfl rfl ?_ ?_ ?_ rfl⟩
      · show t + 1 ≤ v.t2zero + 256
        omega
      · show v.t2zero + 256 < t + 1 + 256
        omega
      · rw [show v.t2zero + 256 - (t + 1) = 254 by omega]
        rfl

/-- No alarm: all 16 bits count down, and set no interrupt. -/
theorem follows_free (h : Follows t v r) (hcounting : r.counting = true)
    (htimer : isT2PulseCounting r.acr = false) (hnone : v.t2ZeroAlarm = none)
    (hnone' : v.t2UnderflowAlarm = none) (hxx : v.t2xx00 = false)
    (hcounter : r.counter = UInt16.ofNat v.t2zero - UInt16.ofNat t)
    (hallowed : r.t2IrqAllowed = false) (hcontrolled : isSrT2Controlled r.acr = false) :
    Follows (t + 1) (timer2Machine.settle (t + 1) v) r.tick := by
  have hplain : (r.underflowed && isSrT2Controlled r.acr) = false := by
    rw [hcontrolled, Bool.and_false]
  rw [tick_down h.hold hcounting htimer hplain, timeOut_later (.inr hallowed)]
  have hstage : Stage (t + 1) v
      { r with counter := r.counter - 1, underflowed := lowByte r.counter == 0 } := by
    refine .free htimer hnone hnone' hxx ?_ hallowed hcontrolled
    rw [ofNat_sub_succ, ← hcounter]
  rw [settle_same hstage.settled]
  exact ⟨h.control, h.counting, h.hold, hstage⟩

theorem Follows.tick (h : Follows t v r) : Follows (t + 1) (timer2Machine.settle (t + 1) v) r.tick := by
  have hcounting := h.counting
  cases h.stage with
  | ahead htimer halarm hnone hxx hdue hnear hcounter hunderflowed =>
    rw [htimer] at hcounting
    obtain heq | hlt := Nat.eq_or_lt_of_le hdue
    · rw [← heq, Nat.sub_self] at hcounter
      exact follows_zero h hcounting htimer (heq ▸ halarm) hnone hxx heq.symm hcounter hunderflowed
    · exact follows_down h hcounting htimer halarm hnone hxx hlt hnear hcounter hunderflowed
  | underflow htimer hnone halarm hxx hdue hcounter hunderflowed hlast =>
    rw [htimer] at hcounting
    exact follows_underflow h hcounting htimer hnone halarm hdue hcounter hunderflowed hlast
  | free htimer hnone hnone' hxx hcounter hallowed hplain =>
    rw [htimer] at hcounting
    exact follows_free h hcounting htimer hnone hnone' hxx hcounter hallowed hplain
  | pulses hpulses hnone hnone' hxx hcounter =>
    rw [hpulses] at hcounting
    exact follows_pulses h.control (.inr hcounting) h.stage hpulses

/-! ## Accesses -/

/-- A write to ACR that the timer follows. When it stops the timer, the alarm behind xxFF is not
pending, since that is not cancelled; when it gives the shift register control, that alarm is
pending in the cycle that reads xxFF, since otherwise the low byte is not loaded. -/
def Kept (v : Timer2) (r : Counter2) : Access → Prop
  | .writeAcr byte =>
    (isT2PulseCounting r.acr = false → isT2PulseCounting byte = true →
      v.t2UnderflowAlarm = none) ∧
    (isT2PulseCounting r.acr = false → isT2PulseCounting byte = false →
      isSrT2Controlled r.acr = false → isSrT2Controlled byte = true → r.underflowed = true →
      v.t2UnderflowAlarm ≠ none)
  | _ => True

theorem Follows.acr_eq (h : Follows t v r) : v.acr = r.acr := congrArg (·.acr) h.control

/-- Flags and the latch change. -/
theorem Follows.change (h : Follows t v r) (c : Control) (hacr : c.acr = r.acr)
    (hallowed : c.t2IrqAllowed = r.t2IrqAllowed) :
    Follows t { v with toControl := c } { r with toControl := c } := by
  refine ⟨rfl, ?_, h.hold, ?_⟩
  · rw [show r.counting = !isT2PulseCounting c.acr by rw [hacr]; exact h.counting]
  cases h.stage with
  | ahead htimer halarm hnone hxx hdue hnear hcounter hunderflowed =>
    exact .ahead (hacr ▸ htimer) halarm hnone hxx hdue hnear hcounter hunderflowed
  | underflow htimer hnone halarm hxx hdue hcounter hunderflowed hlast =>
    exact .underflow (hacr ▸ htimer) hnone halarm hxx hdue hcounter hunderflowed
      fun hhigh => hallowed.trans (hlast hhigh)
  | free htimer hnone hnone' hxx hcounter hno hplain =>
    exact .free (hacr ▸ htimer) hnone hnone' hxx hcounter (hallowed.trans hno) (hacr ▸ hplain)
  | pulses hpulses hnone hnone' hxx hcounter =>
    exact .pulses (hacr ▸ hpulses) hnone hnone' hxx hcounter

/-- The mode changes between timer and timer or pulses and pulses, and the alarms stay. -/
theorem Follows.acr (h : Follows t v r) (hmode : isT2PulseCounting byte = isT2PulseCounting r.acr)
    (hplain : v.t2ZeroAlarm = none → v.t2UnderflowAlarm = none →
      isT2PulseCounting byte = false → isSrT2Controlled byte = false) :
    Follows t { v with acr := byte } { r with acr := byte } := by
  refine ⟨?_, ?_, h.hold, ?_⟩
  · rw [h.control]
  · exact h.counting.trans (congrArg _ hmode.symm)
  cases h.stage with
  | ahead htimer halarm hnone hxx hdue hnear hcounter hunderflowed =>
    exact .ahead (hmode.trans htimer) halarm hnone hxx hdue hnear hcounter hunderflowed
  | underflow htimer hnone halarm hxx hdue hcounter hunderflowed hlast =>
    exact .underflow (hmode.trans htimer) hnone halarm hxx hdue hcounter hunderflowed hlast
  | free htimer hnone hnone' hxx hcounter hno _ =>
    have htimer' := hmode.trans htimer
    exact .free htimer' hnone hnone' hxx hcounter hno (hplain hnone hnone' htimer')
  | pulses hpulses hnone hnone' hxx hcounter =>
    exact .pulses (hmode.trans hpulses) hnone hnone' hxx hcounter

theorem storeAcr_same (hmode : isT2PulseCounting v.acr = isT2PulseCounting byte)
    (hrestart : (isSrT2Controlled byte && !isSrT2Controlled v.acr && !isT2PulseCounting byte &&
      v.t2ZeroAlarm.isNone && v.t2UnderflowAlarm.isNone) = false) :
    storeAcr v t byte = { v with acr := byte } := by
  simp only [storeAcr, hmode, bne_self_eq_false, Bool.false_and, Bool.false_or, Bool.false_eq_true,
    if_false, hrestart]

theorem storeAcr_restart (htimer : isT2PulseCounting v.acr = false)
    (htimer' : isT2PulseCounting byte = false) (hplain : isSrT2Controlled v.acr = false)
    (hcontrolled : isSrT2Controlled byte = true) (hzero : v.t2ZeroAlarm = none)
    (hunder : v.t2UnderflowAlarm = none) :
    storeAcr v t byte =
      { scheduleT2ZeroAlarm
          { v with t2cl := lowByte (viacoreT2 v t), t2ch := highByte (viacoreT2 v t) } t with
        acr := byte } := by
  simp only [storeAcr, htimer, htimer', hplain, hcontrolled, hzero, hunder, bne_self_eq_false,
    Bool.and_self, Bool.and_true, Bool.not_false, Bool.false_eq_true, if_false, if_true, Nat.add_zero,
    Bool.or_true, Option.isNone_none]

theorem storeAcr_stop (htimer : isT2PulseCounting v.acr = false) (hpulses : isT2PulseCounting byte = true) :
    storeAcr v t byte =
      { v with
        t2cl := lowByte (viacoreT2 v t - 1)
        t2ch := highByte (viacoreT2 v t - 1)
        t2ZeroAlarm := none
        t2xx00 := false
        acr := byte } := by
  simp only [storeAcr, htimer, hpulses, Bool.not_true, Bool.and_false, Bool.or_false, Bool.and_true,
    Bool.false_and, Bool.false_eq_true, if_false, show (false != true) = true from rfl, if_true]

theorem storeAcr_start (hpulses : isT2PulseCounting v.acr = true)
    (htimer : isT2PulseCounting byte = false) (hzero : v.t2ZeroAlarm = none)
    (hunder : v.t2UnderflowAlarm = none) :
    storeAcr v t byte =
      { scheduleT2ZeroAlarm
          { v with t2cl := lowByte (viacoreT2 v t), t2ch := highByte (viacoreT2 v t) } (t + 1) with
        acr := byte } := by
  simp only [storeAcr, htimer, hpulses, hzero, hunder, Bool.not_false, Bool.and_false, Bool.and_true,
    Bool.true_or, Bool.and_self, Bool.false_eq_true, if_false, show (true != false) = true from rfl,
    if_true, Option.isNone_none]

/-- The same is read, and the cycle ends in agreement. -/
structure Answers (t : Nat) (x : Timer2 × Option UInt8) (y : Counter2 × Option UInt8) : Prop where
  read : x.2 = y.2
  alarms : Alarms x.1
  tick : Follows (t + 1) (timer2Machine.settle (t + 1) x.1) y.1.tick

theorem Follows.answers (h : Follows t v r) {b b' : Option UInt8} (hread : b = b') : Answers t (v, b) (r, b') :=
  ⟨hread, h.stage.alarms, h.tick⟩

theorem alarms_schedule (v : Timer2) (rclk : Nat) : Alarms (scheduleT2ZeroAlarm v rclk) :=
  ⟨fun _ hd => ⟨Option.some.inj hd, rfl⟩, fun _ hd => nomatch hd⟩

theorem Follows.storeT2ch (h : Follows t v r) (byte : UInt8) :
    Answers t (timer2Access t (.writeT2ch byte) v) (counter2Access (.writeT2ch byte) r) := by
  have hacr := h.acr_eq
  have hlatch : v.t2ll = r.t2ll := congrArg (·.t2ll) h.control
  have hcontrol := h.control
  cases hpulses : isT2PulseCounting r.acr with
  | true =>
    have hstore : ViaTimer2.storeT2ch v t byte =
        { v with t2cl := v.t2ll, t2ch := byte, irq := false, t2IrqAllowed := true } := by
      simp only [ViaTimer2.storeT2ch, hacr, hpulses, Bool.not_true, Bool.false_eq_true, if_false]
    simp only [timer2Access, counter2Access, hstore]
    have hstage : Stage t { v with t2cl := v.t2ll, t2ch := byte, irq := false, t2IrqAllowed := true }
        { r with counter := word byte r.t2ll, hold := true, irq := false, t2IrqAllowed := true } := by
      cases h.stage with
      | pulses _ hnone hnone' hxx hcounter =>
        exact .pulses hpulses hnone hnone' hxx (by rw [hlatch])
      | ahead htimer => exact absurd (htimer.symm.trans hpulses) Bool.false_ne_true
      | underflow htimer => exact absurd (htimer.symm.trans hpulses) Bool.false_ne_true
      | free htimer => exact absurd (htimer.symm.trans hpulses) Bool.false_ne_true
    refine ⟨rfl, hstage.alarms, follows_pulses ?_ (.inl rfl) hstage hpulses⟩
    simp only [← hcontrol]
  | false =>
    have hstore : ViaTimer2.storeT2ch v t byte =
        { scheduleT2ZeroAlarm { v with t2cl := v.t2ll, t2ch := byte } (t + 1) with
          irq := false, t2IrqAllowed := true } := by
      simp only [ViaTimer2.storeT2ch, hacr, hpulses, Bool.not_false, if_true]
    simp only [timer2Access, counter2Access, hstore]
    refine ⟨rfl, ⟨(alarms_schedule _ _).zero, (alarms_schedule _ _).underflow⟩,
      @follows_start t _ _ v.t2ll ?_ (.inl rfl) hpulses rfl rfl rfl rfl ?_⟩
    · simp only [scheduleT2ZeroAlarm, ← hcontrol]
    · simp only [scheduleT2ZeroAlarm, hlatch]

theorem Follows.storeAcr (h : Follows t v r) (hkept : Kept v r (.writeAcr byte)) :
    Answers t (timer2Access t (.writeAcr byte) v) (counter2Access (.writeAcr byte) r) := by
  have hacr := h.acr_eq
  have hvalue := h.viacoreT2
  have hcontrol := h.control
  have hcounting := h.counting
  simp only [timer2Access, counter2Access]
  cases hmode : isT2PulseCounting r.acr with
  | true =>
    cases h.stage with
    | ahead htimer => exact absurd (htimer.symm.trans hmode) Bool.false_ne_true
    | underflow htimer => exact absurd (htimer.symm.trans hmode) Bool.false_ne_true
    | free htimer => exact absurd (htimer.symm.trans hmode) Bool.false_ne_true
    | pulses _ hnone hnone' hxx hcounter =>
      cases hbyte : isT2PulseCounting byte with
      | true =>
        rw [storeAcr_same (by rw [hacr, hmode, hbyte]) (by rw [hbyte, Bool.not_true, Bool.and_false,
          Bool.false_and, Bool.false_and])]
        exact (h.acr (hbyte.trans hmode.symm)
          fun _ _ htimer => absurd (htimer.symm.trans hbyte) Bool.false_ne_true).answers rfl
      | false =>
        rw [storeAcr_start (by rw [hacr, hmode]) hbyte hnone hnone', hvalue]
        refine ⟨rfl, ⟨(alarms_schedule _ _).zero, (alarms_schedule _ _).underflow⟩,
          @follows_start t _ _ (lowByte r.counter) ?_ (.inr ?_) hbyte rfl rfl rfl rfl ?_⟩
        · simp only [scheduleT2ZeroAlarm, hcontrol]
        · exact hcounting.trans (by rw [hmode, Bool.not_true])
        · exact (word_bytes r.counter).symm
  | false =>
    cases hbyte : isT2PulseCounting byte with
    | true =>
      have hunder := hkept.1 hmode hbyte
      rw [storeAcr_stop (by rw [hacr, hmode]) hbyte, hvalue]
      have hcounting' : r.counting = true := hcounting.trans (by rw [hmode, Bool.not_false])
      have hstage : Stage (t + 1)
          { v with
            t2cl := lowByte (r.counter - 1)
            t2ch := highByte (r.counter - 1)
            t2ZeroAlarm := none
            t2xx00 := false
            acr := byte }
          { r with counter := r.counter - 1, underflowed := false, counting := false, acr := byte } :=
        .pulses hbyte rfl hunder rfl (word_bytes _).symm
      refine ⟨rfl, hstage.alarms, ?_⟩
      rw [@tick_stopping { r with acr := byte } h.hold hcounting' hbyte, settle_same hstage.settled]
      refine ⟨?_, by rw [hbyte]; rfl, h.hold, hstage⟩
      simp only [hcontrol]
    | false =>
      by_cases hrestart : (isSrT2Controlled byte && !isSrT2Controlled v.acr &&
          !isT2PulseCounting byte && v.t2ZeroAlarm.isNone && v.t2UnderflowAlarm.isNone) = true
      · simp only [Bool.and_eq_true, Bool.not_eq_true', Option.isNone_iff_eq_none] at hrestart
        obtain ⟨⟨⟨⟨hcontrolled, hplain⟩, -⟩, hzero⟩, hunder⟩ := hrestart
        have hstill : r.underflowed = false := Bool.eq_false_iff.2 fun hyes =>
          hkept.2 hmode hbyte (hacr ▸ hplain) hcontrolled hyes hunder
        rw [storeAcr_restart (by rw [hacr, hmode]) hbyte hplain hcontrolled hzero hunder, hvalue]
        have hlow := (lowByte r.counter).toNat_lt
        refine @Follows.answers t _ { r with acr := byte }
          ⟨?_, ?_, h.hold, .ahead hbyte rfl rfl rfl ?_ ?_ ?_ hstill⟩ none none rfl
        · simp only [scheduleT2ZeroAlarm, hcontrol]
        · exact hcounting.trans (by rw [hmode, hbyte])
        · exact Nat.le_add_right t _
        · exact Nat.add_lt_add_left hlow t
        · simp only [scheduleT2ZeroAlarm, Nat.add_sub_cancel_left, UInt8.ofNat_toNat, word_bytes]
      · rw [storeAcr_same (by rw [hacr, hmode, hbyte]) (Bool.eq_false_iff.2 hrestart)]
        refine (h.acr (hbyte.trans hmode.symm) fun hzero hunder _ => ?_).answers rfl
        cases h.stage with
        | free htimer _ _ hxx hcounter hno hplain =>
          refine Bool.eq_false_iff.2 fun hyes => hrestart ?_
          simp only [hyes, hacr, hplain, hbyte, hzero, hunder, Bool.not_false, Bool.and_self,
            Option.isNone_none]
        | ahead _ halarm => rw [hzero] at halarm; cases halarm
        | underflow _ _ halarm => rw [hunder] at halarm; cases halarm
        | pulses hpulses => exact absurd (hmode.symm.trans hpulses) Bool.false_ne_true

theorem Follows.access (h : Follows t v r) {a : Access} (hkept : Kept v r a) :
    Answers t (timer2Access t a v) (counter2Access a r) := by
  have hcontrol := h.control
  have hvalue := h.viacoreT2
  cases a with
  | readT2cl =>
    simp only [timer2Access, counter2Access, hvalue, hcontrol]
    exact (h.change { r.toControl with irq := false } rfl rfl).answers rfl
  | readT2ch =>
    simp only [timer2Access, counter2Access, hvalue]
    exact h.answers rfl
  | writeT2ll byte =>
    simp only [timer2Access, counter2Access, hcontrol]
    exact (h.change { r.toControl with t2ll := byte } rfl rfl).answers rfl
  | writeT2ch byte => exact h.storeT2ch byte
  | writeAcr byte => exact h.storeAcr hkept
  | writeIfr byte =>
    simp only [timer2Access, counter2Access, hcontrol]
    exact (h.change { r.toControl with irq := r.irq && byte &&& 0x20 == 0 } rfl rfl).answers rfl

/-! ## Runs -/

theorem sim : Sim timer2Machine counter2Ticking Alarms Kept Follows where
  forward := forward
  tick h := h.tick
  keep h hkept := (h.access hkept).alarms
  access h hkept := ⟨(h.access hkept).read, (h.access hkept).tick⟩

/-- A timer without an alarm that counts all 16 bits, such as a timer after a reset. -/
structure Idle (v : Timer2) : Prop where
  timer : isT2PulseCounting v.acr = false
  plain : isSrT2Controlled v.acr = false
  allowed : v.t2IrqAllowed = false
  xx00 : v.t2xx00 = false
  zero : v.t2ZeroAlarm = none
  underflow : v.t2UnderflowAlarm = none

/-- The counter of an idle timer. -/
def counter2Of (clk : Nat) (v : Timer2) : Counter2 where
  toControl := v.toControl
  counter := viacoreT2 v clk
  underflowed := false
  counting := true
  hold := false

theorem Idle.follows (h : Idle v) : Follows t v (counter2Of t v) := by
  refine ⟨rfl, ?_, rfl, .free h.timer h.zero h.underflow h.xx00 ?_ h.allowed h.plain⟩
  · show true = !isT2PulseCounting v.acr
    rw [h.timer, Bool.not_false]
  · simp only [counter2Of, viacoreT2, h.timer, h.xx00, Bool.false_eq_true, if_false]

/-- From an idle timer, in a run whose accesses are all `Kept`, every access reads what it reads
from the counter, and the value and the interrupt flag end up the same. -/
theorem timer2_ticks (clk : Nat) (v : Timer2) (es : List (Event Access)) (hidle : Idle v)
    (hordered : Ordered clk es)
    (hkept : RunOk timer2Machine counter2Ticking Kept clk v (counter2Of clk v) es) :
    let v' := timer2Machine.settle (nextClk clk es) (timer2Machine.run v es).1
    let r' := (counter2Ticking.run clk (counter2Of clk v) es).1
    (timer2Machine.run v es).2 = (counter2Ticking.run clk (counter2Of clk v) es).2 ∧
      viacoreT2 v' (nextClk clk es) = r'.counter ∧ v'.irq = r'.irq := by
  have hfollows := @Idle.follows clk v hidle
  have hsettled : timer2Machine.settle clk v = v := loop_settled hfollows.stage.settled
  obtain ⟨hreads, hend⟩ :=
    sim.run_agrees hfollows.stage.alarms (by rwa [hsettled]) hordered hkept
  exact ⟨hreads, hend.viacoreT2, congrArg (·.irq) hend.control⟩

/-- A timer that was reset in cycle 0. -/
def fresh : Timer2 where
  acr := 0
  t2ll := 0
  irq := false
  t2IrqAllowed := false
  t2cl := 0xff
  t2ch := 0xff
  t2zero := 0
  t2xx00 := false
  t2ZeroAlarm := none
  t2UnderflowAlarm := none

/-- Two underflows of the low byte under control of the shift register, the second of all 16 bits. -/
def shiftUnderflows : List (Event Access) :=
  [.access 1 (.writeT2ll 1), .access 2 (.writeT2ch 1), .access 3 (.writeAcr 0x04),
    .access 6 .readT2cl, .access 9 .readT2ch]

theorem timer2_ticks_shift :
    let v' := timer2Machine.settle (nextClk 0 shiftUnderflows)
      (timer2Machine.run fresh shiftUnderflows).1
    let r' := (counter2Ticking.run 0 (counter2Of 0 fresh) shiftUnderflows).1
    (timer2Machine.run fresh shiftUnderflows).2 =
        (counter2Ticking.run 0 (counter2Of 0 fresh) shiftUnderflows).2 ∧
      viacoreT2 v' (nextClk 0 shiftUnderflows) = r'.counter ∧ v'.irq = r'.irq := by
  refine timer2_ticks 0 fresh shiftUnderflows
    ⟨by decide, by decide, rfl, rfl, rfl, rfl⟩ ?_ ?_
  · exact ⟨by decide, by decide, by decide, by decide, by decide, trivial⟩
  · refine ⟨trivial, trivial, ⟨fun _ hpulses => ?_, fun _ _ _ _ hunderflowed => ?_⟩, trivial,
      trivial, trivial⟩
    · exact absurd hpulses (by decide)
    · exact absurd hunderflowed (by decide)

/-- Pulse counting switched on behind xx00: the alarm goes on, and with the low byte loaded from the
latch the interrupt comes while pulses are counted. -/
def stopBehindZero : List (Event Access) :=
  [.access 1 (.writeT2ll 1), .access 2 (.writeT2ch 1), .access 5 (.writeAcr 0x24),
    .access 9 .readT2ch]

/-- The shift register takes control behind xx00, and no alarm was pending. -/
def shiftBehindZero : List (Event Access) :=
  [.access 0 (.writeT2ll 5), .access 1 (.writeAcr 0x04), .access 2 .readT2cl]

theorem timer2_tears : ((timer2Machine.run fresh stopBehindZero).2 = [0xff] ∧
      (timer2Machine.run fresh stopBehindZero).1.irq = true ∧
      (counter2Ticking.run 0 (counter2Of 0 fresh) stopBehindZero).2 = [0] ∧
      (counter2Ticking.run 0 (counter2Of 0 fresh) stopBehindZero).1.irq = false) ∧
    (timer2Machine.run fresh shiftBehindZero).2 = [0xfe] ∧
      (counter2Ticking.run 0 (counter2Of 0 fresh) shiftBehindZero).2 = [5] := by
  decide

end Vice.L4.ViaTimer2
