import Vice.L4Machine.ViaTimer1

/-!
# Timer 1 of the VIA ticks

The timer that is computed from `t1reload` against the counter that ticks, over any sequence of
accesses and dispatched alarms.

Results:
* `timer1_ticks`: in a run whose accesses are all `Kept` every read agrees, and the flags and PB7.
* `timer1_tears`: the three kinds of accesses that are not `Kept`, a run for each.

Everything is a fact about the cycle of the next reload: where the counter stands before it
(`Position`) and when the alarm is due (`Schedule`).
-/
namespace Vice.L4.ViaTimer1
open Vice.L0.LazyClock

variable {t R : Nat} {v : Timer1} {r : Counter1} {g : Registers} {byte : UInt8}

/-! ## The next reload -/

/-- Where the counter stands in cycle `t` when it is next loaded in cycle `R`; a counter that is
being written is loaded twice, and `R` is the second time. -/
inductive Position (t R : Nat) (r : Counter1) : Prop
  | running (hahead : t + 2 ≤ R) (hnear : R < t + 2 + 2 ^ 16)
      (hcounter : r.counter = UInt16.ofNat (R - t - 2))
      (hunderflowed : r.underflowed = false) (hloading : r.loading = false)
  | underflow (hnext : R = t + 1) (hcounter : r.counter = 0xffff)
      (hunderflowed : r.underflowed = true) (hloading : r.loading = false)
  | load (hnext : R = t + 3 + r.latch) (hloading : r.loading = true) (harmed : r.armed = true)

/-- When the alarm for the underflow before `R` is due. -/
inductive Schedule (t R : Nat) (v : Timer1) (armed : Bool) : Prop
  | ahead (a : Nat) (halarm : v.t1ZeroAlarm = some a) (hreload : a + 2 = R) (hdue : t ≤ a)
      (hsame : v.t1reload = R) (harmed : armed = true)
  | reloaded (halarm : v.t1ZeroAlarm = some (R + v.tal)) (hnext : R = t + 1)
      (hlater : v.t1reload = R + v.tal + 2) (harmed : armed = true)
  | idle (halarm : v.t1ZeroAlarm = none) (hfree : v.freeRun = false)
      (hreload : v.t1reload = R ∨
        ∃ k, v.t1reload + k * (v.tal + 2) = R ∧ v.t1reload ≤ t ∧ R ≤ t + (v.tal + 2))
      (harmed : armed = false)

/-- The alarm is where `t1zero` says. -/
def ZeroAlarm (v : Timer1) : Prop := ∀ a, v.t1ZeroAlarm = some a → v.t1zero = a

/-- Agreement within the cycle `t`, the accesses of the cycle done or not. -/
structure Agrees (t R : Nat) (v : Timer1) (r : Counter1) : Prop where
  registers : v.toRegisters = r.toRegisters
  tal : v.tal = v.latch
  zero : ZeroAlarm v
  position : Position t R r
  schedule : Schedule t R v r.armed

/-- Agreement at the start of the cycle `t`. -/
structure Follows (t : Nat) (v : Timer1) (r : Counter1) : Prop where
  agrees : ∃ R, Agrees t R v r
  loaded : r.loading = false
  free : r.underflowed = true → r.armed = true → r.freeRun = true
  armed : r.freeRun = true → r.armed = true

theorem latch_lt (g : Registers) : g.latch < 2 ^ 16 := by
  have hlow := g.t1ll.toNat_lt
  have hhigh := g.t1lh.toNat_lt
  simp only [Registers.latch]
  omega

theorem ofNat_eq_zero {n : Nat} (hn : n < 2 ^ 16) : UInt16.ofNat n = 0 ↔ n = 0 := by
  refine ⟨fun h => ?_, fun h => by rw [h]; rfl⟩
  have h := congrArg UInt16.toNat h
  rw [UInt16.toNat_ofNat_of_lt' (by exact hn)] at h
  exact h

theorem ofNat_pred {n : Nat} (hn : 0 < n) : UInt16.ofNat n - 1 = UInt16.ofNat (n - 1) := by
  obtain ⟨m, rfl⟩ : ∃ m, n = m + 1 := ⟨n - 1, by omega⟩
  rw [UInt16.ofNat_add, Nat.add_sub_cancel]
  exact UInt16.add_sub_cancel _ _

/-! ## The alarm -/

theorem forward : timer1Machine.Forward ZeroAlarm where
  keep {v d} hv hdue := by
    have hzero := hv d hdue
    intro a ha
    simp only [timer1Machine, viacoreT1ZeroAlarm] at ha ⊢
    split at ha
    · rename_i hfree
      rw [if_pos hfree]
      exact Option.some.inj ha
    · cases ha
  later {v d d'} hv hdue hnext := by
    have hzero := hv d hdue
    simp only [timer1Machine, viacoreT1ZeroAlarm] at hnext
    split at hnext
    · have hnext := Option.some.inj hnext
      simp only [fullCycle2] at hnext
      omega
    · cases hnext

theorem Schedule.settled {armed : Bool} (h : Schedule t R v armed) : timer1Machine.Settled t v := by
  intro d hd
  cases h with
  | ahead a halarm hreload hdue hsame harmed =>
    rw [show v.t1ZeroAlarm = some d from hd] at halarm
    cases halarm
    exact hdue
  | reloaded halarm hnext hlater harmed =>
    rw [show v.t1ZeroAlarm = some d from hd] at halarm
    cases halarm
    omega
  | idle halarm hfree hreload harmed =>
    rw [show v.t1ZeroAlarm = some d from hd] at halarm
    cases halarm

/-- The alarm of the cycle, if it is due. -/
theorem Agrees.settle (h : Agrees t R v r) : timer1Machine.settle (t + 1) v =
      if v.t1ZeroAlarm = some t then viacoreT1ZeroAlarm v else v :=
  settle_succ forward h.zero h.schedule.settled

theorem Agrees.settle_same (h : Agrees t R v r) (hlater : v.t1ZeroAlarm ≠ some t) :
    timer1Machine.settle (t + 1) v = v := by
  rw [h.settle, if_neg hlater]

theorem alarm_free (hv : ZeroAlarm v) {a : Nat} (halarm : v.t1ZeroAlarm = some a) (hfree : v.freeRun = true) :
    viacoreT1ZeroAlarm v =
      { v with
        t1zero := a + (v.tal + 2)
        t1ZeroAlarm := some (a + (v.tal + 2))
        t1reload := v.t1reload + (v.tal + 2)
        t1Pb7 := v.t1Pb7 ^^^ 0x80
        ifr := v.ifr ||| imT1 } := by
  simp only [viacoreT1ZeroAlarm, if_pos hfree, hv a halarm, fullCycle2]

theorem alarm_once (hfree : v.freeRun = false) : viacoreT1ZeroAlarm v = { v with
        t1zero := 0
        t1ZeroAlarm := none
        t1Pb7 := v.t1Pb7 ^^^ 0x80
        ifr := v.ifr ||| imT1 } := by
  simp only [viacoreT1ZeroAlarm, hfree, Bool.false_eq_true, if_false]

/-! ## The end of a cycle -/

theorem tick_load (h : r.loading = true ∨ r.underflowed = true) :
    r.tick = { r with counter := UInt16.ofNat r.latch, loading := false, underflowed := false } := by
  simp only [Counter1.tick, Bool.or_eq_true, if_pos h]

theorem tick_zero (hloading : r.loading = false) (hunderflowed : r.underflowed = false)
    (hcounter : r.counter = 0) :
    r.tick = { r.timeOut with counter := 0xffff, underflowed := true } := by
  simp only [Counter1.tick, hloading, hunderflowed, hcounter, Bool.or_self, Bool.false_eq_true,
    if_false, if_true]

theorem tick_down (hloading : r.loading = false) (hunderflowed : r.underflowed = false)
    (hcounter : r.counter ≠ 0) : r.tick = { r with counter := r.counter - 1 } := by
  simp only [Counter1.tick, hloading, hunderflowed, Bool.or_self, Bool.false_eq_true, if_false, if_neg hcounter]

theorem timeOut_armed (harmed : r.armed = true) :
    r.timeOut = { r with ifr := r.ifr ||| imT1, t1Pb7 := r.t1Pb7 ^^^ 0x80, armed := r.freeRun } := by
  simp only [Counter1.timeOut, harmed, Bool.or_true, if_true, Bool.and_true]

theorem timeOut_idle (hfree : r.freeRun = false) (harmed : r.armed = false) : r.timeOut = r := by
  simp only [Counter1.timeOut, hfree, harmed, Bool.or_self, Bool.false_eq_true, if_false]

theorem Agrees.freeRun_eq (h : Agrees t R v r) : v.freeRun = r.freeRun := by
  rw [h.registers]

theorem Agrees.latch_eq (h : Agrees t R v r) : v.tal = r.latch := by
  rw [h.tal, h.registers]

/-- The counter reads 0: the interrupt flag is set and PB7 toggles when they may. -/
theorem Agrees.tick_timeOut (h : Agrees t (t + 2) v r) (hcounter : r.counter = 0)
    (hloading : r.loading = false) (hunderflowed : r.underflowed = false)
    (hfreeArmed : r.freeRun = true → r.armed = true) :
    Follows (t + 1) (timer1Machine.settle (t + 1) v) r.tick := by
  rw [tick_zero hloading hunderflowed hcounter]
  have hregisters := h.registers
  cases h.schedule with
  | ahead a halarm hreload hdue hsame harmed =>
    obtain rfl : a = t := by omega
    rw [h.settle, if_pos halarm, timeOut_armed harmed]
    cases hfree : v.freeRun with
    | true =>
      have hfree' : r.freeRun = true := h.freeRun_eq.symm.trans hfree
      rw [alarm_free h.zero halarm hfree]
      refine ⟨⟨a + 2, ?_, h.tal, ?_, .underflow rfl rfl rfl hloading,
        .reloaded ?_ rfl ?_ hfree'⟩, hloading, fun _ _ => hfree', fun _ => hfree'⟩
      · simp only [← hregisters]
      · intro d hd
        exact Option.some.inj hd
      · show some (a + (v.tal + 2)) = some (a + 2 + v.tal)
        rw [Nat.add_assoc, Nat.add_comm 2]
      · show v.t1reload + (v.tal + 2) = a + 2 + v.tal + 2
        omega
    | false =>
      have hfree' : r.freeRun = false := h.freeRun_eq.symm.trans hfree
      rw [alarm_once hfree]
      refine ⟨⟨a + 2, ?_, h.tal, ?_, .underflow rfl rfl rfl hloading,
        .idle rfl hfree (.inl hsame) hfree'⟩, hloading, fun _ ht => ?_, fun ht => ?_⟩
      · simp only [← hregisters]
      · intro d hd
        cases hd
      · exact absurd (hfree'.symm.trans ht) Bool.false_ne_true
      · exact absurd (hfree'.symm.trans ht) Bool.false_ne_true
  | reloaded halarm hnext hlater harmed => omega
  | idle halarm hfree hreload harmed =>
    have hfree' : r.freeRun = false := h.freeRun_eq.symm.trans hfree
    rw [h.settle_same (by rw [halarm]; exact (Option.some_ne_none t).symm), timeOut_idle hfree' harmed]
    refine ⟨⟨t + 2, hregisters, h.tal, h.zero, .underflow rfl rfl rfl hloading,
      .idle halarm hfree ?_ harmed⟩, hloading, fun _ ht => ?_, hfreeArmed⟩
    · obtain hsame | ⟨k, hk, hpast, hnear⟩ := hreload
      · exact .inl hsame
      · exact .inr ⟨k, hk, by omega, by omega⟩
    · exact absurd (harmed.symm.trans ht) Bool.false_ne_true

/-- The counter does not read 0 yet. -/
theorem Agrees.tick_down (h : Agrees t R v r) (hR : t + 3 ≤ R) (hnear : R < t + 2 + 2 ^ 16)
    (hcounter : r.counter = UInt16.ofNat (R - t - 2)) (hloading : r.loading = false)
    (hunderflowed : r.underflowed = false) (hfreeArmed : r.freeRun = true → r.armed = true) :
    Follows (t + 1) (timer1Machine.settle (t + 1) v) r.tick := by
  have hpos : r.counter ≠ 0 := by
    rw [hcounter]
    intro hzero
    rw [ofNat_eq_zero (by omega)] at hzero
    omega
  have hposition : Position (t + 1) R { r with counter := r.counter - 1 } := by
    refine .running (by omega) (by omega) ?_ hunderflowed hloading
    show r.counter - 1 = _
    rw [hcounter, ofNat_pred (by omega), show R - t - 2 - 1 = R - (t + 1) - 2 by omega]
  rw [ViaTimer1.tick_down hloading hunderflowed hpos]
  have hlater : v.t1ZeroAlarm ≠ some t := by
    intro hnow
    cases h.schedule with
    | ahead a halarm hreload hdue hsame harmed =>
      rw [hnow] at halarm
      cases halarm
      omega
    | reloaded halarm hnext hlater harmed => omega
    | idle halarm hfree hreload harmed =>
      rw [hnow] at halarm
      cases halarm
  rw [h.settle_same hlater]
  refine ⟨⟨R, h.registers, h.tal, h.zero, hposition, ?_⟩, hloading, fun hu => ?_, hfreeArmed⟩
  · cases h.schedule with
    | ahead a halarm hreload hdue hsame harmed =>
      exact .ahead a halarm hreload (by omega) hsame harmed
    | reloaded halarm hnext hlater harmed => omega
    | idle halarm hfree hreload harmed =>
      refine .idle halarm hfree ?_ harmed
      obtain hsame | ⟨k, hk, hpast, hwithin⟩ := hreload
      · exact .inl hsame
      · exact .inr ⟨k, hk, by omega, by omega⟩
  · exact absurd (hunderflowed.symm.trans hu) Bool.false_ne_true

/-- The counter is loaded from the latch. -/
theorem Agrees.tick_reload (h : Agrees t (t + 1) v r) (hunderflowed : r.underflowed = true)
    (hfreeArmed : r.freeRun = true → r.armed = true) :
    Follows (t + 1) (timer1Machine.settle (t + 1) v) r.tick := by
  rw [tick_load (.inr hunderflowed)]
  have hlatch := latch_lt r.toRegisters
  have htal := h.latch_eq
  have hposition : Position (t + 1) (t + 3 + v.tal)
      { r with counter := UInt16.ofNat r.latch, loading := false, underflowed := false } := by
    refine .running (by omega) (by omega) ?_ rfl rfl
    rw [show t + 3 + v.tal - (t + 1) - 2 = r.latch by omega]
  cases h.schedule with
  | ahead a halarm hreload hdue hsame harmed => omega
  | reloaded halarm hnext hlater harmed =>
    rw [h.settle_same (by rw [halarm]; simp only [ne_eq, Option.some.injEq]; omega)]
    refine ⟨⟨_, h.registers, h.tal, h.zero, hposition,
      .ahead _ halarm (by omega) (by omega) (by omega) harmed⟩, rfl, fun hu => ?_, hfreeArmed⟩
    cases hu
  | idle halarm hfree hreload harmed =>
    rw [h.settle_same (by rw [halarm]; exact (Option.some_ne_none t).symm)]
    refine ⟨⟨_, h.registers, h.tal, h.zero, hposition, .idle halarm hfree ?_ harmed⟩, rfl,
      fun hu => ?_, hfreeArmed⟩
    · obtain hsame | ⟨k, hk, hpast, hwithin⟩ := hreload
      · exact .inr ⟨1, by omega, by omega, by omega⟩
      · refine .inr ⟨k + 1, ?_, by omega, by omega⟩
        rw [Nat.add_mul]
        omega
    · cases hu

/-- The written counter starts. -/
theorem Agrees.tick_start (h : Agrees t (t + 3 + r.latch) v r) (hloading : r.loading = true)
    (harmed : r.armed = true) :
    Follows (t + 1) (timer1Machine.settle (t + 1) v) r.tick := by
  rw [tick_load (.inl hloading)]
  have hlatch := latch_lt r.toRegisters
  have hposition : Position (t + 1) (t + 3 + r.latch)
      { r with counter := UInt16.ofNat r.latch, loading := false, underflowed := false } := by
    refine .running (by omega) (by omega) ?_ rfl rfl
    rw [show t + 3 + r.latch - (t + 1) - 2 = r.latch by omega]
  cases h.schedule with
  | ahead a halarm hreload hdue hsame harmed =>
    rw [h.settle_same (by rw [halarm]; simp only [ne_eq, Option.some.injEq]; omega)]
    refine ⟨⟨_, h.registers, h.tal, h.zero, hposition,
      .ahead a halarm hreload (by omega) hsame harmed⟩, rfl, fun hu => ?_, fun _ => harmed⟩
    cases hu
  | reloaded halarm hnext hlater harmed => omega
  | idle halarm hfree hreload hidle =>
    exact absurd (hidle.symm.trans harmed) Bool.false_ne_true

theorem Agrees.tick (h : Agrees t R v r) (hfreeArmed : r.freeRun = true → r.armed = true) :
    Follows (t + 1) (timer1Machine.settle (t + 1) v) r.tick := by
  cases h.position with
  | running hahead hnear hcounter hunderflowed hloading =>
    obtain rfl | hR := Nat.eq_or_lt_of_le hahead
    · have hzero : t + 2 - t - 2 = 0 := by omega
      rw [hzero] at hcounter
      exact h.tick_timeOut hcounter hloading hunderflowed hfreeArmed
    · exact h.tick_down hR hnear hcounter hloading hunderflowed hfreeArmed
  | underflow hnext hcounter hunderflowed hloading =>
    subst hnext
    exact h.tick_reload hunderflowed hfreeArmed
  | load hnext hloading harmed =>
    subst hnext
    exact h.tick_start hloading harmed

/-! ## The value -/

theorem ofNat_wrap (n : Nat) : UInt16.ofNat (n + 2 ^ 16) = UInt16.ofNat n := by
  refine UInt16.toNat_inj.1 ?_
  simp only [UInt16.toNat_ofNat', Nat.add_mod_right]

theorem Position.counter_eq (h : Position t R r) (hloading : r.loading = false) :
    r.counter = UInt16.ofNat (R - t + (2 ^ 16 - 2)) := by
  cases h with
  | running hahead hnear hcounter hunderflowed _ =>
    rw [hcounter, show R - t + (2 ^ 16 - 2) = R - t - 2 + 2 ^ 16 by omega, ofNat_wrap]
  | underflow hnext hcounter hunderflowed _ =>
    rw [hcounter, show R - t + (2 ^ 16 - 2) = 2 ^ 16 - 1 by omega]
    rfl
  | load hnext hload harmed => exact absurd (hloading.symm.trans hload) Bool.false_ne_true

theorem Position.next (h : Position t R r) : t < R := by
  cases h with
  | running hahead hnear hcounter hunderflowed hloading => omega
  | underflow hnext hcounter hunderflowed hloading => omega
  | load hnext hloading harmed => omega

theorem Position.underflowed (h : Position t (t + 1) r) : r.underflowed = true := by
  cases h with
  | running hahead hnear hcounter hunderflowed hloading => omega
  | underflow hnext hcounter hunderflowed hloading => exact hunderflowed
  | load hnext hloading harmed => omega

theorem viacoreT1_reload (h : t < v.t1reload) :
    viacoreT1 v t = UInt16.ofNat (v.t1reload - t + (2 ^ 16 - 2)) := by
  simp only [viacoreT1, fullCycle2, if_pos h]

/-- Some periods before the next reload. -/
theorem periods {k p reload : Nat} (hk : reload + k * p = R) (hpast : reload ≤ t) (hnear : R ≤ t + p)
    (hnext : t < R) : (t - reload) % p = p - (R - t) ∧ 1 + (t - reload) / p = k := by
  obtain ⟨j, rfl⟩ : ∃ j, k = j + 1 := by
    refine ⟨k - 1, ?_⟩
    have hpos : k ≠ 0 := by
      rintro rfl
      omega
    omega
  rw [Nat.add_mul, Nat.one_mul] at hk
  have hsplit : t - reload = (p - (R - t)) + j * p := by omega
  have hsmall : p - (R - t) < p := by omega
  have hp : 0 < p := by omega
  rw [hsplit, Nat.add_mul_mod_self_right, Nat.add_mul_div_right _ _ hp, Nat.mod_eq_of_lt hsmall,
    Nat.div_eq_of_lt hsmall]
  omega

/-- The value is the counter's, but for the cycle in which the alarm has moved the reload on. -/
theorem Agrees.value (h : Agrees t R v r) (hloading : r.loading = false) : viacoreT1 v t = r.counter ∨
      r.underflowed = true ∧ r.armed = true ∧ viacoreT1 v t = UInt16.ofNat (r.latch + 1) := by
  have hcounter := h.position.counter_eq hloading
  have hnext := h.position.next
  cases h.schedule with
  | ahead a halarm hreload hdue hsame harmed =>
    rw [viacoreT1_reload (by omega), hcounter, hsame]
    exact .inl rfl
  | reloaded halarm hR hlater harmed =>
    subst hR
    rw [viacoreT1_reload (by omega), hlater,
      show t + 1 + v.tal + 2 - t + (2 ^ 16 - 2) = v.tal + 1 + 2 ^ 16 by omega, ofNat_wrap,
      h.latch_eq]
    exact .inr ⟨h.position.underflowed, harmed, rfl⟩
  | idle halarm hfree hreload harmed =>
    refine .inl ?_
    obtain hsame | ⟨k, hk, hpast, hnear⟩ := hreload
    · rw [viacoreT1_reload (by omega), hcounter, hsame]
    · obtain ⟨hmod, -⟩ := periods hk hpast hnear hnext
      simp only [viacoreT1, fullCycle2, if_neg (Nat.not_lt.2 hpast), hmod, hcounter]
      congr 1
      omega

/-! ## Accesses -/

/-- An access that the timer answers like the counter. In the cycle of $FFFF the alarm has moved the
reload on in free-run mode; and nothing starts the alarm again when free-run mode is switched on
after the interrupt of the last write has come. -/
def Kept (r : Counter1) : Access → Prop
  | .readT1cl =>
    r.freeRun = true → r.underflowed = true → lowByte (UInt16.ofNat (r.latch + 1)) = 0xff
  | .readT1ch =>
    r.freeRun = true → r.underflowed = true → highByte (UInt16.ofNat (r.latch + 1)) = 0xff
  | .writeT1l byte => r.freeRun = true → r.underflowed = true → byte = r.t1ll
  | .writeT1lh byte => r.freeRun = true → r.underflowed = true → byte = r.t1lh
  | .writeAcr byte => byte &&& 0x40 ≠ 0 → r.freeRun = true ∨ r.armed = true
  | _ => True

/-- The same is read, and the end of the cycle is still to come. -/
structure Answers (t : Nat) (x : Timer1 × Option UInt8) (y : Counter1 × Option UInt8) : Prop where
  read : x.2 = y.2
  agrees : ∃ R, Agrees t R x.1 y.1
  armed : y.1.freeRun = true → y.1.armed = true

theorem Position.change (h : Position t R r) (hloading : r.loading = false) (g : Registers) :
    Position t R { r with toRegisters := g } := by
  cases h with
  | running hahead hnear hcounter hunderflowed _ =>
    exact .running hahead hnear hcounter hunderflowed hloading
  | underflow hnext hcounter hunderflowed _ => exact .underflow hnext hcounter hunderflowed hloading
  | load hnext hload harmed => exact absurd (hloading.symm.trans hload) Bool.false_ne_true

/-- Flags and modes change, the latch does not. -/
theorem Follows.change (h : Follows t v r) (hlatch : g.latch = r.latch)
    (hfree : g.freeRun = true → r.freeRun = true ∨ r.armed = true) :
    (∃ R, Agrees t R { v with toRegisters := g } { r with toRegisters := g }) ∧
      (g.freeRun = true → r.armed = true) := by
  obtain ⟨R, hagrees⟩ := h.agrees
  have harmed : g.freeRun = true → r.armed = true := fun hg => (hfree hg).elim h.armed id
  refine ⟨⟨R, rfl, hagrees.latch_eq.trans hlatch.symm, hagrees.zero,
    hagrees.position.change h.loaded g, ?_⟩, harmed⟩
  cases hagrees.schedule with
  | ahead a halarm hreload hdue hsame hyes => exact .ahead a halarm hreload hdue hsame hyes
  | reloaded halarm hnext hlater hyes => exact .reloaded halarm hnext hlater hyes
  | idle halarm hoff hreload hno =>
    refine .idle halarm ?_ hreload hno
    exact Bool.eq_false_iff.2 fun hg => absurd (hno.symm.trans (harmed hg)) Bool.false_ne_true

/-- The reload of the counter does not depend on the latch any more. -/
theorem updateViaT1Latch_reload (hreload : v.t1reload = R ∨
    ∃ k, v.t1reload + k * (v.tal + 2) = R ∧ v.t1reload ≤ t ∧ R ≤ t + (v.tal + 2)) (hnext : t < R) :
    updateViaT1Latch { v with toRegisters := g } t =
      { v with toRegisters := g, t1reload := R, tal := g.latch } := by
  obtain hsame | ⟨k, hk, hpast, hnear⟩ := hreload
  · simp only [updateViaT1Latch, hsame, if_neg (Nat.not_le.2 hnext)]
  · obtain ⟨-, hdiv⟩ := periods hk hpast hnear hnext
    simp only [updateViaT1Latch, fullCycle2, if_pos hpast, hdiv, hk]

theorem updateViaT1Latch_ahead (h : t < v.t1reload) : updateViaT1Latch { v with toRegisters := g } t =
      { v with toRegisters := g, tal := g.latch } := by
  simp only [updateViaT1Latch, if_neg (Nat.not_le.2 h)]

/-- The latch is written: it matters from the next reload on. -/
theorem Follows.latch (h : Follows t v r) (hacr : g.freeRun = r.freeRun)
    (hkept : r.freeRun = true → r.underflowed = true → g.latch = r.latch) :
    ∃ R, Agrees t R (updateViaT1Latch { v with toRegisters := g } t) { r with toRegisters := g } := by
  obtain ⟨R, hagrees⟩ := h.agrees
  have hnext := hagrees.position.next
  refine ⟨R, ?_⟩
  have hposition := hagrees.position.change h.loaded g
  cases hagrees.schedule with
  | ahead a halarm hreload hdue hsame hyes =>
    rw [updateViaT1Latch_ahead (by omega)]
    exact ⟨rfl, rfl, hagrees.zero, hposition, .ahead a halarm hreload hdue hsame hyes⟩
  | reloaded halarm hR hlater hyes =>
    subst hR
    have hunderflowed := hagrees.position.underflowed
    have hsame : g.latch = v.tal :=
      (hkept (h.free hunderflowed hyes) hunderflowed).trans hagrees.latch_eq.symm
    rw [updateViaT1Latch_ahead (by omega), hsame]
    exact ⟨rfl, hsame.symm, hagrees.zero, hposition, .reloaded halarm rfl hlater hyes⟩
  | idle halarm hoff hreload hno =>
    rw [updateViaT1Latch_reload hreload hnext]
    refine ⟨rfl, rfl, hagrees.zero, hposition, .idle halarm ?_ (.inl rfl) hno⟩
    exact hacr.trans (hagrees.freeRun_eq.symm.trans hoff)

/-- A read or a write of flags or modes. -/
theorem Follows.answers (h : Follows t v r) {b b' : Option UInt8} (hread : b = b')
    (hlatch : g.latch = r.latch) (hfree : g.freeRun = true → r.freeRun = true ∨ r.armed = true) :
    Answers t ({ v with toRegisters := g }, b) ({ r with toRegisters := g }, b') :=
  ⟨hread, (h.change hlatch hfree).1, (h.change hlatch hfree).2⟩

theorem Follows.registers_eq (h : Follows t v r) : v.toRegisters = r.toRegisters := by
  obtain ⟨R, hagrees⟩ := h.agrees
  exact hagrees.registers

theorem Follows.reads (h : Follows t v r) {b b' : Option UInt8} (hread : b = b') : Answers t (v, b) (r, b') :=
  ⟨hread, h.agrees, h.armed⟩

theorem Follows.start (h : Follows t v r) (byte : UInt8) :
    Answers t (timer1Access t (.writeT1ch byte) v) (counter1Access (.writeT1ch byte) r) := by
  have hregisters := h.registers_eq
  refine ⟨rfl, ⟨t + 3 + { r.toRegisters with t1lh := byte }.latch, ?_, ?_, ?_, .load rfl rfl rfl,
    .ahead _ rfl ?_ (by omega) ?_ rfl⟩, fun _ => rfl⟩
  · simp only [timer1Access, counter1Access, updateViaT1Latch, hregisters]
  · rfl
  · intro a ha
    exact Option.some.inj ha
  · simp only [updateViaT1Latch, Registers.latch, hregisters]
    omega
  · simp only [timer1Access, updateViaT1Latch, Registers.latch, fullCycle2, hregisters]
    omega

theorem readPrb_latch (g : Registers) : g.readPrb.latch = g.latch := by
  simp only [Registers.readPrb]
  split
  · rfl
  · rfl

theorem readPrb_acr (g : Registers) : g.readPrb.acr = g.acr := by
  simp only [Registers.readPrb]
  split
  · rfl
  · rfl

theorem Follows.value (h : Follows t v r) {f : UInt16 → UInt8} (hff : f 0xffff = 0xff)
    (hkept : r.freeRun = true → r.underflowed = true → f (UInt16.ofNat (r.latch + 1)) = 0xff) :
    f (viacoreT1 v t) = f r.counter := by
  obtain ⟨R, hagrees⟩ := h.agrees
  obtain hsame | ⟨hunderflowed, harmed, hvalue⟩ := hagrees.value h.loaded
  · rw [hsame]
  · rw [hvalue, hkept (h.free hunderflowed harmed) hunderflowed]
    cases hagrees.position with
    | running hahead hnear hcounter hno hloading =>
      exact absurd (hno.symm.trans hunderflowed) Bool.false_ne_true
    | underflow hnext hcounter _ hloading => rw [hcounter, hff]
    | load hnext hloading _ => exact absurd (h.loaded.symm.trans hloading) Bool.false_ne_true

theorem Follows.access (h : Follows t v r) {a : Access} (hkept : Kept r a) :
    Answers t (timer1Access t a v) (counter1Access a r) := by
  have hregisters := h.registers_eq
  cases a with
  | readPrb port =>
    simp only [timer1Access, counter1Access, hregisters]
    refine h.answers rfl (readPrb_latch r.toRegisters) fun hfree => .inl ?_
    rwa [Registers.freeRun, readPrb_acr] at hfree
  | readT1cl =>
    simp only [timer1Access, counter1Access, hregisters]
    exact h.answers (congrArg some (h.value rfl hkept)) rfl .inl
  | readT1ch => exact h.reads (congrArg some (h.value rfl hkept))
  | readT1ll => exact h.reads (congrArg (some ·.t1ll) hregisters)
  | readT1lh => exact h.reads (congrArg (some ·.t1lh) hregisters)
  | readIfr => exact h.reads (congrArg (some ·.flags) hregisters)
  | writeT1l byte =>
    simp only [timer1Access, counter1Access, hregisters]
    refine ⟨rfl, h.latch rfl fun hfree hunderflowed => ?_, h.armed⟩
    rw [hkept hfree hunderflowed]
  | writeT1ch byte => exact h.start byte
  | writeT1lh byte =>
    refine ⟨rfl, ?_, h.armed⟩
    -- clearing the flag leaves the latch alone
    have hclear : (timer1Access t (.writeT1lh byte) v).1 =
        updateViaT1Latch
          { v with toRegisters := { r.toRegisters with t1lh := byte }.clearFlag imT1 } t := by
      simp only [timer1Access, hregisters]
      rfl
    rw [hclear]
    refine h.latch rfl fun hfree hunderflowed => ?_
    rw [hkept hfree hunderflowed]
    rfl
  | writeAcr byte =>
    simp only [timer1Access, counter1Access, hregisters]
    refine h.answers rfl rfl fun hfree => hkept ?_
    simpa only [Registers.freeRun, Registers.writeAcr, bne_iff_ne] using hfree
  | writeIfr byte =>
    simp only [timer1Access, counter1Access, hregisters]
    exact h.answers rfl rfl .inl

/-! ## Runs -/

theorem Follows.tick (h : Follows t v r) : Follows (t + 1) (timer1Machine.settle (t + 1) v) r.tick := by
  obtain ⟨R, hagrees⟩ := h.agrees
  exact hagrees.tick h.armed

theorem Answers.tick {x : Timer1 × Option UInt8} {y : Counter1 × Option UInt8}
    (h : Answers t x y) : Follows (t + 1) (timer1Machine.settle (t + 1) x.1) y.1.tick := by
  obtain ⟨R, hagrees⟩ := h.agrees
  exact hagrees.tick h.armed

theorem sim : Sim timer1Machine counter1Ticking ZeroAlarm (fun _ => Kept) Follows where
  forward := forward
  tick h := h.tick
  keep h hkept := by
    obtain ⟨R, hagrees⟩ := (h.access hkept).agrees
    exact hagrees.zero
  access h hkept := ⟨(h.access hkept).read, (h.access hkept).tick⟩

/-- A timer without an alarm in one-shot mode, such as a timer after a reset. -/
structure Idle (clk : Nat) (v : Timer1) : Prop where
  alarm : v.t1ZeroAlarm = none
  oneShot : v.freeRun = false
  past : v.t1reload ≤ clk
  tal : v.tal = v.latch

/-- The counter of an idle timer. -/
def counter1Of (clk : Nat) (v : Timer1) : Counter1 where
  toRegisters := v.toRegisters
  counter := viacoreT1 v clk
  underflowed := (clk - v.t1reload) % (v.tal + fullCycle2) = v.tal + 1
  loading := false
  armed := false

theorem Idle.follows (h : Idle t v) : Follows t v (counter1Of t v) := by
  have hsmall := latch_lt v.toRegisters
  have htal := h.tal
  have hpast := h.past
  obtain ⟨m, hm⟩ : ∃ m, (t - v.t1reload) % (v.tal + 2) = m := ⟨_, rfl⟩
  have hlt : m < v.tal + 2 := hm ▸ Nat.mod_lt _ (Nat.succ_pos _)
  have hsplit := Nat.div_add_mod (t - v.t1reload) (v.tal + 2)
  rw [hm, Nat.mul_comm] at hsplit
  have hcounter : (counter1Of t v).counter = UInt16.ofNat (v.tal + 2 ^ 16 - m) := by
    simp only [counter1Of, viacoreT1, fullCycle2, if_neg (Nat.not_lt.2 hpast), hm]
  refine ⟨⟨t + (v.tal + 2 - m), rfl, htal, fun a ha => ?_, ?_,
    .idle h.alarm h.oneShot (.inr ⟨(t - v.t1reload) / (v.tal + 2) + 1, ?_, hpast, by omega⟩) rfl⟩,
    rfl, fun _ hno => absurd hno Bool.false_ne_true, fun hfree => ?_⟩
  · rw [h.alarm] at ha
    cases ha
  · by_cases hend : m = v.tal + 1
    · refine .underflow (by omega) ?_ ?_ rfl
      · rw [hcounter, show v.tal + 2 ^ 16 - m = 2 ^ 16 - 1 by omega]
        rfl
      · simp only [counter1Of, fullCycle2, hm, hend, decide_true]
    · refine .running (by omega) (by omega) ?_ ?_ rfl
      · rw [hcounter, show v.tal + 2 ^ 16 - m = t + (v.tal + 2 - m) - t - 2 + 2 ^ 16 by omega,
          ofNat_wrap]
      · simp only [counter1Of, fullCycle2, hm, hend, decide_false]
  · rw [Nat.add_mul, Nat.one_mul]
    omega
  · exact absurd (h.oneShot.symm.trans hfree) Bool.false_ne_true

/-- From an idle timer, in a run whose accesses are all `Kept`, every access reads what it reads
from the counter, and the registers, with the interrupt flag and PB7, end up the same. -/
theorem timer1_ticks (clk : Nat) (v : Timer1) (es : List (Event Access)) (hidle : Idle clk v)
    (hordered : Ordered clk es)
    (hkept : RunOk timer1Machine counter1Ticking (fun _ => Kept) clk v (counter1Of clk v) es) :
    (timer1Machine.run v es).2 = (counter1Ticking.run clk (counter1Of clk v) es).2 ∧
      (timer1Machine.settle (nextClk clk es) (timer1Machine.run v es).1).toRegisters =
        (counter1Ticking.run clk (counter1Of clk v) es).1.toRegisters := by
  have hzero : ZeroAlarm v := fun a ha => absurd (hidle.alarm.symm.trans ha) (by nofun)
  have hfollows := hidle.follows
  obtain ⟨R, hagrees⟩ := hfollows.agrees
  have hsettled : timer1Machine.settle clk v = v := loop_settled hagrees.schedule.settled
  obtain ⟨hreads, hend⟩ := sim.run_agrees hzero (by rwa [hsettled]) hordered hkept
  exact ⟨hreads, hend.registers_eq⟩

/-- A timer that was reset in cycle 0. -/
def fresh : Timer1 where
  acr := 0
  pcr := 0
  ifr := 0
  ier := 0
  t1ll := 0xff
  t1lh := 0xff
  t1Pb7 := 0x80
  tal := 0xffff
  t1reload := 0
  t1zero := 0
  t1ZeroAlarm := none

/-- The latch is set to 3 and the counter is started; it stands at $FFFF in cycle 7. -/
def startAt3 : List (Event Access) :=
  [.access 1 (.writeT1l 3), .access 2 (.writeT1ch 0), .access 3 (.writeAcr 0x40)]

def readReloaded : List (Event Access) := startAt3 ++ [.access 8 .readT1cl]

theorem timer1_ticks_freeRun : (timer1Machine.run fresh readReloaded).2 =
        (counter1Ticking.run 0 (counter1Of 0 fresh) readReloaded).2 ∧
      (timer1Machine.settle (nextClk 0 readReloaded)
        (timer1Machine.run fresh readReloaded).1).toRegisters =
        (counter1Ticking.run 0 (counter1Of 0 fresh) readReloaded).1.toRegisters := by
  refine timer1_ticks 0 fresh readReloaded ⟨rfl, by decide, by decide, by decide⟩ ?_ ?_
  · exact ⟨by decide, by decide, by decide, by decide, trivial⟩
  · refine ⟨?_, ?_, ?_, ?_, trivial⟩
    · intro hfree
      exact absurd hfree (by decide)
    · trivial
    · exact fun _ => .inr rfl
    · intro _ hunderflowed
      exact absurd hunderflowed (by decide)

/-- A read in the cycle of $FFFF reads the latch plus 1; a latch written in that cycle is not the
one that is loaded; and free-run mode that is switched on behind the interrupt never interrupts. -/
theorem timer1_tears : ((timer1Machine.run fresh (startAt3 ++ [.access 7 .readT1cl])).2 = [4] ∧
      (counter1Ticking.run 0 (counter1Of 0 fresh) (startAt3 ++ [.access 7 .readT1cl])).2 = [0xff]) ∧
    ((timer1Machine.run fresh (startAt3 ++ [.access 7 (.writeT1l 9), .access 8 .readT1cl])).2 =
        [3] ∧
      (counter1Ticking.run 0 (counter1Of 0 fresh)
        (startAt3 ++ [.access 7 (.writeT1l 9), .access 8 .readT1cl])).2 = [9]) ∧
    ((timer1Machine.run fresh [.access 1 (.writeT1l 3), .access 2 (.writeT1ch 0),
        .access 9 (.writeIfr 0x40), .access 10 (.writeAcr 0x40), .access 13 .readIfr]).2 = [0] ∧
      (counter1Ticking.run 0 (counter1Of 0 fresh) [.access 1 (.writeT1l 3), .access 2 (.writeT1ch 0),
        .access 9 (.writeIfr 0x40), .access 10 (.writeAcr 0x40), .access 13 .readIfr]).2 =
        [0x40]) := by
  decide

end Vice.L4.ViaTimer1
