import Vice.L4Machine.CiaTimer

/-!
# The shortcuts of `ciat_update`

Each shortcut against the cycles it jumps over, and a whole update against the timer run cycle
by cycle.

Results:
* `steps_underflow`, `steps_period`: the next underflow, and the ones after it.
* `ciatRound_spec`: one round is some cycles.
* `update_exact`: an update is the cycles up to its clock.
* `update_differs`: an underflow counted twice, and a bit left over.
-/
namespace Vice.L4.CiaWarp
open Vice.L0.CountedSteps Vice.L4.CiaTimer

section
variable {s : Ciat} {t : TState} {cclk k : Nat}

/-! ## Counting -/

theorem ciatTable_counting (h : warpCounting t = true) (ho : t.out = false) :
    ciatTable t = { t with step := false } := by
  cases t
  grind [warpCounting, steadyOneshot, ciatTable]

theorem settle_counting (h : warpCounting s.state = true) :
    settle s = { s with state := { s.state with step := false } } := by
  grind [warpCounting, settle]

/-- A counting timer at an earlier or later time. -/
def counted (s : Ciat) (k : Nat) : Ciat :=
  { settle s with cnt := s.cnt - k, clk := s.clk + k }

theorem cycle_counting (h : warpCounting s.state = true) (ho : s.state.out = false)
    (hcnt : s.cnt ≠ 0) : cycle s = tail (counted s 1) := by
  have hc3 : s.state.count3 = true := by grind [warpCounting]
  rw [cycle, inc, counted, settle_counting h, ciatTable_counting h ho]
  simp only [hcnt, hc3, ne_eq, not_false_eq_true, and_self, ↓reduceIte]

/-- Nothing happens at the end of a cycle in which the counter stays above zero. -/
theorem tail_counted (h : warpCounting s.state = true) (ho : s.state.out = false)
    (hk : k < s.cnt) : tail (counted s k) = (counted s k, 0) := by
  have hload : s.state.load = false := by grind [warpCounting]
  have hcnt : s.cnt - k ≠ 0 := by omega
  simp [tail, counted, settle, underflows, underflow, reload, stopOneshot, hcnt, hload, ho]

theorem settle_counted (k : Nat) : settle (counted s k) = counted s k := by
  have hsettled := congrArg Ciat.state (settle_settle s)
  simp only [settle] at hsettled
  simp only [counted, settle, hsettled]

theorem counted_counted (j k : Nat) : counted (counted s j) k = counted s (j + k) := by
  rw [counted, settle_counted]
  simp only [counted, Nat.sub_sub, Nat.add_assoc]

theorem steps_counting (h : warpCounting s.state = true) (ho : s.state.out = false) (hk : k < s.cnt) :
    settle (steps cycle k s).1 = counted s k ∧ (steps cycle k s).2 = 0 := by
  induction k generalizing s with
  | zero => exact ⟨rfl, rfl⟩
  | succ k ih =>
    have hstep : cycle s = (counted s 1, 0) := by
      rw [cycle_counting h ho (by omega), tail_counted h ho (by omega)]
    obtain ⟨hs, hn⟩ := @ih (counted s 1) h ho (show k < s.cnt - 1 by omega)
    rw [steps_succ, hstep]
    refine ⟨hs.trans ?_, by rw [hn]⟩
    rw [counted_counted, Nat.add_comm]

/-- The counter reaches zero after as many cycles as it says. -/
theorem steps_underflow (h : warpCounting s.state = true) (ho : s.state.out = false)
    (hcnt : s.cnt ≠ 0) : steps cycle s.cnt s = tail (counted s s.cnt) := by
  obtain ⟨k, hk⟩ := Nat.exists_eq_succ_of_ne_zero hcnt
  obtain ⟨hs, hn⟩ := @steps_counting s k h ho (by omega)
  have hlast : cycle (steps cycle k s).1 = tail (counted s s.cnt) := by
    rw [← cycle_settle, hs]
    have hone := @cycle_counting (counted s k) h ho (show s.cnt - k ≠ 0 by omega)
    rw [hone, counted_counted, hk]
  rw [hk, Nat.succ_eq_add_one, steps_add, steps_one, hlast, hn, Nat.zero_add, ← Nat.succ_eq_add_one, ← hk]

/-! ## From one underflow to the next -/

/-- A timer that counts on by itself, at an underflow. -/
def ticked (latch alarmclk clk : Nat) : Ciat :=
  { state := latchOneState, latch, cnt := latch, alarmclk, clk }

/-- Two cycles later, before it is seen whether the counter is zero again. -/
def ticking (latch alarmclk clk : Nat) : Ciat :=
  { state := { latchOneState with count3 := true, load := false, out := false }
    latch, cnt := latch - 1, alarmclk, clk := clk + 2 }

theorem tail_ticked (latch alarmclk clk : Nat) (st : Bool) :
    tail { state := { latchOneState with count3 := true, load := false, out := false, step := st }
           latch, cnt := 0, alarmclk, clk } =
      ({ ticked latch alarmclk clk with state := { latchOneState with step := st } }, 1) := rfl

theorem steps_ticking {latch : Nat} (hl : latch ≠ 0) (alarmclk clk : Nat) :
    steps cycle 2 (ticked latch alarmclk clk) = tail (ticking latch alarmclk clk) := by
  obtain ⟨l, rfl⟩ := Nat.exists_eq_succ_of_ne_zero hl
  rw [steps_succ, steps_one]
  exact Prod.ext rfl (Nat.zero_add _)

/-- The timer underflows again one cycle later than its latch says. -/
theorem steps_period {latch : Nat} (hl : latch ≠ 0) (alarmclk clk : Nat) :
    steps cycle (latch + 1) (ticked latch alarmclk clk) =
      (ticked latch alarmclk (clk + (latch + 1)), 1) := by
  have htwo := steps_ticking hl alarmclk clk
  rcases Nat.eq_or_lt_of_le (Nat.one_le_iff_ne_zero.mpr hl) with rfl | hgt
  · exact htwo
  · have hcounting : warpCounting (ticking latch alarmclk clk).state = true := rfl
    have hnone : tail (ticking latch alarmclk clk) = (ticking latch alarmclk clk, 0) :=
      @tail_counted (ticking latch alarmclk clk) 0 hcounting rfl (show 0 < latch - 1 by omega)
    have hrest := @steps_underflow (ticking latch alarmclk clk) hcounting rfl
      (show latch - 1 ≠ 0 by omega)
    rw [show latch + 1 = 2 + (ticking latch alarmclk clk).cnt from
      (show latch + 1 = 2 + (latch - 1) by omega), steps_add, htwo, hnone, hrest, Nat.zero_add]
    simp only [counted, ticking, settle, Nat.sub_self]
    rw [Nat.add_assoc]
    rfl

theorem steps_periods {latch : Nat} (hl : latch ≠ 0) (alarmclk clk m : Nat) :
    steps cycle (m * (latch + 1)) (ticked latch alarmclk clk) =
      (ticked latch alarmclk (clk + m * (latch + 1)), m) := by
  have hloop := steps_loop (fun i => ticked latch alarmclk (clk + i))
    (fun i => (steps_period hl alarmclk (clk + i)).trans (by rw [Nat.add_assoc])) m 0
  simpa only [Nat.add_zero, Nat.zero_add] using hloop

/-! ## Standing still -/

theorem ciatTable_stopped (h : warpStopped t = true) (ho : t.out = false) :
    ciatTable t = { t with step := false } := by
  cases t
  grind [warpStopped, alarmStopped, steadyOneshot, ciatTable]

theorem settle_stopped (h : warpStopped s.state = true) :
    settle s = { s with state := { s.state with step := false } } := by
  grind [warpStopped, alarmStopped, settle]

theorem cycle_stopped (h : warpStopped s.state = true) (ho : s.state.out = false) :
    cycle s = ({ settle s with clk := s.clk + 1 }, 0) := by
  have hc3 : s.state.count3 = false := by grind [warpStopped, alarmStopped]
  have hload : s.state.load = false := by grind [warpStopped, alarmStopped]
  rw [cycle, inc, settle_stopped h, ciatTable_stopped h ho]
  simp [tail, underflows, underflow, reload, stopOneshot, hc3, hload, ho]

theorem steps_stopped (h : warpStopped s.state = true) (ho : s.state.out = false) (k : Nat) :
    settle (steps cycle k s).1 = { settle s with clk := s.clk + k } ∧ (steps cycle k s).2 = 0 := by
  induction k generalizing s with
  | zero => exact ⟨rfl, rfl⟩
  | succ k ih =>
    have hnext : warpStopped (settle s).state = true := by
      rw [settle_stopped h]
      grind [warpStopped, alarmStopped, steadyOneshot]
    obtain ⟨hs, hn⟩ := @ih { settle s with clk := s.clk + 1 } hnext ho
    rw [steps_succ, cycle_stopped h ho]
    refine ⟨hs.trans ?_, by rw [hn]⟩
    have hsettled := congrArg Ciat.state (settle_settle s)
    simp only [settle] at hsettled
    simp only [settle, hsettled, Nat.add_assoc, Nat.add_comm 1 k]

/-! ## One round -/

/-- The states in which a shortcut to `cclk` is not the cycles it jumps over: counting from zero;
with the next underflow past `CLOCK_MAX`; with latch 0, if the underflow is passed and the rest of
the distance is not a multiple of 65536; and at a pulse of a timer with latch 1, 2^31 cycles or
more ahead. -/
inductive Spoils (s : Ciat) (cclk : Nat) : Prop
  | fromZero : warpCounting s.state = true → s.cnt = 0 → Spoils s cclk
  | pastMax : warpCounting s.state = true → clockMax < s.clk + s.cnt → Spoils s cclk
  | latchZero : warpCounting s.state = true → s.state.crOneshot = false → s.latch = 0 →
      s.clk + s.cnt ≤ cclk → (cclk - (s.clk + s.cnt)) % 2 ^ 16 ≠ 0 → Spoils s cclk
  | farAhead : s.state = latchOneState → s.cnt = 1 → s.latch = 1 → 2 ^ 31 ≤ cclk - s.clk →
      Spoils s cclk

theorem spoils_iff : Spoils s cclk ↔ (warpCounting s.state = true ∧ (s.cnt = 0 ∨ clockMax < s.clk + s.cnt ∨
      (s.state.crOneshot = false ∧ s.latch = 0 ∧ s.clk + s.cnt ≤ cclk ∧
        (cclk - (s.clk + s.cnt)) % 2 ^ 16 ≠ 0))) ∨
    (s.state = latchOneState ∧ s.cnt = 1 ∧ s.latch = 1 ∧ 2 ^ 31 ≤ cclk - s.clk) := by
  constructor
  · rintro (⟨hw, hz⟩ | ⟨hw, hm⟩ | ⟨hw, ho, hl, hle, hr⟩ | ⟨hs, hc, hl, hd⟩)
    · exact .inl ⟨hw, .inl hz⟩
    · exact .inl ⟨hw, .inr (.inl hm)⟩
    · exact .inl ⟨hw, .inr (.inr ⟨ho, hl, hle, hr⟩)⟩
    · exact .inr ⟨hs, hc, hl, hd⟩
  · rintro (⟨hw, hz | hm | ⟨ho, hl, hle, hr⟩⟩ | ⟨hs, hc, hl, hd⟩)
    · exact .fromZero hw hz
    · exact .pastMax hw hm
    · exact .latchZero hw ho hl hle hr
    · exact .farAhead hs hc hl hd

instance (s : Ciat) (cclk : Nat) : Decidable (Spoils s cclk) := decidable_of_iff _ spoils_iff.symm

theorem Spoils.settle (h : Spoils s cclk) : Spoils (settle s) cclk := by
  cases h with
  | fromZero hw hz => exact .fromZero hw hz
  | pastMax hw hm => exact .pastMax hw hm
  | latchZero hw ho hl hle hr => exact .latchZero hw ho hl hle hr
  | farAhead hs hc hl hd =>
    refine .farAhead ?_ hc hl hd
    rw [CiaTimer.settle, hs]
    rfl

/-- What a round has to be. -/
def IsCycles (s : Ciat) (cclk : Nat) (r : Ciat × Nat) : Prop :=
  ∃ k, 0 < k ∧ s.clk + k ≤ cclk ∧ r.1.clk = s.clk + k ∧
    settle r.1 = settle (steps cycle k s).1 ∧ r.2 = (steps cycle k s).2

theorem tail_clk (s : Ciat) : (tail s).1.clk = s.clk := by
  unfold tail stopOneshot reload underflow
  dsimp only
  split <;> split <;> split <;> rfl

/-- With another `STEP` bit. -/
def restep (s : Ciat) (b : Bool) : Ciat := { s with state := { s.state with step := b } }

theorem underflow_restep (s : Ciat) (b : Bool) : underflow (restep s b) = restep (underflow s) b := by
  unfold underflow
  rw [show underflows (restep s b) = underflows s from rfl]
  split <;> rfl

theorem reload_restep (s : Ciat) (b : Bool) : reload (restep s b) = restep (reload s) b := by
  unfold reload
  rw [show (restep s b).state.load = s.state.load from rfl]
  split <;> rfl

theorem stopOneshot_restep (s : Ciat) (b : Bool) : stopOneshot (restep s b) = restep (stopOneshot s) b := by
  unfold stopOneshot
  rw [show ((restep s b).state.out && ((restep s b).state.oneshot || (restep s b).state.oneshot0)) =
    (s.state.out && (s.state.oneshot || s.state.oneshot0)) from rfl]
  split <;> rfl

/-- `tail` passes the `STEP` bit on. -/
theorem tail_restep (s : Ciat) (b : Bool) : (tail (restep s b)).1 = restep (tail s).1 b := by
  rw [tail, underflow_restep, reload_restep, stopOneshot_restep, tail]

/-- After a cycle `COUNT2` stays on unless the timer has stopped. -/
theorem tail_count2 (hc : s.state.count2 = true) :
    (tail s).1.state.count2 = true ∨ (tail s).1.state.crStart = false := by
  have hsame : (reload (underflow s)).state.count2 = true := by
    unfold reload underflow
    split <;> split <;> exact hc
  unfold tail stopOneshot
  dsimp only
  split
  · exact .inr rfl
  · exact .inl hsame

/-- A stale `STEP` bit has no effect after a shortcut. -/
theorem tail_settle (hc : s.state.count2 = true) (b : Bool) :
    settle (tail (restep s b)).1 = settle (tail s).1 := by
  rw [tail_restep]
  simp only [settle, restep, Ciat.mk.injEq, TState.mk.injEq, and_true, true_and]
  rcases tail_count2 hc with h | h <;> rw [h] <;> simp

/-- The shortcut to a clock before the next underflow. -/
theorem warpCount_before (hv : Valid s) (h : warpCounting s.state = true) (ho : s.state.out = false)
    (hclk : s.clk < cclk) (hsum : s.clk + s.cnt ≤ clockMax) (hlt : cclk < s.clk + s.cnt) :
    IsCycles s cclk ((tail (warpCount s cclk).1).1,
      (warpCount s cclk).2 + (tail (warpCount s cclk).1).2) := by
  have hmod : (s.clk + s.cnt) % 2 ^ 64 = s.clk + s.cnt :=
    Nat.mod_eq_of_lt (by simp only [clockMax] at hsum; omega)
  have hcnt : (s.cnt + 2 ^ 16 - (cclk - s.clk) % 2 ^ 16) % 2 ^ 16 = s.cnt - (cclk - s.clk) := by
    have := hv.cnt
    omega
  have hwarp : warpCount s cclk =
      (restep (counted s (cclk - s.clk)) s.state.step, 0) := by
    rw [warpCount, hmod, if_pos hlt, hcnt]
    simp only [counted, settle, restep, Prod.mk.injEq, Ciat.mk.injEq, true_and, and_true]
    omega
  obtain ⟨hs, hn⟩ := steps_counting h ho (show cclk - s.clk < s.cnt by omega)
  have htail := tail_counted h ho (show cclk - s.clk < s.cnt by omega)
  have hc2 : (counted s (cclk - s.clk)).state.count2 = true := by grind [warpCounting, counted, settle]
  refine ⟨cclk - s.clk, by omega, by omega, ?_, ?_, ?_⟩
  · rw [hwarp, tail_clk]
    simp only [restep, counted]
  · rw [hwarp, tail_settle hc2, htail, settle_counted, hs]
  · rw [hwarp, hn]
    exact (Nat.zero_add _).trans (congrArg Prod.snd htail)

/-- The shortcut to the next underflow. -/
theorem warpCount_underflow (h : warpCounting s.state = true) (ho : s.state.out = false)
    (hcnt : s.cnt ≠ 0) (hle : s.clk + s.cnt ≤ cclk)
    (hwarp : warpCount s cclk = ({ s with clk := s.clk + s.cnt, cnt := 0 }, 0)) :
    IsCycles s cclk ((tail (warpCount s cclk).1).1,
      (warpCount s cclk).2 + (tail (warpCount s cclk).1).2) := by
  have hstale : ({ s with clk := s.clk + s.cnt, cnt := 0 } : Ciat) =
      restep (counted s s.cnt) s.state.step := by
    simp only [counted, settle, restep, Nat.sub_self]
  have hc2 : (counted s s.cnt).state.count2 = true := by grind [warpCounting, counted, settle]
  have hsteps := steps_underflow h ho hcnt
  refine ⟨s.cnt, by omega, hle, ?_, ?_, ?_⟩
  · rw [hwarp, tail_clk]
  · rw [hwarp, hstale, tail_settle hc2, hsteps]
  · rw [hwarp, hstale, hsteps]
    exact Nat.zero_add _

/-- The shortcut over `m` more underflows. -/
theorem warpCount_periods (h : warpCounting s.state = true) (ho : s.state.out = false)
    (hone : s.state.crOneshot = false) (hcnt : s.cnt ≠ 0) (hl : s.latch ≠ 0) {m : Nat}
    (hle : s.clk + s.cnt + m * (s.latch + 1) ≤ cclk)
    (hwarp : warpCount s cclk =
      ({ s with clk := s.clk + s.cnt + m * (s.latch + 1), cnt := 0 }, m)) :
    IsCycles s cclk ((tail (warpCount s cclk).1).1,
      (warpCount s cclk).2 + (tail (warpCount s cclk).1).2) := by
  have hbits : s.state = { latchOneState with
      count3 := true, load := false, out := false, step := s.state.step } := by
    cases hs : s.state
    grind [warpCounting, steadyOneshot, latchOneState]
  have hsettled : (settle s).state = { latchOneState with
      count3 := true, load := false, out := false, step := false } := by
    rw [settle_counting h, hbits]
  have hfirst : steps cycle s.cnt s = (ticked s.latch s.alarmclk (s.clk + s.cnt), 1) := by
    rw [steps_underflow h ho hcnt, counted, Nat.sub_self, hsettled]
    exact tail_ticked _ _ _ _
  have htail : ∀ clk, tail { s with clk := clk, cnt := 0 } =
      (restep (ticked s.latch s.alarmclk clk) s.state.step, 1) := by
    intro clk
    rw [hbits]
    exact tail_ticked _ _ _ _
  refine ⟨s.cnt + m * (s.latch + 1), by omega, by omega, ?_, ?_, ?_⟩ <;> rw [hwarp, htail]
  · rw [← Nat.add_assoc]
    rfl
  · rw [steps_add, hfirst, steps_periods hl]
    simp [settle, restep, ticked, latchOneState]
  · rw [steps_add, hfirst, steps_periods hl]
    exact Nat.add_comm _ _

/-- The shortcut of a timer that stands still. -/
theorem stopped_spec (hclk : s.clk < cclk) (h : warpStopped s.state = true) (ho : s.state.out = false) :
    IsCycles s cclk ((tail { s with clk := cclk }).1, 0 + (tail { s with clk := cclk }).2) := by
  have hc3 : s.state.count3 = false := by grind [warpStopped, alarmStopped]
  have hload : s.state.load = false := by grind [warpStopped, alarmStopped]
  have htail : tail { s with clk := cclk } = ({ s with clk := cclk }, 0) := by
    simp [tail, underflows, underflow, reload, stopOneshot, hc3, hload, ho]
  obtain ⟨hs, hn⟩ := steps_stopped h ho (cclk - s.clk)
  have hsum : s.clk + (cclk - s.clk) = cclk := by omega
  rw [hsum] at hs
  rw [htail]
  exact ⟨cclk - s.clk, by omega, by omega, hsum.symm, hs.symm, hn.symm⟩

/-- The shortcut over pairs of cycles. -/
theorem latchOne_spec (hclk : s.clk < cclk) (hcclk : cclk ≤ clockMax)
    (hs : s.state = latchOneState) (hcnt : s.cnt = 1) (hl : s.latch = 1)
    (hnear : cclk - s.clk < 2 ^ 31) :
    IsCycles s cclk ((tail (warpLatchOne s cclk).1).1,
      (warpLatchOne s cclk).2 + (tail (warpLatchOne s cclk).1).2) := by
  have hticked : s = ticked 1 s.alarmclk s.clk := by
    cases s
    simp only at hs hcnt hl
    rw [hs, hcnt, hl]
    rfl
  have hm : throughInt ((cclk - s.clk) / 2 * 2) = (cclk - s.clk) / 2 * 2 := by
    rw [throughInt, Nat.mod_eq_of_lt (by omega), if_pos (by omega)]
  have hmod : (s.clk + (cclk - s.clk) / 2 * 2) % 2 ^ 64 = s.clk + (cclk - s.clk) / 2 * 2 :=
    Nat.mod_eq_of_lt (by simp only [clockMax] at hcclk; omega)
  by_cases hzero : (cclk - s.clk) / 2 * 2 = 0
  · -- one cycle is left, and the counter is not counting in it
    have hwarp : warpLatchOne s cclk = (inc s, 0) := by
      rw [warpLatchOne, hm, if_neg (by omega), inc, hs]
      simp [latchOneState]
    rw [hwarp]
    exact ⟨1, Nat.one_pos, hclk, tail_clk _, rfl, Nat.zero_add _⟩
  · have hwarp : warpLatchOne s cclk =
        (ticked 1 s.alarmclk (s.clk + (cclk - s.clk) / 2 * 2), (cclk - s.clk) / 2) := by
      rw [warpLatchOne, hm, if_pos hzero, hmod, Nat.mul_div_cancel _ (by omega), ticked, hs, hcnt, hl]
    have hsteps := steps_periods Nat.one_ne_zero s.alarmclk s.clk ((cclk - s.clk) / 2)
    rw [← hticked] at hsteps
    rw [hwarp]
    refine ⟨(cclk - s.clk) / 2 * 2, by omega, by omega, tail_clk _, ?_, ?_⟩ <;> rw [hsteps] <;> rfl

/-- A round of the loop is some cycles, unless the state spoils it. -/
theorem ciatRound_spec (hv : Valid s) (hclk : s.clk < cclk) (hcclk : cclk ≤ clockMax)
    (hgood : ¬ Spoils s cclk) : IsCycles s cclk (ciatRound s cclk) := by
  unfold ciatRound
  by_cases hcount : warpCounting s.state = true
  · have ho : s.state.out = false := by
      have := hv.out
      grind [warpCounting]
    have hcnt : s.cnt ≠ 0 := fun hz => hgood (.fromZero hcount hz)
    have hsum : s.clk + s.cnt ≤ clockMax := Nat.le_of_not_lt fun hm => hgood (.pastMax hcount hm)
    have hmod : (s.clk + s.cnt) % 2 ^ 64 = s.clk + s.cnt :=
      Nat.mod_eq_of_lt (by simp only [clockMax] at hsum; omega)
    simp only [hcount, ↓reduceIte]
    rcases Nat.lt_or_ge cclk (s.clk + s.cnt) with hlt | hle
    · exact warpCount_before hv hcount ho hclk hsum hlt
    by_cases hone : s.state.crOneshot || s.state.oneshot0
    · refine warpCount_underflow hcount ho hcnt hle ?_
      rw [warpCount, hmod, if_neg (by omega), if_pos hone]
    by_cases hjump : (cclk - (s.clk + s.cnt)) % 2 ^ 16 ≥ s.latch + 1
    · have hone' : s.state.crOneshot = false := by
        cases hs : s.state.crOneshot
        · rfl
        · rw [hs] at hone
          simp at hone
      have hl : s.latch ≠ 0 := fun hl => hgood (.latchZero hcount hone' hl hle (by omega))
      have hdiv := Nat.div_mul_le_self (cclk - (s.clk + s.cnt)) (s.latch + 1)
      have hwarp : warpCount s cclk = ({ s with
          clk := s.clk + s.cnt + (cclk - (s.clk + s.cnt)) / (s.latch + 1) * (s.latch + 1)
          cnt := 0 }, (cclk - (s.clk + s.cnt)) / (s.latch + 1)) := by
        rw [warpCount, hmod, if_neg (by omega), if_neg hone, if_pos hjump]
      exact warpCount_periods hcount ho hone' hcnt hl (by omega) hwarp
    · refine warpCount_underflow hcount ho hcnt hle ?_
      rw [warpCount, hmod, if_neg (by omega), if_neg hone, if_neg hjump]
  simp only [hcount, Bool.false_eq_true, ↓reduceIte]
  by_cases hstop : warpStopped s.state = true
  · have ho : s.state.out = false := by
      have := hv.out
      grind [warpStopped, alarmStopped]
    simp only [hstop, ↓reduceIte]
    exact stopped_spec hclk hstop ho
  simp only [hstop, Bool.false_eq_true, ↓reduceIte]
  split
  · next hone =>
    have hnear : cclk - s.clk < 2 ^ 31 :=
      Nat.lt_of_not_le fun hd => hgood (.farAhead hone.1 hone.2.1 hone.2.2 hd)
    exact latchOne_spec hclk hcclk hone.1 hone.2.1 hone.2.2 hnear
  · refine ⟨1, Nat.one_pos, hclk, tail_clk _, rfl, ?_⟩
    exact Nat.zero_add _

/-! ## A whole update -/

/-- Cycles from a state that a shortcut left. -/
theorem steps_resume {u : Ciat} (hu : settle u = settle (steps cycle k s).1) (j : Nat) :
    settle (steps cycle j u).1 = settle (steps cycle (k + j) s).1 ∧
      (steps cycle k s).2 + (steps cycle j u).2 = (steps cycle (k + j) s).2 := by
  obtain ⟨hs, hn⟩ := steps_settle j u
  obtain ⟨hs', hn'⟩ := steps_settle j (steps cycle k s).1
  rw [hu] at hs hn
  rw [steps_add, ← hs, ← hn, hs', hn']
  exact ⟨rfl, rfl⟩

theorem update_round {u : Ciat} {m fuel : Nat} (hclk : s.clk < cclk)
    (hround : ciatRound s cclk = (u, m)) : ciatUpdate (fuel + 1) s cclk =
      (ciatUpdate fuel u cclk).map fun (t, n) => (t, (m + n) % 2 ^ 32) := by
  rw [ciatUpdate, if_pos hclk, hround]

theorem update_steps {fuel : Nat} (hv : Valid s) (hcclk : cclk ≤ clockMax)
    (hgood : ∀ j, s.clk + j < cclk → ¬ Spoils (settle (steps cycle j s).1) cclk)
    (hfuel : cclk - s.clk < fuel) :
    ∃ t n, ciatUpdate fuel s cclk = some (t, n) ∧
      settle t = settle (steps cycle (cclk - s.clk) s).1 ∧
      n = (steps cycle (cclk - s.clk) s).2 % 2 ^ 32 := by
  induction fuel generalizing s with
  | zero => omega
  | succ fuel ih =>
    by_cases hclk : s.clk < cclk
    · obtain ⟨k, hk, hle, hrclk, hstate, hcount⟩ :=
        ciatRound_spec hv hclk hcclk fun hsp => hgood 0 hclk hsp.settle
      have hgood' : ∀ j, (ciatRound s cclk).1.clk + j < cclk →
          ¬ Spoils (settle (steps cycle j (ciatRound s cclk).1).1) cclk := by
        intro j hj
        rw [(steps_resume hstate j).1]
        exact hgood (k + j) (by omega)
      obtain ⟨t, n, hrest, ht, hn⟩ := ih (round_valid hv hclk hcclk) hgood' (by omega)
      obtain ⟨hs, hsum⟩ := steps_resume hstate (cclk - (ciatRound s cclk).1.clk)
      have hall : k + (cclk - (ciatRound s cclk).1.clk) = cclk - s.clk := by omega
      rw [hall] at hs hsum
      refine ⟨t, ((ciatRound s cclk).2 + n) % 2 ^ 32, ?_, ht.trans hs, ?_⟩
      · rw [update_round hclk (Prod.eta (ciatRound s cclk)).symm, hrest]
        rfl
      · rw [hn, hcount, ← hsum, Nat.add_mod_mod]
    · have hzero : cclk - s.clk = 0 := by omega
      exact ⟨s, 0, by rw [ciatUpdate, if_neg hclk], by rw [hzero]; rfl, by rw [hzero]; rfl⟩

end

/-- Started with latch 3 at clock 0, at clock 4. -/
def started : Ciat :=
  { state := { latchOneState with count3 := true, load := false, out := false }
    latch := 3, cnt := 1, alarmclk := 5, clk := 4 }

theorem started_reachable : Reachable started := by
  have hlo : ciatSetLatchlo 10 (ciatReset 0) 3 = some { ciatReset 0 with latch := 0xff03 } := by
    decide
  have hhi : ciatSetLatchhi 10 { ciatReset 0 with latch := 0xff03 } 0 =
      some { ciatReset 0 with latch := 3, cnt := 3 } := by decide
  have hgo : ciatSetCtrl 10 { ciatReset 0 with latch := 3, cnt := 3 } 1 =
      some { ciatReset 0 with
        latch := 3, cnt := 3, alarmclk := 5
        state := { (ciatReset 0).state with crStart := true, phi2in := true } } := by decide
  have hupdate : ciatUpdate 10 { ciatReset 0 with
      latch := 3, cnt := 3, alarmclk := 5
      state := { (ciatReset 0).state with crStart := true, phi2in := true } } 4 =
      some (started, 0) := by decide
  exact .update (.setCtrl (.setLatchhi (.setLatchlo (.reset 0 (by decide)) hlo) hhi) hgo)
    (by decide) hupdate

/-- Stopped, given latch 0 and started again at the same clock: it counts from zero. -/
def restarted : Ciat := { started with latch := 0, cnt := 0, alarmclk := 4 }

theorem restarted_reachable : Reachable restarted := by
  have hstop : ciatSetCtrl 10 started 0 = some { started with
      state := { started.state with crStart := false }, alarmclk := 5 } := by decide
  have hlo : ciatSetLatchlo 10 { started with
      state := { started.state with crStart := false }, alarmclk := 5 } 0 = some { started with
      state := { started.state with crStart := false }, alarmclk := 5, latch := 0 } := by decide
  have hhi : ciatSetLatchhi 10 { started with
      state := { started.state with crStart := false }, alarmclk := 5, latch := 0 } 0 =
      some { started with
        state := { started.state with crStart := false }, alarmclk := 5, latch := 0, cnt := 0 } := by
    decide
  have hgo : ciatSetCtrl 10 { started with
      state := { started.state with crStart := false }, alarmclk := 5, latch := 0, cnt := 0 } 1 =
      some restarted := by decide
  exact .setCtrl (.setLatchhi (.setLatchlo (.setCtrl started_reachable hstop) hlo) hhi) hgo

/-- Given latch 0 while it counts down from 1. -/
def shortened : Ciat := { started with latch := 0 }

theorem shortened_reachable : Reachable shortened := by
  have hlo : ciatSetLatchlo 10 started 0 = some shortened := by decide
  exact .setLatchlo started_reachable hlo

/-- Given latch 1, at the next underflow. -/
theorem pulse_reachable : Reachable (ticked 1 5 5) := by
  have hlo : ciatSetLatchlo 10 started 1 = some { started with latch := 1 } := by decide
  have hupdate : ciatUpdate 10 { started with latch := 1 } 5 = some (ticked 1 5 5, 1) := by decide
  exact .update (.setLatchlo started_reachable hlo) (by decide) hupdate

/-- At a distance of 2^32 the `int` is 0, and two cycles later it is -2. -/
theorem update_hangs (fuel : Nat) : ciatUpdate fuel (ticked 1 5 5) (5 + 2 ^ 32) = none := by
  have hfirst : ciatRound (ticked 1 5 5) (5 + 2 ^ 32) = ((cycle (ticked 1 5 5)).1, 0) := by decide
  have hsecond : ciatRound (cycle (ticked 1 5 5)).1 (5 + 2 ^ 32) = (ticked 1 5 7, 1) := by decide
  have hback : ciatRound (ticked 1 5 7) (5 + 2 ^ 32) = (ticked 1 5 5, 2 ^ 63 - 1) := by decide
  induction fuel using Nat.strongRecOn with
  | ind fuel ih =>
    match fuel with
    | 0 => rfl
    | 1 => rw [update_round (by decide) hfirst]; rfl
    | 2 => rw [update_round (by decide) hfirst, update_round (by decide) hsecond]; rfl
    | fuel + 3 =>
      rw [update_round (by decide) hfirst, update_round (by decide) hsecond,
        update_round (by decide) hback, ih fuel (by omega)]
      rfl

end Vice.L4.CiaWarp
