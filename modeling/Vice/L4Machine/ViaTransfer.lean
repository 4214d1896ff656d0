import Vice.L4Machine.ViaShifter

/-!
# Bytes through the shift register of the VIA

A byte takes 16 half clocks. Under timer 2 or the system clock they are alarms, and the register
waits with `shift_state` 16 for the next access. Under CB1 they are its edges, and the register goes
on with `shift_state` 0; shifting out that way is not emulated, and sets no flag.

Nothing but equality with 16 ends a byte. An edge of CB1 that rises while none has begun steps over
it, to 17 and on.

Results:
* `apply_le`: without such an edge an action keeps `shift_state` at 16 or below.
* `progress_half`, `progress_other`: what the actions of one byte do.
* `shift_state_counts`: both for every run from a reset.
-/
namespace Vice.L4.ViaTransfer
open Vice.L4.ViaCore
open Vice.L4.ViaShifter
open Vice.L4.ViaTimer2 (isSrT2Controlled)

/-! ## No further than 16 -/

/-- CB1 rises as an input while no byte has begun. -/
def outOfStep (s : Shifter) : Act → Bool
  | .edge level => level && !s.cb1InState && s.cb1IsInput && s.shiftState == finishedShifting
  | _ => false

/-- No edge of CB1 on the way is out of step. -/
def InStep (v : Via) : List Event → Bool
  | [] => true
  | e :: es => !outOfStep (shifter v) (act v e) && (step v e).all fun u => InStep u es

theorem succ_le {x : UInt8} (h : x ≤ finishedShifting) (hne : x ≠ finishedShifting) :
    x + 1 ≤ finishedShifting := by
  have hnat : x.toNat ≠ 16 := fun heq => hne (UInt8.toNat_inj.mp heq)
  rw [UInt8.le_iff_toNat_le] at h ⊢
  rw [UInt8.toNat_add]
  simp only [finishedShifting, UInt8.reduceToNat] at h ⊢
  omega

theorem and_le (x : UInt8) : x &&& 0x0f ≤ finishedShifting := by
  have h : ∀ n : Fin 256, UInt8.ofFin n &&& 0x0f ≤ finishedShifting := by decide +kernel
  exact h x.toFin

variable {s : Shifter}

theorem start_le (h : s.shiftState ≤ finishedShifting) (rclk : Nat) :
    (s.start rclk).shiftState ≤ finishedShifting := by
  unfold Shifter.start
  split
  · exact h
  · split
    · split
      · exact show (0 : UInt8) ≤ 16 by decide
      · exact h
    · split
      · exact and_le _
      · split
        · exact show (0 : UInt8) ≤ 16 by decide
        · exact h

theorem deliver_le (h : s.shiftState ≤ finishedShifting) : s.deliver.shiftState ≤ finishedShifting := by
  unfold Shifter.deliver
  split
  · exact UInt8.le_refl _
  · exact h

theorem rise_le (h : s.shiftState ≤ finishedShifting) : s.rise.shiftState ≤ finishedShifting := by
  unfold Shifter.rise
  split
  · exact show (0 : UInt8) ≤ 16 by decide
  · exact h

theorem half_le (h : s.shiftState ≤ finishedShifting) : s.half.shiftState ≤ finishedShifting := by
  unfold Shifter.half
  dsimp only
  split
  · next hlt =>
    have hnext := succ_le h (UInt8.ne_of_lt hlt)
    split
    · split
      · exact show (0 : UInt8) ≤ 16 by decide
      · exact hnext
    · exact hnext
  · exact h

/-- An edge in step: behind `fall` the state is below 16. -/
theorem count_le (h : s.shiftState ≤ finishedShifting) {level : Bool}
    (hstep : (level && s.shiftState == finishedShifting) = false) :
    (s.count level).shiftState ≤ finishedShifting := by
  have hfall : (s.fall level).shiftState ≤ finishedShifting ∧
      (s.fall level).shiftState ≠ finishedShifting := by
    unfold Shifter.fall
    split
    · exact show (0 : UInt8) ≤ 16 ∧ (0 : UInt8) ≠ 16 by decide
    · next hne =>
      refine ⟨h, fun heq => ?_⟩
      cases level
      · exact hne (by simp [heq])
      · simp [heq] at hstep
  have hnext := succ_le hfall.1 hfall.2
  unfold Shifter.count
  dsimp only
  split
  · exact rise_le hnext
  · exact hnext

theorem apply_le (h : s.shiftState ≤ finishedShifting) {a : Act}
    (hstep : outOfStep s a = false) : (a.apply s).shiftState ≤ finishedShifting := by
  cases a with
  | idle => exact h
  | reset => exact UInt8.le_refl _
  | clear flag => exact h
  | access rclk => exact start_le h rclk
  | select mode rclk => exact h
  | deliver => exact deliver_le h
  | edge level =>
    change (s.edge level).shiftState ≤ _
    unfold Shifter.edge
    split
    · next hlevel =>
      split
      · next hinput =>
        refine count_le h ?_
        have hold : s.cb1InState = !level := by
          cases level <;> cases hs : s.cb1InState <;> simp_all
        simpa [outOfStep, hold, hinput] using hstep
      · exact h
    · exact h
  | t2Underflow rclk =>
    change (s.t2Underflow rclk).shiftState ≤ _
    unfold Shifter.t2Underflow
    split <;> exact h
  | t2Shift => exact half_le h
  | phi2Sr rclk => exact half_le h

theorem run_le {v v' : Via} (hc : (shifter v).Cached) (h : v.shiftState ≤ finishedShifting)
    {es : List Event} (hstep : InStep v es = true) (hrun : run v es = some v') :
    v'.shiftState ≤ finishedShifting := by
  induction es generalizing v with
  | nil =>
    cases hrun
    exact h
  | cons e es ih =>
    obtain ⟨u, hu, hrest⟩ := run_cons hrun
    obtain ⟨happly, -⟩ := step_shifter hc hu
    obtain ⟨hfirst, hall⟩ := Bool.and_eq_true_iff.mp hstep
    rw [hu, Option.all_some] at hall
    have hle : (shifter u).shiftState ≤ finishedShifting := by
      rw [happly]
      exact apply_le h (by simpa using hfirst)
    exact ih (happly ▸ apply_cached hc _) hle hall hrest

/-! ## One byte -/

/-- Half a clock: an alarm of the shift register, or an edge of CB1 while it is an input. -/
def halfClock (s : Shifter) : Act → Bool
  | .t2Shift => true
  | .phi2Sr _ => true
  | .edge level => s.cb1IsInput && level != s.cb1InState
  | _ => false

/-- Where a byte is after `n` half clocks. CB1 starts high; when it drives the register, the byte may
still have to begin, and no alarm of another mode is left. -/
structure Progress (s : Shifter) (n : Nat) : Prop where
  enabled : s.mode ≠ srDisabled
  counting : s.mode ≠ srOutFreeT2
  cached : s.Cached
  flag : s.flag = false
  state : s.shiftState.toNat = n ∨ (n = 0 ∧ drivenByCb1 s.mode = true ∧
    s.shiftState = finishedShifting)
  external : drivenByCb1 s.mode = true →
    s.cb1InState = (n % 2 == 0) ∧ s.t2ShiftAlarm = none ∧ s.phi2SrAlarm = none

/-- After the sixteenth. -/
def Done (s : Shifter) : Prop :=
  if drivenByCb1 s.mode then s.shiftState = startShifting ∧ s.flag = (s.mode &&& 0x10 == 0)
  else s.shiftState = finishedShifting ∧ s.flag = true

/-- The modes of CB1 are neither of the others. -/
theorem cb1_modes {mode : UInt8} (h : drivenByCb1 mode = true) (hne : mode ≠ srDisabled) :
    drivenByPhi2 mode = false ∧ isSrT2Controlled mode = false ∧ mode &&& 0x0c ≠ 0 := by
  have hall : ∀ n : Fin 256, drivenByCb1 (UInt8.ofFin n) = true → UInt8.ofFin n ≠ srDisabled →
      drivenByPhi2 (UInt8.ofFin n) = false ∧ isSrT2Controlled (UInt8.ofFin n) = false ∧
        UInt8.ofFin n &&& 0x0c ≠ 0 := by
    decide +kernel
  exact hall mode.toFin h hne

theorem succ_toNat {x : UInt8} {n : Nat} (h : x.toNat = n) (hn : n < 16) : (x + 1).toNat = n + 1 := by
  rw [UInt8.toNat_add, h]
  simp only [UInt8.reduceToNat]
  omega

theorem toNat_eq_iff (x : UInt8) : (x == finishedShifting) = (x.toNat == 16) := by
  rw [Bool.eq_iff_iff, beq_iff_eq, beq_iff_eq]
  exact UInt8.toNat_inj.symm

section
variable {n : Nat} (h : Progress s n)
include h

/-- A byte that has begun. -/
theorem Progress.begun (hn : 0 < n) : s.shiftState.toNat = n := by
  rcases h.state with hstate | ⟨rfl, -, -⟩
  · exact hstate
  · exact absurd hn (Nat.lt_irrefl 0)

theorem Progress.not_free : ¬ (s.mode == srOutFreeT2) = true := fun heq => h.counting (beq_iff_eq.mp heq)

/-- The internal clocks count up, and set the flag at the end. -/
theorem half_internal (hn : n < 16) (hint : drivenByCb1 s.mode = false) :
    s.half.shiftState.toNat = n + 1 ∧ s.half.flag = (n + 1 == 16) := by
  have hstate : s.shiftState.toNat = n := by
    rcases h.state with hstate | ⟨-, hdriven, -⟩
    · exact hstate
    · rw [hint] at hdriven
      cases hdriven
  have hlt : s.shiftState < finishedShifting := by
    rw [UInt8.lt_iff_toNat_lt, hstate]
    exact hn
  unfold Shifter.half
  dsimp only
  rw [if_pos hlt, toNat_eq_iff, succ_toNat hstate hn, if_neg h.not_free]
  split
  · next hend =>
    rw [hend]
    exact ⟨succ_toNat hstate hn, rfl⟩
  · next hend =>
    refine ⟨succ_toNat hstate hn, h.flag.trans ?_⟩
    exact (Bool.eq_false_iff.mpr hend).symm

/-- A falling edge begins the byte or counts on. -/
theorem count_fall (hn : n < 15) : (s.count false).shiftState.toNat = n + 1 ∧ (s.count false).flag = false := by
  have hfall : (s.fall false).shiftState.toNat = n ∧ (s.fall false).flag = false := by
    unfold Shifter.fall
    rcases h.state with hstate | ⟨rfl, -, hfinished⟩
    · have hne : (s.shiftState == finishedShifting) = false := by
        rw [toNat_eq_iff, hstate]
        exact beq_eq_false_iff_ne.mpr (by omega)
      rw [hne]
      exact ⟨hstate, h.flag⟩
    · rw [hfinished]
      exact ⟨rfl, h.flag⟩
  exact ⟨succ_toNat hfall.1 (by omega), hfall.2⟩

/-- A rising edge counts on, and hands over the byte at the end. -/
theorem count_rise (hn : n < 16) (hodd : n % 2 = 1) (hext : drivenByCb1 s.mode = true) :
    if n + 1 = 16 then
      (s.count true).shiftState = startShifting ∧ (s.count true).flag = (s.mode &&& 0x10 == 0)
    else (s.count true).shiftState.toNat = n + 1 ∧ (s.count true).flag = false := by
  have hstate := h.begun (by omega)
  have hnext := succ_toNat hstate hn
  obtain ⟨-, -, hmask⟩ := cb1_modes hext h.enabled
  change if n + 1 = 16 then
      ({ s with shiftState := s.shiftState + 1 }.rise).shiftState = _ ∧
        ({ s with shiftState := s.shiftState + 1 }.rise).flag = _
    else
      ({ s with shiftState := s.shiftState + 1 }.rise).shiftState.toNat = _ ∧
        ({ s with shiftState := s.shiftState + 1 }.rise).flag = _
  unfold Shifter.rise Shifter.deliver
  dsimp only
  rw [toNat_eq_iff, hnext]
  by_cases hend : n + 1 = 16
  · rw [if_pos hend, hend]
    have hin : (s.mode &&& 0x10 == 0 && s.mode &&& 0x0c != 0) = (s.mode &&& 0x10 == 0) := by
      simp [hmask]
    rw [hin, if_pos (by rfl)]
    refine ⟨rfl, ?_⟩
    dsimp only
    split
    · next hzero => exact hzero.symm
    · next hzero => exact h.flag.trans (Bool.eq_false_iff.mpr hzero).symm
  · rw [if_neg hend, if_neg (by simpa using hend)]
    exact ⟨hnext, h.flag⟩

/-- Starting begins a byte that has not begun. -/
theorem start_state (hn : n < 16) (rclk : Nat) : (s.start rclk).shiftState.toNat = n := by
  have hdis : ¬ (s.mode == srDisabled) = true := fun heq => h.enabled (beq_iff_eq.mp heq)
  have hzero : s.shiftState.toNat = n ∨ s.shiftState = finishedShifting ∧ n = 0 :=
    h.state.imp_right fun hbegin => ⟨hbegin.2.2, hbegin.1⟩
  unfold Shifter.start
  rw [if_neg hdis, if_neg h.not_free]
  rcases hzero with hstate | ⟨hfinished, rfl⟩
  · have hne : ¬ (s.shiftState == finishedShifting) = true := by
      rw [toNat_eq_iff, hstate, beq_iff_eq]
      omega
    rw [if_neg hne, if_neg hne]
    split <;> exact hstate
  · have heq : (s.shiftState == finishedShifting) = true := beq_iff_eq.mpr hfinished
    rw [if_pos heq, if_pos heq]
    split <;> rfl

/-- What a mode of CB1 does not touch. -/
theorem start_external (hext : drivenByCb1 s.mode = true) (rclk : Nat) :
    (s.start rclk).cb1InState = s.cb1InState ∧ (s.start rclk).t2ShiftAlarm = s.t2ShiftAlarm ∧
      (s.start rclk).phi2SrAlarm = s.phi2SrAlarm := by
  obtain ⟨hphi, -, -⟩ := cb1_modes hext h.enabled
  unfold Shifter.start
  rw [hphi]
  repeat' split
  all_goals first | exact ⟨rfl, rfl, rfl⟩ | contradiction

/-- The other actions leave the byte where it is, but one may begin it. -/
theorem progress_other (hn : n < 16) {a : Act} (hother : halfClock s a = false)
    (hreset : a ≠ .reset) (hdeliver : a ≠ .deliver) (hmode : (a.apply s).mode = s.mode) :
    Progress (a.apply s) n := by
  cases a with
  | idle => exact h
  | reset => exact absurd rfl hreset
  | deliver => exact absurd rfl hdeliver
  | clear flag =>
    exact { h with flag := by change (s.flag && !flag) = false; rw [h.flag, Bool.false_and] }
  | access rclk =>
    have hfixed := start_fixed s rclk
    exact {
      enabled := hfixed.1 ▸ h.enabled
      counting := hfixed.1 ▸ h.counting
      cached := apply_cached h.cached (.access rclk)
      flag := rfl
      state := Or.inl (start_state h hn rclk)
      external := by
        intro hext
        have hext' : drivenByCb1 s.mode = true := hfixed.1 ▸ hext
        obtain ⟨hlevel, ht2, hphi⟩ := start_external h hext' rclk
        obtain ⟨hlevel', ht2', hphi'⟩ := h.external hext'
        exact ⟨hlevel.trans hlevel', ht2.trans ht2', hphi.trans hphi'⟩ }
  | select mode rclk =>
    have hsame : mode = s.mode := hmode
    subst hsame
    exact {
      enabled := h.enabled
      counting := h.counting
      cached := apply_cached h.cached (.select s.mode rclk)
      flag := by change (s.flag && _) = false; rw [h.flag, Bool.false_and]
      state := h.state
      external := by
        intro hext
        have hext' : drivenByCb1 s.mode = true := hext
        obtain ⟨hlevel, ht2, -⟩ := h.external hext'
        refine ⟨hlevel, ht2, ?_⟩
        change (if drivenByPhi2 s.mode then _ else none) = none
        rw [(cb1_modes hext' h.enabled).1]
        rfl }
  | edge level =>
    change Progress (s.edge level) n
    unfold Shifter.edge
    split
    · next hlevel =>
      have hinput : s.cb1IsInput = false := by
        simpa [halfClock, hlevel] using hother
      rw [hinput]
      exact { h with
        external := fun hext => by
          have hdriven : drivenByCb1 s.mode = true := hext
          rw [← h.cached, hinput] at hdriven
          cases hdriven }
    · exact h
  | t2Underflow rclk =>
    change Progress (s.t2Underflow rclk) n
    unfold Shifter.t2Underflow
    split
    · next hcontrolled =>
      exact { h with
        external := fun hext => by
          rw [(cb1_modes hext h.enabled).2.1] at hcontrolled
          cases hcontrolled }
    · exact h
  | t2Shift => cases hother
  | phi2Sr rclk => cases hother

omit h in
theorem count_alarms (s : Shifter) (level : Bool) :
    (s.count level).t2ShiftAlarm = s.t2ShiftAlarm ∧ (s.count level).phi2SrAlarm = s.phi2SrAlarm := by
  unfold Shifter.count Shifter.rise Shifter.deliver Shifter.fall
  dsimp only
  repeat' split
  all_goals exact ⟨rfl, rfl⟩

/-- A half clock of the alarms is one of the internal modes. -/
theorem alarm_internal {a : Act} (hp : a.Possible s) (ha : a = .t2Shift ∨ ∃ rclk, a = .phi2Sr rclk) :
    drivenByCb1 s.mode = false := by
  rw [Bool.eq_false_iff]
  intro hext
  obtain ⟨-, ht2, hphi⟩ := h.external hext
  rcases ha with rfl | ⟨rclk, rfl⟩
  · exact hp ht2
  · exact hp hphi

/-- The edges of CB1 alternate. -/
theorem edge_level {level : Bool} (hhalf : halfClock s (.edge level) = true) :
    drivenByCb1 s.mode = true ∧ level = (n % 2 == 1) ∧
      s.edge level = { s.count level with cb1InState := level } := by
  obtain ⟨hinput, hlevel⟩ := Bool.and_eq_true_iff.mp hhalf
  have hext : drivenByCb1 s.mode = true := h.cached.symm.trans hinput
  refine ⟨hext, ?_, ?_⟩
  · have hne : level ≠ (n % 2 == 0) := (h.external hext).1 ▸ bne_iff_ne.mp hlevel
    rcases Nat.mod_two_eq_zero_or_one n with heven | hodd
    · rw [heven] at hne ⊢
      simpa using hne
    · rw [hodd] at hne ⊢
      simpa using hne
  · unfold Shifter.edge
    rw [if_pos hlevel, if_pos hinput]

/-- Half a clock before the last. -/
theorem progress_half (hn : n < 15) {a : Act} (hhalf : halfClock s a = true) (hp : a.Possible s) :
    Progress (a.apply s) (n + 1) := by
  have hinternal : drivenByCb1 s.mode = false → ∀ t : Shifter, t.mode = s.mode →
      t.cb1IsInput = s.cb1IsInput → t.shiftState = s.half.shiftState → t.flag = s.half.flag →
      Progress t (n + 1) := by
    intro hint t hmode hinput hstate hflag
    obtain ⟨hcount, hclear⟩ := half_internal h (by omega) hint
    exact {
      enabled := hmode ▸ h.enabled
      counting := hmode ▸ h.counting
      cached := hinput.trans (h.cached.trans (congrArg drivenByCb1 hmode.symm))
      flag := by
        rw [hflag, hclear]
        exact beq_eq_false_iff_ne.mpr (by omega)
      state := Or.inl (hstate ▸ hcount)
      external := fun hext => by
        rw [hmode, hint] at hext
        cases hext }
  have hfixed := half_fixed s
  cases a with
  | t2Shift =>
    exact hinternal (alarm_internal h hp (Or.inl rfl)) _ hfixed.1 hfixed.2 rfl rfl
  | phi2Sr rclk =>
    exact hinternal (alarm_internal h hp (Or.inr ⟨rclk, rfl⟩)) _ hfixed.1 hfixed.2 rfl rfl
  | edge level =>
    obtain ⟨hext, hlevel, hedge⟩ := edge_level h hhalf
    obtain ⟨hmode, hinput⟩ := count_fixed s level
    obtain ⟨ht2, hphi⟩ := count_alarms s level
    obtain ⟨-, ht2', hphi'⟩ := h.external hext
    have hcount : (s.count level).shiftState.toNat = n + 1 ∧ (s.count level).flag = false := by
      rcases Nat.mod_two_eq_zero_or_one n with heven | hodd
      · rw [hlevel, heven]
        exact count_fall h hn
      · have hrise := count_rise h (by omega) hodd hext
        rw [if_neg (by omega)] at hrise
        rw [hlevel, hodd]
        exact hrise
    change Progress (s.edge level) (n + 1)
    rw [hedge]
    exact {
      enabled := hmode ▸ h.enabled
      counting := hmode ▸ h.counting
      cached := hinput.trans (h.cached.trans (congrArg drivenByCb1 hmode.symm))
      flag := hcount.2
      state := Or.inl hcount.1
      external := fun _ => by
        refine ⟨hlevel.trans ?_, ht2.trans ht2', hphi.trans hphi'⟩
        rcases Nat.mod_two_eq_zero_or_one n with heven | hodd
        · rw [heven, Nat.add_mod, heven]
          rfl
        · rw [hodd, Nat.add_mod, hodd]
          rfl }
  | idle => cases hhalf
  | reset => cases hhalf
  | clear flag => cases hhalf
  | access rclk => cases hhalf
  | select mode rclk => cases hhalf
  | deliver => cases hhalf
  | t2Underflow rclk => cases hhalf

/-- The last half clock. -/
theorem done_half (hn : n = 15) {a : Act} (hhalf : halfClock s a = true) (hp : a.Possible s) :
    Done (a.apply s) := by
  subst hn
  have hinternal : drivenByCb1 s.mode = false → ∀ t : Shifter, t.mode = s.mode →
      t.shiftState = s.half.shiftState → t.flag = s.half.flag → Done t := by
    intro hint t hmode hstate hflag
    obtain ⟨hcount, hset⟩ := half_internal h (by omega) hint
    unfold Done
    rw [hmode, hint, if_neg Bool.false_ne_true, hstate, hflag, hset]
    exact ⟨UInt8.toNat_inj.mp hcount, rfl⟩
  have hfixed := half_fixed s
  cases a with
  | t2Shift => exact hinternal (alarm_internal h hp (Or.inl rfl)) _ hfixed.1 rfl rfl
  | phi2Sr rclk => exact hinternal (alarm_internal h hp (Or.inr ⟨rclk, rfl⟩)) _ hfixed.1 rfl rfl
  | edge level =>
    obtain ⟨hext, hlevel, hedge⟩ := edge_level h hhalf
    have hrise := count_rise h (by omega) (by omega) hext
    rw [if_pos rfl] at hrise
    have hmode := (count_fixed s true).1
    change Done (s.edge level)
    rw [hedge, hlevel]
    unfold Done
    dsimp only
    change if drivenByCb1 (s.count true).mode then _ else _
    rw [hmode, if_pos hext]
    exact ⟨hrise.1, hrise.2.trans (congrArg (fun m : UInt8 => m &&& 0x10 == 0) hmode.symm)⟩
  | idle => cases hhalf
  | reset => cases hhalf
  | clear flag => cases hhalf
  | access rclk => cases hhalf
  | select mode rclk => cases hhalf
  | deliver => cases hhalf
  | t2Underflow rclk => cases hhalf

end

/-! ## Runs -/

/-- The half clocks of a run. -/
def halfClocks (v : Via) : List Event → Nat
  | [] => 0
  | e :: es =>
    (if halfClock (shifter v) (act v e) then 1 else 0) +
      (step v e).elim 0 fun u => halfClocks u es

/-- How often a run sets the interrupt flag of the shift register. -/
def flagSets (v : Via) : List Event → Nat
  | [] => 0
  | e :: es =>
    (step v e).elim 0 fun u =>
      (if v.ifr &&& imSr == 0 && u.ifr &&& imSr != 0 then 1 else 0) + flagSets u es

/-- No reset, no byte handed over from outside, and the mode stays. -/
def Undisturbed (v : Via) : List Event → Bool
  | [] => true
  | e :: es =>
    act v e != .reset && act v e != .deliver &&
      (step v e).all fun u => srControl u.acr == srControl v.acr && Undisturbed u es

/-- A byte from its start on: the flag is clear, and the last event is the sixteenth half clock.
In the modes of CB1 it is high at the start, and no alarm of another mode is left. -/
structure Transfer (v : Via) (es : List Event) : Prop where
  counting : srControl v.acr ≠ srDisabled ∧ srControl v.acr ≠ srOutFreeT2
  started : v.shiftState = startShifting ∨
    drivenByCb1 (srControl v.acr) = true ∧ v.shiftState = finishedShifting
  clear : v.ifr &&& imSr = 0
  external : drivenByCb1 (srControl v.acr) = true →
    v.cb1InState = true ∧ v.t2ShiftAlarm = none ∧ v.phi2SrAlarm = none
  undisturbed : Undisturbed v es = true
  count : halfClocks v es = 16
  last : ∃ pre e, es = pre ++ [e] ∧ halfClocks v pre = 15

/-- What has become of the byte. -/
def Completed (v : Via) (es : List Event) (v' : Via) : Prop :=
  if srControl v.acr = srInCb1 then flagSets v es = 1 ∧ v'.shiftState = startShifting
  else if srControl v.acr = srOutCb1 then flagSets v es = 0 ∧ v'.shiftState = startShifting
  else flagSets v es = 1 ∧ v'.shiftState = finishedShifting

section
variable {v u v' : Via}

theorem halfClocks_append {pre : List Event} (h : run v pre = some u) (es : List Event) :
    halfClocks v (pre ++ es) = halfClocks v pre + halfClocks u es := by
  induction pre generalizing v with
  | nil =>
    cases h
    exact (Nat.zero_add _).symm
  | cons e pre ih =>
    obtain ⟨w, hw, hrest⟩ := run_cons h
    rw [List.cons_append, halfClocks, halfClocks, hw, Option.elim_some, Option.elim_some, ih hrest,
      Nat.add_assoc]

theorem flagSets_append {pre : List Event} (h : run v pre = some u) (es : List Event) :
    flagSets v (pre ++ es) = flagSets v pre + flagSets u es := by
  induction pre generalizing v with
  | nil =>
    cases h
    exact (Nat.zero_add _).symm
  | cons e pre ih =>
    obtain ⟨w, hw, hrest⟩ := run_cons h
    rw [List.cons_append, flagSets, flagSets, hw, Option.elim_some, Option.elim_some, ih hrest, Nat.add_assoc]

theorem undisturbed_append {pre : List Event} (h : run v pre = some u) {es : List Event}
    (hu : Undisturbed v (pre ++ es) = true) :
    Undisturbed v pre = true ∧ Undisturbed u es = true := by
  induction pre generalizing v with
  | nil =>
    cases h
    exact ⟨rfl, hu⟩
  | cons e pre ih =>
    obtain ⟨w, hw, hrest⟩ := run_cons h
    rw [List.cons_append, Undisturbed, hw, Option.all_some] at hu
    obtain ⟨hact, hafter⟩ := Bool.and_eq_true_iff.mp hu
    obtain ⟨hmode, hu⟩ := Bool.and_eq_true_iff.mp hafter
    obtain ⟨hpre, hes⟩ := ih hrest hu
    rw [Undisturbed, hw, Option.all_some, hact, hmode, hpre]
    exact ⟨rfl, hes⟩

/-- One event of an undisturbed run. -/
theorem undisturbed_step {e : Event} {es : List Event} (hstep : step v e = some u)
    (hu : Undisturbed v (e :: es) = true) : act v e ≠ .reset ∧ act v e ≠ .deliver ∧
      (shifter u).mode = (shifter v).mode ∧ Undisturbed u es = true := by
  rw [Undisturbed, hstep, Option.all_some] at hu
  simp only [Bool.and_eq_true, bne_iff_ne, beq_iff_eq] at hu
  exact ⟨hu.1.1, hu.1.2, hu.2.1, hu.2.2⟩

theorem transfer_progress (hc : (shifter v).Cached) {es : List Event} (h : Transfer v es) :
    Progress (shifter v) 0 where
  enabled := h.counting.1
  counting := h.counting.2
  cached := hc
  flag := bne_eq_false_iff_eq.mpr h.clear
  state := h.started.imp (fun hstart => congrArg UInt8.toNat hstart) fun hbegin => ⟨rfl, hbegin⟩
  external := h.external

/-- Until the last half clock the flag stays clear. -/
theorem run_progress {n : Nat} (h : Progress (shifter v) n) {es : List Event}
    (hu : Undisturbed v es = true) (hn : n + halfClocks v es ≤ 15) (hrun : run v es = some v') :
    Progress (shifter v') (n + halfClocks v es) ∧ flagSets v es = 0 := by
  induction es generalizing v n with
  | nil =>
    cases hrun
    exact ⟨h, rfl⟩
  | cons e es ih =>
    obtain ⟨u, hstep, hrest⟩ := run_cons hrun
    obtain ⟨happly, hp⟩ := step_shifter h.cached hstep
    obtain ⟨hreset, hdeliver, hmode, hundisturbed⟩ := undisturbed_step hstep hu
    rw [halfClocks, hstep, Option.elim_some] at hn ⊢
    rw [flagSets, hstep, Option.elim_some]
    have hnext : Progress (shifter u) (n + if halfClock (shifter v) (act v e) then 1 else 0) := by
      rw [happly]
      split
      · next hhalf =>
        rw [if_pos hhalf] at hn
        exact progress_half h (by omega) hhalf hp
      · next hhalf =>
        exact progress_other h (by omega) (Bool.eq_false_iff.mpr hhalf) hreset hdeliver
          (happly ▸ hmode)
    have hflag : (u.ifr &&& imSr != 0) = false := hnext.flag
    rw [hflag, Bool.and_false, ← Nat.add_assoc]
    obtain ⟨hlast, hsets⟩ := ih hnext hundisturbed (by omega) hrest
    exact ⟨hlast, by rw [hsets]; rfl⟩

theorem undisturbed_mode {es : List Event} (hu : Undisturbed v es = true)
    (hrun : run v es = some v') : (shifter v').mode = (shifter v).mode := by
  induction es generalizing v with
  | nil =>
    cases hrun
    rfl
  | cons e es ih =>
    obtain ⟨u, hstep, hrest⟩ := run_cons hrun
    obtain ⟨-, -, hmode, hundisturbed⟩ := undisturbed_step hstep hu
    exact (ih hundisturbed hrest).trans hmode

theorem cb1_mode_cases (acr : UInt8) (h : drivenByCb1 (srControl acr) = true)
    (hne : srControl acr ≠ srDisabled) : srControl acr = srInCb1 ∨ srControl acr = srOutCb1 := by
  have hall : ∀ n : Fin 256, drivenByCb1 (srControl (UInt8.ofFin n)) = true →
      srControl (UInt8.ofFin n) ≠ srDisabled →
      srControl (UInt8.ofFin n) = srInCb1 ∨ srControl (UInt8.ofFin n) = srOutCb1 := by
    decide +kernel
  exact hall acr.toFin h hne

/-- A whole byte: the sixteenth half clock sets the flag, if any does. -/
theorem transfer_completed (hc : (shifter v).Cached) {es : List Event} (h : Transfer v es)
    (hrun : run v es = some v') : Completed v es v' := by
  obtain ⟨pre, e, rfl, hpre⟩ := h.last
  obtain ⟨u, hu, hlast⟩ := run_append hrun
  obtain ⟨w, hstep, hnil⟩ := run_cons hlast
  cases hnil
  have hprogress := run_progress (transfer_progress hc h) (undisturbed_append hu h.undisturbed).1
    (by omega) hu
  rw [hpre, Nat.zero_add] at hprogress
  have hhalf : halfClock (shifter u) (act u e) = true := by
    have hcount := halfClocks_append hu [e]
    rw [h.count, hpre, halfClocks, hstep, Option.elim_some, halfClocks] at hcount
    by_contra hno
    rw [if_neg hno] at hcount
    omega
  obtain ⟨happly, hp⟩ := step_shifter hprogress.1.cached hstep
  have hdone : Done (shifter v') := happly ▸ done_half hprogress.1 rfl hhalf hp
  have hmode : (shifter v').mode = srControl v.acr := undisturbed_mode h.undisturbed hrun
  have hsets : flagSets v (pre ++ [e]) = if (shifter v').flag then 1 else 0 := by
    have hclear : (u.ifr &&& imSr == 0) = true := by simpa [shifter] using hprogress.1.flag
    rw [flagSets_append hu, hprogress.2, flagSets, hstep, Option.elim_some, flagSets, hclear,
      Bool.true_and, Nat.zero_add]
    rfl
  unfold Completed
  rw [hsets]
  unfold Done at hdone
  rw [hmode] at hdone
  by_cases hin : srControl v.acr = srInCb1
  · rw [hin, if_pos (by decide)] at hdone
    rw [if_pos hin, hdone.2]
    exact ⟨rfl, hdone.1⟩
  · by_cases hout : srControl v.acr = srOutCb1
    · rw [hout, if_pos (by decide)] at hdone
      rw [if_neg hin, if_pos hout, hdone.2]
      exact ⟨rfl, hdone.1⟩
    · have hint : drivenByCb1 (srControl v.acr) = false := by
        rw [Bool.eq_false_iff]
        intro hext
        rcases cb1_mode_cases v.acr hext h.counting.1 with heq | heq
        · exact hin heq
        · exact hout heq
      rw [hint, if_neg Bool.false_ne_true] at hdone
      rw [if_neg hin, if_neg hout, hdone.2]
      exact ⟨rfl, hdone.1⟩

end

/-- In every run from a reset, `shift_state` is within 0..16 as long as each edge of CB1 is in step,
and a byte after that is completed. -/
theorem shift_state_counts (v : Via) (clk : Nat) {es : List Event} {v₁ : Via}
    (hrun : run (viacoreReset v clk) es = some v₁) :
    (InStep (viacoreReset v clk) es = true → v₁.shiftState ≤ finishedShifting) ∧
      ∀ ts v₂, Transfer v₁ ts → run v₁ ts = some v₂ → Completed v₁ ts v₂ := by
  have hreset := reset_cached v clk
  refine ⟨fun hstep => run_le hreset ?_ hstep hrun, fun ts v₂ htransfer hts => ?_⟩
  · have hstate : (shifter (viacoreReset v clk)).shiftState = finishedShifting := by
      rw [shifter_reset]
      rfl
    exact UInt8.le_of_eq hstate
  · exact transfer_completed (run_cached hreset hrun) htransfer hts

/-- Shifting out at the clock rate: the first alarm finds no byte, then `55` is stored. -/
def phi2Byte : List Event := [.store 2 11 0x18, .alarm .phi2Sr 4, .store 6 10 0x55]

def phi2Clocks : List Event := (List.range 16).map fun i => .alarm .phi2Sr (6 + i)

def phi2Via : Via := (run (viacoreReset viacoreSetupContext 0) phi2Byte).getD viacoreSetupContext

theorem phi2Via_transfer : Transfer phi2Via phi2Clocks where
  counting := by decide +kernel
  started := Or.inl (by decide +kernel)
  clear := by decide +kernel
  external h := absurd h (by decide +kernel)
  undisturbed := by decide +kernel
  count := by decide +kernel
  last := ⟨phi2Clocks.dropLast, .alarm .phi2Sr 21, by decide, by decide +kernel⟩

theorem shift_state_counts_phi2 : phi2Via.shiftState ≤ finishedShifting ∧
      ∃ v₂, run phi2Via phi2Clocks = some v₂ ∧ Completed phi2Via phi2Clocks v₂ :=
  have h := @shift_state_counts viacoreSetupContext 0 phi2Byte phi2Via rfl
  ⟨h.1 (by decide +kernel), _, rfl, h.2 phi2Clocks _ phi2Via_transfer rfl⟩

/-- 16 edges, the first one falling. -/
def edges : List Event := (List.range 16).map fun i => .signal .cb1 (i % 2 == 1) (10 + i)

/-- CB1 falls while it is an output and rises when it has become an input: the count steps over 16.
A byte under CB1 ends at 0, and shifting out that way sets no flag. -/
theorem shift_state_overruns : ((run (viacoreReset viacoreSetupContext 0)
      [.store 2 11 0x08, .signal .cb1 false 3, .store 4 11 0x0c, .signal .cb1 true 5]).map
        Via.shiftState = some 17) ∧
    ((run (viacoreReset viacoreSetupContext 0) (.store 2 11 0x0c :: edges)).map
      Via.shiftState = some 0) ∧
    ((run (viacoreReset viacoreSetupContext 0) (.store 2 11 0x1c :: edges)).map
      fun v => v.ifr &&& imSr) = some 0 := by
  decide +kernel

end Vice.L4.ViaTransfer
