import Vice.L4Machine.CiaWarp

/-!
# The alarms of the CIA timers

`ciat_set_alarm` is a second simulation of the timer, which runs until the next underflow is
certain. It has to find the first clock for which `ciat_update` reports one.

Results:
* `alarmLoop_spec`: what the look-ahead finds, against the timer run cycle by cycle.
* `setAlarm_exact`: when the alarm is the first clock with an underflow.
-/
namespace Vice.L4.CiaAlarm
open Vice.L0.CountedSteps Vice.L4.CiaTimer Vice.L4.CiaWarp

section
variable {s u : Ciat} {t : TState} {cclk fuel j k n a : Nat}

/-! ## Underflows do not depend on the clock -/

def retime (s : Ciat) (clk : Nat) : Ciat := { s with clk := clk }

theorem underflow_retime (s : Ciat) (clk : Nat) : underflow (retime s clk) = retime (underflow s) clk := by
  unfold underflow
  rw [show underflows (retime s clk) = underflows s from rfl]
  split <;> rfl

theorem reload_retime (s : Ciat) (clk : Nat) : reload (retime s clk) = retime (reload s) clk := by
  unfold reload
  rw [show (retime s clk).state = s.state from rfl]
  split <;> rfl

theorem stopOneshot_retime (s : Ciat) (clk : Nat) :
    stopOneshot (retime s clk) = retime (stopOneshot s) clk := by
  unfold stopOneshot
  rw [show (retime s clk).state = s.state from rfl]
  split <;> rfl

theorem cycle_retime (s : Ciat) (clk : Nat) :
    cycle (retime s clk) = (retime (cycle s).1 (clk + 1), (cycle s).2) := by
  refine Prod.ext ?_ rfl
  rw [cycle, show inc (retime s clk) = retime (inc s) (clk + 1) from rfl, tail, underflow_retime,
    reload_retime, stopOneshot_retime]
  rfl

theorem steps_retime (k : Nat) (s : Ciat) (clk : Nat) :
    (steps cycle k (retime s clk)).2 = (steps cycle k s).2 := by
  induction k generalizing s clk with
  | zero => rfl
  | succ k ih => rw [steps_succ, steps_succ, cycle_retime, ih]

/-! ## Cycles without an underflow -/

def quietNext (t : TState) : TState :=
  { ciatTable t with count3 := (ciatTable t).count3 && !(ciatTable t).load }

theorem cycle_quiet (h : underflows (inc s) = false) :
    cycle s = (stopOneshot (reload (inc s)), 0) ∧ (cycle s).1.state = quietNext s.state := by
  have hcycle : cycle s = (stopOneshot (reload (inc s)), 0) := by
    simp [cycle, tail, underflow, h]
  have hout : (reload (inc s)).state.out = false := by
    unfold reload
    split <;> rfl
  have hstate : (stopOneshot (reload (inc s))).state = (reload (inc s)).state := by
    rw [stopOneshot, hout]
    rfl
  refine ⟨hcycle, ?_⟩
  rw [hcycle, hstate, quietNext]
  unfold reload
  split
  · next hload =>
    have hoff : ((ciatTable s.state).count3 && !(ciatTable s.state).load) = false := by
      rw [show (ciatTable s.state).load = true from hload, Bool.not_true, Bool.and_false]
    rw [hoff]
    rfl
  · next hload =>
    have hsame : ((ciatTable s.state).count3 && !(ciatTable s.state).load) =
        (ciatTable s.state).count3 := by
      rw [show (ciatTable s.state).load = false from Bool.not_eq_true _ ▸ hload, Bool.not_false, Bool.and_true]
    rw [hsame]
    rfl

theorem cycle_alarmStopped (h : alarmStopped s.state = true) :
    alarmStopped (cycle s).1.state = true ∧ (cycle s).2 = 0 := by
  have hc3 : (ciatTable s.state).count3 = false := by grind [alarmStopped, ciatTable]
  have hquiet : underflows (inc s) = false := by simp [underflows, inc, hc3]
  obtain ⟨hcycle, hstate⟩ := cycle_quiet hquiet
  refine ⟨?_, by rw [hcycle]⟩
  rw [hstate]
  grind [alarmStopped, steadyOneshot, ciatTable, quietNext]

theorem steps_alarmStopped (h : alarmStopped s.state = true) (k : Nat) : (steps cycle k s).2 = 0 := by
  induction k generalizing s with
  | zero => rfl
  | succ k ih =>
    obtain ⟨hnext, hn⟩ := cycle_alarmStopped h
    rw [steps_succ, hn, ih hnext]

/-! ## What the look-ahead finds -/

/-- The first underflow is after `k` cycles. -/
def IsFirst (s : Ciat) (k : Nat) : Prop :=
  (∀ j < k, (steps cycle j s).2 = 0) ∧ (steps cycle k s).2 ≠ 0

theorem IsFirst.unique (h : IsFirst s j) (h' : IsFirst s k) : j = k := by
  rcases Nat.lt_trichotomy j k with hlt | heq | hgt
  · exact absurd (h'.1 j hlt) h.2
  · exact heq
  · exact absurd (h.1 k hgt) h'.2

theorem IsFirst.pos (h : IsFirst s k) : 0 < k :=
  Nat.pos_of_ne_zero fun hz => h.2 (by rw [hz]; rfl)

theorem cycle_count_le (s : Ciat) : (cycle s).2 ≤ 1 := by
  simp only [cycle, tail]
  split <;> omega

theorem IsFirst.count (h : IsFirst s k) : (steps cycle k s).2 = 1 := by
  obtain ⟨j, rfl⟩ := Nat.exists_eq_succ_of_ne_zero (Nat.ne_of_gt h.pos)
  have hbefore := h.1 j (Nat.lt_succ_self j)
  have hne := h.2
  rw [Nat.succ_eq_add_one, steps_add, steps_one, hbefore] at hne ⊢
  have := cycle_count_le (steps cycle j s).1
  dsimp only at hne ⊢
  omega

theorem isFirst_succ (hn : (cycle s).2 = 0) (h : IsFirst (cycle s).1 k) : IsFirst s (k + 1) := by
  refine ⟨fun j hj => ?_, ?_⟩
  · cases j with
    | zero => rfl
    | succ j => rw [steps_succ, hn, h.1 j (by omega)]
  · rw [steps_succ, hn, Nat.zero_add]
    exact h.2

theorem isFirst_retime {clk : Nat} (h : IsFirst (retime s clk) k) : IsFirst s k := by
  simpa only [IsFirst, steps_retime] using h

theorem isFirst_counting (h : warpCounting s.state = true) (ho : s.state.out = false)
    (hcnt : s.cnt ≠ 0) : IsFirst s s.cnt := by
  refine ⟨fun j hj => (steps_counting h ho hj).2, ?_⟩
  have hc3 : (counted s s.cnt).state.count3 = true := by grind [warpCounting, counted, settle]
  have hzero : (counted s s.cnt).cnt = 0 := Nat.sub_self _
  rw [steps_underflow h ho hcnt, tail]
  simp [underflows, hc3, hzero]

/-- The timer counts, and its counter is at zero already. -/
def FromZero (s : Ciat) : Prop := warpCounting s.state = true ∧ s.cnt = 0

instance (s : Ciat) : Decidable (FromZero s) := inferInstanceAs (Decidable (_ ∧ _))

/-- The clock that the look-ahead takes for the next underflow. -/
inductive Foresees (fuel : Nat) (s : Ciat) (a : Nat) : Prop
  | never : ¬ FromZero s → a = clockMax → (∀ k, (steps cycle k s).2 = 0) → Foresees fuel s a
  | first (k : Nat) : ¬ FromZero s → IsFirst s k → k < fuel + 2 ^ 16 →
      a = (s.clk + k) % 2 ^ 64 → Foresees fuel s a
  | fromZero : FromZero s → a = s.clk % 2 ^ 64 → Foresees fuel s a

/-- A counter at zero does not go on counting. -/
theorem tail_count3 (s : Ciat) : (tail s).1.state.count3 = true → (tail s).1.cnt ≠ 0 := by
  intro hc3 hzero
  unfold tail stopOneshot at hc3 hzero
  have hkept : (reload (underflow s)).state.count3 = true ∧ (reload (underflow s)).cnt = 0 := by
    dsimp only at hc3 hzero
    split at hc3
    · next h =>
      rw [if_pos h] at hzero
      exact ⟨hc3, hzero⟩
    · next h =>
      rw [if_neg h] at hzero
      exact ⟨hc3, hzero⟩
  obtain ⟨hc3, hzero⟩ := hkept
  unfold reload at hc3 hzero
  split at hc3
  · cases hc3
  · next hload =>
    rw [if_neg hload] at hzero
    have hnot : underflows s = false := by
      cases hu : underflows s
      · rfl
      · exact absurd (by rw [underflow, if_pos hu]) hload
    rw [underflow, if_neg (by rw [hnot]; decide)] at hc3 hzero
    simp [underflows, hc3, hzero] at hnot

theorem cycle_count3 (s : Ciat) : (cycle s).1.state.count3 = true → (cycle s).1.cnt ≠ 0 :=
  tail_count3 (inc s)

/-- A round that decides nothing is a cycle. -/
theorem alarmLoop_round (hc : warpCounting s.state = false) (hs : alarmStopped s.state = false)
    (hu : underflows (inc s) = false) :
    alarmLoop (fuel + 1) s = alarmLoop fuel (retime (cycle s).1 ((s.clk + 1) % 2 ^ 64)) := by
  have hsame : underflows { inc s with clk := (s.clk + 1) % 2 ^ 64 } = false := hu
  rw [alarmLoop, hc, hs]
  simp only [Bool.false_eq_true, ↓reduceIte, hsame]
  rw [show ({ inc s with clk := (s.clk + 1) % 2 ^ 64 } : Ciat) =
    retime (inc s) ((s.clk + 1) % 2 ^ 64) from rfl, reload_retime, stopOneshot_retime,
    (cycle_quiet hu).1]

theorem valid_retime {clk : Nat} (h : Valid s) (hclk : clk ≤ clockMax) : Valid (retime s clk) :=
  ⟨h.latch, h.cnt, hclk, h.out⟩

theorem mod_le_clockMax (n : Nat) : n % 2 ^ 64 ≤ clockMax := by
  have := Nat.mod_lt n (Nat.two_pow_pos 64)
  simp only [clockMax]
  omega

theorem cycle_retime_valid (h : Valid s) (n : Nat) : Valid (retime (cycle s).1 (n % 2 ^ 64)) := by
  have hzero := cycle_valid (valid_retime h (Nat.zero_le _)) (show 0 < clockMax by decide)
  rw [cycle_retime] at hzero
  exact ⟨hzero.latch, hzero.cnt, mod_le_clockMax n, hzero.out⟩

theorem alarmLoop_spec (hv : Valid s) (h : alarmLoop fuel s = some a) : Foresees fuel s a := by
  induction fuel generalizing s with
  | zero => cases h
  | succ fuel ih =>
    by_cases hc : warpCounting s.state = true
    · have ho : s.state.out = false := by
        have := hv.out
        grind [warpCounting]
      rw [alarmLoop, if_pos hc] at h
      cases h
      by_cases hz : s.cnt = 0
      · exact .fromZero ⟨hc, hz⟩ (by rw [hz, Nat.add_zero])
      · have := hv.cnt
        exact .first s.cnt (fun h => hz h.2) (isFirst_counting hc ho hz) (by omega) rfl
    have hz : ¬ FromZero s := fun h => hc h.1
    rw [Bool.not_eq_true] at hc
    by_cases hs : alarmStopped s.state = true
    · rw [alarmLoop, hc, hs] at h
      cases h
      exact .never hz rfl (steps_alarmStopped hs)
    rw [Bool.not_eq_true] at hs
    cases hu : underflows (inc s) with
    | true =>
      have hone : (cycle s).2 = 1 := by rw [cycle, tail, hu]; rfl
      have hsame : underflows { inc s with clk := (s.clk + 1) % 2 ^ 64 } = true := hu
      rw [alarmLoop, hc, hs] at h
      simp only [Bool.false_eq_true, ↓reduceIte, hsame, Option.some.injEq] at h
      refine .first 1 hz ⟨fun j hj => ?_, ?_⟩ (by omega) h.symm
      · rw [show j = 0 by omega]
        rfl
      · rw [steps_one, hone]
        decide
    | false =>
      obtain ⟨hquiet, -⟩ := cycle_quiet hu
      have hn : (cycle s).2 = 0 := by rw [hquiet]
      rw [alarmLoop_round hc hs hu] at h
      cases ih (cycle_retime_valid hv _) h with
      | never _ ha hnone =>
        refine .never hz ha fun k => ?_
        cases k with
        | zero => rfl
        | succ k => rw [steps_succ, hn, ← steps_retime k (cycle s).1 ((s.clk + 1) % 2 ^ 64), hnone]
      | first k _ hfirst hk ha =>
        refine .first (k + 1) hz (isFirst_succ hn (isFirst_retime hfirst)) (by omega) ?_
        rw [ha, show (retime (cycle s).1 ((s.clk + 1) % 2 ^ 64)).clk = (s.clk + 1) % 2 ^ 64 from rfl]
        omega
      | fromZero hzero =>
        have hc3 : (cycle s).1.state.count3 = true := by
          have := hzero.1
          grind [warpCounting, retime]
        exact absurd hzero.2 (cycle_count3 s hc3)

/-! ## It comes to an end -/

/-- After four quiet cycles the bits of the control register have come through the pipeline. -/
theorem quietNext_decided (t : TState) : warpCounting (quietNext (quietNext (quietNext (quietNext t)))) = true ∨
      alarmStopped (quietNext (quietNext (quietNext (quietNext t)))) = true := by
  cases hs : t.crStart <;> cases hp : t.phi2in <;> cases ho : t.crOneshot <;>
    simp [quietNext, ciatTable, warpCounting, alarmStopped, steadyOneshot, hs, hp, ho]

/-- A round returns, or goes on with the next quiet state. -/
theorem alarmLoop_next (s : Ciat) : (∃ a, ∀ fuel, alarmLoop (fuel + 1) s = some a) ∨
      ∃ u, u.state = quietNext s.state ∧ ∀ fuel, alarmLoop (fuel + 1) s = alarmLoop fuel u := by
  cases hc : warpCounting s.state with
  | true => exact .inl ⟨_, fun fuel => by rw [alarmLoop, if_pos hc]⟩
  | false =>
    cases hs : alarmStopped s.state with
    | true =>
      refine .inl ⟨clockMax, fun fuel => ?_⟩
      rw [alarmLoop, hc, hs]
      rfl
    | false =>
      cases hu : underflows (inc s) with
      | true =>
        have hsame : underflows { inc s with clk := (s.clk + 1) % 2 ^ 64 } = true := hu
        refine .inl ⟨(s.clk + 1) % 2 ^ 64, fun fuel => ?_⟩
        rw [alarmLoop, hc, hs]
        simp only [Bool.false_eq_true, ↓reduceIte, hsame]
      | false =>
        exact .inr ⟨retime (cycle s).1 ((s.clk + 1) % 2 ^ 64), (cycle_quiet hu).2,
          fun fuel => alarmLoop_round hc hs hu⟩

theorem alarmLoop_decided (h : warpCounting s.state = true ∨ alarmStopped s.state = true) :
    ∃ a, ∀ fuel, alarmLoop (fuel + 1) s = some a := by
  by_cases hc : warpCounting s.state = true
  · exact ⟨_, fun fuel => by rw [alarmLoop, if_pos hc]⟩
  · exact ⟨_, fun fuel => by rw [alarmLoop, if_neg hc, if_pos (h.resolve_left hc)]⟩

/-- One more quiet cycle, one more round. -/
theorem alarmLoop_back {m : Nat}
    (h : ∀ u : Ciat, u.state = quietNext s.state → ∃ a, ∀ fuel, alarmLoop (fuel + m) u = some a) :
    ∃ a, ∀ fuel, alarmLoop (fuel + m + 1) s = some a := by
  rcases alarmLoop_next s with ⟨a, ha⟩ | ⟨u, hu, hround⟩
  · exact ⟨a, fun fuel => ha (fuel + m)⟩
  · obtain ⟨a, ha⟩ := h u hu
    exact ⟨a, fun fuel => by rw [hround, ha]⟩

theorem alarmLoop_returns (s : Ciat) : ∃ a, ∀ fuel, alarmLoop (fuel + 5) s = some a := by
  refine alarmLoop_back fun u₁ h₁ => alarmLoop_back fun u₂ h₂ => alarmLoop_back fun u₃ h₃ =>
    alarmLoop_back fun u₄ h₄ => alarmLoop_decided ?_
  rw [h₄, h₃, h₂, h₁]
  exact quietNext_decided s.state

/-! ## What an update up to the next underflow reports -/

theorem update_more (h : ciatUpdate fuel s cclk = some (u, n)) :
    ciatUpdate (fuel + 1) s cclk = some (u, n) := by
  induction fuel generalizing s n with
  | zero => cases h
  | succ fuel ih =>
    by_cases hclk : s.clk < cclk
    · have hround := (Prod.eta (ciatRound s cclk)).symm
      rw [update_round hclk hround, Option.map_eq_some_iff] at h ⊢
      obtain ⟨⟨v, m⟩, hrest, he⟩ := h
      cases he
      exact ⟨_, ih hrest, rfl⟩
    · rw [ciatUpdate, if_neg hclk] at h ⊢
      exact h

theorem update_unique {fuel' n' : Nat} {u' : Ciat} (h : ciatUpdate fuel s cclk = some (u, n))
    (h' : ciatUpdate fuel' s cclk = some (u', n')) : u = u' ∧ n = n' := by
  have hmore : ∀ {f v m} d, ciatUpdate f s cclk = some (v, m) →
      ciatUpdate (f + d) s cclk = some (v, m) := by
    intro f v m d hf
    induction d with
    | zero => exact hf
    | succ d ih => exact update_more ih
  have heq := (hmore fuel' h).symm.trans (Nat.add_comm fuel fuel' ▸ hmore fuel h')
  simpa using heq

/-- `ciat_update` reports an underflow. -/
def Reports (s : Ciat) (cclk : Nat) : Prop :=
  ∃ fuel t n, ciatUpdate fuel s cclk = some (t, n) ∧ n ≠ 0

theorem steps_clk (k : Nat) (s : Ciat) : (steps cycle k s).1.clk = s.clk + k := by
  induction k generalizing s with
  | zero => rfl
  | succ k ih =>
    rw [steps_succ, ih, cycle, tail_clk]
    exact Nat.add_right_comm s.clk 1 k

theorem steps_valid (hv : Valid s) (k : Nat) : Valid (retime (steps cycle k s).1 0) := by
  induction k with
  | zero => exact valid_retime hv (Nat.zero_le _)
  | succ k ih =>
    have hnext := cycle_retime_valid ih 0
    rw [cycle_retime] at hnext
    rw [steps_add, steps_one]
    exact hnext

theorem isFirst_steps (hn : (steps cycle j s).2 = 0) (h : IsFirst (steps cycle j s).1 k) :
    IsFirst s (j + k) := by
  refine ⟨fun i hi => ?_, ?_⟩
  · rcases Nat.le_total i j with hle | hle
    · exact Nat.le_zero.mp (hn ▸ steps_le hle)
    · obtain ⟨d, rfl⟩ := Nat.exists_eq_add_of_le hle
      rw [steps_add, hn, h.1 d (by omega)]
  · rw [steps_add, hn, Nat.zero_add]
    exact h.2

/-- Up to the first underflow no state spoils a shortcut. -/
theorem good_before (hv : Valid s) (hz : ¬ FromZero s) (hno : ∀ j, s.clk + j < a → (steps cycle j s).2 = 0)
    (hmax : ∀ k, IsFirst s k → s.clk + k ≤ clockMax) :
    ∀ j, s.clk + j < a → ¬ Spoils (settle (steps cycle j s).1) a := by
  intro j hj hsp
  have hclk := steps_clk j s
  have hquiet := hno j hj
  have hvalid := steps_valid hv j
  have hnz : ¬ FromZero (steps cycle j s).1 := by
    cases j with
    | zero => exact hz
    | succ j =>
      rw [steps_add, steps_one]
      rintro ⟨hc, hzero⟩
      exact cycle_count3 _ (by grind [warpCounting]) hzero
  have hfirst : warpCounting (steps cycle j s).1.state = true →
      IsFirst s (j + (steps cycle j s).1.cnt) := fun hc => by
    have ho : (steps cycle j s).1.state.out = false := by
      have hout : (steps cycle j s).1.state.out = true → (steps cycle j s).1.state.load = true :=
        hvalid.out
      grind [warpCounting]
    exact isFirst_steps hquiet (isFirst_counting hc ho fun hzero => hnz ⟨hc, hzero⟩)
  cases hsp with
  | fromZero hc hzero => exact hnz ⟨hc, hzero⟩
  | pastMax hc hm =>
    have hle := hmax _ (hfirst hc)
    have hm' : clockMax < (steps cycle j s).1.clk + (steps cycle j s).1.cnt := hm
    omega
  | latchZero hc _ _ hle hrest =>
    have hle' : (steps cycle j s).1.clk + (steps cycle j s).1.cnt ≤ a := hle
    have hrest' : (a - ((steps cycle j s).1.clk + (steps cycle j s).1.cnt)) % 2 ^ 16 ≠ 0 := hrest
    exact (hfirst hc).2 (hno _ (by omega))
  | farAhead hs hcnt hl hfar =>
    have hticked : settle (steps cycle j s).1 =
        ticked 1 (steps cycle j s).1.alarmclk (steps cycle j s).1.clk := by
      rw [ticked, ← hs, settle]
      simp only [settle] at hcnt hl
      rw [hcnt, hl]
    have htwo := congrArg Prod.snd (steps_period Nat.one_ne_zero (steps cycle j s).1.alarmclk
      (steps cycle j s).1.clk)
    rw [← hticked, (steps_settle _ _).2] at htwo
    have hlate := hno (j + 2) (by
      have hfar' : 2 ^ 31 ≤ a - (steps cycle j s).1.clk := hfar
      omega)
    rw [steps_add, htwo] at hlate
    omega

/-- Such an update counts the underflows of the cycles. -/
theorem reports_iff (hv : Valid s) (hz : ¬ FromZero s) (hno : ∀ j, s.clk + j < a → (steps cycle j s).2 = 0)
    (hmax : ∀ k, IsFirst s k → s.clk + k ≤ clockMax) (ha : a ≤ clockMax) :
    Reports s a ↔ (steps cycle (a - s.clk) s).2 % 2 ^ 32 ≠ 0 := by
  obtain ⟨t, n, hu, -, hn⟩ := update_steps hv ha (good_before hv hz hno hmax)
    (Nat.lt_succ_self (a - s.clk))
  constructor
  · rintro ⟨fuel, t', n', hu', hne⟩
    rw [← hn, (update_unique hu hu').2]
    exact hne
  · exact fun hne => ⟨_, t, n, hu, hn ▸ hne⟩

/-! ## The alarm -/

/-- The alarm is the first clock for which an update reports an underflow, and `CLOCK_MAX` exactly
if there is none. -/
structure AlarmExact (s : Ciat) (alarmclk : Nat) : Prop where
  first : alarmclk ≠ clockMax → s.clk < alarmclk ∧ Reports s alarmclk ∧
    ∀ b, s.clk < b → b < alarmclk → ¬ Reports s b
  never : alarmclk = clockMax ↔ ∀ b, s.clk < b → b ≤ clockMax → ¬ Reports s b

/-- The timer is not in the counting state with its counter at zero, and its next underflow, if
there is one, comes before `CLOCK_MAX`. (At `CLOCK_MAX` itself the first case does no harm.) -/
def Foreseeable (s : Ciat) : Prop :=
  if FromZero s then s.clk = clockMax
  else ∀ k, IsFirst s k → s.clk + k < clockMax

theorem never_exact (hv : Valid s) (hz : ¬ FromZero s)
    (hnone : ∀ k, (steps cycle k s).2 = 0) : AlarmExact s clockMax := by
  refine ⟨fun hne => absurd rfl hne, iff_of_true rfl fun b hlt hle => ?_⟩
  rw [reports_iff hv hz (fun j _ => hnone j) (fun k hk => absurd (hnone k) hk.2) hle, hnone]
  decide

/-- No update to a clock before the first underflow reports one, and the update to it does. -/
theorem first_reports (hv : Valid s) (hz : ¬ FromZero s) (hk : IsFirst s k) (hle : s.clk + k ≤ clockMax) :
    Reports s (s.clk + k) ∧ ∀ b, s.clk < b → b < s.clk + k → ¬ Reports s b := by
  have hmax : ∀ i, IsFirst s i → s.clk + i ≤ clockMax := fun i hi => by
    rw [hi.unique hk]
    exact hle
  constructor
  · rw [reports_iff hv hz (fun j hj => hk.1 j (by omega)) hmax hle, Nat.add_sub_cancel_left, hk.count]
    decide
  · intro b hlt hb
    rw [reports_iff hv hz (fun j hj => hk.1 j (by omega)) hmax (by omega), hk.1 _ (by omega)]
    decide

theorem first_exact (hv : Valid s) (hz : ¬ FromZero s)
    (hk : IsFirst s k) (hlt : s.clk + k < clockMax) : AlarmExact s (s.clk + k) := by
  obtain ⟨hreport, hbefore⟩ := first_reports hv hz hk (by omega)
  have hpos := hk.pos
  refine ⟨fun _ => ⟨by omega, hreport, hbefore⟩, iff_of_false (by omega) fun hnever => ?_⟩
  exact hnever _ (by omega) (by omega) hreport

/-- At `CLOCK_MAX` the alarm reads as none, and past it the sum wraps around. -/
theorem late_fails (hv : Valid s) (hz : ¬ FromZero s)
    (hk : IsFirst s k) (hsmall : k < 2 ^ 63) (hge : clockMax ≤ s.clk + k) :
    ¬ AlarmExact s ((s.clk + k) % 2 ^ 64) := by
  intro hexact
  have hclk := hv.clk
  have hpos := hk.pos
  rcases Nat.eq_or_lt_of_le hge with heq | hgt
  · have hmod : (s.clk + k) % 2 ^ 64 = clockMax := by rw [← heq]; rfl
    rw [hmod] at hexact
    exact hexact.never.mp rfl clockMax (by omega) (Nat.le_refl _)
      (heq ▸ (first_reports hv hz hk (by omega)).1)
  · simp only [clockMax] at hclk hgt
    have hback : (s.clk + k) % 2 ^ 64 < s.clk := by omega
    have hne : (s.clk + k) % 2 ^ 64 ≠ clockMax := by
      simp only [clockMax]
      omega
    have := (hexact.first hne).1
    omega

/-- `ciat_set_alarm` returns, and the alarm it sets is the first clock for which `ciat_update`
reports an underflow exactly when the underflow can be foreseen. -/
theorem setAlarm_exact (hr : Reachable s) (hfuel : 5 ≤ fuel) :
    ∃ a, ciatSetAlarm fuel s = some { s with alarmclk := a } ∧ (AlarmExact s a ↔ Foreseeable s) := by
  have hv := reachable_valid hr
  obtain ⟨a, ha⟩ := alarmLoop_returns s
  have hloop : alarmLoop fuel s = some a := by
    have := ha (fuel - 5)
    rwa [Nat.sub_add_cancel hfuel] at this
  refine ⟨a, by rw [ciatSetAlarm, hloop]; rfl, ?_⟩
  unfold Foreseeable
  cases alarmLoop_spec hv (ha 0) with
  | fromZero hzero hmod =>
    have hclk : s.clk < 2 ^ 64 := Nat.lt_succ_of_le hv.clk
    rw [if_pos hzero, hmod, Nat.mod_eq_of_lt hclk]
    constructor
    · intro hexact
      by_contra hne
      exact Nat.lt_irrefl _ (hexact.first hne).1
    · intro hmax
      rw [hmax]
      exact ⟨fun hne => absurd rfl hne, iff_of_true rfl fun b hlt hle => by omega⟩
  | never hz hmax hnone =>
    rw [if_neg hz, hmax]
    exact iff_of_true (never_exact hv hz hnone) fun k hk => absurd (hnone k) hk.2
  | first k hz hk hsmall hmod =>
    rw [if_neg hz, hmod]
    by_cases hlt : s.clk + k < clockMax
    · rw [Nat.mod_eq_of_lt (Nat.lt_trans hlt (by decide))]
      refine iff_of_true (first_exact hv hz hk hlt) fun i hi => ?_
      rw [hi.unique hk]
      exact hlt
    · exact iff_of_false (late_fails hv hz hk (by omega) (by omega)) fun hall => hlt (hall k hk)

end

/-- Counting from zero, the alarm is set to the current clock. -/
theorem setAlarm_at_clk :
    Reachable restarted ∧ ciatSetAlarm 5 restarted = some { restarted with alarmclk := 4 } ∧
      ¬ AlarmExact restarted 4 :=
  ⟨restarted_reachable, by decide, fun h => absurd (h.first (by decide)).1 (by decide)⟩

/-- Counting from 1 at clock 4, the underflow is at 5. -/
theorem setAlarm_exact_started : ∃ a, ciatSetAlarm 5 started = some { started with alarmclk := a } ∧
      (AlarmExact started a ↔ Foreseeable started) :=
  setAlarm_exact started_reachable (Nat.le_refl 5)

end Vice.L4.CiaAlarm
