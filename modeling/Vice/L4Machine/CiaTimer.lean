import Mathlib.Algebra.Group.Nat.Defs
import Mathlib.Data.List.Basic
import Vice.L0Core.CountedSteps

/-!
# The timers of the CIA

A timer is a pipeline of bits that a table moves on with every cycle, a counter and a latch.
`ciat_update` brings it to a clock, with shortcuts over many cycles at a time;
`ciat_set_alarm` looks ahead for the next underflow on its own.

Results:
* `cycle_settle`: the `STEP` bit matters while the timer is started and `COUNT2` is off.
* `reachable_valid`: what holds of every timer the operations lead to.
-/
namespace Vice.L4.CiaTimer
open Vice.L0.CountedSteps

/-- The bits of `ciat_tstate_t`, under the names of src/core/ciatimer.h:48-62. -/
structure TState where
  crStart : Bool
  crOneshot : Bool
  crFload : Bool
  phi2in : Bool
  step : Bool
  count2 : Bool
  count3 : Bool
  count : Bool
  load1 : Bool
  oneshot0 : Bool
  oneshot : Bool
  load : Bool
  out : Bool
  deriving DecidableEq

/-- mirrors src/core/ciatimer.c:121-161 (`ciat_init_table`): the entry for `i` -/
def ciatTable (i : TState) : TState where
  crStart := i.crStart
  crOneshot := i.crOneshot
  crFload := false
  phi2in := i.phi2in
  step := false
  count2 := i.crStart && i.phi2in
  count3 := i.count2 || (i.step && i.crStart)
  count := i.count3
  load1 := i.crFload
  load := i.load1
  oneshot0 := i.crOneshot
  oneshot := i.oneshot0
  out := false

/-- `CLOCK_MAX` -/
def clockMax : Nat := 2 ^ 64 - 1

/-- mirrors src/core/ciatimer.h:69-77 (`ciat_s`). `latch` and `cnt` are 16 bits wide, the clocks
64. -/
structure Ciat where
  state : TState
  latch : Nat
  cnt : Nat
  alarmclk : Nat
  clk : Nat
  deriving DecidableEq

/-! ## One cycle -/

/-- The branch "inc" of the loops: count down, then the table. -/
def inc (s : Ciat) : Ciat :=
  { s with
    cnt := if s.cnt ≠ 0 ∧ s.state.count3 then s.cnt - 1 else s.cnt
    state := ciatTable s.state
    clk := s.clk + 1 }

def underflows (s : Ciat) : Bool := s.cnt == 0 && s.state.count3

def underflow (s : Ciat) : Ciat :=
  if underflows s then { s with state := { s.state with load := true, out := true } } else s

def reload (s : Ciat) : Ciat :=
  if s.state.load then { s with cnt := s.latch, state := { s.state with count3 := false } } else s

def stopOneshot (s : Ciat) : Ciat :=
  if s.state.out && (s.state.oneshot || s.state.oneshot0) then
    { s with state := { s.state with crStart := false, count2 := false } }
  else s

/-- The end of the loop of `ciat_update` (src/core/ciatimer.h:325-337), with the underflow it
counts. -/
def tail (s : Ciat) : Ciat × Nat :=
  (stopOneshot (reload (underflow s)), if underflows s then 1 else 0)

/-- The loop of `ciat_update` with its branch "inc" only. -/
def cycle (s : Ciat) : Ciat × Nat := tail (inc s)

/-! ## The shortcuts -/

def steadyOneshot (t : TState) : Bool :=
  (t.crOneshot && t.oneshot0 && t.oneshot) || (!t.crOneshot && !t.oneshot0 && !t.oneshot)

/-- The condition of "warp counting". -/
def warpCounting (t : TState) : Bool :=
  (t.crStart && t.phi2in && t.count2 && t.count3 && t.count) &&
    (!t.crFload && !t.load1 && !t.load) && steadyOneshot t

/-- The condition of "warp stopped" in `ciat_set_alarm`. -/
def alarmStopped (t : TState) : Bool :=
  (!t.count2 && !t.count3 && !t.count) && (!t.crStart || (!t.phi2in && !t.step)) && steadyOneshot t

/-- The condition of "warp stopped" in `ciat_update`. -/
def warpStopped (t : TState) : Bool :=
  alarmStopped t && (!t.crFload && !t.load1 && !t.load)

/-- The state that a timer with latch 1 has at every second cycle. -/
def latchOneState : TState :=
  { crStart := true, crOneshot := false, crFload := false, phi2in := true, step := false,
    count2 := true, count3 := false, count := true, load1 := false, oneshot0 := false,
    oneshot := false, load := true, out := true }

/-- mirrors src/core/ciatimer.h:270-291, up to the end of the branch -/
def warpCount (s : Ciat) (cclk : Nat) : Ciat × Nat :=
  let sum := (s.clk + s.cnt) % 2 ^ 64
  if sum > cclk then
    ({ s with cnt := (s.cnt + 2 ^ 16 - (cclk - s.clk) % 2 ^ 16) % 2 ^ 16, clk := cclk }, 0)
  else if s.state.crOneshot || s.state.oneshot0 then ({ s with clk := sum, cnt := 0 }, 0)
  else if (cclk - sum) % 2 ^ 16 ≥ s.latch + 1 then
    let m := (cclk - sum) / (s.latch + 1)
    ({ s with clk := sum + m * (s.latch + 1), cnt := 0 }, m)
  else ({ s with clk := sum, cnt := 0 }, 0)

/-- A clock cast to `int` and back. -/
def throughInt (d : Nat) : Nat :=
  if d % 2 ^ 32 < 2 ^ 31 then d % 2 ^ 32 else d % 2 ^ 32 + (2 ^ 64 - 2 ^ 32)

/-- mirrors src/core/ciatimer.h:303-316 -/
def warpLatchOne (s : Ciat) (cclk : Nat) : Ciat × Nat :=
  let m := throughInt ((cclk - s.clk) / 2 * 2)
  if m ≠ 0 then ({ s with clk := (s.clk + m) % 2 ^ 64 }, m / 2)
  else ({ s with state := ciatTable s.state, clk := s.clk + 1 }, 0)

/-- One round of the loop of `ciat_update`. -/
def ciatRound (s : Ciat) (cclk : Nat) : Ciat × Nat :=
  let (s, n) :=
    if warpCounting s.state then warpCount s cclk
    else if warpStopped s.state then ({ s with clk := cclk }, 0)
    else if s.state = latchOneState ∧ s.cnt = 1 ∧ s.latch = 1 then warpLatchOne s cclk
    else (inc s, 0)
  let (s, m) := tail s
  (s, n + m)

/-- At most `fuel` rounds. The underflows are counted in an `int`.
mirrors src/core/ciatimer.h:236-350 -/
def ciatUpdate : Nat → Ciat → Nat → Option (Ciat × Nat)
  | 0, _, _ => none
  | fuel + 1, s, cclk =>
    if s.clk < cclk then
      let (s, n) := ciatRound s cclk
      (ciatUpdate fuel s cclk).map fun (s, m) => (s, (n + m) % 2 ^ 32)
    else some (s, 0)

/-! ## The next alarm -/

/-- The loop of `ciat_set_alarm`, on copies of the timer's fields. -/
def alarmLoop : Nat → Ciat → Option Nat
  | 0, _ => none
  | fuel + 1, s =>
    if warpCounting s.state then some ((s.clk + s.cnt) % 2 ^ 64)
    else if alarmStopped s.state then some clockMax
    else
      let s := { inc s with clk := (s.clk + 1) % 2 ^ 64 }
      if underflows s then some s.clk else alarmLoop fuel (stopOneshot (reload s))

/-- The alarm itself is set or unset on the queue with the same clock.
mirrors src/core/ciatimer.h:155-228 -/
def ciatSetAlarm (fuel : Nat) (s : Ciat) : Option Ciat :=
  (alarmLoop fuel s).map fun tmp => { s with alarmclk := tmp }

/-! ## Operations -/

/-- mirrors src/core/ciatimer.c:181-195 -/
def ciatReset (cclk : Nat) : Ciat :=
  { state := ⟨false, false, false, false, false, false, false, false, false, false, false, false,
      false⟩
    latch := 0xffff, cnt := 0xffff, alarmclk := clockMax, clk := cclk }

/-- mirrors src/core/ciatimer.h:381-390 -/
def ciatSingleStep (fuel : Nat) (s : Ciat) : Option Ciat :=
  if s.state.crStart then ciatSetAlarm fuel { s with state := { s.state with step := true } }
  else some s

/-- mirrors src/core/ciatimer.h:392-404 -/
def ciatSetLatchhi (fuel : Nat) (s : Ciat) (byte : UInt8) : Option Ciat :=
  let latch := s.latch % 256 + byte.toNat * 256
  ciatSetAlarm fuel { s with
    latch, cnt := if s.state.load || !s.state.crStart then latch else s.cnt }

/-- mirrors src/core/ciatimer.h:406-419 -/
def ciatSetLatchlo (fuel : Nat) (s : Ciat) (byte : UInt8) : Option Ciat :=
  ciatSetAlarm fuel { s with
    latch := s.latch / 256 * 256 + byte.toNat
    cnt := if s.state.load then s.cnt / 256 * 256 + byte.toNat else s.cnt }

/-- mirrors src/core/ciatimer.h:422-434 -/
def ciatSetCtrl (fuel : Nat) (s : Ciat) (byte : UInt8) : Option Ciat :=
  ciatSetAlarm fuel { s with
    state := { s.state with
      crStart := byte.toBitVec.getLsbD 0
      crOneshot := byte.toBitVec.getLsbD 3
      crFload := byte.toBitVec.getLsbD 4
      phi2in := !byte.toBitVec.getLsbD 5 } }

/-- The timers that the operations lead to. -/
inductive Reachable : Ciat → Prop
  | reset (cclk : Nat) : cclk ≤ clockMax → Reachable (ciatReset cclk)
  | update {s t : Ciat} {fuel cclk n : Nat} : Reachable s → cclk ≤ clockMax →
      ciatUpdate fuel s cclk = some (t, n) → Reachable t
  | singleStep {s t : Ciat} {fuel : Nat} : Reachable s → ciatSingleStep fuel s = some t →
      Reachable t
  | setLatchhi {s t : Ciat} {fuel : Nat} {byte : UInt8} : Reachable s →
      ciatSetLatchhi fuel s byte = some t → Reachable t
  | setLatchlo {s t : Ciat} {fuel : Nat} {byte : UInt8} : Reachable s →
      ciatSetLatchlo fuel s byte = some t → Reachable t
  | setCtrl {s t : Ciat} {fuel : Nat} {byte : UInt8} : Reachable s →
      ciatSetCtrl fuel s byte = some t → Reachable t

/-! ## What the `STEP` bit does -/

section
variable {s t : Ciat} {cclk fuel n : Nat}

/-- Without a `STEP` bit that has no effect: the table reads it only when the timer is started and
`COUNT2` is off. -/
def settle (s : Ciat) : Ciat :=
  { s with state := { s.state with step := s.state.step && s.state.crStart && !s.state.count2 } }

theorem ciatTable_step (i : TState) :
    ciatTable { i with step := i.step && i.crStart && !i.count2 } = ciatTable i := by
  obtain ⟨crStart, _, _, _, step, count2, _⟩ := i
  simp only [ciatTable, TState.mk.injEq, and_true, true_and]
  revert crStart step count2
  decide

theorem inc_settle (s : Ciat) : inc (settle s) = inc s := by
  simp only [inc, settle, ciatTable_step]
  rfl

theorem cycle_settle (s : Ciat) : cycle (settle s) = cycle s := by rw [cycle, inc_settle, cycle]

theorem settle_settle (s : Ciat) : settle (settle s) = settle s := by
  have hand : ∀ a b c : Bool, (a && b && !c && b && !c) = (a && b && !c) := by decide
  simp only [settle, hand]

/-- Runs of equal settled states stay equal. -/
theorem steps_settle (k : Nat) (s : Ciat) : settle (steps cycle k (settle s)).1 = settle (steps cycle k s).1 ∧
      (steps cycle k (settle s)).2 = (steps cycle k s).2 := by
  cases k with
  | zero => exact ⟨settle_settle s, rfl⟩
  | succ k => rw [steps_succ, steps_succ, cycle_settle]; exact ⟨rfl, rfl⟩

/-! ## What every timer has -/

structure Valid (s : Ciat) : Prop where
  latch : s.latch < 2 ^ 16
  cnt : s.cnt < 2 ^ 16
  clk : s.clk ≤ clockMax
  /-- An underflow loads the latch in the same cycle. -/
  out : s.state.out = true → s.state.load = true

theorem tail_valid (h : Valid s) : Valid (tail s).1 := by
  obtain ⟨hlatch, hcnt, hclk, hout⟩ := h
  have hu : Valid (underflow s) := by
    unfold underflow
    split
    · exact ⟨hlatch, hcnt, hclk, fun _ => rfl⟩
    · exact ⟨hlatch, hcnt, hclk, hout⟩
  have hr : Valid (reload (underflow s)) := by
    unfold reload
    split
    · next hload => exact ⟨hu.latch, hu.latch, hu.clk, fun _ => hload⟩
    · exact hu
  unfold tail stopOneshot
  dsimp only
  split
  · exact ⟨hr.latch, hr.cnt, hr.clk, hr.out⟩
  · exact hr

theorem inc_valid (h : Valid s) (hclk : s.clk < clockMax) : Valid (inc s) := by
  refine ⟨h.latch, ?_, hclk, fun hout => by simp [inc, ciatTable] at hout⟩
  have := h.cnt
  simp only [inc]
  split <;> omega

theorem cycle_valid (h : Valid s) (hclk : s.clk < clockMax) : Valid (cycle s).1 :=
  tail_valid (inc_valid h hclk)

theorem warpCount_valid (h : Valid s) (hcclk : cclk ≤ clockMax) : Valid (warpCount s cclk).1 := by
  have hmod : (s.clk + s.cnt) % 2 ^ 64 ≤ clockMax := by
    have := Nat.mod_lt (s.clk + s.cnt) (Nat.two_pow_pos 64)
    simp only [clockMax]
    omega
  unfold warpCount
  dsimp only
  generalize (s.clk + s.cnt) % 2 ^ 64 = sum at hmod ⊢
  by_cases hover : sum > cclk
  · rw [if_pos hover]
    dsimp only
    exact ⟨h.latch, Nat.mod_lt _ (Nat.two_pow_pos 16), hcclk, h.out⟩
  rw [if_neg hover]
  by_cases hone : (s.state.crOneshot || s.state.oneshot0) = true
  · rw [if_pos hone]
    dsimp only
    exact ⟨h.latch, Nat.two_pow_pos 16, hmod, h.out⟩
  rw [if_neg hone]
  by_cases hfew : (cclk - sum) % 2 ^ 16 ≥ s.latch + 1
  · rw [if_pos hfew]
    dsimp only
    have := Nat.div_mul_le_self (cclk - sum) (s.latch + 1)
    have hclk : sum + (cclk - sum) / (s.latch + 1) * (s.latch + 1) ≤ clockMax := by omega
    exact ⟨h.latch, Nat.two_pow_pos 16, hclk, h.out⟩
  · rw [if_neg hfew]
    dsimp only
    exact ⟨h.latch, Nat.two_pow_pos 16, hmod, h.out⟩

theorem warpLatchOne_valid (h : Valid s) (hclk : s.clk < cclk) (hcclk : cclk ≤ clockMax) :
    Valid (warpLatchOne s cclk).1 := by
  unfold warpLatchOne
  dsimp only
  generalize throughInt ((cclk - s.clk) / 2 * 2) = m
  split
  · refine ⟨h.latch, h.cnt, ?_, h.out⟩
    have := Nat.mod_lt (s.clk + m) (Nat.two_pow_pos 64)
    simp only [clockMax]
    omega
  · exact ⟨h.latch, h.cnt, Nat.le_trans hclk hcclk, fun hout => by simp [ciatTable] at hout⟩

theorem round_valid (h : Valid s) (hclk : s.clk < cclk) (hcclk : cclk ≤ clockMax) :
    Valid (ciatRound s cclk).1 := by
  unfold ciatRound
  dsimp only
  refine tail_valid ?_
  split
  · exact warpCount_valid h hcclk
  split
  · exact ⟨h.latch, h.cnt, hcclk, h.out⟩
  split
  · exact warpLatchOne_valid h hclk hcclk
  · exact inc_valid h (by omega)

theorem update_valid (h : Valid s) (hcclk : cclk ≤ clockMax)
    (hu : ciatUpdate fuel s cclk = some (t, n)) : Valid t := by
  induction fuel generalizing s n with
  | zero => cases hu
  | succ fuel ih =>
    rw [ciatUpdate] at hu
    split at hu
    · next hclk =>
      obtain ⟨⟨u, m⟩, hrest, he⟩ := Option.map_eq_some_iff.mp hu
      cases he
      exact ih (round_valid h hclk hcclk) hrest
    · cases hu
      exact h

theorem setAlarm_valid (hs : ciatSetAlarm fuel s = some t) (h : Valid s) : Valid t := by
  obtain ⟨tmp, -, rfl⟩ := Option.map_eq_some_iff.mp hs
  exact ⟨h.latch, h.cnt, h.clk, h.out⟩

theorem reachable_valid (hr : Reachable s) : Valid s := by
  induction hr with
  | reset cclk hc => exact ⟨(by decide : 0xffff < 2 ^ 16), (by decide : 0xffff < 2 ^ 16), hc, nofun⟩
  | update _ hc hu ih => exact update_valid ih hc hu
  | singleStep _ hs ih =>
    unfold ciatSingleStep at hs
    split at hs
    · exact setAlarm_valid hs ⟨ih.latch, ih.cnt, ih.clk, ih.out⟩
    · cases hs
      exact ih
  | @setLatchhi s t fuel byte _ hs ih =>
    have hbyte := byte.toNat_lt
    have hlatch : s.latch % 256 + byte.toNat * 256 < 2 ^ 16 := by omega
    refine setAlarm_valid hs ⟨hlatch, ?_, ih.clk, ih.out⟩
    dsimp only
    split
    · exact hlatch
    · exact ih.cnt
  | @setLatchlo s t fuel byte _ hs ih =>
    have hbyte := byte.toNat_lt
    have hlatch := ih.latch
    have hcnt := ih.cnt
    refine setAlarm_valid hs ⟨by dsimp only; omega, ?_, ih.clk, ih.out⟩
    dsimp only
    split <;> omega
  | setCtrl _ hs ih => exact setAlarm_valid hs ⟨ih.latch, ih.cnt, ih.clk, ih.out⟩

end

end Vice.L4.CiaTimer
