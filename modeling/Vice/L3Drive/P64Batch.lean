import Vice.L3Drive.P64Rotation
import Vice.L3Drive.RotationBatch

/-!
# Batches of the pulse circuit against single cycles

The counters of the pulse circuit stop a pass at everything that comes up in it, the distance to
the next pulse among them, and a pass adds its length before anything is reloaded. So a batch never
shows; what a call forgets of the one before (the current pulse and its distance) it finds again.

Results:
* `spinPass_quiet`, `spinPass_late`: the quiet cycles of a pass, and one more.
* `p64Pass_exact`, `p64_exact`: every pass is its single cycles.
* `p64_batch`: a call for `n` cycles from a reachable state is `n` calls for one.
-/
namespace Vice.L3.P64Batch
open Vice.L0.BatchedSteps Vice.L3.P64Pulses Vice.L3.Rotation Vice.L3.P64Rotation
open Vice.L3.RotationStages (ahead soSignal_quiet byteReady_ahead cyclesDone_ahead)
open Vice.L3.RotationBatch (atMost_min atMost_le noFlux readingDrive)

section
variable {d : Drive} {c : Circuit} {s : Spin} {t : Turn} {j k n : Nat}

/-! ## Room for a pass -/

/-- The counters as every pass leaves them: a filter that is ready has passed its state on. -/
structure Settled (c : Circuit) : Prop where
  frRandcount : c.frRandcount < 2 ^ 32
  filter : 40 ≤ c.filterCounter → c.filterState = c.filterLastState

/-- What every counter of the circuit leaves room for. -/
structure Room (d : Drive) (k : Nat) (c : Circuit) : Prop where
  so : c.soDelay = 0 ∨ k ≤ c.soDelay
  ue7 : 16 ≤ c.ue7Counter ∨ c.ue7Counter + k ≤ 16
  filter : d.readWriteMode = true → 40 ≤ c.filterCounter ∨ c.filterCounter + k ≤ 40
  random : d.readWriteMode = true → c.frRandcount = 0 ∨ k ≤ c.frRandcount

/-- What `k` cycles do to the circuit when nothing comes up. -/
def idle (d : Drive) (k : Nat) (c : Circuit) : Circuit :=
  { c with
    soDelay := c.soDelay - k
    ue7Counter := c.ue7Counter + k
    cycleIndex := (c.cycleIndex + k) % 2 ^ 32
    filterCounter := if d.readWriteMode then
        c.filterCounter + if c.filterCounter < 40 then k else 0
      else c.filterCounter
    frRandcount :=
      if d.readWriteMode then (c.frRandcount + 2 ^ 32 - k) % 2 ^ 32 else c.frRandcount }

/-- `idle` but for the so signal. -/
def counters (d : Drive) (k : Nat) (c : Circuit) : Circuit :=
  { idle d k c with soDelay := c.soDelay }

theorem Room.mono (h : Room d k c) (hj : j ≤ k) : Room d j c where
  so := h.so.imp_right (Nat.le_trans hj)
  ue7 := h.ue7.imp_right (Nat.le_trans (Nat.add_le_add_left hj _))
  filter hm := (h.filter hm).imp_right (Nat.le_trans (Nat.add_le_add_left hj _))
  random hm := (h.random hm).imp_right (Nat.le_trans hj)

/-! ## Quiet cycles of the circuit -/

theorem p64Filter_quiet (hs : Settled c) (hf : 40 ≤ c.filterCounter ∨ c.filterCounter + k < 40)
    (hr : c.frRandcount = 0 ∨ k < c.frRandcount) (hk : 0 < k) (hk' : k < 2 ^ 32) :
    p64Filter k c = { c with
      ue7Counter := c.ue7Counter + k
      filterCounter := c.filterCounter + if c.filterCounter < 40 then k else 0
      frRandcount := (c.frRandcount + 2 ^ 32 - k) % 2 ^ 32 } := by
  have hfr := hs.frRandcount
  have hno : ¬(40 ≤ c.filterCounter + (if c.filterCounter < 40 then k else 0) ∧
      c.filterState ≠ c.filterLastState) := by
    rintro ⟨hle, hne⟩
    refine hne (hs.filter ?_)
    split at hle <;> omega
  have hrest : (c.frRandcount + 2 ^ 32 - k) % 2 ^ 32 ≠ 0 := by omega
  simp only [p64Filter, hno, hrest, ↓reduceIte]

theorem divided_wait {α : Type} {shift wait : Circuit → α} (h : c.ue7Counter ≠ 16) :
    divided c shift wait = wait c := by
  simp only [divided, h, ↓reduceIte]

theorem p64ReadClock_quiet (hmode : d.readWriteMode = true) (hs : Settled c)
    (h : Room d (k + 1) c) (hk : 0 < k) (hk' : k < 2 ^ 32) :
    p64ReadClock d k (soSignal k c) = { idle d k c with cycleIndex := c.cycleIndex } := by
  have hue7 := h.ue7
  have hrandom := h.random hmode
  have hfilter := h.filter hmode
  rw [soSignal_quiet (h.so.imp_right Nat.lt_of_succ_le), p64ReadClock,
    @p64Filter_quiet { c with soDelay := c.soDelay - k } k ⟨hs.frRandcount, hs.filter⟩
      (hfilter.imp_right Nat.lt_of_succ_le) (hrandom.imp_right Nat.lt_of_succ_le) hk hk',
    divided_wait]
  · simp only [idle, hmode, ↓reduceIte, id_eq]
  · simp only
    omega

theorem p64WriteClock_quiet (hmode : d.readWriteMode = false) (h : Room d (k + 1) c) (hk : 0 < k) :
    p64WriteClock d k (soSignal k c) =
      (false, { idle d k c with cycleIndex := c.cycleIndex }) := by
  have hue7 := h.ue7
  rw [soSignal_quiet (h.so.imp_right Nat.lt_of_succ_le), p64WriteClock, divided_wait]
  · simp only [idle, hmode, Bool.false_eq_true, ↓reduceIte]
  · simp only
    omega

/-! ## The last cycle of a pass -/

theorem soSignal_late (h : c.soDelay = 0 ∨ k + 1 ≤ c.soDelay) :
    soSignal 1 (idle d k c) = counters d k (soSignal (k + 1) c) := by
  obtain hzero | hlast | hmore : c.soDelay = 0 ∨ c.soDelay = k + 1 ∨ k + 1 < c.soDelay := by omega
  · rw [soSignal_quiet (.inl (by simp only [idle]; omega)), soSignal_quiet (.inl hzero)]
    simp only [counters, idle, hzero, Nat.zero_sub]
  · simp only [soSignal, counters, idle, hlast, Nat.add_sub_cancel_left, Nat.sub_self, ne_eq,
      Nat.one_ne_zero, Nat.add_eq_zero_iff, and_false, not_false_eq_true, ↓reduceIte]
  · rw [soSignal_quiet (.inr hmore), soSignal_quiet (.inr (by simp only [idle]; omega))]
    simp only [counters, idle, Nat.sub_sub]

theorem p64Filter_late (hmode : d.readWriteMode = true) (hfr : c.frRandcount < 2 ^ 32)
    (hfilter : 40 ≤ c.filterCounter ∨ c.filterCounter + (k + 1) ≤ 40)
    (hrandom : c.frRandcount = 0 ∨ k + 1 ≤ c.frRandcount) (hk : k < 2 ^ 31) :
    p64Filter 1 (counters d k c) = ahead 0 0 k (p64Filter (k + 1) c) := by
  have hcount : ((c.frRandcount + 2 ^ 32 - k) % 2 ^ 32 + 2 ^ 32 - 1) % 2 ^ 32 =
      (c.frRandcount + 2 ^ 32 - (k + 1)) % 2 ^ 32 := by
    omega
  have hready : c.filterCounter + (if c.filterCounter < 40 then k else 0) +
      (if c.filterCounter + (if c.filterCounter < 40 then k else 0) < 40 then 1 else 0) =
      c.filterCounter + if c.filterCounter < 40 then k + 1 else 0 := by
    split <;> split <;> omega
  simp only [p64Filter, counters, idle, hmode, ↓reduceIte, hready, hcount, Nat.add_assoc]
  rw [apply_ite (ahead 0 0 k), apply_ite (ahead 0 0 k)]
  rfl

theorem p64ReadShift_late : p64ReadShift d 1 (ahead 0 0 k c) = ahead 0 0 k (p64ReadShift d (k + 1) c) := by
  have hin : ({ shiftIn (ahead 0 0 k c) with
        lastWriteData := (ahead 0 0 k c).lastWriteData <<< 1 } : Circuit) =
      ahead 0 0 k { shiftIn c with lastWriteData := c.lastWriteData <<< 1 } := rfl
  simp only [p64ReadShift, hin]
  generalize ({ shiftIn c with lastWriteData := c.lastWriteData <<< 1 } : Circuit) = r
  rw [apply_ite (ahead 0 0 k), apply_ite (ahead 0 0 k)]
  exact if_congr Iff.rfl rfl (if_congr Iff.rfl (@byteReady_ahead d (byteRead r) k 0 0) rfl)

theorem divided_late {α : Type} {shift : Nat → Circuit → α} {wait : Circuit → α} {later : α → α}
    (hshift : ∀ c, shift 1 (ahead 0 0 k c) = later (shift (k + 1) c))
    (hwait : ∀ c, wait (ahead 0 0 k c) = later (wait c)) :
    divided (ahead 0 0 k c) (shift 1) wait = later (divided c (shift (k + 1)) wait) := by
  unfold divided
  simp only
  rw [apply_ite later, apply_ite later, ← hshift, ← hwait, ← hwait]
  rfl

theorem soSignal_counters : (soSignal k c).frRandcount = c.frRandcount ∧
    (soSignal k c).filterCounter = c.filterCounter := by
  unfold soSignal
  simp only
  split
  · split <;> exact ⟨rfl, rfl⟩
  · exact ⟨rfl, rfl⟩

theorem p64ReadClock_late (hmode : d.readWriteMode = true) (hs : Settled c)
    (h : Room d (k + 1) c) (hk : k < 2 ^ 31) :
    p64ReadClock d 1 (soSignal 1 (idle d k c)) =
      ahead 0 0 k (p64ReadClock d (k + 1) (soSignal (k + 1) c)) := by
  obtain ⟨hfr, hcounter⟩ := @soSignal_counters c (k + 1)
  rw [soSignal_late h.so, p64ReadClock, p64ReadClock, p64Filter_late hmode (hfr ▸ hs.frRandcount)
    (hcounter ▸ h.filter hmode) (hfr ▸ h.random hmode) hk]
  exact @divided_late _ _ _ (p64ReadShift d) _ _ (fun c => p64ReadShift_late) fun c => rfl

theorem p64WriteShift_late :
    p64WriteShift d 1 (ahead 0 0 k c) = Prod.map id (ahead 0 0 k) (p64WriteShift d (k + 1) c) := by
  simp only [p64WriteShift, Prod.map_apply, id_eq]
  rw [apply_ite (ahead 0 0 k)]
  refine Prod.ext rfl (if_congr Iff.rfl ?_ rfl)
  exact @byteReady_ahead d
    { shiftIn c with bitCounter := 0, lastWriteData := d.gcrWriteValue } k 0 0

theorem p64WriteClock_late (hmode : d.readWriteMode = false) (h : Room d (k + 1) c) :
    p64WriteClock d 1 (soSignal 1 (idle d k c)) =
      Prod.map id (ahead 0 0 k) (p64WriteClock d (k + 1) (soSignal (k + 1) c)) := by
  rw [soSignal_late h.so]
  generalize soSignal (k + 1) c = e
  have hue7 : ({ counters d k e with ue7Counter := (counters d k e).ue7Counter + 1 } : Circuit) =
      ahead 0 0 k { e with ue7Counter := e.ue7Counter + (k + 1) } := by
    simp only [counters, idle, ahead, hmode, Bool.false_eq_true, ↓reduceIte, Nat.add_assoc, Nat.add_zero]
  rw [p64WriteClock, hue7, p64WriteClock]
  exact @divided_late _ _ _ (p64WriteShift d) _ _ (fun c => p64WriteShift_late) fun c => rfl

/-! ## The head -/

/-- The invariant of a call: the current pulse is the next one, its distance is the one counted
down, and the circuit is settled. -/
structure Tuned (t : Turn) : Prop where
  past : Past t.stream t.pulseHeadPosition
  delta : t.deltaPositionToNextPulse = rotationP64GetDelta t.toSpin
  head : t.pulseHeadPosition < samplesPerRotation
  settled : Settled t.circuit

theorem getDelta_some {p : Pulse} (hp : s.stream.current = some p) (hle : s.pulseHeadPosition ≤ p.position) :
    rotationP64GetDelta s = p.position - s.pulseHeadPosition ∧
      p.position < samplesPerRotation := by
  have hbound := s.stream.bounded p (List.mem_of_getElem? hp)
  have hsamples : samplesPerRotation = 3200000 := rfl
  simp only [rotationP64GetDelta, hp]
  omega

theorem getDelta_none (hp : s.stream.current = none) (hlt : s.pulseHeadPosition < samplesPerRotation) :
    rotationP64GetDelta s = samplesPerRotation - s.pulseHeadPosition := by
  have hsamples : samplesPerRotation = 3200000 := rfl
  simp only [rotationP64GetDelta, hp]
  omega

/-- The head moved on by `k`, short of the next pulse or right to it. -/
theorem trackWrap_due (hpast : Past s.stream s.pulseHeadPosition)
    (hhead : s.pulseHeadPosition < samplesPerRotation) (hk : 0 < k)
    (hk' : k ≤ rotationP64GetDelta s) :
    Due (trackWrap k s).stream (trackWrap k s).pulseHeadPosition ∧
      (trackWrap k s).pulseHeadPosition < samplesPerRotation ∧
      ((if samplesPerRotation ≤ s.pulseHeadPosition + k then rotationP64GetDelta (trackWrap k s)
        else (rotationP64GetDelta s + 2 ^ 64 - k) % 2 ^ 64) = rotationP64GetDelta (trackWrap k s)) := by
  have hsamples : samplesPerRotation = 3200000 := rfl
  cases hp : s.stream.current with
  | some p =>
    obtain ⟨hdelta, hbound⟩ := getDelta_some hp (Nat.le_of_lt (current_past hpast hp))
    have hno : ¬samplesPerRotation ≤ s.pulseHeadPosition + k := by omega
    have hnew : trackWrap k s = { s with pulseHeadPosition := s.pulseHeadPosition + k } := by
      simp only [trackWrap, hno, ↓reduceIte]
    have hdelta' := @getDelta_some (trackWrap k s) p (by rw [hnew]; exact hp) (by
      rw [hnew]
      simp only
      omega)
    rw [hnew] at hdelta' ⊢
    simp only at hdelta' ⊢
    refine ⟨due_of_past hpast (by omega) fun q hq => ?_, by omega, ?_⟩
    · rw [hp] at hq
      cases hq
      omega
    · rw [if_neg hno, hdelta'.1]
      omega
  | none =>
    have hdelta := getDelta_none hp hhead
    by_cases hwrap : samplesPerRotation ≤ s.pulseHeadPosition + k
    · simp only [trackWrap, hwrap, ↓reduceIte, and_true]
      exact ⟨due_rewind, by omega⟩
    · have hnew : trackWrap k s = { s with pulseHeadPosition := s.pulseHeadPosition + k } := by
        simp only [trackWrap, hwrap, ↓reduceIte]
      have hdelta' := @getDelta_none (trackWrap k s) (by rw [hnew]; exact hp) (by
        rw [hnew]
        simp only
        omega)
      rw [hnew] at hdelta' ⊢
      simp only at hdelta' ⊢
      refine ⟨due_of_past hpast (by omega) fun q hq => ?_, by omega, ?_⟩
      · rw [hp] at hq
        cases hq
      · rw [if_neg hwrap, hdelta']
        omega

/-! ## The pass of a spin -/

/-- A call on its way, at a place where the distance is the one to the current pulse. -/
def turnOf (s : Spin) : Turn :=
  { s with deltaPositionToNextPulse := rotationP64GetDelta s }

/-- A pass without the distance, which is found again from the head. -/
def spinPass (d : Drive) (k : Nat) (s : Spin) : Spin :=
  let s := if d.readWriteMode then
      pulseHandled (trackWrap k { s with circuit := p64ReadClock d k (soSignal k s.circuit) })
    else
      let (headWrite, c) := p64WriteClock d k (soSignal k s.circuit)
      writeHandled headWrite (trackWrap k { s with circuit := c })
  { s with circuit := cyclesDone k s.circuit }

/-- The distance is counted down to nothing exactly at a pulse. -/
theorem getDelta_zero (hdue : Due s.stream s.pulseHeadPosition)
    (hhead : s.pulseHeadPosition < samplesPerRotation) :
    rotationP64GetDelta s = 0 ↔ s.pulseHere = true := by
  cases hp : s.stream.current with
  | some p =>
    have hle : s.pulseHeadPosition ≤ p.position := by
      obtain ⟨b, a, hpulses, hindex, -, ha⟩ := hdue
      rw [current_split hpulses hindex] at hp
      exact ha p (List.mem_of_mem_head? hp)
    have hdelta := (getDelta_some hp hle).1
    simp only [Spin.pulseHere, hp, Option.any_some, decide_eq_true_eq]
    omega
  | none =>
    have hdelta := getDelta_none hp hhead
    simp only [Spin.pulseHere, hp, Option.any_none, Bool.false_eq_true, iff_false]
    omega

theorem pulseHandled_none (h : s.pulseHere = false) : pulseHandled s = s := by
  unfold pulseHandled
  cases hp : s.stream.current with
  | none => rfl
  | some p =>
    have hne : p.position ≠ s.pulseHeadPosition := by
      simpa [Spin.pulseHere, hp] using h
    simp only [hne, ↓reduceIte]

theorem readHead_eq (hpast : Past t.stream t.pulseHeadPosition)
    (hdelta : t.deltaPositionToNextPulse = rotationP64GetDelta t.toSpin)
    (hhead : t.pulseHeadPosition < samplesPerRotation) (hk : 0 < k)
    (hk' : k ≤ t.deltaPositionToNextPulse) :
    readHead k t = turnOf (pulseHandled (trackWrap k t.toSpin)) := by
  obtain ⟨hdue, hhead', hnew⟩ := trackWrap_due hpast hhead hk (hdelta ▸ hk')
  simp only [readHead, hdelta, hnew, getDelta_zero hdue hhead']
  split
  · rfl
  · rename_i hno
    rw [pulseHandled_none (by simpa using hno), turnOf]

theorem p64Pass_eq (h : Tuned t) (hk : 0 < k) (hk' : k ≤ t.deltaPositionToNextPulse) :
    p64Pass d k t = turnOf (spinPass d k t.toSpin) := by
  unfold p64Pass spinPass
  split
  · simp only [readPass]
    rw [@readHead_eq { t with circuit := p64ReadClock d k (soSignal k t.circuit) } k h.past h.delta
      h.head hk hk']
    rfl
  · rfl

/-! ## Quiet cycles and the last one -/

/-- What `k` cycles do when nothing comes up. -/
def idleSpin (d : Drive) (k : Nat) (s : Spin) : Spin :=
  { s with circuit := idle d k s.circuit, pulseHeadPosition := s.pulseHeadPosition + k }

/-- The cycle counter of a spin, `k` cycles further on. -/
def later (k : Nat) (s : Spin) : Spin :=
  { s with circuit := ahead 0 0 k s.circuit }

theorem short_of_pulse (hpast : Past s.stream s.pulseHeadPosition)
    (hhead : s.pulseHeadPosition < samplesPerRotation) (hk : k < rotationP64GetDelta s) :
    s.pulseHeadPosition + k < samplesPerRotation ∧
      s.stream.current.any (·.position = s.pulseHeadPosition + k) = false := by
  cases hp : s.stream.current with
  | some p =>
    obtain ⟨hdelta, hbound⟩ := getDelta_some hp (Nat.le_of_lt (current_past hpast hp))
    refine ⟨by omega, ?_⟩
    rw [Option.any_some, decide_eq_false_iff_not]
    omega
  | none =>
    have hdelta := getDelta_none hp hhead
    exact ⟨by omega, rfl⟩

theorem trackWrap_short (h : s.pulseHeadPosition + k < samplesPerRotation) :
    trackWrap k s = { s with pulseHeadPosition := s.pulseHeadPosition + k } := by
  simp only [trackWrap, Nat.not_le.2 h, ↓reduceIte]

theorem spinPass_quiet (hpast : Past s.stream s.pulseHeadPosition)
    (hhead : s.pulseHeadPosition < samplesPerRotation) (hs : Settled s.circuit)
    (hroom : Room d (k + 1) s.circuit) (hdelta : k < rotationP64GetDelta s) (hk : 0 < k) :
    spinPass d k s = idleSpin d k s := by
  obtain ⟨hshort, hnone⟩ := short_of_pulse hpast hhead hdelta
  have hsamples : samplesPerRotation = 3200000 := rfl
  have hwrap (c : Circuit) : trackWrap k { s with circuit := c } =
      { s with circuit := c, pulseHeadPosition := s.pulseHeadPosition + k } :=
    @trackWrap_short { s with circuit := c } k hshort
  unfold spinPass
  cases hmode : d.readWriteMode with
  | true =>
    have hhandled (c : Circuit) : pulseHandled (trackWrap k { s with circuit := c }) =
        { s with circuit := c, pulseHeadPosition := s.pulseHeadPosition + k } := by
      rw [hwrap]
      exact pulseHandled_none hnone
    simp only [↓reduceIte, hhandled, p64ReadClock_quiet hmode hs hroom hk (by omega)]
    rfl
  | false =>
    have hhandled (c : Circuit) : writeHandled false (trackWrap k { s with circuit := c }) =
        { s with circuit := c, pulseHeadPosition := s.pulseHeadPosition + k } := by
      rw [hwrap, writeHandled, if_neg (by decide)]
      exact if_neg (Bool.eq_false_iff.1 hnone)
    simp only [Bool.false_eq_true, ↓reduceIte, p64WriteClock_quiet hmode hroom hk, hhandled]
    rfl

theorem trackWrap_late (c : Circuit) : trackWrap 1 { idleSpin d k s with circuit := ahead 0 0 k c } =
      later k (trackWrap (k + 1) { s with circuit := c }) := by
  simp only [trackWrap, idleSpin, Nat.add_assoc]
  rw [apply_ite (later k)]
  rfl

theorem pulseHandled_late : pulseHandled (later k s) = later k (pulseHandled s) := by
  unfold pulseHandled
  have hstream : (later k s).stream = s.stream := rfl
  rw [hstream]
  cases s.stream.current with
  | none => rfl
  | some p =>
    simp only
    rw [apply_ite (later k)]
    refine if_congr Iff.rfl ?_ rfl
    unfold forwardPulse
    simp only
    split
    · rfl
    · have hdrawn : randomNextInt (later k s) = randomNextInt s := rfl
      rw [hdrawn]
      split <;> rfl

theorem writeHandled_late (headWrite : Bool) :
    writeHandled headWrite (later k s) = later k (writeHandled headWrite s) := by
  have hhere : (later k s).pulseHere = s.pulseHere := rfl
  unfold writeHandled
  rw [hhere]
  cases headWrite <;> cases s.pulseHere <;> rfl

/-- A pass is its quiet cycles and one more. -/
theorem spinPass_late (hs : Settled s.circuit) (hroom : Room d (k + 1) s.circuit)
    (hk : k < 2 ^ 31) : spinPass d 1 (idleSpin d k s) = spinPass d (k + 1) s := by
  unfold spinPass
  cases hmode : d.readWriteMode with
  | true =>
    have hclock : p64ReadClock d 1 (soSignal 1 (idleSpin d k s).circuit) =
        ahead 0 0 k (p64ReadClock d (k + 1) (soSignal (k + 1) s.circuit)) :=
      p64ReadClock_late hmode hs hroom hk
    simp only [↓reduceIte, hclock, trackWrap_late, pulseHandled_late]
    simp only [later, cyclesDone_ahead]
  | false =>
    have hclock : p64WriteClock d 1 (soSignal 1 (idleSpin d k s).circuit) =
        Prod.map id (ahead 0 0 k) (p64WriteClock d (k + 1) (soSignal (k + 1) s.circuit)) :=
      p64WriteClock_late hmode hroom
    simp only [Bool.false_eq_true, ↓reduceIte, hclock, Prod.map_fst, Prod.map_snd, id_eq,
      trackWrap_late, writeHandled_late]
    simp only [later, cyclesDone_ahead]

/-! ## Every pass keeps the invariant -/

/-- What `Settled` looks at. -/
def filterFrame (c : Circuit) : Nat × Nat × Nat × Nat :=
  (c.frRandcount, c.filterCounter, c.filterState, c.filterLastState)

theorem Settled.of_frame {c' : Circuit} (h : Settled c) (heq : filterFrame c' = filterFrame c) :
    Settled c' := by
  simp only [filterFrame, Prod.mk.injEq] at heq
  obtain ⟨hfr, hcounter, hstate, hlast⟩ := heq
  exact ⟨hfr ▸ h.frRandcount, fun hle => hstate ▸ hlast ▸ h.filter (hcounter ▸ hle)⟩

theorem byteReady_filter : filterFrame (byteReady d k c) = filterFrame c := by
  unfold byteReady
  split <;> rfl

theorem soSignal_filter : filterFrame (soSignal k c) = filterFrame c := by
  unfold soSignal
  simp only
  split
  · split <;> rfl
  · rfl

theorem p64ReadShift_filter : filterFrame (p64ReadShift d k c) = filterFrame c := by
  unfold p64ReadShift
  simp only
  split
  · rfl
  · split
    · exact byteReady_filter
    · rfl

theorem p64WriteShift_filter : filterFrame (p64WriteShift d k c).2 = filterFrame c := by
  unfold p64WriteShift
  simp only
  split
  · exact byteReady_filter
  · rfl

theorem fluxReversal_settled {range least : Nat} (hrange : 0 < range ∧ range + least ≤ 2 ^ 32)
    (h : 40 ≤ c.filterCounter → c.filterState = c.filterLastState) :
    Settled (fluxReversal range least c) := by
  refine ⟨?_, h⟩
  have := Nat.mod_lt (randomNextUInt c.xorShift32 >>> 16).toNat hrange.1
  simp only [fluxReversal]
  omega

theorem p64Filter_settled : Settled (p64Filter k c) := by
  unfold p64Filter
  simp only
  generalize c.filterCounter + (if c.filterCounter < 40 then k else 0) = counter
  split
  · exact fluxReversal_settled (by decide) fun _ => rfl
  · rename_i hno
    rw [not_and, not_not] at hno
    split
    · exact fluxReversal_settled (by decide) hno
    · exact ⟨Nat.mod_lt _ (by decide), hno⟩

theorem p64ReadClock_settled : Settled (p64ReadClock d k c) := by
  have h := @p64Filter_settled c k
  unfold p64ReadClock
  generalize p64Filter k c = e at h ⊢
  unfold divided
  simp only
  split
  · split
    · exact h.of_frame p64ReadShift_filter
    · exact h.of_frame rfl
  · exact h

theorem p64WriteClock_settled (h : Settled c) : Settled (p64WriteClock d k c).2 := by
  unfold p64WriteClock divided
  simp only
  split
  · split
    · exact h.of_frame p64WriteShift_filter
    · exact h.of_frame rfl
  · exact h.of_frame rfl

theorem forwardPulse_frame (strength : UInt32) : (forwardPulse strength s).stream = s.stream ∧
      (forwardPulse strength s).pulseHeadPosition = s.pulseHeadPosition ∧
      (Settled s.circuit → Settled (forwardPulse strength s).circuit) := by
  unfold forwardPulse
  simp only
  split
  · exact ⟨rfl, rfl, fun h => ⟨h.frRandcount, fun hle => absurd hle (Nat.not_le.2 (Nat.succ_pos 39))⟩⟩
  · split
    · exact ⟨rfl, rfl, fun h => ⟨h.frRandcount, fun hle => absurd hle (Nat.not_le.2 (Nat.succ_pos 39))⟩⟩
    · exact ⟨rfl, rfl, id⟩

theorem pulseHandled_past (hdue : Due s.stream s.pulseHeadPosition) :
    Past (pulseHandled s).stream (pulseHandled s).pulseHeadPosition ∧
      (pulseHandled s).pulseHeadPosition = s.pulseHeadPosition ∧
      (Settled s.circuit → Settled (pulseHandled s).circuit) := by
  cases hhere : s.pulseHere with
  | true =>
    unfold pulseHandled
    cases hp : s.stream.current with
    | none => simp [Spin.pulseHere, hp] at hhere
    | some p =>
      have hat : p.position = s.pulseHeadPosition := by simpa [Spin.pulseHere, hp] using hhere
      obtain ⟨hstream, hhead, hsettled⟩ := @forwardPulse_frame s p.strength
      simp only [hat, ↓reduceIte, hstream, hhead]
      exact ⟨past_next hdue hhere, trivial, hsettled⟩
  | false =>
    rw [pulseHandled_none hhere]
    exact ⟨past_of_due hdue hhere, rfl, id⟩

theorem writeHandled_past (headWrite : Bool) (hdue : Due s.stream s.pulseHeadPosition)
    (hhead : s.pulseHeadPosition < samplesPerRotation) :
    Past (writeHandled headWrite s).stream (writeHandled headWrite s).pulseHeadPosition ∧
      (writeHandled headWrite s).pulseHeadPosition = s.pulseHeadPosition ∧
      (writeHandled headWrite s).circuit = s.circuit := by
  unfold writeHandled
  cases hhere : s.pulseHere with
  | true =>
    cases headWrite with
    | true => exact ⟨past_strengthen hdue hhere, rfl, rfl⟩
    | false => exact ⟨past_removePulse hdue hhere, rfl, rfl⟩
  | false =>
    cases headWrite with
    | true => exact ⟨past_insertPulse _ hhead, rfl, rfl⟩
    | false => exact ⟨past_of_due hdue hhere, rfl, rfl⟩

theorem trackWrap_circuit : (trackWrap k s).circuit = s.circuit := by
  unfold trackWrap
  simp only
  split <;> rfl

theorem tuned_spinPass (h : Tuned t) (hk : 0 < k) (hk' : k ≤ t.deltaPositionToNextPulse) :
    Tuned (turnOf (spinPass d k t.toSpin)) := by
  obtain ⟨s, delta⟩ := t
  obtain ⟨hpast, hdelta, hhead, hsettled⟩ := h
  simp only at hpast hdelta hhead hsettled hk' ⊢
  unfold spinPass
  split
  · obtain ⟨hdue, hhead', -⟩ :=
      @trackWrap_due { s with circuit := p64ReadClock d k (soSignal k s.circuit) } k hpast hhead hk
        (hdelta ▸ hk')
    obtain ⟨hpast', hsame, hsettled'⟩ := pulseHandled_past hdue
    refine ⟨hpast', rfl, hsame.trans_lt hhead', ?_⟩
    have hclock := hsettled' (by rw [trackWrap_circuit]; exact p64ReadClock_settled)
    exact hclock.of_frame rfl
  · obtain ⟨hdue, hhead', -⟩ :=
      @trackWrap_due { s with circuit := (p64WriteClock d k (soSignal k s.circuit)).2 } k hpast hhead
        hk (hdelta ▸ hk')
    obtain ⟨hpast', hsame, hcircuit⟩ :=
      writeHandled_past (p64WriteClock d k (soSignal k s.circuit)).1 hdue hhead'
    refine ⟨hpast', rfl, hsame.trans_lt hhead', ?_⟩
    have hclock := @p64WriteClock_settled d _ k (hsettled.of_frame (@soSignal_filter s.circuit k))
    have hframe := congrArg filterFrame (hcircuit.trans trackWrap_circuit)
    exact (Settled.of_frame hclock hframe).of_frame rfl

/-! ## Every pass, every call -/

/-- `p64Todo` without the cycles requested. -/
def bound (d : Drive) (t : Turn) : Nat := p64Todo d t.deltaPositionToNextPulse t

theorem atMost_true (limit todo : Nat) : atMost True limit todo = min limit todo := by
  simp only [atMost, true_and]
  split <;> omega

theorem p64Todo_eq_min (hn : 0 < n) : p64Todo d n t = min n (bound d t) := by
  unfold bound p64Todo
  simp only
  split
  · omega
  · split
    · simp only [atMost_true, atMost_min, Nat.min_self]
    · have hle := (@atMost_le (t.pulseHeadPosition < samplesPerRotation) _
        (samplesPerRotation - t.pulseHeadPosition) t.deltaPositionToNextPulse).1
      simp only [atMost_true, atMost_min, Nat.min_eq_right hle]

theorem room_of_bound (hk : 2 ≤ k) (hb : k ≤ bound d t) :
    Room d k t.circuit ∧ k ≤ t.deltaPositionToNextPulse := by
  unfold bound p64Todo at hb
  simp only at hb
  split at hb
  · omega
  generalize t.circuit = c at hb ⊢
  generalize t.deltaPositionToNextPulse = delta at hb ⊢
  split at hb
  · rename_i hmode
    simp only [atMost_true, Nat.min_self] at hb
    have hue7 := @atMost_le (c.ue7Counter < 16) _ (16 - c.ue7Counter) delta
    generalize atMost (c.ue7Counter < 16) (16 - c.ue7Counter) delta = t1 at hb hue7
    have hfilter := @atMost_le (c.filterCounter < 40) _ (40 - c.filterCounter) t1
    generalize atMost (c.filterCounter < 40) (40 - c.filterCounter) t1 = t2 at hb hfilter
    have hrandom := @atMost_le (0 < c.frRandcount) _ c.frRandcount t2
    generalize atMost (0 < c.frRandcount) c.frRandcount t2 = t3 at hb hrandom
    have hso := @atMost_le (0 < c.soDelay) _ c.soDelay t3
    refine ⟨⟨?_, ?_, fun _ => ?_, fun _ => ?_⟩, ?_⟩ <;> omega
  · rename_i hmode
    have hhead := (@atMost_le (t.pulseHeadPosition < samplesPerRotation) _
      (samplesPerRotation - t.pulseHeadPosition) delta).1
    generalize atMost (t.pulseHeadPosition < samplesPerRotation)
      (samplesPerRotation - t.pulseHeadPosition) delta = t0 at hb hhead
    simp only [atMost_true, Nat.min_eq_right hhead] at hb
    have hue7 := @atMost_le (c.ue7Counter < 16) _ (16 - c.ue7Counter) t0
    generalize atMost (c.ue7Counter < 16) (16 - c.ue7Counter) t0 = t1 at hb hue7
    have hso := @atMost_le (0 < c.soDelay) _ c.soDelay t1
    refine ⟨⟨?_, ?_, fun hm => absurd hm hmode, fun hm => absurd hm hmode⟩, ?_⟩ <;> omega

theorem Tuned.delta_range (h : Tuned t) :
    1 ≤ t.deltaPositionToNextPulse ∧ t.deltaPositionToNextPulse ≤ samplesPerRotation := by
  have hhead := h.head
  rw [h.delta]
  cases hp : t.stream.current with
  | some p =>
    have hlt := current_past h.past hp
    have hdelta := @getDelta_some t.toSpin p hp (Nat.le_of_lt hlt)
    omega
  | none =>
    have hdelta := @getDelta_none t.toSpin hp hhead
    omega

theorem cycle_eq (h : Tuned t) : (p64Passes d).one t = turnOf (spinPass d 1 t.toSpin) :=
  p64Pass_eq h Nat.one_pos h.delta_range.1

theorem tuned_cycle (h : Tuned t) : Tuned ((p64Passes d).one t) := by
  rw [cycle_eq h]
  exact tuned_spinPass h Nat.one_pos h.delta_range.1

theorem tuned_idle (h : Tuned t) (hroom : Room d (k + 1) t.circuit)
    (hdelta : k < t.deltaPositionToNextPulse) (hk : 0 < k) :
    Tuned (turnOf (idleSpin d k t.toSpin)) := by
  rw [← spinPass_quiet h.past h.head h.settled hroom (h.delta ▸ hdelta) hk]
  exact tuned_spinPass h hk (Nat.le_of_lt hdelta)

/-- One cycle after the quiet ones. -/
theorem cycle_idle (h : Tuned t) (hroom : Room d (k + 1) t.circuit)
    (hdelta : k < t.deltaPositionToNextPulse) (hk : 0 < k) :
    (p64Passes d).one (turnOf (idleSpin d k t.toSpin)) = turnOf (spinPass d (k + 1) t.toSpin) := by
  have hrange := h.delta_range
  have hsamples : samplesPerRotation = 3200000 := rfl
  rw [cycle_eq (tuned_idle h hroom hdelta hk)]
  exact congrArg turnOf (spinPass_late h.settled hroom (by omega))

/-- Quiet cycles one at a time. -/
theorem iterate_quiet (h : Tuned t) (hroom : Room d (k + 1) t.circuit)
    (hdelta : k < t.deltaPositionToNextPulse) (hk : 0 < k) :
    (p64Passes d).one^[k] t = turnOf (idleSpin d k t.toSpin) := by
  induction k with
  | zero => exact absurd hk (Nat.lt_irrefl 0)
  | succ k ih =>
    rw [← spinPass_quiet h.past h.head h.settled hroom (h.delta ▸ hdelta) hk]
    obtain rfl | hpos := Nat.eq_zero_or_pos k
    · rw [Nat.zero_add, Function.iterate_one, cycle_eq h]
    · have hroom' := hroom.mono (Nat.le_succ (k + 1))
      rw [Function.iterate_succ_apply', ih hroom' (by omega) hpos,
        cycle_idle h hroom' (by omega) hpos]

theorem p64Pass_exact (h : Tuned t) (hk : 0 < k) (hb : k ≤ bound d t) :
    p64Pass d k t = (p64Passes d).one^[k] t := by
  obtain rfl | hmore : k = 1 ∨ 2 ≤ k := by omega
  · rfl
  obtain ⟨hroom, hdelta⟩ := room_of_bound hmore hb
  obtain ⟨j, rfl⟩ : ∃ j, k = j + 1 := ⟨k - 1, by omega⟩
  rw [p64Pass_eq h hk hdelta, Function.iterate_succ_apply', iterate_quiet h hroom hdelta (by omega),
    cycle_idle h hroom hdelta (by omega)]

theorem p64_exact (d : Drive) : Exact (p64Passes d) Tuned (fun _ _ => True) (bound d) where
  take_eq _ hn := p64Todo_eq_min hn
  keep := tuned_cycle
  exact h hk hb := iff_true_intro (p64Pass_exact h hk hb)
  mono _ _ _ _ _ := trivial

theorem clear_all (n : Nat) (t : Turn) : Clear (p64Passes d) (fun _ _ => True) n t := by
  induction n using Nat.strongRecOn generalizing t with
  | ind n ih =>
    obtain rfl | hn := Nat.eq_zero_or_pos n
    · exact .done t
    · have hpos := (p64Passes d).take_pos n t hn
      exact .pass hn trivial (ih _ (by omega) _)

theorem run_eq_iterate (h : Tuned t) (n : Nat) : (p64Passes d).run n t = (p64Passes d).one^[n] t :=
  (p64_exact d).run_eq_iterate h (clear_all n t)

/-! ## Call after call -/

/-- What a call needs of the state it is made in. -/
structure Ready (s : Spin) : Prop where
  head : s.pulseHeadPosition < samplesPerRotation
  settled : Settled s.circuit

theorem tuned_enter (h : Ready s) : Tuned (enter s) where
  past := past_resync
  delta := rfl
  head := h.head
  settled := h.settled

/-- The next call finds what the last one left. -/
theorem enter_toSpin (h : Tuned t) : enter t.toSpin = t := by
  have hsync := resync_past h.past
  obtain ⟨s, delta⟩ := t
  simp only [enter, hsync, Turn.mk.injEq, true_and]
  exact h.delta.symm

theorem rotation1541P64_one (h : Ready s) : rotation1541P64 d 1 s = ((p64Passes d).one (enter s)).toSpin := by
  rw [rotation1541P64, run_eq_iterate (tuned_enter h), Function.iterate_one]

theorem ready_of_tuned (h : Tuned t) : Ready t.toSpin := ⟨h.head, h.settled⟩

theorem p64_iterate (h : Ready s) (n : Nat) :
    (rotation1541P64 d 1)^[n + 1] s = ((p64Passes d).one^[n + 1] (enter s)).toSpin := by
  induction n with
  | zero => exact rotation1541P64_one h
  | succ n ih =>
    have htuned : Tuned ((p64Passes d).one^[n + 1] (enter s)) :=
      (p64_exact d).keep_iterate (tuned_enter h) (n + 1)
    rw [Function.iterate_succ_apply', ih, rotation1541P64_one (ready_of_tuned htuned),
      enter_toSpin htuned, Function.iterate_succ_apply' _ (n + 1)]

/-! ## Reachable states -/

theorem writeNextBit_filter (value : UInt8) : filterFrame (writeNextBit d c value) = filterFrame c := by
  unfold writeNextBit
  simp only
  split
  · rfl
  · split <;> rfl

theorem divide_filter : filterFrame (divide d k c) = filterFrame c := by
  unfold divide
  simp only
  split
  · split
    · split
      · unfold readShift
        simp only
        split
        · rfl
        · split
          · exact byteReady_filter
          · rfl
      · unfold writeShift
        simp only
        split
        · exact byteReady_filter.trans (writeNextBit_filter _)
        · exact writeNextBit_filter _
    · rfl
  · rfl

theorem readNextBit_filter : filterFrame (readNextBit d c).2 = filterFrame c := by
  unfold readNextBit
  simp only
  split
  · rfl
  · split <;> rfl

theorem bitRead_settled (h : Settled c) : Settled (bitRead d c) := by
  have hread := h.of_frame (@readNextBit_filter d c)
  unfold bitRead
  generalize readNextBit d c = r at hread ⊢
  obtain ⟨bit, c'⟩ := r
  simp only
  split
  · exact ⟨hread.frRandcount, fun hle => absurd hle (Nat.not_le.2 (Nat.lt_succ_self 39))⟩
  · exact hread

theorem bitcell_settled (h : Settled c) : Settled (bitcell d k c) := by
  unfold bitcell
  simp only
  split
  · split
    · exact bitRead_settled (h.of_frame rfl)
    · exact h.of_frame rfl
  · exact h.of_frame rfl

theorem fluxFilter_settled : Settled (fluxFilter k c) := by
  unfold fluxFilter
  simp only
  split
  · exact fluxReversal_settled (by decide) fun _ => rfl
  · rename_i hno
    rw [not_and, not_not] at hno
    split
    · exact fluxReversal_settled (by decide) fun hle => (hno hle).symm
    · exact ⟨Nat.mod_lt _ (by decide), fun hle => (hno hle).symm⟩

/-- A pass over the bits of a track settles the circuit as well. -/
theorem gcrPass_settled (h : Settled c) : Settled (gcrPass d k c) := by
  unfold gcrPass
  simp only
  split
  · exact (bitcell_settled (Settled.of_frame fluxFilter_settled divide_filter)).of_frame rfl
  · exact ((bitcell_settled (h.of_frame soSignal_filter)).of_frame divide_filter).of_frame rfl

/-- The states a drive can be in: after a reset, after calls of the circuit over pulses or over
bits, with another track or disk under the head, and with whatever else the machine does to the
circuit, none of which touches the four counters of `filterFrame`. -/
inductive Reachable : Spin → Prop
  | reset (s : Spin) : Reachable s.reset
  | p64 (d : Drive) (n : Nat) {s : Spin} (h : Reachable s) : Reachable (rotation1541P64 d n s)
  | gcr (d : Drive) (n : Nat) {s : Spin} (h : Reachable s) :
      Reachable { s with circuit := rotation1541Gcr d n s.circuit }
  | track (stream : PulseStream) (p64Dirty : Bool) {s : Spin} (h : Reachable s) :
      Reachable { s with stream, p64Dirty }
  | outside (c : Circuit) (seed : UInt32) {s : Spin} (h : Reachable s)
      (hc : filterFrame c = filterFrame s.circuit) : Reachable { s with circuit := c, seed }

theorem run_tuned (h : Tuned t) (n : Nat) : Tuned ((p64Passes d).run n t) := by
  rw [run_eq_iterate h]
  exact (p64_exact d).keep_iterate h n

theorem Reachable.ready (h : Reachable s) : Ready s := by
  induction h with
  | reset s => exact ⟨Nat.succ_pos _, ⟨Nat.two_pow_pos 32, fun _ => rfl⟩⟩
  | p64 d n _ ih => exact ready_of_tuned (run_tuned (tuned_enter ih) n)
  | gcr d n _ ih => exact ⟨ih.head, run_keep (fun _ _ => gcrPass_settled) ih.settled⟩
  | track stream dirty _ ih => exact ⟨ih.head, ih.settled⟩
  | outside c seed _ hc ih => exact ⟨ih.head, ih.settled.of_frame hc⟩

/-! ## The batch -/

/-- The same circuit, the head at the same place of the same pulses. The index of the current pulse
is left out: every call looks for it first. -/
structure Same (s s' : Spin) : Prop where
  circuit : s.circuit = s'.circuit
  seed : s.seed = s'.seed
  pulseHeadPosition : s.pulseHeadPosition = s'.pulseHeadPosition
  pulses : s.stream.pulses = s'.stream.pulses
  p64Dirty : s.p64Dirty = s'.p64Dirty

/-- A call for `n` cycles leaves what `n` calls for one leave, and but for a call for none the same
pulse is the current one. -/
theorem p64_batch (h : Reachable s) (d : Drive) (n : Nat) :
    Same (rotation1541P64 d n s) ((rotation1541P64 d 1)^[n] s) ∧
      (0 < n → rotation1541P64 d n s = (rotation1541P64 d 1)^[n] s) := by
  obtain rfl | hn := Nat.eq_zero_or_pos n
  · have hzero : rotation1541P64 d 0 s = (enter s).toSpin := by
      rw [rotation1541P64, run_zero]
    rw [hzero]
    exact ⟨⟨rfl, rfl, rfl, rfl, rfl⟩, fun hlt => absurd hlt (Nat.lt_irrefl 0)⟩
  · have heq : rotation1541P64 d n s = (rotation1541P64 d 1)^[n] s := by
      obtain ⟨m, rfl⟩ := Nat.exists_eq_succ_of_ne_zero (Nat.pos_iff_ne_zero.1 hn)
      rw [rotation1541P64, run_eq_iterate (tuned_enter h.ready), Nat.succ_eq_add_one, p64_iterate h.ready]
    exact ⟨heq ▸ ⟨rfl, rfl, rfl, rfl, rfl⟩, fun _ => heq⟩

end

/-- A strong pulse at the start of a track and a weak one five cycles on. -/
def twoPulses : Spin where
  circuit := noFlux
  seed := 0
  pulseHeadPosition := 3199998
  stream := {
    pulses := [⟨0, 0xffffffff⟩, ⟨5, 0x80000000⟩]
    currentIndex := 2
    sorted := by decide
    bounded := by decide }
  p64Dirty := false

/-- A reset drive reads over the end of it. -/
theorem p64_batch_reading : Reachable twoPulses.reset ∧
    Same (rotation1541P64 readingDrive 3200040 twoPulses.reset)
      ((rotation1541P64 readingDrive 1)^[3200040] twoPulses.reset) :=
  ⟨.reset _, (p64_batch (.reset _) readingDrive 3200040).1⟩

end Vice.L3.P64Batch
