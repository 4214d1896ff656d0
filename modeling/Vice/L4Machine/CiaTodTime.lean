import Mathlib.Tactic.SplitIfs
import Vice.L4Machine.CiaTod

/-!
# The time of day as a number of tenths

`encode n` are the registers `n` tenths after midnight. The digits carry as the number does
(`advance_encode`), so the registers are those of the start and of the matches of the divider
since (`time_run`). The divider is a ring of six places that is left at the fifth or at the sixth
one; a change of the setting in between may cost one turn of it (`ring_run`).
-/
namespace Vice.L4.CiaTod

/-! ## The registers -/

def bcd (n : Nat) : UInt8 := UInt8.ofNat (n / 10 * 16 + n % 10)

/-- Twelve comes first, and the afternoon has the flag. -/
def hourReg (h : Nat) : UInt8 :=
  bcd (if h % 12 = 0 then 12 else h % 12) ||| (if 12 ≤ h then 0x80 else 0)

/-- The registers `n` tenths of a second after midnight. -/
def encode (n : Nat) : Time where
  ten := UInt8.ofNat (n % 10)
  sec := bcd (n / 10 % 60)
  min := bcd (n / 600 % 60)
  hr := hourReg (n / 36000 % 24)

def sixtyOk (reg : UInt8) : Prop := reg &&& 0x0f < 10 ∧ reg >>> 4 < 6

def hourOk (reg : UInt8) : Prop :=
  let h := reg &&& 0x7f
  1 ≤ h ∧ h ≤ 9 ∨ 0x10 ≤ h ∧ h ≤ 0x12

instance (reg : UInt8) : Decidable (sixtyOk reg) := inferInstanceAs (Decidable (_ ∧ _))
instance (reg : UInt8) : Decidable (hourOk reg) := inferInstanceAs (Decidable (_ ∨ _))

/-- The registers hold a time. -/
structure Valid (t : Time) : Prop where
  ten : t.ten < 10
  sec : sixtyOk t.sec
  min : sixtyOk t.min
  hr : hourOk t.hr

def sixty (reg : UInt8) : Nat := reg.toNat / 16 * 10 + reg.toNat % 16

def hour (reg : UInt8) : Nat :=
  (reg.toNat % 128 / 16 * 10 + reg.toNat % 16) % 12 + if reg.toNat < 128 then 0 else 12

def tenths (t : Time) : Nat := ((hour t.hr * 60 + sixty t.min) * 60 + sixty t.sec) * 10 + t.ten.toNat

theorem bcd_sixty {reg : UInt8} (h : sixtyOk reg) : sixty reg < 60 ∧ bcd (sixty reg) = reg := by
  have hall : ∀ n : Fin 256, sixtyOk (UInt8.ofFin n) →
      sixty (UInt8.ofFin n) < 60 ∧ bcd (sixty (UInt8.ofFin n)) = UInt8.ofFin n := by decide +kernel
  exact hall reg.toFin h

theorem hourReg_hour {reg : UInt8} (h : hourOk reg) : hour reg < 24 ∧ hourReg (hour reg) = reg := by
  have hall : ∀ n : Fin 256, hourOk (UInt8.ofFin n) →
      hour (UInt8.ofFin n) < 24 ∧ hourReg (hour (UInt8.ofFin n)) = UInt8.ofFin n := by decide +kernel
  exact hall reg.toFin h

/-- Every time is a number of tenths. -/
theorem encode_tenths {t : Time} (h : Valid t) : encode (tenths t) = t := by
  obtain ⟨hsec, hsec'⟩ := bcd_sixty h.sec
  obtain ⟨hmin, hmin'⟩ := bcd_sixty h.min
  obtain ⟨hhr, hhr'⟩ := hourReg_hour h.hr
  have hten : t.ten.toNat < 10 := UInt8.lt_iff_toNat_lt.mp h.ten
  unfold tenths encode
  generalize hour t.hr = a at *
  generalize sixty t.min = b at *
  generalize sixty t.sec = c at *
  rw [show (((a * 60 + b) * 60 + c) * 10 + t.ten.toNat) % 10 = t.ten.toNat by omega,
    show (((a * 60 + b) * 60 + c) * 10 + t.ten.toNat) / 10 % 60 = c by omega,
    show (((a * 60 + b) * 60 + c) * 10 + t.ten.toNat) / 600 % 60 = b by omega,
    show (((a * 60 + b) * 60 + c) * 10 + t.ten.toNat) / 36000 % 24 = a by omega,
    hsec', hmin', hhr', UInt8.ofNat_toNat]

/-! ## The digits -/

theorem nextSixty_bcd {k : Nat} (hk : k < 60) :
    nextSixty (bcd k) = (bcd ((k + 1) % 60), decide (k = 59)) := by
  have hall : ∀ n : Fin 60, nextSixty (bcd n) = (bcd ((n + 1) % 60), decide (n.val = 59)) := by
    decide +kernel
  exact hall ⟨k, hk⟩

theorem sameSixty_bcd {k : Nat} (hk : k < 60) : sameSixty (bcd k) = bcd k := by
  have hall : ∀ n : Fin 60, sameSixty (bcd n) = bcd n := by decide +kernel
  exact hall ⟨k, hk⟩

theorem nextHour_hourReg {k : Nat} (hk : k < 24) : nextHour (hourReg k) = hourReg ((k + 1) % 24) := by
  have hall : ∀ n : Fin 24, nextHour (hourReg n) = hourReg ((n + 1) % 24) := by decide +kernel
  exact hall ⟨k, hk⟩

theorem sameHour_hourReg {k : Nat} (hk : k < 24) : sameHour (hourReg k) = hourReg k := by
  have hall : ∀ n : Fin 24, sameHour (hourReg n) = hourReg n := by decide +kernel
  exact hall ⟨k, hk⟩

theorem nextTen {k : Nat} (hk : k < 10) : (UInt8.ofNat k &&& 0x0f) + 1 &&& 0x0f = UInt8.ofNat (k + 1) ∧
      (UInt8.ofNat (k + 1) = 10 ↔ k = 9) := by
  have hall : ∀ n : Fin 10, (UInt8.ofNat n &&& 0x0f) + 1 &&& 0x0f = UInt8.ofNat (n + 1) ∧
      (UInt8.ofNat (n + 1) = 10 ↔ n.val = 9) := by decide +kernel
  exact hall ⟨k, hk⟩

/-- The digits carry as a number of tenths does. -/
theorem advance_encode (n : Nat) : advance (encode n) = encode (n + 1) := by
  obtain ⟨hts, hlast⟩ := nextTen (show n % 10 < 10 by omega)
  have hsec : n / 10 % 60 < 60 := by omega
  have hmin : n / 600 % 60 < 60 := by omega
  have hhr : n / 36000 % 24 < 24 := by omega
  unfold advance encode
  dsimp only
  rw [hts, nextSixty_bcd hsec, nextSixty_bcd hmin, sameSixty_bcd hsec, sameSixty_bcd hmin,
    sameHour_hourReg hhr, nextHour_hourReg hhr]
  by_cases hten : n % 10 = 9
  · rw [if_pos (hlast.mpr hten), show (n + 1) % 10 = 0 by omega,
      show (n + 1) / 10 % 60 = (n / 10 % 60 + 1) % 60 by omega]
    by_cases hs : n / 10 % 60 = 59
    · by_cases hm : n / 600 % 60 = 59
      · simp only [hs, hm, decide_true, if_true]
        rw [show (n + 1) / 600 % 60 = 0 by omega,
          show (n + 1) / 36000 % 24 = (n / 36000 % 24 + 1) % 24 by omega]
        rfl
      · simp only [hs, hm, decide_true, decide_false, if_true]
        rw [show (n + 1) / 600 % 60 = (n / 600 % 60 + 1) % 60 by omega,
          show (n + 1) / 36000 % 24 = n / 36000 % 24 by omega]
        rfl
    · simp only [hs, decide_false]
      rw [show (n + 1) / 600 % 60 = n / 600 % 60 by omega,
        show (n + 1) / 36000 % 24 = n / 36000 % 24 by omega]
      rfl
  · rw [if_neg fun heq => hten (hlast.mp heq), show (n + 1) % 10 = n % 10 + 1 by omega,
      show (n + 1) / 10 % 60 = n / 10 % 60 by omega, show (n + 1) / 600 % 60 = n / 600 % 60 by omega,
      show (n + 1) / 36000 % 24 = n / 36000 % 24 by omega]

/-! ## The divider -/

/-- Does this step make the clock go on? -/
def matched (s : Tod) : Event → Nat
  | .tick _ _ => if s.powerFreq ≠ 0 ∧ updates s = true then 1 else 0
  | _ => 0

def ticked : Event → Nat
  | .tick _ _ => 1
  | _ => 0

/-- The setting of the divider changes. -/
def changed (s : Tod) : Event → Nat
  | .storeCra byte => if byte &&& craTodin50Hz = s.cra &&& craTodin50Hz then 0 else 1
  | _ => 0

/-- What the steps of a run add up to. -/
def total (f : Tod → Event → Nat) : Tod → List Event → Nat
  | _, [] => 0
  | s, e :: es => f s e + total f (step s e) es

/-- Ticks, reads and the control registers leave the time to itself. -/
def undisturbed : Event → Bool
  | .reset _ => false
  | .store _ _ _ => false
  | _ => true

section Ticks
variable (s : Tod) (rand : UInt64)

theorem schedule_frame : (schedule s rand).time = s.time ∧ (schedule s rand).cra = s.cra ∧
    (schedule s rand).todstopped = s.todstopped ∧
    (schedule s rand).todtickcounter = s.todtickcounter ∧
    (schedule s rand).powerFreq = s.powerFreq := by
  unfold schedule
  dsimp only
  split_ifs <;> exact ⟨rfl, rfl, rfl, rfl, rfl⟩

theorem stepRing_frame : (stepRing s).time = s.time ∧ (stepRing s).cra = s.cra ∧
    (stepRing s).todstopped = s.todstopped ∧ (stepRing s).powerFreq = s.powerFreq := by
  unfold stepRing
  dsimp only
  split_ifs <;> exact ⟨rfl, rfl, rfl, rfl⟩

theorem checkCiatodalarm_frame (rclk : UInt64) : (checkCiatodalarm s rclk).time = s.time ∧
    (checkCiatodalarm s rclk).cra = s.cra ∧ (checkCiatodalarm s rclk).todstopped = s.todstopped ∧
    (checkCiatodalarm s rclk).todtickcounter = s.todtickcounter ∧
    (checkCiatodalarm s rclk).powerFreq = s.powerFreq := by
  unfold checkCiatodalarm
  split_ifs <;> exact ⟨rfl, rfl, rfl, rfl, rfl⟩

end Ticks

/-- Where the ring is after a tick. -/
def nextPlace (s : Tod) : UInt8 :=
  if updates s then 0 else if s.todtickcounter + 1 > 5 then 0 else s.todtickcounter + 1

theorem stepRing_place (s : Tod) :
    (stepRing s).todtickcounter = if s.todstopped then s.todtickcounter else nextPlace s := by
  unfold stepRing nextPlace
  dsimp only
  split_ifs <;> rfl

theorem nextPlace_congr {s s' : Tod} (hup : updates s' = updates s)
    (hcounter : s'.todtickcounter = s.todtickcounter) : nextPlace s' = nextPlace s := by
  unfold nextPlace
  rw [hup, hcounter]

/-- What a tick does to the time and the ring. -/
theorem tick_effect {s : Tod} (hfreq : s.powerFreq ≠ 0) (latency rand : UInt64) :
    let t := ciacoreInttod s latency rand
    t.time = (if updates s then advance s.time else s.time) ∧ t.cra = s.cra ∧
      t.todstopped = s.todstopped ∧
      t.todtickcounter = (if s.todstopped then s.todtickcounter else nextPlace s) ∧
      t.powerFreq = s.powerFreq := by
  obtain ⟨htime, hcra, hstopped, hcounter, hfreq'⟩ := schedule_frame s rand
  unfold ciacoreInttod
  rw [if_neg hfreq]
  dsimp only
  generalize hs1 : { schedule s rand with todclk := s.todclk + latency + (schedule s rand).todticks } = s1
  have htime1 : s1.time = s.time := by rw [← hs1]; exact htime
  have hcra1 : s1.cra = s.cra := by rw [← hs1]; exact hcra
  have hstopped1 : s1.todstopped = s.todstopped := by rw [← hs1]; exact hstopped
  have hcounter1 : s1.todtickcounter = s.todtickcounter := by rw [← hs1]; exact hcounter
  have hfreq1 : s1.powerFreq = s.powerFreq := by rw [← hs1]; exact hfreq'
  have hup : updates s1 = updates s := by
    unfold updates
    rw [hstopped1, hcounter1, hcra1]
  have hplace := stepRing_place s1
  rw [hstopped1, hcounter1, nextPlace_congr hup hcounter1] at hplace
  obtain ⟨hrtime, hrcra, hrstopped, hrfreq⟩ := stepRing_frame s1
  rw [hup]
  cases updates s with
  | true =>
    rw [if_pos rfl, if_pos rfl]
    obtain ⟨hctime, hccra, hcstopped, hccounter, hcfreq⟩ :=
      checkCiatodalarm_frame { stepRing s1 with time := advance (stepRing s1).time }
        (s.todclk + latency - latency)
    refine ⟨hctime.trans ?_, hccra.trans (hrcra.trans hcra1), hcstopped.trans (hrstopped.trans hstopped1),
      hccounter.trans hplace, hcfreq.trans (hrfreq.trans hfreq1)⟩
    show advance (stepRing s1).time = advance s.time
    rw [hrtime, htime1]
  | false =>
    exact ⟨hrtime.trans htime1, hrcra.trans hcra1, hrstopped.trans hstopped1, hplace, hrfreq.trans hfreq1⟩

theorem tick_absent {s : Tod} (hfreq : s.powerFreq = 0) (latency rand : UInt64) :
    ciacoreInttod s latency rand = { s with todclk := s.todclk + latency + 100000 } := by
  unfold ciacoreInttod
  exact if_pos hfreq

/-- A read latches, it does not touch the clock. -/
theorem readTod_frame (s : Tod) (reg : Reg) : (readTod s reg).2.time = s.time ∧
    (readTod s reg).2.cra = s.cra ∧ (readTod s reg).2.todstopped = s.todstopped ∧
    (readTod s reg).2.todtickcounter = s.todtickcounter ∧
    (readTod s reg).2.powerFreq = s.powerFreq := by
  unfold readTod
  dsimp only
  split_ifs <;> exact ⟨rfl, rfl, rfl, rfl, rfl⟩

/-! ## The time -/

theorem time_step {s : Tod} {n : Nat} (h : s.time = encode n) {e : Event} (he : undisturbed e = true) :
    (step s e).time = encode (n + matched s e) := by
  cases e with
  | reset clk => exact Bool.noConfusion he
  | store reg byte rclk => exact Bool.noConfusion he
  | tick latency rand =>
    show (ciacoreInttod s latency _).time = _
    unfold matched
    by_cases hfreq : s.powerFreq = 0
    · rw [tick_absent hfreq, if_neg fun hand => hand.1 hfreq]
      exact h
    · rw [(tick_effect hfreq latency _).1, h]
      by_cases hup : updates s = true
      · rw [if_pos hup, if_pos ⟨hfreq, hup⟩]
        exact advance_encode n
      · rw [if_neg hup, if_neg fun hand => hup hand.2]
        rfl
  | read reg => exact (readTod_frame s reg).1.trans h
  | storeCra byte => exact h
  | storeCrb byte => exact h

/-- The registers are the start and the matches since. -/
theorem time_run {s : Tod} {n : Nat} (h : s.time = encode n) {es : List Event}
    (hes : ∀ e ∈ es, undisturbed e = true) : (run s es).time = encode (n + total matched s es) := by
  induction es generalizing s n with
  | nil => exact h
  | cons e es ih =>
    have hnext := ih (time_step h (hes e List.mem_cons_self)) fun e' he' =>
      hes e' (List.mem_cons_of_mem e he')
    rwa [Nat.add_assoc] at hnext

/-! ## The ring -/

/-- The ring has run past the place at which it is left now. -/
def late (s : Tod) : Nat := if s.todtickcounter.toNat > (ringMatch s.cra).toNat then 1 else 0

/-- The clock runs, and its ring is at one of the six places. -/
structure Running (s : Tod) : Prop where
  freq : s.powerFreq ≠ 0
  going : s.todstopped = false
  place : s.todtickcounter.toNat ≤ 5

theorem ringMatch_cases (cra : UInt8) : (ringMatch cra).toNat = 4 ∨ (ringMatch cra).toNat = 5 := by
  unfold ringMatch
  split_ifs
  · exact .inl rfl
  · exact .inr rfl

/-- One tick: the ring is left at its match or, past it, at the end. -/
theorem nextPlace_cases {s : Tod} (h : Running s) :
    (s.todtickcounter.toNat = (ringMatch s.cra).toNat ∧ updates s = true ∧ (nextPlace s).toNat = 0) ∨
    (s.todtickcounter.toNat ≠ (ringMatch s.cra).toNat ∧ updates s = false ∧
      (nextPlace s).toNat = if s.todtickcounter.toNat = 5 then 0 else s.todtickcounter.toNat + 1) := by
  have hplace := h.place
  unfold nextPlace updates
  rw [h.going]
  by_cases hmatch : s.todtickcounter = ringMatch s.cra
  · exact .inl ⟨congrArg _ hmatch, by simp [hmatch], by simp [hmatch]⟩
  · have hne : s.todtickcounter.toNat ≠ (ringMatch s.cra).toNat := fun heq =>
      hmatch (UInt8.toNat_inj.mp heq)
    have hup : (s.todtickcounter == ringMatch s.cra) = false := by simpa using hmatch
    refine .inr ⟨hne, by rw [hup]; rfl, ?_⟩
    have hnext : (s.todtickcounter + 1).toNat = s.todtickcounter.toNat + 1 := by
      rw [UInt8.toNat_add]
      simp
      omega
    rw [hup]
    simp only [Bool.not_false, Bool.true_and, Bool.false_eq_true, if_false]
    by_cases hfive : s.todtickcounter.toNat = 5
    · rw [if_pos hfive, if_pos (UInt8.lt_iff_toNat_lt.mpr (by rw [hnext, hfive]; decide))]
      rfl
    · rw [if_neg hfive, if_neg fun hlt => ?_, hnext]
      have hlt' := UInt8.lt_iff_toNat_lt.mp hlt
      rw [hnext] at hlt'
      have : (5 : UInt8).toNat = 5 := rfl
      omega

/-- The place of the ring. -/
def place (s : Tod) : Nat := s.todtickcounter.toNat

theorem ring_tick {s : Tod} (h : Running s) (latency : UInt64) (rand : Fin 4) :
    let e := Event.tick latency rand
    let t := step s e
    Running t ∧ t.cra = s.cra ∧
      place t + 5 * matched s e ≤ place s + 1 ∧
      place s + 1 + 6 * late t ≤ place t + 6 * matched s e + 6 * late s ∧
      (late s = 0 → late t = 0 ∧ place s + 1 = place t + ((ringMatch s.cra).toNat + 1) * matched s e) := by
  obtain ⟨-, hcra, hstopped, hcounter, hfreq⟩ := tick_effect h.freq latency (UInt64.ofNat rand)
  rw [h.going] at hcounter hstopped
  rw [if_neg Bool.false_ne_true] at hcounter
  show Running (ciacoreInttod s latency _) ∧ (ciacoreInttod s latency _).cra = s.cra ∧ _
  have hplace := h.place
  have hmatch := ringMatch_cases s.cra
  have hlate : late (step s (.tick latency rand)) =
      if (nextPlace s).toNat > (ringMatch s.cra).toNat then 1 else 0 := by
    unfold late
    rw [show (step s (.tick latency rand)).todtickcounter = nextPlace s from hcounter,
      show (step s (.tick latency rand)).cra = s.cra from hcra]
  have hto : place (step s (.tick latency rand)) = (nextPlace s).toNat := congrArg UInt8.toNat hcounter
  have hfrom : late s = if place s > (ringMatch s.cra).toNat then 1 else 0 := rfl
  have hmatched : matched s (.tick latency rand) = if updates s = true then 1 else 0 := by
    unfold matched
    by_cases hup : updates s = true
    · rw [if_pos ⟨h.freq, hup⟩, if_pos hup]
    · rw [if_neg fun hand => hup hand.2, if_neg hup]
  have hrunning : (nextPlace s).toNat ≤ 5 → Running (ciacoreInttod s latency (UInt64.ofNat rand)) :=
    fun hle => ⟨hfreq ▸ h.freq, hstopped, hcounter ▸ hle⟩
  rw [hlate, hto, hmatched, hfrom]
  unfold place
  rcases nextPlace_cases h with ⟨heq, hup, hnext⟩ | ⟨hne, hup, hnext⟩
  · rw [hup, hnext, if_pos rfl]
    refine ⟨hrunning (by omega), hcra, by omega, ?_, fun _ => ⟨?_, by omega⟩⟩
    · split_ifs <;> omega
    · rw [if_neg (by omega)]
  · rw [hup, if_neg Bool.false_ne_true]
    by_cases hfive : s.todtickcounter.toNat = 5
    · rw [if_pos hfive] at hnext
      rw [hnext]
      refine ⟨hrunning (by omega), hcra, by omega, ?_, fun hzero => ?_⟩
      · split_ifs <;> omega
      · split_ifs at hzero
        omega
    · rw [if_neg hfive] at hnext
      rw [hnext]
      refine ⟨hrunning (by omega), hcra, by omega, ?_, fun hzero => ⟨?_, by omega⟩⟩
      · split_ifs <;> omega
      · split_ifs at hzero
        rw [if_neg (by omega)]

theorem ringMatch_storeCra {s : Tod} {byte : UInt8} (h : changed s (.storeCra byte) = 0) :
    ringMatch (byte &&& 0xef) = ringMatch s.cra := by
  have hif : changed s (.storeCra byte) =
      if byte &&& craTodin50Hz = s.cra &&& craTodin50Hz then 0 else 1 := rfl
  rw [hif] at h
  have hsame : byte &&& craTodin50Hz = s.cra &&& craTodin50Hz := by
    by_contra hne
    rw [if_neg hne] at h
    exact Nat.one_ne_zero h
  unfold ringMatch
  rw [UInt8.and_assoc, show (0xef : UInt8) &&& craTodin50Hz = craTodin50Hz from rfl, hsame]

/-- One step: a match takes five or six ticks, and a change of the setting costs six at most. -/
theorem ring_step {s : Tod} (h : Running s) {e : Event} (he : undisturbed e = true) :
    Running (step s e) ∧ place (step s e) + 5 * matched s e ≤ place s + ticked e ∧
      place s + ticked e + 6 * late (step s e) ≤
        place (step s e) + 6 * matched s e + 6 * changed s e + 6 * late s := by
  have hquiet : ∀ s' : Tod, s'.todtickcounter = s.todtickcounter → s'.cra = s.cra →
      place s' = place s ∧ late s' = late s := fun s' hcounter hcra => by
    unfold place late
    rw [hcounter, hcra]
    exact ⟨rfl, rfl⟩
  cases e with
  | reset clk => exact Bool.noConfusion he
  | store reg byte rclk => exact Bool.noConfusion he
  | tick latency rand =>
    obtain ⟨hrun, -, hlow, hhigh, -⟩ := ring_tick h latency rand
    refine ⟨hrun, hlow, ?_⟩
    show place s + 1 + _ ≤ _ + 6 * 0 + _
    omega
  | read reg =>
    obtain ⟨-, hcra, hstopped, hcounter, hfreq⟩ := readTod_frame s reg
    obtain ⟨hplace, hlate⟩ := hquiet (step s (.read reg)) hcounter hcra
    rw [hplace, hlate]
    exact ⟨⟨hfreq ▸ h.freq, hstopped ▸ h.going, hcounter ▸ h.place⟩, Nat.le_refl _, Nat.le_refl _⟩
  | storeCrb byte => exact ⟨⟨h.freq, h.going, h.place⟩, Nat.le_refl _, Nat.le_refl _⟩
  | storeCra byte =>
    refine ⟨⟨h.freq, h.going, h.place⟩, Nat.le_refl _, ?_⟩
    have hlate : late (step s (.storeCra byte)) ≤ changed s (.storeCra byte) + late s := by
      have hone : late (step s (.storeCra byte)) ≤ 1 := by
        unfold late
        split_ifs <;> omega
      by_cases hsame : changed s (.storeCra byte) = 0
      · have hmatch := ringMatch_storeCra hsame
        rw [hsame, Nat.zero_add]
        unfold late step
        dsimp only
        rw [hmatch]
      · omega
    show place s + 0 + _ ≤ place s + 6 * 0 + _ + _
    omega

theorem ring_run {s : Tod} (h : Running s) {es : List Event} (hes : ∀ e ∈ es, undisturbed e = true) :
    Running (run s es) ∧
      place (run s es) + 5 * total matched s es ≤ place s + total (fun _ => ticked) s es ∧
      place s + total (fun _ => ticked) s es + 6 * late (run s es) ≤
        place (run s es) + 6 * total matched s es + 6 * total changed s es + 6 * late s := by
  induction es generalizing s with
  | nil => exact ⟨h, Nat.le_refl _, Nat.le_refl _⟩
  | cons e es ih =>
    obtain ⟨hrun, hlow, hhigh⟩ := ring_step h (hes e List.mem_cons_self)
    obtain ⟨hrun', hlow', hhigh'⟩ := ih hrun fun e' he' => hes e' (List.mem_cons_of_mem e he')
    simp only [total, run_cons]
    exact ⟨hrun', by omega, by omega⟩

/-- While the setting stays, the ring is left at one place only. -/
theorem ring_step_steady {s : Tod} (h : Running s) (hlate : late s = 0) {e : Event}
    (he : undisturbed e = true) (hsteady : changed s e = 0) :
    late (step s e) = 0 ∧ ringMatch (step s e).cra = ringMatch s.cra ∧
      place s + ticked e = place (step s e) + ((ringMatch s.cra).toNat + 1) * matched s e := by
  cases e with
  | reset clk => exact Bool.noConfusion he
  | store reg byte rclk => exact Bool.noConfusion he
  | tick latency rand =>
    obtain ⟨-, hcra, -, -, hexact⟩ := ring_tick h latency rand
    exact ⟨(hexact hlate).1, congrArg ringMatch hcra, (hexact hlate).2⟩
  | read reg =>
    obtain ⟨-, hcra, -, hcounter, -⟩ := readTod_frame s reg
    refine ⟨?_, congrArg ringMatch hcra, (congrArg UInt8.toNat hcounter).symm⟩
    rw [← hlate]
    unfold late
    rw [show (step s (.read reg)).todtickcounter = s.todtickcounter from hcounter,
      show (step s (.read reg)).cra = s.cra from hcra]
  | storeCrb byte => exact ⟨hlate, rfl, rfl⟩
  | storeCra byte =>
    have hmatch := ringMatch_storeCra hsteady
    refine ⟨?_, hmatch, rfl⟩
    rw [← hlate]
    unfold late step
    dsimp only
    rw [hmatch]

theorem ring_run_steady {s : Tod} (h : Running s) (hlate : late s = 0) {es : List Event}
    (hes : ∀ e ∈ es, undisturbed e = true) (hsteady : total changed s es = 0) :
    late (run s es) = 0 ∧ ringMatch (run s es).cra = ringMatch s.cra ∧
      place s + total (fun _ => ticked) s es =
        place (run s es) + ((ringMatch s.cra).toNat + 1) * total matched s es := by
  induction es generalizing s with
  | nil => exact ⟨hlate, rfl, rfl⟩
  | cons e es ih =>
    have hfirst : changed s e = 0 := Nat.eq_zero_of_add_eq_zero_right hsteady
    have hrest : total changed (step s e) es = 0 := Nat.eq_zero_of_add_eq_zero_left hsteady
    have he := hes e List.mem_cons_self
    obtain ⟨hlate', hmatch, hsum⟩ := ring_step_steady h hlate he hfirst
    obtain ⟨hlate'', hmatch', hsum'⟩ := ih (ring_step h he).1 hlate'
      (fun e' he' => hes e' (List.mem_cons_of_mem e he')) hrest
    rw [hmatch] at hmatch' hsum'
    refine ⟨hlate'', hmatch', ?_⟩
    simp only [total, run_cons]
    rw [Nat.mul_add]
    omega

/-- With one setting the matches are counted exactly. -/
theorem matches_steady {s : Tod} (h : Running s) (hlate : late s = 0) {es : List Event}
    (hes : ∀ e ∈ es, undisturbed e = true) (hsteady : total changed s es = 0) :
    total matched s es =
      (place s + total (fun _ => ticked) s es) / ((ringMatch s.cra).toNat + 1) := by
  obtain ⟨hlate', hmatch, hsum⟩ := ring_run_steady h hlate hes hsteady
  have hlt : place (run s es) < (ringMatch s.cra).toNat + 1 := by
    unfold late at hlate'
    rw [hmatch] at hlate'
    split_ifs at hlate' with hgt
    exact Nat.lt_succ_of_le (Nat.not_lt.mp hgt)
  rw [hsum, Nat.add_mul_div_left _ _ (Nat.succ_pos _), Nat.div_eq_of_lt hlt, Nat.zero_add]

end Vice.L4.CiaTod
