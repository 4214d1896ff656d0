import Vice.L4Machine.CiaTodLatch

/-!
# A second of mains ticks

Each alarm asks for the time to the next one. The times differ from tick to tick, by chance, but
what has been asked for is summed up, and the last tick of a second asks for what is left of it
(`asked_second`). When a tick is at least three cycles long none of the sums wraps
(`asked_second_nat`). `tod_keeps_time` puts the time, the reads and the ticks together.
-/
namespace Vice.L4.CiaTod

/-! ## What the alarms ask for -/

/-- The cycles from the call of the alarm to the clock it is set for. -/
def asked (s : Tod) : Event → List UInt64
  | .tick latency rand =>
    [(step s (.tick latency rand)).todclk - (s.todclk + latency)]
  | _ => []

def askedBy : Tod → List Event → List UInt64
  | _, [] => []
  | s, e :: es => asked s e ++ askedBy (step s e) es

/-- The time a tick that is not the last one of its second asks for. -/
def interval (s : Tod) (rand : UInt64) : UInt64 :=
  let freq := UInt64.ofNat s.powerFreq
  let tclk := UInt64.ofNat s.powerTickcounter * s.ticksPerSec / freq
  if s.powerTicks < tclk then s.ticksPerSec / freq + rand
  else if s.powerTicks > tclk then s.ticksPerSec / freq - rand
  else s.ticksPerSec / freq

theorem schedule_last {s : Tod} (h : s.powerFreq ≤ s.powerTickcounter + 1) (rand : UInt64) : schedule s rand =
      { s with todticks := s.ticksPerSec - s.powerTicks, powerTickcounter := 0, powerTicks := 0 } := by
  unfold schedule
  exact if_pos h

theorem schedule_more {s : Tod} (h : s.powerTickcounter + 1 < s.powerFreq) (rand : UInt64) : schedule s rand =
      { s with
        todticks := interval s rand
        powerTickcounter := s.powerTickcounter + 1
        powerTicks := s.powerTicks + interval s rand } := by
  unfold schedule
  exact if_neg (Nat.not_le.mpr h)

/-- The fields the ticks are timed by. -/
def timing (s : Tod) : UInt64 × Nat × Nat × UInt64 :=
  (s.ticksPerSec, s.powerFreq, s.powerTickcounter, s.powerTicks)

/-- Only the ticks move them. -/
theorem timing_step (s : Tod) {e : Event} (h : ticked e = 0) : timing (step s e) = timing s := by
  cases e with
  | tick latency rand => exact absurd h Nat.one_ne_zero
  | reset clk => rfl
  | storeCra byte => rfl
  | storeCrb byte => rfl
  | read reg =>
    show timing (readTod s reg).2 = timing s
    unfold readTod timing
    dsimp only
    split_ifs <;> rfl
  | store reg byte rclk =>
    exact storeTod_frame timing (fun _ _ => rfl) (fun _ _ _ _ _ => rfl) s reg byte rclk

theorem timing_tick {s : Tod} (hfreq : s.powerFreq ≠ 0) (latency : UInt64) (rand : Fin 4) :
    timing (step s (.tick latency rand)) = timing (schedule s (UInt64.ofNat rand)) ∧
      asked s (.tick latency rand) = [(schedule s (UInt64.ofNat rand)).todticks] := by
  have hclk : ∀ clk ticks : UInt64, clk + ticks - clk = ticks := fun clk ticks => by
    rw [UInt64.add_comm, UInt64.add_sub_cancel]
  have hstep : timing (step s (.tick latency rand)) = timing (schedule s (UInt64.ofNat rand)) ∧
      (step s (.tick latency rand)).todclk =
        s.todclk + latency + (schedule s (UInt64.ofNat rand)).todticks := by
    show timing (ciacoreInttod s latency _) = _ ∧ (ciacoreInttod s latency _).todclk = _
    unfold ciacoreInttod
    rw [if_neg hfreq]
    dsimp only
    generalize schedule s (UInt64.ofNat rand) = t
    unfold checkCiatodalarm stepRing timing
    dsimp only
    split_ifs <;> exact ⟨rfl, rfl⟩
  refine ⟨hstep.1, ?_⟩
  show [(step s (.tick latency rand)).todclk - (s.todclk + latency)] = _
  rw [hstep.2, hclk]

/-! ## A second -/

theorem quiet_run {s : Tod} {es : List Event} (h : total (fun _ => ticked) s es = 0) :
    timing (run s es) = timing s ∧ askedBy s es = [] := by
  induction es generalizing s with
  | nil => exact ⟨rfl, rfl⟩
  | cons e es ih =>
    have hfirst : ticked e = 0 := Nat.eq_zero_of_add_eq_zero_right h
    have hrest : total (fun _ => ticked) (step s e) es = 0 := Nat.eq_zero_of_add_eq_zero_left h
    obtain ⟨htiming, hasked⟩ := ih hrest
    have hnone : asked s e = [] := by
      cases e with
      | tick latency rand => exact absurd hfirst Nat.one_ne_zero
      | _ => rfl
    exact ⟨htiming.trans (timing_step s hfirst), by rw [askedBy, hnone, hasked]; rfl⟩

theorem ticked_cases (e : Event) : ticked e = 0 ∨ ∃ latency rand, e = .tick latency rand := by
  cases e with
  | tick latency rand => exact .inr ⟨latency, rand, rfl⟩
  | _ => exact .inl rfl

/-- A tick is at least three cycles long, and a second of them fits into a clock. -/
def Sized (T : UInt64) (F : Nat) : Prop := 3 ≤ T.toNat / F ∧ F * T.toNat < 2 ^ 64

instance (T : UInt64) (F : Nat) : Decidable (Sized T F) := inferInstanceAs (Decidable (_ ∧ _))

/-- Before the last tick there is something left to ask for. -/
theorem last_fits {T : UInt64} {F c : Nat} (h : Sized T F) (hc : c + 1 = F) :
    c * T.toNat / F + 2 ≤ T.toNat := by
  have hF : 0 < F := by omega
  have hparts : c * T.toNat / F + T.toNat / F ≤ T.toNat := by
    calc c * T.toNat / F + T.toNat / F ≤ (c * T.toNat + T.toNat) / F := Nat.div_add_div_le_add_div
      _ = F * T.toNat / F := by rw [← Nat.succ_mul, Nat.succ_eq_add_one, hc]
      _ = T.toNat := Nat.mul_div_cancel_left _ hF
  have hlong := h.1
  omega

/-- The sum stays close to where it should be, so nothing wraps. -/
theorem interval_nat {s : Tod} {c : Nat} (hs : Sized s.ticksPerSec s.powerFreq)
    (hc : s.powerTickcounter = c) (hlt : c + 1 < s.powerFreq)
    (hp : s.powerTicks.toNat ≤ c * s.ticksPerSec.toNat / s.powerFreq + 2) (rand : Fin 4) :
    let i := interval s (UInt64.ofNat rand)
    (s.powerTicks + i).toNat = s.powerTicks.toNat + i.toNat ∧
      (s.powerTicks + i).toNat ≤ (c + 1) * s.ticksPerSec.toNat / s.powerFreq + 2 := by
  obtain ⟨hlong, hfits⟩ := hs
  have hT : 0 < s.ticksPerSec.toNat := by
    by_contra hzero
    rw [show s.ticksPerSec.toNat = 0 by omega, Nat.zero_div] at hlong
    exact absurd hlong (by decide)
  have hF : s.powerFreq < 2 ^ 64 := lt_of_le_of_lt (Nat.le_mul_of_pos_right _ hT) hfits
  have hcT : c * s.ticksPerSec.toNat < 2 ^ 64 :=
    lt_of_le_of_lt (Nat.mul_le_mul_right _ (by omega)) hfits
  have hfreq : (UInt64.ofNat s.powerFreq).toNat = s.powerFreq := UInt64.toNat_ofNat_of_lt' hF
  have hq : (s.ticksPerSec / UInt64.ofNat s.powerFreq).toNat = s.ticksPerSec.toNat / s.powerFreq := by
    rw [UInt64.toNat_div, hfreq]
  have htclk : (UInt64.ofNat s.powerTickcounter * s.ticksPerSec / UInt64.ofNat s.powerFreq).toNat =
      c * s.ticksPerSec.toNat / s.powerFreq := by
    rw [UInt64.toNat_div, UInt64.toNat_mul, hfreq, hc,
      UInt64.toNat_ofNat_of_lt' (show c < 2 ^ 64 by omega), Nat.mod_eq_of_lt hcT]
  have hnext : c * s.ticksPerSec.toNat / s.powerFreq + s.ticksPerSec.toNat / s.powerFreq ≤
      (c + 1) * s.ticksPerSec.toNat / s.powerFreq := by
    rw [Nat.succ_mul]
    exact Nat.div_add_div_le_add_div
  have hall : (c + 1) * s.ticksPerSec.toNat / s.powerFreq + 2 ≤ s.ticksPerSec.toNat := by
    have hlast := last_fits (c := s.powerFreq - 1) ⟨hlong, hfits⟩ (by omega)
    have hmono : (c + 1) * s.ticksPerSec.toNat / s.powerFreq ≤
        (s.powerFreq - 1) * s.ticksPerSec.toNat / s.powerFreq :=
      Nat.div_le_div_right (Nat.mul_le_mul_right _ (by omega))
    omega
  have hsmall := s.ticksPerSec.toNat_lt
  have hrand : (UInt64.ofNat rand).toNat ≤ 3 := by
    have hlt := rand.isLt
    rw [UInt64.toNat_ofNat_of_lt' (show rand.val < 2 ^ 64 by omega)]
    omega
  have hsum : ∀ i : UInt64, s.powerTicks.toNat + i.toNat ≤
      (c + 1) * s.ticksPerSec.toNat / s.powerFreq + 2 →
      (s.powerTicks + i).toNat = s.powerTicks.toNat + i.toNat ∧
        (s.powerTicks + i).toNat ≤ (c + 1) * s.ticksPerSec.toNat / s.powerFreq + 2 := fun i hi => by
    have hwrap : (s.powerTicks + i).toNat = s.powerTicks.toNat + i.toNat := by
      rw [UInt64.toNat_add, Nat.mod_eq_of_lt (by omega)]
    exact ⟨hwrap, hwrap ▸ hi⟩
  apply hsum
  unfold interval
  dsimp only
  split_ifs with hbehind hahead
  · have hlt' := UInt64.lt_iff_toNat_lt.mp hbehind
    rw [htclk] at hlt'
    have hadd : (s.ticksPerSec / UInt64.ofNat s.powerFreq + UInt64.ofNat rand).toNat ≤
        s.ticksPerSec.toNat / s.powerFreq + 3 := by
      rw [UInt64.toNat_add, hq]
      exact (Nat.mod_le _ _).trans (by omega)
    omega
  · have hsub : (s.ticksPerSec / UInt64.ofNat s.powerFreq - UInt64.ofNat rand).toNat ≤
        s.ticksPerSec.toNat / s.powerFreq := by
      rw [UInt64.toNat_sub_of_le _ _ (UInt64.le_iff_toNat_le.mpr (by omega)), hq]
      omega
    omega
  · rw [hq]
    omega

/-- The ticks of a second that has not ended ask for what is summed up, and the last one for the
rest. -/
theorem asked_run {T : UInt64} {F c : Nat} {p : UInt64} {s : Tod} (hs : timing s = (T, F, c, p))
    (hc : c < F) (hp : Sized T F → p.toNat ≤ c * T.toNat / F + 2) {es : List Event}
    (hk : c + total (fun _ => ticked) s es ≤ F) :
    (c + total (fun _ => ticked) s es < F ∧
      ∃ p', timing (run s es) = (T, F, c + total (fun _ => ticked) s es, p') ∧
        (askedBy s es).sum = p' - p ∧
        (Sized T F → ((askedBy s es).map UInt64.toNat).sum + p.toNat = p'.toNat)) ∨
    (c + total (fun _ => ticked) s es = F ∧ timing (run s es) = (T, F, 0, 0) ∧
      (askedBy s es).sum = T - p ∧
      (Sized T F → ((askedBy s es).map UInt64.toNat).sum + p.toNat = T.toNat)) := by
  induction es generalizing s c p with
  | nil => exact .inl ⟨hc, p, hs, (UInt64.sub_self p).symm, fun _ => Nat.zero_add _⟩
  | cons e es ih =>
    have htotal : total (fun _ => ticked) s (e :: es) =
        ticked e + total (fun _ => ticked) (step s e) es := rfl
    rw [htotal] at hk ⊢
    rcases ticked_cases e with hquiet | ⟨latency, rand, rfl⟩
    · have hnone : asked s e = [] := by
        cases e with
        | tick latency rand => exact absurd hquiet Nat.one_ne_zero
        | _ => rfl
      have hnext := ih ((timing_step s hquiet).trans hs) hc hp (by omega)
      rw [hquiet, Nat.zero_add, run_cons, askedBy, hnone, List.nil_append]
      exact hnext
    · obtain ⟨hT, hF, hcounter, hticks⟩ : s.ticksPerSec = T ∧ s.powerFreq = F ∧
          s.powerTickcounter = c ∧ s.powerTicks = p := by simpa [timing] using hs
      obtain ⟨htiming, hasked⟩ := timing_tick (s := s) (by omega) latency rand
      rw [run_cons, askedBy, hasked]
      rw [show ticked (.tick latency rand) = 1 from rfl] at hk ⊢
      by_cases hlast : c + 1 < F
      · have hmore := schedule_more (s := s) (by omega) (UInt64.ofNat rand)
        have hto : timing (step s (.tick latency rand)) =
            (T, F, c + 1, p + interval s (UInt64.ofNat rand)) := by
          rw [htiming, hmore]
          unfold timing
          rw [hT, hF, hcounter, hticks]
        have hnat : Sized T F → _ := fun hsized =>
          interval_nat (s := s) (hT.symm ▸ hF.symm ▸ hsized) hcounter (hF.symm ▸ hlast)
            (by rw [hT, hF, hticks]; exact hp hsized) rand
        rw [hT, hF, hticks] at hnat
        rw [show (schedule s (UInt64.ofNat rand)).todticks = interval s (UInt64.ofNat rand) by rw [hmore]]
        generalize interval s (UInt64.ofNat rand) = i at hto hnat
        rcases ih hto hlast (fun hsized => (hnat hsized).2) (by omega) with
          ⟨hlt, p', hto', hsum, hsum'⟩ | ⟨heq, hto', hsum, hsum'⟩
        · refine .inl ⟨by omega, p', ?_, ?_, fun hsized => ?_⟩
          · rw [hto', Nat.add_assoc]
          · rw [List.singleton_append, List.sum_cons, hsum]
            grind
          · have hwrap := (hnat hsized).1
            have hsum' := hsum' hsized
            rw [List.singleton_append, List.map_cons, List.sum_cons]
            omega
        · refine .inr ⟨by omega, hto', ?_, fun hsized => ?_⟩
          · rw [List.singleton_append, List.sum_cons, hsum]
            grind
          · have hwrap := (hnat hsized).1
            have hsum' := hsum' hsized
            rw [List.singleton_append, List.map_cons, List.sum_cons]
            omega
      · have hend := schedule_last (s := s) (by omega) (UInt64.ofNat rand)
        have hnone : total (fun _ => ticked) (step s (.tick latency rand)) es = 0 := by omega
        obtain ⟨hsame, hempty⟩ := quiet_run hnone
        refine .inr ⟨by omega, ?_, ?_, fun hsized => ?_⟩
        · rw [hsame, htiming, hend]
          unfold timing
          rw [hT, hF]
        · rw [hempty, hend, hT, hticks]
          simp
        · have hle := (hp hsized).trans (last_fits hsized (by omega))
          rw [hempty, hend, hT, hticks, List.append_nil, List.map_singleton, List.sum_singleton,
            UInt64.toNat_sub_of_le _ _ (UInt64.le_iff_toNat_le.mpr hle)]
          omega

/-- The alarms of a second ask for its cycles. -/
theorem asked_second {s : Tod} (hfreq : 0 < s.powerFreq) (hcounter : s.powerTickcounter = 0)
    (hticks : s.powerTicks = 0) {es : List Event}
    (hes : total (fun _ => ticked) s es = s.powerFreq) :
    (askedBy s es).sum = s.ticksPerSec ∧
      (Sized s.ticksPerSec s.powerFreq →
        ((askedBy s es).map UInt64.toNat).sum = s.ticksPerSec.toNat) ∧
      (run s es).powerTickcounter = 0 ∧ (run s es).powerTicks = 0 := by
  have hs : timing s = (s.ticksPerSec, s.powerFreq, 0, 0) := by
    unfold timing
    rw [hcounter, hticks]
  have hall : 0 + total (fun _ => ticked) s es ≤ s.powerFreq := by omega
  rcases asked_run hs hfreq (fun _ => Nat.zero_le _) hall with ⟨hlt, -⟩ | ⟨-, hto, hsum, hsum'⟩
  · omega
  · have hto' : (run s es).powerTickcounter = 0 ∧ (run s es).powerTicks = 0 := by
      simp only [timing, Prod.mk.injEq] at hto
      exact hto.2.2
    exact ⟨hsum.trans (UInt64.sub_zero _), hsum', hto'⟩

/-! ## The clock -/

/-- The time is the start and the matches since. With one setting a match is every five or six
ticks, and a change of it costs one turn of the ring at most. The hours, the tenths and what is
read in between are of one time. The ticks of a second ask for its cycles. -/
theorem tod_keeps_time : (∀ (s : Tod) (es : List Event), Valid s.time → (∀ e ∈ es, undisturbed e = true) →
      (run s es).time = encode (tenths s.time + total matched s es)) ∧
    (∀ (s : Tod) (es : List Event), Running s → late s = 0 → (∀ e ∈ es, undisturbed e = true) →
      let ticks := place s + total (fun _ => ticked) s es
      5 * total matched s es ≤ ticks ∧
      ticks ≤ 6 * total matched s es + 6 * total changed s es + 5 ∧
      (total changed s es = 0 → total matched s es = ticks / ((ringMatch s.cra).toNat + 1))) ∧
    (∀ (s : Tod) (pre mid : List Event), s.todlatched = false →
      (∀ e ∈ mid, staysLatched e = true) →
      ∃ p q, pre = p ++ q ∧
        ∀ a ∈ answers (run s pre) (.read .hr :: (mid ++ [.read .ten])),
          a.2 = (run s p).time.get a.1) ∧
    (∀ (s : Tod) (es : List Event), 0 < s.powerFreq → s.powerTickcounter = 0 → s.powerTicks = 0 →
      total (fun _ => ticked) s es = s.powerFreq →
      (askedBy s es).sum = s.ticksPerSec ∧
      (Sized s.ticksPerSec s.powerFreq →
        ((askedBy s es).map UInt64.toNat).sum = s.ticksPerSec.toNat) ∧
      (run s es).powerTickcounter = 0 ∧ (run s es).powerTicks = 0) := by
  refine ⟨fun s es hvalid hes => ?_, fun s es hrun hlate hes => ?_, fun s pre mid hfree hmid => ?_,
    fun s es hfreq hcounter hticks hes => ?_⟩
  · exact time_run (encode_tenths hvalid).symm hes
  · obtain ⟨hrun', hlow, hhigh⟩ := ring_run hrun hes
    have hplace : place (run s es) ≤ 5 := hrun'.place
    exact ⟨by omega, by omega, fun hsteady => matches_steady hrun hlate hes hsteady⟩
  · exact reads_one_instant hfree pre hmid
  · exact asked_second hfreq hcounter hticks hes

/-- The clock of a PAL machine at one o'clock, running at 50 Hz. -/
def oneOclock : Tod where
  time := ⟨0, 0, 0, 1⟩
  todalarm := ⟨0, 0, 0, 0⟩
  todlatch := ⟨0, 0, 0, 1⟩
  cra := craTodin50Hz
  crb := 0
  todstopped := false
  todlatched := false
  todtickcounter := 0
  todticks := 100000
  todclk := 100000
  ticksPerSec := 985248
  powerFreq := 50
  powerTickcounter := 0
  powerTicks := 0
  irqs := []

/-- Ticks that are all late by the same, with the same throw of the dice. -/
def evenTicks (n : Nat) (latency : UInt64) (rand : Fin 4) : List Event :=
  List.replicate n (.tick latency rand)

theorem oneOclock_running : Running oneOclock := ⟨by decide, rfl, by decide⟩

theorem tod_keeps_time_second : (run oneOclock (evenTicks 50 0 1)).time =
      encode (tenths oneOclock.time + total matched oneOclock (evenTicks 50 0 1)) ∧
    5 * total matched oneOclock (evenTicks 50 0 1) ≤
      place oneOclock + total (fun _ => ticked) oneOclock (evenTicks 50 0 1) ∧
    (∃ p q, ([] : List Event) = p ++ q ∧
      ∀ a ∈ answers (run oneOclock []) (.read .hr :: (evenTicks 9 0 0 ++ [.read .ten])),
        a.2 = (run oneOclock p).time.get a.1) ∧
    (askedBy oneOclock (evenTicks 50 0 1)).sum = oneOclock.ticksPerSec :=
  ⟨tod_keeps_time.1 _ _ ⟨by decide, by decide, by decide, by decide⟩ (by decide),
    (tod_keeps_time.2.1 _ _ oneOclock_running (by decide) (by decide)).1,
    tod_keeps_time.2.2.1 _ _ _ rfl (by decide),
    (tod_keeps_time.2.2.2 _ _ (by decide) rfl rfl (by decide +kernel)).1⟩

/-- The setting changes just before each match. -/
def missedMatches : List Event :=
  (List.replicate 20 (.storeCra 0 :: (evenTicks 5 0 0 ++ .storeCra craTodin50Hz :: evenTicks 1 0 0))).flatten

/-- A hundred and twenty ticks without a match; a second that is longer by what its alarms were late;
a second that does not begin at its first tick. -/
theorem tod_drifts : (total (fun _ => ticked) oneOclock missedMatches = 120 ∧
      (run oneOclock missedMatches).time = oneOclock.time) ∧
    (run oneOclock (evenTicks 50 3 0)).todclk - oneOclock.todclk = oneOclock.ticksPerSec + 150 ∧
    (run oneOclock (evenTicks 3 0 0 ++ evenTicks 50 0 3)).todclk -
      (run oneOclock (evenTicks 3 0 0)).todclk ≠ oneOclock.ticksPerSec := by
  decide +kernel

end Vice.L4.CiaTod
