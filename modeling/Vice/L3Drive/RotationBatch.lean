import Vice.L3Drive.RotationStages

/-!
# Batches of the 1541 circuit against single cycles

`rotation_1541_gcr` may be called for any number of reference cycles, so a batch must not show. It
does not, but for one thing: a flux reversal reloads the divider and then the whole length of the
pass is put on it, where a single cycle puts on one. (The flux circuit for .p64 images adds first
and reloads afterwards.)

Results:
* `gcrPass_exact`: a pass is its single cycles exactly where no reversal comes up in it, or it is
  one cycle long.
* `gcr_batch_iff`: a call is its single cycles, for every number of cycles up to `n`, exactly when
  this holds of every pass of it.
* `gcr_batch_shows`: it does not in a track without flux.
-/
namespace Vice.L3.RotationBatch
open Vice.L0.BatchedSteps Vice.L3.Rotation Vice.L3.RotationStages

section
variable {d : Drive} {c : Circuit} {j k n : Nat}

/-! ## How long a pass may be -/

/-- `todo` without the cycles requested. -/
def bound (d : Drive) (c : Circuit) : Nat :=
  if 0 < delta d c ∧ delta d c < 2 ^ 31 ∧ cycSumFrv d <<< 1 ≤ delta d c then
    let todo := atMost (c.ue7Counter < 16) (16 - c.ue7Counter) (delta d c / cycSumFrv d)
    let todo := if d.readWriteMode then
        atMost (0 < c.frRandcount) c.frRandcount
          (atMost (c.filterCounter < 40) (40 - c.filterCounter) todo)
      else todo
    atMost (0 < c.soDelay) c.soDelay todo
  else 1

theorem atMost_min {limited : Prop} [Decidable limited] (limit todo : Nat) :
    atMost limited limit (min n todo) = min n (atMost limited limit todo) := by
  unfold atMost
  by_cases h : limited
  · simp only [h, true_and]
    split <;> split <;> omega
  · simp only [h, false_and, ↓reduceIte]

theorem atMost_le {limited : Prop} [Decidable limited] (limit todo : Nat) :
    atMost limited limit todo ≤ todo ∧ (limited → atMost limited limit todo ≤ limit) := by
  unfold atMost
  split
  · rename_i h
    exact ⟨Nat.le_of_lt h.2, fun _ => Nat.le_refl _⟩
  · rename_i h
    refine ⟨Nat.le_refl _, fun hl => ?_⟩
    exact Nat.not_lt.1 fun hlt => h ⟨hl, hlt⟩

theorem todo_eq_min (hn : 0 < n) : todo d c n = min n (bound d c) := by
  unfold todo bound
  split
  · have hall (todo : Nat) : atMost True n todo = min n todo := by
      simp only [atMost, true_and]
      split <;> omega
    simp only [hall]
    split <;> simp only [atMost_min]
  · omega

theorem todo_one (d : Drive) (c : Circuit) : todo d c 1 = 1 := by
  have hpos := todo_pos d 1 c Nat.one_pos
  rw [todo_eq_min Nat.one_pos] at hpos ⊢
  omega

theorem gcrPasses_take (d : Drive) (n : Nat) (c : Circuit) : (gcrPasses d).take n c = todo d c n :=
  rfl

/-- One call for one cycle is one pass of it. -/
theorem rotation1541Gcr_one (d : Drive) : rotation1541Gcr d 1 = gcrPass d 1 := by
  funext c
  rw [rotation1541Gcr, run_pos Nat.one_pos, gcrPasses_take, todo_one, Nat.sub_self, run_zero]
  rfl

/-- What every counter leaves room for. -/
structure Room (d : Drive) (k : Nat) (c : Circuit) : Prop where
  so : c.soDelay = 0 ∨ k ≤ c.soDelay
  ue7 : c.ue7Counter + k ≤ 16
  accum : c.accum + cycSumFrv d * k ≤ countNewBitcell d
  filter : d.readWriteMode = true → 40 ≤ c.filterCounter ∨ c.filterCounter + k ≤ 40
  random : d.readWriteMode = true → c.frRandcount = 0 ∨ k ≤ c.frRandcount

theorem delta_spec (h : c.accum < countNewBitcell d + 2 ^ 31) (hpos : 0 < delta d c)
    (hlt : delta d c < 2 ^ 31) : c.accum + delta d c = countNewBitcell d := by
  have hcount := countNewBitcell_lt d
  unfold delta at *
  omega

theorem room_of_bound (h : InRange d c) (hk : 2 ≤ k) (hb : k ≤ bound d c) : Room d k c := by
  unfold bound at hb
  split at hb
  · rename_i hdelta
    obtain ⟨hpos, hlt, -⟩ := hdelta
    have haccum := delta_spec h.accum hpos hlt
    generalize hcells : delta d c / cycSumFrv d = cells at hb
    simp only at hb
    have hue7 := @atMost_le (c.ue7Counter < 16) _ (16 - c.ue7Counter) cells
    generalize atMost (c.ue7Counter < 16) (16 - c.ue7Counter) cells = t1 at hb hue7
    have hfilter := @atMost_le (c.filterCounter < 40) _ (40 - c.filterCounter) t1
    generalize atMost (c.filterCounter < 40) (40 - c.filterCounter) t1 = t2 at hb hfilter
    have hrandom := @atMost_le (0 < c.frRandcount) _ c.frRandcount t2
    generalize atMost (0 < c.frRandcount) c.frRandcount t2 = t3 at hb hrandom
    generalize hmode : (if d.readWriteMode = true then t3 else t1) = t4 at hb
    have hso := @atMost_le (0 < c.soDelay) _ c.soDelay t4
    have hin := h.ue7
    have ht4 : t4 ≤ t1 ∧ (d.readWriteMode = true → t4 = t3) := by
      rw [← hmode]
      split
      · exact ⟨hrandom.1.trans hfilter.1, fun _ => rfl⟩
      · rename_i hwrite
        exact ⟨Nat.le_refl _, fun hread => absurd hread hwrite⟩
    refine ⟨?_, ?_, ?_, fun hm => ?_, fun hm => ?_⟩
    · omega
    · omega
    · have hcells' : k ≤ delta d c / cycSumFrv d := by omega
      have hmul := (Nat.le_div_iff_mul_le (cycSumFrv_pos d)).1 hcells'
      rw [Nat.mul_comm] at hmul
      omega
    · have := ht4.2 hm
      omega
    · have := ht4.2 hm
      omega
  · omega

/-! ## Single cycles keep the ranges -/

theorem accum_next (h : c.accum < countNewBitcell d + 2 ^ 31) :
    (bitcell d 1 c).accum < countNewBitcell d + 2 ^ 31 := by
  have hcyc := cycSumFrv_lt d
  have hcount := countNewBitcell_lt d
  rw [bitcell_frame.2.2.2]
  split <;> omega

theorem fluxFilter_frame : (fluxFilter k c).ue7Dcba = c.ue7Dcba ∧ (fluxFilter k c).accum = c.accum ∧
      ((fluxFilter k c).ue7Counter = c.ue7Counter ∨ (fluxFilter k c).ue7Counter = c.ue7Dcba) ∧
      (fluxFilter k c).frRandcount < 2 ^ 32 := by
  unfold fluxFilter
  simp only
  split
  · refine ⟨rfl, rfl, .inr rfl, ?_⟩
    simp only [fluxReversal]
    omega
  · split
    · refine ⟨rfl, rfl, .inr rfl, ?_⟩
      simp only [fluxReversal]
      omega
    · refine ⟨rfl, rfl, .inl rfl, ?_⟩
      simp only
      omega

theorem frame_eq {a b : Circuit} (h : frame a = frame b) :
    a.ue7Counter = b.ue7Counter ∧ a.ue7Dcba = b.ue7Dcba ∧ a.frRandcount = b.frRandcount ∧
      a.filterState = b.filterState ∧ a.filterLastState = b.filterLastState := by
  simpa only [frame, Prod.mk.injEq] using h

/-- The fields of `frame` after the divider. -/
theorem divide_fields : (divide d k c).ue7Counter =
        (if c.ue7Counter + k = 16 then c.ue7Dcba else c.ue7Counter + k) ∧
      (divide d k c).ue7Dcba = c.ue7Dcba ∧ (divide d k c).frRandcount = c.frRandcount ∧
      (divide d k c).filterState = c.filterState ∧
      (divide d k c).filterLastState = c.filterLastState := by
  have h := @divide_frame d c k
  simpa only [frame, Prod.mk.injEq] using h.1

theorem inRange_cycle (h : InRange d c) : InRange d (gcrPass d 1 c) := by
  obtain ⟨hso, hsoAccum⟩ := @soSignal_frame c 1
  obtain ⟨hsoUe7, hsoDcba, hsoFr, -, -⟩ := frame_eq hso
  have hue7 := h.ue7
  have hdcba := h.dcba
  have hsmall := cycSumFrv_le d
  cases hmode : d.readWriteMode with
  | true =>
    rw [gcrPass_read hmode]
    generalize hs : soSignal 1 c = s at hsoUe7 hsoDcba hsoFr hsoAccum
    obtain ⟨hfDcba, hfAccum, hfUe7, hfFr⟩ := @fluxFilter_frame s 1
    generalize hf : fluxFilter 1 s = f at hfDcba hfAccum hfUe7 hfFr
    obtain ⟨hdUe7, hdDcba, hdFr, -, -⟩ := @divide_fields d f 1
    have hdAccum : (divide d 1 f).accum = f.accum :=
      (@divide_frame d f 1).2.resolve_right fun hw => by
        rw [hmode] at hw
        cases hw.1
    obtain ⟨hbUe7, hbDcba, hbFr, -⟩ := @bitcell_frame d (divide d 1 f) 1
    refine ⟨?_, ?_, ?_, ?_⟩
    · show (bitcell d 1 (divide d 1 f)).ue7Counter < 16
      rw [hbUe7, hdUe7]
      split <;> omega
    · show (bitcell d 1 (divide d 1 f)).ue7Dcba < 4
      omega
    · exact accum_next (by rw [hdAccum, hfAccum, hsoAccum]; exact h.accum)
    · show (bitcell d 1 (divide d 1 f)).frRandcount < 2 ^ 32
      omega
  | false =>
    rw [gcrPass_write hmode]
    generalize hs : soSignal 1 c = s at hsoUe7 hsoDcba hsoFr hsoAccum
    obtain ⟨hbUe7, hbDcba, hbFr, -⟩ := @bitcell_frame d s 1
    have hbAccum : (bitcell d 1 s).accum < countNewBitcell d + 2 ^ 31 :=
      accum_next (by rw [hsoAccum]; exact h.accum)
    generalize hb : bitcell d 1 s = b at hbUe7 hbDcba hbFr hbAccum
    obtain ⟨hdUe7, hdDcba, hdFr, -, -⟩ := @divide_fields d b 1
    have hfr := h.frRandcount
    refine ⟨?_, ?_, ?_, ?_⟩
    · show (divide d 1 b).ue7Counter < 16
      rw [hdUe7]
      split <;> omega
    · show (divide d 1 b).ue7Dcba < 4
      omega
    · show (divide d 1 b).accum < _
      obtain hsame | ⟨-, hshift⟩ := (@divide_frame d b 1).2 <;> omega
    · show (divide d 1 b).frRandcount < 2 ^ 32
      omega

/-! ## A flux reversal inside a pass -/

theorem fluxFilter_ue7 (hflux : FluxIn k c) : (fluxFilter k c).ue7Counter = c.ue7Dcba := by
  unfold fluxFilter
  simp only
  split
  · rfl
  · rename_i hreal
    have hrandom : c.frRandcount = k := hflux.resolve_left hreal
    have hzero : (c.frRandcount + 2 ^ 32 - k) % 2 ^ 32 = 0 := by omega
    simp only [hzero, ↓reduceIte]
    rfl

/-- The divider starts over with the whole length of the pass on it. -/
theorem gcrPass_ue7 (hmode : d.readWriteMode = true) (hflux : FluxIn k c) :
    (gcrPass d k c).ue7Counter = if c.ue7Dcba + k = 16 then c.ue7Dcba else c.ue7Dcba + k := by
  have hso := frame_eq (@soSignal_frame c k).1
  have hfilter := fluxFilter_ue7 ((@soSignal_flux c k k).2 hflux)
  have hdcba := (@fluxFilter_frame (soSignal k c) k).1
  rw [gcrPass_read hmode]
  show (bitcell d k (divide d k (fluxFilter k (soSignal k c)))).ue7Counter = _
  rw [bitcell_frame.1, divide_fields.1, hfilter, hdcba, hso.2.1]

theorem fluxIn_idle (hmode : d.readWriteMode = true) (hk : k < 16) (hr : c.frRandcount < 2 ^ 32) :
    FluxIn 1 (idle d k c) ↔ FluxIn (k + 1) c := by
  have hcount : (c.frRandcount + 2 ^ 32 - k) % 2 ^ 32 = 1 ↔ c.frRandcount = k + 1 := by omega
  unfold FluxIn
  simp only [idle, hmode, ↓reduceIte, hcount, Nat.add_assoc]

/-- One cycle into the reversal the divider is one on, not the length of the pass. -/
theorem gcrPass_flux_ne (h : InRange d c) (hmode : d.readWriteMode = true) (hk : 0 < k)
    (hk' : k < 16) (hflux : FluxIn (k + 1) c) :
    gcrPass d (k + 1) c ≠ gcrPass d 1 (idle d k c) := by
  intro heq
  have hdcba := h.dcba
  have hbatch := gcrPass_ue7 hmode hflux
  have hsingle := gcrPass_ue7 hmode ((fluxIn_idle hmode hk' h.frRandcount).2 hflux)
  have hsame : (idle d k c).ue7Dcba = c.ue7Dcba := rfl
  rw [heq, hsingle, hsame] at hbatch
  split at hbatch <;> split at hbatch <;> omega

/-! ## A flux reversal at the start of a pass -/

/-- The filter is ready and has a new state. -/
def RealFlux (k : Nat) (c : Circuit) : Prop :=
  40 ≤ c.filterCounter + k ∧ c.filterLastState ≠ c.filterState

theorem soSignal_real : RealFlux k (soSignal j c) ↔ RealFlux k c := by
  unfold soSignal RealFlux
  split
  · simp only
    split <;> rfl
  · rfl

theorem soSignal_xorShift32 : (soSignal k c).xorShift32 = c.xorShift32 := by
  unfold soSignal
  split
  · simp only
    split <;> rfl
  · rfl

/-- The distance of the next random reversal after a real one. -/
def drawReal (c : Circuit) : Nat := (randomNextUInt c.xorShift32 >>> 16).toNat % 31 + 289

theorem fluxFilter_real (h : RealFlux k c) : (fluxFilter k c).frRandcount = drawReal c ∧
      (fluxFilter k c).filterLastState = (fluxFilter k c).filterState := by
  have hreal : 40 ≤ c.filterCounter + k ∧ c.filterLastState ≠ c.filterState := h
  simp only [fluxFilter, hreal, ne_eq, not_false_eq_true, and_self, ↓reduceIte]
  exact ⟨rfl, rfl⟩

theorem gcrPass_frRandcount (hmode : d.readWriteMode = true) :
    (gcrPass d k c).frRandcount = (fluxFilter k (soSignal k c)).frRandcount := by
  rw [gcrPass_read hmode]
  show (bitcell d k (divide d k (fluxFilter k (soSignal k c)))).frRandcount = _
  rw [bitcell_frame.2.2.1, divide_fields.2.2.1]

theorem gcrPass_real (hmode : d.readWriteMode = true) (h : RealFlux k c) :
    (gcrPass d k c).frRandcount = drawReal c := by
  rw [gcrPass_frRandcount hmode, (fluxFilter_real (soSignal_real.2 h)).1, drawReal, drawReal,
    soSignal_xorShift32]

/-- A cycle that reads no bitcell only moves the bitcell counter after the filter. -/
theorem gcrPass_between (hmode : d.readWriteMode = true) (haccum : c.accum + cycSumFrv d < countNewBitcell d)
    (hlast : (fluxFilter 1 (soSignal 1 c)).filterLastState =
      (fluxFilter 1 (soSignal 1 c)).filterState) :
    (gcrPass d 1 c).filterLastState = (gcrPass d 1 c).filterState ∧
      (gcrPass d 1 c).accum = c.accum + cycSumFrv d := by
  have hsame : (divide d 1 (fluxFilter 1 (soSignal 1 c))).accum = c.accum := by
    have hdivide := (@divide_frame d (fluxFilter 1 (soSignal 1 c)) 1).2.resolve_right fun hw => by
      rw [hmode] at hw
      cases hw.1
    rw [hdivide, fluxFilter_frame.2.1, soSignal_frame.2]
  have hquiet := @bitcell_quiet d (divide d 1 (fluxFilter 1 (soSignal 1 c))) 1
    (by rw [hsame, Nat.mul_one]; exact haccum)
  rw [gcrPass_read hmode, hquiet]
  refine ⟨?_, ?_⟩
  · show (divide d 1 (fluxFilter 1 (soSignal 1 c))).filterLastState =
      (divide d 1 (fluxFilter 1 (soSignal 1 c))).filterState
    rw [divide_fields.2.2.2.2, divide_fields.2.2.2.1, hlast]
  · show (divide d 1 (fluxFilter 1 (soSignal 1 c))).accum + cycSumFrv d * 1 = _
    rw [hsame, Nat.mul_one]

theorem fluxFilter_calm (hlast : c.filterLastState = c.filterState) (hfr : 1 < c.frRandcount)
    (hr : c.frRandcount < 2 ^ 32) :
    (fluxFilter 1 (soSignal 1 c)).frRandcount = c.frRandcount - 1 ∧
      (fluxFilter 1 (soSignal 1 c)).filterLastState =
        (fluxFilter 1 (soSignal 1 c)).filterState := by
  obtain ⟨-, -, hsoFr, hsoState, hsoLast⟩ := frame_eq (@soSignal_frame c 1).1
  have hcount : ((soSignal 1 c).frRandcount + 2 ^ 32 - 1) % 2 ^ 32 = c.frRandcount - 1 := by omega
  have hlast' : (soSignal 1 c).filterLastState = (soSignal 1 c).filterState := by
    rw [hsoLast, hsoState, hlast]
  rw [fluxFilter_quiet (.inr hlast') (by omega)]
  exact ⟨hcount, hlast'⟩

/-- Between two bitcells and two reversals the random counter counts down. -/
theorem iterate_calm (hmode : d.readWriteMode = true)
    (hlast : c.filterLastState = c.filterState) (hfr : k < c.frRandcount)
    (hr : c.frRandcount < 2 ^ 32) (haccum : c.accum + cycSumFrv d * k < countNewBitcell d) :
    ((gcrPass d 1)^[k] c).frRandcount = c.frRandcount - k ∧
      ((gcrPass d 1)^[k] c).filterLastState = ((gcrPass d 1)^[k] c).filterState ∧
      ((gcrPass d 1)^[k] c).accum = c.accum + cycSumFrv d * k := by
  induction k with
  | zero => exact ⟨rfl, hlast, rfl⟩
  | succ k ih =>
    rw [Nat.mul_succ] at haccum
    obtain ⟨hfr', hlast', haccum'⟩ := ih (by omega) (by omega)
    rw [Function.iterate_succ_apply']
    generalize (gcrPass d 1)^[k] c = t at hfr' hlast' haccum'
    obtain ⟨hcalm, hcalmLast⟩ := @fluxFilter_calm t hlast' (by omega) (by omega)
    obtain ⟨hnextLast, hnextAccum⟩ := @gcrPass_between d t hmode (by omega) hcalmLast
    refine ⟨?_, hnextLast, ?_⟩
    · rw [gcrPass_frRandcount hmode, hcalm]
      omega
    · rw [hnextAccum, haccum', Nat.mul_succ]
      omega

/-- The random counter starts over at the first cycle; a pass does not take its own cycles off
it. -/
theorem gcrPass_real_ne (hmode : d.readWriteMode = true) (hroom : Room d (k + 2) c)
    (hreal : RealFlux 1 c) : gcrPass d (k + 2) c ≠ (gcrPass d 1)^[k + 2] c := by
  intro heq
  have hcyc := cycSumFrv_pos d
  have hue7 := hroom.ue7
  have haccum := hroom.accum
  simp only [Nat.mul_add] at haccum
  have hbatch := @gcrPass_real d c (k + 2) hmode ⟨by have := hreal.1; omega, hreal.2⟩
  have hfirst := gcrPass_real hmode hreal
  obtain ⟨hlast, haccum'⟩ := @gcrPass_between d c hmode (by omega)
    (fluxFilter_real (soSignal_real.2 hreal)).2
  have hdraw : 289 ≤ drawReal c ∧ drawReal c < 320 := by
    unfold drawReal
    omega
  rw [heq, Function.iterate_succ_apply', Function.iterate_succ_apply] at hbatch
  obtain ⟨hfr, hlast', haccum''⟩ := @iterate_calm d (gcrPass d 1 c) k hmode hlast (by omega)
    (by omega) (by omega)
  generalize (gcrPass d 1)^[k] (gcrPass d 1 c) = t at *
  obtain ⟨hcalm, -⟩ := @fluxFilter_calm t hlast' (by omega) (by omega)
  rw [gcrPass_frRandcount hmode, hcalm] at hbatch
  omega

/-! ## Every pass, every call -/

/-- In read mode a pass of more than one cycle has no flux reversal in it. -/
def Smooth (d : Drive) (k : Nat) (c : Circuit) : Prop :=
  d.readWriteMode = true → k = 1 ∨ ¬FluxIn k c

theorem quiet_of_room (hroom : Room d (k + 1) c)
    (hreal : d.readWriteMode = true → ¬RealFlux 1 c) : Quiet d k c where
  so := hroom.so.imp_right Nat.lt_of_succ_le
  ue7 := by
    have := hroom.ue7
    omega
  accum := by
    have haccum := hroom.accum
    have hcyc := cycSumFrv_pos d
    rw [Nat.mul_succ] at haccum
    omega
  filter hm := by
    obtain hready | hwait := hroom.filter hm
    · by_contra hno
      rw [not_or] at hno
      exact hreal hm ⟨by omega, hno.2⟩
    · exact .inl (by omega)
  random hm := (hroom.random hm).imp_right Nat.lt_of_succ_le

theorem gcrPass_exact (h : InRange d c) (hk : 0 < k) (hb : k ≤ bound d c) :
    gcrPass d k c = (gcrPass d 1)^[k] c ↔ Smooth d k c := by
  obtain rfl | hmore : k = 1 ∨ 2 ≤ k := by omega
  · exact ⟨fun _ _ => .inl rfl, fun _ => rfl⟩
  have hroom := room_of_bound h hmore hb
  obtain ⟨j, rfl⟩ : ∃ j, k = j + 2 := ⟨k - 2, by omega⟩
  have hue7 := hroom.ue7
  by_cases hreal : d.readWriteMode = true ∧ RealFlux 1 c
  · obtain ⟨hmode, hstart⟩ := hreal
    have hin : FluxIn (j + 2) c := .inl ⟨by have := hstart.1; omega, hstart.2⟩
    refine ⟨fun heq => absurd heq (gcrPass_real_ne hmode hroom hstart), fun hs => ?_⟩
    exact absurd hin ((hs hmode).resolve_left (by omega))
  · have hquiet := quiet_of_room hroom fun hm hstart => hreal ⟨hm, hstart⟩
    rw [Function.iterate_succ_apply', iterate_quiet hquiet (by omega) h.frRandcount]
    refine ⟨fun heq hm => .inr fun hflux => ?_, fun hs => ?_⟩
    · exact gcrPass_flux_ne h hm (by omega) (by omega) hflux heq
    · have hnone (hm : d.readWriteMode = true) : ¬FluxIn (j + 1 + 1) c :=
        (hs hm).resolve_left (by omega)
      exact (gcrPass_late hroom.so (by omega) h.frRandcount hnone).symm

/-- A shorter pass has no more in it. -/
theorem smooth_mono (h : InRange d c) (hb : k ≤ bound d c) (hs : Smooth d k c) (hj : 0 < j)
    (hjk : j ≤ k) : Smooth d j c := by
  intro hm
  obtain rfl | hone := eq_or_ne j 1
  · exact .inl rfl
  refine .inr fun hflux => ?_
  have hnone := (hs hm).resolve_left (by omega)
  obtain hreal | hrandom := hflux
  · exact hnone (.inl ⟨by have := hreal.1; omega, hreal.2⟩)
  · have hroom := (room_of_bound h (by omega) hb).random hm
    exact hnone (.inr (by omega))

theorem gcr_exact (d : Drive) : Exact (gcrPasses d) (InRange d) (Smooth d) (bound d) where
  take_eq _ hn := todo_eq_min hn
  keep := inRange_cycle
  exact := gcrPass_exact
  mono := smooth_mono

/-- A call of up to `n` cycles is that many calls of one cycle each, exactly when each pass of the
call for `n` is smooth in the state it starts from. -/
theorem gcr_batch_iff (h : InRange d c) : (∀ m ≤ n, rotation1541Gcr d m c = (rotation1541Gcr d 1)^[m] c) ↔
      Clear (gcrPasses d) (Smooth d) n c := by
  rw [rotation1541Gcr_one]
  exact (gcr_exact d).run_iff h

end

/-! ## A track without flux -/

/-- A drive at 300 rpm that reads a track of the first zone. -/
def readingDrive : Drive where
  rpm := 30000
  wobbleFactor := 0
  gcrCurrentTrackSize := 7692
  gcrImageLoaded := true
  gcrWriteValue := 0
  readWriteMode := true
  byteReadyActive := 6
  rpm_pos := by decide
  rpm_le := by decide
  wobble_bounds := no_wobble
  trackSize_le := by decide

/-- Five cycles before the next random reversal, on a track that is not there. -/
def noFlux : Circuit where
  accum := 0
  lastReadData := 0
  lastWriteData := 0
  bitCounter := 0
  ue7Dcba := 3
  ue7Counter := 3
  uf4Counter := 0
  frRandcount := 5
  filterCounter := 40
  filterState := 0
  filterLastState := 0
  writeFlux := 0
  soDelay := 0
  cycleIndex := 0
  xorShift32 := 0x1234abcd
  gcrHeadOffset := 0
  gcrRead := 0
  gcrDirtyTrack := false
  byteReadyEdge := 0
  byteReadyLevel := 0
  track := none

theorem noFlux_inRange : InRange readingDrive noFlux where
  ue7 := by decide
  dcba := by decide
  accum := by decide
  frRandcount := by decide

theorem noFlux_take (n : Nat) (hn : 0 < n) (hle : n ≤ 5) : (gcrPasses readingDrive).take n noFlux = n := by
  rw [gcrPasses_take]
  interval_cases n <;> decide

/-- The four cycles before the reversal are smooth. -/
theorem gcr_batch_four : Clear (gcrPasses readingDrive) (Smooth readingDrive) 4 noFlux ∧
      ∀ m ≤ 4, rotation1541Gcr readingDrive m noFlux =
        (rotation1541Gcr readingDrive 1)^[m] noFlux := by
  have hclear : Clear (gcrPasses readingDrive) (Smooth readingDrive) 4 noFlux := by
    refine .pass (by decide) ?_ ?_
    · rw [noFlux_take 4 (by decide) (by decide)]
      intro _
      exact .inr (by unfold FluxIn; decide)
    · rw [noFlux_take 4 (by decide) (by decide)]
      exact .done _
  exact ⟨hclear, (gcr_batch_iff noFlux_inRange).2 hclear⟩

/-- With the fifth the divider stands at eight and not at four. -/
theorem gcr_batch_shows : InRange readingDrive noFlux ∧
      rotation1541Gcr readingDrive 5 noFlux ≠ (rotation1541Gcr readingDrive 1)^[5] noFlux := by
  have hbatch : (rotation1541Gcr readingDrive 5 noFlux).ue7Counter = 8 := by
    rw [rotation1541Gcr, run_pos (by decide), noFlux_take 5 (by decide) (by decide), run_zero]
    decide
  have hsingle : ((rotation1541Gcr readingDrive 1)^[5] noFlux).ue7Counter = 4 := by
    rw [rotation1541Gcr_one]
    decide
  refine ⟨noFlux_inRange, fun heq => ?_⟩
  rw [heq, hsingle] at hbatch
  exact absurd hbatch (by decide)

end Vice.L3.RotationBatch
