import Vice.L4Machine.CiaSerialInput

/-!
# Bytes that go out

`sent` are the levels of SP in the order they were shown, `unsent` are the bits that are still in
the shifter, and a byte `waits` in the data register from the store to its being taken over. What
was sent, what is unsent and what waits are the bytes that were stored (`sending_run`), when each
store was made with no other byte waiting.
-/
namespace Vice.L4.CiaSerial
open Vice.L0.BitWindow
open Vice.L0.BitRun (byteBits toBits toBits_append toBits_cons toBits_nil)

/-! ## What a run shows -/

def spBit : Output → Option Bool
  | .setSp bit => some bit
  | _ => none

/-- The levels of SP, the first one first. -/
def sent (s : Serial) : List Bool := s.out.reverse.filterMap spBit

/-- The flags of a byte on its way from the data register to the shifter. -/
def loads : BitVec 32 := sdrSet3 ||| sdrSet2 ||| sdrSet1 ||| sdrSet0

/-- No byte waits in the data register. -/
def accepts (s : Serial) : Bool := !s.sdrValid && !s.has loads

def waiting (s : Serial) : List Bool := if accepts s then [] else byteBits s.sdr

/-- The stores find the data register free, and the port stays an output. -/
def keepsOutput (s : Serial) : Event → Bool
  | .reset => false
  | .storeCra _ byte => spmodeOut byte
  | .storeSdr _ _ => accepts s
  | _ => true

def Sends : Serial → List Event → Prop
  | _, [] => True
  | s, e :: es => keepsOutput s e = true ∧ Sends (step s e) es

instance Sends.decide : ∀ (s : Serial) (es : List Event), Decidable (Sends s es)
  | _, [] => .isTrue trivial
  | s, e :: es =>
    have := Sends.decide (step s e) es
    inferInstanceAs (Decidable (keepsOutput s e = true ∧ _))

def storedByte : Event → Option UInt8
  | .storeSdr _ byte => some byte
  | _ => none

/-- The bytes stored to the data register. -/
def written (es : List Event) : List UInt8 := es.filterMap storedByte

/-! ## The shifter -/

theorem sent_emit {s : Serial} {o : Output} (h : spBit o = none) : sent (s.emit o) = sent s := by
  simp [sent, Serial.emit, h]

/-- The bits of the shifter that are still to be shown: the next one is at place 8 while CNT is
high, and at place 7 while it is low. -/
def unsent (srBits : Nat) (shifter : BitVec 16) : List Bool :=
  window shifter (8 - srBits % 2) (srBits / 2)

/-- `target` is sent, or in the shifter, or waits; `loading` says that the data register is still to
be looked at. Below the bits of the shifter there is room for the next byte. -/
structure Shifting (target : List Bool) (loading : Bool) (srBits : Nat) (shifter : BitVec 16)
    (sdrValid : Bool) (sdr : UInt8) (shown : List Bool) : Prop where
  le : srBits ≤ 17
  low : srBits ≠ 0 → ∀ i < 9 - srBits % 2 - srBits / 2, shifter.getLsbD i = false
  once : loading = true → sdrValid = false
  busy : sdrValid = true → 2 ≤ srBits
  bits : shown ++ unsent srBits shifter ++ (if sdrValid || loading then byteBits sdr else []) = target

section Shifter
variable {target shown : List Bool} {loading sdrValid : Bool} {n : Nat} {v : BitVec 16} {sdr : UInt8}

theorem getLsbD_byte16 (b : UInt8) (i : Nat) :
    (byte16 b).getLsbD i = (decide (i < 16) && b.toBitVec.getLsbD i) := by
  unfold byte16
  rw [BitVec.getLsbD_setWidth]

theorem window_byte16 (b : UInt8) : window (byte16 b) 7 8 = byteBits b := by
  rw [← window_byte]
  apply window_congr
  intro i hi
  rw [getLsbD_byte16]
  simp [show 7 - i < 16 by omega]

theorem unsent_byte (b : UInt8) : unsent 16 (byte16 b <<< 1) = byteBits b := by
  rw [← window_byte16]
  exact window_shiftLeft (by decide) (by decide)

/-- A byte put below bits that are all shown. -/
theorem unsent_or_byte (b : UInt8) (h : ∀ i < 8, v.getLsbD i = false) :
    unsent 17 (v ||| byte16 b) = byteBits b := by
  rw [← window_byte16]
  apply window_congr
  intro i hi
  rw [BitVec.getLsbD_or, h (7 - i) (by omega), Bool.false_or]

/-- The shifter is empty and takes the byte of the register. -/
theorem Shifting.load_empty (h : Shifting target true 0 v sdrValid sdr shown) :
    Shifting target false 16 (byte16 sdr <<< 1) sdrValid sdr shown where
  le := by decide
  low _ i hi := by
    rw [Nat.lt_one_iff.mp hi, BitVec.getLsbD_shiftLeft]
    rfl
  once hl := Bool.noConfusion hl
  busy hv := Bool.noConfusion ((h.once rfl).symm.trans hv)
  bits := by
    rw [unsent_byte]
    simpa [h.once rfl, unsent] using h.bits

/-- The last bit is shown, and the byte is put below it. -/
theorem Shifting.load_last (h : Shifting target true 1 v sdrValid sdr shown) :
    Shifting target false 17 (v ||| byte16 sdr) sdrValid sdr shown where
  le := Nat.le_refl 17
  low _ i hi := absurd hi (Nat.not_lt_zero i)
  once hl := Bool.noConfusion hl
  busy hv := Bool.noConfusion ((h.once rfl).symm.trans hv)
  bits := by
    rw [unsent_or_byte sdr (h.low (by decide))]
    simpa [h.once rfl, unsent] using h.bits

/-- The shifter is busy: the byte has to wait. -/
theorem Shifting.load_busy (h : Shifting target true n v sdrValid sdr shown) (hn : 2 ≤ n) :
    Shifting target false n v true sdr shown where
  le := h.le
  low := h.low
  once hl := Bool.noConfusion hl
  busy _ := hn
  bits := by simpa using h.bits

/-- CNT rises and the bits move up by one place. -/
theorem Shifting.rise (h : Shifting target loading (2 * n + 1) v sdrValid sdr shown) :
    Shifting target loading (2 * n) (v <<< 1) sdrValid sdr shown where
  le := by have := h.le; omega
  low hn i hi := by
    rw [BitVec.getLsbD_shiftLeft]
    cases i with
    | zero => simp
    | succ i =>
      have hbit := h.low (by omega) i (by omega)
      simp [hbit]
  once := h.once
  busy hv := by have := h.busy hv; omega
  bits := by
    have hle := h.le
    have hunsent : unsent (2 * n) (v <<< 1) = unsent (2 * n + 1) v := by
      unfold unsent
      rw [show 8 - 2 * n % 2 = 7 + 1 by omega, show 8 - (2 * n + 1) % 2 = 7 by omega,
        show (2 * n + 1) / 2 = 2 * n / 2 by omega]
      exact window_shiftLeft (by omega) (by decide)
    rw [hunsent]
    exact h.bits

/-- An underflow too many: nothing is in the shifter. -/
theorem Shifting.rise_empty (h : Shifting target loading 0 v sdrValid sdr shown) :
    Shifting target loading 0 (v <<< 1) sdrValid sdr shown where
  le := h.le
  low hn := absurd rfl hn
  once := h.once
  busy := h.busy
  bits := h.bits

/-- CNT falls and the bit at place 8 is shown. -/
theorem Shifting.fall (h : Shifting target loading (2 * n + 2) v sdrValid sdr shown) (hn : n ≠ 0) :
    Shifting target loading (2 * n + 1) v sdrValid sdr (shown ++ [v.getLsbD 8]) where
  le := by have := h.le; omega
  low _ i hi := h.low (by omega) i (by omega)
  once := h.once
  busy hv := by omega
  bits := by
    have hunsent : unsent (2 * n + 2) v = v.getLsbD 8 :: unsent (2 * n + 1) v := by
      unfold unsent
      rw [show 8 - (2 * n + 2) % 2 = 8 by omega, show (2 * n + 2) / 2 = n + 1 by omega,
        show 8 - (2 * n + 1) % 2 = 7 by omega, show (2 * n + 1) / 2 = n by omega]
      rfl
    have hbits := h.bits
    rw [hunsent] at hbits
    simpa using hbits

/-- With the last bit the byte that waits is put below it. -/
theorem Shifting.fall_last (h : Shifting target loading 2 v sdrValid sdr shown) :
    Shifting target loading (if sdrValid then 17 else 1) (if sdrValid then v ||| byte16 sdr else v) false
      sdr (shown ++ [v.getLsbD 8]) := by
  have hbits := h.bits
  have hunsent : unsent 2 v = [v.getLsbD 8] := rfl
  rw [hunsent] at hbits
  cases hvalid : sdrValid with
  | false =>
    rw [hvalid] at hbits
    refine ⟨by decide, fun _ i hi => h.low (by decide) i ?_, fun _ => rfl, fun hv => Bool.noConfusion hv, ?_⟩
    · exact hi
    · simpa [unsent] using hbits
  | true =>
    have hloading : loading = false := by
      cases hl : loading with
      | false => rfl
      | true => exact Bool.noConfusion ((h.once hl).symm.trans hvalid)
    rw [hvalid, hloading] at hbits
    refine ⟨by decide, fun _ i hi => absurd hi (Nat.not_lt_zero i), fun _ => rfl,
      fun hv => Bool.noConfusion hv, ?_⟩
    rw [if_pos rfl, if_pos rfl, unsent_or_byte sdr fun i hi => h.low (by decide) i hi, hloading]
    simpa using hbits

end Shifter

/-! ## The alarm -/

/-- The shifter of the port. -/
def Serial.Shifts (s : Serial) (target : List Bool) (loading : Bool) : Prop :=
  Shifting target loading s.srBits s.shifter s.sdrValid s.sdr (sent s)

section Alarm
variable {target : List Bool} {loading : Bool} {s : Serial}

theorem shifts_takeSdr (h : s.Shifts target (loading || s.flag 19))
    (honce : loading = true → s.flag 19 = false) : (takeSdr s).Shifts target loading := by
  unfold takeSdr
  rw [has_set0]
  cases hset : s.flag 19 with
  | false =>
    rw [hset, Bool.or_false] at h
    exact h
  | true =>
    have hloading : loading = false := by
      cases hl : loading with
      | false => rfl
      | true => exact Bool.noConfusion (hset.symm.trans (honce hl))
    rw [hset, Bool.or_true] at h
    rw [hloading, if_pos rfl]
    unfold Serial.Shifts at h ⊢
    split_ifs with hzero hone
    · rw [hzero] at h
      exact h.load_empty
    · rw [hone] at h
      exact h.load_last
    · exact h.load_busy (by omega)

theorem shifts_emit {o : Output} (h : s.Shifts target loading) (ho : spBit o = none) :
    (s.emit o).Shifts target loading := by
  unfold Serial.Shifts
  rw [sent_emit ho]
  exact h

theorem sent_fallCnt : sent (fallCnt s).1 = sent s ++ [s.shifter.getLsbD 8] := by
  unfold fallCnt
  dsimp only
  split_ifs <;> simp [sent, Serial.emit, spBit]

theorem fallCnt_more (h : s.srBits ≠ 1) : (fallCnt s).1.srBits = s.srBits ∧ (fallCnt s).1.shifter = s.shifter ∧
      (fallCnt s).1.sdrValid = s.sdrValid ∧ (fallCnt s).1.sdr = s.sdr := by
  unfold fallCnt
  dsimp only
  split_ifs with hone
  · exact absurd hone h
  · exact absurd hone h
  · exact ⟨rfl, rfl, rfl, rfl⟩

theorem fallCnt_last (h : s.srBits = 1) : (fallCnt s).1.srBits = (if s.sdrValid then 17 else 1) ∧
      (fallCnt s).1.shifter = (if s.sdrValid then s.shifter ||| byte16 s.sdr else s.shifter) ∧
      (fallCnt s).1.sdrValid = false ∧ (fallCnt s).1.sdr = s.sdr := by
  unfold fallCnt
  dsimp only
  split_ifs with hone hnext hvalid hvalid
  · exact ⟨rfl, rfl, rfl, rfl⟩
  · exact absurd hnext hvalid
  · exact absurd hvalid hnext
  · exact ⟨h, rfl, Bool.eq_false_iff.mpr hvalid, rfl⟩
  · exact absurd h hone
  · exact absurd h hone

theorem shifts_fallCnt {n : Nat} (h : Shifting target loading (2 * n + 2) s.shifter s.sdrValid s.sdr (sent s))
    (hn : s.srBits = 2 * n + 1) : (fallCnt s).1.Shifts target loading := by
  unfold Serial.Shifts
  rw [sent_fallCnt]
  by_cases hlast : n = 0
  · rw [hlast] at h hn
    obtain ⟨hbits, hshifter, hvalid, hsdr⟩ := fallCnt_last hn
    rw [hbits, hshifter, hvalid, hsdr]
    exact h.fall_last
  · obtain ⟨hbits, hshifter, hvalid, hsdr⟩ := fallCnt_more (s := s) (by omega)
    rw [hbits, hshifter, hvalid, hsdr, hn]
    exact h.fall hlast

theorem shifts_toggleCnt (h : s.Shifts target loading) : (toggleCnt s).1.Shifts target loading := by
  unfold toggleCnt
  split_ifs with htoggle hzero
  · apply shifts_emit _ rfl
    unfold Serial.Shifts at h
    rw [hzero] at h
    have hrise := h.rise_empty
    rw [← hzero] at hrise
    exact hrise
  · have hle : s.srBits ≤ 17 := h.le
    rw [decSrBits_pos (Nat.pos_of_ne_zero hzero) hle]
    dsimp only
    split_ifs with hodd
    · obtain ⟨n, hn⟩ : ∃ n, s.srBits = 2 * n + 2 := ⟨(s.srBits - 2) / 2, by omega⟩
      apply shifts_fallCnt (n := n)
      · unfold Serial.Shifts at h
        rw [hn] at h
        exact h
      · show s.srBits - 1 = 2 * n + 1
        omega
    · obtain ⟨n, hn⟩ : ∃ n, s.srBits = 2 * n + 1 := ⟨(s.srBits - 1) / 2, by omega⟩
      apply shifts_emit _ rfl
      unfold Serial.Shifts at h
      rw [hn] at h
      have hrise := h.rise
      show Shifting target loading (s.srBits - 1) _ _ _ _
      rw [show s.srBits - 1 = 2 * n by omega]
      exact hrise
  · exact h

theorem sdrValid_raiseIrq (s : Serial) : (raiseIrq s).sdrValid = s.sdrValid := by
  unfold raiseIrq
  split_ifs <;> rfl

theorem sdrValid_ciacoreIntta (s : Serial) (rclk : Nat) : (ciacoreIntta s rclk).sdrValid = s.sdrValid := by
  unfold ciacoreIntta
  split_ifs <;> rfl

theorem shifts_raiseIrq (h : s.Shifts target loading) : (raiseIrq s).Shifts target loading := by
  unfold raiseIrq
  split_ifs
  · exact shifts_emit h rfl
  · exact h

theorem toggleCnt_feed (s : Serial) : (toggleCnt s).2 = 0 ∨ (toggleCnt s).2 = sdrSetSdrIrq2 := by
  have hfall : ∀ s : Serial, (fallCnt s).2 = 0 ∨ (fallCnt s).2 = sdrSetSdrIrq2 := by
    intro s
    unfold fallCnt
    dsimp only
    split_ifs
    · exact .inr rfl
    · exact .inr rfl
    · exact .inl rfl
  unfold toggleCnt
  split_ifs
  · exact .inl rfl
  · dsimp only
    split_ifs
    · exact hfall _
    · exact .inl rfl
  · exact .inl rfl

/-- An underflow sets one of the flags of CNT. -/
theorem flag_ciacoreIntta (s : Serial) (rclk : Nat) {i : Nat} (h1 : i ≠ 1) (h5 : i ≠ 5) :
    (ciacoreIntta s rclk).flag i = s.flag i := by
  have htoggle : sdrToggleCnt1.getLsbD i = false := by
    rw [show sdrToggleCnt1 = BitVec.twoPow 32 1 from rfl, BitVec.getLsbD_twoPow]
    simp [h1.symm]
  have hnoggle : sdrNoggleCnt1.getLsbD i = false := by
    rw [show sdrNoggleCnt1 = BitVec.twoPow 32 5 from rfl, BitVec.getLsbD_twoPow]
    simp [h5.symm]
  unfold ciacoreIntta
  split_ifs
  · show (s.sdrDelay ||| sdrNoggleCnt1).getLsbD i = s.sdrDelay.getLsbD i
    rw [BitVec.getLsbD_or, hnoggle, Bool.or_false]
  · show (s.sdrDelay ||| sdrToggleCnt1).getLsbD i = s.sdrDelay.getLsbD i
    rw [BitVec.getLsbD_or, htoggle, Bool.or_false]
  · rfl

/-- The state in which the alarm finds the port. -/
def atAlarm (s : Serial) (rclk : Nat) (taDue : Bool) : Serial :=
  if taDue then ciacoreIntta s rclk else s

theorem ciacoreIntsdr_eq (s : Serial) (rclk : Nat) (taDue : Bool) : ciacoreIntsdr s rclk taDue =
      moveOn (raiseIrq (toggleCnt (takeSdr (atAlarm s rclk taDue))).1) rclk
        (toggleCnt (takeSdr (atAlarm s rclk taDue))).2 := rfl

theorem flag_ciacoreIntsdr (s : Serial) (rclk : Nat) (taDue : Bool) {i : Nat} (hi : i + 1 < 32)
    (h12 : i + 1 ≠ 12) (h9 : i ≠ 9) :
    (ciacoreIntsdr s rclk taDue).flag (i + 1) =
      ((atAlarm s rclk taDue).flag i && !sdrClear.getLsbD (i + 1)) := by
  have hfeed : (toggleCnt (takeSdr (atAlarm s rclk taDue))).2.getLsbD i = false := by
    rcases toggleCnt_feed (takeSdr (atAlarm s rclk taDue)) with h | h <;> rw [h]
    · exact BitVec.getLsbD_zero
    · rw [show sdrSetSdrIrq2 = BitVec.twoPow 32 9 from rfl, BitVec.getLsbD_twoPow]
      simp [h9.symm]
  rw [ciacoreIntsdr_eq]
  show (nextDelay (raiseIrq _).sdrDelay _ _).getLsbD (i + 1) = _
  rw [nextDelay_getLsbD _ _ _ hi h12, hfeed, Bool.or_false, sdrDelay_raiseIrq, sdrDelay_toggleCnt,
    sdrDelay_takeSdr]
  rfl

theorem flag_zero_ciacoreIntsdr (s : Serial) (rclk : Nat) (taDue : Bool) :
    (ciacoreIntsdr s rclk taDue).flag 0 = false := nextDelay_zero _ _ _

theorem ciacoreIntsdr_armed {s : Serial} {rclk : Nat} {taDue : Bool}
    (h : (ciacoreIntsdr s rclk taDue).sdrAlarm = none) :
    Idle (ciacoreIntsdr s rclk taDue).sdrDelay := by
  rw [ciacoreIntsdr_eq] at h ⊢
  unfold moveOn at h ⊢
  dsimp only at h ⊢
  generalize nextDelay _ _ _ = d at h ⊢
  unfold stillActive at h
  by_cases hactive : d &&& sdrActive = 0
  · exact hactive
  · have hactive' : (d &&& sdrActive != 0) = true := bne_iff_ne.mpr hactive
    rw [hactive', Bool.true_or, if_pos rfl] at h
    cases h

theorem isOut_atAlarm (s : Serial) (rclk : Nat) (taDue : Bool) : (atAlarm s rclk taDue).isOut = s.isOut := by
  unfold atAlarm
  split_ifs
  · exact isOut_ciacoreIntta s rclk
  · rfl

theorem shifts_atAlarm (h : s.Shifts target loading) (rclk : Nat) (taDue : Bool) :
    (atAlarm s rclk taDue).Shifts target loading := by
  unfold atAlarm ciacoreIntta
  split_ifs <;> exact h

theorem flag_atAlarm (s : Serial) (rclk : Nat) (taDue : Bool) {i : Nat} (h1 : i ≠ 1) (h5 : i ≠ 5) :
    (atAlarm s rclk taDue).flag i = s.flag i := by
  unfold atAlarm
  split_ifs
  · exact flag_ciacoreIntta s rclk h1 h5
  · rfl

end Alarm

/-! ## Runs -/

/-- The port as an output: at most one byte is on its way to the shifter, and the alarm is set as
long as there is anything to do. -/
structure Sending (target : List Bool) (s : Serial) : Prop where
  output : s.isOut = true
  shifts : s.Shifts target (s.flag 18 || s.flag 19)
  early : s.flag 16 = false ∧ s.flag 17 = false
  single : s.flag 18 = true → s.flag 19 = false
  armed : s.sdrAlarm = none → Idle s.sdrDelay

section Steps
variable {target : List Bool} {s : Serial}

theorem sending_ciacoreIntsdr (h : Sending target s) (rclk : Nat) (taDue : Bool) :
    Sending target (ciacoreIntsdr s rclk taDue) := by
  have hflag : ∀ i, i + 1 < 32 → 16 ≤ i → (ciacoreIntsdr s rclk taDue).flag (i + 1) =
      (s.flag i && !sdrClear.getLsbD (i + 1)) := fun i hi hlow => by
    rw [flag_ciacoreIntsdr s rclk taDue hi (by omega) (by omega),
      flag_atAlarm s rclk taDue (by omega) (by omega)]
  have h16 : (ciacoreIntsdr s rclk taDue).flag 16 = false := by
    rw [flag_ciacoreIntsdr s rclk taDue (i := 15) (by decide) (by decide) (by decide)]
    exact Bool.and_false _
  have h17 : (ciacoreIntsdr s rclk taDue).flag 17 = false := by
    rw [hflag 16 (by decide) (by decide), h.early.1]
    rfl
  have h18 : (ciacoreIntsdr s rclk taDue).flag 18 = false := by
    rw [hflag 17 (by decide) (by decide), h.early.2]
    rfl
  have h19 : (ciacoreIntsdr s rclk taDue).flag 19 = s.flag 18 := by
    rw [hflag 18 (by decide) (by decide)]
    exact Bool.and_true _
  refine ⟨?_, ?_, ⟨h16, h17⟩, fun hset => ?_, ciacoreIntsdr_armed⟩
  · rw [ciacoreIntsdr_eq]
    show (raiseIrq (toggleCnt (takeSdr (atAlarm s rclk taDue))).1).isOut = true
    rw [isOut_raiseIrq, isOut_toggleCnt, isOut_takeSdr]
    exact (isOut_atAlarm s rclk taDue).trans h.output
  · rw [h18, h19, Bool.false_or]
    have hat := shifts_atAlarm h.shifts rclk taDue
    rw [← flag_atAlarm s rclk taDue (i := 19) (by decide) (by decide)] at hat
    have htake := shifts_takeSdr hat fun hset =>
      (flag_atAlarm s rclk taDue (by decide) (by decide)).trans (h.single hset)
    exact shifts_raiseIrq (shifts_toggleCnt htake)
  · exact Bool.noConfusion (h18.symm.trans hset)

theorem sending_ciacoreIntta (h : Sending target s) (rclk : Nat) : Sending target (ciacoreIntta s rclk) := by
  have hflag : ∀ i, 16 ≤ i → (ciacoreIntta s rclk).flag i = s.flag i := fun i hi =>
    flag_ciacoreIntta s rclk (by omega) (by omega)
  refine ⟨(isOut_ciacoreIntta s rclk).trans h.output, ?_, ?_, ?_, ?_⟩
  · rw [hflag 18 (by decide), hflag 19 (by decide)]
    exact shifts_atAlarm h.shifts rclk true
  · rw [hflag 16 (by decide), hflag 17 (by decide)]
    exact h.early
  · rw [hflag 18 (by decide), hflag 19 (by decide)]
    exact h.single
  · unfold ciacoreIntta
    split_ifs
    · exact fun hnone => nomatch hnone
    · exact fun hnone => nomatch hnone
    · exact h.armed

theorem flag_of_has_loads {s : Serial} (h : s.has loads = false) : s.flag 18 = false ∧ s.flag 19 = false := by
  have hzero : s.sdrDelay &&& loads = 0 := by simpa [Serial.has] using h
  have hbit : ∀ i, loads.getLsbD i = true → s.flag i = false := fun i hi => by
    have hand := congrArg (·.getLsbD i) hzero
    show s.sdrDelay.getLsbD i = false
    simpa [BitVec.getLsbD_and, hi] using hand
  exact ⟨hbit 18 (by decide), hbit 19 (by decide)⟩

/-- A store to the free data register. -/
theorem sending_storeSdr (h : Sending target s) (rclk : Nat) (byte : UInt8) (haccepts : accepts s) :
    Sending (target ++ byteBits byte) (storeSdr s rclk byte) := by
  obtain ⟨hvalid, hloads⟩ : s.sdrValid = false ∧ s.has loads = false := by
    simpa [accepts] using haccepts
  obtain ⟨h18, h19⟩ := flag_of_has_loads hloads
  have hflag : ∀ i, (s.sdrDelay ||| sdrSet1).getLsbD i = (s.flag i || decide (i = 18)) := by
    intro i
    rw [BitVec.getLsbD_or, show sdrSet1 = BitVec.twoPow 32 18 from rfl, BitVec.getLsbD_twoPow]
    simp [Serial.flag, eq_comm]
  have hshifts : Shifting target false s.srBits s.shifter s.sdrValid s.sdr (sent s) := by
    have := h.shifts
    rw [h18, h19] at this
    exact this
  unfold storeSdr
  rw [if_pos h.output]
  refine ⟨h.output, ?_, ?_, ?_, fun hnone => absurd hnone (Option.some_ne_none _)⟩
  · show Shifting _ ((s.sdrDelay ||| sdrSet1).getLsbD 18 || _) s.srBits s.shifter s.sdrValid byte (sent s)
    have hset : (s.sdrDelay ||| sdrSet1).getLsbD 18 = true := by
      rw [hflag]
      exact Bool.or_true _
    rw [hset, Bool.true_or]
    refine ⟨hshifts.le, hshifts.low, fun _ => hvalid, hshifts.busy, ?_⟩
    have hbits := hshifts.bits
    rw [hvalid] at hbits ⊢
    rw [← hbits]
    simp
  · exact ⟨(hflag 16).trans (by rw [h.early.1]; rfl), (hflag 17).trans (by rw [h.early.2]; rfl)⟩
  · exact fun _ => (hflag 19).trans (by rw [h19]; rfl)

theorem Sending.frame {s' : Serial} (h : Sending target s) (hout : s'.isOut = true)
    (hdelay : s'.sdrDelay = s.sdrDelay) (halarm : s'.sdrAlarm = s.sdrAlarm)
    (hshifts : ∀ loading, s.Shifts target loading → s'.Shifts target loading) : Sending target s' where
  output := hout
  shifts := by
    unfold Serial.flag
    rw [hdelay]
    exact hshifts _ h.shifts
  early := by
    unfold Serial.flag
    rw [hdelay]
    exact h.early
  single := by
    unfold Serial.flag
    rw [hdelay]
    exact h.single
  armed := by
    rw [halarm, hdelay]
    exact h.armed

theorem sending_step {e : Event} (h : Sending target s) (he : keepsOutput s e = true) :
    Sending (target ++ toBits (written [e])) (step s e) := by
  have hsilent : storedByte e = none → toBits (written [e]) = [] := fun hnone => by
    unfold written
    rw [List.filterMap_cons_none hnone]
    rfl
  cases e with
  | reset => exact Bool.noConfusion he
  | storeCra rclk byte =>
    have hmode : spmodeOut byte = s.isOut := Eq.trans he h.output.symm
    have hout := isOut_storeCra s rclk byte
    rw [hsilent rfl, List.append_nil]
    show Sending target (storeCra s rclk byte)
    rw [storeCra_keep hmode] at hout ⊢
    exact h.frame (hout.trans (hmode.trans h.output)) rfl rfl fun _ hs => hs
  | storeSdr rclk byte =>
    have hbits : toBits (written [.storeSdr rclk byte]) = byteBits byte :=
      (toBits_cons byte []).trans (List.append_nil _)
    rw [hbits]
    exact sending_storeSdr h rclk byte he
  | underflow rclk =>
    rw [hsilent rfl, List.append_nil]
    exact sending_ciacoreIntta h rclk
  | sdrAlarm taDue =>
    rw [hsilent rfl, List.append_nil]
    show Sending target (ciacoreIntsdrEntry s taDue)
    unfold ciacoreIntsdrEntry
    split
    · exact sending_ciacoreIntsdr h _ taDue
    · exact h
  | setCnt data =>
    rw [hsilent rfl, List.append_nil]
    show Sending target (ciacoreSetCnt s data)
    rw [ciacoreSetCnt_out h.output]
    exact h.frame h.output rfl rfl fun _ hs => hs
  | setSp data =>
    rw [hsilent rfl, List.append_nil]
    exact h.frame h.output rfl rfl fun _ hs => hs
  | setSdr data =>
    rw [hsilent rfl, List.append_nil]
    show Sending target (ciacoreSetSdr s data)
    unfold ciacoreSetSdr
    rw [if_pos h.output]
    exact h

theorem sending_run {es : List Event} (h : Sending target s) (hes : Sends s es) :
    Sending (target ++ toBits (written es)) (run s es) := by
  induction es generalizing s target with
  | nil => simpa [written] using h
  | cons e es ih =>
    have hnext := ih (sending_step h hes.1) hes.2
    have hwritten : written (e :: es) = written [e] ++ written es :=
      List.filterMap_append (l := [e])
    rwa [List.append_assoc, ← toBits_append, ← hwritten] at hnext

theorem Sending.has_loads (h : Sending target s) : s.has loads = (s.flag 18 || s.flag 19) := by
  cases hset : s.flag 18 || s.flag 19 with
  | true =>
    by_contra hne
    obtain ⟨h18, h19⟩ := flag_of_has_loads (Bool.eq_false_iff.mpr hne)
    rw [h18, h19] at hset
    exact Bool.false_ne_true hset
  | false =>
    obtain ⟨h18, h19⟩ := Bool.or_eq_false_iff.mp hset
    have hmask : ∀ i : Fin 32, loads.getLsbD i = true →
        i.val = 16 ∨ i.val = 17 ∨ i.val = 18 ∨ i.val = 19 := by decide
    have hzero : s.sdrDelay &&& loads = 0 := and_eq_zero fun i hi hl => by
      rcases hmask ⟨i, hi⟩ hl with rfl | rfl | rfl | rfl
      · exact h.early.1
      · exact h.early.2
      · exact h18
      · exact h19
    unfold Serial.has
    rw [hzero]
    rfl

theorem Sending.accepts_eq (h : Sending target s) : accepts s = !(s.sdrValid || (s.flag 18 || s.flag 19)) := by
  unfold accepts
  rw [h.has_loads, Bool.not_or s.sdrValid]

/-- The invariant, read. -/
theorem Sending.bits (h : Sending target s) : sent s ++ unsent s.srBits s.shifter ++ waiting s = target := by
  have hwaiting : waiting s =
      if s.sdrValid || (s.flag 18 || s.flag 19) then byteBits s.sdr else [] := by
    unfold waiting
    rw [h.accepts_eq]
    cases s.sdrValid || (s.flag 18 || s.flag 19) <;> rfl
  rw [hwaiting]
  exact h.shifts.bits

end Steps

/-! ## Every bit gets out -/

/-- The half bits that are to be shifted yet. -/
def left (srBits : Nat) (sdrValid loading : Bool) : Nat :=
  srBits + if sdrValid || loading then 16 else 0

section Drain
variable {target : List Bool} {loading : Bool} {s : Serial}

theorem left_takeSdr (h : s.Shifts target (loading || s.flag 19)) (honce : loading = true → s.flag 19 = false) :
    left (takeSdr s).srBits (takeSdr s).sdrValid loading =
      left s.srBits s.sdrValid (loading || s.flag 19) := by
  unfold takeSdr
  rw [has_set0]
  cases hset : s.flag 19 with
  | false =>
    rw [Bool.or_false]
    rfl
  | true =>
    have hloading : loading = false := by
      cases hl : loading with
      | false => rfl
      | true => exact Bool.noConfusion (hset.symm.trans (honce hl))
    have hvalid : s.sdrValid = false := h.once (by rw [hset, Bool.or_true])
    rw [hloading, if_pos rfl]
    unfold left
    split_ifs with hzero hone <;> simp_all

theorem left_fallCnt {n : Nat} (hn : s.srBits = 2 * n + 1) (hloading : loading = true → s.sdrValid = false) :
    left (fallCnt s).1.srBits (fallCnt s).1.sdrValid loading = left s.srBits s.sdrValid loading := by
  by_cases hlast : n = 0
  · rw [hlast] at hn
    obtain ⟨hbits, -, hvalid, -⟩ := fallCnt_last hn
    rw [hbits, hvalid, hn]
    cases hv : s.sdrValid with
    | false => rfl
    | true =>
      cases hl : loading with
      | false => rfl
      | true => exact Bool.noConfusion (hv.symm.trans (hloading hl))
  · obtain ⟨hbits, -, hvalid, -⟩ := fallCnt_more (s := s) (by omega)
    rw [hbits, hvalid]

/-- A toggle takes one half bit. -/
theorem left_toggleCnt (h : s.Shifts target loading) :
    left (toggleCnt s).1.srBits (toggleCnt s).1.sdrValid loading =
      left s.srBits s.sdrValid loading - if s.flag 2 ∧ s.srBits ≠ 0 then 1 else 0 := by
  unfold toggleCnt
  rw [has_toggleCnt0]
  by_cases htoggle : s.flag 2 = true
  · rw [if_pos htoggle]
    by_cases hzero : s.srBits = 0
    · rw [if_pos hzero, if_neg (by simp [hzero])]
      rfl
    · have hle : s.srBits ≤ 17 := h.le
      rw [if_neg hzero, if_pos (show s.flag 2 = true ∧ s.srBits ≠ 0 from ⟨htoggle, hzero⟩),
        decSrBits_pos (Nat.pos_of_ne_zero hzero) hle]
      have hleft : left (s.srBits - 1) s.sdrValid loading = left s.srBits s.sdrValid loading - 1 := by
        unfold left
        omega
      dsimp only
      split_ifs with hodd
      · refine Eq.trans (b := left (s.srBits - 1) s.sdrValid loading) ?_ hleft
        apply left_fallCnt (s := { s with srBits := s.srBits - 1 }) (n := (s.srBits - 1) / 2) _ h.once
        show s.srBits - 1 = 2 * ((s.srBits - 1) / 2) + 1
        omega
      · exact hleft
  · rw [if_neg htoggle, if_neg (fun hand => htoggle hand.1)]
    rfl

/-- The half bits that are left, with the byte on its way. -/
def Serial.left (s : Serial) : Nat := CiaSerial.left s.srBits s.sdrValid (s.flag 18 || s.flag 19)

theorem left_ciacoreIntsdr (h : Sending target s) (rclk : Nat) : (ciacoreIntsdr s rclk false).left =
      s.left - if s.flag 2 ∧ (takeSdr s).srBits ≠ 0 then 1 else 0 := by
  have h18 : (ciacoreIntsdr s rclk false).flag 18 = false := by
    rw [flag_ciacoreIntsdr s rclk false (i := 17) (by decide) (by decide) (by decide)]
    show (s.flag 17 && _) = false
    rw [h.early.2]
    rfl
  have h19 : (ciacoreIntsdr s rclk false).flag 19 = s.flag 18 := by
    rw [flag_ciacoreIntsdr s rclk false (i := 18) (by decide) (by decide) (by decide)]
    exact Bool.and_true _
  have htake := shifts_takeSdr h.shifts h.single
  have htoggle := left_toggleCnt htake
  rw [left_takeSdr h.shifts h.single] at htoggle
  have hflag : (takeSdr s).flag 2 = s.flag 2 := by
    unfold Serial.flag
    rw [sdrDelay_takeSdr]
  rw [hflag] at htoggle
  unfold Serial.left
  rw [h18, h19, Bool.false_or, ← htoggle]
  show left (raiseIrq (toggleCnt (takeSdr s)).1).srBits (raiseIrq (toggleCnt (takeSdr s)).1).sdrValid _ = _
  rw [srBits_raiseIrq, sdrValid_raiseIrq]

/-- An alarm of the port. -/
def tick (s : Serial) : Serial := step s (.sdrAlarm false)

theorem tick_some {rclk : Nat} (h : s.sdrAlarm = some rclk) : tick s = ciacoreIntsdr s rclk false := by
  show ciacoreIntsdrEntry s false = _
  unfold ciacoreIntsdrEntry
  rw [h]

theorem tick_none (h : s.sdrAlarm = none) : tick s = s := by
  show ciacoreIntsdrEntry s false = _
  unfold ciacoreIntsdrEntry
  rw [h]

theorem sending_tick (h : Sending target s) : Sending target (tick s) := by
  have hstep := sending_step (e := .sdrAlarm false) h rfl
  rwa [show written [.sdrAlarm false] = [] from rfl, toBits_nil, List.append_nil] at hstep

theorem left_tick_le (h : Sending target s) : (tick s).left ≤ s.left := by
  cases halarm : s.sdrAlarm with
  | none => rw [tick_none halarm]
  | some rclk =>
    rw [tick_some halarm, left_ciacoreIntsdr h]
    exact Nat.sub_le _ _

/-- The flags that are counted down. -/
def counts (i : Nat) : Prop := i < 8 ∨ 16 ≤ i ∧ i < 20

instance (i : Nat) : Decidable (counts i) := inferInstanceAs (Decidable (_ ∨ _))

/-- No flag is in the last `k` cycles before the end of its countdown. -/
def Settled (k : Nat) (s : Serial) : Prop := ∀ i, counts i → i % 4 < k → s.flag i = false

theorem flag_tick (h : Sending target s) {i : Nat} (hi : counts i) (hto : counts (i + 1)) :
    (tick s).flag (i + 1) = (s.flag i && !sdrClear.getLsbD (i + 1)) := by
  unfold counts at hi hto
  cases halarm : s.sdrAlarm with
  | none =>
    have hactive : ∀ j : Fin 32, j.val < 8 ∨ 16 ≤ j.val ∧ j.val < 20 → sdrActive.getLsbD j = true := by
      decide
    have hidle := h.armed halarm
    rw [tick_none halarm]
    unfold Serial.flag
    rw [hidle.getLsbD (hactive ⟨i, by omega⟩ hi), hidle.getLsbD (hactive ⟨i + 1, by omega⟩ hto)]
    rfl
  | some rclk =>
    rw [tick_some halarm]
    exact flag_ciacoreIntsdr s rclk false (by omega) (by omega) (by omega)

theorem settled_tick {k : Nat} (h : Sending target s) (hk : Settled k s) : Settled (k + 1) (tick s) := by
  intro i hi hmod
  unfold counts at hi
  by_cases hfour : i % 4 = 0
  · have hcases : i = 0 ∨ i = 4 ∨ i = 16 := by omega
    rcases hcases with rfl | rfl | rfl
    · cases halarm : s.sdrAlarm with
      | none =>
        rw [tick_none halarm]
        exact (h.armed halarm).getLsbD (by decide)
      | some rclk =>
        rw [tick_some halarm]
        exact flag_zero_ciacoreIntsdr s rclk false
    · rw [flag_tick h (i := 3) (by unfold counts; omega) (by unfold counts; omega)]
      exact Bool.and_false _
    · exact (sending_tick h).early.1
  · obtain ⟨j, rfl⟩ : ∃ j, i = j + 1 := ⟨i - 1, by omega⟩
    have hj : counts j := by unfold counts; omega
    rw [flag_tick h hj hi, hk j hj (by omega)]
    rfl

end Drain

end Vice.L4.CiaSerial
