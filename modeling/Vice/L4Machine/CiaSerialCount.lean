import Mathlib.Tactic.SplitIfs
import Vice.L4Machine.CiaSerial

/-!
# The half-bit counter of the serial port

While the port is an input, the counter is even exactly when CNT is high. So a rising edge never
meets a counter that is zero, and the counter stays within 0..17. What starts this off is CNT being
high when the port becomes an input.
-/
namespace Vice.L4.CiaSerial

/-! ## The delay line -/

/-- Bit `i` of the delay line. -/
def Serial.flag (s : Serial) (i : Nat) : Bool := s.sdrDelay.getLsbD i

theorem has_twoPow (s : Serial) {i : Nat} (hi : i < 32) : s.has (BitVec.twoPow 32 i) = s.flag i := by
  have hne : BitVec.twoPow 32 i ≠ 0 := by
    intro h
    have hbit := congrArg (·.getLsbD i) h
    simp [hi] at hbit
  unfold Serial.has Serial.flag
  rw [BitVec.and_twoPow]
  cases s.sdrDelay.getLsbD i with
  | false => rfl
  | true => simpa using hne

theorem has_set0 (s : Serial) : s.has sdrSet0 = s.flag 19 :=
  has_twoPow s (show 19 < 32 by decide)
theorem has_toggleCnt0 (s : Serial) : s.has sdrToggleCnt0 = s.flag 2 :=
  has_twoPow s (show 2 < 32 by decide)
theorem has_setSdrIrq0 (s : Serial) : s.has sdrSetSdrIrq0 = s.flag 11 :=
  has_twoPow s (show 11 < 32 by decide)

/-- A flag moves up by one place, unless it has got to the end of its countdown. -/
theorem nextDelay_getLsbD (d f : BitVec 32) (c : Bool) {i : Nat} (hi : i + 1 < 32) (h : i + 1 ≠ 12) :
    (nextDelay d f c).getLsbD (i + 1) =
      ((d.getLsbD i || f.getLsbD i) && !sdrClear.getLsbD (i + 1)) := by
  have hcnt : (if c then sdrCnt0 else 0).getLsbD (i + 1) = false := by
    cases c with
    | false => simp
    | true =>
      rw [if_pos rfl, show sdrCnt0 = BitVec.twoPow 32 12 from rfl, BitVec.getLsbD_twoPow]
      simp [Ne.symm h]
  unfold nextDelay
  rw [BitVec.getLsbD_or, hcnt, Bool.or_false, BitVec.getLsbD_and, BitVec.getLsbD_shiftLeft,
    BitVec.getLsbD_or, BitVec.getLsbD_not]
  simp [hi]

theorem nextDelay_zero (d f : BitVec 32) (c : Bool) : (nextDelay d f c).getLsbD 0 = false := by
  unfold nextDelay
  rw [BitVec.getLsbD_or, BitVec.getLsbD_and, BitVec.getLsbD_shiftLeft]
  cases c <;> rfl

/-! ## The direction -/

theorem spmodeOut_xor (a b : UInt8) : (a ^^^ b) &&& craSpmode ≠ 0 ↔ spmodeOut a ≠ spmodeOut b := by
  have hbit : ∀ x : UInt8, x &&& craSpmode = 0 ∨ x &&& craSpmode = craSpmode := by
    have h : ∀ n : Fin 256, UInt8.ofFin n &&& craSpmode = 0 ∨
        UInt8.ofFin n &&& craSpmode = craSpmode := by decide +kernel
    intro x
    exact h x.toFin
  have hxor : (a ^^^ b) &&& craSpmode = (a &&& craSpmode) ^^^ (b &&& craSpmode) := by
    apply UInt8.toBitVec_inj.mp
    ext i
    simp [Bool.and_xor_distrib_right]
  unfold spmodeOut
  rw [hxor]
  rcases hbit a with ha | ha <;> rcases hbit b with hb | hb <;> rw [ha, hb] <;> decide

theorem spmodeOut_strobe (byte : UInt8) : spmodeOut (byte &&& 0xef) = spmodeOut byte := by
  unfold spmodeOut
  rw [UInt8.and_assoc]
  rfl

@[simp] theorem isOut_storeCra (s : Serial) (rclk : Nat) (byte : UInt8) :
    (storeCra s rclk byte).isOut = spmodeOut byte := spmodeOut_strobe byte

/-- A store that keeps the direction changes the register only. -/
theorem storeCra_keep {s : Serial} {rclk : Nat} {byte : UInt8} (h : spmodeOut byte = s.isOut) :
    storeCra s rclk byte = { s with cra := byte &&& 0xef } := by
  unfold storeCra
  rw [if_neg]
  rw [spmodeOut_xor]
  exact fun hne => hne h

theorem storeCra_change {s : Serial} {rclk : Nat} {byte : UInt8} (h : spmodeOut byte ≠ s.isOut) :
    storeCra s rclk byte =
      { abandonByte (strangeExtraSdrFlags s rclk byte) with cra := byte &&& 0xef } := by
  unfold storeCra
  rw [if_pos ((spmodeOut_xor _ _).mpr h)]

/-! ## What a call leaves alone -/

section Frames
variable (s : Serial) (rclk : Nat)

@[simp] theorem isOut_takeSdr : (takeSdr s).isOut = s.isOut := by
  unfold takeSdr
  split_ifs <;> rfl

@[simp] theorem sdrDelay_takeSdr : (takeSdr s).sdrDelay = s.sdrDelay := by
  unfold takeSdr
  split_ifs <;> rfl

theorem fallCnt_frame : (fallCnt s).1.isOut = s.isOut ∧ (fallCnt s).1.cntInState = s.cntInState ∧
    (fallCnt s).1.sdrDelay = s.sdrDelay := by
  unfold fallCnt
  dsimp only
  split_ifs <;> exact ⟨rfl, rfl, rfl⟩

theorem toggleCnt_frame : (toggleCnt s).1.isOut = s.isOut ∧
    (toggleCnt s).1.cntInState = s.cntInState ∧ (toggleCnt s).1.sdrDelay = s.sdrDelay := by
  unfold toggleCnt
  split_ifs with htoggle hzero
  · exact ⟨rfl, rfl, rfl⟩
  · dsimp only
    generalize decSrBits s.srBits = n
    split_ifs
    · exact fallCnt_frame _
    · exact ⟨rfl, rfl, rfl⟩
  · exact ⟨rfl, rfl, rfl⟩

@[simp] theorem isOut_toggleCnt : (toggleCnt s).1.isOut = s.isOut := (toggleCnt_frame s).1

@[simp] theorem sdrDelay_toggleCnt : (toggleCnt s).1.sdrDelay = s.sdrDelay :=
  (toggleCnt_frame s).2.2

@[simp] theorem isOut_raiseIrq : (raiseIrq s).isOut = s.isOut := by
  unfold raiseIrq
  split_ifs <;> rfl

@[simp] theorem cntInState_raiseIrq : (raiseIrq s).cntInState = s.cntInState := by
  unfold raiseIrq
  split_ifs <;> rfl

@[simp] theorem srBits_raiseIrq : (raiseIrq s).srBits = s.srBits := by
  unfold raiseIrq
  split_ifs <;> rfl

@[simp] theorem sdrDelay_raiseIrq : (raiseIrq s).sdrDelay = s.sdrDelay := by
  unfold raiseIrq
  split_ifs <;> rfl

@[simp] theorem isOut_ciacoreIntta : (ciacoreIntta s rclk).isOut = s.isOut := by
  unfold ciacoreIntta
  split_ifs <;> rfl

@[simp] theorem srBits_ciacoreIntta : (ciacoreIntta s rclk).srBits = s.srBits := by
  unfold ciacoreIntta
  split_ifs <;> rfl

/-- Timer A is nothing to an input. -/
theorem ciacoreIntta_in {s : Serial} (h : s.isOut = false) : ciacoreIntta s rclk = s := by
  unfold ciacoreIntta
  rw [h]
  rfl

end Frames

/-! ## The counter -/

/-- No toggle of CNT is under way. -/
def Quiet (d : BitVec 32) : Prop := ∀ i < 3, d.getLsbD i = false

structure Counted (s : Serial) : Prop where
  le : s.srBits ≤ 17
  phase : s.isOut = false → (s.srBits % 2 = 0 ↔ s.cntInState = true)
  quiet : s.isOut = false → Quiet s.sdrDelay

/-- The store that makes the port an input. -/
def selectsInput (s : Serial) : Event → Bool
  | .storeCra _ byte => s.isOut && !spmodeOut byte
  | _ => false

theorem decSrBits_pos {n : Nat} (h : 0 < n) (hle : n ≤ 17) : decSrBits n = n - 1 := by
  unfold decSrBits
  omega

theorem quiet_nextDelay {d f : BitVec 32} (c : Bool) (hd : Quiet d) (hf : Quiet f) :
    Quiet (nextDelay d f c) := by
  intro i hi
  cases i with
  | zero => exact nextDelay_zero d f c
  | succ i =>
    rw [nextDelay_getLsbD d f c (by omega) (by omega), hd i (by omega), hf i (by omega)]
    rfl

theorem counted_takeSdr {s : Serial} (h : Counted s) : Counted (takeSdr s) := by
  have hphase := h.phase
  have hle := h.le
  have hquiet := h.quiet
  unfold takeSdr
  split_ifs with hset hzero hone
  · exact ⟨by simp, fun hin => by simpa [hzero] using hphase hin, hquiet⟩
  · exact ⟨by simp, fun hin => by simpa [hone] using hphase hin, hquiet⟩
  · exact ⟨hle, hphase, hquiet⟩
  · exact h

theorem toggleCnt_in {s : Serial} (h : Quiet s.sdrDelay) : toggleCnt s = (s, 0) := by
  unfold toggleCnt
  rw [if_neg]
  rw [has_toggleCnt0, Serial.flag, h 2 (by decide)]
  exact Bool.false_ne_true

theorem srBits_fallCnt_le {s : Serial} (h : s.srBits ≤ 17) : (fallCnt s).1.srBits ≤ 17 := by
  unfold fallCnt
  dsimp only
  split_ifs
  · exact Nat.le_refl 17
  · exact h
  · exact h

theorem srBits_toggleCnt_le {s : Serial} (h : s.srBits ≤ 17) : (toggleCnt s).1.srBits ≤ 17 := by
  unfold toggleCnt
  split_ifs with htoggle hzero
  · exact h
  · have hdec : decSrBits s.srBits ≤ 17 := by
      rw [decSrBits_pos (Nat.pos_of_ne_zero hzero) h]
      omega
    dsimp only
    split_ifs
    · exact srBits_fallCnt_le hdec
    · exact hdec
  · exact h

theorem counted_toggleCnt {s : Serial} (h : Counted s) : Counted (toggleCnt s).1 where
  le := srBits_toggleCnt_le h.le
  phase hin := by
    rw [isOut_toggleCnt] at hin
    rw [toggleCnt_in (h.quiet hin)]
    exact h.phase hin
  quiet hin := by
    rw [isOut_toggleCnt] at hin
    rw [sdrDelay_toggleCnt]
    exact h.quiet hin

theorem counted_ciacoreIntta {s : Serial} (h : Counted s) (rclk : Nat) : Counted (ciacoreIntta s rclk) where
  le := by rw [srBits_ciacoreIntta]; exact h.le
  phase hin := by
    rw [isOut_ciacoreIntta] at hin
    rw [ciacoreIntta_in rclk hin]
    exact h.phase hin
  quiet hin := by
    rw [isOut_ciacoreIntta] at hin
    rw [ciacoreIntta_in rclk hin]
    exact h.quiet hin

theorem counted_ciacoreIntsdr {s : Serial} (h : Counted s) (rclk : Nat) (taDue : Bool) :
    Counted (ciacoreIntsdr s rclk taDue) := by
  have hta : Counted (if taDue then ciacoreIntta s rclk else s) := by
    split_ifs
    · exact counted_ciacoreIntta h rclk
    · exact h
  unfold ciacoreIntsdr
  generalize (if taDue then ciacoreIntta s rclk else s) = s at hta
  have htoggle := counted_toggleCnt (counted_takeSdr hta)
  dsimp only
  refine ⟨?_, ?_, ?_⟩
  · show (raiseIrq _).srBits ≤ 17
    rw [srBits_raiseIrq]
    exact htoggle.le
  · show (raiseIrq _).isOut = false → ((raiseIrq _).srBits % 2 = 0 ↔ (raiseIrq _).cntInState = true)
    rw [isOut_raiseIrq, srBits_raiseIrq, cntInState_raiseIrq]
    exact htoggle.phase
  · show (raiseIrq _).isOut = false → Quiet (nextDelay (raiseIrq _).sdrDelay _ _)
    intro hin
    rw [isOut_raiseIrq] at hin
    rw [sdrDelay_raiseIrq]
    have hquiet := htoggle.quiet hin
    rw [sdrDelay_toggleCnt, sdrDelay_takeSdr] at hquiet ⊢
    rw [toggleCnt_in (by rw [sdrDelay_takeSdr]; exact hquiet)]
    exact quiet_nextDelay _ hquiet fun i _ => BitVec.getLsbD_zero

theorem quiet_clear {d : BitVec 32} : Quiet (d &&& ~~~(allSdrToggleCnt ||| allSdrNoggleCnt)) := by
  intro i hi
  have hmask : ∀ j : Fin 3, (allSdrToggleCnt ||| allSdrNoggleCnt).getLsbD j = true := by decide
  rw [BitVec.getLsbD_and, BitVec.getLsbD_not, hmask ⟨i, hi⟩]
  simp

theorem abandonByte_sdrDelay (s : Serial) :
    (abandonByte s).sdrDelay = s.sdrDelay &&& ~~~(allSdrToggleCnt ||| allSdrNoggleCnt) := by
  unfold abandonByte
  dsimp only
  split_ifs <;> rfl

theorem abandonByte_srBits (s : Serial) : (abandonByte s).srBits = 0 := by
  unfold abandonByte
  dsimp only
  split_ifs <;> rfl

theorem abandonByte_cntInState (s : Serial) : (abandonByte s).cntInState = s.cntInState := by
  unfold abandonByte
  dsimp only
  split_ifs <;> rfl

theorem strangeExtraSdrFlags_cntInState (s : Serial) (rclk : Nat) (byte : UInt8) :
    (strangeExtraSdrFlags s rclk byte).cntInState = s.cntInState := by
  unfold strangeExtraSdrFlags
  dsimp only
  split_ifs <;> rfl

theorem counted_storeCra {s : Serial} (h : Counted s) (rclk : Nat) (byte : UInt8)
    (hcnt : s.isOut = true → spmodeOut byte = false → s.cntInState = true) :
    Counted (storeCra s rclk byte) := by
  by_cases hmode : spmodeOut byte = s.isOut
  · have hout := isOut_storeCra s rclk byte
    rw [storeCra_keep hmode] at hout ⊢
    refine ⟨h.le, fun hin => ?_, fun hin => ?_⟩
    · exact h.phase (hmode ▸ hout ▸ hin)
    · exact h.quiet (hmode ▸ hout ▸ hin)
  · have hout := isOut_storeCra s rclk byte
    rw [storeCra_change hmode] at hout ⊢
    refine ⟨?_, fun hin => ?_, fun _ => ?_⟩
    · show (abandonByte _).srBits ≤ 17
      rw [abandonByte_srBits]
      exact Nat.zero_le 17
    · have hto : spmodeOut byte = false := hout ▸ hin
      have hfrom : s.isOut = true := by
        rw [hto] at hmode
        exact Bool.eq_true_of_not_eq_false (Ne.symm hmode)
      show (abandonByte _).srBits % 2 = 0 ↔ (abandonByte _).cntInState = true
      rw [abandonByte_srBits, abandonByte_cntInState, strangeExtraSdrFlags_cntInState]
      exact ⟨fun _ => hcnt hfrom hto, fun _ => rfl⟩
    · show Quiet (abandonByte _).sdrDelay
      rw [abandonByte_sdrDelay]
      exact quiet_clear

theorem counted_storeSdr {s : Serial} (h : Counted s) (rclk : Nat) (byte : UInt8) :
    Counted (storeSdr s rclk byte) := by
  unfold storeSdr
  split_ifs with hout
  · refine ⟨h.le, fun hin => ?_, fun hin => ?_⟩
    · exact absurd hout (Bool.eq_false_iff.mp hin)
    · exact absurd hout (Bool.eq_false_iff.mp hin)
  · exact ⟨h.le, h.phase, h.quiet⟩

theorem srBits_ciacoreSetSdr (s : Serial) (data : UInt8) : (ciacoreSetSdr s data).srBits = s.srBits := by
  unfold ciacoreSetSdr
  split_ifs <;> rfl

theorem counted_ciacoreSetSdr {s : Serial} (h : Counted s) (data : UInt8) : Counted (ciacoreSetSdr s data) := by
  unfold ciacoreSetSdr
  split_ifs
  · exact h
  · exact ⟨h.le, h.phase, h.quiet⟩

/-- A falling edge. -/
theorem countEdge_false (s : Serial) :
    countEdge s false = { s with srBits := decSrBits (if s.srBits = 0 then 16 else s.srBits) } := by
  unfold countEdge
  by_cases h : s.srBits = 0 <;> simp [h]

/-- A rising edge. -/
theorem countEdge_true (s : Serial) : countEdge s true =
      if decSrBits s.srBits = 0 then
        ciacoreSetSdr
          { s with
            srBits := decSrBits s.srBits
            shifter := s.shifter <<< 1 ||| bit16 s.spInState }
          ⟨(s.shifter <<< 1 ||| bit16 s.spInState).setWidth 8⟩
      else
        { s with
          srBits := decSrBits s.srBits
          shifter := s.shifter <<< 1 ||| bit16 s.spInState } := rfl

theorem countEdge_frame (s : Serial) (data : Bool) :
    (countEdge s data).cra = s.cra ∧ (countEdge s data).sdrDelay = s.sdrDelay := by
  cases data with
  | false => rw [countEdge_false]; exact ⟨rfl, rfl⟩
  | true =>
    rw [countEdge_true]
    unfold ciacoreSetSdr
    split_ifs <;> exact ⟨rfl, rfl⟩

theorem srBits_fall (s : Serial) :
    (countEdge s false).srBits = decSrBits (if s.srBits = 0 then 16 else s.srBits) := by
  rw [countEdge_false]

theorem srBits_rise (s : Serial) : (countEdge s true).srBits = decSrBits s.srBits := by
  rw [countEdge_true]
  split_ifs
  · exact srBits_ciacoreSetSdr _ _
  · rfl

theorem ciacoreSetCnt_same (s : Serial) : ciacoreSetCnt s s.cntInState = s := by
  unfold ciacoreSetCnt
  rw [if_pos rfl]

theorem ciacoreSetCnt_out {s : Serial} {data : Bool} (h : s.isOut = true) :
    ciacoreSetCnt s data = { s with cntInState := data } := by
  by_cases hsame : data = s.cntInState
  · rw [hsame]
    exact ciacoreSetCnt_same s
  · unfold ciacoreSetCnt
    rw [if_neg hsame, if_pos h]

theorem ciacoreSetCnt_in {s : Serial} {data : Bool} (h : s.isOut = false) (hedge : s.cntInState = !data) :
    ciacoreSetCnt s data = { countEdge s data with cntInState := data } := by
  unfold ciacoreSetCnt
  rw [if_neg (by rw [hedge]; cases data <;> decide), if_neg (by rw [h]; decide)]

/-- What an edge does to the counter. -/
theorem edge_counted {s : Serial} (h : Counted s) (hin : s.isOut = false) {data : Bool}
    (hedge : s.cntInState = !data) :
    (countEdge s data).srBits ≤ 17 ∧ ((countEdge s data).srBits % 2 = 0 ↔ data = true) := by
  have hphase := h.phase hin
  have hle := h.le
  rw [hedge] at hphase
  cases data with
  | false =>
    have heven : s.srBits % 2 = 0 := hphase.mpr rfl
    simp only [Bool.false_eq_true, iff_false]
    by_cases hzero : s.srBits = 0
    · rw [srBits_fall, if_pos hzero]
      decide
    · rw [srBits_fall, if_neg hzero, decSrBits_pos (Nat.pos_of_ne_zero hzero) hle]
      omega
  | true =>
    have hodd : ¬s.srBits % 2 = 0 := fun heven => Bool.noConfusion (hphase.mp heven)
    rw [srBits_rise, decSrBits_pos (by omega) hle]
    simp only [iff_true]
    omega

theorem counted_ciacoreSetCnt {s : Serial} (h : Counted s) (data : Bool) : Counted (ciacoreSetCnt s data) := by
  cases hout : s.isOut with
  | true =>
    rw [ciacoreSetCnt_out hout]
    have habsurd : ∀ {P : Prop}, s.isOut = false → P := fun hin => Bool.noConfusion (hout.symm.trans hin)
    exact ⟨h.le, fun hin => habsurd hin, fun hin => habsurd hin⟩
  | false =>
    by_cases hsame : data = s.cntInState
    · rw [hsame, ciacoreSetCnt_same]
      exact h
    have hedge : s.cntInState = !data := by
      cases data <;> cases hc : s.cntInState <;> simp_all
    rw [ciacoreSetCnt_in hout hedge]
    obtain ⟨hle, hphase⟩ := edge_counted h hout hedge
    refine ⟨hle, fun _ => hphase, fun _ => ?_⟩
    show Quiet (countEdge s data).sdrDelay
    rw [(countEdge_frame s data).2]
    exact h.quiet hout

theorem counted_reset (s : Serial) : Counted (ciacoreReset s) where
  le := Nat.zero_le 17
  phase _ := ⟨fun _ => rfl, fun _ => rfl⟩
  quiet _ := by
    have hmask : ∀ j : Fin 3, (sdrCnt0 ||| sdrCnt1 ||| sdrCnt2 ||| sdrCnt3).getLsbD j = false := by
      decide
    exact fun i hi => hmask ⟨i, hi⟩

theorem counted_step {s : Serial} (h : Counted s) (e : Event)
    (hcnt : selectsInput s e = true → s.cntInState = true) : Counted (step s e) := by
  cases e with
  | reset => exact counted_reset s
  | storeCra rclk byte =>
    apply counted_storeCra h
    intro hout hto
    apply hcnt
    simp [selectsInput, hout, hto]
  | storeSdr rclk byte => exact counted_storeSdr h rclk byte
  | underflow rclk => exact counted_ciacoreIntta h rclk
  | sdrAlarm taDue =>
    show Counted (ciacoreIntsdrEntry s taDue)
    unfold ciacoreIntsdrEntry
    split
    · exact counted_ciacoreIntsdr h _ taDue
    · exact h
  | setCnt data => exact counted_ciacoreSetCnt h data
  | setSp data => exact ⟨h.le, h.phase, h.quiet⟩
  | setSdr data => exact counted_ciacoreSetSdr h data

/-- CNT is high whenever the port is made an input. -/
def InputWhileHigh : Serial → List Event → Prop
  | _, [] => True
  | s, e :: es => (selectsInput s e = true → s.cntInState = true) ∧ InputWhileHigh (step s e) es

instance InputWhileHigh.decide : ∀ (s : Serial) (es : List Event), Decidable (InputWhileHigh s es)
  | _, [] => .isTrue trivial
  | s, e :: es =>
    have := InputWhileHigh.decide (step s e) es
    inferInstanceAs (Decidable ((selectsInput s e = true → s.cntInState = true) ∧ _))

theorem counted_run {s : Serial} (h : Counted s) {es : List Event} (hes : InputWhileHigh s es) :
    Counted (run s es) := by
  induction es generalizing s with
  | nil => exact h
  | cons e es ih => exact ih (counted_step h e hes.1) hes.2

end Vice.L4.CiaSerial
