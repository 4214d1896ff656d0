import Vice.L4Machine.CiaSerialOutput

/-!
# The serial port over whole runs

`drain` is what gets every byte out: an underflow of timer A and the four cycles that follow it,
once for each half bit that is left. `serial_port_counts` puts the counter, the input and the
output together; `serial_port_miscounts` shows what they need: CNT high when the port becomes an
input, a delay line that holds nothing of the other direction, and stores that wait for the data
register.
-/
namespace Vice.L4.CiaSerial
open Vice.L0.BitWindow
open Vice.L0.BitRun (toBits)

/-! ## Draining -/

def ticks (n : Nat) : List Event := List.replicate n (.sdrAlarm false)

/-- An underflow of timer A, and time for what it sets off. -/
def underflowRound (rclk : Nat) : List Event := .underflow rclk :: ticks 4

def drain (clks : List Nat) : List Event := ticks 4 ++ clks.flatMap underflowRound

section Drain
variable {target : List Bool} {s : Serial}

theorem sending_ticks (h : Sending target s) (n : Nat) : Sending target (run s (ticks n)) := by
  induction n generalizing s with
  | zero => exact h
  | succ n ih => exact ih (sending_tick h)

theorem left_ticks_le (h : Sending target s) (n : Nat) : (run s (ticks n)).left ≤ s.left := by
  induction n generalizing s with
  | zero => exact Nat.le_refl _
  | succ n ih => exact (ih (sending_tick h)).trans (left_tick_le h)

theorem settled_ticks {k : Nat} (h : Sending target s) (hk : Settled k s) (n : Nat) :
    Settled (k + n) (run s (ticks n)) := by
  induction n generalizing s k with
  | zero => exact hk
  | succ n ih =>
    have hnext := ih (sending_tick h) (settled_tick h hk)
    rwa [Nat.add_assoc, Nat.add_comm 1 n] at hnext

theorem settled_four (h : Sending target s) : Settled 4 (run s (ticks 4)) :=
  settled_ticks h (k := 0) (fun _ _ hmod => absurd hmod (Nat.not_lt_zero _)) 4

/-- An empty shifter of a settled port means that nothing is left. -/
theorem left_eq_zero (h : Sending target s) (hs : Settled 4 s) (hzero : s.srBits = 0) : s.left = 0 := by
  have hvalid : s.sdrValid = false := by
    cases hv : s.sdrValid with
    | false => rfl
    | true =>
      have hbusy := h.shifts.busy hv
      omega
  unfold Serial.left left
  rw [hzero, hvalid, hs 18 (by decide) (by decide), hs 19 (by decide) (by decide)]
  rfl

/-- In a settled port an underflow starts a toggle. -/
theorem underflow_settled (h : Sending target s) (hs : Settled 4 s) (hpos : s.srBits ≠ 0) (rclk : Nat) :
    ciacoreIntta s rclk = scheduleSdrAlarm s rclk sdrToggleCnt1 := by
  have hclear : s.has (sdrToggleCnt0 ||| sdrNoggleCnt0) = false := by
    have hmask : ∀ i : Fin 32, (sdrToggleCnt0 ||| sdrNoggleCnt0).getLsbD i = true →
        i.val = 2 ∨ i.val = 6 := by decide
    have hzero : s.sdrDelay &&& (sdrToggleCnt0 ||| sdrNoggleCnt0) = 0 := and_eq_zero fun i hi hl => by
      rcases hmask ⟨i, hi⟩ hl with rfl | rfl
      · exact hs 2 (by decide) (by decide)
      · exact hs 6 (by decide) (by decide)
    unfold Serial.has
    rw [hzero]
    rfl
  unfold ciacoreIntta
  rw [hclear, h.output, bne_iff_ne.mpr hpos]
  rfl

/-- A cycle without a toggle and without a load. -/
theorem srBits_ciacoreIntsdr {rclk : Nat} (h2 : s.flag 2 = false) (h19 : s.flag 19 = false) :
    (ciacoreIntsdr s rclk false).srBits = s.srBits := by
  have htake : takeSdr s = s := by
    unfold takeSdr
    rw [has_set0, h19]
    rfl
  have htoggle : toggleCnt s = (s, 0) := by
    unfold toggleCnt
    rw [has_toggleCnt0, h2]
    rfl
  rw [ciacoreIntsdr_eq]
  show (raiseIrq (toggleCnt (takeSdr s)).1).srBits = s.srBits
  rw [htake, htoggle, srBits_raiseIrq]

theorem left_round (h : Sending target s) (hs : Settled 4 s) (rclk : Nat) :
    (run s (underflowRound rclk)).left ≤ s.left - 1 := by
  have hunder := sending_ciacoreIntta h rclk
  have hleft : (ciacoreIntta s rclk).left = s.left := by
    unfold Serial.left
    rw [flag_ciacoreIntta s rclk (by decide) (by decide), srBits_ciacoreIntta,
      flag_ciacoreIntta s rclk (by decide) (by decide), sdrValid_ciacoreIntta]
  by_cases hzero : s.srBits = 0
  · have hnone := left_eq_zero h hs hzero
    have hle := left_ticks_le hunder 4
    show (run (ciacoreIntta s rclk) (ticks 4)).left ≤ s.left - 1
    omega
  have hstart := underflow_settled h hs hzero rclk
  -- the first cycle brings the flag to the toggle
  have hfirst : tick (ciacoreIntta s rclk) = ciacoreIntsdr (ciacoreIntta s rclk) rclk false :=
    tick_some (by rw [hstart]; rfl)
  have hbits : (tick (ciacoreIntta s rclk)).srBits = s.srBits := by
    rw [hfirst, srBits_ciacoreIntsdr, srBits_ciacoreIntta]
    · rw [flag_ciacoreIntta s rclk (by decide) (by decide)]
      exact hs 2 (by decide) (by decide)
    · rw [flag_ciacoreIntta s rclk (by decide) (by decide)]
      exact hs 19 (by decide) (by decide)
  have hflag2 : (tick (ciacoreIntta s rclk)).flag 2 = true := by
    have hset : (ciacoreIntta s rclk).flag 1 = true := by
      rw [hstart]
      show (s.sdrDelay ||| sdrToggleCnt1).getLsbD 1 = true
      rw [BitVec.getLsbD_or]
      exact Bool.or_true _
    rw [flag_tick hunder (i := 1) (by decide) (by decide), hset]
    rfl
  have hflag19 : (tick (ciacoreIntta s rclk)).flag 19 = false := by
    rw [flag_tick hunder (i := 18) (by decide) (by decide),
      flag_ciacoreIntta s rclk (by decide) (by decide), hs 18 (by decide) (by decide)]
    rfl
  have hnext := sending_tick hunder
  have htake : takeSdr (tick (ciacoreIntta s rclk)) = tick (ciacoreIntta s rclk) := by
    unfold takeSdr
    rw [has_set0, hflag19]
    rfl
  -- the second one toggles
  obtain ⟨rclk', halarm⟩ : ∃ rclk', (tick (ciacoreIntta s rclk)).sdrAlarm = some rclk' := by
    cases halarm : (tick (ciacoreIntta s rclk)).sdrAlarm with
    | some rclk' => exact ⟨rclk', rfl⟩
    | none =>
      have hidle := (hnext.armed halarm).getLsbD (i := 2) (by decide)
      exact Bool.noConfusion (hidle.symm.trans hflag2)
  have hsecond : (tick (tick (ciacoreIntta s rclk))).left = (tick (ciacoreIntta s rclk)).left - 1 := by
    rw [tick_some halarm, left_ciacoreIntsdr hnext, htake, hbits, if_pos ⟨hflag2, hzero⟩]
  have hle := left_tick_le hunder
  have hrest := left_ticks_le (sending_tick hnext) 2
  show (run (tick (tick (ciacoreIntta s rclk))) (ticks 2)).left ≤ s.left - 1
  omega

theorem drain_rounds (h : Sending target s) (hs : Settled 4 s) (clks : List Nat) :
    Sending target (run s (clks.flatMap underflowRound)) ∧
      (run s (clks.flatMap underflowRound)).left ≤ s.left - clks.length := by
  induction clks generalizing s with
  | nil => exact ⟨h, Nat.le_refl _⟩
  | cons rclk clks ih =>
    have hunder := sending_ciacoreIntta h rclk
    obtain ⟨hsend, hleft⟩ := ih (sending_ticks hunder 4) (settled_four hunder)
    rw [List.flatMap_cons, run_append]
    refine ⟨hsend, ?_⟩
    have hround := left_round h hs rclk
    have hrun : run s (underflowRound rclk) = run (ciacoreIntta s rclk) (ticks 4) := rfl
    rw [hrun] at hround ⊢
    rw [List.length_cons]
    omega

/-- After as many underflows as there can be half bits everything is out. -/
theorem sent_drain (h : Sending target s) {clks : List Nat} (hclks : 33 ≤ clks.length) :
    sent (run s (drain clks)) = target := by
  unfold drain
  rw [run_append]
  have hticks := sending_ticks h 4
  obtain ⟨hsend, hleft⟩ := drain_rounds hticks (settled_four h) clks
  generalize run (run s (ticks 4)) (clks.flatMap underflowRound) = t at hsend hleft
  have hmost : (run s (ticks 4)).left ≤ 33 := by
    have hle := hticks.shifts.le
    unfold Serial.left left
    split_ifs <;> omega
  have hzero : t.left = 0 := by omega
  have hbits := hsend.shifts.bits
  unfold Serial.left left at hzero
  have hsr : t.srBits = 0 := by omega
  have hnone : (t.sdrValid || (t.flag 18 || t.flag 19)) = false := by
    cases hv : t.sdrValid || (t.flag 18 || t.flag 19) with
    | false => rfl
    | true =>
      rw [hv, if_pos rfl] at hzero
      omega
  rw [hnone, hsr] at hbits
  simpa [unsent] using hbits

end Drain

/-! ## The port -/

/-- An input that no byte has begun to come in to. -/
structure Listening (s : Serial) : Prop where
  input : s.isOut = false
  empty : s.srBits = 0
  high : s.cntInState = true
  idle : Idle s.sdrDelay

theorem listening_reset (s : Serial) : Listening (ciacoreReset s) :=
  ⟨by show spmodeOut 0 = false; decide, rfl, rfl, by show Idle allSdrCnt; decide⟩

theorem idle_and {d : BitVec 32} (h : Idle d) (mask : BitVec 32) : Idle (d &&& mask) :=
  and_eq_zero fun i _ hactive => by rw [BitVec.getLsbD_and, h.getLsbD hactive, Bool.false_and]

theorem Listening.receiving {s : Serial} (h : Listening s) : Receiving (irqCount s) [] [] s where
  input := h.input
  idle := h.idle
  lt := by rw [h.empty]; decide
  phase := by rw [h.empty, h.high]; exact ⟨fun _ => rfl, fun _ => rfl⟩
  bits_eq := by
    unfold received
    rw [if_pos h.empty]
    rfl
  irqs_eq := rfl

theorem sent_abandonByte (s : Serial) : sent (abandonByte s) = sent s := by
  unfold abandonByte
  dsimp only
  split_ifs
  · exact sent_emit rfl
  · rfl

theorem strangeExtraSdrFlags_sent (s : Serial) (rclk : Nat) (byte : UInt8) :
    sent (strangeExtraSdrFlags s rclk byte) = sent s := by
  unfold strangeExtraSdrFlags
  dsimp only
  split_ifs <;> rfl

/-- An output that starts may have an interrupt in the delay line, and the alarm set for it. -/
theorem strangeExtraSdrFlags_out {s : Serial} {rclk : Nat} {byte : UInt8} (hto : spmodeOut byte = true) :
    (strangeExtraSdrFlags s rclk byte).sdrDelay = s.sdrDelay ∨
      (strangeExtraSdrFlags s rclk byte).sdrDelay = s.sdrDelay ||| sdrSetSdrIrq2 ∧
        (strangeExtraSdrFlags s rclk byte).sdrAlarm = some rclk := by
  have hout : ¬byte &&& craSpmodeOut = craSpmodeIn := by
    unfold spmodeOut at hto
    exact bne_iff_ne.mp hto
  unfold strangeExtraSdrFlags
  rw [if_neg hout]
  dsimp only
  split_ifs
  · exact .inr ⟨rfl, rfl⟩
  · exact .inl rfl
  · exact .inr ⟨rfl, rfl⟩
  · exact .inl rfl

theorem abandonByte_sdrAlarm (s : Serial) : (abandonByte s).sdrAlarm = s.sdrAlarm := by
  unfold abandonByte
  dsimp only
  split_ifs <;> rfl

theorem abandonByte_sdrValid (s : Serial) : (abandonByte s).sdrValid = false := by
  unfold abandonByte
  dsimp only
  split_ifs <;> rfl

/-- The port is made an output. -/
theorem sending_selected {s : Serial} {rclk : Nat} {byte : UInt8} (hfrom : s.isOut = false)
    (hto : spmodeOut byte = true) (hidle : Idle s.sdrDelay) :
    Sending (sent s) (storeCra s rclk byte) := by
  have hchange : spmodeOut byte ≠ s.isOut := by rw [hfrom, hto]; decide
  have hout := isOut_storeCra s rclk byte
  have hdelay := @strangeExtraSdrFlags_out s rclk byte hto
  have hsent := (sent_abandonByte _).trans (strangeExtraSdrFlags_sent s rclk byte)
  rw [storeCra_change hchange] at hout ⊢
  have hloads : ∀ i, loads.getLsbD i = true →
      (abandonByte (strangeExtraSdrFlags s rclk byte)).flag i = false := fun i hi => by
    have hboth : ∀ j : Fin 32, loads.getLsbD j = true →
        sdrActive.getLsbD j = true ∧ sdrSetSdrIrq2.getLsbD j = false := by decide
    have hlt : i < 32 := BitVec.lt_of_getLsbD hi
    obtain ⟨hactive, hirq⟩ := hboth ⟨i, hlt⟩ hi
    unfold Serial.flag
    rw [abandonByte_sdrDelay, BitVec.getLsbD_and]
    rcases hdelay with hd | ⟨hd, -⟩
    · rw [hd, hidle.getLsbD hactive, Bool.false_and]
    · rw [hd, BitVec.getLsbD_or, hidle.getLsbD hactive, hirq, Bool.or_false, Bool.false_and]
  have h16 := hloads 16 (by decide)
  have h17 := hloads 17 (by decide)
  have h18 := hloads 18 (by decide)
  have h19 := hloads 19 (by decide)
  generalize hafter : strangeExtraSdrFlags s rclk byte = t at *
  refine ⟨hout.trans hto, ?_, ⟨h16, h17⟩, fun _ => h19, fun hnone => ?_⟩
  · show Shifting (sent s) ((abandonByte t).flag 18 || (abandonByte t).flag 19) (abandonByte t).srBits
      (abandonByte t).shifter (abandonByte t).sdrValid (abandonByte t).sdr (sent (abandonByte t))
    rw [h18, h19, abandonByte_srBits, abandonByte_sdrValid, hsent]
    exact ⟨by decide, fun hn => absurd rfl hn, fun _ => rfl, fun hv => Bool.noConfusion hv, by simp [unsent]⟩
  · have hnone' : t.sdrAlarm = none := (abandonByte_sdrAlarm t).symm.trans hnone
    rcases hdelay with hd | ⟨-, harm⟩
    · show Idle (abandonByte t).sdrDelay
      rw [abandonByte_sdrDelay, hd]
      exact idle_and hidle _
    · rw [harm] at hnone'
      cases hnone'

/-- Bit counting, input and output. From a reset the counter stays within 0..17 when CNT is high
whenever the port is made an input. The samples of an input are those of its bytes, one interrupt
each, and of less than one more. The bytes stored to an output are sent in order, except for the
bits that are still in the shifter or waiting, and draining it sends them all. -/
theorem serial_port_counts : (∀ (s : Serial) (es : List Event), InputWhileHigh (ciacoreReset s) es →
      (run (ciacoreReset s) es).srBits ≤ 17) ∧
    (∀ (s : Serial) (es : List Event), Listening s → (∀ e ∈ es, keepsInput e = true) →
      (∃ begun, begun.length < 8 ∧
        collect sampled s es = toBits (collect delivered s es) ++ begun) ∧
      irqCount (run s es) = irqCount s + (collect delivered s es).length) ∧
    (∀ (s : Serial) (rclk : Nat) (byte : UInt8) (es : List Event), s.isOut = false →
      Idle s.sdrDelay → spmodeOut byte = true → Sends (storeCra s rclk byte) es →
      let t := run (storeCra s rclk byte) es
      sent t ++ unsent t.srBits t.shifter ++ waiting t = sent s ++ toBits (written es) ∧
      ∀ clks : List Nat, 33 ≤ clks.length →
        sent (run t (drain clks)) = sent s ++ toBits (written es)) := by
  refine ⟨fun s es hes => ?_, fun s es hs hes => ?_, fun s rclk byte es hfrom hidle hto hes => ?_⟩
  · exact (counted_run (counted_reset s) hes).le
  · have hrun := receiving_run hs.receiving hes
    rw [List.nil_append, List.nil_append] at hrun
    refine ⟨⟨_, ?_, hrun.bits_eq⟩, hrun.irqs_eq⟩
    rw [window_length]
    have hlt := hrun.lt
    unfold received
    split_ifs <;> omega
  · have hrun := sending_run (sending_selected hfrom hto hidle) hes
    exact ⟨hrun.bits, fun clks hclks => sent_drain hrun hclks⟩

/-- A port after power-on, for the runs below. -/
def powerOn : Serial :=
  ciacoreReset
    { old := false
      cra := 0
      sdr := 0
      srBits := 0
      shifter := 0
      sdrValid := false
      sdrForceFinish := false
      sdrDelay := 0
      sdrAlarm := none
      spInState := true
      cntInState := true
      cntOutState := true
      out := [] }

/-- Full pulses of CNT. -/
def pulses (n : Nat) : List Event := (List.replicate n [Event.setCnt false, .setCnt true]).flatten

theorem serial_port_counts_pulses : (run powerOn (pulses 8)).srBits ≤ 17 ∧
    irqCount (run powerOn (pulses 8)) = irqCount powerOn + (collect delivered powerOn (pulses 8)).length ∧
    sent (run (run (storeCra powerOn 0 0x40) [.storeSdr 0 0x81]) (drain (List.replicate 33 0))) =
      sent powerOn ++ toBits (written [.storeSdr 0 0x81]) :=
  ⟨serial_port_counts.1 _ (pulses 8) (by decide +kernel),
    (serial_port_counts.2.1 powerOn (pulses 8) (listening_reset _) (by decide +kernel)).2,
    (serial_port_counts.2.2 powerOn 0 0x40 [.storeSdr 0 0x81] (by decide) (by decide) (by decide)
      (by decide +kernel)).2 (List.replicate 33 0) (by decide)⟩

/-- CNT is low when the port becomes an input, so the first edge rises. -/
def madeInputLow : List Event := [.storeCra 0 0x40, .setCnt false, .storeCra 0 0, .setCnt true]

/-- The interrupt of the byte that went out is still on its way. -/
def madeInputLate : List Event :=
  [.storeCra 0 0x40, .storeSdr 0 0xaa] ++ ticks 4 ++ (List.replicate 14 0).flatMap underflowRound ++
    [.underflow 0] ++ ticks 2 ++ [.storeCra 0 0]

/-- The second byte waits, and a third one is stored. -/
def overwritten : List Event :=
  [.storeSdr 0 0xaa] ++ ticks 2 ++ [.storeSdr 0 0x55] ++ ticks 3 ++ [.storeSdr 0 0x33] ++
    drain (List.replicate 40 0)

/-- The counter below zero and eight pulses without a byte; two interrupts in eight pulses; a byte
that was taken and is not sent because another one is stored, and one that is not sent because the
direction changes. -/
theorem serial_port_miscounts : (run powerOn madeInputLow).srBits = 2 ^ 32 - 1 ∧
    collect delivered (run powerOn madeInputLow) (pulses 8) = [] ∧
    (collect delivered (run powerOn madeInputLate) (pulses 4 ++ ticks 2 ++ pulses 4)).length = 2 ∧
    (accepts (run (storeCra powerOn 0 0x40) ([.storeSdr 0 0xaa] ++ ticks 2)) = true ∧
      sent (run (storeCra powerOn 0 0x40) overwritten) = toBits [0xaa, 0x33]) ∧
    (accepts (storeCra powerOn 0 0x40) = true ∧
      sent (run (storeCra powerOn 0 0x40)
        ([.storeSdr 0 0xaa] ++ ticks 2 ++ [.storeCra 0 0] ++ drain (List.replicate 40 0))) = []) := by
  decide +kernel

end Vice.L4.CiaSerial
