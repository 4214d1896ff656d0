import Vice.L4Machine.CiaSerialCount

/-!
# Bytes that come in

`sampled` are the levels of SP at the rising edges of CNT, `delivered` is what the data register
holds at each interrupt of the port. The register is shifted once an edge, so as long as nothing of
an output is left in the delay line every eight samples are one byte and one interrupt
(`receiving_run`).
-/
namespace Vice.L4.CiaSerial
open Vice.L0.BitWindow
open Vice.L0.BitRun (byteBits toBits toBits_append toBits_cons)

/-! ## What a run shows -/

/-- What the steps of a run add up to. -/
def collect {α : Type} (f : Serial → Event → List α) : Serial → List Event → List α
  | _, [] => []
  | s, e :: es => f s e ++ collect f (step s e) es

def irqCount (s : Serial) : Nat := s.out.count .irq

/-- SP at a rising edge. -/
def sampled (s : Serial) : Event → List Bool
  | .setCnt true => if s.cntInState then [] else [s.spInState]
  | _ => []

/-- The data register at an interrupt. -/
def delivered (s : Serial) (e : Event) : List UInt8 :=
  if irqCount (step s e) = irqCount s then [] else [(step s e).sdr]

/-- What may happen while bits come in; `setSdr` would put in a whole byte at once. -/
def keepsInput : Event → Bool
  | .reset => false
  | .storeCra _ byte => !spmodeOut byte
  | .setSdr _ => false
  | _ => true

/-! ## Nothing is left in the delay line -/

def Idle (d : BitVec 32) : Prop := d &&& sdrActive = 0

instance (d : BitVec 32) : Decidable (Idle d) := inferInstanceAs (Decidable (_ = _))

theorem Idle.getLsbD {d : BitVec 32} (h : Idle d) {i : Nat} (hi : sdrActive.getLsbD i = true) :
    d.getLsbD i = false := by
  have hbit := congrArg (·.getLsbD i) h
  simpa [BitVec.getLsbD_and, hi] using hbit

theorem and_eq_zero {d mask : BitVec 32}
    (h : ∀ i < 32, mask.getLsbD i = true → d.getLsbD i = false) : d &&& mask = 0 := by
  apply BitVec.eq_of_getLsbD_eq
  intro i hi
  rw [BitVec.getLsbD_and, show (0 : BitVec 32).getLsbD i = false from BitVec.getLsbD_zero]
  cases hmask : mask.getLsbD i with
  | false => exact Bool.and_false _
  | true => rw [Bool.and_true, h i hi hmask]

theorem idle_nextDelay {d : BitVec 32} (c : Bool) (h : Idle d) : Idle (nextDelay d 0 c) := by
  have hmask : ∀ i : Fin 31, sdrActive.getLsbD (i + 1) = true →
      (sdrActive.getLsbD i = true ∨ sdrClear.getLsbD (i + 1) = true) ∧ i.val + 1 ≠ 12 := by decide
  apply and_eq_zero
  intro i hi hactive
  cases i with
  | zero => exact nextDelay_zero d 0 c
  | succ i =>
    obtain ⟨hfrom | hclear, hne⟩ := hmask ⟨i, by omega⟩ hactive
    · rw [nextDelay_getLsbD d 0 c hi hne, h.getLsbD hfrom]
      simp
    · rw [nextDelay_getLsbD d 0 c hi hne, hclear]
      simp

theorem takeSdr_idle {s : Serial} (h : Idle s.sdrDelay) : takeSdr s = s := by
  unfold takeSdr
  rw [if_neg]
  rw [has_set0, Serial.flag, h.getLsbD (by decide)]
  exact Bool.false_ne_true

theorem toggleCnt_idle {s : Serial} (h : Idle s.sdrDelay) : toggleCnt s = (s, 0) := by
  apply toggleCnt_in
  have hmask : ∀ j : Fin 3, sdrActive.getLsbD j = true := by decide
  exact fun i hi => h.getLsbD (hmask ⟨i, hi⟩)

theorem raiseIrq_idle {s : Serial} (h : Idle s.sdrDelay) : raiseIrq s = s := by
  unfold raiseIrq
  rw [if_neg]
  rw [has_setSdrIrq0, Serial.flag, h.getLsbD (by decide)]
  exact Bool.false_ne_true

/-- The alarm of an idle input has the delay line moved on, that is all. -/
theorem ciacoreIntsdr_idle {s : Serial} (hin : s.isOut = false) (h : Idle s.sdrDelay) (rclk : Nat)
    (taDue : Bool) : ciacoreIntsdr s rclk taDue = moveOn s rclk 0 := by
  have hta : (if taDue then ciacoreIntta s rclk else s) = s := by
    rw [ciacoreIntta_in rclk hin, ite_self]
  unfold ciacoreIntsdr
  dsimp only
  rw [hta, takeSdr_idle h, toggleCnt_idle h]
  rw [raiseIrq_idle h]

/-! ## Eight samples a byte -/

/-- The bits of the byte that is coming in. -/
def received (s : Serial) : Nat := if s.srBits = 0 then 0 else (16 - s.srBits) / 2

/-- The samples so far are those of the bytes and of the begun one, `irqs` is the number of
interrupts at the start. -/
structure Receiving (irqs : Nat) (bits : List Bool) (bytes : List UInt8) (s : Serial) : Prop where
  input : s.isOut = false
  idle : Idle s.sdrDelay
  lt : s.srBits < 16
  phase : s.srBits % 2 = 0 ↔ s.cntInState = true
  bits_eq : bits = toBits bytes ++ window s.shifter (received s - 1) (received s)
  irqs_eq : irqCount s = irqs + bytes.length

section Steps
variable {irqs : Nat} {bits : List Bool} {bytes : List UInt8} {s : Serial}

theorem delivered_nil {e : Event} (h : (step s e).out = s.out) : delivered s e = [] := by
  unfold delivered irqCount
  rw [h, if_pos rfl]

/-- A falling edge takes half a bit. -/
theorem receiving_fall (h : Receiving irqs bits bytes s) (hedge : s.cntInState = true) :
    Receiving irqs bits bytes { countEdge s false with cntInState := false } := by
  have heven : s.srBits % 2 = 0 := h.phase.mpr hedge
  have hlt := h.lt
  have hbits : (countEdge s false).srBits = if s.srBits = 0 then 15 else s.srBits - 1 := by
    rw [srBits_fall]
    by_cases hzero : s.srBits = 0
    · rw [if_pos hzero, if_pos hzero]
      rfl
    · rw [if_neg hzero, if_neg hzero, decSrBits_pos (Nat.pos_of_ne_zero hzero) (by omega)]
  have hreceived : received { countEdge s false with cntInState := false } = received s := by
    unfold received
    dsimp only
    rw [hbits]
    split_ifs <;> omega
  refine ⟨?_, ?_, ?_, ?_, ?_, ?_⟩
  · exact (congrArg spmodeOut (countEdge_frame s false).1).trans h.input
  · show Idle (countEdge s false).sdrDelay
    rw [(countEdge_frame s false).2]
    exact h.idle
  · show (countEdge s false).srBits < 16
    rw [hbits]
    split_ifs <;> omega
  · show (countEdge s false).srBits % 2 = 0 ↔ false = true
    rw [hbits]
    simp only [Bool.false_eq_true, iff_false]
    split_ifs
    · exact not_false
    · omega
  · rw [hreceived, h.bits_eq, countEdge_false]
  · rw [countEdge_false]
    exact h.irqs_eq

/-- The register after a rising edge. -/
theorem window_rise (hr : received s < 16) :
    window (s.shifter <<< 1 ||| bit16 s.spInState) (received s) (received s + 1) =
      window s.shifter (received s - 1) (received s) ++ [s.spInState] := by
  have hbit : (bit16 s.spInState).getLsbD 0 = s.spInState := by cases s.spInState <;> rfl
  rw [window_shiftIn hr, hbit]
  intro i hi
  unfold bit16
  rw [BitVec.getLsbD_setWidth, BitVec.getLsbD_of_ge _ _ (by omega), Bool.and_false]

/-- A rising edge in the middle of a byte. -/
theorem receiving_rise (h : Receiving irqs bits bytes s) (hedge : s.cntInState = false) (hmore : s.srBits ≠ 1) :
    Receiving irqs (bits ++ [s.spInState]) bytes
      { countEdge s true with cntInState := true } ∧ (countEdge s true).out = s.out := by
  have hlt := h.lt
  have hodd : s.srBits % 2 = 1 := by
    have hnot : ¬s.srBits % 2 = 0 := fun heven => Bool.noConfusion (hedge.symm.trans (h.phase.mp heven))
    omega
  have hdec : decSrBits s.srBits = s.srBits - 1 := decSrBits_pos (by omega) (by omega)
  have hstep : countEdge s true =
      { s with srBits := s.srBits - 1, shifter := s.shifter <<< 1 ||| bit16 s.spInState } := by
    rw [countEdge_true, hdec, if_neg (by omega)]
  rw [hstep]
  have hfrom : received s = (16 - s.srBits) / 2 := if_neg (by omega)
  have hto : (16 - (s.srBits - 1)) / 2 = received s + 1 := by omega
  refine ⟨⟨h.input, h.idle, ?_, ?_, ?_, h.irqs_eq⟩, rfl⟩
  · show s.srBits - 1 < 16
    omega
  · show (s.srBits - 1) % 2 = 0 ↔ true = true
    simp only [iff_true]
    omega
  · have hreceived : received { s with
        srBits := s.srBits - 1
        shifter := s.shifter <<< 1 ||| bit16 s.spInState
        cntInState := true } = received s + 1 := (if_neg (by show ¬s.srBits - 1 = 0; omega)).trans hto
    rw [hreceived, Nat.add_sub_cancel, window_rise (by omega), h.bits_eq, List.append_assoc]

/-- The last rising edge of a byte. -/
theorem receiving_last (h : Receiving irqs bits bytes s) (hlast : s.srBits = 1) :
    Receiving irqs (bits ++ [s.spInState])
      (bytes ++ [(countEdge s true).sdr]) { countEdge s true with cntInState := true } ∧
    irqCount (countEdge s true) = irqCount s + 1 := by
  have hstep : countEdge s true =
      { s with
        srBits := 0
        shifter := s.shifter <<< 1 ||| bit16 s.spInState
        sdr := ⟨(s.shifter <<< 1 ||| bit16 s.spInState).setWidth 8⟩
        sdrAlarm := none
        out := .irq :: s.out } := by
    have hdec : decSrBits s.srBits = 0 := by rw [hlast]; rfl
    rw [countEdge_true, hdec, if_pos rfl]
    unfold ciacoreSetSdr
    rw [if_neg]
    · rfl
    · rw [Bool.not_eq_true]
      exact h.input
  have hfrom : received s = 7 := by
    unfold received
    rw [hlast]
    rfl
  rw [hstep]
  have hirq : irqCount { s with out := .irq :: s.out } = irqCount s + 1 := List.count_cons_self
  refine ⟨⟨h.input, h.idle, by show 0 < 16; decide, ⟨fun _ => rfl, fun _ => rfl⟩, ?_, ?_⟩, hirq⟩
  · have hbyte : window (s.shifter <<< 1 ||| bit16 s.spInState) 7 8 =
        byteBits ⟨(s.shifter <<< 1 ||| bit16 s.spInState).setWidth 8⟩ := by
      rw [← window_byte]
      apply window_congr
      intro i hi
      rw [BitVec.getLsbD_setWidth]
      simp [show 7 - i < 8 by omega]
    have hwindow := window_rise (show received s < 16 by omega)
    rw [hfrom, hbyte] at hwindow
    show bits ++ [s.spInState] = toBits (bytes ++ [_]) ++ []
    rw [h.bits_eq, hfrom, toBits_append, List.append_nil, List.append_assoc, ← hwindow]
    rw [toBits_cons, Vice.L0.BitRun.toBits_nil, List.append_nil]
  · rw [List.length_append, List.length_singleton, ← Nat.add_assoc, ← h.irqs_eq]
    exact hirq

theorem receiving_keep {s' : Serial} (h : Receiving irqs bits bytes s) (hin : s'.isOut = false)
    (hidle : Idle s'.sdrDelay) (hbits : s'.srBits = s.srBits) (hshifter : s'.shifter = s.shifter)
    (hcnt : s'.cntInState = s.cntInState) (hout : s'.out = s.out) :
    Receiving irqs bits bytes s' where
  input := hin
  idle := hidle
  lt := hbits ▸ h.lt
  phase := by rw [hbits, hcnt]; exact h.phase
  bits_eq := by
    have hreceived : received s' = received s := by unfold received; rw [hbits]
    rw [hreceived, hshifter]
    exact h.bits_eq
  irqs_eq := by
    unfold irqCount
    rw [hout]
    exact h.irqs_eq

/-- A step that takes no sample and gives no byte. -/
theorem receiving_silent {e : Event} (hsampled : sampled s e = []) (hout : (step s e).out = s.out)
    (h : Receiving irqs bits bytes (step s e)) :
    Receiving irqs (bits ++ sampled s e) (bytes ++ delivered s e) (step s e) := by
  rw [hsampled, delivered_nil hout, List.append_nil, List.append_nil]
  exact h

theorem receiving_setCnt (h : Receiving irqs bits bytes s) (data : Bool) :
    Receiving irqs (bits ++ sampled s (.setCnt data)) (bytes ++ delivered s (.setCnt data))
      (step s (.setCnt data)) := by
  by_cases hsame : data = s.cntInState
  · have hstep : step s (.setCnt data) = s := by
      rw [hsame]
      exact ciacoreSetCnt_same s
    apply receiving_silent
    · cases data with
      | false => rfl
      | true => exact if_pos hsame.symm
    · rw [hstep]
    · rwa [hstep]
  have hedge : s.cntInState = !data := by
    cases data <;> cases hc : s.cntInState <;> simp_all
  have hstep : step s (.setCnt data) = { countEdge s data with cntInState := data } :=
    ciacoreSetCnt_in h.input hedge
  cases data with
  | false =>
    apply receiving_silent rfl
    · rw [hstep, countEdge_false]
    · rw [hstep]
      exact receiving_fall h hedge
  | true =>
    have hsampled : sampled s (.setCnt true) = [s.spInState] := if_neg (by rw [hedge]; decide)
    rw [hsampled]
    by_cases hlast : s.srBits = 1
    · obtain ⟨hnext, hirq⟩ := receiving_last h hlast
      have hdelivered : delivered s (.setCnt true) = [(countEdge s true).sdr] := by
        unfold delivered
        rw [hstep, if_neg]
        show irqCount (countEdge s true) ≠ irqCount s
        omega
      rw [hdelivered, hstep]
      exact hnext
    · obtain ⟨hnext, hout⟩ := receiving_rise h hedge hlast
      rw [delivered_nil (by rw [hstep]; exact hout), hstep, List.append_nil]
      exact hnext

theorem receiving_step {e : Event} (h : Receiving irqs bits bytes s) (he : keepsInput e = true) :
    Receiving irqs (bits ++ sampled s e) (bytes ++ delivered s e) (step s e) := by
  cases e with
  | reset => exact Bool.noConfusion he
  | setSdr data => exact Bool.noConfusion he
  | storeCra rclk byte =>
    have hmode : spmodeOut byte = s.isOut := by
      rw [h.input]
      simpa [keepsInput] using he
    have hstep : step s (.storeCra rclk byte) = { s with cra := byte &&& 0xef } := storeCra_keep hmode
    have hin := isOut_storeCra s rclk byte
    rw [storeCra_keep hmode, hmode, h.input] at hin
    apply receiving_silent rfl
    · rw [hstep]
    · rw [hstep]
      exact receiving_keep h hin h.idle rfl rfl rfl rfl
  | storeSdr rclk byte =>
    have hstep : step s (.storeSdr rclk byte) = { s with sdr := byte } := by
      show storeSdr s rclk byte = _
      unfold storeSdr
      rw [h.input]
      rfl
    apply receiving_silent rfl
    · rw [hstep]
    · rw [hstep]
      exact receiving_keep h h.input h.idle rfl rfl rfl rfl
  | underflow rclk =>
    have hstep : step s (.underflow rclk) = s := ciacoreIntta_in rclk h.input
    apply receiving_silent rfl
    · rw [hstep]
    · rwa [hstep]
  | sdrAlarm taDue =>
    cases halarm : s.sdrAlarm with
    | none =>
      have hstep : step s (.sdrAlarm taDue) = s := by
        show ciacoreIntsdrEntry s taDue = s
        unfold ciacoreIntsdrEntry
        rw [halarm]
      apply receiving_silent rfl
      · rw [hstep]
      · rwa [hstep]
    | some rclk =>
      have hstep : step s (.sdrAlarm taDue) = moveOn s rclk 0 := by
        show ciacoreIntsdrEntry s taDue = _
        unfold ciacoreIntsdrEntry
        rw [halarm]
        exact ciacoreIntsdr_idle h.input h.idle rclk taDue
      apply receiving_silent rfl
      · rw [hstep]
        rfl
      · rw [hstep]
        exact receiving_keep h h.input (idle_nextDelay _ h.idle) rfl rfl rfl rfl
  | setSp data =>
    exact receiving_silent rfl rfl (receiving_keep h h.input h.idle rfl rfl rfl rfl)
  | setCnt data => exact receiving_setCnt h data

theorem receiving_run {es : List Event} (h : Receiving irqs bits bytes s)
    (hes : ∀ e ∈ es, keepsInput e = true) :
    Receiving irqs (bits ++ collect sampled s es) (bytes ++ collect delivered s es) (run s es) := by
  induction es generalizing s bits bytes with
  | nil => simpa [collect] using h
  | cons e es ih =>
    have hnext := ih (receiving_step h (hes e List.mem_cons_self))
      fun e' he' => hes e' (List.mem_cons_of_mem e he')
    simpa [collect, List.append_assoc] using hnext

end Steps

end Vice.L4.CiaSerial
