import Vice.L4Machine.ViaCore

/-!
# The interrupt line of the VIA (`viacore.c`)

Every place that changes an interrupt flag or its enable bit decides by itself whether `set_int` has
to be called. Most always do it; the accesses to the ports only when one of their flags is enabled,
which is enough, since the others do not reach the line.

Results:
* `step_follows`: one event leaves the line as the registers say.
* `line_follows_registers`: so it is in every state of a run from a reset.
-/
namespace Vice.L4.ViaInterrupt
open Vice.L4.ViaCore
open Vice.L4.ViaTimer1 (imT1 imCb1 imCb2)

/-- The value of a call of `set_int`. -/
def setInt? : Output → Option Bool
  | .setInt value _ => some value
  | _ => none

/-- The value that was last passed to `set_int`. -/
def lastSetInt (v : Via) : Option Bool := v.out.findSome? setInt?

/-- A flag that is set and enabled. -/
def wantsInterrupt (v : Via) : Bool := v.ifr &&& v.ier &&& 0x7f != 0

def Follows (v : Via) : Prop := lastSetInt v = some (wantsInterrupt v)

variable {v : Via}

/-! ## The places that change a flag -/

theorem update_follows (v : Via) (rclk : Nat) : Follows (updateMyviairqRclk v rclk) := rfl

theorem emit_follows (h : Follows v) {o : Output} (ho : setInt? o = none) : Follows (v.emit o) := by
  unfold Follows lastSetInt Via.emit
  rw [List.findSome?_cons, ho]
  exact h

theorem setReg_follows (h : Follows v) (addr : Nat) (byte : UInt8) : Follows (v.setReg addr byte) :=
  h

theorem ite_follows {c : Prop} [Decidable c] {v' : Via} (h : Follows v) (h' : Follows v') :
    Follows (if c then v else v') := by
  split
  · exact h
  · exact h'

/-- Flags that are not enabled do not reach the line. -/
theorem and_compl_and (a m e : UInt8) (h : e &&& m = 0) : a &&& ~~~m &&& e = a &&& e := by
  apply UInt8.eq_of_toBitVec_eq
  ext i hi
  have hbit := congrArg (fun w : UInt8 => w.toBitVec.getLsbD i) h
  simp only [UInt8.toBitVec_and, BitVec.getLsbD_and] at hbit
  simp [hi] at hbit ⊢
  grind

theorem clear_follows (h : Follows v) {mask : UInt8} (hm : v.ier &&& mask = 0) : Follows (v.clear mask) := by
  unfold Follows wantsInterrupt Via.clear
  rw [and_compl_and _ _ _ hm]
  exact h

/-- Behind a change of flags outside of `mask`. -/
theorem updateIfEnabled_follows {mask : UInt8} (rclk : Nat)
    (h : v.ier &&& mask = 0 → Follows v) : Follows (updateIfEnabled v mask rclk) := by
  unfold updateIfEnabled
  split
  · exact update_follows v rclk
  · next hmask => exact h (by simpa using hmask)

theorem and_or_eq_zero {e a b : UInt8} (h : e &&& (a ||| b) = 0) : e &&& a = 0 ∧ e &&& b = 0 := by
  have hbits : ∀ i, i < 8 → (e.toBitVec.getLsbD i && (a.toBitVec.getLsbD i || b.toBitVec.getLsbD i))
      = false := by
    intro i hi
    have hbit := congrArg (fun w : UInt8 => w.toBitVec.getLsbD i) h
    simpa [hi] using hbit
  constructor <;>
  · apply UInt8.eq_of_toBitVec_eq
    ext i hi
    have := hbits i hi
    simp [hi] at this ⊢
    grind

/-! ## Ports -/

@[simp] theorem handshakeCa2_ier (v : Via) : (handshakeCa2 v).ier = v.ier := by
  unfold handshakeCa2
  dsimp only
  split
  · split <;> rfl
  · rfl

@[simp] theorem handshakeCb2_ier (v : Via) : (handshakeCb2 v).ier = v.ier := by
  unfold handshakeCb2
  dsimp only
  split
  · split <;> rfl
  · rfl

@[simp] theorem clearCa_ier (v : Via) : (clearCa v).ier = v.ier := by
  unfold clearCa
  dsimp only
  split <;> rfl

@[simp] theorem clearCb_ier (v : Via) : (clearCb v).ier = v.ier := by
  unfold clearCb
  dsimp only
  split <;> rfl

theorem handshakeCa2_follows (h : Follows v) : Follows (handshakeCa2 v) := by
  unfold handshakeCa2
  dsimp only
  split
  · split <;> exact h
  · exact h

theorem handshakeCb2_follows (h : Follows v) : Follows (handshakeCb2 v) := by
  unfold handshakeCb2
  dsimp only
  split
  · split <;> exact h
  · exact h

theorem clearCa_follows (h : Follows v) (hm : v.ier &&& (imCa1 ||| imCa2) = 0) : Follows (clearCa v) := by
  obtain ⟨h1, h2⟩ := and_or_eq_zero hm
  unfold clearCa
  dsimp only
  split
  · exact clear_follows (clear_follows h h1) h2
  · exact clear_follows h h1

theorem clearCb_follows (h : Follows v) (hm : v.ier &&& (imCb1 ||| imCb2) = 0) : Follows (clearCb v) := by
  obtain ⟨h1, h2⟩ := and_or_eq_zero hm
  unfold clearCb
  dsimp only
  split
  · exact clear_follows (clear_follows h h1) h2
  · exact clear_follows h h1

theorem accessPra_follows (h : Follows v) (rclk : Nat) : Follows (accessPra v rclk) := by
  refine updateIfEnabled_follows rclk fun hm => handshakeCa2_follows (clearCa_follows h ?_)
  simpa only [handshakeCa2_ier, clearCa_ier] using hm

theorem storePrb_follows (h : Follows v) (rclk : Nat) : Follows (storePrb v rclk) := by
  refine updateIfEnabled_follows rclk fun hm => handshakeCb2_follows (clearCb_follows h ?_)
  simpa only [handshakeCb2_ier, clearCb_ier] using hm

theorem readPrb_follows (h : Follows v) (rclk : Nat) (port : UInt8) : Follows (readPrb v rclk port).1 := by
  refine updateIfEnabled_follows rclk fun hm => clearCb_follows h ?_
  simpa only [clearCb_ier] using hm

/-! ## The shift register -/

theorem setupShifting_follows (h : Follows v) (rclk : Nat) : Follows (setupShifting v rclk) := by
  unfold setupShifting
  dsimp only
  repeat' split
  all_goals exact h

theorem accessSr_follows (h : Follows v) (rclk : Nat) : Follows (accessSr v rclk) := by
  unfold accessSr
  dsimp only
  split
  · exact update_follows _ rclk
  · exact setupShifting_follows h rclk

theorem setSr_follows (h : Follows v) (data : UInt8) (clk : Nat) : Follows (viacoreSetSr v data clk) := by
  unfold viacoreSetSr
  split
  · exact update_follows _ clk
  · exact h

theorem shiftBit_follows (h : Follows v) (offset : Nat) : Follows (shiftBit v offset) := by
  unfold shiftBit
  dsimp only
  repeat' split
  all_goals exact h

theorem doShiftregister_follows (h : Follows v) (rclk offset : Nat) :
    Follows (doShiftregister v rclk offset) := by
  have hbit := shiftBit_follows h offset
  unfold doShiftregister
  dsimp only
  split
  · split
    · split
      · exact hbit
      · exact update_follows _ rclk
    · exact hbit
  · exact h

/-! ## Control registers and lines -/

theorem setCb2OutputState_follows (h : Follows v) (pcr : UInt8) (offset : Nat) :
    Follows (setCb2OutputState v pcr offset) := by
  unfold setCb2OutputState
  dsimp only
  split <;> exact h

theorem cacheCb12IoStatus_follows (h : Follows v) : Follows (viacoreCacheCb12IoStatus v) := by
  unfold viacoreCacheCb12IoStatus
  dsimp only
  split <;> exact h

theorem selectSrMode_follows (h : Follows v) (rclk : Nat) (byte : UInt8) :
    Follows (selectSrMode v rclk byte) := by
  unfold selectSrMode
  dsimp only
  split
  · apply setCb2OutputState_follows
    split
    · exact update_follows _ rclk
    · exact h
  · split
    · split <;> exact h
    · exact h

theorem risePb7_follows (h : Follows v) (byte : UInt8) : Follows (risePb7 v byte) :=
  ite_follows h h

theorem stopTimer2_follows (h : Follows v) (rclk : Nat) (byte : UInt8) :
    Follows (stopTimer2 v rclk byte) := ite_follows h h

theorem restartTimer2_follows (h : Follows v) (rclk : Nat) (byte : UInt8) :
    Follows (restartTimer2 v rclk byte) := ite_follows h h

theorem storeAcr_follows (h : Follows v) (rclk : Nat) (byte : UInt8) : Follows (storeAcr v rclk byte) := by
  have hstop := stopTimer2_follows (risePb7_follows h byte) rclk byte
  have hrestart := restartTimer2_follows (selectSrMode_follows hstop rclk byte) rclk byte
  exact emit_follows (cacheCb12IoStatus_follows (setReg_follows hrestart _ _)) rfl

theorem storePcr_follows (h : Follows v) (byte : UInt8) : Follows (storePcr v byte) := by
  have hca : Follows (v.setCa2 (byte &&& 0x0e != 0x0c)) := h
  refine cacheCb12IoStatus_follows (setReg_follows (emit_follows ?_ rfl) _ _)
  exact ite_follows (setCb2OutputState_follows hca byte _) hca

theorem startCb1_follows (h : Follows v) (data : Bool) : Follows (startCb1 v data) :=
  ite_follows h h

theorem shiftInCb1_follows (h : Follows v) (clk : Nat) : Follows (shiftInCb1 v clk) :=
  ite_follows (setSr_follows (setReg_follows h _ _) _ clk) (setReg_follows h _ _)

theorem countCb1_follows (h : Follows v) (data : Bool) (clk : Nat) : Follows (countCb1 v data clk) := by
  have hcount : Follows { startCb1 v data with shiftState := (startCb1 v data).shiftState + 1 } :=
    startCb1_follows h data
  exact ite_follows (shiftInCb1_follows hcount clk) hcount

theorem signalCb1_follows (h : Follows v) (data : Bool) (clk : Nat) :
    Follows (signalCb1 v data clk) := ite_follows (update_follows _ clk) h

theorem setCb1_follows (h : Follows v) (data : Bool) (clk : Nat) : Follows (viacoreSetCb1 v data clk) := by
  refine signalCb1_follows (ite_follows ?_ h) data clk
  exact ite_follows (v := countCb1 v data clk) (countCb1_follows h data clk) h

theorem setCb2_follows (h : Follows v) (data : Bool) (clk : Nat) : Follows (viacoreSetCb2 v data clk) :=
  ite_follows (ite_follows (update_follows _ clk) h) h

theorem signal_follows (h : Follows v) (line : Line) (edge : Bool) (clk : Nat) :
    Follows (viacoreSignal v line edge clk) := by
  cases line with
  | ca1 => exact ite_follows (update_follows _ clk) h
  | ca2 => exact ite_follows (update_follows _ clk) h
  | cb1 => exact setCb1_follows h edge clk
  | cb2 => exact setCb2_follows h edge clk

/-! ## Accesses -/

theorem storePortA_follows (h : Follows v) (addr : Nat) (byte : UInt8) : Follows (storePortA v addr byte) := h

theorem storePortB_follows (h : Follows v) (addr : Nat) (byte : UInt8) : Follows (storePortB v addr byte) := h

theorem storeT2ch_follows (v : Via) (rclk : Nat) (byte : UInt8) : Follows (storeT2ch v rclk byte) :=
  update_follows _ rclk

theorem store_follows (h : Follows v) (clk addr : Nat) (byte : UInt8) :
    Follows (viacoreStore v clk addr byte) := by
  unfold viacoreStore
  dsimp only
  split
  · exact storePortB_follows (storePrb_follows h _) _ _
  · exact storePortA_follows (setReg_follows (accessPra_follows h _) _ _) _ _
  · exact storePortB_follows h _ _
  · exact storePortA_follows h _ _
  · exact update_follows _ _
  · exact update_follows _ _
  · exact emit_follows (setReg_follows h _ _) rfl
  · exact storeT2ch_follows v _ byte
  · exact emit_follows (accessSr_follows (setReg_follows h _ _) _) rfl
  · exact storeAcr_follows h _ byte
  · exact storePcr_follows h byte
  · exact update_follows _ _
  · exact update_follows _ _
  · exact storePortA_follows (setReg_follows h _ _) _ _
  · exact h

theorem read_follows (h : Follows v) (clk addr : Nat) (port : UInt8) :
    Follows (viacoreRead v clk addr port).1 := by
  unfold viacoreRead
  dsimp only
  split
  · exact readPrb_follows h clk port
  · exact accessPra_follows h clk
  · exact update_follows _ clk
  · exact h
  · exact update_follows _ clk
  · exact h
  · exact accessSr_follows h clk
  · exact h
  · exact h
  · exact h
  · exact h

theorem reset_follows (v : Via) (clk : Nat) : Follows (viacoreReset v clk) := by
  unfold viacoreReset
  dsimp only
  exact cacheCb12IoStatus_follows (v := _) (update_follows _ clk)

/-! ## Alarms and runs -/

theorem t2ZeroAlarm_follows (h : Follows v) (rclk : Nat) : Follows (viacoreT2ZeroAlarm v rclk) := by
  unfold viacoreT2ZeroAlarm
  dsimp only
  split
  · exact update_follows _ rclk
  · exact h

theorem t2UnderflowAlarm_follows (h : Follows v) (rclk : Nat) : Follows (viacoreT2UnderflowAlarm v rclk) := by
  unfold viacoreT2UnderflowAlarm
  dsimp only
  split <;> split <;> exact h

theorem dispatch_follows (h : Follows v) (a : Alarm) (rclk offset : Nat) :
    Follows (v.dispatch a rclk offset) := by
  cases a with
  | t1Zero => exact update_follows _ (rclk + 1)
  | t2Zero => exact t2ZeroAlarm_follows h rclk
  | t2Underflow => exact t2UnderflowAlarm_follows h rclk
  | t2Shift => exact doShiftregister_follows h rclk offset
  | phi2Sr => exact doShiftregister_follows h rclk offset

theorem step_follows (h : Follows v) {e : Event} {v' : Via} (hstep : step v e = some v') : Follows v' := by
  cases e with
  | reset clk =>
    cases hstep
    exact reset_follows v clk
  | signal line edge clk =>
    cases hstep
    exact signal_follows h line edge clk
  | setSr data clk =>
    cases hstep
    exact setSr_follows h data clk
  | store clk addr byte => exact step_store hstep ▸ store_follows h clk addr byte
  | rmwStore clk addr => exact step_rmwStore hstep ▸ store_follows h clk addr v.lastRead
  | read clk addr port => exact step_read hstep ▸ read_follows h clk addr port
  | alarm a clk =>
    obtain ⟨rclk, -, -, rfl⟩ := step_alarm hstep
    exact dispatch_follows h a rclk _

theorem run_follows (h : Follows v) {es : List Event} {v' : Via} (hrun : run v es = some v') : Follows v' := by
  induction es generalizing v with
  | nil =>
    cases hrun
    exact h
  | cons e es ih =>
    obtain ⟨u, hu, hrest⟩ := run_cons hrun
    exact ih (step_follows h hu) hrest

/-- After every step since a reset, `set_int` was last called with what the registers say. -/
theorem line_follows_registers (v : Via) (clk : Nat) (es : List Event) {v' : Via}
    (hrun : run (viacoreReset v clk) es = some v') : lastSetInt v' = some (wantsInterrupt v') :=
  run_follows (reset_follows v clk) hrun

/-- CA1 is enabled and falls, then port A is read. -/
theorem line_follows_ca1 : ∃ v', run (viacoreReset viacoreSetupContext 0)
        [.store 2 14 0x82, .signal .ca1 false 5, .read 9 1 0xff] = some v' ∧
      lastSetInt v' = some (wantsInterrupt v') :=
  ⟨_, rfl, line_follows_registers viacoreSetupContext 0
    [.store 2 14 0x82, .signal .ca1 false 5, .read 9 1 0xff] rfl⟩

end Vice.L4.ViaInterrupt
