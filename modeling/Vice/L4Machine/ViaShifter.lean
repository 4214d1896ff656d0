import Mathlib.Logic.Basic
import Vice.L4Machine.ViaCore

/-!
# The shift register of the VIA on its own

`Shifter` keeps of the VIA what says how far a byte is: the mode, the half clocks since it began, the
flag and the two alarms. Three things move it: the alarms of the internal clocks, the edges of CB1,
and accesses to the register, which start a byte.

* `step_shifter`: each event of the VIA is one action on the shifter.
* `run_cached`: CB1 is an input exactly in the modes that it drives.
-/
namespace Vice.L4.ViaShifter
open Vice.L4.ViaCore
open Vice.L4.ViaTimer1 (imT1 imCb1 imCb2)
open Vice.L4.ViaTimer2 (isSrT2Controlled)

structure Shifter where
  mode : UInt8
  shiftState : UInt8
  flag : Bool
  cb1InState : Bool
  cb1IsInput : Bool
  t2ShiftAlarm : Option Nat
  phi2SrAlarm : Option Nat
  deriving DecidableEq, Repr

def shifter (v : Via) : Shifter where
  mode := srControl v.acr
  shiftState := v.shiftState
  flag := v.ifr &&& imSr != 0
  cb1InState := v.cb1InState
  cb1IsInput := v.cb1IsInput
  t2ShiftAlarm := v.t2ShiftAlarm
  phi2SrAlarm := v.phi2SrAlarm

/-- The modes in which CB1 is an input. -/
def drivenByCb1 (mode : UInt8) : Bool := mode &&& 0x0c == srInCb1 || mode == srDisabled

def drivenByPhi2 (mode : UInt8) : Bool := mode == srInPhi2 || mode == srOutPhi2

/-! ## Actions -/

/-- A byte begins, in the modes that wait for an access. -/
def Shifter.start (s : Shifter) (rclk : Nat) : Shifter :=
  if s.mode == srDisabled then s
  else if drivenByPhi2 s.mode then
    if s.shiftState == finishedShifting then
      { s with shiftState := startShifting, phi2SrAlarm := some (rclk + 1) }
    else s
  else if s.mode == srOutFreeT2 then { s with shiftState := s.shiftState &&& 0x0f }
  else if s.shiftState == finishedShifting then { s with shiftState := startShifting }
  else s

/-- A read or write of the register. -/
def Shifter.access (s : Shifter) (rclk : Nat) : Shifter :=
  { s.start rclk with flag := false }

/-- A new mode. -/
def Shifter.select (s : Shifter) (mode : UInt8) (rclk : Nat) : Shifter :=
  { s with
    mode := mode
    flag := s.flag && mode != srDisabled
    cb1IsInput := drivenByCb1 mode
    phi2SrAlarm :=
      if drivenByPhi2 mode then
        if s.phi2SrAlarm.isNone then some (rclk + 3) else s.phi2SrAlarm
      else none }

/-- A whole byte at once. -/
def Shifter.deliver (s : Shifter) : Shifter :=
  if s.mode &&& 0x10 == 0 && s.mode &&& 0x0c != 0 then
    { s with flag := true, shiftState := finishedShifting }
  else s

/-- The first edge of a byte falls. -/
def Shifter.fall (s : Shifter) (level : Bool) : Shifter :=
  if !level && s.shiftState == finishedShifting then { s with shiftState := startShifting } else s

/-- The last edge of a byte rises. -/
def Shifter.rise (s : Shifter) : Shifter :=
  if s.shiftState == finishedShifting then { s.deliver with shiftState := startShifting } else s

/-- An edge of CB1 that is counted. -/
def Shifter.count (s : Shifter) (level : Bool) : Shifter :=
  let s := s.fall level
  let s := { s with shiftState := s.shiftState + 1 }
  if level then s.rise else s

/-- A level of CB1. -/
def Shifter.edge (s : Shifter) (level : Bool) : Shifter :=
  if level != s.cb1InState then
    { (if s.cb1IsInput then s.count level else s) with cb1InState := level }
  else s

/-- Half a clock. -/
def Shifter.half (s : Shifter) : Shifter :=
  if s.shiftState < finishedShifting then
    let s := { s with shiftState := s.shiftState + 1 }
    if s.shiftState == finishedShifting then
      if s.mode == srOutFreeT2 then { s with shiftState := startShifting }
      else { s with flag := true }
    else s
  else s

/-- Timer 2 has passed $FF: the register follows a cycle later, in the modes that it drives. -/
def Shifter.t2Underflow (s : Shifter) (rclk : Nat) : Shifter :=
  if isSrT2Controlled s.mode then { s with t2ShiftAlarm := some (rclk + 1) } else s

inductive Act
  | idle
  | reset
  | clear (flag : Bool)
  | access (rclk : Nat)
  | select (mode : UInt8) (rclk : Nat)
  | deliver
  | edge (level : Bool)
  | t2Underflow (rclk : Nat)
  | t2Shift
  | phi2Sr (rclk : Nat)
  deriving DecidableEq, Repr

def Act.apply : Act → Shifter → Shifter
  | .idle, s => s
  | .reset, s =>
    { s with
      mode := srDisabled, shiftState := finishedShifting, flag := false
      cb1IsInput := drivenByCb1 srDisabled, t2ShiftAlarm := none, phi2SrAlarm := none }
  | .clear flag, s => { s with flag := s.flag && !flag }
  | .access rclk, s => s.access rclk
  | .select mode rclk, s => s.select mode rclk
  | .deliver, s => s.deliver
  | .edge level, s => s.edge level
  | .t2Underflow rclk, s => s.t2Underflow rclk
  | .t2Shift, s => { s.half with t2ShiftAlarm := none }
  | .phi2Sr rclk, s => { s.half with phi2SrAlarm := some (rclk + 1) }

/-- What a store does to the shifter. -/
def storeAct (rclk addr : Nat) (byte : UInt8) : Act :=
  match addr % 16 with
  | 10 => .access rclk
  | 11 => .select (srControl byte) rclk
  | 13 => .clear (byte &&& imSr != 0)
  | _ => .idle

def alarmAct (a : Alarm) (rclk : Nat) : Act :=
  match a with
  | .t2Underflow => .t2Underflow rclk
  | .t2Shift => .t2Shift
  | .phi2Sr => .phi2Sr rclk
  | _ => .idle

/-- What an event does to the shifter. -/
def act (v : Via) : Event → Act
  | .reset _ => .reset
  | .signal .cb1 level _ => .edge level
  | .signal _ _ _ => .idle
  | .setSr _ _ => .deliver
  | .store clk addr byte => storeAct (clk - v.writeOffset) addr byte
  | .rmwStore clk addr => storeAct (clk - v.writeOffset) addr v.lastRead
  | .read clk addr _ => if addr % 16 = viaSr then .access clk else .idle
  | .alarm a _ => alarmAct a ((v.alarmClk a).getD 0)

/-- CB1 is an input where it drives the register. -/
def Shifter.Cached (s : Shifter) : Prop := s.cb1IsInput = drivenByCb1 s.mode

/-! ## Bits -/

theorem flag_eq (x : UInt8) : (x &&& imSr != 0) = x.toBitVec.getLsbD 2 := by
  have h : ∀ n : Fin 256, (UInt8.ofFin n &&& imSr != 0) = (UInt8.ofFin n).toBitVec.getLsbD 2 := by
    decide +kernel
  exact h x.toFin

theorem flag_clear (x mask : UInt8) :
    ((x &&& ~~~mask) &&& imSr != 0) = ((x &&& imSr != 0) && !(mask &&& imSr != 0)) := by
  rw [flag_eq, flag_eq, flag_eq, UInt8.toBitVec_and, BitVec.getLsbD_and, UInt8.toBitVec_not, BitVec.getLsbD_not]
  rfl

theorem flag_raise (x mask : UInt8) :
    ((x ||| mask) &&& imSr != 0) = ((x &&& imSr != 0) || (mask &&& imSr != 0)) := by
  rw [flag_eq, flag_eq, flag_eq, UInt8.toBitVec_or, BitVec.getLsbD_or]

/-- The bits that decide are bits of the mode. -/
theorem setsSr_srControl (acr : UInt8) : (acr &&& 0x10 == 0 && acr &&& 0x0c != 0) =
      (srControl acr &&& 0x10 == 0 && srControl acr &&& 0x0c != 0) := by
  have h : ∀ n : Fin 256, (UInt8.ofFin n &&& 0x10 == 0 && UInt8.ofFin n &&& 0x0c != 0) =
      (srControl (UInt8.ofFin n) &&& 0x10 == 0 && srControl (UInt8.ofFin n) &&& 0x0c != 0) := by
    decide +kernel
  exact h acr.toFin

theorem isSrT2Controlled_srControl (acr : UInt8) : isSrT2Controlled acr = isSrT2Controlled (srControl acr) := by
  have h : ∀ n : Fin 256,
      isSrT2Controlled (UInt8.ofFin n) = isSrT2Controlled (srControl (UInt8.ofFin n)) := by
    decide +kernel
  exact h acr.toFin

/-! ## What leaves the shifter alone -/

variable {v : Via}

theorem shifter_clear (v : Via) (mask : UInt8) :
    shifter (v.clear mask) = { shifter v with flag := (shifter v).flag && !(mask &&& imSr != 0) } :=
  congrArg (fun b => { shifter v with flag := b }) (flag_clear v.ifr mask)

theorem shifter_raise (v : Via) (mask : UInt8) :
    shifter (v.raise mask) = { shifter v with flag := (shifter v).flag || (mask &&& imSr != 0) } :=
  congrArg (fun b => { shifter v with flag := b }) (flag_raise v.ifr mask)

theorem shifter_update (v : Via) (rclk : Nat) : shifter (updateMyviairqRclk v rclk) = shifter v := rfl

theorem shifter_withState (v : Via) (k : UInt8) :
    shifter { v with shiftState := k } = { shifter v with shiftState := k } := rfl

theorem shifter_withCb1 (v : Via) (level : Bool) :
    shifter { v with cb1InState := level } = { shifter v with cb1InState := level } := rfl

theorem shifter_withEnabled (v : Via) (enabled : Bool) :
    shifter { v with enabled := enabled } = shifter v := rfl

theorem shifter_withLastRead (v : Via) (byte : UInt8) : shifter { v with lastRead := byte } = shifter v := rfl

/-- A flag of another part is cleared. -/
theorem shifter_clear_other {mask : UInt8} (h : mask &&& imSr = 0) : shifter (v.clear mask) = shifter v := by
  rw [shifter_clear, h]
  simp

theorem shifter_raise_other {mask : UInt8} (h : mask &&& imSr = 0) : shifter (v.raise mask) = shifter v := by
  rw [shifter_raise, h]
  simp

theorem shifter_acknowledge {mask : UInt8} (h : mask &&& imSr = 0) {rclk : Nat} :
    shifter (acknowledge v mask rclk) = shifter v :=
  (shifter_update _ rclk).trans (shifter_clear_other h)

theorem shifter_setReg {addr : Nat} (h : viaAcr ≠ addr) (byte : UInt8) :
    shifter (v.setReg addr byte) = shifter v := by
  unfold shifter Via.acr Via.setReg
  dsimp only
  rw [Function.update_of_ne h]

theorem shifter_updateIfEnabled (v : Via) (mask : UInt8) (rclk : Nat) :
    shifter (updateIfEnabled v mask rclk) = shifter v := by
  unfold updateIfEnabled
  split <;> rfl

theorem shifter_clearCa (v : Via) : shifter (clearCa v) = shifter v := by
  unfold clearCa
  dsimp only
  split
  · rw [shifter_clear_other (by decide), shifter_clear_other (by decide)]
  · exact shifter_clear_other (by decide)

theorem shifter_clearCb (v : Via) : shifter (clearCb v) = shifter v := by
  unfold clearCb
  dsimp only
  split
  · rw [shifter_clear_other (by decide), shifter_clear_other (by decide)]
  · exact shifter_clear_other (by decide)

theorem shifter_handshakeCa2 (v : Via) : shifter (handshakeCa2 v) = shifter v := by
  unfold handshakeCa2
  dsimp only
  split
  · split <;> rfl
  · rfl

theorem shifter_handshakeCb2 (v : Via) : shifter (handshakeCb2 v) = shifter v := by
  unfold handshakeCb2
  dsimp only
  split
  · split <;> rfl
  · rfl

theorem shifter_accessPra (v : Via) (rclk : Nat) : shifter (accessPra v rclk) = shifter v := by
  rw [accessPra, shifter_updateIfEnabled, shifter_handshakeCa2, shifter_clearCa]

theorem shifter_storePrb (v : Via) (rclk : Nat) : shifter (storePrb v rclk) = shifter v := by
  rw [storePrb, shifter_updateIfEnabled, shifter_handshakeCb2, shifter_clearCb]

theorem shifter_readPrb (v : Via) (rclk : Nat) (port : UInt8) :
    shifter (readPrb v rclk port).1 = shifter v := by
  unfold readPrb
  dsimp only
  rw [shifter_updateIfEnabled, shifter_clearCb]

theorem shifter_setCb2OutputState (v : Via) (pcr : UInt8) (offset : Nat) :
    shifter (setCb2OutputState v pcr offset) = shifter v := by
  unfold setCb2OutputState
  dsimp only
  split <;> rfl

theorem shifter_storeT1ch (v : Via) (rclk : Nat) (byte : UInt8) :
    shifter (storeT1ch v rclk byte) = shifter v := by
  unfold storeT1ch
  dsimp only
  rw [shifter_update, shifter_clear_other (by decide)]
  exact shifter_setReg (v := v) (by decide) byte

theorem shifter_storeT2ch (v : Via) (rclk : Nat) (byte : UInt8) :
    shifter (storeT2ch v rclk byte) = shifter v := by
  have hreg : shifter (v.setReg viaT2lh byte) = shifter v := shifter_setReg (by decide) byte
  unfold storeT2ch
  dsimp only
  split
  · exact (shifter_clear_other (by decide)).trans hreg
  · exact (shifter_clear_other (by decide)).trans hreg

theorem shifter_risePb7 (v : Via) (byte : UInt8) : shifter (risePb7 v byte) = shifter v := by
  unfold risePb7
  split <;> rfl

theorem shifter_stopTimer2 (v : Via) (rclk : Nat) (byte : UInt8) :
    shifter (stopTimer2 v rclk byte) = shifter v := by
  unfold stopTimer2
  split <;> rfl

theorem shifter_restartTimer2 (v : Via) (rclk : Nat) (byte : UInt8) :
    shifter (restartTimer2 v rclk byte) = shifter v := by
  unfold restartTimer2
  dsimp only
  split <;> rfl

theorem shifter_signalCb1 (v : Via) (data : Bool) (clk : Nat) : shifter (signalCb1 v data clk) = shifter v := by
  unfold signalCb1
  dsimp only
  split
  · rw [shifter_update, shifter_raise_other (by decide)]
    split <;> rfl
  · rfl

theorem shifter_setCb2 (v : Via) (data : Bool) (clk : Nat) :
    shifter (viacoreSetCb2 v data clk) = shifter v := by
  unfold viacoreSetCb2
  dsimp only
  split
  · split
    · rw [shifter_update, shifter_raise_other (by decide)]
      rfl
    · rfl
  · rfl

theorem shifter_t1ZeroAlarm (v : Via) (rclk : Nat) : shifter (viacoreT1ZeroAlarm v rclk) = shifter v := by
  unfold viacoreT1ZeroAlarm
  dsimp only
  rw [shifter_update, shifter_raise_other (by decide)]
  split <;> rfl

theorem shifter_t2ZeroAlarm (v : Via) (rclk : Nat) : shifter (viacoreT2ZeroAlarm v rclk) = shifter v := by
  unfold viacoreT2ZeroAlarm
  dsimp only
  split
  · exact (shifter_raise_other (v := { v with t2ch := v.t2ch - 1 }) (by decide)).trans rfl
  · rfl

/-! ## What moves it -/

theorem shifter_cacheCb12IoStatus (v : Via) : shifter (viacoreCacheCb12IoStatus v) =
    { shifter v with cb1IsInput := drivenByCb1 (shifter v).mode } := by
  unfold viacoreCacheCb12IoStatus
  dsimp only
  split <;> rfl

theorem shifter_setupShifting (v : Via) (rclk : Nat) :
    shifter (setupShifting v rclk) = (shifter v).start rclk := by
  unfold setupShifting
  simp only [apply_ite shifter]
  rfl

theorem shifter_accessSr (v : Via) (rclk : Nat) : shifter (accessSr v rclk) = (shifter v).access rclk := by
  unfold accessSr Shifter.access
  dsimp only
  rw [← shifter_setupShifting]
  split
  · rw [shifter_update, shifter_clear]
    exact congrArg (fun b => { shifter (setupShifting v rclk) with flag := b }) (Bool.and_false _)
  · next h =>
    have hclear : (shifter (setupShifting v rclk)).flag = false := Bool.eq_false_iff.mpr h
    rw [← hclear]

theorem shifter_setSr (v : Via) (data : UInt8) (clk : Nat) :
    shifter (viacoreSetSr v data clk) = (shifter v).deliver := by
  have hset : shifter ((v.setReg viaSr data).raise imSr) = { shifter v with flag := true } := by
    rw [shifter_raise, shifter_setReg (by decide)]
    exact congrArg (fun b => { shifter v with flag := b }) (Bool.or_true _)
  unfold viacoreSetSr
  rw [setsSr_srControl]
  split
  · next h =>
    refine Eq.trans ?_ (if_pos h).symm
    exact congrArg (fun s : Shifter => { s with shiftState := finishedShifting }) hset
  · next h => exact (if_neg h).symm

theorem shifter_shiftBit (v : Via) (offset : Nat) : shifter (shiftBit v offset) = shifter v := by
  unfold shiftBit
  dsimp only
  repeat' split
  all_goals rfl

theorem shifter_doShiftregister (v : Via) (rclk offset : Nat) :
    shifter (doShiftregister v rclk offset) = (shifter v).half := by
  have hbit := shifter_shiftBit v offset
  have hstate : (shiftBit v offset).shiftState = v.shiftState := congrArg Shifter.shiftState hbit
  have hmode : srControl (shiftBit v offset).acr = srControl v.acr := congrArg Shifter.mode hbit
  have hcount : ∀ k, shifter { shiftBit v offset with shiftState := k } =
      { shifter v with shiftState := k } := fun k =>
    congrArg (fun s : Shifter => { s with shiftState := k }) hbit
  have hflag : ∀ k, shifter ({ shiftBit v offset with shiftState := k }.raise imSr) =
      { shifter v with shiftState := k, flag := true } := by
    intro k
    rw [shifter_raise, hcount]
    exact congrArg (fun b => { shifter v with shiftState := k, flag := b }) (Bool.or_true _)
  have hfree : ∀ k, srControl { shiftBit v offset with shiftState := k }.acr = srControl v.acr :=
    fun _ => hmode
  unfold doShiftregister Shifter.half
  simp only [apply_ite shifter, hstate, hfree, hcount]
  rw [← hflag]
  rfl

theorem shifter_selectSrMode (v : Via) (rclk : Nat) (byte : UInt8) : shifter (selectSrMode v rclk byte) =
      { (shifter v).select (srControl byte) rclk with
        mode := (shifter v).mode, cb1IsInput := (shifter v).cb1IsInput } := by
  unfold selectSrMode Shifter.select
  dsimp only
  split
  · next h =>
    have hmode : srControl byte = srDisabled := beq_iff_eq.mp h
    rw [shifter_setCb2OutputState, hmode]
    split
    · rw [shifter_update, shifter_clear]
      rfl
    · next hflag =>
      have hclear : (shifter v).flag = false := Bool.eq_false_iff.mpr hflag
      rw [hclear]
      exact congrArg (fun b => { shifter v with phi2SrAlarm := none, flag := b }) hclear
  · next h =>
    have hmode : (srControl byte != srDisabled) = true := by simpa using h
    rw [hmode, Bool.and_true]
    split
    · next hphi =>
      rw [if_pos (show drivenByPhi2 (srControl byte) = true from hphi)]
      split
      · next hnone =>
        rw [if_pos (show (shifter v).phi2SrAlarm.isNone = true from hnone)]
        rfl
      · next hsome =>
        rw [if_neg (show ¬ (shifter v).phi2SrAlarm.isNone = true from hsome)]
    · next hphi =>
      rw [if_neg (show ¬ drivenByPhi2 (srControl byte) = true from hphi)]
      rfl

theorem shifter_setAcr (v : Via) (byte : UInt8) :
    shifter (v.setReg viaAcr byte) = { shifter v with mode := srControl byte } := by
  unfold shifter Via.acr Via.setReg
  dsimp only
  rw [Function.update_self]

theorem shifter_storeAcr (v : Via) (rclk : Nat) (byte : UInt8) :
    shifter (storeAcr v rclk byte) = (shifter v).select (srControl byte) rclk := by
  have hstop : shifter (stopTimer2 (risePb7 v byte) rclk byte) = shifter v := by
    rw [shifter_stopTimer2, shifter_risePb7]
  change shifter (viacoreCacheCb12IoStatus (Via.setReg _ viaAcr byte)) = _
  rw [shifter_cacheCb12IoStatus, shifter_setAcr, shifter_restartTimer2, shifter_selectSrMode, hstop]
  rfl

theorem shifter_storePcr (h : (shifter v).Cached) (byte : UInt8) : shifter (storePcr v byte) = shifter v := by
  have hcb2 : shifter (if srControl (v.setCa2 (byte &&& 0x0e != 0x0c)).acr == srDisabled then
      setCb2OutputState (v.setCa2 (byte &&& 0x0e != 0x0c)) byte
        (v.setCa2 (byte &&& 0x0e != 0x0c)).writeOffset
      else v.setCa2 (byte &&& 0x0e != 0x0c)) = shifter v := by
    split
    · exact shifter_setCb2OutputState _ byte _
    · rfl
  have hemit : ∀ w : Via, shifter w = shifter v →
      shifter (w.emit (.storePcr byte viaPcr)) = shifter v := fun _ hw => hw
  unfold storePcr
  dsimp only
  rw [shifter_cacheCb12IoStatus, shifter_setReg (by decide), hemit _ hcb2]
  exact congrArg (fun b => { shifter v with cb1IsInput := b }) h.symm

theorem shifter_startCb1 (v : Via) (data : Bool) : shifter (startCb1 v data) = (shifter v).fall data := by
  unfold startCb1
  rw [apply_ite shifter]
  rfl

theorem shifter_shiftInCb1 (v : Via) (clk : Nat) : shifter (shiftInCb1 v clk) = (shifter v).rise := by
  have hreg : ∀ byte, shifter (v.setReg viaSr byte) = shifter v := fun _ =>
    shifter_setReg (by decide) _
  unfold shiftInCb1 Shifter.rise
  dsimp only
  split
  · next h =>
    refine Eq.trans ?_ (if_pos h).symm
    rw [shifter_withState, shifter_setSr, hreg]
  · next h =>
    refine Eq.trans ?_ (if_neg h).symm
    exact hreg _

theorem shifter_countCb1 (v : Via) (data : Bool) (clk : Nat) :
    shifter (countCb1 v data clk) = (shifter v).count data := by
  have hstart := shifter_startCb1 v data
  have hcount : shifter { startCb1 v data with shiftState := (startCb1 v data).shiftState + 1 } =
      { (shifter v).fall data with shiftState := ((shifter v).fall data).shiftState + 1 } :=
    congrArg (fun s : Shifter => { s with shiftState := s.shiftState + 1 }) hstart
  unfold countCb1 Shifter.count
  dsimp only
  split
  · rw [shifter_shiftInCb1, hcount]
  · exact hcount

theorem shifter_setCb1 (v : Via) (data : Bool) (clk : Nat) :
    shifter (viacoreSetCb1 v data clk) = (shifter v).edge data := by
  unfold viacoreSetCb1 Shifter.edge
  dsimp only
  rw [shifter_signalCb1]
  split
  · next h =>
    refine Eq.trans ?_ (if_pos h).symm
    rw [shifter_withCb1, apply_ite shifter, shifter_countCb1]
    rfl
  · next h => exact (if_neg h).symm

theorem shifter_t2UnderflowAlarm (v : Via) (rclk : Nat) :
    shifter (viacoreT2UnderflowAlarm v rclk) = (shifter v).t2Underflow rclk := by
  unfold viacoreT2UnderflowAlarm Shifter.t2Underflow
  rw [isSrT2Controlled_srControl]
  dsimp only
  split
  · next h =>
    refine Eq.trans ?_ (if_pos h).symm
    split <;> rfl
  · next h =>
    refine Eq.trans ?_ (if_neg h).symm
    split <;> rfl

theorem shifter_reset (v : Via) (clk : Nat) : shifter (viacoreReset v clk) = Act.reset.apply (shifter v) := by
  unfold viacoreReset
  dsimp only
  rw [shifter_withEnabled, shifter_cacheCb12IoStatus]
  simp [shifter, Via.acr, viaAcr, Act.apply, Via.emit, Via.setCb2, Via.setCa2, updateMyviairqRclk, srControl, srDisabled]

/-! ## Events -/

theorem shifter_signal (v : Via) (line : Line) (level : Bool) (clk : Nat) :
    shifter (viacoreSignal v line level clk) =
      (act v (.signal line level clk)).apply (shifter v) := by
  cases line with
  | ca1 =>
    unfold viacoreSignal
    dsimp only
    split
    · rw [shifter_update, shifter_raise_other (by decide)]
      split <;> rfl
    · rfl
  | ca2 =>
    unfold viacoreSignal
    dsimp only
    split
    · rw [shifter_update]
      split <;> exact shifter_raise_other (by decide)
    · rfl
  | cb1 => exact shifter_setCb1 v level clk
  | cb2 => exact shifter_setCb2 v level clk

theorem shifter_store (h : (shifter v).Cached) (clk addr : Nat) (byte : UInt8) :
    shifter (viacoreStore v clk addr byte) =
      (storeAct (clk - v.writeOffset) addr byte).apply (shifter v) := by
  unfold viacoreStore storeAct
  dsimp only
  split <;> rename_i heq <;> simp only [heq]
  · exact (shifter_setReg (by decide) _).trans (shifter_storePrb v _)
  · exact (shifter_setReg (by decide) _).trans
      ((shifter_setReg (by decide) _).trans (shifter_accessPra v _))
  · exact shifter_setReg (by decide) _
  · exact shifter_setReg (by decide) _
  · exact shifter_storeT1ch v _ byte
  · rw [shifter_update, shifter_clear_other (by decide)]
    exact shifter_setReg (v := v) (by decide) byte
  · exact shifter_setReg (v := v) (by decide) byte
  · exact shifter_storeT2ch v _ byte
  · exact (shifter_accessSr _ _).trans (congrArg (Shifter.access · _) (shifter_setReg (by decide) _))
  · exact shifter_storeAcr v _ byte
  · exact shifter_storePcr h byte
  · exact shifter_clear v byte
  · rfl
  · exact (shifter_setReg (by decide) _).trans (shifter_setReg (by decide) _)
  · exact shifter_setReg (v := v) (by decide) byte

theorem shifter_read (v : Via) (clk addr : Nat) (port : UInt8) : shifter (viacoreRead v clk addr port).1 =
      (act v (.read clk addr port)).apply (shifter v) := by
  unfold viacoreRead act
  dsimp only
  rw [shifter_withLastRead]
  split <;> rename_i heq <;> try simp only [heq, viaSr]
  · exact shifter_readPrb v clk port
  · exact shifter_accessPra v clk
  · exact shifter_acknowledge (by decide)
  · rfl
  · exact shifter_acknowledge (by decide)
  · rfl
  · exact shifter_accessSr v clk
  · rfl
  · rfl
  · rfl
  · next hsr _ _ =>
    have hidle : (if addr % 16 = viaSr then Act.access clk else .idle) = .idle := if_neg hsr
    exact (congrArg (Act.apply · (shifter v)) hidle).symm

theorem shifter_dispatch (v : Via) (a : Alarm) (rclk offset : Nat) :
    shifter (v.dispatch a rclk offset) = (alarmAct a rclk).apply (shifter v) := by
  cases a with
  | t1Zero => exact shifter_t1ZeroAlarm v rclk
  | t2Zero => exact shifter_t2ZeroAlarm v rclk
  | t2Underflow => exact shifter_t2UnderflowAlarm v rclk
  | t2Shift =>
    exact congrArg (fun s : Shifter => { s with t2ShiftAlarm := none })
      (shifter_doShiftregister v rclk offset)
  | phi2Sr =>
    exact congrArg (fun s : Shifter => { s with phi2SrAlarm := some (rclk + 1) })
      (shifter_doShiftregister v rclk offset)

/-- An alarm is called when it is pending. -/
def Act.Possible (s : Shifter) : Act → Prop
  | .t2Shift => s.t2ShiftAlarm ≠ none
  | .phi2Sr _ => s.phi2SrAlarm ≠ none
  | _ => True

theorem storeAct_possible (s : Shifter) (rclk addr : Nat) (byte : UInt8) :
    (storeAct rclk addr byte).Possible s := by
  unfold storeAct
  split <;> trivial

/-- Each event of the VIA is one action on the shifter. -/
theorem step_shifter (h : (shifter v).Cached) {e : Event} {v' : Via} (hstep : step v e = some v') :
    shifter v' = (act v e).apply (shifter v) ∧ (act v e).Possible (shifter v) := by
  cases e with
  | reset clk =>
    cases hstep
    exact ⟨shifter_reset v clk, trivial⟩
  | signal line level clk =>
    cases hstep
    refine ⟨shifter_signal v line level clk, ?_⟩
    cases line <;> trivial
  | setSr data clk =>
    cases hstep
    exact ⟨shifter_setSr v data clk, trivial⟩
  | store clk addr byte =>
    rw [← step_store hstep]
    exact ⟨shifter_store h clk addr byte, storeAct_possible _ _ _ _⟩
  | rmwStore clk addr =>
    rw [← step_rmwStore hstep]
    exact ⟨shifter_store h clk addr v.lastRead, storeAct_possible _ _ _ _⟩
  | read clk addr port =>
    rw [← step_read hstep]
    refine ⟨shifter_read v clk addr port, ?_⟩
    change Act.Possible _ (if addr % 16 = viaSr then _ else _)
    split <;> trivial
  | alarm a clk =>
    obtain ⟨rclk, hpending, -, rfl⟩ := step_alarm hstep
    have hact : act v (.alarm a clk) = alarmAct a rclk := by rw [act, hpending, Option.getD_some]
    rw [hact]
    refine ⟨shifter_dispatch v a rclk _, ?_⟩
    cases a with
    | t2Shift => exact Option.ne_none_iff_exists'.mpr ⟨rclk, hpending⟩
    | phi2Sr => exact Option.ne_none_iff_exists'.mpr ⟨rclk, hpending⟩
    | t1Zero => trivial
    | t2Zero => trivial
    | t2Underflow => trivial

/-! ## When CB1 is an input -/

theorem deliver_fixed (s : Shifter) : s.deliver.mode = s.mode ∧ s.deliver.cb1IsInput = s.cb1IsInput := by
  unfold Shifter.deliver
  split <;> exact ⟨rfl, rfl⟩

theorem fall_fixed (s : Shifter) (level : Bool) :
    (s.fall level).mode = s.mode ∧ (s.fall level).cb1IsInput = s.cb1IsInput := by
  unfold Shifter.fall
  split <;> exact ⟨rfl, rfl⟩

theorem rise_fixed (s : Shifter) : s.rise.mode = s.mode ∧ s.rise.cb1IsInput = s.cb1IsInput := by
  unfold Shifter.rise
  split
  · exact deliver_fixed s
  · exact ⟨rfl, rfl⟩

theorem count_fixed (s : Shifter) (level : Bool) :
    (s.count level).mode = s.mode ∧ (s.count level).cb1IsInput = s.cb1IsInput := by
  have hfall := fall_fixed s level
  unfold Shifter.count
  dsimp only
  split
  · exact ⟨(rise_fixed _).1.trans hfall.1, (rise_fixed _).2.trans hfall.2⟩
  · exact hfall

theorem half_fixed (s : Shifter) : s.half.mode = s.mode ∧ s.half.cb1IsInput = s.cb1IsInput := by
  unfold Shifter.half
  dsimp only
  split
  · split
    · split <;> exact ⟨rfl, rfl⟩
    · exact ⟨rfl, rfl⟩
  · exact ⟨rfl, rfl⟩

theorem start_fixed (s : Shifter) (rclk : Nat) :
    (s.start rclk).mode = s.mode ∧ (s.start rclk).cb1IsInput = s.cb1IsInput := by
  unfold Shifter.start
  repeat' split
  all_goals exact ⟨rfl, rfl⟩

theorem edge_fixed (s : Shifter) (level : Bool) :
    (s.edge level).mode = s.mode ∧ (s.edge level).cb1IsInput = s.cb1IsInput := by
  unfold Shifter.edge
  split
  · split
    · exact count_fixed s level
    · exact ⟨rfl, rfl⟩
  · exact ⟨rfl, rfl⟩

theorem t2Underflow_fixed (s : Shifter) (rclk : Nat) :
    (s.t2Underflow rclk).mode = s.mode ∧ (s.t2Underflow rclk).cb1IsInput = s.cb1IsInput := by
  unfold Shifter.t2Underflow
  split <;> exact ⟨rfl, rfl⟩

theorem apply_reset_cached (s : Shifter) : (Act.reset.apply s).Cached := by
  unfold Shifter.Cached Act.apply
  dsimp only

/-- Only a new mode and a reset change the direction of CB1, together with the mode. -/
theorem apply_cached {s : Shifter} (h : s.Cached) (a : Act) : (a.apply s).Cached := by
  have hfixed : ∀ {t : Shifter}, t.mode = s.mode ∧ t.cb1IsInput = s.cb1IsInput → t.Cached :=
    fun ht => ht.2.trans (h.trans (congrArg drivenByCb1 ht.1.symm))
  cases a with
  | idle => exact h
  | reset => exact apply_reset_cached s
  | clear flag => exact h
  | access rclk => exact hfixed (start_fixed s rclk)
  | select mode rclk => exact rfl
  | deliver => exact hfixed (deliver_fixed s)
  | edge level => exact hfixed (edge_fixed s level)
  | t2Underflow rclk => exact hfixed (t2Underflow_fixed s rclk)
  | t2Shift => exact hfixed (half_fixed s)
  | phi2Sr rclk => exact hfixed (half_fixed s)

theorem run_cached {v v' : Via} (h : (shifter v).Cached) {es : List Event}
    (hrun : run v es = some v') : (shifter v').Cached := by
  induction es generalizing v with
  | nil =>
    cases hrun
    exact h
  | cons e es ih =>
    obtain ⟨u, hu, hrest⟩ := run_cons hrun
    exact ih ((step_shifter h hu).1 ▸ apply_cached h _) hrest

theorem reset_cached (v : Via) (clk : Nat) : (shifter (viacoreReset v clk)).Cached := by
  rw [shifter_reset]
  exact apply_reset_cached _

end Vice.L4.ViaShifter
