import Mathlib.Logic.Function.Basic
import Vice.L4Machine.ViaTimer2

/-!
# The VIA (`viacore.c`)

The whole chip: ports with their control lines, both timers, the shift register and the interrupt
flags. What it calls of the drive or machine it is part of is collected in `out`, the last call
first; what these callbacks answer comes with the access.

`run_pending_alarms` is not a loop here. An access to a register that needs it is possible when no
alarm is left from before, and the alarms are steps of their own. The two stores of a
read-modify-write instruction are two steps likewise. `set_cb1` and `sr_underflow` count as set.
-/
namespace Vice.L4.ViaCore
open Vice.L4.ViaTimer1 (lowByte highByte fullCycle2 imT1 imCb1 imCb2)
open Vice.L4.ViaTimer2 (isT2PulseCounting isSrT2Controlled)

/-- `VIA_IM_T2`, `VIA_IM_SR`, `VIA_IM_CA1`, `VIA_IM_CA2` -/
def imT2 : UInt8 := 0x20
def imSr : UInt8 := 0x04
def imCa1 : UInt8 := 0x02
def imCa2 : UInt8 := 0x01

/-- Some of the registers. -/
def viaPrb : Nat := 0
def viaPra : Nat := 1
def viaDdrb : Nat := 2
def viaDdra : Nat := 3
def viaT1ll : Nat := 6
def viaT1lh : Nat := 7
def viaT2ll : Nat := 8
def viaT2lh : Nat := 9
def viaSr : Nat := 10
def viaAcr : Nat := 11
def viaPcr : Nat := 12
def viaPraNhs : Nat := 15

def startShifting : UInt8 := 0
def finishedShifting : UInt8 := 16

/-- `VIA_ACR_SR_CONTROL`: the mode of the shift register -/
def srControl (acr : UInt8) : UInt8 := acr &&& 0x1c

def srDisabled : UInt8 := 0x00
def srInPhi2 : UInt8 := 0x08
def srInCb1 : UInt8 := 0x0c
def srOutFreeT2 : UInt8 := 0x10
def srOutPhi2 : UInt8 := 0x18
def srOutCb1 : UInt8 := 0x1c

/-- The callbacks. -/
inductive Output
  | setInt (value : Bool) (rclk : Nat)
  | setCa2 (state : Bool)
  | setCb1 (state : Bool)
  | setCb2 (state : Bool) (offset : Nat)
  | storePra (byte oldpa : UInt8) (addr : Nat)
  | storePrb (byte oldpb : UInt8) (addr : Nat)
  | storeSr (byte : UInt8)
  | storeT2l (byte : UInt8)
  | storeAcr (byte : UInt8)
  | storePcr (byte : UInt8) (addr : Nat)
  | srUnderflow
  | reset
  deriving DecidableEq, Repr

/-- mirrors src/via.h:148-224 (`via_context_t`): an alarm is the clock it is pending for. -/
structure Via where
  via : Nat → UInt8
  ifr : UInt8
  ier : UInt8
  tal : Nat
  t2cl : UInt8
  t2ch : UInt8
  t1reload : Nat
  t2zero : Nat
  t1zero : Nat
  t2xx00 : Bool
  t1Pb7 : UInt8
  oldpa : UInt8
  oldpb : UInt8
  ca2OutState : Bool
  cb1InState : Bool
  cb1OutState : Bool
  cb2InState : Bool
  cb2OutState : Bool
  cb1IsInput : Bool
  cb2IsInput : Bool
  shiftState : UInt8
  t1ZeroAlarm : Option Nat
  t2ZeroAlarm : Option Nat
  t2UnderflowAlarm : Option Nat
  t2ShiftAlarm : Option Nat
  phi2SrAlarm : Option Nat
  lastRead : UInt8
  t2IrqAllowed : Bool
  writeOffset : Nat
  enabled : Bool
  out : List Output

def Via.acr (v : Via) : UInt8 := v.via viaAcr
def Via.pcr (v : Via) : UInt8 := v.via viaPcr

def Via.setReg (v : Via) (addr : Nat) (byte : UInt8) : Via :=
  { v with via := Function.update v.via addr byte }

def Via.emit (v : Via) (o : Output) : Via := { v with out := o :: v.out }

def Via.raise (v : Via) (mask : UInt8) : Via := { v with ifr := v.ifr ||| mask }
def Via.clear (v : Via) (mask : UInt8) : Via := { v with ifr := v.ifr &&& ~~~mask }

def Via.setCa2 (v : Via) (state : Bool) : Via :=
  { v with ca2OutState := state }.emit (.setCa2 state)

def Via.setCb2 (v : Via) (state : Bool) (offset : Nat) : Via :=
  { v with cb2OutState := state }.emit (.setCb2 state offset)

/-- mirrors src/core/viacore.c:203-209 (`update_myviairq_rclk`) -/
def updateMyviairqRclk (v : Via) (rclk : Nat) : Via :=
  v.emit (.setInt (v.ifr &&& v.ier &&& 0x7f != 0) rclk)

/-! ## The timers -/

/-- Timer 1 of the chip. -/
def Via.timer1 (v : Via) : ViaTimer1.Timer1 where
  acr := v.acr
  pcr := v.pcr
  ifr := v.ifr
  ier := v.ier
  t1ll := v.via viaT1ll
  t1lh := v.via viaT1lh
  t1Pb7 := v.t1Pb7
  tal := v.tal
  t1reload := v.t1reload
  t1zero := v.t1zero
  t1ZeroAlarm := v.t1ZeroAlarm

/-- Timer 2 of the chip. -/
def Via.timer2 (v : Via) : ViaTimer2.Timer2 where
  acr := v.acr
  t2ll := v.via viaT2ll
  irq := v.ifr &&& imT2 != 0
  t2IrqAllowed := v.t2IrqAllowed
  t2cl := v.t2cl
  t2ch := v.t2ch
  t2zero := v.t2zero
  t2xx00 := v.t2xx00
  t2ZeroAlarm := v.t2ZeroAlarm
  t2UnderflowAlarm := v.t2UnderflowAlarm

/-- mirrors src/core/viacore.c:265-276 (`viacore_t1`) -/
def viacoreT1 (v : Via) (rclk : Nat) : UInt16 := ViaTimer1.viacoreT1 v.timer1 rclk

/-- mirrors src/core/viacore.c:305-325 (`viacore_t2`) -/
def viacoreT2 (v : Via) (rclk : Nat) : UInt16 := ViaTimer2.viacoreT2 v.timer2 rclk

/-- mirrors src/core/viacore.c:334-355 (`update_via_t1_latch`) -/
def updateViaT1Latch (v : Via) (rclk : Nat) : Via :=
  let t := ViaTimer1.updateViaT1Latch v.timer1 rclk
  { v with t1reload := t.t1reload, tal := t.tal }

/-- mirrors src/core/viacore.c:551-560 (`schedule_t2_zero_alarm`) -/
def scheduleT2ZeroAlarm (v : Via) (rclk : Nat) : Via :=
  { v with
    t2zero := rclk + v.t2cl.toNat
    t2xx00 := true
    t2UnderflowAlarm := none
    t2ZeroAlarm := some (rclk + v.t2cl.toNat) }

/-- mirrors src/core/viacore.c:1299-1330 (`viacore_t1_zero_alarm`) -/
def viacoreT1ZeroAlarm (v : Via) (rclk : Nat) : Via :=
  let v :=
    if v.acr &&& 0x40 == 0 then { v with t1ZeroAlarm := none, t1zero := 0 }
    else
      let fullCycle := v.tal + fullCycle2
      { v with
        t1zero := v.t1zero + fullCycle
        t1ZeroAlarm := some (v.t1zero + fullCycle)
        t1reload := v.t1reload + fullCycle }
  updateMyviairqRclk ({ v with t1Pb7 := v.t1Pb7 ^^^ 0x80 }.raise imT1) (rclk + 1)

/-- mirrors src/core/viacore.c:1542-1574 (`viacore_t2_zero_alarm`) -/
def viacoreT2ZeroAlarm (v : Via) (rclk : Nat) : Via :=
  let v := { v with t2ch := v.t2ch - 1 }
  let v :=
    if v.t2ch == 0xff && v.t2IrqAllowed then
      { updateMyviairqRclk (v.raise imT2) rclk with t2IrqAllowed := false }
    else v
  { v with t2ZeroAlarm := none, t2UnderflowAlarm := some (rclk + 1) }

/-- mirrors src/core/viacore.c:1581-1639 (`viacore_t2_underflow_alarm`) -/
def viacoreT2UnderflowAlarm (v : Via) (rclk : Nat) : Via :=
  let (v, nextAlarm) :=
    if isSrT2Controlled v.acr then
      ({ v with t2cl := v.via viaT2ll, t2ShiftAlarm := some (rclk + 1) },
        (v.via viaT2ll).toNat + fullCycle2)
    else ({ v with t2cl := 0xff }, if v.t2ch != 0xff then 256 else 0)
  let v :=
    if nextAlarm ≠ 0 then
      { v with
        t2zero := v.t2zero + nextAlarm
        t2xx00 := true
        t2ZeroAlarm := some (v.t2zero + nextAlarm) }
    else { v with t2ZeroAlarm := none, t2xx00 := false }
  { v with t2UnderflowAlarm := none }

/-! ## The shift register -/

/-- mirrors src/core/viacore.c:569-626 (`setup_shifting`) -/
def setupShifting (v : Via) (rclk : Nat) : Via :=
  let mode := srControl v.acr
  if mode == srDisabled then v
  else if mode == srInPhi2 || mode == srOutPhi2 then
    if v.shiftState == finishedShifting then
      { v with shiftState := startShifting, phi2SrAlarm := some (rclk + 1) }
    else v
  else if mode == srOutFreeT2 then { v with shiftState := v.shiftState &&& 0x0f }
  else if v.shiftState == finishedShifting then { v with shiftState := startShifting }
  else v

/-- mirrors src/core/viacore.c:1511-1523 (`viacore_set_sr`) -/
def viacoreSetSr (v : Via) (data : UInt8) (clk : Nat) : Via :=
  if v.acr &&& 0x10 == 0 && v.acr &&& 0x0c != 0 then
    { updateMyviairqRclk ((v.setReg viaSr data).raise imSr) clk with
      shiftState := finishedShifting }
  else v

/-- The two halves of a bit, mirrors src/core/viacore.c:1716-1764. -/
def shiftBit (v : Via) (offset : Nat) : Via :=
  let shiftOut := v.acr &&& 0x10 != 0
  if v.shiftState &&& 1 == 0 then
    let v := if !v.cb1IsInput then v.emit (.setCb1 false) else v
    if shiftOut then
      let cb2 := v.via viaSr >>> 7 &&& 1
      (v.setReg viaSr (v.via viaSr <<< 1 ||| cb2)).setCb2 (cb2 != 0) offset
    else v
  else
    let v := if !v.cb1IsInput then v.emit (.setCb1 true) else v
    if !shiftOut then v.setReg viaSr (v.via viaSr <<< 1 ||| v.cb2InState.toUInt8) else v

/-- mirrors src/core/viacore.c:1685-1793 (`do_shiftregister`) -/
def doShiftregister (v : Via) (rclk offset : Nat) : Via :=
  if v.shiftState < finishedShifting then
    let v := shiftBit v offset
    let v := { v with shiftState := v.shiftState + 1 }
    if v.shiftState == finishedShifting then
      if srControl v.acr == srOutFreeT2 then { v with shiftState := startShifting }
      else (updateMyviairqRclk (v.raise imSr) rclk).emit .srUnderflow
    else v
  else v

/-- mirrors src/core/viacore.c:1668-1683 (`viacore_t2_shift_alarm`) -/
def viacoreT2ShiftAlarm (v : Via) (rclk offset : Nat) : Via :=
  { doShiftregister v rclk offset with t2ShiftAlarm := none }

/-- mirrors src/core/viacore.c:1796-1815 (`viacore_phi2_sr_alarm`); `SR_PHI2_NEXT_OFFSET` is 1. -/
def viacorePhi2SrAlarm (v : Via) (rclk offset : Nat) : Via :=
  { doShiftregister v rclk offset with phi2SrAlarm := some (rclk + 1) }

/-! ## The control lines -/

/-- `IS_CA2_INDINPUT` and the other macros, of the peripheral control register -/
def isCa2Indinput (pcr : UInt8) : Bool := pcr &&& 0x0a == 0x02
def isCa2Handshake (pcr : UInt8) : Bool := pcr &&& 0x0c == 0x08
def isCa2PulseMode (pcr : UInt8) : Bool := pcr &&& 0x0e == 0x0a
def isCa2ToggleMode (pcr : UInt8) : Bool := pcr &&& 0x0e == 0x08
def isCb2Indinput (pcr : UInt8) : Bool := pcr &&& 0xa0 == 0x20
def isCb2Handshake (pcr : UInt8) : Bool := pcr &&& 0xc0 == 0x80
def isCb2PulseMode (pcr : UInt8) : Bool := pcr &&& 0xe0 == 0xa0
def isCb2ToggleMode (pcr : UInt8) : Bool := pcr &&& 0xe0 == 0x80

/-- mirrors src/core/viacore.c:1338-1366 (`set_cb2_output_state`) -/
def setCb2OutputState (v : Via) (pcr : UInt8) (offset : Nat) : Via :=
  let mode := pcr &&& 0xe0
  if mode &&& 0x80 == 0 then v.setCb2 true offset else v.setCb2 (mode != 0xc0) offset

/-- mirrors src/core/viacore.c:1375-1406 (`viacore_cache_cb12_io_status`) -/
def viacoreCacheCb12IoStatus (v : Via) : Via :=
  let cb1DrivesShifting :=
    srControl v.acr &&& 0x0c == srInCb1 || srControl v.acr == srDisabled
  let srIsInput := v.acr &&& 0x10 == 0 && srControl v.acr != srDisabled
  let cb2IsInput := v.pcr &&& 0x80 == 0
  let v := { v with cb1IsInput := cb1DrivesShifting, cb2IsInput := srIsInput || cb2IsInput }
  if !v.cb1IsInput && v.shiftState == finishedShifting then v.emit (.setCb1 true) else v

/-- mirrors src/core/viacore.c:1424-1426 -/
def startCb1 (v : Via) (data : Bool) : Via :=
  if !data && v.shiftState == finishedShifting then { v with shiftState := startShifting } else v

/-- mirrors src/core/viacore.c:1432-1439 -/
def shiftInCb1 (v : Via) (clk : Nat) : Via :=
  let v := v.setReg viaSr (v.via viaSr <<< 1 ||| v.cb2InState.toUInt8)
  if v.shiftState == finishedShifting then
    { viacoreSetSr v (v.via viaSr) clk with shiftState := startShifting }
  else v

/-- What an edge of CB1 does to the shift register when CB1 is an input: mirrors
src/core/viacore.c:1422-1460. -/
def countCb1 (v : Via) (data : Bool) (clk : Nat) : Via :=
  let v := startCb1 v data
  let v := { v with shiftState := v.shiftState + 1 }
  if data then shiftInCb1 v clk else v

/-- The interrupt that a level of CB1 is for, changed or not: mirrors
src/core/viacore.c:1470-1489. -/
def signalCb1 (v : Via) (data : Bool) (clk : Nat) : Via :=
  if data == (v.pcr &&& 0x10 == 0x10) then
    let v := if isCb2ToggleMode v.pcr && !v.cb2OutState then v.setCb2 true 0 else v
    updateMyviairqRclk (v.raise imCb1) clk
  else v

/-- mirrors src/core/viacore.c:1416-1489 (`viacore_set_cb1`) -/
def viacoreSetCb1 (v : Via) (data : Bool) (clk : Nat) : Via :=
  let v :=
    if data != v.cb1InState then
      { (if v.cb1IsInput then countCb1 v data clk else v) with cb1InState := data }
    else v
  signalCb1 v data clk

/-- mirrors src/core/viacore.c:1491-1506 (`viacore_set_cb2`) -/
def viacoreSetCb2 (v : Via) (data : Bool) (clk : Nat) : Via :=
  if v.cb2IsInput && data != v.cb2InState then
    let v := { v with cb2InState := data }
    if data == (v.pcr &&& 0x40 != 0) then updateMyviairqRclk (v.raise imCb2) clk else v
  else v

inductive Line
  | ca1
  | ca2
  | cb1
  | cb2
  deriving DecidableEq, Repr

/-- mirrors src/core/viacore.c:435-470 (`viacore_signal`) -/
def viacoreSignal (v : Via) (line : Line) (edge : Bool) (clk : Nat) : Via :=
  match line with
  | .ca1 =>
    if edge == (v.pcr &&& 0x01 == 1) then
      let v := if isCa2ToggleMode v.pcr && !v.ca2OutState then v.setCa2 true else v
      updateMyviairqRclk (v.raise imCa1) clk
    else v
  | .ca2 =>
    if v.pcr &&& 0x08 == 0 then
      updateMyviairqRclk
        (v.raise (if (edge.toUInt8 <<< 2 ^^^ v.pcr) &&& 0x04 != 0 then 0 else imCa2)) clk
    else v
  | .cb1 => viacoreSetCb1 v edge clk
  | .cb2 => viacoreSetCb2 v edge clk

/-! ## Stores -/

/-- The two flags of port A: mirrors src/core/viacore.c:662-665 and 1071-1076. -/
def clearCa (v : Via) : Via :=
  let v := v.clear imCa1
  if !isCa2Indinput v.pcr then v.clear imCa2 else v

/-- mirrors src/core/viacore.c:666-674 and 1077-1084 -/
def handshakeCa2 (v : Via) : Via :=
  if isCa2Handshake v.pcr then
    let v := v.setCa2 false
    if isCa2PulseMode v.pcr then v.setCa2 true else v
  else v

/-- The line is left alone when none of the flags can have reached it. -/
def updateIfEnabled (v : Via) (mask : UInt8) (rclk : Nat) : Via :=
  if v.ier &&& mask != 0 then updateMyviairqRclk v rclk else v

/-- What reading and writing port A does to its control lines: mirrors
src/core/viacore.c:662-677 and 1071-1087. -/
def accessPra (v : Via) (rclk : Nat) : Via :=
  updateIfEnabled (handshakeCa2 (clearCa v)) (imCa1 ||| imCa2) rclk

/-- The two flags of port B: mirrors src/core/viacore.c:693-696 and 1121-1126. -/
def clearCb (v : Via) : Via :=
  let v := v.clear imCb1
  if !isCb2Indinput v.pcr then v.clear imCb2 else v

/-- mirrors src/core/viacore.c:697-705 -/
def handshakeCb2 (v : Via) : Via :=
  if isCb2Handshake v.pcr then
    let v := v.setCb2 false v.writeOffset
    if isCb2PulseMode v.pcr then v.setCb2 true 0 else v
  else v

/-- mirrors src/core/viacore.c:685-690: the port is driven where it is an output. -/
def storePortA (v : Via) (addr : Nat) (byte : UInt8) : Via :=
  let v := v.setReg addr byte
  let byte := v.via viaPra ||| ~~~v.via viaDdra
  { v.emit (.storePra byte v.oldpa addr) with oldpa := byte }

/-- mirrors src/core/viacore.c:692-709 -/
def storePrb (v : Via) (rclk : Nat) : Via :=
  updateIfEnabled (handshakeCb2 (clearCb v)) (imCb1 ||| imCb2) rclk

/-- mirrors src/core/viacore.c:711-719 -/
def storePortB (v : Via) (addr : Nat) (byte : UInt8) : Via :=
  let v := v.setReg addr byte
  let byte := v.via viaPrb ||| ~~~v.via viaDdrb
  let byte := if v.acr &&& 0x80 != 0 then byte &&& 0x7f ||| v.t1Pb7 else byte
  { v.emit (.storePrb byte v.oldpb addr) with oldpb := byte }

/-- What reading and writing the shift register has in common: mirrors
src/core/viacore.c:724-728 and 1177-1181. -/
def accessSr (v : Via) (rclk : Nat) : Via :=
  let v := setupShifting v rclk
  if v.ifr &&& imSr != 0 then updateMyviairqRclk (v.clear imSr) rclk else v

/-- mirrors src/core/viacore.c:741-763 -/
def storeT1ch (v : Via) (rclk : Nat) (byte : UInt8) : Via :=
  let v := updateViaT1Latch (v.setReg viaT1lh byte) rclk
  let v := { v with
    t1reload := rclk + 1 + v.tal + fullCycle2
    t1zero := rclk + 1 + v.tal
    t1ZeroAlarm := some (rclk + 1 + v.tal)
    t1Pb7 := 0 }
  updateMyviairqRclk (v.clear imT1) rclk

/-- mirrors src/core/viacore.c:793-822 -/
def storeT2ch (v : Via) (rclk : Nat) (byte : UInt8) : Via :=
  let v := v.setReg viaT2lh byte
  let v := { v with t2cl := v.via viaT2ll, t2ch := byte }
  let v := if !isT2PulseCounting v.acr then scheduleT2ZeroAlarm v (rclk + 1) else v
  { updateMyviairqRclk (v.clear imT2) rclk with t2IrqAllowed := true }

/-- The shift register when its mode is written: mirrors src/core/viacore.c:922-960, less the
restart of timer 2. `SR_PHI2_FIRST_OFFSET` is 3. -/
def selectSrMode (v : Via) (rclk : Nat) (byte : UInt8) : Via :=
  let mode := srControl byte
  if mode == srDisabled then
    let v := { v with phi2SrAlarm := none }
    let v := if v.ifr &&& imSr != 0 then updateMyviairqRclk (v.clear imSr) rclk else v
    setCb2OutputState v v.pcr v.writeOffset
  else if mode == srInPhi2 || mode == srOutPhi2 then
    if v.phi2SrAlarm.isNone then { v with phi2SrAlarm := some (rclk + 3) } else v
  else { v with phi2SrAlarm := none }

/-- mirrors src/core/viacore.c:851-856 -/
def risePb7 (v : Via) (byte : UInt8) : Via :=
  if (v.acr ^^^ byte) &&& 0x80 != 0 && byte &&& 0x80 != 0 then { v with t1Pb7 := 0x80 } else v

/-- Bit 5 switches between counting cycles and counting pulses, of which there are none: mirrors
src/core/viacore.c:882-898. -/
def stopTimer2 (v : Via) (rclk : Nat) (byte : UInt8) : Via :=
  if (v.acr ^^^ byte) &&& 0x20 != 0 && isT2PulseCounting byte then
    let stop := viacoreT2 v rclk - 1
    { v with t2cl := lowByte stop, t2ch := highByte stop, t2ZeroAlarm := none, t2xx00 := false }
  else v

/-- mirrors src/core/viacore.c:907-919, 944-949 and 962-974 -/
def restartTimer2 (v : Via) (rclk : Nat) (byte : UInt8) : Via :=
  let started := (v.acr ^^^ byte) &&& 0x20 != 0 && !isT2PulseCounting byte
  let needed := isSrT2Controlled byte && !isSrT2Controlled v.acr && !isT2PulseCounting byte
  if (started || needed) && v.t2ZeroAlarm.isNone && v.t2UnderflowAlarm.isNone then
    let current := viacoreT2 v rclk
    let delay := if started then 1 else 0
    scheduleT2ZeroAlarm { v with t2cl := lowByte current, t2ch := highByte current } (rclk + delay)
  else v

/-- mirrors src/core/viacore.c:848-980 -/
def storeAcr (v : Via) (rclk : Nat) (byte : UInt8) : Via :=
  let v := stopTimer2 (risePb7 v byte) rclk byte
  let v := restartTimer2 (selectSrMode v rclk byte) rclk byte
  (viacoreCacheCb12IoStatus (v.setReg viaAcr byte)).emit (.storeAcr byte)

/-- mirrors src/core/viacore.c:982-1012 -/
def storePcr (v : Via) (byte : UInt8) : Via :=
  let v := v.setCa2 (byte &&& 0x0e != 0x0c)
  let v :=
    if srControl v.acr == srDisabled then setCb2OutputState v byte v.writeOffset else v
  viacoreCacheCb12IoStatus ((v.emit (.storePcr byte viaPcr)).setReg viaPcr byte)

/-- mirrors src/core/viacore.c:631-1018 (`viacore_store`), behind the pending alarms. -/
def viacoreStore (v : Via) (clk addr : Nat) (byte : UInt8) : Via :=
  let rclk := clk - v.writeOffset
  match addr % 16 with
  | 0 => storePortB (storePrb v rclk) viaPrb byte
  | 1 => storePortA ((accessPra v rclk).setReg viaPraNhs byte) viaPra byte
  | 2 => storePortB v viaDdrb byte
  | 3 => storePortA v viaDdra byte
  | 5 => storeT1ch v rclk byte
  | 7 => updateMyviairqRclk ((updateViaT1Latch (v.setReg viaT1lh byte) rclk).clear imT1) rclk
  | 8 => (v.setReg viaT2ll byte).emit (.storeT2l byte)
  | 9 => storeT2ch v rclk byte
  | 10 => (accessSr (v.setReg viaSr byte) rclk).emit (.storeSr byte)
  | 11 => storeAcr v rclk byte
  | 12 => storePcr v byte
  | 13 => updateMyviairqRclk (v.clear byte) rclk
  | 14 =>
    updateMyviairqRclk
      { v with ier := if byte &&& 0x80 != 0 then v.ier ||| byte &&& 0x7f else v.ier &&& ~~~byte }
      rclk
  | 15 => storePortA (v.setReg viaPraNhs byte) viaPra byte
  | _ => updateViaT1Latch (v.setReg viaT1ll byte) rclk

/-! ## Reads -/

/-- A read of timer 1 or 2 acknowledges it. -/
def acknowledge (v : Via) (mask : UInt8) (rclk : Nat) : Via :=
  updateMyviairqRclk (v.clear mask) rclk

/-- mirrors src/core/viacore.c:1117-1149: what there is on the port is `port`. -/
def readPrb (v : Via) (rclk : Nat) (port : UInt8) : Via × UInt8 :=
  let v := updateIfEnabled (clearCb v) (imCb1 ||| imCb2) rclk
  let byte := port &&& ~~~v.via viaDdrb ||| v.via viaPrb &&& v.via viaDdrb
  (v, if v.acr &&& 0x80 != 0 then byte &&& 0x7f ||| v.t1Pb7 else byte)

/-- mirrors src/core/viacore.c:1026-1207 (`viacore_read`), behind the pending alarms; `port` is what
`read_pra` or `read_prb` answers. -/
def viacoreRead (v : Via) (clk addr : Nat) (port : UInt8) : Via × UInt8 :=
  let (v, byte) :=
    match addr % 16 with
    | 0 => readPrb v clk port
    | 1 => (accessPra v clk, port)
    | 4 => let v := acknowledge v imT1 clk; (v, lowByte (viacoreT1 v clk))
    | 5 => (v, highByte (viacoreT1 v clk))
    | 8 => let v := acknowledge v imT2 clk; (v, lowByte (viacoreT2 v clk))
    | 9 => (v, highByte (viacoreT2 v clk))
    | 10 => let v := accessSr v clk; (v, v.via viaSr)
    | 13 => (v, if v.ifr &&& v.ier != 0 then v.ifr ||| 0x80 else v.ifr)
    | 14 => (v, v.ier ||| 0x80)
    | 15 => (v, port)
    | addr => (v, v.via addr)
  ({ v with lastRead := byte }, byte)

/-- mirrors src/core/viacore.c:372-433 (`viacore_reset`) -/
def viacoreReset (v : Via) (clk : Nat) : Via :=
  let v := { v with
    via := fun i => if i < 4 ∨ 11 ≤ i then 0 else v.via i
    tal := 0xffff
    t2cl := 0xff
    t2ch := 0xff
    t1reload := clk
    t2zero := clk
    ier := 0
    ifr := 0
    t1Pb7 := 0x80
    shiftState := finishedShifting
    t2IrqAllowed := false
    t1zero := 0
    t2xx00 := false
    t1ZeroAlarm := none
    t2ZeroAlarm := none
    t2UnderflowAlarm := none
    t2ShiftAlarm := none
    phi2SrAlarm := none }
  let v := updateMyviairqRclk v clk
  let v := { v with oldpa := 0, oldpb := 0, cb1OutState := true }
  let v := ((v.setCa2 true).setCb2 true 0).emit .reset
  { viacoreCacheCb12IoStatus v with enabled := true }

/-- mirrors src/core/viacore.c:1817-1847 (`viacore_setup_context`): the rest is cleared memory. -/
def viacoreSetupContext : Via where
  via i := if i = 5 ∨ i = 7 then 223 else if 4 ≤ i ∧ i ≤ 9 then 0xff else 0
  ifr := 0
  ier := 0
  tal := 0
  t2cl := 0
  t2ch := 0
  t1reload := 0
  t2zero := 0
  t1zero := 0
  t2xx00 := false
  t1Pb7 := 0
  oldpa := 0
  oldpb := 0
  ca2OutState := false
  cb1InState := true
  cb1OutState := false
  cb2InState := true
  cb2OutState := false
  cb1IsInput := false
  cb2IsInput := false
  shiftState := 0
  t1ZeroAlarm := none
  t2ZeroAlarm := none
  t2UnderflowAlarm := none
  t2ShiftAlarm := none
  phi2SrAlarm := none
  lastRead := 0
  t2IrqAllowed := false
  writeOffset := 1
  enabled := false
  out := []

/-! ## Runs -/

inductive Alarm
  | t1Zero
  | t2Zero
  | t2Underflow
  | t2Shift
  | phi2Sr
  deriving DecidableEq, Repr

def Alarm.all : List Alarm := [.t1Zero, .t2Zero, .t2Underflow, .t2Shift, .phi2Sr]

def Via.alarmClk (v : Via) : Alarm → Option Nat
  | .t1Zero => v.t1ZeroAlarm
  | .t2Zero => v.t2ZeroAlarm
  | .t2Underflow => v.t2UnderflowAlarm
  | .t2Shift => v.t2ShiftAlarm
  | .phi2Sr => v.phi2SrAlarm

/-- The alarm for the clock `rclk` is called `offset` cycles late. -/
def Via.dispatch (v : Via) (a : Alarm) (rclk offset : Nat) : Via :=
  match a with
  | .t1Zero => viacoreT1ZeroAlarm v rclk
  | .t2Zero => viacoreT2ZeroAlarm v rclk
  | .t2Underflow => viacoreT2UnderflowAlarm v rclk
  | .t2Shift => viacoreT2ShiftAlarm v rclk offset
  | .phi2Sr => viacorePhi2SrAlarm v rclk offset

/-- No alarm is pending for a clock before `clk`. -/
def Via.noneBefore (v : Via) (clk : Nat) : Bool :=
  Alarm.all.all fun a => (v.alarmClk a).all (clk ≤ ·)

/-- The registers whose accesses begin with `run_pending_alarms`. -/
def runsAlarms (addr : Nat) : Bool := addr % 16 = viaPrb ∨ (4 ≤ addr % 16 ∧ addr % 16 ≤ 14)

inductive Event
  | reset (clk : Nat)
  | signal (line : Line) (edge : Bool) (clk : Nat)
  | setSr (data : UInt8) (clk : Nat)
  | store (clk addr : Nat) (byte : UInt8)
  /-- The first store of a read-modify-write instruction: the byte that was read. -/
  | rmwStore (clk addr : Nat)
  | read (clk addr : Nat) (port : UInt8)
  | alarm (a : Alarm) (clk : Nat)
  deriving DecidableEq, Repr

/-- `none` where the event cannot come next. -/
def step (v : Via) : Event → Option Via
  | .reset clk => some (viacoreReset v clk)
  | .signal line edge clk => some (viacoreSignal v line edge clk)
  | .setSr data clk => some (viacoreSetSr v data clk)
  | .store clk addr byte =>
    if runsAlarms addr && !v.noneBefore (clk - v.writeOffset) then none
    else some (viacoreStore v clk addr byte)
  | .rmwStore clk addr =>
    if runsAlarms addr && !v.noneBefore (clk - v.writeOffset) then none
    else some (viacoreStore v clk addr v.lastRead)
  | .read clk addr port =>
    if runsAlarms addr && !v.noneBefore clk then none
    else some (viacoreRead v clk addr port).1
  | .alarm a clk =>
    (v.alarmClk a).bind fun rclk =>
      if rclk ≤ clk ∧ v.noneBefore rclk then some (v.dispatch a rclk (clk - rclk)) else none

def run (v : Via) (es : List Event) : Option Via := es.foldlM step v

section
variable {v v' : Via} {clk addr : Nat}

theorem step_store {byte : UInt8} (h : step v (.store clk addr byte) = some v') :
    viacoreStore v clk addr byte = v' :=
  Option.some.inj (Option.ite_none_left_eq_some.mp h).2

theorem step_rmwStore (h : step v (.rmwStore clk addr) = some v') : viacoreStore v clk addr v.lastRead = v' :=
  Option.some.inj (Option.ite_none_left_eq_some.mp h).2

theorem step_read {port : UInt8} (h : step v (.read clk addr port) = some v') :
    (viacoreRead v clk addr port).1 = v' :=
  Option.some.inj (Option.ite_none_left_eq_some.mp h).2

theorem step_alarm {a : Alarm} (h : step v (.alarm a clk) = some v') :
    ∃ rclk, v.alarmClk a = some rclk ∧ rclk ≤ clk ∧ v.dispatch a rclk (clk - rclk) = v' := by
  obtain ⟨rclk, hpending, hdispatch⟩ := Option.bind_eq_some_iff.mp h
  obtain ⟨hdue, heq⟩ := Option.ite_none_right_eq_some.mp hdispatch
  exact ⟨rclk, hpending, hdue.1, Option.some.inj heq⟩

theorem run_cons {e : Event} {es : List Event} (h : run v (e :: es) = some v') :
    ∃ u, step v e = some u ∧ run u es = some v' :=
  Option.bind_eq_some_iff.mp h

theorem run_append {pre es : List Event} (h : run v (pre ++ es) = some v') :
    ∃ u, run v pre = some u ∧ run u es = some v' := by
  rw [run, List.foldlM_append] at h
  exact Option.bind_eq_some_iff.mp h

end

end Vice.L4.ViaCore
