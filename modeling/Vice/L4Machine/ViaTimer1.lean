import Mathlib.Algebra.Group.Nat.Defs
import Vice.L0Core.LazyClock

/-!
# Timer 1 of the VIA (`viacore.c`)

The timer is not stepped: `t1reload` says when it is or was loaded from the latch, and its value
follows from the clock. Its alarm sets the interrupt flag after the cycle in which it reads 0.

* `Timer1`, `timer1Machine`: the timer as the source computes it, with the registers it depends on.
* `Counter1`, `counter1Ticking`: the counter of the data sheet, which counts down every cycle through
  0 and $FFFF and is then loaded from the latch.

Of the other functions of the registers only those that share the interrupt flags or port B are
here. Clocks are natural numbers; 64 bits are enough for half a million years.
-/
namespace Vice.L4.ViaTimer1
open Vice.L0.LazyClock

/-- `VIA_IM_T1`, `VIA_IM_CB1`, `VIA_IM_CB2` -/
def imT1 : UInt8 := 0x40
def imCb1 : UInt8 := 0x10
def imCb2 : UInt8 := 0x08

/-- `FULL_CYCLE_2` -/
def fullCycle2 : Nat := 2

/-- The registers that timer 1 depends on or shares. -/
structure Registers where
  acr : UInt8
  pcr : UInt8
  ifr : UInt8
  ier : UInt8
  t1ll : UInt8
  t1lh : UInt8
  t1Pb7 : UInt8
  deriving DecidableEq, Repr

/-- `VIA_ACR_T1_FREE_RUN` -/
def Registers.freeRun (v : Registers) : Bool := v.acr &&& 0x40 != 0

/-- `VIA_ACR_T1_PB7_USED` -/
def Registers.pb7Used (v : Registers) : Bool := v.acr &&& 0x80 != 0

/-- The two halves of the latch. -/
def Registers.latch (v : Registers) : Nat := v.t1ll.toNat + v.t1lh.toNat * 2 ^ 8

def Registers.clearFlag (v : Registers) (mask : UInt8) : Registers :=
  { v with ifr := v.ifr &&& ~~~mask }

/-- `via_context_t`, as far as timer 1 goes. -/
structure Timer1 extends Registers where
  tal : Nat
  t1reload : Nat
  t1zero : Nat
  t1ZeroAlarm : Option Nat
  deriving DecidableEq, Repr

/-- mirrors src/core/viacore.c:218-228 (`viacore_t1`) -/
def viacoreT1 (v : Timer1) (rclk : Nat) : UInt16 :=
  if rclk < v.t1reload then UInt16.ofNat (v.t1reload - rclk + (2 ^ 16 - fullCycle2))
  else
    let fullCycle := v.tal + fullCycle2
    let timePastLastReload := rclk - v.t1reload
    UInt16.ofNat (v.tal + 2 ^ 16 - timePastLastReload % fullCycle)

/-- mirrors src/core/viacore.c:327-355 (`update_via_t1_latch`) -/
def updateViaT1Latch (v : Timer1) (rclk : Nat) : Timer1 :=
  let fullCycle := v.tal + fullCycle2
  let t1reload :=
    if v.t1reload ≤ rclk then v.t1reload + (1 + (rclk - v.t1reload) / fullCycle) * fullCycle
    else v.t1reload
  { v with t1reload := t1reload, tal := v.latch }

/-- mirrors src/core/viacore.c:1299-1330 (`viacore_t1_zero_alarm`) -/
def viacoreT1ZeroAlarm (v : Timer1) : Timer1 :=
  let v :=
    if v.freeRun then
      let fullCycle := v.tal + fullCycle2
      { v with
        t1zero := v.t1zero + fullCycle
        t1ZeroAlarm := some (v.t1zero + fullCycle)
        t1reload := v.t1reload + fullCycle }
    else { v with t1ZeroAlarm := none, t1zero := 0 }
  { v with t1Pb7 := v.t1Pb7 ^^^ 0x80, ifr := v.ifr ||| imT1 }

/-- An access to a register; what else there is on port B comes with the read of it. -/
inductive Access
  | readPrb (port : UInt8)
  | readT1cl
  | readT1ch
  | readT1ll
  | readT1lh
  | readIfr
  | writeT1l (byte : UInt8)
  | writeT1ch (byte : UInt8)
  | writeT1lh (byte : UInt8)
  | writeAcr (byte : UInt8)
  | writeIfr (byte : UInt8)
  deriving DecidableEq, Repr

/-- The flags that a read of port B clears. -/
def Registers.readPrb (v : Registers) : Registers :=
  let v := v.clearFlag imCb1
  if v.pcr &&& 0xa0 != 0x20 then v.clearFlag imCb2 else v

/-- Bit 7 of port B is the output of timer 1 where the timer uses it. -/
def Registers.portB (v : Registers) (port : UInt8) : UInt8 :=
  if v.pb7Used then (port &&& 0x7f) ||| v.t1Pb7 else port

/-- The interrupt flags, and whether one of them interrupts. -/
def Registers.flags (v : Registers) : UInt8 :=
  if v.ifr &&& v.ier != 0 then v.ifr ||| 0x80 else v.ifr

/-- PB7 goes high when the timer begins to use it. -/
def Registers.writeAcr (v : Registers) (byte : UInt8) : Registers :=
  let t1Pb7 := if (v.acr ^^^ byte) &&& byte &&& 0x80 != 0 then 0x80 else v.t1Pb7
  { v with acr := byte, t1Pb7 := t1Pb7 }

def lowByte (w : UInt16) : UInt8 := w.toUInt8
def highByte (w : UInt16) : UInt8 := (w >>> 8).toUInt8

/-- The cases of `viacore_read` and `viacore_store` that concern timer 1, after the alarms that are
due: mirrors src/core/viacore.c:735-777, 825-833, 849-857, 1117-1161, 1187-1205 and 978 -/
def timer1Access (rclk : Nat) (a : Access) (v : Timer1) : Timer1 × Option UInt8 :=
  match a with
  | .readPrb port =>
    let v := { v with toRegisters := v.toRegisters.readPrb }
    (v, some (v.portB port))
  | .readT1cl =>
    let v := { v with toRegisters := v.clearFlag imT1 }
    (v, some (lowByte (viacoreT1 v rclk)))
  | .readT1ch => (v, some (highByte (viacoreT1 v rclk)))
  | .readT1ll => (v, some v.t1ll)
  | .readT1lh => (v, some v.t1lh)
  | .readIfr => (v, some v.flags)
  | .writeT1l byte => (updateViaT1Latch { v with t1ll := byte } rclk, none)
  | .writeT1ch byte =>
    let v := updateViaT1Latch { v with t1lh := byte } rclk
    let v := { v with
      t1reload := rclk + 1 + v.tal + fullCycle2
      t1zero := rclk + 1 + v.tal
      t1ZeroAlarm := some (rclk + 1 + v.tal)
      t1Pb7 := 0 }
    ({ v with toRegisters := v.clearFlag imT1 }, none)
  | .writeT1lh byte =>
    let v := updateViaT1Latch { v with t1lh := byte } rclk
    ({ v with toRegisters := v.clearFlag imT1 }, none)
  | .writeAcr byte => ({ v with toRegisters := v.toRegisters.writeAcr byte }, none)
  | .writeIfr byte => ({ v with toRegisters := v.clearFlag byte }, none)

/-- Timer 1 with its alarm. -/
def timer1Machine : Machine Timer1 Access UInt8 where
  due := Timer1.t1ZeroAlarm
  handle := viacoreT1ZeroAlarm
  access := timer1Access

/-! ## The counter of the data sheet -/

/-- `underflowed` is the cycle behind 0, in which the counter stands at $FFFF; `loading` that the
counter was written in this cycle; `armed` that a write has allowed an interrupt that has not
come. -/
structure Counter1 extends Registers where
  counter : UInt16
  underflowed : Bool
  loading : Bool
  armed : Bool
  deriving DecidableEq, Repr

/-- The interrupt flag is set and PB7 toggles: once for each write in one-shot mode, at every
underflow in free-run mode. -/
def Counter1.timeOut (r : Counter1) : Counter1 :=
  if r.freeRun || r.armed then
    { r with
      ifr := r.ifr ||| imT1
      t1Pb7 := r.t1Pb7 ^^^ 0x80
      armed := r.freeRun && r.armed }
  else r

/-- The end of a cycle. -/
def Counter1.tick (r : Counter1) : Counter1 :=
  if r.loading || r.underflowed then
    { r with counter := UInt16.ofNat r.latch, loading := false, underflowed := false }
  else if r.counter = 0 then { r.timeOut with counter := 0xffff, underflowed := true }
  else { r with counter := r.counter - 1 }

def counter1Access (a : Access) (r : Counter1) : Counter1 × Option UInt8 :=
  match a with
  | .readPrb port =>
    let r := { r with toRegisters := r.toRegisters.readPrb }
    (r, some (r.portB port))
  | .readT1cl => ({ r with toRegisters := r.clearFlag imT1 }, some (lowByte r.counter))
  | .readT1ch => (r, some (highByte r.counter))
  | .readT1ll => (r, some r.t1ll)
  | .readT1lh => (r, some r.t1lh)
  | .readIfr => (r, some r.flags)
  | .writeT1l byte => ({ r with t1ll := byte }, none)
  | .writeT1ch byte =>
    let r := { r with t1lh := byte, t1Pb7 := 0, loading := true, armed := true }
    ({ r with toRegisters := r.clearFlag imT1 }, none)
  | .writeT1lh byte =>
    let r := { r with t1lh := byte }
    ({ r with toRegisters := r.clearFlag imT1 }, none)
  | .writeAcr byte => ({ r with toRegisters := r.toRegisters.writeAcr byte }, none)
  | .writeIfr byte => ({ r with toRegisters := r.clearFlag byte }, none)

def counter1Ticking : Ticking Counter1 Access UInt8 where
  access := counter1Access
  tick := Counter1.tick

end Vice.L4.ViaTimer1
