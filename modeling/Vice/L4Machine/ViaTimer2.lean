import Vice.L4Machine.ViaTimer1

/-!
# Timer 2 of the VIA (`viacore.c`)

The high byte of the timer is stepped by two alarms, one after the cycle that reads xx00 and one
after the next, in which it reads xxFF; the low byte follows from the clock. When nothing depends on
the steps any more there is no alarm and all 16 bits follow from the clock.

* `Timer2`, `timer2Machine`: the timer as the source computes it.
* `Counter2`, `counter2Ticking`: a counter that counts down every cycle in timer mode, loads its low
  byte from the latch behind xxFF when the shift register is under its control, and stands still
  when it counts pulses on PB6, of which the emulation has none.

The shift register is here as the mode that it puts the timer in; of the interrupt flags there is the
timer's own.
-/
namespace Vice.L4.ViaTimer2
open Vice.L0.LazyClock
open Vice.L4.ViaTimer1 (lowByte highByte fullCycle2)

/-- The registers that timer 2 depends on, with its interrupt flag (`VIA_IM_T2` of `ifr`). -/
structure Control where
  acr : UInt8
  t2ll : UInt8
  irq : Bool
  t2IrqAllowed : Bool
  deriving DecidableEq, Repr

/-- `IS_T2_PULSE_COUNTING` -/
def isT2PulseCounting (acr : UInt8) : Bool := acr &&& 0x20 == 0x20

/-- `IS_SR_T2_CONTROLLED`: shift in or out under control of timer 2, or free running -/
def isSrT2Controlled (acr : UInt8) : Bool := acr &&& 0x0c == 0x04 || acr &&& 0x1c == 0x10

/-- `via_context_t`, as far as timer 2 goes. -/
structure Timer2 extends Control where
  t2cl : UInt8
  t2ch : UInt8
  t2zero : Nat
  t2xx00 : Bool
  t2ZeroAlarm : Option Nat
  t2UnderflowAlarm : Option Nat
  deriving DecidableEq, Repr

def word (high low : UInt8) : UInt16 := high.toUInt16 <<< 8 ||| low.toUInt16

/-- mirrors src/core/viacore.c:305-325 (`viacore_t2`) -/
def viacoreT2 (v : Timer2) (rclk : Nat) : UInt16 :=
  if isT2PulseCounting v.acr then word v.t2ch v.t2cl
  else
    let t2 := UInt16.ofNat v.t2zero - UInt16.ofNat rclk
    if v.t2xx00 then word v.t2ch (lowByte t2) else t2

/-- mirrors src/core/viacore.c:551-560 (`schedule_t2_zero_alarm`) -/
def scheduleT2ZeroAlarm (v : Timer2) (rclk : Nat) : Timer2 :=
  { v with
    t2zero := rclk + v.t2cl.toNat
    t2xx00 := true
    t2UnderflowAlarm := none
    t2ZeroAlarm := some (rclk + v.t2cl.toNat) }

/-- mirrors src/core/viacore.c:1527-1562 (`viacore_t2_zero_alarm`) -/
def viacoreT2ZeroAlarm (v : Timer2) (rclk : Nat) : Timer2 :=
  let v := { v with t2ch := v.t2ch - 1 }
  let v :=
    if v.t2ch == 0xff && v.t2IrqAllowed then { v with irq := true, t2IrqAllowed := false } else v
  { v with t2ZeroAlarm := none, t2UnderflowAlarm := some (rclk + 1) }

/-- mirrors src/core/viacore.c:1569-1628 (`viacore_t2_underflow_alarm`) -/
def viacoreT2UnderflowAlarm (v : Timer2) : Timer2 :=
  let (t2cl, nextAlarm) :=
    if isSrT2Controlled v.acr then (v.t2ll, v.t2ll.toNat + fullCycle2)
    else (0xff, if v.t2ch != 0xff then 256 else 0)
  let v := { v with t2cl := t2cl, t2UnderflowAlarm := none }
  if nextAlarm ≠ 0 then
    { v with
      t2zero := v.t2zero + nextAlarm
      t2xx00 := true
      t2ZeroAlarm := some (v.t2zero + nextAlarm) }
  else { v with t2ZeroAlarm := none, t2xx00 := false }

/-- An access that timer 2 is concerned with. -/
inductive Access
  | readT2cl
  | readT2ch
  | writeT2ll (byte : UInt8)
  | writeT2ch (byte : UInt8)
  | writeAcr (byte : UInt8)
  | writeIfr (byte : UInt8)
  deriving DecidableEq, Repr

/-- A write to T2CH, mirrors src/core/viacore.c:793-823 -/
def storeT2ch (v : Timer2) (rclk : Nat) (byte : UInt8) : Timer2 :=
  let v := { v with t2cl := v.t2ll, t2ch := byte }
  let v := if !isT2PulseCounting v.acr then scheduleT2ZeroAlarm v (rclk + 1) else v
  { v with irq := false, t2IrqAllowed := true }

/-- A write to ACR, mirrors src/core/viacore.c:879-975 -/
def storeAcr (v : Timer2) (rclk : Nat) (byte : UInt8) : Timer2 :=
  let switched := isT2PulseCounting v.acr != isT2PulseCounting byte
  let stopped := switched && isT2PulseCounting byte
  let started := switched && !isT2PulseCounting byte
  let v :=
    if stopped then
      let stop := viacoreT2 v rclk - 1
      { v with t2cl := lowByte stop, t2ch := highByte stop, t2ZeroAlarm := none, t2xx00 := false }
    else v
  let restart := started ||
    (isSrT2Controlled byte && !isSrT2Controlled v.acr && !isT2PulseCounting byte)
  let v :=
    if restart && v.t2ZeroAlarm.isNone && v.t2UnderflowAlarm.isNone then
      let current := viacoreT2 v rclk
      scheduleT2ZeroAlarm { v with t2cl := lowByte current, t2ch := highByte current }
        (rclk + if started then 1 else 0)
    else v
  { v with acr := byte }

/-- The cases of `viacore_read` and `viacore_store`, after the alarms that are due: mirrors
src/core/viacore.c:779-833, 848-978 and 1163-1173 -/
def timer2Access (rclk : Nat) (a : Access) (v : Timer2) : Timer2 × Option UInt8 :=
  match a with
  | .readT2cl => ({ v with irq := false }, some (lowByte (viacoreT2 v rclk)))
  | .readT2ch => (v, some (highByte (viacoreT2 v rclk)))
  | .writeT2ll byte => ({ v with t2ll := byte }, none)
  | .writeT2ch byte => (storeT2ch v rclk byte, none)
  | .writeAcr byte => (storeAcr v rclk byte, none)
  | .writeIfr byte => ({ v with irq := v.irq && byte &&& 0x20 == 0 }, none)

/-- The earlier of the two alarms. -/
def Timer2.due (v : Timer2) : Option Nat :=
  match v.t2ZeroAlarm, v.t2UnderflowAlarm with
  | none, underflow => underflow
  | some z, none => some z
  | some z, some u => some (min z u)

def Timer2.handle (v : Timer2) : Timer2 :=
  match v.due with
  | none => v
  | some rclk =>
    if v.t2ZeroAlarm = some rclk then viacoreT2ZeroAlarm v rclk else viacoreT2UnderflowAlarm v

/-- Timer 2 with its alarms. -/
def timer2Machine : Machine Timer2 Access UInt8 where
  due := Timer2.due
  handle := Timer2.handle
  access := timer2Access

/-! ## The counter -/

/-- `underflowed` is the cycle behind xx00; `counting` is the mode the cycle began with, since the
counter starts and stops one cycle after the write; `hold` that the counter was written in this
cycle. -/
structure Counter2 extends Control where
  counter : UInt16
  underflowed : Bool
  counting : Bool
  hold : Bool
  deriving DecidableEq, Repr

/-- The first underflow of all 16 bits after a write sets the interrupt flag. -/
def Counter2.timeOut (r : Counter2) : Counter2 :=
  if r.counter == 0 && r.t2IrqAllowed then { r with irq := true, t2IrqAllowed := false } else r

/-- The end of a cycle, for the counter alone. -/
def Counter2.count (r : Counter2) : Counter2 :=
  if r.hold || !r.counting then { r with underflowed := false }
  else if isT2PulseCounting r.acr then { r with counter := r.counter - 1, underflowed := false }
  else if r.underflowed && isSrT2Controlled r.acr then
    { r with counter := word (highByte r.counter) r.t2ll, underflowed := false }
  else { r.timeOut with counter := r.counter - 1, underflowed := lowByte r.counter == 0 }

/-- The end of a cycle. -/
def Counter2.tick (r : Counter2) : Counter2 :=
  { r.count with counting := !isT2PulseCounting r.acr, hold := false }

def counter2Access (a : Access) (r : Counter2) : Counter2 × Option UInt8 :=
  match a with
  | .readT2cl => ({ r with irq := false }, some (lowByte r.counter))
  | .readT2ch => (r, some (highByte r.counter))
  | .writeT2ll byte => ({ r with t2ll := byte }, none)
  | .writeT2ch byte =>
    ({ r with counter := word byte r.t2ll, hold := true, irq := false, t2IrqAllowed := true }, none)
  | .writeAcr byte => ({ r with acr := byte }, none)
  | .writeIfr byte => ({ r with irq := r.irq && byte &&& 0x20 == 0 }, none)

def counter2Ticking : Ticking Counter2 Access UInt8 where
  access := counter2Access
  tick := Counter2.tick

end Vice.L4.ViaTimer2
