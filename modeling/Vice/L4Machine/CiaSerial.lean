import Mathlib.Data.Nat.Basic
import Vice.L0Core.BitWindow

/-!
# The serial port of the CIA (`ciacore.c`)

One register shifts both ways. As an input it is clocked by the edges of CNT, as an output by the
underflows of timer A, through a delay line of flags that the alarm of the port moves on by one
cycle a call. `srBits` counts the half bits that are left, for both.

The calls of the machine are collected in `out`, the last one first; `set_sp` and `set_cnt` count
as set. `irq` is the interrupt flag of the port being raised. Timer A is not part of the state: its
underflows are steps, which in the code come before a store to the control register when they are
due, and `taDue` says that one is due in the cycle of the port's own alarm.
-/
namespace Vice.L4.CiaSerial

/-- `CIA_CRA_SPMODE` -/
def craSpmode : UInt8 := 0x40
def craSpmodeOut : UInt8 := 0x40
def craSpmodeIn : UInt8 := 0x00

/-- The delay line, mirrors src/core/ciacore.c:79-123. -/
def sdrToggleCnt2 : BitVec 32 := 0x0001
def sdrToggleCnt1 : BitVec 32 := 0x0002
def sdrToggleCnt0 : BitVec 32 := 0x0004
def sdrToggleCntM1 : BitVec 32 := 0x0008
def sdrNoggleCnt2 : BitVec 32 := 0x0010
def sdrNoggleCnt1 : BitVec 32 := 0x0020
def sdrNoggleCnt0 : BitVec 32 := 0x0040
def sdrNoggleCntM1 : BitVec 32 := 0x0080
def sdrSetSdrIrq3 : BitVec 32 := 0x0100
def sdrSetSdrIrq2 : BitVec 32 := 0x0200
def sdrSetSdrIrq1 : BitVec 32 := 0x0400
def sdrSetSdrIrq0 : BitVec 32 := 0x0800
def sdrCnt0 : BitVec 32 := 0x1000
def sdrCnt1 : BitVec 32 := 0x2000
def sdrCnt2 : BitVec 32 := 0x4000
def sdrCnt3 : BitVec 32 := 0x8000
def sdrSet3 : BitVec 32 := 0x00010000
def sdrSet2 : BitVec 32 := 0x00020000
def sdrSet1 : BitVec 32 := 0x00040000
def sdrSet0 : BitVec 32 := 0x00080000
def sdrLeftmost : BitVec 32 := 0x00100000

def sdrClear : BitVec 32 := sdrNoggleCnt2 ||| sdrSetSdrIrq3 ||| sdrCnt0 ||| sdrSet3 ||| sdrLeftmost

def allSdrCnt : BitVec 32 := sdrCnt0 ||| sdrCnt1 ||| sdrCnt2 ||| sdrCnt3
def allSdrToggleCnt : BitVec 32 :=
  sdrToggleCnt2 ||| sdrToggleCnt1 ||| sdrToggleCnt0 ||| sdrToggleCntM1
def allSdrNoggleCnt : BitVec 32 :=
  sdrNoggleCnt2 ||| sdrNoggleCnt1 ||| sdrNoggleCnt0 ||| sdrNoggleCntM1

def sdrActive : BitVec 32 :=
  allSdrToggleCnt ||| allSdrNoggleCnt |||
    (sdrSetSdrIrq3 ||| sdrSetSdrIrq2 ||| sdrSetSdrIrq1 ||| sdrSetSdrIrq0) |||
    (sdrSet3 ||| sdrSet2 ||| sdrSet1 ||| sdrSet0)

inductive Output
  | setSp (bit : Bool)
  | setCnt (level : Bool)
  | storeSdr (byte : UInt8)
  | irq
  deriving DecidableEq, Repr

/-- The fields of `cia_context_t` the port uses. `srBits` is an unsigned integer, `sdrAlarm` the
clock the alarm is pending for, `old` stands for `CIA_MODEL_6526`. -/
structure Serial where
  old : Bool
  cra : UInt8
  sdr : UInt8
  srBits : Nat
  shifter : BitVec 16
  sdrValid : Bool
  sdrForceFinish : Bool
  sdrDelay : BitVec 32
  sdrAlarm : Option Nat
  spInState : Bool
  cntInState : Bool
  cntOutState : Bool
  out : List Output
  deriving DecidableEq, Repr

def Serial.emit (s : Serial) (o : Output) : Serial := { s with out := o :: s.out }

def Serial.has (s : Serial) (flag : BitVec 32) : Bool := s.sdrDelay &&& flag != 0

/-- `CIA_CRA_SPMODE_OUT` in a value of the control register. -/
def spmodeOut (cra : UInt8) : Bool := cra &&& craSpmode != craSpmodeIn

def Serial.isOut (s : Serial) : Bool := spmodeOut s.cra

/-- `--sr_bits` -/
def decSrBits (n : Nat) : Nat := (2 ^ 32 - 1 + n) % 2 ^ 32

/-- A `bool` as an operand of the shifter. -/
def bit16 (b : Bool) : BitVec 16 := (BitVec.ofBool b).setWidth 16

def byte16 (b : UInt8) : BitVec 16 := b.toBitVec.setWidth 16

/-- mirrors src/core/ciacore.c:1704-1708 -/
def scheduleSdrAlarm (s : Serial) (rclk : Nat) (feed : BitVec 32) : Serial :=
  { s with sdrDelay := s.sdrDelay ||| feed, sdrAlarm := some rclk }

/-! ## Register accesses -/

/-- mirrors src/core/ciacore.c:614-685, what concerns the port -/
def ciacoreReset (s : Serial) : Serial :=
  { s with
    cra := 0
    sdr := 0
    srBits := 0
    sdrValid := false
    sdrForceFinish := false
    sdrDelay := sdrCnt0 ||| sdrCnt1 ||| sdrCnt2 ||| sdrCnt3
    spInState := true
    cntInState := true
    cntOutState := true
    sdrAlarm := none }

/-- mirrors src/core/ciacore.c:690-731 -/
def strangeExtraSdrFlags (s : Serial) (rclk : Nat) (byte : UInt8) : Serial :=
  if byte &&& craSpmodeOut = craSpmodeIn then
    let cntWanted := if s.old then sdrCnt0 ||| sdrCnt1 ||| sdrCnt2 else sdrCnt1 ||| sdrCnt2
    let forceFinish := s.sdrDelay &&& cntWanted != cntWanted
    { s with
      sdrForceFinish := forceFinish ||
        (s.srBits != 2 && !s.has sdrToggleCnt2 && !s.has sdrToggleCnt1 && s.has sdrToggleCnt0) }
  else
    let s := if !s.cntOutState && s.srBits != 0 then { s with shifter := s.shifter <<< 1 } else s
    if s.sdrForceFinish then
      { scheduleSdrAlarm s rclk sdrSetSdrIrq2 with sdrForceFinish := false }
    else s

/-- The direction has changed: nothing is left of the byte that was being shifted. -/
def abandonByte (s : Serial) : Serial :=
  let s := { s with
    srBits := 0
    sdrValid := false
    sdrDelay := s.sdrDelay &&& ~~~(allSdrToggleCnt ||| allSdrNoggleCnt) }
  if !s.cntOutState then { s with cntOutState := true }.emit (.setCnt true) else s

/-- mirrors src/core/ciacore.c:1006-1054, what concerns the port -/
def storeCra (s : Serial) (rclk : Nat) (byte : UInt8) : Serial :=
  let s' :=
    if (byte ^^^ s.cra) &&& craSpmode ≠ 0 then abandonByte (strangeExtraSdrFlags s rclk byte)
    else s
  { s' with cra := byte &&& 0xef }

/-- mirrors src/core/ciacore.c:909-929: the byte is taken from the register two cycles later. -/
def storeSdr (s : Serial) (rclk : Nat) (byte : UInt8) : Serial :=
  let s := if s.isOut then scheduleSdrAlarm s rclk sdrSet1 else s
  { s with sdr := byte }

/-! ## The inputs -/

/-- mirrors src/core/ciacore.c:1626-1642 -/
def ciacoreSetSdr (s : Serial) (data : UInt8) : Serial :=
  if s.isOut then s else { s with sdr := data, sdrAlarm := none }.emit .irq

/-- The edge of CNT counts when the register is an input, mirrors src/core/ciacore.c:1648-1682. -/
def countEdge (s : Serial) (data : Bool) : Serial :=
  let s := if !data && s.srBits == 0 then { s with srBits := 16 } else s
  let s := { s with srBits := decSrBits s.srBits }
  if data then
    let s := { s with shifter := s.shifter <<< 1 ||| bit16 s.spInState }
    if s.srBits = 0 then ciacoreSetSdr s ⟨s.shifter.setWidth 8⟩ else s
  else s

/-- mirrors src/core/ciacore.c:1644-1688 -/
def ciacoreSetCnt (s : Serial) (data : Bool) : Serial :=
  if data = s.cntInState then s
  else
    let s := if s.isOut then s else countEdge s data
    { s with cntInState := data }

/-- mirrors src/core/ciacore.c:1690-1693 -/
def ciacoreSetSp (s : Serial) (data : Bool) : Serial := { s with spInState := data }

/-! ## The alarms -/

/-- mirrors src/core/ciacore.c:1487-1503: what an underflow of timer A does for the port -/
def ciacoreIntta (s : Serial) (rclk : Nat) : Serial :=
  if s.isOut && (s.srBits != 0 || s.sdrValid) then
    let event := if s.has (sdrToggleCnt0 ||| sdrNoggleCnt0) then sdrNoggleCnt1 else sdrToggleCnt1
    scheduleSdrAlarm s rclk event
  else s

/-- The byte of the register is taken over. -/
def takeSdr (s : Serial) : Serial :=
  if s.has sdrSet0 then
    if s.srBits = 0 then { s with srBits := 16, shifter := byte16 s.sdr <<< 1 }
    else if s.srBits = 1 then { s with shifter := s.shifter ||| byte16 s.sdr, srBits := 17 }
    else { s with sdrValid := true }
  else s

/-- CNT goes low and the next bit is shown. With the last bit the byte is done, and the next one
is taken when there is one. -/
def fallCnt (s : Serial) : Serial × BitVec 32 :=
  let s := { s with cntOutState := false }.emit (.setSp (s.shifter.getLsbD 8)) |>.emit (.setCnt false)
  if s.srBits = 1 then
    let s := s.emit (.storeSdr ⟨(s.shifter >>> 8).setWidth 8⟩)
    if s.sdrValid then
      ({ s with shifter := s.shifter ||| byte16 s.sdr, sdrValid := false, srBits := 17 },
        sdrSetSdrIrq2)
    else (s, sdrSetSdrIrq2)
  else (s, 0)

def riseCnt (s : Serial) : Serial :=
  { s with shifter := s.shifter <<< 1, cntOutState := true }.emit (.setCnt true)

/-- CNT is toggled; the second part are the flags to be set. -/
def toggleCnt (s : Serial) : Serial × BitVec 32 :=
  if s.has sdrToggleCnt0 then
    if s.srBits = 0 then (riseCnt s, 0)
    else
      let s := { s with srBits := decSrBits s.srBits }
      if s.srBits % 2 = 1 then fallCnt s else (riseCnt s, 0)
  else (s, 0)

def raiseIrq (s : Serial) : Serial := if s.has sdrSetSdrIrq0 then s.emit .irq else s

/-- The delay line moves on by one cycle. -/
def nextDelay (delay feed : BitVec 32) (cntOutState : Bool) : BitVec 32 :=
  ((delay ||| feed) <<< 1 &&& ~~~sdrClear) ||| (if cntOutState then sdrCnt0 else 0)

/-- Is there anything left to do? -/
def stillActive (delay : BitVec 32) : Bool :=
  delay &&& sdrActive != 0 || (delay &&& allSdrCnt != 0 && delay &&& allSdrCnt != allSdrCnt)

def moveOn (s : Serial) (rclk : Nat) (feed : BitVec 32) : Serial :=
  let delay := nextDelay s.sdrDelay feed s.cntOutState
  { s with sdrDelay := delay, sdrAlarm := if stillActive delay then some (rclk + 1) else none }

/-- mirrors src/core/ciacore.c:1718-1825 -/
def ciacoreIntsdr (s : Serial) (rclk : Nat) (taDue : Bool) : Serial :=
  let s := if taDue then ciacoreIntta s rclk else s
  let (s, feed) := toggleCnt (takeSdr s)
  moveOn (raiseIrq s) rclk feed

/-! ## Runs -/

inductive Event
  | reset
  | storeCra (rclk : Nat) (byte : UInt8)
  | storeSdr (rclk : Nat) (byte : UInt8)
  | underflow (rclk : Nat)
  | sdrAlarm (taDue : Bool)
  | setCnt (data : Bool)
  | setSp (data : Bool)
  | setSdr (data : UInt8)
  deriving DecidableEq, Repr

/-- The alarm is called for the cycle it was set for, and only when it is set. -/
def ciacoreIntsdrEntry (s : Serial) (taDue : Bool) : Serial :=
  match s.sdrAlarm with
  | some rclk => ciacoreIntsdr s rclk taDue
  | none => s

def step (s : Serial) : Event → Serial
  | .reset => ciacoreReset s
  | .storeCra rclk byte => storeCra s rclk byte
  | .storeSdr rclk byte => storeSdr s rclk byte
  | .underflow rclk => ciacoreIntta s rclk
  | .sdrAlarm taDue => ciacoreIntsdrEntry s taDue
  | .setCnt data => ciacoreSetCnt s data
  | .setSp data => ciacoreSetSp s data
  | .setSdr data => ciacoreSetSdr s data

def run (s : Serial) (es : List Event) : Serial := es.foldl step s

@[simp] theorem run_nil (s : Serial) : run s [] = s := rfl

@[simp] theorem run_cons (s : Serial) (e : Event) (es : List Event) : run s (e :: es) = run (step s e) es := rfl

theorem run_append (s : Serial) (es es' : List Event) : run s (es ++ es') = run (run s es) es' :=
  List.foldl_append

end Vice.L4.CiaSerial
