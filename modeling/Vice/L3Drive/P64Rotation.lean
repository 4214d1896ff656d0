import Vice.L3Drive.P64Pulses
import Vice.L3Drive.Rotation

/-!
# The 1541 circuit over flux pulses

`rotation_1541_p64` runs the counters of `rotation_1541_gcr` over a stream of pulses and not of
bits. A pass is as long as the counters and the distance to the next pulse let it be; that distance
is a variable of the call, taken anew at its start.

* `Turn` is a `Spin` in the middle of a call, with the distance.
* `readPass` and `writePass` are the passes, `rotation1541P64` the call.
-/
namespace Vice.L3.P64Rotation
open Vice.L0.BatchedSteps Vice.L3.P64Pulses Vice.L3.Rotation

/-! ## State -/

/-- The circuit, with the fields of `rotation_t` and `drive_t` that only pulses need. -/
structure Spin where
  circuit : Circuit
  seed : UInt32
  pulseHeadPosition : Nat
  stream : PulseStream
  p64Dirty : Bool
  deriving DecidableEq

/-- A call on its way: `deltaPositionToNextPulse` is its local variable. -/
structure Turn extends Spin where
  deltaPositionToNextPulse : Nat
  deriving DecidableEq

/-- mirrors src/drive/rotation.c:105 and :131 (`rotation_init`, `rotation_reset`) -/
def Spin.reset (s : Spin) : Spin :=
  { s with circuit := rotationReset s.circuit, seed := 0, pulseHeadPosition := 0 }

/-- The `int` distance to the next pulse as a 64 bit clock: mirrors src/drive/rotation.c:618-631
(`rotation_p64_get_delta`) -/
def rotationP64GetDelta (s : Spin) : Nat :=
  match s.stream.current with
  | some p => (p.position + 2 ^ 64 - s.pulseHeadPosition) % 2 ^ 64
  | none => (samplesPerRotation + 2 ^ 64 - s.pulseHeadPosition) % 2 ^ 64

/-- A pulse is right under the head: mirrors src/drive/rotation.c:794-795, :912-913 -/
def Spin.pulseHere (s : Spin) : Bool :=
  s.stream.current.any (·.position = s.pulseHeadPosition)

/-! ## One pass -/

section
variable (d : Drive) (todo : Nat)

/-- The How-Much-16MHz-Clock-Cycles-ToDo-Count logic: mirrors src/drive/rotation.c:671-694, in write
mode :822-842 -/
def p64Todo (refCycles : Nat) (t : Turn) : Nat :=
  let c := t.circuit
  if t.deltaPositionToNextPulse ≤ 1 then 1
  else if d.readWriteMode then
    let todo := atMost True refCycles t.deltaPositionToNextPulse
    let todo := atMost (c.ue7Counter < 16) (16 - c.ue7Counter) todo
    let todo := atMost (c.filterCounter < 40) (40 - c.filterCounter) todo
    let todo := atMost (0 < c.frRandcount) c.frRandcount todo
    atMost (0 < c.soDelay) c.soDelay todo
  else
    -- never further than the end of the revolution, which the head is always before
    let todo := atMost (t.pulseHeadPosition < samplesPerRotation)
      (samplesPerRotation - t.pulseHeadPosition) t.deltaPositionToNextPulse
    let todo := atMost True refCycles todo
    let todo := atMost (c.ue7Counter < 16) (16 - c.ue7Counter) todo
    atMost (0 < c.soDelay) c.soDelay todo

section
variable (c : Circuit)

/-- UE7 and the 2.5 microseconds filter: mirrors src/drive/rotation.c:709-726 -/
def p64Filter : Circuit :=
  let c := { c with
    ue7Counter := c.ue7Counter + todo
    filterCounter := c.filterCounter + if c.filterCounter < 40 then todo else 0 }
  if 40 ≤ c.filterCounter ∧ c.filterState ≠ c.filterLastState then
    fluxReversal 31 289 { c with filterLastState := c.filterState }
  else
    let c := { c with frRandcount := (c.frRandcount + 2 ^ 32 - todo) % 2 ^ 32 }
    if c.frRandcount = 0 then fluxReversal 367 33 c else c

/-- Decoder logic: mirrors src/drive/rotation.c:741-768 -/
def p64ReadShift : Circuit :=
  let c : Circuit := { shiftIn c with lastWriteData := c.lastWriteData <<< 1 }
  if c.lastReadData = 0x3ff then { c with bitCounter := 0 }
  else if c.bitCounter + 1 = 8 then byteReady d todo (byteRead c)
  else { c with bitCounter := c.bitCounter + 1 }

/-- The pulse divider and what hangs on its fourth pulse: mirrors src/drive/rotation.c:732-771, in
write mode :862-891 -/
def divided {α : Type} (shift : Circuit → α) (wait : Circuit → α) : α :=
  if c.ue7Counter = 16 then
    let c := { c with ue7Counter := c.ue7Dcba, uf4Counter := (c.uf4Counter + 1) &&& 0xf }
    if c.uf4Counter &&& 3 = 2 then shift c else wait c
  else wait c

/-- Clock logic in read mode: mirrors src/drive/rotation.c:706-772 -/
def p64ReadClock : Circuit :=
  divided (p64Filter todo c) (p64ReadShift d todo) id

/-- Encoder logic, with the bit for the head: mirrors src/drive/rotation.c:867-888 -/
def p64WriteShift : Bool × Circuit :=
  let headWrite := decide (c.lastWriteData &&& 0x80 ≠ 0)
  let c : Circuit := { shiftIn c with lastWriteData := c.lastWriteData <<< 1 }
  (headWrite,
    if c.bitCounter + 1 = 8 then
      byteReady d todo { c with bitCounter := 0, lastWriteData := d.gcrWriteValue }
    else { c with bitCounter := c.bitCounter + 1 })

/-- Clock logic in write mode. `head_write` is 0 at the start of every pass, as the head takes a 1
back: mirrors src/drive/rotation.c:816-818, :855-892 -/
def p64WriteClock : Bool × Circuit :=
  divided { c with ue7Counter := c.ue7Counter + todo } (p64WriteShift d todo) (false, ·)

end

/-- Track wrap handling: mirrors src/drive/rotation.c:779-788, in write mode :899-909 -/
def trackWrap (s : Spin) : Spin :=
  let head := s.pulseHeadPosition + todo
  if samplesPerRotation ≤ head then
    { s with
      pulseHeadPosition := head - samplesPerRotation
      stream := s.stream.rewind (head - samplesPerRotation) }
  else { s with pulseHeadPosition := head }

/-- mirrors src/drive/rotation.c:280-286 (`RANDOM_nextInt`) -/
def randomNextInt (s : Spin) : UInt32 :=
  (s.seed ^^^ UInt32.ofNat s.circuit.accum) <<< 17 ||| s.seed >>> 15

/-- A strong pulse always hits, a weak one as the dice fall: mirrors src/drive/rotation.c:796-803 -/
def forwardPulse (strength : UInt32) (s : Spin) : Spin :=
  let hit (s : Spin) : Spin := { s with
    circuit := { s.circuit with
      filterState := s.circuit.filterState ^^^ 1
      filterCounter := 0 } }
  if strength = 0xffffffff then hit s
  else
    let drawn := randomNextInt s
    let s := { s with seed := drawn }
    if drawn ^^^ 0x80000000 < strength then hit s else s

/-- Next NRZI transition flux pulse handling: mirrors src/drive/rotation.c:794-807 -/
def pulseHandled (s : Spin) : Spin :=
  match s.stream.current with
  | some p =>
    if p.position = s.pulseHeadPosition then
      let s := forwardPulse p.strength s
      { s with stream := s.stream.next }
    else s
  | none => s

/-- Head logic in read mode: mirrors src/drive/rotation.c:775-810 -/
def readHead (t : Turn) : Turn :=
  let s := trackWrap todo t.toSpin
  let delta := if samplesPerRotation ≤ t.pulseHeadPosition + todo then rotationP64GetDelta s
    else (t.deltaPositionToNextPulse + 2 ^ 64 - todo) % 2 ^ 64
  if delta = 0 then
    let s := pulseHandled s
    { s with deltaPositionToNextPulse := rotationP64GetDelta s }
  else { s with deltaPositionToNextPulse := delta }

/-- Write head handling: mirrors src/drive/rotation.c:911-931 -/
def writeHandled (headWrite : Bool) (s : Spin) : Spin :=
  if headWrite then
    let s := if s.pulseHere then
        { s with
          stream := s.stream.strengthen
          p64Dirty := s.p64Dirty || s.stream.current.any (·.strength ≠ 0xffffffff) }
      else
        { s with
          stream := s.stream.insertPulse s.pulseHeadPosition 0xffffffff
          p64Dirty := true }
    { s with stream := s.stream.next }
  else if s.pulseHere then { s with stream := s.stream.removePulse, p64Dirty := true }
  else s

/-- The rest of the loop's body: mirrors src/drive/rotation.c:696-817 -/
def readPass (t : Turn) : Turn :=
  let t := { t with circuit := p64ReadClock d todo (soSignal todo t.circuit) }
  let t := readHead todo t
  { t with circuit := cyclesDone todo t.circuit }

/-- The rest of the loop's body: mirrors src/drive/rotation.c:844-939 -/
def writePass (t : Turn) : Turn :=
  let (headWrite, c) := p64WriteClock d todo (soSignal todo t.circuit)
  let s := writeHandled headWrite (trackWrap todo { t.toSpin with circuit := c })
  { s with
    circuit := cyclesDone todo s.circuit
    deltaPositionToNextPulse := rotationP64GetDelta s }

def p64Pass (t : Turn) : Turn :=
  if d.readWriteMode then readPass d todo t else writePass d todo t

end

/-! ## The call -/

theorem p64Todo_pos (d : Drive) (n : Nat) (t : Turn) (hn : 0 < n) : 0 < p64Todo d n t := by
  unfold p64Todo
  simp only
  split
  · exact Nat.one_pos
  · have hso {x : Nat} (hx : 0 < x) : 0 < atMost (0 < t.circuit.soDelay) t.circuit.soDelay x :=
      atMost_pos id hx
    have hue7 {x : Nat} (hx : 0 < x) :
        0 < atMost (t.circuit.ue7Counter < 16) (16 - t.circuit.ue7Counter) x :=
      atMost_pos (by omega) hx
    split
    · exact hso (atMost_pos id (atMost_pos (by omega) (hue7 (atMost_pos (fun _ => hn) (by omega)))))
    · exact hso (hue7 (atMost_pos (fun _ => hn) (atMost_pos (by omega) (by omega))))

/-- The two loops of `rotation_1541_p64`. -/
def p64Passes (d : Drive) : Passes Turn where
  take n t := p64Todo d n t
  pass := p64Pass d
  take_pos n t hn := p64Todo_pos d n t hn

/-- The current pulse and its distance are found at the start of a call:
mirrors src/drive/rotation.c:640-667 -/
def enter (s : Spin) : Turn :=
  let s := { s with stream := s.stream.resync s.pulseHeadPosition }
  { s with deltaPositionToNextPulse := rotationP64GetDelta s }

/-- mirrors src/drive/rotation.c:635-942 (`rotation_1541_p64`) -/
def rotation1541P64 (d : Drive) (refCycles : Nat) (s : Spin) : Spin :=
  ((p64Passes d).run refCycles (enter s)).toSpin

end Vice.L3.P64Rotation
