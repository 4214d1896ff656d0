import Vice.L0Core.BatchedSteps
import Vice.L1Encoding.GcrCode
import Mathlib.Order.Basic

/-!
# The 1541 read/write circuit

`rotation_1541_gcr` simulates the counters between the head and the VIA at 16 MHz. It does not go
cycle by cycle: each pass of its loop takes as many cycles as its five counters let it.

* `Circuit` is what it changes.
* `todo` is the length of a pass, `gcrPass` the pass, `rotation1541Gcr` the call.

`filterCounter` is an `int` that nothing stops from growing while no one bit is read; what happens
past its 2^31 (two minutes of such reading) is undefined in the source and not modelled.
-/
namespace Vice.L3.Rotation
open Vice.L0.BatchedSteps Vice.L1.Gcr

/-! ## State -/

/-- The fields of `drive_t` that the circuit reads, with the bounds they are kept in:
`set_drive_rpm` (src/drive/drive-resources.c:314), the amplitude of the wobble times 32 / 3
(src/drive/rotation.c:331) and NUM_MAX_MEM_BYTES_TRACK (src/gcr.h:42). -/
structure Drive where
  rpm : Nat
  wobbleFactor : Int
  gcrCurrentTrackSize : Nat
  gcrImageLoaded : Bool
  gcrWriteValue : UInt8
  /-- Write mode is 0 in the source. -/
  readWriteMode : Bool
  byteReadyActive : UInt8
  rpm_pos : 0 < rpm
  rpm_le : rpm ≤ 32000
  wobble_bounds : -53334 ≤ wobbleFactor ∧ wobbleFactor ≤ 53334
  trackSize_le : gcrCurrentTrackSize ≤ 65536

theorem no_wobble : -53334 ≤ (0 : Int) ∧ (0 : Int) ≤ 53334 := by decide

/-- `rotation_t` and the fields of `drive_t` that the circuit changes. `track` is none for a track
that does not exist. -/
structure Circuit where
  accum : Nat
  lastReadData : Nat
  lastWriteData : UInt8
  bitCounter : Nat
  ue7Dcba : Nat
  ue7Counter : Nat
  uf4Counter : Nat
  frRandcount : Nat
  filterCounter : Nat
  filterState : Nat
  filterLastState : Nat
  writeFlux : UInt8
  soDelay : Nat
  cycleIndex : Nat
  xorShift32 : UInt32
  gcrHeadOffset : Nat
  gcrRead : UInt8
  gcrDirtyTrack : Bool
  byteReadyEdge : Nat
  byteReadyLevel : Nat
  track : Option Bytes
  deriving DecidableEq

/-- mirrors src/drive/rotation.c:93-109 (`rotation_init`) and :111-137 (`rotation_reset`): the
counters of a drive that was just reset, over the head and the disk it had. -/
def rotationReset (c : Circuit) : Circuit :=
  { c with
    accum := 0
    lastReadData := 0
    lastWriteData := 0
    bitCounter := 0
    ue7Counter := 0
    uf4Counter := 0
    frRandcount := 0
    filterCounter := 0
    filterState := 0
    filterLastState := 0
    writeFlux := 0
    soDelay := 0
    cycleIndex := 0
    xorShift32 := 0x1234abcd }

/-! ## Head and random numbers -/

section
variable (d : Drive) (c : Circuit)

/-- The head one bit further, and back to the start of the track after its last bit. -/
def nextOffset (off : Nat) : Nat :=
  if d.gcrCurrentTrackSize <<< 3 ≤ off + 1 then 0 else off + 1

/-- mirrors src/drive/rotation.c:256-278 (`read_next_bit`) -/
def readNextBit : Nat × Circuit :=
  let off := c.gcrHeadOffset
  if d.gcrImageLoaded = false then (0, c)
  else
    let c := { c with gcrHeadOffset := nextOffset d off }
    match c.track with
    | none => (0, c)
    | some bytes => (((bytes.getD (off >>> 3) 0).toNat >>> (7 - off % 8)) &&& 1, c)

/-- mirrors src/drive/rotation.c:227-254 (`write_next_bit`) -/
def writeNextBit (value : UInt8) : Circuit :=
  let off := c.gcrHeadOffset
  if d.gcrImageLoaded = false then c
  else
    let c := { c with gcrHeadOffset := nextOffset d off }
    match c.track with
    | none => c
    | some bytes =>
      let mask : UInt8 := 1 <<< (7 - off % 8).toUInt8
      let byte := bytes.getD (off >>> 3) 0
      { c with
        gcrDirtyTrack := true
        track := some (bytes.set (off >>> 3)
          (if value ≠ 0 then byte ||| mask else byte &&& ~~~mask)) }

/-- mirrors src/drive/rotation.c:288-293 (`RANDOM_nextUInt`) -/
def randomNextUInt (x : UInt32) : UInt32 :=
  let x := x ^^^ (x <<< 13)
  let x := x ^^^ (x >>> 17)
  x ^^^ (x <<< 5)

/-! ## Lengths -/

/-- `count_new_bitcell`, the reference cycles of a revolution:
mirrors src/drive/rotation.c:347-373 -/
def countNewBitcell : Nat :=
  (((30000 * 3200000 / d.rpm : Nat) + d.wobbleFactor) % (2 ^ 32)).toNat

/-- `cyc_sum_frv`, the bitcells of a revolution: mirrors src/drive/rotation.c:375-377 -/
def cycSumFrv : Nat :=
  if 8 * d.gcrCurrentTrackSize = 0 then 1 else 8 * d.gcrCurrentTrackSize

/-- The distance to the next bitcell as a 32 bit word; from 2^31 on the source sees it negative. -/
def delta : Nat := (countNewBitcell d + 2 ^ 32 - c.accum) % 2 ^ 32

/-- How many of `todo` cycles one of the counters lets through. -/
def atMost (limited : Prop) [Decidable limited] (limit todo : Nat) : Nat :=
  if limited ∧ limit < todo then limit else todo

/-- How much cycles can be done in one single pass: mirrors src/drive/rotation.c:382-402, in
write mode :498-512 -/
def todo (refCycles : Nat) : Nat :=
  if 0 < delta d c ∧ delta d c < 2 ^ 31 ∧ cycSumFrv d <<< 1 ≤ delta d c then
    let todo := atMost True refCycles (delta d c / cycSumFrv d)
    let todo := atMost (c.ue7Counter < 16) (16 - c.ue7Counter) todo
    let todo := if d.readWriteMode then
        atMost (0 < c.frRandcount) c.frRandcount
          (atMost (c.filterCounter < 40) (40 - c.filterCounter) todo)
      else todo
    atMost (0 < c.soDelay) c.soDelay todo
  else 1

end

/-! ## One pass -/

section
variable (d : Drive) (todo : Nat) (c : Circuit)

/-- so signal handling: mirrors src/drive/rotation.c:404-411, :514-521 -/
def soSignal : Circuit :=
  if c.soDelay ≠ 0 then
    let c := { c with soDelay := c.soDelay - todo }
    if c.soDelay = 0 then { c with byteReadyEdge := 1, byteReadyLevel := 1 } else c
  else c

/-- A flux reversal, real or random, resets the counters and draws the distance of the next random
one: mirrors src/drive/rotation.c:419-422 and :427-431 -/
def fluxReversal (range least : Nat) (c : Circuit) : Circuit :=
  let drawn := randomNextUInt c.xorShift32
  { c with
    ue7Counter := c.ue7Dcba
    uf4Counter := 0
    xorShift32 := drawn
    frRandcount := (drawn >>> 16).toNat % range + least }

/-- 2.5 microsecond flux filter: mirrors src/drive/rotation.c:413-432 -/
def fluxFilter : Circuit :=
  let c := { c with filterCounter := c.filterCounter + todo }
  if 40 ≤ c.filterCounter ∧ c.filterLastState ≠ c.filterState then
    fluxReversal 31 289 { c with filterLastState := c.filterState }
  else
    let c := { c with frRandcount := (c.frRandcount + 2 ^ 32 - todo) % 2 ^ 32 }
    if c.frRandcount = 0 then fluxReversal 367 33 c else c

/-- BYTE READY signal if enabled: mirrors src/drive/rotation.c:465-471 and :555-561 -/
def byteReady : Circuit :=
  if d.byteReadyActive &&& 0x02 ≠ 0 then
    let soDelay := 16 - ((c.cycleIndex + (todo - 1)) &&& 15)
    { c with soDelay := if soDelay < 10 then soDelay + 16 else soDelay }
  else c

/-- UE5 NOR gate shifts in a 1 only at C2 when DC is 0: mirrors src/drive/rotation.c:446-447,
:541-542 -/
def shiftIn : Circuit :=
  { c with
    lastReadData := ((c.lastReadData <<< 1) &&& 0x3fe) ||| (((c.uf4Counter + 0x1c) >>> 4) &&& 1) }

/-- mirrors src/drive/rotation.c:447-450 -/
def readIn : Circuit :=
  { shiftIn c with
    writeFlux := c.lastWriteData &&& 0x80
    lastWriteData := c.lastWriteData <<< 1 }

/-- The eighth bit of a byte is in: mirrors src/drive/rotation.c:461-463 -/
def byteRead : Circuit :=
  { c with
    bitCounter := 0
    gcrRead := c.lastReadData.toUInt8
    lastWriteData := c.lastReadData.toUInt8 }

/-- The shifter in read mode; ten ones are a SYNC and restart the bit counter:
mirrors src/drive/rotation.c:444-473 -/
def readShift : Circuit :=
  let c := readIn c
  if c.lastReadData = 0x3ff then { c with bitCounter := 0 }
  else if c.bitCounter + 1 = 8 then byteReady d todo (byteRead c)
  else { c with bitCounter := c.bitCounter + 1 }

/-- mirrors src/drive/rotation.c:542-548 -/
def writeOut : Circuit :=
  { writeNextBit d (shiftIn c) (c.lastWriteData &&& 0x80) with
    lastWriteData := c.lastWriteData <<< 1
    accum := cycSumFrv d * 2 }

/-- The shifter in write mode: mirrors src/drive/rotation.c:539-563 -/
def writeShift : Circuit :=
  let c := writeOut d c
  if c.bitCounter + 1 = 8 then
    byteReady d todo { c with bitCounter := 0, lastWriteData := d.gcrWriteValue }
  else { c with bitCounter := c.bitCounter + 1 }

/-- Divide the reference clock with UE7, and the shifter on the rising edge of UF4 stage B:
mirrors src/drive/rotation.c:434-475, in write mode :529-564 -/
def divide : Circuit :=
  if c.ue7Counter + todo = 16 then
    let c := { c with ue7Counter := c.ue7Dcba, uf4Counter := (c.uf4Counter + 1) &&& 0xf }
    if c.uf4Counter &&& 3 = 2 then
      if d.readWriteMode then readShift d todo c else writeShift d todo c
    else c
  else { c with ue7Counter := c.ue7Counter + todo }

/-- mirrors src/drive/rotation.c:481-489: a one bit resets the filter to a fake most ready
state -/
def bitRead : Circuit :=
  let (bit, c) := readNextBit d c
  if bit ≠ 0 then { c with filterCounter := 39, filterState := c.filterState ^^^ 1 } else c

/-- Advance the count until the next bitcell and read it in read mode:
mirrors src/drive/rotation.c:477-490, in write mode :523-527 -/
def bitcell : Circuit :=
  let accum := (c.accum + cycSumFrv d * todo) % 2 ^ 32
  if countNewBitcell d ≤ accum then
    let c := { c with accum := accum - countNewBitcell d }
    if d.readWriteMode then bitRead d c else c
  else { c with accum := accum }

/-- mirrors src/drive/rotation.c:492, :566 -/
def cyclesDone : Circuit :=
  { c with cycleIndex := (c.cycleIndex + todo) % 2 ^ 32 }

/-- One pass of the loop: mirrors src/drive/rotation.c:404-493, in write mode :514-567 -/
def gcrPass : Circuit :=
  let c := soSignal todo c
  cyclesDone todo (if d.readWriteMode then bitcell d todo (divide d todo (fluxFilter todo c))
    else divide d todo (bitcell d todo c))

end

/-! ## The call -/

theorem cycSumFrv_pos (d : Drive) : 0 < cycSumFrv d := by
  unfold cycSumFrv
  split <;> omega

theorem atMost_pos {limited : Prop} [Decidable limited] {limit todo : Nat}
    (hlimit : limited → 0 < limit) (htodo : 0 < todo) : 0 < atMost limited limit todo := by
  unfold atMost
  split
  · rename_i h
    exact hlimit h.1
  · exact htodo

theorem todo_pos (d : Drive) (n : Nat) (c : Circuit) (hn : 0 < n) : 0 < todo d c n := by
  unfold todo
  split
  · rename_i h
    have hcyc := cycSumFrv_pos d
    have hcells : 0 < delta d c / cycSumFrv d := by
      have htwo := h.2.2
      rw [Nat.shiftLeft_eq, Nat.pow_one] at htwo
      exact Nat.div_pos (by omega) hcyc
    have hue7 := @atMost_pos (c.ue7Counter < 16) _ (16 - c.ue7Counter) _ (by omega)
      (@atMost_pos True _ n _ (fun _ => hn) hcells)
    refine atMost_pos id ?_
    split
    · exact atMost_pos id (atMost_pos (by omega) hue7)
    · exact hue7
  · exact Nat.one_pos

/-- The loop of `rotation_1541_gcr`. -/
def gcrPasses (d : Drive) : Passes Circuit where
  take n c := todo d c n
  pass := gcrPass d
  take_pos n c hn := todo_pos d n c hn

/-- mirrors src/drive/rotation.c:339-570 (`rotation_1541_gcr`) -/
def rotation1541Gcr (d : Drive) (refCycles : Nat) (c : Circuit) : Circuit :=
  (gcrPasses d).run refCycles c

end Vice.L3.Rotation
