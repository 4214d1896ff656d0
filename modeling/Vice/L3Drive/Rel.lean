import Vice.L3Drive.Channel

/-!
# Relative files (`vdrive-rel.c`)

The data sectors of a relative file are listed in side sectors, 120 to each, six to a group; on
the larger formats a super side sector lists the groups, and on the others there is one that
is not on the disk. A channel keeps all of them in memory, with two data sectors. The file
grows by a sector at a time, which may take a side sector and the super side sector with it.

The arrays of the side sectors are functions of the place. Moving to a record ends the
record before, which may write, which may make the file grow, which moves to a record: the fuel
bounds this. Texts for the error channel and the log are left out.
-/
namespace Vice.L3.Rel
open Vice.L3.Disk Vice.L3.Drive Vice.L3.Bam Vice.L3.BamSearch Vice.L3.Directory
open Vice.L3.Channel

/- mirrors src/vdrive/vdrive-rel.h:35-47 -/
def sideSectorsMax : Nat := 6
def sideIndexMax : Nat := 120
def sideSuperMax : Nat := 126
def offsetNextTrack : Nat := 0
def offsetNextSector : Nat := 1
def offsetSectorNum : Nat := 2
def offsetRecordLen : Nat := 3
def offsetSideSector : Nat := 4
def offsetPointer : Nat := 16
def offsetSuper254 : Nat := 2
def offsetSuperPointer : Nat := 3

/-- mirrors src/vdrive/vdrive.h:90-132 (`bufferinfo_t`): what a relative file uses of it. The bits of
`needsupdate` are the first three flags. -/
structure RelInfo where
  dirtySector : Bool
  dirtyRecord : Bool
  writtenRecord : Bool
  buffer : Buf
  slot : Buf
  bufptr : Nat
  track : Nat
  sector : Nat
  length : Nat
  record : Nat
  dir : DirContext
  sideSector : Nat → UInt8
  sideSectorTrack : Nat → UInt8
  sideSectorSector : Nat → UInt8
  sideSectorNeedsupdate : Nat → Bool
  superSideSector : Buf
  superSideSectorTrack : UInt8
  superSideSectorSector : UInt8
  superSideSectorNeedsupdate : Bool
  bufferNext : Buf
  trackNext : Nat
  sectorNext : Nat
  recordMax : Nat
  recordNext : Nat

def RelInfo.recordLength (p : RelInfo) : Nat := (p.slot slotRecordLength).toNat

/-- mirrors src/vdrive/vdrive-rel.c:63-91 (`vdrive_rel_has_super`) -/
def vdriveRelHasSuper (vdrive : Vdrive) : Bool :=
  match vdrive.imageFormat with
  | .f1581 | .f8250 | .f9000 | .np => true
  | _ => false

/-- mirrors src/vdrive/vdrive-rel.c:93-144 (`vdrive_rel_blocks_max`) -/
def vdriveRelBlocksMax (vdrive : Vdrive) : Nat :=
  match vdrive.imageFormat with
  | .f2040 | .f1541 | .f1571 => 700 + 6
  | .f1581 => 3000 + 4 * 6 + 1 + 1
  | .f8050 => 720 + 6
  | .f8250 => 4090 + 5 * 6 + 5 + 1
  | .f9000 =>
    (vdrive.image.shape.sectors * vdrive.image.shape.tracks - vdrive.bamSize / 256 - 1 - 1) * 720 / 726
  | .np => 64672 + 89 * 6 + 5 + 1
  | _ => 0

/-- mirrors src/vdrive/vdrive-rel.c:146-157 (`vdrive_rel_commit`) -/
def vdriveRelCommit (vdrive : Vdrive) (p : RelInfo) : RelInfo × Vdrive :=
  if p.dirtySector then
    let (_, vdrive) := vdriveWriteSector vdrive p.buffer p.track p.sector
    ({ p with dirtySector := false }, vdrive)
  else (p, vdrive)

/-! ## The BAM -/

/-- mirrors src/vdrive/vdrive-bam.c:1358-1370: `err` is the error so far. -/
def writeBlocks : List Nat → Vdrive → Ipe → Ipe × Vdrive
  | [], vdrive, err => (err, vdrive)
  | i :: is, vdrive, err =>
    if vdrive.bamState i > 0 then
      let (err, vdrive) := vdriveWriteSector vdrive (fun k => vdrive.bam (i * 256 + k))
        (vdrive.bamTracks i).toNat (vdrive.bamSectors i).toNat
      if err ≠ .ok then (err, vdrive)
      else
        writeBlocks is { vdrive with bamState := Function.update vdrive.bamState i 0 } err
    else writeBlocks is vdrive err

/-- mirrors src/vdrive/vdrive-bam.c:1330-1380 (`vdrive_bam_write_bam`), the BAM being allocated. -/
def vdriveBamWriteBam (vdrive : Vdrive) : Ipe × Vdrive :=
  let vdrive := locateBam vdrive
  match vdrive.imageFormat with
  | .sys | .none => (.ok, vdrive)
  | _ => writeBlocks (List.range (vdrive.bamSize / 256)) vdrive .ok

/-! ## Side sectors -/

/-- mirrors src/vdrive/vdrive-rel.c:177-179 and 981-983: the number of groups. -/
def sideGroups (super : Buf) : Nat :=
  ((List.range sideSuperMax).find? fun side => super (offsetSuperPointer + 2 * side) = 0).getD
    sideSuperMax

/-- mirrors src/vdrive/vdrive-rel.c:185-191 and 993-999: the last side sector of a group, which has
no link; `sideSectorsMax` if there is none. -/
def lastSide (sideSector : Nat → UInt8) (side : Nat) : Nat :=
  ((List.range sideSectorsMax).find? fun i =>
    sideSector (256 * (side * sideSectorsMax + i) + offsetNextTrack) = 0).getD sideSectorsMax

/-- mirrors src/vdrive/vdrive-rel.c:193-195 and 1001-1003: how many sectors a side sector lists, given
the number of its last byte. The quotient of two `int` in an `unsigned int`. -/
def listed (last : UInt8) : Nat :=
  ((((last.toNat : Int) + 1 - offsetPointer).tdiv 2) % 2 ^ 32).toNat

/-- mirrors src/vdrive/vdrive-rel.c:226-229 and 1025-1029: the place of entry `j`, counted from 1. -/
def placeOf (side i j : Nat) : Nat :=
  ((256 * (i + side * sideSectorsMax) + offsetPointer + 2 * ((j : Int) - 1)) % 2 ^ 32).toNat

/-- mirrors src/vdrive/vdrive-rel.c:552-582 (`vdrive_rel_flush_sidesectors`), groups past the last
one of a super side sector apart. -/
def vdriveRelFlushSidesectors (vdrive : Vdrive) (p : RelInfo) : RelInfo × Vdrive :=
  let (p, vdrive) :=
    if p.superSideSectorNeedsupdate ∧ p.superSideSectorTrack ≠ 0 then
      let (_, vdrive) := vdriveWriteSector vdrive p.superSideSector p.superSideSectorTrack.toNat
        p.superSideSectorSector.toNat
      ({ p with superSideSectorNeedsupdate := false }, vdrive)
    else (p, vdrive)
  (List.range (sideGroups p.superSideSector * sideSectorsMax)).foldl (fun (p, vdrive) o =>
    if p.sideSectorNeedsupdate o ∧ p.sideSectorTrack o ≠ 0 then
      let (_, vdrive) := vdriveWriteSector vdrive (fun k => p.sideSector (o * 256 + k))
        (p.sideSectorTrack o).toNat (p.sideSectorSector o).toNat
      ({ p with sideSectorNeedsupdate := Function.update p.sideSectorNeedsupdate o false }, vdrive)
    else (p, vdrive)) (p, vdrive)

/-- mirrors src/vdrive/vdrive-rel.c:917-953 (`vdrive_rel_track_sector`): the sector of a record, and
where in it the record starts. -/
def vdriveRelTrackSector (p : RelInfo) (record : Nat) : Nat × Nat × Nat :=
  let recLong := record * p.recordLength
  let super := recLong / (254 * sideIndexMax * sideSectorsMax)
  let rest := recLong % (254 * sideIndexMax * sideSectorsMax)
  let side := rest / (254 * sideIndexMax)
  let rest := rest % (254 * sideIndexMax)
  let offset := rest / 254 * 2 + (super * sideSectorsMax + side) * 256 + offsetPointer
  ((p.sideSector offset).toNat, (p.sideSector (offset + 1)).toNat, recLong % 254)

/-! ## Adding a sector -/

/-- mirrors src/vdrive/vdrive-rel.c:352-368 and 375-392: new records, `0xff 0x00 ...`, in the last
`n` bytes of a buffer. `k` counts in a record of `m` bytes. -/
def fillRecords (m : Nat) : Nat → Nat → Buf → Nat → Buf × Nat × Nat
  | 0, k, buffer, recordMax => (buffer, k, recordMax)
  | n + 1, k, buffer, recordMax =>
    let buffer := Function.update buffer (255 - n) (if k = 0 then 0xff else 0x00)
    let k := (k + 1) % m
    fillRecords m n k buffer (if k = 0 then recordMax + 1 else recordMax)

/-- mirrors src/vdrive/vdrive-rel.c:226-263: the sector for the data, and one for a side sector, if
there is none or the last one is full. The first component says whether both could be had. -/
def allocSectors (vdrive : Vdrive) (p : RelInfo) (side i j : Nat) :
    Option ((Nat × Nat) × (Nat × Nat)) × Vdrive :=
  let (data, vdrive) :=
    if sideGroups p.superSideSector ≠ 0 then
      let o := placeOf side i j
      vdriveBamAllocNextFreeSector vdrive (p.sideSector o).toNat (p.sideSector (o + 1)).toNat
    else vdriveBamAllocFirstFreeSector vdrive
  match data with
  | none => (none, vdrive)
  | some (track, sector) =>
    if j = sideIndexMax ∨ j = 0 then
      match vdriveBamAllocNextFreeSector vdrive track sector with
      | (none, vdrive) => (none, vdrive)
      | (some new, vdrive) => (some ((track, sector), new), vdrive)
    else (some ((track, sector), (0, 0)), vdrive)

/-- mirrors src/vdrive/vdrive-rel.c:289-304: the super side sector, where the format has one. -/
def allocSuper (vdrive : Vdrive) (new : Nat × Nat) : Option (Nat × Nat) × Vdrive :=
  if vdriveRelHasSuper vdrive then vdriveBamAllocNextFreeSector vdrive new.1 new.2
  else (some new, vdrive)

/-- mirrors src/vdrive/vdrive-rel.c:272-287: the first data sector goes into the entry, the first side
sector into the super side sector. -/
def startLists (p : RelInfo) (data new : Nat × Nat) : RelInfo :=
  let t := UInt8.ofNat new.1
  let s := UInt8.ofNat new.2
  { p with
    slot := Function.update (Function.update p.slot slotFirstTrack (UInt8.ofNat data.1)) slotFirstSector
      (UInt8.ofNat data.2)
    superSideSector := fun k =>
      if k = offsetNextTrack ∨ k = offsetSuperPointer then t
      else if k = offsetNextSector ∨ k = offsetSuperPointer + 1 then s
      else if k = offsetSuper254 then 254
      else p.superSideSector k
    superSideSectorNeedsupdate := true }

/-- mirrors src/vdrive/vdrive-rel.c:272-313: a file without sectors gets its first. -/
def startFile (vdrive : Vdrive) (p : RelInfo) (data new : Nat × Nat) : Bool × RelInfo × Vdrive :=
  let p := startLists p data new
  match allocSuper vdrive new with
  | (none, vdrive) => (false, p, vdrive)
  | (some super, vdrive) =>
    let real := vdriveRelHasSuper vdrive
    let slot := Function.update (Function.update p.slot slotSideTrack (UInt8.ofNat super.1))
      slotSideSector (UInt8.ofNat super.2)
    let (dir, vdrive) := vdriveIecUpdateDirent vdrive p.dir slot
    (true, { p with
      superSideSectorTrack := if real then UInt8.ofNat super.1 else 0
      superSideSectorSector := if real then UInt8.ofNat super.2 else 0
      slot := slot
      dir := dir
      trackNext := data.1
      sectorNext := data.2 }, vdrive)

/-- mirrors src/vdrive/vdrive-rel.c:315-373: the last sector so far is linked to the new one and filled
with records. Returns how far the last of them has got. -/
def extendLast (vdrive : Vdrive) (p : RelInfo) (data : Nat × Nat) : RelInfo × Nat × Vdrive :=
  let m := p.recordLength
  let (p, o, vdrive) :=
    if p.bufptr + m > 256 then
      let (p, vdrive) := vdriveRelCommit vdrive p
      ({ p with
        buffer := p.bufferNext, bufferNext := p.buffer, track := p.trackNext
        sector := p.sectorNext }, p.bufptr + m - 254, vdrive)
    else (p, p.bufptr + m, vdrive)
  let buffer := Function.update (Function.update p.buffer offsetNextTrack (UInt8.ofNat data.1))
    offsetNextSector (UInt8.ofNat data.2)
  let (buffer, k, recordMax) := fillRecords m (256 - o) 0 buffer p.recordMax
  ({ p with
    buffer := buffer, trackNext := data.1, sectorNext := data.2, recordMax := recordMax
    dirtySector := true, dirtyRecord := false, writtenRecord := false }, k, vdrive)

/-- mirrors src/vdrive/vdrive-rel.c:375-403: the new sector is filled and written. -/
def fillNext (vdrive : Vdrive) (p : RelInfo) (k : Nat) : RelInfo × Vdrive :=
  let (buffer, k, recordMax) := fillRecords p.recordLength 254 k p.bufferNext p.recordMax
  let buffer := Function.update (Function.update buffer offsetNextTrack 0) offsetNextSector
    (UInt8.ofNat (255 - k))
  let (_, vdrive) := vdriveWriteSector vdrive buffer p.trackNext p.sectorNext
  ({ p with bufferNext := buffer, recordMax := recordMax }, vdrive)

/-- mirrors src/vdrive/vdrive-rel.c:405-415: the first side sector. -/
def firstSide (p : RelInfo) (new : Nat × Nat) : RelInfo :=
  { p with
    sideSector := fun k =>
      if k = offsetNextTrack then 0
      else if k = offsetRecordLen then p.slot slotRecordLength
      else if k = offsetSideSector then UInt8.ofNat new.1
      else if k = offsetSideSector + 1 then UInt8.ofNat new.2
      else p.sideSector k
    sideSectorTrack := Function.update p.sideSectorTrack 0 (UInt8.ofNat new.1)
    sideSectorSector := Function.update p.sideSectorSector 0 (UInt8.ofNat new.2) }

/-- mirrors src/vdrive/vdrive-rel.c:430-464: a new group, for the sector after the last of group
`side`. -/
def newGroup (p : RelInfo) (side : Nat) (new : Nat × Nat) : RelInfo :=
  let o := (side + 1) * sideSectorsMax
  let inGroup := fun n => decide (o ≤ n ∧ n < o + sideSectorsMax)
  { p with
    sideSector := fun k =>
      if k = 256 * o + offsetSideSector then UInt8.ofNat new.1
      else if k = 256 * o + offsetSideSector + 1 then UInt8.ofNat new.2
      else if inGroup (k / 256) then 0 else p.sideSector k
    sideSectorTrack := fun n => if inGroup n then 0 else p.sideSectorTrack n
    sideSectorSector := fun n => if inGroup n then 0 else p.sideSectorSector n
    sideSectorNeedsupdate := fun n => if inGroup n then false else p.sideSectorNeedsupdate n
    superSideSector := Function.update (Function.update p.superSideSector
      (offsetSuperPointer + (side + 1) * 2) (UInt8.ofNat new.1))
      (offsetSuperPointer + (side + 1) * 2 + 1) (UInt8.ofNat new.2)
    superSideSectorNeedsupdate := true }

/-- mirrors src/vdrive/vdrive-rel.c:466-486: the next side sector of a group; all of the group name
it. -/
def nextSide (p : RelInfo) (side i : Nat) (new : Nat × Nat) : RelInfo :=
  let l := side * sideSectorsMax
  let named := fun k =>
    if l ≤ k / 256 ∧ k / 256 ≤ l + i ∧ k % 256 = offsetSideSector + (i + 1) * 2 then UInt8.ofNat new.1
    else if l ≤ k / 256 ∧ k / 256 ≤ l + i ∧ k % 256 = offsetSideSector + (i + 1) * 2 + 1 then
      UInt8.ofNat new.2
    else p.sideSector k
  { p with
    sideSector := fun k =>
      if k = 256 * (l + i + 1) + offsetSectorNum then UInt8.ofNat (i + 1)
      else if k / 256 = l + i + 1 ∧ offsetSideSector ≤ k % 256 ∧
          k % 256 < offsetSideSector + sideSectorsMax * 2 then named (256 * l + k % 256)
      else named k
    sideSectorNeedsupdate := fun n =>
      if l ≤ n ∧ n ≤ l + i then true else p.sideSectorNeedsupdate n }

/-- mirrors src/vdrive/vdrive-rel.c:405-512: the new sector goes into a side sector, into a new one if
the last one is full. -/
def listSector (p : RelInfo) (side i j : Nat) (data new : Nat × Nat) : RelInfo :=
  let p := if j = 0 then firstSide p new else p
  let last := i + side * sideSectorsMax
  if j = sideIndexMax then
    let p := { p with
      sideSectorNeedsupdate := Function.update p.sideSectorNeedsupdate last true
      sideSector := Function.update (Function.update p.sideSector (last * 256 + offsetNextTrack)
        (UInt8.ofNat new.1)) (last * 256 + offsetNextSector) (UInt8.ofNat new.2) }
    let (p, o) :=
      if i = sideSectorsMax - 1 then (newGroup p side new, (side + 1) * sideSectorsMax)
      else (nextSide p side i new, last + 1)
    { p with
      sideSectorNeedsupdate := Function.update p.sideSectorNeedsupdate o true
      sideSectorTrack := Function.update p.sideSectorTrack o (UInt8.ofNat new.1)
      sideSectorSector := Function.update p.sideSectorSector o (UInt8.ofNat new.2)
      sideSector := fun k =>
        if k = o * 256 + offsetNextTrack then 0
        else if k = o * 256 + offsetNextSector then UInt8.ofNat (offsetPointer + 1)
        else if k = o * 256 + offsetRecordLen then p.slot slotRecordLength
        else if k = o * 256 + offsetPointer then UInt8.ofNat data.1
        else if k = o * 256 + offsetPointer + 1 then UInt8.ofNat data.2
        else p.sideSector k }
  else
    { p with
      sideSectorNeedsupdate := Function.update p.sideSectorNeedsupdate last true
      sideSector := fun k =>
        if k = last * 256 + offsetNextSector then UInt8.ofNat (offsetPointer + 2 * j + 1)
        else if k = last * 256 + offsetPointer + 2 * j then UInt8.ofNat data.1
        else if k = last * 256 + offsetPointer + 2 * j + 1 then UInt8.ofNat data.2
        else p.sideSector k }

/-! ## Records -/

/-- mirrors src/vdrive/vdrive-rel.c:1178-1220: down from a place to the last byte that is not
zero, but not below `low`. -/
def trimZeros (byte : Nat → UInt8) (low : Nat) : Nat → Nat
  | 0 => 0
  | n + 1 => if n + 1 ≥ low ∧ byte (n + 1) = 0 then trimZeros byte low n else n + 1

/-- mirrors src/vdrive/vdrive-rel.c:1116-1149: the sector of the record is in one of the buffers. -/
def fetchSector (vdrive : Vdrive) (p : RelInfo) (track sector : Nat) : Bool × RelInfo × Vdrive :=
  if p.trackNext = track ∧ p.sectorNext = sector then
    let (p, vdrive) := vdriveRelCommit vdrive p
    (true, { p with
      buffer := p.bufferNext, bufferNext := p.buffer, trackNext := p.track, sectorNext := p.sector
      track := track, sector := sector }, vdrive)
  else if p.track ≠ track ∨ p.sector ≠ sector then
    let (p, vdrive) := vdriveRelCommit vdrive p
    let (status, buffer) := vdriveReadSector vdrive p.buffer track sector
    if status ≠ .ok then (false, { p with buffer := buffer }, vdrive)
    else (true, { p with buffer := buffer, track := track, sector := sector }, vdrive)
  else (true, p, vdrive)

/-- mirrors src/vdrive/vdrive-rel.c:1185-1189: the length of a record read from behind its end. -/
def overflowLength (p : RelInfo) (position length : Nat) : Nat :=
  if p.bufptr > length ∧ position > 0 then p.bufptr + 254 - position else length

/-- mirrors src/vdrive/vdrive-rel.c:1151-1225: the pointers of a record, and where it ends. -/
def setRecord (vdrive : Vdrive) (p : RelInfo) (recStart position : Nat) : RelInfo :=
  let bufptr := recStart + 2 + position
  let recordNext := bufptr - position + p.recordLength
  let p := { p with bufptr := bufptr, recordNext := recordNext }
  let length := recordNext - 1
  if length < 256 then
    { p with length := overflowLength p position (trimZeros p.buffer bufptr length) }
  else
    let t := (p.buffer 0).toNat
    let s := (p.buffer 1).toNat
    let (ok, bufferNext) :=
      if t = 0 then (false, p.bufferNext)
      else if t ≠ p.trackNext ∨ s ≠ p.sectorNext then
        let (status, buffer) := vdriveReadSector vdrive p.bufferNext t s
        (decide (status = .ok), buffer)
      else (true, p.bufferNext)
    let p := { p with bufferNext := bufferNext }
    if ok then
      let p := { p with trackNext := t, sectorNext := s }
      let length := trimZeros (fun k => bufferNext (k - 254)) (max 256 bufptr) length
      if length < 256 ∧ bufptr < 256 then
        { p with length := overflowLength p position (trimZeros p.buffer bufptr length) }
      else { p with length := length }
    else { p with length := length }

/-- The results of moving to a record. -/
inductive Position
  | ok | noRecord | overflow | illegal

/-- mirrors src/vdrive/vdrive-rel.c:1415-1458 in `vdrive_rel_write`: on to the next sector, when
the buffer is behind. The flag tells whether it could be read. -/
def nextBlock (vdrive : Vdrive) (p : RelInfo) : Bool × RelInfo × Vdrive :=
  let (p, vdrive) := vdriveRelCommit vdrive p
  let (ok, p, vdrive) := fetchSector vdrive p (p.buffer 0).toNat (p.buffer 1).toNat
  if ok then
    (true, { p with
      bufptr := p.bufptr - 254
      length := (p.length + 2 ^ 32 - 254) % 2 ^ 32
      recordNext := (p.recordNext + 2 ^ 32 - 254) % 2 ^ 32 }, vdrive)
  else (false, p, vdrive)

/-- mirrors src/vdrive/vdrive-rel.c:1477-1499: the byte goes into the buffer, unless the record is
over. -/
def putByte (p : RelInfo) (data : UInt8) : RelInfo :=
  if p.bufptr ≥ p.recordNext then p
  else
    { p with
      buffer := Function.update p.buffer p.bufptr data
      bufptr := p.bufptr + 1
      dirtySector := true
      writtenRecord := true
      dirtyRecord := decide (p.bufptr + 1 ≠ p.recordNext) }

/-- mirrors src/vdrive/vdrive-rel.c:606-637: the block count of the entry, worked out anew. -/
def countBlocks (vdrive : Vdrive) (p : RelInfo) : RelInfo × Vdrive :=
  let bytes := p.recordMax * p.recordLength
  let data := (bytes + 253) / 254
  let sides := (data + sideIndexMax - 1) / sideIndexMax
  let blocks := data + sides + if p.superSideSectorTrack ≠ 0 then 1 else 0
  if blocks ≠ (p.slot slotNrBlocks).toNat + (p.slot (slotNrBlocks + 1)).toNat * 256 then
    let slot := Function.update (Function.update p.slot slotNrBlocks (UInt8.ofNat (blocks % 256)))
      (slotNrBlocks + 1) (UInt8.ofNat (blocks / 256))
    let (dir, vdrive) := vdriveIecUpdateDirent vdrive p.dir slot
    ({ p with slot := slot, dir := dir }, vdrive)
  else (p, vdrive)

mutual

/-- mirrors src/vdrive/vdrive-rel.c:1069-1227 (`vdrive_rel_position_internal`) -/
def vdriveRelPositionInternal : Nat → Vdrive → RelInfo → Nat → Nat → Nat →
    Option (Position × RelInfo × Vdrive)
  | 0, _, _, _, _, _ => none
  | fuel + 1, vdrive, p, recLo, recHi, position =>
    let position := position - 1
    if position ≥ p.recordLength then some (.overflow, p, vdrive)
    else
      let record := recLo + recHi * 256 - 1
      let p := { p with record := record }
      if record ≥ p.recordMax then
        some (if record > 0 then .noRecord else .ok, p, vdrive)
      else match vdriveRelFillrecord fuel vdrive p with
      | none => none
      | some (p, vdrive) =>
        let (track, sector, recStart) := vdriveRelTrackSector p record
        let (ok, p, vdrive) := fetchSector vdrive p track sector
        if ok then some (.ok, setRecord vdrive p recStart position, vdrive)
        else some (.illegal, p, vdrive)
termination_by structural fuel => fuel

/-- mirrors src/vdrive/vdrive-rel.c:522-550 (`vdrive_rel_fillrecord`) -/
def vdriveRelFillrecord : Nat → Vdrive → RelInfo → Option (RelInfo × Vdrive)
  | 0, _, _ => none
  | fuel + 1, vdrive, p =>
    if p.dirtyRecord then
      match fillZeros fuel vdrive p with
      | none => none
      | some (p, vdrive) => some ({ p with dirtyRecord := false, writtenRecord := false }, vdrive)
    else some ({ p with writtenRecord := false }, vdrive)
termination_by structural fuel => fuel

/-- mirrors src/vdrive/vdrive-rel.c:527-543: the rest of the record is filled with zeros. -/
def fillZeros : Nat → Vdrive → RelInfo → Option (RelInfo × Vdrive)
  | 0, _, _ => none
  | fuel + 1, vdrive, p =>
    if p.bufptr < p.recordNext then
      if p.bufptr < 256 then
        fillZeros fuel vdrive { p with
          buffer := Function.update p.buffer p.bufptr 0, bufptr := p.bufptr + 1, dirtySector := true }
      else match vdriveRelWrite fuel vdrive p 0 with
      | none => none
      | some (_, p, vdrive) => fillZeros fuel vdrive p
    else some (p, vdrive)
termination_by structural fuel => fuel

/-- mirrors src/vdrive/vdrive-rel.c:1383-1510 (`vdrive_rel_write`). A file that could not grow is
written to all the same: `vdrive_rel_grow` returns no negative number. -/
def vdriveRelWrite : Nat → Vdrive → RelInfo → UInt8 → Option (Serial × RelInfo × Vdrive)
  | 0, _, _, _ => none
  | fuel + 1, vdrive, p, data =>
    match (if p.record ≥ p.recordMax then vdriveRelGrow fuel vdrive p p.record
      else some (false, p, vdrive)) with
    | none => none
    | some (_, p, vdrive) =>
      if p.buffer 0 ≠ 0 then
        if p.bufptr ≥ 256 then
          let (ok, p, vdrive) := nextBlock vdrive p
          if ok then some (.ok, putByte p data, vdrive) else some (.eof, p, vdrive)
        else some (.ok, putByte p data, vdrive)
      else if p.bufptr ≥ (p.buffer 1).toNat + 2 then
        match vdriveRelGrow fuel vdrive p p.record with
        | none => none
        | some (_, p, vdrive) => some (.ok, putByte p data, vdrive)
      else some (.ok, putByte p data, vdrive)
termination_by structural fuel => fuel

/-- mirrors src/vdrive/vdrive-rel.c:584-639 (`vdrive_rel_grow`). The flag tells whether a sector could
not be added. -/
def vdriveRelGrow : Nat → Vdrive → RelInfo → Nat → Option (Bool × RelInfo × Vdrive)
  | 0, _, _, _ => none
  | fuel + 1, vdrive, p, records =>
    match addSectors fuel vdrive p records with
    | none => none
    | some (failed, p, vdrive) =>
      let (p, vdrive) := vdriveRelFlushSidesectors vdrive p
      let (_, vdrive) := vdriveBamWriteBam vdrive
      let (p, vdrive) := countBlocks vdrive p
      some (failed, p, vdrive)
termination_by structural fuel => fuel

/-- mirrors src/vdrive/vdrive-rel.c:591-598: adds until the record is there. -/
def addSectors : Nat → Vdrive → RelInfo → Nat → Option (Bool × RelInfo × Vdrive)
  | 0, _, _, _ => none
  | fuel + 1, vdrive, p, records =>
    if records ≥ p.recordMax then
      match vdriveRelAddSector fuel vdrive p with
      | none => none
      | some (true, p, vdrive) => some (true, p, vdrive)
      | some (false, p, vdrive) => addSectors fuel vdrive p records
    else some (false, p, vdrive)
termination_by structural fuel => fuel

/-- mirrors src/vdrive/vdrive-rel.c:159-520 (`vdrive_rel_add_sector`). The flag is the
result, 1 if no sector could be added; the caller does not look at the sector. -/
def vdriveRelAddSector : Nat → Vdrive → RelInfo → Option (Bool × RelInfo × Vdrive)
  | 0, _, _ => none
  | fuel + 1, vdrive, p =>
    if (p.slot slotNrBlocks).toNat + (p.slot (slotNrBlocks + 1)).toNat * 256 ≥
        vdriveRelBlocksMax vdrive then some (true, p, vdrive)
    else
      let side := sideGroups p.superSideSector - 1
      let isOld := sideGroups p.superSideSector ≠ 0
      let i := if isOld then lastSide p.sideSector side else 0
      let j := if isOld then
          listed (p.sideSector (256 * (i + side * sideSectorsMax) + offsetNextSector))
        else 0
      match allocSectors vdrive p side i j with
      | (none, vdrive) => some (true, p, vdrive)
      | (some (data, new), vdrive) =>
        let current := p.record + 1
        match (if j = 0 then
            let (ok, p, vdrive) := startFile vdrive p data new
            some (ok, p, 0, vdrive)
          else match vdriveRelPositionInternal fuel vdrive p (p.recordMax % 256) (p.recordMax / 256) 1 with
          | none => none
          | some (_, p, vdrive) =>
            let (p, k, vdrive) := extendLast vdrive p data
            some (true, p, k, vdrive)) with
        | none => none
        | some (false, p, _, vdrive) => some (true, p, vdrive)
        | some (true, p, k, vdrive) =>
          let (p, vdrive) := fillNext vdrive p k
          let p := listSector p side i j data new
          match vdriveRelPositionInternal fuel vdrive p (current % 256) (current / 256) 1 with
          | none => none
          | some (_, p, vdrive) => some (false, p, vdrive)
termination_by structural fuel => fuel

end

end Vice.L3.Rel
