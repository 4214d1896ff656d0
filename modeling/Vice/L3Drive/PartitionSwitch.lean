import Vice.L0Core.WriteBack
import Vice.L3Drive.Directory

/-!
# Switching drives and partitions (`vdrive.c`, `vdrive-iec.c`, `vdrive-command.c`)

A unit has up to two drives, or an image with up to 254 partitions, and a 1581 disk may in turn
have partitions made of its sectors. One BAM is cached for all of them, so it has to be written
when another one gets current. `log` is what happens to its blocks; no function looks at it.

The arrays for the partitions are indexed by `current_part`, which is -1 after a switch that failed.

Results:
* `vdriveSwitch_stays`: a switch to where the drive is.
-/
namespace Vice.L3.PartitionSwitch
open Vice.L0.WriteBack Vice.L2.Geometry Vice.L3.Disk Vice.L3.Drive Vice.L3.Bam Vice.L3.Directory

/-- A sector of one of the images. -/
abbrev Place := Nat × Option (Nat × Nat)

/-- mirrors src/vdrive/vdrive.h:134-206 (`vdrive_t`): the rest of it. `slot` says which of `images`
the current one is, whose content is in `vdrive`. -/
structure Drive where
  vdrive : Vdrive
  slot : Nat
  images : Nat → Option Image
  bamAllocated : Bool
  partStart : Nat
  partEnd : Nat
  currentPart : Int
  selectedPart : Int
  cheadertrack : Int → Nat
  cheadersector : Int → Nat
  cdirtrack : Int → Nat
  cdirsector : Int → Nat
  cpartstart : Int → Nat
  cpartend : Int → Nat
  log : List (Event Place)

def Drive.imageAt (d : Drive) (i : Nat) : Option Image :=
  if i = d.slot then some d.vdrive.image else d.images i

/-- Makes image `i` the current one. -/
def Drive.mount (d : Drive) (i : Nat) (image : Image) : Drive :=
  { d with
    vdrive := { d.vdrive with image := image }
    slot := i
    images := Function.update d.images d.slot (some d.vdrive.image) }

/-! ## The cached BAM -/

/-- The sector that BAM block `i` belongs to. -/
def Drive.home (d : Drive) (i : Nat) : Place :=
  let v := locateBam d.vdrive
  (d.slot, vdriveLogToPhy v (v.bamTracks i).toNat (v.bamSectors i).toNat)

/-- The block that a call has brought into memory, if it could be read. -/
def loadEvent (d : Drive) (i : Nat) : Event Place :=
  let v := d.vdrive
  if 0 ≤ v.bamTracks i ∧
      (vdriveReadSector v (fun _ => 0) (v.bamTracks i).toNat (v.bamSectors i).toNat).1 = .ok then
    .loaded i (d.home i)
  else .failed

/-- What a call of the BAM that left `after` has done to the blocks below `n`. -/
def noteBlocks (d after : Drive) : Nat → List (Event Place)
  | 0 => d.log
  | n + 1 =>
    let log := noteBlocks d after n
    let log :=
      if d.vdrive.bamState n < 0 ∧ 0 ≤ after.vdrive.bamState n then loadEvent after n :: log else log
    if d.vdrive.bamState n ≤ 0 ∧ 0 < after.vdrive.bamState n then .dirtied n :: log else log

/-- The drive after a call of the BAM. -/
def Drive.called (d : Drive) (v : Vdrive) : Drive :=
  { d with
    vdrive := v
    log := noteBlocks d { d with vdrive := v } 33 }

/-- mirrors src/vdrive/vdrive-bam.c:1358-1370: `err` is the error so far. -/
def writeBlocks : List Nat → Drive → Ipe → Ipe × Drive
  | [], d, err => (err, d)
  | i :: is, d, err =>
    if d.vdrive.bamState i > 0 then
      let (err, v) := vdriveWriteSector d.vdrive (fun k => d.vdrive.bam (i * 256 + k))
        (d.vdrive.bamTracks i).toNat (d.vdrive.bamSectors i).toNat
      if err ≠ .ok then (err, { d with vdrive := v, log := .failed :: d.log })
      else
        writeBlocks is
          { d with
            vdrive := { v with bamState := Function.update v.bamState i 0 }
            log := .wrote i (d.home i) :: d.log } err
    else writeBlocks is d err

/-- mirrors src/vdrive/vdrive-bam.c:1330-1380 (`vdrive_bam_write_bam`) -/
def vdriveBamWriteBam (d : Drive) : Ipe × Drive :=
  if d.bamAllocated = false then (.minus, d)
  else
    let d := { d with vdrive := locateBam d.vdrive }
    match d.vdrive.imageFormat with
    | .sys | .none => (.ok, d)
    | _ => writeBlocks (List.range (d.vdrive.bamSize / 256)) d .ok

/-- The tracks and sectors of the BAM blocks, as far as they are known beforehand. -/
def bamPlaces (vdrive : Vdrive) : List (Int × Int) :=
  match vdrive.imageFormat with
  | .f1571 => [(18, 0), (18 + (vdrive.numTracks / 2 : Nat), 0)]
  | .f1541 | .f2040 => [(18, 0)]
  | .f8050 => [(39, 0), (38, 0), (38, 3)]
  | .f8250 => [(39, 0), (38, 0), (38, 3), (38, 6), (38, 9)]
  | .np => (List.range 33).map fun i : Nat => (1, 1 + (i : Int))
  | .f9000 => [(vdrive.headerTrack, vdrive.headerSector), (vdrive.bamTrack, vdrive.bamSector)]
  | .f1581 | .sys | .none => []

/-- mirrors src/vdrive/vdrive-bam.c:1509-1585 (`vdrive_bam_setup_bam`) -/
def vdriveBamSetupBam (d : Drive) : Drive :=
  { d with
    vdrive := { d.vdrive with
      bamState := fun _ => -1
      bamTracks := fun i => ((bamPlaces d.vdrive).getD i (-1, -1)).1
      bamSectors := fun i => ((bamPlaces d.vdrive).getD i (-1, -1)).2 }
    bamAllocated := decide (d.vdrive.bamSize ≠ 0)
    log := .discarded :: d.log }

/-! ## Geometry -/

/-- The places of a format: BAM, header and directory. -/
structure Root where
  bam : Nat × Nat
  header : Nat × Nat
  dir : Nat × Nat

/-- mirrors src/vdrive/vdrive.c:608-716: the places of the root; a D9090/60 says them in its first
sector. -/
def rootOf (vdrive : Vdrive) : Root :=
  match vdrive.imageFormat with
  | .f1541 | .f2040 | .f1571 => ⟨(18, 0), (18, 0), (18, 1)⟩
  | .f1581 => ⟨(40, 0), (40, 0), (40, 3)⟩
  | .f8050 | .f8250 => ⟨(38, 0), (39, 0), (39, 1)⟩
  | .np => ⟨(1, 1), (1, 1), (1, 34)⟩
  | .sys => ⟨(0, 0), (0, 0), (1, 0)⟩
  | .f9000 =>
    let i := vdrive.numTracks / 2
    let tmp := (vdriveReadSector vdrive (fun _ => 0) 0 0).2
    let byte := fun k => (tmp k).toNat
    if byte 4 ≠ i ∨ byte 6 ≠ i ∨ byte 8 ≠ 1 ∨ byte 5 ≠ 10 ∨ byte 7 ≠ 20 then
      ⟨(1, 0), (i, 20), (i, 10)⟩
    else ⟨(byte 8, byte 9), (byte 6, byte 7), (byte 4, byte 5)⟩
  | .none =>
    ⟨(vdrive.bamTrack, vdrive.bamSector), (vdrive.headerTrack, vdrive.headerSector),
      (vdrive.dirTrack, vdrive.dirSector)⟩

/-- mirrors src/vdrive/vdrive.c:604-753 (`vdrive_set_disk_geometry`): a partition is first used as
its root, then as it was left. -/
def vdriveSetDiskGeometry (d : Drive) : Drive :=
  let root := rootOf d.vdrive
  let cur := d.currentPart
  let v := { d.vdrive with
    bamTrack := root.bam.1
    bamSector := root.bam.2
    headerTrack := root.header.1
    headerSector := root.header.2
    dirTrack := root.dir.1
    dirSector := root.dir.2 }
  if d.cheadertrack cur = 0 then
    { d with
      vdrive := v
      partStart := if v.imageFormat = .f9000 then 0 else 1
      partEnd := v.numTracks
      cheadertrack := Function.update d.cheadertrack cur root.header.1
      cheadersector := Function.update d.cheadersector cur root.header.2
      cdirtrack := Function.update d.cdirtrack cur root.dir.1
      cdirsector := Function.update d.cdirsector cur root.dir.2
      cpartstart := Function.update d.cpartstart cur 1
      cpartend := Function.update d.cpartend cur v.numTracks }
  else
    { d with
      vdrive := { v with
        headerTrack := d.cheadertrack cur
        headerSector := d.cheadersector cur
        dirTrack := d.cdirtrack cur
        dirSector := d.cdirsector cur
        bamTrack := if v.imageFormat = .f1581 then d.cheadertrack cur else v.bamTrack
        bamSector := if v.imageFormat = .f1581 then d.cheadersector cur else v.bamSector }
      partStart := d.cpartstart cur
      partEnd := d.cpartend cur }

/-! ## The partition table -/

def hdMagic : List UInt8 :=
  [0x43, 0x4d, 0x44, 0x20, 0x48, 0x44, 0x20, 0x20, 0x8d, 0x03, 0x88, 0x8e, 0x02, 0x88, 0xea, 0x60]

def fdMagic : List UInt8 :=
  [0x43, 0x4d, 0x44, 0x20, 0x46, 0x44, 0x20, 0x53, 0x45, 0x52, 0x49, 0x45, 0x53, 0x20, 0x20, 0x20]

def hasMagic (buf : Buf) (magic : List UInt8) : Bool :=
  (List.range 16).map (fun k => buf (0xf0 + k)) = magic

/-- mirrors src/vdrive/vdrive.c:1070-1087: the loop over the places where a hard disk may have its
system partition. -/
def findSysHd : List Nat → Buf → Vdrive → Ipe × Vdrive
  | [], _, vdrive => (.minus, vdrive)
  | i :: is, buf, vdrive =>
    let vdrive := { vdrive with currentOffset := i * 128 }
    let (ret, buf) := vdriveReadSector vdrive buf 0 5
    if ret ≠ .ok then (ret, vdrive)
    else if hasMagic buf hdMagic then (.ok, { vdrive with sysOffset := vdrive.currentOffset })
    else findSysHd is buf vdrive

/-- The system partition of a floppy is at its end. -/
def findSysFd (offset : Nat) (vdrive : Vdrive) : Ipe × Vdrive :=
  let vdrive := { vdrive with currentOffset := offset }
  let (ret, buf) := vdriveReadSector vdrive (fun _ => 0) 0 5
  if ret ≠ .ok then (ret, vdrive)
  else if hasMagic buf fdMagic then (.ok, { vdrive with sysOffset := vdrive.currentOffset })
  else (.minus, vdrive)

/-- mirrors src/vdrive/vdrive.c:1026-1096 (`vdrive_find_sys`), the image being there. -/
def vdriveFindSys (d : Drive) : Ipe × Drive :=
  match d.imageAt 0 with
  | none => (.minus, d)
  | some image =>
    let d := d.mount 0 image
    let v := { d.vdrive with
      sysOffset := uint32Max
      currentOffset := 0
      imageFormat := .sys }
    let (ret, v) :=
      match image.shape.type with
      | .d1m => findSysFd 0x640 v
      | .d2m => findSysFd 0xc80 v
      | .d4m => findSysFd 0x1900 v
      | .dhd => findSysHd (List.range 9) (fun _ => 0) v
      | _ => (.minus, v)
    (ret, { d with vdrive := { v with
      currentOffset := d.vdrive.currentOffset
      imageFormat := d.vdrive.imageFormat } })

/-- mirrors src/vdrive/vdrive.c:1099-1102 (`vdrive_buf3_to_word`) -/
def vdriveBuf3ToWord (buf : Buf) (p : Nat) : Nat :=
  (buf p).toNat * 65536 + (buf (p + 1)).toNat * 256 + (buf (p + 2)).toNat

/-- mirrors src/vdrive/vdrive.c:1153-1182: the entries, as far as they can be read. `olds` is the
sector that is in `buf`. -/
def readEntries : List Nat → Buf → Option Nat → Drive → Ipe × Drive
  | [], _, _, d => (.ok, d)
  | i :: is, buf, olds, d =>
    let j := i * 32
    let s := j / 256
    let j := j % 256
    let (ret, buf) := if olds = some s then (Ipe.ok, buf) else vdriveReadSector d.vdrive buf 1 s
    if ret ≠ .ok then (ret, { d with vdrive := { d.vdrive with sysOffset := uint32Max } })
    else
      let k := if i = 0 then 255 else i
      let parts := d.vdrive.parts
      let parts : PartTable :=
        { ptype := Function.update parts.ptype k (buf (j + 2)).toNat
          poffset := Function.update parts.poffset k
            (if i = 0 then d.vdrive.sysOffset else vdriveBuf3ToWord buf (j + 0x15))
          psize := Function.update parts.psize k (vdriveBuf3ToWord buf (j + 0x1d)) }
      readEntries is buf (some s)
        { d with
          vdrive := { d.vdrive with parts := parts }
          cheadertrack := Function.update d.cheadertrack k 0 }

/-- CMD HDs can access 254 partitions, the floppies 31. -/
def maxpart (vdrive : Vdrive) : Nat := if vdrive.isHd then 254 else 31

/-- mirrors src/vdrive/vdrive.c:1112-1196 (`vdrive_read_partition_table`) -/
def vdriveReadPartitionTable (d : Drive) : Ipe × Drive :=
  if d.vdrive.haspt = false then (.minus, { d with vdrive := { d.vdrive with sysOffset := uint32Max } })
  else
    let (ret, d) := if d.vdrive.sysOffset = uint32Max then vdriveFindSys d else (.ok, d)
    if ret ≠ .ok then
      let cut : (Nat → Nat) → Nat → Nat := fun f i => if i ≤ 254 then 0 else f i
      let parts := d.vdrive.parts
      (ret, { d with
        vdrive := { d.vdrive with parts := ⟨cut parts.ptype, cut parts.poffset, cut parts.psize⟩ }
        cheadertrack := fun i => if 0 ≤ i ∧ i ≤ 254 then 0 else d.cheadertrack i })
    else
      let sys := { d with vdrive := { d.vdrive with
        currentOffset := d.vdrive.sysOffset
        imageFormat := .sys } }
      let (ret, sys) := readEntries (List.range (maxpart d.vdrive + 1)) (fun _ => 0) none sys
      let parts := sys.vdrive.parts
      (ret, { sys with vdrive := { sys.vdrive with
        parts := ⟨Function.update parts.ptype 0 0, Function.update parts.poffset 0 uint32Max,
          Function.update parts.psize 0 uint32Max⟩
        currentOffset := d.vdrive.currentOffset
        imageFormat := d.vdrive.imageFormat } })

/-! ## Switching -/

/-- The formats of the partition types 1 to 4, with their tracks and the size of their BAM. -/
def partFormat (ptype : Nat) : Format × Nat × Nat :=
  [(.none, 0, 0), (.np, 255, 0x2100), (.f1541, 35, 0x100), (.f1571, 70, 0x200),
    (.f1581, 80, 0x300)].getD ptype (.none, 0, 0)

/-- mirrors src/vdrive/vdrive.c:1311-1345: a partition of an image with a table. -/
def changeTable (d : Drive) (part : Nat) : Ipe × Drive :=
  let ptype := d.vdrive.parts.ptype part
  if (4 < ptype ∧ ptype < 255) ∨ ptype = 0 then (.notReady, d)
  else if ptype ≤ 4 then
    let (format, tracks, bamSize) := partFormat ptype
    (.ok, { d with
      vdrive := { d.vdrive with
        imageFormat := format
        currentOffset := d.vdrive.parts.poffset part
        bamSize := bamSize
        numTracks := if ptype = 1 then d.vdrive.parts.psize part / 128 else tracks }
      currentPart := part })
  else if part = 255 ∧ ptype = 255 then
    (.ok, { d with
      vdrive := { d.vdrive with
        imageFormat := .sys
        currentOffset := d.vdrive.parts.poffset part
        bamSize := 0
        numTracks := 1 }
      currentPart := part })
  else (.notReady, d)

/-- mirrors src/vdrive/vdrive.c:1274-1358 (`vdrive_change_part`) -/
def vdriveChangePart (d : Drive) (part : Int) : Ipe × Drive :=
  if part < 0 ∨ (d.vdrive.haspt ∧ 255 < part) ∨ (d.vdrive.haspt = false ∧ 2 ≤ part) then (.notReady, d)
  else
    let part := if part = 0 ∧ d.vdrive.haspt then d.selectedPart else part
    let (ret, d) :=
      if d.vdrive.haspt ∧ d.vdrive.sysOffset = uint32Max then vdriveReadPartitionTable d else (.ok, d)
    if ret ≠ .ok then (ret, d)
    else if d.vdrive.haspt then changeTable d part.toNat
    else
      match d.imageAt part.toNat with
      | some image =>
        let d := d.mount part.toNat image
        (.ok, { d with
          vdrive := { d.vdrive with currentOffset := 0 }
          currentPart := part })
      | none => (.notReady, d)

/-- mirrors src/vdrive/vdrive.c:1643-1661 (`vdrive_realpart`) -/
def vdriveRealpart (d : Drive) (part : Int) : Int :=
  if d.vdrive.haspt = false then (if 2 ≤ part then 0 else part)
  else if part ≠ 0 then part
  else d.selectedPart

/-- The area of the disk that is in use is not the one that belongs to the partition. -/
def Drive.strayed (d : Drive) : Prop :=
  d.vdrive.imageFormat = .f1581 ∧
    (d.partStart ≠ d.cpartstart d.currentPart ∨ d.partEnd ≠ d.cpartend d.currentPart)

instance (d : Drive) : Decidable d.strayed := inferInstanceAs (Decidable (_ ∧ _))

/-- mirrors src/vdrive/vdrive.c:1602-1623: the switch to another drive or partition. -/
def moveTo (d : Drive) (part : Int) : Ipe × Drive :=
  let (_, d) := vdriveBamWriteBam d
  let (ret, d) := vdriveChangePart d part
  if ret = .ok then (.ok, vdriveBamSetupBam (vdriveSetDiskGeometry d))
  else
    let v := if d.vdrive.haspt then
        { d.vdrive with
          imageFormat := .none
          numTracks := 0
          bamSize := 0 }
      else d.vdrive
    (ret, { d with
      vdrive := { v with currentOffset := uint32Max }
      currentPart := -1 })

/-- mirrors src/vdrive/vdrive.c:1627-1634: back to the area that belongs to the partition. -/
def restoreArea (d : Drive) : Drive :=
  if d.strayed then vdriveBamSetupBam (vdriveSetDiskGeometry (vdriveBamWriteBam d).2) else d

/-- mirrors src/vdrive/vdrive.c:1580-1639 (`vdrive_switch`) -/
def vdriveSwitch (d : Drive) (part : Int) : Ipe × Drive :=
  if part < 0 then (.notReady, d)
  else
    let part := vdriveRealpart d part
    let (ret, d) := if part ≠ d.currentPart then moveTo d part else (.ok, d)
    (ret, restoreArea d)

/-- The fields of `bufferinfo_t` that say where a channel's file is. -/
structure FilePart where
  partition : Nat
  partstart : Nat
  partend : Nat

/-- mirrors src/vdrive/vdrive-iec.c:99-122 (`vdrive_iec_switch`) -/
def vdriveIecSwitch (d : Drive) (p : FilePart) : Ipe × Drive :=
  let (status, d) := vdriveSwitch d p.partition
  if status = .ok ∧ d.vdrive.imageFormat = .f1581 ∧
      (d.partStart ≠ p.partstart ∨ d.partEnd ≠ p.partend) then
    let (_, d) := vdriveBamWriteBam d
    (status, vdriveBamSetupBam { d with
      vdrive := { d.vdrive with
        headerTrack := p.partstart
        headerSector := 0
        bamTrack := p.partstart
        bamSector := 0
        dirTrack := p.partstart
        dirSector := 3 }
      partStart := p.partstart
      partEnd := p.partend })
  else (status, d)

/-- mirrors src/vdrive/vdrive-command.c:1850-1857 (`vdrive_command_switch`) -/
def vdriveCommandSwitch (d : Drive) (part : Int) : Ipe × Drive :=
  if part = 255 then (.notReady, d) else vdriveSwitch d part

/-- mirrors src/vdrive/vdrive-command.c:1832-1848 (`vdrive_command_return`) -/
def vdriveCommandReturn (d : Drive) (origpart : Int) : Drive :=
  if origpart < 0 then d
  else if origpart = d.currentPart then vdriveSetDiskGeometry d
  else d

/-! ## Changing to a 1581 partition -/

/-- The outcomes of `vdrive_command_chpart`, as `CBMDOS_IPE_SEL_PARTN` and so on. -/
inductive PartStatus
  | selPartn | badPartn | notFound | notReady
  deriving DecidableEq, Repr

def ftCbm : Nat := 5

/-- mirrors src/vdrive/vdrive-command.c:2295-2319: the tracks of an entry that may be entered. -/
def enterable (d : Drive) (slot : Buf) : Option (Nat × Nat) :=
  let ts := (slot slotFirstTrack).toNat
  let ss := (slot slotFirstSector).toNat
  let len := (slot slotNrBlocks).toNat ||| (slot (slotNrBlocks + 1)).toNat <<< 8
  if ss = 0 ∧ len % 40 = 0 ∧ 120 ≤ len ∧ ts ≠ 40 then
    let te := ts * 40 + len
    let ss := ts * 40
    if (ss ≤ 1600 ∧ 1600 < te) ∨ ss < d.partStart * 40 ∨ (d.partEnd + 1) * 40 < te then none
    else some (ts, ts + len / 40 - 1)
  else none

/-- mirrors src/vdrive/vdrive-command.c:2326-2347: the partition gets current. -/
def enterPart (d : Drive) (ts te : Nat) : Drive :=
  let cur := d.currentPart
  vdriveBamSetupBam { d with
    vdrive := { d.vdrive with
      headerTrack := ts
      headerSector := 0
      bamTrack := ts
      bamSector := 0
      dirTrack := ts
      dirSector := 3 }
    partStart := ts
    partEnd := te
    cheadertrack := Function.update d.cheadertrack cur ts
    cheadersector := Function.update d.cheadersector cur 0
    cdirtrack := Function.update d.cdirtrack cur ts
    cdirsector := Function.update d.cdirsector cur 3
    cpartstart := Function.update d.cpartstart cur ts
    cpartend := Function.update d.cpartend cur te }

/-- mirrors src/vdrive/vdrive-command.c:2177-2187: back to the root. -/
def resetPart (d : Drive) : Drive :=
  let (_, d) := vdriveBamWriteBam d
  vdriveBamSetupBam
    (vdriveSetDiskGeometry { d with cheadertrack := Function.update d.cheadertrack d.currentPart 0 })

/-- The entry that `name` finds in the directory. -/
def findPart (fuel : Nat) (vdrive : Vdrive) (name : List UInt8) : Option (Option Buf) :=
  let dir := vdriveDirFindFirstSlot vdrive (some name) ftCbm
    ⟨fun _ => 0, 0, fun _ => 0, 0, 0, 0, 0, 0, 0⟩
  (vdriveDirFindNextSlot fuel vdrive dir).map fun found => found.1

/-- mirrors src/vdrive/vdrive-command.c:2150-2361 (`vdrive_command_chpart`), but for the creation of
a partition; with the track numbers of its message. -/
def vdriveCommandChpart (fuel : Nat) (d : Drive) (drive : Nat) (name : List UInt8) :
    Option ((PartStatus × Nat × Nat) × Drive) :=
  let origpart := d.currentPart
  let (ret, d) := vdriveCommandSwitch d drive
  if ret ≠ .ok then some ((.notReady, 0, 0), vdriveCommandReturn d origpart)
  else if name = [] then
    some ((.selPartn, 1, 80), vdriveCommandReturn (resetPart d) origpart)
  else
    (findPart fuel d.vdrive name).map fun
      | none => ((.notFound, 0, 0), vdriveCommandReturn d origpart)
      | some slot =>
        match enterable d slot with
        | none => ((.badPartn, 0, 0), vdriveCommandReturn d origpart)
        | some (ts, te) => ((.selPartn, ts, te), vdriveCommandReturn (enterPart d ts te) origpart)

/-! ## The log aside -/

/-- A switch to where the drive is does nothing. -/
theorem vdriveSwitch_stays {d : Drive} {part : Int} (hpart : 0 ≤ part)
    (hreal : vdriveRealpart d part = d.currentPart) (hstrayed : ¬ d.strayed) :
    vdriveSwitch d part = (.ok, d) := by
  rw [vdriveSwitch, if_neg (by omega)]
  dsimp only
  rw [hreal, if_neg (by simp)]
  dsimp only
  rw [restoreArea, if_neg hstrayed]

end Vice.L3.PartitionSwitch
