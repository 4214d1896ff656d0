import Vice.L3Drive.FreeMap

/-!
# The directory (`vdrive-dir.c`)

A directory is a chain of sectors with eight entries of 32 bytes each. A search is kept in a
context: the sector that is in its buffer and the number of the entry, before which the
search has got. `vdrive_dir_find_next_slot` goes on to the next entry that matches a name,
or, with a length of -1, to the next one that is not in use, and then makes the directory
longer if it has to.

The first two bytes of a sector are its link, also where they are those of its first entry.
-/
namespace Vice.L3.Directory
open Vice.L2.Geometry Vice.L3.Disk Vice.L3.Drive Vice.L3.Bam Vice.L3.BamLayout Vice.L3.BamSearch

/-! ## Entries -/

/- mirrors src/vdrive/vdrive-dir.h:34-53 -/
def slotTypeOffset : Nat := 2
def slotFirstTrack : Nat := 3
def slotFirstSector : Nat := 4
def slotNameOffset : Nat := 5
def slotSideTrack : Nat := 21
def slotSideSector : Nat := 22
def slotRecordLength : Nat := 23
def slotGeosYear : Nat := 25
def slotGeosMonth : Nat := 26
def slotGeosDate : Nat := 27
def slotGeosHour : Nat := 28
def slotGeosMinute : Nat := 29
def slotNrBlocks : Nat := 30

/- mirrors src/cbmdos.h:81-87 -/
def ftDel : Nat := 0
def ftRel : Nat := 4

/-- mirrors src/cbmdos.c:130-153 (`cbmdos_parse_wildcard_compare`): `n` characters from `index` on -/
def compareFrom (name1 name2 : Nat → UInt8) : Nat → Nat → Bool
  | 0, _ => true
  | n + 1, index =>
    if name1 index = 42 then true
    else if name1 index = 63 then
      if name2 index = 0xa0 then false else compareFrom name1 name2 n (index + 1)
    else if name1 index = 0xa0 then name2 index = 0xa0
    else if name1 index ≠ name2 index then false
    else compareFrom name1 name2 n (index + 1)

def cbmdosParseWildcardCompare (name1 name2 : Nat → UInt8) : Bool := compareFrom name1 name2 16 0

/-- mirrors src/cbmdos.c:155-169 (`cbmdos_dir_slot_create`) -/
def cbmdosDirSlotCreate (name : List UInt8) : Nat → UInt8 := fun k => (name.take 16).getD k 0xa0

/-- mirrors src/vdrive/vdrive-dir.h:64-76 (`vdrive_dir_context_t`) -/
structure DirContext where
  buffer : Buf
  findLength : Int
  findNslot : Nat → UInt8
  findType : Nat
  slot : Nat
  track : Nat
  sector : Nat
  timeLow : Nat
  timeHigh : Nat

/-- The bytes of entry `slot` of a sector. -/
def slotBytes (buffer : Buf) (slot : Nat) : Buf := fun k => buffer (slot * 32 + k)

/-- mirrors src/vdrive/vdrive-dir.c:94-112 (`vdrive_dir_name_match`) -/
def vdriveDirNameMatch (slot : Buf) (nslot : Nat → UInt8) (length : Int) (type : Nat) : Bool :=
  if length < 0 then slot slotTypeOffset = 0
  else if slot slotTypeOffset = 0 then false
  else if type ≠ ftDel ∧ type ≠ (slot slotTypeOffset &&& 7).toNat then false
  else cbmdosParseWildcardCompare nslot fun k => slot (slotNameOffset + k)

/-- mirrors src/vdrive/vdrive-dir.c:249-261 (`date_to_int`) -/
def dateToInt (year month day hour minute : Nat) : Nat :=
  ((((year <<< 4 ||| month) <<< 5 ||| day) <<< 5 ||| hour) <<< 6 ||| minute) % 2 ^ 32

/-- mirrors src/vdrive/vdrive-dir.c:309-323: the entry matches, and its date is in the range. -/
def hits (dir : DirContext) (slot : Buf) : Bool :=
  let t := dateToInt (slot slotGeosYear).toNat (slot slotGeosMonth).toNat (slot slotGeosDate).toNat
    (slot slotGeosHour).toNat (slot slotGeosMinute).toNat
  vdriveDirNameMatch slot dir.findNslot dir.findLength dir.findType &&
    decide (t ≥ dir.timeLow ∧ t ≤ dir.timeHigh)

/-! ## Searching -/

/-- mirrors src/vdrive/vdrive-dir.c:211-246 (`vdrive_dir_find_first_slot`). `none` is a null name with
the length -1. -/
def vdriveDirFindFirstSlot (vdrive : Vdrive) (name : Option (List UInt8)) (type : Nat)
    (dir : DirContext) : DirContext :=
  let nslot := match name with
    | none | some [] => dir.findNslot
    | some name => cbmdosDirSlotCreate name
  let buffer := (vdriveReadSector vdrive dir.buffer vdrive.headerTrack vdrive.headerSector).2
  { dir with
    findNslot := nslot
    findLength := match name with | none => -1 | some name => name.length
    findType := type
    track := vdrive.headerTrack
    sector := vdrive.headerSector
    slot := 7
    timeLow := 0
    timeHigh := 0xffffffff
    buffer := if vdrive.imageFormat ≠ .np then
        Function.update (Function.update buffer 0 (UInt8.ofNat vdrive.dirTrack)) 1
          (UInt8.ofNat vdrive.dirSector)
      else buffer }

/-- The ends of a step through the directory. -/
inductive Step
  | entry | ended | error
  deriving DecidableEq

/-- mirrors src/vdrive/vdrive-dir.c:287-307: goes to the next entry, which may be in the next
sector. -/
def nextEntry (vdrive : Vdrive) (dir : DirContext) : Step × DirContext :=
  let dir := { dir with slot := dir.slot + 1 }
  if dir.slot ≥ 8 then
    if dir.buffer 0 = 0 then (.ended, dir)
    else
      let track := (dir.buffer 0).toNat
      let sector := (dir.buffer 1).toNat
      let (status, buffer) := vdriveReadSector vdrive dir.buffer track sector
      let dir := { dir with slot := 0, track := track, sector := sector, buffer := buffer }
      (if status ≠ .ok then .error else .entry, dir)
  else (.entry, dir)

/-- mirrors src/vdrive/vdrive-dir.c:283-325: the loop. Its fuel bounds the entries it looks at. -/
def searchSlots (vdrive : Vdrive) : Nat → DirContext → Option (Step × DirContext)
  | 0, _ => none
  | fuel + 1, dir =>
    match nextEntry vdrive dir with
    | (.ended, dir) => some (.ended, dir)
    | (.error, dir) => some (.error, dir)
    | (.entry, dir) =>
      if hits dir (slotBytes dir.buffer dir.slot) then some (.entry, dir)
      else searchSlots vdrive fuel dir

/-- mirrors src/vdrive/vdrive-dir.c:72-92 (`vdrive_dir_get_interleave`) -/
def vdriveDirGetInterleave (format : Format) : Nat :=
  match format with
  | .f1581 | .np => 1
  | _ => 3

/-- mirrors src/vdrive/vdrive-dir.c:142-165: what `find_next_directory_sector` does with a sector it
could allocate: the directory goes on there. -/
def linkDirectorySector (vdrive : Vdrive) (dir : DirContext) (track sector : Nat) :
    DirContext × Vdrive :=
  let buffer := Function.update (Function.update dir.buffer 0 (UInt8.ofNat track)) 1
    (UInt8.ofNat sector)
  let (_, vdrive) := vdriveWriteSector vdrive buffer dir.track dir.sector
  ({ dir with
    slot := 0
    buffer := fun k => if k = 1 then 0xff else 0
    track := track
    sector := sector }, vdrive)

/-- mirrors src/vdrive/vdrive-dir.c:392-435: the entry of a NP subdirectory counts its blocks. -/
def countDirectorySector (vdrive : Vdrive) (dir : DirContext) : Option Buf × Vdrive :=
  if vdrive.imageFormat = .f9000 then (some dir.buffer, vdrive)
  else if vdrive.headerTrack = 1 ∧ vdrive.headerSector = 1 then (some dir.buffer, vdrive)
  else
    let (rc, tmp) := vdriveReadSector vdrive (fun _ => 0) vdrive.headerTrack vdrive.headerSector
    if rc ≠ .ok then (none, vdrive)
    else
      let t := (tmp 0x24).toNat
      let s := (tmp 0x25).toNat
      let j := (tmp 0x26).toNat + slotNrBlocks - 2
      let (rc, tmp) := vdriveReadSector vdrive tmp t s
      if rc ≠ .ok then (none, vdrive)
      else
        let c := ((tmp j).toNat ||| (tmp (j + 1)).toNat <<< 8) + 1
        let tmp := Function.update (Function.update tmp j (UInt8.ofNat (c % 256))) (j + 1)
          (UInt8.ofNat (c / 256))
        let (rc, vdrive) := vdriveWriteSector vdrive tmp t s
        (if rc ≠ .ok then none else some dir.buffer, vdrive)

/-- mirrors src/vdrive/vdrive-dir.c:337-391: makes the directory longer. The scan is that of
`vdrive_bam_alloc_worker`, and what it finds gets linked. -/
def extendDirectory (vdrive : Vdrive) (dir : DirContext) : Option Buf × DirContext × Vdrive :=
  let maxSector := vdriveGetMaxSectorsPerHead vdrive dir.track
  let maxSectorAll := vdriveGetMaxSectors vdrive dir.track
  let h := dir.sector / maxSector * maxSector
  let sector := dir.sector % maxSector + vdriveDirGetInterleave vdrive.imageFormat
  let sector := if sector ≥ maxSector then
      (if sector - maxSector ≠ 0 then sector - maxSector - 1 else 0)
    else sector
  match scanHeads dir.track maxSector maxSectorAll ((maxSectorAll + maxSector - 1) / maxSector)
      sector h vdrive with
  | (some sector, vdrive) =>
    let (dir, vdrive) := linkDirectorySector vdrive dir dir.track sector
    (some dir.buffer, dir, vdrive)
  | (none, vdrive) =>
    if vdrive.imageFormat = .np ∨ vdrive.imageFormat = .f9000 then
      match vdriveBamAllocNextFreeSectorInterleave vdrive dir.track dir.sector
          (vdriveDirGetInterleave vdrive.imageFormat) with
      | (none, vdrive) => (none, dir, vdrive)
      | (some (t, s), vdrive) =>
        -- `find_next_directory_sector` allocates it again
        let (_, vdrive) := vdriveBamFreeSector vdrive t s
        let (ok, vdrive) := vdriveBamAllocateSector vdrive t s
        if ok then
          let (dir, vdrive) := linkDirectorySector vdrive dir t s
          let (slot, vdrive) := countDirectorySector vdrive dir
          (slot, dir, vdrive)
        else (none, dir, vdrive)
    else (none, dir, vdrive)

/-- mirrors src/vdrive/vdrive-dir.c:263-435 (`vdrive_dir_find_next_slot`) -/
def vdriveDirFindNextSlot (fuel : Nat) (vdrive : Vdrive) (dir : DirContext) :
    Option (Option Buf × DirContext × Vdrive) :=
  match searchSlots vdrive fuel dir with
  | none => none
  | some (.entry, dir) => some (some (slotBytes dir.buffer dir.slot), dir, vdrive)
  | some (.error, dir) => some (none, dir, vdrive)
  | some (.ended, dir) =>
    if dir.findLength < 0 then some (extendDirectory vdrive dir) else some (none, dir, vdrive)

/-- The buffer with entry `slot` overwritten, but for its first two bytes. -/
def pokeSlot (buffer : Buf) (slot : Nat) (entry : Buf) : Buf := fun k =>
  if slot * 32 + 2 ≤ k ∧ k < slot * 32 + 32 then entry (k - slot * 32) else buffer k

end Vice.L3.Directory
