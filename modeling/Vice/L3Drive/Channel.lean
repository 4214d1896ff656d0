import Vice.L3Drive.BamChain
import Vice.L3Drive.Directory

/-!
# Channels of sequential files (`vdrive-iec.c`)

A channel has a buffer of one sector. A file that is written gets its sectors one by one,
each when the one before is full; the last one and the directory entry are written when the
channel is closed.

The channel's partition is the one that is mounted, so `vdrive_iec_switch` does nothing. The
name has been parsed, and is neither `#` nor `$`. Texts for the error channel, `small`,
which is for directory listings, and `vdrive_set_last_read`, which keeps a copy for other
parts, are left out.
-/
namespace Vice.L3.Channel
open Vice.L3.Disk Vice.L3.Drive Vice.L3.Bam Vice.L3.BamSearch Vice.L3.BamChain
open Vice.L3.Directory

/-- mirrors src/vdrive/vdrive.h:56-65: the modes of a buffer that sequential files use. -/
inductive Mode
  | notInUse | sequential
  deriving DecidableEq

/-- mirrors src/cbmdos.h:93-96 -/
inductive Fam
  | read | write | append | eof
  deriving DecidableEq

/-- mirrors src/serial.h: the results of a transfer. -/
inductive Serial
  | ok | error | eof
  deriving DecidableEq

/-- mirrors src/vdrive/vdrive.h:90-132 (`bufferinfo_t`). `now` is what `vdrive_dir_updatetime` gets
from the clock, at the places where an entry keeps it. -/
structure BufferInfo where
  mode : Mode
  readmode : Fam
  buffer : Buf
  slot : Buf
  bufptr : Nat
  track : Nat
  sector : Nat
  length : Nat
  dir : DirContext
  needsupdate : Bool
  now : Buf

/-- What `cbmdos_command_parse_plus` has made of a name. -/
structure CmdParse where
  command : List UInt8
  file : List UInt8
  filetype : Nat
  readmode : Fam

/-! ## Opening -/

def fileType (slot : Buf) : Nat := (slot slotTypeOffset &&& 7).toNat

/-- mirrors src/vdrive/vdrive-iec.c:660-668: the first entry found that is no DEL. -/
def findFile : Nat → Vdrive → DirContext → Option (Option Buf × DirContext × Vdrive)
  | 0, _, _ => none
  | fuel + 1, vdrive, dir =>
    match vdriveDirFindNextSlot (fuel + 1) vdrive dir with
    | none => none
    | some (none, dir, vdrive) => some (none, dir, vdrive)
    | some (some slot, dir, vdrive) =>
      if fileType slot = ftDel then findFile fuel vdrive dir else some (some slot, dir, vdrive)

/-- mirrors src/vdrive/vdrive-iec.c:796-799: one block more, in two bytes. -/
def countBlock (slot : Buf) : Buf :=
  let low := slot slotNrBlocks + 1
  let slot := Function.update slot slotNrBlocks low
  if low = 0 then Function.update slot (slotNrBlocks + 1) (slot (slotNrBlocks + 1) + 1) else slot

def setBlocks (slot : Buf) (n : UInt8) : Buf :=
  Function.update (Function.update slot slotNrBlocks n) (slotNrBlocks + 1) n

/-- mirrors src/vdrive/vdrive-iec.c:296-315: goes to the file's last sector, whose link has the number of
its last byte. The flag tells whether all sectors could be read. -/
def scanToEnd : Nat → Vdrive → BufferInfo → Nat → Nat → Option (Bool × BufferInfo × Nat)
  | 0, _, _, _, _ => none
  | fuel + 1, vdrive, p, track, sector =>
    if track = 0 then some (true, p, sector)
    else
      let (rc, buffer) := vdriveReadSector vdrive p.buffer track sector
      let p := { p with track := track, sector := sector, buffer := buffer }
      if rc ≠ .ok then some (false, p, sector)
      else scanToEnd fuel vdrive { p with slot := countBlock p.slot } (buffer 0).toNat
        (buffer 1).toNat

/-- mirrors src/vdrive/vdrive-iec.c:124-144 (`iec_open_read_sequential`) -/
def iecOpenReadSequential (vdrive : Vdrive) (p : BufferInfo) (track sector : Nat) :
    Serial × BufferInfo :=
  let (status, buffer) := vdriveReadSector vdrive p.buffer track sector
  let p := { p with
    mode := .sequential
    bufptr := 2
    buffer := buffer
    length := if buffer 0 ≠ 0 then 0 else (buffer 1).toNat }
  if status ≠ .ok then (.error, { p with mode := .notInUse }) else (.ok, p)

/-- mirrors src/vdrive/vdrive-iec.c:146-173 (`iec_open_read`) -/
def iecOpenRead (vdrive : Vdrive) (p : BufferInfo) (slot : Option Buf) : Serial × BufferInfo :=
  match slot with
  | none => (.error, p)
  | some slot =>
    if slot slotTypeOffset &&& 0x80 ≠ 0 ∧ fileType slot ≠ ftRel then
      iecOpenReadSequential vdrive p (slot slotFirstTrack).toNat (slot slotFirstSector).toNat
    else (.error, p)

/-- mirrors src/vdrive/vdrive-dir.c:169-184 (`vdrive_dir_create_slot`) -/
def vdriveDirCreateSlot (p : BufferInfo) (realname : List UInt8) (filetype : Nat) : BufferInfo :=
  { p with
    slot := fun k =>
      if k = slotTypeOffset then UInt8.ofNat filetype
      else if slotNameOffset ≤ k ∧ k < slotNameOffset + 16 then
        realname.getD (k - slotNameOffset) 0xa0
      else 0
    mode := .sequential
    bufptr := 2 }

/-- mirrors src/vdrive/vdrive-iec.c:273-323: the file goes on behind its last byte. -/
def iecOpenAppend (fuel : Nat) (vdrive : Vdrive) (p : BufferInfo) (slot : Buf) :
    Option (Serial × BufferInfo) :=
  let track := (slot slotFirstTrack).toNat
  let sector := (slot slotFirstSector).toNat
  let slot := Function.update slot slotTypeOffset (slot slotTypeOffset &&& 0x7f)
  let p := { p with mode := .sequential, slot := setBlocks slot 0xff, track := track, sector := sector }
  match scanToEnd fuel vdrive p track sector with
  | none => none
  | some (false, p, _) => some (.error, { p with mode := .notInUse })
  | some (true, p, sector) =>
    if p.track = 0 then some (.ok, { p with slot := setBlocks p.slot 0, bufptr := 2 })
    else some (.ok, { p with bufptr := sector + 1 })

/-- mirrors src/vdrive/vdrive-iec.c:336-362: a NP partition has the first sector allocated before the
entry is made. -/
def iecOpenNp (vdrive : Vdrive) (p : BufferInfo) : Option BufferInfo × Vdrive :=
  if vdrive.imageFormat = .np then
    match vdriveBamAllocFirstFreeSector vdrive with
    | (none, vdrive) => (none, vdrive)
    | (some (track, sector), vdrive) =>
      let slot := Function.update (Function.update p.slot slotFirstTrack (UInt8.ofNat track))
        slotFirstSector (UInt8.ofNat sector)
      (some { p with track := track, sector := sector, slot := setBlocks slot 0 }, vdrive)
  else (some p, vdrive)

/-- mirrors src/vdrive/vdrive-iec.c:331-384: a new file. The flag tells whether it has an entry. -/
def iecOpenNew (fuel : Nat) (vdrive : Vdrive) (p : BufferInfo) (cmd : CmdParse) :
    Option (Bool × BufferInfo × Vdrive) :=
  let p := vdriveDirCreateSlot p (cmd.file.take 16) cmd.filetype
  match iecOpenNp vdrive p with
  | (none, vdrive) => some (false, p, vdrive)
  | (some p, vdrive) =>
    match vdriveDirFindNextSlot fuel vdrive (vdriveDirFindFirstSlot vdrive none 0 p.dir) with
    | none => none
    | some (none, dir, vdrive) => some (false, { p with dir := dir, mode := .notInUse }, vdrive)
    | some (some _, dir, vdrive) =>
      let p := { p with dir := dir }
      some (true, if vdrive.imageFormat ≠ .np then { p with track := 0, sector := 0 } else p, vdrive)

/-- mirrors src/vdrive/vdrive-iec.c:386-393: the entry goes into its sector. -/
def storeSlot (vdrive : Vdrive) (dir : DirContext) (slot : Buf) : DirContext × Vdrive :=
  let buffer := pokeSlot dir.buffer dir.slot slot
  let (_, vdrive) := vdriveWriteSector vdrive buffer dir.track dir.sector
  ({ dir with buffer := buffer }, vdrive)

/-- mirrors src/vdrive/vdrive-iec.c:227-397 (`iec_open_write`) -/
def iecOpenWrite (fuel : Nat) (vdrive : Vdrive) (p : BufferInfo) (slot : Option Buf)
    (cmd : CmdParse) : Option (Serial × BufferInfo × Vdrive) :=
  if vdrive.image.readOnly then some (.error, p, vdrive)
  else
    let p := { p with needsupdate := false }
    match slot with
    | some slot =>
      if cmd.command.head? = some 0x40 ∨
          (slot slotTypeOffset &&& 0x80 = 0 ∧ fileType slot ≠ ftRel) then
        -- the new contents go to other sectors, and the entry stays until the channel is closed
        some (.ok, { p with
          mode := .sequential, bufptr := 2, slot := slot, needsupdate := true, track := 0,
          sector := 0 }, vdrive)
      else if p.readmode = .append then
        match iecOpenAppend fuel vdrive p slot with
        | none => none
        | some (.ok, p) =>
          let (dir, vdrive) := storeSlot vdrive p.dir p.slot
          some (.ok, { p with dir := dir }, vdrive)
        | some (status, p) => some (status, p, vdrive)
      else some (.error, p, vdrive)
    | none =>
      match iecOpenNew fuel vdrive p cmd with
      | none => none
      | some (false, p, vdrive) => some (.error, p, vdrive)
      | some (true, p, vdrive) =>
        let (dir, vdrive) := storeSlot vdrive p.dir p.slot
        some (.ok, { p with dir := dir }, vdrive)

/-- The end of `vdrive_iec_open`: it has its result, or it goes on with a relative file. -/
inductive Opened
  | done (status : Serial)
  | relative (slot : Option Buf)

/-- mirrors src/vdrive/vdrive-iec.c:645-707 (`vdrive_iec_open`), the channel being in the partition.
The fuel bounds the loops. -/
def vdriveIecOpen (fuel : Nat) (vdrive : Vdrive) (p : BufferInfo) (cmd : CmdParse) :
    Option (Opened × BufferInfo × Vdrive) :=
  if p.mode ≠ .notInUse then some (.done .error, p, vdrive)
  else
    let opentype := if cmd.readmode = .read ∨ cmd.readmode = .append then cmd.filetype else ftDel
    match findFile fuel vdrive
        (vdriveDirFindFirstSlot vdrive (some (cmd.file.take 16)) opentype p.dir) with
    | none => none
    | some (slot, dir, vdrive) =>
      let p := { p with dir := dir, readmode := cmd.readmode, needsupdate := false }
      if cmd.filetype = ftRel ∨ (slot.map fileType) = some ftRel then
        some (.relative slot, p, vdrive)
      else if cmd.readmode = .read then
        let (status, p) := iecOpenRead vdrive p slot
        some (.done status, p, vdrive)
      else (iecOpenWrite fuel vdrive p slot cmd).map fun (status, p, vdrive) =>
        (.done status, p, vdrive)

/-! ## Closing -/

/-- mirrors src/vdrive/vdrive-iec.c:1213-1229 (`vdrive_iec_update_dirent`) -/
def vdriveIecUpdateDirent (vdrive : Vdrive) (dir : DirContext) (slot : Buf) : DirContext × Vdrive :=
  let (_, buffer) := vdriveReadSector vdrive dir.buffer dir.track dir.sector
  storeSlot vdrive { dir with buffer := buffer } slot

end Vice.L3.Channel
