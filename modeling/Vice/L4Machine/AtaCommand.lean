import Mathlib.Algebra.GroupWithZero.Nat
import Mathlib.Tactic.SplitIfs

/-!
# Hard disks (`core/ata.c`)

The drives of the IDE64 keep a command block that the computer fills, and execute a command when it
is stored. The commands that address a sector turn the block into a number, linear or through the
translation that is set, move the head there and read or write from it.

* `seekSector`, `readSector`, `writeSector`: what the commands are made of.
* `ataExecuteCommand`: the commands.

This is the drive without packets (`atapi` is 0). The remainder by `sectors` in `ata_set_command_block`
is undefined in the source where that is 0, which needs an operation of the host that fails.
-/
namespace Vice.L4.AtaCommand

/-! ## The file -/

/-- An open file: what is in it, where it is, and the places where the host fails to do something. -/
structure Image where
  data : List UInt8
  pos : Nat
  seekFails : Nat → Bool
  readFails : Nat → Bool
  writeFails : Nat → Bool
  flushFails : List UInt8 → Bool

def sectorSize : Nat := 512

/-- A sector is read whole, or as zeros; and whether that is an error. -/
def Image.read (f : Image) : List UInt8 × Bool × Image :=
  let got := (f.data.drop f.pos).take sectorSize
  if f.readFails f.pos then (List.replicate sectorSize 0, true, f)
  else if got.length = sectorSize then (got, false, { f with pos := f.pos + sectorSize })
  else (List.replicate sectorSize 0, false, { f with pos := f.pos + got.length })

/-- Past the end of the file there are zeros in between. -/
def put (data : List UInt8) (pos : Nat) (buffer : List UInt8) : List UInt8 :=
  (data ++ List.replicate (pos - data.length) 0).take pos ++ buffer ++ data.drop (pos + buffer.length)

def Image.write (f : Image) (buffer : List UInt8) : Bool × Image :=
  if f.writeFails f.pos then (true, f)
  else (false, { f with data := put f.data f.pos buffer, pos := f.pos + buffer.length })

/-! ## The drive -/

/-- The heads and sectors that are counted with, and the cylinders that makes. -/
structure Translation where
  cylinders : Nat
  heads : Nat
  sectors : Nat
  cylinders_le : cylinders ≤ 65536
  heads_le : heads ≤ 16
  sectors_le : sectors ≤ 63

def Translation.none : Translation := ⟨0, 0, 0, by decide, by decide, by decide⟩

/-- The default translation, and the number of sectors. -/
structure Geometry where
  translation : Translation
  size : Nat

theorem heads_neZero : NeZero 16 := ⟨by decide⟩

attribute [scoped instance] heads_neZero

/-- The fields of `ata_drive_s` that the commands for sectors use; of the device register only the
head, which has four bits, and the mode. An alarm that is not set is none. -/
structure Drive where
  error : UInt8
  sectorCount : UInt8
  sectorCountInternal : UInt8
  sector : UInt8
  cylinder : UInt16
  head : Fin 16
  lba : Bool
  cmd : UInt8
  power : UInt8
  bufp : Nat
  buffer : List UInt8
  image : Option Image
  geometry : Geometry
  translation : Translation
  readonly : Bool
  wcache : Bool
  busy : UInt8
  pos : Nat
  standby : Nat
  standbyMax : Nat
  spindleAlarm : Option Nat
  headAlarm : Option Nat
  standbyAlarm : Option Nat
  lbamode : Bool
  seekTime : Nat
  spinupTime : Nat
  spindownTime : Nat
  cycles1s : Nat

/-- mirrors src/core/ata.c:48-51 -/
def ATA_UNC : UInt8 := 0x40
def ATA_IDNF : UInt8 := 0x10
def ATA_ABRT : UInt8 := 0x04
def ATA_WP : UInt8 := 0x40

/-- mirrors src/core/ata.c:144-168 (`ata_change_power_mode`) -/
def ataChangePowerMode (clk : Nat) (value : UInt8) (d : Drive) : Drive :=
  let d := if d.power = 0x00 ∧ value ≠ 0x00 then
      { d with busy := d.busy ||| 1, spindleAlarm := some (clk + d.spinupTime) }
    else d
  let d := if d.power ≠ 0x00 ∧ value = 0x00 then
      { d with busy := d.busy ||| 1, spindleAlarm := some (clk + d.spindownTime) }
    else d
  let d := { d with standby := if value = 0x00 then 0 else d.standbyMax }
  let d := if value ≠ 0xff then { d with pos := 0 } else d
  { d with
    standbyAlarm := if d.standby ≠ 0 then some (clk + 5 * d.cycles1s) else none
    power := value }

/-- mirrors src/core/ata.c:202-217 (`ata_set_command_block`) -/
def ataSetCommandBlock (d : Drive) : Drive :=
  if d.lbamode && d.lba then
    { d with
      head := Fin.ofNat 16 (d.pos >>> 24)
      cylinder := (d.pos >>> 8).toUInt16
      sector := d.pos.toUInt8 }
  else
    { d with
      sector := (d.pos % d.translation.sectors + 1).toUInt8
      head := Fin.ofNat 16 (d.pos / d.translation.sectors % d.translation.heads)
      cylinder := (d.pos / d.translation.sectors / d.translation.heads).toUInt16 }

section
variable (d : Drive)

/-! ## Addresses -/

def lbaAddress : Nat := d.head.val <<< 24 ||| d.cylinder.toNat <<< 8 ||| d.sector.toNat

def chsAddress : Int :=
  (d.cylinder.toNat * d.translation.heads + d.head.val) * d.translation.sectors + d.sector.toNat - 1

/-- mirrors src/core/ata.c:221,227-237: what is in `lba` at the end. -/
def seekAddress : Int :=
  if d.lbamode && d.lba then lbaAddress d
  else
    let _lba : Int :=
      if d.sector = 0 ∨ d.translation.sectors < d.sector.toNat ∨ d.translation.heads ≤ d.head.val ∨
        d.translation.cylinders ≤ d.cylinder.toNat then -1
      else 0
    chsAddress d

/-- mirrors src/core/ata.c:219-255 (`seek_sector`) -/
def seekSector (clk : Nat) : Drive :=
  let d := { d with bufp := sectorSize, error := 0, cmd := 0x00 }
  let lba := seekAddress d
  match d.image with
  | none => { d with error := ATA_ABRT }
  | some f =>
    if (d.geometry.size : Int) ≤ lba ∨ lba < 0 then { d with error := ATA_IDNF }
    else
      let lba := lba.toNat
      let way := if d.pos < lba then lba - d.pos else d.pos - lba
      let d := { d with
        busy := d.busy ||| 2
        headAlarm := some (clk + way * d.seekTime / d.geometry.size) }
      let d := ataChangePowerMode clk 0xff d
      let d := if f.seekFails (lba * sectorSize) then { d with error := ATA_IDNF }
        else { d with image := some { f with pos := lba * sectorSize } }
      { d with pos := lba }

/-! ## Sectors -/

/-- mirrors src/core/ata.c:266-299 (`read_sector`) -/
def readSector : Drive :=
  let d := { d with bufp := sectorSize, error := 0 }
  match d.image with
  | none => { ataSetCommandBlock d with error := ATA_ABRT, cmd := 0x00 }
  | some f =>
    let (buffer, failed, f) := f.read
    let d := { d with buffer := buffer, image := some f }
    if failed then { ataSetCommandBlock d with error := ATA_UNC ||| ATA_ABRT, cmd := 0x00 }
    else { d with pos := d.pos + 1, bufp := 0 }

/-- mirrors src/core/ata.c:301-343 (`write_sector`) -/
def writeSector : Drive :=
  let d := { d with bufp := sectorSize, error := 0 }
  match d.image with
  | none => { ataSetCommandBlock d with error := ATA_ABRT, cmd := 0x00 }
  | some f =>
    if d.readonly then { ataSetCommandBlock d with error := ATA_WP ||| ATA_ABRT, cmd := 0x00 }
    else
      let (failed, f) := f.write d.buffer
      let d := { d with image := some f }
      let d := if failed then { ataSetCommandBlock d with error := ATA_UNC ||| ATA_ABRT, cmd := 0x00 }
        else { d with pos := d.pos + 1 }
      if d.wcache = false ∧ f.flushFails f.data then
        { ataSetCommandBlock d with error := ATA_UNC ||| ATA_ABRT, cmd := 0x00 }
      else d

/-- mirrors src/core/ata.c:619-621: at most `n` turns of the loop, which never takes more than 256. -/
def verifyTurns : Nat → Drive → Drive
  | 0, d => d
  | n + 1, d =>
    let d := readSector d
    if d.error ≠ 0 then d
    else
      let d := { d with sectorCountInternal := d.sectorCountInternal - 1 }
      if d.sectorCountInternal = 0 then d else verifyTurns n d

/-! ## Commands -/

/-- INITIALIZE DEVICE PARAMETERS: mirrors src/core/ata.c:635-655 -/
def initializeDeviceParameters : Drive :=
  let heads := d.head.val + 1
  let sectors := d.sectorCount.toNat
  if h : sectors < 1 ∨ 63 < sectors then { d with translation := .none, error := ATA_ABRT }
  else
    let size := min d.geometry.size 16514064 / (heads * sectors)
    let cylinders := min size 65535
    if cylinders = 0 then { d with translation := .none, error := ATA_ABRT }
    else
      { d with
        translation := ⟨cylinders, heads, sectors,
          Nat.le_trans (Nat.min_le_right _ _) (by decide), d.head.isLt, by omega⟩ }

/-- mirrors src/core/ata.c:572-655 (`ata_execute_command`); `others` does the other commands. -/
def ataExecuteCommand (others : UInt8 → Drive → Drive) (clk : Nat) (value : UInt8) : Drive :=
  if d.cmd = 0xe6 then d
  else
    let d := { d with bufp := sectorSize, error := 0, cmd := 0x00 }
    if value = 0x00 then { d with error := ATA_ABRT }
    else if value = 0x20 ∨ value = 0x21 then
      let d := seekSector { d with sectorCountInternal := d.sectorCount } clk
      if d.error ≠ 0 then d else readSector { d with cmd := 0x20 }
    else if value = 0x30 ∨ value = 0x31 then
      let d := seekSector { d with sectorCountInternal := d.sectorCount } clk
      if d.error ≠ 0 then d
      else if d.readonly then { d with error := ATA_WP ||| ATA_ABRT }
      else { d with bufp := 0, cmd := 0x30 }
    else if value = 0x40 ∨ value = 0x41 then
      let d := seekSector { d with sectorCountInternal := d.sectorCount } clk
      if d.error ≠ 0 then d else verifyTurns 256 d
    else if value = 0x70 then seekSector d clk
    else if value = 0x91 then initializeDeviceParameters d
    else others value d

end

end Vice.L4.AtaCommand
