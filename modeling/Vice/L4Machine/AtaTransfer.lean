import Mathlib.Algebra.Group.Int.Defs
import Vice.L4Machine.AtaCommand

/-!
# The data register of the drives (`core/ata.c`)

A command that moves sectors leaves the rest to the data register: a sector buffer, the place in it,
which is also what says that data are wanted, and a count of the sectors. All types of drives are here,
with the packet commands of those that have them; what the other commands do is a parameter.

* `ataRegisterRead`, `ataRegisterStore`: an access of the computer.
* `Event`, `transfer`: accesses and alarms while a command has data to move.
-/
namespace Vice.L4.AtaTransfer
open Vice.L4.AtaCommand (Image put ATA_ABRT ATA_IDNF ATA_UNC ATA_WP)
open scoped Vice.L4.AtaCommand

/-- mirrors src/core/ata.h (`ata_drive_type_t`) -/
inductive DriveType
  | none
  | hdd
  | fdd
  | cd
  | cf
  deriving DecidableEq

namespace DriveType

/-- What `ata_poweron` sets by the type: src/core/ata.c:411-446 -/
def atapi : DriveType → Bool
  | fdd | cd => true
  | _ => false

def sectorSize : DriveType → Nat
  | cd => 2048
  | _ => 512

end DriveType

/-- `nextSector` and `accessed` are not in the source: the sector the head is over, and every one
that was read from the file or written to it. -/
structure Drive extends AtaCommand.Drive where
  type : DriveType
  packet : List UInt8
  attention : Bool
  features : UInt8
  dev : Bool
  slave : Bool
  legacy : UInt8
  control : UInt8
  nextSector : Nat
  accessed : List Nat

/-- What the drive does for the commands that do not move sectors. -/
structure OtherCommands where
  ata : UInt8 → Drive → Drive
  atapi : UInt8 → Drive → Drive
  packet : Drive → Drive

/-- A block is read whole, or as zeros; and whether that is an error. -/
def readBlock (size : Nat) (f : Image) : List UInt8 × Bool × Image :=
  let got := (f.data.drop f.pos).take size
  if f.readFails f.pos then (List.replicate size 0, true, f)
  else if got.length = size then (got, false, { f with pos := f.pos + size })
  else (List.replicate size 0, false, { f with pos := f.pos + got.length })

section
variable (d : Drive)

/-- mirrors src/core/ata.c:202-217 (`ata_set_command_block`) -/
def ataSetCommandBlock : Drive :=
  if d.type.atapi then d else { d with toDrive := AtaCommand.ataSetCommandBlock d.toDrive }

/-- mirrors src/core/ata.c:188-200 (`drive_diag`) -/
def driveDiag : Drive :=
  { d with
    error := 1
    sectorCount := 1
    sector := 1
    cylinder := if d.type.atapi then 0xeb14 else 0x0000
    head := 0
    lba := false
    dev := d.slave
    legacy := 0
    bufp := d.type.sectorSize
    cmd := 0x08 }

/-- mirrors src/core/ata.c:345-357 (`ata_reset`) -/
def ataReset : Drive :=
  let oldcmd := d.cmd
  let d := driveDiag d
  if oldcmd ≠ 0xe6 then { d with dev := false, translation := d.geometry.translation } else d

/-- The address in the packet, an `int`. -/
def packetAddress : Int :=
  let byte (i : Nat) := (d.packet.getD i 0).toNat
  let n := byte 2 <<< 24 ||| byte 3 <<< 16 ||| byte 4 <<< 8 ||| byte 5
  if n < 2 ^ 31 then n else (n : Int) - 2 ^ 32

def address : Int := if d.type.atapi then packetAddress d else AtaCommand.seekAddress d.toDrive

/-- mirrors src/core/ata.c:219-255 (`seek_sector`) -/
def seekSector (clk : Nat) : Drive :=
  let d := { d with bufp := d.type.sectorSize, error := 0, cmd := 0x00 }
  let lba := address d
  match d.image with
  | none => { d with error := if d.type.atapi then 0x24 else ATA_ABRT }
  | some f =>
    if (d.geometry.size : Int) ≤ lba ∨ lba < 0 then
      { d with error := if d.type.atapi then 0x54 else ATA_IDNF }
    else
      let lba := lba.toNat
      let way := if d.pos < lba then lba - d.pos else d.pos - lba
      let d := { d with
        busy := d.busy ||| 2
        headAlarm := some (clk + way * d.seekTime / d.geometry.size) }
      let d := { d with toDrive := AtaCommand.ataChangePowerMode clk 0xff d.toDrive }
      let d := if f.seekFails (lba * d.type.sectorSize) then
          { d with error := if d.type.atapi then 0x54 else ATA_IDNF }
        else { d with image := some { f with pos := lba * d.type.sectorSize } }
      { d with pos := lba, nextSector := lba }

/-- mirrors src/core/ata.c:266-299 (`read_sector`) -/
def readSector : Drive :=
  let d := { d with bufp := d.type.sectorSize, error := 0 }
  if d.attention && d.type.atapi then { d with attention := false, error := 0x64, cmd := 0x00 }
  else
    match d.image with
    | none => { ataSetCommandBlock d with error := if d.type.atapi then 0x24 else ATA_ABRT, cmd := 0x00 }
    | some f =>
      let (block, failed, f) := readBlock d.type.sectorSize f
      let d := { d with
        buffer := block ++ d.buffer.drop d.type.sectorSize
        image := some f
        nextSector := d.nextSector + 1
        accessed := d.accessed ++ [d.nextSector] }
      if failed then
        { ataSetCommandBlock d with error := if d.type.atapi then 0x54 else ATA_UNC ||| ATA_ABRT, cmd := 0x00 }
      else { d with pos := d.pos + 1, bufp := 0 }

/-- mirrors src/core/ata.c:301-343 (`write_sector`) -/
def writeSector : Drive :=
  let d := { d with bufp := d.type.sectorSize, error := 0 }
  if d.attention && d.type.atapi then { d with attention := false, error := 0x64, cmd := 0x00 }
  else
    match d.image with
    | none => { ataSetCommandBlock d with error := if d.type.atapi then 0x24 else ATA_ABRT, cmd := 0x00 }
    | some f =>
      if d.readonly then
        { ataSetCommandBlock d with error := if d.type.atapi then 0x74 else ATA_WP ||| ATA_ABRT, cmd := 0x00 }
      else
        let (failed, f) := f.write (d.buffer.take d.type.sectorSize)
        let d := { d with
          image := some f
          nextSector := d.nextSector + 1
          accessed := d.accessed ++ [d.nextSector] }
        let failure := { ataSetCommandBlock d with
          error := if d.type.atapi then 0x54 else ATA_UNC ||| ATA_ABRT, cmd := 0x00 }
        let d := if failed then failure else { d with pos := d.pos + 1 }
        if d.wcache = false ∧ f.flushFails f.data then
          { ataSetCommandBlock d with error := if d.type.atapi then 0x54 else ATA_UNC ||| ATA_ABRT, cmd := 0x00 }
        else d

section
variable (others : OtherCommands) (clk : Nat)

/-- mirrors src/core/ata.c:572-610 (`ata_execute_command`) -/
def ataExecuteCommand (value : UInt8) : Drive :=
  if d.cmd = 0xe6 then d
  else
    let d := { d with bufp := d.type.sectorSize, error := 0, cmd := 0x00 }
    if value = 0x20 ∨ value = 0x21 then
      let d := seekSector { d with sectorCountInternal := d.sectorCount } clk
      if d.error ≠ 0 then d else readSector { d with cmd := 0x20 }
    else if value = 0x30 ∨ value = 0x31 then
      let d := seekSector { d with sectorCountInternal := d.sectorCount } clk
      if d.error ≠ 0 then d
      else if d.readonly then { d with error := ATA_WP ||| ATA_ABRT }
      else { d with bufp := 0, cmd := 0x30 }
    else others.ata value d

/-- mirrors src/core/ata.c:855-885 (`atapi_execute_command`) -/
def atapiExecuteCommand (value : UInt8) : Drive :=
  if d.cmd = 0xe6 ∧ value ≠ 0x08 then d
  else
    let d := { d with bufp := d.type.sectorSize, error := 0, cmd := 0x00 }
    if value = 0x08 then driveDiag d
    else if value = 0xa0 then
      { d with sectorCountInternal := 1, bufp := d.type.sectorSize - 12, cmd := 0xa0 }
    else others.atapi value d

/-- mirrors src/core/ata.c:943-1047 (`atapi_packet_execute_command`) -/
def atapiPacketExecuteCommand : Drive :=
  let d := { d with bufp := d.type.sectorSize, error := 0x00, cmd := 0x00 }
  if d.attention then { d with attention := false, error := 0x64 }
  else if d.packet.getD 0 0 = 0x28 then
    let d := seekSector { d with sectorCountInternal := d.packet.getD 8 0 } clk
    if d.error ≠ 0 then d else readSector { d with cmd := 0x28 }
  else if d.packet.getD 0 0 = 0x2a then
    let d := seekSector { d with sectorCountInternal := d.packet.getD 8 0 } clk
    if d.error ≠ 0 then d
    else if d.readonly then { d with error := 0x54 }
    else { d with bufp := 0, cmd := 0x2a }
  else others.packet d

end

/-- What is at the place in the buffer. -/
def bufferWord : UInt16 :=
  (d.buffer.getD d.bufp 0).toUInt16 ||| (d.buffer.getD (d.bufp ||| 1) 0).toUInt16 <<< 8

/-- The data register wants to be read or stored to. -/
def wantsData : Bool := d.busy == 0 && decide (d.bufp < d.type.sectorSize)

/-- Register 0: mirrors src/core/ata.c:1065-1099 -/
def readData (bus : UInt16) : UInt16 × Drive :=
  if !wantsData d then (bus, d)
  else if d.cmd ∈ [0x20, 0x23, 0x28, 0xec, 0xe4, 0xa1] then
    let res := bufferWord d
    let d := { d with bufp := d.bufp + 2 }
    if d.type.sectorSize ≤ d.bufp then
      let d := { d with sectorCountInternal := d.sectorCountInternal - 1 }
      let d := if d.sectorCountInternal = 0 then { d with cmd := 0x00 } else d
      if d.cmd = 0x20 ∨ d.cmd = 0x28 then (res, readSector d)
      else (res, { d with bufp := d.type.sectorSize, cmd := 0x00 })
    else (res, d)
  else (bus, d)

/-- Register 2: mirrors src/core/ata.c:1102-1128 -/
def countRegister : UInt8 :=
  if d.type.atapi then
    if d.cmd = 0xa0 ∨ d.cmd = 0x08 then 0x01
    else if d.cmd = 0xa1 ∨ d.cmd = 0x28 ∨ d.cmd = 0x23 then 0x02
    else if d.cmd = 0x2a then 0x00
    else if d.cmd = 0xe5 then d.sectorCount
    else 0x03
  else d.sectorCount

/-- Registers 7 and 14: mirrors src/core/ata.c:1139 -/
def status : UInt8 :=
  (if d.busy ≠ 0 then 0x80 else 0) ||| (if d.type.atapi && d.cmd == 0x08 then 0 else 0x40) |||
    (if d.bufp < d.type.sectorSize then 0x08 else 0) ||| if d.error &&& 0xfe ≠ 0 then 0x01 else 0

/-- mirrors src/core/ata.c:1049-1145 (`ata_register_read`) -/
def ataRegisterRead (addr : Nat) (bus : UInt16) : UInt16 × Drive :=
  if d.type = .none ∨ d.dev ≠ d.slave ∨ d.cmd = 0xe6 then (bus, d)
  else
    let addr := if d.busy ≠ 0 ∧ 0 < addr ∧ addr < 7 then 14 else addr
    let low (res : UInt8) := ((bus &&& 0xff00) ||| res.toUInt16, d)
    match addr with
    | 0 => readData d bus
    | 1 => low d.error
    | 2 => low (countRegister d)
    | 3 => low d.sector
    | 4 => low d.cylinder.toUInt8
    | 5 => low (d.cylinder >>> 8).toUInt8
    | 6 => low (UInt8.ofNat d.head.val ||| (if d.dev then 0x10 else 0) ||| (if d.lba then 0x40 else 0) |||
        d.legacy)
    | 7 | 14 => low (status d)
    | 15 =>
      let high : UInt16 := bus &&& 0xff80
      let dev : UInt16 := if d.dev then 2 else 1
      if d.busy &&& 0x04 ≠ 0 then (high, d)
      else (high ||| ((0x7f : UInt16) ^^^ UInt16.ofNat (d.head.val <<< 2) ^^^ dev), d)
    | _ => (bus, d)

section
variable (others : OtherCommands) (clk : Nat)

/-- The buffer is full: mirrors src/core/ata.c:1187-1204 -/
def storeSector : Drive :=
  let d := writeSector d
  if d.error ≠ 0 then d
  else
    let d := { d with sectorCountInternal := d.sectorCountInternal - 1 }
    if d.sectorCountInternal ≠ 0 then { d with bufp := 0 }
    else
      let flushed := d.image.any fun f => !f.flushFails f.data
      let d := if flushed then d else { d with error := if d.type.atapi then 0x54 else ATA_UNC ||| ATA_ABRT }
      { d with bufp := d.type.sectorSize, cmd := 0x00 }

/-- Register 0: mirrors src/core/ata.c:1175-1213 -/
def storeData (value : UInt16) : Drive :=
  if !wantsData d then d
  else if d.cmd ∈ [0x30, 0x2a, 0xe8, 0xa0] then
    let d := { d with
      buffer := (d.buffer.set d.bufp value.toUInt8).set (d.bufp ||| 1) (value >>> 8).toUInt8
      bufp := d.bufp + 2 }
    if d.type.sectorSize ≤ d.bufp then
      if d.cmd = 0x2a ∨ d.cmd = 0x30 then storeSector d
      else if d.cmd = 0xa0 then
        atapiPacketExecuteCommand
          { d with packet := (d.buffer.drop (d.type.sectorSize - 12)).take 12 } others clk
      else { d with bufp := d.type.sectorSize, cmd := 0x00 }
    else d
  else d

/-- Register 7: mirrors src/core/ata.c:1237-1245 -/
def storeCommand (value : UInt8) : Drive :=
  if d.dev = d.slave ∨ value = 0x90 then
    if d.type.atapi then atapiExecuteCommand d others value else ataExecuteCommand d others clk value
  else d

/-- Register 14: mirrors src/core/ata.c:1246-1253 -/
def storeControl (value : UInt16) : Drive :=
  let d := { d with busy := (d.busy &&& ~~~0x04) ||| (value.toUInt8 &&& 0x04) }
  let d := if d.control &&& 0x04 ≠ 0 ∧ value.toUInt8 &&& 0x04 = 0 then ataReset d else d
  { d with control := value.toUInt8 }

/-- mirrors src/core/ata.c:1159-1256 (`ata_register_store`) -/
def ataRegisterStore (addr : Nat) (value : UInt16) : Drive :=
  let deviceReset := addr == 7 && d.type.atapi && value.toUInt8 == 0x08
  if d.type = .none then d
  else if addr ≠ 0 ∧ addr ≠ 14 ∧ !deviceReset ∧ (d.busy ≠ 0 ∨ d.bufp < d.type.sectorSize) then d
  else if d.cmd = 0xe6 ∧ addr ≠ 14 ∧ ¬(addr = 6 ∧ d.type.atapi) ∧ !deviceReset then d
  else
    match addr with
    | 0 => storeData d others clk value
    | 1 => { d with features := value.toUInt8 }
    | 2 => { d with sectorCount := value.toUInt8 }
    | 3 => { d with sector := value.toUInt8 }
    | 4 => { d with cylinder := (d.cylinder &&& 0xff00) ||| (value &&& 0xff) }
    | 5 => { d with cylinder := (d.cylinder &&& 0xff) ||| (value <<< (8 : UInt16)) }
    | 6 =>
      let bit (n : UInt16) : Bool := value >>> n &&& 1 != 0
      let d := { d with dev := bit 4 }
      if d.cmd ≠ 0xe6 then
        { d with
          head := Fin.ofNat 16 value.toNat
          lba := bit 6
          legacy := value.toUInt8 &&& 0xa0 }
      else d
    | 7 => storeCommand d others clk value.toUInt8
    | 14 => storeControl d value
    | _ => d

end

end

/-! ## A transfer -/

/-- An access of the computer, or an alarm. -/
inductive Event
  | read (addr : Nat) (bus : UInt16)
  | store (clk : Nat) (addr : Nat) (value : UInt16)
  | spindleAlarm
  | headAlarm
  | standbyAlarm

/-- What an event does: mirrors for the alarms src/core/ata.c:501-532 -/
def step (others : OtherCommands) (d : Drive) : Event → Drive
  | .read addr bus => (ataRegisterRead d addr bus).2
  | .store clk addr value => ataRegisterStore d others clk addr value
  | .spindleAlarm => { d with busy := d.busy &&& ~~~1, spindleAlarm := none }
  | .headAlarm => { d with busy := d.busy &&& ~~~2, headAlarm := none }
  | .standbyAlarm =>
    if d.standby ≠ 0 then { d with standby := d.standby - 1, power := 0x80, pos := 0 }
    else { d with standbyAlarm := none, power := 0x00 }

/-- The word that passes through the data register with an event. -/
def passed (d : Drive) : Event → Option UInt16
  | .read addr bus =>
    if addr = 0 ∧ wantsData d ∧ (d.cmd = 0x20 ∨ d.cmd = 0x28) ∧ d.dev = d.slave then
      some (ataRegisterRead d addr bus).1
    else none
  | .store _ addr value =>
    if addr = 0 ∧ wantsData d ∧ (d.cmd = 0x30 ∨ d.cmd = 0x2a) then some value else none
  | _ => none

/-- The sectors are not all moved yet. -/
def moving (d : Drive) : Bool := d.cmd == 0x20 || d.cmd == 0x28 || d.cmd == 0x30 || d.cmd == 0x2a

/-- The events up to the end of a command, and the words that pass. -/
def transfer (others : OtherCommands) : Drive → List Event → List UInt16 × Drive
  | d, [] => ([], d)
  | d, event :: events =>
    if moving d then
      let (words, d') := transfer others (step others d event) events
      ((passed d event).toList ++ words, d')
    else ([], d)

/-- READ SECTORS or WRITE SECTORS, as a packet where the drive takes packets, with nothing accessed yet. -/
def command (others : OtherCommands) (clk : Nat) (write : Bool) (d : Drive) : Drive :=
  let d := { d with accessed := [] }
  if d.type.atapi then atapiPacketExecuteCommand d others clk
  else ataExecuteCommand d others clk (if write then 0x30 else 0x20)

end Vice.L4.AtaTransfer
