import Mathlib.Data.Nat.Digits.Lemmas
import Vice.L3Drive.BlockCommand
import Vice.L3Drive.CommandParse

/-!
# Direct access to sectors (`vdrive-iec.c`, `vdrive-command.c`)

A channel opened as `#` is a buffer of 256 bytes. `U1`, `U2`, `B-R` and `B-W` move it from and to a
sector, `B-P` sets its pointer, and what is read and written through the channel goes there. The
commands name the channel by a number in their string, which is the index of `buffers` as it stands.

Each access of `buffers` and of a channel's buffer is checked here: a fault is one outside of it.

Results:
* `step_bounded`: an operation that names a channel, and a place in a buffer, that exists.
* `run_inBounds`: in runs of such operations there is no access outside of `buffers` or of a buffer.
* `run_not_always`: `B-P` behind the end of the buffer.
-/
namespace Vice.L3.DirectAccess
open Vice.L3.Disk Vice.L3.Drive Vice.L3.Directory Vice.L3.PartitionSwitch Vice.L3.BlockCommand
open Vice.L3.CommandParse

/-! ## Channels -/

/-- The modes that come with `#`. -/
inductive Mode
  | notInUse | memoryBuffer | commandChannel
  deriving DecidableEq, Repr

/-- mirrors src/vdrive/vdrive.h:90-131 (`bufferinfo_t`): `reading` is the read mode of the command
channel. -/
structure Channel where
  mode : Mode
  reading : Bool
  buffer : Buf
  bufptr : Nat
  length : Nat
  partition : Nat

/-- A unit with its `buffers`. -/
structure Device where
  drive : Drive
  buffers : Nat → Channel

/-- What an access is wrong with: the index of `buffers`, the index of a byte in a channel's buffer, or
a command without a name, whose null pointer is read. -/
inductive Fault
  | channel (i : Int)
  | byte (i : Nat)
  | nullName
  deriving DecidableEq, Repr

/-- `&(vdrive->buffers[i])` -/
def Device.channel (dev : Device) (i : Int) : Except Fault Channel :=
  if 0 ≤ i ∧ i < 16 then .ok (dev.buffers i.toNat) else .error (.channel i)

def Device.setChannel (dev : Device) (i : Nat) (p : Channel) : Device :=
  { dev with buffers := Function.update dev.buffers i p }

/-- `p->buffer[i]` -/
def Channel.load (p : Channel) (i : Nat) : Except Fault UInt8 :=
  if i < 256 then .ok (p.buffer i) else .error (.byte i)

/-- `p->buffer[i] = b` -/
def Channel.store (p : Channel) (i : Nat) (b : UInt8) : Except Fault Channel :=
  if i < 256 then .ok { p with buffer := Function.update p.buffer i b } else .error (.byte i)

/-- mirrors src/vdrive/vdrive-iec.c:1130-1133: the first byte of a command. -/
def Channel.toWrite (p : Channel) : Channel :=
  if p.reading then
    { p with
      bufptr := 0
      reading := false }
  else p

@[simp] theorem Channel.toWrite_mode (p : Channel) : p.toWrite.mode = p.mode := by
  unfold toWrite
  split <;> rfl

@[simp] theorem Channel.toWrite_length (p : Channel) : p.toWrite.length = p.length := by
  unfold toWrite
  split <;> rfl

/-- `(unsigned int)(p + 1)` -/
def next (p : Nat) : Nat := (p + 1) % 2 ^ 32

/-! ## The error channel -/

/-- mirrors src/cbmdos.c:46-89 -/
def cbmdosErrorMessages : List (Nat × String) :=
  [(0, " OK"), (1, "FILES SCRATCHED"), (2, "SELECTED PARTITION"), (3, "UNIMPLEMENTED"),
   (20, "READ ERROR"), (21, "READ ERROR"), (22, "READ ERROR"), (23, "READ ERROR"), (24, "READ ERROR"),
   (25, "WRITE ERROR"), (26, "WRITE PROTECT ON"), (27, "READ ERROR"), (28, "WRITE ERROR"),
   (29, "DISK ID MISMATCH"), (30, "SYNTAX ERROR"), (31, "SYNTAX ERROR"), (32, "SYNTAX ERROR"),
   (33, "SYNTAX ERROR"), (34, "SYNTAX ERROR"), (39, "FILE NOT FOUND"), (50, "RECORD NOT PRESENT"),
   (51, "OVERFLOW IN RECORD"), (52, "FILE TOO LARGE"), (60, "WRITE FILE OPEN"), (61, "FILE NOT OPEN"),
   (62, "FILE NOT FOUND"), (63, "FILE EXISTS"), (64, "FILE TYPE MISMATCH"), (65, "NO BLOCK"),
   (66, "ILLEGAL TRACK OR SECTOR"), (67, "ILLEGAL SYSTEM T OR S"), (70, "NO CHANNEL"),
   (71, "DIRECTORY ERROR"), (72, "DISK FULL"), (73, "VIRTUAL DRIVE EMULATION V3.5"),
   (74, "DRIVE NOT READY"), (75, "FORMAT ERROR"), (77, "SELECTED PARTITION ILLEGAL"),
   (80, "DIRECTORY NOT EMPTY"), (81, "PERMISSION DENIED")]

/-- mirrors src/cbmdos.c:98-111 (`cbmdos_errortext`) -/
def cbmdosErrortext (code : Nat) : String :=
  match cbmdosErrorMessages.find? (·.1 = code) with
  | some (_, text) => text
  | none => "UNKNOWN ERROR NUMBER"

/-- `%02u` -/
def twoDigits (n : Nat) : Bytes :=
  let digits := (Nat.digits 10 n).reverse.map fun d => UInt8.ofNat (0x30 + d)
  List.replicate (2 - digits.length) 0x30 ++ digits

def errorMessage (code track sector : Nat) : Bytes :=
  twoDigits code ++ 0x2c :: (cbmdosErrortext code).toList.map (fun c => UInt8.ofNat c.toNat) ++
    0x2c :: twoDigits track ++ 0x2c :: twoDigits sector ++ [0x0d]

/-- mirrors src/vdrive/vdrive-command.c:3479-3517 (`vdrive_command_set_error`): the message is stored
with its zero byte. -/
def vdriveCommandSetError (dev : Device) (code track sector : Nat) : Except Fault Device :=
  let message := errorMessage code track sector
  if message.length < 256 then
    .ok (dev.setChannel 15 { dev.buffers 15 with
      buffer := fun k =>
        if k ≤ message.length then message.getD k 0 else (dev.buffers 15).buffer k
      length := message.length - 1
      bufptr := 0
      reading := true })
  else .error (.byte message.length)

/-- mirrors src/cbmdos.h:33-73 -/
def ipeCode : Ipe → Nat
  | .ok => 0
  | .readErrorBnf => 20
  | .readErrorSync => 21
  | .readErrorData => 22
  | .readErrorChk => 23
  | .readErrorGcr => 24
  | .writeErrorVer => 25
  | .writeProtectOn => 26
  | .readErrorBchk => 27
  | .writeErrorBig => 28
  | .diskIdMismatch => 29
  | .noBlock => 65
  | .illegalTrackOrSector => 66
  | .notReady | .minus => 74

/-! ## Opening and closing -/

/-- mirrors src/vdrive/vdrive.c:1360-1413 (`vdrive_ispartvalid`) -/
def vdriveIspartvalid (d : Drive) (part : Nat) : Bool × Drive :=
  if (d.vdrive.haspt ∧ 255 < part) ∨ (d.vdrive.haspt = false ∧ 2 ≤ part) then (false, d)
  else if d.vdrive.haspt = false then ((d.imageAt part).isSome, d)
  else
    let (ret, d) :=
      if d.vdrive.sysOffset = uint32Max then vdriveReadPartitionTable d else (.ok, d)
    if ret ≠ .ok then (false, d)
    else
      let ptype := d.vdrive.parts.ptype (if part = 0 then d.selectedPart.toNat else part)
      (decide (¬ (4 < ptype ∧ ptype < 255) ∧ ptype ≠ 0 ∧ (ptype ≤ 4 ∨ ptype = 255)), d)

/-- mirrors src/vdrive/vdrive-iec.c:1067-1149 (`vdrive_iec_write`), the image being there. -/
def vdriveIecWrite (dev : Device) (secondary : Fin 16) (data : UInt8) : Except Fault Device := do
  let p := dev.buffers secondary
  match p.mode with
  | .notInUse => return dev
  | .memoryBuffer =>
    let p ← p.store p.bufptr data
    let bufptr := next p.bufptr
    return dev.setChannel secondary { p with bufptr := if bufptr ≥ p.length then 0 else bufptr }
  | .commandChannel =>
    let p := p.toWrite
    if p.bufptr ≥ 256 then return dev.setChannel secondary p
    else
      let p ← p.store p.bufptr data
      return dev.setChannel secondary { p with bufptr := next p.bufptr }

/-- mirrors src/vdrive/vdrive-iec.c:447-488 and 561-612 (`vdrive_iec_open`) for the name of a
buffer, `#` and what follows; `part` is the drive in the name. -/
def vdriveIecOpen (dev : Device) (secondary : Fin 16) (name : Bytes) (part : Nat) :
    Except Fault Device := do
  if (dev.buffers secondary).mode = .commandChannel then
    let dev ← name.foldlM (fun dev b => vdriveIecWrite dev secondary b) dev
    return dev.setChannel secondary { dev.buffers secondary with reading := name = [] }
  else
    let dev ← vdriveCommandSetError dev 0 0 0
    if (dev.buffers secondary).mode ≠ .notInUse then vdriveCommandSetError dev 70 0 0
    else if part = 255 then return dev
    else
      let (valid, d) := vdriveIspartvalid dev.drive part
      let dev := { dev with drive := d }
      if valid = false then
        vdriveCommandSetError dev 74 (d.vdrive.headerTrack % 2 ^ 32) (d.vdrive.headerSector % 2 ^ 32)
      else
        return dev.setChannel secondary { dev.buffers secondary with
          mode := .memoryBuffer
          bufptr := 1
          length := 256
          partition := (vdriveRealpart d part).toNat }

/-- mirrors src/vdrive/vdrive-iec.c:877-915 (`vdrive_iec_close`) -/
def vdriveIecClose (dev : Device) (secondary : Fin 16) : Except Fault Device :=
  let p := dev.buffers secondary
  match p.mode with
  | .notInUse => .ok dev
  | .memoryBuffer => .ok (dev.setChannel secondary { p with mode := .notInUse })
  | .commandChannel => vdriveCommandSetError dev 0 0 0

/-- mirrors src/vdrive/vdrive-iec.c:1023-1038: a message that has been read becomes `OK`. -/
def nextMessage (dev : Device) (p : Channel) : Except Fault Device :=
  if p.bufptr > p.length then vdriveCommandSetError dev 0 0 0 else .ok dev

/-- mirrors src/vdrive/vdrive-iec.c:996-1063 (`vdrive_iec_read`) -/
def vdriveIecRead (dev : Device) (secondary : Fin 16) : Except Fault (Option UInt8 × Device) := do
  let p := dev.buffers secondary
  match p.mode with
  | .notInUse => return (none, dev)
  | .memoryBuffer =>
    let data ← p.load p.bufptr
    let bufptr := next p.bufptr
    return (some data,
      dev.setChannel secondary { p with bufptr := if bufptr ≥ p.length then 1 else bufptr })
  | .commandChannel =>
    let dev ← nextMessage dev p
    let p := dev.buffers secondary
    let data ← p.load p.bufptr
    return (some data, dev.setChannel secondary { p with bufptr := next p.bufptr })

/-! ## Commands -/

/-- A command's answer, with the track and sector it names. -/
abbrev Answer := Nat × Nat × Nat

/-- What a command does with a buffer and the sector. -/
abbrev Job := Vdrive → Channel → Nat → Nat → Except Fault (Answer × Channel × Vdrive)

/-- A command ends with its answer in the error channel. -/
def answered (r : Except Fault (Answer × Device)) : Except Fault Device :=
  r >>= fun a => vdriveCommandSetError a.2 a.1.1 a.1.2.1 a.1.2.2

/-- mirrors src/vdrive/vdrive-command.c:523-550 and 632-656: what the commands have in common, from
their numbers on. -/
def onChannel (dev : Device) (ps : List Int) (job : Job) : Except Fault (Answer × Device) := do
  let channel := ps.getD 0 0
  let drive := ps.getD 1 0
  let p ← dev.channel channel
  if p.mode ≠ .memoryBuffer then return ((70, 0, 0), dev)
  else if dev.drive.vdrive.haspt ∧ drive ≠ 0 then return ((74, 0, 0), dev)
  else
    let origpart := dev.drive.currentPart
    let drive : Int := if dev.drive.vdrive.haspt then p.partition else drive
    match vdriveCommandSwitch dev.drive drive with
    | (.ok, d) =>
      let (answer, p, v) ← job d.vdrive p (toUnsigned (ps.getD 2 0)) (toUnsigned (ps.getD 3 0))
      return (answer, { dev with drive := vdriveCommandReturn { d with vdrive := v } origpart }.setChannel
        channel.toNat p)
    | (_, d) => return ((74, 0, 0), { dev with drive := vdriveCommandReturn d origpart })

/-- mirrors src/vdrive/vdrive-command.c:552-584: `U1`, `U2` and the others, by the second letter. -/
def userJob (letter : UInt8) : Job := fun v p track sector =>
  if letter = 0x32 ∨ letter = 0x42 then
    match vdriveWriteSector v p.buffer track sector with
    | (.ok, v) => .ok ((0, 0, 0), { p with bufptr := 0 }, v)
    | (.minus, v) => .ok ((74, 0, 0), p, v)
    | (status, v) => .ok ((ipeCode status, track, sector), p, v)
  else if letter = 0x31 ∨ letter = 0x41 then
    match vdriveReadSector v p.buffer track sector with
    | (.ok, buffer) =>
      .ok ((0, 0, 0), { p with
        buffer := buffer
        bufptr := 0 }, v)
    | (.minus, buffer) => .ok ((74, 0, 0), { p with buffer := buffer }, v)
    | (status, buffer) => .ok ((ipeCode status, track, sector), { p with buffer := buffer }, v)
  else .ok ((74, 0, 0), { p with bufptr := 0 }, v)

/-- mirrors src/vdrive/vdrive-command.c:659-697: `B-W` puts the length of the data in front. -/
def blockJob (write : Bool) : Job := fun v p track sector =>
  if write then do
    let l := toInt ((p.bufptr : Int) - 1)
    let p ← p.store 0 (if l < 1 then 1 else UInt8.ofNat l.toNat)
    match vdriveWriteSector v p.buffer track sector with
    | (.ok, v) => return ((0, 0, 0), { p with bufptr := 1 }, v)
    | (.minus, v) => return ((74, 0, 0), p, v)
    | (status, v) => return ((ipeCode status, 0, 0), p, v)
  else
    match vdriveReadSector v p.buffer track sector with
    | (.ok, buffer) => do
      let first ← { p with buffer := buffer }.load 0
      return ((0, 0, 0), { p with
        buffer := buffer
        length := first.toNat + 1
        bufptr := 1 }, v)
    | (.minus, buffer) => .ok ((74, track, sector), { p with buffer := buffer }, v)
    | (status, buffer) => .ok ((ipeCode status, track, sector), { p with buffer := buffer }, v)

/-- mirrors src/vdrive/vdrive-command.c:500-512: the second letter of a `U` command, with the two of
the 1581 that begin with `U-`. -/
def userLetter (cmd : Cmd) : Option UInt8 :=
  if cmd.abbrv.length > 2 ∧ byteAt cmd.abbrv 0 = 0x55 ∧ byteAt cmd.abbrv 1 = 0x2d then
    if byteAt cmd.abbrv 2 = 0xd2 then some 0x31
    else if byteAt cmd.abbrv 2 = 0xd7 then some 0x32
    else none
  else some (byteAt cmd.command 1)

/-- The numbers of a `U` command: it has more than one letter, and a name of more than five. -/
def userParameters (cmd : Cmd) : Option (List Int) :=
  if cmd.command.length > 1 ∧ (cmd.file.getD []).length > 5 then
    vdriveCommandGetBlockParameters (cmd.file.getD [])
  else none

/-- mirrors src/vdrive/vdrive-command.c:485-600 (`vdrive_command_u1a2b`) -/
def vdriveCommandU1a2b (dev : Device) (cmd : Cmd) : Except Fault Device :=
  answered <| match userLetter cmd, userParameters cmd with
    | none, _ | some _, none => .ok ((30, 0, 0), dev)
    | some _, some [] => .ok ((0, 0, 0), dev)
    | some letter, some ps => onChannel dev ps (userJob letter)

/-- mirrors src/vdrive/vdrive-command.c:619-700 (`vdrive_command_block`) for `B-R` and `B-W` -/
def blockReadWrite (dev : Device) (write : Bool) (file : Option Bytes) : Except Fault Device :=
  answered <| match file.map vdriveCommandGetBlockParameters with
    | none => .error .nullName
    | some none => .ok ((30, 0, 0), dev)
    | some (some []) => .ok ((0, 0, 0), dev)
    | some (some ps) => onChannel dev ps (blockJob write)

/-- mirrors src/vdrive/vdrive-command.c:763-778 (`vdrive_command_block`) for `B-P` -/
def blockPointer (dev : Device) (file : Option Bytes) : Except Fault Device := do
  match file.map vdriveCommandGetBlockParameters with
  | none => .error .nullName
  | some none => vdriveCommandSetError dev 30 0 0
  | some (some ps) =>
    let channel := ps.getD 0 0
    let p ← dev.channel channel
    if p.mode ≠ .memoryBuffer then vdriveCommandSetError dev 70 0 0
    else
      vdriveCommandSetError
        (dev.setChannel channel.toNat { p with bufptr := toUnsigned (ps.getD 1 0) }) 0 0 0

/-! ## Runs -/

/-- What happens to the unit. A channel number of the bus has four bits (src/serial/fsdrive.c:87). -/
inductive Op
  | opens (secondary : Fin 16) (name : Bytes) (part : Nat)
  | closes (secondary : Fin 16)
  | reads (secondary : Fin 16)
  | writes (secondary : Fin 16) (data : UInt8)
  | user (cmd : Cmd)
  | block (write : Bool) (file : Option Bytes)
  | pointer (file : Option Bytes)

def step (dev : Device) : Op → Except Fault Device
  | .opens secondary name part => vdriveIecOpen dev secondary name part
  | .closes secondary => vdriveIecClose dev secondary
  | .reads secondary => (vdriveIecRead dev secondary).map (·.2)
  | .writes secondary data => vdriveIecWrite dev secondary data
  | .user cmd => vdriveCommandU1a2b dev cmd
  | .block write file => blockReadWrite dev write file
  | .pointer file => blockPointer dev file

def run (dev : Device) (ops : List Op) : Except Fault Device := ops.foldlM step dev

/-- mirrors src/vdrive/vdrive.c:151-159 (`vdrive_device_setup`): the channels of a unit that has just
been set up. -/
def deviceSetup (d : Drive) : Except Fault Device :=
  vdriveCommandSetError
    { drive := d
      buffers := fun i => ⟨if i = 15 then .commandChannel else .notInUse, false, fun _ => 0, 0, 0, 0⟩ }
    73 0 0

/-- A run of a unit that has just been set up. -/
def runFrom (d : Drive) (ops : List Op) : Except Fault Device := do
  let dev ← deviceSetup d
  run dev ops

/-- There is no access outside of `buffers` or of a buffer. -/
def InBounds {α : Type} (r : Except Fault α) : Prop := ∀ f, r = .error f → f = .nullName

/-- The numbers name a channel. -/
def Named (ps : List Int) : Prop := 0 ≤ ps.getD 0 0 ∧ ps.getD 0 0 < 16

/-- A command whose numbers are in order names a channel, and `B-P` also a place in the buffer. -/
def Meets (dev : Device) : Op → Prop
  | .user cmd => ∀ ps, (userLetter cmd).isSome → userParameters cmd = some ps → Named ps
  | .block _ file => ∀ ps, file.bind vdriveCommandGetBlockParameters = some ps → Named ps
  | .pointer file => ∀ ps, file.bind vdriveCommandGetBlockParameters = some ps → Named ps ∧
      ((dev.buffers (ps.getD 0 0).toNat).mode = .memoryBuffer → toUnsigned (ps.getD 1 0) < 256)
  | _ => True

/-- All operations of a run meet the condition when they come. -/
def MeetAll : Device → List Op → Prop
  | _, [] => True
  | dev, op :: ops => Meets dev op ∧ ∀ dev', step dev op = .ok dev' → MeetAll dev' ops

/-- A buffer's pointer is in it, and its length is at most its size. The command channel is the last
one, and its message does not fill its buffer. -/
def Fit (i : Nat) (p : Channel) : Prop :=
  (p.mode = .memoryBuffer → p.bufptr < 256 ∧ p.length ≤ 256) ∧
    (p.mode = .commandChannel → i = 15 ∧ p.length < 256)

def Bounded (dev : Device) : Prop := ∀ i, Fit i (dev.buffers i)

section
variable {α β : Type} {P : α → Prop} {Q : β → Prop} {dev : Device} {p : Channel} {i n : Nat}
  {d : Drive} {x : Except Fault α}

/-! ## Results -/

/-- The result is in order, or the run ends at a null pointer. -/
inductive Holds (P : α → Prop) : Except Fault α → Prop
  | ok {a : α} : P a → Holds P (.ok a)
  | nullName : Holds P (.error .nullName)

theorem Holds.bind {f : α → Except Fault β} (h : Holds P x) (hf : ∀ a, P a → Holds Q (f a)) :
    Holds Q (x >>= f) := by
  cases h with
  | ok ha => exact hf _ ha
  | nullName => exact .nullName

theorem Holds.imp {P' : α → Prop} (h : Holds P x) (hp : ∀ a, P a → P' a) : Holds P' x := by
  cases h with
  | ok ha => exact .ok (hp _ ha)
  | nullName => exact .nullName

theorem Holds.self (h : Holds P x) : Holds (fun a => P a ∧ x = .ok a) x := by
  cases h with
  | ok ha => exact .ok ⟨ha, rfl⟩
  | nullName => exact .nullName

theorem Holds.map {f : α → β} (h : Holds (fun a => Q (f a)) x) : Holds Q (x.map f) := by
  cases h with
  | ok ha => exact .ok ha
  | nullName => exact .nullName

theorem Holds.inBounds (h : Holds P x) : InBounds x := by
  rintro f rfl
  cases h
  rfl

theorem zero_lt : 0 < 256 := by decide

theorem one_lt : 1 < 256 := by decide

/-! ## Channels -/

theorem Bounded.setChannel (h : Bounded dev) (hp : Fit i p) : Bounded (dev.setChannel i p) := by
  intro j
  unfold Device.setChannel
  by_cases hj : j = i
  · rw [hj]
    dsimp only
    rwa [Function.update_self]
  · dsimp only
    rw [Function.update_of_ne hj]
    exact h j

theorem Bounded.withDrive (h : Bounded dev) (d : Drive) : Bounded { dev with drive := d } := h

theorem channel_eq {c : Int} (h : 0 ≤ c ∧ c < 16) : dev.channel c = .ok (dev.buffers c.toNat) := if_pos h

theorem load_eq (h : n < 256) : p.load n = .ok (p.buffer n) := if_pos h

theorem store_eq (h : n < 256) (b : UInt8) :
    p.store n b = .ok { p with buffer := Function.update p.buffer n b } := if_pos h

/-! ## The error channel -/

theorem twoDigits_length (h : n < 2 ^ 32) : (twoDigits n).length ≤ 10 := by
  have hdigits : (Nat.digits 10 n).length ≤ 10 :=
    (Nat.digits_length_le_iff (by decide) n).mpr (Nat.lt_trans h (by decide))
  unfold twoDigits
  dsimp only
  rw [List.length_append, List.length_replicate, List.length_map, List.length_reverse]
  omega

theorem errortext_length (code : Nat) : (cbmdosErrortext code).toList.length ≤ 28 := by
  unfold cbmdosErrortext
  split
  · rename_i nr text hfind
    have hall : ∀ m ∈ cbmdosErrorMessages, m.2.toList.length ≤ 28 := by decide +kernel
    exact hall _ (List.mem_of_find?_eq_some hfind)
  · decide +kernel

/-- Every message fits in the buffer. -/
theorem errorMessage_length {code track sector : Nat} (hc : code < 2 ^ 32) (ht : track < 2 ^ 32)
    (hs : sector < 2 ^ 32) : (errorMessage code track sector).length < 256 := by
  have hcode := twoDigits_length hc
  have htrack := twoDigits_length ht
  have hsector := twoDigits_length hs
  have htext := errortext_length code
  unfold errorMessage
  simp only [List.length_append, List.length_cons, List.length_nil, List.length_map]
  omega

theorem setError_holds (h : Bounded dev) {code track sector : Nat} (hc : code < 2 ^ 32)
    (ht : track < 2 ^ 32) (hs : sector < 2 ^ 32) :
    Holds (fun dev' => Bounded dev' ∧ (dev'.buffers 15).bufptr = 0 ∧
      (dev'.buffers 15).mode = (dev.buffers 15).mode) (vdriveCommandSetError dev code track sector) := by
  have hlen := errorMessage_length hc ht hs
  unfold vdriveCommandSetError
  dsimp only
  rw [if_pos hlen]
  refine .ok ⟨h.setChannel ⟨fun _ => ⟨Nat.zero_lt_succ _, ?_⟩, fun _ => ⟨rfl, ?_⟩⟩, ?_, ?_⟩
  · dsimp only
    omega
  · dsimp only
    omega
  · unfold Device.setChannel
    dsimp only
    rw [Function.update_self]
  · unfold Device.setChannel
    dsimp only
    rw [Function.update_self]

theorem setError_bounded (h : Bounded dev) {code track sector : Nat} (hc : code < 2 ^ 32)
    (ht : track < 2 ^ 32) (hs : sector < 2 ^ 32) :
    Holds Bounded (vdriveCommandSetError dev code track sector) :=
  (setError_holds h hc ht hs).imp fun _ h => h.1

theorem setError_closed (h : Bounded dev) {code : Nat} (hc : code < 100) :
    Holds Bounded (vdriveCommandSetError dev code 0 0) :=
  setError_bounded h (Nat.lt_trans hc (by decide)) (by decide) (by decide)

/-! ## Opening, closing and bytes -/

theorem fit_unused (hm : p.mode = .notInUse) : Fit i p := by
  refine ⟨fun h => ?_, fun h => ?_⟩
  · rw [hm] at h
    cases h
  · rw [hm] at h
    cases h

theorem fit_memory (hm : p.mode = .memoryBuffer) (hptr : p.bufptr < 256) (hlen : p.length ≤ 256) : Fit i p := by
  refine ⟨fun _ => ⟨hptr, hlen⟩, fun h => ?_⟩
  rw [hm] at h
  cases h

/-- A pointer is moved on, or back to the start. -/
theorem fit_moved (h : Fit i p) (hm : p.mode = .memoryBuffer) {start : Nat} (hs : start < 256) (buf : Buf) :
    Fit i { p with
      buffer := buf
      bufptr := if next p.bufptr ≥ p.length then start else next p.bufptr } := by
  obtain ⟨-, hlen⟩ := h.1 hm
  refine fit_memory hm ?_ hlen
  dsimp only
  split
  · exact hs
  · omega

theorem fit_command (h : Fit i p) {q : Channel} (hm : p.mode = .commandChannel) (hq : q.mode = p.mode)
    (hlen : q.length = p.length) : Fit i q := by
  refine ⟨fun hc => ?_, fun _ => ?_⟩
  · rw [hq, hm] at hc
    cases hc
  · rw [hlen]
    exact h.2 hm

theorem iecWrite_bounded (h : Bounded dev) (secondary : Fin 16) (data : UInt8) :
    Holds Bounded (vdriveIecWrite dev secondary data) := by
  have hfit := h secondary
  unfold vdriveIecWrite
  dsimp only
  generalize dev.buffers secondary = p at hfit
  split
  · exact .ok h
  · rename_i hmode
    rw [store_eq (hfit.1 hmode).1]
    exact .ok (h.setChannel (fit_moved hfit hmode (by decide) _))
  · rename_i hmode
    split
    · exact .ok (h.setChannel (fit_command hfit hmode (by simp) (by simp)))
    · rename_i hlt
      rw [store_eq (Nat.lt_of_not_le hlt)]
      exact .ok (h.setChannel (fit_command hfit hmode (by simp) (by simp)))

theorem iecRead_bounded (h : Bounded dev) (secondary : Fin 16) :
    Holds (fun r => Bounded r.2) (vdriveIecRead dev secondary) := by
  have hfit := h secondary
  unfold vdriveIecRead
  dsimp only
  generalize hp : dev.buffers secondary = p at hfit
  split
  · exact .ok h
  · rename_i hmode
    rw [load_eq (hfit.1 hmode).1]
    exact .ok (h.setChannel (fit_moved hfit hmode (by decide) _))
  · rename_i hmode
    obtain ⟨h15, hlen⟩ := hfit.2 hmode
    -- the message starts anew where it has been read
    have hstart : Holds (fun dev' => Bounded dev' ∧ (dev'.buffers secondary).bufptr < 256 ∧
        (dev'.buffers secondary).mode = .commandChannel)
        (nextMessage dev p) := by
      unfold nextMessage
      split
      · refine (setError_holds h (by decide) (by decide) (by decide)).imp ?_
        rintro dev' ⟨hb, hptr, hm⟩
        rw [h15, hptr, hm, ← h15, hp]
        exact ⟨hb, by decide, hmode⟩
      · rename_i hle
        refine .ok ⟨h, ?_, ?_⟩
        · rw [hp]
          omega
        · rw [hp]
          exact hmode
    refine hstart.bind ?_
    rintro dev' ⟨hb, hptr, hm⟩
    rw [load_eq hptr]
    exact .ok (hb.setChannel (fit_command (hb secondary) hm rfl rfl))

theorem iecClose_bounded (h : Bounded dev) (secondary : Fin 16) :
    Holds Bounded (vdriveIecClose dev secondary) := by
  unfold vdriveIecClose
  dsimp only
  split
  · exact .ok h
  · exact .ok (h.setChannel (fit_unused rfl))
  · exact setError_closed h (by decide)

theorem iecOpen_bounded (h : Bounded dev) (secondary : Fin 16) (name : Bytes) (part : Nat) :
    Holds Bounded (vdriveIecOpen dev secondary name part) := by
  unfold vdriveIecOpen
  split
  · rename_i hmode
    have hname : Holds (fun dev' => Bounded dev') (name.foldlM (fun dev b => vdriveIecWrite dev secondary b)
        dev) := by
      clear hmode
      induction name generalizing dev with
      | nil => exact .ok h
      | cons b name ih => exact (iecWrite_bounded h secondary b).bind fun dev' h' => ih h'
    exact hname.bind fun dev' h' => .ok (h'.setChannel (h' secondary))
  · refine (setError_closed h (by decide)).bind fun dev' h' => ?_
    split
    · exact setError_closed h' (by decide)
    · split
      · exact .ok h'
      · obtain ⟨valid, d⟩ := vdriveIspartvalid dev'.drive part
        have hd := h'.withDrive d
        dsimp only
        split
        · refine setError_bounded hd (show 74 < 2 ^ 32 by decide) ?_ ?_
          · exact Nat.mod_lt _ (Nat.two_pow_pos 32)
          · exact Nat.mod_lt _ (Nat.two_pow_pos 32)
        · exact .ok (hd.setChannel (fit_memory rfl one_lt (Nat.le_refl _)))

/-! ## Commands -/

/-- A command's answer can be put into a message. -/
def Answered (answer : Answer) : Prop :=
  answer.1 < 2 ^ 32 ∧ answer.2.1 < 2 ^ 32 ∧ answer.2.2 < 2 ^ 32

/-- A job keeps a buffer's pointer and length in order. -/
def Keeps (job : Job) : Prop :=
  ∀ v p t s, p.mode = .memoryBuffer → p.bufptr < 256 → p.length ≤ 256 → t < 2 ^ 32 → s < 2 ^ 32 →
    Holds (fun r => Answered r.1 ∧ r.2.1.mode = .memoryBuffer ∧ r.2.1.bufptr < 256 ∧ r.2.1.length ≤ 256)
      (job v p t s)

theorem ipeCode_lt (status : Ipe) : ipeCode status < 2 ^ 32 := by cases status <;> decide

theorem toUnsigned_lt (n : Int) : toUnsigned n < 2 ^ 32 := by
  unfold toUnsigned
  omega

theorem answered_zero {code : Nat} (h : code < 100) : Answered (code, 0, 0) :=
  ⟨Nat.lt_trans h (by decide), Nat.two_pow_pos 32, Nat.two_pow_pos 32⟩

theorem userJob_keeps (letter : UInt8) : Keeps (userJob letter) := by
  intro v p t s hm hptr hlen ht hs
  unfold userJob
  split
  · split
    · exact .ok ⟨answered_zero (by decide), hm, zero_lt, hlen⟩
    · exact .ok ⟨answered_zero (by decide), hm, hptr, hlen⟩
    · exact .ok ⟨⟨ipeCode_lt _, ht, hs⟩, hm, hptr, hlen⟩
  · split
    · split
      · exact .ok ⟨answered_zero (by decide), hm, zero_lt, hlen⟩
      · exact .ok ⟨answered_zero (by decide), hm, hptr, hlen⟩
      · exact .ok ⟨⟨ipeCode_lt _, ht, hs⟩, hm, hptr, hlen⟩
    · exact .ok ⟨answered_zero (by decide), hm, zero_lt, hlen⟩

theorem blockJob_keeps (write : Bool) : Keeps (blockJob write) := by
  intro v p t s hm hptr hlen ht hs
  unfold blockJob
  split
  · dsimp only
    rw [store_eq zero_lt]
    dsimp only [bind, Except.bind]
    split
    · exact .ok ⟨answered_zero (by decide), hm, one_lt, hlen⟩
    · exact .ok ⟨answered_zero (by decide), hm, hptr, hlen⟩
    · exact .ok ⟨⟨ipeCode_lt _, Nat.two_pow_pos 32, Nat.two_pow_pos 32⟩, hm, hptr, hlen⟩
  · split
    · rename_i buffer _
      rw [load_eq zero_lt]
      have := (buffer 0).toNat_lt
      exact .ok ⟨answered_zero (by decide), hm, one_lt, by dsimp only; omega⟩
    · exact .ok ⟨⟨show 74 < 2 ^ 32 by decide, ht, hs⟩, hm, hptr, hlen⟩
    · exact .ok ⟨⟨ipeCode_lt _, ht, hs⟩, hm, hptr, hlen⟩

theorem onChannel_bounded (h : Bounded dev) {ps : List Int} (hnamed : Named ps) {job : Job}
    (hjob : Keeps job) : Holds (fun r => Answered r.1 ∧ Bounded r.2) (onChannel dev ps job) := by
  have hfit := h (ps.getD 0 0).toNat
  unfold onChannel
  dsimp only
  rw [channel_eq hnamed]
  dsimp only [bind, Except.bind]
  split
  · exact .ok ⟨answered_zero (by decide), h⟩
  · rename_i hm
    rw [not_not] at hm
    obtain ⟨hptr, hlen⟩ := hfit.1 hm
    split
    · exact .ok ⟨answered_zero (by decide), h⟩
    · split
      · refine (hjob _ _ _ _ hm hptr hlen (toUnsigned_lt _) (toUnsigned_lt _)).bind ?_
        rintro ⟨answer, q, v⟩ ⟨ha, hq, hqptr, hqlen⟩
        exact .ok ⟨ha, (h.withDrive _).setChannel (fit_memory hq hqptr hqlen)⟩
      · exact .ok ⟨answered_zero (by decide), h.withDrive _⟩

/-- The answer goes to the error channel. -/
theorem answer_bounded {r : Except Fault (Answer × Device)}
    (h : Holds (fun r => Answered r.1 ∧ Bounded r.2) r) :
    Holds Bounded (answered r) :=
  h.bind fun _ ⟨ha, hb⟩ => setError_bounded hb ha.1 ha.2.1 ha.2.2

theorem step_bounded (h : Bounded dev) {op : Op} (hm : Meets dev op) : Holds Bounded (step dev op) := by
  cases op with
  | opens secondary name part => exact iecOpen_bounded h secondary name part
  | closes secondary => exact iecClose_bounded h secondary
  | reads secondary => exact (iecRead_bounded h secondary).map
  | writes secondary data => exact iecWrite_bounded h secondary data
  | user cmd =>
    refine answer_bounded ?_
    split
    · exact .ok ⟨answered_zero (by decide), h⟩
    · exact .ok ⟨answered_zero (by decide), h⟩
    · exact .ok ⟨answered_zero (by decide), h⟩
    · rename_i letter ps _ hletter hps
      exact onChannel_bounded h (hm ps (by rw [hletter]; rfl) hps) (userJob_keeps letter)
  | block write file =>
    refine answer_bounded ?_
    cases file with
    | none => exact .nullName
    | some file =>
      rw [Option.map_some]
      cases hps : vdriveCommandGetBlockParameters file with
      | none => exact .ok ⟨answered_zero (by decide), h⟩
      | some ps =>
        cases ps with
        | nil => exact .ok ⟨answered_zero (by decide), h⟩
        | cons n ps => exact onChannel_bounded h (hm _ hps) (blockJob_keeps write)
  | pointer file =>
    show Holds Bounded (blockPointer dev file)
    unfold blockPointer
    cases file with
    | none => exact .nullName
    | some file =>
      rw [Option.map_some]
      cases hps : vdriveCommandGetBlockParameters file with
      | none => exact setError_closed h (by decide)
      | some ps =>
        obtain ⟨hnamed, hplace⟩ := hm ps hps
        dsimp only
        rw [channel_eq hnamed]
        dsimp only [bind, Except.bind]
        split
        · exact setError_closed h (by decide)
        · rename_i hmode
          rw [not_not] at hmode
          obtain ⟨-, hlen⟩ := (h (ps.getD 0 0).toNat).1 hmode
          have hfit : Fit (ps.getD 0 0).toNat { dev.buffers (ps.getD 0 0).toNat with
              bufptr := toUnsigned (ps.getD 1 0) } := fit_memory hmode (hplace hmode) hlen
          exact setError_closed (h.setChannel hfit) (by decide)

theorem run_bounded {ops : List Op} (h : Bounded dev) (hm : MeetAll dev ops) : Holds Bounded (run dev ops) := by
  induction ops generalizing dev with
  | nil => exact .ok h
  | cons op ops ih =>
    obtain ⟨hop, hrest⟩ := hm
    unfold run
    rw [List.foldlM_cons]
    exact (step_bounded h hop).self.bind fun dev' ⟨hb, hs⟩ => ih hb (hrest dev' hs)

theorem deviceSetup_bounded (d : Drive) : Holds Bounded (deviceSetup d) := by
  refine setError_closed (fun i => ?_) (by decide)
  by_cases h15 : i = 15
  · exact ⟨fun _ => ⟨zero_lt, Nat.zero_le _⟩, fun _ => ⟨h15, zero_lt⟩⟩
  · exact fit_unused (if_neg h15)

/-- mirrors src/vdrive/vdrive-command.c:485-796 and src/vdrive/vdrive-iec.c:406-1149: a run whose
commands name channels, and places in a buffer, that exist stays in bounds. -/
theorem run_inBounds (d : Drive) (ops : List Op)
    (h : ∀ dev, deviceSetup d = .ok dev → MeetAll dev ops) : InBounds (runFrom d ops) := by
  have hstart := (deviceSetup_bounded d).self
  exact (hstart.bind fun dev ⟨hb, hs⟩ => run_bounded hb (h dev hs)).inBounds

end

/-! ## Behind the buffer -/

/-- `2 255` -/
def lastPlace : Bytes := [0x32, 0x20, 0x32, 0x35, 0x35]

/-- `2 256` -/
def behindPlace : Bytes := [0x32, 0x20, 0x32, 0x35, 0x36]

theorem run_inBounds_last :
    InBounds (runFrom freshDrive [.opens 2 [0x23] 0, .pointer (some lastPlace), .reads 2]) := by
  refine run_inBounds freshDrive _ fun dev _ => ⟨trivial, fun dev' _ => ⟨?_, fun dev'' _ =>
    ⟨trivial, fun _ _ => trivial⟩⟩⟩
  intro ps hps
  have hnumbers : (some lastPlace).bind vdriveCommandGetBlockParameters = some [2, 255] := by
    decide +kernel
  rw [hnumbers] at hps
  cases hps
  exact ⟨⟨by decide, by decide⟩, fun _ => by decide⟩

def faultOf {α : Type} : Except Fault α → Option Fault
  | .error f => some f
  | .ok _ => none

/-- The byte behind the buffer is read. -/
theorem run_not_always : ¬ ∀ d ops, InBounds (runFrom d ops) := by
  intro h
  have hrun : faultOf (runFrom freshDrive
      [.opens 2 [0x23] 0, .pointer (some behindPlace), .reads 2]) = some (.byte 256) := by
    decide +kernel
  have hin := h freshDrive [.opens 2 [0x23] 0, .pointer (some behindPlace), .reads 2]
  cases hr : runFrom freshDrive [.opens 2 [0x23] 0, .pointer (some behindPlace), .reads 2] with
  | ok dev =>
    rw [hr] at hrun
    cases hrun
  | error f =>
    rw [hr] at hrun
    cases hrun
    have := hin _ hr
    cases this

end Vice.L3.DirectAccess
