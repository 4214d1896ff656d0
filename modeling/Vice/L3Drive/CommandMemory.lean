import Mathlib.Data.List.GetD
import Vice.L3Drive.PartitionSwitch

/-!
# Memory commands (`vdrive-command.c`)

The command channel collects a command in a buffer of one page, executes it when it is flushed, and
keeps its answer in the same buffer. `M-W` and `M-R` move bytes between a command and the memory of
the drive; a drive of the FD series looks for jobs when something is written near its job queue.

Every access to the buffer and to the memory is recorded. An image is there, so that
`vdrive_iec_write` switches no partition; `isImage` is `VDRIVE_IS_IMAGE` and `readOnly` is
`VDRIVE_IS_READONLY`.

Results:
* `session_inside`: no memory command accesses anything outside, except the reading of a whole page.
-/
namespace Vice.L3.CommandMemory
open Vice.L2.Geometry Vice.L3.Disk Vice.L3.Drive Vice.L3.PartitionSwitch

/-! ## Accesses -/

inductive Access
  | buffer (i : Nat)
  | ram (i : Nat)
  deriving DecidableEq, Repr

/-- The buffer of a channel has one page, the memory of a drive 32 KiB. -/
def Access.InRange : Access → Prop
  | buffer i => i < 256
  | ram i => i < 0x8000

/-- The drive with its command channel. -/
structure CommandDrive where
  drive : Drive
  isImage : Bool
  readOnly : Bool
  ram : Buf
  buffer : Buf
  bufptr : Nat
  length : Nat
  reading : Bool    -- readmode is CBMDOS_FAM_READ
  accesses : List Access

def CommandDrive.note (d : CommandDrive) (accesses : List Access) : CommandDrive :=
  { d with accesses := d.accesses ++ accesses }

def CommandDrive.loadBuffer (d : CommandDrive) (i : Nat) : UInt8 × CommandDrive := (d.buffer i, d.note [.buffer i])

def CommandDrive.storeBuffer (d : CommandDrive) (i : Nat) (x : UInt8) : CommandDrive :=
  { d.note [.buffer i] with buffer := Function.update d.buffer i x }

def CommandDrive.loadRam (d : CommandDrive) (i : Nat) : UInt8 × CommandDrive := (d.ram i, d.note [.ram i])

def CommandDrive.storeRam (d : CommandDrive) (i : Nat) (x : UInt8) : CommandDrive :=
  { d.note [.ram i] with ram := Function.update d.ram i x }

/-! ## The error channel -/

/-- mirrors src/cbmdos.c:46-89 -/
def cbmdosErrorMessages : List (Nat × List Char) :=
  [(0, " OK".toList),
   (1, "FILES SCRATCHED".toList),
   (2, "SELECTED PARTITION".toList),
   (3, "UNIMPLEMENTED".toList),
   (20, "READ ERROR".toList),
   (21, "READ ERROR".toList),
   (22, "READ ERROR".toList),
   (23, "READ ERROR".toList),
   (24, "READ ERROR".toList),
   (25, "WRITE ERROR".toList),
   (26, "WRITE PROTECT ON".toList),
   (27, "READ ERROR".toList),
   (28, "WRITE ERROR".toList),
   (29, "DISK ID MISMATCH".toList),
   (30, "SYNTAX ERROR".toList),
   (31, "SYNTAX ERROR".toList),
   (32, "SYNTAX ERROR".toList),
   (33, "SYNTAX ERROR".toList),
   (34, "SYNTAX ERROR".toList),
   (39, "FILE NOT FOUND".toList),
   (50, "RECORD NOT PRESENT".toList),
   (51, "OVERFLOW IN RECORD".toList),
   (52, "FILE TOO LARGE".toList),
   (60, "WRITE FILE OPEN".toList),
   (61, "FILE NOT OPEN".toList),
   (62, "FILE NOT FOUND".toList),
   (63, "FILE EXISTS".toList),
   (64, "FILE TYPE MISMATCH".toList),
   (65, "NO BLOCK".toList),
   (66, "ILLEGAL TRACK OR SECTOR".toList),
   (67, "ILLEGAL SYSTEM T OR S".toList),
   (70, "NO CHANNEL".toList),
   (71, "DIRECTORY ERROR".toList),
   (72, "DISK FULL".toList),
   (73, "VIRTUAL DRIVE EMULATION V3.5".toList),
   (74, "DRIVE NOT READY".toList),
   (75, "FORMAT ERROR".toList),
   (77, "SELECTED PARTITION ILLEGAL".toList),
   (80, "DIRECTORY NOT EMPTY".toList),
   (81, "PERMISSION DENIED".toList)]

/-- mirrors src/cbmdos.c:98-111 -/
def cbmdosErrortext (code : Nat) : List Char :=
  match cbmdosErrorMessages.find? (·.1 = code) with
  | some message => message.2
  | none => "UNKNOWN ERROR NUMBER".toList

/-- `%02d`, of a number below 100 -/
def twoDigits (n : Nat) : List UInt8 := [UInt8.ofNat (0x30 + n / 10), UInt8.ofNat (0x30 + n % 10)]

/-- `sprintf` with `"%02d,%s,%02u,%02u\015"` -/
def errorMessage (code track sector : Nat) : List UInt8 :=
  twoDigits code ++ [0x2c] ++ (cbmdosErrortext code).map (fun c => UInt8.ofNat c.toNat) ++ [0x2c] ++
    twoDigits track ++ [0x2c] ++ twoDigits sector ++ [0x0d]

/-- Puts a string with its terminating zero into the buffer. -/
def CommandDrive.storeString (d : CommandDrive) (i : Nat) : List UInt8 → CommandDrive
  | [] => d.storeBuffer i 0
  | c :: s => (d.storeBuffer i c).storeString (i + 1) s

/-- mirrors src/vdrive/vdrive-command.c:3479-3517 (`vdrive_command_set_error`) -/
def vdriveCommandSetError (d : CommandDrive) (code track sector : Nat) : Nat × CommandDrive :=
  let message := errorMessage code track sector
  let d := d.storeString 0 message
  (code, { d with length := message.length - 1, bufptr := 0, reading := true })

def ipeOk : Nat := 0
def ipeMemoryRead : Nat := 4
def ipeSyntax : Nat := 30
def ipeInval : Nat := 31
def ipeLongLine : Nat := 32

/-! ## Jobs -/

/-- mirrors src/vdrive/vdrive.h:39 (`VDRIVE_IS_FD`) -/
def isFd (d : CommandDrive) : Bool :=
  d.drive.vdrive.image.shape.type = .d1m || d.drive.vdrive.image.shape.type = .d2m ||
    d.drive.vdrive.image.shape.type = .d4m

/-- The job queue of the FD series, where tracks and sectors stand, and the number of jobs. -/
def jobs : Nat := 0x28
def tracksector : Nat := 0x2800
def maxjobs : Nat := 32

def jobBuffer (i : Nat) : Nat := 0x300 + i <<< 8

/-- The accesses to the sector buffer of a job. -/
def sectorAccesses (i : Nat) : List Access := (List.range 256).map fun k => .ram (jobBuffer i + k)

/-- Job 0x80: reads the sector of job `i` into its buffer. -/
def readJob (d : CommandDrive) (i : Nat) : CommandDrive :=
  let (_, drive) := vdriveSwitch d.drive d.drive.selectedPart
  let d := { d with drive := drive }
  let (track, d) := d.loadRam (tracksector + i <<< 1)
  let (sector, d) := d.loadRam (tracksector + i <<< 1 + 1)
  let (rc, buf) :=
    vdriveReadSector drive.vdrive (fun k => d.ram (jobBuffer i + k)) track.toNat sector.toNat
  let d := { d.note (sectorAccesses i) with
    ram := fun k => if jobBuffer i ≤ k ∧ k < jobBuffer i + 256 then buf (k - jobBuffer i) else d.ram k }
  d.storeRam (jobs + i) (if rc ≠ .ok then 5 else 0)

/-- Job 0x90: writes the buffer of job `i` to its sector. -/
def writeJob (d : CommandDrive) (i : Nat) : CommandDrive :=
  if d.readOnly then d.storeRam (jobs + i) 8
  else
    let (_, drive) := vdriveSwitch d.drive d.drive.selectedPart
    let d := { d with drive := drive }
    let (track, d) := d.loadRam (tracksector + i <<< 1)
    let (sector, d) := d.loadRam (tracksector + i <<< 1 + 1)
    let (rc, vdrive) :=
      vdriveWriteSector drive.vdrive (fun k => d.ram (jobBuffer i + k)) track.toNat sector.toNat
    let d := { d.note (sectorAccesses i) with drive := { d.drive with vdrive := vdrive } }
    d.storeRam (jobs + i) (if rc ≠ .ok then 7 else 0)

/-- mirrors src/vdrive/vdrive-command.c:3604-3662: one job -/
def runJob (d : CommandDrive) (i : Nat) : CommandDrive :=
  let (job, d) := d.loadRam (jobs + i)
  match job.toNat with
  | 0x80 => readJob d i
  | 0x90 => writeJob d i
  | 0xa0 | 0xb0 | 0xb8 | 0x82 | 0x86 | 0x88 | 0x8a | 0x8c => d.storeRam (jobs + i) 0
  | 0x84 => d.storeRam (jobs + i) 1
  | _ => d

def runJobs (d : CommandDrive) : CommandDrive := (List.range maxjobs).foldl runJob d

/-- The write is near the job queue. -/
def nearJobs (addr len : Nat) : Prop :=
  (jobs ≤ addr ∧ addr < jobs + maxjobs) ∨ (jobs ≤ addr + len ∧ addr + len < jobs + maxjobs)

instance (addr len : Nat) : Decidable (nearJobs addr len) := inferInstanceAs (Decidable (_ ∨ _))

/-! ## Memory commands -/

/-- The loop of `vdrive_command_memory_write`: `n` bytes from the command to the memory. -/
def commitData (d : CommandDrive) (addr : Nat) : Nat → CommandDrive
  | 0 => d
  | n + 1 =>
    let (x, d) := (commitData d addr n).loadBuffer (6 + n)
    d.storeRam ((addr + n) &&& 0x7fff) x

/-- mirrors src/vdrive/vdrive-command.c:3520-3675 -/
def vdriveCommandMemoryWrite (d : CommandDrive) (addr length : Nat) : Nat × CommandDrive :=
  let (len, d) := d.loadBuffer 5
  if len.toNat + 1 > length - 5 then vdriveCommandSetError d ipeSyntax 0 0
  else
    let d :=
      if addr ≥ 0x8000 then d
      else
        let d := commitData d addr len.toNat
        if d.isImage = true ∧ isFd d = true ∧ nearJobs addr len.toNat then runJobs d else d
    vdriveCommandSetError d ipeOk 0 0

/-- The loop of `vdrive_command_memory_read`: `n` bytes from the memory to the buffer. -/
def moveData (d : CommandDrive) (addr : Nat) : Nat → CommandDrive
  | 0 => d
  | n + 1 =>
    let (x, d) := (moveData d addr n).loadRam ((addr + n) &&& 0x7fff)
    d.storeBuffer n x

/-- `"CMD FD"` -/
def cmdFd : List UInt8 := [0x43, 0x4d, 0x44, 0x20, 0x46, 0x44]

/-- Puts bytes into the buffer, from `i` on. -/
def CommandDrive.storeBytes (d : CommandDrive) (i : Nat) : List UInt8 → CommandDrive
  | [] => d
  | c :: s => (d.storeBuffer i c).storeBytes (i + 1) s

/-- The end of `vdrive_command_memory_read`: `len` bytes are to be read. -/
def answerMemory (d : CommandDrive) (len : Nat) : Nat × CommandDrive :=
  (ipeMemoryRead, { d with length := len, bufptr := 0, reading := true })

/-- mirrors src/vdrive/vdrive-command.c:3703-3757 -/
def vdriveCommandMemoryRead (d : CommandDrive) (addr length : Nat) : Nat × CommandDrive :=
  let (len, d) := d.loadBuffer 5
  if length < 5 then vdriveCommandSetError d ipeSyntax 0 0
  else
    let len := if length < 6 then 1 else len.toNat
    if isFd d = true ∧ d.isImage = true ∧ addr = 0xfea0 ∧ len = 6 then
      answerMemory (d.storeBytes 0 cmdFd) len
    else if isFd d = true ∧ d.isImage = true ∧ addr = 0xfef0 ∧ len = 1 then
      answerMemory
        (d.storeBuffer 0 (if d.drive.vdrive.image.shape.type = .d4m then 0x34 else 0x32)) len
    else
      let len := if len = 0 then 256 else len
      -- a CR at the end
      answerMemory ((moveData d addr len).storeBuffer len 13) len

/-- mirrors src/vdrive/vdrive-command.c:3678-3688 -/
def vdriveCommandMemoryExec (d : CommandDrive) (length : Nat) : Nat × CommandDrive :=
  if length < 5 then vdriveCommandSetError d ipeSyntax 0 0 else vdriveCommandSetError d ipeOk 0 0

/-- mirrors src/vdrive/vdrive-command.c:800-820 -/
def vdriveCommandMemory (d : CommandDrive) (length : Nat) : Nat × CommandDrive :=
  if length < 5 then vdriveCommandSetError d ipeSyntax 0 0
  else
    let (lo, d) := d.loadBuffer 3
    let (hi, d) := d.loadBuffer 4
    let addr := lo.toNat + hi.toNat <<< 8
    let (type, d) := d.loadBuffer 2
    if type = 0x57 then vdriveCommandMemoryWrite d addr length
    else if type = 0x52 then vdriveCommandMemoryRead d addr length
    else if type = 0x45 then vdriveCommandMemoryExec d length
    else vdriveCommandSetError d ipeInval 0 0

def ipMaxCommandLen : Nat := 128

/-- mirrors src/vdrive/vdrive-command.c:166-196; `none` for what is no memory command -/
def vdriveCommandExecute (d : CommandDrive) (length : Nat) : Option (Nat × CommandDrive) :=
  if length = 0 then some (ipeOk, d)
  else if length > ipMaxCommandLen then some (vdriveCommandSetError d ipeLongLine 0 0)
  else
    let (first, d) := d.loadBuffer 0
    if first = 0x4d ∧ length > 2 then
      let (second, d) := d.loadBuffer 1
      if second = 0x2d then some (vdriveCommandMemory d length) else none
    else none

/-! ## The channel -/

/-- mirrors src/vdrive/vdrive-iec.c:1067-1148 (`vdrive_iec_write`), `BUFFER_COMMAND_CHANNEL` -/
def vdriveIecWrite (d : CommandDrive) (data : UInt8) : CommandDrive :=
  let d := if d.reading then { d with bufptr := 0, reading := false } else d
  if d.bufptr ≥ 256 then d
  else
    let d := d.storeBuffer d.bufptr data
    { d with bufptr := d.bufptr + 1 }

/-- mirrors src/vdrive/vdrive-iec.c:1153-1184 (`vdrive_iec_flush`) -/
def vdriveIecFlush (d : CommandDrive) : Option CommandDrive :=
  if d.reading = true then some d
  else if d.length ≠ 0 then
    (vdriveCommandExecute d d.bufptr).map fun r => { r.2 with bufptr := 0 }
  else some d

/-- mirrors src/vdrive/vdrive-iec.c:1023-1045 (`vdrive_iec_read`), `BUFFER_COMMAND_CHANNEL` -/
def vdriveIecRead (d : CommandDrive) : UInt8 × Bool × CommandDrive :=
  let d := if d.bufptr > d.length then (vdriveCommandSetError d ipeOk 0 0).2 else d
  let (data, d) := d.loadBuffer d.bufptr
  let d := { d with bufptr := d.bufptr + 1 }
  (data, decide (d.bufptr > d.length), d)

/-- The bytes of `n` reads. -/
def readAnswer (d : CommandDrive) : Nat → List UInt8 × CommandDrive
  | 0 => ([], d)
  | n + 1 =>
    let (data, _, d) := vdriveIecRead d
    let (rest, d) := readAnswer d n
    (data :: rest, d)

/-- A command is written, executed, and its answer read. -/
def session (d : CommandDrive) (command : List UInt8) (n : Nat) : Option (List UInt8 × CommandDrive) :=
  (vdriveIecFlush (command.foldl vdriveIecWrite d)).map fun d => readAnswer d n

def Inside (d : CommandDrive) : Prop := ∀ a ∈ d.accesses, a.InRange

/-- A command can be written: the last one has been answered. -/
structure Ready (d : CommandDrive) : Prop where
  reading : d.reading = true
  length : d.length ≠ 0

/-- An answer is there to be read. -/
structure Answering (d : CommandDrive) : Prop where
  inside : Inside d
  ready : Ready d
  length : d.length < 256
  bufptr : d.bufptr ≤ d.length + 1

section
variable {d : CommandDrive} {i n k addr length : Nat} {x : UInt8} {s command : List UInt8}

/-! ## Single accesses -/

theorem Inside.note {accesses : List Access} (h : Inside d) (hnew : ∀ a ∈ accesses, a.InRange) :
    Inside (d.note accesses) := by
  intro a ha
  rcases List.mem_append.mp ha with hold | hin
  · exact h a hold
  · exact hnew a hin

theorem Inside.loadBuffer (h : Inside d) (hi : i < 256) : Inside (d.loadBuffer i).2 :=
  h.note fun _ ha => List.mem_singleton.mp ha ▸ hi

theorem Inside.storeBuffer (h : Inside d) (hi : i < 256) : Inside (d.storeBuffer i x) :=
  h.note fun _ ha => List.mem_singleton.mp ha ▸ hi

theorem Inside.loadRam (h : Inside d) (hi : i < 0x8000) : Inside (d.loadRam i).2 :=
  h.note fun _ ha => List.mem_singleton.mp ha ▸ hi

theorem Inside.storeRam (h : Inside d) (hi : i < 0x8000) : Inside (d.storeRam i x) :=
  h.note fun _ ha => List.mem_singleton.mp ha ▸ hi

/-! ## Strings -/

theorem storeString_inside (h : Inside d) (hi : i + s.length < 256) : Inside (d.storeString i s) := by
  induction s generalizing d i with
  | nil => exact h.storeBuffer hi
  | cons c s ih =>
    simp only [List.length_cons] at hi
    exact ih (h.storeBuffer (by omega)) (by omega)

theorem storeBytes_inside (h : Inside d) (hi : i + s.length ≤ 256) : Inside (d.storeBytes i s) := by
  induction s generalizing d i with
  | nil => exact h
  | cons c s ih =>
    simp only [List.length_cons] at hi
    exact ih (h.storeBuffer (by omega)) (by omega)

theorem errorMessage_length (code track sector : Nat) :
    10 < (errorMessage code track sector).length ∧ (errorMessage code track sector).length ≤ 40 := by
  have htable : ∀ m ∈ cbmdosErrorMessages, 3 ≤ m.2.length ∧ m.2.length ≤ 28 := by decide
  have htext : 3 ≤ (cbmdosErrortext code).length ∧ (cbmdosErrortext code).length ≤ 28 := by
    unfold cbmdosErrortext
    split
    · next hfind => exact htable _ (List.mem_of_find?_eq_some hfind)
    · decide
  simp only [errorMessage, twoDigits, List.length_append, List.length_cons, List.length_nil, List.length_map]
  omega

theorem setError_answering (h : Inside d) (code track sector : Nat) :
    Answering (vdriveCommandSetError d code track sector).2 := by
  have hlen := errorMessage_length code track sector
  have hin : Inside (d.storeString 0 (errorMessage code track sector)) :=
    storeString_inside h (by omega)
  unfold vdriveCommandSetError
  generalize errorMessage code track sector = message at hlen hin
  refine ⟨hin, ⟨rfl, ?_⟩, ?_, Nat.zero_le _⟩
  · dsimp only
    omega
  · dsimp only
    omega

/-! ## Memory -/

theorem and_lt (n : Nat) : n &&& 0x7fff < 0x8000 := by
  have h : n &&& 0x7fff ≤ 0x7fff := Nat.and_le_right
  omega

theorem commitData_inside (h : Inside d) (hn : n ≤ 250) : Inside (commitData d addr n) := by
  induction n with
  | zero => exact h
  | succ n ih => exact ((ih (by omega)).loadBuffer (by omega)).storeRam (and_lt _)

theorem moveData_inside (h : Inside d) (hn : n ≤ 256) : Inside (moveData d addr n) := by
  induction n with
  | zero => exact h
  | succ n ih => exact ((ih (by omega)).loadRam (and_lt _)).storeBuffer (by omega)

/-! ## Jobs -/

theorem jobBuffer_eq (i : Nat) : jobBuffer i = 0x300 + 256 * i := by
  rw [jobBuffer, Nat.shiftLeft_eq, Nat.mul_comm]

theorem double_eq (i : Nat) : i <<< 1 = 2 * i := by
  rw [Nat.shiftLeft_eq, Nat.mul_comm]

theorem sectorAccesses_inside (hi : i < maxjobs) : ∀ a ∈ sectorAccesses i, a.InRange := by
  intro a ha
  obtain ⟨k, hk, rfl⟩ := List.mem_map.mp ha
  have hlt := List.mem_range.mp hk
  simp only [maxjobs] at hi
  simp only [Access.InRange, jobBuffer_eq]
  omega

theorem readJob_inside (h : Inside d) (hi : i < maxjobs) : Inside (readJob d i) := by
  have hlt : i < 32 := hi
  have htrack : tracksector + i <<< 1 < 0x8000 := by
    simp only [tracksector, double_eq]
    omega
  have hsector : tracksector + i <<< 1 + 1 < 0x8000 := by
    simp only [tracksector, double_eq]
    omega
  have hslot : jobs + i < 0x8000 := by
    simp only [jobs]
    omega
  have hmoved : Inside { d with drive := (vdriveSwitch d.drive d.drive.selectedPart).2 } := h
  exact Inside.storeRam
    (((hmoved.loadRam htrack).loadRam hsector).note (sectorAccesses_inside hi)) hslot

theorem writeJob_inside (h : Inside d) (hi : i < maxjobs) : Inside (writeJob d i) := by
  have hlt : i < 32 := hi
  have htrack : tracksector + i <<< 1 < 0x8000 := by
    simp only [tracksector, double_eq]
    omega
  have hsector : tracksector + i <<< 1 + 1 < 0x8000 := by
    simp only [tracksector, double_eq]
    omega
  have hslot : jobs + i < 0x8000 := by
    simp only [jobs]
    omega
  unfold writeJob
  split
  · exact h.storeRam hslot
  · have hmoved : Inside { d with drive := (vdriveSwitch d.drive d.drive.selectedPart).2 } := h
    exact Inside.storeRam
      (((hmoved.loadRam htrack).loadRam hsector).note (sectorAccesses_inside hi)) hslot

theorem runJob_inside (h : Inside d) (hi : i < maxjobs) : Inside (runJob d i) := by
  have hlt : i < 32 := hi
  have hslot : jobs + i < 0x8000 := by
    simp only [jobs]
    omega
  have hload := h.loadRam hslot
  unfold runJob
  dsimp only
  split
  · exact readJob_inside hload hi
  · exact writeJob_inside hload hi
  all_goals first | exact hload.storeRam hslot | exact hload

theorem runJobs_inside (h : Inside d) : Inside (runJobs d) := by
  have hstep : ∀ n ≤ maxjobs, Inside ((List.range n).foldl runJob d) := by
    intro n
    induction n with
    | zero => exact fun _ => h
    | succ n ih =>
      intro hn
      rw [List.range_succ, List.foldl_append]
      exact runJob_inside (ih (by omega)) hn
  exact hstep maxjobs (Nat.le_refl _)

/-! ## Commands -/

theorem memoryWrite_answering (h : Inside d) (hlen : length ≤ 256) :
    Answering (vdriveCommandMemoryWrite d addr length).2 := by
  have hload := h.loadBuffer (i := 5) (by decide)
  unfold vdriveCommandMemoryWrite
  dsimp only
  split
  · exact setError_answering hload ..
  · next hfits =>
    apply setError_answering
    split
    · exact hload
    · have hdata : Inside (commitData (d.loadBuffer 5).2 addr (d.loadBuffer 5).1.toNat) :=
        commitData_inside hload (by omega)
      split
      · exact runJobs_inside hdata
      · exact hdata

theorem answerMemory_answering {len : Nat} (h : Inside d) (hpos : len ≠ 0) (hlen : len < 256) :
    Answering (answerMemory d len).2 :=
  ⟨h, ⟨rfl, hpos⟩, hlen, Nat.zero_le _⟩

theorem memoryRead_answering (h : Inside d) (hlen : 6 ≤ length → d.buffer 5 ≠ 0) :
    Answering (vdriveCommandMemoryRead d addr length).2 := by
  have hload := h.loadBuffer (i := 5) (by decide)
  have hbyte : (d.loadBuffer 5).1.toNat < 256 := (d.loadBuffer 5).1.toNat_lt
  unfold vdriveCommandMemoryRead
  dsimp only
  split
  · exact setError_answering hload ..
  · have hpos : (if length < 6 then 1 else (d.loadBuffer 5).1.toNat) ≠ 0 := by
      split
      · decide
      · intro hzero
        exact hlen (by omega) (UInt8.toNat_inj.mp hzero)
    have hlt : (if length < 6 then 1 else (d.loadBuffer 5).1.toNat) < 256 := by
      split
      · decide
      · exact hbyte
    have hfd : Inside ((d.loadBuffer 5).2.storeBytes 0 cmdFd) := storeBytes_inside hload (by decide)
    have hmodel : ∀ x, Inside ((d.loadBuffer 5).2.storeBuffer 0 x) := fun x =>
      hload.storeBuffer (by decide)
    generalize (if length < 6 then 1 else (d.loadBuffer 5).1.toNat) = len at hpos hlt ⊢
    split
    · exact answerMemory_answering hfd hpos hlt
    · split
      · exact answerMemory_answering (hmodel _) hpos hlt
      · exact answerMemory_answering ((moveData_inside hload (Nat.le_of_lt hlt)).storeBuffer hlt)
          hpos hlt

theorem memory_answering (h : Inside d) (hlen : length ≤ 256)
    (hread : d.buffer 2 = 0x52 → 6 ≤ length → d.buffer 5 ≠ 0) :
    Answering (vdriveCommandMemory d length).2 := by
  have hload : Inside (((d.loadBuffer 3).2.loadBuffer 4).2.loadBuffer 2).2 :=
    ((h.loadBuffer (by decide)).loadBuffer (by decide)).loadBuffer (by decide)
  unfold vdriveCommandMemory
  dsimp only
  split
  · exact setError_answering h ..
  · split
    · exact memoryWrite_answering hload hlen
    · split
      · next hr => exact memoryRead_answering hload (hread hr)
      · split
        · unfold vdriveCommandMemoryExec
          split
          · exact setError_answering hload ..
          · exact setError_answering hload ..
        · exact setError_answering hload ..

/-! ## Writing a command -/

/-- A command is being written: its first bytes are in the buffer. -/
structure Written (d e : CommandDrive) (command : List UInt8) : Prop where
  inside : Inside d → Inside e
  reading : e.reading = false
  bufptr : e.bufptr = min command.length 256
  buffer : ∀ i, i < e.bufptr → e.buffer i = command.getD i 0
  length : e.length = d.length
  drive : e.drive = d.drive
  isImage : e.isImage = d.isImage
  ram : e.ram = d.ram

theorem write_written {e : CommandDrive} (h : Written d e s) : Written d (vdriveIecWrite e x) (s ++ [x]) := by
  obtain ⟨hin, hread, hptr, hbuf, hlen, hdrive, himage, hram⟩ := h
  have hlast : (s ++ [x]).length = s.length + 1 := by simp
  unfold vdriveIecWrite
  simp only [hread, Bool.false_eq_true, ↓reduceIte]
  split
  · next hfull =>
    refine ⟨hin, hread, by omega, ?_, hlen, hdrive, himage, hram⟩
    intro i hi
    rw [hbuf i hi, List.getD_append _ _ _ _ (by omega)]
  · next hroom =>
    refine ⟨fun hd => (hin hd).storeBuffer (x := x) (by omega), hread, ?_, ?_, hlen, hdrive, himage, hram⟩
    · change e.bufptr + 1 = min (s ++ [x]).length 256
      omega
    · intro i hi
      have hlt : i < e.bufptr + 1 := hi
      change Function.update e.buffer e.bufptr x i = (s ++ [x]).getD i 0
      by_cases hat : i = e.bufptr
      · have hs : i = s.length := by omega
        subst hat
        simp [hs]
      · rw [Function.update_of_ne hat, hbuf i (by omega), List.getD_append _ _ _ _ (by omega)]

/-- A command of any length is in the buffer up to the end of the page. -/
theorem writes_written (h : d.reading = true) (c : UInt8) (s : List UInt8) :
    Written d ((c :: s).foldl vdriveIecWrite d) (c :: s) := by
  have hfirst : Written d (vdriveIecWrite d c) [c] := by
    have hwrite : vdriveIecWrite d c =
        { ({ d with bufptr := 0, reading := false } : CommandDrive).storeBuffer 0 c with bufptr := 1 } := by
      simp [vdriveIecWrite, h, CommandDrive.storeBuffer, CommandDrive.note]
    rw [hwrite]
    refine ⟨fun hd => Inside.storeBuffer (d := { d with bufptr := 0, reading := false })
      (x := c) hd (by decide), rfl, rfl, ?_, rfl, rfl, rfl, rfl⟩
    intro i hi
    have hzero : i = 0 := Nat.lt_one_iff.mp hi
    subst hzero
    rfl
  have hrest : ∀ e pre, Written d e pre →
      Written d (s.foldl vdriveIecWrite e) (pre ++ s) := by
    induction s with
    | nil =>
      intro e pre he
      rwa [List.append_nil]
    | cons x s ih =>
      intro e pre he
      have hnext := ih (vdriveIecWrite e x) (pre ++ [x]) (write_written he)
      rwa [List.append_assoc] at hnext
  exact hrest _ _ hfirst

/-! ## Answers -/

theorem read_answering (h : Answering d) : Answering (vdriveIecRead d).2.2 := by
  have hset : Answering (if d.bufptr > d.length then (vdriveCommandSetError d ipeOk 0 0).2 else d) ∧
      (if d.bufptr > d.length then (vdriveCommandSetError d ipeOk 0 0).2 else d).bufptr ≤
        (if d.bufptr > d.length then (vdriveCommandSetError d ipeOk 0 0).2 else d).length := by
    split
    · exact ⟨setError_answering h.inside .., Nat.zero_le _⟩
    · next hle => exact ⟨h, Nat.le_of_not_lt hle⟩
  unfold vdriveIecRead
  generalize (if d.bufptr > d.length then (vdriveCommandSetError d ipeOk 0 0).2 else d) = e at hset ⊢
  obtain ⟨⟨hin, hready, hlen, -⟩, hptr⟩ := hset
  exact ⟨hin.loadBuffer (by omega), ⟨hready.reading, hready.length⟩, hlen, Nat.succ_le_succ hptr⟩

theorem readAnswer_answering (h : Answering d) (n : Nat) : Answering (readAnswer d n).2 := by
  induction n generalizing d with
  | zero => exact h
  | succ n ih => exact ih (read_answering h)

/-! ## Sessions -/

/-- `M-R` or `M-W`, with anything behind it. -/
inductive IsMemory : List UInt8 → Prop
  | read (s : List UInt8) : IsMemory (0x4d :: 0x2d :: 0x52 :: s)
  | write (s : List UInt8) : IsMemory (0x4d :: 0x2d :: 0x57 :: s)

/-- `M-R` with a length byte of 0, which asks for a whole page. -/
def AsksPage (command : List UInt8) : Prop :=
  command.getD 2 0 = 0x52 ∧ 6 ≤ command.length ∧ command.getD 5 0 = 0

theorem IsMemory.start (h : IsMemory command) :
    3 ≤ command.length ∧ command.getD 0 0 = 0x4d ∧ command.getD 1 0 = 0x2d := by
  cases h <;> simp

/-- What is executed of a memory command. -/
theorem execute_memory {e : CommandDrive} (hw : Written d e command) (hc : IsMemory command) :
    vdriveCommandExecute e e.bufptr =
      if e.bufptr > ipMaxCommandLen then some (vdriveCommandSetError e ipeLongLine 0 0)
      else some (vdriveCommandMemory ((e.loadBuffer 0).2.loadBuffer 1).2 e.bufptr) := by
  obtain ⟨hlen, hfirst, hsecond⟩ := hc.start
  have hptr := hw.bufptr
  have h0 : e.buffer 0 = 0x4d := (hw.buffer 0 (by omega)).trans hfirst
  have h1 : e.buffer 1 = 0x2d := (hw.buffer 1 (by omega)).trans hsecond
  unfold vdriveCommandExecute
  rw [if_neg (by omega)]
  split
  · rfl
  · have hload : (e.loadBuffer 0).1 = 0x4d := h0
    have hload1 : ((e.loadBuffer 0).2.loadBuffer 1).1 = 0x2d := h1
    dsimp only
    rw [if_pos ⟨hload, by omega⟩, if_pos hload1]

theorem Answering.restart (h : Answering d) : Answering { d with bufptr := 0 } :=
  ⟨h.inside, ⟨h.ready.reading, h.ready.length⟩, h.length, Nat.zero_le _⟩

theorem flush_memory (hr : Ready d) (hd : Inside d) (hc : IsMemory command) (hpage : ¬ AsksPage command) :
    ∃ e, vdriveIecFlush (command.foldl vdriveIecWrite d) = some e ∧ Answering e := by
  have hw : Written d (command.foldl vdriveIecWrite d) command := by
    cases hc with
    | read s => exact writes_written hr.reading _ _
    | write s => exact writes_written hr.reading _ _
  generalize command.foldl vdriveIecWrite d = e at hw
  have hptr := hw.bufptr
  have hin := hw.inside hd
  have hlen : e.length ≠ 0 := hw.length ▸ hr.length
  unfold vdriveIecFlush
  rw [hw.reading, if_neg (by decide), if_pos hlen, execute_memory hw hc]
  split
  · rw [Option.map_some]
    exact ⟨_, rfl, (setError_answering hin ipeLongLine 0 0).restart⟩
  · next hshort =>
    rw [Option.map_some]
    simp only [ipMaxCommandLen] at hshort
    have hload : Inside ((e.loadBuffer 0).2.loadBuffer 1).2 :=
      (hin.loadBuffer (by decide)).loadBuffer (by decide)
    have hmem : Answering (vdriveCommandMemory _ e.bufptr).2 := memory_answering hload (by omega) (by
      intro htype hsix hzero
      have h2 := hw.buffer 2 (by omega)
      have h5 := hw.buffer 5 (by omega)
      exact hpage ⟨h2.symm.trans htype, by omega, h5.symm.trans hzero⟩)
    exact ⟨_, rfl, hmem.restart⟩

/-- After a memory command and any number of reads the next one can follow, and nothing outside has
been accessed. -/
theorem session_inside (hr : Ready d) (hd : Inside d) (hc : IsMemory command)
    (hpage : ¬ AsksPage command) (n : Nat) :
    ∃ answer e, session d command n = some (answer, e) ∧ Inside e ∧ Ready e := by
  obtain ⟨e, he, hanswering⟩ := flush_memory hr hd hc hpage
  have hend := readAnswer_answering hanswering n
  exact ⟨_, _, by rw [session, he]; rfl, hend.inside, hend.ready⟩

end

end Vice.L3.CommandMemory
