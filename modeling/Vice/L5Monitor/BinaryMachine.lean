import Vice.L5Monitor.BinaryFrame
import Vice.L5Monitor.CpuHistory

/-!
# What the binary monitor works on

The responses of the binary monitor, how it reads a body, and the rest of the emulator as the
handlers see it.

`Machine` is everything behind the handlers. The parts that read a body themselves (`da_decode`,
`checkpoint_decode_silent`, the key matrix and the video recorder) get the body and its length.

Results:
* `stringField_congr`: a string in the body is its own bytes.
-/
namespace Vice.L5.BinaryMachine
open Vice.L0.Bytes Vice.L5.BinaryFrame Vice.L5.CpuHistory

/-! ## Responses -/

/-- mirrors src/monitor/monitor_binary.c:198-208 (`t_mon_error`) -/
inductive BinaryError
  | ok | objectMissing | invalidMemspace | cmdInvalidLength | invalidParameter
  | cmdInvalidApiVersion | cmdInvalidType | cmdFailure
  deriving DecidableEq, Repr

/-- mirrors src/monitor/monitor_binary.c:143-196 (`t_binary_response`), as far as commands are
answered. -/
inductive BinaryResponse
  | invalid | memGet | memSet | checkpointInfo | checkpointDelete | checkpointList
  | checkpointToggle | conditionSet | registerInfo | dump | undump | resourceGet | resourceSet
  | advanceInstructions | keyboardFeed | executeUntilReturn | keymatrixSet | keymatrixTap
  | keymatrixGet | screenGet | driveAttach | videoRecord | ping | banksAvailable
  | registersAvailable | displayGet | viceInfo | cpuhistoryGet | paletteGet | joyportSet
  | userportSet | exit | quit | reset | autostart
  deriving DecidableEq, Repr

/-- The arguments of `monitor_binary_response`. -/
structure Response where
  length : UInt32
  type : BinaryResponse
  errorcode : BinaryError
  requestId : UInt32
  body : Option (List UInt8)
  deriving DecidableEq, Repr

/-- mirrors src/monitor/monitor_binary.c:315-320 -/
def writeUint16 (input : UInt16) : List UInt8 := [input.toUInt8, (input >>> 8).toUInt8]

/-- mirrors src/monitor/monitor_binary.c:323-330 -/
def writeUint32 (input : UInt32) : List UInt8 :=
  [input.toUInt8, (input >>> 8).toUInt8, (input >>> 16).toUInt8, (input >>> 24).toUInt8]

/-- mirrors src/monitor/monitor_binary.c:333-339 -/
def writeUint64 (input : UInt64) : List UInt8 :=
  (List.range 8).map fun i => (input >>> UInt64.ofNat (8 * i)).toUInt8

/-- mirrors src/monitor/monitor_binary.c:342-347: the callers' lengths become a byte. -/
def writeString (input : List UInt8) : List UInt8 :=
  let length := UInt8.ofNat input.length
  length :: input.take length.toNat

/-- mirrors src/monitor/monitor_binary.c:377-380 (`monitor_binary_error`) -/
def monitorBinaryError (errorcode : BinaryError) (requestId : UInt32) : Response :=
  ⟨0, .invalid, errorcode, requestId, none⟩

/-! ## Reading a body -/

/-- mirrors src/monitor/monitor_binary.c:355-357 -/
def littleEndianToUint16 (input : Memory) (i : Nat) : UInt16 :=
  ((input (i + 1)).toUInt16 <<< 8) + (input i).toUInt16

/-- The characters from `off` to a zero, at most `n`. -/
def cString (m : Memory) (off : Nat) : Nat → List UInt8
  | 0 => []
  | n + 1 => if m off = 0 then [] else m off :: cString m (off + 1) n

/-- A zero is put behind the `n` characters at `off`. -/
def terminate (m : Memory) (off n : Nat) : Memory := Function.update m (off + n) 0

/-- The string of a field of `n` characters at `off`. -/
def stringField (m : Memory) (off n : Nat) : List UInt8 := cString (terminate m off n) off (n + 1)

/-- mirrors src/monitor/monitor_binary.c:419-433 -/
def getRequestedMemspace (requested : UInt8) : Memspace :=
  match requested.toNat with
  | 0 => .comp
  | 1 => .disk8
  | 2 => .disk9
  | 3 => .disk10
  | 4 => .disk11
  | _ => .invalid

/-- mirrors src/monitor/monitor_binary.c:435-449 -/
def memspaceToUint8 : Memspace → UInt8
  | .comp => 0
  | .disk8 => 1
  | .disk9 => 2
  | .disk10 => 3
  | .disk11 => 4
  | .default | .invalid => 0xff

/-! ## The rest of the emulator -/

/-- mirrors src/monitor/mon_breakpoint.h (`mon_checkpoint_s`), as far as it is reported. -/
structure Checkpoint where
  checknum : UInt32
  memspace : Memspace
  startAddr : UInt16
  endAddr : UInt16
  stop : Bool
  enabled : Bool
  checkStore : Bool
  checkLoad : Bool
  checkExec : Bool
  temporary : Bool
  hitCount : UInt32
  ignoreCount : UInt32
  condition : Bool

/-- mirrors src/monitor/mon_register.h:30-44 (`mon_reg_list_s`) -/
structure Register where
  name : List UInt8
  id : UInt8
  size : UInt8
  isFlags : Bool
  val : UInt16

/-- mirrors src/screenshot.h (`screenshot_s`): what `display_get` and `palette_get` report of it.
`line` is the line that `convert_line` gives. -/
structure Screenshot where
  debugWidth : UInt16
  debugHeight : UInt16
  debugOffsetX : UInt16
  debugOffsetY : UInt16
  innerWidth : UInt16
  innerHeight : UInt16
  line : Nat → List UInt8
  palette : List (UInt8 × UInt8 × UInt8)

structure DaRequest where
  unit : UInt8
  drive : UInt8
  detach : Bool
  path : List UInt8

inductive DaResult
  | ok (req : DaRequest)
  | errLength
  | errParam

inductive VideoResult
  | ok | errLength | failed

inductive ResourceType
  | integer | string | unknown

/-- mirrors src/monitor/montypes.h:159-165 (`t_io_sim_result`) -/
inductive IoSimResult
  | ok | generalFailure | illegalValue | illegalPort

/-- The functions that the handlers call; a result that is only tested for failure is a `Bool`. -/
structure Machine (σ : Type) where
  driveCpuExecuteAll : σ → σ
  findCheckpoint : σ → UInt32 → Option Checkpoint
  addCheckpoint : σ → (memspace : Memspace) → (start end_ : UInt16) → (stop : Bool) → (op : UInt8) →
    (temporary : Bool) → σ × UInt32
  switchCheckpoint : σ → (enable : Bool) → UInt32 → σ
  setSilent : σ → UInt32 → Bool → σ
  deleteCheckpoint : σ → UInt32 → σ
  checkpointListGet : σ → List Checkpoint
  checkpointDecodeSilent : Memory → UInt32 → Bool
  parseAndExecuteLine : σ → List UInt8 → σ × Bool
  instructionsNext : σ → UInt16 → σ
  instructionsStep : σ → UInt16 → σ
  instructionReturn : σ → σ
  resetMachine : σ → UInt8 → σ
  kbdbufFeed : σ → List UInt8 → σ
  keymatrixSet : σ → Memory → UInt32 → σ × Bool
  keymatrixTap : σ → Memory → UInt32 → σ × Bool
  keymatrixGet : σ → Option (List UInt8)
  screenGet : σ → Option (List UInt8)
  daDecode : Memory → UInt32 → DaResult
  detachDisk : σ → (unit drive : UInt8) → σ
  attachDisk : σ → (unit drive : UInt8) → List UInt8 → σ × Bool
  videoRecord : σ → Memory → UInt32 → σ × VideoResult
  autostart : σ → List UInt8 → UInt16 → Bool → σ × Bool
  registerListGet : σ → Memspace → List Register
  registerValid : σ → Memspace → UInt8 → Bool
  registerSetVal : σ → Memspace → UInt8 → UInt16 → σ
  pc : σ → UInt16
  setDotAddr : σ → UInt16 → σ
  writeSnapshot : σ → List UInt8 → (saveRoms saveDisks : Bool) → σ × Bool
  readSnapshot : σ → List UInt8 → σ × Bool
  queryType : σ → List UInt8 → ResourceType
  getString : σ → List UInt8 → Option (List UInt8)
  getInt : σ → List UInt8 → Option UInt32
  setValueString : σ → List UInt8 → List UInt8 → σ × Bool
  setInt : σ → List UInt8 → UInt32 → σ × Bool
  exitMon : σ → σ
  quit : σ → σ
  banks : σ → Option (List (UInt16 × List UInt8))
  isC128 : Bool
  screenshot : σ → (canvas : Nat) → Option Screenshot
  joyportSetOutput : σ → (port value : UInt16) → σ × IoSimResult
  userportSetOutput : σ → UInt16 → σ × IoSimResult
  /-- `VERSION_RC_NUMBER` and the revision -/
  version : UInt8 × UInt8 × UInt8 × UInt8
  revision : UInt32
  /-- none without `FEATURE_CPUMEMHISTORY` -/
  cpuhistory : σ → Option Ring
  banknumValidate : σ → Memspace → UInt16 → Bool
  getMemBlock : σ → (sidefx : Bool) → Memspace → (bank start : UInt16) → (count : Nat) →
    σ × List UInt8
  setMemVal : σ → (sidefx : Bool) → Memspace → (bank addr : UInt16) → UInt8 → σ

section
variable {m m' : Memory} {off n len i : Nat}

/-! ## The bytes that are read -/

theorem littleEndianToUint16_congr (h : ∀ i < len, m' i = m i) (hi : i + 1 < len) :
    littleEndianToUint16 m' i = littleEndianToUint16 m i := by
  rw [littleEndianToUint16, littleEndianToUint16, h _ hi, h i (by omega)]

theorem littleEndianToUint32_congr (h : ∀ i < len, m' i = m i) (hi : i + 3 < len) :
    littleEndianToUint32 m' i = littleEndianToUint32 m i := by
  rw [littleEndianToUint32, littleEndianToUint32, h _ hi, h (i + 2) (by omega),
    h (i + 1) (by omega), h i (by omega)]

/-- Only the characters before the zero are looked at. -/
theorem cString_congr (h : ∀ i, off ≤ i → i < off + n → m' i = m i) : cString m' off n = cString m off n := by
  induction n generalizing off with
  | zero => rfl
  | succ n ih =>
    have hrest : cString m' (off + 1) n = cString m (off + 1) n :=
      ih fun i hi hn => h i (by omega) (by omega)
    rw [cString, cString, h off (Nat.le_refl _) (by omega), hrest]

theorem terminate_congr (h : ∀ i, off ≤ i → i < off + n → m' i = m i) (hi : off ≤ i)
    (hn : i < off + (n + 1)) : terminate m' off n i = terminate m off n i := by
  unfold terminate
  by_cases heq : i = off + n
  · rw [heq, Function.update_self, Function.update_self]
  · rw [Function.update_of_ne heq, Function.update_of_ne heq, h i hi (by omega)]

theorem stringField_congr (h : ∀ i < len, m' i = m i) (hlen : off + n ≤ len) :
    stringField m' off n = stringField m off n :=
  cString_congr fun _ hi hn => terminate_congr (fun i _ hi => h i (by omega)) hi hn

end

end Vice.L5.BinaryMachine
