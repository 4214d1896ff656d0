import Mathlib.Algebra.Group.Nat.Defs
import Mathlib.Logic.Function.Basic

/-!
# The EEPROM of the GMod2 (`core/m93c86.c`)

The M93C86 holds 1024 words of 16 bits. Commands come in bit by bit, on the rising edges of a clock
while the chip is selected, and what a bit means depends on how many came before.

* `M93c86`: the lines, the two shift registers and the memory.
* `snapshotWriteModule`, `snapshotReadModule`: everything in bytes.

`data0` and `data1` are set before each use, and `ready_busy_status` is never used; they are left out. The
counters and registers are an `unsigned int`.
-/
namespace Vice.L4.M93c86

/-- mirrors src/core/m93c86.c:86-97, with 0 as `none`. -/
inductive Cmd
  | none
  | cmd00
  | write
  | read
  | erase
  | wen
  | wds
  | eral
  | wral
  | readDummy
  | readData
  | isBusy
  | isReady
  deriving DecidableEq, Repr

/-- mirrors src/core/m93c86.c:60-84 -/
structure Eeprom where
  data : Nat → UInt8
  cs : Bool
  clock : Bool
  dataIn : Bool
  dataOut : Bool
  inputShiftreg : Nat
  inputCount : Nat
  outputShiftreg : Nat
  outputCount : Nat
  command : Cmd
  addr : Nat
  writeEnableStatus : Bool

/-- The number of bytes. -/
def M93C86_SIZE : Nat := 2048

section
variable (s : Eeprom)

/-- mirrors src/core/m93c86.c:103-108 (`reset_input_shiftreg`) -/
def resetInputShiftreg : Eeprom := { s with inputShiftreg := 0, inputCount := 0 }

/-- mirrors src/core/m93c86.c:110-134 (`m93c86_read_data`): ready is 1. -/
def readData : Bool × Eeprom :=
  if s.cs then
    match s.command with
    | .isBusy => (false, { s with command := .isReady })
    | .isReady => (true, { s with command := .none })
    | _ => (s.dataOut, s)
  else (false, s)

/-- mirrors src/core/m93c86.c:136-141 (`m93c86_write_data`) -/
def writeData (value : Bool) : Eeprom := if s.cs then { s with dataIn := value } else s

/-- mirrors src/core/m93c86.c:143-165 (`m93c86_write_select`) -/
def writeSelect (value : Bool) : Eeprom :=
  let s := if s.cs = false ∧ value = true ∧ s.clock = false then resetInputShiftreg s
    else if s.cs = true ∧ value = false then
      { s with command := match s.command with
        | .write | .wral | .eral => .isBusy
        | c => c }
    else s
  let s := { s with cs := value }
  if s.cs = false ∧ (s.command = .read ∨ s.command = .readDummy ∨ s.command = .readData) then
    { s with command := .none }
  else s

/-! ## Bits going out -/

/-- mirrors src/core/m93c86.c:171-184: the first bit of the first word. -/
def firstBit : Eeprom :=
  let shiftreg := (s.data (s.addr <<< 1)).toNat
  { s with
    outputShiftreg := (shiftreg <<< 1) % 2 ^ 32
    dataOut := ((shiftreg >>> 7) &&& 1) = 1
    outputCount := 1
    command := .readData }

/-- mirrors src/core/m93c86.c:185-200 -/
def nextBit : Eeprom :=
  let s := { s with
    dataOut := ((s.outputShiftreg >>> 7) &&& 1) = 1
    outputShiftreg := (s.outputShiftreg <<< 1) % 2 ^ 32
    outputCount := (s.outputCount + 1) % 2 ^ 32 }
  if s.outputCount = 8 then { s with outputShiftreg := (s.data ((s.addr <<< 1) + 1)).toNat }
  else if s.outputCount = 16 then
    let addr := (s.addr + 1) &&& (M93C86_SIZE / 2 - 1)
    { s with addr := addr, outputShiftreg := (s.data (addr <<< 1)).toNat, outputCount := 0 }
  else s

/-! ## Bits coming in -/

/-- Two bytes of the memory. -/
def storeWord (data : Nat → UInt8) (addr : Nat) (data0 data1 : UInt8) : Nat → UInt8 :=
  Function.update (Function.update data (addr <<< 1) data0) ((addr <<< 1) + 1) data1

/-- mirrors src/core/m93c86.c:324-327 -/
def storeAll (data : Nat → UInt8) (data0 data1 : UInt8) : Nat → UInt8 :=
  (List.range (M93C86_SIZE / 2)).foldl (fun data addr => storeWord data addr data0 data1) data

/-- mirrors src/core/m93c86.c:208-212 -/
def startBit : Eeprom := if s.dataIn = false then resetInputShiftreg s else s

/-- mirrors src/core/m93c86.c:213-229 -/
def opcode : Eeprom :=
  match s.inputShiftreg with
  | 0x04 => { s with command := .cmd00 }
  | 0x05 => { s with command := .write }
  | 0x06 => { s with command := .read }
  | 0x07 => { s with command := .erase }
  | _ => s

/-- mirrors src/core/m93c86.c:230-249 -/
def opcode00 : Eeprom :=
  if s.command = .cmd00 then
    match s.inputShiftreg with
    | 0x10 => { s with command := .wds }
    | 0x11 => { s with command := .wral }
    | 0x12 => { s with command := .eral }
    | 0x13 => { s with command := .wen, writeEnableStatus := true }
    | _ => s
  else s

/-- mirrors src/core/m93c86.c:250-297 -/
def addressed : Eeprom :=
  match s.command with
  | .read => resetInputShiftreg { s with command := .readDummy, addr := s.inputShiftreg &&& 0x3ff }
  | .wds => { resetInputShiftreg s with writeEnableStatus := false, command := .none }
  | .wen => { resetInputShiftreg s with writeEnableStatus := true, command := .none }
  | .erase =>
    if s.writeEnableStatus = false then { resetInputShiftreg s with command := .none }
    else
      let addr := s.inputShiftreg &&& 0x3ff
      { resetInputShiftreg s with addr := addr, data := storeWord s.data addr 0xff 0xff }
  | .eral =>
    if s.writeEnableStatus = false then { resetInputShiftreg s with command := .none }
    else { resetInputShiftreg s with data := fun i => if i < M93C86_SIZE then 0xff else s.data i }
  | _ => s

/-- mirrors src/core/m93c86.c:298-333 -/
def filled : Eeprom :=
  let data0 := (s.inputShiftreg >>> 8).toUInt8
  let data1 := s.inputShiftreg.toUInt8
  match s.command with
  | .write =>
    if s.writeEnableStatus = false then { resetInputShiftreg s with command := .none }
    else
      let addr := (s.inputShiftreg >>> 16) &&& 0x3ff
      { resetInputShiftreg s with addr := addr, data := storeWord s.data addr data0 data1 }
  | .wral =>
    if s.writeEnableStatus = false then { resetInputShiftreg s with command := .none }
    else
      { resetInputShiftreg s with
        addr := M93C86_SIZE / 2
        data := storeAll s.data data0 data1 }
  | _ => s

/-- mirrors src/core/m93c86.c:201-335: what is put in at the end of the register is a bit. -/
def shiftIn : Eeprom :=
  let s := { s with
    inputShiftreg := (s.inputShiftreg * 2 + s.dataIn.toNat) % 2 ^ 32
    inputCount := (s.inputCount + 1) % 2 ^ 32 }
  if s.inputCount = 1 then startBit s
  else if s.inputCount = 3 then opcode s
  else if s.inputCount = 5 then opcode00 s
  else if s.inputCount = 13 then addressed s
  else if s.inputCount = 29 then filled s
  else s

/-- mirrors src/core/m93c86.c:167-339 (`m93c86_write_clock`) -/
def writeClock (value : Bool) : Eeprom :=
  let s := if s.cs = true ∧ value = true ∧ s.clock = false then
      if s.command = .readDummy then firstBit s
      else if s.command = .readData then nextBit s
      else shiftIn s
    else s
  { s with clock := value }

/-! ## Snapshots -/

/-- The module, byte by byte. -/
structure Module where
  cs : Bool
  clock : Bool
  dataIn : Bool
  dataOut : Bool
  inputShiftreg : UInt8
  inputCount : UInt8
  outputShiftreg : UInt8
  outputCount : UInt8
  command : Cmd
  addr : UInt8
  writeEnableStatus : Bool
  data : Nat → UInt8

/-- mirrors src/core/m93c86.c:469-501 (`m93c86_snapshot_write_module`): a byte of each. -/
def snapshotWriteModule : Module where
  cs := s.cs
  clock := s.clock
  dataIn := s.dataIn
  dataOut := s.dataOut
  inputShiftreg := s.inputShiftreg.toUInt8
  inputCount := s.inputCount.toUInt8
  outputShiftreg := s.outputShiftreg.toUInt8
  outputCount := s.outputCount.toUInt8
  command := s.command
  addr := s.addr.toUInt8
  writeEnableStatus := s.writeEnableStatus
  data := s.data

/-- mirrors src/core/m93c86.c:503-550 (`m93c86_snapshot_read_module`) -/
def snapshotReadModule (m : Module) : Eeprom where
  cs := m.cs
  clock := m.clock
  dataIn := m.dataIn
  dataOut := m.dataOut
  inputShiftreg := m.inputShiftreg.toNat
  inputCount := m.inputCount.toNat
  outputShiftreg := m.outputShiftreg.toNat
  outputCount := m.outputCount.toNat
  command := m.command
  addr := m.addr.toNat
  writeEnableStatus := m.writeEnableStatus
  data := m.data

end

end Vice.L4.M93c86
