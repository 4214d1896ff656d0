/-!
# Flash chips (`core/flash040core.c`, `core/flash800core.c`)

The two files are the same but for their tables and for one type whose two lowest address lines are
swapped, so the functions here take the type and the table as parameters.

* `FlashType`, `flash040Types`, `flash800Types`: the tables.
* `storeInternal`, `store`, `read`, `eraseAlarmHandler`, `reset`.

`flash_dirty` is only looked at by the cartridges that save the array.
-/
namespace Vice.L4.FlashCore

/-- mirrors src/core/flash040core.c:51-67 -/
structure FlashType where
  manufacturerID : UInt8
  deviceID : UInt8
  deviceIDAddr : Nat
  size : Nat
  sectorMask : Nat
  sectorSize : Nat
  sectorShift : Nat
  magic1Addr : Nat
  magic2Addr : Nat
  magic1Mask : Nat
  magic2Mask : Nat
  statusToggleBits : UInt8
  eraseSectorTimeoutCycles : UInt64
  eraseSectorCycles : UInt64
  eraseChipCycles : UInt64
  /-- Whether the type is `FLASH040_TYPE_032B_A0_1_SWAP`, which `flash040core_read` asks for. -/
  swapped : Bool

/-- mirrors src/flash040.h:31-50 -/
inductive Flash040Type
  | normal
  | b
  | type010
  | type032bSwapped
  | type064
  deriving DecidableEq

/-- mirrors src/core/flash040core.c:70-107 -/
def flash040Types : Flash040Type → FlashType
  | .normal => ⟨0x01, 0xa4, 1, 0x80000, 0x70000, 0x10000, 16, 0x5555, 0x2aaa, 0x7fff, 0x7fff, 0x40,
      80, 2000000, 14000000, false⟩
  | .b => ⟨0x01, 0xa4, 1, 0x80000, 0x70000, 0x10000, 16, 0x555, 0x2aa, 0x7ff, 0x7ff, 0x40,
      50, 1000000, 8000000, false⟩
  | .type010 => ⟨0x01, 0x20, 1, 0x20000, 0x1c000, 0x04000, 14, 0x5555, 0x2aaa, 0x7fff, 0x7fff, 0x40,
      80, 1000000, 1000000, false⟩
  | .type032bSwapped => ⟨0x01, 0x41, 1, 0x400000, 0x3f0000, 0x10000, 16, 0x556, 0x2a9, 0x7ff, 0x7ff, 0x44,
      50, 1000000, 64000000, true⟩
  | .type064 => ⟨0x01, 0x7e, 2, 0x800000, 0x7f0000, 0x10000, 16, 0xaaa, 0x555, 0xfff, 0xfff, 0x40,
      50, 500000, 64000000, false⟩

/-- mirrors src/core/flash800core.c:72-80 -/
def flash800Type : FlashType :=
  ⟨0xc2, 0x58, 1, 0x100000, 0x0f0000, 0x010000, 16, 0xaaa, 0x555, 0xfff, 0xfff, 0x40, 40, 700000, 8000000, false⟩

/-- The six types. -/
inductive IsType : FlashType → Prop
  | flash040 (ty : Flash040Type) : IsType (flash040Types ty)
  | flash800 : IsType flash800Type

/-- mirrors src/flash040.h:52-67 -/
inductive FlashState
  | read
  | magic1
  | magic2
  | autoselect
  | byteProgram
  | byteProgramError
  | eraseMagic1
  | eraseMagic2
  | eraseSelect
  | chipErase
  | sectorErase
  | sectorEraseTimeout
  | sectorEraseSuspend
  deriving DecidableEq

/-- mirrors src/flash040.h:69 and src/flash800.h:57 -/
def ERASE_MASK_SIZE : Nat := 8

/-- mirrors src/flash040.h:71-84; `eraseAlarm` is when the alarm is due. -/
structure Flash where
  flashData : Nat → UInt8
  flashState : FlashState
  flashBaseState : FlashState
  programByte : UInt8
  eraseMask : Nat → UInt8
  lastRead : UInt8
  eraseAlarm : Option UInt64

section
variable (t : FlashType) (s : Flash)

/-- mirrors src/core/flash040core.c:111-114 -/
def flashMagic1 (addr : Nat) : Bool := addr &&& t.magic1Mask = t.magic1Addr

/-- mirrors src/core/flash040core.c:116-119 -/
def flashMagic2 (addr : Nat) : Bool := addr &&& t.magic2Mask = t.magic2Addr

/-- mirrors src/core/flash040core.c:121-128 -/
def flashClearEraseMask : Flash :=
  { s with eraseMask := fun i => if i < ERASE_MASK_SIZE then 0 else s.eraseMask i }

/-- mirrors src/core/flash040core.c:130-135 -/
def flashSectorToAddr (sector : Nat) : Nat := sector * t.sectorSize

/-- mirrors src/core/flash040core.c:137-143 -/
def flashAddrToSectorNumber (addr : Nat) : Nat := (t.sectorMask &&& addr) >>> t.sectorShift

/-- The bit of a sector in its byte of the mask. -/
def maskBit (i : Nat) : UInt8 := UInt8.ofNat (1 <<< (i &&& 7))

/-- mirrors src/core/flash040core.c:145-150 -/
def flashAddSectorToEraseMask (addr : Nat) : Option Flash :=
  let sectorNum := flashAddrToSectorNumber t addr
  let j := sectorNum >>> 3
  if j < ERASE_MASK_SIZE then
    some { s with eraseMask := fun i => if i = j then s.eraseMask i ||| maskBit sectorNum else s.eraseMask i }
  else none

/-- A `memset` of the array to 0xff. -/
def setFF (addr n : Nat) : Option Flash :=
  if addr + n ≤ t.size then
    some { s with flashData := fun i => if addr ≤ i ∧ i < addr + n then 0xff else s.flashData i }
  else none

/-- mirrors src/core/flash040core.c:152-162 -/
def flashEraseSector (sector : Nat) : Option Flash := setFF t s (flashSectorToAddr t sector) t.sectorSize

/-- mirrors src/core/flash040core.c:164-169 -/
def flashEraseChip : Option Flash := setFF t s 0 t.size

/-- mirrors src/core/flash040core.c:171-182: whether all bits could be set. -/
def flashProgramByte (addr : Nat) (byte : UInt8) : Option (Bool × Flash) :=
  if addr < t.size then
    let newData := s.flashData addr &&& byte
    some (newData = byte, { s with
      programByte := byte
      flashData := fun i => if i = addr then newData else s.flashData i })
  else none

/-- mirrors src/core/flash040core.c:184-190 -/
def flashWriteOperationStatus (clk : UInt64) : UInt8 :=
  let dq6 := (clk &&& 2).toUInt8 <<< (5 : UInt8)
  ((s.programByte ^^^ 0x80) &&& 0x80) ||| dq6 ||| 0x20

/-- mirrors src/core/flash040core.c:192-209 -/
def flashEraseOperationStatus : UInt8 × Flash :=
  let v := s.programByte
  let s := { s with programByte := s.programByte ^^^ t.statusToggleBits }
  (if s.flashState ≠ .sectorEraseTimeout then v ||| 0x08 else v, s)

/-! ## The alarm -/

/-- mirrors src/core/flash040core.c:229-237: the first sector in the mask. -/
def eraseFirst : Option Flash :=
  match (List.range (8 * ERASE_MASK_SIZE)).find? fun i => s.eraseMask (i >>> 3) &&& maskBit i ≠ 0 with
  | none => some s
  | some i => do
    let s ← flashEraseSector t s i
    some { s with eraseMask := fun j => if j = i >>> 3 then s.eraseMask j &&& ~~~ maskBit i else s.eraseMask j }

/-- mirrors src/core/flash040core.c:239-241 -/
def maskLeft : UInt8 := (List.range ERASE_MASK_SIZE).foldl (fun m i => m ||| s.eraseMask i) 0

/-- mirrors src/core/flash040core.c:213-259 (`erase_alarm_handler`) -/
def eraseAlarmHandler (clk : UInt64) : Option Flash :=
  let s := { s with eraseAlarm := none }
  match s.flashState with
  | .sectorEraseTimeout =>
    some { s with eraseAlarm := some (clk + t.eraseSectorCycles), flashState := .sectorErase }
  | .sectorErase => do
    let s ← eraseFirst t s
    if maskLeft s ≠ 0 then some { s with eraseAlarm := some (clk + t.eraseSectorCycles) }
    else some { s with flashState := s.flashBaseState }
  | .chipErase => do
    let s ← flashEraseChip t s
    some { s with flashState := s.flashBaseState }
  | _ => some s

/-! ## Accesses -/

/-- Back to where the command began. -/
def toBase : Flash := { s with flashState := s.flashBaseState }

/-- mirrors src/core/flash040core.c:263-394 (`flash040core_store_internal`) and
src/core/flash800core.c:236-367 (`flash800core_store_internal`) -/
def storeInternal (clk : UInt64) (addr : Nat) (byte : UInt8) : Option Flash :=
  match s.flashState with
  | .read =>
    if flashMagic1 t addr ∧ byte = 0xaa then some { s with flashState := .magic1 } else some s
  | .magic1 =>
    if flashMagic2 t addr ∧ byte = 0x55 then some { s with flashState := .magic2 } else some (toBase s)
  | .magic2 =>
    if flashMagic1 t addr then
      match byte with
      | 0x90 => some { s with flashState := .autoselect, flashBaseState := .autoselect }
      | 0xf0 => some { s with flashState := .read, flashBaseState := .read }
      | 0xa0 => some { s with flashState := .byteProgram }
      | 0x80 => some { s with flashState := .eraseMagic1 }
      | _ => some (toBase s)
    else some (toBase s)
  | .byteProgram => do
    let (done, s) ← flashProgramByte t s addr byte
    if done then some (toBase s) else some { s with flashState := .byteProgramError }
  | .eraseMagic1 =>
    if flashMagic1 t addr ∧ byte = 0xaa then some { s with flashState := .eraseMagic2 } else some (toBase s)
  | .eraseMagic2 =>
    if flashMagic2 t addr ∧ byte = 0x55 then some { s with flashState := .eraseSelect } else some (toBase s)
  | .eraseSelect =>
    if flashMagic1 t addr ∧ byte = 0x10 then
      some { s with
        flashState := .chipErase
        programByte := 0
        eraseAlarm := some (clk + t.eraseChipCycles) }
    else if byte = 0x30 then do
      let s ← flashAddSectorToEraseMask t s addr
      some { s with
        programByte := 0
        flashState := .sectorEraseTimeout
        eraseAlarm := some (clk + t.eraseSectorTimeoutCycles) }
    else some (toBase s)
  | .sectorEraseTimeout =>
    if byte = 0x30 then flashAddSectorToEraseMask t s addr
    else some { flashClearEraseMask (toBase s) with eraseAlarm := none }
  | .sectorErase =>
    if byte = 0xb0 then some { s with flashState := .sectorEraseSuspend, eraseAlarm := none } else some s
  | .sectorEraseSuspend =>
    if byte = 0x30 then
      some { s with flashState := .sectorErase, eraseAlarm := some (clk + t.eraseSectorCycles) }
    else some s
  | .byteProgramError | .autoselect =>
    let s := if flashMagic1 t addr ∧ byte = 0xaa then { s with flashState := .magic1 } else s
    if byte = 0xf0 then some { s with flashState := .read, flashBaseState := .read } else some s
  | .chipErase => some s

/-- mirrors src/core/flash040core.c:398-407 (`flash040core_store`) and
src/core/flash800core.c:371-380 (`flash800core_store`) -/
def store (clk : UInt64) (rmw : Bool) (addr : Nat) (byte : UInt8) : Option Flash := do
  let s ← if rmw then storeInternal t s (clk - 1) addr s.lastRead else some s
  storeInternal t s clk addr byte

/-- A byte of the array. -/
def fetch (addr : Nat) : Option UInt8 := if addr < t.size then some (s.flashData addr) else none

/-- The two lowest address lines, swapped. -/
def swapLines (addr : Nat) : Nat :=
  if addr &&& 0xff < 4 then [0, 2, 1, 3].getD (addr &&& 3) 0 else addr

/-- mirrors src/core/flash040core.c:409-462 (`flash040core_read`) and
src/core/flash800core.c:382-430 (`flash800core_read`) -/
def read (clk : UInt64) (addr : Nat) : Option (UInt8 × Flash) := do
  let (value, s) ← match s.flashState with
    | .autoselect =>
      let addr := if t.swapped then swapLines addr else addr
      if addr &&& 0xff = 0 then some (t.manufacturerID, s)
      else if addr &&& 0xff = t.deviceIDAddr then some (t.deviceID, s)
      else if addr &&& 0xff = 2 then some (0, s)
      else (fetch t s addr).map (·, s)
    | .byteProgramError => some (flashWriteOperationStatus s clk, s)
    | .sectorEraseSuspend | .chipErase | .sectorErase | .sectorEraseTimeout => some (flashEraseOperationStatus t s)
    | _ => (fetch t s addr).map (·, s)
  some (value, { s with lastRead := value })

/-- mirrors src/core/flash040core.c:469-477 (`flash040core_reset`) and
src/core/flash800core.c:437-445 (`flash800core_reset`) -/
def reset : Flash :=
  { flashClearEraseMask { s with flashState := .read, flashBaseState := .read, programByte := 0 } with
    eraseAlarm := none }

end

end Vice.L4.FlashCore
