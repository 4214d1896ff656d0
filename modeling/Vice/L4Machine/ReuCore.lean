import Mathlib.Logic.Function.Basic

/-!
# The RAM expansion unit (`c64/cart/reu.c`)

* `reuReadWithoutSideeffects`, `reuStoreWithoutSideeffects`, `reuIo2Read`, `reuIo2Store`: accesses.
* `hostToReu`, `reuToHost`, `swap`, `compare`: the four transfers; `reuDmaStart`, `reuDma`.

An access to `reu_ram` past its end gives `none`. The unit is enabled, and the clock, the alarms and the
bus signals of the two CPU emulations are left out: a transfer is done as soon as it is started.
-/
namespace Vice.L4.ReuCore

/-- mirrors src/c64/cart/reu.c:213-220 (`rec_options_s`), and `reu_size`. -/
structure RecOptions where
  wrapAround : Nat
  dramWrapAround : Nat
  notBackedupAddresses : Nat
  wrapAroundMaskWhenStoring : Nat
  regBankUnused : UInt8
  statusPreset : UInt8
  reuSize : Nat

/-- mirrors src/c64/cart/reu.c:363-439 (`set_reu_size`) -/
def setReuSize (val : Nat) : Option RecOptions :=
  let o : RecOptions := {
    wrapAround := 0x80000
    dramWrapAround := 0x80000
    notBackedupAddresses := val <<< 10
    wrapAroundMaskWhenStoring := 0x80000 - 1
    regBankUnused := 0xf8
    statusPreset := 0x10
    reuSize := val <<< 10 }
  if val = 128 then some { o with statusPreset := 0, wrapAround := 0x20000, dramWrapAround := 0x20000 }
  else if val = 256 ∨ val = 512 then some o
  else if val = 1024 ∨ val = 2048 ∨ val = 4096 ∨ val = 8192 ∨ val = 16384 then
    some { o with
      regBankUnused := 0
      dramWrapAround := val * 1024
      wrapAroundMaskWhenStoring := val * 1024 - 1 }
  else none

/-- mirrors src/c64/cart/reu.c:189-207 (`rec_s`) -/
structure Rec where
  status : UInt8
  command : UInt8
  baseComputer : UInt16
  baseReu : UInt16
  bankReu : UInt8
  transferLength : UInt16
  intMaskReg : UInt8
  addressControlReg : UInt8
  baseComputerShadow : UInt16
  baseReuShadow : UInt16
  bankReuShadow : UInt8
  transferLengthShadow : UInt16

/-- `delay` is that of `reu_dma`, and `irq` the line of the unit. -/
structure Reu where
  regs : Rec
  reuRam : Nat → UInt8
  floatingBusValue : UInt8
  delay : Bool
  irq : Bool
  host : UInt16 → UInt8

def STATUS_VERIFY_ERROR : UInt8 := 0x20
def STATUS_END_OF_BLOCK : UInt8 := 0x40
def STATUS_INTERRUPT_PENDING : UInt8 := 0x80
def COMMAND_FF00_TRIGGER_DISABLED : UInt8 := 0x10
def COMMAND_AUTOLOAD : UInt8 := 0x20
def COMMAND_EXECUTE : UInt8 := 0x80
def FIX_REC : UInt8 := 0x40
def FIX_C64 : UInt8 := 0x80

/-- Whether all the bits are set. -/
def bitsAreAllSet (x bits : UInt8) : Bool := x &&& bits = bits

section
variable (o : RecOptions) (s : Reu)

/-- mirrors src/c64/cart/reu.c:602-617 (`reu_reset`) -/
def reuReset : Reu :=
  { s with regs := {
    status := o.statusPreset
    command := COMMAND_FF00_TRIGGER_DISABLED
    baseComputer := 0
    baseReu := 0
    bankReu := o.regBankUnused
    transferLength := 0xffff
    intMaskReg := 0x1f
    addressControlReg := 0x3f
    baseComputerShadow := 0
    baseReuShadow := 0
    bankReuShadow := o.regBankUnused
    transferLengthShadow := 0xffff } }

/-! ## Registers -/

/-- mirrors src/c64/cart/reu.c:868-911 (`reu_read_without_sideeffects`) -/
def reuReadWithoutSideeffects (r : Rec) (addr : Nat) : UInt8 :=
  match addr with
  | 0x00 => r.status
  | 0x01 => r.command
  | 0x02 => r.baseComputer.toUInt8
  | 0x03 => (r.baseComputer >>> 8).toUInt8
  | 0x04 => r.baseReu.toUInt8
  | 0x05 => (r.baseReu >>> 8).toUInt8
  | 0x06 => r.bankReu ||| o.regBankUnused
  | 0x07 => r.transferLength.toUInt8
  | 0x08 => (r.transferLength >>> 8).toUInt8
  | 0x09 => r.intMaskReg
  | 0x0a => r.addressControlReg
  | _ => 0xff

/-- The low byte of a shadow register is stored. -/
def withLow (shadow : UInt16) (byte : UInt8) : UInt16 := (shadow &&& 0xff00) ||| byte.toUInt16

/-- The high byte of a shadow register is stored. -/
def withHigh (shadow : UInt16) (byte : UInt8) : UInt16 := (shadow &&& 0xff) ||| (byte.toUInt16 <<< (8 : UInt16))

/-- mirrors src/c64/cart/reu.c:927-966 (`reu_store_without_sideeffects`) -/
def reuStoreWithoutSideeffects (r : Rec) (addr : Nat) (byte : UInt8) : Rec :=
  match addr with
  | 0x01 => { r with command := byte }
  | 0x02 =>
    { r with
      baseComputer := withLow r.baseComputerShadow byte
      baseComputerShadow := withLow r.baseComputerShadow byte }
  | 0x03 =>
    { r with
      baseComputer := withHigh r.baseComputerShadow byte
      baseComputerShadow := withHigh r.baseComputerShadow byte }
  | 0x04 =>
    { r with
      baseReu := withLow r.baseReuShadow byte
      baseReuShadow := withLow r.baseReuShadow byte }
  | 0x05 =>
    { r with
      baseReu := withHigh r.baseReuShadow byte
      baseReuShadow := withHigh r.baseReuShadow byte }
  | 0x06 =>
    { r with
      bankReu := byte &&& ~~~o.regBankUnused
      bankReuShadow := byte &&& ~~~o.regBankUnused }
  | 0x07 =>
    { r with
      transferLength := withLow r.transferLengthShadow byte
      transferLengthShadow := withLow r.transferLengthShadow byte }
  | 0x08 =>
    { r with
      transferLength := withHigh r.transferLengthShadow byte
      transferLengthShadow := withHigh r.transferLengthShadow byte }
  | 0x09 => { r with intMaskReg := byte ||| 0x1f }
  | 0x0a => { r with addressControlReg := byte ||| 0x3f }
  | _ => r

/-- mirrors src/c64/cart/reu.c:980-1014 (`reu_io2_read`) -/
def reuIo2Read (addr : Nat) : UInt8 × Reu :=
  if addr < 0x0b then
    let retval := reuReadWithoutSideeffects o s.regs addr
    match addr with
    | 0x00 =>
      (retval, { s with
        regs := { s.regs with
          status := s.regs.status &&&
            ~~~(STATUS_VERIFY_ERROR ||| STATUS_END_OF_BLOCK ||| STATUS_INTERRUPT_PENDING) }
        irq := false })
    | 0x06 => (retval ||| 0xf8, s)
    | _ => (retval, s)
  else (0xff, s)

/-! ## The memory of the unit -/

/-- mirrors src/c64/cart/reu.c:1085-1094 (`increment_reu_with_wrap_around`) -/
def incrementReuWithWrapAround (reuAddr reuStep : Nat) : Nat :=
  let next := (reuAddr &&& 0x0007ffff) + reuStep
  let next := if next = o.wrapAround then 0 else next
  (reuAddr &&& 0x00f80000) ||| next

/-- mirrors src/c64/cart/reu.c:1110-1119 (`store_to_reu`) -/
def storeToReu (reuAddr : Nat) (value : UInt8) : Option Reu :=
  let reuAddr := reuAddr &&& (o.dramWrapAround - 1)
  if reuAddr < o.notBackedupAddresses then
    if reuAddr < o.reuSize then some { s with reuRam := Function.update s.reuRam reuAddr value } else none
  else some s

/-- mirrors src/c64/cart/reu.c:1138-1152 (`read_from_reu`) -/
def readFromReu (reuAddr : Nat) : Option UInt8 :=
  let reuAddr := reuAddr &&& (o.dramWrapAround - 1)
  if reuAddr < o.notBackedupAddresses then
    if reuAddr < o.reuSize then some (s.reuRam reuAddr) else none
  else some s.floatingBusValue

/-! ## Transfers -/

/-- The interrupt of a status bit that is set, if its mask lets it through. -/
def raise (bits mask : UInt8) : Reu :=
  if bitsAreAllSet bits mask ∧ bitsAreAllSet s.regs.intMaskReg (mask ||| 0x80) then
    { s with regs := { s.regs with status := s.regs.status ||| STATUS_INTERRUPT_PENDING }, irq := true }
  else s

/-- mirrors src/c64/cart/reu.c:1183-1206: the registers go on from where the transfer ended, or are loaded. -/
def loadRegs (r : Rec) (hostAddr : UInt16) (reuAddr len : Nat) : Rec :=
  if r.command &&& COMMAND_AUTOLOAD = 0 then
    { r with
      baseComputer := if r.addressControlReg &&& FIX_C64 = 0 then hostAddr else r.baseComputer
      baseReu := if r.addressControlReg &&& FIX_REC = 0 then UInt16.ofNat (reuAddr &&& 0xffff) else r.baseReu
      bankReu := if r.addressControlReg &&& FIX_REC = 0 then UInt8.ofNat ((reuAddr >>> 16) &&& 0xff) else r.bankReu
      transferLength := UInt16.ofNat len }
  else
    { r with
      baseComputer := r.baseComputerShadow
      baseReu := r.baseReuShadow
      bankReu := r.bankReuShadow
      transferLength := r.transferLengthShadow }

/-- mirrors src/c64/cart/reu.c:1174-1224 (`reu_dma_update_regs`). The bits of the interrupt mask are in the
places of those of the status. -/
def reuDmaUpdateRegs (hostAddr : UInt16) (reuAddr len : Nat) (newStatusOrMask : UInt8) : Reu :=
  let r := { s.regs with status := s.regs.status ||| newStatusOrMask }
  let s := { s with regs := loadRegs r hostAddr (reuAddr &&& o.wrapAroundMaskWhenStoring) len }
  raise (raise s newStatusOrMask STATUS_END_OF_BLOCK) newStatusOrMask STATUS_VERIFY_ERROR

/-- Where a transfer is. -/
structure Place where
  hostAddr : UInt16
  reuAddr : Nat

/-- The addresses after a byte. -/
def Place.next (p : Place) (hostStep : UInt16) (reuStep : Nat) : Place :=
  ⟨p.hostAddr + hostStep, incrementReuWithWrapAround o p.reuAddr reuStep⟩

/-- mirrors src/c64/cart/reu.c:1253-1264: the loop, with the last byte. -/
def hostToReu (hostStep : UInt16) (reuStep : Nat) : Nat → UInt8 → Place → Reu → Option (UInt8 × Place × Reu)
  | 0, value, p, s => some (value, p, s)
  | len + 1, _, p, s => do
    let value := s.host p.hostAddr
    let s ← storeToReu o s p.reuAddr value
    hostToReu hostStep reuStep len value (p.next o hostStep reuStep) s

/-- mirrors src/c64/cart/reu.c:1298-1310 -/
def reuToHost (hostStep : UInt16) (reuStep : Nat) : Nat → Place → Reu → Option (Place × Reu)
  | 0, p, s => some (p, s)
  | len + 1, p, s => do
    let value ← readFromReu o s p.reuAddr
    let s := { s with floatingBusValue := value, host := Function.update s.host p.hostAddr value }
    reuToHost hostStep reuStep len (p.next o hostStep reuStep) s

/-- mirrors src/c64/cart/reu.c:1352-1367 -/
def swap (hostStep : UInt16) (reuStep : Nat) : Nat → Place → Reu → Option (Place × Reu)
  | 0, p, s => some (p, s)
  | len + 1, p, s => do
    let valueFromReu ← readFromReu o s p.reuAddr
    let valueFromC64 := s.host p.hostAddr
    let s ← storeToReu o s p.reuAddr valueFromC64
    let s := { s with host := Function.update s.host p.hostAddr valueFromReu }
    swap hostStep reuStep len (p.next o hostStep reuStep) s

/-- mirrors src/c64/cart/reu.c:1412-1438: whether a byte differs, and how many are left. -/
def compare (hostStep : UInt16) (reuStep : Nat) (s : Reu) : Nat → Place → Option (Bool × Nat × Place)
  | 0, p => some (false, 0, p)
  | len + 1, p => do
    let valueFromReu ← readFromReu o s p.reuAddr
    if valueFromReu ≠ s.host p.hostAddr then some (true, len, p.next o hostStep reuStep)
    else compare hostStep reuStep s len (p.next o hostStep reuStep)

/-- mirrors src/c64/cart/reu.c:1440-1465: the status of a comparison, and the length. -/
def compareStatus (differs : Bool) (len : Nat) (p : Place) : Option (UInt8 × Nat) := do
  let mask := if differs then STATUS_VERIFY_ERROR else 0
  if len = 0 then some (mask ||| STATUS_END_OF_BLOCK, 1)
  else if len = 1 then
    let valueFromReu ← readFromReu o s p.reuAddr
    some (if valueFromReu = s.host p.hostAddr then mask ||| STATUS_END_OF_BLOCK else mask, len)
  else some (mask, len)

/-- mirrors src/c64/cart/reu.c:1243-1269 (`reu_dma_host_to_reu`) -/
def reuDmaHostToReu (p : Place) (hostStep : UInt16) (reuStep len : Nat) : Option Reu := do
  let (value, p, s) ← hostToReu o hostStep reuStep len 0 p s
  let s := reuDmaUpdateRegs o s p.hostAddr p.reuAddr 1 STATUS_END_OF_BLOCK
  some { s with floatingBusValue := value }

/-- mirrors src/c64/cart/reu.c:1288-1322 (`reu_dma_reu_to_host`) -/
def reuDmaReuToHost (p : Place) (hostStep : UInt16) (reuStep len : Nat) : Option Reu := do
  let (p, s) ← reuToHost o hostStep reuStep len p s
  let s := reuDmaUpdateRegs o s p.hostAddr p.reuAddr 1 STATUS_END_OF_BLOCK
  let value ← readFromReu o s p.reuAddr
  some { s with floatingBusValue := value }

/-- mirrors src/c64/cart/reu.c:1341-1374 (`reu_dma_swap`) -/
def reuDmaSwap (p : Place) (hostStep : UInt16) (reuStep len : Nat) : Option Reu := do
  let (p, s) ← swap o hostStep reuStep len p s
  some (reuDmaUpdateRegs o s p.hostAddr p.reuAddr 1 STATUS_END_OF_BLOCK)

/-- mirrors src/c64/cart/reu.c:1393-1466 (`reu_dma_compare`) -/
def reuDmaCompare (p : Place) (hostStep : UInt16) (reuStep len : Nat) : Option Reu := do
  let (differs, len, p) ← compare o hostStep reuStep s len p
  let (mask, len) ← compareStatus o s differs len p
  some (reuDmaUpdateRegs o s p.hostAddr p.reuAddr len mask)

/-! ## Starting -/

/-- The bytes of a transfer. -/
def dmaLength (r : Rec) : Nat := if r.transferLength = 0 then 0x10000 else r.transferLength.toNat

/-- The REU address of the registers. -/
def dmaReuAddr (r : Rec) : Nat := r.baseReu.toNat ||| r.bankReu.toNat <<< 16

/-- mirrors src/c64/cart/reu.c:1524-1559 (`reu_dma_start`) -/
def reuDmaStart : Option Reu := do
  let r := s.regs
  let p : Place := ⟨r.baseComputer, dmaReuAddr r⟩
  let len := dmaLength r
  let hostStep : UInt16 := if r.addressControlReg &&& FIX_C64 = 0 then 1 else 0
  let reuStep : Nat := if r.addressControlReg &&& FIX_REC = 0 then 1 else 0
  let s ← (if r.command &&& 3 = 0 then reuDmaHostToReu o s p hostStep reuStep len
    else if r.command &&& 3 = 1 then reuDmaReuToHost o s p hostStep reuStep len
    else if r.command &&& 3 = 2 then reuDmaSwap o s p hostStep reuStep len
    else reuDmaCompare o s p hostStep reuStep len)
  some { s with regs := { s.regs with
    command := (s.regs.command &&& ~~~COMMAND_EXECUTE) ||| COMMAND_FF00_TRIGGER_DISABLED } }

/-- mirrors src/c64/cart/reu.c:1492-1522 (`reu_dma`): 0 is `some false`, and -1 is `none`. -/
def reuDma (immediate : Option Bool) : Option Reu :=
  match immediate with
  | some false => some { s with delay := true }
  | some true => reuDmaStart o { s with delay := false }
  | none => if s.delay then reuDmaStart o { s with delay := false } else some s

/-- mirrors src/c64/cart/reu.c:1034-1067 (`reu_io2_store`) -/
def reuIo2Store (addr : Nat) (byte : UInt8) : Option Reu :=
  if addr < 0x0b then
    let s := { s with regs := reuStoreWithoutSideeffects o s.regs addr byte }
    match addr with
    | 0x01 =>
      if bitsAreAllSet s.regs.command COMMAND_EXECUTE then
        reuDma o s (some (s.regs.command &&& COMMAND_FF00_TRIGGER_DISABLED ≠ 0))
      else some s
    | 0x09 =>
      let s := raise s s.regs.status STATUS_END_OF_BLOCK
      some (raise s s.regs.status STATUS_VERIFY_ERROR)
    | _ => some s
  else some s

end

end Vice.L4.ReuCore
