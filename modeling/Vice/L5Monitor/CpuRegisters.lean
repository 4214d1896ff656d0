import Vice.L0Core.LastWrite
import Vice.L5Monitor.BinaryHandlers

/-!
# The registers of the CPUs (`mon_register.c` and the files of the CPUs)

Each CPU has a table of its registers and two functions that read and write one of them through the
macros of its structure. The switch of these functions gives each id a `Place`: the members of the
structure behind the register and how the macros treat them.

The bank that a drive executes in, which is set up again with the program counter, is left out.

Results:
* `readPlace_getLsbD`: each bit of a register is a bit of the structure, or clear.
* `writePlace_bit`: a write keeps each bit of the structure or gives it a bit of its own.
* `monRegisterGetVal_set`: what setting one register does to the bits of any other.
-/
namespace Vice.L5.CpuRegisters
open Vice.L0.LastWrite Vice.L5.CpuHistory Vice.L5.BinaryMachine Vice.L5.BinaryHandlers

/-! ## The ids

mirrors src/monitor/montypes.h:52-110 (`t_reg_id`) -/

def eA : UInt8 := 0x00
def eX : UInt8 := 0x01
def eY : UInt8 := 0x02
def ePC : UInt8 := 0x03
def eSP : UInt8 := 0x04
def eFLAGS : UInt8 := 0x05
def eAF : UInt8 := 0x06
def eBC : UInt8 := 0x07
def eDE : UInt8 := 0x08
def eHL : UInt8 := 0x09
def eIX : UInt8 := 0x0a
def eIY : UInt8 := 0x0b
def eI : UInt8 := 0x0c
def eR : UInt8 := 0x0d
def eAF2 : UInt8 := 0x0e
def eBC2 : UInt8 := 0x0f
def eDE2 : UInt8 := 0x10
def eHL2 : UInt8 := 0x11

/-- `e_R3` to `e_R15` -/
def eRn (n : Nat) : UInt8 := UInt8.ofNat (0x12 + (n - 3))

def eACM : UInt8 := 0x1f
def eYXM : UInt8 := 0x20
def eB : UInt8 := 0x21
def eC : UInt8 := 0x22
def eDPR : UInt8 := 0x23
def ePBR : UInt8 := 0x24
def eDBR : UInt8 := 0x25
def eD : UInt8 := 0x26
def eU : UInt8 := 0x27
def eDP : UInt8 := 0x28
def eE : UInt8 := 0x29
def eH : UInt8 := 0x2f
def eL : UInt8 := 0x30
def eIXL : UInt8 := 0x31
def eIXH : UInt8 := 0x32
def eIYL : UInt8 := 0x33
def eIYH : UInt8 := 0x34
def eRasterline : UInt8 := 0x35
def eCycle : UInt8 := 0x36
def eZero : UInt8 := 0x37
def eOne : UInt8 := 0x38

/-! ## The structures -/

/-- mirrors src/monitor.h:58-68 (`CPU_TYPE_s`) -/
inductive CpuType
  | cpu6502 | cpuR65C02 | cpu65816 | cpuZ80 | cpu6502dtv | cpu6809
  deriving DecidableEq, Repr

/-- The members of type `uint8_t` other than `p`, `n` and `z`. -/
inductive ByteMember
  | a | x | y | sp | dtv (number : Nat) | acm | yxm | b | pbr | dbr | emul | dp | cc | i | r
  deriving DecidableEq, Repr

/-- The members of type `uint16_t`. -/
inductive WordMember
  | x | y | dpr | sp | u | s | pc | af | bc | de | hl | ix | iy | af2 | bc2 | de2 | hl2
  deriving DecidableEq, Repr

/-- mirrors src/mos6510.h:36-47 (`mos6510_regs_s`), src/r65c02.h:36-47, src/mos6510dtv.h:38-62,
src/wdc65816.h:36-50, src/h6809regs.h:32-47 and src/z80regs.h:32-47; a CPU uses the members that its
structure has. -/
structure Regs where
  byte : ByteMember → UInt8
  word : WordMember → UInt16
  /-- `pc` of the 65xx -/
  pc : UInt32
  p : UInt8
  n : UInt8
  z : UInt8

def Regs.putByte (regs : Regs) (m : ByteMember) (val : UInt8) : Regs :=
  { regs with byte := Function.update regs.byte m val }

def Regs.putWord (regs : Regs) (m : WordMember) (val : UInt16) : Regs :=
  { regs with word := Function.update regs.word m val }

/-- How the macros of a register treat the structure. -/
inductive Place
  | byte (m : ByteMember)
  | word (m : WordMember)
  /-- the direct page register of the 65816: a word that is set from a byte -/
  | wordOfByte (m : WordMember)
  /-- the program counter of the 65xx, an `unsigned int` -/
  | counter
  /-- the flags of the 65xx, in `p`, `n` and `z` -/
  | status
  /-- D of the 6809, which is A and B -/
  | pair
  /-- the halves of the words of the Z80 -/
  | high (m : WordMember)
  | low (m : WordMember)
  deriving DecidableEq, Repr

/-- The macros `*_REGS_GET_*`. -/
def readPlace (regs : Regs) : Place → UInt32
  | .byte m => (regs.byte m).toUInt32
  | .word m | .wordOfByte m => (regs.word m).toUInt32
  | .counter => regs.pc
  | .status =>
    regs.p.toUInt32 ||| (regs.n.toUInt32 &&& (0x80 : UInt32)) |||
      (if regs.z = 0 then (1 : UInt32) else 0) <<< (1 : UInt32)
  | .pair => ((regs.byte .a).toUInt32 <<< 8) ||| (regs.byte .b).toUInt32
  | .high m => (regs.word m).toUInt32 >>> 8
  | .low m => (regs.word m).toUInt32 &&& (0xff : UInt32)

/-- The macros `*_REGS_SET_*` with the casts of the calls. -/
def writePlace (regs : Regs) (val : UInt16) : Place → Regs
  | .byte m => regs.putByte m val.toUInt8
  | .word m => regs.putWord m val
  | .wordOfByte m => regs.putWord m val.toUInt8.toUInt16
  | .counter => { regs with pc := val.toUInt32 }
  | .status =>
    let v := val.toUInt8
    { regs with p := v &&& ~~~((0x02 : UInt8) ||| 0x80),
                z := if v &&& (0x02 : UInt8) = 0 then 1 else 0, n := v }
  | .pair => (regs.putByte .a (val >>> 8).toUInt8).putByte .b (val &&& (0xff : UInt16)).toUInt8
  | .high m => regs.putWord m ((regs.word m ||| (0xff : UInt16)) &&& (val <<< 8))
  | .low m => regs.putWord m ((regs.word m ||| (0xff00 : UInt16)) &&& val)

/-! ## The CPUs -/

/-- A line of a register table, mirrors src/monitor/mon_register.h:30-44 (`mon_reg_list_s`) -/
structure RegisterLine where
  name : String
  id : UInt8
  size : UInt8
  isFlags : Bool
  /-- the address of a register in memory -/
  extra : Option UInt16

def line (name : String) (id size : UInt8) : RegisterLine := ⟨name, id, size, false, none⟩

def flagsLine (name : String) : RegisterLine := ⟨name, eFLAGS, 8, true, none⟩

def lineCycle : List RegisterLine := [line "LIN" eRasterline 16, line "CYC" eCycle 16]

/-- mirrors src/monitor/mon_register6502.c:54-84 (`mon_reg_list_6510`, `mon_reg_list_6502`) -/
def monRegList6502 (mem : Memspace) : List RegisterLine :=
  [line "PC" ePC 16, line "A" eA 8, line "X" eX 8, line "Y" eY 8, line "SP" eSP 8] ++
    (if mem = .comp then [⟨"00", eZero, 8, false, some 0⟩, ⟨"01", eOne, 8, false, some 1⟩] else []) ++
    [line "FL" eFLAGS 8, flagsLine "NV-BDIZC"] ++ lineCycle

/-- mirrors src/monitor/mon_registerR65C02.c:55-66 -/
def monRegListR65C02 : List RegisterLine :=
  [line "PC" ePC 16, line "A" eA 8, line "X" eX 8, line "Y" eY 8, line "SP" eSP 8,
    line "FL" eFLAGS 8, flagsLine "NV-BDIZC"] ++ lineCycle

/-- mirrors src/monitor/mon_register65816.c:55-72 -/
def monRegList65816 : List RegisterLine :=
  [line "PBR" ePBR 8, line "PC" ePC 16, line "A" eA 8, line "B" eB 16, line "X" eX 16,
    line "Y" eY 16, line "SP" eSP 16, line "DPR" eDPR 16, line "DBR" eDBR 8, line "FL" eFLAGS 8,
    flagsLine "NV-BDIZC", flagsLine "NVMXDIZC", line "E" eE 1] ++ lineCycle

/-- mirrors src/monitor/mon_registerz80.c:53-84 -/
def monRegListZ80 : List RegisterLine :=
  [line "PC" ePC 16, line "A" eA 8, line "AF" eAF 16, line "B" eB 8, line "C" eC 8, line "BC" eBC 16,
    line "D" eD 8, line "E" eE 8, line "DE" eDE 16, line "H" eH 8, line "L" eL 8, line "HL" eHL 16,
    line "IXH" eIXH 8, line "IXL" eIXL 8, line "IX" eIX 16, line "IYH" eIYH 8, line "IYL" eIYL 8,
    line "IY" eIY 16, line "SP" eSP 16, line "I" eI 8, line "R" eR 8, line "AF'" eAF2 16,
    line "BC'" eBC2 16, line "DE'" eDE2 16, line "HL'" eHL2 16, line "FL" eFLAGS 8,
    flagsLine "SZIH-P-C"] ++ lineCycle

/-- mirrors src/monitor/mon_register6502dtv.c:59-87 -/
def monRegList6510dtv : List RegisterLine :=
  [line "PC" ePC 16, line "A" eA 8, line "X" eX 8, line "Y" eY 8, line "SP" eSP 8,
    ⟨"00", eZero, 8, false, some 0⟩, ⟨"01", eOne, 8, false, some 1⟩, line "FL" eFLAGS 8,
    flagsLine "NV-BDIZC"] ++
    ((List.range 13).map fun i => line ("R" ++ toString (i + 3)) (eRn (i + 3)) 8) ++
    [line "ACM" eACM 8, line "YXM" eYXM 8] ++ lineCycle

/-- mirrors src/monitor/mon_register6809.c:53-77 -/
def monRegList6809 : List RegisterLine :=
  [line "X" eX 16, line "Y" eY 16, line "U" eU 16, line "S" eSP 16, line "PC" ePC 16,
    line "DP" eDP 8, line "CC" eFLAGS 8, flagsLine "EFHINZVC", line "A" eA 8, line "B" eB 8,
    line "D" eD 16] ++ lineCycle

def monRegList (cpu : CpuType) (mem : Memspace) : List RegisterLine :=
  match cpu with
  | .cpu6502 => monRegList6502 mem
  | .cpuR65C02 => monRegListR65C02
  | .cpu65816 => monRegList65816
  | .cpuZ80 => monRegListZ80
  | .cpu6502dtv => monRegList6510dtv
  | .cpu6809 => monRegList6809

/-- The registers that all 65xx have in the same members. -/
def places65xx : List (UInt8 × Place) :=
  [(eA, .byte .a), (eX, .byte .x), (eY, .byte .y), (ePC, .counter), (eSP, .byte .sp),
    (eFLAGS, .status)]

/-- The cases of `mon_register_get_val` and `mon_register_set_val`,
mirrors src/monitor/mon_register6502.c:86-179, mon_registerR65C02.c:68-156,
mon_register65816.c:74-192, mon_registerz80.c:86-268, mon_register6502dtv.c:89-251 and
mon_register6809.c:79-217 -/
def places : CpuType → List (UInt8 × Place)
  | .cpu6502 | .cpuR65C02 => places65xx
  | .cpu65816 =>
    [(eA, .byte .a), (eB, .byte .b), (eX, .word .x), (eY, .word .y), (ePC, .counter), (eSP, .word .sp),
      (ePBR, .byte .pbr), (eDBR, .byte .dbr), (eDPR, .wordOfByte .dpr), (eE, .byte .emul),
      (eFLAGS, .status)]
  | .cpuZ80 =>
    [(eA, .high .af), (eFLAGS, .low .af), (eAF, .word .af), (eB, .high .bc), (eC, .low .bc),
      (eBC, .word .bc), (eD, .high .de), (eE, .low .de), (eDE, .word .de), (eH, .high .hl),
      (eL, .low .hl), (eHL, .word .hl), (eIXH, .high .ix), (eIXL, .low .ix), (eIX, .word .ix),
      (eIYH, .high .iy), (eIYL, .low .iy), (eIY, .word .iy), (eSP, .word .sp), (ePC, .word .pc),
      (eI, .byte .i), (eR, .byte .r), (eAF2, .word .af2), (eBC2, .word .bc2), (eDE2, .word .de2),
      (eHL2, .word .hl2)]
  | .cpu6502dtv =>
    places65xx ++ ((List.range 13).map fun i => (eRn (i + 3), .byte (.dtv (i + 3)))) ++
      [(eACM, .byte .acm), (eYXM, .byte .yxm)]
  | .cpu6809 =>
    [(eX, .word .x), (eY, .word .y), (eU, .word .u), (eSP, .word .s), (ePC, .word .pc),
      (eDP, .byte .dp), (eFLAGS, .byte .cc), (eA, .byte .a), (eB, .byte .b), (eD, .pair)]

def place (cpu : CpuType) (id : UInt8) : Option Place := (places cpu).lookup id

/-! ## The functions -/

/-- The CPUs as the monitor sees them, with the rest of the emulator. -/
structure Board (ρ : Type) where
  /-- `monitor_cpu_for_memspace` -/
  cpu : Memspace → CpuType
  /-- the structure of the CPU of the memspace in `mon_interfaces` -/
  regs : Memspace → Regs
  rest : ρ

/-- What the functions need of the rest. -/
structure Surroundings (ρ : Type) where
  /-- `check_drive_emu_level_ok`: the drive of the memspace is emulated -/
  driveEmulated : Memspace → Bool
  /-- `get_line_cycle` -/
  lineCycle : ρ → Memspace → UInt32 × UInt32
  /-- `mon_get_mem_val` in the bank of the CPU -/
  getMemVal : ρ → Memspace → UInt16 → UInt8

section
variable {ρ : Type} (E : Surroundings ρ) (s : Board ρ) (mem : Memspace)

def accessible : Bool := mem = .comp || E.driveEmulated mem

/-- The `get_line_cycle` that is asked. -/
def clockOf : UInt32 × UInt32 :=
  E.lineCycle s.rest (if s.cpu mem = .cpuZ80 then mem else .comp)

/-- `mon_register_get_val` of the CPU of the memspace. -/
def monRegisterGetVal (id : UInt8) : UInt32 :=
  if accessible E mem = false then 0
  else if id = eRasterline then (clockOf E s mem).1
  else if id = eCycle then (clockOf E s mem).2
  else
    match place (s.cpu mem) id with
    | some place => readPlace (s.regs mem) place
    | none => 0

/-- `mon_register_set_val` of the CPU of the memspace. -/
def monRegisterSetVal (id : UInt8) (val : UInt16) : Board ρ :=
  if accessible E mem = false then s
  else
    match place (s.cpu mem) id with
    | some place => { s with regs := Function.update s.regs mem (writePlace (s.regs mem) val place) }
    | none => s

/-- mirrors src/monitor/mon_register.c:47-77 (`mon_register_valid`) -/
def monRegisterValid (id : UInt8) : Bool :=
  if accessible E mem = false then false
  else if id = eRasterline ∨ id = eCycle then true
  else (monRegList (s.cpu mem) mem).any fun l => l.extra.isNone && l.id = id

/-- The flags of the 65xx other than the 65816 are listed with the unused one. -/
def unusedFlag (cpu : CpuType) : UInt32 :=
  match cpu with
  | .cpu6502 | .cpuR65C02 | .cpu6502dtv => 0x20
  | .cpu65816 | .cpuZ80 | .cpu6809 => 0

/-- `mon_register_list_get` of the CPU of the memspace. -/
def monRegisterListGet : List Register :=
  (monRegList (s.cpu mem) mem).map fun l =>
    let val :=
      match l.extra with
      | some addr => (E.getMemVal s.rest mem addr).toUInt32
      | none =>
        if l.isFlags then monRegisterGetVal E s mem l.id ||| unusedFlag (s.cpu mem)
        else monRegisterGetVal E s mem l.id
    ⟨ascii l.name, l.id, l.size, l.isFlags, val.toUInt16⟩

end

/-! ## Bits -/

/-- Where bits are kept; the flags of the 65xx are the three members together. -/
inductive Cell
  | byte (m : ByteMember)
  | word (m : WordMember)
  | counter
  | status
  deriving DecidableEq, Repr

def Regs.bit (regs : Regs) : Cell × Nat → Bool
  | (.byte m, i) => (regs.byte m).toBitVec.getLsbD i
  | (.word m, i) => (regs.word m).toBitVec.getLsbD i
  | (.counter, i) => regs.pc.toBitVec.getLsbD i
  | (.status, i) => (readPlace regs .status).toBitVec.getLsbD i

/-- The bit that is bit `i` of the register; none is a bit that is never set. -/
def source : Place → Nat → Option (Cell × Nat)
  | .byte m, i => some (.byte m, i)
  | .word m, i | .wordOfByte m, i => some (.word m, i)
  | .counter, i => some (.counter, i)
  | .status, i => some (.status, i)
  | .pair, i => some (if i < 8 then (.byte .b, i) else (.byte .a, i - 8))
  | .high m, i => some (.word m, i + 8)
  | .low m, i => if i < 8 then some (.word m, i) else none

/-- The bit of a value that goes into a member of 8 bits. -/
def byteBit (val : UInt16) (i : Nat) : Bool := decide (i < 8) && val.toBitVec.getLsbD i

/-- What setting a register to `val` writes to a bit. The halves of the Z80's words are masked by
the value, and the other half gets what stands there in the value. -/
def placeWrites (val : UInt16) (p : Place) (k : Cell × Nat) : Option Bool :=
  match p with
  | .byte m => if k.1 = .byte m then some (byteBit val k.2) else none
  | .word m => if k.1 = .word m then some (val.toBitVec.getLsbD k.2) else none
  | .wordOfByte m => if k.1 = .word m then some (byteBit val k.2) else none
  | .counter => if k.1 = .counter then some (val.toBitVec.getLsbD k.2) else none
  | .status => if k.1 = .status then some (byteBit val k.2) else none
  | .pair =>
    if k.1 = .byte .a then some (decide (k.2 < 8) && val.toBitVec.getLsbD (k.2 + 8))
    else if k.1 = .byte .b then some (byteBit val k.2)
    else none
  | .high m =>
    if k.1 ≠ .word m ∨ (8 ≤ k.2 ∧ byteBit val (k.2 - 8)) then none else some false
  | .low m =>
    if k.1 ≠ .word m then none
    else if 8 ≤ k.2 then some (val.toBitVec.getLsbD k.2)
    else if byteBit val k.2 then none
    else some false

section
variable {i : Nat}

theorem byte_getLsbD_of_ge (x : UInt8) (hi : 8 ≤ i) : x.toBitVec.getLsbD i = false :=
  BitVec.getLsbD_of_ge _ _ hi

theorem word_getLsbD_of_ge (x : UInt16) (hi : 16 ≤ i) : x.toBitVec.getLsbD i = false :=
  BitVec.getLsbD_of_ge _ _ hi

theorem toUInt32_byte_getLsbD (x : UInt8) : x.toUInt32.toBitVec.getLsbD i = x.toBitVec.getLsbD i := by
  by_cases hi : i < 8
  · have hi' : i < 32 := by omega
    simp [hi']
  · simp [byte_getLsbD_of_ge x (Nat.not_lt.mp hi)]

theorem toUInt32_word_getLsbD (x : UInt16) : x.toUInt32.toBitVec.getLsbD i = x.toBitVec.getLsbD i := by
  by_cases hi : i < 16
  · have hi' : i < 32 := by omega
    simp [hi']
  · simp [word_getLsbD_of_ge x (Nat.not_lt.mp hi)]

theorem toUInt16_byte_getLsbD (x : UInt8) : x.toUInt16.toBitVec.getLsbD i = x.toBitVec.getLsbD i := by
  by_cases hi : i < 8
  · have hi' : i < 16 := by omega
    simp [hi']
  · simp [byte_getLsbD_of_ge x (Nat.not_lt.mp hi)]

theorem toUInt8_getLsbD (x : UInt16) : x.toUInt8.toBitVec.getLsbD i = byteBit x i := by
  simp [byteBit]

theorem low_getLsbD : (0xff : UInt32).toBitVec.getLsbD i = decide (i < 8) := by
  by_cases hi : i < 32
  · exact (by decide : ∀ i < 32, (0xff : UInt32).toBitVec.getLsbD i = decide (i < 8)) i hi
  · rw [BitVec.getLsbD_of_ge _ _ (Nat.not_lt.mp hi), decide_eq_false (by omega)]

theorem lowByte_getLsbD : (0xff : UInt16).toBitVec.getLsbD i = decide (i < 8) := by
  by_cases hi : i < 16
  · exact (by decide : ∀ i < 16, (0xff : UInt16).toBitVec.getLsbD i = decide (i < 8)) i hi
  · rw [BitVec.getLsbD_of_ge _ _ (Nat.not_lt.mp hi), decide_eq_false (by omega)]

theorem highByte_getLsbD : (0xff00 : UInt16).toBitVec.getLsbD i = decide (8 ≤ i ∧ i < 16) := by
  by_cases hi : i < 16
  · exact (by decide : ∀ i < 16, (0xff00 : UInt16).toBitVec.getLsbD i = decide (8 ≤ i ∧ i < 16)) i hi
  · rw [BitVec.getLsbD_of_ge _ _ (Nat.not_lt.mp hi), decide_eq_false (by omega)]

theorem shiftLeft_getLsbD (val : UInt16) :
    (val <<< 8).toBitVec.getLsbD i = (decide (8 ≤ i) && byteBit val (i - 8)) := by
  by_cases hi : 8 ≤ i
  · have hlt : ¬ i < 8 := by omega
    by_cases h16 : i < 16
    · simp [byteBit, hi, hlt, h16, show i - 8 < 8 by omega]
      rfl
    · simp [byteBit, hi, hlt, h16, show ¬ i - 8 < 8 by omega]
  · simp [hi, show i < 8 by omega]

theorem shiftRight_getLsbD (val : UInt16) : (val >>> 8).toBitVec.getLsbD i = val.toBitVec.getLsbD (i + 8) := by
  simp [Nat.add_comm 8 i]

theorem readPlace_getLsbD (regs : Regs) (p : Place) (hi : i < 32) :
    (readPlace regs p).toBitVec.getLsbD i = ((source p i).map regs.bit).getD false := by
  cases p with
  | byte m => exact toUInt32_byte_getLsbD _
  | word m => exact toUInt32_word_getLsbD _
  | wordOfByte m => exact toUInt32_word_getLsbD _
  | counter => rfl
  | status => rfl
  | pair =>
    rw [readPlace, UInt32.toBitVec_or, BitVec.getLsbD_or, toUInt32_byte_getLsbD, UInt32.toBitVec_shiftLeft]
    by_cases h : i < 8
    · simp [source, Regs.bit, h]
    · have hb := byte_getLsbD_of_ge (regs.byte .b) (Nat.not_lt.mp h)
      simp [source, Regs.bit, h, hi, hb]
  | high m =>
    have hw := toUInt32_word_getLsbD (regs.word m) (i := i + 8)
    simpa [readPlace, source, Regs.bit, Nat.add_comm 8 i] using hw
  | low m =>
    rw [readPlace, UInt32.toBitVec_and, BitVec.getLsbD_and, toUInt32_word_getLsbD, low_getLsbD]
    by_cases h : i < 8
    · simp [source, Regs.bit, h]
    · simp [source, h]

/-! ## Writes -/

theorem bit_putByte (regs : Regs) (m : ByteMember) (val : UInt8) (k : Cell × Nat) : (regs.putByte m val).bit k =
      if k.1 = .byte m then val.toBitVec.getLsbD k.2 else regs.bit k := by
  obtain ⟨cell, i⟩ := k
  cases cell with
  | byte m' =>
    by_cases h : m' = m
    · subst h
      simp [Regs.bit, Regs.putByte]
    · simp [Regs.bit, Regs.putByte, h]
  | word m' => rfl
  | counter => rfl
  | status => rfl

theorem bit_putWord (regs : Regs) (m : WordMember) (val : UInt16) (k : Cell × Nat) :
    (regs.putWord m val).bit k =
      if k.1 = .word m then val.toBitVec.getLsbD k.2 else regs.bit k := by
  obtain ⟨cell, i⟩ := k
  cases cell with
  | word m' =>
    by_cases h : m' = m
    · subst h
      simp [Regs.bit, Regs.putWord]
    · simp [Regs.bit, Regs.putWord, h]
  | byte m' => rfl
  | counter => rfl
  | status => rfl

/-- The flags are read back as they were set. -/
theorem status_set (val : UInt8) :
    (val &&& ~~~((0x02 : UInt8) ||| 0x80)).toUInt32 ||| (val.toUInt32 &&& (0x80 : UInt32)) |||
      (if (if val &&& (0x02 : UInt8) = 0 then (1 : UInt8) else 0) = 0 then (1 : UInt32) else 0) <<<
        (1 : UInt32) = val.toUInt32 := by
  have h : ∀ n < 256, (UInt8.ofNat n &&& ~~~((0x02 : UInt8) ||| 0x80)).toUInt32 |||
      ((UInt8.ofNat n).toUInt32 &&& (0x80 : UInt32)) |||
      (if (if UInt8.ofNat n &&& (0x02 : UInt8) = 0 then (1 : UInt8) else 0) = 0 then (1 : UInt32)
        else 0) <<< (1 : UInt32) = (UInt8.ofNat n).toUInt32 := by
    decide +kernel
  have hv := h val.toNat val.toNat_lt
  rwa [UInt8.ofNat_toNat] at hv

/-- A write keeps each bit or gives it one of its own. -/
theorem writePlace_bit (regs : Regs) (val : UInt16) (p : Place) (k : Cell × Nat) :
    (writePlace regs val p).bit k = (placeWrites val p k).getD (regs.bit k) := by
  cases p with
  | byte m =>
    rw [writePlace, bit_putByte, placeWrites, toUInt8_getLsbD]
    split <;> rfl
  | word m =>
    rw [writePlace, bit_putWord, placeWrites]
    split <;> rfl
  | wordOfByte m =>
    rw [writePlace, bit_putWord, placeWrites]
    split
    · rw [toUInt16_byte_getLsbD, toUInt8_getLsbD]
      rfl
    · rfl
  | counter =>
    obtain ⟨cell, i⟩ := k
    cases cell with
    | counter => exact toUInt32_word_getLsbD val
    | byte m => rfl
    | word m => rfl
    | status => rfl
  | status =>
    obtain ⟨cell, i⟩ := k
    cases cell with
    | status =>
      change (readPlace (writePlace regs val .status) .status).toBitVec.getLsbD i = byteBit val i
      rw [readPlace, writePlace, status_set, toUInt32_byte_getLsbD, toUInt8_getLsbD]
    | byte m => rfl
    | word m => rfl
    | counter => rfl
  | pair =>
    rw [writePlace, bit_putByte, bit_putByte, placeWrites]
    by_cases hb : k.1 = .byte .b
    · rw [if_pos hb, if_neg (by rw [hb]; decide), if_pos hb, toUInt8_getLsbD, byteBit,
        UInt16.toBitVec_and, BitVec.getLsbD_and, lowByte_getLsbD]
      cases hlow : decide (k.2 < 8) with
      | true => simp [byteBit, hlow]
      | false => simp [byteBit, hlow]
    · rw [if_neg hb]
      by_cases ha : k.1 = .byte .a
      · rw [if_pos ha, if_pos ha, toUInt8_getLsbD, byteBit, shiftRight_getLsbD]
        rfl
      · rw [if_neg ha, if_neg ha, if_neg hb]
        rfl
  | high m =>
    rw [writePlace, bit_putWord, placeWrites]
    by_cases hm : k.1 = .word m
    · have hk : regs.bit k = (regs.word m).toBitVec.getLsbD k.2 := by
        rw [show k = (.word m, k.2) from Prod.ext hm rfl]
        rfl
      rw [if_pos hm, UInt16.toBitVec_and, BitVec.getLsbD_and, UInt16.toBitVec_or, BitVec.getLsbD_or,
        shiftLeft_getLsbD, lowByte_getLsbD, ← hk]
      by_cases hv : 8 ≤ k.2 ∧ byteBit val (k.2 - 8) = true
      · have hlt : ¬ k.2 < 8 := by omega
        rw [if_pos (.inr hv)]
        simp [hv.1, hv.2, hlt]
      · have hmask : (decide (8 ≤ k.2) && byteBit val (k.2 - 8)) = false := by
          rwa [← Bool.not_eq_true, Bool.and_eq_true, decide_eq_true_iff]
        rw [if_neg (by simp [hm, hv] : ¬ (k.1 ≠ .word m ∨ _)), hmask, Bool.and_false]
        rfl
    · rw [if_neg hm, if_pos (.inl hm)]
      rfl
  | low m =>
    rw [writePlace, bit_putWord, placeWrites]
    by_cases hm : k.1 = .word m
    · have hk : regs.bit k = (regs.word m).toBitVec.getLsbD k.2 := by
        rw [show k = (.word m, k.2) from Prod.ext hm rfl]
        rfl
      rw [if_pos hm, if_neg (not_not.mpr hm), UInt16.toBitVec_and, BitVec.getLsbD_and,
        UInt16.toBitVec_or, BitVec.getLsbD_or, highByte_getLsbD, ← hk]
      by_cases hlow : k.2 < 8
      · have hge : ¬ 8 ≤ k.2 := by omega
        rw [if_neg hge]
        cases hv : val.toBitVec.getLsbD k.2 with
        | true => simp [byteBit, hlow, hge, hv]
        | false => simp [byteBit, hlow, hge, hv]
      · have hge : 8 ≤ k.2 := by omega
        rw [if_pos hge, Option.getD_some]
        by_cases h16 : k.2 < 16
        · simp [hge, h16]
        · simp [word_getLsbD_of_ge val (Nat.not_lt.mp h16)]
    · rw [if_neg hm, if_pos hm]
      rfl

end

/-! ## One register after another is set -/

/-- What setting register `item.1` to `item.2` writes to bit `k.2` of register `k.1`. -/
def registerWrites (cpu : CpuType) (item : UInt8 × UInt16) (k : UInt8 × Nat) : Option Bool := do
  let p ← place cpu item.1
  let p' ← place cpu k.1
  let bit ← source p' k.2
  placeWrites item.2 p bit

section
variable {ρ : Type} {E : Surroundings ρ} {s : Board ρ} {mem : Memspace} {id id' : UInt8} {val : UInt16}
  {i : Nat}

@[simp] theorem monRegisterSetVal_cpu : (monRegisterSetVal E s mem id val).cpu = s.cpu := by
  unfold monRegisterSetVal
  split
  · rfl
  · split <;> rfl

@[simp] theorem monRegisterSetVal_rest : (monRegisterSetVal E s mem id val).rest = s.rest := by
  unfold monRegisterSetVal
  split
  · rfl
  · split <;> rfl

@[simp] theorem monRegisterValid_set :
    monRegisterValid E (monRegisterSetVal E s mem id val) mem id' = monRegisterValid E s mem id' := by
  simp [monRegisterValid]

/-- The raster line and the cycle are not in the structures. -/
theorem place_clock (cpu : CpuType) : place cpu eRasterline = none ∧ place cpu eCycle = none := by
  cases cpu <;> decide

theorem monRegisterSetVal_regs (hacc : accessible E mem = true) {p : Place}
    (hp : place (s.cpu mem) id = some p) :
    (monRegisterSetVal E s mem id val).regs mem = writePlace (s.regs mem) val p := by
  rw [monRegisterSetVal, if_neg (by simp [hacc]), hp]
  exact Function.update_self ..

theorem monRegisterSetVal_none (hp : place (s.cpu mem) id = none) : monRegisterSetVal E s mem id val = s := by
  rw [monRegisterSetVal, hp]
  split <;> rfl

/-- The bits of a register after another one, or the same, is set. -/
theorem monRegisterGetVal_set (hacc : accessible E mem = true) (hi : i < 32) :
    (monRegisterGetVal E (monRegisterSetVal E s mem id val) mem id').toBitVec.getLsbD i =
      (registerWrites (s.cpu mem) (id, val) (id', i)).getD
        ((monRegisterGetVal E s mem id').toBitVec.getLsbD i) := by
  have hclock : clockOf E (monRegisterSetVal E s mem id val) mem = clockOf E s mem := by
    simp [clockOf]
  cases hp : place (s.cpu mem) id with
  | none =>
    rw [monRegisterSetVal_none hp]
    simp [registerWrites, hp]
  | some p =>
    by_cases hline : id' = eRasterline
    · have hnone : place (s.cpu mem) id' = none := hline ▸ (place_clock _).1
      simp [monRegisterGetVal, registerWrites, hacc, hline, hclock, hp, hline ▸ hnone]
    by_cases hcycle : id' = eCycle
    · have hnone : place (s.cpu mem) id' = none := hcycle ▸ (place_clock _).2
      simp [monRegisterGetVal, registerWrites, hacc, hcycle, hclock, hp, hcycle ▸ hnone]
    unfold monRegisterGetVal
    rw [if_neg (by simp [hacc]), if_neg hline, if_neg hcycle, if_neg (by simp [hacc]), if_neg hline,
      if_neg hcycle, monRegisterSetVal_cpu]
    cases hp' : place (s.cpu mem) id' with
    | none => simp [registerWrites, hp, hp']
    | some p' =>
      rw [monRegisterSetVal_regs hacc hp]
      dsimp only
      rw [readPlace_getLsbD _ _ hi, readPlace_getLsbD _ _ hi]
      cases hk : source p' i with
      | none => simp [registerWrites, hp, hp', hk]
      | some k => simp [registerWrites, hp, hp', hk, writePlace_bit]

end

/-- A machine whose registers are those of the CPUs. -/
def withRegisters {ρ : Type} (M : Machine (Board ρ)) (E : Surroundings ρ) : Machine (Board ρ) :=
  { M with
    registerListGet := monRegisterListGet E
    registerValid := monRegisterValid E
    registerSetVal := monRegisterSetVal E }

end Vice.L5.CpuRegisters
