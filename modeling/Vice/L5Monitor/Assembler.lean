import Mathlib.Algebra.Group.Nat.Defs
import Vice.L5Monitor.Opcodes

/-!
# Disassembler and assembler of the monitor

* `disassemble` (`mon_disassemble_to_string_internal`): what is printed for the bytes at an address,
  as the tokens of the text.
* `monAssembleInstr` (`mon_assemble_instr` of both CPUs): the search for an opcode and the bytes that
  are written.

Numbers are printed in hexadecimal and read back as they are; no label stands for the address.
-/
namespace Vice.L5.Assembler
open Vice.L5.Opcodes

/-- The bytes of an instruction, `opc`. -/
structure Opc where
  x : UInt8
  p1 : UInt8
  p2 : UInt8
  p3 : UInt8
  deriving DecidableEq, Repr

/-- The tokens of a printed operand: `paren n` is `($n)`, `parenSY n` is `($n,S),Y`, and so on. -/
inductive Operand
  | empty
  | regA
  | immediate (n : Nat)
  | number (n : Nat)
  | numberX (n : Nat)
  | numberY (n : Nat)
  | numberS (n : Nat)
  | pair (n m : Nat)
  | paren (n : Nat)
  | parenX (n : Nat)
  | parenSY (n : Nat)
  | parenY (n : Nat)
  | bracket (n : Nat)
  | bracketY (n : Nat)
  deriving DecidableEq, Repr

/-! ## Disassembler -/

def Opc.byte (o : Opc) : Nat := o.p1.toNat

def Opc.word (o : Opc) : Nat := o.p1.toNat + o.p2.toNat * 2 ^ 8

def Opc.long (o : Opc) : Nat := o.p1.toNat + o.p2.toNat * 2 ^ 8 + o.p3.toNat * 2 ^ 16

/-- The target of a branch: the distance with its sign, from behind the instruction. -/
def branchTarget (bits length : Nat) (addr : UInt16) (distance : Nat) : Nat :=
  let distance := if distance < 2 ^ (bits - 1) then distance else distance + 2 ^ 16 - 2 ^ bits
  (distance + addr.toNat + length) % 2 ^ 16

/-- mirrors src/monitor/mon_disassemble.c:201-420; neither CPU has another mode -/
def printOperand (mode : AddrMode) (addr : UInt16) (o : Opc) : Operand :=
  match mode with
  | .accumulator => .regA
  | .immediate => .immediate o.byte
  | .absoluteLong => .number o.long
  | .absoluteLongX => .numberX o.long
  | .absolute => .number o.word
  | .absoluteX => .numberX o.word
  | .absoluteY => .numberY o.word
  | .absIndirect => .paren o.word
  | .absIndirectX => .parenX o.word
  | .absIndLong => .bracket o.word
  | .zeroPage => .number o.byte
  | .zeroPageX => .numberX o.byte
  | .zeroPageY => .numberY o.byte
  | .indirect => .paren o.byte
  | .indirectLong => .bracket o.byte
  | .indirectLongY => .bracketY o.byte
  | .indirectX => .parenX o.byte
  | .indirectY => .parenY o.byte
  | .stackRelative => .numberS o.byte
  | .stackRelativeY => .parenSY o.byte
  | .move => .pair o.p2.toNat o.byte
  | .relative => .number (branchTarget 8 2 addr o.byte)
  | .relativeLong => .number (branchTarget 16 3 addr o.word)
  | .immediate16 => .immediate o.word
  | _ => .empty

structure Disassembled where
  mnemonic : Mnemonic
  addrMode : AddrMode
  operand : Operand
  size : Nat
  deriving DecidableEq, Repr

/-- mirrors src/monitor/mon_disassemble.c:107-420 (`mon_disassemble_to_string_internal`) -/
def disassemble (cpu : Cpu) (addr : UInt16) (o : Opc) : Disassembled :=
  let opinfo := cpu.opcodeInfo o.x
  { mnemonic := opinfo.mnemonic
    addrMode := opinfo.addrMode
    operand := printOperand opinfo.addrMode addr o
    size := cpu.addrModeSize opinfo.addrMode }

/-! ## Grammar -/

/-- `asm_mode_addr_info_t` -/
structure AsmModeAddrInfo where
  addrMode : AddrMode
  addrSubmode : UInt8
  param : Nat
  deriving DecidableEq, Repr

/-- mirrors src/monitor/mon_parse.y:970-1047 and 1205-1213 (`asm_operand_mode`): what a rule does not
set is what the parser's value held before. The submodes are those of the 6809. -/
def asmOperandMode (old : AsmModeAddrInfo) (operand : Operand) : AsmModeAddrInfo :=
  match operand with
  | .empty => { old with addrMode := .implied }
  | .regA => { old with addrMode := .accumulator }
  | .immediate n => { old with addrMode := if 0xff < n then .immediate16 else .immediate, param := n }
  | .number n =>
    { old with
      addrMode := if 0x10000 ≤ n then .absoluteLong else if n < 0x100 then .zeroPage else .absolute
      param := n }
  | .numberX n =>
    { old with
      addrMode := if 0x10000 ≤ n then .absoluteLongX else if n < 0x100 then .zeroPageX else .absoluteX
      param := n }
  | .numberY n => { old with addrMode := if n < 0x100 then .zeroPageY else .absoluteY, param := n }
  | .numberS n =>
    if n < 0x100 then { old with addrMode := .stackRelative, param := n }
    else if n < 0x8000 then { old with addrMode := .indexed, param := n }
    else { old with addrMode := .illegal }
  | .pair n m =>
    if n < 0x100 then { addrMode := .double, param := m, addrSubmode := UInt8.ofNat n } else old
  | .paren n => { old with addrMode := if n < 0x100 then .indirect else .absIndirect, param := n }
  | .parenX n => { old with addrMode := if n < 0x100 then .indirectX else .absIndirectX, param := n }
  | .parenSY n => { old with addrMode := .stackRelativeY, param := n }
  | .parenY n => { old with addrMode := .indirectY, param := n }
  | .bracket n => { addrMode := .indexed, addrSubmode := 0x9f, param := n }
  | .bracketY n => { old with addrMode := .indirectLongY, param := n }

/-! ## Assembler -/

/-- Why an opcode with the mnemonic is taken. -/
inductive Match
  | exact | accumulator | relative | relativeLong | registerZeroPage | registerAbsolute | absolute
  | absIndirect | move | indirectLong | absIndLong | immediate16
  | branchTooLarge
  deriving DecidableEq, Repr

/-- What the matches ask of the value: whether a branch reaches it, and its size. -/
structure Reach where
  near : Bool
  byte : Bool
  word : Bool
  deriving DecidableEq, Repr

/-- The distance of a branch with 8 bits. -/
def branchOffset (value : Nat) (loc : UInt16) : Nat :=
  (value + 2 ^ 16 - loc.toNat + 2 ^ 16 - 2) % 2 ^ 16

def reach (value : Nat) (loc : UInt16) : Reach where
  near := branchOffset value loc ≤ 0x7f || 0xff80 ≤ branchOffset value loc
  byte := value < 0x100
  word := value < 0x10000

/-- The cases in the search of the 6502, mirrors src/monitor/mon_assemble6502.c:63-134 -/
def match6502 (opMode mode : AddrMode) (r : Reach) : Option Match :=
  if opMode = mode then some .exact
  else if mode = .implied ∧ opMode = .accumulator then some .accumulator
  else if (mode = .zeroPage ∨ mode = .absolute) ∧ opMode = .relative then
    some (if r.near then .relative else .branchTooLarge)
  else if mode = .accumulator ∧ opMode = .zeroPage then some .registerZeroPage
  else if mode = .accumulator ∧ opMode = .absolute then some .registerAbsolute
  else if mode = .zeroPage ∧ opMode = .absolute then some .absolute
  else if mode = .indirect ∧ opMode = .absIndirect then some .absIndirect
  else none

/-- The cases in the search of the 65816, mirrors src/monitor/mon_assemble65816.c:62-171 -/
def match65816 (opMode mode : AddrMode) (r : Reach) : Option Match :=
  if opMode = mode then some .exact
  else if mode = .implied ∧ opMode = .accumulator then some .accumulator
  else if (mode = .zeroPage ∨ mode = .absolute) ∧ opMode = .relative ∧ r.near then some .relative
  else if (mode = .zeroPage ∨ mode = .absolute) ∧ opMode = .relativeLong then some .relativeLong
  else if mode = .accumulator ∧ opMode = .zeroPage then some .registerZeroPage
  else if mode = .accumulator ∧ opMode = .absolute then some .registerAbsolute
  else if mode = .zeroPage ∧ opMode = .absolute then some .absolute
  else if opMode = .move ∧ mode = .double ∧ r.byte then some .move
  else if opMode = .indirectLong ∧ mode = .indexed ∧ r.byte then some .indirectLong
  else if opMode = .absIndLong ∧ mode = .indexed ∧ r.word then some .absIndLong
  else if opMode = .immediate ∧ mode = .immediate16 then some .immediate16
  else none

def Cpu.matchMode : Cpu → AddrMode → AddrMode → Reach → Option Match
  | .cpu6502 => match6502
  | .cpu65816 => match65816

/-- The first opcode from `i` on that matches. -/
def search (cpu : Cpu) (mnemonic : Mnemonic) (mode : AddrMode) (r : Reach) :
    Nat → List OpcodeInfo → Option (Nat × Match)
  | _, [] => none
  | i, opinfo :: rest =>
    if opinfo.mnemonic = mnemonic then
      match Cpu.matchMode cpu opinfo.addrMode mode r with
      | some m => some (i, m)
      | none => search cpu mnemonic mode r (i + 1) rest
    else search cpu mnemonic mode r (i + 1) rest

/-- The mode and the value that a match leaves; none where the assembler gives up. -/
def Match.operand (m : Match) (mode : AddrMode) (value : Nat) (extra : UInt8) (loc : UInt16) :
    Option (AddrMode × Nat) :=
  match m with
  | .exact => some (mode, value)
  | .accumulator => some (.accumulator, value)
  | .relative => some (.relative, branchOffset value loc % 2 ^ 8)
  | .relativeLong => some (.relativeLong, (value + 2 ^ 16 - loc.toNat + 2 ^ 16 - 3) % 2 ^ 16)
  | .registerZeroPage => some (.zeroPage, 0x0a)
  | .registerAbsolute => some (.absolute, 0x0a)
  | .absolute => some (.absolute, value)
  | .absIndirect => some (.absIndirect, value)
  | .move => some (.move, extra.toNat * 2 ^ 8 + value % 2 ^ 8)
  | .indirectLong => some (.indirectLong, value)
  | .absIndLong => some (.absIndLong, value)
  | .immediate16 => some (.immediate, value)
  | .branchTooLarge => none

abbrev Memory := UInt16 → UInt8

def Memory.set (mem : Memory) (addr : UInt16) (byte : UInt8) : Memory :=
  fun a => if a = addr then byte else mem a

/-- The opcode, and as many bytes of the operand as the length has. -/
def Memory.writeInstr (mem : Memory) (loc : UInt16) (len : Nat) (opcode : UInt8) (value : Nat)
    (extra : UInt8) : Memory :=
  let mem := mem.set loc opcode
  let mem := if 2 ≤ len then mem.set (loc + 1) (UInt8.ofNat value) else mem
  let mem := if 3 ≤ len then mem.set (loc + 2) (UInt8.ofNat (value / 2 ^ 8)) else mem
  if 4 ≤ len then mem.set (loc + 3) extra else mem

/-- Memory, with the address the next instruction is assembled at (`asm_mode_addr`). -/
structure AsmState where
  mem : Memory
  loc : UInt16

/-- `operand_value` has 16 bits on the 6502 and 32 on the 65816. -/
def Cpu.operandValue : Cpu → Nat → Nat
  | .cpu6502, param => param % 2 ^ 16
  | .cpu65816, param => param % 2 ^ 32

/-- mirrors src/monitor/mon_assemble6502.c:45-168 and mon_assemble65816.c:43-209
(`mon_assemble_instr`); the 6502 has no instruction of 4 bytes -/
def monAssembleInstr (cpu : Cpu) (s : AsmState) (mnemonic : Mnemonic) (operand : AsmModeAddrInfo) :
    Option AsmState :=
  let value := Cpu.operandValue cpu operand.param
  match search cpu mnemonic operand.addrMode (reach value s.loc) 0 cpu.opcodeList with
  | none => none
  | some (opcode, m) =>
    match m.operand operand.addrMode value operand.addrSubmode s.loc with
    | none => none
    | some (mode, value) =>
      let len := cpu.addrModeSize mode
      some
        { mem := s.mem.writeInstr s.loc len (UInt8.ofNat opcode) value operand.addrSubmode
          loc := s.loc + UInt16.ofNat len }

/-- The bytes at an address, mirrors src/monitor/mon_disassemble.c:1510-1514 -/
def Memory.opc (mem : Memory) (addr : UInt16) : Opc where
  x := mem addr
  p1 := mem (addr + 1)
  p2 := mem (addr + 2)
  p3 := mem (addr + 3)

end Vice.L5.Assembler
