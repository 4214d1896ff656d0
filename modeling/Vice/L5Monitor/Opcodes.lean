/-!
# The opcodes of the monitor (`asm6502.c`, `asm65816.c`)

Each opcode has a mnemonic and an addressing mode, the same ones for the disassembler and the
assembler, and each mode has a length.
-/
namespace Vice.L5.Opcodes

/-- `asm_addr_mode`: the modes of the 6502 and the 65816, and those that the grammar has for their
operands. -/
inductive AddrMode
  | implied | accumulator | immediate | zeroPage | zeroPageX | zeroPageY | absolute | absoluteX
  | absoluteY | absIndirect | indirectX | indirectY | relative | immediate16 | indirect
  | absIndirectX | double | relativeLong | stackRelativeY | stackRelative | indirectLong
  | absoluteLong | indirectLongY | absoluteLongX | move | absIndLong | illegal | indexed
  deriving DecidableEq, Repr

inductive Mnemonic
  | adc | anc | and | ane | arr | asl | asr | bcc | bcs | beq | bit | bmi | bne | bpl | bra | brk
  | bvc | bvs | clc | cld | cli | clv | cmp | cop | cpx | cpy | dcp | dec | dex | dey | eor | inc
  | inx | iny | isb | jam | jmp | jsr | las | lax | lda | ldx | ldy | lsr | lxa | mvn | mvp
  | noop | nop | ora | pea | pei | per | pha | phb | phd | phk | php | phx | phy | pla | plb
  | pld | plp | plx | ply | rep | rla | rol | ror | rra | rti | rtl | rts | sax | sbc | sbx | sec
  | sed | sei | sep | sha | shs | shx | shy | slo | sre | sta | stp | stx | sty | stz | tax | tay
  | tcd | tcs | tdc | trb | tsb | tsc | tsx | txa | txs | txy | tya | tyx | usbc | wai | wdm
  | xba | xce
  deriving DecidableEq, Repr

/-- `asm_opcode_info_t` -/
structure OpcodeInfo where
  mnemonic : Mnemonic
  addrMode : AddrMode
  deriving DecidableEq, Repr

/-- The two CPUs, `monitor_cpu_type_t` -/
inductive Cpu
  | cpu6502 | cpu65816
  deriving DecidableEq, Repr

/-- mirrors src/monitor/asm6502.c:42-57 (`addr_mode_size`); 0 is not a length -/
def addrModeSize6502 : AddrMode → Nat
  | .implied | .accumulator => 1
  | .immediate | .zeroPage | .zeroPageX | .zeroPageY | .indirectX | .indirectY | .relative => 2
  | .absolute | .absoluteX | .absoluteY | .absIndirect => 3
  | _ => 0

/-- mirrors src/monitor/asm65816.c:39-70 (`addr_mode_size`) -/
def addrModeSize65816 : AddrMode → Nat
  | .implied | .accumulator => 1
  | .immediate | .zeroPage | .zeroPageX | .zeroPageY | .indirectX | .indirectY | .relative
  | .indirect | .stackRelativeY | .stackRelative | .indirectLong | .indirectLongY => 2
  | .absolute | .absoluteX | .absoluteY | .absIndirect | .immediate16 | .absIndirectX
  | .relativeLong | .move | .absIndLong => 3
  | .absoluteLong | .absoluteLongX => 4
  | _ => 0

/-- `asm_addr_mode_get_size` -/
def Cpu.addrModeSize : Cpu → AddrMode → Nat
  | .cpu6502 => addrModeSize6502
  | .cpu65816 => addrModeSize65816

/-- mirrors src/monitor/asm6502.c:59-331 (`opcode_list`) -/
def opcodeList6502 : List OpcodeInfo :=
  [
    ⟨.brk, .implied⟩, ⟨.ora, .indirectX⟩, ⟨.jam, .implied⟩, ⟨.slo, .indirectX⟩,
    ⟨.noop, .zeroPage⟩, ⟨.ora, .zeroPage⟩, ⟨.asl, .zeroPage⟩, ⟨.slo, .zeroPage⟩,
    ⟨.php, .implied⟩, ⟨.ora, .immediate⟩, ⟨.asl, .accumulator⟩, ⟨.anc, .immediate⟩,
    ⟨.noop, .absolute⟩, ⟨.ora, .absolute⟩, ⟨.asl, .absolute⟩, ⟨.slo, .absolute⟩,
    ⟨.bpl, .relative⟩, ⟨.ora, .indirectY⟩, ⟨.jam, .implied⟩, ⟨.slo, .indirectY⟩,
    ⟨.noop, .zeroPageX⟩, ⟨.ora, .zeroPageX⟩, ⟨.asl, .zeroPageX⟩, ⟨.slo, .zeroPageX⟩,
    ⟨.clc, .implied⟩, ⟨.ora, .absoluteY⟩, ⟨.noop, .implied⟩, ⟨.slo, .absoluteY⟩,
    ⟨.noop, .absoluteX⟩, ⟨.ora, .absoluteX⟩, ⟨.asl, .absoluteX⟩, ⟨.slo, .absoluteX⟩,
    ⟨.jsr, .absolute⟩, ⟨.and, .indirectX⟩, ⟨.jam, .implied⟩, ⟨.rla, .indirectX⟩,
    ⟨.bit, .zeroPage⟩, ⟨.and, .zeroPage⟩, ⟨.rol, .zeroPage⟩, ⟨.rla, .zeroPage⟩,
    ⟨.plp, .implied⟩, ⟨.and, .immediate⟩, ⟨.rol, .accumulator⟩, ⟨.anc, .immediate⟩,
    ⟨.bit, .absolute⟩, ⟨.and, .absolute⟩, ⟨.rol, .absolute⟩, ⟨.rla, .absolute⟩,
    ⟨.bmi, .relative⟩, ⟨.and, .indirectY⟩, ⟨.jam, .implied⟩, ⟨.rla, .indirectY⟩,
    ⟨.noop, .zeroPageX⟩, ⟨.and, .zeroPageX⟩, ⟨.rol, .zeroPageX⟩, ⟨.rla, .zeroPageX⟩,
    ⟨.sec, .implied⟩, ⟨.and, .absoluteY⟩, ⟨.noop, .implied⟩, ⟨.rla, .absoluteY⟩,
    ⟨.noop, .absoluteX⟩, ⟨.and, .absoluteX⟩, ⟨.rol, .absoluteX⟩, ⟨.rla, .absoluteX⟩,
    ⟨.rti, .implied⟩, ⟨.eor, .indirectX⟩, ⟨.jam, .implied⟩, ⟨.sre, .indirectX⟩,
    ⟨.noop, .zeroPage⟩, ⟨.eor, .zeroPage⟩, ⟨.lsr, .zeroPage⟩, ⟨.sre, .zeroPage⟩,
    ⟨.pha, .implied⟩, ⟨.eor, .immediate⟩, ⟨.lsr, .accumulator⟩, ⟨.asr, .immediate⟩,
    ⟨.jmp, .absolute⟩, ⟨.eor, .absolute⟩, ⟨.lsr, .absolute⟩, ⟨.sre, .absolute⟩,
    ⟨.bvc, .relative⟩, ⟨.eor, .indirectY⟩, ⟨.jam, .implied⟩, ⟨.sre, .indirectY⟩,
    ⟨.noop, .zeroPageX⟩, ⟨.eor, .zeroPageX⟩, ⟨.lsr, .zeroPageX⟩, ⟨.sre, .zeroPageX⟩,
    ⟨.cli, .implied⟩, ⟨.eor, .absoluteY⟩, ⟨.noop, .implied⟩, ⟨.sre, .absoluteY⟩,
    ⟨.noop, .absoluteX⟩, ⟨.eor, .absoluteX⟩, ⟨.lsr, .absoluteX⟩, ⟨.sre, .absoluteX⟩,
    ⟨.rts, .implied⟩, ⟨.adc, .indirectX⟩, ⟨.jam, .implied⟩, ⟨.rra, .indirectX⟩,
    ⟨.noop, .zeroPage⟩, ⟨.adc, .zeroPage⟩, ⟨.ror, .zeroPage⟩, ⟨.rra, .zeroPage⟩,
    ⟨.pla, .implied⟩, ⟨.adc, .immediate⟩, ⟨.ror, .accumulator⟩, ⟨.arr, .immediate⟩,
    ⟨.jmp, .absIndirect⟩, ⟨.adc, .absolute⟩, ⟨.ror, .absolute⟩, ⟨.rra, .absolute⟩,
    ⟨.bvs, .relative⟩, ⟨.adc, .indirectY⟩, ⟨.jam, .implied⟩, ⟨.rra, .indirectY⟩,
    ⟨.noop, .zeroPageX⟩, ⟨.adc, .zeroPageX⟩, ⟨.ror, .zeroPageX⟩, ⟨.rra, .zeroPageX⟩,
    ⟨.sei, .implied⟩, ⟨.adc, .absoluteY⟩, ⟨.noop, .implied⟩, ⟨.rra, .absoluteY⟩,
    ⟨.noop, .absoluteX⟩, ⟨.adc, .absoluteX⟩, ⟨.ror, .absoluteX⟩, ⟨.rra, .absoluteX⟩,
    ⟨.noop, .immediate⟩, ⟨.sta, .indirectX⟩, ⟨.noop, .immediate⟩, ⟨.sax, .indirectX⟩,
    ⟨.sty, .zeroPage⟩, ⟨.sta, .zeroPage⟩, ⟨.stx, .zeroPage⟩, ⟨.sax, .zeroPage⟩,
    ⟨.dey, .implied⟩, ⟨.noop, .immediate⟩, ⟨.txa, .implied⟩, ⟨.ane, .immediate⟩,
    ⟨.sty, .absolute⟩, ⟨.sta, .absolute⟩, ⟨.stx, .absolute⟩, ⟨.sax, .absolute⟩,
    ⟨.bcc, .relative⟩, ⟨.sta, .indirectY⟩, ⟨.jam, .implied⟩, ⟨.sha, .indirectY⟩,
    ⟨.sty, .zeroPageX⟩, ⟨.sta, .zeroPageX⟩, ⟨.stx, .zeroPageY⟩, ⟨.sax, .zeroPageY⟩,
    ⟨.tya, .implied⟩, ⟨.sta, .absoluteY⟩, ⟨.txs, .implied⟩, ⟨.shs, .absoluteY⟩,
    ⟨.shy, .absoluteX⟩, ⟨.sta, .absoluteX⟩, ⟨.shx, .absoluteY⟩, ⟨.sha, .absoluteY⟩,
    ⟨.ldy, .immediate⟩, ⟨.lda, .indirectX⟩, ⟨.ldx, .immediate⟩, ⟨.lax, .indirectX⟩,
    ⟨.ldy, .zeroPage⟩, ⟨.lda, .zeroPage⟩, ⟨.ldx, .zeroPage⟩, ⟨.lax, .zeroPage⟩,
    ⟨.tay, .implied⟩, ⟨.lda, .immediate⟩, ⟨.tax, .implied⟩, ⟨.lxa, .immediate⟩,
    ⟨.ldy, .absolute⟩, ⟨.lda, .absolute⟩, ⟨.ldx, .absolute⟩, ⟨.lax, .absolute⟩,
    ⟨.bcs, .relative⟩, ⟨.lda, .indirectY⟩, ⟨.jam, .implied⟩, ⟨.lax, .indirectY⟩,
    ⟨.ldy, .zeroPageX⟩, ⟨.lda, .zeroPageX⟩, ⟨.ldx, .zeroPageY⟩, ⟨.lax, .zeroPageY⟩,
    ⟨.clv, .implied⟩, ⟨.lda, .absoluteY⟩, ⟨.tsx, .implied⟩, ⟨.las, .absoluteY⟩,
    ⟨.ldy, .absoluteX⟩, ⟨.lda, .absoluteX⟩, ⟨.ldx, .absoluteY⟩, ⟨.lax, .absoluteY⟩,
    ⟨.cpy, .immediate⟩, ⟨.cmp, .indirectX⟩, ⟨.noop, .immediate⟩, ⟨.dcp, .indirectX⟩,
    ⟨.cpy, .zeroPage⟩, ⟨.cmp, .zeroPage⟩, ⟨.dec, .zeroPage⟩, ⟨.dcp, .zeroPage⟩,
    ⟨.iny, .implied⟩, ⟨.cmp, .immediate⟩, ⟨.dex, .implied⟩, ⟨.sbx, .immediate⟩,
    ⟨.cpy, .absolute⟩, ⟨.cmp, .absolute⟩, ⟨.dec, .absolute⟩, ⟨.dcp, .absolute⟩,
    ⟨.bne, .relative⟩, ⟨.cmp, .indirectY⟩, ⟨.jam, .implied⟩, ⟨.dcp, .indirectY⟩,
    ⟨.noop, .zeroPageX⟩, ⟨.cmp, .zeroPageX⟩, ⟨.dec, .zeroPageX⟩, ⟨.dcp, .zeroPageX⟩,
    ⟨.cld, .implied⟩, ⟨.cmp, .absoluteY⟩, ⟨.noop, .implied⟩, ⟨.dcp, .absoluteY⟩,
    ⟨.noop, .absoluteX⟩, ⟨.cmp, .absoluteX⟩, ⟨.dec, .absoluteX⟩, ⟨.dcp, .absoluteX⟩,
    ⟨.cpx, .immediate⟩, ⟨.sbc, .indirectX⟩, ⟨.noop, .immediate⟩, ⟨.isb, .indirectX⟩,
    ⟨.cpx, .zeroPage⟩, ⟨.sbc, .zeroPage⟩, ⟨.inc, .zeroPage⟩, ⟨.isb, .zeroPage⟩,
    ⟨.inx, .implied⟩, ⟨.sbc, .immediate⟩, ⟨.nop, .implied⟩, ⟨.usbc, .immediate⟩,
    ⟨.cpx, .absolute⟩, ⟨.sbc, .absolute⟩, ⟨.inc, .absolute⟩, ⟨.isb, .absolute⟩,
    ⟨.beq, .relative⟩, ⟨.sbc, .indirectY⟩, ⟨.jam, .implied⟩, ⟨.isb, .indirectY⟩,
    ⟨.noop, .zeroPageX⟩, ⟨.sbc, .zeroPageX⟩, ⟨.inc, .zeroPageX⟩, ⟨.isb, .zeroPageX⟩,
    ⟨.sed, .implied⟩, ⟨.sbc, .absoluteY⟩, ⟨.noop, .implied⟩, ⟨.isb, .absoluteY⟩,
    ⟨.noop, .absoluteX⟩, ⟨.sbc, .absoluteX⟩, ⟨.inc, .absoluteX⟩, ⟨.isb, .absoluteX⟩]

/-- mirrors src/monitor/asm65816.c:72-344 (`opcode_list`) -/
def opcodeList65816 : List OpcodeInfo :=
  [
    ⟨.brk, .implied⟩, ⟨.ora, .indirectX⟩, ⟨.cop, .immediate⟩, ⟨.ora, .stackRelative⟩,
    ⟨.tsb, .zeroPage⟩, ⟨.ora, .zeroPage⟩, ⟨.asl, .zeroPage⟩, ⟨.ora, .indirectLong⟩,
    ⟨.php, .implied⟩, ⟨.ora, .immediate⟩, ⟨.asl, .accumulator⟩, ⟨.phd, .implied⟩,
    ⟨.tsb, .absolute⟩, ⟨.ora, .absolute⟩, ⟨.asl, .absolute⟩, ⟨.ora, .absoluteLong⟩,
    ⟨.bpl, .relative⟩, ⟨.ora, .indirectY⟩, ⟨.ora, .indirect⟩, ⟨.ora, .stackRelativeY⟩,
    ⟨.trb, .zeroPage⟩, ⟨.ora, .zeroPageX⟩, ⟨.asl, .zeroPageX⟩, ⟨.ora, .indirectLongY⟩,
    ⟨.clc, .implied⟩, ⟨.ora, .absoluteY⟩, ⟨.inc, .accumulator⟩, ⟨.tcs, .implied⟩,
    ⟨.trb, .absolute⟩, ⟨.ora, .absoluteX⟩, ⟨.asl, .absoluteX⟩, ⟨.ora, .absoluteLongX⟩,
    ⟨.jsr, .absolute⟩, ⟨.and, .indirectX⟩, ⟨.jsr, .absoluteLong⟩, ⟨.and, .stackRelative⟩,
    ⟨.bit, .zeroPage⟩, ⟨.and, .zeroPage⟩, ⟨.rol, .zeroPage⟩, ⟨.and, .indirectLong⟩,
    ⟨.plp, .implied⟩, ⟨.and, .immediate⟩, ⟨.rol, .accumulator⟩, ⟨.pld, .implied⟩,
    ⟨.bit, .absolute⟩, ⟨.and, .absolute⟩, ⟨.rol, .absolute⟩, ⟨.and, .absoluteLong⟩,
    ⟨.bmi, .relative⟩, ⟨.and, .indirectY⟩, ⟨.and, .indirect⟩, ⟨.and, .stackRelativeY⟩,
    ⟨.bit, .zeroPageX⟩, ⟨.and, .zeroPageX⟩, ⟨.rol, .zeroPageX⟩, ⟨.and, .indirectLongY⟩,
    ⟨.sec, .implied⟩, ⟨.and, .absoluteY⟩, ⟨.dec, .accumulator⟩, ⟨.tsc, .implied⟩,
    ⟨.bit, .absoluteX⟩, ⟨.and, .absoluteX⟩, ⟨.rol, .absoluteX⟩, ⟨.and, .absoluteLongX⟩,
    ⟨.rti, .implied⟩, ⟨.eor, .indirectX⟩, ⟨.wdm, .immediate⟩, ⟨.eor, .stackRelative⟩,
    ⟨.mvp, .move⟩, ⟨.eor, .zeroPage⟩, ⟨.lsr, .zeroPage⟩, ⟨.eor, .indirectLong⟩,
    ⟨.pha, .implied⟩, ⟨.eor, .immediate⟩, ⟨.lsr, .accumulator⟩, ⟨.phk, .implied⟩,
    ⟨.jmp, .absolute⟩, ⟨.eor, .absolute⟩, ⟨.lsr, .absolute⟩, ⟨.eor, .absoluteLong⟩,
    ⟨.bvc, .relative⟩, ⟨.eor, .indirectY⟩, ⟨.eor, .indirect⟩, ⟨.eor, .stackRelativeY⟩,
    ⟨.mvn, .move⟩, ⟨.eor, .zeroPageX⟩, ⟨.lsr, .zeroPageX⟩, ⟨.eor, .indirectLongY⟩,
    ⟨.cli, .implied⟩, ⟨.eor, .absoluteY⟩, ⟨.phy, .implied⟩, ⟨.tcd, .implied⟩,
    ⟨.jmp, .absoluteLong⟩, ⟨.eor, .absoluteX⟩, ⟨.lsr, .absoluteX⟩, ⟨.eor, .absoluteLongX⟩,
    ⟨.rts, .implied⟩, ⟨.adc, .indirectX⟩, ⟨.per, .relativeLong⟩, ⟨.adc, .stackRelative⟩,
    ⟨.stz, .zeroPage⟩, ⟨.adc, .zeroPage⟩, ⟨.ror, .zeroPage⟩, ⟨.adc, .indirectLong⟩,
    ⟨.pla, .implied⟩, ⟨.adc, .immediate⟩, ⟨.ror, .accumulator⟩, ⟨.rtl, .implied⟩,
    ⟨.jmp, .absIndirect⟩, ⟨.adc, .absolute⟩, ⟨.ror, .absolute⟩, ⟨.adc, .absoluteLong⟩,
    ⟨.bvs, .relative⟩, ⟨.adc, .indirectY⟩, ⟨.adc, .indirect⟩, ⟨.adc, .stackRelativeY⟩,
    ⟨.stz, .zeroPageX⟩, ⟨.adc, .zeroPageX⟩, ⟨.ror, .zeroPageX⟩, ⟨.adc, .indirectLongY⟩,
    ⟨.sei, .implied⟩, ⟨.adc, .absoluteY⟩, ⟨.ply, .implied⟩, ⟨.tdc, .implied⟩,
    ⟨.jmp, .absIndirectX⟩, ⟨.adc, .absoluteX⟩, ⟨.ror, .absoluteX⟩, ⟨.adc, .absoluteLongX⟩,
    ⟨.bra, .relative⟩, ⟨.sta, .indirectX⟩, ⟨.bra, .relativeLong⟩, ⟨.sta, .stackRelative⟩,
    ⟨.sty, .zeroPage⟩, ⟨.sta, .zeroPage⟩, ⟨.stx, .zeroPage⟩, ⟨.sta, .indirectLong⟩,
    ⟨.dey, .implied⟩, ⟨.bit, .immediate⟩, ⟨.txa, .implied⟩, ⟨.phb, .implied⟩,
    ⟨.sty, .absolute⟩, ⟨.sta, .absolute⟩, ⟨.stx, .absolute⟩, ⟨.sta, .absoluteLong⟩,
    ⟨.bcc, .relative⟩, ⟨.sta, .indirectY⟩, ⟨.sta, .indirect⟩, ⟨.sta, .stackRelativeY⟩,
    ⟨.sty, .zeroPageX⟩, ⟨.sta, .zeroPageX⟩, ⟨.stx, .zeroPageY⟩, ⟨.sta, .indirectLongY⟩,
    ⟨.tya, .implied⟩, ⟨.sta, .absoluteY⟩, ⟨.txs, .implied⟩, ⟨.txy, .implied⟩,
    ⟨.stz, .absolute⟩, ⟨.sta, .absoluteX⟩, ⟨.stz, .absoluteX⟩, ⟨.sta, .absoluteLongX⟩,
    ⟨.ldy, .immediate⟩, ⟨.lda, .indirectX⟩, ⟨.ldx, .immediate⟩, ⟨.lda, .stackRelative⟩,
    ⟨.ldy, .zeroPage⟩, ⟨.lda, .zeroPage⟩, ⟨.ldx, .zeroPage⟩, ⟨.lda, .indirectLong⟩,
    ⟨.tay, .implied⟩, ⟨.lda, .immediate⟩, ⟨.tax, .implied⟩, ⟨.plb, .implied⟩,
    ⟨.ldy, .absolute⟩, ⟨.lda, .absolute⟩, ⟨.ldx, .absolute⟩, ⟨.lda, .absoluteLong⟩,
    ⟨.bcs, .relative⟩, ⟨.lda, .indirectY⟩, ⟨.lda, .indirect⟩, ⟨.lda, .stackRelativeY⟩,
    ⟨.ldy, .zeroPageX⟩, ⟨.lda, .zeroPageX⟩, ⟨.ldx, .zeroPageY⟩, ⟨.lda, .indirectLongY⟩,
    ⟨.clv, .implied⟩, ⟨.lda, .absoluteY⟩, ⟨.tsx, .implied⟩, ⟨.tyx, .implied⟩,
    ⟨.ldy, .absoluteX⟩, ⟨.lda, .absoluteX⟩, ⟨.ldx, .absoluteY⟩, ⟨.lda, .absoluteLongX⟩,
    ⟨.cpy, .immediate⟩, ⟨.cmp, .indirectX⟩, ⟨.rep, .immediate⟩, ⟨.cmp, .stackRelative⟩,
    ⟨.cpy, .zeroPage⟩, ⟨.cmp, .zeroPage⟩, ⟨.dec, .zeroPage⟩, ⟨.cmp, .indirectLong⟩,
    ⟨.iny, .implied⟩, ⟨.cmp, .immediate⟩, ⟨.dex, .implied⟩, ⟨.wai, .implied⟩,
    ⟨.cpy, .absolute⟩, ⟨.cmp, .absolute⟩, ⟨.dec, .absolute⟩, ⟨.cmp, .absoluteLong⟩,
    ⟨.bne, .relative⟩, ⟨.cmp, .indirectY⟩, ⟨.cmp, .indirect⟩, ⟨.cmp, .stackRelativeY⟩,
    ⟨.pei, .indirect⟩, ⟨.cmp, .zeroPageX⟩, ⟨.dec, .zeroPageX⟩, ⟨.cmp, .indirectLongY⟩,
    ⟨.cld, .implied⟩, ⟨.cmp, .absoluteY⟩, ⟨.phx, .implied⟩, ⟨.stp, .implied⟩,
    ⟨.jmp, .absIndLong⟩, ⟨.cmp, .absoluteX⟩, ⟨.dec, .absoluteX⟩, ⟨.cmp, .absoluteLongX⟩,
    ⟨.cpx, .immediate⟩, ⟨.sbc, .indirectX⟩, ⟨.sep, .immediate⟩, ⟨.sbc, .stackRelative⟩,
    ⟨.cpx, .zeroPage⟩, ⟨.sbc, .zeroPage⟩, ⟨.inc, .zeroPage⟩, ⟨.sbc, .indirectLong⟩,
    ⟨.inx, .implied⟩, ⟨.sbc, .immediate⟩, ⟨.nop, .implied⟩, ⟨.xba, .implied⟩,
    ⟨.cpx, .absolute⟩, ⟨.sbc, .absolute⟩, ⟨.inc, .absolute⟩, ⟨.sbc, .absoluteLong⟩,
    ⟨.beq, .relative⟩, ⟨.sbc, .indirectY⟩, ⟨.sbc, .indirect⟩, ⟨.sbc, .stackRelativeY⟩,
    ⟨.pea, .absolute⟩, ⟨.sbc, .zeroPageX⟩, ⟨.inc, .zeroPageX⟩, ⟨.sbc, .indirectLongY⟩,
    ⟨.sed, .implied⟩, ⟨.sbc, .absoluteY⟩, ⟨.plx, .implied⟩, ⟨.xce, .implied⟩,
    ⟨.jsr, .absIndirectX⟩, ⟨.sbc, .absoluteX⟩, ⟨.inc, .absoluteX⟩, ⟨.sbc, .absoluteLongX⟩]

def Cpu.opcodeList : Cpu → List OpcodeInfo
  | .cpu6502 => opcodeList6502
  | .cpu65816 => opcodeList65816

theorem length_opcodeList (cpu : Cpu) : cpu.opcodeList.length = 256 := by
  cases cpu with
  | cpu6502 => decide +kernel
  | cpu65816 => decide +kernel

/-- `asm_opcode_info_get` -/
def Cpu.opcodeInfo (cpu : Cpu) (opcode : UInt8) : OpcodeInfo :=
  cpu.opcodeList.get ⟨opcode.toNat, by rw [length_opcodeList]; exact opcode.toNat_lt⟩

end Vice.L5.Opcodes
