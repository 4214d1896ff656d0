import Vice.L5Monitor.OpcodeSearch

/-!
# The assembler undoes the disassembler

Results:
* `assemble_disassemble`: what is printed for an instruction assembles to an instruction that prints
  the same if and only if it is `Undoable`.
* `assemble_not_undone`: one instruction of each kind that is not.
-/
namespace Vice.L5.Assembler
open Vice.L5.Opcodes

variable {cpu : Cpu} {info info' : OpcodeInfo} {mode mode' : AddrMode} {m : Match} {r r' : Reach}
  {loc : UInt16} {o o' : Opc} {s : AsmState} {old : AsmModeAddrInfo} {value value' : Nat}

/-! ## What is written -/

theorem opcodeInfo_mem (cpu : Cpu) (x : UInt8) : cpu.opcodeInfo x ∈ cpu.opcodeList :=
  List.get_mem _ _

theorem opcodeInfo_ofNat {i : Nat} (h : cpu.opcodeList[i]? = some info) :
    cpu.opcodeInfo (UInt8.ofNat i) = info := by
  obtain ⟨hi, hget⟩ := List.getElem?_eq_some_iff.1 h
  have hlength := length_opcodeList cpu
  have htoNat : (UInt8.ofNat i).toNat = i := by
    rw [UInt8.toNat_ofNat', Nat.mod_eq_of_lt (by omega)]
  simp only [Cpu.opcodeInfo, List.get_eq_getElem, htoNat, hget]

theorem set_same (mem : Memory) (addr : UInt16) (byte : UInt8) : mem.set addr byte addr = byte :=
  if_pos rfl

theorem set_other (mem : Memory) {addr addr' : UInt16} (byte : UInt8) (h : addr' ≠ addr) :
    mem.set addr byte addr' = mem addr' :=
  if_neg h

theorem set_if_other (mem : Memory) {addr addr' : UInt16} (byte : UInt8) (c : Prop) [Decidable c]
    (h : addr' ≠ addr) : (if c then mem.set addr byte else mem) addr' = mem addr' := by
  split
  · exact set_other mem byte h
  · rfl

theorem add_ne {a b : UInt16} (loc : UInt16) (h : a ≠ b) : loc + a ≠ loc + b :=
  fun heq => h ((UInt16.add_right_inj loc).1 heq)

theorem loc_ne {a : UInt16} (loc : UInt16) (h : a ≠ 0) : loc ≠ loc + a := by
  intro heq
  refine add_ne loc h ?_
  rw [← heq, UInt16.add_zero]

/-- The bytes of an instruction of `len` bytes with the operand `value`. -/
structure Written (cpu : Cpu) (info : OpcodeInfo) (len value : Nat) (extra : UInt8) (o : Opc) :
    Prop where
  opcode : cpu.opcodeInfo o.x = info
  low : 2 ≤ len → o.p1 = UInt8.ofNat value
  high : 3 ≤ len → o.p2 = UInt8.ofNat (value / 2 ^ 8)
  bank : 4 ≤ len → o.p3 = extra

theorem written_writeInstr (mem : Memory) (loc : UInt16) (len : Nat) (opcode : UInt8) (value : Nat)
    (extra : UInt8) :
    Written cpu (cpu.opcodeInfo opcode) len value extra
      ((mem.writeInstr loc len opcode value extra).opc loc) := by
  have h01 := loc_ne loc (show (1 : UInt16) ≠ 0 by decide)
  have h02 := loc_ne loc (show (2 : UInt16) ≠ 0 by decide)
  have h03 := loc_ne loc (show (3 : UInt16) ≠ 0 by decide)
  have h12 := add_ne loc (show (1 : UInt16) ≠ 2 by decide)
  have h13 := add_ne loc (show (1 : UInt16) ≠ 3 by decide)
  have h23 := add_ne loc (show (2 : UInt16) ≠ 3 by decide)
  refine ⟨?_, fun hlen => ?_, fun hlen => ?_, fun hlen => ?_⟩
  · simp only [Memory.opc, Memory.writeInstr, set_if_other _ _ _ h01, set_if_other _ _ _ h02,
      set_if_other _ _ _ h03, set_same]
  · simp only [Memory.opc, Memory.writeInstr, if_pos hlen, set_if_other _ _ _ h12,
      set_if_other _ _ _ h13, set_same]
  · simp only [Memory.opc, Memory.writeInstr, if_pos hlen, set_if_other _ _ _ h23, set_same]
  · simp only [Memory.opc, Memory.writeInstr, if_pos hlen, set_same]

theorem monAssembleInstr_found {operand : AsmModeAddrInfo} (hfound : found cpu info operand.addrMode
      (reach (Cpu.operandValue cpu operand.param) s.loc) = some (info', m))
    (hoperand : m.operand operand.addrMode (Cpu.operandValue cpu operand.param) operand.addrSubmode
      s.loc = some (mode', value')) :
    ∃ s', monAssembleInstr cpu s info.mnemonic operand = some s' ∧
      s'.loc = s.loc + UInt16.ofNat (cpu.addrModeSize mode') ∧
      Written cpu info' (cpu.addrModeSize mode') value' operand.addrSubmode (s'.mem.opc s.loc) := by
  rw [found, Option.bind_eq_some_iff] at hfound
  obtain ⟨⟨i, m'⟩, hsearch, hentry⟩ := hfound
  obtain ⟨info'', hget, heq⟩ := Option.map_eq_some_iff.1 hentry
  obtain ⟨rfl, rfl⟩ := Prod.mk.inj heq
  have hwritten := @written_writeInstr cpu s.mem s.loc (cpu.addrModeSize mode') (UInt8.ofNat i) value'
    operand.addrSubmode
  rw [opcodeInfo_ofNat hget] at hwritten
  refine ⟨⟨s.mem.writeInstr s.loc (cpu.addrModeSize mode') (UInt8.ofNat i) value'
    operand.addrSubmode, s.loc + UInt16.ofNat (cpu.addrModeSize mode')⟩, ?_, rfl, hwritten⟩
  simp only [monAssembleInstr, hsearch, hoperand]

/-! ## There and back -/

/-- What is printed for an instruction assembles to one that prints the same, and the address for the
next instruction moves on by its length. -/
def Undone (cpu : Cpu) (s : AsmState) (o : Opc) (old : AsmModeAddrInfo) : Prop :=
  let d := disassemble cpu s.loc o
  ∃ s', monAssembleInstr cpu s d.mnemonic (asmOperandMode old d.operand) = some s' ∧
    disassemble cpu s.loc (s'.mem.opc s.loc) = d ∧ s'.loc = s.loc + UInt16.ofNat d.size

/-- An absolute operand is at least $100. -/
def WideOperand (mode : AddrMode) (o : Opc) : Prop :=
  match mode with
  | .absolute | .absoluteX | .absoluteY | .absIndirect | .absIndirectX | .absIndLong =>
    0x100 ≤ o.word
  | .absoluteLong | .absoluteLongX => 0x100 ≤ o.long
  | _ => True

/-- The distance of 16 bits, which counts from one byte further on, fits into 8 bits. -/
def Short (o : Opc) : Prop := (o.word + 1) % 2 ^ 16 ≤ 0x7f ∨ 0xff80 ≤ (o.word + 1) % 2 ^ 16

/-- The accumulator is taken for the zero page but with INC and DEC; the bank of an address of
24 bits is not set by the grammar, and without a bank it is an address of 16 bits; BRA is short where
it can be. -/
structure Undoable (cpu : Cpu) (o : Opc) (old : AsmModeAddrInfo) : Prop where
  accumulator : (cpu.opcodeInfo o.x).addrMode = .accumulator →
    (cpu.opcodeInfo o.x).mnemonic = .inc ∨ (cpu.opcodeInfo o.x).mnemonic = .dec
  long : (cpu.opcodeInfo o.x).addrMode ∈ [.absoluteLong, .absoluteLongX] →
    o.p3 ≠ 0 ∧ old.addrSubmode = o.p3
  short : (cpu.opcodeInfo o.x).addrMode = .relativeLong → (cpu.opcodeInfo o.x).mnemonic = .bra →
    ¬Short o

theorem byte_lt (o : Opc) : o.byte < 0x100 := o.p1.toNat_lt

theorem word_lt (o : Opc) : o.word < 0x10000 := by
  have hlow := o.p1.toNat_lt
  have hhigh := o.p2.toNat_lt
  simp only [Opc.word]
  omega

theorem ofNat_byte (o : Opc) : UInt8.ofNat o.byte = o.p1 := UInt8.ofNat_toNat

theorem ofNat_word (o : Opc) : UInt8.ofNat o.word = o.p1 := by
  have hlow := o.p1.toNat_lt
  refine UInt8.toNat_inj.1 ?_
  rw [UInt8.toNat_ofNat', Opc.word]
  omega

theorem ofNat_word_div (o : Opc) : UInt8.ofNat (o.word / 2 ^ 8) = o.p2 := by
  have hlow := o.p1.toNat_lt
  have hhigh := o.p2.toNat_lt
  refine UInt8.toNat_inj.1 ?_
  rw [UInt8.toNat_ofNat', Opc.word]
  omega

theorem operandValue_eq (cpu : Cpu) (h : value < 0x10000) : Cpu.operandValue cpu value = value := by
  cases cpu with
  | cpu6502 => exact Nat.mod_eq_of_lt h
  | cpu65816 => exact Nat.mod_eq_of_lt (Nat.lt_trans h (by decide))

/-- A mode of the 6502 has the same length on the 65816. -/
theorem addrModeSize_eq (cpu : Cpu) (hsize : cpu.addrModeSize mode ≠ 0) :
    addrModeSize65816 mode = cpu.addrModeSize mode := by
  cases cpu with
  | cpu6502 =>
    cases mode
    all_goals first | rfl | exact absurd rfl hsize
  | cpu65816 => rfl

/-- The printed operand is made of the bytes that the length counts. -/
theorem printOperand_congr (cpu : Cpu) (addr : UInt16) (hsize : cpu.addrModeSize mode ≠ 0)
    (h1 : 2 ≤ cpu.addrModeSize mode → o'.p1 = o.p1) (h2 : 3 ≤ cpu.addrModeSize mode → o'.p2 = o.p2)
    (h3 : 4 ≤ cpu.addrModeSize mode → o'.p3 = o.p3) :
    printOperand mode addr o' = printOperand mode addr o := by
  have hsame := addrModeSize_eq cpu hsize
  rw [← hsame] at hsize h1 h2 h3
  have hbyte : 2 ≤ addrModeSize65816 mode → o'.byte = o.byte := fun h => by
    rw [Opc.byte, Opc.byte, h1 h]
  have hword : 3 ≤ addrModeSize65816 mode → o'.word = o.word := fun h => by
    rw [Opc.word, Opc.word, h1 (by omega), h2 h]
  have hlong : 4 ≤ addrModeSize65816 mode → o'.long = o.long := fun h => by
    rw [Opc.long, Opc.long, h1 (by omega), h2 (by omega), h3 h]
  cases mode
  case absoluteLong => exact congrArg Operand.number (hlong (by decide))
  case absoluteLongX => exact congrArg Operand.numberX (hlong (by decide))
  case move => simp only [printOperand, hbyte (by decide), h2 (by decide)]
  all_goals first
    | exact absurd rfl hsize
    | rfl
    | simp only [printOperand, hword (by decide)]
    | simp only [printOperand, hbyte (by decide)]

theorem size_ne_zero : ∀ info ∈ cpu.opcodeList, cpu.addrModeSize info.addrMode ≠ 0 := by
  cases cpu with
  | cpu6502 => decide +kernel
  | cpu65816 => decide +kernel

/-- What the grammar and the search make of an instruction. -/
structure Reread (cpu : Cpu) (s : AsmState) (o : Opc) (old g : AsmModeAddrInfo) (info' : OpcodeInfo)
    (m : Match) (mode' : AddrMode) (value' : Nat) : Prop where
  grammar : asmOperandMode old (printOperand (cpu.opcodeInfo o.x).addrMode s.loc o) = g
  search : found cpu (cpu.opcodeInfo o.x) g.addrMode
    (reach (Cpu.operandValue cpu g.param) s.loc) = some (info', m)
  operand : m.operand g.addrMode (Cpu.operandValue cpu g.param) g.addrSubmode s.loc =
    some (mode', value')

variable {g : AsmModeAddrInfo}

theorem Reread.assemble (h : Reread cpu s o old g info' m mode' value') :
    ∃ s', monAssembleInstr cpu s (disassemble cpu s.loc o).mnemonic
        (asmOperandMode old (disassemble cpu s.loc o).operand) = some s' ∧
      s'.loc = s.loc + UInt16.ofNat (cpu.addrModeSize mode') ∧
      Written cpu info' (cpu.addrModeSize mode') value' g.addrSubmode (s'.mem.opc s.loc) := by
  have hg := h.grammar
  simp only [disassemble, hg]
  exact monAssembleInstr_found h.search h.operand

/-- An opcode with the same mode and mnemonic, and the operand in its bytes. -/
theorem Reread.undone (h : Reread cpu s o old g (cpu.opcodeInfo o.x) m (cpu.opcodeInfo o.x).addrMode value')
    (h1 : 2 ≤ cpu.addrModeSize (cpu.opcodeInfo o.x).addrMode → UInt8.ofNat value' = o.p1)
    (h2 : 3 ≤ cpu.addrModeSize (cpu.opcodeInfo o.x).addrMode → UInt8.ofNat (value' / 2 ^ 8) = o.p2)
    (h3 : 4 ≤ cpu.addrModeSize (cpu.opcodeInfo o.x).addrMode → g.addrSubmode = o.p3) :
    Undone cpu s o old := by
  obtain ⟨s', hsome, hloc, hwritten⟩ := h.assemble
  refine ⟨s', hsome, ?_, hloc⟩
  have hprint := @printOperand_congr _ o (s'.mem.opc s.loc) cpu s.loc
    (size_ne_zero _ (opcodeInfo_mem cpu o.x))
    (fun h => (hwritten.low h).trans (h1 h)) (fun h => (hwritten.high h).trans (h2 h))
    (fun h => (hwritten.bank h).trans (h3 h))
  simp only [disassemble, hwritten.opcode, hprint]

/-- An opcode with another mode prints something else. -/
theorem Reread.not_undone (h : Reread cpu s o old g info' m mode' value')
    (hmode : info'.addrMode ≠ (cpu.opcodeInfo o.x).addrMode) : ¬Undone cpu s o old := by
  rintro ⟨s', hsome, hsame, -⟩
  obtain ⟨s'', hsome', -, hwritten⟩ := h.assemble
  rw [hsome] at hsome'
  obtain rfl := Option.some.inj hsome'
  refine hmode ?_
  have hprinted := congrArg Disassembled.addrMode hsame
  simp only [disassemble, hwritten.opcode] at hprinted
  exact hprinted

/-! ## The modes -/

/-- The modes with one byte that are read as they are printed. -/
def byteModes : List AddrMode :=
  [.immediate, .zeroPage, .zeroPageX, .zeroPageY, .indirect, .indirectX, .indirectY, .stackRelative,
    .stackRelativeY, .indirectLongY]

/-- The modes with two bytes that are read as they are printed, when the operand is wide. -/
def wordModes : List AddrMode := [.absolute, .absoluteX, .absoluteY, .absIndirect, .absIndirectX]

theorem grammar_byte (hmode : mode ∈ byteModes) :
    asmOperandMode old (printOperand mode loc o) = { old with addrMode := mode, param := o.byte } := by
  have hbyte := byte_lt o
  have hle : ¬0xff < o.byte := by omega
  have hsmall : ¬0x10000 ≤ o.byte := by omega
  simp only [byteModes, List.mem_cons, List.not_mem_nil, or_false] at hmode
  rcases hmode with rfl | rfl | rfl | rfl | rfl | rfl | rfl | rfl | rfl | rfl
  all_goals simp only [printOperand, asmOperandMode, hle, hsmall, hbyte, if_true, if_false]

theorem grammar_word (hmode : mode ∈ wordModes) (hwide : 0x100 ≤ o.word) :
    asmOperandMode old (printOperand mode loc o) = { old with addrMode := mode, param := o.word } := by
  have hword := word_lt o
  have hlong : ¬0x10000 ≤ o.word := by omega
  have hsmall : ¬o.word < 0x100 := by omega
  simp only [wordModes, List.mem_cons, List.not_mem_nil, or_false] at hmode
  rcases hmode with rfl | rfl | rfl | rfl | rfl
  all_goals simp only [printOperand, asmOperandMode, hlong, hsmall, if_false]

theorem plain_of_same : ∀ mode ∈ AddrMode.implied :: byteModes ++ wordModes,
    (mode = .zeroPage ∨ mode = .absolute) ∨ mode ∈ plainModes ∧
      mode ≠ .zeroPage ∧ mode ≠ .absolute ∧ mode ≠ .double ∧ mode ≠ .indexed := by
  decide

/-- What is found for a mode that is read as it is printed. -/
theorem found_same (hmode : (cpu.opcodeInfo o.x).addrMode ∈ AddrMode.implied :: byteModes ++ wordModes)
    (r : Reach) :
    found cpu (cpu.opcodeInfo o.x) (cpu.opcodeInfo o.x).addrMode r =
      some (cpu.opcodeInfo o.x, .exact) := by
  have hmem := opcodeInfo_mem cpu o.x
  obtain hnumber | ⟨hplain, hany⟩ := plain_of_same _ hmode
  · rw [found_near r hnumber]
    exact (found_table hmem).number (by simpa only [List.mem_cons, List.not_mem_nil, or_false] using hnumber) _
  · rw [found_any r hany]
    exact (found_table hmem).plain hplain

/-- The modes of the two tables. -/
theorem modes : ∀ info ∈ cpu.opcodeList, info.addrMode ∈
    (AddrMode.implied :: byteModes ++ wordModes) ++ [.accumulator, .relative, .relativeLong, .move,
      .indirectLong, .absIndLong, .absoluteLong, .absoluteLongX] := by
  cases cpu with
  | cpu6502 => decide +kernel
  | cpu65816 => decide +kernel

theorem size_implied (cpu : Cpu) : cpu.addrModeSize .implied = 1 := by
  cases cpu <;> rfl

theorem size_byteModes (cpu : Cpu) : ∀ mode ∈ byteModes, cpu.addrModeSize mode ≤ 2 := by
  cases cpu <;> decide

theorem size_wordModes (cpu : Cpu) : ∀ mode ∈ wordModes, cpu.addrModeSize mode ≤ 3 := by
  cases cpu <;> decide

theorem undone_same (hmode : (cpu.opcodeInfo o.x).addrMode ∈ AddrMode.implied :: byteModes ++ wordModes)
    (hwide : WideOperand (cpu.opcodeInfo o.x).addrMode o) : Undone cpu s o old := by
  have hfound := found_same hmode
  simp only [List.cons_append, List.mem_cons, List.mem_append] at hmode
  rcases hmode with himplied | hbyte | hword
  · have hreread : Reread cpu s o old { old with addrMode := .implied } (cpu.opcodeInfo o.x) .exact
        (cpu.opcodeInfo o.x).addrMode (Cpu.operandValue cpu old.param) :=
      ⟨by rw [himplied]; rfl, by simpa only [himplied] using hfound _, by rw [himplied]; rfl⟩
    have hsize := size_implied cpu
    rw [← himplied] at hsize
    exact hreread.undone (by omega) (by omega) (by omega)
  · have hvalue := operandValue_eq cpu (Nat.lt_trans (byte_lt o) (by decide))
    have hreread : Reread cpu s o old
        { old with addrMode := (cpu.opcodeInfo o.x).addrMode, param := o.byte } (cpu.opcodeInfo o.x)
        .exact (cpu.opcodeInfo o.x).addrMode o.byte :=
      ⟨grammar_byte hbyte, hfound _, by rw [hvalue]; rfl⟩
    have hsize := size_byteModes cpu _ hbyte
    exact hreread.undone (fun _ => ofNat_byte o) (by omega) (by omega)
  · have hvalue := operandValue_eq cpu (word_lt o)
    have hlow : 0x100 ≤ o.word := by
      simp only [wordModes, List.mem_cons, List.not_mem_nil, or_false] at hword
      rcases hword with h | h | h | h | h
      all_goals simpa only [WideOperand, h] using hwide
    have hreread : Reread cpu s o old
        { old with addrMode := (cpu.opcodeInfo o.x).addrMode, param := o.word } (cpu.opcodeInfo o.x)
        .exact (cpu.opcodeInfo o.x).addrMode o.word :=
      ⟨grammar_word hword hlow, hfound _, by rw [hvalue]; rfl⟩
    have hsize := size_wordModes cpu _ hword
    exact hreread.undone (fun _ => ofNat_word o) (fun _ => ofNat_word_div o) (by omega)

/-! ## Branches -/

theorem branchTarget_lt (bits length : Nat) (addr : UInt16) (distance : Nat) :
    branchTarget bits length addr distance < 0x10000 :=
  Nat.mod_lt _ (by decide)

/-- The distance with its sign in 16 bits. -/
theorem branchOffset_target8 (loc : UInt16) (o : Opc) : branchOffset (branchTarget 8 2 loc o.byte) loc =
      if o.byte < 2 ^ 7 then o.byte else o.byte + 0xff00 := by
  have hloc := loc.toNat_lt
  have hbyte := byte_lt o
  simp only [branchOffset, branchTarget]
  split
  · omega
  · omega

theorem branchOffset_target16 (loc : UInt16) (o : Opc) :
    branchOffset (branchTarget 16 3 loc o.word) loc = (o.word + 1) % 2 ^ 16 := by
  have hloc := loc.toNat_lt
  have hword := word_lt o
  simp only [branchOffset, branchTarget]
  split
  · omega
  · omega

/-- The grammar takes a target for a number. -/
theorem grammar_target (h : value < 0x10000) : ∃ mode ∈ [AddrMode.zeroPage, .absolute],
      asmOperandMode old (.number value) = { old with addrMode := mode, param := value } := by
  have hlong : ¬0x10000 ≤ value := by omega
  by_cases hsmall : value < 0x100
  · exact ⟨.zeroPage, by decide, by simp only [asmOperandMode, if_neg hlong, if_pos hsmall]⟩
  · exact ⟨.absolute, by decide, by simp only [asmOperandMode, if_neg hlong, if_neg hsmall]⟩

theorem undone_relative (hmode : (cpu.opcodeInfo o.x).addrMode = .relative) : Undone cpu s o old := by
  have hlt := branchTarget_lt 8 2 s.loc o.byte
  have hoffset := branchOffset_target8 s.loc o
  have hbyte := byte_lt o
  obtain ⟨mode, hin, hgrammar⟩ := @grammar_target old _ hlt
  have hnear : (reach (branchTarget 8 2 s.loc o.byte) s.loc).near = true := by
    simp only [reach, hoffset, Bool.or_eq_true, decide_eq_true_eq]
    split
    · omega
    · omega
  have hreread : Reread cpu s o old
      { old with addrMode := mode, param := branchTarget 8 2 s.loc o.byte } (cpu.opcodeInfo o.x)
      .relative (cpu.opcodeInfo o.x).addrMode o.byte := by
    refine ⟨by rw [hmode]; exact hgrammar, ?_, ?_⟩
    · simp only [operandValue_eq cpu hlt]
      rw [found_near _ (by simpa only [List.mem_cons, List.not_mem_nil, or_false] using hin), hnear]
      exact (found_table (opcodeInfo_mem cpu o.x)).relative hmode _ hin
    · simp only [operandValue_eq cpu hlt, Match.operand, hoffset, hmode, Option.some.injEq,
        Prod.mk.injEq, true_and]
      split
      · omega
      · omega
  have hsize : cpu.addrModeSize .relative = 2 := by cases cpu <;> rfl
  rw [← hmode] at hsize
  exact hreread.undone (fun _ => ofNat_byte o) (by omega) (by omega)

theorem near_iff_short (loc : UInt16) (o : Opc) :
    (reach (branchTarget 16 3 loc o.word) loc).near = true ↔ Short o := by
  simp only [reach, branchOffset_target16, Short, Bool.or_eq_true, decide_eq_true_eq]

theorem undone_relativeLong (hmode : (cpu.opcodeInfo o.x).addrMode = .relativeLong) :
    Undone cpu s o old ↔ ((cpu.opcodeInfo o.x).mnemonic = .bra → ¬Short o) := by
  have hlt := branchTarget_lt 16 3 s.loc o.word
  have hword := word_lt o
  have hshort := near_iff_short s.loc o
  obtain ⟨mode, hin, hgrammar⟩ := @grammar_target old _ hlt
  have hprint : asmOperandMode old (printOperand (cpu.opcodeInfo o.x).addrMode s.loc o) =
      { old with addrMode := mode, param := branchTarget 16 3 s.loc o.word } := by
    rw [hmode]
    exact hgrammar
  have hnumber : mode = .zeroPage ∨ mode = .absolute := by
    simpa only [List.mem_cons, List.not_mem_nil, or_false] using hin
  obtain ⟨hbra, hnear, hfound⟩ | ⟨hnot, hfound⟩ := (found_table (opcodeInfo_mem cpu o.x)).relativeLong hmode
    mode hin (reach (branchTarget 16 3 s.loc o.word) s.loc).near
  · -- BRA with 8 bits comes first in the table
    have hreread : Reread cpu s o old
        { old with addrMode := mode, param := branchTarget 16 3 s.loc o.word } ⟨.bra, .relative⟩
        .relative .relative (branchOffset (branchTarget 16 3 s.loc o.word) s.loc % 2 ^ 8) :=
      ⟨hprint, by simp only [operandValue_eq cpu hlt]; rw [found_near _ hnumber]; exact hfound,
        by simp only [operandValue_eq cpu hlt, Match.operand]⟩
    have hnotUndone := hreread.not_undone (by rw [hmode]; decide)
    exact ⟨fun h => absurd h hnotUndone, fun h => absurd (hshort.1 hnear) (h hbra)⟩
  · have hreread : Reread cpu s o old
        { old with addrMode := mode, param := branchTarget 16 3 s.loc o.word } (cpu.opcodeInfo o.x)
        .relativeLong (cpu.opcodeInfo o.x).addrMode o.word := by
      refine ⟨hprint, ?_, ?_⟩
      · simp only [operandValue_eq cpu hlt]
        rw [found_near _ hnumber]
        exact hfound
      · have hback : (branchTarget 16 3 s.loc o.word + 2 ^ 16 - s.loc.toNat + 2 ^ 16 - 3) % 2 ^ 16 =
            o.word := by
          have hloc := s.loc.toNat_lt
          simp only [branchTarget]
          split
          · omega
          · omega
        simp only [operandValue_eq cpu hlt, Match.operand, hmode, hback]
    have hsize : cpu.addrModeSize .relativeLong < 4 := by cases cpu <;> decide
    rw [← hmode] at hsize
    have hundone := hreread.undone (fun _ => ofNat_word o) (fun _ => ofNat_word_div o) (by omega)
    exact ⟨fun _ hbra hs => hnot ⟨hbra, hshort.2 hs⟩, fun _ => hundone⟩

/-! ## Operands that stand for another mode -/

theorem undone_move (hmode : (cpu.opcodeInfo o.x).addrMode = .move) : Undone cpu s o old := by
  have hbyte := byte_lt o
  have hvalue := operandValue_eq cpu (Nat.lt_trans hbyte (by decide))
  have hword : o.byte < 0x10000 := Nat.lt_trans hbyte (by decide)
  have hbank := o.p2.toNat_lt
  have hreread : Reread cpu s o old ⟨.double, o.p2, o.byte⟩ (cpu.opcodeInfo o.x) .move
      (cpu.opcodeInfo o.x).addrMode o.word := by
    refine ⟨?_, ?_, ?_⟩
    · simp only [hmode, printOperand, asmOperandMode, if_pos hbank, UInt8.ofNat_toNat]
    · simp only [hvalue, reach, decide_eq_true hbyte, decide_eq_true hword]
      exact (found_table (opcodeInfo_mem cpu o.x)).move hmode _
    · have hpair : o.p2.toNat * 2 ^ 8 + o.byte % 2 ^ 8 = o.word := by
        simp only [Opc.word, Opc.byte] at hbyte ⊢
        omega
      simp only [hvalue, Match.operand, hmode, hpair]
  have hsize : cpu.addrModeSize .move < 4 := by cases cpu <;> decide
  rw [← hmode] at hsize
  exact hreread.undone (fun _ => ofNat_word o) (fun _ => ofNat_word_div o) (by omega)

theorem undone_indirectLong (hmode : (cpu.opcodeInfo o.x).addrMode = .indirectLong) : Undone cpu s o old := by
  have hbyte := byte_lt o
  have hvalue := operandValue_eq cpu (Nat.lt_trans hbyte (by decide))
  have hword : o.byte < 0x10000 := Nat.lt_trans hbyte (by decide)
  have hreread : Reread cpu s o old ⟨.indexed, 0x9f, o.byte⟩ (cpu.opcodeInfo o.x) .indirectLong
      (cpu.opcodeInfo o.x).addrMode o.byte := by
    refine ⟨by rw [hmode]; rfl, ?_, by rw [hmode, hvalue]; rfl⟩
    simp only [hvalue, reach, decide_eq_true hbyte, decide_eq_true hword]
    exact (found_table (opcodeInfo_mem cpu o.x)).indirectLong hmode _
  have hsize : cpu.addrModeSize .indirectLong ≤ 2 := by cases cpu <;> decide
  rw [← hmode] at hsize
  exact hreread.undone (fun _ => ofNat_byte o) (by omega) (by omega)

theorem undone_absIndLong (hmode : (cpu.opcodeInfo o.x).addrMode = .absIndLong) : Undone cpu s o old := by
  have hword := word_lt o
  have hvalue := operandValue_eq cpu hword
  have hreread : Reread cpu s o old ⟨.indexed, 0x9f, o.word⟩ (cpu.opcodeInfo o.x) .absIndLong
      (cpu.opcodeInfo o.x).addrMode o.word := by
    refine ⟨by rw [hmode]; rfl, ?_, by rw [hmode, hvalue]; rfl⟩
    simp only [hvalue, reach, decide_eq_true hword]
    exact (found_table (opcodeInfo_mem cpu o.x)).absIndLong hmode _ _
  have hsize : cpu.addrModeSize .absIndLong < 4 := by cases cpu <;> decide
  rw [← hmode] at hsize
  exact hreread.undone (fun _ => ofNat_word o) (fun _ => ofNat_word_div o) (by omega)

theorem undone_accumulator (hmode : (cpu.opcodeInfo o.x).addrMode = .accumulator) : Undone cpu s o old ↔
      ((cpu.opcodeInfo o.x).mnemonic = .inc ∨ (cpu.opcodeInfo o.x).mnemonic = .dec) := by
  have hfound := (found_table (opcodeInfo_mem cpu o.x)).accumulator hmode
  have hprint : asmOperandMode old (printOperand (cpu.opcodeInfo o.x).addrMode s.loc o) =
      { old with addrMode := .accumulator } := by
    rw [hmode]
    rfl
  have hany : AddrMode.accumulator ≠ .zeroPage ∧ AddrMode.accumulator ≠ .absolute ∧
      AddrMode.accumulator ≠ .double ∧ AddrMode.accumulator ≠ .indexed := by
    decide
  by_cases hinc : (cpu.opcodeInfo o.x).mnemonic = .inc ∨ (cpu.opcodeInfo o.x).mnemonic = .dec
  · rw [if_pos hinc] at hfound
    have hreread : Reread cpu s o old { old with addrMode := .accumulator } (cpu.opcodeInfo o.x) .exact
        (cpu.opcodeInfo o.x).addrMode (Cpu.operandValue cpu old.param) :=
      ⟨hprint, by rw [found_any _ hany]; exact hfound, by rw [hmode]; rfl⟩
    have hsize : cpu.addrModeSize .accumulator = 1 := by cases cpu <;> rfl
    rw [← hmode] at hsize
    exact ⟨fun _ => hinc, fun _ => hreread.undone (by omega) (by omega) (by omega)⟩
  · rw [if_neg hinc] at hfound
    have hreread : Reread cpu s o old { old with addrMode := .accumulator }
        ⟨(cpu.opcodeInfo o.x).mnemonic, .zeroPage⟩ .registerZeroPage .zeroPage 0x0a :=
      ⟨hprint, by rw [found_any _ hany]; exact hfound, rfl⟩
    have hnotUndone := hreread.not_undone
      (by simp only [hmode, ne_eq, reduceCtorEq, not_false_eq_true])
    exact ⟨fun h => absurd h hnotUndone, fun h => absurd h hinc⟩

/-! ## Addresses of 24 bits -/

theorem long_eq (o : Opc) : o.long = o.word + o.p3.toNat * 2 ^ 16 := rfl

theorem long_lt (o : Opc) : o.long < 2 ^ 32 := by
  have hword := word_lt o
  have hbank := o.p3.toNat_lt
  rw [long_eq]
  omega

theorem ofNat_long (o : Opc) : UInt8.ofNat o.long = o.p1 := by
  have hlow := o.p1.toNat_lt
  refine UInt8.toNat_inj.1 ?_
  rw [UInt8.toNat_ofNat', Opc.long]
  omega

theorem ofNat_long_div (o : Opc) : UInt8.ofNat (o.long / 2 ^ 8) = o.p2 := by
  have hlow := o.p1.toNat_lt
  have hhigh := o.p2.toNat_lt
  refine UInt8.toNat_inj.1 ?_
  rw [UInt8.toNat_ofNat', Opc.long]
  omega

theorem bank_zero (h : o.p3 = 0) : o.long = o.word := by
  simp [long_eq, h]

theorem bank_pos (h : o.p3 ≠ 0) : 0x10000 ≤ o.long := by
  have hne : o.p3.toNat ≠ 0 := fun heq => h (UInt8.toNat_inj.1 heq)
  rw [long_eq]
  omega

theorem bank_of_long (h : o'.long = o.long) : o'.p3 = o.p3 := by
  have hword := word_lt o
  have hword' := word_lt o'
  rw [long_eq, long_eq] at h
  exact UInt8.toNat_inj.1 (by omega)

/-- Where the bank is 0 the instruction with 16 bits is found. -/
theorem reread_bank_zero (hmode : (cpu.opcodeInfo o.x).addrMode ∈ [.absoluteLong, .absoluteLongX])
    (hbank : o.p3 = 0) (hlow : 0x100 ≤ o.long) :
    ∃ g mode, mode ≠ (cpu.opcodeInfo o.x).addrMode ∧
      Reread cpu s o old g ⟨(cpu.opcodeInfo o.x).mnemonic, mode⟩ .exact mode o.word := by
  have hmem := opcodeInfo_mem cpu o.x
  have hword := word_lt o
  have hvalue := operandValue_eq cpu hword
  have hlong := bank_zero hbank
  have hnotLong : ¬0x10000 ≤ o.word := by omega
  have hnotZero : ¬o.word < 0x100 := by omega
  simp only [List.mem_cons, List.not_mem_nil, or_false] at hmode
  rcases hmode with h | h
  · refine ⟨{ old with addrMode := .absolute, param := o.word }, .absolute, ?_, ?_, ?_, ?_⟩
    · rw [h]
      decide
    · simp only [h, printOperand, asmOperandMode, hlong, if_neg hnotLong, if_neg hnotZero]
    · simp only [hvalue]
      rw [found_near _ (Or.inr rfl)]
      exact (found_table hmem).long h _
    · rw [hvalue]
      rfl
  · refine ⟨{ old with addrMode := .absoluteX, param := o.word }, .absoluteX, ?_, ?_, ?_, ?_⟩
    · rw [h]
      decide
    · simp only [h, printOperand, asmOperandMode, hlong, if_neg hnotLong, if_neg hnotZero]
    · have hany : AddrMode.absoluteX ≠ .zeroPage ∧ AddrMode.absoluteX ≠ .absolute ∧
          AddrMode.absoluteX ≠ .double ∧ AddrMode.absoluteX ≠ .indexed := by
        decide
      rw [found_any _ hany]
      exact (found_table hmem).longX h
    · rw [hvalue]
      rfl

/-- Where there is a bank the opcode is found, with the bank that the parser's value had before. -/
theorem reread_bank_pos (hmode : (cpu.opcodeInfo o.x).addrMode ∈ [.absoluteLong, .absoluteLongX])
    (hbank : o.p3 ≠ 0) :
    Reread cpu s o old { old with addrMode := (cpu.opcodeInfo o.x).addrMode, param := o.long }
      (cpu.opcodeInfo o.x) .exact (cpu.opcodeInfo o.x).addrMode o.long := by
  have hmem := opcodeInfo_mem cpu o.x
  have hlong := bank_pos hbank
  have hsize := size_ne_zero _ hmem
  have hany : ∀ mode ∈ [AddrMode.absoluteLong, .absoluteLongX], mode ∈ plainModes ∧
      mode ≠ .zeroPage ∧ mode ≠ .absolute ∧ mode ≠ .double ∧ mode ≠ .indexed := by
    decide
  have hvalue : Cpu.operandValue cpu o.long = o.long := by
    cases cpu with
    | cpu6502 =>
      simp only [List.mem_cons, List.not_mem_nil, or_false] at hmode
      rcases hmode with h | h
      all_goals exact absurd (by rw [h]; rfl) hsize
    | cpu65816 => exact Nat.mod_eq_of_lt (long_lt o)
  refine ⟨?_, ?_, by rw [hvalue]; rfl⟩
  · simp only [List.mem_cons, List.not_mem_nil, or_false] at hmode
    rcases hmode with h | h
    all_goals simp only [h, printOperand, asmOperandMode, if_pos hlong]
  · rw [found_any _ (hany _ hmode).2]
    exact (found_table hmem).plain (hany _ hmode).1

theorem undone_long (hmode : (cpu.opcodeInfo o.x).addrMode ∈ [.absoluteLong, .absoluteLongX])
    (hlow : 0x100 ≤ o.long) : Undone cpu s o old ↔ o.p3 ≠ 0 ∧ old.addrSubmode = o.p3 := by
  by_cases hbank : o.p3 = 0
  · obtain ⟨g, mode, hne, hreread⟩ := @reread_bank_zero cpu o s old hmode hbank hlow
    exact ⟨fun h => absurd h (hreread.not_undone hne), fun h => absurd hbank h.1⟩
  · have hreread := @reread_bank_pos cpu o s old hmode hbank
    have hlong : ∀ {o₁ o₂ : Opc}, printOperand (cpu.opcodeInfo o.x).addrMode s.loc o₁ =
        printOperand (cpu.opcodeInfo o.x).addrMode s.loc o₂ → o₁.long = o₂.long := by
      intro o₁ o₂ heq
      simp only [List.mem_cons, List.not_mem_nil, or_false] at hmode
      rcases hmode with h | h
      · simpa only [h, printOperand, Operand.number.injEq] using heq
      · simpa only [h, printOperand, Operand.numberX.injEq] using heq
    have hsize : 4 ≤ cpu.addrModeSize (cpu.opcodeInfo o.x).addrMode := by
      have hne := size_ne_zero _ (opcodeInfo_mem cpu o.x)
      rw [← addrModeSize_eq cpu hne]
      simp only [List.mem_cons, List.not_mem_nil, or_false] at hmode
      rcases hmode with h | h
      all_goals rw [h]; decide
    refine ⟨fun hundone => ⟨hbank, ?_⟩, fun h => hreread.undone (fun _ => ofNat_long o)
      (fun _ => ofNat_long_div o) (fun _ => h.2)⟩
    obtain ⟨s', hsome, hsame, -⟩ := hundone
    obtain ⟨s'', hsome', -, hwritten⟩ := hreread.assemble
    rw [hsome] at hsome'
    obtain rfl := Option.some.inj hsome'
    have hprinted := congrArg Disassembled.operand hsame
    simp only [disassemble, hwritten.opcode] at hprinted
    exact (hwritten.bank hsize).symm.trans (bank_of_long (hlong hprinted))

/-! ## All instructions -/

theorem wide_long (hmode : mode ∈ [.absoluteLong, .absoluteLongX]) (hwide : WideOperand mode o) :
    0x100 ≤ o.long := by
  simp only [List.mem_cons, List.not_mem_nil, or_false] at hmode
  rcases hmode with rfl | rfl
  · exact hwide
  · exact hwide

/-- The modes that are undone whatever the operand is. -/
theorem undoable_other (hacc : (cpu.opcodeInfo o.x).addrMode ≠ .accumulator)
    (hlong : (cpu.opcodeInfo o.x).addrMode ∉ [.absoluteLong, .absoluteLongX])
    (hrel : (cpu.opcodeInfo o.x).addrMode ≠ .relativeLong) : Undoable cpu o old :=
  ⟨fun h => absurd h hacc, fun h => absurd h hlong, fun h => absurd h hrel⟩

theorem same_other : ∀ mode ∈ AddrMode.implied :: byteModes ++ wordModes,
    mode ≠ .accumulator ∧ mode ∉ [AddrMode.absoluteLong, .absoluteLongX] ∧
      mode ≠ .relativeLong := by
  decide

theorem assemble_disassemble (cpu : Cpu) (s : AsmState) (o : Opc) (old : AsmModeAddrInfo)
    (hwide : WideOperand (cpu.opcodeInfo o.x).addrMode o) :
    Undone cpu s o old ↔ Undoable cpu o old := by
  have hmode := modes _ (opcodeInfo_mem cpu o.x)
  rw [List.mem_append] at hmode
  rcases hmode with hsame | hmode
  · obtain ⟨hacc, hlong, hrel⟩ := same_other _ hsame
    exact iff_of_true (undone_same hsame hwide) (undoable_other hacc hlong hrel)
  simp only [List.mem_cons, List.not_mem_nil, or_false] at hmode
  -- a mode that is undone without a condition meets all of them
  have hother : ∀ {mode}, (cpu.opcodeInfo o.x).addrMode = mode → mode ≠ .accumulator →
      mode ∉ [AddrMode.absoluteLong, .absoluteLongX] → mode ≠ .relativeLong →
      Undoable cpu o old := by
    rintro mode rfl hacc hlong hrel
    exact undoable_other hacc hlong hrel
  rcases hmode with h | h | h | h | h | h | hlong
  · rw [undone_accumulator h]
    refine ⟨fun hinc => ⟨fun _ => hinc, ?_, ?_⟩, fun hu => hu.accumulator h⟩
    · rw [h]
      exact fun hmem => absurd hmem (by decide)
    · rw [h]
      exact fun heq => absurd heq (by decide)
  · exact iff_of_true (undone_relative h) (hother h (by decide) (by decide) (by decide))
  · rw [undone_relativeLong h]
    refine ⟨fun hshort => ⟨?_, ?_, fun _ => hshort⟩, fun hu => hu.short h⟩
    · rw [h]
      exact fun heq => absurd heq (by decide)
    · rw [h]
      exact fun hmem => absurd hmem (by decide)
  · exact iff_of_true (undone_move h) (hother h (by decide) (by decide) (by decide))
  · exact iff_of_true (undone_indirectLong h) (hother h (by decide) (by decide) (by decide))
  · exact iff_of_true (undone_absIndLong h) (hother h (by decide) (by decide) (by decide))
  · have hmem : (cpu.opcodeInfo o.x).addrMode ∈ [.absoluteLong, .absoluteLongX] := by
      simpa only [List.mem_cons, List.not_mem_nil, or_false] using hlong
    rw [undone_long hmem (wide_long hmem hwide)]
    refine ⟨fun hbank => ⟨?_, fun _ => hbank, ?_⟩, fun hu => hu.long hmem⟩
    · rcases hlong with h | h
      all_goals rw [h]; exact fun heq => absurd heq (by decide)
    · rcases hlong with h | h
      all_goals rw [h]; exact fun heq => absurd heq (by decide)

/-! ## Instructions that are not undone -/

/-- What is printed after what is printed has been assembled. -/
def reprinted (cpu : Cpu) (s : AsmState) (o : Opc) (old : AsmModeAddrInfo) : Option Disassembled :=
  let d := disassemble cpu s.loc o
  (monAssembleInstr cpu s d.mnemonic (asmOperandMode old d.operand)).map fun s' =>
    disassemble cpu s.loc (s'.mem.opc s.loc)

theorem Undone.reprinted (h : Undone cpu s o old) : reprinted cpu s o old = some (disassemble cpu s.loc o) := by
  obtain ⟨s', hsome, hsame, -⟩ := h
  simp only [Assembler.reprinted, hsome, Option.map_some, hsame]

def zeroMem : AsmState := ⟨fun _ => 0, 0x1000⟩

def oldOperand : AsmModeAddrInfo := ⟨.implied, 0, 0⟩

/-- `LDA $1234` at $1000. -/
theorem assemble_disassemble_lda : Undone .cpu6502 zeroMem ⟨0xad, 0x34, 0x12, 0⟩ oldOperand :=
  have hwide : 0x100 ≤ (⟨0xad, 0x34, 0x12, 0⟩ : Opc).word := by decide
  (assemble_disassemble .cpu6502 zeroMem ⟨0xad, 0x34, 0x12, 0⟩ oldOperand hwide).2
    ⟨by decide, by decide, fun h => absurd h (by decide)⟩

/-- `ASL A` becomes `ASL $0A`, `LDA $023456` becomes `LDA $003456` and `BRA $1003` over 16 bits a
branch over 8 bits. -/
theorem assemble_not_undone : ¬Undone .cpu6502 zeroMem ⟨0x0a, 0, 0, 0⟩ oldOperand ∧
      ¬Undone .cpu65816 zeroMem ⟨0xaf, 0x56, 0x34, 0x02⟩ oldOperand ∧
      ¬Undone .cpu65816 zeroMem ⟨0x82, 0, 0, 0⟩ oldOperand := by
  have hasl : reprinted .cpu6502 zeroMem ⟨0x0a, 0, 0, 0⟩ oldOperand ≠
      some (disassemble .cpu6502 zeroMem.loc ⟨0x0a, 0, 0, 0⟩) := by
    decide +kernel
  have hlda : reprinted .cpu65816 zeroMem ⟨0xaf, 0x56, 0x34, 0x02⟩ oldOperand ≠
      some (disassemble .cpu65816 zeroMem.loc ⟨0xaf, 0x56, 0x34, 0x02⟩) := by
    decide +kernel
  have hbra : reprinted .cpu65816 zeroMem ⟨0x82, 0, 0, 0⟩ oldOperand ≠
      some (disassemble .cpu65816 zeroMem.loc ⟨0x82, 0, 0, 0⟩) := by
    decide +kernel
  exact ⟨fun h => hasl h.reprinted, fun h => hlda h.reprinted, fun h => hbra h.reprinted⟩

end Vice.L5.Assembler
