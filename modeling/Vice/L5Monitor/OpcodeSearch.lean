import Vice.L5Monitor.Assembler
import Mathlib.Tactic.IntervalCases

/-!
# The search for an opcode

The search sees only the mnemonic, the mode and what it asks of the value (`Reach`), so that what it
finds is a finite fact about the two tables (`found`), one for each kind of mode.
-/
namespace Vice.L5.Assembler
open Vice.L5.Opcodes

variable {cpu : Cpu} {info : OpcodeInfo} {mode : AddrMode} {r r' : Reach}

/-- The entry that the search finds for the mnemonic of another, and why. -/
def found (cpu : Cpu) (info : OpcodeInfo) (mode : AddrMode) (r : Reach) :
    Option (OpcodeInfo × Match) :=
  (search cpu info.mnemonic mode r 0 cpu.opcodeList).bind fun x =>
    cpu.opcodeList[x.1]?.map (·, x.2)

theorem search_congr (h : ∀ opMode, Cpu.matchMode cpu opMode mode r = Cpu.matchMode cpu opMode mode r')
    (mnemonic : Mnemonic) (i : Nat) (rest : List OpcodeInfo) :
    search cpu mnemonic mode r i rest = search cpu mnemonic mode r' i rest := by
  induction rest generalizing i with
  | nil => rfl
  | cons opinfo rest ih => simp only [search, h, ih]

/-- A mode that asks nothing of the value. -/
theorem found_any (r : Reach) (hmode : mode ≠ .zeroPage ∧ mode ≠ .absolute ∧ mode ≠ .double ∧ mode ≠ .indexed) :
    found cpu info mode r = found cpu info mode ⟨true, true, true⟩ := by
  obtain ⟨hzero, habs, hdouble, hindexed⟩ := hmode
  have hcongr : ∀ opMode,
      Cpu.matchMode cpu opMode mode r = Cpu.matchMode cpu opMode mode ⟨true, true, true⟩ := by
    intro opMode
    cases cpu with
    | cpu6502 => simp only [Cpu.matchMode, match6502, hzero, habs, false_and, or_self, if_false]
    | cpu65816 =>
      simp only [Cpu.matchMode, match65816, hzero, habs, hdouble, hindexed, false_and, and_false,
        or_self, if_false]
  rw [found, found, search_congr hcongr]

/-- Of a number it is only asked whether a branch reaches it. -/
theorem found_near (r : Reach) (hmode : mode = .zeroPage ∨ mode = .absolute) :
    found cpu info mode r = found cpu info mode ⟨r.near, true, true⟩ := by
  have hcongr : ∀ opMode,
      Cpu.matchMode cpu opMode mode r = Cpu.matchMode cpu opMode mode ⟨r.near, true, true⟩ := by
    intro opMode
    cases cpu with
    | cpu6502 => rfl
    | cpu65816 =>
      obtain rfl | rfl := hmode
      · simp only [Cpu.matchMode, match65816, reduceCtorEq, false_and, and_false, if_false]
      · simp only [Cpu.matchMode, match65816, reduceCtorEq, false_and, and_false, if_false]
  rw [found, found, search_congr hcongr]

/-- The modes that the grammar reads as they are printed and that ask nothing of the value. -/
def plainModes : List AddrMode :=
  [.implied, .immediate, .zeroPageX, .zeroPageY, .absoluteX, .absoluteY, .absIndirect,
    .absIndirectX, .indirect, .indirectX, .indirectY, .stackRelative, .stackRelativeY,
    .indirectLongY, .absoluteLong, .absoluteLongX]

/-- The opcodes of a mnemonic, in the order of the table. -/
def entries (cpu : Cpu) (mnemonic : Mnemonic) : List OpcodeInfo :=
  cpu.opcodeList.filter fun info => Nat.beq info.mnemonic.ctorIdx mnemonic.ctorIdx

/-- The first of a few opcodes that takes the mode. -/
def firstMatch (cpu : Cpu) (list : List OpcodeInfo) (mode : AddrMode) (r : Reach) :
    Option (OpcodeInfo × Match) :=
  list.findSome? fun info => (Cpu.matchMode cpu info.addrMode mode r).map (info, ·)

theorem beq_ctorIdx (a b : Mnemonic) : Nat.beq a.ctorIdx b.ctorIdx = decide (a = b) := by
  have hiff : a.ctorIdx = b.ctorIdx ↔ a = b :=
    ⟨fun h => by rw [← Mnemonic.ofNat_ctorIdx a, h, Mnemonic.ofNat_ctorIdx], fun h => by rw [h]⟩
  rw [Bool.eq_iff_iff, Nat.beq_eq, decide_eq_true_iff, hiff]

theorem search_entries (mnemonic : Mnemonic) (pre rest : List OpcodeInfo) :
    (search cpu mnemonic mode r pre.length rest).bind
        (fun x => (pre ++ rest)[x.1]?.map (·, x.2)) =
      firstMatch cpu
        (rest.filter fun info => Nat.beq info.mnemonic.ctorIdx mnemonic.ctorIdx) mode r := by
  induction rest generalizing pre with
  | nil => rfl
  | cons opinfo rest ih =>
    have hnext := ih (pre ++ [opinfo])
    rw [List.length_append, List.length_singleton, List.append_assoc] at hnext
    rw [search, List.filter_cons, beq_ctorIdx]
    by_cases hmnemonic : opinfo.mnemonic = mnemonic
    · simp only [hmnemonic, if_true, decide_true, firstMatch, List.findSome?_cons]
      cases hmatch : Cpu.matchMode cpu opinfo.addrMode mode r with
      | some m => simp
      | none => simpa [firstMatch] using hnext
    · simpa [hmnemonic] using hnext

/-- The search goes through the opcodes of its mnemonic alone. -/
theorem found_entries (cpu : Cpu) (info : OpcodeInfo) :
    found cpu info = firstMatch cpu (entries cpu info.mnemonic) := by
  funext mode r
  exact search_entries info.mnemonic [] cpu.opcodeList

/-- What the search is to find for an opcode, from each operand it is printed with. -/
@[mk_iff] structure Finds (info : OpcodeInfo)
    (found : AddrMode → Reach → Option (OpcodeInfo × Match)) : Prop where
  plain : info.addrMode ∈ plainModes → found info.addrMode ⟨true, true, true⟩ = some (info, .exact)
  number : info.addrMode ∈ [.zeroPage, .absolute] →
    ∀ near, found info.addrMode ⟨near, true, true⟩ = some (info, .exact)
  relative : info.addrMode = .relative → ∀ mode ∈ [AddrMode.zeroPage, .absolute],
    found mode ⟨true, true, true⟩ = some (info, .relative)
  /-- A distance of 16 bits; where the mnemonic has a branch with 8 bits too that is taken first. -/
  relativeLong : info.addrMode = .relativeLong → ∀ mode ∈ [AddrMode.zeroPage, .absolute], ∀ near,
    (info.mnemonic = .bra ∧ near = true ∧
      found mode ⟨near, true, true⟩ = some (⟨.bra, .relative⟩, .relative)) ∨
    ¬(info.mnemonic = .bra ∧ near = true) ∧
      found mode ⟨near, true, true⟩ = some (info, .relativeLong)
  move : info.addrMode = .move → ∀ near, found .double ⟨near, true, true⟩ = some (info, .move)
  indirectLong : info.addrMode = .indirectLong →
    ∀ near, found .indexed ⟨near, true, true⟩ = some (info, .indirectLong)
  absIndLong : info.addrMode = .absIndLong →
    ∀ near byte, found .indexed ⟨near, byte, true⟩ = some (info, .absIndLong)
  /-- The zero page is searched before the accumulator, and has an opcode with most mnemonics that
  have one with the accumulator before it. -/
  accumulator : info.addrMode = .accumulator → found .accumulator ⟨true, true, true⟩ =
    if info.mnemonic = .inc ∨ info.mnemonic = .dec then some (info, .exact)
    else some (⟨info.mnemonic, .zeroPage⟩, .registerZeroPage)
  /-- An address of 24 bits that fits into 16 finds the opcode with 16 bits. -/
  long : info.addrMode = .absoluteLong → ∀ near,
    found .absolute ⟨near, true, true⟩ = some (⟨info.mnemonic, .absolute⟩, .exact)
  longX : info.addrMode = .absoluteLongX →
    found .absoluteX ⟨true, true, true⟩ = some (⟨info.mnemonic, .absoluteX⟩, .exact)

set_option synthInstance.maxSize 512 in
instance (info : OpcodeInfo) (found) : Decidable (Finds info found) :=
  decidable_of_iff _ (finds_iff info found).symm

/-- The opcodes of eleven mnemonics, so that no mnemonic is looked for in the whole table. -/
def group (cpu : Cpu) (j : Nat) : List OpcodeInfo :=
  cpu.opcodeList.filter fun info => Nat.beq (info.mnemonic.ctorIdx / 11) j

theorem entries_group (mnemonic : Mnemonic) : (group cpu (mnemonic.ctorIdx / 11)).filter
        (fun info => Nat.beq info.mnemonic.ctorIdx mnemonic.ctorIdx) = entries cpu mnemonic := by
  rw [group, List.filter_filter, entries]
  refine List.filter_congr fun info _ => ?_
  rw [Bool.and_eq_left_iff_imp, Nat.beq_eq, Nat.beq_eq]
  intro h
  rw [h]

theorem group_finds (cpu : Cpu) : ∀ j < 11, ∀ k < 11,
    ∀ info ∈ (group cpu j).filter fun info => Nat.beq info.mnemonic.ctorIdx (11 * j + k),
      Finds info (firstMatch cpu
        ((group cpu j).filter fun info => Nat.beq info.mnemonic.ctorIdx (11 * j + k))) := by
  intro j hj
  -- one run for each group, which bounds what the kernel keeps at a time
  interval_cases j <;> cases cpu <;> decide +kernel

/-- What the search finds in the two tables. -/
theorem found_table (hmem : info ∈ cpu.opcodeList) : Finds info (found cpu info) := by
  have hindex : info.mnemonic.ctorIdx < 111 := by
    cases info.mnemonic <;> decide
  have hfinds := group_finds cpu (info.mnemonic.ctorIdx / 11) (by omega)
    (info.mnemonic.ctorIdx % 11) (by omega) info
  rw [Nat.div_add_mod, entries_group, ← found_entries] at hfinds
  exact hfinds (List.mem_filter.mpr ⟨hmem, by rw [beq_ctorIdx, decide_eq_true rfl]⟩)

end Vice.L5.Assembler
