import Vice.L4Machine.TapBlock

/-!
# Bytes as they are recorded

A byte on the tape is its two marker pulses, eight cells of two pulses and a parity cell. A cell
that is neither short-middle nor middle-short is damaged; the long pulses stay out of the cells.

Results:
* `read_eq_some_iff`: a frame is read as a byte exactly when its cells are the byte's bits, the
  least significant first, and the bit that makes the number of ones odd.
* `readByte_of_read`, `readByte_of_inStep`, `readByte_of_lost`: what reading a frame returns and
  where it leaves the tape; a damaged data cell leaves it in the middle of the frame.
-/
namespace Vice.L4.TapRecording
open Vice.L4.TapBlock

variable {r : PulseRanges} {p q : Nat} {tape ps : List Nat} {cells : List (Nat × Nat)}

/-! ## The three kinds of pulses -/

theorem short_iff : r.short p = true ↔ r.shortMin ≤ p ∧ p ≤ r.shortMax := by
  rw [PulseRanges.short, Bool.and_eq_true, decide_eq_true_eq, decide_eq_true_eq]

theorem middle_iff : r.middle p = true ↔ r.middleMin ≤ p ∧ p ≤ r.middleMax := by
  rw [PulseRanges.middle, Bool.and_eq_true, decide_eq_true_eq, decide_eq_true_eq]

theorem long_iff : r.long p = true ↔ r.longMin ≤ p ∧ p ≤ r.longMax := by
  rw [PulseRanges.long, Bool.and_eq_true, decide_eq_true_eq, decide_eq_true_eq]

theorem middle_of_short (h : r.short p = true) : r.middle p = false := by
  rw [← Bool.not_eq_true, middle_iff]
  rw [short_iff] at h
  have hr := r.short_lt_middle
  omega

theorem long_of_short (h : r.short p = true) : r.long p = false := by
  rw [← Bool.not_eq_true, long_iff]
  rw [short_iff] at h
  have hsm := r.short_lt_middle
  have hm := r.middle_le
  have hml := r.middle_lt_long
  omega

theorem long_of_middle (h : r.middle p = true) : r.long p = false := by
  rw [← Bool.not_eq_true, long_iff]
  rw [middle_iff] at h
  have hml := r.middle_lt_long
  omega

theorem short_of_middle (h : r.middle p = true) : r.short p = false := by
  cases hs : r.short p with
  | false => rfl
  | true =>
    rw [middle_of_short hs] at h
    cases h

theorem short_of_long (h : r.long p = true) : r.short p = false := by
  cases hs : r.short p with
  | false => rfl
  | true =>
    rw [long_of_short hs] at h
    cases h

/-! ## Cells -/

/-- The bit that a cell stands for. -/
def cellBit (r : PulseRanges) (c : Nat × Nat) : Option Bool :=
  if r.short c.1 && r.middle c.2 then some false
  else if r.middle c.1 && r.short c.2 then some true
  else none

/-- No long pulse is in the cell. -/
def NoMark (r : PulseRanges) (c : Nat × Nat) : Prop := r.long c.1 = false ∧ r.long c.2 = false

def cellPulses (cells : List (Nat × Nat)) : List Nat := cells.flatMap fun c => [c.1, c.2]

theorem readBit_cell {c : Nat × Nat} (h : NoMark r c) (tape : List Nat) : readBit r (c.1 :: c.2 :: tape) =
      (match cellBit r c with
        | some b => .bit b
        | none => .error, tape) := by
  simp only [readBit, cellBit, h.1, h.2, Bool.or_false]
  split
  · rfl
  · split <;> rfl

/-- `read >>= 1`, then `read |= 0x80` for a one -/
def shiftIn (read : UInt8) (b : Bool) : UInt8 := read >>> 1 ||| if b then 0x80 else 0

theorem readBits_cells {bits : List Bool} (hcells : cells.map (cellBit r) = bits.map some)
    (hmark : ∀ c ∈ cells, NoMark r c) (read : UInt8) (parity : Bool) (tape : List Nat) :
    readBits r bits.length read parity (cellPulses cells ++ tape) =
      (.ok (bits.foldl shiftIn read, bits.foldl Bool.xor parity), tape) := by
  induction cells generalizing bits read parity with
  | nil =>
    cases bits with
    | nil => rfl
    | cons b bits => cases hcells
  | cons c cells ih =>
    cases bits with
    | nil => cases hcells
    | cons b bits =>
      rw [List.map_cons, List.map_cons, List.cons.injEq] at hcells
      rw [cellPulses, List.flatMap_cons, List.append_assoc, List.length_cons, readBits]
      simp only [List.cons_append, List.nil_append]
      rw [readBit_cell (hmark c List.mem_cons_self), hcells.1]
      exact ih hcells.2 (fun d hd => hmark d (List.mem_cons_of_mem c hd)) _ _

/-- The loop stops behind the first damaged cell. -/
theorem readBits_damaged {n : Nat} (hlen : cells.length = n)
    (hmark : ∀ c ∈ cells, NoMark r c) (hbad : ∃ c ∈ cells, cellBit r c = none) (read : UInt8)
    (parity : Bool) (tape : List Nat) :
    ∃ more, (∀ c ∈ more, NoMark r c) ∧
      readBits r n read parity (cellPulses cells ++ tape) =
        (.error .error, cellPulses more ++ tape) := by
  induction cells generalizing n read parity with
  | nil =>
    obtain ⟨c, hc, -⟩ := hbad
    cases hc
  | cons c cells ih =>
    obtain ⟨k, rfl⟩ : ∃ k, n = k + 1 := ⟨cells.length, hlen.symm⟩
    have hrest : ∀ d ∈ cells, NoMark r d := fun d hd => hmark d (List.mem_cons_of_mem c hd)
    have hstep : readBits r (k + 1) read parity (cellPulses (c :: cells) ++ tape) =
        match cellBit r c with
        | some b => readBits r k (shiftIn read b) (parity ^^ b) (cellPulses cells ++ tape)
        | none => (.error .error, cellPulses cells ++ tape) := by
      rw [cellPulses, List.flatMap_cons, List.append_assoc, readBits]
      simp only [List.cons_append, List.nil_append]
      rw [readBit_cell (hmark c List.mem_cons_self)]
      cases cellBit r c <;> rfl
    rw [hstep]
    cases hbit : cellBit r c with
    | none => exact ⟨cells, hrest, rfl⟩
    | some b =>
      refine ih (Nat.succ.inj hlen) hrest ?_ _ _
      obtain ⟨d, hd, hnone⟩ := hbad
      rcases List.mem_cons.1 hd with rfl | hd
      · rw [hbit] at hnone
        cases hnone
      · exact ⟨d, hd, hnone⟩

/-! ## Frames -/

/-- What stands on the tape for one byte. -/
structure Frame (r : PulseRanges) where
  mark : Nat
  second : Nat
  cells : List (Nat × Nat)
  parity : Nat × Nat
  mark_long : r.long mark = true
  second_middle : r.middle second = true
  length_cells : cells.length = 8
  noMark : ∀ c ∈ cells, NoMark r c
  parity_noMark : NoMark r parity

def Frame.pulses (f : Frame r) : List Nat :=
  f.mark :: f.second :: (cellPulses f.cells ++ [f.parity.1, f.parity.2])

/-- The bits of a byte, the least significant first. -/
def bitsOf (b : UInt8) : List Bool := (List.range 8).map b.toNat.testBit

def ofBits (bits : List Bool) : UInt8 := bits.foldl shiftIn 0

/-- With this bit the number of ones is odd. -/
def oddParity (bits : List Bool) : Bool := bits.foldl Bool.xor true

/-- No data cell is damaged. -/
def Frame.inStep (f : Frame r) : Bool := f.cells.all fun c => (cellBit r c).isSome

def Frame.bits (f : Frame r) : List Bool := f.cells.map fun c => (cellBit r c).getD false

/-- The byte of a frame that is in order. -/
def Frame.read (f : Frame r) : Option UInt8 :=
  if f.inStep ∧ cellBit r f.parity = some (oddParity f.bits) then some (ofBits f.bits) else none

theorem Frame.map_cellBit {f : Frame r} (h : f.inStep = true) : f.cells.map (cellBit r) = f.bits.map some := by
  rw [Frame.bits, List.map_map]
  refine List.map_congr_left fun c hc => ?_
  obtain ⟨b, hb⟩ := Option.isSome_iff_exists.1 (List.all_eq_true.1 h c hc)
  rw [Function.comp_apply, hb]
  rfl

theorem Frame.length_bits (f : Frame r) : f.bits.length = 8 := by
  rw [Frame.bits, List.length_map, f.length_cells]

theorem bitsOf_ofBits {bits : List Bool} (h : bits.length = 8) : bitsOf (ofBits bits) = bits := by
  match bits, h with
  | [a, b, c, d, e, f, g, i], _ => revert c d e f g i; cases a <;> cases b <;> decide +kernel

theorem ofBits_bitsOf (b : UInt8) : ofBits (bitsOf b) = b := by
  refine UInt8.toNat_inj.1 (Nat.eq_of_testBit_eq fun i => ?_)
  by_cases hi : i < 8
  · have hlen : (bitsOf b).length = 8 := by simp [bitsOf]
    have hbits := bitsOf_ofBits hlen
    exact List.map_inj_left.1 hbits i (List.mem_range.2 hi)
  · have hhigh : ∀ x : UInt8, x.toNat.testBit i = false := fun x =>
      Nat.testBit_lt_two_pow (Nat.lt_of_lt_of_le x.toNat_lt (Nat.pow_le_pow_right (by decide) (by omega)))
    rw [hhigh, hhigh]

theorem read_eq_some_iff (f : Frame r) (b : UInt8) : f.read = some b ↔
    f.cells.map (cellBit r) = (bitsOf b).map some ∧
      cellBit r f.parity = some (oddParity (bitsOf b)) := by
  constructor
  · intro h
    rw [Frame.read] at h
    split at h
    · rename_i hin
      rw [← Option.some.inj h, bitsOf_ofBits f.length_bits]
      exact ⟨Frame.map_cellBit hin.1, hin.2⟩
    · cases h
  · rintro ⟨hcells, hparity⟩
    have hbits : f.bits = bitsOf b := by
      have hget := congrArg (List.map fun o : Option Bool => o.getD false) hcells
      rw [List.map_map, List.map_map] at hget
      exact hget.trans (List.map_id _)
    have hin : f.inStep = true := by
      rw [Frame.inStep, List.all_eq_true]
      intro c hc
      have hmem := List.mem_map_of_mem (f := cellBit r) hc
      rw [hcells] at hmem
      obtain ⟨x, -, hx⟩ := List.mem_map.1 hmem
      rw [← hx]
      rfl
    rw [Frame.read, hbits, if_pos ⟨hin, hparity⟩, ofBits_bitsOf]

/-- After the marker come the cells. -/
theorem readByte_frame (f : Frame r) (tape : List Nat) : readByte r (f.pulses ++ tape) =
    checkParity r (readBits r 8 0 true (cellPulses f.cells ++ (f.parity.1 :: f.parity.2 :: tape))) := by
  rw [Frame.pulses, List.cons_append, List.cons_append, List.append_assoc, readByte, f.mark_long,
    Bool.not_true, if_neg Bool.false_ne_true]
  simp only [short_of_middle f.second_middle, long_of_middle f.second_middle, Bool.false_eq_true,
    if_false, List.cons_append, List.nil_append]

theorem readByte_inStep {f : Frame r} (h : f.inStep = true) (tape : List Nat) : readByte r (f.pulses ++ tape) =
      (if cellBit r f.parity = some (oddParity f.bits) then .byte (ofBits f.bits) else .error,
        tape) := by
  have hbits := readBits_cells (Frame.map_cellBit h) f.noMark 0 true
    (f.parity.1 :: f.parity.2 :: tape)
  rw [f.length_bits] at hbits
  rw [readByte_frame, hbits, checkParity]
  simp only [readBit_cell f.parity_noMark, oddParity, ofBits]
  cases hparity : cellBit r f.parity with
  | none => rfl
  | some b =>
    simp only [Option.some.injEq]
    by_cases hb : b = f.bits.foldl Bool.xor true
    · rw [if_pos hb, hb, bne_self_eq_false]
      rfl
    · rw [if_neg hb, bne_iff_ne.2 hb]
      rfl

theorem readByte_of_read {f : Frame r} {b : UInt8} (h : f.read = some b) (tape : List Nat) :
    readByte r (f.pulses ++ tape) = (.byte b, tape) := by
  rw [Frame.read] at h
  split at h
  · rename_i hin
    rw [readByte_inStep hin.1, if_pos hin.2, Option.some.inj h]
  · cases h

theorem inStep_of_read {f : Frame r} {b : UInt8} (h : f.read = some b) : f.inStep = true := by
  rw [Frame.read] at h
  split at h
  · rename_i hin
    exact hin.1
  · cases h

theorem readByte_of_inStep {f : Frame r} (h : f.read = none) (hstep : f.inStep = true)
    (tape : List Nat) : readByte r (f.pulses ++ tape) = (.error, tape) := by
  rw [readByte_inStep hstep, if_neg]
  intro hparity
  rw [Frame.read, if_pos ⟨hstep, hparity⟩] at h
  cases h

/-- A damaged data cell: the next call does not find a long pulse. -/
theorem readByte_of_lost {f : Frame r} (h : f.inStep = false) (tape : List Nat) :
    ∃ rest, readByte r (f.pulses ++ tape) = (.error, rest) ∧ (readByte r rest).1 = .tapeEnd := by
  have hbad : ∃ c ∈ f.cells, cellBit r c = none := by
    rw [Frame.inStep, List.all_eq_false] at h
    obtain ⟨c, hc, hnone⟩ := h
    exact ⟨c, hc, Option.not_isSome_iff_eq_none.1 hnone⟩
  obtain ⟨more, hmore, hread⟩ := readBits_damaged f.length_cells f.noMark hbad 0 true
    (f.parity.1 :: f.parity.2 :: tape)
  have hnext : ∀ p rest, r.long p = false → (readByte r (p :: rest)).1 = .tapeEnd := by
    intro p rest hp
    simp [readByte, hp]
  refine ⟨cellPulses more ++ (f.parity.1 :: f.parity.2 :: tape), ?_, ?_⟩
  · rw [readByte_frame, hread, checkParity]
  · cases more with
    | nil => exact hnext _ _ f.parity_noMark.1
    | cons c more => exact hnext _ _ (hmore c List.mem_cons_self).1

/-! ## What stands before a block -/

theorem skipPilot_shorts (h : ∀ p ∈ ps, r.short p = true) (errors : Nat) (tape : List Nat) :
    skipPilot r errors (ps ++ tape) = skipPilot r errors tape := by
  induction ps with
  | nil => rfl
  | cons p ps ih =>
    have hp := h p List.mem_cons_self
    rw [List.cons_append, skipPilot, long_of_short hp, if_neg Bool.false_ne_true, if_pos hp]
    exact ih fun q hq => h q (List.mem_cons_of_mem p hq)

theorem skipPilot_frame {f : Frame r} {b : UInt8} (h : f.read = some b) (errors : Nat)
    (tape : List Nat) : skipPilot r errors (f.pulses ++ tape) = (true, f.pulses ++ tape) := by
  have hread := readByte_of_read h tape
  rw [Frame.pulses, List.cons_append] at hread ⊢
  rw [skipPilot, if_pos f.mark_long, hread]

theorem findPilot_shorts (h : ∀ p ∈ ps, r.short p = true) {start : List Nat} {count : Nat}
    (hlen : pilotMinLength ≤ count + ps.length) (tape : List Nat) :
    findPilot r start count (ps ++ tape) = some start := by
  induction ps generalizing count with
  | nil =>
    cases tape with
    | nil => exact if_pos hlen
    | cons p tape => exact if_pos hlen
  | cons p ps ih =>
    rw [List.cons_append, findPilot]
    split
    · rfl
    · rw [if_pos (h p List.mem_cons_self)]
      refine ih (fun q hq => h q (List.mem_cons_of_mem p hq)) ?_
      rw [List.length_cons] at hlen
      omega

/-- The byte of the countdown `n` bytes before its end. -/
def countByte (pass n : Nat) : UInt8 := UInt8.ofNat (if pass = 1 then 0x80 + n else n)

/-- `n` frames that count down to 1. -/
def CountsDown (pass : Nat) : Nat → List (Frame r) → Prop
  | 0, fs => fs = []
  | n + 1, fs => ∃ f rest, fs = f :: rest ∧ f.read = some (countByte pass (n + 1)) ∧
      CountsDown pass n rest

def framePulses (fs : List (Frame r)) : List Nat := fs.flatMap Frame.pulses

theorem readCountdown_frames {pass n : Nat} {fs : List (Frame r)} {found : Option Nat}
    (hpass : pass = 1 ∨ pass = 2) (hn : n ≤ 9) (h : CountsDown pass n fs)
    (hfound : found = some pass ∨ found = none ∧ 0 < n) (tape : List Nat) :
    readCountdown r n found (framePulses fs ++ tape) = (.ok (some pass), tape) := by
  have hbyte : ∀ n < 9, ((countByte 1 (n + 1) &&& 0x7f).toNat = n + 1 ∧
      countByte 1 (n + 1) &&& 0x80 ≠ 0) ∧ (countByte 2 (n + 1) &&& 0x7f).toNat = n + 1 ∧
      countByte 2 (n + 1) &&& 0x80 = 0 := by decide
  induction n generalizing fs found with
  | zero =>
    rw [CountsDown] at h
    rcases hfound with rfl | ⟨-, hlt⟩
    · rw [h]
      rfl
    · exact absurd hlt (Nat.lt_irrefl 0)
  | succ n ih =>
    obtain ⟨f, rest, rfl, hread, hrest⟩ := h
    obtain ⟨⟨h1, h1'⟩, h2, h2'⟩ := hbyte n (by omega)
    have hnext := ih (by omega) hrest (.inl rfl)
    rw [framePulses, List.flatMap_cons, List.append_assoc, readCountdown, readByte_of_read hread]
    rcases hpass with rfl | rfl
    · simp only [h1, ne_eq, not_true, if_false]
      rcases hfound with rfl | ⟨rfl, -⟩
      · simp only [h1', and_false, not_false_iff, and_true, false_or]
        exact hnext
      · simp only [h1', not_false_iff, if_true]
        exact hnext
    · simp only [h2, ne_eq, not_true, if_false]
      rcases hfound with rfl | ⟨rfl, -⟩
      · simp only [h2', and_true, not_true, and_false, or_false]
        exact hnext
      · simp only [h2', not_true, if_false]
        exact hnext

end Vice.L4.TapRecording
