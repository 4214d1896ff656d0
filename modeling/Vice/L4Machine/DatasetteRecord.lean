import Vice.L4Machine.DatasetteRewind

/-!
# Recording a tape

Every falling edge of the signal writes the time since the last one: a byte in units of eight
cycles, whose remainder is left for the next edge, or a zero byte and three more for a long gap.

Results:
* `toggle_cases`: what one edge does, the time it writes and the time it leaves.
* `recording_keeps_time`: the gaps read back never lag more than seven cycles behind the edges,
  in every recording without a gap of seven cycles and without one of 2^24 or more.
* `seven_reads_long`: seven cycles are written as a zero byte, which is read as a long gap.
-/
namespace Vice.L4.DatasetteRecord
open Vice.L1.Gcr Vice.L4.Datasette Vice.L4.DatasetteRewind

/-- The image and the port that is recorded through; `position` is where the file is written next. -/
@[ext] structure Recorder where
  file : Bytes
  offset : Nat
  version : UInt8
  position : Nat
  currentFileSeekPosition : Nat
  size : Nat
  cycleCounter : Nat
  cycleCounterTotal : Nat
  hasChanged : Bool
  lastWriteClk : Nat
  lastWriteBit : Int
  deriving DecidableEq

namespace Recorder

/-- `fwrite` of all of `bytes`. -/
def fwrite (bytes : Bytes) (r : Recorder) : Recorder :=
  { r with
    file := r.file.take r.position ++ List.replicate (r.position - r.file.length) 0 ++ bytes ++
      r.file.drop (r.position + bytes.length)
    position := r.position + bytes.length
    currentFileSeekPosition := r.currentFileSeekPosition + bytes.length }

/-- mirrors src/datasette/datasette.c:1266-1286 -/
def account (plus4 : Bool) (writeTime : Nat) (r : Recorder) : Recorder :=
  let counter := r.cycleCounter + writeTime / 8 + if plus4 then writeTime / 8 else 0
  { r with
    size := if r.size < r.currentFileSeekPosition then r.currentFileSeekPosition else r.size
    cycleCounter := counter
    cycleCounterTotal := if r.cycleCounterTotal < counter then counter else r.cycleCounterTotal
    hasChanged := true }

/-- At `maincpu_clk` = `clk`, with a file that takes what is written:
mirrors src/datasette/datasette.c:1210-1289 (`bit_write`) -/
def bitWrite (plus4 : Bool) (clk : Nat) (r : Recorder) : Recorder :=
  let writeTime := clk - r.lastWriteClk
  let r := { r with lastWriteClk := clk }
  let writeTime := if plus4 then writeTime / 2 else writeTime
  if writeTime < 7 then { r with lastWriteClk := r.lastWriteClk - writeTime % 8 }
  else if writeTime < 255 * 8 + 7 then
    let r := { r with lastWriteClk := r.lastWriteClk - writeTime % 8 }
    account plus4 writeTime (r.fwrite [UInt8.ofNat (writeTime / 8)])
  else
    let r := r.fwrite [0]
    if 1 ≤ r.version.toNat then
      let longGap := [UInt8.ofNat writeTime, UInt8.ofNat (writeTime >>> 8), UInt8.ofNat (writeTime >>> 16)]
      account plus4 (writeTime &&& 0xffffff) (r.fwrite longGap)
    else account plus4 writeTime r

/-- With the record button down and the motor on:
mirrors src/datasette/datasette.c:1299-1322 (`datasette_toggle_write_bit`) -/
def toggleWriteBit (plus4 : Bool) (clk : Nat) (writeBit : Int) (r : Recorder) : Recorder :=
  let r :=
    if r.lastWriteBit = 0 ∧ writeBit ≠ 0 then
      if clk ≤ r.lastWriteClk then { r with lastWriteClk := clk } else bitWrite plus4 clk r
    else r
  { r with lastWriteBit := writeBit }

/-- mirrors src/datasette/datasette.c:1000-1021 (`datasette_start_motor`) -/
def startMotor (clk : Nat) (r : Recorder) : Recorder :=
  let r := { r with position := r.currentFileSeekPosition + r.offset }
  if r.lastWriteClk = 0 then { r with lastWriteClk := clk, lastWriteBit := 0 } else r

/-- `tap_reset_gap` first: mirrors src/datasette/datasette.c:1172-1192 (`datasette_set_motor`) -/
def setMotor (clk : Nat) (r : Recorder) : Recorder := startMotor clk { r with lastWriteClk := 0 }

/-- Calls of `datasette_toggle_write_bit`, and the edges among them that were stored, each with
what was written for it. -/
def record (plus4 : Bool) : Recorder → List (Nat × Int) → List (Nat × Bytes) × Recorder
  | r, [] => ([], r)
  | r, (clk, writeBit) :: edges =>
    let r' := toggleWriteBit plus4 clk writeBit r
    let (stored, r'') := record plus4 r' edges
    let written := (r'.file.drop r.position).take (r'.position - r.position)
    (if written = [] then stored else (clk, written) :: stored, r'')

/-- The image as it is read. -/
def tape (zeroGapDelay : Nat) (r : Recorder) : Tape := ⟨r.file, r.offset, r.version, zeroGapDelay⟩

/-- No edge writes a gap of seven cycles or one of 2^24 or more. -/
def Writable (plus4 : Bool) : Recorder → List (Nat × Int) → Prop
  | _, [] => True
  | r, (clk, writeBit) :: edges =>
    (r.lastWriteBit = 0 → writeBit ≠ 0 →
      clk - r.lastWriteClk ≠ 7 ∧ clk - r.lastWriteClk < 2 ^ 24) ∧
    Writable plus4 (toggleWriteBit plus4 clk writeBit r) edges

end Recorder

open Recorder

/-- What a recording from `r₀` to `r` has to keep: the tape read from where it began gives a gap for
every edge stored, and the gaps up to an edge add up to its time but for less than eight cycles. -/
structure KeepsTime (zeroGapDelay : Nat) (r₀ r : Recorder) (stored : List (Nat × Bytes)) : Prop where
  position_eq : r.position = r.currentFileSeekPosition + r.offset
  not_zero : ∀ edge ∈ stored, edge.2 ≠ [0]
  on_time : ∀ buffer k, ∀ hk : k < stored.length,
    let gaps := (readGaps (r.tape zeroGapDelay) .forward stored.length
      ⟨r₀.currentFileSeekPosition, 0, 0, buffer⟩).1
    r₀.lastWriteClk + (gaps.take (k + 1)).sum ≤ stored[k].1 ∧
      stored[k].1 < r₀.lastWriteClk + (gaps.take (k + 1)).sum + 8

variable {t : Tape} {s : Deck} {r r' r'' : Recorder} {clk p g zeroGapDelay : Nat} {writeBit : Int} {bytes : Bytes}

/-! ## Writing into a file -/

/-- The file up to the place that is written. -/
def front (r : Recorder) : Bytes :=
  r.file.take r.position ++ List.replicate (r.position - r.file.length) 0

theorem front_length (r : Recorder) : (front r).length = r.position := by
  simp only [front, List.length_append, List.length_take, List.length_replicate]
  omega

theorem fwrite_file (bytes : Bytes) (r : Recorder) :
    (r.fwrite bytes).file = front r ++ (bytes ++ r.file.drop (r.position + bytes.length)) := by
  rw [← List.append_assoc]
  rfl

theorem fwrite_fwrite (xs ys : Bytes) (r : Recorder) : (r.fwrite xs).fwrite ys = r.fwrite (xs ++ ys) := by
  have hlength : (front r ++ xs).length = r.position + xs.length := by
    rw [List.length_append, front_length]
  have hfile : (r.fwrite xs).file = front r ++ xs ++ r.file.drop (r.position + xs.length) := by
    rw [fwrite_file, List.append_assoc]
  have hfront : front (r.fwrite xs) = front r ++ xs := by
    have hposition : (r.fwrite xs).position = (front r ++ xs).length := hlength.symm
    have hnone : (front r ++ xs).length - (r.fwrite xs).file.length = 0 := by
      rw [hfile]
      exact Nat.sub_eq_zero_of_le (List.sublist_append_left _ _).length_le
    rw [front, hposition, hnone, hfile, List.take_left, List.replicate_zero, List.append_nil]
  have hrest : (r.fwrite xs).file.drop ((r.fwrite xs).position + ys.length) =
      r.file.drop (r.position + (xs ++ ys).length) := by
    have hposition : (r.fwrite xs).position + ys.length = (front r ++ xs).length + ys.length := by
      rw [hlength]
      rfl
    rw [hposition, hfile, List.drop_append, List.drop_of_length_le (Nat.le_add_right _ _),
      List.nil_append, Nat.add_sub_cancel_left, List.drop_drop, List.length_append, Nat.add_assoc]
  have hboth : ((r.fwrite xs).fwrite ys).file = (r.fwrite (xs ++ ys)).file := by
    rw [fwrite_file ys, hfront, hrest, fwrite_file (xs ++ ys), List.append_assoc, List.append_assoc]
  have hposition : r.position + xs.length + ys.length = r.position + (xs ++ ys).length := by
    rw [List.length_append, Nat.add_assoc]
  have hseek : r.currentFileSeekPosition + xs.length + ys.length =
      r.currentFileSeekPosition + (xs ++ ys).length := by
    rw [List.length_append, Nat.add_assoc]
  exact Recorder.ext hboth rfl rfl hposition hseek rfl rfl rfl rfl rfl rfl

/-- `bytes` written where `r` was: the rest of what is in front stays. -/
structure Wrote (bytes : Bytes) (r r' : Recorder) : Prop where
  position : r'.position = r.position + bytes.length
  seek : r'.currentFileSeekPosition = r.currentFileSeekPosition + bytes.length
  before : ∀ j < r.position, r'.file.getD j 0 = r.file.getD j 0
  here : (r'.file.drop r.position).take bytes.length = bytes
  reaches : bytes ≠ [] → r'.position ≤ r'.file.length
  grows : r.file.length ≤ r'.file.length
  offset : r'.offset = r.offset
  version : r'.version = r.version

theorem fwrite_wrote (bytes : Bytes) (r : Recorder) : Wrote bytes r (r.fwrite bytes) where
  position := rfl
  seek := rfl
  before j hj := by
    rw [fwrite_file, List.getD_eq_getElem?_getD, List.getElem?_append_left (by rw [front_length]; exact hj),
      List.getD_eq_getElem?_getD, front]
    by_cases hin : j < r.file.length
    · rw [List.getElem?_append_left (by rw [List.length_take]; omega), List.getElem?_take, if_pos hj]
    · rw [List.getElem?_append_right (by rw [List.length_take]; omega), List.getElem?_replicate,
        List.getElem?_eq_none (by omega : r.file.length ≤ j)]
      split <;> rfl
  here := by
    rw [fwrite_file, List.drop_left' (front_length r), List.take_left]
  reaches _ := by
    rw [fwrite_file, List.length_append, front_length, List.length_append]
    show r.position + bytes.length ≤ _
    omega
  grows := by
    rw [fwrite_file, List.length_append, front_length, List.length_append, List.length_drop]
    omega
  offset := rfl
  version := rfl

/-- Nothing written. -/
theorem wrote_nil (hfile : r'.file = r.file) (hposition : r'.position = r.position)
    (hseek : r'.currentFileSeekPosition = r.currentFileSeekPosition) (hoffset : r'.offset = r.offset)
    (hversion : r'.version = r.version) : Wrote [] r r' where
  position := hposition
  seek := hseek
  before _ _ := by rw [hfile]
  here := List.take_zero
  reaches h := absurd rfl h
  grows := Nat.le_of_eq (by rw [hfile])
  offset := hoffset
  version := hversion

/-! ## One edge -/

/-- A gap and how it is written. -/
inductive Spells : Bytes → Nat → Prop
  | short {b : UInt8} (h : b ≠ 0) : Spells [b] (b.toNat * 8)
  | long {a b c : UInt8} (h : a.toNat + b.toNat <<< 8 + c.toNat <<< 16 ≠ 0) :
    Spells [0, a, b, c] (a.toNat + b.toNat <<< 8 + c.toNat <<< 16)

/-- Three bytes are enough for a gap of 24 bits. -/
theorem longGap_toNat {writeTime : Nat} (h : writeTime < 2 ^ 24) :
    (UInt8.ofNat writeTime).toNat + (UInt8.ofNat (writeTime >>> 8)).toNat <<< 8 +
      (UInt8.ofNat (writeTime >>> 16)).toNat <<< 16 = writeTime := by
  simp only [UInt8.toNat_ofNat', Nat.shiftRight_eq_div_pow, Nat.shiftLeft_eq]
  omega

theorem clock_wrote {c : Nat} (h : Wrote bytes { r with lastWriteClk := c } r') : Wrote bytes r r' :=
  ⟨h.position, h.seek, h.before, h.here, h.reaches, h.grows, h.offset, h.version⟩

theorem bit_wrote {bit : Int} (h : Wrote bytes r r') : Wrote bytes r { r' with lastWriteBit := bit } :=
  ⟨h.position, h.seek, h.before, h.here, h.reaches, h.grows, h.offset, h.version⟩

theorem account_wrote {plus4 : Bool} {writeTime : Nat} (h : Wrote bytes r r') :
    Wrote bytes r (account plus4 writeTime r') :=
  ⟨h.position, h.seek, h.before, h.here, h.reaches, h.grows, h.offset, h.version⟩

theorem bitWrite_cases (hversion : r.version = 1) (hlast : r.lastWriteClk < clk)
    (hseven : clk - r.lastWriteClk ≠ 7) (hlong : clk - r.lastWriteClk < 2 ^ 24) :
    (Wrote [] r (bitWrite false clk r) ∧ (bitWrite false clk r).lastWriteClk = r.lastWriteClk) ∨
    ∃ bytes g, Spells bytes g ∧ Wrote bytes r (bitWrite false clk r) ∧
      (bitWrite false clk r).lastWriteClk = r.lastWriteClk + g ∧ r.lastWriteClk + g ≤ clk ∧
      clk < r.lastWriteClk + g + 8 := by
  unfold bitWrite
  obtain hdrop | hshort | hrest : clk - r.lastWriteClk < 7 ∨
      (8 ≤ clk - r.lastWriteClk ∧ clk - r.lastWriteClk < 255 * 8 + 7) ∨
      255 * 8 + 7 ≤ clk - r.lastWriteClk := by omega
  · left
    simp only [Bool.false_eq_true, ↓reduceIte, if_pos hdrop]
    exact ⟨wrote_nil rfl rfl rfl rfl rfl, by show clk - _ = _; omega⟩
  · right
    have hgap : (UInt8.ofNat ((clk - r.lastWriteClk) / 8)).toNat = (clk - r.lastWriteClk) / 8 := by
      rw [UInt8.toNat_ofNat']
      omega
    have hne : UInt8.ofNat ((clk - r.lastWriteClk) / 8) ≠ 0 := by
      intro hzero
      rw [hzero] at hgap
      simp only [UInt8.toNat_zero] at hgap
      omega
    have hmin : ¬clk - r.lastWriteClk < 7 := by omega
    simp only [Bool.false_eq_true, ↓reduceIte, if_neg hmin, if_pos hshort.2]
    refine ⟨_, _, .short hne, account_wrote (clock_wrote (fwrite_wrote _ _)), ?_, ?_, ?_⟩
    · rw [hgap]
      show clk - _ = _
      omega
    all_goals
      rw [hgap]
      omega
  · right
    have htoNat := longGap_toNat hlong
    have hmin : ¬clk - r.lastWriteClk < 7 := by omega
    have hmax : ¬clk - r.lastWriteClk < 255 * 8 + 7 := by omega
    have hone : 1 ≤ ({ r with lastWriteClk := clk } : Recorder).version.toNat := by
      show 1 ≤ r.version.toNat
      rw [hversion]
      decide
    have hone' : 1 ≤ (({ r with lastWriteClk := clk } : Recorder).fwrite [0]).version.toNat := hone
    simp only [Bool.false_eq_true, ↓reduceIte, if_neg hmin, if_neg hmax, if_pos hone']
    rw [fwrite_fwrite]
    refine ⟨_, _, .long (by rw [htoNat]; omega), account_wrote (clock_wrote (fwrite_wrote _ _)), ?_, ?_, ?_⟩
    · rw [htoNat]
      show clk = _
      omega
    all_goals
      rw [htoNat]
      omega

/-- What an edge does: nothing, and its time is left to the next one, or a gap is written that comes
up to it but for less than eight cycles. -/
theorem toggle_cases (hversion : r.version = 1) (hlast : r.lastWriteClk ≤ clk)
    (hwritable : r.lastWriteBit = 0 → writeBit ≠ 0 →
      clk - r.lastWriteClk ≠ 7 ∧ clk - r.lastWriteClk < 2 ^ 24) :
    (Wrote [] r (toggleWriteBit false clk writeBit r) ∧
      (toggleWriteBit false clk writeBit r).lastWriteClk = r.lastWriteClk) ∨
    ∃ bytes g, Spells bytes g ∧ Wrote bytes r (toggleWriteBit false clk writeBit r) ∧
      (toggleWriteBit false clk writeBit r).lastWriteClk = r.lastWriteClk + g ∧
      r.lastWriteClk + g ≤ clk ∧ clk < r.lastWriteClk + g + 8 := by
  unfold toggleWriteBit
  by_cases hedge : r.lastWriteBit = 0 ∧ writeBit ≠ 0
  · simp only [if_pos hedge]
    obtain ⟨hseven, hlong⟩ := hwritable hedge.1 hedge.2
    by_cases hnow : clk ≤ r.lastWriteClk
    · rw [if_pos hnow]
      exact .inl ⟨wrote_nil rfl rfl rfl rfl rfl, Nat.le_antisymm hnow hlast⟩
    · rw [if_neg hnow]
      obtain ⟨hwrote, hclk⟩ | ⟨bytes, g, hspells, hwrote, hrest⟩ :=
        bitWrite_cases hversion (by omega) hseven hlong
      · exact .inl ⟨bit_wrote hwrote, hclk⟩
      · exact .inr ⟨bytes, g, hspells, bit_wrote hwrote, hrest⟩
  · left
    rw [if_neg hedge]
    exact ⟨wrote_nil rfl rfl rfl rfl rfl, rfl⟩

/-! ## Reading it back -/

theorem spells_ne_nil (h : Spells bytes g) : bytes ≠ [] := by
  cases h <;> exact List.cons_ne_nil _ _

theorem spells_ne_zero (h : Spells bytes g) : bytes ≠ [0] := by
  cases h with
  | short hb => exact fun h => hb (List.cons.inj h).1
  | long _ => exact fun h => absurd (List.cons.inj h).2 (List.cons_ne_nil _ _)

/-- A gap that is spelled on the tape. -/
theorem gap_of_spells (h : Spells bytes g) (hversion : t.version = 1)
    (hbytes : ∀ i < bytes.length, t.byteAt (p + i) = bytes.getD i 0) :
    t.gap p = g ∧ t.step p = bytes.length := by
  have hversion' : t.version ≠ 0 := by
    rw [hversion]
    decide
  cases h with
  | @short b hb =>
    have hbyte : t.byteAt p = b := hbytes 0 Nat.zero_lt_one
    have hne : b.toNat ≠ 0 := fun h => hb (UInt8.toNat_inj.1 h)
    refine ⟨?_, step_short (hbyte ▸ hb)⟩
    simp only [Tape.gap, hbyte, hne, ne_eq, not_false_eq_true, or_true, ↓reduceIte]
  | @long a b c hne =>
    have hzero : t.byteAt p = 0 := hbytes 0 (by decide : 0 < 4)
    have h1 : t.byteAt (p + 1) = a := hbytes 1 (by decide : 1 < 4)
    have h2 : t.byteAt (p + 2) = b := hbytes 2 (by decide : 2 < 4)
    have h3 : t.byteAt (p + 3) = c := hbytes 3 (by decide : 3 < 4)
    refine ⟨?_, step_long hversion' hzero⟩
    simp only [Tape.gap, hzero, hversion', h1, h2, h3, UInt8.toNat_zero, ne_eq, not_true_eq_false,
      or_self, ↓reduceIte, if_pos hne]

/-- The gaps from `p` on. -/
def Gaps (t : Tape) : Nat → List Nat → Prop
  | _, [] => True
  | p, g :: gaps => t.gap p = g ∧ t.next p ≤ t.length ∧ Gaps t (t.next p) gaps

theorem readGaps_of_gaps (gaps : List Nat) (hat : At t s p) (h : Gaps t p gaps) :
    (readGaps t .forward gaps.length s).1 = gaps := by
  induction gaps generalizing s p with
  | nil => rfl
  | cons g gaps ih =>
    obtain ⟨hgap, hfit, hrest⟩ := h
    obtain ⟨s', hread, hat'⟩ := readGapForward_some hat hfit
    have hrest' := ih hat' hrest
    simp only [List.length_cons, readGaps, datasetteReadGap, hread, hgap, hrest']

/-- The gaps from `base` on against the times of the edges. -/
def Paced : Nat → List Nat → List Nat → Prop
  | base, g :: gaps, clk :: clks => base + g ≤ clk ∧ clk < base + g + 8 ∧ Paced (base + g) gaps clks
  | _, [], [] => True
  | _, _, _ => False

theorem paced_sum {base : Nat} {gaps clks : List Nat} (h : Paced base gaps clks) (k : Nat)
    (hk : k < clks.length) : base + (gaps.take (k + 1)).sum ≤ clks[k] ∧
      clks[k] < base + (gaps.take (k + 1)).sum + 8 := by
  induction clks generalizing base gaps k with
  | nil => exact absurd hk (Nat.not_lt_zero k)
  | cons clk clks ih =>
    cases gaps with
    | nil => exact h.elim
    | cons g gaps =>
      obtain ⟨hle, hlt, hrest⟩ := h
      cases k with
      | zero => simpa only [List.take_succ_cons, List.take_zero, List.sum_cons, List.sum_nil,
          Nat.add_zero, List.getElem_cons_zero] using ⟨hle, hlt⟩
      | succ k =>
        have hk' := ih hrest k (Nat.lt_of_succ_lt_succ hk)
        simp only [List.take_succ_cons, List.sum_cons, List.getElem_cons_succ, ← Nat.add_assoc] at hk' ⊢
        exact hk'

theorem paced_length {base : Nat} {gaps clks : List Nat} (h : Paced base gaps clks) :
    gaps.length = clks.length := by
  induction clks generalizing base gaps with
  | nil =>
    cases gaps with
    | nil => rfl
    | cons => exact h.elim
  | cons clk clks ih =>
    cases gaps with
    | nil => exact h.elim
    | cons g gaps => rw [List.length_cons, List.length_cons, ih h.2.2]

/-! ## A whole recording -/

/-- What has been written stays. -/
structure Extends (r r' : Recorder) : Prop where
  position_le : r.position ≤ r'.position
  before : ∀ j < r.position, r'.file.getD j 0 = r.file.getD j 0
  reaches : r.position < r'.position → r'.position ≤ r'.file.length
  grows : r.file.length ≤ r'.file.length
  offset : r'.offset = r.offset
  version : r'.version = r.version

theorem extends_refl (r : Recorder) : Extends r r :=
  ⟨Nat.le_refl _, fun _ _ => rfl, fun h => absurd h (Nat.lt_irrefl _), Nat.le_refl _, rfl, rfl⟩

theorem wrote_extends (h : Wrote bytes r r') (h' : Extends r' r'') : Extends r r'' where
  position_le := Nat.le_trans (h.position ▸ Nat.le_add_right _ _) h'.position_le
  before j hj := by
    rw [h'.before j (by rw [h.position]; omega), h.before j hj]
  reaches hlt := by
    obtain heq | hlt' := Nat.eq_or_lt_of_le h'.position_le
    · have hne : bytes ≠ [] := by
        rintro rfl
        have hposition := h.position
        rw [List.length_nil] at hposition
        omega
      exact heq ▸ Nat.le_trans (h.reaches hne) h'.grows
    · exact h'.reaches hlt'
  grows := Nat.le_trans h.grows h'.grows
  offset := h'.offset.trans h.offset
  version := h'.version.trans h.version

theorem written_byte (h : Wrote bytes r r') {i : Nat} (hi : i < bytes.length) :
    r'.file.getD (r.position + i) 0 = bytes.getD i 0 := by
  conv_rhs => rw [← h.here]
  rw [List.getD_eq_getElem?_getD, List.getD_eq_getElem?_getD, List.getElem?_take, if_pos hi, List.getElem?_drop]

theorem record_spec (zeroGapDelay : Nat) (edges : List (Nat × Int)) (hversion : r.version = 1)
    (hposition : r.position = r.currentFileSeekPosition + r.offset)
    (hlast : ∀ edge ∈ edges, r.lastWriteClk ≤ edge.1)
    (hsorted : edges.Pairwise fun a b => a.1 ≤ b.1) (hwritable : Writable false r edges) :
    ∃ gaps, Gaps ((record false r edges).2.tape zeroGapDelay) r.currentFileSeekPosition gaps ∧
      Paced r.lastWriteClk gaps ((record false r edges).1.map Prod.fst) ∧
      (∀ edge ∈ (record false r edges).1, edge.2 ≠ [0]) ∧
      (record false r edges).2.position =
        (record false r edges).2.currentFileSeekPosition + (record false r edges).2.offset ∧
      Extends r (record false r edges).2 ∧
      ((record false r edges).1 ≠ [] → r.position < (record false r edges).2.position) := by
  induction edges generalizing r with
  | nil =>
    exact ⟨[], trivial, trivial, fun edge h => (List.not_mem_nil h).elim, hposition, extends_refl r,
      fun h => absurd rfl h⟩
  | cons edge edges ih =>
    obtain ⟨clk, writeBit⟩ := edge
    obtain ⟨hfine, hwritable'⟩ := hwritable
    rw [List.pairwise_cons] at hsorted
    have hnow := hlast _ List.mem_cons_self
    have hcases := toggle_cases hversion hnow hfine
    unfold record
    dsimp only
    generalize toggleWriteBit false clk writeBit r = r1 at hwritable' hcases ⊢
    obtain ⟨hwrote, hclk⟩ | ⟨bytes, g, hspells, hwrote, hclk, hle, hlt⟩ := hcases
    · have hnothing : (r1.file.drop r.position).take (r1.position - r.position) = [] := by
        rw [hwrote.position, List.length_nil, Nat.add_zero, Nat.sub_self, List.take_zero]
      obtain ⟨gaps, hgaps, hpaced, hzero, hpos, hext, hmore⟩ := ih
        (hwrote.version.trans hversion)
        (by rw [hwrote.position, hwrote.seek, hwrote.offset, hposition]; rfl)
        (fun edge hedge => hclk ▸ hlast edge (List.mem_cons_of_mem _ hedge)) hsorted.2 hwritable'
      rw [if_pos hnothing]
      refine ⟨gaps, ?_, hclk ▸ hpaced, hzero, hpos, wrote_extends hwrote hext, ?_⟩
      · have hseek := hwrote.seek
        rw [List.length_nil, Nat.add_zero] at hseek
        exact hseek ▸ hgaps
      · have hsame := hwrote.position
        rw [List.length_nil, Nat.add_zero] at hsame
        exact hsame ▸ hmore
    · have hlength : 0 < bytes.length := List.length_pos_iff.2 (spells_ne_nil hspells)
      have hwritten : (r1.file.drop r.position).take (r1.position - r.position) = bytes := by
        rw [hwrote.position, Nat.add_sub_cancel_left, hwrote.here]
      obtain ⟨gaps, hgaps, hpaced, hzero, hpos, hext, hmore⟩ := ih
        (hwrote.version.trans hversion)
        (by rw [hwrote.position, hwrote.seek, hwrote.offset, hposition]; omega)
        (fun edge hedge => by
          have hlater := hsorted.1 edge hedge
          rw [hclk]
          exact Nat.le_trans hle hlater) hsorted.2 hwritable'
      rw [hwritten, if_neg (spells_ne_nil hspells)]
      have hwhole := wrote_extends hwrote hext
      have hposition1 := hwrote.position
      have hfurther : r.position < (record false r1 edges).2.position := by
        have := hext.position_le
        omega
      have hgap := gap_of_spells (t := (record false r1 edges).2.tape zeroGapDelay)
        (p := r.currentFileSeekPosition) hspells
        (hwhole.version.trans hversion) fun i hi => by
          have hplace : (record false r1 edges).2.offset + (r.currentFileSeekPosition + i) =
              r.position + i := by
            rw [hwhole.offset, hposition]
            omega
          show (record false r1 edges).2.file.getD ((record false r1 edges).2.offset +
            (r.currentFileSeekPosition + i)) 0 = _
          rw [hplace, hext.before _ (by omega), written_byte hwrote hi]
      have hnext : ((record false r1 edges).2.tape zeroGapDelay).next r.currentFileSeekPosition =
          r1.currentFileSeekPosition := by
        rw [Tape.next, hgap.2, hwrote.seek]
      refine ⟨g :: gaps, ⟨hgap.1, ?_, hnext ▸ hgaps⟩, ⟨hle, hlt, hclk ▸ hpaced⟩, ?_, hpos, hwhole,
        fun _ => hfurther⟩
      · have hin := hwhole.reaches hfurther
        have hle' := hext.position_le
        have hoffset := hwhole.offset
        rw [hnext]
        show _ ≤ (record false r1 edges).2.file.length - (record false r1 edges).2.offset
        rw [hwrote.seek]
        omega
      · intro edge hedge
        obtain rfl | hedge' := List.mem_cons.1 hedge
        · exact spells_ne_zero hspells
        · exact hzero edge hedge'

/-- A recording that begins when the motor is switched on and in which no edge writes a gap of seven
cycles or one of 2^24 or more keeps time, up to any of its edges. -/
theorem recording_keeps_time (zeroGapDelay : Nat) (r : Recorder) (hversion : r.version = 1) (clk : Nat)
    (edges : List (Nat × Int)) (hsorted : List.Pairwise (· ≤ ·) (clk :: edges.map Prod.fst))
    (hwritable : Writable false (setMotor clk r) edges) :
    KeepsTime zeroGapDelay (setMotor clk r) (record false (setMotor clk r) edges).2
      (record false (setMotor clk r) edges).1 := by
  rw [List.pairwise_cons, List.pairwise_map] at hsorted
  obtain ⟨gaps, hgaps, hpaced, hzero, hpos, hext, hmore⟩ :=
    record_spec (r := setMotor clk r) zeroGapDelay edges hversion rfl
      (fun edge hedge => hsorted.1 _ (List.mem_map_of_mem hedge)) hsorted.2 hwritable
  refine ⟨hpos, hzero, fun buffer k hk => ?_⟩
  have hlength := paced_length hpaced
  rw [List.length_map] at hlength
  have hne : (record false (setMotor clk r) edges).1 ≠ [] := List.ne_nil_of_length_pos (by omega)
  have hreaches := hext.reaches (hmore hne)
  have hle := hext.position_le
  have hin : (setMotor clk r).currentFileSeekPosition ≤
      ((record false (setMotor clk r) edges).2.tape zeroGapDelay).length := by
    show _ ≤ (record false (setMotor clk r) edges).2.file.length -
      (record false (setMotor clk r) edges).2.offset
    have hoffset := hext.offset
    have hposition : (setMotor clk r).position =
      (setMotor clk r).currentFileSeekPosition + (setMotor clk r).offset := rfl
    omega
  have hat : At ((record false (setMotor clk r) edges).2.tape zeroGapDelay)
      ⟨(setMotor clk r).currentFileSeekPosition, 0, 0, buffer⟩
      (setMotor clk r).currentFileSeekPosition :=
    ⟨_, 0, 0, ⟨(Int.add_zero _).symm, rfl, rfl, hin, hin,
      fun i hi => absurd hi (Nat.not_lt_zero i)⟩, Nat.le_refl _, rfl⟩
  have hread := readGaps_of_gaps gaps hat hgaps
  rw [hlength] at hread
  have hsum := paced_sum hpaced k (by rw [List.length_map]; exact hk)
  rw [List.getElem_map] at hsum
  rw [hread]
  exact hsum

/-! ## A recording of two edges -/

/-- A new tape with its header. -/
def blankTape : Recorder where
  file := List.replicate 20 0
  offset := 20
  version := 1
  position := 0
  currentFileSeekPosition := 0
  size := 0
  cycleCounter := 0
  cycleCounterTotal := 0
  hasChanged := false
  lastWriteClk := 0
  lastWriteBit := 0

theorem two_edges_keep_time : KeepsTime 2500 (setMotor 1000 blankTape)
      (record false (setMotor 1000 blankTape) [(1390, 1), (1500, 0), (4000, 1)]).2
      [(1390, [48]), (4000, [0, 56, 10, 0])] :=
  recording_keeps_time 2500 blankTape rfl 1000 [(1390, 1), (1500, 0), (4000, 1)] (by decide)
    ⟨by decide, by decide, by decide, trivial⟩

/-- Seven cycles are written as a zero byte; with the bytes after it that is a long gap, and without
them none at all. -/
theorem seven_reads_long : (record false (setMotor 1000 blankTape) [(1007, 1)]).1 = [(1007, [0])] ∧
      (readGaps ((record false (setMotor 1000 blankTape) [(1007, 1)]).2.tape 2500) .forward 1
        ⟨0, 0, 0, []⟩).1 = [0] ∧
      (record false (setMotor 1000 blankTape) [(1007, 1), (1100, 0), (1200, 1), (1300, 0), (1400, 1),
        (1500, 0), (1600, 1)]).1 = [(1007, [0]), (1200, [25]), (1400, [25]), (1600, [25])] ∧
      (readGaps ((record false (setMotor 1000 blankTape) [(1007, 1), (1100, 0), (1200, 1), (1300, 0),
        (1400, 1), (1500, 0), (1600, 1)]).2.tape 2500) .forward 1 ⟨0, 0, 0, []⟩).1 = [1644825] ∧
      ¬KeepsTime 2500 (setMotor 1000 blankTape)
        (record false (setMotor 1000 blankTape) [(1007, 1)]).2
        (record false (setMotor 1000 blankTape) [(1007, 1)]).1 := by
  have hstored : (record false (setMotor 1000 blankTape) [(1007, 1)]).1 = [(1007, [0])] := by
    decide +kernel
  refine ⟨hstored, by decide +kernel, by decide +kernel, by decide +kernel, fun h => ?_⟩
  have hzero := h.not_zero (1007, [0])
  rw [hstored] at hzero
  exact hzero List.mem_cons_self rfl

end Vice.L4.DatasetteRecord
