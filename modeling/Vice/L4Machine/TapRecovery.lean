import Vice.L4Machine.TapErrors

/-!
# Recovering a tape block from its two copies

A block is recorded twice, with bytes that cannot be read at any places. Reading it gives the block
where the first copy is in order. Else it depends on how the bytes fail and on a word that is never
written: a damaged data cell ends the tape, and a failing byte of the second copy behind all failing
bytes of the first is compared with what `error_buf` holds at `error_count`. What was put together
from both copies is returned without the checksum test.

Results:
* `recovered_iff`: when the block is recovered, for every recording.
-/
namespace Vice.L4.TapRecovery
open Vice.L4.TapBlock Vice.L4.TapRecording Vice.L4.TapFrames Vice.L4.TapErrors

variable {r : PulseRanges} {c16 : Bool} {errorBuf : Nat → Int} {buffer : List UInt8} {size : Nat}
  {s s' : Block} {pilot tape₁ tape₂ : List Nat} {ret : BlockRead} {n : Nat}

/-- A block on the tape: two copies with pilots, countdowns and end markers. Up to 30 bytes of the
first copy are not read, and none in both. -/
structure Recording (r : PulseRanges) where
  block : List UInt8
  pilot₁ : List Nat
  count₁ : List (Frame r)
  first : List (Frame r)
  end₁ : Nat × Nat
  pilot₂ : List Nat
  count₂ : List (Frame r)
  second : List (Frame r)
  end₂ : Nat × Nat
  rest : List Nat
  pilot₁_short : ∀ p ∈ pilot₁, r.short p = true
  pilot₂_short : ∀ p ∈ pilot₂, r.short p = true
  pilot₂_length : pilotMinLength ≤ pilot₂.length
  counts₁ : CountsDown 1 9 count₁
  counts₂ : CountsDown 2 9 count₂
  end₁_mark : r.long end₁.1 = true ∧ r.short end₁.2 = true
  end₂_mark : r.long end₂.1 = true ∧ r.short end₂.2 = true
  copies₁ : Copies first block
  copies₂ : Copies second block
  few : (unread first 0).length ≤ maxErrors
  once : ∀ j ∈ unread first 0, j ∉ unread second 0

namespace Recording

/-- The second copy, from its countdown on. -/
def repeatTape (rec : Recording r) : List Nat :=
  framePulses rec.count₂ ++ (framePulses rec.second ++ rec.end₂.1 :: rec.end₂.2 :: rec.rest)

def tape (rec : Recording r) : List Nat :=
  rec.pilot₁ ++ (framePulses rec.count₁ ++
    (framePulses rec.first ++ rec.end₁.1 :: rec.end₁.2 :: (rec.pilot₂ ++ rec.repeatTape)))

/-- The two copies together give the block: no data cell of a byte that is not read is damaged, and
no byte that is not read in the second copy meets the word behind the list. -/
def Joins (rec : Recording r) (errorBuf : Nat → Int) : Prop :=
  (∀ f ∈ rec.first, f.inStep = true) ∧ (∀ f ∈ rec.second, f.inStep = true) ∧
    ∀ j ∈ unread rec.second 0, (∀ x ∈ unread rec.first 0, x < j) →
      errorBuf (unread rec.first 0).length ≠ j

end Recording

/-- A block with its checksum is read with exactly its bytes, and what is read has its checksum. -/
def Recovered (c16 : Bool) (errorBuf : Nat → Int) (buffer : List UInt8) (size : Nat)
    (rec : Recording r) : Prop :=
  (xorAll rec.block = 0 →
    (readBlock r c16 errorBuf buffer size rec.tape).1.1 = .ok ∧
    (readBlock r c16 errorBuf buffer size rec.tape).1.2.buffer.take rec.block.length = rec.block) ∧
  ((readBlock r c16 errorBuf buffer size rec.tape).1.1 = .ok →
    xorAll ((readBlock r c16 errorBuf buffer size rec.tape).1.2.buffer.take
      (readBlock r c16 errorBuf buffer size rec.tape).1.2.size) = 0)

/-! ## One pass -/

theorem readBlockOnce_recorded {pass : Nat} {counts : List (Frame r)}
    (hpilot : ∀ p ∈ pilot, r.short p = true) (hpass : pass = 1 ∨ pass = 2)
    (hcounts : CountsDown pass 9 counts) (s : Block) (tape : List Nat) :
    readBlockOnce r c16 s (pilot ++ (framePulses counts ++ tape)) =
      readData r c16 (tape.length + 1)
        { s with pass := pass, errorCount := if pass = 1 then 0 else s.errorCount } 0 0 tape := by
  have hskip : skipPilot r 0 (pilot ++ (framePulses counts ++ tape)) =
      (true, framePulses counts ++ tape) := by
    rw [skipPilot_shorts hpilot]
    obtain ⟨f, fs, rfl, hread, -⟩ := hcounts
    rw [framePulses_cons]
    exact skipPilot_frame hread 0 _
  have hcountdown := readCountdown_frames hpass (Nat.le_refl 9) hcounts
    (.inr ⟨rfl, by decide⟩) tape
  rw [readBlockOnce, hskip]
  simp only [hcountdown, Option.getD_some]

theorem readData_pass (n : Nat) (s : Block) (count ecount : Nat) (tape : List Nat) :
    (readData r c16 n s count ecount tape).1.2.pass = s.pass := by
  induction n generalizing s count ecount tape with
  | zero => rfl
  | succ n ih =>
    rw [readData]
    split
    · rfl
    · split
      · split
        · exact ih _ _ _ _
        · rfl
      · simp only
        split
        · rfl
        · exact ih _ _ _ _
    · rfl
    · split
      · simp only
        split
        · rfl
        · exact ih _ _ _ _
      · rfl

theorem length_framePulses (fs : List (Frame r)) : fs.length ≤ (framePulses fs).length := by
  induction fs with
  | nil => exact Nat.le_refl 0
  | cons f fs ih =>
    rw [framePulses, List.flatMap_cons, List.length_append, List.length_cons, Frame.pulses, List.length_cons]
    rw [framePulses] at ih
    omega

/-- There is fuel for every frame and the end marker. -/
theorem fuel_frames (fs : List (Frame r)) (l q : Nat) (tape : List Nat) :
    ∃ n, (framePulses fs ++ l :: q :: tape).length + 1 = fs.length + 1 + n ∧
      (framePulses fs ++ l :: q :: tape).length + 1 = fs.length + 2 + (n - 1) := by
  have hlen := length_framePulses fs
  rw [List.length_append, List.length_cons, List.length_cons]
  exact ⟨(framePulses fs).length + (tape.length + 1 + 1) - fs.length, by omega, by omega⟩

/-- A damaged data cell somewhere in the copy. -/
theorem exists_lost {fs : List (Frame r)} (h : ¬∀ f ∈ fs, f.inStep = true) :
    ∃ pre f post, fs = pre ++ f :: post ∧ (∀ g ∈ pre, g.inStep = true) ∧ f.inStep = false := by
  induction fs with
  | nil => exact absurd nofun h
  | cons g fs ih =>
    cases hg : g.inStep with
    | false => exact ⟨[], g, fs, rfl, nofun, hg⟩
    | true =>
      obtain ⟨pre, f, post, rfl, hpre, hf⟩ := ih fun hall => h fun f hf => by
        rcases List.mem_cons.1 hf with rfl | hf
        · exact hg
        · exact hall f hf
      refine ⟨g :: pre, f, post, rfl, fun k hk => ?_, hf⟩
      rcases List.mem_cons.1 hk with rfl | hk
      · exact hg
      · exact hpre k hk

theorem unread_append (pre post : List (Frame r)) (count : Nat) :
    unread (pre ++ post) count = unread pre count ++ unread post (count + pre.length) := by
  induction pre generalizing count with
  | nil => rfl
  | cons f pre ih =>
    rw [List.cons_append, unread, unread, ih, List.length_cons, Nat.add_assoc, Nat.add_comm 1]
    split <;> rfl

theorem read_of_lost {f : Frame r} (h : f.inStep = false) : f.read = none := by
  rw [Frame.read, h]
  exact if_neg fun hin => Bool.false_ne_true hin.1

/-- A first copy with a damaged data cell ends the tape. -/
theorem readData_first_lost (c16 : Bool) {fs : List (Frame r)} (hpass : s.pass = 1) (hcount : s.errorCount = 0)
    (hsize : fs.length ≤ s.size) (hfew : (unread fs 0).length ≤ maxErrors)
    (hlost : ¬∀ f ∈ fs, f.inStep = true) (n : Nat) (tape : List Nat) :
    (readData r c16 (fs.length + 1 + n) s 0 0 (framePulses fs ++ tape)).1.1 = .tapeEnd := by
  obtain ⟨pre, f, post, rfl, hpre, hf⟩ := exists_lost hlost
  rw [unread_append, List.length_append, unread, if_pos (read_of_lost hf), List.length_cons] at hfew
  rw [List.length_append, List.length_cons] at hsize ⊢
  have hfuel : pre.length + (post.length + 1) + 1 + n = pre.length + 2 + (post.length + n) := by omega
  rw [hfuel, readData_lost hpre hf (by omega), runFrames_first _ _ _ (k := 0) hpass hcount (by omega)]
  simp only [errorStep, hpass, if_true]
  rw [if_pos]
  omega

/-- A second copy with a damaged data cell is not accepted. -/
theorem readData_second_lost {fs : List (Frame r)} (hsize : fs.length ≤ s.size)
    (hpass : s.pass = 2) (hlost : ¬∀ f ∈ fs, f.inStep = true) (hcount : 0 ≤ s.errorCount) (n : Nat)
    (tape : List Nat) :
    (readData r c16 (fs.length + 1 + n) s 0 0 (framePulses fs ++ tape)).1.1 ≠ .ok := by
  obtain ⟨pre, f, post, rfl, hpre, hf⟩ := exists_lost hlost
  rw [List.length_append, List.length_cons] at hsize ⊢
  have hfuel : pre.length + (post.length + 1) + 1 + n = pre.length + 2 + (post.length + n) := by omega
  rw [hfuel, readData_lost hpre hf (by omega)]
  by_cases hfree : ∀ j ∈ unread pre 0, ¬Flagged s j
  · obtain ⟨ecount', hrun⟩ := runFrames_second 0 hpass hcount (fun i hi => absurd hi (Nat.not_lt_zero i)) hfree
    rw [hrun]
    dsimp only
    split
    · next herr => exact errorStep_error herr
    · intro hok
      cases hok
  · simp only [not_forall, not_not] at hfree
    obtain ⟨j, hj, hflag⟩ := hfree
    rw [runFrames_refused 0 hpass hcount (fun i hi => absurd hi (Nat.not_lt_zero i)) ⟨j, hj, hflag⟩]
    intro hok
    cases hok

/-! ## The loop over the passes -/

theorem readPasses_tapeEnd (h : (readBlockOnce r c16 s tape₁).1.1 = .tapeEnd) :
    (readPasses r c16 (n + 1) s tape₁).1.1 = .tapeEnd := by
  obtain ⟨s', tape', hread⟩ : ∃ s' tape', readBlockOnce r c16 s tape₁ = ((.tapeEnd, s'), tape') :=
    ⟨_, _, Prod.ext (Prod.ext h rfl) rfl⟩
  rw [readPasses, hread]
  simp

theorem readPasses_clean (h : readBlockOnce r c16 s tape₁ = ((.ok, s'), tape₂))
    (hcount : s'.errorCount = 0) (hpass : s'.pass = 1) (hskip : (skipRepeat r tape₂).1 = .ok) :
    (readPasses r c16 (n + 1) s tape₁).1 =
      (if xorAll (s'.buffer.take s'.size) ≠ 0 then .checksum else .ok, s') := by
  rw [readPasses, h]
  simp only [hcount, hpass, and_self, if_true, hskip]

theorem readPasses_again {tape₃ : List Nat} (h : readBlockOnce r c16 s tape₁ = ((.ok, s'), tape₂))
    (hcount : s'.errorCount ≠ 0) (hpass : s'.pass = 1)
    (hpilot : findPilot r tape₂ 0 tape₂ = some tape₃) :
    readPasses r c16 (n + 1) s tape₁ = readPasses r c16 n { s' with pass := 2 } tape₃ := by
  rw [readPasses, h]
  simp [hcount, hpass, hpilot]

theorem readPasses_joined (h : readBlockOnce r c16 s tape₁ = ((.ok, s'), tape₂))
    (hcount : s'.errorCount ≠ 0) (hpass : s'.pass = 2) :
    (readPasses r c16 (n + 1) s tape₁).1 = (.ok, s') := by
  rw [readPasses, h]
  simp [hcount, hpass]

theorem readPasses_failed (h : (readBlockOnce r c16 s tape₁).1.1 ≠ .ok)
    (hpass : (readBlockOnce r c16 s tape₁).1.2.pass = 2) :
    (readPasses r c16 (n + 1) s tape₁).1.1 ≠ .ok := by
  obtain ⟨ret, s', tape', hread⟩ : ∃ ret s' tape', readBlockOnce r c16 s tape₁ =
    ((ret, s'), tape') := ⟨_, _, _, rfl⟩
  rw [hread] at h hpass
  simp only at h hpass
  rw [readPasses, hread]
  simp only [h, hpass, false_and, if_false]
  split
  · exact h
  · simp [h]

/-- The second pilot is found from the end of the first copy, or from its end marker. -/
theorem findPilot_repeat (rec : Recording r) (tape : List Nat) (h : tape = rec.pilot₂ ++ rec.repeatTape ∨
      tape = rec.end₁.1 :: rec.end₁.2 :: (rec.pilot₂ ++ rec.repeatTape)) :
    ∃ shorts, (∀ p ∈ shorts, r.short p = true) ∧
      findPilot r tape 0 tape = some (shorts ++ rec.repeatTape) := by
  have hlen : pilotMinLength ≤ 0 + rec.pilot₂.length := by
    rw [Nat.zero_add]
    exact rec.pilot₂_length
  rcases h with rfl | rfl
  · exact ⟨rec.pilot₂, rec.pilot₂_short, findPilot_shorts rec.pilot₂_short hlen _⟩
  · have hshorts : ∀ p ∈ rec.end₁.2 :: rec.pilot₂, r.short p = true := by
      intro p hp
      rcases List.mem_cons.1 hp with rfl | hp
      · exact rec.end₁_mark.2
      · exact rec.pilot₂_short p hp
    refine ⟨rec.end₁.2 :: rec.pilot₂, hshorts, ?_⟩
    have hlong : r.short rec.end₁.1 = false := short_of_long rec.end₁_mark.1
    rw [findPilot, if_neg (by decide), hlong, if_neg Bool.false_ne_true, ← List.cons_append]
    refine findPilot_shorts hshorts ?_ _
    rw [List.length_cons]
    omega

theorem skipRepeat_repeat (rec : Recording r) (tape : List Nat) (h : tape = rec.pilot₂ ++ rec.repeatTape ∨
      tape = rec.end₁.1 :: rec.end₁.2 :: (rec.pilot₂ ++ rec.repeatTape)) :
    (skipRepeat r tape).1 = .ok := by
  obtain ⟨shorts, hshorts, hfind⟩ := findPilot_repeat rec tape h
  obtain ⟨f, fs, hcounts, hread, -⟩ := rec.counts₂
  rw [skipRepeat, hfind]
  simp only [skipPilot_shorts hshorts, Recording.repeatTape, hcounts, framePulses_cons,
    skipPilot_frame hread, if_true]

/-! ## The first copy -/

/-- What the first pass starts with. -/
def firstState (errorBuf : Nat → Int) (buffer : List UInt8) (size : Nat) : Block :=
  { pass := 1, buffer := buffer, size := size, errorBuf := errorBuf, errorCount := 0 }

theorem once_first (c16 : Bool) (errorBuf : Nat → Int) (buffer : List UInt8) (size : Nat)
    (rec : Recording r) : ∃ n, readBlockOnce r c16
    { pass := 1, buffer := buffer, size := size, errorBuf := errorBuf, errorCount := -1 } rec.tape =
      readData r c16 (rec.first.length + 1 + n) (firstState errorBuf buffer size) 0 0
        (framePulses rec.first ++ rec.end₁.1 :: rec.end₁.2 :: (rec.pilot₂ ++ rec.repeatTape)) := by
  obtain ⟨n, hfuel, -⟩ := fuel_frames rec.first rec.end₁.1 rec.end₁.2 (rec.pilot₂ ++ rec.repeatTape)
  refine ⟨n, ?_⟩
  rw [Recording.tape, readBlockOnce_recorded rec.pilot₁_short (.inl rfl) rec.counts₁, hfuel]
  rfl

/-- What a first copy without damaged data cells leaves. -/
def noted (errorBuf : Nat → Int) (buffer : List UInt8) (rec : Recording r) : Block :=
  { pass := 1
    buffer := writes rec.first 0 buffer
    size := rec.block.length
    errorBuf := storeErrors errorBuf 0 (unread rec.first 0)
    errorCount := (unread rec.first 0).length }

theorem once_noted (c16 : Bool) (errorBuf : Nat → Int) (buffer : List UInt8) (rec : Recording r) (hsize : rec.block.length ≤ size)
    (hin : ∀ f ∈ rec.first, f.inStep = true) :
    ∃ tape, (tape = rec.pilot₂ ++ rec.repeatTape ∨
        tape = rec.end₁.1 :: rec.end₁.2 :: (rec.pilot₂ ++ rec.repeatTape)) ∧
      readBlockOnce r c16
        { pass := 1, buffer := buffer, size := size, errorBuf := errorBuf, errorCount := -1 }
        rec.tape = ((.ok, noted errorBuf buffer rec), tape) := by
  have hlen := rec.copies₁.length_eq
  have hrun := runFrames_first rec.first 0 0 (s := firstState errorBuf buffer size) (k := 0) rfl rfl
    (by rw [Nat.zero_add]; exact rec.few)
  obtain ⟨n, honce⟩ := once_first c16 errorBuf buffer size rec
  obtain ⟨tape, htape, hread⟩ := readData_frames c16 n (rec.pilot₂ ++ rec.repeatTape)
    rec.end₁_mark.1 rec.end₁_mark.2 hin
    (show 0 + rec.first.length ≤ size by omega) hrun
  refine ⟨tape, htape, ?_⟩
  rw [honce, hread, noted, ← hlen, Nat.zero_add, Nat.zero_add]
  rfl

/-! ## The second copy -/

/-- What the second pass starts with. -/
def secondState (errorBuf : Nat → Int) (buffer : List UInt8) (rec : Recording r) : Block :=
  { noted errorBuf buffer rec with pass := 2 }

theorem once_second (c16 : Bool) (errorBuf : Nat → Int) (buffer : List UInt8) (rec : Recording r)
    {shorts : List Nat} (hshorts : ∀ p ∈ shorts, r.short p = true) :
    ∃ n, readBlockOnce r c16 (secondState errorBuf buffer rec) (shorts ++ rec.repeatTape) =
      readData r c16 (rec.second.length + 1 + n) (secondState errorBuf buffer rec) 0 0
        (framePulses rec.second ++ rec.end₂.1 :: rec.end₂.2 :: rec.rest) := by
  obtain ⟨n, hfuel, -⟩ := fuel_frames rec.second rec.end₂.1 rec.end₂.2 rec.rest
  refine ⟨n, ?_⟩
  rw [Recording.repeatTape, readBlockOnce_recorded hshorts (.inr rfl) rec.counts₂, hfuel]
  rfl

/-- What both copies leave. -/
def joined (errorBuf : Nat → Int) (buffer : List UInt8) (rec : Recording r) : Block :=
  { secondState errorBuf buffer rec with
    buffer := writes rec.second 0 (writes rec.first 0 buffer) }

theorem flagged_second (rec : Recording r) {j : Nat} (hj : j ∈ unread rec.second 0) :
    Flagged (secondState errorBuf buffer rec) j ↔
      (∀ x ∈ unread rec.first 0, x < j) ∧ errorBuf (unread rec.first 0).length = j :=
  flagged_iff rfl rfl fun hfirst => rec.once j hfirst hj

theorem joins_iff (buffer : List UInt8) (rec : Recording r) (hin : ∀ f ∈ rec.first, f.inStep = true) :
    rec.Joins errorBuf ↔ (∀ f ∈ rec.second, f.inStep = true) ∧
      ∀ j ∈ unread rec.second 0, ¬Flagged (secondState errorBuf buffer rec) j := by
  constructor
  · rintro ⟨-, hsecond, hfree⟩
    refine ⟨hsecond, fun j hj hflag => ?_⟩
    obtain ⟨hbehind, heq⟩ := (flagged_second rec hj).1 hflag
    exact hfree j hj hbehind heq
  · rintro ⟨hsecond, hfree⟩
    exact ⟨hin, hsecond, fun j hj hbehind heq =>
      hfree j hj ((flagged_second rec hj).2 ⟨hbehind, heq⟩)⟩

theorem once_joined (c16 : Bool) (buffer : List UInt8) (rec : Recording r) (hjoins : rec.Joins errorBuf) {shorts : List Nat}
    (hshorts : ∀ p ∈ shorts, r.short p = true) :
    ∃ tape, readBlockOnce r c16 (secondState errorBuf buffer rec) (shorts ++ rec.repeatTape) =
      ((.ok, joined errorBuf buffer rec), tape) := by
  have hlen := rec.copies₂.length_eq
  obtain ⟨hsecond, hfree⟩ := (joins_iff buffer rec hjoins.1).1 hjoins
  obtain ⟨n, honce⟩ := once_second c16 errorBuf buffer rec hshorts
  obtain ⟨ecount, hrun⟩ := runFrames_second (s := secondState errorBuf buffer rec) 0 rfl
    (Int.natCast_nonneg _) nofun hfree
  obtain ⟨tape, -, hread⟩ := readData_frames c16 n rec.rest rec.end₂_mark.1 rec.end₂_mark.2 hsecond
    (show 0 + rec.second.length ≤ rec.block.length by omega) hrun
  refine ⟨tape, ?_⟩
  rw [honce, hread, Nat.zero_add, hlen]
  rfl

theorem once_refused (c16 : Bool) (buffer : List UInt8) (rec : Recording r) (hin : ∀ f ∈ rec.first, f.inStep = true)
    (hjoins : ¬rec.Joins errorBuf) {shorts : List Nat} (hshorts : ∀ p ∈ shorts, r.short p = true) :
    (readBlockOnce r c16 (secondState errorBuf buffer rec) (shorts ++ rec.repeatTape)).1.1 ≠ .ok ∧
      (readBlockOnce r c16 (secondState errorBuf buffer rec)
        (shorts ++ rec.repeatTape)).1.2.pass = 2 := by
  have hlen := rec.copies₂.length_eq
  obtain ⟨n, honce⟩ := once_second c16 errorBuf buffer rec hshorts
  rw [honce]
  refine ⟨?_, readData_pass _ _ _ _ _⟩
  by_cases hsecond : ∀ f ∈ rec.second, f.inStep = true
  · have hflag : ∃ j ∈ unread rec.second 0, Flagged (secondState errorBuf buffer rec) j := by
      by_contra hnone
      exact hjoins ((joins_iff buffer rec hin).2 ⟨hsecond, fun j hj hflag => hnone ⟨j, hj, hflag⟩⟩)
    have hrun := runFrames_refused 0 rfl (Int.natCast_nonneg _) nofun hflag
    rw [readData_refused hsecond (show 0 + rec.second.length ≤ rec.block.length by omega) hrun]
    exact nofun
  · exact readData_second_lost (show rec.second.length ≤ rec.block.length by omega) rfl hsecond
      (Int.natCast_nonneg _) n _

/-! ## The block -/

theorem tape_fuel (rec : Recording r) : ∃ n, rec.tape.length + 1 = n + 1 + 1 := by
  refine ⟨rec.tape.length - 1, ?_⟩
  have hpos : 0 < rec.tape.length := by
    simp only [Recording.tape, List.length_append, List.length_cons]
    omega
  omega

theorem readBlock_clean (c16 : Bool) (errorBuf : Nat → Int) (rec : Recording r) (hsize : rec.block.length ≤ size)
    (hbuf : size ≤ buffer.length) (hall : unread rec.first 0 = []) :
    (readBlock r c16 errorBuf buffer size rec.tape).1 =
      (if xorAll rec.block ≠ 0 then .checksum else .ok, noted errorBuf buffer rec) := by
  have hin : ∀ f ∈ rec.first, f.inStep = true := by
    intro f hf
    cases hstep : f.inStep with
    | true => rfl
    | false =>
      obtain ⟨i, hi⟩ := List.getElem?_of_mem hf
      have hmem : i ∈ unread rec.first 0 :=
        mem_unread.2 ⟨i, f, hi, read_of_lost hstep, (Nat.zero_add i).symm⟩
      rw [hall] at hmem
      cases hmem
  obtain ⟨tape, htape, honce⟩ := once_noted c16 errorBuf buffer rec hsize hin
  have hcount : (noted errorBuf buffer rec).errorCount = 0 := by
    rw [noted, hall]
    rfl
  have hbytes : (noted errorBuf buffer rec).buffer.take (noted errorBuf buffer rec).size =
      rec.block := take_writes_first rec.copies₁ hall (Nat.le_trans hsize hbuf)
  rw [readBlock, readPasses_clean honce hcount rfl (skipRepeat_repeat rec tape htape), hbytes]

theorem readBlock_joined (c16 : Bool) (buffer : List UInt8) (rec : Recording r) (hsize : rec.block.length ≤ size)
    (hsome : unread rec.first 0 ≠ []) (hjoins : rec.Joins errorBuf) :
    (readBlock r c16 errorBuf buffer size rec.tape).1 = (.ok, joined errorBuf buffer rec) := by
  obtain ⟨tape, htape, honce⟩ := once_noted c16 errorBuf buffer rec hsize hjoins.1
  have hcount : (noted errorBuf buffer rec).errorCount ≠ 0 := by
    have hpos := List.length_pos_iff.2 hsome
    simp only [noted]
    omega
  obtain ⟨shorts, hshorts, hfind⟩ := findPilot_repeat rec tape htape
  obtain ⟨tape', hsecond⟩ := once_joined c16 buffer rec hjoins hshorts
  obtain ⟨n, hfuel⟩ := tape_fuel rec
  rw [readBlock, hfuel, readPasses_again honce hcount rfl hfind]
  exact readPasses_joined hsecond hcount rfl

theorem readBlock_refused (c16 : Bool) (buffer : List UInt8) (rec : Recording r) (hsize : rec.block.length ≤ size)
    (hsome : unread rec.first 0 ≠ []) (hjoins : ¬rec.Joins errorBuf) :
    (readBlock r c16 errorBuf buffer size rec.tape).1.1 ≠ .ok := by
  obtain ⟨n, hfuel⟩ := tape_fuel rec
  by_cases hin : ∀ f ∈ rec.first, f.inStep = true
  · obtain ⟨tape, htape, honce⟩ := once_noted c16 errorBuf buffer rec hsize hin
    have hcount : (noted errorBuf buffer rec).errorCount ≠ 0 := by
      have hpos := List.length_pos_iff.2 hsome
      simp only [noted]
      omega
    obtain ⟨shorts, hshorts, hfind⟩ := findPilot_repeat rec tape htape
    obtain ⟨hfail, hpass⟩ := once_refused c16 buffer rec hin hjoins hshorts
    rw [readBlock, hfuel, readPasses_again honce hcount rfl hfind]
    exact readPasses_failed hfail hpass
  · have hlen := rec.copies₁.length_eq
    obtain ⟨m, honce⟩ := once_first c16 errorBuf buffer size rec
    have hend := readData_first_lost c16 (s := firstState errorBuf buffer size) rfl rfl
      (show rec.first.length ≤ size by omega) rec.few hin m
      (rec.end₁.1 :: rec.end₁.2 :: (rec.pilot₂ ++ rec.repeatTape))
    rw [← honce] at hend
    rw [readBlock, readPasses_tapeEnd hend]
    exact nofun

/-- What was put together from both copies is the block, tested or not. -/
theorem recovered_of_joins (rec : Recording r) (hsize : rec.block.length ≤ size)
    (hbuf : size ≤ buffer.length) (hsome : unread rec.first 0 ≠ []) (hjoins : rec.Joins errorBuf) :
    Recovered c16 errorBuf buffer size rec ↔ xorAll rec.block = 0 := by
  have hbytes : (joined errorBuf buffer rec).buffer.take rec.block.length = rec.block :=
    take_writes rec.copies₁ rec.copies₂ rec.once (Nat.le_trans hsize hbuf)
  unfold Recovered
  rw [readBlock_joined c16 buffer rec hsize hsome hjoins]
  constructor
  · rintro ⟨-, hsum⟩
    exact (congrArg xorAll hbytes).symm.trans (hsum rfl)
  · intro hxor
    exact ⟨fun _ => ⟨rfl, hbytes⟩, fun _ => (congrArg xorAll hbytes).trans hxor⟩

/-- Else nothing is returned. -/
theorem recovered_of_refused (rec : Recording r) (hsize : rec.block.length ≤ size)
    (hsome : unread rec.first 0 ≠ []) (hjoins : ¬rec.Joins errorBuf) :
    Recovered c16 errorBuf buffer size rec ↔ xorAll rec.block ≠ 0 := by
  have hfail := readBlock_refused c16 buffer rec hsize hsome hjoins
  constructor
  · rintro ⟨hread, -⟩ hxor
    exact hfail (hread hxor).1
  · intro hxor
    exact ⟨fun hzero => absurd hzero hxor, fun hok => absurd hok hfail⟩

theorem recovered_of_clean (rec : Recording r) (hsize : rec.block.length ≤ size)
    (hbuf : size ≤ buffer.length) (hall : unread rec.first 0 = []) :
    Recovered c16 errorBuf buffer size rec := by
  have hbytes : (noted errorBuf buffer rec).buffer.take rec.block.length = rec.block :=
    take_writes_first rec.copies₁ hall (Nat.le_trans hsize hbuf)
  unfold Recovered
  rw [readBlock_clean c16 errorBuf rec hsize hbuf hall]
  refine ⟨fun hxor => ⟨?_, hbytes⟩, fun hok => ?_⟩
  · rw [hxor]
    rfl
  · have hsum : xorAll rec.block = 0 := by
      by_contra hne
      rw [if_pos hne] at hok
      cases hok
    exact (congrArg xorAll hbytes).trans hsum

/-- A byte with the pulses in the middle of their ranges. -/
def recordByte (b : UInt8) : Frame defaultRanges where
  mark := 0x56
  second := 0x40
  cells := (bitsOf b).map fun x => if x then (0x40, 0x30) else (0x30, 0x40)
  parity := if oddParity (bitsOf b) then (0x40, 0x30) else (0x30, 0x40)
  mark_long := by decide
  second_middle := by decide
  length_cells := by rw [List.length_map, bitsOf, List.length_map, List.length_range]
  noMark := by
    intro c hc
    obtain ⟨x, -, rfl⟩ := List.mem_map.1 hc
    cases x <;> exact ⟨rfl, rfl⟩
  parity_noMark := by
    cases oddParity (bitsOf b) <;> exact ⟨rfl, rfl⟩

theorem read_recordByte (b : UInt8) : (recordByte b).read = some b := by
  have hcell : ∀ x : Bool,
      cellBit defaultRanges (if x then (0x40, 0x30) else (0x30, 0x40)) = some x := by decide
  rw [read_eq_some_iff]
  refine ⟨?_, hcell _⟩
  rw [recordByte, List.map_map]
  exact List.map_congr_left fun x _ => hcell x

/-- A byte with a damaged parity cell. -/
def parityFails (b : UInt8) : Frame defaultRanges :=
  { recordByte b with
    parity := (0x30, 0x30)
    parity_noMark := ⟨rfl, rfl⟩ }

theorem read_parityFails (b : UInt8) : (parityFails b).read = none :=
  if_neg fun h => nomatch h.2

theorem inStep_parityFails (b : UInt8) : (parityFails b).inStep = true := by
  have hbyte : (recordByte b).inStep = true := inStep_of_read (read_recordByte b)
  exact hbyte

/-- A byte whose last data cell is damaged. -/
def cellFails (b : UInt8) : Frame defaultRanges :=
  { recordByte b with
    cells := (recordByte b).cells.dropLast ++ [(0x30, 0x30)]
    length_cells := by
      rw [List.length_append, List.length_dropLast, (recordByte b).length_cells]
      rfl
    noMark := by
      intro c hc
      rcases List.mem_append.1 hc with hc | hc
      · exact (recordByte b).noMark c ((List.dropLast_sublist _).subset hc)
      · rw [List.mem_singleton.1 hc]
        exact ⟨rfl, rfl⟩ }

theorem inStep_cellFails (b : UInt8) : (cellFails b).inStep = false := by
  rw [Frame.inStep, List.all_eq_false]
  exact ⟨(0x30, 0x30), List.mem_append_right _ (List.mem_singleton_self _), by decide⟩

def recordCountdown (pass : Nat) : Nat → List (Frame defaultRanges)
  | 0 => []
  | n + 1 => recordByte (countByte pass (n + 1)) :: recordCountdown pass n

theorem countsDown_recordCountdown (pass n : Nat) : CountsDown pass n (recordCountdown pass n) := by
  induction n with
  | zero => rfl
  | succ n ih => exact ⟨_, _, rfl, read_recordByte _, ih⟩

theorem unread_recordByte (block : List UInt8) (count : Nat) : unread (block.map recordByte) count = [] := by
  induction block generalizing count with
  | nil => rfl
  | cons b block ih =>
    rw [List.map_cons, unread, read_recordByte, if_neg (Option.some_ne_none b)]
    exact ih (count + 1)

theorem copies_recordByte (block : List UInt8) : Copies (block.map recordByte) block := by
  rw [Copies, List.forall₂_map_left_iff, List.forall₂_same]
  exact fun b _ => .inl (read_recordByte b)

/-- A block whose second copy is in order. -/
def recordTwice (block : List UInt8) (first : List (Frame defaultRanges))
    (hcopies : Copies first block) (hfew : (unread first 0).length ≤ maxErrors) :
    Recording defaultRanges where
  block := block
  pilot₁ := List.replicate 32 0x30
  count₁ := recordCountdown 1 9
  first := first
  end₁ := (0x56, 0x30)
  pilot₂ := List.replicate 32 0x30
  count₂ := recordCountdown 2 9
  second := block.map recordByte
  end₂ := (0x56, 0x30)
  rest := []
  pilot₁_short _ hp := List.eq_of_mem_replicate hp ▸ rfl
  pilot₂_short _ hp := List.eq_of_mem_replicate hp ▸ rfl
  pilot₂_length := by
    rw [List.length_replicate]
    exact Nat.le_refl 32
  counts₁ := countsDown_recordCountdown 1 9
  counts₂ := countsDown_recordCountdown 2 9
  end₁_mark := ⟨rfl, rfl⟩
  end₂_mark := ⟨rfl, rfl⟩
  copies₁ := hcopies
  copies₂ := copies_recordByte block
  few := hfew
  once := by
    rw [unread_recordByte]
    exact nofun

/-- `first` is joined with a second copy that is in order, if its data cells are. -/
theorem joins_recordTwice {block : List UInt8} {first : List (Frame defaultRanges)}
    {hcopies : Copies first block} {hfew : (unread first 0).length ≤ maxErrors}
    (hin : ∀ f ∈ first, f.inStep = true) : (recordTwice block first hcopies hfew).Joins errorBuf := by
  refine ⟨hin, fun f hf => ?_, fun j hj => ?_⟩
  · obtain ⟨b, -, rfl⟩ := List.mem_map.1 hf
    exact inStep_of_read (read_recordByte b)
  · have hnone : unread (recordTwice block first hcopies hfew).second 0 = [] :=
      unread_recordByte block 0
    rw [hnone] at hj
    cases hj

/-- One byte of the first copy has a damaged cell, the second copy and the rest are in order. -/
def oneFails (block : List UInt8) (b : UInt8) (f : Frame defaultRanges) (hread : f.read = none) :
    Recording defaultRanges :=
  recordTwice (b :: block) (f :: block.map recordByte)
    (.cons (.inr hread) (copies_recordByte block)) (by
      rw [unread, if_pos hread, unread_recordByte]
      decide)

theorem unread_oneFails (block : List UInt8) (b : UInt8) (f : Frame defaultRanges)
    (hread : f.read = none) : unread (oneFails block b f hread).first 0 ≠ [] := by
  have hfirst : unread (oneFails block b f hread).first 0 = 0 :: unread (block.map recordByte) 1 :=
    if_pos hread
  rw [hfirst]
  exact nofun

theorem joins_oneFails (block : List UInt8) (b : UInt8) (f : Frame defaultRanges)
    (hread : f.read = none) (hin : f.inStep = true) : (oneFails block b f hread).Joins errorBuf := by
  refine joins_recordTwice fun g hg => ?_
  rcases List.mem_cons.1 hg with rfl | hg
  · exact hin
  · obtain ⟨c, -, rfl⟩ := List.mem_map.1 hg
    exact inStep_of_read (read_recordByte c)

end Vice.L4.TapRecovery
