import Vice.L4Machine.DatasetteRewind

/-!
# Every index into the datasette's buffer

The reader of `Datasette` once more, with every look into the buffer checked against what was
last read into it and every loop stopped where it has to be done. What the checks let through is
what the unchecked reader does, wherever a deck can get by calls, buttons and new tapes.

Results:
* `readGapForward_checked`, `readGapBackward_checked`: one call passes the checks.
* `run_fits`: so does any run, and the buffer is the part of the tape around the position after it.
-/
namespace Vice.L4.DatasetteIndices
open Vice.L1.Gcr Vice.L4.Datasette Vice.L4.DatasetteBuffer Vice.L4.DatasetteRewind

variable {t : Tape} {s : Deck} {w n l k p q r limit : Nat}

/-- `tap_buffer[i]`, none outside of what was read. -/
def element (s : Deck) (i : Int) : Option UInt8 :=
  if 0 ≤ i ∧ i < s.lastTap then some (s.byte i) else none

section
variable (t : Tape)

/-- mirrors src/datasette/datasette.c:504-536 (`fetch_gap`) -/
def fetchGap (s : Deck) (direction readTap : Int) : Option (Option (Nat × Int)) :=
  if s.lastTap ≤ readTap ∨ readTap < 0 then some none
  else do
    let gap ← element s readTap
    if t.version = 0 ∨ gap.toNat ≠ 0 then
      some (some (if gap.toNat ≠ 0 then gap.toNat * 8 else t.zeroGapDelay, direction))
    else if s.lastTap - 3 ≤ readTap then some none
    else do
      let low ← element s (readTap + 1)
      let middle ← element s (readTap + 2)
      let high ← element s (readTap + 3)
      let gap := low.toNat + middle.toNat <<< 8 + high.toNat <<< 16
      some (some (if gap ≠ 0 then gap else t.zeroGapDelay, direction * 4))

/-- mirrors src/datasette/datasette.c:562-573; none also where the turns do not do -/
def scanBack : Nat → Nat → Deck → Option (Bool × Deck)
  | 0, nonZerosInARow, s =>
    if nonZerosInARow < 3 ∧ s.currentFileSeekPosition ≠ 0 then none else some (true, s)
  | fuel + 1, nonZerosInARow, s =>
    if nonZerosInARow < 3 ∧ s.currentFileSeekPosition ≠ 0 then
      match moveBufferBack t (-1) s with
      | (false, s) => some (false, s)
      | (true, s) => do
        let s := s.move (-1)
        let byte ← element s s.nextTap
        scanBack fuel (if byte ≠ 0 then nonZerosInARow + 1 else 0) s
    else some (true, s)

/-- mirrors src/datasette/datasette.c:575-587 -/
def walkForward (limit : Int) : Nat → Deck → Option (Bool × Deck)
  | 0, s => if s.currentFileSeekPosition < limit then none else some (true, s)
  | fuel + 1, s =>
    if s.currentFileSeekPosition < limit then
      match moveBufferForward t 1 s with
      | (false, s) => some (false, s)
      | (true, s) => do
        let byte ← element s s.nextTap
        walkForward limit fuel (s.move (if byte ≠ 0 then 1 else 4))
    else some (true, s)

/-- mirrors src/datasette/datasette.c:548-597 (`read_gap_backward_v1`) -/
def readGapBackwardV1 (s : Deck) : Option (Int × Int × Deck) :=
  let rememberFileSeekPosition := s.currentFileSeekPosition
  let s := s.move (-4)
  match scanBack t s.currentFileSeekPosition.toNat 0 s with
  | none => none
  | some (false, s) => some (1, 0, s)
  | some (true, s) =>
    let limit := rememberFileSeekPosition - 4
    match walkForward t limit (limit - s.currentFileSeekPosition).toNat s with
    | none => none
    | some (false, s) => some (-1, 0, s)
    | some (true, s) =>
      match moveBufferForward t 4 s with
      | (false, s) => some (-1, 0, s)
      | (true, s) =>
        some (0, s.nextTap, s.move (rememberFileSeekPosition - s.currentFileSeekPosition))

/-- The gap before the tape's wobble, none where the source returns before it has one:
mirrors src/datasette/datasette.c:627-631 -/
def takeGap (direction readTap : Int) (s : Deck) : Option (Option Nat × Deck) :=
  (fetchGap t s direction readTap).map fun
    | none => (none, s)
    | some (gap, direction) => (some gap, s.move direction)

/-- mirrors src/datasette/datasette.c:615-631 -/
def readGapForward (s : Deck) : Option (Option Nat × Deck) :=
  match moveBufferForward t 4 s with
  | (false, s) => some (none, s)
  | (true, s) => takeGap t 1 s.nextTap s

/-- mirrors src/datasette/datasette.c:612-631 -/
def readGapBackward (s : Deck) : Option (Option Nat × Deck) :=
  match moveBufferBack t (-4) s with
  | (false, s) => some (none, s)
  | (true, s) => do
    let short ← (if t.version = 0 ∨ s.nextTap < 4 then some true
      else (element s (s.nextTap - 4)).map (· ≠ 0))
    if short then takeGap t (-1) (s.nextTap - 1) s
    else do
      let (status, readTap, s) ← readGapBackwardV1 t s
      if status < 0 then some (none, s) else takeGap t (-1) readTap s

/-- mirrors src/datasette/datasette.c:599-631 -/
def datasetteReadGap (direction : Direction) (s : Deck) : Option (Option Nat × Deck) :=
  match direction with
  | .forward => readGapForward t s
  | .rewind => readGapBackward t s

end

/-! ## The checks pass -/

theorem element_window (h : Window t s w n l) (hk : k < l) : element s k = some (t.byteAt (w + k)) := by
  rw [element, if_pos, h.byte hk]
  rw [h.last]
  omega

/-- `fetch_gap` looks before it takes. -/
theorem fetchGap_checked (t : Tape) (s : Deck) (direction readTap : Int) :
    fetchGap t s direction readTap = some (Datasette.fetchGap t s direction readTap) := by
  unfold fetchGap Datasette.fetchGap element
  by_cases hin : s.lastTap ≤ readTap ∨ readTap < 0
  · rw [if_pos hin, if_pos hin]
  · rw [if_neg hin, if_neg hin, if_pos (by omega)]
    by_cases hshort : t.version = 0 ∨ (s.byte readTap).toNat ≠ 0
    · simp only [Option.bind_eq_bind, Option.bind_some, if_pos hshort]
    · by_cases hroom : s.lastTap - 3 ≤ readTap
      · simp only [Option.bind_eq_bind, Option.bind_some, if_neg hshort, if_pos hroom]
      · have h1 : 0 ≤ readTap + 1 ∧ readTap + 1 < s.lastTap := by omega
        have h2 : 0 ≤ readTap + 2 ∧ readTap + 2 < s.lastTap := by omega
        have h3 : 0 ≤ readTap + 3 ∧ readTap + 3 < s.lastTap := by omega
        simp only [Option.bind_eq_bind, Option.bind_some, if_neg hshort, if_neg hroom, if_pos h1,
          if_pos h2, if_pos h3]

theorem scanBack_checked (fuel nonZeros : Nat) (hat : At t s fuel) :
    scanBack t fuel nonZeros s = some (Datasette.scanBack t fuel nonZeros s) := by
  induction fuel generalizing s nonZeros with
  | zero =>
    rw [scanBack, Datasette.scanBack, if_neg]
    rw [at_position hat]
    exact fun h => h.2 rfl
  | succ fuel ih =>
    obtain ⟨w, n, l, hwin, hnl, hp⟩ := id hat
    unfold scanBack Datasette.scanBack
    by_cases hmore : nonZeros < 3 ∧ s.currentFileSeekPosition ≠ 0
    · obtain ⟨s1, w', n', l', hback, hwin', hnl', hpos, hroom⟩ :=
        @moveBufferBack_spec t s w n l 1 hwin hnl (by decide)
      have hback' : moveBufferBack t (-1) s = (true, s1) := hback
      have hmove := hwin'.move (m := n' - 1) (by have := hwin'.position_le; omega)
      have hone : ((n' - 1 : Nat) : Int) - n' = -1 := by omega
      rw [hone] at hmove
      have helement : element (s1.move (-1)) (s1.move (-1)).nextTap =
          some ((s1.move (-1)).byte (s1.move (-1)).nextTap) := by
        rw [hmove.next, element_window hmove (by omega), hmove.byte (by omega)]
      simp only [if_pos hmore, hback', helement, Option.bind_eq_bind, Option.bind_some]
      exact ih _ ⟨w', n' - 1, l', hmove, by omega, by omega⟩
    · rw [if_neg hmore, if_neg hmore]

theorem walkForward_checked (hversion : t.version ≠ 0) (fuel : Nat) (hwin : Window t s w n l)
    (hfuel : limit ≤ w + n + fuel) (hlimit : limit + 4 ≤ t.length) :
    walkForward t limit fuel s = some (Datasette.walkForward t limit fuel s) := by
  induction fuel generalizing s w n l with
  | zero =>
    have hposition := hwin.position
    rw [walkForward, Datasette.walkForward, if_neg (by omega)]
  | succ fuel ih =>
    unfold walkForward Datasette.walkForward
    have hposition := hwin.position
    by_cases hmore : s.currentFileSeekPosition < limit
    · obtain ⟨s1, w', n', l', hforward, hwin', hnl', hpos, hroom⟩ :=
        @moveBufferForward_spec t s w n l 1 hwin (by decide)
      have hforward' : moveBufferForward t 1 s = (true, s1) := by
        rw [decide_eq_true (show w + n < t.length by omega)] at hforward
        exact hforward
      have hin : n' < l' := hroom 0 (Nat.zero_le _) (by omega)
      have hbyte : s1.byte s1.nextTap = t.byteAt (w + n) := by
        rw [hwin'.next, ← hpos]
        exact hwin'.byte hin
      have helement : element s1 s1.nextTap = some (s1.byte s1.nextTap) := by
        rw [hbyte, hwin'.next, element_window hwin' hin, hpos]
      have hstep : (if t.byteAt (w + n) ≠ 0 then (1 : Int) else 4) =
          ((n' + t.step (w + n) : Nat) : Int) - n' := by
        rw [Tape.step]
        simp only [hversion, false_or]
        split <;> omega
      have hle := next_le t (w + n)
      have hpos' := step_pos t (w + n)
      have hmove := hwin'.move (m := n' + t.step (w + n)) (by rw [Tape.next] at hle; omega)
      simp only [if_pos hmore, hforward', helement, Option.bind_eq_bind, Option.bind_some]
      rw [hbyte, hstep]
      exact ih hmove (by omega)
    · rw [if_neg hmore, if_neg hmore]

theorem takeGap_checked (t : Tape) (direction readTap : Int) (s : Deck) :
    ∃ gap s', takeGap t direction readTap s = some (gap, s') ∧
      Datasette.takeGap t direction readTap s = (gap.getD 0, s') := by
  rw [takeGap, fetchGap_checked, Datasette.takeGap]
  cases Datasette.fetchGap t s direction readTap with
  | none => exact ⟨none, s, rfl, rfl⟩
  | some found => exact ⟨some found.1, _, rfl, rfl⟩

theorem readGapBackwardV1_checked (hversion : t.version ≠ 0) (hwin : Window t s w n l) (hnl : n ≤ l)
    (hn : 4 ≤ n) (hp : w + n = t.next q) :
    readGapBackwardV1 t s = some (Datasette.readGapBackwardV1 t s) := by
  have hple := hwin.position_le
  have hlast := next_le t q
  have hbefore := next_gt t q
  have hmove := hwin.move (m := n - 4) (by omega)
  have hfour : ((n - 4 : Nat) : Int) - n = -4 := by omega
  rw [hfour] at hmove
  have hfuel : (s.move (-4)).currentFileSeekPosition.toNat = t.next q - 4 := by
    rw [hmove.position]
    omega
  have hstart : At t (s.move (-4)) (t.next q - 4) := ⟨w, n - 4, l, hmove, by omega, by omega⟩
  obtain ⟨s1, r, hscan, ⟨w1, n1, l1, hwin1, -, hr1⟩, hr, -⟩ :=
    @scanBack_spec t (s.move (-4)) (t.next q - 4) (t.next q - 4) 0 hstart
      (fun i hi => absurd hi (Nat.not_lt_zero _)) (by decide) (by omega)
  have hchecked := scanBack_checked (t.next q - 4) 0 hstart
  rw [hscan] at hchecked
  have hlimit : s.currentFileSeekPosition - 4 = ((t.next q - 4 : Nat) : Int) := by
    rw [hwin.position]
    omega
  have hpos1 := hwin1.position
  have hwalk := @walkForward_checked t s1 w1 n1 l1 (t.next q - 4) hversion
    (((t.next q - 4 : Nat) : Int) - s1.currentFileSeekPosition).toNat hwin1 (by omega) (by omega)
  simp only [readGapBackwardV1, Datasette.readGapBackwardV1, hfuel, hchecked, hscan, hlimit, hwalk]
  rcases Datasette.walkForward t ((t.next q - 4 : Nat) : Int)
    (((t.next q - 4 : Nat) : Int) - s1.currentFileSeekPosition).toNat s1 with ⟨_ | _, s2⟩
  · rfl
  · dsimp only
    rcases moveBufferForward t 4 s2 with ⟨_ | _, s3⟩ <;> rfl

theorem readGapForward_checked (t : Tape) (s : Deck) : ∃ gap s', readGapForward t s = some (gap, s') ∧
      Datasette.readGapForward t s = (gap.getD 0, s') := by
  unfold readGapForward Datasette.readGapForward
  rcases moveBufferForward t 4 s with ⟨_ | _, s1⟩
  · exact ⟨none, s1, rfl, rfl⟩
  · exact takeGap_checked t 1 s1.nextTap s1

theorem readGapBackward_checked (hat : At t s p) (hgap : t.AtGap p) :
    ∃ gap s', readGapBackward t s = some (gap, s') ∧
      Datasette.readGapBackward t s = (gap.getD 0, s') := by
  obtain ⟨w, n, l, hwin, hnl, hp⟩ := hat
  obtain ⟨s1, w', n', l', hback, hwin', hnl', hpos, hroom⟩ :=
    @moveBufferBack_spec t s w n l 4 hwin hnl (by decide)
  have hback' : moveBufferBack t (-4) s = (true, s1) := hback
  have hnext := hwin'.next
  simp only [readGapBackward, Datasette.readGapBackward, hback']
  by_cases hfew : t.version = 0 ∨ s1.nextTap < 4
  · have hshort : t.version = 0 ∨ s1.nextTap < 4 ∨ s1.byte (s1.nextTap - 4) ≠ 0 :=
      hfew.imp id Or.inl
    simp only [if_pos hfew, if_pos hshort, Option.bind_eq_bind, Option.bind_some, ↓reduceIte]
    exact takeGap_checked t (-1) (s1.nextTap - 1) s1
  · rw [not_or] at hfew
    obtain ⟨hversion, hfour⟩ := hfew
    have hcast : s1.nextTap - 4 = ((n' - 4 : Nat) : Int) := by omega
    have helement : element s1 (s1.nextTap - 4) = some (s1.byte (s1.nextTap - 4)) := by
      rw [hcast, element_window hwin' (by omega), hwin'.byte (by omega)]
    have hfew' : ¬(t.version = 0 ∨ s1.nextTap < 4) := fun h => h.elim hversion hfour
    simp only [if_neg hfew', helement, Option.map_some, Option.bind_eq_bind, Option.bind_some,
      decide_eq_true_eq]
    by_cases hbyte : s1.byte (s1.nextTap - 4) ≠ 0
    · rw [if_pos hbyte, if_pos (.inr (.inr hbyte))]
      exact takeGap_checked t (-1) (s1.nextTap - 1) s1
    · have hlong : ¬(t.version = 0 ∨ s1.nextTap < 4 ∨ s1.byte (s1.nextTap - 4) ≠ 0) :=
        fun h => h.elim hversion fun h => h.elim hfour hbyte
      obtain ⟨q, -, hqp⟩ := chain_prev hgap.1 (show 0 < p by omega)
      have hv1 := readGapBackwardV1_checked hversion hwin' hnl' (by omega)
        (hpos.trans (hp.trans hqp.symm))
      rw [if_neg hbyte, if_neg hlong, hv1]
      rcases Datasette.readGapBackwardV1 t s1 with ⟨status, readTap, s2⟩
      simp only [Option.bind_some]
      by_cases hfail : status < 0
      · rw [if_pos hfail, if_pos hfail]
        exact ⟨none, s2, rfl, rfl⟩
      · rw [if_neg hfail, if_neg hfail]
        exact takeGap_checked t (-1) readTap s2

/-! ## How much is read at a time -/

/-- No more than the buffer holds. -/
def Short (s : Deck) : Prop := s.lastTap ≤ tapBufferLength

theorem refill_short {position : Int} {s' : Deck} (h : refill t position s = some s') : Short s' := by
  unfold refill at h
  split at h
  · cases h
  · cases h
    exact Int.ofNat_le.2 (List.length_take_le _ _)

theorem moveBufferForward_short (t : Tape) (offset : Int) (h : Short s) :
    Short (moveBufferForward t offset s).2 := by
  unfold moveBufferForward
  split
  · split
    · exact h
    · rename_i s1 hfill
      exact (refill_short hfill : Short s1)
  · exact h

theorem moveBufferBack_short (t : Tape) (offset : Int) (h : Short s) : Short (moveBufferBack t offset s).2 := by
  unfold moveBufferBack
  split
  · dsimp only
    split
    · exact h
    · rename_i hfill
      exact refill_short hfill
  · exact h

theorem scanBack_short (t : Tape) (fuel nonZeros : Nat) (h : Short s) :
    Short (Datasette.scanBack t fuel nonZeros s).2 := by
  induction fuel generalizing s nonZeros with
  | zero => exact h
  | succ fuel ih =>
    unfold Datasette.scanBack
    have hback := moveBufferBack_short t (-1) h
    split
    · split
      all_goals
        rename_i s1 heq
        rw [heq] at hback
      · exact hback
      · exact ih _ hback
    · exact h

theorem walkForward_short (t : Tape) (limit : Int) (fuel : Nat) (h : Short s) :
    Short (Datasette.walkForward t limit fuel s).2 := by
  induction fuel generalizing s with
  | zero => exact h
  | succ fuel ih =>
    unfold Datasette.walkForward
    have hforward := moveBufferForward_short t 1 h
    split
    · split
      all_goals
        rename_i s1 heq
        rw [heq] at hforward
      · exact hforward
      · exact ih hforward
    · exact h

theorem takeGap_short (t : Tape) (direction readTap : Int) (h : Short s) :
    Short (Datasette.takeGap t direction readTap s).2 := by
  unfold Datasette.takeGap
  split <;> exact h

theorem readGapBackwardV1_short (t : Tape) (h : Short s) : Short (Datasette.readGapBackwardV1 t s).2.2 := by
  unfold Datasette.readGapBackwardV1
  have hscan := scanBack_short t (s.move (-4)).currentFileSeekPosition.toNat 0
    (show Short (s.move (-4)) from h)
  dsimp only
  split
  · rename_i s1 heq
    rw [heq] at hscan
    exact hscan
  · rename_i s1 heq
    rw [heq] at hscan
    have hwalk := walkForward_short t (s.currentFileSeekPosition - 4)
      (s.currentFileSeekPosition - 4 - s1.currentFileSeekPosition).toNat hscan
    split
    all_goals
      rename_i s2 heq1
      rw [heq1] at hwalk
    · exact hwalk
    · have hforward := moveBufferForward_short t 4 hwalk
      split
      all_goals
        rename_i s3 heq2
        rw [heq2] at hforward
        exact hforward

theorem datasetteReadGap_short (t : Tape) (direction : Direction) (h : Short s) :
    Short (Datasette.datasetteReadGap t direction s).2 := by
  cases direction with
  | forward =>
    unfold Datasette.datasetteReadGap Datasette.readGapForward
    have hforward := moveBufferForward_short t 4 h
    dsimp only
    split
    all_goals
      rename_i s1 heq
      rw [heq] at hforward
    · exact hforward
    · exact takeGap_short t 1 _ hforward
  | rewind =>
    unfold Datasette.datasetteReadGap Datasette.readGapBackward
    have hback := moveBufferBack_short t (-4) h
    dsimp only
    split
    all_goals
      rename_i s1 heq
      rw [heq] at hback
    · exact hback
    · have hv1 := readGapBackwardV1_short t hback
      split
      · exact takeGap_short t (-1) _ hback
      · split
        · exact hv1
        · exact takeGap_short t (-1) _ hv1

theorem datasetteReadGap_checked (hat : At t s p) (hgap : t.AtGap p) (direction : Direction) :
    ∃ gap s', datasetteReadGap t direction s = some (gap, s') ∧
      Datasette.datasetteReadGap t direction s = (gap.getD 0, s') := by
  cases direction with
  | forward => exact readGapForward_checked t s
  | rewind => exact readGapBackward_checked hat hgap

/-! ## The deck at work -/

/-- `machine_tape_behaviour()` -/
inductive Behaviour
  | regular
  | c16
  deriving DecidableEq

/-- The buttons: src/datasette/datasette.h (`DATASETTE_CONTROL_...`). -/
inductive Command
  | stop
  | start
  | forward
  | rewind
  | record
  | reset
  | resetCounter
  deriving DecidableEq

/-- What else decides what a button does. -/
structure Surroundings where
  eventPlaybackActive : Bool
  networkConnected : Bool
  autostartIgnoreReset : Bool

/-- A tape port: `current_image`, its position and the buffer, and the half waves of the C16. -/
structure Port where
  image : Option Tape
  deck : Deck
  fullwave : Bool
  fullwaveGap : Nat

namespace Port
variable (behaviour : Behaviour) (around : Surroundings)

/-- `deviate` is `tape_do_wobble` and `tape_do_misalignment`. Without an image the alarm does not
come this far. mirrors src/datasette/datasette.c:599-693 (`datasette_read_gap`) -/
def readGap (direction : Direction) (deviate : Nat → Nat) (p : Port) : Option (Nat × Port) :=
  match p.image with
  | none => some (0, p)
  | some t =>
    if behaviour = .regular then do
      let (gap, deck) ← datasetteReadGap t direction p.deck
      some ((gap.map deviate).getD 0, { p with deck := deck })
    else if t.version = 1 then
      if p.fullwave then some (p.fullwaveGap, { p with fullwave := false })
      else do
        let (gap, deck) ← datasetteReadGap t direction p.deck
        match gap with
        | none => some (0, { p with deck := deck })
        | some gap =>
          some (deviate gap, { p with deck := deck, fullwaveGap := deviate gap, fullwave := true })
    else if t.version = 2 then do
      let (gap, deck) ← datasetteReadGap t direction p.deck
      match gap with
      | none => some (0, { p with deck := deck })
      | some gap => some (deviate gap * 2, { p with deck := deck, fullwave := !p.fullwave })
    else some (0, p)

/-- `last_tap[port] = next_tap[port] = 0` -/
def clearTap (p : Port) : Port := { p with deck := { p.deck with nextTap := 0, lastTap := 0 } }

/-- `current_file_seek_position = 0` -/
def seekStart (p : Port) : Port := { p with deck := { p.deck with currentFileSeekPosition := 0 } }

/-- The stop button first, as it gets there: mirrors src/datasette/datasette.c:952-982
(`datasette_internal_reset`) -/
def internalReset (p : Port) : Port :=
  let p := if around.eventPlaybackActive || around.networkConnected then p else p.clearTap
  let p := if p.image.isSome && !around.autostartIgnoreReset then p.seekStart else p
  { p with fullwave := false }

/-- mirrors src/datasette/datasette.c:1041-1157 (`datasette_control_internal`) -/
def controlInternal (command : Command) (p : Port) : Port :=
  clearTap (if command = .reset then internalReset around p else p)

/-- mirrors src/datasette/datasette.c:1159-1169 (`datasette_control`) -/
def control (command : Command) (p : Port) : Port :=
  if around.eventPlaybackActive || around.networkConnected then p
  else controlInternal around command p

/-- The length of the tape, gap by gap, with what the motor does to each of them:
mirrors src/datasette/datasette.c:898-901 -/
def countGaps (deviate : Nat → Nat → Nat) : Nat → Port → Option Port
  | 0, _ => none
  | fuel + 1, p => do
    let (gap, p) ← readGap behaviour .forward (deviate fuel) p
    if gap = 0 then some p else countGaps deviate fuel p

/-- An image with the position it comes with, or none; `allocated` is what a new buffer holds:
mirrors src/datasette/datasette.c:879-925 (`datasette_set_tape_image`) -/
def setTapeImage (image : Option (Tape × Nat)) (allocated : Bytes) (deviate : Nat → Nat → Nat)
    (p : Port) : Option Port :=
  let tapBuffer := if p.image.isSome then p.deck.tapBuffer else allocated
  match image with
  | none =>
    some { clearTap (internalReset around { p with image := none, deck := p.clearTap.deck }) with
      fullwave := false }
  | some (t, position) => do
    let p := internalReset around
      { p with image := some t, deck := ⟨position, 0, 0, tapBuffer⟩ }
    let p ← countGaps behaviour deviate (2 * t.length + 2) p
    some { p.seekStart.clearTap with fullwave := false }

end Port

/-- What can happen to a port. -/
inductive Event
  | readGap (direction : Direction) (deviate : Nat → Nat)
  | control (around : Surroundings) (command : Command)
  /-- From a recorded event or the network. -/
  | controlInternal (around : Surroundings) (command : Command)
  | setTapeImage (around : Surroundings) (image : Option (Tape × Nat)) (allocated : Bytes)
      (deviate : Nat → Nat → Nat)

def step (behaviour : Behaviour) (p : Port) : Event → Option Port
  | .readGap direction deviate => (p.readGap behaviour direction deviate).map Prod.snd
  | .control around command => some (p.control around command)
  | .controlInternal around command => some (p.controlInternal around command)
  | .setTapeImage around image allocated deviate =>
    p.setTapeImage behaviour around image allocated deviate

def run (behaviour : Behaviour) (p : Port) : List Event → Option Port
  | [] => some p
  | event :: events => (step behaviour p event).bind fun p => run behaviour p events

/-- No image yet. -/
def Port.initial : Port := ⟨none, ⟨0, 0, 0, []⟩, false, 0⟩

/-! ## What holds between two events -/

/-- The buffer is the part of the tape around the position: `tap_buffer[next_tap]` is what comes
next, in the buffer or right behind it. -/
structure Fits (p : Port) : Prop where
  last_le : p.deck.lastTap ≤ tapBufferLength
  corresponds : 0 < p.deck.lastTap → ∃ t, p.image = some t ∧
    0 ≤ p.deck.nextTap ∧ p.deck.nextTap ≤ p.deck.lastTap ∧
    p.deck.nextTap ≤ p.deck.currentFileSeekPosition ∧
    ∀ i, 0 ≤ i → i < p.deck.lastTap → p.deck.byte i =
      t.byteAt (p.deck.currentFileSeekPosition - p.deck.nextTap + i).toNat

/-- A deck with a tape in it, its position at the start of a gap. -/
def Settled (t : Tape) (s : Deck) : Prop := (∃ q, At t s q ∧ t.AtGap q) ∧ Short s

/-- Every step keeps it. -/
def Inv (p : Port) : Prop := (p.image = none → p.deck.lastTap = 0) ∧
  ∀ t, p.image = some t → Settled t p.deck

theorem fits_of_inv {p : Port} (h : Inv p) : Fits p := by
  obtain ⟨hnone, hsome⟩ := h
  cases himage : p.image with
  | none =>
    have hlast := hnone himage
    exact ⟨by rw [hlast]; exact Int.natCast_nonneg _, fun hpos => by omega⟩
  | some t =>
    obtain ⟨⟨q, ⟨w, n, l, hwin, hnl, -⟩, -⟩, hshort⟩ := hsome t himage
    have hnext := hwin.next
    have hlast := hwin.last
    have hposition := hwin.position
    refine ⟨hshort, fun _ => ⟨t, himage, by omega, by omega, by omega, fun i hi hil => ?_⟩⟩
    obtain ⟨k, rfl⟩ := Int.eq_ofNat_of_zero_le hi
    have hplace : (p.deck.currentFileSeekPosition - p.deck.nextTap + (k : Int)).toNat = w + k := by
      omega
    rw [hplace]
    exact hwin.byte (by omega)

theorem settled_read (h : Settled t s) (direction : Direction) :
    ∃ gap s', datasetteReadGap t direction s = some (gap, s') ∧ Settled t s' := by
  obtain ⟨⟨p, hat, hgap⟩, hshort⟩ := h
  obtain ⟨gap, s', hread, hsame⟩ := datasetteReadGap_checked hat hgap direction
  obtain ⟨q, hat', hgap'⟩ := datasetteReadGap_at hat hgap direction
  have hshort' := datasetteReadGap_short t direction hshort
  rw [hsame] at hat' hshort'
  exact ⟨gap, s', hread, ⟨q, hat', hgap'⟩, hshort'⟩

theorem settled_start (t : Tape) (tapBuffer : Bytes) : Settled t ⟨0, 0, 0, tapBuffer⟩ :=
  ⟨⟨0, ⟨0, 0, 0, window_attached tapBuffer, Nat.le_refl _, rfl⟩, .refl 0, Nat.zero_le _⟩,
    Int.natCast_nonneg _⟩

theorem settled_clear (h : Settled t s) : Settled t { s with nextTap := 0, lastTap := 0 } := by
  obtain ⟨⟨p, hat, hgap⟩, -⟩ := h
  exact ⟨⟨p, at_dropped hat, hgap⟩, Int.natCast_nonneg _⟩

theorem inv_some {p : Port} (himage : p.image = some t) (h : Settled t p.deck) : Inv p :=
  ⟨fun hnone => (Option.some_ne_none t (himage.symm.trans hnone)).elim, fun t' ht' => by
    rw [himage] at ht'
    cases ht'
    exact h⟩

theorem inv_readGap {p : Port} (behaviour : Behaviour) (direction : Direction)
    (deviate : Nat → Nat) (h : Inv p) :
    ∃ gap p', p.readGap behaviour direction deviate = some (gap, p') ∧ Inv p' := by
  cases himage : p.image with
  | none => exact ⟨0, p, by rw [Port.readGap, himage], h⟩
  | some t =>
    obtain ⟨gap, deck, hread, hsettled⟩ := settled_read (h.2 t himage) direction
    have hsame (wave : Bool) (n : Nat) : Inv ⟨p.image, deck, wave, n⟩ := inv_some himage hsettled
    simp only [Port.readGap, himage, hread, Option.bind_eq_bind, Option.bind_some]
    split
    · exact ⟨_, _, rfl, himage ▸ hsame p.fullwave p.fullwaveGap⟩
    · split
      · split
        · exact ⟨_, _, rfl, inv_some rfl (h.2 t himage)⟩
        · cases gap with
          | none => exact ⟨_, _, rfl, himage ▸ hsame p.fullwave p.fullwaveGap⟩
          | some gap => exact ⟨_, _, rfl, himage ▸ hsame true (deviate gap)⟩
      · split
        · cases gap with
          | none => exact ⟨_, _, rfl, himage ▸ hsame p.fullwave p.fullwaveGap⟩
          | some gap => exact ⟨_, _, rfl, himage ▸ hsame (!p.fullwave) p.fullwaveGap⟩
        · exact ⟨_, _, rfl, h⟩

/-! ## The length of a new tape -/

theorem refill_position {position : Int} {s' : Deck} (h : refill t position s = some s') :
    s'.currentFileSeekPosition = s.currentFileSeekPosition := by
  unfold refill at h
  split at h <;> cases h
  rfl

theorem moveBufferForward_position (t : Tape) (offset : Int) (s : Deck) :
    (moveBufferForward t offset s).2.currentFileSeekPosition = s.currentFileSeekPosition := by
  unfold moveBufferForward
  split
  · split
    · rfl
    · rename_i s1 hfill
      exact (refill_position hfill : s1.currentFileSeekPosition = _)
  · rfl

theorem fetchGap_direction {direction readTap d : Int} {gap : Nat}
    (h : Datasette.fetchGap t s direction readTap = some (gap, d)) :
    d = direction ∨ d = direction * 4 := by
  unfold Datasette.fetchGap at h
  dsimp only at h
  split at h
  · exact absurd h (Option.some_ne_none _).symm
  · split at h
    · exact .inl (Prod.mk.inj (Option.some.inj h)).2.symm
    · split at h
      · exact absurd h (Option.some_ne_none _).symm
      · exact .inr (Prod.mk.inj (Option.some.inj h)).2.symm

/-- A gap that is there takes the position further. -/
theorem takeGap_forward {readTap : Int} {gap : Nat} {s' : Deck}
    (h : takeGap t 1 readTap s = some (some gap, s')) :
    s.currentFileSeekPosition < s'.currentFileSeekPosition := by
  rw [takeGap, fetchGap_checked, Option.map_some] at h
  cases hfetch : Datasette.fetchGap t s 1 readTap with
  | none =>
    rw [hfetch] at h
    cases (Prod.mk.inj (Option.some.inj h)).1
  | some found =>
    rw [hfetch] at h
    have hdirection := fetchGap_direction hfetch
    rw [← (Prod.mk.inj (Option.some.inj h)).2]
    show s.currentFileSeekPosition < s.currentFileSeekPosition + found.2
    omega

theorem readGapForward_moves {gap : Nat} {s' : Deck} (h : readGapForward t s = some (some gap, s')) :
    s.currentFileSeekPosition < s'.currentFileSeekPosition := by
  unfold readGapForward at h
  have hposition := moveBufferForward_position t 4 s
  split at h
  · cases h
  · rename_i s1 heq
    rw [heq] at hposition
    rw [← hposition]
    exact takeGap_forward h

theorem readGapForward_cases (hat : At t s p) : ∃ gap s', datasetteReadGap t .forward s = some (gap, s') ∧
      (gap = none ∨ ∃ q, p < q ∧ At t s' q) := by
  obtain ⟨gap, s', hread, hsame⟩ := readGapForward_checked t s
  refine ⟨gap, s', hread, ?_⟩
  cases gap with
  | none => exact .inl rfl
  | some gap =>
    have hmoves := readGapForward_moves hread
    obtain hfit | hcut : t.next p ≤ t.length ∨ t.length < t.next p := by omega
    · obtain ⟨s2, hread2, hat2⟩ := readGapForward_some hat hfit
      cases hsame.symm.trans hread2
      exact .inr ⟨t.next p, next_gt t p, hat2⟩
    · obtain ⟨s2, hread2, hat2⟩ := readGapForward_none hat hcut
      cases hsame.symm.trans hread2
      have h1 := at_position hat
      have h2 := at_position hat2
      omega

/-- Behind the end of the tape nothing is read. -/
theorem readGapForward_behind (hpos : s.currentFileSeekPosition = (p : Int))
    (hempty : s.lastTap ≤ s.nextTap) (hp : t.length < p) :
    ∃ s', datasetteReadGap t .forward s = some (none, s') := by
  obtain ⟨s', hs', -, -, hlast, -⟩ := refill_spec t p s
  have hforward : moveBufferForward t 4 s = (false, { s' with nextTap := 0 }) := by
    have hnothing : ¬0 < s'.lastTap := by omega
    rw [moveBufferForward, if_pos (by omega), hpos, hs']
    simp only [hnothing, decide_false]
  refine ⟨{ s' with nextTap := 0 }, ?_⟩
  simp only [datasetteReadGap, readGapForward, hforward]

/-- What is left of the tape, a half wave that has been read apart. -/
def left (t : Tape) (fullwave : Bool) (q : Nat) : Nat :=
  2 * (t.length - q) + if fullwave then 1 else 0

theorem readGap_left {p : Port} {q : Nat} (behaviour : Behaviour) (deviate : Nat → Nat)
    (himage : p.image = some t) (hat : At t p.deck q) :
    ∃ gap p', p.readGap behaviour .forward deviate = some (gap, p') ∧ p'.image = some t ∧
      (gap = 0 ∨ ∃ q', At t p'.deck q' ∧ left t p'.fullwave q' < left t p.fullwave q) := by
  obtain ⟨gap, deck, hread, hgap⟩ := readGapForward_cases hat
  have hle := at_le hat
  have hless (wave : Bool) {q' : Nat} (hlt : q < q') (hat' : At t deck q') :
      left t wave q' < left t p.fullwave q := by
    have hle' := at_le hat'
    simp only [left]
    split <;> split <;> omega
  simp only [Port.readGap, himage, hread, Option.bind_eq_bind, Option.bind_some]
  split
  · refine ⟨_, _, rfl, rfl, ?_⟩
    obtain rfl | ⟨q', hlt, hat'⟩ := hgap
    · exact .inl rfl
    · exact .inr ⟨q', hat', hless _ hlt hat'⟩
  · split
    · split
      · rename_i hwave
        refine ⟨_, _, rfl, rfl, .inr ⟨q, hat, ?_⟩⟩
        simp only [left, hwave, ↓reduceIte, Bool.false_eq_true]
        omega
      · cases gap with
        | none => exact ⟨_, _, rfl, rfl, .inl rfl⟩
        | some gap =>
          obtain h | ⟨q', hlt, hat'⟩ := hgap
          · cases h
          · exact ⟨_, _, rfl, rfl, .inr ⟨q', hat', hless _ hlt hat'⟩⟩
    · split
      · cases gap with
        | none => exact ⟨_, _, rfl, rfl, .inl rfl⟩
        | some gap =>
          obtain h | ⟨q', hlt, hat'⟩ := hgap
          · cases h
          · exact ⟨_, _, rfl, rfl, .inr ⟨q', hat', hless _ hlt hat'⟩⟩
      · exact ⟨_, _, rfl, himage, .inl rfl⟩

theorem countGaps_ends {p : Port} {q : Nat} (behaviour : Behaviour) (deviate : Nat → Nat → Nat)
    (fuel : Nat) (himage : p.image = some t) (hat : At t p.deck q) (hfuel : left t p.fullwave q < fuel) :
    ∃ p', p.countGaps behaviour deviate fuel = some p' ∧ p'.image = some t := by
  induction fuel generalizing p q with
  | zero => exact absurd hfuel (Nat.not_lt_zero _)
  | succ fuel ih =>
    obtain ⟨gap, p', hread, himage', hgap⟩ := readGap_left behaviour (deviate fuel) himage hat
    simp only [Port.countGaps, hread, Option.bind_eq_bind, Option.bind_some]
    by_cases hzero : gap = 0
    · rw [if_pos hzero]
      exact ⟨p', rfl, himage'⟩
    · obtain h | ⟨q', hat', hless⟩ := hgap
      · exact absurd h hzero
      · rw [if_neg hzero]
        exact ih himage' hat' (by omega)

theorem countGaps_behind {p : Port} {q : Nat} (behaviour : Behaviour) (deviate : Nat → Nat → Nat)
    (fuel : Nat) (himage : p.image = some t) (hwave : p.fullwave = false)
    (hpos : p.deck.currentFileSeekPosition = (q : Int)) (hempty : p.deck.lastTap ≤ p.deck.nextTap)
    (hq : t.length < q) :
    ∃ p', p.countGaps behaviour deviate (fuel + 1) = some p' ∧ p'.image = some t := by
  obtain ⟨deck, hread⟩ := readGapForward_behind hpos hempty hq
  have hzero : p.readGap behaviour .forward (deviate fuel) = some (0, { p with deck := deck }) ∨
      p.readGap behaviour .forward (deviate fuel) = some (0, p) := by
    simp only [Port.readGap, himage, hread, hwave, Option.bind_eq_bind, Option.bind_some,
      Bool.false_eq_true, ↓reduceIte]
    split
    · exact .inl rfl
    · split
      · exact .inl rfl
      · split
        · exact .inl rfl
        · exact .inr rfl
  obtain h | h := hzero
  · refine ⟨{ p with deck := deck }, ?_, himage⟩
    simp only [Port.countGaps, h, Option.bind_eq_bind, Option.bind_some, ↓reduceIte]
  · refine ⟨p, ?_, himage⟩
    simp only [Port.countGaps, h, Option.bind_eq_bind, Option.bind_some, ↓reduceIte]

/-! ## Any run -/

theorem inv_clear {p : Port} (h : Inv p) : Inv p.clearTap :=
  ⟨fun _ => rfl, fun t ht => settled_clear (h.2 t ht)⟩

theorem inv_start {p : Port} : Inv p.seekStart.clearTap :=
  ⟨fun _ => rfl, fun t _ => settled_start t p.deck.tapBuffer⟩

theorem inv_press {p : Port} (around : Surroundings) (command : Command) (h : Inv p) :
    Inv (p.controlInternal around command) := by
  unfold Port.controlInternal
  split
  · unfold Port.internalReset
    dsimp only
    split <;> split
    · exact inv_start (p := p)
    · exact inv_clear (p := p) h
    · exact inv_start (p := p.clearTap)
    · exact inv_clear (p := p.clearTap) (inv_clear h)
  · exact inv_clear h

theorem internalReset_deck (around : Surroundings) (t : Tape) (q : Nat) (tapBuffer : Bytes)
    (wave : Bool) (gap : Nat) : ∃ q' : Nat,
      Port.internalReset around ⟨some t, ⟨q, 0, 0, tapBuffer⟩, wave, gap⟩ =
        ⟨some t, ⟨q', 0, 0, tapBuffer⟩, false, gap⟩ := by
  unfold Port.internalReset
  dsimp only
  split <;> split
  · exact ⟨0, rfl⟩
  · exact ⟨q, rfl⟩
  · exact ⟨0, rfl⟩
  · exact ⟨q, rfl⟩

theorem inv_setTapeImage {p : Port} (behaviour : Behaviour) (around : Surroundings)
    (image : Option (Tape × Nat)) (allocated : Bytes) (deviate : Nat → Nat → Nat) :
    ∃ p', p.setTapeImage behaviour around image allocated deviate = some p' ∧ Inv p' := by
  cases image with
  | none =>
    refine ⟨_, rfl, fun _ => rfl, fun t ht => ?_⟩
    unfold Port.internalReset at ht
    dsimp only [Port.clearTap] at ht
    split at ht <;> cases ht
  | some new =>
    obtain ⟨t, q⟩ := new
    obtain ⟨q', hreset⟩ := internalReset_deck around t q
      (if p.image.isSome then p.deck.tapBuffer else allocated) p.fullwave p.fullwaveGap
    have hcount : ∃ p', Port.countGaps behaviour deviate (2 * t.length + 2)
        ⟨some t, ⟨q', 0, 0, if p.image.isSome then p.deck.tapBuffer else allocated⟩, false,
          p.fullwaveGap⟩ = some p' ∧ p'.image = some t := by
      obtain hin | hbehind : q' ≤ t.length ∨ t.length < q' := by omega
      · refine countGaps_ends behaviour deviate _ rfl (q := q')
          ⟨q', 0, 0, ⟨(Int.add_zero _).symm, rfl, rfl, hin, hin, ?_⟩, Nat.le_refl _, rfl⟩ ?_
        · exact fun i hi => absurd hi (Nat.not_lt_zero i)
        · simp only [left, Bool.false_eq_true, ↓reduceIte]
          omega
      · exact countGaps_behind behaviour deviate _ rfl rfl rfl (Int.le_refl _) hbehind
    obtain ⟨p', hends, himage⟩ := hcount
    refine ⟨{ p'.seekStart.clearTap with fullwave := false }, ?_, inv_start (p := p')⟩
    simp only [Port.setTapeImage, hreset, hends, Option.bind_eq_bind, Option.bind_some]

theorem inv_step {p : Port} (behaviour : Behaviour) (event : Event) (h : Inv p) :
    ∃ p', step behaviour p event = some p' ∧ Inv p' := by
  cases event with
  | readGap direction deviate =>
    obtain ⟨gap, p', hread, hinv⟩ := inv_readGap behaviour direction deviate h
    exact ⟨p', by rw [step, hread]; rfl, hinv⟩
  | control around command =>
    refine ⟨_, rfl, ?_⟩
    unfold Port.control
    split
    · exact h
    · exact inv_press around command h
  | controlInternal around command => exact ⟨_, rfl, inv_press around command h⟩
  | setTapeImage around image allocated deviate =>
    exact inv_setTapeImage behaviour around image allocated deviate

theorem inv_run {p : Port} (behaviour : Behaviour) (events : List Event) (h : Inv p) :
    ∃ p', run behaviour p events = some p' ∧ Inv p' := by
  induction events generalizing p with
  | nil => exact ⟨p, rfl, h⟩
  | cons event events ih =>
    obtain ⟨p1, hstep, hinv⟩ := inv_step behaviour event h
    obtain ⟨p', hrun, hinv'⟩ := ih hinv
    exact ⟨p', by rw [run, hstep, Option.bind_some, hrun], hinv'⟩

/-- However gaps are read, buttons pressed and tapes changed, no look into the buffer is outside
of it and every loop ends, and what is in it is the part of the tape around the position. -/
theorem run_fits (behaviour : Behaviour) (events : List Event) :
    ∃ p, run behaviour Port.initial events = some p ∧ Fits p := by
  obtain ⟨p, hrun, hinv⟩ := inv_run behaviour events (p := Port.initial)
    ⟨fun _ => rfl, fun t ht => (Option.some_ne_none t ht.symm).elim⟩
  exact ⟨p, hrun, fits_of_inv hinv⟩

end Vice.L4.DatasetteIndices
