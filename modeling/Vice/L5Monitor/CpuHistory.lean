import Mathlib.Data.List.Basic

/-!
# The history of the CPUs (`mon_memmap.c`)

The last instructions of all CPUs stand in one cyclic buffer. `mon_cpuhistory_seek` goes back from
the last one and `mon_cpuhistory_next` forward again, to `head`, the place behind the last one.
When the index goes past the end of the buffer, `mon_cpuhistory_next` does not look for `head`.

A loop takes fuel; `none` is a loop that does not end with it.

Results:
* `seek_returns`: seeking always ends.
* `entries_return`: going forward ends when `head` is not the first line.
* `entries_hang`: otherwise it never does.
* `entries_length`, `seek_again`: how many records there are, and that they are found again.
-/
namespace Vice.L5.CpuHistory

/-- mirrors src/monitor.h:45-54 (`t_memspace`) -/
inductive Memspace
  | default | comp | disk8 | disk9 | disk10 | disk11 | invalid
  deriving DecidableEq, Repr

/-- mirrors src/monitor/mon_memmap.h:33-46 (`cpuhistory_s`) -/
structure Entry where
  cycle : UInt64
  addr : UInt16
  op : UInt8
  p1 : UInt8
  p2 : UInt8
  regA : UInt8
  regX : UInt8
  regY : UInt8
  regSp : UInt8
  regSt : UInt16
  origin : Memspace

/-- `cpuhistory`, `cpuhistory_buffer_lines` and `cpuhistory_i` -/
structure Ring where
  entry : Nat → Entry
  lines : Nat
  i : Nat
  bound : i < lines

/-- The oldest line. -/
def Ring.head (r : Ring) : Nat := (r.i + 1) % r.lines

/-- The record matches; all filters are the same here. -/
def Ring.fits (r : Ring) (mem : Memspace) (pos : Nat) : Bool :=
  (r.entry pos).origin ≠ .invalid && (r.entry pos).origin = mem

def Ring.prev (r : Ring) (pos : Nat) : Nat := if pos = 0 then r.lines - 1 else pos - 1

/-- The loop of `mon_cpuhistory_seek`, with `i` records found. -/
def seekLoop (r : Ring) (mem : Memspace) (count : Nat) : Nat → Nat → Nat → Option Nat
  | 0, _, _ => none
  | fuel + 1, pos, i =>
    if i < count then
      let i := if r.fits mem pos then i + 1 else i
      if r.prev pos = r.head then some (r.prev pos) else seekLoop r mem count fuel (r.prev pos) i
    else some pos

/-- mirrors src/monitor/mon_memmap.c:169-207 (`mon_cpuhistory_seek`) -/
def monCpuhistorySeek (fuel : Nat) (r : Ring) (mem : Memspace) (count : Nat) : Option Nat :=
  seekLoop r mem (if r.lines ≤ count then r.lines - 1 else count) fuel r.i 0

/-- mirrors src/monitor/mon_memmap.c:209-229 (`mon_cpuhistory_next`): `some none` is `NULL`. -/
def monCpuhistoryNext (r : Ring) (mem : Memspace) : Nat → Nat → Option (Option Nat)
  | 0, _ => none
  | fuel + 1, current =>
    if r.lines ≤ current + 1 then
      if r.fits mem 0 then some (some 0) else monCpuhistoryNext r mem fuel 0
    else if current + 1 = r.head then some none
    else if r.fits mem (current + 1) then some (some (current + 1))
    else monCpuhistoryNext r mem fuel (current + 1)

/-- The records that the loop `while ((current = mon_cpuhistory_next(current, …)))` goes through. -/
def entriesFrom (r : Ring) (mem : Memspace) : Nat → Nat → Option (List Nat)
  | 0, _ => none
  | fuel + 1, current =>
    match monCpuhistoryNext r mem fuel current with
    | none => none
    | some none => some []
    | some (some p) => (entriesFrom r mem fuel p).map (p :: ·)

section
variable {r : Ring} {mem : Memspace} {fuel pos i count : Nat}

theorem head_lt (r : Ring) : r.head < r.lines :=
  Nat.mod_lt _ (Nat.lt_of_le_of_lt (Nat.zero_le _) r.bound)

/-- `head` is the first line exactly when the last record is in the last line. -/
theorem head_eq_zero : r.head = 0 ↔ r.i + 1 = r.lines := by
  have hi := r.bound
  unfold Ring.head
  rcases Nat.lt_or_ge (r.i + 1) r.lines with h | h
  · rw [Nat.mod_eq_of_lt h]
    omega
  · rw [show r.i + 1 = r.lines by omega, Nat.mod_self]
    exact iff_of_true rfl rfl

/-! ## Seeking -/

/-- Steps down to `head`. -/
def above (r : Ring) (pos : Nat) : Nat :=
  if r.head < pos then pos - r.head else pos + r.lines - r.head

theorem prev_lt (hpos : pos < r.lines) : r.prev pos < r.lines := by
  unfold Ring.prev
  split <;> omega

theorem above_prev (hpos : pos < r.lines) (hne : r.prev pos ≠ r.head) :
    above r (r.prev pos) + 1 = above r pos := by
  have hhead := head_lt r
  unfold Ring.prev at hne ⊢
  unfold above
  split at hne
  · next hzero =>
    rw [if_pos hzero, if_pos (by omega), if_neg (by omega)]
    omega
  · next hpos =>
    rw [if_neg hpos]
    split <;> split <;> omega

theorem above_le (hpos : pos < r.lines) : above r pos ≤ r.lines := by
  have hhead := head_lt r
  unfold above
  split <;> omega

theorem seekLoop_returns (hpos : pos < r.lines) (hfuel : above r pos ≤ fuel) :
    ∃ p < r.lines, seekLoop r mem count (fuel + 1) pos i = some p := by
  induction fuel generalizing pos i with
  | zero =>
    have hhead := head_lt r
    unfold above at hfuel
    split at hfuel <;> omega
  | succ fuel ih =>
    rw [seekLoop]
    split
    · dsimp only
      by_cases hback : r.prev pos = r.head
      · exact ⟨_, prev_lt hpos, if_pos hback⟩
      · rw [if_neg hback]
        have := above_prev hpos hback
        exact ih (prev_lt hpos) (by omega)
    · exact ⟨pos, hpos, rfl⟩

theorem seek_returns (hfuel : r.lines < fuel) (mem : Memspace) (count : Nat) :
    ∃ p < r.lines, monCpuhistorySeek fuel r mem count = some p := by
  obtain ⟨fuel, rfl⟩ := Nat.exists_eq_succ_of_ne_zero (Nat.ne_zero_of_lt hfuel)
  exact seekLoop_returns r.bound (Nat.le_trans (above_le r.bound) (Nat.le_of_lt_succ hfuel))

/-! ## Going forward -/

/-- Steps up to `head`. -/
def below (r : Ring) (pos : Nat) : Nat :=
  if pos < r.head then r.head - pos else r.head + r.lines - pos

theorem below_le (hpos : pos < r.lines) : below r pos ≤ r.lines := by
  have hhead := head_lt r
  unfold below
  split <;> omega

/-- `mon_cpuhistory_next` comes closer to `head` or reaches it. -/
theorem next_closer (hhead : r.head ≠ 0) (hpos : pos < r.lines) (hfuel : below r pos ≤ fuel) :
    monCpuhistoryNext r mem fuel pos = some none ∨
      ∃ p < r.lines, monCpuhistoryNext r mem fuel pos = some (some p) ∧ below r p < below r pos := by
  have hlt := head_lt r
  induction fuel generalizing pos with
  | zero =>
    unfold below at hfuel
    split at hfuel <;> omega
  | succ fuel ih =>
    rw [monCpuhistoryNext]
    split
    · next hwrap =>
      have hzero : below r 0 < below r pos := by
        unfold below
        rw [if_pos (Nat.pos_of_ne_zero hhead), if_neg (by omega)]
        omega
      split
      · exact .inr ⟨0, by omega, rfl, hzero⟩
      · rcases @ih 0 (by omega) (by omega) with h | ⟨p, hp, h, hlt⟩
        · exact .inl h
        · exact .inr ⟨p, hp, h, Nat.lt_trans hlt hzero⟩
    · next hin =>
      split
      · exact .inl rfl
      · next hne =>
        have hnext : below r (pos + 1) < below r pos := by
          unfold below
          split <;> split <;> omega
        split
        · exact .inr ⟨pos + 1, by omega, rfl, hnext⟩
        · rcases @ih (pos + 1) (by omega) (by omega) with h | ⟨p, hp, h, hlt⟩
          · exact .inl h
          · exact .inr ⟨p, hp, h, Nat.lt_trans hlt hnext⟩

theorem entries_return_from (hhead : r.head ≠ 0) (hpos : pos < r.lines)
    (hfuel : below r pos ≤ fuel) : ∃ ps, entriesFrom r mem (fuel + 1) pos = some ps := by
  induction fuel generalizing pos with
  | zero =>
    have := head_lt r
    unfold below at hfuel
    split at hfuel <;> omega
  | succ fuel ih =>
    rw [entriesFrom]
    rcases @next_closer r mem (fuel + 1) pos hhead hpos hfuel with h | ⟨p, hp, h, hlt⟩
    · rw [h]
      exact ⟨[], rfl⟩
    · obtain ⟨ps, hps⟩ := ih hp (by omega)
      rw [h]
      dsimp only
      rw [hps]
      exact ⟨p :: ps, rfl⟩

/-- Going forward ends when `head` is not the first line. -/
theorem entries_return (hhead : r.head ≠ 0) (hpos : pos < r.lines) (hfuel : r.lines < fuel) :
    ∃ ps, entriesFrom r mem fuel pos = some ps := by
  obtain ⟨fuel, rfl⟩ := Nat.exists_eq_succ_of_ne_zero (Nat.ne_zero_of_lt hfuel)
  exact entries_return_from hhead hpos
    (Nat.le_trans (below_le hpos) (Nat.le_of_lt_succ hfuel))

/-! ## More fuel -/

theorem seekLoop_mono {p fuel' : Nat} (h : seekLoop r mem count fuel pos i = some p)
    (hle : fuel ≤ fuel') : seekLoop r mem count fuel' pos i = some p := by
  induction fuel generalizing pos i fuel' with
  | zero => cases h
  | succ fuel ih =>
    obtain ⟨fuel', rfl⟩ := Nat.exists_eq_succ_of_ne_zero (Nat.ne_zero_of_lt hle)
    rw [seekLoop] at h ⊢
    split at h
    · next hcount =>
      rw [if_pos hcount]
      dsimp only at h ⊢
      split at h
      · next hback => rw [if_pos hback, h]
      · next hback =>
        rw [if_neg hback]
        exact ih h (Nat.le_of_succ_le_succ hle)
    · next hcount => rw [if_neg hcount, h]

theorem next_mono {o : Option Nat} {fuel' : Nat} (h : monCpuhistoryNext r mem fuel pos = some o)
    (hle : fuel ≤ fuel') : monCpuhistoryNext r mem fuel' pos = some o := by
  induction fuel generalizing pos fuel' with
  | zero => cases h
  | succ fuel ih =>
    obtain ⟨fuel', rfl⟩ := Nat.exists_eq_succ_of_ne_zero (Nat.ne_zero_of_lt hle)
    have hle := Nat.le_of_succ_le_succ hle
    rw [monCpuhistoryNext] at h ⊢
    split at h
    · next hwrap =>
      rw [if_pos hwrap]
      split at h
      · next hfits => rw [if_pos hfits, h]
      · next hfits =>
        rw [if_neg hfits]
        exact ih h hle
    · next hwrap =>
      rw [if_neg hwrap]
      split at h
      · next hend => rw [if_pos hend, h]
      · next hend =>
        rw [if_neg hend]
        split at h
        · next hfits => rw [if_pos hfits, h]
        · next hfits =>
          rw [if_neg hfits]
          exact ih h hle

theorem entries_mono {ps : List Nat} {fuel' : Nat} (h : entriesFrom r mem fuel pos = some ps)
    (hle : fuel ≤ fuel') : entriesFrom r mem fuel' pos = some ps := by
  induction fuel generalizing pos ps fuel' with
  | zero => cases h
  | succ fuel ih =>
    obtain ⟨fuel', rfl⟩ := Nat.exists_eq_succ_of_ne_zero (Nat.ne_zero_of_lt hle)
    have hle := Nat.le_of_succ_le_succ hle
    rw [entriesFrom] at h ⊢
    match hnext : monCpuhistoryNext r mem fuel pos with
    | none =>
      rw [hnext] at h
      cases h
    | some none =>
      rw [hnext] at h
      rw [next_mono hnext hle]
      exact h
    | some (some p) =>
      rw [hnext] at h
      rw [next_mono hnext hle]
      dsimp only at h ⊢
      obtain ⟨qs, hqs, rfl⟩ := Option.map_eq_some_iff.mp h
      rw [ih hqs hle]
      rfl

/-- When `head` is the first line, it is passed at the end of the buffer. -/
theorem next_passes (hhead : r.head = 0) (fuel pos : Nat) : monCpuhistoryNext r mem fuel pos ≠ some none := by
  induction fuel generalizing pos with
  | zero => exact nofun
  | succ fuel ih =>
    rw [monCpuhistoryNext]
    split
    · split
      · exact nofun
      · exact ih 0
    · rw [hhead, if_neg (Nat.succ_ne_zero pos)]
      split
      · exact nofun
      · exact ih (pos + 1)

/-- Then the loop never ends. -/
theorem entries_hang (hhead : r.head = 0) (fuel pos : Nat) : entriesFrom r mem fuel pos = none := by
  induction fuel generalizing pos with
  | zero => rfl
  | succ fuel ih =>
    rw [entriesFrom]
    match hnext : monCpuhistoryNext r mem fuel pos with
    | none => rfl
    | some none => exact absurd hnext (next_passes hhead fuel pos)
    | some (some p) =>
      dsimp only
      rw [ih p]
      rfl

/-! ## How many records -/

/-- The line that `mon_cpuhistory_next` goes to. -/
def Ring.succ (r : Ring) (pos : Nat) : Nat := if r.lines ≤ pos + 1 then 0 else pos + 1

/-- The matching records in the next `n` lines. -/
def fitting (r : Ring) (mem : Memspace) : Nat → Nat → Nat
  | 0, _ => 0
  | n + 1, pos => (if r.fits mem (r.succ pos) then 1 else 0) + fitting r mem n (r.succ pos)

/-- The matching records between `pos` and `head`. -/
def remaining (r : Ring) (mem : Memspace) (pos : Nat) : Nat := fitting r mem (below r pos - 1) pos

theorem succ_lt (hpos : pos < r.lines) : r.succ pos < r.lines := by
  unfold Ring.succ
  split <;> omega

theorem succ_prev (hpos : pos < r.lines) : r.succ (r.prev pos) = pos := by
  unfold Ring.succ Ring.prev
  split <;> split <;> omega

theorem below_succ (hpos : pos < r.lines) (hne : r.succ pos ≠ r.head) :
    below r pos = below r (r.succ pos) + 1 := by
  have hhead := head_lt r
  unfold Ring.succ at hne ⊢
  unfold below
  split at hne
  · next hwrap =>
    rw [if_pos hwrap, if_neg (by omega), if_pos (by omega)]
    omega
  · next hwrap =>
    rw [if_neg hwrap]
    split <;> split <;> omega

theorem below_pos (hpos : pos < r.lines) : 0 < below r pos := by
  unfold below
  split <;> omega

theorem remaining_succ (hpos : pos < r.lines) (hne : r.succ pos ≠ r.head) :
    remaining r mem pos = (if r.fits mem (r.succ pos) then 1 else 0) + remaining r mem (r.succ pos) := by
  obtain ⟨n, hn⟩ := Nat.exists_eq_succ_of_ne_zero (Nat.ne_of_gt (below_pos (succ_lt hpos)))
  rw [remaining, remaining, below_succ hpos hne, hn]
  rfl

theorem remaining_end (hpos : pos < r.lines) (heq : r.succ pos = r.head) : remaining r mem pos = 0 := by
  have hbelow : below r pos = 1 := by
    have hhead := head_lt r
    unfold Ring.succ at heq
    unfold below
    split at heq <;> split <;> omega
  rw [remaining, hbelow]
  rfl

theorem fitting_le (n pos : Nat) : fitting r mem n pos ≤ n := by
  induction n generalizing pos with
  | zero => exact Nat.le_refl 0
  | succ n ih =>
    have hn := ih (r.succ pos)
    rw [fitting]
    split <;> omega

theorem remaining_lt (hpos : pos < r.lines) : remaining r mem pos < r.lines := by
  have hle := below_le hpos
  have hlt := below_pos hpos
  have hfit : remaining r mem pos ≤ below r pos - 1 := fitting_le _ _
  omega

/-- `mon_cpuhistory_next` finds the first of the remaining records. -/
theorem next_remaining (hhead : r.head ≠ 0) (hpos : pos < r.lines) {o : Option Nat}
    (h : monCpuhistoryNext r mem fuel pos = some o) :
    (o = none → remaining r mem pos = 0) ∧
      ∀ p ∈ o, p < r.lines ∧ remaining r mem pos = remaining r mem p + 1 := by
  induction fuel generalizing pos with
  | zero => cases h
  | succ fuel ih =>
    rw [monCpuhistoryNext] at h
    by_cases hwrap : r.lines ≤ pos + 1
    · have hsucc : r.succ pos = 0 := if_pos hwrap
      have hrem := @remaining_succ r mem pos hpos (by rw [hsucc]; exact hhead.symm)
      rw [hsucc] at hrem
      rw [if_pos hwrap] at h
      split at h
      · next hfits =>
        cases h
        rw [if_pos hfits] at hrem
        refine ⟨nofun, fun p hp => ?_⟩
        cases hp
        exact ⟨by omega, by omega⟩
      · next hfits =>
        rw [if_neg hfits, Nat.zero_add] at hrem
        rw [hrem]
        exact ih (by omega) h
    · have hsucc : r.succ pos = pos + 1 := if_neg hwrap
      rw [if_neg hwrap] at h
      split at h
      · next hend =>
        cases h
        exact ⟨fun _ => remaining_end hpos (hsucc.trans hend), nofun⟩
      · next hend =>
        have hrem := @remaining_succ r mem pos hpos (by rw [hsucc]; exact hend)
        rw [hsucc] at hrem
        split at h
        · next hfits =>
          cases h
          rw [if_pos hfits] at hrem
          refine ⟨nofun, fun p hp => ?_⟩
          cases hp
          exact ⟨by omega, by omega⟩
        · next hfits =>
          rw [if_neg hfits, Nat.zero_add] at hrem
          rw [hrem]
          exact ih (by omega) h

/-- The loop forward goes through all the remaining records. -/
theorem entries_length (hhead : r.head ≠ 0) (hpos : pos < r.lines) {ps : List Nat}
    (h : entriesFrom r mem fuel pos = some ps) : ps.length = remaining r mem pos := by
  induction fuel generalizing pos ps with
  | zero => cases h
  | succ fuel ih =>
    rw [entriesFrom] at h
    match hnext : monCpuhistoryNext r mem fuel pos with
    | none =>
      rw [hnext] at h
      cases h
    | some none =>
      rw [hnext] at h
      cases h
      exact ((next_remaining hhead hpos hnext).1 rfl).symm
    | some (some p) =>
      rw [hnext] at h
      obtain ⟨qs, hqs, rfl⟩ := Option.map_eq_some_iff.mp h
      obtain ⟨hp, hrem⟩ := (next_remaining hhead hpos hnext).2 p rfl
      rw [List.length_cons, ih hp hqs, hrem]

/-- Seeking stops with `count` records in front of it, or at `head`. -/
theorem seekLoop_remaining (hpos : pos < r.lines) (hne : pos ≠ r.head) {p : Nat}
    (hle : remaining r mem pos ≤ count)
    (h : seekLoop r mem count fuel pos (remaining r mem pos) = some p) :
    p < r.lines ∧ remaining r mem p ≤ count ∧ (remaining r mem p = count ∨ p = r.head) := by
  induction fuel generalizing pos with
  | zero => cases h
  | succ fuel ih =>
    have hback : remaining r mem (r.prev pos) =
        (if r.fits mem pos then 1 else 0) + remaining r mem pos := by
      have hsucc := @remaining_succ r mem (r.prev pos) (prev_lt hpos) (by rwa [succ_prev hpos])
      rwa [succ_prev hpos] at hsucc
    rw [seekLoop] at h
    split at h
    · next hlt =>
      have hle' : remaining r mem (r.prev pos) ≤ count := by
        rw [hback]
        split <;> omega
      dsimp only at h
      split at h
      · next hhead =>
        cases h
        exact ⟨prev_lt hpos, hle', .inr hhead⟩
      · next hhead =>
        refine ih (prev_lt hpos) hhead hle' ?_
        rw [hback]
        split at h
        · next hfits => rwa [if_pos hfits, Nat.add_comm]
        · next hfits => rwa [if_neg hfits, Nat.zero_add]
    · next hge =>
      cases h
      exact ⟨hpos, hle, .inl (by omega)⟩

/-- No place has more records in front of it than `head`. -/
theorem remaining_le_head (hpos : pos < r.lines) : remaining r mem pos ≤ remaining r mem r.head := by
  induction hn : above r pos generalizing pos with
  | zero =>
    have hhead := head_lt r
    unfold above at hn
    split at hn <;> omega
  | succ n ih =>
    by_cases hne : pos = r.head
    · exact Nat.le_of_eq (by rw [hne])
    have hback : remaining r mem pos ≤ remaining r mem (r.prev pos) := by
      have hsucc := @remaining_succ r mem (r.prev pos) (prev_lt hpos) (by rwa [succ_prev hpos])
      rw [succ_prev hpos] at hsucc
      omega
    by_cases hprev : r.prev pos = r.head
    · rwa [hprev] at hback
    · have habove := above_prev hpos hprev
      exact Nat.le_trans hback (ih (prev_lt hpos) (by omega))

/-- Where seeking for `count` records stops, when `head` is not the first line. -/
theorem seek_remaining (hhead : r.head ≠ 0) {p : Nat} (h : monCpuhistorySeek fuel r mem count = some p) :
    p < r.lines ∧ remaining r mem p ≤ count ∧ (count < r.lines → remaining r mem p = count ∨ p = r.head) := by
  have hi := r.bound
  have hlast : r.succ r.i = r.head := by
    have hlt : r.i + 1 < r.lines := by
      have := mt head_eq_zero.mpr hhead
      omega
    rw [Ring.succ, if_neg (by omega), Ring.head, Nat.mod_eq_of_lt hlt]
  have hzero : remaining r mem r.i = 0 := remaining_end hi hlast
  have hne : r.i ≠ r.head := by
    intro heq
    rw [← heq] at hlast
    unfold Ring.succ at hlast
    split at hlast <;> omega
  rw [monCpuhistorySeek] at h
  by_cases hlines : r.lines ≤ count
  · rw [if_pos hlines] at h
    obtain ⟨hp, hle, -⟩ := @seekLoop_remaining r mem fuel r.i (r.lines - 1) hi hne p
      (by rw [hzero]; exact Nat.zero_le _) (by rwa [hzero])
    exact ⟨hp, by omega, fun hlt => absurd hlines (Nat.not_le.mpr hlt)⟩
  · rw [if_neg hlines] at h
    obtain ⟨hp, hle, hor⟩ := @seekLoop_remaining r mem fuel r.i count hi hne p
      (by rw [hzero]; exact Nat.zero_le _) (by rwa [hzero])
    exact ⟨hp, hle, fun _ => hor⟩

/-- Seeking for as many records as there were the first time finds them again. -/
theorem seek_again (hhead : r.head ≠ 0) {p q : Nat} (hp : monCpuhistorySeek fuel r mem count = some p)
    (hq : monCpuhistorySeek fuel r mem (remaining r mem p) = some q) :
    remaining r mem q = remaining r mem p := by
  obtain ⟨hplt, -, -⟩ := seek_remaining hhead hp
  obtain ⟨-, hle, hor⟩ := seek_remaining hhead hq
  rcases hor (remaining_lt hplt) with heq | heq
  · exact heq
  · rw [heq] at hle ⊢
    exact Nat.le_antisymm hle (remaining_le_head hplt)

end

end Vice.L5.CpuHistory
