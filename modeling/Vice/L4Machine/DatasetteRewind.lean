import Vice.L4Machine.DatasetteBuffer

/-!
# Winding a tape back

A gap is one byte or four, so the one before the position cannot be told from its last bytes. The
deck goes back to three bytes that are not zero, from where any walk falls in step with the gaps,
and walks forward again; it stops at the first gap that starts within four bytes of the position,
and that is not always the last one.

Results:
* `readGapForward_some`, `readGapBackward_spec`: one call, in terms of the tape.
* `rewind_position`: the position goes back over the gaps it came.
* `rewind_undoes_iff`: and the gaps come back, exactly when no long gap with a zero in the right
  place stands two or three short ones before one of them.
-/
namespace Vice.L4.DatasetteRewind
open Vice.L4.Datasette Vice.L4.DatasetteBuffer

variable {t : Tape} {s : Deck} {w n l a b c e p q r limit : Nat}

/-! ## Chains -/

theorem next_gt (t : Tape) (p : Nat) : p < t.next p := Nat.lt_add_of_pos_right (step_pos t p)

theorem next_le (t : Tape) (p : Nat) : t.next p ≤ p + 4 := by
  unfold Tape.next Tape.step
  split <;> omega

theorem chain_le (h : t.Chain a b) : a ≤ b := by
  induction h with
  | refl p => exact Nat.le_refl _
  | @step p q h ih => exact Nat.le_of_lt (Nat.lt_of_lt_of_le (next_gt t p) ih)

theorem chain_trans (hab : t.Chain a b) (hbc : t.Chain b c) : t.Chain a c := by
  induction hab with
  | refl p => exact hbc
  | step h ih => exact .step (ih hbc)

theorem chain_next (h : t.Chain a b) : t.Chain a (t.next b) := chain_trans h (.step (.refl _))

/-- Of two places on a chain one is on the way to the other. -/
theorem chain_total (hab : t.Chain a b) (hac : t.Chain a c) (hle : b ≤ c) : t.Chain b c := by
  induction hab with
  | refl p => exact hac
  | @step p q h ih =>
    cases hac with
    | refl => exact absurd (chain_le h) (Nat.not_le.2 (Nat.lt_of_le_of_lt hle (next_gt t _)))
    | step h' => exact ih h' hle

/-- A chain that goes on goes on by the next gap. -/
theorem chain_of_lt (h : t.Chain a b) (hlt : a < b) : t.Chain (t.next a) b := by
  cases h with
  | refl => exact absurd hlt (Nat.lt_irrefl _)
  | step h => exact h

/-- The first place of a chain at or behind `limit`. -/
structure First (t : Tape) (a limit e : Nat) : Prop where
  chain : t.Chain a e
  limit_le : limit ≤ e
  least : ∀ q, t.Chain a q → limit ≤ q → e ≤ q

/-- A place on a chain at or behind `limit` has a first one before it. -/
theorem exists_first (h : t.Chain a p) (ha : a ≤ limit) (hp : limit ≤ p) :
    ∃ e, First t a limit e ∧ e ≤ limit + 3 := by
  induction h with
  | refl p =>
    exact ⟨p, ⟨.refl p, hp, fun q hq _ => chain_le hq⟩, by omega⟩
  | @step a p h ih =>
    obtain hreach | hshort : limit ≤ t.next a ∨ t.next a ≤ limit := Nat.le_total _ _
    · obtain rfl | hlt : a = limit ∨ a < limit := by omega
      · exact ⟨a, ⟨.refl a, Nat.le_refl _, fun q _ hq => hq⟩, by omega⟩
      · have := next_le t a
        refine ⟨t.next a, ⟨.step (.refl _), hreach, fun q hq hle => ?_⟩, by omega⟩
        exact chain_le (chain_of_lt hq (by omega))
    · obtain ⟨e, he, hbound⟩ := ih hshort hp
      refine ⟨e, ⟨.step he.chain, he.limit_le, fun q hq hle => ?_⟩, hbound⟩
      obtain hlt | heq : a < q ∨ a = q := by
        have := chain_le hq
        omega
      · exact he.least q (chain_of_lt hq hlt) hle
      · have := next_gt t a
        omega

/-- Over bytes that are not zero a chain goes byte by byte. -/
theorem chain_bytes (k : Nat) (h : ∀ i < k, t.byteAt (r + i) ≠ 0) : t.Chain r (r + k) := by
  induction k with
  | zero => exact .refl r
  | succ k ih =>
    have hone : t.next (r + k) = r + (k + 1) := by
      rw [Tape.next, Tape.step, if_pos (.inr (h k (Nat.lt_succ_self k))), Nat.add_assoc]
    rw [← hone]
    exact chain_next (ih fun i hi => h i (Nat.lt_succ_of_lt hi))

/-- Three bytes that are not zero bring every walk in step with the gaps. -/
theorem chain_sync (h : t.Chain 0 p) (hrp : r ≤ p) (hr : ∀ i < 3, t.byteAt (r + i) ≠ 0) :
    ∃ x, t.Chain 0 x ∧ t.Chain r x ∧ x ≤ r + 3 := by
  obtain ⟨x, hx, hbound⟩ := exists_first h (Nat.zero_le r) hrp
  have hle := hx.limit_le
  obtain ⟨k, rfl⟩ : ∃ k, x = r + k := ⟨x - r, by omega⟩
  exact ⟨r + k, hx.chain, chain_bytes k fun i hi => hr i (by omega), hbound⟩

/-- From such a place, or from the start of the tape, the first gap behind `limit` is the same. -/
theorem first_of_sync (h : t.Chain 0 p) (hlimit : limit ≤ p)
    (hr : r = 0 ∨ r + 3 ≤ limit ∧ ∀ i < 3, t.byteAt (r + i) ≠ 0) (he : First t r limit e) :
    First t 0 limit e := by
  obtain rfl | ⟨hle, hbytes⟩ := hr
  · exact he
  · obtain ⟨x, hx, hrx, hbound⟩ := chain_sync h (by omega) hbytes
    have hxe := chain_total hrx he.chain (by have := he.limit_le; omega)
    refine ⟨chain_trans hx hxe, he.limit_le, fun q hq hlq => ?_⟩
    exact he.least q (chain_trans hrx (chain_total hx hq (by omega))) hlq

/-! ## The two loops -/

/-- The byte at `p` of the tape is the next one in the buffer. -/
def At (t : Tape) (s : Deck) (p : Nat) : Prop :=
  ∃ w n l, Window t s w n l ∧ n ≤ l ∧ w + n = p

theorem scanBack_spec (fuel nonZeros : Nat) (hat : At t s fuel)
    (hz : ∀ i < nonZeros, t.byteAt (fuel + i) ≠ 0) (hz3 : nonZeros ≤ 3)
    (hlimit : fuel + nonZeros ≤ limit) :
    ∃ s' r, scanBack t fuel nonZeros s = (true, s') ∧ At t s' r ∧ r ≤ fuel ∧
      (r = 0 ∨ r + 3 ≤ limit ∧ ∀ i < 3, t.byteAt (r + i) ≠ 0) := by
  induction fuel generalizing s nonZeros with
  | zero => exact ⟨s, 0, rfl, hat, Nat.le_refl _, .inl rfl⟩
  | succ fuel ih =>
    obtain ⟨w, n, l, hwin, hnl, hp⟩ := id hat
    unfold scanBack
    by_cases hmore : nonZeros < 3 ∧ s.currentFileSeekPosition ≠ 0
    · obtain ⟨s1, w', n', l', hback, hwin', hnl', hpos, hroom⟩ :=
        @moveBufferBack_spec t s w n l 1 hwin hnl (by decide)
      have hback' : moveBufferBack t (-1) s = (true, s1) := hback
      have hmove := hwin'.move (m := n' - 1) (by have := hwin'.position_le; omega)
      have hone : ((n' - 1 : Nat) : Int) - n' = -1 := by omega
      have hhere : w' + (n' - 1) = fuel := by omega
      rw [hone] at hmove
      have hbyte : (s1.move (-1)).byte (s1.move (-1)).nextTap = t.byteAt fuel := by
        rw [hmove.next, ← hhere]
        exact hmove.byte (by omega)
      simp only [if_pos hmore, hback', hbyte]
      have hz' : ∀ i < (if t.byteAt fuel ≠ 0 then nonZeros + 1 else 0),
          t.byteAt (fuel + i) ≠ 0 := by
        intro i hi
        split at hi
        · rename_i hne
          obtain rfl | hpos' := Nat.eq_zero_or_pos i
          · exact hne
          · have hsame : fuel + i = fuel + 1 + (i - 1) := by omega
            rw [hsame]
            exact hz _ (by omega)
        · exact absurd hi (Nat.not_lt_zero _)
      obtain ⟨s', r, hscan, hat', hle, hr⟩ := ih _ ⟨w', n' - 1, l', hmove, by omega, hhere⟩ hz'
        (by split <;> omega) (by split <;> omega)
      exact ⟨s', r, hscan, hat', Nat.le_succ_of_le hle, hr⟩
    · have hposition := hwin.position
      have hthree : nonZeros = 3 := by
        rw [not_and_or] at hmore
        omega
      subst hthree
      rw [if_neg hmore]
      exact ⟨s, fuel + 1, rfl, hat, Nat.le_refl _, .inr ⟨hlimit, hz⟩⟩

theorem walkForward_spec (hversion : t.version ≠ 0) (fuel : Nat) (hwin : Window t s w n l)
    (hfuel : limit ≤ w + n + fuel) (hlimit : limit + 4 ≤ t.length) :
    ∃ s' w' n' l', walkForward t limit fuel s = (true, s') ∧ Window t s' w' n' l' ∧
      First t (w + n) limit (w' + n') := by
  induction fuel generalizing s w n l with
  | zero =>
    exact ⟨s, w, n, l, rfl, hwin, .refl _, hfuel, fun q hq _ => chain_le hq⟩
  | succ fuel ih =>
    unfold walkForward
    have hposition := hwin.position
    by_cases hmore : s.currentFileSeekPosition < limit
    · obtain ⟨s1, w', n', l', hforward, hwin', hnl', hpos, hroom⟩ :=
        @moveBufferForward_spec t s w n l 1 hwin (by decide)
      have hforward' : moveBufferForward t 1 s = (true, s1) := by
        rw [decide_eq_true (show w + n < t.length by omega)] at hforward
        exact hforward
      have hbyte : s1.byte s1.nextTap = t.byteAt (w + n) := by
        rw [hwin'.next, ← hpos]
        exact hwin'.byte (hroom 0 (Nat.zero_le _) (by omega))
      have hstep : (if t.byteAt (w + n) ≠ 0 then (1 : Int) else 4) =
          ((n' + t.step (w + n) : Nat) : Int) - n' := by
        rw [Tape.step]
        simp only [hversion, false_or]
        split <;> omega
      have hle := next_le t (w + n)
      have hmove := hwin'.move (m := n' + t.step (w + n)) (by rw [Tape.next] at hle; omega)
      simp only [if_pos hmore, hforward', hbyte, hstep]
      have hnext : w' + (n' + t.step (w + n)) = t.next (w + n) := by
        rw [← Nat.add_assoc, hpos, Tape.next]
      obtain ⟨s', w2, n2, l2, hwalk, hwin2, hfirst⟩ :=
        ih hmove (by have := next_gt t (w + n); omega)
      rw [hnext] at hfirst
      refine ⟨s', w2, n2, l2, hwalk, hwin2, .step hfirst.chain, hfirst.limit_le, fun q hq hlq => ?_⟩
      exact hfirst.least q (chain_of_lt hq (by omega)) hlq
    · rw [if_neg hmore]
      refine ⟨s, w, n, l, rfl, hwin, .refl _, by omega, fun q hq _ => chain_le hq⟩

/-! ## One call -/

theorem readGapForward_some (hat : At t s p) (hfit : t.next p ≤ t.length) :
    ∃ s', readGapForward t s = (t.gap p, s') ∧ At t s' (t.next p) := by
  obtain ⟨w, n, l, hwin, -, hp⟩ := hat
  obtain ⟨s1, w', n', l', hforward, hwin', hnl', hpos, hroom⟩ :=
    @moveBufferForward_spec t s w n l 4 hwin (by decide)
  have hlt := next_gt t p
  have hle := next_le t p
  have hforward' : moveBufferForward t 4 s = (true, s1) := by
    rw [decide_eq_true (show w + n < t.length by omega)] at hforward
    exact hforward
  have hp' : w' + n' = p := by omega
  have hend := hroom (t.step p - 1) (by rw [Tape.next] at hle; omega)
    (by have := step_pos t p; rw [Tape.next] at hfit; omega)
  have hfetch := @fetchGap_some t s1 w' n' l' n' 1 hwin'
    (by rw [hp']; have := step_pos t p; omega)
  have hmove := hwin'.move (m := n' + t.step p) (by rw [Tape.next] at hfit; omega)
  have hone : (1 : Int) * t.step p = ((n' + t.step p : Nat) : Int) - n' := by omega
  rw [hp'] at hfetch
  refine ⟨s1.move (1 * t.step p), ?_, w', n' + t.step p, l', ?_, ?_, ?_⟩
  · simp only [readGapForward, hforward', takeGap, hwin'.next, hfetch]
  · rw [hone]
    exact hmove
  · have := step_pos t p
    omega
  · rw [Tape.next]
    omega

theorem readGapForward_none (hat : At t s p) (hcut : t.length < t.next p) :
    ∃ s', readGapForward t s = (0, s') ∧ At t s' p := by
  obtain ⟨w, n, l, hwin, -, hp⟩ := hat
  obtain ⟨s1, w', n', l', hforward, hwin', hnl', hpos, hroom⟩ :=
    @moveBufferForward_spec t s w n l 4 hwin (by decide)
  have hforward' : moveBufferForward t 4 s = (decide (w + n < t.length), s1) := hforward
  refine ⟨s1, ?_, w', n', l', hwin', hnl', by omega⟩
  have hin := hwin'.inside
  have hfetch := @fetchGap_none t s1 w' n' l' n' 1 hwin'
    (by rw [show w' + n' = p by omega]; rw [Tape.next] at hcut; omega)
  simp only [readGapForward, hforward']
  cases decide (w + n < t.length)
  · rfl
  · simp only [takeGap, hwin'.next, hfetch]

/-- Where the deck takes the gap before the end of the one at `q` from. -/
def Found (t : Tape) (q e : Nat) : Prop :=
  if t.version = 0 ∨ t.next q < 4 ∨ t.byteAt (t.next q - 4) ≠ 0 then e = q
  else First t 0 (t.next q - 4) e

theorem step_cases (t : Tape) (p : Nat) : t.step p = 1 ∨ t.step p = 4 ∧ t.version ≠ 0 ∧ t.byteAt p = 0 := by
  unfold Tape.step
  split
  · exact .inl rfl
  · rename_i hlong
    rw [not_or, not_not] at hlong
    exact .inr ⟨rfl, hlong⟩

theorem found_step (hq : t.Chain 0 q) (he : Found t q e) : e ≤ q ∧ t.step e = t.step q := by
  unfold Found at he
  split at he
  · exact ⟨Nat.le_of_eq he, by rw [he]⟩
  · have hlimit : t.next q - 4 ≤ q := by
      have := next_le t q
      omega
    have hle := he.least q hq hlimit
    have hstart := he.limit_le
    refine ⟨hle, ?_⟩
    obtain rfl | hlt := Nat.eq_or_lt_of_le hle
    · rfl
    · have hnext := chain_le (chain_of_lt (chain_total he.chain hq hle) hlt)
      unfold Tape.next at hstart hnext
      have h1 := step_cases t e
      have h2 := step_cases t q
      omega

/-- A gap taken `m` bytes before the position, as many bytes back as it is long. -/
theorem takeGap_back {m : Nat} (hwin : Window t s w (n + m) l) (hfit : n + t.step (w + n) ≤ l)
    (hstep : t.step (w + n) ≤ n + m) (hl : n + m - t.step (w + n) ≤ l) :
    ∃ s', takeGap t (-1) (n : Int) s = (t.gap (w + n), s') ∧
      At t s' (w + (n + m) - t.step (w + n)) := by
  have hmove := hwin.move (m := n + m - t.step (w + n)) (by have := hwin.position_le; omega)
  have hback : -1 * (t.step (w + n) : Int) =
      ((n + m - t.step (w + n) : Nat) : Int) - ((n + m : Nat) : Int) := by
    omega
  refine ⟨s.move (-1 * t.step (w + n)), ?_, w, _, l, hback ▸ hmove, hl, by omega⟩
  rw [takeGap, fetchGap_some hwin hfit]

/-- The way back over a gap that may be long. -/
theorem readGapBackwardV1_spec (hversion : t.version ≠ 0) (hwin : Window t s w n l) (hnl : n ≤ l)
    (hn : 4 ≤ n) (hp : w + n = t.next q) (hq : t.Chain 0 q) :
    ∃ (s' : Deck) (w' n' l' m : Nat), readGapBackwardV1 t s = (0, (n' : Int), s') ∧ Window t s' w' (n' + m) l' ∧
      w' + (n' + m) = t.next q ∧ First t 0 (t.next q - 4) (w' + n') ∧
      ∀ j ≤ 4, w' + n' + j < t.length → n' + j < l' := by
  have hple := hwin.position_le
  have hlast := next_le t q
  have hbefore := next_gt t q
  have hmove := hwin.move (m := n - 4) (by omega)
  have hfour : ((n - 4 : Nat) : Int) - n = -4 := by omega
  rw [hfour] at hmove
  have hfuel : (s.move (-4)).currentFileSeekPosition.toNat = t.next q - 4 := by
    rw [hmove.position]
    omega
  obtain ⟨s1, r, hscan, hat1, hr, hsync⟩ :=
    @scanBack_spec t (s.move (-4)) (t.next q - 4) (t.next q - 4) 0
      ⟨w, n - 4, l, hmove, by omega, by omega⟩ (fun i hi => absurd hi (Nat.not_lt_zero _))
      (by decide) (by omega)
  obtain ⟨w1, n1, l1, hwin1, -, hr1⟩ := hat1
  have hlimit : s.currentFileSeekPosition - 4 = ((t.next q - 4 : Nat) : Int) := by
    rw [hwin.position]
    omega
  have hpos1 := hwin1.position
  obtain ⟨s2, w2, n2, l2, hwalk, hwin2, hfirst⟩ :=
    @walkForward_spec t s1 w1 n1 l1 (t.next q - 4) hversion
      (((t.next q - 4 : Nat) : Int) - s1.currentFileSeekPosition).toNat hwin1 (by omega) (by omega)
  rw [hr1] at hfirst
  have hfirst' := first_of_sync hq (by omega) hsync hfirst
  have hle := hfirst'.least q hq (by omega)
  obtain ⟨s3, w3, n3, l3, hforward, hwin3, hnl3, hpos3, hroom⟩ :=
    @moveBufferForward_spec t s2 w2 n2 l2 4 hwin2 (by decide)
  have hforward' : moveBufferForward t 4 s2 = (true, s3) := by
    rw [decide_eq_true (show w2 + n2 < t.length by omega)] at hforward
    exact hforward
  have hrest : s.currentFileSeekPosition - s3.currentFileSeekPosition =
      ((n3 + (t.next q - (w2 + n2)) : Nat) : Int) - n3 := by
    rw [hwin.position, hwin3.position]
    omega
  have hmove3 := hwin3.move (m := n3 + (t.next q - (w2 + n2))) (by omega)
  refine ⟨_, w3, n3, l3, t.next q - (w2 + n2), ?_, hmove3, by omega, hpos3.symm ▸ hfirst', ?_⟩
  · simp only [readGapBackwardV1, hfuel, hscan, hlimit, hwalk, hforward', hwin3.next, hrest]
  · rw [hpos3]
    exact hroom

theorem readGapBackward_spec (hat : At t s (t.next q)) (hq : t.Chain 0 q) :
    ∃ s' e, readGapBackward t s = (t.gap e, s') ∧ At t s' q ∧ Found t q e := by
  obtain ⟨w, n, l, hwin, hnl, hp⟩ := hat
  obtain ⟨s1, w', n', l', hback, hwin', hnl', hpos, hroom⟩ :=
    @moveBufferBack_spec t s w n l 4 hwin hnl (by decide)
  have hback' : moveBufferBack t (-4) s = (true, s1) := hback
  have hple := hwin'.position_le
  have hlast := step_cases t q
  have hnext : t.next q = q + t.step q := rfl
  have hfour : s1.nextTap < 4 ↔ t.next q < 4 := by
    rw [hwin'.next]
    omega
  have hbyte : 4 ≤ t.next q → s1.byte (s1.nextTap - 4) = t.byteAt (t.next q - 4) := by
    intro hle
    have hcast : s1.nextTap - 4 = ((n' - 4 : Nat) : Int) := by
      rw [hwin'.next]
      omega
    have hplace : w' + (n' - 4) = t.next q - 4 := by omega
    rw [hcast, hwin'.byte (by omega), hplace]
  have hcond : (t.version = 0 ∨ s1.nextTap < 4 ∨ s1.byte (s1.nextTap - 4) ≠ 0) ↔
      (t.version = 0 ∨ t.next q < 4 ∨ t.byteAt (t.next q - 4) ≠ 0) := by
    rw [hfour]
    obtain hlt | hle := Nat.lt_or_ge (t.next q) 4
    · simp only [hlt, true_or, or_true]
    · rw [hbyte hle]
  by_cases hshort : t.version = 0 ∨ t.next q < 4 ∨ t.byteAt (t.next q - 4) ≠ 0
  · have hone : t.step q = 1 := by
      obtain hone | ⟨hlong, hversion, hzero⟩ := hlast
      · exact hone
      · have hplace : t.next q - 4 = q := by omega
        rw [hplace] at hshort
        obtain h | h | h := hshort
        · exact absurd h hversion
        · omega
        · exact absurd hzero h
    have hn : 1 ≤ n' := by omega
    have hplace : w' + (n' - 1) = q := by omega
    have hwin1 : Window t s1 w' (n' - 1 + 1) l' := by
      rw [Nat.sub_add_cancel hn]
      exact hwin'
    obtain ⟨s', htake, hat'⟩ := takeGap_back hwin1 (by rw [hplace]; omega)
      (by rw [hplace]; omega) (by rw [hplace]; omega)
    have hcast : s1.nextTap - 1 = ((n' - 1 : Nat) : Int) := by
      rw [hwin'.next]
      omega
    rw [hplace] at htake hat'
    refine ⟨s', q, ?_, ?_, ?_⟩
    · simp only [readGapBackward, hback', hcond, if_pos hshort, hcast, htake]
    · have hq' : w' + (n' - 1 + 1) - t.step q = q := by omega
      exact hq' ▸ hat'
    · rw [Found, if_pos hshort]
  · have hle : 4 ≤ t.next q := by
      rw [not_or, not_or] at hshort
      omega
    obtain ⟨s2, w2, n2, l2, m, hv1, hwin2, hpos2, hfirst, hroom2⟩ :=
      @readGapBackwardV1_spec t s1 w' n' l' q (fun h => hshort (.inl h)) hwin' hnl' (by omega)
        (by omega) hq
    have hfound : Found t q (w2 + n2) := by
      rw [Found, if_neg hshort]
      exact hfirst
    obtain ⟨hleq, hstep⟩ := found_step hq hfound
    have hpos3 := step_pos t q
    have hbound := hfirst.limit_le
    have hend := hroom2 (t.step q - 1) (by omega) (by have := hwin2.position_le; omega)
    have hback2 := hroom2 (q - (w2 + n2)) (by omega) (by have := hwin2.position_le; omega)
    obtain ⟨s', htake, hat'⟩ := takeGap_back hwin2 (by omega) (by omega) (by omega)
    refine ⟨s', w2 + n2, ?_, ?_, hfound⟩
    · simp only [readGapBackward, hback', hcond, if_neg hshort, hv1, htake]
      rfl
    · have hq' : w2 + (n2 + m) - t.step (w2 + n2) = q := by omega
      exact hq' ▸ hat'

/-! ## Which gap is found -/

/-- Before the gap at `q` stands a long one, one or two short ones between, that has its zero just
four bytes before the end of the gap at `q`; and the first short one is not as long as that gap. -/
def Misled (t : Tape) (q : Nat) : Prop :=
  t.version ≠ 0 ∧ ∃ a j, t.Chain 0 a ∧ (j = 2 ∨ j = 3) ∧ a + 4 + j = q + 1 ∧ t.byteAt a = 0 ∧
    t.byteAt (a + j) = 0 ∧ (∀ i < j, t.byteAt (a + 4 + i) ≠ 0) ∧ t.byteAt (a + 4) ≠ t.byteAt q

theorem step_short (h : t.byteAt p ≠ 0) : t.step p = 1 := by
  rw [Tape.step, if_pos (.inr h)]

theorem step_long (hversion : t.version ≠ 0) (h : t.byteAt p = 0) : t.step p = 4 := by
  rw [Tape.step, if_neg]
  rintro (hzero | hne)
  · exact hversion hzero
  · exact hne h

theorem byte_of_step (hversion : t.version ≠ 0) (h : t.step p = 1) : t.byteAt p ≠ 0 := by
  intro hzero
  rw [step_long hversion hzero] at h
  omega

/-- A short gap is worth eight times its byte. -/
theorem gap_eq_iff (ha : t.byteAt a ≠ 0) (hb : t.byteAt b ≠ 0) :
    t.gap a = t.gap b ↔ t.byteAt a = t.byteAt b := by
  have hshort {p : Nat} (hp : t.byteAt p ≠ 0) : t.gap p = (t.byteAt p).toNat * 8 := by
    have hne : (t.byteAt p).toNat ≠ 0 := fun h => hp (UInt8.toNat_inj.1 h)
    simp only [Tape.gap, hne, ne_eq, not_false_eq_true, or_true, ↓reduceIte]
  rw [hshort ha, hshort hb, ← UInt8.toNat_inj]
  omega

/-- What a chain comes from. -/
theorem chain_prev (h : t.Chain a b) (hlt : a < b) : ∃ p, t.Chain a p ∧ t.next p = b := by
  induction h with
  | refl p => exact absurd hlt (Nat.lt_irrefl _)
  | @step p q h ih =>
    obtain heq | hlt' := Nat.eq_or_lt_of_le (chain_le h)
    · exact ⟨p, .refl p, heq⟩
    · obtain ⟨r, hr, hrq⟩ := ih hlt'
      exact ⟨r, .step hr, hrq⟩

/-- On less than four bytes there are no long gaps. -/
theorem chain_short (hversion : t.version ≠ 0) (h : t.Chain a b) (hlt : b < a + 4) :
    ∀ p, a ≤ p → p < b → t.byteAt p ≠ 0 := by
  induction h with
  | refl p => exact fun r hr hlt' => absurd hlt' (Nat.not_lt.2 hr)
  | @step a q h ih =>
    have hle := chain_le h
    have hone : t.step a = 1 := by
      have := step_cases t a
      unfold Tape.next at hle
      omega
    intro p hp hpq
    obtain rfl | hmore := Nat.eq_or_lt_of_le hp
    · exact byte_of_step hversion hone
    · exact ih (by rw [Tape.next, hone]; omega) p (by rw [Tape.next, hone]; exact hmore) hpq

theorem found_of_misled {j : Nat} (hversion : t.version ≠ 0) (ha : t.Chain 0 a)
    (hj : j = 2 ∨ j = 3) (hend : a + 4 + j = t.next q) (hlong : t.byteAt a = 0)
    (hzero : t.byteAt (a + j) = 0) (he : Found t q e) : e = a + 4 := by
  have hplace : t.next q - 4 = a + j := by omega
  have hno : ¬(t.version = 0 ∨ t.next q < 4 ∨ t.byteAt (t.next q - 4) ≠ 0) := by
    rw [hplace, not_or, not_or, not_not]
    exact ⟨hversion, by omega, hzero⟩
  rw [Found, if_neg hno, hplace] at he
  have hnext : t.next a = a + 4 := by rw [Tape.next, step_long hversion hlong]
  have hle := he.least (a + 4) (hnext ▸ chain_next ha) (by omega)
  have hstart := he.limit_le
  have hge := chain_le (chain_of_lt (chain_total ha he.chain (by omega)) (by omega))
  omega

theorem gap_found (hq : t.Chain 0 q) (he : Found t q e) : t.gap e = t.gap q ↔ ¬Misled t q := by
  obtain ⟨hleq, hstep⟩ := found_step hq he
  constructor
  · rintro hgap ⟨hversion, a, j, ha, hj, hend, hlong, hzero, hshort, hne⟩
    have hqbyte : t.byteAt q ≠ 0 := by
      have hlast : a + 4 + (j - 1) = q := by omega
      exact hlast ▸ hshort (j - 1) (by omega)
    have heq := found_of_misled hversion ha hj
      (by rw [Tape.next, step_short hqbyte]; exact hend) hlong hzero he
    have hebyte : t.byteAt e ≠ 0 := heq ▸ hshort 0 (by omega)
    exact hne (heq ▸ (gap_eq_iff hebyte hqbyte).1 hgap)
  · intro hclear
    obtain rfl | hlt := Nat.eq_or_lt_of_le hleq
    · rfl
    unfold Found at he
    split at he
    · omega
    rename_i hcond
    rw [not_or, not_or, not_not] at hcond
    obtain ⟨hversion, -, hzero⟩ := hcond
    have hstart := he.limit_le
    have hchain := chain_total he.chain hq hleq
    have hone : t.step e = 1 := by
      have := step_cases t e
      have := step_cases t q
      have := chain_le (chain_of_lt hchain hlt)
      unfold Tape.next at *
      omega
    have hqbyte := byte_of_step hversion (hstep.symm.trans hone)
    have hebyte := byte_of_step hversion hone
    have hnext : t.next q = q + 1 := by rw [Tape.next, hstep.symm.trans hone]
    rw [hnext] at hzero hstart
    have hfar : e ≠ q + 1 - 4 := fun h => hebyte (h ▸ hzero)
    obtain ⟨a, ha, hae⟩ := chain_prev he.chain (by omega)
    have hbefore : a < q + 1 - 4 := by
      by_contra hno
      have := he.least a ha (by omega)
      have := next_gt t a
      omega
    obtain hshort | ⟨hlong, -, hbyte⟩ := step_cases t a
    · unfold Tape.next at hae
      omega
    have hplace : a + 4 = e := by rw [← hae, Tape.next, hlong]
    by_contra hne
    refine hclear ⟨hversion, a, q + 1 - e, ha, by omega, by omega, hbyte, ?_, fun i hi => ?_, ?_⟩
    · have hsame : a + (q + 1 - e) = q + 1 - 4 := by omega
      rw [hsame]
      exact hzero
    · obtain hin | hend : a + 4 + i < q ∨ a + 4 + i = q := by omega
      · exact chain_short hversion hchain (by omega) _ (by omega) hin
      · exact hend ▸ hqbyte
    · rw [hplace]
      exact fun heq => hne ((gap_eq_iff hebyte hqbyte).2 heq)

/-! ## Any number of calls -/

theorem iterate_chain (h : t.Chain a p) (n : Nat) : t.Chain a (t.next^[n] p) := by
  induction n with
  | zero => exact h
  | succ n ih =>
    rw [Function.iterate_succ_apply']
    exact chain_next ih

/-- Gaps that were all there. -/
theorem play_spec {gaps : List Nat} {s' : Deck} (n : Nat) (hat : At t s p)
    (hplay : readGaps t .forward n s = (gaps, s')) (hpos : ∀ g ∈ gaps, 0 < g) :
    gaps = (List.range n).map (fun k => t.gap (t.next^[k] p)) ∧ At t s' (t.next^[n] p) := by
  induction n generalizing s p gaps with
  | zero =>
    cases hplay
    exact ⟨rfl, hat⟩
  | succ n ih =>
    simp only [readGaps, datasetteReadGap] at hplay
    obtain hfit | hcut : t.next p ≤ t.length ∨ t.length < t.next p := by omega
    · obtain ⟨s1, hread, hat1⟩ := readGapForward_some hat hfit
      rw [hread] at hplay
      generalize hrest : readGaps t .forward n s1 = r at hplay
      obtain ⟨rest, s2⟩ := r
      cases hplay
      obtain ⟨hgaps, hat2⟩ := ih hat1 hrest fun g hg => hpos g (List.mem_cons_of_mem _ hg)
      refine ⟨?_, hat2⟩
      rw [List.range_succ_eq_map, List.map_cons, List.map_map, hgaps]
      rfl
    · obtain ⟨s1, hread, -⟩ := readGapForward_none hat hcut
      rw [hread] at hplay
      generalize readGaps t .forward n s1 = r at hplay
      cases hplay
      exact absurd (hpos 0 List.mem_cons_self) (Nat.lt_irrefl 0)

/-- The way back over `n` gaps: the position is where it was, and the gaps are those passed where
none of them misleads the deck. -/
theorem rewind_spec (n : Nat) (hat : At t s (t.next^[n] p)) (hp : t.Chain 0 p) :
    At t (readGaps t .rewind n s).2 p ∧
      ((readGaps t .rewind n s).1 =
          ((List.range n).map fun k => t.gap (t.next^[k] p)).reverse ↔
        ∀ k < n, ¬Misled t (t.next^[k] p)) := by
  induction n generalizing s with
  | zero => exact ⟨hat, iff_of_true rfl fun k hk => absurd hk (Nat.not_lt_zero k)⟩
  | succ n ih =>
    rw [Function.iterate_succ_apply'] at hat
    obtain ⟨s1, e, hread, hat1, hfound⟩ := readGapBackward_spec hat (iterate_chain hp n)
    obtain ⟨hback, hgaps⟩ := ih hat1
    simp only [readGaps, datasetteReadGap, hread]
    refine ⟨hback, ?_⟩
    rw [List.range_succ, List.map_append, List.reverse_append, List.map_singleton,
      List.reverse_singleton, List.singleton_append, List.cons.injEq, hgaps,
      gap_found (iterate_chain hp n) hfound, Nat.forall_lt_succ_right, and_comm]

/-- The states of a deck: an image attached, calls in both directions, and the buffer dropped when
a button is pressed (src/datasette/datasette.c:1155-1156). -/
inductive Reachable (t : Tape) : Deck → Prop
  | attached (tapBuffer : List UInt8) : Reachable t (Deck.attached tapBuffer)
  | call (direction : Direction) {s : Deck} (h : Reachable t s) :
      Reachable t (datasetteReadGap t direction s).2
  | dropped {s : Deck} (h : Reachable t s) : Reachable t { s with nextTap := 0, lastTap := 0 }

theorem at_position (hat : At t s p) : s.currentFileSeekPosition = (p : Int) := by
  obtain ⟨w, n, l, hwin, -, rfl⟩ := hat
  exact hwin.position

theorem at_le (hat : At t s p) : p ≤ t.length := by
  obtain ⟨w, n, l, hwin, -, rfl⟩ := hat
  exact hwin.position_le

/-- At the start of the tape there is no gap to go back over. -/
theorem readGapBackward_start (hat : At t s 0) : ∃ s', readGapBackward t s = (0, s') ∧ At t s' 0 := by
  obtain ⟨w, n, l, hwin, hnl, hp⟩ := hat
  obtain ⟨s1, w', n', l', hback, hwin', hnl', hpos, -⟩ :=
    @moveBufferBack_spec t s w n l 4 hwin hnl (by decide)
  have hback' : moveBufferBack t (-4) s = (true, s1) := hback
  have hn : n' = 0 := by omega
  have hnext : s1.nextTap = 0 := by rw [hwin'.next, hn]; rfl
  refine ⟨s1, ?_, w', n', l', hwin', hnl', by omega⟩
  have hno : fetchGap t s1 (-1) (s1.nextTap - 1) = none := by
    rw [fetchGap, if_pos (.inr (by omega))]
  have hlt : s1.nextTap < 4 := by omega
  simp only [readGapBackward, hback', hlt, true_or, or_true, ↓reduceIte, takeGap, hno]

/-- A call goes from the start of a gap to the start of a gap. -/
theorem datasetteReadGap_at (hat : At t s p) (hgap : t.AtGap p) (direction : Direction) :
    ∃ q, At t (datasetteReadGap t direction s).2 q ∧ t.AtGap q := by
  cases direction with
  | forward =>
    obtain hfit | hcut : t.next p ≤ t.length ∨ t.length < t.next p := by omega
    · obtain ⟨s', hread, hat'⟩ := readGapForward_some hat hfit
      refine ⟨t.next p, ?_, chain_next hgap.1, hfit⟩
      rw [datasetteReadGap, hread]
      exact hat'
    · obtain ⟨s', hread, hat'⟩ := readGapForward_none hat hcut
      refine ⟨p, ?_, hgap⟩
      rw [datasetteReadGap, hread]
      exact hat'
  | rewind =>
    obtain rfl | hpos := Nat.eq_zero_or_pos p
    · obtain ⟨s', hread, hat'⟩ := readGapBackward_start hat
      refine ⟨0, ?_, hgap⟩
      rw [datasetteReadGap, hread]
      exact hat'
    · obtain ⟨q, hq, rfl⟩ := chain_prev hgap.1 hpos
      obtain ⟨s', e, hread, hat', -⟩ := readGapBackward_spec hat hq
      refine ⟨q, ?_, hq, at_le hat'⟩
      rw [datasetteReadGap, hread]
      exact hat'

theorem at_dropped (hat : At t s p) : At t { s with nextTap := 0, lastTap := 0 } p := by
  refine ⟨p, 0, 0, ⟨(at_position hat).trans (Int.add_zero _).symm, rfl, rfl, at_le hat, at_le hat, ?_⟩,
    Nat.le_refl _, rfl⟩
  exact fun i hi => absurd hi (Nat.not_lt_zero i)

theorem Reachable.at (h : Reachable t s) : ∃ p, At t s p ∧ t.AtGap p := by
  induction h with
  | attached buffer =>
    exact ⟨0, ⟨0, 0, 0, window_attached buffer, Nat.le_refl _, rfl⟩, .refl 0, Nat.zero_le _⟩
  | @call direction s h ih =>
    obtain ⟨p, hat, hgap⟩ := ih
    exact datasetteReadGap_at hat hgap direction
  | dropped h ih =>
    obtain ⟨p, hat, hgap⟩ := ih
    exact ⟨p, at_dropped hat, hgap⟩

/-- What `n` calls the one way and `n` the other have to leave: the gaps backwards, the position
where it was and at the start of a gap all the time. -/
structure Undone (t : Tape) (n : Nat) (s s' : Deck) (gaps : List Nat) : Prop where
  gaps_eq : (readGaps t .rewind n s').1 = gaps.reverse
  position_eq : (readGaps t .rewind n s').2.currentFileSeekPosition = s.currentFileSeekPosition
  atGap : ∀ m ≤ n, ∃ q : Nat,
    (readGaps t .rewind m s').2.currentFileSeekPosition = (q : Int) ∧ t.AtGap q

/-- The position always comes back, gap by gap. -/
theorem rewind_position {gaps : List Nat} {s' : Deck} (h : Reachable t s)
    (hplay : readGaps t .forward n s = (gaps, s')) (hpos : ∀ g ∈ gaps, 0 < g) :
    ∀ m ≤ n, ∃ q : Nat, (readGaps t .rewind m s').2.currentFileSeekPosition = (q : Int) ∧
      t.AtGap q ∧ q = t.next^[n - m] s.currentFileSeekPosition.toNat := by
  intro m hm
  obtain ⟨p, hat, hgap⟩ := h.at
  obtain ⟨-, hat'⟩ := play_spec n hat hplay hpos
  have hsplit : t.next^[n] p = t.next^[m] (t.next^[n - m] p) := by
    rw [← Function.iterate_add_apply]
    congr 1
    omega
  rw [hsplit] at hat'
  have hchain := iterate_chain hgap.1 (n - m)
  have hback := (rewind_spec m hat' hchain).1
  refine ⟨_, at_position hback, ⟨hchain, at_le hback⟩, ?_⟩
  rw [at_position hat, Int.toNat_natCast]

/-- Rewinding undoes playing exactly when none of the gaps played misleads the deck. -/
theorem rewind_undoes_iff {gaps : List Nat} {s' : Deck} (h : Reachable t s)
    (hplay : readGaps t .forward n s = (gaps, s')) (hpos : ∀ g ∈ gaps, 0 < g) :
    Undone t n s s' gaps ↔
      ∀ k < n, ¬Misled t (t.next^[k] s.currentFileSeekPosition.toNat) := by
  have hplaces := rewind_position h hplay hpos
  obtain ⟨p, hat, hgap⟩ := h.at
  obtain ⟨hgaps, hat'⟩ := play_spec n hat hplay hpos
  obtain ⟨hback, hiff⟩ := rewind_spec n hat' hgap.1
  rw [at_position hat, Int.toNat_natCast, ← hiff, ← hgaps]
  refine ⟨fun hundone => hundone.gaps_eq, fun heq => ⟨heq, ?_, fun m hm => ?_⟩⟩
  · rw [at_position hback, at_position hat]
  · obtain ⟨q, hq, hatGap, -⟩ := hplaces m hm
    exact ⟨q, hq, hatGap⟩

/-! ## A tape that misleads -/

/-- A long gap, its last byte zero, and three short ones. -/
def longAndShort : Tape where
  file := [0x00, 0x10, 0x27, 0x00, 0x30, 0x40, 0x50]
  offset := 0
  version := 1
  zeroGapDelay := 2500

/-- The three gaps before the last come back. -/
theorem rewind_undoes_three : Undone longAndShort 3 (Deck.attached [])
      (readGaps longAndShort .forward 3 (Deck.attached [])).2 [10000, 384, 512] := by
  have hplay : readGaps longAndShort .forward 3 (Deck.attached []) =
      ([10000, 384, 512], (readGaps longAndShort .forward 3 (Deck.attached [])).2) :=
    Prod.ext (by decide +kernel) rfl
  refine (rewind_undoes_iff (.attached []) hplay (by decide)).2 fun k hk => ?_
  rintro ⟨-, a, j, -, hj, hend, -, hzero, -⟩
  have hplace : longAndShort.next^[k] 0 ≤ 5 := by
    obtain rfl | rfl | rfl : k = 0 ∨ k = 1 ∨ k = 2 := by omega
    all_goals decide
  have hplace' : (longAndShort.next^[k] (Deck.attached []).currentFileSeekPosition.toNat) =
      longAndShort.next^[k] 0 := rfl
  rw [hplace'] at hend
  obtain ⟨rfl, rfl⟩ : a = 0 ∧ j = 2 := by omega
  exact absurd hzero (by decide)

/-- The gap of 640 comes back as the one of 384. -/
theorem rewind_not_undone : (readGaps longAndShort .forward 4 (Deck.attached [])).1 = [10000, 384, 512, 640] ∧
      (readGaps longAndShort .rewind 4
        (readGaps longAndShort .forward 4 (Deck.attached [])).2).1 = [384, 512, 384, 10000] ∧
      ¬Undone longAndShort 4 (Deck.attached [])
        (readGaps longAndShort .forward 4 (Deck.attached [])).2 [10000, 384, 512, 640] := by
  have hback : (readGaps longAndShort .rewind 4
      (readGaps longAndShort .forward 4 (Deck.attached [])).2).1 = [384, 512, 384, 10000] := by
    decide +kernel
  refine ⟨by decide +kernel, hback, fun h => ?_⟩
  have heq := h.gaps_eq
  rw [hback] at heq
  exact absurd heq (by decide)

end Vice.L4.DatasetteRewind
