import Vice.L4Machine.Datasette
import Mathlib.Order.Basic

/-!
# The datasette's buffer

The buffer is a window of the tape around the position, and every move of it keeps the position
where it was.

Results:
* `moveBufferForward_spec`, `moveBufferBack_spec`: after a move the bytes asked for are in the
  window, as far as the tape has them.
* `fetchGap_some`, `fetchGap_none`: what is taken out of the window is what the tape has.
-/
namespace Vice.L4.DatasetteBuffer
open Vice.L4.Datasette

variable {t : Tape} {s : Deck} {w n l j k : Nat} {direction : Int}

/-- `l` bytes from `w` on are in the buffer, with the position `n` bytes from their start; a walk
over a long gap can put it behind them. -/
structure Window (t : Tape) (s : Deck) (w n l : Nat) : Prop where
  position : s.currentFileSeekPosition = w + n
  next : s.nextTap = n
  last : s.lastTap = l
  position_le : w + n ≤ t.length
  inside : w + l ≤ t.length
  bytes : ∀ i < l, s.tapBuffer.getD i 0 = t.byteAt (w + i)

theorem window_attached (buffer : List UInt8) : Window t (Deck.attached buffer) 0 0 0 where
  position := rfl
  next := rfl
  last := rfl
  position_le := Nat.zero_le _
  inside := Nat.zero_le _
  bytes _ hi := absurd hi (Nat.not_lt_zero _)

theorem Window.byte (h : Window t s w n l) (hk : k < l) : s.byte (k : Int) = t.byteAt (w + k) := by
  rw [Deck.byte, Int.toNat_natCast]
  exact h.bytes k hk

theorem Window.move (h : Window t s w n l) {m : Nat} (hm : w + m ≤ t.length) :
    Window t (s.move ((m : Int) - n)) w m l where
  position := by
    simp only [Deck.move, h.position]
    omega
  next := by
    simp only [Deck.move, h.next]
    omega
  last := h.last
  position_le := hm
  inside := h.inside
  bytes := h.bytes

/-! ## Filling it -/

theorem getD_take_drop (l old : List UInt8) (a m i : Nat) (hi : i < ((l.drop a).take m).length) :
    ((l.drop a).take m ++ old).getD i 0 = l.getD (a + i) 0 := by
  rw [List.getD_append _ _ _ _ hi]
  rw [List.length_take] at hi
  rw [List.getD_eq_getElem?_getD, List.getElem?_take, if_pos (by omega), List.getElem?_drop,
    List.getD_eq_getElem?_getD]

/-- The buffer filled from `p` on. -/
theorem refill_spec (t : Tape) (p : Nat) (s : Deck) : ∃ s', refill t p s = some s' ∧
      s'.currentFileSeekPosition = s.currentFileSeekPosition ∧ s'.nextTap = s.nextTap ∧
      s'.lastTap = (min tapBufferLength (t.length - p) : Nat) ∧
      ∀ i < min tapBufferLength (t.length - p), s'.tapBuffer.getD i 0 = t.byteAt (p + i) := by
  have hseek : ¬((p : Int) + t.offset < 0) := by omega
  have hfrom : ((p : Int) + t.offset).toNat = t.offset + p := by omega
  have hlen : ((t.file.drop (t.offset + p)).take tapBufferLength).length =
      min tapBufferLength (t.length - p) := by
    rw [List.length_take, List.length_drop, Tape.length]
    omega
  refine ⟨{ s with
    tapBuffer := (t.file.drop (t.offset + p)).take tapBufferLength ++ s.tapBuffer.drop
      ((t.file.drop (t.offset + p)).take tapBufferLength).length
    lastTap := ((t.file.drop (t.offset + p)).take tapBufferLength).length }, ?_, rfl, rfl, ?_,
    fun i hi => ?_⟩
  · rw [refill, if_neg hseek, hfrom]
  · simp only [hlen]
  · rw [← hlen] at hi
    rw [getD_take_drop _ _ _ _ _ hi, Tape.byteAt, Nat.add_assoc]

theorem moveBufferForward_spec (h : Window t s w n l) (hk : k ≤ 4) :
    ∃ s' w' n' l', moveBufferForward t k s = (decide (w + n < t.length), s') ∧
      Window t s' w' n' l' ∧ n' ≤ l' ∧ w' + n' = w + n ∧
      ∀ j ≤ k, w + n + j < t.length → n' + j < l' := by
  have hin := h.inside
  have hle := h.position_le
  unfold moveBufferForward
  by_cases hfill : s.lastTap ≤ s.nextTap + k
  · obtain ⟨s', hs', hpos, -, hlast, hbytes⟩ := refill_spec t (w + n) s
    have hcast : ((w + n : Nat) : Int) = s.currentFileSeekPosition := by
      rw [h.position]
      omega
    rw [hcast] at hs'
    have hbuffer : tapBufferLength = 100000 := rfl
    rw [if_pos hfill, hs']
    refine ⟨{ s' with nextTap := 0 }, w + n, 0, min tapBufferLength (t.length - (w + n)), ?_,
      ⟨?_, rfl, hlast, hle, by omega, hbytes⟩, Nat.zero_le _, rfl, fun j hj hlt => by omega⟩
    · simp only [hlast, Prod.mk.injEq, and_true, decide_eq_decide]
      omega
    · simp only [hpos, ← hcast]
      omega
  · rw [if_neg hfill]
    rw [h.next, h.last] at hfill
    refine ⟨s, w, n, l, ?_, h, by omega, rfl, fun j hj _ => by omega⟩
    rw [decide_eq_true (show w + n < t.length by omega)]

theorem moveBufferBack_spec (h : Window t s w n l) (hnl : n ≤ l) (hk : k ≤ 4) :
    ∃ s' w' n' l', moveBufferBack t (-k) s = (true, s') ∧
      Window t s' w' n' l' ∧ n' ≤ l' ∧ w' + n' = w + n ∧ (k ≤ n' ∨ w' = 0) := by
  have hin := h.inside
  have hle := h.position_le
  unfold moveBufferBack
  by_cases hfill : s.nextTap + -(k : Int) < 0
  · rw [if_pos hfill]
    have hbuffer : tapBufferLength = 100000 := rfl
    have hnext : (if (tapBufferLength : Int) ≤ s.currentFileSeekPosition then
        (tapBufferLength : Int) else s.currentFileSeekPosition) =
        ((min tapBufferLength (w + n) : Nat) : Int) := by
      rw [h.position]
      split <;> omega
    have hfrom : s.currentFileSeekPosition - ((min tapBufferLength (w + n) : Nat) : Int) =
        ((w + n - min tapBufferLength (w + n) : Nat) : Int) := by
      rw [h.position]
      omega
    simp only [hnext, hfrom]
    generalize hm : min tapBufferLength (w + n) = m at *
    obtain ⟨s', hs', hpos, hnext', hlast, hbytes⟩ := refill_spec t (w + n - m)
      { s with nextTap := (m : Int) }
    rw [hs']
    simp only at hpos hnext'
    refine ⟨s', w + n - m, m, min tapBufferLength (t.length - (w + n - m)), ?_,
      ⟨?_, hnext', hlast, by omega, by omega, hbytes⟩, by omega, by omega, by omega⟩
    · simp only [hlast, hnext', Prod.mk.injEq, and_true, decide_eq_true_eq]
      omega
    · rw [hpos, h.position]
      omega
  · rw [if_neg hfill]
    rw [h.next] at hfill
    exact ⟨s, w, n, l, rfl, h, hnl, rfl, .inl (by omega)⟩

/-! ## Taking a gap out of it -/

theorem step_pos (t : Tape) (p : Nat) : 0 < t.step p := by
  unfold Tape.step
  split <;> decide

/-- A gap that is all in the window. -/
theorem fetchGap_some (h : Window t s w n l) (hfit : k + t.step (w + k) ≤ l) :
    fetchGap t s direction k = some (t.gap (w + k), direction * t.step (w + k)) := by
  have hpos := step_pos t (w + k)
  have hin : ¬(s.lastTap ≤ k ∨ (k : Int) < 0) := by
    rw [h.last]
    omega
  rw [fetchGap, if_neg hin, h.byte (by omega)]
  unfold Tape.step at hfit ⊢
  unfold Tape.gap
  have hbyte : t.byteAt (w + k) ≠ 0 ↔ (t.byteAt (w + k)).toNat ≠ 0 := by
    rw [ne_eq, ← UInt8.toNat_inj]
    rfl
  simp only [hbyte] at hfit ⊢
  split
  · simp
  · rename_i hlong
    rw [if_neg hlong] at hfit
    have hroom : ¬s.lastTap - 3 ≤ k := by
      rw [h.last]
      omega
    have h1 : s.byte ((k : Int) + 1) = t.byteAt (w + k + 1) := h.byte (k := k + 1) (by omega)
    have h2 : s.byte ((k : Int) + 2) = t.byteAt (w + k + 2) := h.byte (k := k + 2) (by omega)
    have h3 : s.byte ((k : Int) + 3) = t.byteAt (w + k + 3) := h.byte (k := k + 3) (by omega)
    rw [if_neg hroom, h1, h2, h3]
    rfl

/-- A gap that the window, and so the tape, ends in. -/
theorem fetchGap_none (h : Window t s w n l) (hcut : l < k + t.step (w + k)) :
    fetchGap t s direction k = none := by
  unfold fetchGap
  by_cases hin : s.lastTap ≤ k ∨ (k : Int) < 0
  · rw [if_pos hin]
  · have hk : k < l := by
      rw [h.last] at hin
      omega
    have hlong : ¬(t.version = 0 ∨ t.byteAt (w + k) ≠ 0) := by
      intro hshort
      rw [Tape.step, if_pos hshort] at hcut
      omega
    have hroom : s.lastTap - 3 ≤ k := by
      rw [Tape.step, if_neg hlong] at hcut
      rw [h.last]
      omega
    rw [not_or, not_not] at hlong
    rw [if_neg hin, h.byte hk, hlong.2]
    simp only [hlong.1, UInt8.toNat_zero, ne_eq, not_true_eq_false, or_self, ↓reduceIte, hroom]

end Vice.L4.DatasetteBuffer
