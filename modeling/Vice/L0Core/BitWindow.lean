import Vice.L0Core.BitRun

/-!
# Windows of a shift register

A register that is shifted to the left shows its bits one by one at a fixed place. `window v hi r`
are the next `r` of them, the one at `hi` first. Shifting moves the window up by one place,
shifting a bit in makes it longer at its end.
-/
namespace Vice.L0.BitWindow
open BitRun (byteBits)

variable {w w' : Nat}

/-- The `r` bits of `v` from `hi` downwards. -/
def window (v : BitVec w) (hi : Nat) : Nat → List Bool
  | 0 => []
  | r + 1 => v.getLsbD hi :: window v (hi - 1) r

@[simp] theorem window_zero (v : BitVec w) (hi : Nat) : window v hi 0 = [] := rfl

@[simp] theorem window_length (v : BitVec w) (hi r : Nat) : (window v hi r).length = r := by
  induction r generalizing hi with
  | zero => rfl
  | succ r ih => simp [window, ih]

theorem window_congr {v : BitVec w} {v' : BitVec w'} {hi hi' r : Nat}
    (h : ∀ i < r, v.getLsbD (hi - i) = v'.getLsbD (hi' - i)) : window v hi r = window v' hi' r := by
  induction r generalizing hi hi' with
  | zero => rfl
  | succ r ih =>
    have htail : window v (hi - 1) r = window v' (hi' - 1) r :=
      ih fun i hlt => by
        have hbit := h (i + 1) (by omega)
        rwa [show hi - (i + 1) = hi - 1 - i by omega, show hi' - (i + 1) = hi' - 1 - i by omega] at hbit
    simp only [window, htail]
    have hhead := h 0 (by omega)
    rw [Nat.sub_zero, Nat.sub_zero] at hhead
    rw [hhead]

/-- A shift moves the window up. -/
theorem window_shiftLeft {v : BitVec w} {hi r : Nat} (hr : r ≤ hi + 1) (hw : hi + 1 < w) :
    window (v <<< 1) (hi + 1) r = window v hi r := by
  apply window_congr
  intro i hlt
  rw [BitVec.getLsbD_shiftLeft, show hi + 1 - i - 1 = hi - i by omega]
  simp [show hi + 1 - i < w by omega, show ¬hi + 1 - i < 1 by omega]

/-- What is put below a window is not in it. -/
theorem window_or_of_clear {v v' : BitVec w} {hi r : Nat}
    (h : ∀ i < r, v'.getLsbD (hi - i) = false) : window (v ||| v') hi r = window v hi r := by
  apply window_congr
  intro i hlt
  rw [BitVec.getLsbD_or, h i hlt, Bool.or_false]

theorem window_succ_last {v : BitVec w} {hi r : Nat} :
    window v hi (r + 1) = window v hi r ++ [v.getLsbD (hi - r)] := by
  induction r generalizing hi with
  | zero => rfl
  | succ r ih =>
    rw [window, ih, window, show hi - 1 - r = hi - (r + 1) by omega]
    rfl

/-- A bit is shifted in. -/
theorem window_shiftIn {v b : BitVec w} {r : Nat} (hr : r < w) (hb : ∀ i, 0 < i → b.getLsbD i = false) :
    window (v <<< 1 ||| b) r (r + 1) = window v (r - 1) r ++ [b.getLsbD 0] := by
  rw [window_succ_last, Nat.sub_self]
  congr 1
  · rw [window_or_of_clear fun i hlt => hb _ (by omega)]
    cases r with
    | zero => rfl
    | succ r => exact window_shiftLeft (by omega) hr
  · simp [BitVec.getLsbD_or, BitVec.getLsbD_shiftLeft]

theorem window_byte (b : UInt8) : window b.toBitVec 7 8 = byteBits b := rfl

end Vice.L0.BitWindow
