import Mathlib.Order.Lattice
import Mathlib.Order.Basic
import Mathlib.Order.BoundedOrder.Basic

/-!
# The last least entry of an array

A loop over the first `n` entries that keeps the least key seen and the index of the last
entry with it.

Results:
* `minScan_le`: no entry has a smaller key than the result.
* `minScan_mem`: the result is an entry, if there is one.
-/
namespace Vice.L0.MinScan

section
variable {κ : Type} [LinearOrder κ] {key : Nat → κ} {best : κ × Int} {i n : Nat}

def minScan (key : Nat → κ) (best : κ × Int) : Nat → κ × Int
  | 0 => best
  | n + 1 =>
    let p := minScan key best n
    if key n ≤ p.1 then (key n, n) else p

theorem minScan_le (hi : i < n) : (minScan key best n).1 ≤ key i := by
  induction n with
  | zero => omega
  | succ n ih =>
    rw [minScan]
    split
    · next h =>
      rcases Nat.lt_succ_iff_lt_or_eq.mp hi with hlt | rfl
      · exact le_trans h (ih hlt)
      · exact le_refl _
    · next h =>
      rcases Nat.lt_succ_iff_lt_or_eq.mp hi with hlt | rfl
      · exact ih hlt
      · exact le_of_not_ge h

theorem minScan_cases : minScan key best n = best ∨ ∃ i < n, minScan key best n = (key i, (i : Int)) := by
  induction n with
  | zero => exact .inl rfl
  | succ n ih =>
    rw [minScan]
    split
    · exact .inr ⟨n, Nat.lt_succ_self n, rfl⟩
    · rcases ih with h | ⟨i, hi, h⟩
      · exact .inl h
      · exact .inr ⟨i, Nat.lt_succ_of_lt hi, h⟩

/-- A key below the start is some entry's. -/
theorem minScan_mem (h : (minScan key best n).1 < best.1) :
    ∃ i < n, minScan key best n = (key i, (i : Int)) := by
  refine minScan_cases.resolve_left fun he => ?_
  rw [he] at h
  exact absurd h (lt_irrefl _)

end

end Vice.L0.MinScan
