import Mathlib.Logic.Function.Iterate

/-!
# Devices that are brought up to date

Some time has passed since a device was looked at. At a rate it becomes a number of steps, what is
left of it is carried, and the device takes the steps and is left in order.

Results:
* `settle_split`: the steps of two looks are those of one.
* `carry_div`, `carry_mod`: so are their numbers, and what is carried.
-/
namespace Vice.L0.CatchUp

section
variable {σ : Type} {step settle : σ → σ} {s : σ}

theorem settle_iterate (hidem : ∀ s, settle (settle s) = settle s)
    (hstep : ∀ s, settle (step (settle s)) = settle (step s)) (n : Nat) (s : σ) :
    settle (step^[n] (settle s)) = settle (step^[n] s) := by
  induction n generalizing s with
  | zero => exact hidem s
  | succ n ih =>
    rw [Function.iterate_succ_apply, Function.iterate_succ_apply, ← ih, hstep, ih]

theorem settle_split (hidem : ∀ s, settle (settle s) = settle s)
    (hstep : ∀ s, settle (step (settle s)) = settle (step s)) (n m : Nat) (s : σ) :
    settle (step^[m] (settle (step^[n] s))) = settle (step^[n + m] s) := by
  rw [settle_iterate hidem hstep, Nat.add_comm, Function.iterate_add_apply]

end

section
variable (a rate scale t u : Nat)

theorem carry_div : (a + rate * t) / scale + ((a + rate * t) % scale + rate * u) / scale =
    (a + rate * (t + u)) / scale := by
  obtain rfl | hscale := Nat.eq_zero_or_pos scale
  · simp
  · have hsplit : a + rate * (t + u) =
        ((a + rate * t) % scale + rate * u) + (a + rate * t) / scale * scale := by
      have hdiv := Nat.mod_add_div (a + rate * t) scale
      rw [Nat.mul_comm scale] at hdiv
      rw [Nat.mul_add]
      omega
    rw [hsplit, Nat.add_mul_div_right _ _ hscale, Nat.add_comm]

theorem carry_mod : ((a + rate * t) % scale + rate * u) % scale = (a + rate * (t + u)) % scale := by
  rw [Nat.mod_add_mod, Nat.mul_add, Nat.add_assoc]

end

end Vice.L0.CatchUp
