import Mathlib.Data.Nat.Notation

/-!
# Steps that count

A machine whose every step reports how many events it saw.

Results:
* `steps_add`: a run in two parts.
* `steps_loop`: a run around a loop.
-/
namespace Vice.L0.CountedSteps

section
variable {σ : Type} {step : σ → σ × Nat} {s : σ} {j k n : Nat}

/-- The state after `k` steps, and the events on the way. -/
def steps (step : σ → σ × Nat) : Nat → σ → σ × Nat
  | 0, s => (s, 0)
  | k + 1, s =>
    let (t, m) := step s
    let (u, n) := steps step k t
    (u, m + n)

theorem steps_one : steps step 1 s = step s := rfl

theorem steps_succ (step : σ → σ × Nat) (k : Nat) (s : σ) : steps step (k + 1) s =
      ((steps step k (step s).1).1, (step s).2 + (steps step k (step s).1).2) := rfl

theorem steps_add (step : σ → σ × Nat) (j k : Nat) (s : σ) :
    steps step (j + k) s = ((steps step k (steps step j s).1).1,
      (steps step j s).2 + (steps step k (steps step j s).1).2) := by
  induction j generalizing s with
  | zero => rw [Nat.zero_add]; simp [steps]
  | succ j ih => rw [Nat.add_right_comm, steps_succ, ih, steps_succ, Nat.add_assoc]

/-- Events only add up. -/
theorem steps_le (hjk : j ≤ k) : (steps step j s).2 ≤ (steps step k s).2 := by
  obtain ⟨i, rfl⟩ := Nat.exists_eq_add_of_le hjk
  rw [steps_add]
  exact Nat.le_add_right _ _

/-- Around a family of states with a period of `k` steps and one event. -/
theorem steps_loop (at_ : Nat → σ) (hloop : ∀ i, steps step k (at_ i) = (at_ (i + k), 1)) (m i : Nat) :
    steps step (m * k) (at_ i) = (at_ (i + m * k), m) := by
  induction m generalizing i with
  | zero => rw [Nat.zero_mul]; rfl
  | succ m ih =>
    rw [Nat.succ_mul, Nat.add_comm (m * k), steps_add, hloop, ih]
    refine Prod.ext ?_ (Nat.add_comm _ _)
    rw [Nat.add_assoc]

end

end Vice.L0.CountedSteps
