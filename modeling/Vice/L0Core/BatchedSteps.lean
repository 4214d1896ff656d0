import Mathlib.Logic.Function.Iterate
import Mathlib.Order.Basic

/-!
# Steps taken several at a time

A machine that could go step by step, and a loop over it that takes as many steps in one pass as
it thinks nothing can happen in.

Results:
* `run_keep`: what every pass of the loop keeps, the loop keeps.
* `run_eq_iterate`: the loop is the single steps when every pass of it is exact.
* `run_iff`: and only then, over all the lengths up to `n`.
-/
namespace Vice.L0.BatchedSteps

/-- A loop that asks for `take n s` steps at once while `n` are left. -/
structure Passes (σ : Type) where
  take : Nat → σ → Nat
  pass : Nat → σ → σ
  take_pos : ∀ n s, 0 < n → 0 < take n s

variable {σ : Type} {P : Passes σ} {inv : σ → Prop} {ok : Nat → σ → Prop} {bound : σ → Nat}
  {s : σ} {j k m n : Nat}

/-- `n` steps, pass by pass. -/
def Passes.run (P : Passes σ) : Nat → σ → σ
  | 0, s => s
  | n + 1, s => P.run (n + 1 - P.take (n + 1) s) (P.pass (P.take (n + 1) s) s)
termination_by n => n
decreasing_by
  have := P.take_pos (n + 1) s n.succ_pos
  omega

/-- A pass of one step. -/
def Passes.one (P : Passes σ) : σ → σ := P.pass 1

theorem run_zero : P.run 0 s = s := by
  rw [Passes.run]

theorem run_pos (hn : 0 < n) : P.run n s = P.run (n - P.take n s) (P.pass (P.take n s) s) := by
  obtain ⟨n, rfl⟩ := Nat.exists_eq_succ_of_ne_zero (Nat.pos_iff_ne_zero.1 hn)
  rw [Nat.succ_eq_add_one, Passes.run]

/-- What every pass keeps, a run keeps. -/
theorem run_keep (hkeep : ∀ k s, inv s → inv (P.pass k s)) (hs : inv s) : inv (P.run n s) := by
  induction n using Nat.strongRecOn generalizing s with
  | ind n ih =>
    obtain rfl | hn := Nat.eq_zero_or_pos n
    · rw [run_zero]
      exact hs
    · have hpos := P.take_pos n s hn
      rw [run_pos hn]
      exact ih _ (by omega) (hkeep _ _ hs)

/-- Every pass of a run of `n` steps is `ok` in the state it starts from. -/
inductive Clear (P : Passes σ) (ok : Nat → σ → Prop) : Nat → σ → Prop
  | done (s : σ) : Clear P ok 0 s
  | pass {n : Nat} {s : σ} (hn : 0 < n) (hok : ok (P.take n s) s)
      (hrest : Clear P ok (n - P.take n s) (P.pass (P.take n s) s)) : Clear P ok n s

/-- What a machine has to promise about its passes: how long one may be depends on the state
alone, and a pass is its single steps exactly where `ok` says so. -/
structure Exact (P : Passes σ) (inv : σ → Prop) (ok : Nat → σ → Prop) (bound : σ → Nat) :
    Prop where
  take_eq : ∀ {n s}, inv s → 0 < n → P.take n s = min n (bound s)
  keep : ∀ {s}, inv s → inv (P.one s)
  exact : ∀ {k s}, inv s → 0 < k → k ≤ bound s → (P.pass k s = P.one^[k] s ↔ ok k s)
  mono : ∀ {j k s}, inv s → k ≤ bound s → ok k s → 0 < j → j ≤ k → ok j s

namespace Exact

theorem keep_iterate (hE : Exact P inv ok bound) (hs : inv s) (k : Nat) : inv (P.one^[k] s) := by
  induction k with
  | zero => exact hs
  | succ k ih =>
    rw [Function.iterate_succ_apply']
    exact hE.keep ih

theorem take_bounds (hE : Exact P inv ok bound) (hs : inv s) (hn : 0 < n) :
    0 < P.take n s ∧ P.take n s ≤ n ∧ P.take n s ≤ bound s := by
  have htake := hE.take_eq hs hn
  have hpos := P.take_pos n s hn
  omega

/-- A run cut short has the passes of the whole one, and a shorter last pass. -/
theorem clear_mono (hE : Exact P inv ok bound) (hs : inv s) (hc : Clear P ok n s) (hmn : m ≤ n) :
    Clear P ok m s := by
  induction hc generalizing m with
  | done s =>
    rw [Nat.le_zero.1 hmn]
    exact .done s
  | @pass n s hn hok hrest ih =>
    obtain rfl | hm := Nat.eq_zero_or_pos m
    · exact .done s
    obtain ⟨hpos, hle, hbound⟩ := hE.take_bounds hs hn
    have hstep := (hE.exact hs hpos hbound).2 hok
    obtain hfull | hcut : P.take m s = P.take n s ∨ P.take m s = m ∧ m ≤ P.take n s := by
      have hm' := hE.take_eq hs hm
      have hn' := hE.take_eq hs hn
      omega
    · refine .pass hm (hfull ▸ hok) ?_
      rw [hfull]
      exact ih (by rw [hstep]; exact hE.keep_iterate hs _) (by omega)
    · refine .pass hm (by rw [hcut.1]; exact hE.mono hs hbound hok hm hcut.2) ?_
      rw [hcut.1, Nat.sub_self]
      exact .done _

/-- Where every pass is exact, so is the run. -/
theorem run_eq_iterate (hE : Exact P inv ok bound) (hs : inv s) (hc : Clear P ok n s) :
    P.run n s = P.one^[n] s := by
  induction hc with
  | done s => rw [run_zero, Function.iterate_zero_apply]
  | @pass n s hn hok hrest ih =>
    obtain ⟨hpos, hle, hbound⟩ := hE.take_bounds hs hn
    have hstep := (hE.exact hs hpos hbound).2 hok
    have hrun := ih (by rw [hstep]; exact hE.keep_iterate hs _)
    rw [run_pos hn, hrun, hstep, ← Function.iterate_add_apply]
    congr 1
    omega

/-- A run of as many steps as one pass takes is that pass. -/
theorem run_take (hE : Exact P inv ok bound) (hs : inv s) (hn : 0 < n) :
    P.run (P.take n s) s = P.pass (P.take n s) s := by
  obtain ⟨hpos, hle, hbound⟩ := hE.take_bounds hs hn
  have hsame : P.take (P.take n s) s = P.take n s := by
    rw [hE.take_eq hs hpos]
    omega
  rw [run_pos hpos, hsame, Nat.sub_self, run_zero]

/-- And a longer one begins with it. -/
theorem run_take_add (hE : Exact P inv ok bound) (hs : inv s) (hn : 0 < n) (hm : m ≤ n - P.take n s) :
    P.run (P.take n s + m) s = P.run m (P.pass (P.take n s) s) := by
  obtain ⟨hpos, hle, hbound⟩ := hE.take_bounds hs hn
  have hsame : P.take (P.take n s + m) s = P.take n s := by
    have htake := hE.take_eq hs hn
    rw [hE.take_eq hs (by omega)]
    omega
  rw [run_pos (by omega), hsame, Nat.add_sub_cancel_left]

theorem clear_of_run (hE : Exact P inv ok bound) (hs : inv s)
    (hrun : ∀ m ≤ n, P.run m s = P.one^[m] s) : Clear P ok n s := by
  induction n using Nat.strongRecOn generalizing s with
  | ind n ih =>
    obtain rfl | hn := Nat.eq_zero_or_pos n
    · exact .done s
    obtain ⟨hpos, hle, hbound⟩ := hE.take_bounds hs hn
    have hstep : P.pass (P.take n s) s = P.one^[P.take n s] s := by
      rw [← hE.run_take hs hn]
      exact hrun _ hle
    refine .pass hn ((hE.exact hs hpos hbound).1 hstep) ?_
    refine ih _ (by omega) (by rw [hstep]; exact hE.keep_iterate hs _) fun m hm => ?_
    have hlong := hrun (P.take n s + m) (by omega)
    rw [hE.run_take_add hs hn hm, Nat.add_comm, Function.iterate_add_apply] at hlong
    rw [hlong, hstep]

/-- The loop is invisible up to `n` steps exactly when every pass of it is `ok`. -/
theorem run_iff (hE : Exact P inv ok bound) (hs : inv s) :
    (∀ m ≤ n, P.run m s = P.one^[m] s) ↔ Clear P ok n s :=
  ⟨hE.clear_of_run hs, fun hc _ hm => hE.run_eq_iterate hs (hE.clear_mono hs hc hm)⟩

end Exact

end Vice.L0.BatchedSteps
