import Mathlib.Algebra.GroupWithZero.Nat
import Mathlib.Data.List.Range
import Mathlib.Algebra.BigOperators.Group.List.Basic
import Mathlib.Algebra.BigOperators.Group.List.Lemmas

/-!
# Rows of cells, counted through

Rows that follow each other, each of a width of its own. A cell's rank is the number of cells before
it, row by row.

Results:
* `Rows.cells_rank`: the cells in order have the ranks from 0 on.
* `Rows.rank_inj`: no two cells have the same rank.
-/
namespace Vice.L0.RowLayout

/-- `count` rows from number `first` on. -/
structure Rows where
  first : Nat
  count : Nat
  width : Nat → Nat

/-- The cells in the first `k` rows. -/
def Rows.start (r : Rows) (k : Nat) : Nat := ((List.range k).map fun i => r.width (r.first + i)).sum

def Rows.rank (r : Rows) (t s : Nat) : Nat := r.start (t - r.first) + s

def Rows.Has (r : Rows) (t s : Nat) : Prop := r.first ≤ t ∧ t < r.first + r.count ∧ s < r.width t

instance (r : Rows) (t s : Nat) : Decidable (r.Has t s) := by unfold Rows.Has; infer_instance

/-- All cells, row by row. -/
def Rows.cells (r : Rows) : List (Nat × Nat) :=
  (List.range r.count).flatMap fun i =>
    (List.range (r.width (r.first + i))).map fun s => (r.first + i, s)

section
variable {r : Rows} {t t' s s' : Nat}

theorem Rows.start_succ (r : Rows) (k : Nat) : r.start (k + 1) = r.start k + r.width (r.first + k) := by
  unfold Rows.start
  rw [List.range_succ, List.map_append, List.sum_append, List.map_singleton, List.sum_singleton]

theorem Rows.start_const {w : Nat} (h : ∀ t, r.first ≤ t → r.width t = w) (k : Nat) : r.start k = k * w := by
  induction k with
  | zero => rw [Nat.zero_mul]; rfl
  | succ k ih => rw [Rows.start_succ, ih, h _ (by omega), Nat.succ_mul]

theorem Rows.mem_cells : (t, s) ∈ r.cells ↔ r.Has t s := by
  unfold Rows.cells Rows.Has
  simp only [List.mem_flatMap, List.mem_map, List.mem_range, Prod.mk.injEq]
  constructor
  · rintro ⟨i, hi, s, hs, rfl, rfl⟩
    exact ⟨by omega, by omega, hs⟩
  · rintro ⟨h1, h2, h3⟩
    exact ⟨t - r.first, by omega, s, by rwa [show r.first + (t - r.first) = t by omega], by omega, rfl⟩

theorem Rows.cells_rank (r : Rows) : r.cells.map (fun c => r.rank c.1 c.2) = List.range (r.start r.count) := by
  have hrow : r.cells.map (fun c => r.rank c.1 c.2) = (List.range r.count).flatMap fun i =>
      (List.range (r.width (r.first + i))).map (r.start i + ·) := by
    unfold Rows.cells Rows.rank
    rw [List.map_flatMap]
    refine congrArg (List.flatMap · _) (funext fun i => ?_)
    rw [List.map_map]
    simp only [Function.comp_def, Nat.add_sub_cancel_left]
  rw [hrow]
  generalize r.count = n
  induction n with
  | zero => rfl
  | succ n ih =>
    rw [List.range_succ, List.flatMap_append, ih, List.flatMap_singleton, Rows.start_succ, List.range_add]

theorem Rows.cells_length (r : Rows) : r.cells.length = r.start r.count := by
  rw [← List.length_map, r.cells_rank, List.length_range]

theorem Rows.rank_lt (h : r.Has t s) : r.rank t s < r.start r.count := by
  have hmem := List.mem_map_of_mem (f := fun c => r.rank c.1 c.2) (Rows.mem_cells.mpr h)
  rwa [r.cells_rank, List.mem_range] at hmem

theorem Rows.rank_inj (h : r.Has t s) (h' : r.Has t' s') (he : r.rank t s = r.rank t' s') :
    t = t' ∧ s = s' := by
  have hnodup : (r.cells.map fun c => r.rank c.1 c.2).Nodup := by
    rw [r.cells_rank]
    exact List.nodup_range
  have := List.inj_on_of_nodup_map hnodup (Rows.mem_cells.mpr h) (Rows.mem_cells.mpr h') he
  exact Prod.mk.inj this

end

end Vice.L0.RowLayout
