import Mathlib.Logic.Function.Basic

/-!
# A write-back cache

A cache holds blocks that it has loaded from places of a store. A block that is changed has to be
written to the place it came from before the cache is discarded. What happens to a cache is a log
of events, the newest one first; `ledger` is what the log says about each block, and a log is
`Saved` when no discard in it has lost a change.

`Tracks` connects a log to the states that a program keeps: -1 for a block that is not in the
cache, 0 for one that is, 1 for one that has been changed.

Results:
* `Tracks.loaded`, `Tracks.dirtied`, `Tracks.wrote`, `Tracks.discarded`: one event each.
-/
namespace Vice.L0.WriteBack

inductive Event (π : Type)
  | loaded (i : Nat) (place : π)
  | dirtied (i : Nat)
  | wrote (i : Nat) (place : π)
  | discarded
  | failed
  deriving DecidableEq

/-- What is known of a block. -/
structure Held (π : Type) where
  origin : Option π
  unsaved : Bool

section
variable {π : Type} [DecidableEq π]

def ledger : List (Event π) → Nat → Held π
  | [] => fun _ => ⟨none, false⟩
  | .loaded i place :: log => Function.update (ledger log) i ⟨some place, false⟩
  | .dirtied i :: log => Function.update (ledger log) i { ledger log i with unsaved := true }
  | .wrote i place :: log =>
    if (ledger log i).origin = some place then
      Function.update (ledger log) i { ledger log i with unsaved := false }
    else ledger log
  | .discarded :: _ => fun _ => ⟨none, false⟩
  | .failed :: log => ledger log

/-- Whenever the cache was discarded, each changed block had been written to where it was loaded
from. -/
def Saved : List (Event π) → Prop
  | [] => True
  | .discarded :: log => (∀ i, (ledger log i).unsaved = false) ∧ Saved log
  | .loaded _ _ :: log | .dirtied _ :: log | .wrote _ _ :: log | .failed :: log => Saved log

/-- The log explains the states, and `home` is where the blocks in the cache came from. -/
structure Tracks (log : List (Event π)) (state : Nat → Int) (home : Nat → π) : Prop where
  saved : Saved log
  unsaved : ∀ i, (ledger log i).unsaved = true ↔ 0 < state i
  origin : ∀ i, 0 ≤ state i → (ledger log i).origin = some (home i)

variable {log : List (Event π)} {state state' : Nat → Int} {home home' : Nat → π} {i : Nat} {p : π}

/-- Only the signs of the states count, and the homes of the blocks in the cache. -/
theorem Tracks.congr (h : Tracks log state home) (hpos : ∀ i, 0 < state' i ↔ 0 < state i)
    (hin : ∀ i, 0 ≤ state' i → 0 ≤ state i) (hhome : ∀ i, 0 ≤ state' i → home' i = home i) :
    Tracks log state' home' where
  saved := h.saved
  unsaved := by
    intro i
    rw [h.unsaved i, hpos i]
  origin := by
    intro i hi
    rw [h.origin i (hin i hi), hhome i hi]

/-- A block comes into the cache, from any place. -/
theorem Tracks.loaded (h : Tracks log state home) (hhome : home' i = p)
    (hother : ∀ j, j ≠ i → home' j = home j) :
    Tracks (.loaded i p :: log) (Function.update state i 0) home' where
  saved := h.saved
  unsaved := by
    intro j
    by_cases hj : j = i
    · subst hj
      simp [ledger]
    · simp only [ledger, Function.update_of_ne hj]
      exact h.unsaved j
  origin := by
    intro j hstate
    by_cases hj : j = i
    · subst hj
      simp [ledger, hhome]
    · simp only [ledger, Function.update_of_ne hj] at hstate ⊢
      rw [h.origin j hstate, hother j hj]

theorem Tracks.dirtied (h : Tracks log state home) (hi : 0 ≤ state i) :
    Tracks (.dirtied i :: log) (Function.update state i 1) home where
  saved := h.saved
  unsaved := by
    intro j
    by_cases hj : j = i
    · subst hj
      simp [ledger]
    · simp only [ledger, Function.update_of_ne hj]
      exact h.unsaved j
  origin := by
    intro j hstate
    by_cases hj : j = i
    · subst hj
      simp only [ledger, Function.update_self]
      exact h.origin j hi
    · simp only [ledger, Function.update_of_ne hj] at hstate ⊢
      exact h.origin j hstate

/-- A block is written to where it came from. -/
theorem Tracks.wrote (h : Tracks log state home) (hi : 0 ≤ state i) :
    Tracks (.wrote i (home i) :: log) (Function.update state i 0) home where
  saved := h.saved
  unsaved := by
    intro j
    rw [ledger, if_pos (h.origin i hi)]
    by_cases hj : j = i
    · subst hj
      simp
    · simp only [Function.update_of_ne hj]
      exact h.unsaved j
  origin := by
    intro j hstate
    rw [ledger, if_pos (h.origin i hi)]
    by_cases hj : j = i
    · subst hj
      simp only [Function.update_self]
      exact h.origin j hi
    · simp only [Function.update_of_ne hj] at hstate ⊢
      exact h.origin j hstate

/-- Nothing is lost when the cache holds no changed block. -/
theorem Tracks.discarded (h : Tracks log state home) (hclean : ∀ i, state i ≤ 0)
    (hempty : ∀ i, state' i < 0) : Tracks (.discarded :: log) state' home' where
  saved := by
    refine ⟨fun i => ?_, h.saved⟩
    have hstate := mt (h.unsaved i).mp (Int.not_lt.mpr (hclean i))
    simpa using hstate
  unsaved := by
    intro i
    have hstate := hempty i
    simp [ledger]
    omega
  origin := by
    intro i hi
    have hstate := hempty i
    omega

/-- A changed block in a discarded cache is lost for good. -/
theorem not_saved_of_mem {later : List (Event π)} (hi : (ledger log i).unsaved = true) :
    ¬ Saved (later ++ .discarded :: log) := by
  induction later with
  | nil =>
    intro hsaved
    have hclean := hsaved.1 i
    rw [hi] at hclean
    cases hclean
  | cons e later ih =>
    intro hsaved
    apply ih
    cases e with
    | discarded => exact hsaved.2
    | loaded => exact hsaved
    | dirtied => exact hsaved
    | wrote => exact hsaved
    | failed => exact hsaved

end

end Vice.L0.WriteBack
