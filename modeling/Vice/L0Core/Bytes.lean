import Mathlib.Data.List.Basic

/-!
# Byte memory

Memory as a function from addresses to bytes, with blocks stored to it and loaded from it.

Results:
* `store_append`: two adjacent blocks are one.
* `load_store`: a stored block is loaded back.
-/
namespace Vice.L0.Bytes

abbrev Memory := Nat → UInt8

def store (m : Memory) (off : Nat) (bytes : List UInt8) : Memory := fun i =>
  if off ≤ i then (bytes[i - off]?).getD (m i) else m i

def load (m : Memory) (off n : Nat) : List UInt8 := (List.range n).map fun i => m (off + i)

section
variable {m m' : Memory} {off i n k : Nat} {a b bytes : List UInt8}

theorem store_nil (m : Memory) (off : Nat) : store m off [] = m := by
  funext i
  simp [store]

theorem store_inside (hi : i < bytes.length) : store m off bytes (off + i) = bytes[i] := by
  simp [store, hi]

theorem store_below (hi : i < off) : store m off bytes i = m i := by
  rw [store, if_neg (by omega)]

theorem store_above (hi : off + bytes.length ≤ i) : store m off bytes i = m i := by
  rw [store, if_pos (by omega), List.getElem?_eq_none (by omega), Option.getD_none]

theorem store_append (m : Memory) (off : Nat) (a b : List UInt8) :
    store (store m off a) (off + a.length) b = store m off (a ++ b) := by
  funext i
  rcases Nat.lt_or_ge i off with h | h
  · rw [store_below (by omega), store_below h, store_below h]
  obtain ⟨k, rfl⟩ := Nat.exists_eq_add_of_le h
  rcases Nat.lt_or_ge k a.length with hk | hk
  · rw [store_below (by omega), store_inside hk, store_inside (by rw [List.length_append]; omega),
      List.getElem_append_left hk]
  obtain ⟨j, rfl⟩ := Nat.exists_eq_add_of_le hk
  rcases Nat.lt_or_ge j b.length with hj | hj
  · rw [← Nat.add_assoc, store_inside hj, Nat.add_assoc,
      store_inside (by rw [List.length_append]; omega), List.getElem_append_right (by omega)]
    simp only [Nat.add_sub_cancel_left]
  · rw [store_above (by omega), store_above (by omega),
      store_above (by rw [List.length_append]; omega)]

theorem load_length (m : Memory) (off n : Nat) : (load m off n).length = n := by simp [load]

/-- Part of a stored block. -/
theorem load_store (hk : k + n ≤ bytes.length) :
    load (store m off bytes) (off + k) n = (bytes.drop k).take n := by
  refine List.ext_getElem (by rw [load_length, List.length_take, List.length_drop]; omega)
    fun i hi _ => ?_
  rw [load_length] at hi
  simp only [load, List.getElem_map, List.getElem_range]
  rw [Nat.add_assoc, store_inside (by omega), List.getElem_take, List.getElem_drop]

end

end Vice.L0.Bytes
