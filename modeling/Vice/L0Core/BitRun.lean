import Mathlib.Data.List.GetD
import Mathlib.Data.List.Rotate
import Mathlib.Data.Nat.Bitwise

/-!
# Bit strings, runs of ones and marks

Bytes are read most significant bit first (`byteBits`, `toBits`). A reader
that looks for a mark counts the ones it has just seen; `runAfter r l` is
that count after `l` when it was `r` before. A *mark* of order `k` is a zero
bit that follows at least `k` ones (`Mark`). Both split over `++`, so the
marks of a long string are found piece by piece.

A track is a ring: `ring l i` is bit `i` of the endless repetition of `l`, and
`RingMark` is the reading of `Mark` on it, independent of where a reader
starts.
-/
namespace Vice.L0.BitRun

/-! ## Bytes as bits -/

/-- The bits of a byte, most significant first. -/
def byteBits (b : UInt8) : List Bool :=
  (List.range 8).map fun i => b.toNat.testBit (7 - i)

def toBits (bs : List UInt8) : List Bool := bs.flatMap byteBits

@[simp] theorem byteBits_length (b : UInt8) : (byteBits b).length = 8 := by simp [byteBits]

theorem byteBits_getElem? (b : UInt8) {i : Nat} (h : i < 8) :
    (byteBits b)[i]? = some (b.toNat.testBit (7 - i)) := by
  simp [byteBits, h]

theorem byteBits_inj {a b : UInt8} (h : byteBits a = byteBits b) : a = b := by
  apply UInt8.toNat_inj.mp
  apply Nat.eq_of_testBit_eq
  intro i
  by_cases hi : i < 8
  · have ha := byteBits_getElem? a (show 7 - i < 8 by omega)
    have hb := byteBits_getElem? b (show 7 - i < 8 by omega)
    rw [h, hb, show 7 - (7 - i) = i by omega] at ha
    exact (Option.some.inj ha).symm
  · have hp : 2 ^ 8 ≤ 2 ^ i := Nat.pow_le_pow_right (by decide) (by omega)
    have ha := a.toNat_lt
    have hb := b.toNat_lt
    rw [Nat.testBit_lt_two_pow (by omega), Nat.testBit_lt_two_pow (by omega)]

@[simp] theorem toBits_nil : toBits [] = [] := rfl

theorem toBits_cons (b : UInt8) (bs : List UInt8) : toBits (b :: bs) = byteBits b ++ toBits bs := rfl

theorem toBits_append (as bs : List UInt8) : toBits (as ++ bs) = toBits as ++ toBits bs := by
  simp [toBits]

@[simp] theorem toBits_length (bs : List UInt8) : (toBits bs).length = 8 * bs.length := by
  induction bs with
  | nil => rfl
  | cons b bs ih => simp [toBits_cons, ih]; omega

theorem toBits_inj : ∀ {as bs : List UInt8}, toBits as = toBits bs → as = bs
  | [], [], _ => rfl
  | [], b :: bs, h => by have := congrArg List.length h; simp at this
  | a :: as, [], h => by have := congrArg List.length h; simp at this
  | a :: as, b :: bs, h => by
    rw [toBits_cons, toBits_cons] at h
    obtain ⟨h1, h2⟩ := List.append_inj h (by simp)
    rw [byteBits_inj h1, toBits_inj h2]

/-- Bit `8 * q + r` of a byte string is bit `7 - r` of byte `q`. -/
theorem toBits_getElem? (bs : List UInt8) (q r : Nat) (hr : r < 8) :
    (toBits bs)[8 * q + r]? = bs[q]?.map fun b => b.toNat.testBit (7 - r) := by
  induction bs generalizing q with
  | nil => simp
  | cons b bs ih =>
    rw [toBits_cons]
    cases q with
    | zero =>
      rw [List.getElem?_append_left (by simp; omega), Nat.mul_zero, Nat.zero_add,
        byteBits_getElem? b hr]
      simp
    | succ q =>
      rw [List.getElem?_append_right (by simp; omega), byteBits_length,
        show 8 * (q + 1) + r - 8 = 8 * q + r by omega, ih]
      simp

/-! ## Runs of ones and marks -/

/-- Length of the run of ones that ends `l`, when `r` ones came before `l`. -/
def runAfter : Nat → List Bool → Nat
  | r, [] => r
  | r, true :: l => runAfter (r + 1) l
  | _, false :: l => runAfter 0 l

@[simp] theorem runAfter_nil (r : Nat) : runAfter r [] = r := rfl

theorem runAfter_append (r : Nat) (l m : List Bool) : runAfter r (l ++ m) = runAfter (runAfter r l) m := by
  induction l generalizing r with
  | nil => rfl
  | cons b l ih => cases b <;> simp [runAfter, ih]

theorem runAfter_replicate_true (r n : Nat) : runAfter r (List.replicate n true) = r + n := by
  induction n generalizing r with
  | zero => rfl
  | succ n ih => rw [List.replicate_succ, runAfter, ih]; omega

theorem runAfter_mono {r s : Nat} (h : r ≤ s) (l : List Bool) : runAfter r l ≤ runAfter s l := by
  induction l generalizing r s with
  | nil => exact h
  | cons b l ih =>
    cases b
    · exact Nat.le_refl _
    · exact ih (Nat.succ_le_succ h)

theorem runAfter_snoc (r : Nat) (l : List Bool) (b : Bool) :
    runAfter r (l ++ [b]) = if b then runAfter r l + 1 else 0 := by
  rw [runAfter_append]; cases b <;> rfl

/-- A run of `k` ones counted from nothing is `k` ones at the end of the string. -/
theorem le_runAfter_zero_iff (k : Nat) (l : List Bool) :
    k ≤ runAfter 0 l ↔ k ≤ l.length ∧ ∀ j < k, l[l.length - 1 - j]? = some true := by
  induction l using List.reverseRecOn generalizing k with
  | nil =>
    simp only [runAfter_nil, Nat.le_zero_eq, List.length_nil]
    constructor
    · rintro rfl; simp
    · exact fun h => h.1
  | append_singleton l b ih =>
    rw [runAfter_snoc]
    cases b with
    | false =>
      simp only [Bool.false_eq_true, if_false, Nat.le_zero_eq]
      constructor
      · rintro rfl; simp
      · rintro ⟨-, h⟩
        by_contra hk
        have := h 0 (by omega)
        simp at this
    | true =>
      simp only [if_true]
      cases k with
      | zero => simp
      | succ k =>
        rw [Nat.succ_le_succ_iff, ih]
        simp only [List.length_append, List.length_singleton]
        constructor
        · rintro ⟨h1, h2⟩
          refine ⟨by omega, ?_⟩
          intro j hj
          cases j with
          | zero => simp
          | succ j =>
            rw [List.getElem?_append_left (by omega)]
            have := h2 j (by omega)
            rwa [show l.length - 1 - j = l.length + 1 - 1 - (j + 1) by omega] at this
        · rintro ⟨h1, h2⟩
          refine ⟨by omega, ?_⟩
          intro j hj
          have := h2 (j + 1) (by omega)
          rw [List.getElem?_append_left (by omega)] at this
          rwa [show l.length + 1 - 1 - (j + 1) = l.length - 1 - j by omega] at this

/-- Bit `i` of `l` is a zero that follows at least `k` ones, `r` ones having come before `l`. -/
def Mark (k r : Nat) (l : List Bool) (i : Nat) : Prop :=
  l[i]? = some false ∧ k ≤ runAfter r (l.take i)

theorem Mark.lt {k r : Nat} {l : List Bool} {i : Nat} (h : Mark k r l i) : i < l.length :=
  (List.getElem?_eq_some_iff.mp h.1).1

theorem mark_append {k r : Nat} {l m : List Bool} {i : Nat} : Mark k r (l ++ m) i ↔
      Mark k r l i ∨ (l.length ≤ i ∧ Mark k (runAfter r l) m (i - l.length)) := by
  unfold Mark
  by_cases hi : i < l.length
  · rw [List.getElem?_append_left hi, List.take_append_of_le_length (Nat.le_of_lt hi)]
    constructor
    · exact Or.inl
    · rintro (h | ⟨h, -⟩)
      · exact h
      · omega
  · have hi' : l.length ≤ i := by omega
    rw [List.getElem?_append_right hi', List.take_append, List.take_of_length_le hi', runAfter_append]
    constructor
    · exact fun h => Or.inr ⟨hi', h⟩
    · rintro (⟨h, -⟩ | ⟨-, h⟩)
      · rw [List.getElem?_eq_none hi'] at h; cases h
      · exact h

/-- No mark in `l`. -/
def Quiet (k r : Nat) (l : List Bool) : Prop := ∀ i, ¬ Mark k r l i

theorem quiet_nil (k r : Nat) : Quiet k r [] := by
  intro i h; simp [Mark] at h

theorem quiet_append {k r : Nat} {l m : List Bool} :
    Quiet k r (l ++ m) ↔ Quiet k r l ∧ Quiet k (runAfter r l) m := by
  constructor
  · intro h
    refine ⟨fun i hi => h i (mark_append.mpr (Or.inl hi)), fun i hi => ?_⟩
    apply h (l.length + i)
    rw [mark_append]
    exact Or.inr ⟨by omega, by rwa [show l.length + i - l.length = i by omega]⟩
  · rintro ⟨h1, h2⟩ i hi
    rcases mark_append.mp hi with h | ⟨-, h⟩
    · exact h1 i h
    · exact h2 _ h

theorem quiet_replicate_true (k r n : Nat) : Quiet k r (List.replicate n true) := by
  intro i h
  have h1 := h.1
  rw [List.getElem?_replicate] at h1
  split at h1 <;> simp at h1

theorem quiet_mono {k r s : Nat} {l : List Bool} (h : r ≤ s) (hq : Quiet k s l) : Quiet k r l :=
  fun i hi => hq i ⟨hi.1, Nat.le_trans hi.2 (runAfter_mono h _)⟩

/-! ## Rings -/

/-- Bit `i` of the endless repetition of `l`. -/
def ring (l : List Bool) (i : Nat) : Bool := l.getD (i % l.length) false

/-- The `n` bits of the ring from position `p`. -/
def window (l : List Bool) (p n : Nat) : List Bool := (List.range n).map fun i => ring l (p + i)

@[simp] theorem window_length (l : List Bool) (p n : Nat) : (window l p n).length = n := by
  simp [window]

theorem window_getElem? (l : List Bool) (p : Nat) {n i : Nat} (h : i < n) :
    (window l p n)[i]? = some (ring l (p + i)) := by
  simp [window, h]

theorem window_take (l : List Bool) (p : Nat) {n i : Nat} (h : i ≤ n) :
    (window l p n).take i = window l p i := by
  simp [window, ← List.map_take, List.take_range, Nat.min_eq_left h]

theorem window_succ (l : List Bool) (p n : Nat) : window l p (n + 1) = window l p n ++ [ring l (p + n)] := by
  simp [window, List.range_succ]

theorem window_add (l : List Bool) (p m n : Nat) : window l p (m + n) = window l p m ++ window l (p + m) n := by
  induction n with
  | zero => simp [window]
  | succ n ih => rw [← Nat.add_assoc, window_succ, ih, window_succ, List.append_assoc, Nat.add_assoc]

theorem ring_mod (l : List Bool) (i : Nat) : ring l (i % l.length) = ring l i := by
  simp [ring]

theorem ring_add_length (l : List Bool) (i : Nat) : ring l (i + l.length) = ring l i := by
  simp [ring]

theorem ring_of_lt {l : List Bool} {i : Nat} (h : i < l.length) : l[i]? = some (ring l i) := by
  rw [ring, Nat.mod_eq_of_lt h, List.getD_eq_getElem?_getD, List.getElem?_eq_getElem h]; rfl

/-- A ring read from position `k` of `l` is the ring of `l` rotated by `k`. -/
theorem ring_rotate (l : List Bool) (k i : Nat) : ring (l.rotate k) i = ring l (k + i) := by
  by_cases hl : l.length = 0
  · rw [List.length_eq_zero_iff] at hl; subst hl; simp [ring]
  · have hpos : 0 < l.length := by omega
    have h1 : i % l.length < (l.rotate k).length := by
      rw [List.length_rotate]; exact Nat.mod_lt _ hpos
    have h2 := ring_of_lt h1
    rw [List.getElem?_eq_getElem h1, List.getElem_rotate] at h2
    have h3 := ring_of_lt (l := l) (i := (i % l.length + k) % l.length) (Nat.mod_lt _ hpos)
    rw [List.getElem?_eq_getElem (Nat.mod_lt _ hpos)] at h3
    have h4 := (Option.some.inj h2).symm.trans (Option.some.inj h3)
    have h5 : ring (l.rotate k) (i % l.length) = ring (l.rotate k) i := by
      have := ring_mod (l.rotate k) i
      rwa [List.length_rotate] at this
    rw [h5, ring_mod] at h4
    rw [h4, ← ring_mod l (k + i), ← ring_mod l (i % l.length + k)]
    congr 1
    rw [Nat.mod_add_mod, Nat.add_comm]

theorem window_rotate (l : List Bool) (k p n : Nat) : window (l.rotate k) p n = window l (k + p) n := by
  simp [window, ring_rotate, Nat.add_assoc]

/-- Reading a stretch of the ring that does not wrap. -/
theorem window_eq_drop_take {l : List Bool} {p n : Nat} (h : p + n ≤ l.length) :
    window l p n = (l.drop p).take n := by
  apply List.ext_getElem?
  intro i
  by_cases hi : i < n
  · rw [window_getElem? l p hi, List.getElem?_take_of_lt hi, List.getElem?_drop,
      ring_of_lt (by omega)]
  · rw [List.getElem?_eq_none (by simp; omega), List.getElem?_eq_none (by simp; omega)]

/-- A zero of the ring that follows `k` ones. -/
def RingMark (k : Nat) (l : List Bool) (p : Nat) : Prop :=
  p < l.length ∧ ring l p = false ∧ ∀ j < k, ring l (p + l.length - 1 - j) = true

/-- A mark seen in a window is a mark of the ring. -/
theorem Mark.ring {k : Nat} {l : List Bool} {p n i : Nat} (hl : 0 < l.length)
    (hk : k ≤ l.length) (h : Mark k 0 (window l p n) i) : RingMark k l ((p + i) % l.length) := by
  obtain ⟨h1, h2⟩ := h
  have hi : i < n := by
    by_contra hi
    rw [List.getElem?_eq_none (by simp; omega)] at h1; cases h1
  rw [window_getElem? l p hi] at h1
  rw [window_take l p (by omega), le_runAfter_zero_iff] at h2
  simp only [window_length] at h2
  refine ⟨Nat.mod_lt _ hl, by rw [ring_mod]; exact Option.some.inj h1, ?_⟩
  intro j hj
  have h3 := h2.2 j hj
  rw [window_getElem? l p (by omega)] at h3
  have h4 := Option.some.inj h3
  rw [← ring_mod] at h4 ⊢
  rw [← h4]
  congr 1
  have e1 := Nat.mod_add_div (p + i) l.length
  have e2 : p + (i - 1 - j) + l.length =
      ((p + i) % l.length + l.length - 1 - j) + l.length * ((p + i) / l.length) := by
    omega
  rw [← Nat.add_mod_right (p + (i - 1 - j)), e2, Nat.add_mul_mod_self_left]

/-- A mark of the ring is seen by a reader that has passed the `k` ones. -/
theorem RingMark.mark {k : Nat} {l : List Bool} {p n i : Nat} (hk : k ≤ i) (hi : i < n)
    (hkl : k ≤ l.length) (h : RingMark k l ((p + i) % l.length)) : Mark k 0 (window l p n) i := by
  obtain ⟨h0, h1, h2⟩ := h
  refine ⟨by rw [window_getElem? l p hi, ← ring_mod, h1], ?_⟩
  rw [window_take l p (by omega), le_runAfter_zero_iff]
  refine ⟨by simpa using hk, ?_⟩
  intro j hj
  simp only [window_length]
  rw [window_getElem? l p (by omega), ← h2 j hj]
  congr 1
  rw [← ring_mod l (p + (i - 1 - j)), ← ring_mod l (_ - j)]
  congr 1
  have e1 := Nat.mod_add_div (p + i) l.length
  have e2 : p + (i - 1 - j) + l.length =
      ((p + i) % l.length + l.length - 1 - j) + l.length * ((p + i) / l.length) := by
    omega
  rw [← Nat.add_mod_right (p + (i - 1 - j)), e2, Nat.add_mul_mod_self_left]

/-! ## Walking a window -/

theorem window_cons (l : List Bool) (p n : Nat) : window l p (n + 1) = ring l p :: window l (p + 1) n := by
  rw [Nat.add_comm n 1, window_add]; rfl

theorem window_mod (l : List Bool) (p n : Nat) : window l (p % l.length) n = window l p n := by
  unfold window
  apply List.map_congr_left
  intro i _
  rw [← ring_mod l (p % l.length + i), Nat.mod_add_mod, ring_mod]

theorem mark_cons_zero {k r : Nat} {b : Bool} {l : List Bool} : Mark k r (b :: l) 0 ↔ b = false ∧ k ≤ r := by
  simp [Mark]

theorem mark_cons_succ {k r i : Nat} {b : Bool} {l : List Bool} :
    Mark k r (b :: l) (i + 1) ↔ Mark k (if b then r + 1 else 0) l i := by
  cases b <;> simp [Mark, runAfter]

theorem quiet_cons {k r : Nat} {b : Bool} {l : List Bool} :
    Quiet k r (b :: l) ↔ (b = true ∨ r < k) ∧ Quiet k (if b then r + 1 else 0) l := by
  unfold Quiet
  constructor
  · intro h
    refine ⟨?_, fun i hi => h (i + 1) (mark_cons_succ.mpr hi)⟩
    have h0 := h 0
    rw [mark_cons_zero] at h0
    cases b
    · right; exact Nat.lt_of_not_le fun hk => h0 ⟨rfl, hk⟩
    · left; rfl
  · intro h i hi
    cases i with
    | zero =>
      obtain ⟨hb, hk⟩ := mark_cons_zero.mp hi
      rcases h.1 with h1 | h1
      · rw [hb] at h1; cases h1
      · omega
    | succ i => exact h.2 i (mark_cons_succ.mp hi)

/-- The marks of a window are those of a longer one that lie in it. -/
theorem mark_window_le {k r : Nat} {l : List Bool} {p m n i : Nat} (hmn : m ≤ n) (hi : i < m) :
    Mark k r (window l p m) i ↔ Mark k r (window l p n) i := by
  unfold Mark
  rw [window_getElem? l p hi, window_getElem? l p (by omega), window_take l p (by omega),
    window_take l p (by omega)]

theorem exists_first_mark {k r : Nat} {l : List Bool} {p n i : Nat} (h : Mark k r (window l p n) i) :
    ∃ j ≤ i, Mark k r (window l p n) j ∧ Quiet k r (window l p j) := by
  induction i using Nat.strong_induction_on with
  | _ i ih =>
    by_cases hq : Quiet k r (window l p i)
    · exact ⟨i, Nat.le_refl i, h, hq⟩
    · unfold Quiet at hq
      simp only [not_forall, not_not] at hq
      obtain ⟨j, hj⟩ := hq
      have hji := hj.lt
      rw [window_length] at hji
      have hin := h.lt
      rw [window_length] at hin
      obtain ⟨j', h1, h2⟩ := ih j hji ((mark_window_le (by omega) hji).mp hj)
      exact ⟨j', by omega, h2⟩

/-- Bit `r` of byte `q` of the ring, most significant first. -/
theorem ring_toBits {bs : List UInt8} (hbs : 0 < bs.length) (q : Nat) {r : Nat} (hr : r < 8) :
    ring (toBits bs) (8 * q + r) = (bs.getD (q % bs.length) 0).toNat.testBit (7 - r) := by
  have hq := Nat.mod_lt q hbs
  have hmod : (8 * q + r) % (toBits bs).length = 8 * (q % bs.length) + r := by
    rw [toBits_length]
    have e := Nat.mod_add_div q bs.length
    have e2 : 8 * q + r = 8 * (q % bs.length) + r + 8 * bs.length * (q / bs.length) := by
      rw [Nat.mul_assoc]; omega
    rw [e2, Nat.add_mul_mod_self_left, Nat.mod_eq_of_lt (by omega)]
  rw [← ring_mod, hmod]
  have h1 := ring_of_lt (l := toBits bs) (i := 8 * (q % bs.length) + r) (by simp; omega)
  rw [toBits_getElem? _ _ _ hr, List.getElem?_eq_getElem hq] at h1
  rw [List.getD_eq_getElem?_getD, List.getElem?_eq_getElem hq]
  exact (Option.some.inj h1).symm

/-! ## Sync marks -/

/-- A long enough run of ones, a zero, and a quiet stretch: one mark, then what follows. -/
theorem mark_sync {k r n : Nat} {c m : List Bool} (hn : k ≤ r + n) (hc : Quiet k 0 c) {i : Nat} :
    Mark k r (List.replicate n true ++ (false :: c ++ m)) i ↔
      i = n ∨ (n + (c.length + 1) ≤ i ∧ Mark k (runAfter 0 c) m (i - (n + (c.length + 1)))) := by
  have hones : ¬ Mark k r (List.replicate n true) i := quiet_replicate_true k r n i
  rw [mark_append, mark_append, List.length_replicate, runAfter_replicate_true]
  constructor
  · rintro (h | ⟨hi, h | ⟨hlen, h⟩⟩)
    · exact absurd h hones
    · left
      cases hj : i - n with
      | zero => omega
      | succ j =>
        rw [hj, mark_cons_succ] at h
        exact absurd h (hc j)
    · right
      rw [List.length_cons] at hlen h
      exact ⟨by omega, by rwa [Nat.sub_sub] at h⟩
  · rintro (h | ⟨hi, h⟩)
    · refine Or.inr ⟨by omega, Or.inl ?_⟩
      rw [h, Nat.sub_self, mark_cons_zero]
      exact ⟨rfl, hn⟩
    · refine Or.inr ⟨by omega, Or.inr ?_⟩
      rw [List.length_cons]
      exact ⟨by omega, by rwa [Nat.sub_sub]⟩

theorem window_part {l a b c : List Bool} {p n : Nat} (h : window l p n = a ++ (b ++ c)) :
    window l (p + a.length) b.length = b := by
  have hn : n = a.length + (b.length + c.length) := by
    have := congrArg List.length h
    simpa using this
  rw [hn, window_add] at h
  obtain ⟨-, h2⟩ := List.append_inj h (by simp)
  rw [window_add] at h2
  exact (List.append_inj h2 (by simp)).1

/-- The marks of a ring are those of one turn, started with the ones that end it. -/
theorem ringMark_iff {k : Nat} {l : List Bool} {p : Nat} (hk : k ≤ l.length) (hl : 0 < l.length) :
    RingMark k l p ↔ Mark k (runAfter 0 l) l p := by
  have hwin : window l 0 (l.length + l.length) = l ++ l := by
    have h1 : window l 0 l.length = l := by
      rw [window_eq_drop_take (by omega)]; simp
    have h2 : window l (0 + l.length) l.length = l := by
      rw [← window_mod, Nat.zero_add, Nat.mod_self, h1]
    rw [window_add, h1, h2]
  constructor
  · intro h
    have hp := h.1
    have hm : Mark k 0 (window l 0 (l.length + l.length)) (l.length + p) :=
      RingMark.mark (by omega) (by omega) hk
        (by rwa [Nat.zero_add, Nat.add_mod_left, Nat.mod_eq_of_lt hp])
    rw [hwin] at hm
    rcases mark_append.mp hm with h' | ⟨-, h'⟩
    · have := h'.lt; omega
    · rwa [Nat.add_sub_cancel_left] at h'
  · intro h
    have hp := h.lt
    have hm : Mark k 0 (window l 0 (l.length + l.length)) (l.length + p) := by
      rw [hwin, mark_append, Nat.add_sub_cancel_left]
      exact Or.inr ⟨by omega, h⟩
    have := hm.ring hl hk
    rwa [Nat.zero_add, Nat.add_mod_left, Nat.mod_eq_of_lt hp] at this

/-! ## Rotation -/

theorem toBits_drop (bs : List UInt8) (n : Nat) : (toBits bs).drop (8 * n) = toBits (bs.drop n) := by
  induction n generalizing bs with
  | zero => rfl
  | succ n ih =>
    cases bs with
    | nil => simp
    | cons b bs =>
      rw [List.drop_succ_cons, ← ih, toBits_cons, show 8 * (n + 1) = (byteBits b).length + 8 * n by
        rw [byteBits_length]; omega, List.drop_length_add_append]

theorem toBits_take (bs : List UInt8) (n : Nat) : (toBits bs).take (8 * n) = toBits (bs.take n) := by
  induction n generalizing bs with
  | zero => rfl
  | succ n ih =>
    cases bs with
    | nil => simp
    | cons b bs =>
      rw [List.take_succ_cons, toBits_cons, toBits_cons, ← ih,
        show 8 * (n + 1) = (byteBits b).length + 8 * n by rw [byteBits_length]; omega,
        List.take_length_add_append]

theorem toBits_rotate {bs : List UInt8} {n : Nat} (h : n ≤ bs.length) :
    toBits (bs.rotate n) = (toBits bs).rotate (8 * n) := by
  rw [List.rotate_eq_drop_append_take h,
    List.rotate_eq_drop_append_take (by rw [toBits_length]; omega), toBits_append, toBits_drop,
    toBits_take]

/-- A mark of a rotated ring is a mark of the ring, further on. -/
theorem ringMark_rotate {k n : Nat} {l : List Bool} {p : Nat} (hk : k ≤ l.length)
    (h : RingMark k (l.rotate n) p) :
    RingMark k l ((n + p) % l.length) := by
  obtain ⟨h0, h1, h2⟩ := h
  rw [List.length_rotate] at h0
  refine ⟨Nat.mod_lt _ (by omega), by rw [ring_mod, ← ring_rotate, h1], ?_⟩
  intro j hj
  have h3 := h2 j hj
  rw [List.length_rotate, ring_rotate] at h3
  rw [← h3, ← ring_mod, ← ring_mod l (n + _)]
  congr 1
  have e := Nat.mod_add_div (n + p) l.length
  rw [show n + (p + l.length - 1 - j) = ((n + p) % l.length + l.length - 1 - j) +
    l.length * ((n + p) / l.length) by omega, Nat.add_mul_mod_self_left]

end Vice.L0.BitRun
