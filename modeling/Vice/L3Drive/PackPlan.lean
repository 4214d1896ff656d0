import Vice.L3Drive.Vdrive

/-!
# Which partition goes where (`vdrive_pack_parts`)

Packing looks, from the end of what is placed already, for the partition that starts
next. It is put there if it is not there yet, unless a foreign partition stands in its
way: then the search goes on behind that one. `lowpos` and `length` of the source occur
only as their sum, here `dest`. Offsets and sizes of partitions inside an image are far
below 2^31, so the sums do not wrap.

`Plan` says which tables a finished run can leave. It has no constructor for a run that
does not end, and some do not: a foreign partition that blocked once ends where the
next search starts, and blocks it again.

Results:
* `Plan.not_blocked`, `Plan.sized`: in a run that ends nothing is ever blocked, and no
  partition placed is empty.
* `Plan.of_gapless`: a table without gaps is left as it is.
-/
namespace Vice.L3.PackPlan
open Vice.L3.Drive

def int32Max : Nat := 2147483647

/-- What the search for the next partition found: `best` at `bestpos`, or `block` in the way. -/
structure Scan where
  best : Nat
  bestpos : Nat
  block : Nat

section
variable (t : PartTable) (maxpart dest : Nat)

/-- mirrors src/vdrive/vdrive.c:1458-1460: foreign partition `j` is in the way of moving `i`. -/
def blocks (i j : Nat) : Bool :=
  t.ptype j = 7 ∧
    ((dest ≤ t.poffset j ∧ t.poffset j < dest + t.psize i) ∨
      (dest ≤ t.poffset j + t.psize j ∧ t.poffset j + t.psize j < dest + t.psize i))

/-- mirrors src/vdrive/vdrive.c:1457-1465: 0 if no foreign partition blocks. -/
def blocker (i : Nat) : Nat := ((List.range' 1 maxpart).find? (blocks t dest i)).getD 0

/-- mirrors src/vdrive/vdrive.c:1450-1474 -/
def scanFrom : List Nat → Scan → Scan
  | [], found => found
  | i :: is, found =>
    if t.ptype i > 0 ∧ t.ptype i < 7 ∧ t.poffset i ≥ dest ∧ t.poffset i < found.bestpos then
      if blocker t maxpart dest i = 0 then scanFrom is ⟨i, t.poffset i, 0⟩
      else { found with block := blocker t maxpart dest i }
    else scanFrom is found

/-- One search. -/
def scan : Scan := scanFrom t maxpart dest (List.range' 1 maxpart) ⟨0, int32Max, 0⟩

end

/-- The table with partition `i` at `dest`. -/
def place (t : PartTable) (i dest : Nat) : PartTable :=
  { t with poffset := Function.update t.poffset i dest }

/-- The table that a run starting the search at `dest` leaves. -/
inductive Plan (maxpart : Nat) : PartTable → Nat → PartTable → Prop
  | done {t dest} : (scan t maxpart dest).bestpos = int32Max → (scan t maxpart dest).block = 0 →
      Plan maxpart t dest t
  | skip {t dest t'} : (scan t maxpart dest).bestpos = int32Max → (scan t maxpart dest).block ≠ 0 →
      Plan maxpart t (t.poffset (scan t maxpart dest).block + t.psize (scan t maxpart dest).block) t' →
      Plan maxpart t dest t'
  | place {t dest t'} : (scan t maxpart dest).bestpos ≠ int32Max →
      Plan maxpart (place t (scan t maxpart dest).best dest)
        (dest + t.psize (scan t maxpart dest).best) t' →
      Plan maxpart t dest t'

/-! ## What a search finds -/

/-- A partition that packing moves: types 1 to 6. -/
def Movable (t : PartTable) (maxpart i : Nat) : Prop :=
  1 ≤ i ∧ i ≤ maxpart ∧ 0 < t.ptype i ∧ t.ptype i < 7

def Foreign (t : PartTable) (maxpart j : Nat) : Prop := 1 ≤ j ∧ j ≤ maxpart ∧ t.ptype j = 7

/-- Foreign partition `j` is in the way of `i`. -/
def Blocks (t : PartTable) (maxpart dest i j : Nat) : Prop :=
  1 ≤ j ∧ j ≤ maxpart ∧ blocks t dest i j = true

section
variable {t t' : PartTable} {maxpart dest i j : Nat}

theorem Blocks.foreign (h : Blocks t maxpart dest i j) : Foreign t maxpart j := by
  obtain ⟨h1, h2, h3⟩ := h
  exact ⟨h1, h2, (of_decide_eq_true h3).1⟩

theorem Blocks.range (h : Blocks t maxpart dest i j) : (dest ≤ t.poffset j ∧ t.poffset j < dest + t.psize i) ∨
      (dest ≤ t.poffset j + t.psize j ∧ t.poffset j + t.psize j < dest + t.psize i) :=
  (of_decide_eq_true h.2.2).2

theorem blocks_iff (hj : Foreign t maxpart j) : Blocks t maxpart dest i j ↔
    (dest ≤ t.poffset j ∧ t.poffset j < dest + t.psize i) ∨
      (dest ≤ t.poffset j + t.psize j ∧ t.poffset j + t.psize j < dest + t.psize i) :=
  ⟨Blocks.range, fun h => ⟨hj.1, hj.2.1, decide_eq_true ⟨hj.2.2, h⟩⟩⟩

theorem blocker_ne (h : blocker t maxpart dest i ≠ 0) : Blocks t maxpart dest i (blocker t maxpart dest i) := by
  unfold blocker at h ⊢
  cases hf : (List.range' 1 maxpart).find? (blocks t dest i) with
  | none => rw [hf] at h; exact absurd rfl h
  | some j =>
    have hmem := List.mem_range'_1.mp (List.mem_of_find?_eq_some hf)
    exact ⟨hmem.1, by simp only [Option.getD_some]; omega, List.find?_some hf⟩

theorem blocker_zero (h : blocker t maxpart dest i = 0) : ¬ Blocks t maxpart dest i j := by
  rintro ⟨h1, h2, hb⟩
  unfold blocker at h
  cases hf : (List.range' 1 maxpart).find? (blocks t dest i) with
  | none =>
    exact List.find?_eq_none.mp hf j (List.mem_range'_1.mpr ⟨h1, by omega⟩) hb
  | some k =>
    have hmem := List.mem_range'_1.mp (List.mem_of_find?_eq_some hf)
    rw [hf, Option.getD_some] at h
    omega

/-- Everything known about the result of a search that has got as far as partition `next`. -/
structure Found (t : PartTable) (maxpart dest next : Nat) (found : Scan) : Prop where
  best : found.bestpos ≠ int32Max → Movable t maxpart found.best ∧
    dest ≤ t.poffset found.best ∧ t.poffset found.best = found.bestpos ∧
    ∀ j, ¬ Blocks t maxpart dest found.best j
  earlier : found.best < next
  block : found.block ≠ 0 → ∃ i, Movable t maxpart i ∧ dest ≤ t.poffset i ∧
    Blocks t maxpart dest i found.block
  first : found.block = 0 → ∀ i < next, Movable t maxpart i → dest ≤ t.poffset i →
    found.bestpos ≤ t.poffset i ∧ (i < found.best → found.bestpos < t.poffset i)

theorem Found.take {found : Scan} (h : Found t maxpart dest i found) (hb : found.block = 0)
    (hi : Movable t maxpart i) (hd : dest ≤ t.poffset i) (hlt : t.poffset i < found.bestpos)
    (hfree : blocker t maxpart dest i = 0) :
    Found t maxpart dest (i + 1) ⟨i, t.poffset i, 0⟩ where
  best := fun _ => ⟨hi, hd, rfl, fun _ => blocker_zero hfree⟩
  earlier := Nat.lt_succ_self i
  block := fun h0 => absurd rfl h0
  first := by
    intro _ k hk hm hkd
    rcases Nat.lt_or_eq_of_le (Nat.lt_succ_iff.mp hk) with hki | rfl
    · have := (h.first hb k hki hm hkd).1
      simp only
      omega
    · simp only
      omega

theorem Found.leave {found : Scan} (h : Found t maxpart dest i found) (hb : found.block = 0)
    (hi : ¬ (t.ptype i > 0 ∧ t.ptype i < 7 ∧ t.poffset i ≥ dest ∧ t.poffset i < found.bestpos)) :
    Found t maxpart dest (i + 1) found where
  best := h.best
  earlier := Nat.lt_succ_of_lt h.earlier
  block := h.block
  first := by
    intro _ k hk hm hkd
    rcases Nat.lt_or_eq_of_le (Nat.lt_succ_iff.mp hk) with hki | rfl
    · exact h.first hb k hki hm hkd
    · have hearlier := h.earlier
      obtain ⟨-, -, h1, h2⟩ := hm
      exact ⟨by omega, fun hlt => by omega⟩

theorem scanFrom_found (n : Nat) {next : Nat} (hnext : 1 ≤ next) (hn : next + n = maxpart + 1)
    {found : Scan} (h : Found t maxpart dest next found) (hb : found.block = 0) :
    Found t maxpart dest (maxpart + 1)
      (scanFrom t maxpart dest (List.range' next n) found) := by
  induction n generalizing next found with
  | zero => exact (show next = maxpart + 1 by omega) ▸ h
  | succ n ih =>
    rw [List.range'_succ, scanFrom]
    by_cases hi : t.ptype next > 0 ∧ t.ptype next < 7 ∧ t.poffset next ≥ dest ∧
        t.poffset next < found.bestpos
    · have hm : Movable t maxpart next := ⟨hnext, by omega, hi.1, hi.2.1⟩
      rw [if_pos hi]
      by_cases hfree : blocker t maxpart dest next = 0
      · rw [if_pos hfree]
        exact ih (by omega) (by omega) (h.take hb hm hi.2.2.1 hi.2.2.2 hfree) rfl
      · -- the search stops at the first partition that is blocked
        rw [if_neg hfree]
        exact ⟨h.best, by have := h.earlier; simp only; omega,
          fun _ => ⟨next, hm, hi.2.2.1, blocker_ne hfree⟩, fun h0 => absurd h0 hfree⟩
    · rw [if_neg hi]
      exact ih (by omega) (by omega) (h.leave hb hi) hb

theorem scan_found (t : PartTable) (maxpart dest : Nat) :
    Found t maxpart dest (maxpart + 1) (scan t maxpart dest) :=
  scanFrom_found maxpart (Nat.le_refl 1) (Nat.add_comm 1 maxpart)
    ⟨fun h => absurd rfl h, Nat.zero_lt_one, fun h => absurd rfl h,
      fun _ i hi hm _ => by have := hm.1; omega⟩ rfl

/-- An unblocked search that finds something finds the partition that starts next, the one with
the lowest number if there are several. -/
theorem scan_best_le (hb : (scan t maxpart dest).block = 0)
    (hbest : (scan t maxpart dest).bestpos ≠ int32Max) (hi : Movable t maxpart i)
    (hd : dest ≤ t.poffset i) :
    t.poffset (scan t maxpart dest).best ≤ t.poffset i ∧
      (i < (scan t maxpart dest).best → t.poffset (scan t maxpart dest).best < t.poffset i) := by
  have hf := scan_found t maxpart dest
  rw [(hf.best hbest).2.2.1]
  exact hf.first hb i (Nat.lt_succ_of_le hi.2.1) hi hd

end

/-! ## Tables inside an image -/

/-- The partition table describes used partitions that do not overlap and start below 2^31. -/
structure Disjoint (t : PartTable) (maxpart : Nat) : Prop where
  start : ∀ i, Movable t maxpart i → t.poffset i < int32Max
  movable : ∀ i j, Movable t maxpart i → Movable t maxpart j → i ≠ j →
    t.poffset i + t.psize i ≤ t.poffset j ∨ t.poffset j + t.psize j ≤ t.poffset i
  foreign : ∀ i j, Movable t maxpart i → Foreign t maxpart j →
    t.poffset i + t.psize i ≤ t.poffset j ∨ t.poffset j + t.psize j ≤ t.poffset i

/-- What of `Disjoint` is left for the partitions from `dest` on while others move below it. -/
structure Ahead (t : PartTable) (maxpart dest : Nat) : Prop where
  start : ∀ i, Movable t maxpart i → t.poffset i < int32Max
  foreign : ∀ i j, Movable t maxpart i → Foreign t maxpart j → dest ≤ t.poffset i →
    0 < t.psize i →
    t.poffset i + t.psize i ≤ t.poffset j ∨ t.poffset j + t.psize j ≤ t.poffset i

theorem Disjoint.ahead {t : PartTable} {maxpart : Nat} (h : Disjoint t maxpart) (dest : Nat) :
    Ahead t maxpart dest :=
  ⟨h.start, fun i j hi hj _ _ => h.foreign i j hi hj⟩

section
variable {t t' : PartTable} {maxpart dest i j : Nat}

theorem place_poffset (t : PartTable) (i dest : Nat) : (place t i dest).poffset i = dest :=
  Function.update_self ..

theorem place_other (h : j ≠ i) : (place t i dest).poffset j = t.poffset j :=
  Function.update_of_ne h ..

theorem place_self (h : t.poffset i = dest) : place t i dest = t := by
  unfold place
  rw [← h, Function.update_eq_self]

theorem place_cases (t : PartTable) (i dest k : Nat) : (k = i ∧ (place t i dest).poffset k = dest) ∨
      (k ≠ i ∧ (place t i dest).poffset k = t.poffset k) := by
  by_cases h : k = i
  · exact Or.inl ⟨h, h ▸ place_poffset t i dest⟩
  · exact Or.inr ⟨h, place_other h⟩

/-- A partition put at `dest` is behind the search from then on. -/
theorem Ahead.place (h : Ahead t maxpart dest) (hd : dest ≤ t.poffset i) (hi : Movable t maxpart i) :
    Ahead (place t i dest) maxpart (dest + t.psize i) where
  start := by
    intro k hk
    have hstart := h.start
    rcases place_cases t i dest k with ⟨rfl, hp⟩ | ⟨-, hp⟩
    · rw [hp]; exact Nat.lt_of_le_of_lt hd (hstart k hi)
    · rw [hp]; exact hstart k hk
  foreign := by
    intro k j hk hj hkd hsize
    have h7 : t.ptype j = 7 := hj.2.2
    have hji : j ≠ i := fun e => by have := hi.2.2.2; subst e; omega
    rw [place_other hji]
    rcases place_cases t i dest k with ⟨rfl, hp⟩ | ⟨-, hp⟩
    · rw [hp] at hkd
      have : 0 < t.psize k := hsize
      omega
    · rw [hp] at hkd ⊢
      exact h.foreign k j hk hj (by omega) hsize

theorem Ahead.mono (h : Ahead t maxpart dest) {dest' : Nat} (hd : dest ≤ dest') : Ahead t maxpart dest' :=
  ⟨h.start, fun i j hi hj hid => h.foreign i j hi hj (Nat.le_trans hd hid)⟩

end

/-! ## Runs that end -/

section
variable {t t' : PartTable} {maxpart dest i j : Nat}

/-- A foreign partition that is in the way of one behind it. -/
def Stuck (t : PartTable) (maxpart dest : Nat) : Prop :=
  ∃ i j, Movable t maxpart i ∧ Blocks t maxpart dest i j ∧ dest ≤ t.poffset i ∧
    t.poffset j + t.psize j ≤ t.poffset i

/-- What blocks lies before what it blocks. -/
theorem Ahead.behind (h : Ahead t maxpart dest) (hi : Movable t maxpart i)
    (hd : dest ≤ t.poffset i) (hb : Blocks t maxpart dest i j) :
    t.poffset j + t.psize j ≤ t.poffset i := by
  have hr := hb.range
  rcases h.foreign i j hi hb.foreign hd (by omega) with h1 | h1 <;> omega

/-- Searching on behind a blocking partition runs into it again. -/
theorem Stuck.skip (hi : Movable t maxpart i) (hb : Blocks t maxpart dest i j)
    (hij : t.poffset j + t.psize j ≤ t.poffset i) :
    Stuck t maxpart (t.poffset j + t.psize j) := by
  have hr := hb.range
  exact ⟨i, j, hi, (blocks_iff hb.foreign).mpr (Or.inr ⟨Nat.le_refl _, by omega⟩), hij, hij⟩

/-- Placing a partition that nothing blocks does not free the way of one that is blocked. -/
theorem Stuck.place (h : Stuck t maxpart dest) (hi : Movable t maxpart i)
    (hfree : ∀ j, ¬ Blocks t maxpart dest i j) :
    Stuck (place t i dest) maxpart (dest + t.psize i) := by
  obtain ⟨k, j, hk, hb, hkd, hjk⟩ := h
  have hki : k ≠ i := fun e => hfree j (e ▸ hb)
  have hji : j ≠ i := fun e => by have := hb.foreign.2.2; have := hi.2.2.2; subst e; omega
  have hr := hb.range
  have hn := mt (@blocks_iff t maxpart dest i j hb.foreign).mpr (hfree j)
  have hforeign : Foreign (PackPlan.place t i dest) maxpart j := hb.foreign
  refine ⟨k, j, hk, (blocks_iff hforeign).mpr ?_, ?_, ?_⟩
  · rw [place_other hji]
    show (dest + t.psize i ≤ t.poffset j ∧ t.poffset j < dest + t.psize i + t.psize k) ∨
      (dest + t.psize i ≤ t.poffset j + t.psize j ∧
        t.poffset j + t.psize j < dest + t.psize i + t.psize k)
    omega
  · rw [place_other hki]; omega
  · rw [place_other hki, place_other hji]; exact hjk

theorem Plan.not_stuck (h : Plan maxpart t dest t') (ha : Ahead t maxpart dest) : ¬ Stuck t maxpart dest := by
  induction h with
  | @done t dest hmax hblock =>
    rintro ⟨i, j, hi, -, hd, -⟩
    have := ((scan_found t maxpart dest).first hblock i (Nat.lt_succ_of_le hi.2.1) hi hd).1
    have := ha.start i hi
    omega
  | @skip t dest t' hmax hblock _ ih =>
    intro _
    obtain ⟨i, hi, hd, hb⟩ := (scan_found t maxpart dest).block hblock
    have hr := hb.range
    exact ih (ha.mono (by omega)) (Stuck.skip hi hb (ha.behind hi hd hb))
  | @place t dest t' hbest _ ih =>
    intro hs
    obtain ⟨hm, hd, -, hfree⟩ := (scan_found t maxpart dest).best hbest
    exact ih (ha.place hd hm) (hs.place hm hfree)

theorem Plan.not_blocked (h : Plan maxpart t dest t') (ha : Ahead t maxpart dest) :
    (scan t maxpart dest).block = 0 := by
  by_contra hblock
  obtain ⟨i, hi, hd, hb⟩ := (scan_found t maxpart dest).block hblock
  exact h.not_stuck ha ⟨i, _, hi, hb, hd, ha.behind hi hd hb⟩

/-- The next search finds an empty partition where this one starts. -/
def Empty (t : PartTable) (maxpart dest : Nat) : Prop :=
  ∃ i, Movable t maxpart i ∧ t.psize i = 0 ∧ t.poffset i = dest ∧
    ∀ k < i, Movable t maxpart k → t.poffset k ≠ dest

theorem Plan.not_empty (h : Plan maxpart t dest t') (ha : Ahead t maxpart dest) : ¬ Empty t maxpart dest := by
  induction h with
  | @done t dest hmax hblock =>
    rintro ⟨i, hi, -, hd, -⟩
    have := ((scan_found t maxpart dest).first hblock i (Nat.lt_succ_of_le hi.2.1) hi hd.ge).1
    have := ha.start i hi
    omega
  | @skip t dest t' hmax hblock h ih =>
    exact fun _ => hblock (Plan.not_blocked (Plan.skip hmax hblock h) ha)
  | @place t dest t' hbest h ih =>
    rintro ⟨i, hi, hsize, hd, hfirst⟩
    have hblock := (Plan.place hbest h).not_blocked ha
    obtain ⟨hm, hle, -, -⟩ := (scan_found t maxpart dest).best hbest
    have hmin := scan_best_le hblock hbest hi hd.ge
    -- the search finds the empty partition and places it where it is
    have hat : t.poffset (scan t maxpart dest).best = dest := by omega
    have hge : ¬ (scan t maxpart dest).best < i := fun hlt => hfirst _ hlt hm hat
    have heq : (scan t maxpart dest).best = i := by omega
    rw [heq, place_self hd, hsize, Nat.add_zero] at ih
    exact ih ha ⟨i, hi, hsize, hd, hfirst⟩

theorem Plan.sized (h : Plan maxpart t dest t') (ha : Ahead t maxpart dest)
    (hbest : (scan t maxpart dest).bestpos ≠ int32Max) :
    0 < t.psize (scan t maxpart dest).best := by
  have hblock := h.not_blocked ha
  obtain ⟨hm, hd, hpos, hfree⟩ := (scan_found t maxpart dest).best hbest
  rcases Nat.eq_zero_or_pos (t.psize (scan t maxpart dest).best) with hzero | hpos
  · cases h with
    | done hmax => exact absurd hmax hbest
    | skip hmax => exact absurd hmax hbest
    | place _ h =>
      have haway := ha.place hd hm
      rw [hzero, Nat.add_zero] at h haway
      refine absurd ⟨_, hm, hzero, place_poffset .., ?_⟩ (h.not_empty haway)
      intro k hk hkm hkd
      rw [place_other (Nat.ne_of_lt hk)] at hkd
      have := (scan_best_le hblock hbest hkm hkd.ge).2 hk
      omega
  · exact hpos

/-- Packing only ever moves partitions down. -/
theorem Plan.poffset_le (h : Plan maxpart t dest t') (i : Nat) : t'.poffset i ≤ t.poffset i := by
  induction h with
  | done => exact Nat.le_refl _
  | skip _ _ _ ih => exact ih
  | @place t dest t' hbest _ ih =>
    refine Nat.le_trans ih ?_
    rcases place_cases t (scan t maxpart dest).best dest i with ⟨rfl, hp⟩ | ⟨-, hp⟩
    · rw [hp]; exact ((scan_found t maxpart dest).best hbest).2.1
    · exact Nat.le_of_eq hp

theorem Plan.psize_eq (h : Plan maxpart t dest t') : t'.psize = t.psize ∧ t'.ptype = t.ptype := by
  induction h with
  | done => exact ⟨rfl, rfl⟩
  | skip _ _ _ ih => exact ih
  | place _ _ ih => exact ih

/-! ## Gaps -/

/-- Every block below a movable partition belongs to a movable partition. -/
def Gapless (t : PartTable) (maxpart : Nat) : Prop :=
  ∀ i, Movable t maxpart i → ∀ x < t.poffset i,
    ∃ k, Movable t maxpart k ∧ t.poffset k ≤ x ∧ x < t.poffset k + t.psize k

/-- No movable partition reaches over `dest`. -/
def Boundary (t : PartTable) (maxpart dest : Nat) : Prop :=
  ∀ k, Movable t maxpart k → t.poffset k < dest → t.poffset k + t.psize k ≤ dest

theorem Plan.of_gapless (h : Plan maxpart t dest t') (hdis : Disjoint t maxpart)
    (hgap : Gapless t maxpart) (hb : Boundary t maxpart dest) : t' = t := by
  induction h with
  | done => rfl
  | skip hmax hblock h _ =>
    exact absurd ((Plan.skip hmax hblock h).not_blocked (hdis.ahead _)) hblock
  | @place t dest t' hbest h ih =>
    have hblock := (Plan.place hbest h).not_blocked (hdis.ahead dest)
    obtain ⟨hm, hd, -, -⟩ := (scan_found t maxpart dest).best hbest
    have hmin := fun k hk hkd => (scan_best_le (i := k) hblock hbest hk hkd).1
    generalize (scan t maxpart dest).best = best at hm hd hmin h ih
    have hat : t.poffset best = dest := by
      by_contra hne
      -- the block at `dest` would belong to a partition that starts there
      obtain ⟨k, hk, hkd, hdk⟩ := hgap best hm dest (by omega)
      by_cases hlt : t.poffset k < dest
      · have := hb k hk hlt
        omega
      · have := hmin k hk (by omega)
        omega
    rw [place_self hat] at ih
    refine ih hdis hgap ?_
    intro k hk hlt
    by_cases hkb : k = best
    · subst hkb; omega
    · rcases hdis.movable k best hk hm hkb with h1 | h1 <;> omega

/-- Everything below `dest` belongs to movable partitions. -/
def Covered (t : PartTable) (maxpart dest : Nat) : Prop :=
  ∀ x < dest, ∃ k, Movable t maxpart k ∧ t.poffset k ≤ x ∧ x < t.poffset k + t.psize k

theorem Plan.moves (h : Plan maxpart t dest t') (ha : Ahead t maxpart dest)
    (hc : Covered t maxpart dest) (hgap : ¬ Gapless t maxpart) :
    ∃ i, Movable t maxpart i ∧ 0 < t.psize i ∧ t'.poffset i < t.poffset i := by
  induction h with
  | @done t dest hmax hblock =>
    refine absurd ?_ hgap
    intro i hi x hx
    have := fun hd => ((scan_found t maxpart dest).first hblock i (Nat.lt_succ_of_le hi.2.1) hi hd).1
    have := ha.start i hi
    exact hc x (by omega)
  | skip hmax hblock h _ => exact absurd ((Plan.skip hmax hblock h).not_blocked ha) hblock
  | @place t dest t' hbest h ih =>
    have hsized := (Plan.place hbest h).sized ha hbest
    obtain ⟨hm, hd, -, -⟩ := (scan_found t maxpart dest).best hbest
    have hle := h.poffset_le (scan t maxpart dest).best
    rw [place_poffset] at hle
    generalize (scan t maxpart dest).best = best at hm hd hsized hle h ih
    by_cases hat : t.poffset best = dest
    · have haway := ha.place hd hm
      rw [place_self hat] at ih haway
      refine ih haway ?_ hgap
      intro x hx
      by_cases hlt : x < dest
      · exact hc x hlt
      · exact ⟨best, hm, by omega, by omega⟩
    · exact ⟨best, hm, hsized, by omega⟩

end

end Vice.L3.PackPlan
