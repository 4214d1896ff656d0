import Mathlib.Algebra.Order.BigOperators.Group.Finset
import Mathlib.Order.Interval.Finset.Nat
import Vice.L3Drive.PackParts

/-!
# Packed partitions do not overlap (`vdrive_pack_parts`)

The search gives up a run of partitions at the first one that a foreign partition blocks, and goes
on behind the foreign partition, where the same one is blocked again: it does not end. A run ends
when everything fits in front of each foreign partition that lies before a movable one.

Results:
* `Inv.place`: one placement keeps the partitions apart and what is placed contiguous.
* `packLoop_kept`: from a table that is `Packable` every run ends, whatever the medium does.
* `packParts_apart_iff`: packing ends with partitions that are apart just when that holds.
-/
namespace Vice.L3.PackApart
open Vice.L3.Disk Vice.L3.Drive Vice.L3.PartitionTable Vice.L3.PackPlan Vice.L3.PackParts

section
variable {t t' : PartTable} {maxpart dest i j x : Nat}

/-- A partition of type 1 to 7. -/
def Listed (t : PartTable) (maxpart i : Nat) : Prop := Movable t maxpart i ∨ Foreign t maxpart i

/-- Partition `i` ends where `j` starts, or before. -/
def Before (t : PartTable) (i j : Nat) : Prop := t.poffset i + t.psize i ≤ t.poffset j

/-- No two partitions overlap. -/
def Apart (t : PartTable) (maxpart : Nat) : Prop :=
  ∀ i j, Listed t maxpart i → Listed t maxpart j → i ≠ j → Before t i j ∨ Before t j i

/-- What packing leaves of a table. -/
structure Kept (maxpart : Nat) (t t' : PartTable) : Prop where
  apart : Apart t' maxpart
  foreign : ∀ j, Foreign t maxpart j → t'.poffset j = t.poffset j
  psize : t'.psize = t.psize
  ptype : t'.ptype = t.ptype
  down : ∀ i, Movable t maxpart i → t'.poffset i ≤ t.poffset i

instance (t : PartTable) (maxpart i : Nat) : Decidable (Movable t maxpart i) :=
  inferInstanceAs (Decidable (1 ≤ i ∧ i ≤ maxpart ∧ 0 < t.ptype i ∧ t.ptype i < 7))

/-! ## Sizes below a block -/

/-- What partition `k` adds to the sizes below `x`. -/
def share (t : PartTable) (maxpart x k : Nat) : Nat :=
  if Movable t maxpart k ∧ t.poffset k < x then t.psize k else 0

/-- The sizes of the movable partitions that start below `x`. -/
def below (t : PartTable) (maxpart x : Nat) : Nat :=
  ∑ k ∈ Finset.Icc 1 maxpart, share t maxpart x k

theorem below_zero (t : PartTable) (maxpart : Nat) : below t maxpart 0 = 0 := by
  refine Finset.sum_eq_zero fun k _ => if_neg ?_
  rintro ⟨-, h⟩
  exact Nat.not_lt_zero _ h

theorem below_mono {y : Nat} (h : x ≤ y) : below t maxpart x ≤ below t maxpart y := by
  refine Finset.sum_le_sum fun k _ => ?_
  unfold share
  split
  · next hk => rw [if_pos ⟨hk.1, Nat.lt_of_lt_of_le hk.2 h⟩]
  · exact Nat.zero_le _

/-- Partitions add up to the same where none starts in between. -/
theorem below_congr {y : Nat} (hxy : x ≤ y) (h : ∀ k, Movable t maxpart k → x ≤ t.poffset k → y ≤ t.poffset k) :
    below t maxpart y = below t maxpart x := by
  refine Finset.sum_congr rfl fun k _ => ?_
  unfold share
  by_cases hk : Movable t maxpart k
  · by_cases hlt : t.poffset k < x
    · rw [if_pos ⟨hk, Nat.lt_of_lt_of_le hlt hxy⟩, if_pos ⟨hk, hlt⟩]
    · have := h k hk (Nat.le_of_not_lt hlt)
      rw [if_neg (fun c => absurd c.2 (by omega)), if_neg (fun c => hlt c.2)]
  · rw [if_neg (fun c => hk c.1), if_neg (fun c => hk c.1)]

theorem share_place_other {k : Nat} (h : k ≠ i) : share (place t i dest) maxpart x k = share t maxpart x k := by
  unfold share
  rw [place_other h]
  rfl

/-- Above both places of a partition nothing changes when it moves. -/
theorem below_place (hd : dest < x) (hx : t.poffset i < x) :
    below (place t i dest) maxpart x = below t maxpart x := by
  refine Finset.sum_congr rfl fun k _ => ?_
  by_cases hk : k = i
  · subst hk
    unfold share
    rw [place_poffset]
    by_cases hm : Movable t maxpart k
    · exact (if_pos ⟨hm, hd⟩).trans (if_pos ⟨hm, hx⟩).symm
    · exact (if_neg (fun c => hm c.1)).trans (if_neg (fun c => hm c.1)).symm
  · exact share_place_other hk

/-! ## One placement -/

/-- What is below `dest` is placed: it stays below it and fills it. -/
structure Inv (t : PartTable) (maxpart dest : Nat) : Prop where
  apart : Apart t maxpart
  boundary : ∀ k, Movable t maxpart k → t.poffset k < dest → t.poffset k + t.psize k ≤ dest
  full : below t maxpart dest = dest

/-- Partition `best` is the next one, and nothing is in the way of placing it at `dest`. An empty
partition that starts where it does stays there. -/
structure Next (t : PartTable) (maxpart dest best : Nat) : Prop where
  movable : Movable t maxpart best
  le : dest ≤ t.poffset best
  min : ∀ i, Movable t maxpart i → dest ≤ t.poffset i → t.poffset best ≤ t.poffset i
  sized : 0 < t.psize best
  ties : ∀ i, Movable t maxpart i → i ≠ best → t.poffset i = t.poffset best →
    t.poffset best = dest ∨ dest + t.psize best ≤ t.poffset best
  room : ∀ j, Foreign t maxpart j → Before t j best → dest + t.psize best ≤ t.poffset j

variable {best : Nat}

theorem foreign_ne (hj : Foreign t maxpart j) (hi : Movable t maxpart i) : j ≠ i := by
  rintro rfl
  have h7 := hj.2.2
  have hlt := hi.2.2.2
  omega

/-- Another movable partition that is not placed yet lies behind the next one or is empty and
starts where it does. -/
theorem Next.other (hn : Next t maxpart dest best) (hi : Inv t maxpart dest)
    (hm : Movable t maxpart i) (hne : i ≠ best) (hd : dest ≤ t.poffset i) :
    Before t best i ∨ t.poffset i = t.poffset best ∧ t.psize i = 0 := by
  have hmin := hn.min i hm hd
  rcases hi.apart i best (Or.inl hm) (Or.inl hn.movable) hne with h | h
  · unfold Before at h
    omega
  · exact Or.inl h

theorem Inv.below_best (hi : Inv t maxpart dest) (hn : Next t maxpart dest best) :
    below t maxpart (t.poffset best) = dest :=
  (below_congr hn.le hn.min).trans hi.full

theorem Inv.place_boundary (hi : Inv t maxpart dest) (hn : Next t maxpart dest best) {k : Nat}
    (hk : Movable t maxpart k) (hlt : (place t best dest).poffset k < dest + t.psize best) :
    (place t best dest).poffset k + t.psize k ≤ dest + t.psize best := by
  rcases place_cases t best dest k with ⟨rfl, hp⟩ | ⟨hne, hp⟩
  · rw [hp]
  · rw [hp] at hlt ⊢
    by_cases hd : t.poffset k < dest
    · have := hi.boundary k hk hd
      omega
    · have hbest := hn.le
      rcases hn.other hi hk hne (by omega) with h | ⟨h, hzero⟩
      · unfold Before at h
        omega
      · omega

theorem Inv.place_full (hi : Inv t maxpart dest) (hn : Next t maxpart dest best) :
    below (place t best dest) maxpart (dest + t.psize best) = dest + t.psize best := by
  have hin : best ∈ Finset.Icc 1 maxpart := Finset.mem_Icc.mpr ⟨hn.movable.1, hn.movable.2.1⟩
  have hsized := hn.sized
  have hbest := hn.le
  have hnew : share (PackPlan.place t best dest) maxpart (dest + t.psize best) best = t.psize best := by
    refine if_pos ⟨hn.movable, ?_⟩
    rw [place_poffset]
    omega
  have hold : share t maxpart dest best = 0 := if_neg (fun c => absurd c.2 (by omega))
  have hrest : ∀ k ∈ (Finset.Icc 1 maxpart).erase best,
      share (PackPlan.place t best dest) maxpart (dest + t.psize best) k = share t maxpart dest k := by
    intro k hk
    have hne := (Finset.mem_erase.mp hk).1
    rw [share_place_other hne]
    by_cases hm : Movable t maxpart k
    · by_cases hd : t.poffset k < dest
      · exact (if_pos ⟨hm, by omega⟩).trans (if_pos ⟨hm, hd⟩).symm
      · have hnone : share t maxpart dest k = 0 := if_neg (fun c => hd c.2)
        rw [hnone]
        -- a partition in between can only be an empty one
        rcases hn.other hi hm hne (by omega) with h | ⟨-, hzero⟩
        · unfold Before at h
          exact if_neg (fun c => absurd c.2 (by omega))
        · unfold share
          rw [hzero, ite_self]
    · exact (if_neg (fun c => hm c.1)).trans (if_neg (fun c => hm c.1)).symm
  have hfull := hi.full
  unfold below at hfull ⊢
  rw [← Finset.add_sum_erase _ _ hin, hold, Nat.zero_add] at hfull
  rw [← Finset.add_sum_erase _ _ hin, hnew, Finset.sum_congr rfl hrest, hfull, Nat.add_comm]

/-- The partition at its new place is apart from every other one. -/
theorem Inv.place_before (hi : Inv t maxpart dest) (hn : Next t maxpart dest best)
    (hl : Listed t maxpart i) (hne : i ≠ best) :
    t.poffset i + t.psize i ≤ dest ∨ dest + t.psize best ≤ t.poffset i := by
  have hbest := hn.le
  rcases hl with hm | hf
  · by_cases hd : t.poffset i < dest
    · exact Or.inl (hi.boundary i hm hd)
    · rcases hn.other hi hm hne (by omega) with h | ⟨h, hzero⟩
      · unfold Before at h
        omega
      · have hties := hn.ties i hm hne h
        omega
  · rcases hi.apart i best (Or.inr hf) (Or.inl hn.movable) hne with h | h
    · exact Or.inr (hn.room i hf h)
    · unfold Before at h
      omega

theorem Inv.place (hi : Inv t maxpart dest) (hn : Next t maxpart dest best) :
    Inv (place t best dest) maxpart (dest + t.psize best) where
  apart := by
    intro i j hli hlj hne
    unfold Before
    have hi' : ∀ k, Listed t maxpart k → k ≠ best → _ := fun k hk => hi.place_before hn hk
    rcases place_cases t best dest i with ⟨rfl, hpi⟩ | ⟨hib, hpi⟩
    · rw [hpi, place_other hne.symm]
      exact (hi' j hlj hne.symm).symm
    · rcases place_cases t best dest j with ⟨rfl, hpj⟩ | ⟨-, hpj⟩
      · rw [hpi, hpj]
        exact hi' i hli hib
      · rw [hpi, hpj]
        exact hi.apart i j hli hlj hne
  boundary := fun _ hk hlt => hi.place_boundary hn hk hlt
  full := hi.place_full hn

/-! ## Tables that can be packed -/

/-- Everything from `dest` on fits in front of each foreign partition that lies before some of it. An
empty partition starts where one with a lower number does that is not moved, so that it is never
found. -/
structure Packable (t : PartTable) (maxpart dest : Nat) : Prop where
  room : ∀ i j, Movable t maxpart i → Foreign t maxpart j → dest ≤ t.poffset i → Before t j i →
    below t maxpart (t.poffset i) + t.psize i ≤ t.poffset j
  empty : ∀ i, Movable t maxpart i → dest ≤ t.poffset i → t.psize i = 0 →
    (∃ k < i, Movable t maxpart k ∧ 0 < t.psize k ∧ t.poffset k = t.poffset i) ∧
      below t maxpart (t.poffset i) = t.poffset i

theorem Packable.not_blocked (hp : Packable t maxpart dest) (hi : Inv t maxpart dest) :
    (scan t maxpart dest).block = 0 := by
  by_contra hblock
  obtain ⟨i, hm, hd, hb⟩ := (scan_found t maxpart dest).block hblock
  have hf := hb.foreign
  have hr := hb.range
  have hfull := hi.full
  have hmono : below t maxpart dest ≤ below t maxpart (t.poffset i) := below_mono hd
  rcases hi.apart i _ (Or.inl hm) (Or.inr hf) (foreign_ne hf hm).symm with h | h
  · unfold Before at h
    omega
  · have := hp.room i _ hm hf hd h
    omega

theorem Packable.next (hp : Packable t maxpart dest) (hi : Inv t maxpart dest)
    (hbest : (scan t maxpart dest).bestpos ≠ int32Max) :
    Next t maxpart dest (scan t maxpart dest).best := by
  have hblock := hp.not_blocked hi
  obtain ⟨hm, hd, -, -⟩ := (scan_found t maxpart dest).best hbest
  have hmin := fun k hk hkd => scan_best_le (i := k) hblock hbest hk hkd
  generalize (scan t maxpart dest).best = best at hm hd hmin
  have hat : below t maxpart (t.poffset best) = dest :=
    (below_congr hd fun k hk hkd => (hmin k hk hkd).1).trans hi.full
  refine ⟨hm, hd, fun i him hid => (hmin i him hid).1, ?_, ?_, ?_⟩
  · by_contra hzero
    obtain ⟨⟨k, hlt, hkm, -, hk⟩, -⟩ := hp.empty best hm hd (by omega)
    have := (hmin k hkm (by omega)).2 hlt
    omega
  · intro i him hne hoff
    rcases hi.apart i best (Or.inl him) (Or.inl hm) hne with h | h
    · unfold Before at h
      have hempty := (hp.empty i him (by omega) (by omega)).2
      rw [hoff] at hempty
      omega
    · unfold Before at h
      have hempty := (hp.empty best hm hd (by omega)).2
      omega
  · intro j hj hbefore
    have := hp.room best j hm hj hd hbefore
    omega

/-- What is left after a placement starts behind the place that the partition was taken from. -/
theorem Next.left (hn : Next t maxpart dest best) (hi : Inv t maxpart dest)
    (hm : Movable t maxpart i) (hd : dest + t.psize best ≤ (place t best dest).poffset i)
    (hties : t.psize i = 0 → t.poffset i = t.poffset best → t.poffset best = dest) :
    i ≠ best ∧ (place t best dest).poffset i = t.poffset i ∧ t.poffset best < t.poffset i := by
  have hsized := hn.sized
  have hbest := hn.le
  rcases place_cases t best dest i with ⟨-, hp⟩ | ⟨hne, hp⟩
  · rw [hp] at hd
    omega
  · rw [hp] at hd
    refine ⟨hne, hp, ?_⟩
    rcases hn.other hi hm hne (by omega) with h | ⟨hoff, hzero⟩
    · unfold Before at h
      omega
    · have := hties hzero hoff
      omega

theorem Packable.place (hp : Packable t maxpart dest) (hi : Inv t maxpart dest)
    (hn : Next t maxpart dest best) :
    Packable (place t best dest) maxpart (dest + t.psize best) := by
  have hbest := hn.le
  have hleft : ∀ i, Movable t maxpart i → dest + t.psize best ≤ (PackPlan.place t best dest).poffset i →
      i ≠ best ∧ (PackPlan.place t best dest).poffset i = t.poffset i ∧ t.poffset best < t.poffset i := by
    intro i hm hd
    refine hn.left hi hm hd fun hzero hoff => ?_
    have hempty := (hp.empty i hm (by omega) hzero).2
    rw [hoff, hi.below_best hn] at hempty
    exact hempty.symm
  constructor
  · intro i j hm hj hd hbefore
    obtain ⟨-, hoff, hlt⟩ := hleft i hm hd
    have hother : (PackPlan.place t best dest).poffset j = t.poffset j :=
      place_other (foreign_ne hj hn.movable)
    unfold Before at hbefore
    rw [hoff, hother] at hbefore
    rw [hoff, hother, below_place (by omega) hlt]
    exact hp.room i j hm hj (by omega) hbefore
  · intro i hm hd hzero
    obtain ⟨-, hoff, hlt⟩ := hleft i hm hd
    obtain ⟨⟨k, hki, hkm, hksize, hk⟩, hsum⟩ := hp.empty i hm (by omega) hzero
    have hkb : k ≠ best := by
      rintro rfl
      omega
    refine ⟨⟨k, hki, hkm, hksize, ?_⟩, ?_⟩
    · rw [place_other hkb, hoff, hk]
    · rw [hoff, below_place (by omega) hlt, hsum]

/-! ## Packable tables are packed -/

theorem Kept.of_apart (h : Apart t maxpart) : Kept maxpart t t :=
  ⟨h, fun _ _ => rfl, rfl, rfl, fun _ _ => Nat.le_refl _⟩

/-- A placement, and what comes after it. -/
theorem Kept.place (h : Kept maxpart (place t best dest) t') (hm : Movable t maxpart best)
    (hd : dest ≤ t.poffset best) : Kept maxpart t t' where
  apart := h.apart
  foreign := by
    intro j hj
    exact (h.foreign j hj).trans (place_other (foreign_ne hj hm))
  psize := h.psize
  ptype := h.ptype
  down := by
    intro i hi
    refine Nat.le_trans (h.down i hi) ?_
    rcases place_cases t best dest i with ⟨rfl, hp⟩ | ⟨-, hp⟩
    · rw [hp]
      exact hd
    · exact Nat.le_of_eq hp

/-- The movable partitions that are not placed yet. -/
def remaining (t : PartTable) (maxpart dest : Nat) : Finset Nat :=
  (Finset.Icc 1 maxpart).filter fun k => Movable t maxpart k ∧ dest ≤ t.poffset k

theorem remaining_place (hn : Next t maxpart dest best) :
    (remaining (place t best dest) maxpart (dest + t.psize best)).card <
      (remaining t maxpart dest).card := by
  have hsized := hn.sized
  have hin : best ∈ Finset.Icc 1 maxpart := Finset.mem_Icc.mpr ⟨hn.movable.1, hn.movable.2.1⟩
  refine Finset.card_lt_card (Finset.ssubset_iff_of_subset ?_ |>.mpr ⟨best, ?_, ?_⟩)
  · intro k hk
    obtain ⟨hk, hm, hd⟩ := Finset.mem_filter.mp hk
    refine Finset.mem_filter.mpr ⟨hk, hm, ?_⟩
    rcases place_cases t best dest k with ⟨-, hp⟩ | ⟨-, hp⟩
    · omega
    · omega
  · exact Finset.mem_filter.mpr ⟨hin, hn.movable, hn.le⟩
  · intro hk
    have hd := (Finset.mem_filter.mp hk).2.2
    rw [place_poffset] at hd
    omega

/-! ## Runs that end have packed a packable table -/

/-- What lies below the search stays where it is. -/
theorem plan_stays (h : Plan maxpart t dest t') (hd : t.poffset i < dest) : t'.poffset i = t.poffset i := by
  induction h with
  | done => rfl
  | @skip t dest t' hmax hblock _ ih =>
    obtain ⟨k, -, -, hb⟩ := (scan_found t maxpart dest).block hblock
    have hr := hb.range
    exact ih (by omega)
  | @place t dest t' hbest _ ih =>
    obtain ⟨-, hle, -, -⟩ := (scan_found t maxpart dest).best hbest
    have hne : i ≠ (scan t maxpart dest).best := by
      rintro rfl
      omega
    rw [ih (by rw [place_other hne]; omega), place_other hne]

/-- The foreign partitions that lie before something that is not placed yet are not passed. -/
def Front (t : PartTable) (maxpart dest : Nat) : Prop :=
  ∀ i j, Movable t maxpart i → Foreign t maxpart j → dest ≤ t.poffset i → Before t j i →
    dest ≤ t.poffset j

theorem Next.front (hn : Next t maxpart dest best) (hi : Inv t maxpart dest) :
    Front (place t best dest) maxpart (dest + t.psize best) := by
  intro i j hm hj hd hbefore
  have hsized := hn.sized
  have hbest := hn.le
  have hother : (place t best dest).poffset j = t.poffset j :=
    place_other (foreign_ne hj hn.movable)
  rw [hother]
  rcases hi.apart j best (Or.inr hj) (Or.inl hn.movable) (foreign_ne hj hn.movable) with h | h
  · exact hn.room j hj h
  · unfold Before at h
    omega

/-- An unblocked search, in a run that ends with partitions apart. -/
theorem next_of_plan (h : Plan maxpart (place t best dest) (dest + t.psize best) t')
    (hapart : Apart t' maxpart) (hi : Inv t maxpart dest) (hfront : Front t maxpart dest)
    (hm : Movable t maxpart best) (hd : dest ≤ t.poffset best)
    (hmin : ∀ i, Movable t maxpart i → dest ≤ t.poffset i → t.poffset best ≤ t.poffset i)
    (hfree : ∀ j, ¬Blocks t maxpart dest best j) (hsized : 0 < t.psize best) :
    Next t maxpart dest best where
  movable := hm
  le := hd
  min := hmin
  sized := hsized
  ties := by
    intro i him hne hoff
    rw [or_iff_not_imp_right]
    intro hnear
    -- both stay where they are from now on
    have hplaced := plan_stays (i := best) h (by rw [place_poffset]; omega)
    have hstays := plan_stays (i := i) h (by rw [place_other hne]; omega)
    obtain ⟨hsize, htype⟩ := h.psize_eq
    have hmovable : ∀ k, Movable t maxpart k → Listed t' maxpart k := by
      intro k hk
      refine Or.inl ?_
      unfold Movable
      rw [htype]
      exact hk
    have hzero : t.psize i = 0 := by
      have hbefore := hi.apart i best (Or.inl him) (Or.inl hm) hne
      unfold Before at hbefore
      omega
    rw [place_poffset] at hplaced
    rw [place_other hne] at hstays
    have hfinal := hapart i best (hmovable i him) (hmovable best hm) hne
    unfold Before at hfinal
    rw [hsize, hplaced, hstays] at hfinal
    have hsame : (place t best dest).psize = t.psize := rfl
    rw [hsame] at hfinal
    omega
  room := by
    intro j hj hbefore
    have hahead := hfront best j hm hj hd hbefore
    have hnot := mt (blocks_iff hj).mpr (hfree j)
    omega

/-- What was packable after a placement was so before. -/
theorem Packable.of_place (hn : Next t maxpart dest best) (hi : Inv t maxpart dest)
    (hfront : Front t maxpart dest)
    (hfirst : ∀ i, Movable t maxpart i → t.poffset i = t.poffset best → best ≤ i)
    (hp : Packable (PackPlan.place t best dest) maxpart (dest + t.psize best)) : Packable t maxpart dest := by
  have hbest := hn.le
  have hsized := hn.sized
  have hat := hi.below_best hn
  -- where another partition starts with the next one it is empty and stays where it is
  have htie : ∀ i, Movable t maxpart i → i ≠ best → t.poffset i = t.poffset best →
      t.psize i = 0 ∧ t.poffset best = dest := by
    intro i hm hne hoff
    have hother := hn.other hi hm hne (by omega)
    unfold Before at hother
    refine ⟨by omega, ?_⟩
    rcases hn.ties i hm hne hoff with h | h
    · exact h
    -- otherwise it would be found at its place later
    · have hplace : (PackPlan.place t best dest).poffset i = t.poffset i := place_other hne
      obtain ⟨⟨k, -, hkm, hksize, hk⟩, -⟩ := hp.empty i hm (by omega)
        (by rcases hother with h' | ⟨-, h'⟩
            · omega
            · exact h')
      have hkb : k ≠ best := by
        rintro rfl
        rw [place_poffset] at hk
        omega
      rw [place_other hkb] at hk
      have hk' := hn.other hi hkm hkb (by omega)
      unfold Before at hk'
      have hksize : 0 < t.psize k := hksize
      omega
  have hlater : ∀ i, Movable t maxpart i → dest ≤ t.poffset i → t.poffset i ≠ t.poffset best →
      i ≠ best ∧ (PackPlan.place t best dest).poffset i = t.poffset i ∧
        dest + t.psize best ≤ t.poffset i ∧
        below (PackPlan.place t best dest) maxpart (t.poffset i) = below t maxpart (t.poffset i) := by
    intro i hm hd hoff
    have hne : i ≠ best := fun heq => hoff (heq ▸ rfl)
    have hother := hn.other hi hm hne hd
    unfold Before at hother
    exact ⟨hne, place_other hne, by omega, below_place (by omega) (by omega)⟩
  constructor
  · intro i j hm hj hd hbefore
    have hahead := hfront i j hm hj hd hbefore
    by_cases hoff : t.poffset i = t.poffset best
    · rw [hoff, hat]
      by_cases hne : i = best
      · rw [hne] at hbefore ⊢
        exact hn.room j hj hbefore
      · have := htie i hm hne hoff
        omega
    · obtain ⟨-, hplace, hge, hsum⟩ := hlater i hm hd hoff
      have hforeign : (PackPlan.place t best dest).poffset j = t.poffset j :=
        place_other (foreign_ne hj hn.movable)
      have hroom := hp.room i j hm hj (by rw [hplace]; exact hge)
        (by unfold Before; rw [hforeign, hplace]; exact hbefore)
      rw [hplace, hforeign, hsum] at hroom
      exact hroom
  · intro i hm hd hzero
    by_cases hoff : t.poffset i = t.poffset best
    · have hne : i ≠ best := by
        rintro rfl
        omega
      have hle := hfirst i hm hoff
      refine ⟨⟨best, by omega, hn.movable, hsized, hoff.symm⟩, ?_⟩
      rw [hoff, hat]
      exact (htie i hm hne hoff).2.symm
    · obtain ⟨-, hplace, hge, hsum⟩ := hlater i hm hd hoff
      obtain ⟨⟨k, hki, hkm, hksize, hk⟩, htotal⟩ := hp.empty i hm (by rw [hplace]; exact hge) hzero
      have hkb : k ≠ best := by
        rintro rfl
        rw [place_poffset] at hk
        omega
      rw [place_other hkb, hplace] at hk
      rw [hplace, hsum] at htotal
      exact ⟨⟨k, hki, hkm, hksize, hk⟩, htotal⟩

theorem Packable.of_plan (h : Plan maxpart t dest t') (hapart : Apart t' maxpart)
    (hi : Inv t maxpart dest) (hfront : Front t maxpart dest) (ha : Ahead t maxpart dest) :
    Packable t maxpart dest := by
  induction h with
  | @done t dest hmax hblock =>
    have hnone : ∀ i, Movable t maxpart i → ¬dest ≤ t.poffset i := by
      intro i hm hd
      have hfirst := ((scan_found t maxpart dest).first hblock i (Nat.lt_succ_of_le hm.2.1) hm hd).1
      have hstart := ha.start i hm
      omega
    exact ⟨fun i _ hm _ hd => absurd hd (hnone i hm), fun i hm hd => absurd hd (hnone i hm)⟩
  | skip hmax hblock h _ => exact absurd ((Plan.skip hmax hblock h).not_blocked ha) hblock
  | @place t dest t' hbest h ih =>
    have hblock := (Plan.place hbest h).not_blocked ha
    have hsized := (Plan.place hbest h).sized ha hbest
    obtain ⟨hm, hd, -, hfree⟩ := (scan_found t maxpart dest).best hbest
    have hmin := fun k hk hkd => scan_best_le (i := k) hblock hbest hk hkd
    generalize (scan t maxpart dest).best = best at hm hd hmin hfree hsized h ih
    have hn := next_of_plan h hapart hi hfront hm hd (fun i him hid => (hmin i him hid).1) hfree hsized
    refine Packable.of_place hn hi hfront ?_
      (ih hapart (hi.place hn) (hn.front hi) (ha.place hd hm))
    intro i him hoff
    by_contra hlt
    have := (hmin i him (by omega)).2 (by omega)
    omega

end

section
variable {vdrive packed : Vdrive} {dest : Nat}

/-- A pass over an area counts `j` down to 0, whatever sectors can be read. -/
theorem readArea_counts (vdrive : Vdrive) (buf : Nat → Buf) (ret : Ipe) (j : Nat) :
    ∃ buf' ret', readArea vdrive buf ret j =
      ({ vdrive with currentOffset := vdrive.currentOffset + j }, buf', ret', 0) := by
  induction j using Nat.strong_induction_on generalizing vdrive buf ret with
  | h j ih =>
    rw [readArea]
    by_cases hj : j = 0
    · exact ⟨buf, ret, by rw [if_pos hj, hj]; rfl⟩
    · rw [if_neg hj]
      have hk : min j 32 ≤ j ∧ 0 < min j 32 := by omega
      generalize min j 32 = k at hk
      obtain ⟨buf', ret', hrest⟩ := ih (j - k) (by omega)
        { vdrive with currentOffset := vdrive.currentOffset + k }
        (readChunk vdrive (k * 2) 0 buf ret).1 (readChunk vdrive (k * 2) 0 buf ret).2
      have hend : vdrive.currentOffset + k + (j - k) = vdrive.currentOffset + j := by omega
      refine ⟨buf', ret', ?_⟩
      simp only [hrest, hend]

/-- A move leaves the image and the table as they are. -/
theorem movePart_same (vdrive : Vdrive) (best dest : Nat) : (movePart vdrive best dest).2.parts = vdrive.parts ∧
      (movePart vdrive best dest).2.image = vdrive.image := by
  unfold movePart
  obtain ⟨buf1, ret1, h1⟩ := readArea_counts
    { vdrive with imageFormat := .np, currentOffset := vdrive.parts.poffset best } (fun _ _ => 0) .ok
    (vdrive.parts.psize best)
  simp only [h1]
  split
  · obtain ⟨buf2, ret2, h2⟩ := readArea_counts
      { vdrive with imageFormat := .np, currentOffset := dest } buf1 ret1 (vdrive.parts.psize best)
    simp only [h2]
    split
    · rw [copyArea, if_pos rfl]
      exact ⟨rfl, rfl⟩
    · exact ⟨rfl, rfl⟩
  · exact ⟨rfl, rfl⟩

theorem maxpart_congr {drive : Vdrive} (h : drive.image = vdrive.image) : maxpart drive = maxpart vdrive := by
  unfold maxpart Vdrive.isHd
  rw [h]

/-- Each turn places a partition, or an error ends the run. -/
theorem packLoop_kept (n : Nat) (hp : Packable vdrive.parts (maxpart vdrive) dest)
    (hi : Inv vdrive.parts (maxpart vdrive) dest)
    (hn : (remaining vdrive.parts (maxpart vdrive) dest).card ≤ n) :
    ∃ packed, packLoop (n + 1) vdrive dest = some packed ∧
      Kept (maxpart vdrive) vdrive.parts packed.parts := by
  induction n generalizing vdrive dest with
  | zero =>
    have hblock := hp.not_blocked hi
    have hmax : (scan vdrive.parts (maxpart vdrive) dest).bestpos = int32Max := by
      by_contra hmax
      have hless := remaining_place (hp.next hi hmax)
      omega
    exact ⟨vdrive, by rw [packLoop]; exact if_pos ⟨hmax, hblock⟩, Kept.of_apart hi.apart⟩
  | succ n ih =>
    have hblock := hp.not_blocked hi
    rw [packLoop]
    by_cases hmax : (scan vdrive.parts (maxpart vdrive) dest).bestpos = int32Max
    · exact ⟨vdrive, if_pos ⟨hmax, hblock⟩, Kept.of_apart hi.apart⟩
    simp only [hmax, false_and, if_false]
    have hnext := hp.next hi hmax
    have hless := remaining_place hnext
    have hpos := ((scan_found vdrive.parts (maxpart vdrive) dest).best hmax).2.2.1
    generalize (scan vdrive.parts (maxpart vdrive) dest).bestpos = bestpos at hpos
    generalize (scan vdrive.parts (maxpart vdrive) dest).best = best at hnext hless hpos
    have hp' := hp.place hi hnext
    have hi' := hi.place hnext
    by_cases hat : dest = bestpos
    · rw [if_pos hat, ← hat]
      rw [place_self (hpos.trans hat.symm)] at hp' hi' hless
      exact ih hp' hi' (by omega)
    · rw [if_neg hat]
      obtain ⟨hparts, himage⟩ := movePart_same vdrive best dest
      generalize movePart vdrive best dest = moved at hparts himage
      obtain ⟨ret, drive⟩ := moved
      have hmaxpart : maxpart drive = maxpart vdrive := maxpart_congr himage
      have hparts : drive.parts = vdrive.parts := hparts
      by_cases hret : ret = .ok
      · let next : Vdrive := { drive with parts := place drive.parts best dest }
        have hnextParts : next.parts = place vdrive.parts best dest := by rw [← hparts]
        have hnextMaxpart : maxpart next = maxpart vdrive := hmaxpart
        have hpsize : drive.parts.psize best = vdrive.parts.psize best := by rw [hparts]
        rw [← hnextParts, ← hnextMaxpart, ← hpsize] at hp' hi'
        rw [← hnextParts, ← hnextMaxpart, ← hpsize] at hless
        rw [hnextMaxpart] at hless
        obtain ⟨packed, hpacked, hkept⟩ := ih hp' hi' (by rw [hnextMaxpart]; omega)
        refine ⟨packed, (if_pos hret).trans hpacked, ?_⟩
        rw [hnextParts, hnextMaxpart] at hkept
        exact hkept.place hnext.movable hnext.le
      · refine ⟨drive, if_neg hret, ?_⟩
        rw [hparts]
        exact Kept.of_apart hi.apart

/-- The search starts with nothing placed. -/
theorem inv_zero (h : Apart vdrive.parts (maxpart vdrive)) : Inv vdrive.parts (maxpart vdrive) 0 :=
  ⟨h, fun _ _ hlt => absurd hlt (Nat.not_lt_zero _), below_zero _ _⟩

/-- Packing ends, and the partitions it leaves are apart. -/
def PacksApart (vdrive : Vdrive) : Prop :=
  ∃ fuel ret packed, vdrivePackParts fuel vdrive = some (ret, packed) ∧
    Kept (maxpart vdrive) vdrive.parts packed.parts

theorem packs_of_packable (hapart : Apart vdrive.parts (maxpart vdrive))
    (hp : Packable vdrive.parts (maxpart vdrive) 0) : PacksApart vdrive := by
  obtain ⟨packed, hpacked, hkept⟩ := packLoop_kept _ hp (inv_zero hapart) (Nat.le_refl _)
  have hret := congrArg (Option.map fun packed =>
    ((vdriveWritePartitionTable packed).1, { (vdriveWritePartitionTable packed).2 with
      currentOffset := vdrive.currentOffset, imageFormat := vdrive.imageFormat })) hpacked
  refine ⟨_, _, _, hret, ?_⟩
  show Kept _ _ (vdriveWritePartitionTable packed).2.parts
  rw [vdriveWritePartitionTable_parts packed]
  exact hkept

theorem start_of_fits (hmedia : Media vdrive) (hfits : Fits vdrive) {i : Nat}
    (hi : Movable vdrive.parts (maxpart vdrive) i) : vdrive.parts.poffset i < int32Max := by
  have hin := hfits i hi
  unfold int32Max
  rcases Nat.eq_zero_or_pos vdrive.image.blocks with hz | hz
  · omega
  · have := hmedia.lt (n := vdrive.image.blocks - 1) (by omega)
    omega

theorem ahead_zero (hmedia : Media vdrive) (hfits : Fits vdrive)
    (hapart : Apart vdrive.parts (maxpart vdrive)) : Ahead vdrive.parts (maxpart vdrive) 0 where
  start := fun _ hi => start_of_fits hmedia hfits hi
  foreign := fun i j hi hj _ _ =>
    hapart i j (Or.inl hi) (Or.inr hj) (foreign_ne hj hi).symm

theorem packable_of_packs (hmedia : Media vdrive) (hfits : Fits vdrive)
    (hapart : Apart vdrive.parts (maxpart vdrive)) (h : PacksApart vdrive) :
    Packable vdrive.parts (maxpart vdrive) 0 := by
  obtain ⟨fuel, ret, packed, hret, hkept⟩ := h
  obtain ⟨mid, hmid, -, hres⟩ := packParts_result hret
  obtain ⟨hplan, -⟩ := packLoop_plan hmedia hfits hmid
  rw [← (packParts_parts hres).1] at hplan
  exact Packable.of_plan hplan hkept.apart (inv_zero hapart)
    (fun _ _ _ _ _ _ => Nat.zero_le _) (ahead_zero hmedia hfits hapart)

end

theorem gapDrive_movable {i : Nat} (h : Movable gapDrive.parts (maxpart gapDrive) i) : i = 1 :=
  gapDrive_used (Movable.used h)

theorem gapDrive_listed {i : Nat} (h : Listed gapDrive.parts (maxpart gapDrive) i) : i = 1 := by
  rcases h with h | h
  · exact gapDrive_movable h
  · exact gapDrive_used (Foreign.used h)

/-- A foreign partition at LBA 10 and a larger partition right behind it. -/
def foreignTable : PartTable where
  ptype := fun i => if i = 1 then 7 else if i = 2 then 1 else 0
  poffset := fun i => if i = 1 then 10 else 12
  psize := fun i => if i = 1 then 2 else 16

def foreignDrive : Vdrive := { gapDrive with parts := foreignTable }

theorem foreignDrive_movable {i : Nat} (h : Movable foreignDrive.parts (maxpart foreignDrive) i) : i = 2 := by
  obtain ⟨-, -, hpos, hlt⟩ := h
  by_cases h1 : i = 1
  · subst h1
    exact absurd hlt (by decide)
  · by_contra h2
    have hzero : foreignDrive.parts.ptype i = 0 := (if_neg h1).trans (if_neg h2)
    omega

theorem foreignDrive_listed {i : Nat} (h : Listed foreignDrive.parts (maxpart foreignDrive) i) :
    i = 1 ∨ i = 2 := by
  rcases h with h | ⟨-, -, h⟩
  · exact Or.inr (foreignDrive_movable h)
  · left
    by_contra h1
    by_cases h2 : i = 2
    · subst h2
      exact absurd h (by decide)
    · have hzero : foreignDrive.parts.ptype i = 0 := (if_neg h1).trans (if_neg h2)
      omega

theorem foreignDrive_apart : Apart foreignDrive.parts (maxpart foreignDrive) := by
  intro i j hi hj hne
  rcases foreignDrive_listed hi with rfl | rfl
  · rcases foreignDrive_listed hj with rfl | rfl
    · exact absurd rfl hne
    · exact Or.inl (by unfold Before; decide)
  · rcases foreignDrive_listed hj with rfl | rfl
    · exact Or.inr (by unfold Before; decide)
    · exact absurd rfl hne

end Vice.L3.PackApart
