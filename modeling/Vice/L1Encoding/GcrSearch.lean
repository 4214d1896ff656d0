import Vice.L1Encoding.GcrTrack

/-!
# The header search on any track (`gcr.c`)

From the start of the track the search goes to the first mark it can see, then from mark to mark
around the ring. A track with a single mark is special: from there the walk does not come back to
it, as it needs the ten ones in front of the mark.

Results:
* `findSync_spec`: the walk, on any track.
* `findSync_around`: from a mark to the next one, or a lone mark.
-/
namespace Vice.L1.Gcr
open Vice.L0.BitRun

variable {raw : DiskTrack} {sector : UInt8} {p q s : Nat}

/-- The position `d` bits behind `q`. -/
def DiskTrack.behind (raw : DiskTrack) (q d : Nat) : Nat := (q + d) % (8 * raw.size)

theorem behind_lt (h : 0 < raw.size) (q d : Nat) : raw.behind q d < 8 * raw.size :=
  Nat.mod_lt _ (by omega)

theorem behind_behind (q d e : Nat) : raw.behind (raw.behind q d) e = raw.behind q (d + e) := by
  unfold DiskTrack.behind
  rw [Nat.mod_add_mod, Nat.add_assoc]

theorem behind_zero (h : q < 8 * raw.size) : raw.behind q 0 = q := Nat.mod_eq_of_lt h

/-- Every position is somewhere behind `q`. -/
theorem exists_behind (hq : q < 8 * raw.size) (hp : p < 8 * raw.size) :
    ∃ d < 8 * raw.size, raw.behind q d = p := by
  refine ⟨(p + 8 * raw.size - q) % (8 * raw.size), Nat.mod_lt _ (by omega), ?_⟩
  unfold DiskTrack.behind
  rw [Nat.add_mod_mod, show q + (p + 8 * raw.size - q) = p + 8 * raw.size by omega,
    Nat.add_mod_right, Nat.mod_eq_of_lt hp]

theorem behind_inj {d e : Nat} (hd : d < 8 * raw.size) (he : e < 8 * raw.size)
    (h : raw.behind q d = raw.behind q e) : d = e := by
  have hmod : d ≡ e [MOD 8 * raw.size] := Nat.ModEq.add_left_cancel' q h
  unfold Nat.ModEq at hmod
  rwa [Nat.mod_eq_of_lt hd, Nat.mod_eq_of_lt he] at hmod

/-! ## The walk -/

theorem findSync_spec (hp : p < 8 * raw.size) (s : Nat) :
    (∃ i, Mark 10 0 (window raw.bits p s) i ∧ Quiet 10 0 (window raw.bits p i) ∧
      gcrFindSync raw p s = .ok (raw.behind p i)) ∨
    (Quiet 10 0 (window raw.bits p s) ∧ gcrFindSync raw p s = .error .sync) := by
  by_cases hq : Quiet 10 0 (window raw.bits p s)
  · exact Or.inr ⟨hq, gcrFindSync_none hp hq⟩
  · unfold Quiet at hq
    simp only [not_forall, not_not] at hq
    obtain ⟨i, hi⟩ := hq
    obtain ⟨j, -, hj, hquiet⟩ := exists_first_mark hi
    exact Or.inl ⟨j, hj, hquiet, gcrFindSync_first hp hj hquiet⟩

/-- A track with a mark is not shorter than the mark. -/
theorem ten_le_of_mark {i : Nat} (h : Mark 10 0 (window raw.bits p s) i) : 10 ≤ i ∧ i < s := by
  have hlt := h.lt
  have hrun := (le_runAfter_zero_iff _ _).mp h.2
  simp only [window_length, List.length_take] at hlt hrun
  omega

/-- Two marks are ten ones apart. -/
theorem ringMark_apart {d : Nat} (h10 : 10 ≤ 8 * raw.size) (hq : RingMark 10 raw.bits q) (hd : 0 < d)
    (hh : RingMark 10 raw.bits (raw.behind q d)) : 10 ≤ d := by
  have hlen : raw.bits.length = 8 * raw.size := raw.bits_length
  by_contra hlt
  have h1 := hh.2.2 (d - 1) (by omega)
  have h2 : ring raw.bits (raw.behind q d + raw.bits.length - 1 - (d - 1)) = ring raw.bits q := by
    rw [← ring_mod, ← ring_mod raw.bits q]
    congr 1
    unfold DiskTrack.behind
    rw [hlen]
    have hq' := hq.1
    have e := Nat.mod_add_div (q + d) (8 * raw.size)
    have e2 : q + 8 * raw.size = ((q + d) % (8 * raw.size) + 8 * raw.size - 1 - (d - 1)) +
        8 * raw.size * ((q + d) / (8 * raw.size)) := by omega
    rw [← Nat.add_mod_right q, e2, Nat.add_mul_mod_self_left]
  rw [h2, hq.2.1] at h1
  cases h1

/-- What the walk finds is a mark, and the first one behind `p` whose ten ones it has passed. -/
theorem findSync_ok (h10 : 10 ≤ 8 * raw.size) (hp : p < 8 * raw.size) (h : gcrFindSync raw p s = .ok q) :
    ∃ i, 10 ≤ i ∧ i < s ∧ q = raw.behind p i ∧ RingMark 10 raw.bits q ∧
      ∀ j, 10 ≤ j → j < i → ¬ RingMark 10 raw.bits (raw.behind p j) := by
  have hlen : raw.bits.length = 8 * raw.size := raw.bits_length
  rcases findSync_spec hp s with ⟨i, hi, hquiet, he⟩ | ⟨-, he⟩
  · rw [he] at h
    cases h
    obtain ⟨hi10, his⟩ := ten_le_of_mark hi
    refine ⟨i, hi10, his, rfl, ?_, ?_⟩
    · have := hi.ring (by omega) (by omega)
      rwa [hlen] at this
    · intro j hj10 hj hm
      exact hquiet j (RingMark.mark hj10 hj (by omega) (by rwa [hlen]))
  · rw [he] at h
    cases h

theorem findSync_error {e : FdcErr} (h10 : 10 ≤ 8 * raw.size) (hp : p < 8 * raw.size)
    (h : gcrFindSync raw p s = .error e) :
    e = .sync ∧ ∀ j, 10 ≤ j → j < s → ¬ RingMark 10 raw.bits (raw.behind p j) := by
  have hlen : raw.bits.length = 8 * raw.size := raw.bits_length
  rcases findSync_spec hp s with ⟨i, -, -, he⟩ | ⟨hquiet, he⟩
  · rw [he] at h
    cases h
  · rw [he] at h
    cases h
    refine ⟨rfl, fun j hj10 hj hm => ?_⟩
    exact hquiet j (RingMark.mark hj10 hj (by omega) (by rwa [hlen]))

/-- A track that is too short for a mark. -/
theorem findSync_short (h10 : 8 * raw.size < 10) (hp : p < 8 * raw.size) :
    gcrFindSync raw p (raw.size * 8) = .error .sync := by
  rcases findSync_spec hp (raw.size * 8) with ⟨i, hi, -, -⟩ | ⟨-, he⟩
  · have := ten_le_of_mark hi
    omega
  · exact he

/-- From a mark, the walk around the track comes to the next one; it does not come to a lone one. -/
theorem findSync_around (hq : RingMark 10 raw.bits q) (h10 : 10 ≤ 8 * raw.size) :
    (∃ d, 0 < d ∧ d < 8 * raw.size ∧ gcrFindSync raw q (raw.size * 8) = .ok (raw.behind q d) ∧
      RingMark 10 raw.bits (raw.behind q d) ∧
      ∀ j, 0 < j → j < d → ¬ RingMark 10 raw.bits (raw.behind q j)) ∨
    (gcrFindSync raw q (raw.size * 8) = .error .sync ∧ ∀ p, RingMark 10 raw.bits p → p = q) := by
  have hlen : raw.bits.length = 8 * raw.size := raw.bits_length
  have hqN : q < 8 * raw.size := by rw [← hlen]; exact hq.1
  cases hf : gcrFindSync raw q (raw.size * 8) with
  | ok p =>
    obtain ⟨d, hd10, hdN, rfl, hm, hfirst⟩ := findSync_ok h10 hqN hf
    refine Or.inl ⟨d, by omega, by omega, rfl, hm, fun j hj hjd hmj => ?_⟩
    exact hfirst j (ringMark_apart h10 hq hj hmj) hjd hmj
  | error e =>
    obtain ⟨rfl, hnone⟩ := findSync_error h10 hqN hf
    refine Or.inr ⟨rfl, fun p hp => ?_⟩
    obtain ⟨d, hd, rfl⟩ := exists_behind hqN (show p < 8 * raw.size by rw [← hlen]; exact hp.1)
    by_contra hne
    have hpos : 0 < d := by
      by_contra h0
      rw [show d = 0 by omega, behind_zero hqN] at hne
      exact hne rfl
    exact hnone d (ringMark_apart h10 hq hpos hp) (by omega) hp

/-! ## The search -/

/-- How a search can end. The first mark it sees is `q0`. -/
inductive SearchEnd (raw : DiskTrack) (sector : UInt8) : Option (Except FdcErr Nat) → Prop
  | noSync (h : gcrFindSync raw 0 (raw.size * 8) = .error .sync) :
      SearchEnd raw sector (some (.error .sync))
  | found {q0 d : Nat} (h : gcrFindSync raw 0 (raw.size * 8) = .ok q0) (hd : d < 8 * raw.size)
      (hh : HeaderAt raw sector (raw.behind q0 d))
      (hfirst : ∀ j < d, ¬ HeaderAt raw sector (raw.behind q0 j)) :
      SearchEnd raw sector (some (.ok (raw.behind q0 d)))
  | noHeader {q0 p : Nat} (h : gcrFindSync raw 0 (raw.size * 8) = .ok q0)
      (hnone : ∀ q, ¬ HeaderAt raw sector q) (hp : RingMark 10 raw.bits p) (hne : p ≠ q0) :
      SearchEnd raw sector (some (.error .header))
  | lone {q0 : Nat} (h : gcrFindSync raw 0 (raw.size * 8) = .ok q0)
      (hnone : ∀ q, ¬ HeaderAt raw sector q) (hone : ∀ q, RingMark 10 raw.bits q → q = q0) :
      SearchEnd raw sector none

theorem HeaderAt.lt (h : HeaderAt raw sector q) : q < 8 * raw.size := by
  rw [← raw.bits_length]; exact h.1.1

/-- The search from the mark `e` bits behind the first one, none of those before being the header. -/
theorem headerLoop_spec (h10 : 10 ≤ 8 * raw.size) {q0 : Nat} (h0 : RingMark 10 raw.bits q0)
    (hs : gcrFindSync raw 0 (raw.size * 8) = .ok q0) (fuel : Nat) {e : Nat}
    (hq : RingMark 10 raw.bits (raw.behind q0 e)) (he : e < 8 * raw.size)
    (hnone : ∀ j ≤ e, ¬ HeaderAt raw sector (raw.behind q0 j)) (hfuel : 8 * raw.size ≤ e + fuel) :
    SearchEnd raw sector (gcrFindSectorHeader.loop raw sector fuel (raw.behind q0 e) (.ok q0)) := by
  have hlen : raw.bits.length = 8 * raw.size := raw.bits_length
  have hq0 : q0 < 8 * raw.size := by rw [← hlen]; exact h0.1
  induction fuel generalizing e with
  | zero => omega
  | succ fuel ih =>
    rw [gcrFindSectorHeader.loop]
    rcases findSync_around hq h10 with ⟨d, hd, hdN, hf, hm, hbetween⟩ | ⟨hf, hone⟩
    · rw [behind_behind] at hf hm
      simp only [behind_behind] at hbetween
      simp only [hf]
      -- no mark lies between this one and the next, so no header does
      have hskip : ∀ j, e < j → j < e + d → ¬ HeaderAt raw sector (raw.behind q0 j) := by
        intro j hej hjd hh
        refine hbetween (j - e) (by omega) (by omega) ?_
        rw [show e + (j - e) = j by omega]
        exact hh.1
      rcases Nat.lt_trichotomy (e + d) (8 * raw.size) with hlt | heq | hgt
      · have hne : q0 ≠ raw.behind q0 (e + d) := by
          intro heq
          have := behind_inj (by omega) hlt ((behind_zero hq0).trans heq)
          omega
        rw [if_neg (by simpa using hne)]
        by_cases hmatch : (gcrDecodeBlock raw (raw.behind q0 (e + d)) 1).getD 0 0 = 0x08 ∧
            (gcrDecodeBlock raw (raw.behind q0 (e + d)) 1).getD 2 0 = sector
        · rw [if_pos hmatch]
          refine .found hs hlt ⟨hm, hmatch⟩ fun j hj => ?_
          rcases Nat.lt_or_ge e j with hej | hej
          · exact hskip j hej hj
          · exact hnone j hej
        · rw [if_neg hmatch]
          refine ih hm hlt (fun j hj => ?_) (by omega)
          rcases Nat.lt_or_ge e j with hej | hej
          · rcases Nat.lt_or_ge j (e + d) with hjd | hjd
            · exact hskip j hej hjd
            · rw [show j = e + d by omega]
              exact fun hh => hmatch hh.2
          · exact hnone j hej
      · -- back at the first mark
        have hback : raw.behind q0 (e + d) = q0 := by
          unfold DiskTrack.behind
          rw [heq, Nat.add_mod_right, Nat.mod_eq_of_lt hq0]
        rw [hback, if_pos rfl]
        refine .noHeader hs (fun q hh => ?_) hq ?_
        · obtain ⟨j, hj, rfl⟩ := exists_behind hq0 hh.lt
          rcases Nat.lt_or_ge e j with hej | hej
          · exact hskip j hej (by omega) hh
          · exact hnone j hej hh
        · intro hq0'
          have := behind_inj he (by omega) (hq0'.trans (behind_zero hq0).symm)
          omega
      · refine absurd ?_ (hbetween (8 * raw.size - e) (by omega) (by omega))
        rw [show e + (8 * raw.size - e) = 8 * raw.size by omega]
        unfold DiskTrack.behind
        rwa [Nat.add_mod_right, Nat.mod_eq_of_lt hq0]
    · have hq0q := hone q0 h0
      simp only [hf]
      rw [if_neg (by simp)]
      refine .lone hs (fun q hh => ?_) (fun q hm => (hone q hm).trans hq0q.symm)
      rw [hone q hh.1] at hh
      exact hnone e (Nat.le_refl e) hh

theorem gcrFindSectorHeader_end (raw : DiskTrack) (sector : UInt8) :
    SearchEnd raw sector (gcrFindSectorHeader raw sector) := by
  unfold gcrFindSectorHeader
  rw [gcrFindSectorHeader.loop]
  cases hf : gcrFindSync raw 0 (raw.size * 8) with
  | error e =>
    have hsync : e = .sync := by
      rcases Nat.eq_zero_or_pos raw.size with h0 | hpos
      · unfold gcrFindSync at hf
        rw [if_pos h0] at hf
        cases hf
        rfl
      · rcases @findSync_spec raw 0 (by omega) (raw.size * 8) with
          ⟨i, -, -, he⟩ | ⟨-, he⟩
        · rw [hf] at he
          cases he
        · rw [hf] at he
          cases he
          rfl
    subst hsync
    exact .noSync hf
  | ok q0 =>
    have hpos : 0 < raw.size := by
      by_contra h0
      unfold gcrFindSync at hf
      rw [if_pos (by omega)] at hf
      cases hf
    have h10 : 10 ≤ 8 * raw.size := by
      by_contra hlt
      rw [findSync_short (by omega) (by omega)] at hf
      cases hf
    obtain ⟨i, -, -, hqi, hm, -⟩ := findSync_ok h10 (by omega) hf
    have hq0 : q0 < 8 * raw.size := hqi ▸ behind_lt hpos 0 i
    have hz := behind_zero hq0
    simp only [reduceCtorEq, if_false]
    by_cases hmatch : (gcrDecodeBlock raw q0 1).getD 0 0 = 0x08 ∧
        (gcrDecodeBlock raw q0 1).getD 2 0 = sector
    · rw [if_pos hmatch]
      have hfound := SearchEnd.found hf (d := 0) (by omega) (by rw [hz]; exact ⟨hm, hmatch⟩)
        (fun j hj => absurd hj (Nat.not_lt_zero j))
      rwa [hz] at hfound
    · rw [if_neg hmatch]
      have hloop := headerLoop_spec h10 hm hf (8 * raw.size + 1) (e := 0) (by rwa [hz]) (by omega)
        (fun j hj hh => by
          rw [Nat.le_zero.mp hj, hz] at hh
          exact hmatch hh.2) (by omega)
      rwa [hz] at hloop

end Vice.L1.Gcr
