import Vice.L1Encoding.GcrWrite

/-!
# Reading back a sector that was written over

The block that `gcr_write_sector` stores holds no mark behind its first bit and ends with a zero. So
it makes no mark that was not there before, and the reader meets the marks that are left in the same
order: the header it looks for comes first again, and the same data block behind it.

Results:
* `Overwritten.ringMark`: the marks of the new track are marks of the old one.
* `Overwritten.headerAt`: and so are the headers.
* `Overwritten.find`: the search ends at the same header.
* `gcrWriteSector_readBack`: the round trip, with every other bit in place.
-/
namespace Vice.L1.Gcr
open Vice.L0.BitRun

/-- One of the 2600 bits from `p` on. -/
def InBlock (raw : DiskTrack) (p q : Nat) : Prop := ∃ k < 2600, raw.behind p k = q

/-- The bit `j + 1` bits in front of `q`. -/
def DiskTrack.before (raw : DiskTrack) (q j : Nat) : Nat := raw.behind q (8 * raw.size - 1 - j)

/-- The block at `p` leaves alone the header at `h` and the ten ones in front of each of them. -/
structure BlockApart (raw : DiskTrack) (h p : Nat) : Prop where
  header : ∀ j < 40, ¬ InBlock raw p (raw.behind h j)
  headerSync : ∀ j < 10, ¬ InBlock raw p (raw.before h j)
  dataSync : ∀ j < 10, ¬ InBlock raw p (raw.before p j)

section
variable {raw : DiskTrack} {sector : UInt8} {h p : Nat}

/-- The block lies behind the header, and there is room for it. -/
theorem DataBlock.room (hd : DataBlock raw sector h p) (ha : BlockApart raw h p) :
    ∃ d, p = raw.behind h d ∧ 40 ≤ d ∧ d < 500 * 8 ∧ d + 2610 ≤ 8 * raw.size ∧
      RingMark 10 raw.bits p ∧ ∀ j, 10 ≤ j → j < d → ¬ RingMark 10 raw.bits (raw.behind h j) := by
  obtain ⟨hat, h10⟩ := hd.headerAt
  have hN := hat.lt
  obtain ⟨d, hd10, hd4000, hp, hm, hfirst⟩ := findSync_ok h10 hN hd.2
  have hback : raw.behind h (8 * raw.size) = h := by
    unfold DiskTrack.behind
    rw [Nat.add_mod_right, Nat.mod_eq_of_lt hN]
  -- a walk of more than a turn would have met the header again
  have hdN : d < 8 * raw.size := by
    by_contra hge
    rcases Nat.lt_or_eq_of_le (Nat.le_of_not_lt hge) with hlt | heq
    · refine hfirst (8 * raw.size) h10 hlt ?_
      rw [hback]
      exact hat.1
    · refine ha.header 0 (by omega) ⟨0, by omega, ?_⟩
      rw [behind_zero hd.lt, behind_zero hN, hp, ← heq, hback]
  refine ⟨d, hp, ?_, hd4000, ?_, hm, hfirst⟩
  · by_contra hlt
    exact ha.header d (by omega) ⟨0, by omega, by rw [behind_zero hd.lt, hp]⟩
  · by_contra hlt
    have hin : ∀ j, j < 10 → j < 8 * raw.size - d → 8 * raw.size - 1 - j - d < 2600 → False := by
      intro j hj hjd hk
      refine ha.headerSync j hj ⟨8 * raw.size - 1 - j - d, hk, ?_⟩
      unfold DiskTrack.before
      rw [hp, behind_behind, show d + (8 * raw.size - 1 - j - d) = 8 * raw.size - 1 - j by omega]
    by_cases hnear : d + 10 ≤ 8 * raw.size
    · exact hin 9 (by omega) (by omega) (by omega)
    · exact hin (8 * raw.size - 1 - d) (by omega) (by omega) (by omega)

end

/-! ## The new track -/

/-- The track `raw'` is `raw` with the coded block `c` at `p`. -/
structure Overwritten (raw raw' : DiskTrack) (p : Nat) (c : List Bool) : Prop where
  size : raw'.size = raw.size
  bits : ∀ k < 8 * raw.size, ring raw'.bits (p + k) =
    if k < 2600 then c.getD k false else ring raw.bits (p + k)

/-- A block with no mark behind its first bit, which is a zero as its last one is. -/
structure QuietBlock (c : List Bool) : Prop where
  length : c.length = 2600
  first : c.getD 0 false = false
  last : c.getD 2599 false = false
  quiet : ∀ k, 0 < k → k < 2600 → c.getD k false = false →
    ∃ j < 10, j < k ∧ c.getD (k - 1 - j) false = false

theorem dataBlock_quiet {data : Bytes} (hlen : data.length = 256) :
    QuietBlock (byteCodes (dataBytes data .ok)) := by
  have hl : (byteCodes (dataBytes data .ok)).length = 2600 := by
    rw [byteCodes_length, dataBytes_length hlen]
  obtain ⟨c, hc, hquiet, -⟩ := block_quiet (b := 0x07) (by decide)
    (data ++ [data.foldl (· ^^^ ·) 0x00, 0, 0])
  have hc' : byteCodes (dataBytes data .ok) = false :: c := hc
  refine ⟨hl, by rw [hc']; rfl, ?_, fun k hk0 hk hbit => ?_⟩
  · have hsplit : dataBytes data .ok = (0x07 :: data ++ [data.foldl (· ^^^ ·) 0x00, 0]) ++ [0] := by
      simp [dataBytes]
    have hfront : (byteCodes (0x07 :: data ++ [data.foldl (· ^^^ ·) 0x00, 0])).length = 2590 := by
      rw [byteCodes_length]
      simp [hlen]
    rw [hsplit, byteCodes, List.flatMap_append, ← byteCodes, List.getD_append_right _ _ _ _ (by omega),
      hfront]
    rfl
  · obtain ⟨k, rfl⟩ : ∃ n, k = n + 1 := ⟨k - 1, by omega⟩
    rw [hc', List.getD_cons_succ] at hbit
    rw [hc'] at hl ⊢
    simp only [List.length_cons] at hl
    by_cases hnear : k < 10
    · exact ⟨k, hnear, by omega, by rw [show k + 1 - 1 - k = 0 by omega]; rfl⟩
    · -- ten ones in front of the zero would be a mark
      by_contra hnone
      simp only [not_exists, not_and] at hnone
      refine hquiet k ⟨?_, (le_runAfter_zero_iff _ _).mpr ⟨?_, fun j hj => ?_⟩⟩
      · rw [List.getD_eq_getElem?_getD, List.getElem?_eq_getElem (by omega)] at hbit
        rw [List.getElem?_eq_getElem (by omega)]
        exact congrArg some hbit
      · rw [List.length_take]
        omega
      · have hone := hnone j hj (by omega)
        rw [show k + 1 - 1 - j = k - 1 - j + 1 by omega, List.getD_cons_succ, Bool.not_eq_false,
          List.getD_eq_getElem?_getD, List.getElem?_eq_getElem (by omega)] at hone
        rw [List.length_take, Nat.min_eq_left (by omega), List.getElem?_take_of_lt (by omega),
          List.getElem?_eq_getElem (by omega)]
        exact congrArg some hone

/-- The bits in front of a position, counted from `p`. -/
theorem ring_before (t : DiskTrack) {p k j : Nat} (hk : j + 1 ≤ k) (hj : j + 1 ≤ 8 * t.size) :
    ring t.bits (t.behind p k + t.bits.length - 1 - j) = ring t.bits (p + (k - 1 - j)) := by
  rw [← ring_mod, ← ring_mod t.bits (p + (k - 1 - j)), t.bits_length]
  congr 1
  unfold DiskTrack.behind
  have e := Nat.mod_add_div (p + k) (8 * t.size)
  have e2 : p + (k - 1 - j) + 8 * t.size =
      ((p + k) % (8 * t.size) + 8 * t.size - 1 - j) + 8 * t.size * ((p + k) / (8 * t.size)) := by
    omega
  rw [← Nat.add_mod_right (p + (k - 1 - j)), e2, Nat.add_mul_mod_self_left]

/-- A mark `k` bits behind `p`, told by the bits from `p` on. -/
theorem ringMark_behind {t : DiskTrack} {p k : Nat} (hk : 10 ≤ k) (h10 : 10 ≤ 8 * t.size) :
    RingMark 10 t.bits (t.behind p k) ↔
      ring t.bits (p + k) = false ∧ ∀ j < 10, ring t.bits (p + (k - 1 - j)) = true := by
  have hat : ring t.bits (t.behind p k) = ring t.bits (p + k) := by
    unfold DiskTrack.behind
    rw [← t.bits_length, ring_mod]
  constructor
  · rintro ⟨-, h0, h1⟩
    exact ⟨hat ▸ h0, fun j hj => by rw [← ring_before t (by omega) (by omega)]; exact h1 j hj⟩
  · rintro ⟨h0, h1⟩
    refine ⟨by rw [t.bits_length]; exact behind_lt (by omega) _ _, hat ▸ h0, fun j hj => ?_⟩
    rw [ring_before t (by omega) (by omega)]
    exact h1 j hj

/-- A header block is told by the forty bits from its mark on. -/
theorem decode_congr {raw raw' : DiskTrack} {q : Nat} (hsize : raw'.size = raw.size)
    (hq : q < 8 * raw.size) (hw : window raw'.bits q 40 = window raw.bits q 40) :
    gcrDecodeBlock raw' q 1 = gcrDecodeBlock raw q 1 := by
  obtain ⟨h1, -⟩ := @decodeBytes_spec raw (q % 8) (Nat.mod_lt _ (by decide)) 5 (q / 8) (by omega)
  rw [Nat.div_add_mod, ← hw] at h1
  rw [gcrDecodeBlock_one _ (hsize ▸ hq) h1.symm]
  unfold gcrDecodeBlock
  simp only [gcrDecodeBlock.loop, List.append_nil]
  rfl

section
variable {raw raw' : DiskTrack} {sector : UInt8} {h p d k q : Nat} {c : List Bool}

theorem Overwritten.behind (ho : Overwritten raw raw' p c) (q d : Nat) : raw'.behind q d = raw.behind q d := by
  unfold DiskTrack.behind
  rw [ho.size]

/-- Behind the block, the bits are the old ones. -/
theorem Overwritten.old (ho : Overwritten raw raw' p c) (hk : 2600 ≤ k) (hkN : k < 8 * raw.size) :
    ring raw'.bits (p + k) = ring raw.bits (p + k) := by
  rw [ho.bits k hkN, if_neg (by omega)]

theorem Overwritten.ringMark_old (ho : Overwritten raw raw' p c) (hk : 2610 ≤ k) (hkN : k < 8 * raw.size) :
    RingMark 10 raw'.bits (raw.behind p k) ↔ RingMark 10 raw.bits (raw.behind p k) := by
  rw [← ho.behind, ringMark_behind (by omega) (by rw [ho.size]; omega), ho.behind,
    ringMark_behind (by omega) (by omega), ho.old (by omega) hkN]
  refine and_congr_right fun _ => forall_congr' fun j => imp_congr_right fun hj => ?_
  rw [ho.old (by omega) (by omega)]

/-- The block's first bit is a mark as before. -/
theorem Overwritten.ringMark_first (ho : Overwritten raw raw' p c) (hc : QuietBlock c)
    (hN : 2610 ≤ 8 * raw.size) (hm : RingMark 10 raw.bits p) : RingMark 10 raw'.bits p := by
  have hp : p < 8 * raw.size := by rw [← raw.bits_length]; exact hm.1
  refine ⟨by rw [raw'.bits_length, ho.size]; exact hp, ?_, fun j hj => ?_⟩
  · have h0 := ho.bits 0 (by omega)
    rwa [Nat.add_zero, if_pos (by omega), hc.first] at h0
  · have hold := hm.2.2 j hj
    rw [raw.bits_length] at hold
    rw [raw'.bits_length, ho.size, show p + 8 * raw.size - 1 - j = p + (8 * raw.size - 1 - j) by omega,
      ho.old (by omega) (by omega), ← hold]
    congr 1
    omega

/-- The marks of the new track were there before: none is in the block or right behind it. -/
theorem Overwritten.ringMark (ho : Overwritten raw raw' p c) (hc : QuietBlock c)
    (hN : 2610 ≤ 8 * raw.size) (hm : RingMark 10 raw.bits p) (hq : RingMark 10 raw'.bits q) :
    q = p ∨ ∃ k, 2610 ≤ k ∧ k < 8 * raw.size ∧ q = raw.behind p k ∧ RingMark 10 raw.bits q := by
  have hp : p < 8 * raw.size := by rw [← raw.bits_length]; exact hm.1
  have hqN : q < 8 * raw.size := by rw [← ho.size, ← raw'.bits_length]; exact hq.1
  obtain ⟨k, hkN, rfl⟩ := exists_behind hp hqN
  by_cases hk : 2610 ≤ k
  · exact Or.inr ⟨k, hk, hkN, rfl, (ho.ringMark_old hk hkN).mp hq⟩
  · left
    -- a bit `j + 1` in front of it is a one
    have hones : ∀ j < 10, j < k → ring raw'.bits (p + (k - 1 - j)) = true := by
      intro j hj hjk
      have := hq.2.2 j hj
      rwa [← ho.behind, ring_before raw' (by omega) (by rw [ho.size]; omega)] at this
    by_cases h0 : k = 0
    · rw [h0, behind_zero hp]
    · exfalso
      by_cases hin : k < 2600
      · have hbit : ring raw'.bits (p + k) = false := by
          rw [← ring_mod, raw'.bits_length, ho.size]
          exact hq.2.1
        rw [ho.bits k hkN, if_pos hin] at hbit
        obtain ⟨j, hj, hjk, hzero⟩ := hc.quiet k (by omega) hin hbit
        have := hones j hj hjk
        rw [ho.bits _ (by omega), if_pos (by omega), hzero] at this
        cases this
      · have := hones (k - 2600) (by omega) (by omega)
        rw [show k - 1 - (k - 2600) = 2599 by omega, ho.bits _ (by omega), if_pos (by omega),
          hc.last] at this
        cases this

theorem Overwritten.window_old (ho : Overwritten raw raw' p c) {n : Nat} (hk : 2600 ≤ k)
    (hkN : k + n ≤ 8 * raw.size) :
    window raw'.bits (raw.behind p k) n = window raw.bits (raw.behind p k) n := by
  have hmod : ∀ t : DiskTrack, t.size = raw.size →
      window t.bits (raw.behind p k) n = window t.bits (p + k) n := by
    intro t ht
    unfold DiskTrack.behind
    rw [← ht, ← t.bits_length, window_mod]
  rw [hmod raw' ho.size, hmod raw rfl]
  unfold window
  apply List.map_congr_left
  intro i hi
  have := List.mem_range.mp hi
  rw [Nat.add_assoc, ho.old (by omega) (by omega)]

/-- A header of the new track was one before, if the block is not one itself. -/
theorem Overwritten.headerAt (ho : Overwritten raw raw' p c) (hc : QuietBlock c)
    (hN : d + 2610 ≤ 8 * raw.size) (hm : RingMark 10 raw.bits p) (hh : RingMark 10 raw.bits h)
    (hp : p = raw.behind h d) (hd : 40 ≤ d)
    (hfirst : ∀ j, 10 ≤ j → j < d → ¬ RingMark 10 raw.bits (raw.behind h j))
    (hblock : ¬ HeaderAt raw' sector p) (hq : HeaderAt raw' sector q) : HeaderAt raw sector q := by
  rcases ho.ringMark hc (by omega) hm hq.1 with rfl | ⟨k, hk, hkN, rfl, hold⟩
  · exact absurd hq hblock
  · -- its forty bits end in front of the block, as no mark lies between `h` and `p`
    have hend : k + 40 ≤ 8 * raw.size := by
      by_contra hlt
      have hback : raw.behind p k = raw.behind h (d - (8 * raw.size - k)) := by
        rw [hp, behind_behind]
        unfold DiskTrack.behind
        rw [show h + (d + k) = h + (d - (8 * raw.size - k)) + 8 * raw.size by omega,
          Nat.add_mod_right]
      rw [hback] at hold
      exact hfirst _ (ringMark_apart (by omega) hh (by omega) hold) (by omega) hold
    have hlt : raw.behind p k < 8 * raw.size := behind_lt (by omega) p k
    refine ⟨hold, ?_⟩
    rw [← decode_congr ho.size hlt (ho.window_old (by omega) hend)]
    exact hq.2

/-- The header that was found is still there. -/
theorem Overwritten.headerAt_old (ho : Overwritten raw raw' p c) (hN : d + 2610 ≤ 8 * raw.size)
    (hp : p = raw.behind h d) (hd : 40 ≤ d) (hh : HeaderAt raw sector h) :
    HeaderAt raw' sector h := by
  have hback : h = raw.behind p (8 * raw.size - d) := by
    rw [hp, behind_behind, show d + (8 * raw.size - d) = 8 * raw.size by omega]
    unfold DiskTrack.behind
    rw [Nat.add_mod_right, Nat.mod_eq_of_lt hh.lt]
  rw [hback] at hh ⊢
  refine ⟨(ho.ringMark_old (by omega) (by omega)).mpr hh.1, ?_⟩
  rw [decode_congr ho.size hh.lt (ho.window_old (by omega) (by omega))]
  exact hh.2

/-- The search finds the same header: what comes before it on the new track came before it on the
old one. -/
theorem Overwritten.find (ho : Overwritten raw raw' p c) (hc : QuietBlock c)
    (hN : d + 2610 ≤ 8 * raw.size) (hm : RingMark 10 raw.bits p)
    (hp : p = raw.behind h d) (hd : 40 ≤ d)
    (hfirst : ∀ j, 10 ≤ j → j < d → ¬ RingMark 10 raw.bits (raw.behind h j))
    (hblock : ¬ HeaderAt raw' sector p) (hf : gcrFindSectorHeader raw sector = some (.ok h)) :
    gcrFindSectorHeader raw' sector = some (.ok h) := by
  have h10 : 10 ≤ 8 * raw.size := by omega
  have hend := gcrFindSectorHeader_end raw sector
  rw [hf] at hend
  cases hend with
  | @found q0 e hs he hat hbefore =>
    obtain ⟨i, hi10, hiN, hq0, hmq0, hsee⟩ := findSync_ok h10 (by omega) hs
    have hhead : HeaderAt raw' sector (raw.behind q0 e) := ho.headerAt_old hN hp hd hat
    have hmp : RingMark 10 raw'.bits p := ho.ringMark_first hc (by omega) hm
    have hsize := ho.size
    have h10' : 10 ≤ 8 * raw'.size := by omega
    have hhN := hhead.lt
    have hz : ∀ t : DiskTrack, t.size = raw.size → ∀ x < 8 * raw.size, t.behind 0 x = x := by
      intro t ht x hx
      unfold DiskTrack.behind
      rw [Nat.zero_add, ht, Nat.mod_eq_of_lt hx]
    have hend' := gcrFindSectorHeader_end raw' sector
    generalize gcrFindSectorHeader raw' sector = r at hend'
    cases hend' with
    | noHeader _ hnone _ _ => exact absurd hhead (hnone _)
    | lone _ hnone _ => exact absurd hhead (hnone _)
    | noSync hs' =>
      -- the header's mark and the block's would both be out of sight
      have hnone := (findSync_error h10' (by omega) hs').2
      have hseen : ∀ x, RingMark 10 raw'.bits x → x < 10 := by
        intro x hx
        by_contra hlt
        have hxN : x < 8 * raw.size := by rw [← hsize, ← raw'.bits_length]; exact hx.1
        exact hnone x (by omega) (by omega) (by rwa [hz raw' hsize x hxN])
      have hh10 := hseen _ hhead.1
      have hp10 := hseen _ hmp
      rw [hp] at hp10
      generalize raw.behind q0 e = h at hh10 hp10
      unfold DiskTrack.behind at hp10
      rw [Nat.mod_eq_of_lt (by omega)] at hp10
      omega
    | @found q0' e' hs' he' hat' hbefore' =>
      obtain ⟨i', hi10', hiN', hq0', hmq0', hsee'⟩ := findSync_ok h10' (by omega) hs'
      rw [hz raw (by rfl) i (by omega)] at hq0
      rw [hz raw' hsize i' (by omega)] at hq0'
      subst hq0 hq0'
      -- the first mark in sight is an old one, so the old first one is not behind it
      have hle : q0 ≤ q0' := by
        by_contra hlt
        refine hsee q0' hi10' (by omega) ?_
        rw [hz raw rfl q0' (by omega)]
        rcases ho.ringMark hc (by omega) hm hmq0' with heq | ⟨-, -, -, -, hold⟩
        · rwa [heq]
        · exact hold
      have hold := ho.headerAt hc hN hm hat.1 hp hd hfirst hblock hat'
      rw [ho.behind] at hold hat' ⊢
      obtain ⟨f, hf, hxf⟩ := @exists_behind raw _ q0 (by omega) hold.lt
      obtain ⟨g, hg, hhg⟩ := @exists_behind raw _ q0' (by omega) hat.lt
      have hef : e ≤ f := by
        by_contra hlt
        exact hbefore f (by omega) (by rwa [hxf])
      have heg : e' ≤ g := by
        by_contra hlt
        exact hbefore' g (by omega) (by rwa [ho.behind, hhg])
      have hsame : raw.behind q0' e' = raw.behind q0 e := by
        by_contra hne
        have hwrap : ∀ {q x : Nat}, q < 8 * raw.size → x < 8 * raw.size →
            q + x < 8 * raw.size ∧ raw.behind q x = q + x ∨
              8 * raw.size ≤ q + x ∧ raw.behind q x = q + x - 8 * raw.size := by
          intro q x hq hx
          have hmod : raw.behind q x = _ := wrap_add hq (Nat.le_of_lt hx)
          split at hmod <;> omega
        have hbetween : raw.behind q0 e < q0' ∧ 10 ≤ raw.behind q0 e := by
          have := hwrap (q := q0) (by omega) hf
          have := hwrap (q := q0) (by omega) he
          have := hwrap (q := q0') (by omega) hg
          have := hwrap (q := q0') (x := e') (by omega) (by omega)
          omega
        refine hsee' _ hbetween.2 hbetween.1 ?_
        rw [hz raw' hsize _ hat.lt]
        exact hhead.1
      rw [hsame]

/-- And the same data block behind it. -/
theorem Overwritten.findSync (ho : Overwritten raw raw' p c) (hc : QuietBlock c)
    (hN : d + 2610 ≤ 8 * raw.size) (hh : h < 8 * raw.size) (hm : RingMark 10 raw.bits p)
    (hp : p = raw.behind h d) (hd : 40 ≤ d) (hnear : d < 500 * 8)
    (hfirst : ∀ j, 10 ≤ j → j < d → ¬ RingMark 10 raw.bits (raw.behind h j)) :
    gcrFindSync raw' h (500 * 8) = .ok p := by
  have hsize := ho.size
  have h10' : 10 ≤ 8 * raw'.size := by omega
  have hmp : RingMark 10 raw'.bits (raw'.behind h d) := by
    rw [ho.behind, ← hp]
    exact ho.ringMark_first hc (by omega) hm
  cases hf : gcrFindSync raw' h (500 * 8) with
  | error e => exact absurd hmp ((findSync_error h10' (by omega) hf).2 d (by omega) hnear)
  | ok x =>
    obtain ⟨i, hi10, -, rfl, hmx, hbefore⟩ := findSync_ok h10' (by omega) hf
    have hid : i ≤ d := by
      by_contra hlt
      exact hbefore d (by omega) (by omega) hmp
    rw [ho.behind] at hmx ⊢
    rcases ho.ringMark hc (by omega) hm hmx with heq | ⟨-, -, -, -, hold⟩
    · rw [heq]
    · by_cases heq : i = d
      · rw [heq, hp]
      · exact absurd hold (hfirst i hi10 (by omega))

end

/-! ## The round trip -/

/-- The 2600 bits of the new block, as the reader takes them. -/
theorem Overwritten.block {raw raw' : DiskTrack} {p : Nat} {c : List Bool}
    (ho : Overwritten raw raw' p c) (hc : c.length = 2600) (hN : 2600 ≤ 8 * raw.size) :
    window raw'.bits p 2600 = c := by
  apply List.ext_getElem (by rw [window_length, hc])
  intro i hi _
  rw [window_length] at hi
  simp only [window, List.getElem_map, List.getElem_range]
  rw [ho.bits i (by omega), if_pos hi, List.getD_eq_getElem?_getD, List.getElem?_eq_getElem (by omega)]
  rfl

/-- A write that went well had a data block to write to. -/
theorem gcrWriteSector_dataBlock {raw raw' : DiskTrack} {data : Bytes} {sector : UInt8}
    (hw : gcrWriteSector raw data sector = some (.ok, raw')) : ∃ h p, DataBlock raw sector h p := by
  unfold gcrWriteSector at hw
  have hend := gcrFindSectorHeader_end raw sector
  generalize hf : gcrFindSectorHeader raw sector = r at hw hend
  cases hend with
  | noSync _ => cases hw
  | noHeader _ _ _ _ => cases hw
  | lone _ _ _ => cases hw
  | @found q0 e hs _ hat _ =>
    simp only at hw
    cases hs : gcrFindSync raw (raw.behind q0 e) (500 * 8) with
    | ok p => exact ⟨_, p, hf, hs⟩
    | error e' =>
      rw [hs] at hw
      have hsync : e' = .sync := by
        rcases findSync_spec hat.lt (500 * 8) with ⟨_, -, -, he⟩ | ⟨-, he⟩ <;>
          rw [hs] at he <;> cases he
        rfl
      subst hsync
      cases hw

/-- mirrors src/gcr.c:263-346: what was written reads back, and no bit outside of the block that lies
behind the data sync has changed. -/
theorem gcrWriteSector_readBack {raw raw' : DiskTrack} {data : Bytes} {sector : UInt8} (out : Bytes)
    (hlen : data.length = 256) (hw : gcrWriteSector raw data sector = some (.ok, raw'))
    (ha : ∀ h p, DataBlock raw sector h p → BlockApart raw h p) :
    gcrReadSector raw' out sector = some (.ok, data) ∧ raw'.size = raw.size ∧
      ∃ h p, DataBlock raw sector h p ∧
        ∀ i < 8 * raw.size, ¬ InBlock raw p i → ring raw'.bits i = ring raw.bits i := by
  obtain ⟨h, p, hd⟩ := gcrWriteSector_dataBlock hw
  obtain ⟨d, hp, hd40, hnear, hN, hm, hfirst⟩ := hd.room (ha h p hd)
  obtain ⟨hsize, hbits⟩ := gcrWriteSector_bits hlen hd hw (by omega)
  have ho : Overwritten raw raw' p (byteCodes (dataBytes data .ok)) := ⟨hsize, hbits⟩
  have hc := dataBlock_quiet hlen
  have hpN := hd.lt
  have hdec : gcrDecodeBlock raw' p 65 = dataBytes data .ok := by
    have h4 := dataBytes_length hlen .ok
    refine gcrDecodeBlock_eq (by omega) h4 ?_
    rw [toBits_encode 65 h4]
    exact ho.block hc.length (by omega)
  have hblock : ¬ HeaderAt raw' sector p := by
    intro hat
    refine dataBytes_not_header data .ok ?_
    rw [← hdec, gcrDecodeBlock_first]
    exact hat.2.1
  have hfind := ho.find hc hN hm hp hd40 hfirst hblock hd.1
  have hsync := ho.findSync hc hN hd.headerAt.1.lt hm hp hd40 hnear hfirst
  obtain ⟨hout, hchk⟩ := read_dataBytes hlen .ok
  refine ⟨?_, hsize, h, p, hd, fun i hi hout => ?_⟩
  · unfold gcrReadSector
    rw [hfind]
    simp only [hsync, hdec, hout, hchk, checksum_left]
    rfl
  · obtain ⟨k, hk, rfl⟩ := exists_behind hpN hi
    have hk' : 2600 ≤ k := by
      by_contra hlt
      exact hout ⟨k, by omega, rfl⟩
    have hmod : ∀ t : DiskTrack, t.size = raw.size →
        ring t.bits (raw.behind p k) = ring t.bits (p + k) := by
      intro t ht
      unfold DiskTrack.behind
      rw [← ht, ← t.bits_length, ring_mod]
    rw [hmod raw' hsize, hmod raw rfl]
    exact ho.old hk' hk

/-- A header for sector 3, a gap and a data sync with nothing coded behind it. -/
def blankTrack : DiskTrack :=
  ⟨List.replicate 5 0xff ++ encode [0x08, 0x12, 3, 18, 0x41, 0x42, 0x0f, 0x0f] ++
    List.replicate 9 0x55 ++ List.replicate 5 0xff ++ List.replicate 330 0x55⟩

theorem blankTrack_block : DataBlock blankTrack 3 40 232 := by
  constructor <;> decide +kernel

theorem gcrWriteSector_readBack_blank :
    ∃ raw', gcrWriteSector blankTrack (List.replicate 256 0xa5) 3 = some (.ok, raw') ∧
      gcrReadSector raw' [] 3 = some (.ok, List.replicate 256 0xa5) ∧
      ring raw'.bits 231 = ring blankTrack.bits 231 := by
  have hsize : blankTrack.size = 359 := by decide +kernel
  obtain ⟨hfind, hsync⟩ := blankTrack_block
  have hw : ∃ raw', gcrWriteSector blankTrack (List.replicate 256 0xa5) 3 = some (.ok, raw') := by
    unfold gcrWriteSector
    rw [hfind]
    simp only [hsync]
    exact ⟨_, rfl⟩
  obtain ⟨raw', hw⟩ := hw
  have hone : ∀ h p, DataBlock blankTrack 3 h p → h = 40 ∧ p = 232 := by
    intro h p hd
    have hh : h = 40 := by
      have := hfind.symm.trans hd.1
      cases this
      rfl
    subst hh
    have := hsync.symm.trans hd.2
    cases this
    exact ⟨rfl, rfl⟩
  have ha : BlockApart blankTrack 40 232 := by
    refine ⟨?_, ?_, ?_⟩ <;> rintro j hj ⟨k, hk, hjk⟩ <;>
      simp only [DiskTrack.behind, DiskTrack.before, hsize] at hjk <;> omega
  obtain ⟨hread, -, h, p, hd, hkeep⟩ := gcrWriteSector_readBack [] (List.length_replicate) hw
    (fun h p hd => by obtain ⟨rfl, rfl⟩ := hone h p hd; exact ha)
  obtain ⟨rfl, rfl⟩ := hone h p hd
  refine ⟨raw', hw, hread, hkeep 231 (by omega) ?_⟩
  rintro ⟨k, hk, hjk⟩
  simp only [DiskTrack.behind, hsize] at hjk
  omega

end Vice.L1.Gcr
