import Vice.L3Drive.Bam

/-!
# What allocating and freeing do to the BAM

`entryOf` is the counted bitmap that holds a sector's bit, read off the view of the
BAM. Allocating a sector takes its bit from that entry, freeing gives it back; if the
entry is inside the BAM, nothing else changes.

Results:
* `vdriveBamGetTrackEntry_ok`: the pointer the code computes is that of `trackEntry`.
* `vdriveBamAllocateSector_ok`, `vdriveBamFreeSector_ok`: the effect on the view.
-/
namespace Vice.L3.BamEntry
open Vice.L0.Bitmap Vice.L2.Geometry Vice.L3.Disk Vice.L3.Drive Vice.L3.Bam

def lookupEntry (entry : Nat → Nat) (track : Nat) (bytes : Store) : List Nat → Option Nat
  | [] => none
  | i :: is =>
    let first := (bytes (i * 256 + 4)).toNat
    if track ≥ first ∧ track < (bytes (i * 256 + 5)).toNat then
      some (i * 256 + entry (track - first))
    else lookupEntry entry track bytes is

/-- The blocks that `vdrive_bam_get_track_entry` searches. -/
def searched (v : Vdrive) : List Nat :=
  match v.imageFormat with
  | .f8050 | .f8250 => (List.range' 1 4).filter fun i => v.bamTracks i > 0
  | .f9000 => List.range' 1 (bamBlocks v - 1)
  | _ => []

/-- The pointer to a track's entry. -/
def trackEntry (v : Vdrive) (bytes : Store) (track sector : Nat) : Option Nat :=
  if track = 0 ∧ v.imageFormat ≠ .f9000 then none
  else match v.imageFormat with
  | .f1541 | .f2040 => some (if track ≤ 35 then 4 + 4 * (track - 1) else 192 + 4 * (track - 36))
  | .f1571 => some (if track ≤ 35 then 4 + 4 * (track - 1) else 0x100 + 3 * (track - 36) - 1)
  | .f1581 => some (if track ≤ 40 then 0x110 + 6 * (track - 1) else 0x210 + 6 * (track - 41))
  | .f8050 | .f8250 => lookupEntry (fun d => 6 + 5 * d) track bytes (searched v)
  | .np => some (0x120 + 32 * (track - 1) - 1)
  | .f9000 =>
    lookupEntry (fun d => 16 + 5 * (d * (v.image.shape.sectors / 32) + sector / 32)) track bytes
      (searched v)
  | _ => none

/-- The counted bitmap at a track's pointer. -/
def entryAt (v : Vdrive) (track bamp : Nat) : Entry :=
  match v.imageFormat with
  | .np => ⟨none, bamp + 1, 256⟩
  | .f9000 => ⟨some bamp, bamp + 1, 32⟩
  | .f1571 =>
    ⟨some (if track ≤ 35 then bamp else 221 + track - 36), bamp + 1, vdriveGetMaxSectors v track⟩
  | _ => ⟨some bamp, bamp + 1, vdriveGetMaxSectors v track⟩

def entryOf (v : Vdrive) (bytes : Store) (track sector : Nat) : Option Entry :=
  if track > 70 ∧ v.imageFormat = .f1571 then none
  else (trackEntry v bytes track sector).map (entryAt v track)

/-- The entry lies inside the BAM and leaves the links of a D9090/60 alone. -/
def Inside (v : Vdrive) (e : Entry) : Prop :=
  ∀ k, e.Has k → k / 256 < bamBlocks v ∧ (v.imageFormat = .f9000 → 2 ≤ k % 256)

section
variable {v w : Vdrive} {disk : Nat → Buf} {bytes : Store} {t s p : Nat} {e : Entry}

/-! ## The pointer -/

theorem findEntry_ok (entry : Nat → Nat) (track : Nat) (is : List Nat) (h : Mounted v disk)
    (his : ∀ i ∈ is, i < bamBlocks v) :
    ∃ w, findEntry entry track is v = (lookupEntry entry track (view v disk) is, w) ∧
      Loads disk v w := by
  induction is generalizing v with
  | nil => exact ⟨v, rfl, Loads.refl h⟩
  | cons i is ih =>
    obtain ⟨w, hw, hl, hstate⟩ := vdriveBamReadBamBlock_ok h (his i List.mem_cons_self)
    have h4 : w.bam (i * 256 + 4) = view v disk (i * 256 + 4) := by
      rw [← hl.view, view_loaded (by rw [block_div (by decide)]; exact hstate)]
    have h5 : w.bam (i * 256 + 5) = view v disk (i * 256 + 5) := by
      rw [← hl.view, view_loaded (by rw [block_div (by decide)]; exact hstate)]
    simp only [findEntry, lookupEntry, hw, ne_eq, not_true_eq_false, if_false, h4, h5]
    split
    · exact ⟨w, rfl, hl⟩
    · obtain ⟨u, hu, hlu⟩ := ih hl.mounted fun j hj => by
        rw [hl.same.blocks]
        exact his j (List.mem_cons_of_mem i hj)
      exact ⟨u, by rw [hu, hl.view], hl.trans hlu⟩

theorem searched_lt (h : Mounted v disk) : ∀ i ∈ searched v, i < bamBlocks v := by
  intro i hi
  have h8050 := h.size8050
  unfold searched at hi
  cases hf : v.imageFormat <;> simp only [hf] at hi <;> try cases hi
  case f8050 =>
    obtain ⟨hr, ht⟩ := List.mem_filter.mp hi
    have := List.mem_range'_1.mp hr
    exact h8050 (Or.inl hf) i (by omega) (of_decide_eq_true ht)
  case f8250 =>
    obtain ⟨hr, ht⟩ := List.mem_filter.mp hi
    have := List.mem_range'_1.mp hr
    exact h8050 (Or.inr hf) i (by omega) (of_decide_eq_true ht)
  case f9000 =>
    have := List.mem_range'_1.mp hi
    omega

theorem vdriveBamGetTrackEntry_ok (h : Mounted v disk) (t s : Nat) :
    ∃ w, vdriveBamGetTrackEntry v t s = (trackEntry v (view v disk) t s, w) ∧ Loads disk v w := by
  have hlt := searched_lt h
  have hsearch := fun entry => findEntry_ok entry t (searched v) h hlt
  unfold vdriveBamGetTrackEntry trackEntry
  by_cases h0 : t = 0 ∧ v.imageFormat ≠ .f9000
  · rw [if_pos h0, if_pos h0]
    exact ⟨v, rfl, Loads.refl h⟩
  · rw [if_neg h0, if_neg h0]
    unfold searched at hsearch ⊢
    cases hf : v.imageFormat <;> simp only [hf] at hsearch ⊢
    case f8050 | f8250 | f9000 => exact hsearch _
    all_goals exact ⟨v, rfl, Loads.refl h⟩

/-! ## Bits and counts -/

theorem vdriveBamIsset_ok (h : Mounted v disk) (hk : (p + 1 + s / 8) / 256 < bamBlocks v) :
    ∃ w, vdriveBamIsset v p s = (getBit (view v disk) (p + 1) s, w) ∧ Loads disk v w := by
  obtain ⟨w, hw, hl, hstate⟩ := vdriveBamReadBamBlock_ok h hk
  refine ⟨w, ?_, hl⟩
  unfold vdriveBamIsset
  simp only [hw]
  have hbyte : w.bam (p + 1 + s / 8) = view v disk (p + 1 + s / 8) := by
    rw [← hl.view, view_loaded hstate]
  rw [getBit_congr hbyte]

theorem vdriveBamClr_ok (h : Mounted v disk) (hk : (p + 1 + s / 8) / 256 < bamBlocks v)
    (h90 : v.imageFormat = .f9000 → 2 ≤ (p + 1 + s / 8) % 256) :
    Becomes disk v (vdriveBamClr v p s) (clrBit (view v disk) (p + 1) s) :=
  touch_poke h hk h90 (fun x => x &&& ~~~mask s)

theorem vdriveBamSet_ok (h : Mounted v disk) (hk : (p + 1 + s / 8) / 256 < bamBlocks v)
    (h90 : v.imageFormat = .f9000 → 2 ≤ (p + 1 + s / 8) % 256) :
    Becomes disk v (vdriveBamSet v p s) (setBit (view v disk) (p + 1) s) :=
  touch_poke h hk h90 (fun x => x ||| mask s)

theorem addCount_ok {k : Nat} (h : Mounted v disk) (hk : k / 256 < bamBlocks v)
    (h90 : v.imageFormat = .f9000 → 2 ≤ k % 256) (add : UInt8) :
    Becomes disk v (addCount v k add)
      (Function.update (view v disk) k (view v disk k + add)) :=
  touch_poke h hk h90 (fun x => x + add)

theorem vdriveBamSectorFree_ok (h : Mounted v disk) (hp : p / 256 < bamBlocks v)
    (hin : ∀ k, (entryAt v t p).count = some k → k / 256 < bamBlocks v ∧
      (v.imageFormat = .f9000 → 2 ≤ k % 256)) (add : UInt8) :
    Becomes disk v (vdriveBamSectorFree v p t add) ((entryAt v t p).addTo (view v disk) add) := by
  have hone : ∀ k, (entryAt v t p).count = some k → Becomes disk v (addCount v k add)
      (Function.update (view v disk) k (view v disk k + add)) :=
    fun k hk => addCount_ok h (hin k hk).1 (hin k hk).2 add
  have hformat := h.format
  unfold vdriveBamSectorFree Entry.addTo
  unfold entryAt at hone hin ⊢
  cases hf : v.imageFormat <;> simp only [hf] at hone hin ⊢
  case sys => exact absurd hf hformat.1
  case none => exact absurd hf hformat.2
  case np => exact Loads.refl h
  case f1571 =>
    by_cases ht : t ≤ 35
    · simp only [if_pos ht] at hone ⊢
      exact hone p rfl
    · -- the count is in another block than the bitmap, whose block is marked as well
      simp only [if_neg ht] at hin ⊢
      obtain ⟨hl, -⟩ := touch_ok h hp
      obtain ⟨hk, h90⟩ := hin _ rfl
      have hc := addCount_ok hl.mounted (hl.same.blocks ▸ hk)
        (fun h9 => by rw [hl.same.format, hf] at h9; cases h9) add
      rw [hl.view] at hc
      exact Becomes.trans hl hc
  all_goals exact hone p rfl

/-! ## Allocating and freeing -/

theorem entryAt_same (h : SameDisk v w) (t p : Nat) : entryAt w t p = entryAt v t p := by
  unfold entryAt vdriveGetMaxSectors
  rw [h]

theorem bitNumber_same (h : SameDisk v w) (s : Nat) : bitNumber w s = bitNumber v s := by
  unfold bitNumber
  rw [h]

theorem entryAt_bits (v : Vdrive) (t p : Nat) : (entryAt v t p).bits = p + 1 := by
  unfold entryAt
  split <;> rfl

/-- An entry inside the BAM has its pointer inside the BAM. -/
theorem Inside.pointer (h : Inside v (entryAt v t p)) (hs : s < (entryAt v t p).sectors) :
    p / 256 < bamBlocks v := by
  have := (h _ (Or.inr (Entry.inBits_bit hs))).1
  rw [entryAt_bits] at this
  omega

theorem vdriveBamAllocateSector_none (h : Mounted v disk) (he : entryOf v (view v disk) t s = none) :
    ∃ w, vdriveBamAllocateSector v t s = (false, w) ∧ Loads disk v w := by
  unfold entryOf at he
  unfold vdriveBamAllocateSector
  by_cases h71 : t > 70 ∧ v.imageFormat = .f1571
  · rw [if_pos h71]
    exact ⟨v, rfl, Loads.refl h⟩
  · rw [if_neg h71] at he ⊢
    obtain ⟨w, hw, hl⟩ := vdriveBamGetTrackEntry_ok h t s
    rw [Option.map_eq_none_iff.mp he] at hw
    simp only [hw]
    exact ⟨w, rfl, hl⟩

theorem vdriveBamFreeSector_none (h : Mounted v disk) (he : entryOf v (view v disk) t s = none) :
    ∃ w, vdriveBamFreeSector v t s = (false, w) ∧ Loads disk v w := by
  unfold entryOf at he
  unfold vdriveBamFreeSector
  by_cases h71 : t > 70 ∧ v.imageFormat = .f1571
  · rw [if_pos h71]
    exact ⟨v, rfl, Loads.refl h⟩
  · rw [if_neg h71] at he ⊢
    obtain ⟨w, hw, hl⟩ := vdriveBamGetTrackEntry_ok h t s
    rw [Option.map_eq_none_iff.mp he] at hw
    simp only [hw]
    exact ⟨w, rfl, hl⟩

/-- The pointer of a known entry. -/
theorem entryOf_pointer (he : entryOf v bytes t s = some e) : ¬ (t > 70 ∧ v.imageFormat = .f1571) ∧
      ∃ p, trackEntry v bytes t s = some p ∧ e = entryAt v t p := by
  unfold entryOf at he
  split at he
  · cases he
  · rename_i h71
    obtain ⟨p, hp, hpe⟩ := Option.map_eq_some_iff.mp he
    exact ⟨h71, p, hp, hpe.symm⟩

/-- Allocating takes the bit if it is set. -/
theorem vdriveBamAllocateSector_ok (h : Mounted v disk)
    (he : entryOf v (view v disk) t s = some e) (hin : Inside v e)
    (hs : bitNumber v s < e.sectors) :
    ∃ w, vdriveBamAllocateSector v t s = (getBit (view v disk) e.bits (bitNumber v s), w) ∧
      Becomes disk v w (if getBit (view v disk) e.bits (bitNumber v s) then
        e.take (view v disk) (bitNumber v s) else view v disk) := by
  obtain ⟨h71, p, hp, rfl⟩ := entryOf_pointer he
  obtain ⟨w, hw, hl⟩ := vdriveBamGetTrackEntry_ok h t s
  have hbit := hin _ (Or.inr (Entry.inBits_bit hs))
  have hpointer := hin.pointer hs
  rw [entryAt_bits] at hbit ⊢
  have hblocks := hl.same.blocks
  obtain ⟨u, hu, hlu⟩ := @vdriveBamIsset_ok w disk (bitNumber v s) p hl.mounted
    (hblocks.symm ▸ hbit.1)
  rw [hl.view] at hu
  have hvu := hl.trans hlu
  unfold vdriveBamAllocateSector
  simp only [if_neg h71, hw, hp, bitNumber_same hl.same, hu]
  by_cases hset : getBit (view v disk) (p + 1) (bitNumber v s) = true
  · have hsame := hvu.same
    have hclr := @vdriveBamClr_ok u disk (bitNumber v s) p hvu.mounted (hsame.blocks.symm ▸ hbit.1)
      (fun h9 => hbit.2 (hsame.format ▸ h9))
    rw [hvu.view] at hclr
    have hsame' := hsame.trans hclr.same
    have hfree := @vdriveBamSectorFree_ok _ disk t p hclr.mounted (hsame'.blocks.symm ▸ hpointer)
      (fun k hk => by
        rw [entryAt_same hsame'] at hk
        rw [hsame'.blocks, hsame'.format]
        exact hin k (Or.inl hk)) (0 - 1)
    rw [hclr.view, entryAt_same hsame'] at hfree
    simp only [hset, if_true]
    refine ⟨_, rfl, ?_⟩
    unfold Entry.take
    rw [entryAt_bits]
    exact Becomes.trans hvu (Becomes.trans hclr hfree)
  · rw [Bool.not_eq_true] at hset
    simp only [hset, Bool.false_eq_true, if_false]
    exact ⟨u, rfl, hvu⟩

/-- Freeing gives the bit back if it is clear. -/
theorem vdriveBamFreeSector_ok (h : Mounted v disk)
    (he : entryOf v (view v disk) t s = some e) (hin : Inside v e)
    (hs : bitNumber v s < e.sectors) :
    ∃ w, vdriveBamFreeSector v t s = (!getBit (view v disk) e.bits (bitNumber v s), w) ∧
      Becomes disk v w (if getBit (view v disk) e.bits (bitNumber v s) then view v disk
        else e.give (view v disk) (bitNumber v s)) := by
  obtain ⟨h71, p, hp, rfl⟩ := entryOf_pointer he
  obtain ⟨w, hw, hl⟩ := vdriveBamGetTrackEntry_ok h t s
  have hbit := hin _ (Or.inr (Entry.inBits_bit hs))
  have hpointer := hin.pointer hs
  rw [entryAt_bits] at hbit ⊢
  have hblocks := hl.same.blocks
  obtain ⟨u, hu, hlu⟩ := @vdriveBamIsset_ok w disk (bitNumber v s) p hl.mounted
    (hblocks.symm ▸ hbit.1)
  rw [hl.view] at hu
  have hvu := hl.trans hlu
  unfold vdriveBamFreeSector
  simp only [if_neg h71, hw, hp, bitNumber_same hl.same, hu]
  by_cases hset : getBit (view v disk) (p + 1) (bitNumber v s) = true
  · simp only [hset, if_true]
    exact ⟨u, rfl, hvu⟩
  · rw [Bool.not_eq_true] at hset
    have hsame := hvu.same
    have hput := @vdriveBamSet_ok u disk (bitNumber v s) p hvu.mounted (hsame.blocks.symm ▸ hbit.1)
      (fun h9 => hbit.2 (hsame.format ▸ h9))
    rw [hvu.view] at hput
    have hsame' := hsame.trans hput.same
    have hfree := @vdriveBamSectorFree_ok _ disk t p hput.mounted (hsame'.blocks.symm ▸ hpointer)
      (fun k hk => by
        rw [entryAt_same hsame'] at hk
        rw [hsame'.blocks, hsame'.format]
        exact hin k (Or.inl hk)) 1
    rw [hput.view, entryAt_same hsame'] at hfree
    simp only [hset, Bool.false_eq_true, if_false]
    refine ⟨_, rfl, ?_⟩
    unfold Entry.give
    rw [entryAt_bits]
    exact Becomes.trans hvu (Becomes.trans hput hfree)

end

end Vice.L3.BamEntry
