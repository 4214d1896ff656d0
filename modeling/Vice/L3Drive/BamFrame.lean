import Vice.L3Drive.BamSearch

/-!
# What the BAM calls leave alone (`vdrive-bam.c`)

The calls work on the BAM in memory only, on whatever disk and whether its blocks can be read or
not.

Results:
* `allocateSector_same`: one sector.
* `allocFirstFreeSector_np`: the search of a NP partition.
-/
namespace Vice.L3.BamFrame
open Vice.L0.Bitmap Vice.L2.Geometry Vice.L3.Disk Vice.L3.Drive Vice.L3.Bam Vice.L3.BamSearch

section
variable {v w u : Vdrive} {block : Nat}

theorem locateBam_same (v : Vdrive) : SameDisk v (locateBam v) := by
  unfold locateBam
  split <;> rfl

theorem loadBlock_same (v : Vdrive) (block : Nat) (err : Ipe) : SameDisk v (loadBlock v block err).2 := by
  have hloc := locateBam_same v
  unfold loadBlock
  generalize locateBam v = u at hloc
  simp only
  refine SameDisk.trans hloc ?_
  split <;> split <;> first | rfl | (split <;> rfl)

theorem readBlockWith_same {links : Vdrive → Ipe × Vdrive} (hl : ∀ v, SameDisk v (links v).2)
    (block : Nat) (v : Vdrive) : SameDisk v (readBlockWith links block v).2 := by
  unfold readBlockWith
  split
  · exact SameDisk.refl v
  · simp only
    split
    · exact hl v
    · exact SameDisk.trans (hl v) (loadBlock_same _ _ _)

theorem followLinks_same (block : Nat) (v : Vdrive) : SameDisk v (followLinks block v).2 := by
  induction block generalizing v with
  | zero => exact SameDisk.refl v
  | succ block ih =>
    match block, ih with
    | 0, _ => exact SameDisk.refl v
    | block + 1, ih =>
      have hv := ih v
      rw [followLinks]
      generalize followLinks (block + 1) v = r at hv
      obtain ⟨err, u⟩ := r
      simp only at hv ⊢
      split
      · exact hv
      · split
        · have hu := readBlockWith_same ih (block + 1) u
          generalize readBlockWith (followLinks (block + 1)) (block + 1) u = r at hu
          obtain ⟨err', u'⟩ := r
          simp only at hu ⊢
          split
          · exact SameDisk.trans hv hu
          · exact SameDisk.trans (SameDisk.trans hv hu) rfl
        · exact hv

theorem readBamBlock_same (v : Vdrive) (block : Nat) : SameDisk v (vdriveBamReadBamBlock v block).2 := by
  unfold vdriveBamReadBamBlock
  split
  · exact SameDisk.refl v
  · refine readBlockWith_same (fun u => ?_) block v
    split
    · exact followLinks_same block u
    · exact SameDisk.refl u

theorem findEntry_same (entry : Nat → Nat) (track : Nat) (is : List Nat) (v : Vdrive) :
    SameDisk v (findEntry entry track is v).2 := by
  induction is generalizing v with
  | nil => exact SameDisk.refl v
  | cons i is ih =>
    have hv := readBamBlock_same v i
    rw [findEntry]
    generalize vdriveBamReadBamBlock v i = r at hv
    obtain ⟨err, u⟩ := r
    simp only at hv ⊢
    split
    · exact hv
    · split
      · exact hv
      · exact SameDisk.trans hv (ih u)

theorem getTrackEntry_same (v : Vdrive) (track sector : Nat) :
    SameDisk v (vdriveBamGetTrackEntry v track sector).2 := by
  unfold vdriveBamGetTrackEntry
  split
  · exact SameDisk.refl v
  · cases v.imageFormat <;> first | exact SameDisk.refl v | exact findEntry_same _ _ _ v

theorem touch_same (v : Vdrive) (k : Nat) : SameDisk v (touch v k) :=
  SameDisk.trans (readBamBlock_same v (k / 256)) rfl

theorem addCount_same (v : Vdrive) (k : Nat) (add : UInt8) : SameDisk v (addCount v k add) :=
  SameDisk.trans (touch_same v k) rfl

theorem sectorFree_same (v : Vdrive) (bamp track : Nat) (add : UInt8) :
    SameDisk v (vdriveBamSectorFree v bamp track add) := by
  unfold vdriveBamSectorFree
  split
  case h_7 =>
    split
    · exact addCount_same v bamp add
    · exact SameDisk.trans (touch_same v bamp) (addCount_same _ _ _)
  case h_8 => exact SameDisk.refl v
  all_goals exact addCount_same v bamp add

theorem isset_same (v : Vdrive) (bamp sector : Nat) :
    SameDisk v (vdriveBamIsset v bamp sector).2 := readBamBlock_same v _

theorem clr_same (v : Vdrive) (bamp sector : Nat) : SameDisk v (vdriveBamClr v bamp sector) :=
  SameDisk.trans (touch_same v (bamp + 1 + sector / 8)) rfl

theorem allocateSector_same (v : Vdrive) (track sector : Nat) :
    SameDisk v (vdriveBamAllocateSector v track sector).2 := by
  unfold vdriveBamAllocateSector
  split
  · exact SameDisk.refl v
  · have hv := getTrackEntry_same v track sector
    generalize vdriveBamGetTrackEntry v track sector = r at hv
    obtain ⟨_ | bamp, u⟩ := r
    · exact hv
    · have hset := isset_same u bamp (bitNumber u sector)
      simp only at hv ⊢
      generalize vdriveBamIsset u bamp (bitNumber u sector) = r at hset
      obtain ⟨isset, x⟩ := r
      simp only at hset ⊢
      split
      · exact SameDisk.trans (SameDisk.trans hv hset) (SameDisk.trans (clr_same x bamp _) (sectorFree_same _ _ _ _))
      · exact SameDisk.trans hv hset

/-! ## A NP partition -/

theorem scanNp_same (maxSector n track sector : Nat) (v : Vdrive) :
    SameDisk v (scanNp maxSector n track sector v).2 := by
  induction n generalizing track sector v with
  | zero => exact SameDisk.refl v
  | succ n ih =>
    unfold scanNp
    generalize (if sector + 1 ≥ maxSector then (if track + 1 > v.numTracks then 1 else track + 1, 0)
      else (track, sector + 1)) = next
    obtain ⟨t, s⟩ := next
    simp only
    have hv := allocateSector_same v t (if t = 1 ∧ s < 64 then 64 else s)
    generalize vdriveBamAllocateSector v t (if t = 1 ∧ s < 64 then 64 else s) = r at hv
    obtain ⟨ok, u⟩ := r
    simp only at hv ⊢
    split
    · exact hv
    · exact SameDisk.trans hv (ih _ _ u)

theorem allocFirstFreeSector_np (hf : v.imageFormat = .np) :
    SameDisk v (vdriveBamAllocFirstFreeSector v).2 := by
  unfold vdriveBamAllocFirstFreeSector vdriveBamAllocNextFreeSector
    vdriveBamAllocNextFreeSectorInterleave
  simp only [hf, reduceCtorEq, if_false, if_true]
  exact scanNp_same _ _ _ _ v

end

end Vice.L3.BamFrame
