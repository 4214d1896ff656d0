import Vice.L3Drive.FreeMap

/-!
# Chains of sectors (`vdrive-bam.c`, `vdrive-dir.c`)

A file is a chain of sectors, each naming the next in its first two bytes.
`vdrive_bam_allocate_chain` allocates a chain when a disk is validated,
`vdrive_dir_free_chain` frees one when a file is removed. Both check a sector against the
image, not against the partition the drive works in, and go on until the chain ends or
a sector is not in the state they expect. The fuel bounds their loops; texts for the error
channel are left out.

Results:
* `vdriveBamAllocateChain_ok`, `vdriveDirFreeChain_ok`: on a chain that stays on the disk
  the calls return, and they allocate or free sectors of the chain one by one.
-/
namespace Vice.L3.BamChain
open Vice.L0.Bitmap Vice.L2.Geometry Vice.L3.Disk Vice.L3.Drive Vice.L3.Bam Vice.L3.BamEntry
open Vice.L3.BamLayout Vice.L3.BamSearch Vice.L3.FreeMap

/-- mirrors src/vdrive/vdrive-bam.c:624-655 (`vdrive_bam_allocate_chain`) -/
def vdriveBamAllocateChain : Nat → Vdrive → Buf → Nat → Nat → Option (Ipe × Vdrive)
  | 0, _, _, _, _ => none
  | fuel + 1, vdrive, tmp, t, s =>
    if t = 0 then some (.ok, vdrive)
    else match checkSector vdrive.image.shape t s with
    | .error _ => some (.illegalTrackOrSector, vdrive)
    | .ok _ =>
      let (ok, vdrive) := vdriveBamAllocateSector vdrive t s
      if ok = false then some (.noBlock, vdrive)
      else
        let (rc, tmp) := vdriveReadSector vdrive tmp t s
        if rc = .ok then vdriveBamAllocateChain fuel vdrive tmp (tmp 0).toNat (tmp 1).toNat
        else if rc = .minus then some (.notReady, vdrive)
        else some (rc, vdrive)

/-- mirrors src/vdrive/vdrive-dir.c:114-137 (`vdrive_dir_free_chain`). A sector that does not read
leaves the links of the one before in `buf`, which starts as what the stack held. -/
def vdriveDirFreeChain : Nat → Vdrive → Buf → Nat → Nat → Option Vdrive
  | 0, _, _, _, _ => none
  | fuel + 1, vdrive, buf, t, s =>
    if t = 0 then some vdrive
    else match checkSector vdrive.image.shape t s with
    | .error _ => some vdrive
    | .ok _ =>
      let (ok, vdrive) := vdriveBamFreeSector vdrive t s
      if ok = false then some vdrive
      else
        let (_, vdrive) := vdriveBamFreeSector vdrive t s
        let (_, buf) := vdriveReadSector vdrive buf t s
        vdriveDirFreeChain fuel vdrive buf (buf 0).toNat (buf 1).toNat

/-- The sectors a chain call addresses: it goes on from a sector that `passes`, if that is one of
the image. -/
inductive Visits (v : Vdrive) (passes : Nat → Nat → Prop) : Buf → Nat → Nat → Nat → Nat → Prop
  | here {buf : Buf} {t s n : Nat} : t ≠ 0 → checkSector v.image.shape t s = .ok n →
      Visits v passes buf t s t s
  | next {buf next : Buf} {rc : Ipe} {t s n t' s' : Nat} : t ≠ 0 →
      checkSector v.image.shape t s = .ok n → passes t s →
      vdriveReadSector v buf t s = (rc, next) →
      Visits v passes next (next 0).toNat (next 1).toNat t' s' → Visits v passes buf t s t' s'

/-- Steps from one drive to another, each for one sector. -/
inductive Steps (R : Vdrive → Vdrive → Nat → Nat → Prop) (disk : Nat → Buf) :
    Vdrive → List (Nat × Nat) → Vdrive → Prop
  | nil {v w : Vdrive} : Loads disk v w → Steps R disk v [] w
  | cons {v u w : Vdrive} {t s : Nat} {l : List (Nat × Nat)} : R v u t s → Steps R disk u l w →
      Steps R disk v ((t, s) :: l) w

/-- A sector that the allocation of a chain goes on from. -/
def passesFree (disk : Nat → Buf) (v : Vdrive) (t s : Nat) : Prop :=
  isFree v (view v disk) t s = true

/-- A sector that the freeing of a chain goes on from. -/
def passesUsed (disk : Nat → Buf) (v : Vdrive) (t s : Nat) : Prop :=
  isFree v (view v disk) t s = false

/-- Every sector the call addresses is one of the format. -/
def Contained (v : Vdrive) (passes : Nat → Nat → Prop) (buf : Buf) (t s : Nat) : Prop :=
  ∀ t' s', Visits v passes buf t s t' s' → OnDisk v t' s'

section
variable {v w u : Vdrive} {disk : Nat → Buf} {buf next : Buf} {t t' s s' n fuel : Nat}
  {passes passes' : Nat → Nat → Prop} {rc : Ipe} {l : List (Nat × Nat)}

/-- What passes later passed before, so no other sectors are addressed. -/
theorem Visits.mono (hsame : SameDisk v w) (h : Visits w passes' buf t s t' s')
    (hpass : ∀ t s, OnDisk v t s → passes' t s → passes t s) (hc : Contained v passes buf t s) :
    Visits v passes buf t s t' s' := by
  have hshape : w.image = v.image := by rw [hsame]
  induction h with
  | here ht hn =>
    rw [hshape] at hn
    exact Visits.here ht hn
  | next ht hn hp hread _ ih =>
    rw [hshape] at hn
    rw [hsame.read] at hread
    have hvisit := hpass _ _ (hc _ _ (Visits.here ht hn)) hp
    exact Visits.next ht hn hvisit hread
      (ih fun t' s' hv => hc t' s' (Visits.next ht hn hvisit hread hv))

/-- The rest of a contained chain, once its first sector is dealt with. -/
theorem Contained.rest (hsame : SameDisk v w) (hc : Contained v passes buf t s) (ht : t ≠ 0)
    (hn : checkSector v.image.shape t s = .ok n) (hp : passes t s)
    (hread : vdriveReadSector v buf t s = (rc, next))
    (hpass : ∀ t s, OnDisk v t s → passes' t s → passes t s) :
    Contained w passes' next (next 0).toNat (next 1).toNat ∧
      ∀ t' s', Visits w passes' next (next 0).toNat (next 1).toNat t' s' →
        Visits v passes buf t s t' s' := by
  have hrest : Contained v passes next (next 0).toNat (next 1).toNat :=
    fun t' s' hv => hc t' s' (Visits.next ht hn hp hread hv)
  have hmono := fun t' s' (hv : Visits w passes' next _ _ t' s') => hv.mono hsame hpass hrest
  exact ⟨fun t' s' hv => (onDisk_same hsame).mpr (hrest t' s' (hmono t' s' hv)),
    fun t' s' hv => Visits.next ht hn hp hread (hmono t' s' hv)⟩

/-- Allocating a chain that stays on the disk comes to an end, and allocates sectors of it. -/
theorem vdriveBamAllocateChain_ok (hfmt : Laid v disk)
    (hc : Contained v (passesFree disk v) buf t s) (hfuel : numFree v (view v disk) < fuel) :
    ∃ rc w l, vdriveBamAllocateChain fuel v buf t s = some (rc, w) ∧
      Steps (Allocated disk) disk v l w ∧
      ∀ p ∈ l, Visits v (passesFree disk v) buf t s p.1 p.2 := by
  induction fuel generalizing v buf t s with
  | zero => omega
  | succ fuel ih =>
    have hstay : Steps (Allocated disk) disk v [] v := Steps.nil (Loads.refl hfmt.mounted)
    unfold vdriveBamAllocateChain
    by_cases ht : t = 0
    · exact ⟨.ok, v, [], if_pos ht, hstay, fun p hp => absurd hp List.not_mem_nil⟩
    · rw [if_neg ht]
      cases hn : checkSector v.image.shape t s with
      | error e =>
        exact ⟨.illegalTrackOrSector, v, [], rfl, hstay, fun p hp => absurd hp List.not_mem_nil⟩
      | ok n =>
        have hhere := @Visits.here v (passesFree disk v) buf t s n ht hn
        have hd := hc t s hhere
        obtain ⟨u, ⟨hu, ha⟩ | ⟨hu, hl, -⟩⟩ := allocate_outcome hfmt hd
        · have hed := edited_allocated hfmt ha
          obtain ⟨rc, next, hread⟩ : ∃ rc next, vdriveReadSector v buf t s = (rc, next) := ⟨_, _, rfl⟩
          simp only [hu, Bool.true_eq_false, if_false, hed.same.read, hread]
          have hone : Steps (Allocated disk) disk v [(t, s)] u :=
            Steps.cons ha (Steps.nil (Loads.refl (hed.laid hfmt).mounted))
          have hvisit : ∀ p ∈ [(t, s)], Visits v (passesFree disk v) buf t s p.1 p.2 := by
            intro p hp
            rw [List.mem_singleton.mp hp]
            exact hhere
          by_cases hrc : rc = .ok
          · have hfree : passesFree disk v t s := isFree_of_allocated ha
            obtain ⟨hc', hback⟩ := @Contained.rest v u buf next t s n _ (passesFree disk u) rc hed.same hc ht hn hfree hread
              fun t' s' hd' hp => by
                unfold passesFree at hp
                rw [isFree_allocated hfmt ha hd'] at hp
                split at hp
                · cases hp
                · exact hp
            have hless := numFree_allocated hfmt ha
            obtain ⟨rc', w, l, hw, hsteps, hall⟩ := ih (hed.laid hfmt) hc' (by omega)
            rw [if_pos hrc]
            refine ⟨rc', w, (t, s) :: l, hw, Steps.cons ha hsteps, fun p hp => ?_⟩
            rcases List.mem_cons.mp hp with rfl | hp
            · exact hhere
            · exact hback _ _ (hall p hp)
          · rw [if_neg hrc]
            split
            · exact ⟨.notReady, u, _, rfl, hone, hvisit⟩
            · exact ⟨rc, u, _, rfl, hone, hvisit⟩
        · simp only [hu, if_true]
          exact ⟨.noBlock, u, [], rfl, Steps.nil hl, fun p hp => absurd hp List.not_mem_nil⟩

/-- Freeing a chain that stays on the disk comes to an end, and frees sectors of it. -/
theorem vdriveDirFreeChain_ok (hfmt : Laid v disk) (hc : Contained v (passesUsed disk v) buf t s)
    (hfuel : numSectors v - numFree v (view v disk) < fuel) :
    ∃ w l, vdriveDirFreeChain fuel v buf t s = some w ∧ Steps (Freed disk) disk v l w ∧
      ∀ p ∈ l, Visits v (passesUsed disk v) buf t s p.1 p.2 := by
  induction fuel generalizing v buf t s with
  | zero => omega
  | succ fuel ih =>
    have hstay : Steps (Freed disk) disk v [] v := Steps.nil (Loads.refl hfmt.mounted)
    unfold vdriveDirFreeChain
    by_cases ht : t = 0
    · exact ⟨v, [], if_pos ht, hstay, fun p hp => absurd hp List.not_mem_nil⟩
    · rw [if_neg ht]
      cases hn : checkSector v.image.shape t s with
      | error e => exact ⟨v, [], rfl, hstay, fun p hp => absurd hp List.not_mem_nil⟩
      | ok n =>
        have hhere := @Visits.here v (passesUsed disk v) buf t s n ht hn
        have hd := hc t s hhere
        obtain ⟨u, ⟨hu, hf⟩ | ⟨hu, hl⟩⟩ := free_outcome hfmt hd
        · have hed := edited_freed hfmt hf
          have hfmt' := hed.laid hfmt
          -- the second call finds the sector free
          obtain ⟨x, ⟨-, hf'⟩ | ⟨hx, hlx⟩⟩ := free_outcome hfmt' ((onDisk_same hed.same).mpr hd)
          · have hbit := isFree_of_freed hf'
            rw [isFree_freed hfmt hf hd, if_pos ⟨rfl, rfl⟩] at hbit
            cases hbit
          · obtain ⟨rc, next, hread⟩ : ∃ rc next, vdriveReadSector v buf t s = (rc, next) := ⟨_, _, rfl⟩
            have hsame := hed.same.trans hlx.same
            simp only [hu, Bool.true_eq_false, if_false, hx, hsame.read, hread]
            have hused : passesUsed disk v t s := isFree_of_freed hf
            have hlater : ∀ t' s', isFree x (view x disk) t' s' = isFree u (view u disk) t' s' :=
              isFree_loads hlx
            obtain ⟨hc', hback⟩ := @Contained.rest v x buf next t s n _ (passesUsed disk x) rc hsame hc ht hn hused hread
              fun t' s' hd' hp => by
                unfold passesUsed at hp
                rw [hlater, isFree_freed hfmt hf hd'] at hp
                split at hp
                · cases hp
                · exact hp
            have hmore := numFree_freed hfmt hf
            have hbound := @numFree_sectors x (view x disk)
            have hsize := numSectors_same hsame
            have hx' := numFree_loads hlx
            obtain ⟨w, l, hw, hsteps, hall⟩ := ih (hfmt'.loads hlx) hc' (by omega)
            refine ⟨w, (t, s) :: l, hw, ?_, fun p hp => ?_⟩
            · exact Steps.cons (freed_loads hf hlx) hsteps
            · rcases List.mem_cons.mp hp with rfl | hp
              · exact hhere
              · exact hback _ _ (hall p hp)
        · simp only [hu, if_true]
          exact ⟨u, [], rfl, Steps.nil hl, fun p hp => absurd hp List.not_mem_nil⟩

end

end Vice.L3.BamChain
