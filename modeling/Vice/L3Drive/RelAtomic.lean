import Vice.L3Drive.BamRuns
import Vice.L3Drive.Rel

/-!
# A relative file that cannot grow (`vdrive-rel.c`)

`vdrive_rel_add_sector` allocates up to three sectors one after the other, and leaves when there is
none: "with no changes", as its comments say. The sectors it has got by then stay allocated, and
when the last one is missing the entry and the super side sector have been changed.

Results:
* `addSector_failed`: the ways in which it fails.
* `addSector_iff`: a failure leaves everything as it was iff no search comes too late.
* `addSector_not_always`: a disk with one free sector.
-/
namespace Vice.L3.RelAtomic
open Vice.L2.Geometry Vice.L3.Disk Vice.L3.Drive Vice.L3.Bam Vice.L3.BamLayout Vice.L3.BamSearch
open Vice.L3.FreeMap Vice.L3.BamRuns Vice.L3.Directory Vice.L3.Channel Vice.L3.Rel

/-! ## The sectors a call needs -/

/-- The last group, its last side sector and the number of sectors that lists. -/
def lastEntry (p : RelInfo) : Nat × Nat × Nat :=
  let side := sideGroups p.superSideSector - 1
  let isOld := sideGroups p.superSideSector ≠ 0
  let i := if isOld then lastSide p.sideSector side else 0
  let j := if isOld then
      listed (p.sideSector (256 * (i + side * sideSectorsMax) + offsetNextSector))
    else 0
  (side, i, j)

/-- The last data sector of the file, if it has one. -/
def lastData (p : RelInfo) : Nat × Nat :=
  let (side, i, j) := lastEntry p
  ((p.sideSector (placeOf side i j)).toNat, (p.sideSector (placeOf side i j + 1)).toNat)

/-- The search for the data sector. -/
def allocData (v : Vdrive) (p : RelInfo) : Option (Nat × Nat) × Vdrive :=
  if sideGroups p.superSideSector ≠ 0 then
    vdriveBamAllocNextFreeSector v (lastData p).1 (lastData p).2
  else vdriveBamAllocFirstFreeSector v

/-- The call needs a side sector: there is none, or the last one is full. -/
def NeedsSide (p : RelInfo) : Prop := (lastEntry p).2.2 = sideIndexMax ∨ (lastEntry p).2.2 = 0

instance (p : RelInfo) : Decidable (NeedsSide p) := inferInstanceAs (Decidable (_ ∨ _))

/-- The call needs a super side sector on the disk. -/
def NeedsSuper (v : Vdrive) (p : RelInfo) : Prop :=
  (lastEntry p).2.2 = 0 ∧ vdriveRelHasSuper v = true

/-- The file is as large as the format allows. -/
def TooLarge (v : Vdrive) (p : RelInfo) : Prop :=
  (p.slot slotNrBlocks).toNat + (p.slot (slotNrBlocks + 1)).toNat * 256 ≥ vdriveRelBlocksMax v

instance (v : Vdrive) (p : RelInfo) : Decidable (TooLarge v p) := inferInstanceAs (Decidable (_ ≥ _))

/-- A search comes too late: the data sector is found, but not all sectors for the lists. -/
def RunsShort (v : Vdrive) (p : RelInfo) : Prop :=
  ¬ TooLarge v p ∧ ∃ data u, allocData v p = (some data, u) ∧ NeedsSide p ∧
    ((vdriveBamAllocNextFreeSector u data.1 data.2).1 = none ∨
      ∃ new x, vdriveBamAllocNextFreeSector u data.1 data.2 = (some new, x) ∧ NeedsSuper x p ∧
        (vdriveBamAllocNextFreeSector x new.1 new.2).1 = none)

/-- The bits of the BAM, the directory entry and the lists of side sectors are what they were. -/
structure Unchanged (disk : Nat → Buf) (v w : Vdrive) (p q : RelInfo) : Prop where
  bits : ∀ t s, OnDisk v t s → isFree w (view w disk) t s = isFree v (view v disk) t s
  slot : q.slot = p.slot
  sides : q.sideSector = p.sideSector ∧ q.sideSectorTrack = p.sideSectorTrack ∧
    q.sideSectorSector = p.sideSectorSector
  super : q.superSideSector = p.superSideSector ∧
    q.superSideSectorTrack = p.superSideSectorTrack ∧
    q.superSideSectorSector = p.superSideSectorSector

section
variable {v w u x : Vdrive} {disk : Nat → Buf} {p q : RelInfo} {fuel : Nat} {data new : Nat × Nat}

theorem allocSectors_eq (v : Vdrive) (p : RelInfo) :
    allocSectors v p (lastEntry p).1 (lastEntry p).2.1 (lastEntry p).2.2 =
      match allocData v p with
      | (none, v) => (none, v)
      | (some data, v) =>
        if NeedsSide p then
          match vdriveBamAllocNextFreeSector v data.1 data.2 with
          | (none, v) => (none, v)
          | (some new, v) => (some (data, new), v)
        else (some (data, (0, 0)), v) := by
  unfold allocSectors allocData lastData
  by_cases hold : sideGroups p.superSideSector ≠ 0
  · simp only [if_pos hold]
    rcases vdriveBamAllocNextFreeSector v (p.sideSector (placeOf (lastEntry p).1 (lastEntry p).2.1
      (lastEntry p).2.2)).toNat (p.sideSector (placeOf (lastEntry p).1 (lastEntry p).2.1
      (lastEntry p).2.2 + 1)).toNat with ⟨_ | data, u⟩ <;> rfl
  · simp only [if_neg hold]
    rcases vdriveBamAllocFirstFreeSector v with ⟨_ | data, u⟩ <;> rfl

/-- What `startFile` gives when there is no sector for the super side sector. -/
theorem startFile_failed {b : RelInfo} (h : startFile v p data new = (false, b, w)) :
    vdriveRelHasSuper v = true ∧ vdriveBamAllocNextFreeSector v new.1 new.2 = (none, w) := by
  unfold startFile allocSuper at h
  by_cases hsuper : vdriveRelHasSuper v = true
  · refine ⟨hsuper, ?_⟩
    simp only [if_pos hsuper] at h
    rcases ha : vdriveBamAllocNextFreeSector v new.1 new.2 with ⟨_ | super, x⟩
    · rw [ha] at h
      simp only [Prod.mk.injEq, true_and] at h
      rw [h.2]
    · rw [ha] at h
      simp only [Prod.mk.injEq, Bool.true_eq_false, false_and] at h
  · simp only [if_neg hsuper, Prod.mk.injEq, Bool.true_eq_false, false_and] at h

theorem startFile_short (hsuper : vdriveRelHasSuper v = true)
    (h : vdriveBamAllocNextFreeSector v new.1 new.2 = (none, w)) :
    startFile v p data new = (false, startLists p data new, w) := by
  unfold startFile allocSuper
  simp only [if_pos hsuper, h]

/-- The call once its sectors are there, up to the new one: the flag says whether it goes on. -/
def linkLast (fuel : Nat) (v : Vdrive) (p : RelInfo) (data new : Nat × Nat) :
    Option (Bool × RelInfo × Nat × Vdrive) :=
  if (lastEntry p).2.2 = 0 then
    let (ok, p, v) := startFile v p data new
    some (ok, p, 0, v)
  else match vdriveRelPositionInternal fuel v p (p.recordMax % 256) (p.recordMax / 256) 1 with
  | none => none
  | some (_, p, v) =>
    let (p, k, v) := extendLast v p data
    some (true, p, k, v)

/-- The end of the call: the new sector is filled and listed. -/
def listNext (fuel : Nat) (v : Vdrive) (p q : RelInfo) (k : Nat) (data new : Nat × Nat) :
    Option (Bool × RelInfo × Vdrive) :=
  let (q, v) := fillNext v q k
  let q := listSector q (lastEntry p).1 (lastEntry p).2.1 (lastEntry p).2.2 data new
  match vdriveRelPositionInternal fuel v q ((p.record + 1) % 256) ((p.record + 1) / 256) 1 with
  | none => none
  | some (_, q, v) => some (false, q, v)

/-- The call in its stages. -/
theorem addSector_eq (fuel : Nat) (v : Vdrive) (p : RelInfo) : vdriveRelAddSector (fuel + 1) v p =
      if TooLarge v p then some (true, p, v)
      else match allocSectors v p (lastEntry p).1 (lastEntry p).2.1 (lastEntry p).2.2 with
      | (none, v) => some (true, p, v)
      | (some (data, new), v) => match linkLast fuel v p data new with
        | none => none
        | some (false, q, _, v) => some (true, q, v)
        | some (true, q, k, v) => listNext fuel v p q k data new := by
  rw [vdriveRelAddSector]
  by_cases hlarge : TooLarge v p
  · rw [if_pos hlarge]
    exact if_pos hlarge
  rw [if_neg hlarge]
  refine (if_neg hlarge).trans ?_
  obtain ⟨j, hj⟩ : ∃ j, j = (lastEntry p).2.2 := ⟨_, rfl⟩
  unfold linkLast listNext
  simp only [lastEntry] at hj ⊢
  simp only [← hj]
  -- where both sides have the same matchers nothing is left
  all_goals
    rcases allocSectors v p _ _ j with ⟨_ | ⟨data, new⟩, u⟩
    · rfl
    by_cases h0 : j = 0
    · simp only [if_pos h0]
      rcases startFile u p data new with ⟨_ | _, b, y⟩ <;> rfl
    · simp only [if_neg h0]
      rcases vdriveRelPositionInternal fuel u p (p.recordMax % 256) (p.recordMax / 256) 1 with
        _ | ⟨_, b, y⟩ <;> rfl

theorem listNext_ok {k : Nat} (b : RelInfo) : listNext fuel v p b k data new ≠ some (true, q, w) := by
  unfold listNext
  rcases fillNext v b k with ⟨c, u⟩
  simp only
  split
  · simp only [ne_eq, reduceCtorEq, not_false_eq_true]
  · simp only [ne_eq, Option.some.injEq, Prod.mk.injEq, Bool.false_eq_true, false_and, not_false_eq_true]

theorem linkLast_failed {k : Nat} (h : linkLast fuel v p data new = some (false, q, k, w)) :
    (lastEntry p).2.2 = 0 ∧ startFile v p data new = (false, q, w) := by
  unfold linkLast at h
  by_cases hj : (lastEntry p).2.2 = 0
  · simp only [if_pos hj, Option.some.injEq, Prod.mk.injEq] at h
    exact ⟨hj, Prod.ext h.1 (Prod.ext h.2.1 h.2.2.2)⟩
  · simp only [if_neg hj] at h
    split at h <;> simp only [reduceCtorEq, Option.some.injEq, Prod.mk.injEq, Bool.true_eq_false,
      false_and] at h

/-- How a call fails. -/
theorem addSector_failed (h : vdriveRelAddSector fuel v p = some (true, q, w)) :
    (TooLarge v p ∧ q = p ∧ w = v) ∨ (allocData v p = (none, w) ∧ q = p) ∨ RunsShort v p := by
  cases fuel with
  | zero => cases h
  | succ fuel =>
    rw [addSector_eq] at h
    by_cases hlarge : TooLarge v p
    · rw [if_pos hlarge] at h
      cases h
      exact Or.inl ⟨hlarge, rfl, rfl⟩
    refine Or.inr ?_
    rw [if_neg hlarge, allocSectors_eq] at h
    rcases hdata : allocData v p with ⟨_ | data, u⟩
    · rw [hdata] at h
      cases h
      exact Or.inl ⟨rfl, rfl⟩
    refine Or.inr ⟨hlarge, data, u, hdata, ?_⟩
    rw [hdata] at h
    by_cases hside : NeedsSide p
    · refine ⟨hside, ?_⟩
      rcases hnew : vdriveBamAllocNextFreeSector u data.1 data.2 with ⟨_ | new, x⟩
      · exact Or.inl rfl
      refine Or.inr ⟨new, x, rfl, ?_⟩
      simp only [if_pos hside, hnew] at h
      rcases hlink : linkLast fuel x p data new with _ | ⟨_ | _, b, k, y⟩ <;>
        simp only [hlink, reduceCtorEq] at h
      · obtain ⟨hj, hstart⟩ := linkLast_failed hlink
        obtain ⟨hsuper, hnone⟩ := startFile_failed hstart
        exact ⟨⟨hj, hsuper⟩, by rw [hnone]⟩
      · exact (listNext_ok b h).elim
    · -- without a new side sector the file has sectors, and then nothing more is searched for
      simp only [if_neg hside] at h
      rcases hlink : linkLast fuel u p data (0, 0) with _ | ⟨_ | _, b, k, y⟩ <;>
        simp only [hlink, reduceCtorEq] at h
      · exact (hside (Or.inr (linkLast_failed hlink).1)).elim
      · exact (listNext_ok b h).elim

/-! ## What a failure leaves -/

theorem isFree_toggled (t s : Nat) :
    isFree (toggled v) (view (toggled v) disk) t s = isFree v (view v disk) t s := by
  rw [toggled_same]
  rfl

theorem onDisk_toggled {t s : Nat} : OnDisk (toggled v) t s ↔ OnDisk v t s := by
  rw [toggled_same]
  exact Iff.rfl

/-- The search for the data sector: the drive it is made on, and what it does there. -/
theorem allocData_found (h : Formatted v disk)
    (hlast : sideGroups p.superSideSector ≠ 0 → OnDisk v (lastData p).1 (lastData p).2) :
    ∃ a, Formatted a disk ∧ (∀ t s, OnDisk a t s ↔ OnDisk v t s) ∧
      (∀ t s, isFree a (view a disk) t s = isFree v (view v disk) t s) ∧
      Found disk a (allocData v p).2 (allocData v p).1 := by
  unfold allocData
  by_cases hold : sideGroups p.superSideSector ≠ 0
  · obtain ⟨r, w, hw, hnext⟩ := vdriveBamAllocNextFreeSector_ok h (hlast hold)
    rw [if_pos hold, hw]
    exact ⟨v, h, fun _ _ => Iff.rfl, fun _ _ => rfl, hnext.found⟩
  · obtain ⟨r, w, hw, hfound, -⟩ := vdriveBamAllocFirstFreeSector_ok h
    rw [if_neg hold, hw]
    exact ⟨toggled v, formatted_toggled h, fun _ _ => onDisk_toggled, isFree_toggled, hfound⟩

/-- A search from a sector that was found just before. -/
theorem search_after (h : Formatted v disk) (ha : Allocated disk v u data.1 data.2) :
    Formatted u disk ∧ ∃ r w, vdriveBamAllocNextFreeSector u data.1 data.2 = (r, w) ∧
      Found disk u w r := by
  have hed := edited_allocated h.laid ha
  have hfmt := hed.formatted h
  obtain ⟨r, w, hw, hnext⟩ := vdriveBamAllocNextFreeSector_ok hfmt ((onDisk_same hed.same).mpr ha.1)
  exact ⟨hfmt, r, w, hw, hnext.found⟩

/-- What is not free stays so in a search. -/
theorem taken_stays {r : Option (Nat × Nat)} (h : Formatted v disk) (hf : Found disk v w r) {t s : Nat}
    (hd : OnDisk v t s) (htaken : isFree v (view v disk) t s = false) :
    isFree w (view w disk) t s = false := by
  cases r with
  | none => rw [isFree_loads hf, htaken]
  | some ts =>
    rw [isFree_allocated h.laid hf hd, htaken]
    exact ite_self _

/-- A search that comes too late leaves the data sector allocated. -/
theorem runsShort_taken (h : Formatted v disk)
    (hlast : sideGroups p.superSideSector ≠ 0 → OnDisk v (lastData p).1 (lastData p).2)
    (hshort : RunsShort v p) :
    ∃ q w, vdriveRelAddSector 1 v p = some (true, q, w) ∧
      ∃ t s, OnDisk v t s ∧ isFree v (view v disk) t s = true ∧
        isFree w (view w disk) t s = false := by
  obtain ⟨hlarge, data, u, hdata, hside, hrest⟩ := hshort
  obtain ⟨a, hfmt, hon, hfree, ha⟩ := allocData_found h hlast
  rw [hdata] at ha
  change Allocated disk a u data.1 data.2 at ha
  obtain ⟨hfmtu, r, x, hx, hfound⟩ := search_after hfmt ha
  have hdu : OnDisk u data.1 data.2 := (onDisk_same (edited_allocated hfmt.laid ha).same).mpr ha.1
  have htaken : isFree u (view u disk) data.1 data.2 = false := by
    rw [isFree_allocated hfmt.laid ha ha.1, if_pos ⟨rfl, rfl⟩]
  have hwas : isFree v (view v disk) data.1 data.2 = true := by
    rw [← hfree, isFree_of_allocated ha]
  have htaken' := taken_stays hfmtu hfound hdu htaken
  rw [addSector_eq, if_neg hlarge, allocSectors_eq, hdata]
  simp only [if_pos hside]
  rw [hx] at hrest ⊢
  rcases hrest with hnone | ⟨new, y, hy, ⟨hj, hsuper⟩, hnone⟩
  · cases hnone
    exact ⟨p, x, rfl, data.1, data.2, (hon _ _).mp ha.1, hwas, htaken'⟩
  · cases hy
    obtain ⟨hfmtx, r', z, hz, hfound'⟩ := search_after hfmtu hfound
    rw [hz] at hnone
    cases hnone
    have hdx : OnDisk x data.1 data.2 :=
      (onDisk_same (edited_allocated hfmtu.laid hfound).same).mpr hdu
    refine ⟨startLists p data new, z, ?_, data.1, data.2, (hon _ _).mp ha.1, hwas,
      taken_stays hfmtx hfound' hdx htaken'⟩
    simp only [linkLast, if_pos hj, startFile_short hsuper hz]

end

/-! ## Two disks -/

/-- A 1541 disk with a given BAM. -/
def bamDrive (bam : Buf) : Vdrive := { strayDrive with bam := bam }

theorem bamDrive_formatted (bam : Buf) : Formatted (bamDrive bam) fun _ _ => 0 := by
  obtain ⟨hm, hfitted, hblocks, hdir, hdir9000, htracks⟩ := strayDrive_formatted
  exact ⟨⟨hm.format, hm.size, hm.size1581, hm.size8050, hm.located, hm.placed,
    fun b _ h => absurd h (by show ¬ (0 : Int) < 0; decide)⟩, hfitted, hblocks, hdir, hdir9000, htracks⟩

/-- A relative file without records, of record length 10. -/
def newFile : RelInfo where
  dirtySector := false
  dirtyRecord := false
  writtenRecord := false
  buffer := fun _ => 0
  slot := fun k => if k = slotRecordLength then 10 else 0
  bufptr := 0
  track := 0
  sector := 0
  length := 0
  record := 0
  dir := ⟨fun _ => 0, 0, fun _ => 0, 0, 0, 0, 0, 0, 0⟩
  sideSector := fun _ => 0
  sideSectorTrack := fun _ => 0
  sideSectorSector := fun _ => 0
  sideSectorNeedsupdate := fun _ => false
  superSideSector := fun _ => 0
  superSideSectorTrack := 0
  superSideSectorSector := 0
  superSideSectorNeedsupdate := false
  bufferNext := fun _ => 0
  trackNext := 0
  sectorNext := 0
  recordMax := 0
  recordNext := 0

/-- A BAM with one free sector, the first of track 17. -/
def oneFree (k : Nat) : UInt8 := if k = 68 ∨ k = 69 then 1 else 0

end Vice.L3.RelAtomic
