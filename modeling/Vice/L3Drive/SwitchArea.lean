import Vice.L3Drive.SwitchCache

/-!
# What the switches rely on

A switch gives up the cache and finds the BAM of another place: the disk geometry and the change of
the partition say where. The arrays for the partitions keep the area of each one.

Results:
* `Tracked.flush`: after a flush the cache may be given up.
* `Tracked.geometry`, `geometry_setup`: with the cache kept, and without it.
* `changePart_moves`: another drive or partition.
-/
namespace Vice.L3.SwitchArea
open Vice.L0.WriteBack Vice.L2.Geometry Vice.L3.Disk Vice.L3.Drive Vice.L3.Bam Vice.L3.BamCalls
  Vice.L3.Directory Vice.L3.PartitionSwitch Vice.L3.SwitchCache

section
variable {d e f : Drive} {i n : Nat} {part : Int} {err : Ipe} {is : List Nat}

/-! ## The log only grows -/

theorem not_failed (hok : .failed ∉ e.log) (hlog : d.log <:+ e.log) : .failed ∉ d.log :=
  fun h => hok (hlog.subset h)

theorem log_kept (h : e.log = d.log) : d.log <:+ e.log := by
  simp [h]

theorem writeBlocks_log : d.log <:+ (writeBlocks is d err).2.log := by
  induction is generalizing d err with
  | nil => exact List.suffix_rfl
  | cons i is ih =>
    rw [writeBlocks]
    split
    · dsimp only
      split
      · exact List.suffix_cons ..
      · refine List.IsSuffix.trans ?_ ih
        exact List.suffix_cons ..
    · exact ih

theorem writeBam_log : d.log <:+ (vdriveBamWriteBam d).2.log := by
  unfold vdriveBamWriteBam
  split
  · exact List.suffix_rfl
  · dsimp only
    split
    · exact List.suffix_rfl
    · exact List.suffix_rfl
    · exact writeBlocks_log (d := { d with vdrive := locateBam d.vdrive })

theorem setup_log : d.log <:+ (vdriveBamSetupBam d).log := List.suffix_cons ..

/-! ## What the switches rely on -/

/-- The partitions that have been used have their area. -/
structure Based (d : Drive) : Prop where
  size : bamBlocks d.vdrive ≤ 33
  selected : d.vdrive.haspt = true → 0 ≤ d.selectedPart
  starts : ∀ p ≥ 0, d.cheadertrack p ≠ 0 → 1 ≤ d.cpartstart p

/-- The BAM of a 1581 disk is where the arrays say. -/
def Settled (d : Drive) : Prop := d.vdrive.imageFormat = .f1581 →
  d.vdrive.bamTrack = d.cheadertrack d.currentPart ∧ d.vdrive.bamSector = d.cheadersector d.currentPart

/-- It is, unless the area of a channel's file is in use. -/
def Placed (d : Drive) : Prop := d.vdrive.imageFormat = .f1581 → 0 ≤ d.currentPart →
  d.cheadertrack d.currentPart ≠ 0 ∧ (¬ d.strayed → Settled d)

structure Tracked (d : Drive) : Prop where
  cached : Cached d
  based : Based d
  placed : Placed d

theorem based_flushes (h : Flushes d e) (hd : Based d) : Based e := by
  obtain ⟨hsize, hselected, hstarts⟩ := hd
  unfold bamBlocks at hsize
  rw [h.same]
  exact ⟨hsize, hselected, hstarts⟩

theorem strayed_flushes (h : Flushes d e) : e.strayed ↔ d.strayed := by
  unfold Drive.strayed
  rw [h.same]

theorem placed_flushes (h : Flushes d e) (hd : Placed d) : Placed e := by
  unfold Placed Settled at *
  rw [strayed_flushes h]
  rw [h.same]
  exact hd

/-- A flush, unless a block cannot be written. -/
theorem Tracked.flush (h : Tracked d) (hok : .failed ∉ (vdriveBamWriteBam d).2.log) :
    Tracked (vdriveBamWriteBam d).2 ∧ Clean (vdriveBamWriteBam d).2 := by
  obtain ⟨hcached, hflushed⟩ := writeBam_flushed h.cached hok
  exact ⟨⟨hcached, based_flushes writeBam_flushes h.based, placed_flushes writeBam_flushes h.placed⟩,
    hcached.clean hflushed⟩

/-! ## Geometry -/

theorem geometry_same (d : Drive) : vdriveSetDiskGeometry d = { d with
    vdrive := { d.vdrive with
      bamTrack := (vdriveSetDiskGeometry d).vdrive.bamTrack
      bamSector := (vdriveSetDiskGeometry d).vdrive.bamSector
      headerTrack := (vdriveSetDiskGeometry d).vdrive.headerTrack
      headerSector := (vdriveSetDiskGeometry d).vdrive.headerSector
      dirTrack := (vdriveSetDiskGeometry d).vdrive.dirTrack
      dirSector := (vdriveSetDiskGeometry d).vdrive.dirSector }
    partStart := (vdriveSetDiskGeometry d).partStart
    partEnd := (vdriveSetDiskGeometry d).partEnd
    cheadertrack := (vdriveSetDiskGeometry d).cheadertrack
    cheadersector := (vdriveSetDiskGeometry d).cheadersector
    cdirtrack := (vdriveSetDiskGeometry d).cdirtrack
    cdirsector := (vdriveSetDiskGeometry d).cdirsector
    cpartstart := (vdriveSetDiskGeometry d).cpartstart
    cpartend := (vdriveSetDiskGeometry d).cpartend } := by
  unfold vdriveSetDiskGeometry
  dsimp only
  split <;> rfl

theorem geometry_log : (vdriveSetDiskGeometry d).log = d.log := by
  rw [geometry_same]

theorem geometry_based (h : Based d) : Based (vdriveSetDiskGeometry d) := by
  have hsame := geometry_same d
  refine ⟨?_, ?_, fun p hp hheader => ?_⟩
  · have hsize := h.size
    unfold bamBlocks at *
    rw [hsame]
    exact hsize
  · rw [hsame]
    exact h.selected
  · unfold vdriveSetDiskGeometry at hheader ⊢
    dsimp only at hheader ⊢
    split at hheader
    · next hnone =>
      rw [if_pos hnone]
      by_cases hcur : p = d.currentPart
      · simp [hcur]
      · simp only [Function.update_of_ne hcur] at hheader ⊢
        exact h.starts p hp hheader
    · next hsome =>
      rw [if_neg hsome]
      exact h.starts p hp hheader

/-- The area is the one of the partition. -/
theorem geometry_settled : (vdriveSetDiskGeometry d).vdrive.imageFormat = .f1581 →
    (vdriveSetDiskGeometry d).cheadertrack (vdriveSetDiskGeometry d).currentPart ≠ 0 ∧
      Settled (vdriveSetDiskGeometry d) ∧ ¬ (vdriveSetDiskGeometry d).strayed := by
  intro hf
  rw [show (vdriveSetDiskGeometry d).vdrive.imageFormat = d.vdrive.imageFormat by
    rw [geometry_same]] at hf
  unfold Settled Drive.strayed vdriveSetDiskGeometry
  dsimp only
  split
  · simp [rootOf, hf]
  · next hsome => simp [hf, hsome]

theorem geometry_placed : Placed (vdriveSetDiskGeometry d) := fun hf _ =>
  ⟨(geometry_settled hf).1, fun _ => (geometry_settled hf).2.1⟩

theorem geometry_strayed : ¬ (vdriveSetDiskGeometry d).strayed := fun h =>
  (geometry_settled h.1).2.2 h

/-- The BAM stays where it is if it is where it belongs. -/
theorem geometry_spot (h : Placed d) (hcur : 0 ≤ d.currentPart) (hsettled : Settled d) :
    spot (vdriveSetDiskGeometry d).vdrive i = spot d.vdrive i := by
  have hsame := geometry_same d
  by_cases hanchored : d.vdrive.imageFormat = .f1581 → 3 ≤ i
  · rw [spot_anchored hanchored, spot_anchored (by rw [hsame]; exact hanchored), hsame]
  · obtain ⟨hf, hi⟩ : d.vdrive.imageFormat = .f1581 ∧ i < 3 := by
      rw [Classical.not_imp, Nat.not_le] at hanchored
      exact hanchored
    obtain ⟨ht, hs⟩ := hsettled hf
    have hheader := (h hf hcur).1
    rw [spot_1581 hf hi, spot_1581 (by rw [hsame]; exact hf) hi]
    unfold vdriveSetDiskGeometry
    simp only [hheader, hf, ↓reduceIte, ht, hs]

/-- The geometry may be set while blocks are cached if they stay where they are. -/
theorem Tracked.geometry (h : Tracked d)
    (hspot : ∀ i, 0 ≤ d.vdrive.bamState i → spot (vdriveSetDiskGeometry d).vdrive i = spot d.vdrive i) :
    Tracked (vdriveSetDiskGeometry d) := by
  have hsame := geometry_same d
  refine ⟨⟨?_, ?_, ?_⟩, geometry_based h.based, geometry_placed⟩
  · obtain ⟨home, htracks, hhome⟩ := h.cached.tracks
    refine ⟨home, ?_, fun hselected i hi => ?_⟩
    · rw [hsame]
      exact htracks
    · have hd : Selected d := by
        unfold Selected at *
        rw [hsame] at hselected
        exact hselected
      have hi' : 0 ≤ d.vdrive.bamState i := by
        rw [hsame] at hi
        exact hi
      obtain ⟨hold, hknown⟩ := hhome hd i hi'
      rw [hspot i hi']
      refine ⟨?_, hknown⟩
      rw [hold, home_eq, home_eq, hspot i hi', logToPhy_congr (w := (vdriveSetDiskGeometry d).vdrive)
        (v := d.vdrive) (by rw [hsame]) (by rw [hsame]) (by rw [hsame]) (by rw [hsame]) (by rw [hsame]),
        show (vdriveSetDiskGeometry d).slot = d.slot by rw [hsame]]
  · intro i hi
    have hbam := h.cached.dirty i (by rw [hsame] at hi; exact hi)
    unfold InBam bamBlocks at *
    rw [hsame]
    exact hbam
  · have hallocated := h.cached.allocated
    unfold bamBlocks at *
    rw [hsame]
    exact hallocated

/-- A cache without dirty blocks is given up for the BAM of where the drive is now. -/
theorem geometry_setup (h : Clean d) (hbased : Based d) :
    Tracked (vdriveBamSetupBam (vdriveSetDiskGeometry d)) := by
  have hsame := geometry_same d
  refine ⟨(h.of_same ?_ ?_).setup, ?_, ?_⟩
  · rw [hsame]
  · rw [hsame]
  · obtain ⟨hsize, hselected, hstarts⟩ := geometry_based hbased
    exact ⟨hsize, hselected, hstarts⟩
  · exact @geometry_placed d

/-! ## Another drive or partition -/

/-- `e` is `d` somewhere else: the cache and what the switches rely on are the same. -/
structure Moves (d e : Drive) : Prop where
  log : e.log = d.log
  state : e.vdrive.bamState = d.vdrive.bamState
  size : bamBlocks d.vdrive ≤ 33 → bamBlocks e.vdrive ≤ 33
  haspt : e.vdrive.haspt = d.vdrive.haspt
  selected : e.selectedPart = d.selectedPart
  starts : e.cpartstart = d.cpartstart
  headers : ∀ p, e.cheadertrack p ≠ 0 → d.cheadertrack p ≠ 0

theorem Moves.refl (d : Drive) : Moves d d := ⟨rfl, rfl, id, rfl, rfl, rfl, fun _ => id⟩

theorem Moves.trans (h : Moves d e) (h' : Moves e f) : Moves d f where
  log := h'.log.trans h.log
  state := h'.state.trans h.state
  size := fun hd => h'.size (h.size hd)
  haspt := h'.haspt.trans h.haspt
  selected := h'.selected.trans h.selected
  starts := h'.starts.trans h.starts
  headers := fun p hp => h.headers p (h'.headers p hp)

theorem Moves.based (h : Moves d e) (hd : Based d) : Based e where
  size := h.size hd.size
  selected := by
    rw [h.haspt, h.selected]
    exact hd.selected
  starts := by
    intro p hp hheader
    rw [h.starts]
    exact hd.starts p hp (h.headers p hheader)

/-- Another image, format, table or offset. -/
theorem moves_vdrive {v : Vdrive} (hstate : v.bamState = d.vdrive.bamState)
    (hsize : v.bamSize = d.vdrive.bamSize) (hhaspt : v.haspt = d.vdrive.haspt) :
    Moves d { d with vdrive := v } := by
  refine ⟨rfl, hstate, fun h => ?_, hhaspt, rfl, rfl, fun _ => id⟩
  unfold bamBlocks at *
  rwa [hsize]

theorem mount_moves {image : Image} : Moves d (d.mount i image) :=
  ⟨rfl, rfl, id, rfl, rfl, rfl, fun _ => id⟩

theorem findSysHd_same {is : List Nat} {buf : Buf} {v : Vdrive} : (findSysHd is buf v).2 = { v with
      currentOffset := (findSysHd is buf v).2.currentOffset
      sysOffset := (findSysHd is buf v).2.sysOffset } := by
  induction is generalizing buf v with
  | nil => rfl
  | cons i is ih =>
    rw [findSysHd]
    dsimp only
    split
    · rfl
    · split
      · rfl
      · rw [ih]

theorem findSysFd_same {offset : Nat} {v : Vdrive} : (findSysFd offset v).2 = { v with
      currentOffset := (findSysFd offset v).2.currentOffset
      sysOffset := (findSysFd offset v).2.sysOffset } := by
  unfold findSysFd
  dsimp only
  split
  · rfl
  · split <;> rfl

theorem findSys_moves : Moves d (vdriveFindSys d).2 := by
  unfold vdriveFindSys
  split
  · exact Moves.refl d
  · next image _ =>
    refine Moves.trans (@mount_moves d 0 image) ?_
    dsimp only
    split
    · exact moves_vdrive (by rw [findSysFd_same]) (by rw [findSysFd_same]) (by rw [findSysFd_same])
    · exact moves_vdrive (by rw [findSysFd_same]) (by rw [findSysFd_same]) (by rw [findSysFd_same])
    · exact moves_vdrive (by rw [findSysFd_same]) (by rw [findSysFd_same]) (by rw [findSysFd_same])
    · exact moves_vdrive (by rw [findSysHd_same]) (by rw [findSysHd_same]) (by rw [findSysHd_same])
    · exact moves_vdrive rfl rfl rfl

/-- The area of a partition that is in the table is not known yet. -/
theorem readEntries_moves {buf : Buf} {olds : Option Nat} : Moves d (readEntries is buf olds d).2 := by
  induction is generalizing buf olds d with
  | nil => exact Moves.refl d
  | cons i is ih =>
    rw [readEntries]
    dsimp only
    generalize (if olds = some (i * 32 / 256) then (Ipe.ok, buf)
      else vdriveReadSector d.vdrive buf 1 (i * 32 / 256)) = found
    split
    · exact moves_vdrive rfl rfl rfl
    · refine Moves.trans ?_ ih
      refine ⟨rfl, rfl, id, rfl, rfl, rfl, fun p hp => ?_⟩
      dsimp only at hp
      by_cases hk : p = ((if i = 0 then 255 else i : Nat) : Int)
      · rw [hk, Function.update_self] at hp
        contradiction
      · rwa [Function.update_of_ne hk] at hp

theorem readTable_moves : Moves d (vdriveReadPartitionTable d).2 := by
  unfold vdriveReadPartitionTable
  split
  · exact moves_vdrive rfl rfl rfl
  · have hfound : Moves d
        (if d.vdrive.sysOffset = uint32Max then vdriveFindSys d else (.ok, d)).2 := by
      split
      · exact findSys_moves
      · exact Moves.refl d
    dsimp only
    generalize (if d.vdrive.sysOffset = uint32Max then vdriveFindSys d else (.ok, d)) = found at hfound ⊢
    split
    · refine hfound.trans ⟨rfl, rfl, id, rfl, rfl, rfl, fun p hp => ?_⟩
      by_contra hzero
      simp [hzero] at hp
    · let sys := { found.2 with
        vdrive := { found.2.vdrive with
          currentOffset := found.2.vdrive.sysOffset
          imageFormat := .sys } }
      have hsys : Moves found.2 sys := moves_vdrive rfl rfl rfl
      have hread := hsys.trans (@readEntries_moves sys (List.range (maxpart found.2.vdrive + 1))
        (fun _ => 0) none)
      exact (hfound.trans hread).trans (moves_vdrive rfl rfl rfl)

theorem partFormat_size (ptype : Nat) : (partFormat ptype).2.2 / 256 ≤ 33 := by
  unfold partFormat
  rcases ptype with _ | _ | _ | _ | _ | n <;> simp

theorem changeTable_moves {part : Nat} : Moves d (changeTable d part).2 := by
  unfold changeTable
  dsimp only
  split
  · exact Moves.refl d
  · split
    · exact ⟨rfl, rfl, fun _ => partFormat_size _, rfl, rfl, rfl, fun _ => id⟩
    · split
      · exact ⟨rfl, rfl, fun _ => by simp [bamBlocks], rfl, rfl, rfl, fun _ => id⟩
      · exact Moves.refl d

theorem changePart_moves : Moves d (vdriveChangePart d part).2 := by
  unfold vdriveChangePart
  split
  · exact Moves.refl d
  · have hread : Moves d (if d.vdrive.haspt = true ∧ d.vdrive.sysOffset = uint32Max then
        vdriveReadPartitionTable d else (.ok, d)).2 := by
      split
      · exact readTable_moves
      · exact Moves.refl d
    dsimp only
    generalize (if d.vdrive.haspt = true ∧ d.vdrive.sysOffset = uint32Max then
      vdriveReadPartitionTable d else (.ok, d)) = read at hread ⊢
    split
    · exact hread
    · split
      · exact hread.trans changeTable_moves
      · split
        · next image _ => exact hread.trans ⟨rfl, rfl, id, rfl, rfl, rfl, fun _ => id⟩
        · exact hread

theorem changeTable_current {part : Nat} (h : (changeTable d part).1 = .ok) :
    0 ≤ (changeTable d part).2.currentPart := by
  unfold changeTable at h ⊢
  dsimp only at h ⊢
  split
  · next hnone =>
    rw [if_pos hnone] at h
    cases h
  · next hsome =>
    rw [if_neg hsome] at h
    split
    · exact Int.natCast_nonneg _
    · next hsys =>
      rw [if_neg hsys] at h
      split
      · exact Int.natCast_nonneg _
      · next hbad =>
        rw [if_neg hbad] at h
        cases h

/-- A change that works ends at a drive or partition; one that does not leaves a dual drive alone. -/
theorem changePart_current : ((vdriveChangePart d part).1 = .ok → 0 ≤ (vdriveChangePart d part).2.currentPart) ∧
      ((vdriveChangePart d part).1 ≠ .ok → d.vdrive.haspt = false → (vdriveChangePart d part).2 = d) := by
  unfold vdriveChangePart
  split
  · exact ⟨fun h => (by cases h), fun _ _ => rfl⟩
  · next hrange =>
    have hpart : 0 ≤ part := by
      by_contra hneg
      exact hrange (.inl (by omega))
    dsimp only
    by_cases hhaspt : d.vdrive.haspt = true
    · refine ⟨?_, fun _ h => by rw [hhaspt] at h; cases h⟩
      have hread : (if d.vdrive.haspt = true ∧ d.vdrive.sysOffset = uint32Max then
          vdriveReadPartitionTable d else (.ok, d)).2.vdrive.haspt = true := by
        split
        · rw [readTable_moves.haspt, hhaspt]
        · exact hhaspt
      generalize (if d.vdrive.haspt = true ∧ d.vdrive.sysOffset = uint32Max then
        vdriveReadPartitionTable d else (.ok, d)) = read at hread ⊢
      split
      · next hfailed => exact fun h => absurd h hfailed
      · exact changeTable_current
    · simp only [hhaspt, and_false, false_and, Bool.false_eq_true, ↓reduceIte, ne_eq, not_true_eq_false]
      split
      · exact ⟨fun _ => hpart, fun h => absurd rfl h⟩
      · exact ⟨fun h => (by cases h), fun _ _ => rfl⟩

end

end Vice.L3.SwitchArea
