import Vice.L3Drive.SwitchArea

/-!
# No BAM update is lost by a switch

Allocations, frees and switches in any order. The cached BAM belongs to one place, the current
drive, partition or 1581 partition, and has to be written there before it is given up. Two things
go wrong: entering a 1581 partition gives the BAM up without writing it, and a partition command
for the system partition sets the place of the BAM back while another one is cached.

Results:
* `step_tracked`: one operation.
* `run_saves`: every run.
* `enter_loses`: what one that enters an area does.
-/
namespace Vice.L3.SwitchRuns
open Vice.L0.WriteBack Vice.L2.Geometry Vice.L3.Disk Vice.L3.Drive Vice.L3.Bam Vice.L3.BamCalls
  Vice.L3.Directory Vice.L3.PartitionSwitch Vice.L3.SwitchCache Vice.L3.SwitchArea

section
variable {d e : Drive} {part : Int}

/-! ## Switches -/

theorem moveTo_log : (vdriveBamWriteBam d).2.log <:+ (moveTo d part).2.log := by
  unfold moveTo
  dsimp only
  have hmoved : (vdriveChangePart (vdriveBamWriteBam d).2 part).2.log = (vdriveBamWriteBam d).2.log :=
    changePart_moves.log
  split
  · exact (log_kept (geometry_log.trans hmoved)).trans setup_log
  · exact log_kept hmoved

/-- A drive that is nowhere has nothing in its cache that is dirty. -/
theorem lost_cached (h : Clean d) (hselected : ¬ Selected d)
    (hallocated : 0 < bamBlocks d.vdrive → d.bamAllocated = true) : Cached d := by
  obtain ⟨⟨home, htracks⟩, hflushed⟩ := h
  refine ⟨⟨home, htracks, fun hd => absurd hd hselected⟩, fun i hi => ?_, hallocated⟩
  have hclean := hflushed i
  omega

/-- Where a switch has got to: a drive or partition in its own area, or nowhere. -/
structure Arrived (ret : Ipe) (d : Drive) : Prop where
  tracked : Tracked d
  there : ret = .ok → ¬ d.strayed ∧ 0 ≤ d.currentPart
  nowhere : ret ≠ .ok → d.currentPart = -1

theorem geometry_current : (vdriveSetDiskGeometry d).currentPart = d.currentPart := by
  rw [geometry_same]

theorem moveTo_arrived (h : Tracked d) (hok : .failed ∉ (moveTo d part).2.log) :
    Arrived (moveTo d part).1 (moveTo d part).2 ∧ Flushed (moveTo d part).2 := by
  obtain ⟨htracked, hclean⟩ := h.flush (not_failed hok moveTo_log)
  have hmoves : Moves (vdriveBamWriteBam d).2 (vdriveChangePart (vdriveBamWriteBam d).2 part).2 :=
    changePart_moves
  obtain ⟨hthere, hdual⟩ := @changePart_current (vdriveBamWriteBam d).2 part
  have hbased := hmoves.based htracked.based
  have hkept := hclean.of_same hmoves.log hmoves.state
  unfold moveTo
  dsimp only
  split
  · next hchanged =>
    refine ⟨⟨geometry_setup hkept hbased, fun _ => ⟨geometry_strayed, ?_⟩, fun h => absurd rfl h⟩,
      setup_flushed⟩
    change 0 ≤ (vdriveSetDiskGeometry _).currentPart
    rw [geometry_current]
    exact hthere hchanged
  · next hfailed =>
    have hdual := hdual hfailed
    rw [← hmoves.haspt] at hdual
    have hallocated := htracked.cached.allocated
    generalize (vdriveChangePart (vdriveBamWriteBam d).2 part).2 = e at hbased hkept hdual ⊢
    refine ⟨⟨⟨?_, ?_, fun _ hcur => absurd hcur ?_⟩, fun h => absurd h hfailed, fun _ => rfl⟩, ?_⟩
    · refine lost_cached (hkept.of_same rfl ?_) (fun hselected => hselected rfl) ?_
      · dsimp only
        split <;> rfl
      · unfold bamBlocks at *
        dsimp only
        split
        · simp
        · next hsingle =>
          rw [hdual (by simpa using hsingle)]
          exact hallocated
    · obtain ⟨hsize, hselected, hstarts⟩ := hbased
      refine ⟨?_, ?_, hstarts⟩
      · unfold bamBlocks at *
        dsimp only
        split
        · simp
        · exact hsize
      · dsimp only
        split <;> exact hselected
    · change ¬ (0 : Int) ≤ -1
      decide
    · have hflushed := hkept.flushed
      unfold Flushed at *
      dsimp only
      split <;> exact hflushed

theorem restoreArea_log : d.log <:+ (restoreArea d).log := by
  unfold restoreArea
  split
  · exact writeBam_log.trans ((log_kept geometry_log).trans setup_log)
  · exact List.suffix_rfl

theorem restoreArea_arrived {ret : Ipe} (h : Tracked d) (hthere : ret = .ok → 0 ≤ d.currentPart)
    (hnowhere : ret ≠ .ok → d.currentPart = -1) (hok : .failed ∉ (restoreArea d).log) :
    Arrived ret (restoreArea d) ∧ (d.strayed ∨ Flushed d → Flushed (restoreArea d)) := by
  unfold restoreArea at hok ⊢
  split
  · next hstrayed =>
    rw [if_pos hstrayed] at hok
    have hlog : (vdriveBamWriteBam d).2.log <:+
        (vdriveBamSetupBam (vdriveSetDiskGeometry (vdriveBamWriteBam d).2)).log :=
      (log_kept geometry_log).trans setup_log
    obtain ⟨htracked, hclean⟩ := h.flush (not_failed hok hlog)
    have hcurrent : (vdriveBamSetupBam (vdriveSetDiskGeometry (vdriveBamWriteBam d).2)).currentPart =
        d.currentPart := by
      change (vdriveSetDiskGeometry (vdriveBamWriteBam d).2).currentPart = _
      rw [geometry_current, (@writeBam_flushes d).same]
    refine ⟨⟨geometry_setup hclean htracked.based, fun hret => ⟨geometry_strayed, ?_⟩, fun hret => ?_⟩,
      fun _ => setup_flushed⟩
    · rw [hcurrent]
      exact hthere hret
    · rw [hcurrent]
      exact hnowhere hret
  · next hstrayed =>
    exact ⟨⟨h, fun hret => ⟨hstrayed, hthere hret⟩, hnowhere⟩,
      fun hflushed => hflushed.resolve_left hstrayed⟩

theorem realpart_nonneg (hbased : Based d) (hpart : 0 ≤ part) : 0 ≤ vdriveRealpart d part := by
  unfold vdriveRealpart
  split
  · split
    · exact Int.le_refl 0
    · exact hpart
  · next hhaspt =>
    split
    · exact hpart
    · exact hbased.selected (by simpa using hhaspt)

theorem vdriveSwitch_log : d.log <:+ (vdriveSwitch d part).2.log := by
  unfold vdriveSwitch
  split
  · exact List.suffix_rfl
  · dsimp only
    split
    · exact (writeBam_log.trans moveTo_log).trans restoreArea_log
    · exact restoreArea_log

/-- The BAM was flushed if it was another one. -/
theorem vdriveSwitch_arrived (h : Tracked d) (hpart : 0 ≤ part) (hok : .failed ∉ (vdriveSwitch d part).2.log) :
    Arrived (vdriveSwitch d part).1 (vdriveSwitch d part).2 ∧
      (vdriveRealpart d part ≠ d.currentPart ∨ d.strayed → Flushed (vdriveSwitch d part).2) := by
  unfold vdriveSwitch at hok ⊢
  rw [if_neg (Int.not_lt.mpr hpart)] at hok ⊢
  dsimp only at hok ⊢
  by_cases hother : vdriveRealpart d part ≠ d.currentPart
  · rw [if_pos hother] at hok ⊢
    obtain ⟨harrived, hflushed⟩ := moveTo_arrived h (not_failed hok restoreArea_log)
    obtain ⟨hrestored, hkept⟩ := restoreArea_arrived harrived.tracked
      (fun hret => (harrived.there hret).2) harrived.nowhere hok
    exact ⟨hrestored, fun _ => hkept (.inr hflushed)⟩
  · rw [if_neg hother] at hok ⊢
    have hcur : 0 ≤ d.currentPart := by
      rw [← Classical.not_not.mp hother]
      exact realpart_nonneg h.based hpart
    obtain ⟨hrestored, hkept⟩ := @restoreArea_arrived d .ok h (fun _ => hcur)
      (fun hret => absurd rfl hret) hok
    exact ⟨hrestored, fun hmoved => hkept (.inl (hmoved.resolve_left hother))⟩

/-- The area of a channel's file is taken. -/
def enterArea (d : Drive) (p : FilePart) : Drive :=
  vdriveBamSetupBam { (vdriveBamWriteBam d).2 with
    vdrive := { (vdriveBamWriteBam d).2.vdrive with
      headerTrack := p.partstart
      headerSector := 0
      bamTrack := p.partstart
      bamSector := 0
      dirTrack := p.partstart
      dirSector := 3 }
    partStart := p.partstart
    partEnd := p.partend }

theorem vdriveIecSwitch_eq (d : Drive) (p : FilePart) : (vdriveIecSwitch d p).2 =
    let e := (vdriveSwitch d p.partition).2
    if (vdriveSwitch d p.partition).1 = .ok ∧ e.vdrive.imageFormat = .f1581 ∧
        (e.partStart ≠ p.partstart ∨ e.partEnd ≠ p.partend) then enterArea e p else e := by
  unfold vdriveIecSwitch
  dsimp only
  split <;> rfl

theorem enterArea_log {p : FilePart} : (vdriveBamWriteBam d).2.log <:+ (enterArea d p).log :=
  List.suffix_cons ..

/-- That is an area which does not belong to the partition, and the BAM is written first. -/
theorem enterArea_tracked {p : FilePart} (h : Tracked d) (hstrayed : ¬ d.strayed)
    (hf : d.vdrive.imageFormat = .f1581) (hother : d.partStart ≠ p.partstart ∨ d.partEnd ≠ p.partend)
    (hok : .failed ∉ (enterArea d p).log) : Tracked (enterArea d p) := by
  obtain ⟨htracked, hclean⟩ := h.flush (not_failed hok enterArea_log)
  obtain ⟨hsize, hselected, hstarts⟩ := htracked.based
  refine ⟨?_, ⟨hsize, hselected, hstarts⟩, fun hformat hcur => ?_⟩
  · apply Clean.setup
    exact hclean.of_same rfl rfl
  refine ⟨(htracked.placed hformat hcur).1, fun hhome => absurd ⟨hformat, ?_⟩ hhome⟩
  change p.partstart ≠ (vdriveBamWriteBam d).2.cpartstart (vdriveBamWriteBam d).2.currentPart ∨
    p.partend ≠ (vdriveBamWriteBam d).2.cpartend (vdriveBamWriteBam d).2.currentPart
  rw [(@writeBam_flushes d).same]
  have harea : d.partStart = d.cpartstart d.currentPart ∧ d.partEnd = d.cpartend d.currentPart := by
    unfold Drive.strayed at hstrayed
    rw [not_and, not_or, Classical.not_not, Classical.not_not] at hstrayed
    exact hstrayed hf
  dsimp only
  rw [← harea.1, ← harea.2]
  exact hother.imp Ne.symm Ne.symm

theorem iecSwitch_log {p : FilePart} : d.log <:+ (vdriveIecSwitch d p).2.log := by
  rw [vdriveIecSwitch_eq]
  dsimp only
  split
  · exact (vdriveSwitch_log.trans writeBam_log).trans enterArea_log
  · exact vdriveSwitch_log

theorem iecSwitch_tracked {p : FilePart} (h : Tracked d) (hok : .failed ∉ (vdriveIecSwitch d p).2.log) :
    Tracked (vdriveIecSwitch d p).2 := by
  rw [vdriveIecSwitch_eq] at hok ⊢
  dsimp only at hok ⊢
  split
  · next harea =>
    rw [if_pos harea] at hok
    obtain ⟨harrived, -⟩ := vdriveSwitch_arrived h (Int.natCast_nonneg _)
      (not_failed hok (writeBam_log.trans enterArea_log))
    exact enterArea_tracked harrived.tracked (harrived.there harea.1).1 harea.2.1 harea.2.2 hok
  · next harea =>
    rw [if_neg harea] at hok
    exact (vdriveSwitch_arrived h (Int.natCast_nonneg _) hok).1.tracked

/-! ## 1581 partitions -/

theorem commandReturn_log {origpart : Int} : (vdriveCommandReturn d origpart).log = d.log := by
  unfold vdriveCommandReturn
  split
  · rfl
  · split
    · rw [geometry_same]
    · rfl

/-- Back to the partition of before a command, if the BAM does not move by that. -/
theorem commandReturn_tracked {origpart : Int} (h : Tracked d)
    (hspot : 0 ≤ d.currentPart → origpart = d.currentPart →
      ∀ i, 0 ≤ d.vdrive.bamState i → spot (vdriveSetDiskGeometry d).vdrive i = spot d.vdrive i) :
    Tracked (vdriveCommandReturn d origpart) := by
  unfold vdriveCommandReturn
  split
  · exact h
  · next horig =>
    split
    · next hsame => exact h.geometry (hspot (by omega) hsame)
    · exact h

/-- After a switch it does not. -/
theorem Arrived.returned {ret : Ipe} {origpart : Int} (h : Arrived ret d) :
    Tracked (vdriveCommandReturn d origpart) := by
  apply commandReturn_tracked h.tracked
  intro hcur _ i _
  have hret : ret = .ok := by
    by_contra hfailed
    have hnowhere := h.nowhere hfailed
    omega
  apply geometry_spot h.tracked.placed hcur
  intro hf
  exact (h.tracked.placed hf hcur).2 (h.there hret).1 hf

theorem resetPart_log : d.log <:+ (resetPart d).log := by
  refine writeBam_log.trans (List.IsSuffix.trans ?_ setup_log)
  exact log_kept geometry_log

theorem resetPart_arrived (h : Tracked d) (hcur : 0 ≤ d.currentPart) (hok : .failed ∉ (resetPart d).log) :
    Arrived .ok (resetPart d) := by
  have hlog : (vdriveBamWriteBam d).2.log <:+ (resetPart d).log := by
    refine List.IsSuffix.trans ?_ setup_log
    exact log_kept geometry_log
  obtain ⟨htracked, hclean⟩ := h.flush (not_failed hok hlog)
  have hcurrent : (vdriveBamWriteBam d).2.currentPart = d.currentPart := by
    rw [(@writeBam_flushes d).same]
  unfold resetPart
  dsimp only
  generalize (vdriveBamWriteBam d).2 = e at htracked hclean hcurrent ⊢
  obtain ⟨hsize, hselected, hstarts⟩ := htracked.based
  refine ⟨geometry_setup (hclean.of_same rfl rfl) ⟨hsize, hselected, fun p hp hheader => ?_⟩,
    fun _ => ⟨geometry_strayed, ?_⟩, fun hret => absurd rfl hret⟩
  · apply hstarts p hp
    intro hzero
    apply hheader
    dsimp only
    by_cases hpcur : p = e.currentPart
    · rw [hpcur, Function.update_self]
    · rw [Function.update_of_ne hpcur, hzero]
  · change 0 ≤ (vdriveSetDiskGeometry _).currentPart
    rw [geometry_current]
    exact hcurrent ▸ hcur

theorem enterable_start {slot : Buf} {ts te : Nat} (h : enterable d slot = some (ts, te)) :
    d.partStart ≤ ts := by
  unfold enterable at h
  dsimp only at h
  split at h
  · split at h
    · cases h
    · next hinside =>
      cases h
      omega
  · cases h

/-- The area that is entered gets that of the partition. -/
theorem enterPart_arrived {slot : Buf} {ts te : Nat} (h : Arrived .ok d) (hflushed : Flushed d)
    (hslot : enterable d slot = some (ts, te)) : Arrived .ok (enterPart d ts te) := by
  obtain ⟨hstrayed, hcur⟩ := h.there rfl
  obtain ⟨hsize, hselected, hstarts⟩ := h.tracked.based
  refine ⟨⟨?_, ⟨hsize, hselected, fun p hp hheader => ?_⟩, fun hf _ => ⟨?_, fun _ _ => ?_⟩⟩,
    fun _ => ⟨?_, hcur⟩, fun hret => absurd rfl hret⟩
  · apply Clean.setup
    exact (h.tracked.cached.clean hflushed).of_same rfl rfl
  · change Function.update d.cheadertrack d.currentPart ts p ≠ 0 at hheader
    change 1 ≤ Function.update d.cpartstart d.currentPart ts p
    by_cases hpcur : p = d.currentPart
    · rw [hpcur, Function.update_self] at hheader ⊢
      exact Nat.one_le_iff_ne_zero.mpr hheader
    · rw [Function.update_of_ne hpcur] at hheader ⊢
      exact hstarts p hp hheader
  · change Function.update d.cheadertrack d.currentPart ts d.currentPart ≠ 0
    rw [Function.update_self]
    -- the area before has a first track, and the new one is in it
    have harea : d.partStart = d.cpartstart d.currentPart := by
      unfold Drive.strayed at hstrayed
      rw [not_and, not_or, Classical.not_not, Classical.not_not] at hstrayed
      exact (hstrayed hf).1
    have hheader := (h.tracked.placed hf hcur).1
    have hfirst := hstarts d.currentPart hcur hheader
    have hstart := enterable_start hslot
    omega
  · simp [enterPart, vdriveBamSetupBam]
  · simp [enterPart, vdriveBamSetupBam, Drive.strayed]

/-! ## Operations -/

theorem called_log {w : Vdrive} : d.log <:+ (d.called w).log := by
  unfold Drive.called
  dsimp only
  generalize 33 = n
  induction n with
  | zero => exact List.suffix_rfl
  | succ n ih =>
    rw [noteBlocks]
    dsimp only
    split
    · split
      · exact (ih.trans (List.suffix_cons ..)).trans (List.suffix_cons ..)
      · exact ih.trans (List.suffix_cons ..)
    · split
      · exact ih.trans (List.suffix_cons ..)
      · exact ih

/-- What may happen to a drive. -/
inductive SwitchOp
  | allocateSector (t s : Nat)
  | freeSector (t s : Nat)
  | switch (part : Int)
  | chpart (drive : Nat) (name : List UInt8)
  | iecSwitch (p : FilePart)

def step (fuel : Nat) (d : Drive) : SwitchOp → Option Drive
  | .allocateSector t s => some (d.called (vdriveBamAllocateSector d.vdrive t s).2)
  | .freeSector t s => some (d.called (vdriveBamFreeSector d.vdrive t s).2)
  | .switch part => some (vdriveSwitch d part).2
  | .chpart drive name => (vdriveCommandChpart fuel d drive name).map Prod.snd
  | .iecSwitch p => some (vdriveIecSwitch d p).2

def run (fuel : Nat) : List SwitchOp → Drive → Option Drive
  | [], d => some d
  | op :: ops, d => (step fuel d op).bind (run fuel ops)

/-- The partition `name` is not entered, or nothing is lost by that. -/
def EntersClean (fuel : Nat) (d : Drive) (drive : Nat) (name : List UInt8) : Prop :=
  vdriveRealpart d drive ≠ d.currentPart ∨ d.strayed ∨ Flushed d ∨ name = [] ∨
    ∀ slot, findPart fuel d.vdrive name = some (some slot) → enterable d slot = none

/-- The operation does not give up or move a cached BAM that has not been written. -/
def Keeps (fuel : Nat) (d : Drive) : SwitchOp → Prop
  | .allocateSector t s | .freeSector t s => EntryInside d.vdrive t s
  | .switch _ | .iecSwitch _ => True
  | .chpart drive name =>
    if drive = 255 then 0 ≤ d.currentPart → Settled d ∨ ∀ i, d.vdrive.bamState i < 0
    else EntersClean fuel d drive name

theorem commandSwitch_eq {drive : Nat} : vdriveCommandSwitch d drive =
    if drive = 255 then (.notReady, d) else vdriveSwitch d drive := by
  unfold vdriveCommandSwitch
  by_cases hsys : drive = 255
  · simp [hsys]
  · rw [if_neg hsys, if_neg (by omega)]

theorem commandSwitch_log : d.log <:+ (vdriveCommandSwitch d part).2.log := by
  unfold vdriveCommandSwitch
  split
  · exact List.suffix_rfl
  · exact vdriveSwitch_log

theorem chpart_log {fuel drive : Nat} {name : List UInt8} {message : PartStatus × Nat × Nat}
    (h : vdriveCommandChpart fuel d drive name = some (message, e)) :
    (vdriveCommandSwitch d drive).2.log <:+ e.log := by
  unfold vdriveCommandChpart at h
  dsimp only at h
  generalize vdriveCommandSwitch d drive = switched at h ⊢
  split at h
  · cases h
    exact log_kept commandReturn_log
  · split at h
    · cases h
      exact resetPart_log.trans (log_kept commandReturn_log)
    · obtain ⟨found, -, hfound⟩ := Option.map_eq_some_iff.mp h
      split at hfound
      · cases hfound
        exact log_kept commandReturn_log
      · split at hfound
        · cases hfound
          exact log_kept commandReturn_log
        · cases hfound
          refine List.IsSuffix.trans ?_ (log_kept commandReturn_log)
          exact List.suffix_cons ..

/-- A partition is entered with a cache that is clean. -/
theorem entersClean_flushed {fuel drive : Nat} {name : List UInt8} {slot : Buf} {area : Nat × Nat}
    (hkeep : EntersClean fuel d drive name) (hname : name ≠ [])
    (hmoved : vdriveRealpart d drive ≠ d.currentPart ∨ d.strayed → Flushed (vdriveSwitch d drive).2)
    (hfound : findPart fuel (vdriveSwitch d drive).2.vdrive name = some (some slot))
    (hslot : enterable (vdriveSwitch d drive).2 slot = some area) :
    Flushed (vdriveSwitch d drive).2 := by
  by_cases hstays : vdriveRealpart d drive = d.currentPart ∧ ¬ d.strayed
  · rw [vdriveSwitch_stays (Int.natCast_nonneg _) hstays.1 hstays.2] at hfound hslot ⊢
    rcases hkeep with hkeep | hkeep | hkeep | hkeep | hkeep
    · exact absurd hstays.1 hkeep
    · exact absurd hkeep hstays.2
    · exact hkeep
    · exact absurd hkeep hname
    · rw [hkeep slot hfound] at hslot
      cases hslot
  · apply hmoved
    rw [not_and, Classical.not_not] at hstays
    by_cases hreal : vdriveRealpart d drive = d.currentPart
    · exact .inr (hstays hreal)
    · exact .inl hreal

theorem chpart_tracked {fuel drive : Nat} {name : List UInt8} {message : PartStatus × Nat × Nat}
    (h : Tracked d) (hkeep : Keeps fuel d (.chpart drive name))
    (hstep : vdriveCommandChpart fuel d drive name = some (message, e)) (hok : .failed ∉ e.log) :
    Tracked e := by
  have hlog := chpart_log hstep
  unfold vdriveCommandChpart at hstep
  dsimp only [Keeps] at hkeep
  rw [commandSwitch_eq] at hstep hlog
  dsimp only at hstep
  by_cases hsys : drive = 255
  · -- refused, but the geometry is set all the same
    rw [if_pos hsys] at hkeep hstep
    dsimp only at hstep
    rw [if_pos (by simp)] at hstep
    cases hstep
    apply commandReturn_tracked h
    intro hcur _ i hi
    rcases hkeep hcur with hsettled | hempty
    · exact geometry_spot h.placed hcur hsettled
    · have hout := hempty i
      omega
  · rw [if_neg hsys] at hkeep hstep hlog
    obtain ⟨harrived, hmoved⟩ := vdriveSwitch_arrived h (Int.natCast_nonneg drive) (not_failed hok hlog)
    split at hstep
    · cases hstep
      exact harrived.returned
    · next hret =>
      rw [Classical.not_not.mp hret] at harrived
      split at hstep
      · cases hstep
        rw [commandReturn_log] at hok
        exact (resetPart_arrived harrived.tracked (harrived.there rfl).2 hok).returned
      · next hname =>
        obtain ⟨found, hfind, hfound⟩ := Option.map_eq_some_iff.mp hstep
        split at hfound
        · cases hfound
          exact harrived.returned
        · split at hfound
          · cases hfound
            exact harrived.returned
          · next hslot =>
            cases hfound
            have hflushed := entersClean_flushed hkeep hname hmoved hfind hslot
            exact (enterPart_arrived harrived hflushed hslot).returned

theorem step_log {fuel : Nat} {op : SwitchOp} (h : step fuel d op = some e) : d.log <:+ e.log := by
  cases op with
  | allocateSector t s =>
    cases h
    exact called_log
  | freeSector t s =>
    cases h
    exact called_log
  | switch part =>
    cases h
    exact vdriveSwitch_log
  | chpart drive name =>
    obtain ⟨⟨message, e'⟩, hchpart, rfl⟩ := Option.map_eq_some_iff.mp h
    exact commandSwitch_log.trans (chpart_log hchpart)
  | iecSwitch p =>
    cases h
    exact iecSwitch_log

/-- A call of the BAM leaves the drive where it is. -/
theorem called_tracked {w : Vdrive} (h : Tracked d) (hcall : Caches (InBam d.vdrive) d.vdrive w)
    (hok : .failed ∉ (d.called w).log) : Tracked (d.called w) := by
  obtain ⟨hsize, hselected, hstarts⟩ := h.based
  refine ⟨called_cached h.cached hsize hcall hok, ⟨?_, ?_, hstarts⟩, ?_⟩
  · unfold bamBlocks at *
    change w.bamSize / 256 ≤ 33
    rw [hcall.same]
    exact hsize
  · change w.haspt = true → _
    rw [hcall.same]
    exact hselected
  · have hplaced := h.placed
    unfold Placed Settled Drive.strayed at *
    change w.imageFormat = _ → 0 ≤ d.currentPart → d.cheadertrack d.currentPart ≠ 0 ∧
      (¬ (w.imageFormat = _ ∧ _) → w.imageFormat = _ → w.bamTrack = _ ∧ w.bamSector = _)
    rw [hcall.same]
    exact hplaced

theorem step_tracked {fuel : Nat} {op : SwitchOp} (h : Tracked d) (hkeep : Keeps fuel d op)
    (hstep : step fuel d op = some e) (hok : .failed ∉ e.log) : Tracked e := by
  cases op with
  | allocateSector t s =>
    cases hstep
    exact called_tracked h (allocateSector_caches hkeep) hok
  | freeSector t s =>
    cases hstep
    exact called_tracked h (freeSector_caches hkeep) hok
  | switch part =>
    cases hstep
    by_cases hpart : part < 0
    · rwa [vdriveSwitch, if_pos hpart]
    · exact (vdriveSwitch_arrived h (Int.not_lt.mp hpart) hok).1.tracked
  | chpart drive name =>
    obtain ⟨⟨message, e'⟩, hchpart, rfl⟩ := Option.map_eq_some_iff.mp hstep
    exact chpart_tracked h hkeep hchpart hok
  | iecSwitch p =>
    cases hstep
    exact iecSwitch_tracked h hok

/-! ## Runs -/

/-- Each operation finds the drive as `Keeps` wants it. -/
def AllKeep (fuel : Nat) : List SwitchOp → Drive → Prop
  | [], _ => True
  | op :: ops, d => Keeps fuel d op ∧ ∀ e, step fuel d op = some e → AllKeep fuel ops e

/-- A drive with an image attached: no block has been read yet. -/
structure Started (d : Drive) : Prop where
  log : d.log = []
  empty : ∀ i, d.vdrive.bamState i < 0
  allocated : 0 < bamBlocks d.vdrive → d.bamAllocated = true
  based : Based d
  placed : Placed d

theorem Started.tracked (h : Started d) : Tracked d := by
  refine ⟨⟨⟨d.home, ⟨?_, fun i => ?_, fun i hi => ?_⟩, fun _ i hi => ?_⟩, fun i hi => ?_, h.allocated⟩,
    h.based, h.placed⟩
  · rw [h.log]
    trivial
  · have hempty := h.empty i
    rw [h.log]
    simp [ledger]
    omega
  · have hempty := h.empty i
    omega
  · have hempty := h.empty i
    omega
  · have hempty := h.empty i
    omega

theorem run_log {fuel : Nat} {ops : List SwitchOp} (h : run fuel ops d = some e) : d.log <:+ e.log := by
  induction ops generalizing d with
  | nil =>
    cases h
    exact List.suffix_rfl
  | cons op ops ih =>
    obtain ⟨f, hstep, hrest⟩ := Option.bind_eq_some_iff.mp h
    exact (step_log hstep).trans (ih hrest)

theorem run_tracked {fuel : Nat} {ops : List SwitchOp} (h : Tracked d) (hkeep : AllKeep fuel ops d)
    (hrun : run fuel ops d = some e) (hok : .failed ∉ e.log) : Tracked e := by
  induction ops generalizing d with
  | nil =>
    cases hrun
    exact h
  | cons op ops ih =>
    obtain ⟨f, hstep, hrest⟩ := Option.bind_eq_some_iff.mp hrun
    have hf := step_tracked h hkeep.1 hstep (not_failed hok (run_log hrest))
    exact ih hf (hkeep.2 f hstep) hrest

/-- In a run without errors of the disk, no change of the BAM is lost. -/
theorem run_saves {fuel : Nat} {ops : List SwitchOp} (h : Started d) (hkeep : AllKeep fuel ops d)
    (hrun : run fuel ops d = some e) (hok : .failed ∉ e.log) : Saved e.log := by
  obtain ⟨home, htracks, -⟩ := (run_tracked h.tracked hkeep hrun hok).cached.tracks
  exact htracks.saved

end

/-! ## Two ways to lose one -/

/-- A 1581 disk with a partition "P" on the tracks 1 to 3. -/
def disk81 : Image where
  shape := ⟨.d81, 80, 40⟩
  readOnly := false
  blocks := 3200
  data := fun n k =>
    if n = 1561 then (if 0x10 ≤ k then 0xff else 0)
    else if n = 1563 then
      [0, 0xff, 0x85, 1, 0, 0x50].getD k (if k = 30 then 120 else if k < 21 then 0xa0 else 0)
    else 0
  errorMap := none

/-- The unit with this disk. -/
def drive81 : Drive where
  vdrive := {
    image := disk81
    imageFormat := .f1581
    numTracks := 80
    haspt := false
    currentOffset := 0
    sysOffset := uint32Max
    parts := ⟨fun _ => 0, fun _ => 0, fun _ => 0⟩
    bamTrack := 40
    bamSector := 0
    headerTrack := 40
    headerSector := 0
    dirTrack := 40
    dirSector := 3
    d90toggle := 0
    bamSize := 0x300
    bam := fun _ => 0
    bamState := fun _ => -1
    bamTracks := fun _ => -1
    bamSectors := fun _ => -1 }
  slot := 0
  images := fun _ => none
  bamAllocated := true
  partStart := 1
  partEnd := 80
  currentPart := 0
  selectedPart := 0
  cheadertrack := fun p => if p = 0 then 40 else 0
  cheadersector := fun _ => 0
  cdirtrack := fun p => if p = 0 then 40 else 0
  cdirsector := fun p => if p = 0 then 3 else 0
  cpartstart := fun p => if p = 0 then 1 else 0
  cpartend := fun p => if p = 0 then 80 else 0
  log := []

theorem drive81_started : Started drive81 := by
  refine ⟨rfl, fun _ => ?_, fun _ => rfl, ⟨?_, ?_, fun p _ hheader => ?_⟩,
    fun _ _ => ⟨?_, fun _ _ => ⟨rfl, rfl⟩⟩⟩
  · change (-1 : Int) < 0
    decide
  · decide
  · decide
  · change (if p = 0 then 40 else 0) ≠ 0 at hheader
    change 1 ≤ if p = 0 then 1 else 0
    split
    · exact Nat.le_refl 1
    · next hp =>
      rw [if_neg hp] at hheader
      contradiction
  · decide

theorem drive81_entry : EntryInside drive81.vdrive 1 0 := by
  intro bamp hbamp
  have hentry : (vdriveBamGetTrackEntry drive81.vdrive 1 0).1 = some 272 := by decide
  rw [hentry] at hbamp
  cases hbamp
  decide

theorem enter_log : (run 9 [.allocateSector 1 0, .chpart 0 [0x50]] drive81).map (fun e => e.log) =
    some [.discarded, .dirtied 1, .loaded 1 (0, some (40, 1))] := by
  decide +kernel

/-- A sector is allocated and the partition entered: the BAM block 40/1 is not written. -/
theorem enter_loses : Started drive81 ∧ EntryInside drive81.vdrive 1 0 ∧
    ∃ e, run 9 [.allocateSector 1 0, .chpart 0 [0x50]] drive81 = some e ∧
      .failed ∉ e.log ∧ ¬ Saved e.log := by
  obtain ⟨e, hrun, hlog⟩ := Option.map_eq_some_iff.mp enter_log
  refine ⟨drive81_started, drive81_entry, e, hrun, ?_, ?_⟩
  · rw [hlog]
    decide
  · rw [hlog]
    exact @not_saved_of_mem Place _ _ 1 [] rfl

theorem reset_log : (run 9 [.allocateSector 1 0, .chpart 0 []] drive81).map (fun e => e.log) =
    some [.discarded, .wrote 1 (0, some (40, 1)), .dirtied 1, .loaded 1 (0, some (40, 1))] := by
  decide +kernel

/-- The way back to the root writes it. -/
theorem run_saves_reset : ∃ e, run 9 [.allocateSector 1 0, .chpart 0 []] drive81 = some e ∧ Saved e.log := by
  obtain ⟨e, hrun, hlog⟩ := Option.map_eq_some_iff.mp reset_log
  have hkeep : AllKeep 9 [.allocateSector 1 0, .chpart 0 []] drive81 := by
    refine ⟨drive81_entry, fun f _ => ⟨?_, fun _ _ => trivial⟩⟩
    exact .inr (.inr (.inr (.inl rfl)))
  refine ⟨e, hrun, run_saves drive81_started hkeep hrun ?_⟩
  rw [hlog]
  decide

end Vice.L3.SwitchRuns
