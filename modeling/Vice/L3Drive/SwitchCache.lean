import Vice.L3Drive.BamCalls
import Vice.L3Drive.PartitionSwitch

/-!
# The cached BAM and its log

The cached blocks belong to one place, the BAM of the current drive, partition or 1581 partition,
and the log of the drive knows where each of them came from.

Results:
* `called_cached`: calls of the BAM keep it so.
* `writeBam_flushed`: a flush leaves nothing that a discard could lose.
-/
namespace Vice.L3.SwitchCache
open Vice.L0.WriteBack Vice.L2.Geometry Vice.L3.Disk Vice.L3.Drive Vice.L3.Bam Vice.L3.BamCalls
  Vice.L3.Directory Vice.L3.PartitionSwitch

section
variable {d e : Drive} {v w : Vdrive} {i n t s : Nat} {err : Ipe} {is : List Nat}

/-! ## Where the blocks belong -/

/-- A drive and partition is selected. -/
def Selected (d : Drive) : Prop := d.vdrive.currentOffset ≠ uint32Max

/-- The track and sector of BAM block `i`. -/
def spot (v : Vdrive) (i : Nat) : Int × Int := ((locateBam v).bamTracks i, (locateBam v).bamSectors i)

theorem logToPhy_congr (hshape : w.image.shape = v.image.shape)
    (hoffset : w.currentOffset = v.currentOffset) (hhaspt : w.haspt = v.haspt)
    (hformat : w.imageFormat = v.imageFormat) (htracks : w.numTracks = v.numTracks) :
    vdriveLogToPhy w t s = vdriveLogToPhy v t s := by
  unfold vdriveLogToPhy partitionOffset cmdAddress Vdrive.isHd
  rw [hshape, hoffset, hhaspt, hformat, htracks]

theorem home_eq : d.home i =
    (d.slot, vdriveLogToPhy d.vdrive (spot d.vdrive i).1.toNat (spot d.vdrive i).2.toNat) := by
  unfold Drive.home spot
  dsimp only
  rw [logToPhy_congr (v := d.vdrive)]
  all_goals
    unfold locateBam
    split <;> rfl

theorem spot_1581 (hf : v.imageFormat = .f1581) (hi : i < 3) :
    spot v i = ((v.bamTrack : Int), (v.bamSector : Int) + i) := by
  unfold spot locateBam
  rw [if_pos hf]
  simp [hi]

theorem spot_anchored (hi : v.imageFormat = .f1581 → 3 ≤ i) : spot v i = (v.bamTracks i, v.bamSectors i) := by
  unfold spot locateBam
  split
  · next hf =>
    have h3 := hi hf
    simp [show ¬ i < 3 by omega]
  · rfl

/-- Nothing that a call of the BAM does moves a block that has its place. -/
theorem spot_eq {S : Nat → Prop} (h : Caches S v w) (hi : 0 ≤ (spot v i).1) : spot w i = spot v i := by
  by_cases hanchored : v.imageFormat = .f1581 → 3 ≤ i
  · rw [spot_anchored hanchored] at hi ⊢
    rw [spot_anchored (by rwa [h.same.format])]
    obtain ⟨ht, hs⟩ := h.places i hanchored hi
    rw [ht, hs]
  · obtain ⟨hf, h3⟩ : v.imageFormat = .f1581 ∧ i < 3 := by
      by_cases hf : v.imageFormat = .f1581
      · exact ⟨hf, Nat.lt_of_not_le fun h3 => hanchored fun _ => h3⟩
      · exact absurd (fun h => absurd h hf) hanchored
    rw [spot_1581 hf h3, spot_1581 (h.same.format.trans hf) h3, h.same]

/-! ## The cache and its log -/

/-- The log explains the cached blocks, which belong where the BAM of the drive is. -/
structure Cached (d : Drive) : Prop where
  tracks : ∃ home, Tracks d.log d.vdrive.bamState home ∧
    (Selected d → ∀ i, 0 ≤ d.vdrive.bamState i → home i = d.home i ∧ 0 ≤ (spot d.vdrive i).1)
  dirty : ∀ i, 0 < d.vdrive.bamState i → InBam d.vdrive i
  allocated : 0 < bamBlocks d.vdrive → d.bamAllocated = true

/-- No block is dirty. -/
def Flushed (d : Drive) : Prop := ∀ i, d.vdrive.bamState i ≤ 0

/-- The cache may be given up. -/
structure Clean (d : Drive) : Prop where
  tracks : ∃ home, Tracks d.log d.vdrive.bamState home
  flushed : Flushed d

theorem Clean.of_same (h : Clean d) (hlog : e.log = d.log)
    (hstate : e.vdrive.bamState = d.vdrive.bamState) : Clean e := by
  obtain ⟨⟨home, htracks⟩, hflushed⟩ := h
  refine ⟨⟨home, ?_⟩, ?_⟩
  · rwa [hlog, hstate]
  · unfold Flushed
    rwa [hstate]

theorem Cached.clean (h : Cached d) (hflushed : Flushed d) : Clean d := by
  obtain ⟨home, htracks, -⟩ := h.tracks
  exact ⟨⟨home, htracks⟩, hflushed⟩

theorem Clean.setup (h : Clean d) : Cached (vdriveBamSetupBam d) where
  tracks := by
    obtain ⟨home, htracks⟩ := h.tracks
    refine ⟨home, htracks.discarded h.flushed (by simp [vdriveBamSetupBam]), fun _ i hi => ?_⟩
    exact absurd hi (by change ¬ (0 : Int) ≤ -1; decide)
  dirty := by
    intro i hi
    exact absurd hi (by change ¬ (0 : Int) < -1; decide)
  allocated := by
    intro hblocks
    have hsize : d.vdrive.bamSize ≠ 0 := by
      intro hzero
      change 0 < d.vdrive.bamSize / 256 at hblocks
      rw [hzero] at hblocks
      omega
    simpa [vdriveBamSetupBam] using hsize

theorem setup_flushed : Flushed (vdriveBamSetupBam d) := fun _ => by
  change (-1 : Int) ≤ 0
  decide

/-! ## Calls of the BAM -/

theorem noteBlocks_mono {x : Event Place} (hx : x ∈ noteBlocks d e n) : x ∈ noteBlocks d e (n + 1) := by
  rw [noteBlocks]
  split <;> split <;> simp [hx]

theorem loadEvent_cases (d : Drive) (i : Nat) :
    loadEvent d i = .failed ∨ (loadEvent d i = .loaded i (d.home i) ∧ 0 ≤ d.vdrive.bamTracks i) := by
  unfold loadEvent
  dsimp only
  split
  · next h => exact .inr ⟨rfl, h.1⟩
  · exact .inl rfl

/-- The states while the blocks are gone through. -/
def statesBelow (d e : Drive) (n i : Nat) : Int :=
  if i < n then e.vdrive.bamState i else d.vdrive.bamState i

def homesBelow (d e : Drive) (home : Nat → Place) (n i : Nat) : Place :=
  if i < n ∧ d.vdrive.bamState i < 0 then e.home i else home i

theorem statesBelow_self : statesBelow d e n n = d.vdrive.bamState n := if_neg (Nat.lt_irrefl n)

theorem statesBelow_last : statesBelow d e (n + 1) n = e.vdrive.bamState n :=
  if_pos (Nat.lt_succ_self n)

theorem statesBelow_other (hi : i ≠ n) : statesBelow d e (n + 1) i = statesBelow d e n i := by
  unfold statesBelow
  have hlt : i < n + 1 ↔ i < n := by omega
  simp only [hlt]

theorem homesBelow_other {home : Nat → Place} (hi : i ≠ n) :
    homesBelow d e home (n + 1) i = homesBelow d e home n i := by
  unfold homesBelow
  have hlt : i < n + 1 ↔ i < n := by omega
  simp only [hlt]

theorem homesBelow_kept {home : Nat → Place} (hn : 0 ≤ d.vdrive.bamState n) :
    homesBelow d e home (n + 1) n = homesBelow d e home n n := by
  unfold homesBelow
  rw [if_neg (by omega), if_neg (by omega)]

/-- One block more: it was loaded, or marked, or both, or nothing happened to it. -/
theorem noteBlock_tracks {home : Nat → Place} {log : List (Event Place)}
    (hlog : Tracks log (statesBelow d e n) (homesBelow d e home n))
    (hdirty : 0 < d.vdrive.bamState n → 0 < e.vdrive.bamState n)
    (hload : d.vdrive.bamState n < 0 → 0 ≤ e.vdrive.bamState n →
      loadEvent e n = .loaded n (e.home n)) :
    let log := if d.vdrive.bamState n < 0 ∧ 0 ≤ e.vdrive.bamState n then loadEvent e n :: log else log
    Tracks (if d.vdrive.bamState n ≤ 0 ∧ 0 < e.vdrive.bamState n then .dirtied n :: log else log)
      (statesBelow d e (n + 1)) (homesBelow d e home (n + 1)) := by
  intro log'
  have hself := @statesBelow_self d e n
  have hlast := @statesBelow_last d e n
  by_cases hnew : d.vdrive.bamState n < 0 ∧ 0 ≤ e.vdrive.bamState n
  · have hmid : Tracks log' (Function.update (statesBelow d e n) n 0) (homesBelow d e home (n + 1)) := by
      have hhome : homesBelow d e home (n + 1) n = e.home n := if_pos ⟨Nat.lt_succ_self n, hnew.1⟩
      rw [show log' = .loaded n (e.home n) :: log from (if_pos hnew).trans (by rw [hload hnew.1 hnew.2])]
      exact hlog.loaded hhome fun j hj => homesBelow_other hj
    split
    · next hmark =>
      refine (hmid.dirtied (i := n) (by simp)).congr (fun j => ?_) (fun j => ?_) fun _ _ => rfl
      · by_cases hj : j = n
        · simp [hj, hlast, hmark.2]
        · simp [hj, statesBelow_other hj]
      · by_cases hj : j = n
        · simp [hj]
        · simp [hj, statesBelow_other hj]
    · next hmark =>
      have hzero : ¬ 0 < e.vdrive.bamState n := fun hpos => hmark ⟨by omega, hpos⟩
      refine hmid.congr (fun j => ?_) (fun j => ?_) fun _ _ => rfl
      · by_cases hj : j = n
        · simp [hj, hlast]
          omega
        · simp [hj, statesBelow_other hj]
      · by_cases hj : j = n
        · simp [hj]
        · simp [hj, statesBelow_other hj]
  · have hin : 0 ≤ e.vdrive.bamState n → 0 ≤ d.vdrive.bamState n := by
      intro he
      by_contra hd
      exact hnew ⟨by omega, he⟩
    have hhomes : ∀ j, 0 ≤ statesBelow d e (n + 1) j →
        homesBelow d e home (n + 1) j = homesBelow d e home n j := by
      intro j hj
      by_cases hjn : j = n
      · rw [hjn, hlast] at hj
        rw [hjn, homesBelow_kept (hin hj)]
      · exact homesBelow_other hjn
    rw [show log' = log from if_neg hnew]
    split
    · next hmark =>
      refine (hlog.dirtied (i := n) (by rw [hself]; exact hin (by omega))).congr (fun j => ?_)
        (fun j => ?_) hhomes
      · by_cases hj : j = n
        · simp [hj, hlast, hmark.2]
        · simp [hj, statesBelow_other hj]
      · by_cases hj : j = n
        · simp [hj]
        · simp [hj, statesBelow_other hj]
    · next hmark =>
      refine hlog.congr (fun j => ?_) (fun j => ?_) hhomes
      · by_cases hj : j = n
        · rw [hj, hlast, hself]
          exact ⟨fun he => by by_contra hd; exact hmark ⟨by omega, he⟩, hdirty⟩
        · rw [statesBelow_other hj]
      · by_cases hj : j = n
        · rw [hj, hlast, hself]
          exact hin
        · rw [statesBelow_other hj]
          exact id

/-- The blocks below `n` are as the call has left them. -/
theorem noteBlocks_tracks {home : Nat → Place} (htracks : Tracks d.log d.vdrive.bamState home)
    (hdirty : ∀ i, 0 < d.vdrive.bamState i → 0 < e.vdrive.bamState i)
    (hok : .failed ∉ noteBlocks d e n) :
    Tracks (noteBlocks d e n) (statesBelow d e n) (homesBelow d e home n) ∧
      ∀ i < n, d.vdrive.bamState i < 0 → 0 ≤ e.vdrive.bamState i → 0 ≤ e.vdrive.bamTracks i := by
  induction n with
  | zero => exact ⟨htracks.congr (fun _ => Iff.rfl) (fun _ h => h) fun i _ => if_neg (by simp), by simp⟩
  | succ n ih =>
    obtain ⟨hbelow, hplaces⟩ := ih (fun h => hok (noteBlocks_mono h))
    have hload : d.vdrive.bamState n < 0 → 0 ≤ e.vdrive.bamState n →
        loadEvent e n = .loaded n (e.home n) ∧ 0 ≤ e.vdrive.bamTracks n := by
      intro hout hin
      refine (loadEvent_cases e n).resolve_left fun hfailed => hok ?_
      rw [noteBlocks]
      split <;> simp [hout, hin, hfailed]
    refine ⟨noteBlock_tracks hbelow (hdirty n) fun h h' => (hload h h').1, fun i hi => ?_⟩
    rcases Nat.lt_succ_iff_lt_or_eq.mp hi with hlt | rfl
    · exact hplaces i hlt
    · exact fun h h' => (hload h h').2

/-- A call of the BAM, where each block that it needs can be read. -/
theorem called_cached (h : Cached d) (hsize : bamBlocks d.vdrive ≤ 33)
    (hcall : Caches (InBam d.vdrive) d.vdrive w) (hok : .failed ∉ (d.called w).log) :
    Cached (d.called w) := by
  obtain ⟨home, htracks, hhome⟩ := h.tracks
  obtain ⟨hnoted, hplaces⟩ := noteBlocks_tracks htracks hcall.dirty hok
  have hselected : Selected (d.called w) → Selected d := by
    unfold Selected
    change w.currentOffset ≠ _ → _
    rw [hcall.same]
    exact id
  have hblocks : bamBlocks w = bamBlocks d.vdrive := by
    unfold bamBlocks
    rw [hcall.same]
  have hblock33 : ∀ i, InBam d.vdrive i → i < 33 := fun i hi => Nat.lt_of_lt_of_le hi.1 hsize
  -- where a block is now that was there before, or has been read
  have hspot : Selected (d.called w) → ∀ i, 0 ≤ w.bamState i →
      homesBelow d (d.called w) home 33 i = (d.called w).home i ∧ 0 ≤ (spot w i).1 := by
    intro hcalled i hi
    by_cases hold : 0 ≤ d.vdrive.bamState i
    · obtain ⟨hsame, hknown⟩ := hhome (hselected hcalled) i hold
      have hmoved := spot_eq hcall hknown
      refine ⟨?_, by rwa [hmoved]⟩
      rw [homesBelow, if_neg (by omega), hsame, home_eq, home_eq]
      change _ = (d.slot, vdriveLogToPhy w (spot w i).1.toNat (spot w i).2.toNat)
      rw [hmoved, logToPhy_congr (w := w) (v := d.vdrive) (by rw [hcall.same]) (by rw [hcall.same])
        (by rw [hcall.same]) (by rw [hcall.same]) (by rw [hcall.same])]
    · have h33 : i < 33 := by
        rcases hcall.brought i hi with hb | hb | hb
        · exact absurd hb hold
        · exact hb
        · exact hblock33 i hb
      refine ⟨if_pos ⟨h33, by omega⟩, ?_⟩
      have htrack := hplaces i h33 (by omega) hi
      by_cases hanchored : w.imageFormat = .f1581 → 3 ≤ i
      · rw [spot_anchored hanchored]
        exact htrack
      · have h81 : w.imageFormat = .f1581 ∧ i < 3 := by
          rw [Classical.not_imp, Nat.not_le] at hanchored
          exact hanchored
        rw [spot_1581 h81.1 h81.2]
        exact Int.natCast_nonneg _
  refine ⟨⟨homesBelow d (d.called w) home 33, ?_, hspot⟩, fun i hi => ?_, fun hpos => ?_⟩
  · refine hnoted.congr (fun i => ?_) (fun i hi => ?_) fun _ _ => rfl
    · unfold statesBelow
      split
      · exact Iff.rfl
      · next h33 =>
        refine ⟨fun hi => ?_, hcall.dirty i⟩
        exact (hcall.marked i hi).resolve_right fun hin => h33 (hblock33 i hin)
    · unfold statesBelow
      split
      · exact hi
      · next h33 =>
        rcases hcall.brought i hi with hb | hb | hb
        · exact hb
        · exact absurd hb h33
        · exact absurd (hblock33 i hb) h33
  · have hin : InBam d.vdrive i := by
      rcases hcall.marked i hi with hold | hnew
      · exact h.dirty i hold
      · exact hnew
    change InBam w i
    unfold InBam
    rwa [hblocks, hcall.same.format]
  · change 0 < bamBlocks w at hpos
    rw [hblocks] at hpos
    exact h.allocated hpos

/-! ## Flushing -/

/-- `e` is `d` after blocks of the BAM may have been written. -/
structure Flushes (d e : Drive) : Prop where
  same : e = { d with
    vdrive := { d.vdrive with
      image := e.vdrive.image
      bamState := e.vdrive.bamState
      bamTracks := e.vdrive.bamTracks
      bamSectors := e.vdrive.bamSectors }
    log := e.log }
  shape : e.vdrive.image.shape = d.vdrive.image.shape
  spots : ∀ i, spot e.vdrive i = spot d.vdrive i

theorem Flushes.refl (d : Drive) : Flushes d d := ⟨rfl, rfl, fun _ => rfl⟩

theorem Flushes.trans {f : Drive} (h : Flushes d e) (h' : Flushes e f) : Flushes d f where
  same := by
    have hs := h'.same
    rw [h.same] at hs
    exact hs
  shape := h'.shape.trans h.shape
  spots := fun i => (h'.spots i).trans (h.spots i)

theorem Flushes.home (h : Flushes d e) : e.home i = d.home i := by
  rw [home_eq, home_eq, h.spots, logToPhy_congr (v := d.vdrive) h.shape (by rw [h.same])
    (by rw [h.same]) (by rw [h.same]) (by rw [h.same]), show e.slot = d.slot by rw [h.same]]

theorem locateBam_locateBam (v : Vdrive) : locateBam (locateBam v) = locateBam v := by
  by_cases hf : v.imageFormat = .f1581
  · simp only [locateBam, hf, ↓reduceIte, Vdrive.mk.injEq, true_and]
    constructor
    · funext i
      split <;> rfl
    · funext i
      split <;> rfl
  · simp [locateBam, hf]

theorem locateBam_flushes : Flushes d { d with vdrive := locateBam d.vdrive } := by
  refine ⟨?_, ?_, fun i => ?_⟩
  · unfold locateBam
    split <;> rfl
  · unfold locateBam
    split <;> rfl
  · unfold spot
    rw [locateBam_locateBam]

/-- Only the image, the states and the log. -/
theorem flushes_block {image : Image} {state : Nat → Int} {log : List (Event Place)}
    (hshape : image.shape = d.vdrive.image.shape) :
    Flushes d { d with
      vdrive := { d.vdrive with
        image := image
        bamState := state }
      log := log } := by
  refine ⟨rfl, hshape, fun i => ?_⟩
  unfold spot locateBam
  dsimp only
  split <;> rfl

theorem writeBlocks_flushes : Flushes d (writeBlocks is d err).2 := by
  induction is generalizing d err with
  | nil => exact Flushes.refl d
  | cons i is ih =>
    rw [writeBlocks]
    split
    · obtain ⟨image, himage, hshape⟩ := vdriveWriteSector_image d.vdrive
        (fun k => d.vdrive.bam (i * 256 + k)) (d.vdrive.bamTracks i).toNat
        (d.vdrive.bamSectors i).toNat
      dsimp only
      rw [himage]
      split
      · exact flushes_block hshape
      · exact (flushes_block hshape).trans ih
    · exact ih

/-- Each dirty block of the list is written to where it belongs. -/
theorem writeBlocks_tracks {home : Nat → Place} (htracks : Tracks d.log d.vdrive.bamState home)
    (hhome : ∀ i, 0 < d.vdrive.bamState i → home i = d.home i)
    (hok : .failed ∉ (writeBlocks is d err).2.log) :
    Tracks (writeBlocks is d err).2.log (writeBlocks is d err).2.vdrive.bamState home ∧
      ∀ i, (0 < (writeBlocks is d err).2.vdrive.bamState i → 0 < d.vdrive.bamState i ∧ i ∉ is) ∧
        (0 ≤ (writeBlocks is d err).2.vdrive.bamState i → 0 ≤ d.vdrive.bamState i) := by
  induction is generalizing d err with
  | nil => exact ⟨htracks, fun i => ⟨fun hi => ⟨hi, by simp⟩, id⟩⟩
  | cons i is ih =>
    rw [writeBlocks] at hok ⊢
    split
    · next hstate =>
      rw [if_pos hstate] at hok
      obtain ⟨image, himage, hshape⟩ := vdriveWriteSector_image d.vdrive
        (fun k => d.vdrive.bam (i * 256 + k)) (d.vdrive.bamTracks i).toNat
        (d.vdrive.bamSectors i).toNat
      dsimp only at hok ⊢
      rw [himage] at hok ⊢
      split
      · next hfailed =>
        rw [if_pos hfailed] at hok
        simp at hok
      · next hwritten =>
        rw [if_neg hwritten] at hok
        have hflush := @flushes_block d image (Function.update d.vdrive.bamState i 0)
          (.wrote i (d.home i) :: d.log) hshape
        have hnext := htracks.wrote (Int.le_of_lt hstate)
        rw [hhome i hstate] at hnext
        have hhomes : ∀ j, 0 < Function.update d.vdrive.bamState i 0 j → home j = d.home j := by
          intro j hj
          have hji : j ≠ i := by
            intro heq
            simp [heq] at hj
          rw [Function.update_of_ne hji] at hj
          exact hhome j hj
        obtain ⟨hdone, hstates⟩ := ih hnext (fun j hj => (hhomes j hj).trans hflush.home.symm) hok
        refine ⟨hdone, fun j => ⟨fun hj => ?_, fun hj => ?_⟩⟩
        · obtain ⟨hpos, hmem⟩ := (hstates j).1 hj
          by_cases hji : j = i
          · simp [hji] at hpos
          · simp only [Function.update_of_ne hji] at hpos
            exact ⟨hpos, by simp [hji, hmem]⟩
        · have hin := (hstates j).2 hj
          by_cases hji : j = i
          · rw [hji]
            exact Int.le_of_lt hstate
          · simpa only [Function.update_of_ne hji] using hin
    · next hstate =>
      rw [if_neg hstate] at hok
      obtain ⟨hdone, hstates⟩ := ih htracks hhome hok
      refine ⟨hdone, fun j => ⟨fun hj => ?_, (hstates j).2⟩⟩
      obtain ⟨hpos, hmem⟩ := (hstates j).1 hj
      refine ⟨hpos, ?_⟩
      rw [List.mem_cons, not_or]
      refine ⟨fun heq => ?_, hmem⟩
      rw [heq] at hpos
      exact hstate hpos

theorem writeBam_flushes : Flushes d (vdriveBamWriteBam d).2 := by
  unfold vdriveBamWriteBam
  split
  · exact Flushes.refl d
  · dsimp only
    split
    · exact locateBam_flushes
    · exact locateBam_flushes
    · exact locateBam_flushes.trans writeBlocks_flushes

/-- Blocks have been written, and none has come or got dirty. -/
theorem Cached.written (h : Cached d) (hflush : Flushes d e)
    (hpos : ∀ i, 0 < e.vdrive.bamState i → 0 < d.vdrive.bamState i)
    (hin : ∀ i, 0 ≤ e.vdrive.bamState i → 0 ≤ d.vdrive.bamState i)
    (htracks : ∀ home, Tracks d.log d.vdrive.bamState home →
      (Selected d → ∀ i, 0 < d.vdrive.bamState i → home i = d.home i) →
        Tracks e.log e.vdrive.bamState home) : Cached e := by
  have hselected : Selected e → Selected d := by
    unfold Selected
    rw [hflush.same]
    exact id
  obtain ⟨home, hold, hhome⟩ := h.tracks
  refine ⟨⟨home, ?_, fun he i hi => ?_⟩, fun i hi => ?_, fun hblocks => ?_⟩
  · apply htracks home hold
    intro hd i hi
    exact (hhome hd i (Int.le_of_lt hi)).1
  · rw [hflush.home, hflush.spots]
    exact hhome (hselected he) i (hin i hi)
  · have hbam := h.dirty i (hpos i hi)
    unfold InBam bamBlocks at *
    rw [hflush.same]
    exact hbam
  · have hd := h.allocated
    unfold bamBlocks at *
    rw [hflush.same] at hblocks ⊢
    exact hd hblocks

/-- Nothing can be written while no drive is selected. -/
theorem writeBlocks_unselected (h : ¬ Selected d) (hok : .failed ∉ (writeBlocks is d err).2.log) :
    (writeBlocks is d err).2 = d ∧ ∀ i ∈ is, d.vdrive.bamState i ≤ 0 := by
  have hoffset : d.vdrive.currentOffset = uint32Max := Classical.not_not.mp h
  induction is generalizing err with
  | nil => exact ⟨rfl, by simp⟩
  | cons i is ih =>
    rw [writeBlocks] at hok ⊢
    split
    · next hstate =>
      have hwrite : ∀ buf t s, (vdriveWriteSector d.vdrive buf t s).1 ≠ .ok := by
        intro buf t s
        simp only [vdriveWriteSector, vdriveLogToPhy, hoffset, ↓reduceIte]
        split <;> simp
      rw [if_pos hstate] at hok
      dsimp only at hok
      rw [if_pos (hwrite _ _ _)] at hok
      simp at hok
    · next hstate =>
      rw [if_neg hstate] at hok
      obtain ⟨hsame, hclean⟩ := ih hok
      refine ⟨hsame, fun j hj => ?_⟩
      rcases List.mem_cons.mp hj with rfl | hj
      · exact Int.not_lt.mp hstate
      · exact hclean j hj

/-- The blocks of the BAM have been gone through. -/
theorem writeBlocks_flushed (h : Cached d)
    (hok : .failed ∉ (writeBlocks (List.range (bamBlocks d.vdrive)) d err).2.log) :
    Cached (writeBlocks (List.range (bamBlocks d.vdrive)) d err).2 ∧
      Flushed (writeBlocks (List.range (bamBlocks d.vdrive)) d err).2 := by
  have hlisted : ∀ i, 0 < d.vdrive.bamState i → i ∈ List.range (bamBlocks d.vdrive) :=
    fun i hi => List.mem_range.mpr (h.dirty i hi).1
  by_cases hselected : Selected d
  · obtain ⟨home, htracks, hhome⟩ := h.tracks
    obtain ⟨-, hstates⟩ := writeBlocks_tracks htracks
      (fun i hi => (hhome hselected i (Int.le_of_lt hi)).1) hok
    constructor
    · exact h.written writeBlocks_flushes (fun i hi => ((hstates i).1 hi).1) (fun i => (hstates i).2)
        fun _ ht hh => (writeBlocks_tracks ht (hh hselected) hok).1
    · intro i
      by_contra hi
      obtain ⟨hpos, hout⟩ := (hstates i).1 (Int.not_le.mp hi)
      exact hout (hlisted i hpos)
  · obtain ⟨hsame, hclean⟩ := writeBlocks_unselected hselected hok
    rw [hsame]
    refine ⟨h, fun i => ?_⟩
    by_contra hi
    exact hi (hclean i (hlisted i (Int.not_le.mp hi)))

/-- A format without a BAM has no dirty block. -/
theorem Cached.flushed (h : Cached d) (hf : d.vdrive.imageFormat = .sys ∨ d.vdrive.imageFormat = .none) :
    Flushed d := by
  intro i
  by_contra hi
  obtain ⟨-, hsys, hnone⟩ := h.dirty i (Int.not_le.mp hi)
  exact hf.elim hsys hnone

/-- After a flush no block is dirty. -/
theorem writeBam_flushed (h : Cached d) (hok : .failed ∉ (vdriveBamWriteBam d).2.log) :
    Cached (vdriveBamWriteBam d).2 ∧ Flushed (vdriveBamWriteBam d).2 := by
  unfold vdriveBamWriteBam at hok ⊢
  split
  · next hnone =>
    refine ⟨h, fun i => ?_⟩
    by_contra hi
    have hblocks := (h.dirty i (Int.not_le.mp hi)).1
    have hallocated := h.allocated (Nat.lt_of_le_of_lt (Nat.zero_le i) hblocks)
    rw [hnone] at hallocated
    cases hallocated
  · next hallocated =>
    rw [if_neg hallocated] at hok
    have hstate : (locateBam d.vdrive).bamState = d.vdrive.bamState := by
      unfold locateBam
      split <;> rfl
    have hlocated : Cached { d with vdrive := locateBam d.vdrive } := by
      apply h.written locateBam_flushes
      · simp [hstate]
      · simp [hstate]
      · intro home htracks _
        rwa [← hstate] at htracks
    dsimp only at hok ⊢
    split
    · next hf => exact ⟨hlocated, hlocated.flushed (.inl hf)⟩
    · next hf => exact ⟨hlocated, hlocated.flushed (.inr hf)⟩
    · split at hok
      · contradiction
      · contradiction
      · exact writeBlocks_flushed hlocated hok

end

end Vice.L3.SwitchCache
