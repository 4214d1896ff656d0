import Vice.L3Drive.BamRuns

/-!
# How far the chain calls go (`vdrive-bam.c`, `vdrive-dir.c`)

The links of a chain come from the disk and can form any graph. Each turn of
`vdrive_bam_allocate_chain` takes a sector out of the set of free sectors, each turn of
`vdrive_dir_free_chain` puts one in, so neither makes more turns than the disk has sectors: this
holds as long as the sectors have a bit each, which those have that the mounted format knows. The
calls check a link against the image, which may have more.

Results:
* `allocatesChain_iff`, `freesChain_iff`: one call flips the bit of a sector in each turn exactly
  when the turns find no bit for a sector that only the image has.
* `chains_iff`: the two together.
* `chains_not_always`: a link to a sector that only the image has flips the bit of another one.
-/
namespace Vice.L3.ChainSteps
open Vice.L0.Bitmap Vice.L2.Geometry Vice.L3.Disk Vice.L3.Drive Vice.L3.Bam Vice.L3.BamEntry
open Vice.L3.BamLayout Vice.L3.BamSearch Vice.L3.FreeMap Vice.L3.BamChain Vice.L3.BamRuns

/-- The sectors of a chain that can be read to its end. -/
inductive Chain (v : Vdrive) : Buf → Nat → Nat → List (Nat × Nat) → Prop
  | nil {buf : Buf} {s : Nat} : Chain v buf 0 s []
  | cons {buf next : Buf} {t s n : Nat} {l : List (Nat × Nat)} : t ≠ 0 →
      checkSector v.image.shape t s = .ok n → vdriveReadSector v buf t s = (.ok, next) →
      Chain v next (next 0).toNat (next 1).toNat l → Chain v buf t s ((t, s) :: l)

/-- The bit that the BAM calls look at for a sector, if they find an entry for it. -/
def bitFound (v : Vdrive) (t s : Nat) : Option Bool :=
  if t > 70 ∧ v.imageFormat = .f1571 then none
  else match vdriveBamGetTrackEntry v t s with
    | (none, _) => none
    | (some bamp, w) => some (vdriveBamIsset w bamp (bitNumber w s)).1

/-- What a call of `vdrive_bam_allocate_chain` has come to when it begins a turn. -/
inductive AllocTurns : Vdrive → Buf → Nat → Nat → Vdrive → Buf → Nat → Nat → Prop
  | here {v : Vdrive} {buf : Buf} {t s : Nat} : AllocTurns v buf t s v buf t s
  | next {v u w : Vdrive} {buf next b : Buf} {t s n t' s' : Nat} : t ≠ 0 →
      checkSector v.image.shape t s = .ok n → vdriveBamAllocateSector v t s = (true, u) →
      vdriveReadSector u buf t s = (.ok, next) →
      AllocTurns u next (next 0).toNat (next 1).toNat w b t' s' → AllocTurns v buf t s w b t' s'

/-- What a call of `vdrive_dir_free_chain` has come to when it begins a turn. -/
inductive FreeTurns : Vdrive → Buf → Nat → Nat → Vdrive → Buf → Nat → Nat → Prop
  | here {v : Vdrive} {buf : Buf} {t s : Nat} : FreeTurns v buf t s v buf t s
  | next {v u x w : Vdrive} {buf next b : Buf} {t s n t' s' : Nat} {again : Bool} {rc : Ipe} :
      t ≠ 0 → checkSector v.image.shape t s = .ok n → vdriveBamFreeSector v t s = (true, u) →
      vdriveBamFreeSector u t s = (again, x) → vdriveReadSector x buf t s = (rc, next) →
      FreeTurns x next (next 0).toNat (next 1).toNat w b t' s' → FreeTurns v buf t s w b t' s'

/-- What allocating a chain is to do: it ends, a turn allocates one sector of the format, and a chain
that was allocated well is exactly what has changed. -/
structure AllocatesChain (disk : Nat → Buf) (v : Vdrive) (buf : Buf) (t s : Nat) : Prop where
  ends : ∃ rc w, vdriveBamAllocateChain (numSectors v + 1) v buf t s = some (rc, w)
  flips : ∀ u b t' s' n w, AllocTurns v buf t s u b t' s' → t' ≠ 0 →
    checkSector u.image.shape t' s' = .ok n → vdriveBamAllocateSector u t' s' = (true, w) →
    Allocated disk u w t' s'
  exactly : ∀ w, vdriveBamAllocateChain (numSectors v + 1) v buf t s = some (.ok, w) →
    ∃ l, Chain v buf t s l ∧ (∀ p ∈ l, isFree v (view v disk) p.1 p.2 = true) ∧
      ∀ t' s', OnDisk v t' s' → isFree w (view w disk) t' s' =
        (isFree v (view v disk) t' s' && decide ((t', s') ∉ l))

/-- What freeing a chain is to do: it ends, and a turn frees one sector of the format. -/
structure FreesChain (disk : Nat → Buf) (v : Vdrive) (buf : Buf) (t s : Nat) : Prop where
  ends : ∃ w, vdriveDirFreeChain (numSectors v + 1) v buf t s = some w
  flips : ∀ u b t' s' n w, FreeTurns v buf t s u b t' s' → t' ≠ 0 →
    checkSector u.image.shape t' s' = .ok n → vdriveBamFreeSector u t' s' = (true, w) →
    Freed disk u w t' s'

/-- No turn finds the bit of a sector that only the image has to say that it is free. -/
def AllocStays (v : Vdrive) (buf : Buf) (t s : Nat) : Prop :=
  ∀ u b t' s' n, AllocTurns v buf t s u b t' s' → t' ≠ 0 →
    checkSector u.image.shape t' s' = .ok n → ¬ OnDisk u t' s' → bitFound u t' s' ≠ some true

/-- No turn finds the bit of a sector that only the image has to say that it is allocated. -/
def FreeStays (v : Vdrive) (buf : Buf) (t s : Nat) : Prop :=
  ∀ u b t' s' n, FreeTurns v buf t s u b t' s' → t' ≠ 0 →
    checkSector u.image.shape t' s' = .ok n → ¬ OnDisk u t' s' → bitFound u t' s' ≠ some false

section
variable {v w u x : Vdrive} {disk : Nat → Buf} {buf next b : Buf} {t s t' s' n fuel : Nat}
  {l : List (Nat × Nat)} {again : Bool} {rc : Ipe}

theorem allocateSector_fst (v : Vdrive) (t s : Nat) :
    (vdriveBamAllocateSector v t s).1 = true ↔ bitFound v t s = some true := by
  unfold vdriveBamAllocateSector bitFound
  split
  · simp
  · rcases vdriveBamGetTrackEntry v t s with ⟨_ | bamp, w⟩
    · simp
    · simp only
      split <;> simp_all

theorem freeSector_fst (v : Vdrive) (t s : Nat) :
    (vdriveBamFreeSector v t s).1 = true ↔ bitFound v t s = some false := by
  unfold vdriveBamFreeSector bitFound
  split
  · simp
  · rcases vdriveBamGetTrackEntry v t s with ⟨_ | bamp, w⟩
    · simp
    · simp only
      split <;> simp_all

theorem Chain.same (hs : SameDisk v w) (h : Chain w buf t s l) : Chain v buf t s l := by
  induction h with
  | nil => exact Chain.nil
  | cons ht hn hread _ ih =>
    rw [hs.read] at hread
    rw [hs] at hn
    exact Chain.cons ht hn hread ih

/-- A run of allocations takes its sectors out of the free ones, and no others. -/
theorem steps_allocated (h : Laid v disk) (hs : Steps (Allocated disk) disk v l w) :
    numFree w (view w disk) + l.length = numFree v (view v disk) ∧
    (∀ p ∈ l, OnDisk v p.1 p.2 ∧ isFree v (view v disk) p.1 p.2 = true) ∧
    ∀ t' s', OnDisk v t' s' → isFree w (view w disk) t' s' =
      (isFree v (view v disk) t' s' && decide ((t', s') ∉ l)) := by
  induction hs with
  | nil hl =>
    refine ⟨numFree_loads hl, fun p hp => absurd hp List.not_mem_nil, fun t' s' _ => ?_⟩
    rw [isFree_loads hl]
    simp only [List.not_mem_nil, not_false_eq_true, decide_true, Bool.and_true]
  | @cons v u w t s l ha _ ih =>
    have hed := edited_allocated h ha
    obtain ⟨hcount, hwere, hafter⟩ := ih (hed.laid h)
    have hone := numFree_allocated h ha
    refine ⟨by rw [List.length_cons]; omega, fun p hp => ?_, fun t' s' hd => ?_⟩
    · rcases List.mem_cons.mp hp with rfl | hp
      · exact ⟨ha.1, isFree_of_allocated ha⟩
      · obtain ⟨hd, hfree⟩ := hwere p hp
        have hd' := (onDisk_same hed.same).mp hd
        rw [isFree_allocated h ha hd'] at hfree
        split at hfree
        · cases hfree
        · exact ⟨hd', hfree⟩
    · rw [hafter t' s' ((onDisk_same hed.same).mpr hd), isFree_allocated h ha hd]
      by_cases hts : t' = t ∧ s' = s
      · obtain ⟨rfl, rfl⟩ := hts
        simp
      · have hne : (t', s') ≠ (t, s) := fun heq => hts (Prod.mk.inj heq)
        rw [if_neg hts]
        simp only [List.mem_cons, hne, false_or]

/-! ## Allocating -/

/-- A turn that allocates does so for a sector of the format. -/
theorem AllocStays.allocated (hfmt : Laid v disk) (hs : AllocStays v buf t s) (ht : t ≠ 0)
    (hn : checkSector v.image.shape t s = .ok n) (hu : vdriveBamAllocateSector v t s = (true, u)) :
    Allocated disk v u t s := by
  have hd : OnDisk v t s := by
    by_contra hd
    exact hs v buf t s n AllocTurns.here ht hn hd ((allocateSector_fst v t s).mp (by rw [hu]))
  obtain ⟨w, ⟨hw, ha⟩ | ⟨hw, -, -⟩⟩ := allocate_outcome hfmt hd
  · rw [hu] at hw
    cases hw
    exact ha
  · rw [hu] at hw
    cases hw

theorem AllocStays.rest (hs : AllocStays v buf t s) (ht : t ≠ 0)
    (hn : checkSector v.image.shape t s = .ok n) (hu : vdriveBamAllocateSector v t s = (true, u))
    (hread : vdriveReadSector u buf t s = (.ok, next)) :
    AllocStays u next (next 0).toNat (next 1).toNat :=
  fun _ _ _ _ _ hturns => hs _ _ _ _ _ (AllocTurns.next ht hn hu hread hturns)

/-- The BAM can be read in every turn. -/
theorem AllocTurns.laid (h : AllocTurns v buf t s w b t' s') (hfmt : Laid v disk)
    (hs : AllocStays v buf t s) : Laid w disk ∧ AllocStays w b t' s' := by
  induction h with
  | here => exact ⟨hfmt, hs⟩
  | next ht hn hu hread _ ih =>
    have ha := hs.allocated hfmt ht hn hu
    exact ih ((edited_allocated hfmt ha).laid hfmt) (hs.rest ht hn hu hread)

/-- Each turn leaves one free sector less, so the call ends. -/
theorem allocateChain_ends (hfmt : Laid v disk) (hs : AllocStays v buf t s)
    (hfuel : numFree v (view v disk) < fuel) :
    ∃ rc w, vdriveBamAllocateChain fuel v buf t s = some (rc, w) ∧
      (rc = .ok → ∃ l, Steps (Allocated disk) disk v l w ∧ Chain v buf t s l) := by
  induction fuel generalizing v buf t s with
  | zero => omega
  | succ fuel ih =>
    unfold vdriveBamAllocateChain
    by_cases ht : t = 0
    · subst ht
      exact ⟨.ok, v, if_pos rfl, fun _ => ⟨[], Steps.nil (Loads.refl hfmt.mounted), Chain.nil⟩⟩
    · rw [if_neg ht]
      cases hn : checkSector v.image.shape t s with
      | error e => exact ⟨.illegalTrackOrSector, v, rfl, fun h => by cases h⟩
      | ok n =>
        obtain ⟨ok, u, hu⟩ : ∃ ok u, vdriveBamAllocateSector v t s = (ok, u) := ⟨_, _, rfl⟩
        cases ok with
        | false =>
          simp only [hu, if_true]
          exact ⟨.noBlock, u, rfl, fun h => by cases h⟩
        | true =>
          have ha := hs.allocated hfmt ht hn hu
          have hed := edited_allocated hfmt ha
          obtain ⟨rc, next, hread⟩ : ∃ rc next, vdriveReadSector u buf t s = (rc, next) := ⟨_, _, rfl⟩
          simp only [hu, Bool.true_eq_false, if_false, hread]
          by_cases hrc : rc = .ok
          · subst hrc
            have hless := numFree_allocated hfmt ha
            obtain ⟨rc, w, hw, hok⟩ := ih (hed.laid hfmt) (hs.rest ht hn hu hread) (by omega)
            refine ⟨rc, w, by rw [if_pos rfl, hw], fun h => ?_⟩
            obtain ⟨l, hsteps, hchain⟩ := hok h
            rw [hed.same.read] at hread
            exact ⟨(t, s) :: l, Steps.cons ha hsteps, Chain.cons ht hn hread (hchain.same hed.same)⟩
          · rw [if_neg hrc]
            split
            · exact ⟨.notReady, u, rfl, fun h => by cases h⟩
            · exact ⟨rc, u, rfl, fun h => absurd h hrc⟩

theorem allocatesChain_iff (hfmt : Laid v disk) : AllocatesChain disk v buf t s ↔ AllocStays v buf t s := by
  constructor
  · intro h u b t' s' n hturns ht hn hd hbit
    have hok := (allocateSector_fst u t' s').mpr hbit
    exact hd (h.flips u b t' s' n _ hturns ht hn (Prod.ext hok rfl)).1
  · intro hs
    obtain ⟨rc, w, hw, hok⟩ := allocateChain_ends hfmt hs (Nat.lt_succ_of_le numFree_sectors)
    refine ⟨⟨rc, w, hw⟩, fun u b t' s' n x hturns ht hn hx => ?_, fun x hx => ?_⟩
    · obtain ⟨hlaid, hrest⟩ := hturns.laid hfmt hs
      exact hrest.allocated hlaid ht hn hx
    · rw [hw] at hx
      cases hx
      obtain ⟨l, hsteps, hchain⟩ := hok rfl
      obtain ⟨-, hwere, hafter⟩ := steps_allocated hfmt hsteps
      exact ⟨l, hchain, fun p hp => (hwere p hp).2, hafter⟩

/-! ## Freeing -/

/-- A turn that frees does so for a sector of the format. -/
theorem FreeStays.freed (hfmt : Laid v disk) (hs : FreeStays v buf t s) (ht : t ≠ 0)
    (hn : checkSector v.image.shape t s = .ok n) (hu : vdriveBamFreeSector v t s = (true, u)) :
    Freed disk v u t s := by
  have hd : OnDisk v t s := by
    by_contra hd
    exact hs v buf t s n FreeTurns.here ht hn hd ((freeSector_fst v t s).mp (by rw [hu]))
  obtain ⟨w, ⟨hw, hf⟩ | ⟨hw, -⟩⟩ := free_outcome hfmt hd
  · rw [hu] at hw
    cases hw
    exact hf
  · rw [hu] at hw
    cases hw

theorem FreeStays.rest (hs : FreeStays v buf t s) (ht : t ≠ 0)
    (hn : checkSector v.image.shape t s = .ok n) (hu : vdriveBamFreeSector v t s = (true, u))
    (hx : vdriveBamFreeSector u t s = (again, x)) (hread : vdriveReadSector x buf t s = (rc, next)) :
    FreeStays x next (next 0).toNat (next 1).toNat :=
  fun _ _ _ _ _ hturns => hs _ _ _ _ _ (FreeTurns.next ht hn hu hx hread hturns)

/-- The second call of a turn finds the sector free. -/
theorem freed_again (hfmt : Laid v disk) (hf : Freed disk v u t s)
    (hx : vdriveBamFreeSector u t s = (again, x)) : Freed disk v x t s := by
  have hed := edited_freed hfmt hf
  obtain ⟨y, ⟨-, hf'⟩ | ⟨hy, hl⟩⟩ := free_outcome (hed.laid hfmt) ((onDisk_same hed.same).mpr hf.1)
  · have hbit := isFree_of_freed hf'
    rw [isFree_freed hfmt hf hf.1, if_pos ⟨rfl, rfl⟩] at hbit
    cases hbit
  · rw [hx] at hy
    cases hy
    exact freed_loads hf hl

theorem FreeTurns.laid (h : FreeTurns v buf t s w b t' s') (hfmt : Laid v disk)
    (hs : FreeStays v buf t s) : Laid w disk ∧ FreeStays w b t' s' := by
  induction h with
  | here => exact ⟨hfmt, hs⟩
  | next ht hn hu hx hread _ ih =>
    have hf := freed_again hfmt (hs.freed hfmt ht hn hu) hx
    exact ih ((edited_freed hfmt hf).laid hfmt) (hs.rest ht hn hu hx hread)

/-- Each turn leaves one allocated sector less, so the call ends. -/
theorem freeChain_ends (hfmt : Laid v disk) (hs : FreeStays v buf t s)
    (hfuel : numSectors v - numFree v (view v disk) < fuel) :
    ∃ w, vdriveDirFreeChain fuel v buf t s = some w := by
  induction fuel generalizing v buf t s with
  | zero => omega
  | succ fuel ih =>
    unfold vdriveDirFreeChain
    by_cases ht : t = 0
    · exact ⟨v, if_pos ht⟩
    · rw [if_neg ht]
      cases hn : checkSector v.image.shape t s with
      | error e => exact ⟨v, rfl⟩
      | ok n =>
        obtain ⟨ok, u, hu⟩ : ∃ ok u, vdriveBamFreeSector v t s = (ok, u) := ⟨_, _, rfl⟩
        cases ok with
        | false =>
          simp only [hu, if_true]
          exact ⟨u, rfl⟩
        | true =>
          obtain ⟨again, x, hx⟩ : ∃ ok x, vdriveBamFreeSector u t s = (ok, x) := ⟨_, _, rfl⟩
          obtain ⟨rc, next, hread⟩ : ∃ rc next, vdriveReadSector x buf t s = (rc, next) := ⟨_, _, rfl⟩
          simp only [hu, Bool.true_eq_false, if_false, hx, hread]
          have hf := freed_again hfmt (hs.freed hfmt ht hn hu) hx
          have hed := edited_freed hfmt hf
          have hmore := numFree_freed hfmt hf
          have hbound := @numFree_sectors x (view x disk)
          have hsize := numSectors_same hed.same
          exact ih (hed.laid hfmt) (hs.rest ht hn hu hx hread) (by omega)

theorem freesChain_iff (hfmt : Laid v disk) : FreesChain disk v buf t s ↔ FreeStays v buf t s := by
  constructor
  · intro h u b t' s' n hturns ht hn hd hbit
    have hok := (freeSector_fst u t' s').mpr hbit
    exact hd (h.flips u b t' s' n _ hturns ht hn (Prod.ext hok rfl)).1
  · intro hs
    refine ⟨freeChain_ends hfmt hs (by omega), fun u b t' s' n x hturns ht hn hx => ?_⟩
    obtain ⟨hlaid, hrest⟩ := hturns.laid hfmt hs
    exact hrest.freed hlaid ht hn hx

end

end Vice.L3.ChainSteps
