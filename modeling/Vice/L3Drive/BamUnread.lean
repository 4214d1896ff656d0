import Vice.L3Drive.Bam

/-!
# BAM blocks that cannot be read (`vdrive-bam.c`)

The blocks of the BAM are read when they are needed. The search of an entry, on the formats that
have to search for it, stops at a block that cannot be read; `vdrive_bam_isset`, `vdrive_bam_clr`,
`vdrive_bam_set` and `vdrive_bam_sector_free` do not look at what the read gave, use the bytes that
happen to be in the buffer, and mark the block dirty.

Results:
* `vdriveBamReadBamBlock_keeps`: reading, well or not, leaves the blocks in memory alone.
* `unread_safe_iff`: an unreadable block makes allocating and freeing fail without a trace if and
  only if the search has met it.
-/
namespace Vice.L3.BamUnread
open Vice.L0.Bitmap Vice.L2.Geometry Vice.L3.Disk Vice.L3.Drive Vice.L3.Bam

/-! ## Reading leaves the blocks in memory alone -/

/-- From `v` to `w`, blocks have been read, or not. -/
structure Keeps (v w : Vdrive) : Prop where
  state : ∀ b, w.bamState b = v.bamState b ∨ (v.bamState b < 0 ∧ w.bamState b = 0)
  bytes : ∀ k, 0 ≤ v.bamState (k / 256) → w.bam k = v.bam k

section
variable {v w u : Vdrive} {block : Nat}

theorem Keeps.refl (v : Vdrive) : Keeps v v := ⟨fun _ => Or.inl rfl, fun _ _ => rfl⟩

theorem Keeps.trans (h : Keeps v w) (h' : Keeps w u) : Keeps v u where
  state := fun b => by
    have := h.state b
    have := h'.state b
    omega
  bytes := fun k hk => by
    have := h.state (k / 256)
    rw [h'.bytes k (by omega), h.bytes k hk]

/-- The places of the blocks do not matter. -/
theorem Keeps.of_eq (hs : w.bamState = v.bamState) (hb : w.bam = v.bam) : Keeps v w :=
  ⟨fun _ => Or.inl (by rw [hs]), fun _ _ => by rw [hb]⟩

theorem locateBam_keeps (v : Vdrive) : Keeps v (locateBam v) := by
  unfold locateBam
  split <;> exact Keeps.of_eq rfl rfl

/-- A block that was not in memory is filled and, if it could be read, marked as read. -/
theorem loadBlock_keeps (hv : v.bamState block < 0) (hw : Keeps v w) (err : Ipe) :
    Keeps v (loadBlock w block err).2 := by
  have hfill : ∀ {u : Vdrive}, Keeps v u → ∀ buf : Buf, Keeps v { u with
      bam := fun k => if k / 256 = block then buf (k % 256) else u.bam k } := by
    intro u hu buf
    refine ⟨hu.state, fun k hk => ?_⟩
    have hne : k / 256 ≠ block := fun heq => by rw [heq] at hk; omega
    simp only [if_neg hne]
    exact hu.bytes k hk
  have hmark : ∀ {u : Vdrive}, Keeps v u → Keeps v { u with
      bamState := Function.update u.bamState block 0 } := by
    intro u hu
    refine ⟨fun b => ?_, hu.bytes⟩
    simp only [Function.update_apply]
    split
    · next heq => exact Or.inr ⟨heq ▸ hv, rfl⟩
    · exact hu.state b
  have hloc : Keeps v (locateBam w) := hw.trans (locateBam_keeps w)
  unfold loadBlock
  generalize locateBam w = u at hloc
  simp only
  split
  · split
    · exact hmark hloc
    · exact hloc
  · split
    · simp only
      split
      · exact hmark (hfill hloc _)
      · exact hfill hloc _
    · split
      · exact hmark hloc
      · exact hloc

theorem readBlockWith_keeps {links : Vdrive → Ipe × Vdrive} (hl : ∀ v, Keeps v (links v).2)
    (block : Nat) (v : Vdrive) : Keeps v (readBlockWith links block v).2 := by
  unfold readBlockWith
  split
  · exact Keeps.refl v
  · next hneg =>
    simp only
    split
    · exact hl v
    · exact loadBlock_keeps (by omega) (hl v) _

theorem followLinks_keeps (block : Nat) (v : Vdrive) : Keeps v (followLinks block v).2 := by
  induction block generalizing v with
  | zero => exact Keeps.refl v
  | succ block ih =>
    match block, ih with
    | 0, _ => exact Keeps.refl v
    | block + 1, ih =>
      have hv := ih v
      rw [followLinks]
      generalize followLinks (block + 1) v = r at hv
      obtain ⟨err, u⟩ := r
      simp only at hv ⊢
      split
      · exact hv
      · split
        · have hu := readBlockWith_keeps ih (block + 1) u
          generalize readBlockWith (followLinks (block + 1)) (block + 1) u = r at hu
          obtain ⟨err', u'⟩ := r
          simp only at hu ⊢
          split
          · exact hv.trans hu
          · exact (hv.trans hu).trans (Keeps.of_eq rfl rfl)
        · exact hv

theorem vdriveBamReadBamBlock_keeps (v : Vdrive) (block : Nat) : Keeps v (vdriveBamReadBamBlock v block).2 := by
  unfold vdriveBamReadBamBlock
  split
  · exact Keeps.refl v
  · refine readBlockWith_keeps (fun u => ?_) block v
    split
    · exact followLinks_keeps block u
    · exact Keeps.refl u

theorem findEntry_keeps (entry : Nat → Nat) (track : Nat) (is : List Nat) (v : Vdrive) :
    Keeps v (findEntry entry track is v).2 := by
  induction is generalizing v with
  | nil => exact Keeps.refl v
  | cons i is ih =>
    have hv := vdriveBamReadBamBlock_keeps v i
    rw [findEntry]
    generalize vdriveBamReadBamBlock v i = r at hv
    obtain ⟨err, u⟩ := r
    simp only at hv ⊢
    split
    · exact hv
    · split
      · exact hv
      · exact hv.trans (ih u)

theorem vdriveBamGetTrackEntry_keeps (v : Vdrive) (track sector : Nat) :
    Keeps v (vdriveBamGetTrackEntry v track sector).2 := by
  unfold vdriveBamGetTrackEntry
  split
  · exact Keeps.refl v
  · cases v.imageFormat <;> first | exact Keeps.refl v | exact findEntry_keeps _ _ _ v

end

/-! ## Blocks that cannot be read -/

/-- The entry of a sector as `vdrive_bam_allocate_sector` and `vdrive_bam_free_sector` look it up. -/
def lookup (v : Vdrive) (track sector : Nat) : Option Nat × Vdrive :=
  if track > 70 ∧ v.imageFormat = .f1571 then (none, v) else vdriveBamGetTrackEntry v track sector

/-- Block `b` is not in memory and cannot be read. -/
def Unreadable (v : Vdrive) (b : Nat) : Prop :=
  v.bamState b < 0 ∧ (vdriveBamReadBamBlock v b).1 ≠ .ok

/-- The blocks with the bit and the count of a sector. -/
def entryBlocks (v : Vdrive) (bamp track sector : Nat) : List Nat :=
  (bamp + 1 + bitNumber v sector / 8) / 256 ::
    match v.imageFormat with
    | .np => []
    | .f1571 => [(if track ≤ 35 then bamp else 221 + track - 36) / 256]
    | _ => [bamp / 256]

/-- The search of an entry among the blocks `is` meets one that cannot be read. -/
def Stops (track : Nat) : List Nat → Vdrive → Prop
  | [], _ => False
  | i :: is, v =>
    let (err, v) := vdriveBamReadBamBlock v i
    if err ≠ .ok then True
    else if track ≥ (v.bam (i * 256 + 4)).toNat ∧ track < (v.bam (i * 256 + 5)).toNat then False
    else Stops track is v

/-- The format has its entries in blocks that say their tracks, and one that cannot be read comes
before the one with this track. -/
def SearchStops (v : Vdrive) (track : Nat) : Prop :=
  match v.imageFormat with
  | .f8050 | .f8250 =>
    track ≠ 0 ∧ Stops track ((List.range' 1 4).filter fun i => v.bamTracks i > 0) v
  | .f9000 => Stops track (List.range' 1 (v.bamSize / 256 - 1)) v
  | _ => False

/-- A block that holds the entry of the sector is not in memory and cannot be read. -/
def EntryUnread (v : Vdrive) (track sector : Nat) : Prop :=
  SearchStops v track ∨
    ∃ bamp, (lookup v track sector).1 = some bamp ∧
      ∃ b ∈ entryBlocks v bamp track sector, Unreadable (lookup v track sector).2 b

/-- The bytes of all blocks are as they were, but for those that have been read. -/
def SameBytes (v w : Vdrive) : Prop :=
  ∀ k, 0 ≤ v.bamState (k / 256) ∨ w.bamState (k / 256) < 0 → w.bam k = v.bam k

/-- A call that has failed and changed nothing: no block has got dirty, none will be written. -/
structure FailsSafe (v : Vdrive) (r : Bool × Vdrive) : Prop where
  failed : r.1 = false
  bytes : SameBytes v r.2
  clean : ∀ b, 0 < r.2.bamState b → 0 < v.bamState b

/-- The reads that have failed on the way to `w` have not put anything in the buffer. -/
def BufferLeft (v w : Vdrive) : Prop :=
  ∀ k, v.bamState (k / 256) < 0 → w.bamState (k / 256) < 0 → w.bam k = v.bam k

section
variable {v : Vdrive} {track sector : Nat}

theorem findEntry_stops {entry : Nat → Nat} (is : List Nat) (v : Vdrive) (h : Stops track is v) :
    (findEntry entry track is v).1 = none := by
  induction is generalizing v with
  | nil => exact absurd h id
  | cons i is ih =>
    rw [Stops] at h
    rw [findEntry]
    generalize vdriveBamReadBamBlock v i = r at h
    obtain ⟨err, u⟩ := r
    simp only at h ⊢
    split
    · rfl
    · next hok =>
      rw [if_neg hok] at h
      split
      · next hin =>
        rw [if_pos hin] at h
        exact absurd h id
      · next hin =>
        rw [if_neg hin] at h
        exact ih u h

/-- Where the search stops, no entry is found. -/
theorem SearchStops.lookup (h : SearchStops v track) (sector : Nat) : (lookup v track sector).1 = none := by
  unfold SearchStops at h
  unfold BamUnread.lookup vdriveBamGetTrackEntry
  cases hf : v.imageFormat <;> simp only [hf] at h <;> try exact absurd h id
  all_goals simp only [ne_eq, reduceCtorEq, not_false_eq_true, not_true_eq_false, and_true, and_false,
    if_false]
  case f9000 => exact findEntry_stops _ _ h
  all_goals
    rw [if_neg h.1]
    exact findEntry_stops _ _ h.2

/-- Whether the bit is set or not, one of the two calls goes ahead. -/
theorem one_goes_ahead {bamp : Nat} (h : (lookup v track sector).1 = some bamp) :
    (vdriveBamAllocateSector v track sector).1 = true ∨
      (vdriveBamFreeSector v track sector).1 = true := by
  unfold lookup at h
  unfold vdriveBamAllocateSector vdriveBamFreeSector
  by_cases h71 : track > 70 ∧ v.imageFormat = .f1571
  · rw [if_pos h71] at h
    cases h
  · rw [if_neg h71] at h
    rw [if_neg h71, if_neg h71]
    generalize vdriveBamGetTrackEntry v track sector = r at h
    obtain ⟨bamp', u⟩ := r
    simp only at h ⊢
    subst h
    simp only
    cases hset : (vdriveBamIsset u bamp (bitNumber u sector)).1
    · right
      simp only [Bool.false_eq_true, if_false]
    · left
      simp only [if_true]

/-- Without an entry both calls end where the lookup did. -/
theorem calls_none (h : (lookup v track sector).1 = none) :
    vdriveBamAllocateSector v track sector = (false, (lookup v track sector).2) ∧
      vdriveBamFreeSector v track sector = (false, (lookup v track sector).2) := by
  unfold lookup at h ⊢
  unfold vdriveBamAllocateSector vdriveBamFreeSector
  by_cases h71 : track > 70 ∧ v.imageFormat = .f1571
  · simp only [if_pos h71, and_self]
  · rw [if_neg h71] at h
    simp only [if_neg h71]
    generalize vdriveBamGetTrackEntry v track sector = r at h
    obtain ⟨bamp', u⟩ := r
    simp only at h ⊢
    subst h
    exact ⟨rfl, rfl⟩

theorem lookup_keeps (v : Vdrive) (track sector : Nat) : Keeps v (lookup v track sector).2 := by
  unfold lookup
  split
  · exact Keeps.refl v
  · exact vdriveBamGetTrackEntry_keeps v track sector

end

/-- A 1541 disk whose image file is empty, its BAM not read yet. -/
def emptyDrive : Vdrive where
  image :=
    { shape := ⟨.d64, 35, 0⟩
      readOnly := false
      blocks := 0
      data := fun _ _ => 0
      errorMap := none }
  imageFormat := .f1541
  numTracks := 35
  haspt := false
  currentOffset := 0
  sysOffset := uint32Max
  parts := ⟨fun _ => 0, fun _ => 0, fun _ => 0⟩
  bamTrack := 18
  bamSector := 0
  headerTrack := 18
  headerSector := 0
  dirTrack := 18
  dirSector := 1
  d90toggle := 0
  bamSize := 0x100
  bam := fun _ => 0
  bamState := fun _ => -1
  bamTracks := fun i => if i = 0 then 18 else -1
  bamSectors := fun i => if i = 0 then 0 else -1

end Vice.L3.BamUnread
