import Vice.L3Drive.Bam

/-!
# What a call does to the cached BAM

The functions of the BAM bring blocks into memory and mark them dirty. None of them lets go of a
block or forgets that it was changed, whatever can be read.

Results:
* `readBamBlock_caches`: loading a block, with the links of a D9090/60.
* `allocateSector_caches`, `freeSector_caches`: which blocks are marked.
-/
namespace Vice.L3.BamCalls
open Vice.L0.Bitmap Vice.L3.Disk Vice.L3.Drive Vice.L3.Bam

/-- `w` is `v` after blocks have been loaded, and those in `S` marked dirty. -/
structure Caches (S : Nat → Prop) (v w : Vdrive) : Prop where
  same : SameDisk v w
  stays : ∀ i, 0 ≤ v.bamState i → 0 ≤ w.bamState i
  dirty : ∀ i, 0 < v.bamState i → 0 < w.bamState i
  marked : ∀ i, 0 < w.bamState i → 0 < v.bamState i ∨ S i
  brought : ∀ i, 0 ≤ w.bamState i → 0 ≤ v.bamState i ∨ i < 33 ∨ S i
  places : ∀ i, (v.imageFormat = .f1581 → 3 ≤ i) → 0 ≤ v.bamTracks i →
    w.bamTracks i = v.bamTracks i ∧ w.bamSectors i = v.bamSectors i

section
variable {S T : Nat → Prop} {v w u : Vdrive} {b k t s : Nat} {err : Ipe}

theorem Caches.refl (v : Vdrive) : Caches S v v :=
  ⟨SameDisk.refl v, fun _ h => h, fun _ h => h, fun _ h => .inl h, fun _ h => .inl h,
    fun _ _ _ => ⟨rfl, rfl⟩⟩

theorem Caches.trans (h : Caches S v w) (h' : Caches S w u) : Caches S v u where
  same := h.same.trans h'.same
  stays := fun i hi => h'.stays i (h.stays i hi)
  dirty := fun i hi => h'.dirty i (h.dirty i hi)
  marked := by
    intro i hi
    rcases h'.marked i hi with hw | hS
    · exact h.marked i hw
    · exact .inr hS
  brought := by
    intro i hi
    rcases h'.brought i hi with hw | hS
    · exact h.brought i hw
    · exact .inr hS
  places := by
    intro i h81 hi
    obtain ⟨ht, hs⟩ := h.places i h81 hi
    obtain ⟨ht', hs'⟩ := h'.places i (by rwa [h.same.format]) (by rwa [ht])
    exact ⟨ht'.trans ht, hs'.trans hs⟩

theorem Caches.mono (h : Caches S v w) (hST : ∀ i, S i → T i) : Caches T v w :=
  ⟨h.same, h.stays, h.dirty, fun i hi => (h.marked i hi).imp_right (hST i),
    fun i hi => (h.brought i hi).imp_right (Or.imp_right (hST i)), h.places⟩

/-- The bytes of the BAM do not matter. -/
theorem Caches.bytes (h : Caches S v w) (bam : Buf) : Caches S v { w with bam := bam } where
  same := by
    have hs := h.same
    unfold SameDisk at hs ⊢
    rw [hs]
  stays := h.stays
  dirty := h.dirty
  marked := h.marked
  brought := h.brought
  places := h.places

abbrev Nothing : Nat → Prop := fun _ => False

/-! ## Loading -/

theorem locateBam_caches (v : Vdrive) : Caches S v (locateBam v) := by
  unfold locateBam
  split
  · next h81 =>
    refine ⟨rfl, fun _ h => h, fun _ h => h, fun _ h => .inl h, fun _ h => .inl h, fun i hi _ => ?_⟩
    have h3 := hi h81
    exact ⟨if_neg (by omega), if_neg (by omega)⟩
  · exact Caches.refl v

/-- A block that is not in memory gets there. -/
theorem Caches.load (h : Caches S v w) (hb : w.bamState b < 0) (hb33 : b < 33) (bam : Buf) : Caches S v { w with
      bam := bam
      bamState := Function.update w.bamState b 0 } := by
  refine h.trans
    ⟨rfl, fun i hi => ?_, fun i hi => ?_, fun i hi => ?_, fun i hi => ?_, fun _ _ _ => ⟨rfl, rfl⟩⟩
  · by_cases hib : i = b
    · simp [hib]
    · simpa [hib] using hi
  · have hib : i ≠ b := by
      intro heq
      rw [heq] at hi
      omega
    simpa [hib] using hi
  · by_cases hib : i = b
    · simp [hib] at hi
    · left
      simpa [hib] using hi
  · by_cases hib : i = b
    · exact .inr (.inl (hib ▸ hb33))
    · left
      simpa [hib] using hi

theorem loadBlock_caches (hb : v.bamState b < 0) (hb33 : b < 33) :
    Caches S v (loadBlock v b err).2 ∧ ∀ i, i ≠ b → (loadBlock v b err).2.bamState i = v.bamState i := by
  have hloc := @locateBam_caches S v
  have hstate : (locateBam v).bamState = v.bamState := by
    unfold locateBam
    split <;> rfl
  have hb' : (locateBam v).bamState b < 0 := by rwa [hstate]
  have hother : ∀ i, i ≠ b → Function.update (locateBam v).bamState b 0 i = v.bamState i := by
    intro i hi
    simp [hi, hstate]
  have hsame : ∀ i, i ≠ b → (locateBam v).bamState i = v.bamState i := by
    intro i _
    rw [hstate]
  unfold loadBlock
  dsimp only
  split
  · split
    · exact ⟨hloc.load hb' hb33 _, hother⟩
    · exact ⟨hloc, hsame⟩
  · split
    · dsimp only
      split
      · exact ⟨hloc.load hb' hb33 _, hother⟩
      · exact ⟨hloc.bytes _, hsame⟩
    · dsimp only
      split
      · exact ⟨hloc.load hb' hb33 _, hother⟩
      · exact ⟨hloc, hsame⟩

/-- What a function of the links has to keep to: the states of the blocks from `b` on. -/
def Follows (links : Vdrive → Ipe × Vdrive) (b : Nat) : Prop :=
  ∀ v, Caches Nothing v (links v).2 ∧ ∀ i ≥ b, (links v).2.bamState i = v.bamState i

theorem readBlockWith_follows {links : Vdrive → Ipe × Vdrive} (h : Follows links b) (hb33 : b < 33) :
    Follows (readBlockWith links b) (b + 1) := by
  intro v
  obtain ⟨hlinks, hstates⟩ := h v
  unfold readBlockWith
  split
  · exact ⟨Caches.refl v, fun _ _ => rfl⟩
  · next hout =>
    dsimp only
    split
    · exact ⟨hlinks, fun i hi => hstates i (by omega)⟩
    · have hb : (links v).2.bamState b < 0 := by
        rw [hstates b (Nat.le_refl b)]
        omega
      obtain ⟨hload, hrest⟩ := @loadBlock_caches Nothing (links v).2 b (links v).1 hb hb33
      refine ⟨hlinks.trans hload, fun i hi => ?_⟩
      rw [hrest i (by omega), hstates i (by omega)]

/-- A place that was not known is noted. -/
theorem Caches.link (h : Caches S v w) {track sector : Int}
    (hb : (v.imageFormat = .f1581 → 3 ≤ b) → v.bamTracks b < 0) :
    Caches S v { w with
      bamTracks := Function.update w.bamTracks b track
      bamSectors := Function.update w.bamSectors b sector } where
  same := by
    have hs := h.same
    unfold SameDisk at hs ⊢
    rw [hs]
  stays := h.stays
  dirty := h.dirty
  marked := h.marked
  brought := h.brought
  places := by
    intro i h81 hi
    have hib : i ≠ b := by
      intro heq
      subst heq
      have hnone := hb h81
      omega
    simpa [hib] using h.places i h81 hi

theorem followLinks_follows (b : Nat) (hb : b < 33) : Follows (followLinks b) b := by
  induction b with
  | zero => exact fun v => ⟨Caches.refl v, fun _ _ => rfl⟩
  | succ b ih =>
    cases b with
    | zero => exact fun v => ⟨Caches.refl v, fun _ _ => rfl⟩
    | succ b =>
      intro v
      have ih := ih (by omega)
      obtain ⟨hfirst, hstates⟩ := ih v
      rw [followLinks]
      dsimp only
      split
      · exact ⟨hfirst, fun i hi => hstates i (by omega)⟩
      · split
        · next hnone =>
          obtain ⟨hread, hrest⟩ := readBlockWith_follows ih (by omega) (followLinks (b + 1) v).2
          have hkept : ∀ i ≥ b + 2,
              (readBlockWith (followLinks (b + 1)) (b + 1) (followLinks (b + 1) v).2).2.bamState i =
                v.bamState i := by
            intro i hi
            rw [hrest i hi, hstates i (by omega)]
          split
          · exact ⟨hfirst.trans hread, hkept⟩
          · refine ⟨(hfirst.trans hread).link fun h81 => ?_, hkept⟩
            by_contra hpos
            have hsame := (hfirst.places (b + 2) h81 (by omega)).1
            omega
        · exact ⟨hfirst, fun i hi => hstates i (by omega)⟩

theorem readBamBlock_caches (v : Vdrive) (b : Nat) : Caches S v (vdriveBamReadBamBlock v b).2 := by
  unfold vdriveBamReadBamBlock
  split
  · exact Caches.refl v
  · next hb =>
    have hb33 : b < 33 := Nat.lt_of_not_le hb
    have hlinks : Follows (fun v => if v.imageFormat = .f9000 then followLinks b v else (.minus, v)) b := by
      intro v
      dsimp only
      split
      · exact followLinks_follows b hb33 v
      · exact ⟨Caches.refl v, fun _ _ => rfl⟩
    exact (readBlockWith_follows hlinks hb33 v).1.mono fun _ h => h.elim

/-! ## Entries -/

theorem findEntry_caches {entry : Nat → Nat} (is : List Nat) (v : Vdrive) :
    Caches S v (findEntry entry t is v).2 := by
  induction is generalizing v with
  | nil => exact Caches.refl v
  | cons i is ih =>
    have hread := @readBamBlock_caches S v i
    rw [findEntry]
    dsimp only
    split
    · exact hread
    · split
      · exact hread
      · exact hread.trans (ih _)

theorem getTrackEntry_caches (v : Vdrive) : Caches S v (vdriveBamGetTrackEntry v t s).2 := by
  unfold vdriveBamGetTrackEntry
  split
  · exact Caches.refl v
  · split
    · exact Caches.refl v
    · exact Caches.refl v
    · exact Caches.refl v
    · exact Caches.refl v
    · exact findEntry_caches _ v
    · exact findEntry_caches _ v
    · exact Caches.refl v
    · exact findEntry_caches _ v
    · exact Caches.refl v

theorem touch_caches (hk : S (k / 256)) (v : Vdrive) : Caches S v (touch v k) := by
  refine (readBamBlock_caches v (k / 256)).trans
    ⟨rfl, fun i hi => ?_, fun i hi => ?_, fun i hi => ?_, fun i hi => ?_, fun _ _ _ => ⟨rfl, rfl⟩⟩
  · by_cases hib : i = k / 256
    · simp [hib, touch]
    · simpa [hib, touch] using hi
  · by_cases hib : i = k / 256
    · simp [hib, touch]
    · simpa [hib, touch] using hi
  · by_cases hib : i = k / 256
    · exact .inr (hib ▸ hk)
    · left
      simpa [hib, touch] using hi
  · by_cases hib : i = k / 256
    · exact .inr (.inr (hib ▸ hk))
    · left
      simpa [hib, touch] using hi

theorem bamIsset_caches {bamp : Nat} (v : Vdrive) : Caches S v (vdriveBamIsset v bamp s).2 :=
  readBamBlock_caches v _

theorem bamSet_caches {bamp : Nat} (hS : S ((bamp + 1 + s / 8) / 256)) (v : Vdrive) :
    Caches S v (vdriveBamSet v bamp s) := (touch_caches hS v).bytes _

theorem bamClr_caches {bamp : Nat} (hS : S ((bamp + 1 + s / 8) / 256)) (v : Vdrive) :
    Caches S v (vdriveBamClr v bamp s) := (touch_caches hS v).bytes _

theorem addCount_caches {add : UInt8} (hk : S (k / 256)) (v : Vdrive) :
    Caches S v (addCount v k add) := (touch_caches hk v).bytes _

/-- The counts of the second side of a 1571 are in the first block. -/
theorem sectorFree_caches {bamp : Nat} {add : UInt8} (hbamp : S (bamp / 256)) (hfirst : S 0)
    (ht : v.imageFormat = .f1571 → t ≤ 70) :
    Caches S v (vdriveBamSectorFree v bamp t add) := by
  unfold vdriveBamSectorFree
  split
  · exact addCount_caches hbamp v
  · exact addCount_caches hbamp v
  · exact addCount_caches hbamp v
  · exact addCount_caches hbamp v
  · exact addCount_caches hbamp v
  · exact addCount_caches hbamp v
  · next h71 =>
    split
    · exact addCount_caches hbamp v
    · have hzero : (221 + t - 36) / 256 = 0 := by
        have h70 := ht h71
        omega
      exact (touch_caches hbamp v).trans (addCount_caches (by rwa [hzero]) _)
  · exact Caches.refl v

/-- The format has a BAM, and the entry of the sector lies in it. -/
def EntryInside (v : Vdrive) (t s : Nat) : Prop :=
  ∀ bamp, (vdriveBamGetTrackEntry v t s).1 = some bamp →
    bamp / 256 < bamBlocks v ∧ (bamp + 1 + bitNumber v s / 8) / 256 < bamBlocks v

/-- A block of the BAM. -/
def InBam (v : Vdrive) (i : Nat) : Prop :=
  i < bamBlocks v ∧ v.imageFormat ≠ .sys ∧ v.imageFormat ≠ .none

/-- Only formats with a BAM have entries. -/
theorem getTrackEntry_format {bamp : Nat} (h : (vdriveBamGetTrackEntry v t s).1 = some bamp) :
    v.imageFormat ≠ .sys ∧ v.imageFormat ≠ .none := by
  unfold vdriveBamGetTrackEntry at h
  constructor
  · intro hf
    simp [hf] at h
  · intro hf
    simp [hf] at h

/-- The count of a track changes with one of its bits. -/
theorem Caches.count {bamp : Nat} {add : UInt8} (hu : Caches (InBam v) v u) (h : InBam v (bamp / 256))
    (h71 : ¬ (t > 70 ∧ v.imageFormat = .f1571)) :
    Caches (InBam v) v (vdriveBamSectorFree u bamp t add) := by
  refine hu.trans (sectorFree_caches h ⟨?_, h.2⟩ fun hf => ?_)
  · have hblocks := h.1
    omega
  · rw [hu.same.format] at hf
    exact Nat.le_of_not_lt fun ht => h71 ⟨ht, hf⟩

/-- The bit of the sector is looked at. -/
theorem isset_caches {bamp : Nat} (v : Vdrive) :
    Caches (InBam v) v (vdriveBamIsset (vdriveBamGetTrackEntry v t s).2 bamp
      (bitNumber (vdriveBamGetTrackEntry v t s).2 s)).2 :=
  (getTrackEntry_caches v).trans (bamIsset_caches _)

theorem bitNumber_entry (v : Vdrive) : bitNumber (vdriveBamGetTrackEntry v t s).2 s = bitNumber v s := by
  have hentry := @getTrackEntry_caches Nothing t s v
  unfold bitNumber
  rw [hentry.same.format]

theorem allocateSector_caches (h : EntryInside v t s) :
    Caches (InBam v) v (vdriveBamAllocateSector v t s).2 := by
  unfold vdriveBamAllocateSector
  split
  · exact Caches.refl v
  · next h71 =>
    dsimp only
    split
    · exact getTrackEntry_caches v
    · next bamp hbamp =>
      obtain ⟨hfirst, hbits⟩ := h bamp hbamp
      have hformat := getTrackEntry_format hbamp
      split
      · rw [← bitNumber_entry (t := t)] at hbits
        have hclr := (@isset_caches t s bamp v).trans (bamClr_caches ⟨hbits, hformat⟩ _)
        exact hclr.count ⟨hfirst, hformat⟩ h71
      · exact isset_caches v

theorem freeSector_caches (h : EntryInside v t s) : Caches (InBam v) v (vdriveBamFreeSector v t s).2 := by
  unfold vdriveBamFreeSector
  split
  · exact Caches.refl v
  · next h71 =>
    dsimp only
    split
    · exact getTrackEntry_caches v
    · next bamp hbamp =>
      obtain ⟨hfirst, hbits⟩ := h bamp hbamp
      have hformat := getTrackEntry_format hbamp
      split
      · exact isset_caches v
      · rw [← bitNumber_entry (t := t)] at hbits
        have hset := (@isset_caches t s bamp v).trans (bamSet_caches ⟨hbits, hformat⟩ _)
        exact hset.count ⟨hfirst, hformat⟩ h71

end

end Vice.L3.BamCalls
