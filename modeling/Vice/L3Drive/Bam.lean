import Vice.L0Core.Bitmap
import Vice.L3Drive.Vdrive

/-!
# The block availability map (`vdrive-bam.c`)

The BAM is kept in memory as up to 33 blocks, which are read when they are first
needed. A track's entry is a byte with the number of its free sectors, followed by a
bitmap in which a set bit is a free sector; `vdrive_bam_get_track_entry` finds it. The
second side of a 1571 keeps its counts in another block than its bitmaps, a NP
partition has no counts, and the D9090/60 have one entry for each group of 32 sectors.

A pointer into `vdrive->bam` is its index, a null pointer is `none`.

The blocks that are not in memory yet are as much part of the BAM as the others: the BAM
is what `view` shows, `disk` being the blocks on the image.

Results:
* `vdriveBamReadBamBlock_ok`: loading a block that reads does not change the view.
* `touch_ok`: nor does touching a byte, which then is in memory.
-/
namespace Vice.L3.Bam
open Vice.L0.Bitmap Vice.L2.Geometry Vice.L3.Disk Vice.L3.Drive

/-! ## Loading -/

/-- mirrors src/vdrive/vdrive-bam.c:93-99: the BAM of a 1581 partition starts at its header. -/
def locateBam (vdrive : Vdrive) : Vdrive :=
  if vdrive.imageFormat = .f1581 then
    { vdrive with
      bamTracks := fun i => if i < 3 then vdrive.bamTrack else vdrive.bamTracks i
      bamSectors := fun i => if i < 3 then vdrive.bamSector + i else vdrive.bamSectors i }
  else vdrive

/-- mirrors src/vdrive/vdrive-bam.c:92-127: reads a block from where its track and sector say. `err`
is the error so far. -/
def loadBlock (vdrive : Vdrive) (block : Nat) (err : Ipe) : Ipe × Vdrive :=
  let vdrive := locateBam vdrive
  let (err, vdrive) :=
    if vdrive.imageFormat = .sys ∨ vdrive.imageFormat = .none then (err, vdrive)
    else if vdrive.bamTracks block ≥ 0 then
      let (err, buf) := vdriveReadSector vdrive (fun k => vdrive.bam (block * 256 + k))
        (vdrive.bamTracks block).toNat (vdrive.bamSectors block).toNat
      (err, { vdrive with
        bam := fun k => if k / 256 = block then buf (k % 256) else vdrive.bam k })
    else (err, vdrive)
  let vdrive :=
    if err = .ok then { vdrive with bamState := Function.update vdrive.bamState block 0 }
    else vdrive
  (if err = .minus then .notReady else err, vdrive)

/-- mirrors src/vdrive/vdrive-bam.c:66-128: `links` is what a D9090/60 does first. -/
def readBlockWith (links : Vdrive → Ipe × Vdrive) (block : Nat) (vdrive : Vdrive) : Ipe × Vdrive :=
  if vdrive.bamState block ≥ 0 then (.ok, vdrive)
  else
    let (err, vdrive) := links vdrive
    if err ≠ .ok ∧ err ≠ .minus then (err, vdrive) else loadBlock vdrive block err

/-- mirrors src/vdrive/vdrive-bam.c:73-90: the places of the blocks 2 to `block` of a D9090/60, each
found in the block before it. -/
def followLinks : Nat → Vdrive → Ipe × Vdrive
  | 0, vdrive => (.minus, vdrive)
  | 1, vdrive => (.minus, vdrive)
  | block + 2, vdrive =>
    let (err, vdrive) := followLinks (block + 1) vdrive
    if err ≠ .ok ∧ err ≠ .minus then (err, vdrive)
    else if vdrive.bamTracks (block + 2) < 0 then
      let (err, vdrive) := readBlockWith (followLinks (block + 1)) (block + 1) vdrive
      if err ≠ .ok then (err, vdrive)
      else (err, { vdrive with
        bamTracks := Function.update vdrive.bamTracks (block + 2)
          (vdrive.bam ((block + 1) * 256)).toNat
        bamSectors := Function.update vdrive.bamSectors (block + 2)
          (vdrive.bam ((block + 1) * 256 + 1)).toNat })
    else (err, vdrive)

/-- mirrors src/vdrive/vdrive-bam.c:58-128 (`vdrive_bam_read_bam_block`) -/
def vdriveBamReadBamBlock (vdrive : Vdrive) (block : Nat) : Ipe × Vdrive :=
  if block ≥ 33 then (.minus, vdrive)
  else
    readBlockWith (fun v => if v.imageFormat = .f9000 then followLinks block v else (.minus, v))
      block vdrive

/-- mirrors src/vdrive/vdrive-bam.c:1306-1311 -/
def readBlocks : List Nat → Vdrive → Ipe → Ipe × Vdrive
  | [], vdrive, err => (err, vdrive)
  | i :: is, vdrive, _ =>
    let (err, vdrive) := vdriveBamReadBamBlock vdrive i
    if err = .ok then readBlocks is vdrive err else (err, vdrive)

/-- mirrors src/vdrive/vdrive-bam.c:1292-1327 (`vdrive_bam_read_bam`) -/
def vdriveBamReadBam (vdrive : Vdrive) : Ipe × Vdrive :=
  let (err, vdrive) :=
    match vdrive.imageFormat with
    | .sys => (Ipe.ok, vdrive)
    | .none => (Ipe.minus, vdrive)
    | _ => readBlocks (List.range (vdrive.bamSize / 256)) vdrive .minus
  (if err = .minus then .notReady else err, vdrive)

/-! ## Entries -/

/-- mirrors src/vdrive/vdrive.c:288-320 (`vdrive_get_max_sectors`) -/
def vdriveGetMaxSectors (vdrive : Vdrive) (track : Nat) : Nat :=
  match vdrive.imageFormat with
  | .f1541 => sectorPerTrack .d64 track
  | .f2040 => sectorPerTrack .d67 track
  | .f1571 => sectorPerTrack .d71 track
  | .f8050 => sectorPerTrack .d80 track
  | .f1581 => 40
  | .f8250 => if track ≤ 77 then sectorPerTrack .d80 track else sectorPerTrack .d80 (track - 77)
  | .np => 256
  | .f9000 => vdrive.image.shape.sectors
  | _ => 2 ^ 32 - 1

/-- mirrors src/vdrive/vdrive.c:323-331 (`vdrive_get_max_sectors_per_head`) -/
def vdriveGetMaxSectorsPerHead (vdrive : Vdrive) (track : Nat) : Nat :=
  match vdrive.imageFormat with
  | .f9000 => 32
  | _ => vdriveGetMaxSectors vdrive track

/-- The search of an entry among the BAM blocks `is` that name the tracks they hold in bytes 4 and
5; `entry` is the place in a block for the distance to the first of them. -/
def findEntry (entry : Nat → Nat) (track : Nat) : List Nat → Vdrive → Option Nat × Vdrive
  | [], vdrive => (none, vdrive)
  | i :: is, vdrive =>
    let (err, vdrive) := vdriveBamReadBamBlock vdrive i
    if err ≠ .ok then (none, vdrive)
    else
      let first := (vdrive.bam (i * 256 + 4)).toNat
      if track ≥ first ∧ track < (vdrive.bam (i * 256 + 5)).toNat then
        (some (i * 256 + entry (track - first)), vdrive)
      else findEntry entry track is vdrive

/-- mirrors src/vdrive/vdrive-bam.c:700-779 (`vdrive_bam_get_track_entry`) -/
def vdriveBamGetTrackEntry (vdrive : Vdrive) (track sector : Nat) : Option Nat × Vdrive :=
  if track = 0 ∧ vdrive.imageFormat ≠ .f9000 then (none, vdrive)
  else match vdrive.imageFormat with
  | .f1541 | .f2040 =>
    (some (if track ≤ 35 then 4 + 4 * (track - 1) else 192 + 4 * (track - 36)), vdrive)
  | .f1571 =>
    (some (if track ≤ 35 then 4 + 4 * (track - 1) else 0x100 + 3 * (track - 36) - 1), vdrive)
  | .f1581 =>
    (some (if track ≤ 40 then 0x110 + 6 * (track - 1) else 0x210 + 6 * (track - 41)), vdrive)
  | .f8050 | .f8250 =>
    findEntry (fun d => 6 + 5 * d) track
      ((List.range' 1 4).filter fun i => vdrive.bamTracks i > 0) vdrive
  | .np => (some (0x120 + 32 * (track - 1) - 1), vdrive)
  | .f9000 =>
    findEntry (fun d => 16 + 5 * (d * (vdrive.image.shape.sectors / 32) + sector / 32)) track
      (List.range' 1 (vdrive.bamSize / 256 - 1)) vdrive
  | _ => (none, vdrive)

/-- Loads the block of byte `k` and marks it dirty, whether it could be read or not. -/
def touch (vdrive : Vdrive) (k : Nat) : Vdrive :=
  let (_, vdrive) := vdriveBamReadBamBlock vdrive (k / 256)
  { vdrive with bamState := Function.update vdrive.bamState (k / 256) 1 }

/-- mirrors src/vdrive/vdrive-bam.c:571-585 (`vdrive_bam_set`) -/
def vdriveBamSet (vdrive : Vdrive) (bamp sector : Nat) : Vdrive :=
  let vdrive := touch vdrive (bamp + 1 + sector / 8)
  { vdrive with bam := setBit vdrive.bam (bamp + 1) sector }

/-- mirrors src/vdrive/vdrive-bam.c:590-604 (`vdrive_bam_clr`) -/
def vdriveBamClr (vdrive : Vdrive) (bamp sector : Nat) : Vdrive :=
  let vdrive := touch vdrive (bamp + 1 + sector / 8)
  { vdrive with bam := clrBit vdrive.bam (bamp + 1) sector }

/-- mirrors src/vdrive/vdrive-bam.c:612-622 (`vdrive_bam_isset`) -/
def vdriveBamIsset (vdrive : Vdrive) (bamp sector : Nat) : Bool × Vdrive :=
  let (_, vdrive) := vdriveBamReadBamBlock vdrive ((bamp + 1 + sector / 8) / 256)
  (getBit vdrive.bam (bamp + 1) sector, vdrive)

/-- A count byte plus `add`. -/
def addCount (vdrive : Vdrive) (k : Nat) (add : UInt8) : Vdrive :=
  let vdrive := touch vdrive k
  { vdrive with bam := Function.update vdrive.bam k (vdrive.bam k + add) }

/-- mirrors src/vdrive/vdrive-bam.c:782-826 (`vdrive_bam_sector_free`); `add` is 1 or -1. -/
def vdriveBamSectorFree (vdrive : Vdrive) (bamp track : Nat) (add : UInt8) : Vdrive :=
  match vdrive.imageFormat with
  | .f1541 | .f2040 | .f1581 | .f8050 | .f8250 | .f9000 => addCount vdrive bamp add
  | .f1571 =>
    if track ≤ 35 then addCount vdrive bamp add
    else addCount (touch vdrive bamp) (221 + track - 36) add
  | _ => vdrive

/-- The place of a sector in its entry's bitmap: NP bitmaps have their bits the other way round. -/
def bitNumber (vdrive : Vdrive) (sector : Nat) : Nat :=
  match vdrive.imageFormat with
  | .np => Nat.xor sector 7
  | .f9000 => sector % 32
  | _ => sector

/-- mirrors src/vdrive/vdrive-bam.c:829-855 (`vdrive_bam_allocate_sector`) -/
def vdriveBamAllocateSector (vdrive : Vdrive) (track sector : Nat) : Bool × Vdrive :=
  if track > 70 ∧ vdrive.imageFormat = .f1571 then (false, vdrive)
  else
    let (bamp, vdrive) := vdriveBamGetTrackEntry vdrive track sector
    let sector := bitNumber vdrive sector
    match bamp with
    | none => (false, vdrive)
    | some bamp =>
      let (isset, vdrive) := vdriveBamIsset vdrive bamp sector
      if isset then
        (true, vdriveBamSectorFree (vdriveBamClr vdrive bamp sector) bamp track (0 - 1))
      else (false, vdrive)

/-- mirrors src/vdrive/vdrive-bam.c:858-884 (`vdrive_bam_free_sector`) -/
def vdriveBamFreeSector (vdrive : Vdrive) (track sector : Nat) : Bool × Vdrive :=
  if track > 70 ∧ vdrive.imageFormat = .f1571 then (false, vdrive)
  else
    let (bamp, vdrive) := vdriveBamGetTrackEntry vdrive track sector
    let sector := bitNumber vdrive sector
    match bamp with
    | none => (false, vdrive)
    | some bamp =>
      let (isset, vdrive) := vdriveBamIsset vdrive bamp sector
      if isset then (false, vdrive)
      else (true, vdriveBamSectorFree (vdriveBamSet vdrive bamp sector) bamp track 1)

/-! ## The view -/

section
variable (vdrive : Vdrive) (disk : Nat → Buf)

def bamBlocks : Nat := vdrive.bamSize / 256

def view : Store := fun k =>
  if vdrive.bamState (k / 256) < 0 then disk (k / 256) (k % 256) else vdrive.bam k

/-- Where block `b` is read from. -/
def blockPlace (b : Nat) : Nat × Nat :=
  if vdrive.imageFormat = .f1581 then (vdrive.bamTrack, vdrive.bamSector + b)
  else if vdrive.bamTracks b < 0 then
    ((view vdrive disk ((b - 1) * 256)).toNat, (view vdrive disk ((b - 1) * 256 + 1)).toNat)
  else ((vdrive.bamTracks b).toNat, (vdrive.bamSectors b).toNat)

/-- The format has a BAM, and the blocks of it that are not in memory read as `disk`. -/
structure Mounted : Prop where
  format : vdrive.imageFormat ≠ .sys ∧ vdrive.imageFormat ≠ .none
  size : bamBlocks vdrive ≤ 33
  size1581 : vdrive.imageFormat = .f1581 → bamBlocks vdrive ≤ 3
  size8050 : vdrive.imageFormat = .f8050 ∨ vdrive.imageFormat = .f8250 → ∀ i < 5,
    0 < vdrive.bamTracks i → i < bamBlocks vdrive
  located : ∀ b < bamBlocks vdrive, vdrive.imageFormat ≠ .f1581 →
    (vdrive.imageFormat = .f9000 → b < 2) → 0 ≤ vdrive.bamTracks b
  placed : vdrive.imageFormat = .f9000 → ∀ b < bamBlocks vdrive, 0 ≤ vdrive.bamState b →
    0 ≤ vdrive.bamTracks b
  reads : ∀ b < bamBlocks vdrive, vdrive.bamState b < 0 → ∀ buf,
    vdriveReadSector vdrive buf (blockPlace vdrive disk b).1 (blockPlace vdrive disk b).2 =
      (.ok, disk b)

end

/-- Only the BAM differs. -/
def SameDisk (v w : Vdrive) : Prop :=
  w = { v with
    bam := w.bam, bamState := w.bamState, bamTracks := w.bamTracks, bamSectors := w.bamSectors }

/-- `w` is `v` with a BAM that shows `bytes`. -/
structure Becomes (disk : Nat → Buf) (v w : Vdrive) (bytes : Store) : Prop where
  same : SameDisk v w
  mounted : Mounted w disk
  view : view w disk = bytes
  state : ∀ b, 0 ≤ v.bamState b → 0 ≤ w.bamState b
  tracks : ∀ b, 0 ≤ v.bamTracks b → 0 ≤ w.bamTracks b
  fixed : v.imageFormat ≠ .f1581 → v.imageFormat ≠ .f9000 → w.bamTracks = v.bamTracks
  place : ∀ b < bamBlocks v, blockPlace w disk b = blockPlace v disk b

/-- `w` is `v` with more blocks in memory. -/
abbrev Loads (disk : Nat → Buf) (v w : Vdrive) : Prop := Becomes disk v w (view v disk)

section
variable {v w u : Vdrive} {disk : Nat → Buf} {b k : Nat} {err : Ipe} {bytes bytes' : Store}

theorem SameDisk.refl (v : Vdrive) : SameDisk v v := rfl

theorem SameDisk.trans (h : SameDisk v w) (h' : SameDisk w u) : SameDisk v u := by
  unfold SameDisk at *
  rw [h', h]

theorem SameDisk.symm (h : SameDisk v w) : SameDisk w v := by
  unfold SameDisk at *
  rw [h]

theorem SameDisk.format (h : SameDisk v w) : w.imageFormat = v.imageFormat := by rw [h]

theorem SameDisk.blocks (h : SameDisk v w) : bamBlocks w = bamBlocks v := by
  unfold bamBlocks
  rw [h]

theorem SameDisk.read (h : SameDisk v w) (buf : Buf) (t s : Nat) :
    vdriveReadSector w buf t s = vdriveReadSector v buf t s := by
  rw [h]
  rfl

theorem Loads.refl (h : Mounted v disk) : Loads disk v v :=
  ⟨SameDisk.refl v, h, rfl, fun _ h => h, fun _ h => h, fun _ _ => rfl, fun _ _ => rfl⟩

theorem Becomes.trans (h : Becomes disk v w bytes) (h' : Becomes disk w u bytes') :
    Becomes disk v u bytes' where
  same := h.same.trans h'.same
  mounted := h'.mounted
  view := h'.view
  state := fun b hb => h'.state b (h.state b hb)
  tracks := fun b hb => h'.tracks b (h.tracks b hb)
  fixed := fun h1 h2 =>
    (h'.fixed (h.same.format ▸ h1) (h.same.format ▸ h2)).trans (h.fixed h1 h2)
  place := fun b hb => (h'.place b (by rw [h.same.blocks]; exact hb)).trans (h.place b hb)

theorem Loads.trans (h : Loads disk v w) (h' : Loads disk w u) : Loads disk v u := by
  have hvu := Becomes.trans h h'
  rwa [h.view] at hvu

/-- The bytes of a block in memory are those of the view. -/
theorem view_loaded {disk : Nat → Buf} {k : Nat} (h : 0 ≤ v.bamState (k / 256)) : view v disk k = v.bam k :=
  if_neg (by omega)

theorem block_div {j : Nat} (hj : j < 256) (b : Nat) : (b * 256 + j) / 256 = b := by omega

/-- The block's place does not depend on which blocks are in memory. -/
theorem blockPlace_congr (hs : SameDisk v w) (hv : view w disk = view v disk)
    (ht : v.imageFormat ≠ .f1581 → w.bamTracks b = v.bamTracks b ∧
      w.bamSectors b = v.bamSectors b) :
    blockPlace w disk b = blockPlace v disk b := by
  unfold blockPlace
  by_cases h81 : v.imageFormat = .f1581
  · rw [if_pos h81, if_pos (hs.format.trans h81), hs]
  · rw [if_neg h81, if_neg (hs.format ▸ h81), (ht h81).1, (ht h81).2, hv]

theorem locateBam_loads (h : Mounted v disk) : Loads disk v (locateBam v) := by
  unfold locateBam
  split
  · rename_i h81
    refine ⟨rfl, ⟨h.format, h.size, h.size1581, ?_, fun _ _ hne => absurd h81 hne, ?_, ?_⟩, rfl,
      fun _ h => h, ?_, fun hne => absurd h81 hne, fun b _ => ?_⟩
    · intro h82
      rw [show v.imageFormat = .f1581 from h81] at h82
      exact absurd h82 (by decide)
    · intro h90
      rw [show v.imageFormat = .f1581 from h81] at h90
      exact absurd h90 (by decide)
    · intro b hb hstate buf
      have hread := h.reads b hb hstate buf
      unfold blockPlace at hread ⊢
      rw [if_pos h81] at hread ⊢
      exact hread
    · intro b hb
      simp only
      split <;> omega
    · unfold blockPlace
      rw [if_pos h81, if_pos h81]
  · exact Loads.refl h

/-- Where the block is read from, once its track and sector are set. -/
theorem locateBam_place (h : Mounted v disk) (hb : b < bamBlocks v)
    (hplace : v.imageFormat ≠ .f1581 → 0 ≤ v.bamTracks b) :
    0 ≤ (locateBam v).bamTracks b ∧ blockPlace v disk b =
      (((locateBam v).bamTracks b).toNat, ((locateBam v).bamSectors b).toNat) := by
  unfold locateBam blockPlace
  by_cases h81 : v.imageFormat = .f1581
  · have hb3 : b < 3 := by have := h.size1581 h81; omega
    simp only [if_pos h81, if_pos hb3]
    exact ⟨Int.natCast_nonneg _, by simp; omega⟩
  · have ht := hplace h81
    simp only [if_neg h81, if_neg (show ¬ v.bamTracks b < 0 by omega)]
    exact ⟨ht, trivial⟩

/-- The drive with block `b` in memory. -/
def withBlock (v : Vdrive) (disk : Nat → Buf) (b : Nat) : Vdrive :=
  { v with
    bam := fun k => if k / 256 = b then disk b (k % 256) else v.bam k
    bamState := Function.update v.bamState b 0 }

theorem withBlock_loads (h : Mounted v disk) (hb : v.bamState b < 0)
    (hplaced : v.imageFormat ≠ .f1581 → 0 ≤ v.bamTracks b) :
    Loads disk v (withBlock v disk b) := by
  have hview : view (withBlock v disk b) disk = view v disk := by
    funext k
    unfold view withBlock
    simp only
    by_cases hk : k / 256 = b
    · subst hk
      simp [hb]
    · rw [Function.update_of_ne hk, if_neg hk]
  have hstate : ∀ c, (withBlock v disk b).bamState c < 0 → v.bamState c < 0 := by
    intro c hc
    by_cases hcb : c = b
    · exact hcb ▸ hb
    · have heq : (withBlock v disk b).bamState c = v.bamState c := Function.update_of_ne hcb ..
      rwa [heq] at hc
  have hplace : ∀ c, blockPlace (withBlock v disk b) disk c = blockPlace v disk c := fun c =>
    blockPlace_congr (show SameDisk v (withBlock v disk b) from rfl) hview fun _ => ⟨rfl, rfl⟩
  refine ⟨rfl, ⟨h.format, h.size, h.size1581, h.size8050, h.located, ?_, ?_⟩, hview, ?_,
    fun _ h => h, fun _ _ => rfl, fun c _ => hplace c⟩
  · intro h90 c hc hc'
    by_cases hcb : c = b
    · exact hcb ▸ hplaced (by rw [show v.imageFormat = .f9000 from h90]; decide)
    · rw [show (withBlock v disk b).bamState c = v.bamState c from Function.update_of_ne hcb ..] at hc'
      exact h.placed h90 c hc hc'
  · intro c hc hneg buf
    rw [hplace]
    exact h.reads c hc (hstate c hneg) buf
  · intro c hc
    by_contra hneg
    have := hstate c (by omega)
    omega

/-- `loadBlock` once the place is known. -/
theorem loadBlock_ok (h : Mounted v disk) (hb : b < bamBlocks v) (hstate : v.bamState b < 0)
    (hplace : v.imageFormat ≠ .f1581 → 0 ≤ v.bamTracks b) :
    loadBlock v b err = (.ok, withBlock (locateBam v) disk b) := by
  have hl := locateBam_loads h
  obtain ⟨ht, hp⟩ := locateBam_place h hb hplace
  have hread := fun buf => (hl.same.read buf _ _).trans (h.reads b hb hstate buf)
  simp only [hp] at hread
  have hformat : ¬ ((locateBam v).imageFormat = .sys ∨ (locateBam v).imageFormat = .none) := by
    rw [hl.same.format]
    exact fun hor => hor.elim h.format.1 h.format.2
  unfold loadBlock
  simp only [if_neg hformat, if_pos (show (locateBam v).bamTracks b ≥ 0 from ht), hread]
  rfl

theorem loadBlock_loads (h : Mounted v disk) (hstate : v.bamState b < 0)
    (hplaced : v.imageFormat ≠ .f1581 → 0 ≤ v.bamTracks b) :
    Loads disk v (withBlock (locateBam v) disk b) := by
  have hl := locateBam_loads h
  refine hl.trans (withBlock_loads hl.mounted ?_ fun h81 => ?_)
  · unfold locateBam
    split <;> exact hstate
  · exact hl.tracks b (hplaced (hl.same.format ▸ h81))

/-- What `links` does before block `b` is loaded: its place gets known, and neither it nor a later
block is read. -/
def Linked (links : Vdrive → Ipe × Vdrive) (disk : Nat → Buf) (v : Vdrive) (b : Nat) : Prop :=
  ∃ err w, links v = (err, w) ∧ (err = .ok ∨ err = .minus) ∧ Loads disk v w ∧
    (v.imageFormat ≠ .f1581 → ∀ i ≤ b, 0 ≤ w.bamTracks i) ∧
    (v.imageFormat ≠ .f1581 → ∀ i, b < i → w.bamTracks i = v.bamTracks i) ∧
    ∀ i, b ≤ i → w.bamState i = v.bamState i

theorem readBlockWith_ok {links : Vdrive → Ipe × Vdrive} (h : Mounted v disk)
    (hb : b < bamBlocks v) (hlinks : Linked links disk v b) :
    ∃ w, readBlockWith links b v = (.ok, w) ∧ Loads disk v w ∧ 0 ≤ w.bamState b ∧
      (v.imageFormat ≠ .f1581 → ∀ i, b < i → w.bamTracks i = v.bamTracks i) ∧
      ∀ i, b < i → w.bamState i = v.bamState i := by
  unfold readBlockWith
  by_cases hstate : v.bamState b ≥ 0
  · exact ⟨v, if_pos hstate, Loads.refl h, hstate, fun _ _ _ => rfl, fun _ _ => rfl⟩
  · obtain ⟨err, w, hw, herr, hl, htracks, hrest, hlater⟩ := hlinks
    have hcont : ¬ (err ≠ .ok ∧ err ≠ .minus) := fun hc => herr.elim hc.1 hc.2
    simp only [if_neg hstate, hw, if_neg hcont]
    have hneg : w.bamState b < 0 := by rw [hlater b (Nat.le_refl b)]; omega
    have hblocks := hl.same.blocks
    have hplace : w.imageFormat ≠ .f1581 → 0 ≤ w.bamTracks b :=
      fun hne => htracks (hl.same.format ▸ hne) b (Nat.le_refl b)
    refine ⟨_, loadBlock_ok hl.mounted (by omega) hneg hplace,
      hl.trans (loadBlock_loads hl.mounted hneg hplace), ?_, ?_, ?_⟩
    · have hzero : (withBlock (locateBam w) disk b).bamState b = 0 := Function.update_self ..
      omega
    · intro h81 i hi
      rw [← hrest h81 i hi]
      unfold withBlock locateBam
      rw [if_neg (hl.same.format ▸ h81)]
    · intro i hi
      refine (Function.update_of_ne (by omega) ..).trans (Eq.trans ?_ (hlater i (by omega)))
      unfold locateBam
      split <;> rfl

/-- Naming the place that the block before names. -/
def withLink (v : Vdrive) (b : Nat) : Vdrive :=
  { v with
    bamTracks := Function.update v.bamTracks (b + 2) (v.bam ((b + 1) * 256)).toNat
    bamSectors := Function.update v.bamSectors (b + 2) (v.bam ((b + 1) * 256 + 1)).toNat }

theorem withLink_self : (withLink v b).bamTracks (b + 2) = (v.bam ((b + 1) * 256)).toNat ∧
    (withLink v b).bamSectors (b + 2) = (v.bam ((b + 1) * 256 + 1)).toNat :=
  ⟨Function.update_self .., Function.update_self ..⟩

theorem withLink_other {c : Nat} (h : c ≠ b + 2) : (withLink v b).bamTracks c = v.bamTracks c ∧
    (withLink v b).bamSectors c = v.bamSectors c :=
  ⟨Function.update_of_ne h .., Function.update_of_ne h ..⟩

theorem withLink_loads (h : Mounted v disk) (h90 : v.imageFormat = .f9000)
    (hb : v.bamTracks (b + 2) < 0) (hstate : 0 ≤ v.bamState (b + 1)) :
    Loads disk v (withLink v b) := by
  have h81 : v.imageFormat ≠ .f1581 := by rw [h90]; decide
  have hself := @withLink_self v b
  have hplace : ∀ c, blockPlace (withLink v b) disk c = blockPlace v disk c := by
    intro c
    by_cases hcb : c = b + 2
    · subst hcb
      -- the link bytes are in memory, so the view shows them
      have h0 := @view_loaded v disk ((b + 1) * 256)
        (by rw [Nat.mul_div_cancel _ (by decide)]; exact hstate)
      have h1 := @view_loaded v disk ((b + 1) * 256 + 1)
        (by rw [block_div (by decide)]; exact hstate)
      unfold blockPlace
      rw [if_neg h81, if_neg (show (withLink v b).imageFormat ≠ .f1581 from h81), if_pos hb, hself.1,
        hself.2, if_neg (by omega), show b + 2 - 1 = b + 1 from rfl, h0, h1]
      rfl
    · exact blockPlace_congr (show SameDisk v (withLink v b) from rfl) rfl
        fun _ => withLink_other hcb
  refine ⟨rfl, ⟨h.format, h.size, h.size1581, ?_, ?_, ?_, ?_⟩, rfl, fun _ h => h, ?_,
    fun _ h => absurd h90 h, fun c _ => hplace c⟩
  · intro h82
    rw [show (withLink v b).imageFormat = .f9000 from h90] at h82
    exact absurd h82 (by decide)
  · intro c hc h1 h2
    have hcb : c ≠ b + 2 := by have := h2 h90; omega
    rw [(withLink_other hcb).1]
    exact h.located c hc h1 h2
  · intro _ c hc hc'
    by_cases hcb : c = b + 2
    · rw [hcb, hself.1]; omega
    · rw [(withLink_other hcb).1]; exact h.placed h90 c hc hc'
  · intro c hc hneg buf
    rw [hplace]
    exact h.reads c hc hneg buf
  · intro c hc
    by_cases hcb : c = b + 2
    · rw [hcb, hself.1]; omega
    · rw [(withLink_other hcb).1]; exact hc

theorem followLinks_ok (h : Mounted v disk) (h90 : v.imageFormat = .f9000) (hb : b < bamBlocks v) :
    Linked (followLinks b) disk v b := by
  induction b using Nat.strong_induction_on generalizing v with
  | h b ih =>
    match b with
    | 0 =>
      refine ⟨.minus, v, rfl, Or.inr rfl, Loads.refl h, fun h81 i hi => ?_, fun _ _ _ => rfl,
        fun _ _ => rfl⟩
      exact h.located i (by omega) h81 (fun _ => by omega)
    | 1 =>
      refine ⟨.minus, v, rfl, Or.inr rfl, Loads.refl h, fun h81 i hi => ?_, fun _ _ _ => rfl,
        fun _ _ => rfl⟩
      exact h.located i (by omega) h81 (fun _ => by omega)
    | b + 2 =>
      obtain ⟨err, w, hw, herr, hl, htracks, hrest, hlater⟩ :=
        ih (b + 1) (by omega) h h90 (by omega)
      have hcont : ¬ (err ≠ .ok ∧ err ≠ .minus) := fun hc => herr.elim hc.1 hc.2
      have hw90 : w.imageFormat = .f9000 := hl.same.format.trans h90
      have hblocks := hl.same.blocks
      unfold Linked
      rw [followLinks]
      simp only [hw, if_neg hcont]
      by_cases hneg : w.bamTracks (b + 2) < 0
      · -- the block with the link gets into memory first
        have hlinked := ih (b + 1) (by omega) hl.mounted hw90 (by omega)
        obtain ⟨u, hu, hlu, hstate, hrest', hlater'⟩ :=
          readBlockWith_ok hl.mounted (by omega) hlinked
        have hu90 : u.imageFormat = .f9000 := hlu.same.format.trans hw90
        have hneg' : u.bamTracks (b + 2) < 0 := by
          rw [hrest' (by rw [hw90]; decide) (b + 2) (by omega)]
          exact hneg
        have hlink := withLink_loads hlu.mounted hu90 hneg' hstate
        simp only [if_pos hneg, hu, ne_eq, not_true_eq_false, if_false]
        refine ⟨.ok, withLink u b, rfl, Or.inl rfl, (hl.trans hlu).trans hlink, fun h81 i hi => ?_,
          fun h81 i hi => ?_, fun i hi => ?_⟩
        · by_cases hib : i = b + 2
          · rw [hib, withLink_self.1]; omega
          · exact hlink.tracks i (hlu.tracks i (htracks h81 i (by omega)))
        · have h81' : w.imageFormat ≠ .f1581 := by rw [hw90]; decide
          exact (withLink_other (by omega)).1.trans
            ((hrest' h81' i (by omega)).trans (hrest h81 i (by omega)))
        · exact (hlater' i (by omega)).trans (hlater i (by omega))
      · rw [if_neg hneg]
        refine ⟨err, w, rfl, herr, hl, fun h81 i hi => ?_, fun h81 i hi => hrest h81 i (by omega),
          fun i hi => hlater i (by omega)⟩
        by_cases hib : i = b + 2
        · subst hib; omega
        · exact htracks h81 i (by omega)

/-- A block that reads is in memory afterwards, and the BAM is the same. -/
theorem vdriveBamReadBamBlock_ok (h : Mounted v disk) (hb : b < bamBlocks v) :
    ∃ w, vdriveBamReadBamBlock v b = (.ok, w) ∧ Loads disk v w ∧ 0 ≤ w.bamState b := by
  have hsize := h.size
  have hlinked : Linked (fun v => if v.imageFormat = .f9000 then followLinks b v else (.minus, v))
      disk v b := by
    by_cases h90 : v.imageFormat = .f9000
    · obtain ⟨err, w, hw, hrest⟩ := followLinks_ok h h90 hb
      exact ⟨err, w, (if_pos h90).trans hw, hrest⟩
    · exact ⟨.minus, v, if_neg h90, Or.inr rfl, Loads.refl h,
        fun h81 i hi => h.located i (by omega) h81 (fun h => absurd h h90), fun _ _ _ => rfl,
        fun _ _ => rfl⟩
  obtain ⟨w, hw, hl, hstate, -⟩ := readBlockWith_ok h hb hlinked
  unfold vdriveBamReadBamBlock
  exact ⟨w, (if_neg (by omega)).trans hw, hl, hstate⟩

/-- A byte of a block in memory can be changed. The links of a D9090/60 are not to be touched. -/
theorem poke_becomes (h : Mounted v disk) (hstate : 0 ≤ v.bamState (k / 256))
    (h90 : v.imageFormat = .f9000 → 2 ≤ k % 256) (x : UInt8) :
    Becomes disk v { v with bam := Function.update v.bam k x } (Function.update (view v disk) k x) := by
  have hview : view { v with bam := Function.update v.bam k x } disk =
      Function.update (view v disk) k x := by
    funext j
    by_cases hj : j = k
    · subst hj
      rw [Function.update_self]
      exact (@view_loaded { v with bam := Function.update v.bam j x } disk j hstate).trans
        (Function.update_self ..)
    · rw [Function.update_of_ne hj]
      unfold view
      simp only [Function.update_of_ne hj]
  have hplace : ∀ b < bamBlocks v,
      blockPlace { v with bam := Function.update v.bam k x } disk b = blockPlace v disk b := by
    intro b hb
    unfold blockPlace
    rw [hview]
    by_cases h81 : v.imageFormat = .f1581
    · simp only [if_pos h81]
    · simp only [if_neg h81]
      by_cases hneg : v.bamTracks b < 0
      · -- only a D9090/60 block can have no place of its own
        have h9 : v.imageFormat = .f9000 := by
          by_contra hne
          have := h.located b hb h81 (fun h => absurd h hne)
          omega
        have hk := h90 h9
        rw [if_pos hneg, if_pos hneg, Function.update_of_ne (by omega),
          Function.update_of_ne (by omega)]
      · rw [if_neg hneg, if_neg hneg]
  refine ⟨rfl, ⟨h.format, h.size, h.size1581, h.size8050, h.located, h.placed, ?_⟩, hview,
    fun _ h => h, fun _ h => h, fun _ _ => rfl, hplace⟩
  intro b hb hneg buf
  rw [hplace b hb]
  exact h.reads b hb hneg buf

/-- A block in memory can be marked, as dirty or as written. -/
theorem mark_becomes (h : Mounted v disk) (hstate : 0 ≤ v.bamState b) {x : Int} (hx : 0 ≤ x) :
    Loads disk v { v with bamState := Function.update v.bamState b x } := by
  have hneg : ∀ c, Function.update v.bamState b x c < 0 ↔ v.bamState c < 0 := by
    intro c
    by_cases hc : c = b
    · subst hc; rw [Function.update_self]; omega
    · rw [Function.update_of_ne hc]
  have hview : view { v with bamState := Function.update v.bamState b x } disk = view v disk := by
    funext j
    unfold view
    simp only [hneg]
  have hplace : ∀ c, blockPlace { v with bamState := Function.update v.bamState b x } disk c =
      blockPlace v disk c := fun c =>
    blockPlace_congr (show SameDisk v { v with
      bamState := Function.update v.bamState b x } from rfl) hview fun _ => ⟨rfl, rfl⟩
  refine ⟨rfl, ⟨h.format, h.size, h.size1581, h.size8050, h.located, ?_, ?_⟩, hview, ?_,
    fun _ h => h, fun _ _ => rfl, fun c _ => hplace c⟩
  · intro h90 c hc hc'
    have := hneg c
    exact h.placed h90 c hc (by
      show 0 ≤ v.bamState c
      have hc' : 0 ≤ Function.update v.bamState b x c := hc'
      omega)
  · intro c hc hc' buf
    rw [hplace]
    exact h.reads c hc ((hneg c).mp hc') buf
  · intro c hc
    have := hneg c
    show 0 ≤ Function.update v.bamState b x c
    omega

/-- Touching a byte brings its block into memory. -/
theorem touch_ok (h : Mounted v disk) (hk : k / 256 < bamBlocks v) :
    Loads disk v (touch v k) ∧ 0 ≤ (touch v k).bamState (k / 256) := by
  obtain ⟨w, hw, hl, hstate⟩ := vdriveBamReadBamBlock_ok h hk
  unfold touch
  simp only [hw]
  exact ⟨hl.trans (mark_becomes hl.mounted hstate (by decide)), by simp⟩

/-- A read-modify-write of one byte. -/
theorem touch_poke (h : Mounted v disk) (hk : k / 256 < bamBlocks v)
    (h90 : v.imageFormat = .f9000 → 2 ≤ k % 256) (f : UInt8 → UInt8) :
    Becomes disk v { touch v k with
        bam := Function.update (touch v k).bam k (f ((touch v k).bam k)) }
      (Function.update (view v disk) k (f (view v disk k))) := by
  obtain ⟨hl, hstate⟩ := touch_ok h hk
  have hp := poke_becomes hl.mounted hstate (fun h => h90 (hl.same.format ▸ h))
    (f ((touch v k).bam k))
  have hbyte : (touch v k).bam k = view v disk k := by
    rw [← hl.view, view_loaded hstate]
  rw [hl.view, hbyte] at hp
  rw [hbyte]
  exact Becomes.trans hl hp

end

end Vice.L3.Bam
