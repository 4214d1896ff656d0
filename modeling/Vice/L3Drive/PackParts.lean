import Vice.L3Drive.PackPlan
import Vice.L3Drive.PartitionTable

/-!
# Packing partitions (`vdrive_pack_parts`)

Before a partition is moved, its sectors and those of the destination are read, to be
sure that the copy will not fail. Both passes and the copy count down the same `j`, and
nothing sets it again after the second pass: the copy loop finds it at zero. A moved
partition changes its offset and leaves its data behind.

Results:
* `movePart_ok`: on a medium without errors a move leaves the image as it is.
* `packLoop_plan`: the loop carries out a `Plan` and touches nothing but the table.
* `vdrivePackParts_preserves_iff`: the data of the partitions survive for every contents
  of the image just when no partition has to move.
-/
namespace Vice.L3.PackParts
open Vice.L2.Geometry Vice.L3.Disk Vice.L3.Drive Vice.L3.PartitionTable Vice.L3.PackPlan

/-- mirrors src/vdrive/vdrive.c:1509-1514: `n` sectors from `i` on; stops at an error. -/
def readChunk (vdrive : Vdrive) : Nat → Nat → (Nat → Buf) → Ipe → (Nat → Buf) × Ipe
  | 0, _, buf, ret => (buf, ret)
  | n + 1, i, buf, _ =>
    let (ret, b) := vdriveReadSector vdrive (buf i) 1 i
    let buf := Function.update buf i b
    if ret = .ok then readChunk vdrive n (i + 1) buf ret else (buf, ret)

/-- mirrors src/vdrive/vdrive.c:1507-1517: `j` blocks of 512 bytes in chunks of 32. Returns the
counter as well. -/
def readArea (vdrive : Vdrive) (buf : Nat → Buf) (ret : Ipe) (j : Nat) :
    Vdrive × (Nat → Buf) × Ipe × Nat :=
  if j = 0 then (vdrive, buf, ret, j)
  else
    let k := min j 32
    let (buf, ret) := readChunk vdrive (k * 2) 0 buf ret
    readArea { vdrive with currentOffset := vdrive.currentOffset + k } buf ret (j - k)
termination_by j

/-- mirrors src/vdrive/vdrive.c:1545-1547 -/
def fetchChunk (vdrive : Vdrive) : Nat → Nat → (Nat → Buf) → (Nat → Buf)
  | 0, _, buf => buf
  | n + 1, i, buf =>
    fetchChunk vdrive n (i + 1)
      (Function.update buf i (vdriveReadSector vdrive (buf i) 1 i).2)

/-- mirrors src/vdrive/vdrive.c:1549-1551 -/
def storeChunk (buf : Nat → Buf) : Nat → Nat → Vdrive → Vdrive
  | 0, _, vdrive => vdrive
  | n + 1, i, vdrive => storeChunk buf n (i + 1) (vdriveWriteSector vdrive (buf i) 1 i).2

/-- mirrors src/vdrive/vdrive.c:1542-1555 -/
def copyArea (vdrive : Vdrive) (buf : Nat → Buf) (src dest j : Nat) : Vdrive :=
  if j = 0 then vdrive
  else
    let k := min j 32
    let vdrive := { vdrive with currentOffset := src }
    let buf := fetchChunk vdrive (k * 2) 0 buf
    let vdrive := { vdrive with currentOffset := dest }
    copyArea (storeChunk buf (k * 2) 0 vdrive) buf (src + k) (dest + k) (j - k)
termination_by j

/-- mirrors src/vdrive/vdrive.c:1497-1555: moves the data of partition `best` to `dest`. -/
def movePart (vdrive : Vdrive) (best dest : Nat) : Ipe × Vdrive :=
  let src := vdrive.parts.poffset best
  let vdrive := { vdrive with imageFormat := .np, currentOffset := src }
  let (vdrive, buf, ret, _) := readArea vdrive (fun _ _ => 0) .ok (vdrive.parts.psize best)
  if ret = .ok then
    let vdrive := { vdrive with currentOffset := dest }
    let (vdrive, buf, ret, j) := readArea vdrive buf ret (vdrive.parts.psize best)
    if ret = .ok then (.ok, copyArea vdrive buf src dest j) else (ret, vdrive)
  else (ret, vdrive)

/-- mirrors src/vdrive/vdrive.c:1444-1565, at most `fuel` searches; `none` if they do not suffice. -/
def packLoop : Nat → Vdrive → Nat → Option Vdrive
  | 0, _, _ => none
  | fuel + 1, vdrive, dest =>
    let found := scan vdrive.parts (maxpart vdrive) dest
    if found.bestpos = int32Max ∧ found.block = 0 then some vdrive
    else if found.bestpos = int32Max ∧ found.block ≠ 0 then
      packLoop fuel vdrive (vdrive.parts.poffset found.block + vdrive.parts.psize found.block)
    else if dest = found.bestpos then
      packLoop fuel vdrive (found.bestpos + vdrive.parts.psize found.best)
    else
      let (ret, vdrive) := movePart vdrive found.best dest
      if ret = .ok then
        packLoop fuel { vdrive with parts := place vdrive.parts found.best dest }
          (dest + vdrive.parts.psize found.best)
      else some vdrive

/-- mirrors src/vdrive/vdrive.c:1424-1577 (`vdrive_pack_parts`) -/
def vdrivePackParts (fuel : Nat) (vdrive : Vdrive) : Option (Ipe × Vdrive) :=
  (packLoop fuel vdrive 0).map fun packed =>
    let (ret, packed) := vdriveWritePartitionTable packed
    (ret, { packed with
      currentOffset := vdrive.currentOffset, imageFormat := vdrive.imageFormat })

/-! ## Verifying an area -/

/-- A CMD image all of whose sectors read. -/
structure Media (vdrive : Vdrive) : Prop where
  haspt : vdrive.haspt = true
  cmd : IsCmd vdrive.image.shape.type
  tracks : 1 ≤ vdrive.numTracks
  reads : ∀ n < vdrive.image.blocks,
    Reads vdrive.image (physical vdrive n).1 (physical vdrive n).2 n

section
variable {vdrive : Vdrive} {n j : Nat} {b : Buf}

/-- Such an image has less than 2^23 sectors. -/
theorem Media.lt (h : Media vdrive) (hn : n < vdrive.image.blocks) : n < 2 ^ 23 := by
  have ho := of_decide_eq_true (h.reads n hn).2.2.1
  omega

theorem Media.setBlock (h : Media vdrive) (n : Nat) (b : Buf) : Media (vdrive.setBlock n b) :=
  ⟨h.haspt, h.cmd, h.tracks, h.reads⟩

theorem Media.read (h : Media vdrive) (hf : vdrive.imageFormat = .np) {i : Nat} (hi : i ≤ 255)
    (hin : 2 * vdrive.currentOffset + i < vdrive.image.blocks) (buf : Buf) :
    (vdriveReadSector vdrive buf 1 i).1 = .ok := by
  have hlt := h.lt hin
  have ho : partitionOffset vdrive 1 i = some i := by
    have := h.tracks
    simp only [partitionOffset, hf, if_neg (show ¬ 1 > vdrive.numTracks by omega),
      if_neg (show ¬ i > 255 by omega)]
    simp
  have hp : vdriveLogToPhy vdrive 1 i =
      some (physical vdrive (2 * vdrive.currentOffset + i)) := by
    unfold vdriveLogToPhy uint32Max
    rw [if_neg (by omega), if_pos h.haspt, ho, Option.map_some,
      cmdAddress_block (by omega) (Or.inr (by omega))]
  unfold vdriveReadSector
  rw [hp]
  exact congrArg Prod.fst ((h.reads _ hin).readSector buf)

theorem readChunk_ok (hr : ∀ i ≤ 255, 2 * vdrive.currentOffset + i < 2 * vdrive.currentOffset + n →
      ∀ buf, (vdriveReadSector vdrive buf 1 i).1 = .ok) (hn : n ≤ 256) (m : Nat) {i : Nat}
    (hm : i + m = n) (buf : Nat → Buf) : (readChunk vdrive m i buf .ok).2 = .ok := by
  induction m generalizing i buf with
  | zero => rfl
  | succ m ih =>
    have := hr i (by omega) (by omega) (buf i)
    simp only [readChunk, this, if_true]
    exact ih (by omega) _

theorem readArea_ok (h : Media vdrive) (hf : vdrive.imageFormat = .np) (j : Nat)
    (hin : 2 * (vdrive.currentOffset + j) ≤ vdrive.image.blocks) (buf : Nat → Buf) :
    ∃ buf', readArea vdrive buf .ok j =
      ({ vdrive with currentOffset := vdrive.currentOffset + j }, buf', .ok, 0) := by
  induction j using Nat.strong_induction_on generalizing vdrive buf with
  | h j ih =>
    rw [readArea]
    by_cases hj : j = 0
    · exact ⟨buf, by rw [if_pos hj, hj]; rfl⟩
    · rw [if_neg hj]
      have hk : min j 32 ≤ j ∧ 0 < min j 32 ∧ min j 32 ≤ 32 := by omega
      generalize min j 32 = k at hk
      have hchunk := readChunk_ok (n := k * 2)
        (fun i hi hik buf => h.read hf hi (by omega) buf) (by omega) (k * 2) (Nat.zero_add _) buf
      let next := { vdrive with currentOffset := vdrive.currentOffset + k }
      have hnext : Media next := ⟨h.haspt, h.cmd, h.tracks, h.reads⟩
      obtain ⟨buf', hrest⟩ := ih (j - k) (by omega) hnext hf
        (show 2 * (vdrive.currentOffset + k + (j - k)) ≤ vdrive.image.blocks by omega)
        (readChunk vdrive (k * 2) 0 buf .ok).1
      refine ⟨buf', ?_⟩
      have hend : vdrive.currentOffset + k + (j - k) = vdrive.currentOffset + j := by omega
      simp only [hchunk]
      exact hrest.trans (by simp only [next, hend])

/-- On a medium without errors a move passes both checks, and the copy loop has nothing left to
do. -/
theorem movePart_ok (h : Media vdrive) {best dest : Nat} (hd : dest ≤ vdrive.parts.poffset best)
    (hin : 2 * (vdrive.parts.poffset best + vdrive.parts.psize best) ≤ vdrive.image.blocks) :
    movePart vdrive best dest = (.ok, { vdrive with
      imageFormat := .np, currentOffset := dest + vdrive.parts.psize best }) := by
  unfold movePart
  have hat : ∀ offset, Media { vdrive with imageFormat := .np, currentOffset := offset } :=
    fun _ => ⟨h.haspt, h.cmd, h.tracks, h.reads⟩
  obtain ⟨buf1, h1⟩ := readArea_ok (hat (vdrive.parts.poffset best)) rfl
    (vdrive.parts.psize best) hin (fun _ _ => 0)
  simp only [h1, if_true]
  obtain ⟨buf2, h2⟩ := readArea_ok (hat dest) rfl (vdrive.parts.psize best)
    (Nat.le_trans (by simp only; omega) hin) buf1
  simp only [h2, if_true]
  rw [copyArea, if_pos rfl]

end

/-! ## The loop carries out a plan -/

/-- The movable partitions lie inside the image. -/
def Fits (vdrive : Vdrive) : Prop :=
  ∀ i, Movable vdrive.parts (maxpart vdrive) i →
    2 * (vdrive.parts.poffset i + vdrive.parts.psize i) ≤ vdrive.image.blocks

section
variable {vdrive packed : Vdrive} {fuel dest n : Nat} {b : Buf}

/-- The drive after partition `best` has been moved. -/
def moved (vdrive : Vdrive) (best dest : Nat) : Vdrive :=
  { vdrive with
    imageFormat := .np
    currentOffset := dest + vdrive.parts.psize best
    parts := place vdrive.parts best dest }

theorem Media.moved (h : Media vdrive) (best dest : Nat) : Media (moved vdrive best dest) :=
  ⟨h.haspt, h.cmd, h.tracks, h.reads⟩

theorem Fits.moved (h : Fits vdrive) {best : Nat} (hd : dest ≤ vdrive.parts.poffset best) :
    Fits (moved vdrive best dest) := by
  intro i hi
  have hin := h i hi
  show 2 * ((place vdrive.parts best dest).poffset i + vdrive.parts.psize i) ≤ _
  rcases place_cases vdrive.parts best dest i with ⟨rfl, hp⟩ | ⟨-, hp⟩
  · rw [hp]
    have : (PackParts.moved vdrive i dest).image.blocks = vdrive.image.blocks := rfl
    omega
  · rw [hp]
    exact hin

/-- One turn of the loop, when every sector reads. -/
theorem packLoop_succ (h : Media vdrive) (hfits : Fits vdrive) : packLoop (fuel + 1) vdrive dest =
      let found := scan vdrive.parts (maxpart vdrive) dest
      if found.bestpos = int32Max ∧ found.block = 0 then some vdrive
      else if found.bestpos = int32Max ∧ found.block ≠ 0 then
        packLoop fuel vdrive (vdrive.parts.poffset found.block + vdrive.parts.psize found.block)
      else if dest = found.bestpos then
        packLoop fuel vdrive (found.bestpos + vdrive.parts.psize found.best)
      else packLoop fuel (moved vdrive found.best dest) (dest + vdrive.parts.psize found.best) := by
  rw [packLoop]
  have hfound := (scan_found vdrive.parts (maxpart vdrive) dest).best
  generalize scan vdrive.parts (maxpart vdrive) dest = found at hfound
  by_cases hmax : found.bestpos = int32Max
  · by_cases hb : found.block = 0
    · simp only [hmax, hb, true_and, if_true]
    · simp only [hmax, hb, true_and, if_false, ne_eq, not_false_eq_true, if_true]
  · obtain ⟨hm, hd, -, -⟩ := hfound hmax
    simp only [hmax, false_and, if_false, movePart_ok h hd (hfits _ hm), if_true]
    rfl

/-- The loop changes only the table and the variables that `vdrive_pack_parts` restores. -/
theorem packLoop_plan (h : Media vdrive) (hfits : Fits vdrive)
    (hret : packLoop fuel vdrive dest = some packed) :
    Plan (maxpart vdrive) vdrive.parts dest packed.parts ∧
      packed = { vdrive with
        parts := packed.parts
        currentOffset := packed.currentOffset
        imageFormat := packed.imageFormat } := by
  induction fuel generalizing vdrive dest with
  | zero => cases hret
  | succ fuel ih =>
    rw [packLoop_succ h hfits] at hret
    have hfound := (scan_found vdrive.parts (maxpart vdrive) dest).best
    simp only at hret
    by_cases hmax : (scan vdrive.parts (maxpart vdrive) dest).bestpos = int32Max
    · by_cases hb : (scan vdrive.parts (maxpart vdrive) dest).block = 0
      · rw [if_pos ⟨hmax, hb⟩] at hret
        cases hret
        exact ⟨Plan.done hmax hb, rfl⟩
      · rw [if_neg (fun c => hb c.2), if_pos ⟨hmax, hb⟩] at hret
        obtain ⟨hplan, hsame⟩ := ih h hfits hret
        exact ⟨Plan.skip hmax hb hplan, hsame⟩
    · rw [if_neg (fun c => hmax c.1), if_neg (fun c => hmax c.1)] at hret
      obtain ⟨hm, hd, hpos, -⟩ := hfound hmax
      by_cases hat : dest = (scan vdrive.parts (maxpart vdrive) dest).bestpos
      · -- already in place: the plan's `place` is no change
        rw [if_pos hat] at hret
        obtain ⟨hplan, hsame⟩ := ih h hfits hret
        refine ⟨Plan.place hmax ?_, hsame⟩
        rw [← hat] at hplan
        rw [place_self (hpos.trans hat.symm)]
        exact hplan
      · rw [if_neg hat] at hret
        obtain ⟨hplan, hsame⟩ := ih (h.moved _ _) (hfits.moved hd) hret
        exact ⟨Plan.place hmax hplan, hsame⟩

theorem packLoop_setBlock (h : Media vdrive) (hfits : Fits vdrive) : packLoop fuel (vdrive.setBlock n b) dest =
      (packLoop fuel vdrive dest).map (fun packed => packed.setBlock n b) := by
  induction fuel generalizing vdrive dest with
  | zero => rfl
  | succ fuel ih =>
    rw [packLoop_succ h hfits, packLoop_succ (h.setBlock n b) hfits]
    have hfound := (scan_found vdrive.parts (maxpart vdrive) dest).best
    simp only [show (vdrive.setBlock n b).parts = vdrive.parts from rfl,
      show maxpart (vdrive.setBlock n b) = maxpart vdrive from rfl]
    by_cases hdone : (scan vdrive.parts (maxpart vdrive) dest).bestpos = int32Max ∧
        (scan vdrive.parts (maxpart vdrive) dest).block = 0
    · rw [if_pos hdone, if_pos hdone]; rfl
    · rw [if_neg hdone, if_neg hdone]
      split
      · exact ih h hfits
      · rename_i hmax
        split
        · exact ih h hfits
        · have hne : (scan vdrive.parts (maxpart vdrive) dest).bestpos ≠ int32Max := by
            intro h1
            by_cases h2 : (scan vdrive.parts (maxpart vdrive) dest).block = 0
            · exact hdone ⟨h1, h2⟩
            · exact hmax ⟨h1, h2⟩
          exact ih (h.moved _ _) (hfits.moved (hfound hne).2.1)

end

/-! ## Data of the partitions -/

/-- A partition that is not deleted. -/
def Used (vdrive : Vdrive) (i : Nat) : Prop :=
  1 ≤ i ∧ i ≤ maxpart vdrive ∧ vdrive.parts.ptype i ≠ 0

/-- A CMD image without errors whose partitions lie inside it and do not overlap each other or the
partition table. -/
structure Sound (vdrive : Vdrive) : Prop where
  media : Media vdrive
  inside : ∀ i, Used vdrive i →
    2 * (vdrive.parts.poffset i + vdrive.parts.psize i) ≤ vdrive.image.blocks
  apart : ∀ i j, Used vdrive i → Used vdrive j → i ≠ j →
    vdrive.parts.poffset i + vdrive.parts.psize i ≤ vdrive.parts.poffset j ∨
      vdrive.parts.poffset j + vdrive.parts.psize j ≤ vdrive.parts.poffset i
  table : ∀ s < tableSectors vdrive, tableBlock vdrive s < vdrive.image.blocks
  offTable : ∀ i, Used vdrive i → ∀ k < 2 * vdrive.parts.psize i,
    OffTable vdrive (2 * vdrive.parts.poffset i + k)

/-- Every partition of `vdrive` has its sectors at its place in `packed`. -/
def Preserved (vdrive packed : Vdrive) : Prop :=
  ∀ i, Used vdrive i → ∀ k < 2 * vdrive.parts.psize i,
    packed.image.data (2 * packed.parts.poffset i + k) =
      vdrive.image.data (2 * vdrive.parts.poffset i + k)

def withData (vdrive : Vdrive) (data : Nat → Buf) : Vdrive :=
  { vdrive with image := { vdrive.image with data := data } }

section
variable {vdrive packed : Vdrive} {fuel n : Nat} {b : Buf} {ret : Ipe}

theorem Movable.used {i : Nat} (h : Movable vdrive.parts (maxpart vdrive) i) : Used vdrive i :=
  ⟨h.1, h.2.1, by have := h.2.2.1; omega⟩

theorem Foreign.used {i : Nat} (h : Foreign vdrive.parts (maxpart vdrive) i) : Used vdrive i :=
  ⟨h.1, h.2.1, by have := h.2.2; omega⟩

theorem Sound.fits (h : Sound vdrive) : Fits vdrive := fun i hi => h.inside i (Movable.used hi)

theorem Sound.withData (h : Sound vdrive) (data : Nat → Buf) : Sound (withData vdrive data) :=
  ⟨⟨h.media.haspt, h.media.cmd, h.media.tracks, h.media.reads⟩, h.inside, h.apart, h.table,
    h.offTable⟩

theorem Sound.disjoint (h : Sound vdrive) : Disjoint vdrive.parts (maxpart vdrive) where
  start := by
    intro i hi
    have hin := h.inside i (Movable.used hi)
    unfold int32Max
    rcases Nat.eq_zero_or_pos vdrive.image.blocks with hz | hz
    · omega
    · have := h.media.lt (n := vdrive.image.blocks - 1) (by omega)
      omega
  movable := fun i j hi hj => h.apart i j (Movable.used hi) (Movable.used hj)
  foreign := by
    intro i j hi hj
    refine h.apart i j (Movable.used hi) (Foreign.used hj) ?_
    rintro rfl
    have := hi.2.2.2
    have := hj.2.2
    omega

theorem Sound.hasTable (h : Sound vdrive) : HasTable vdrive := by
  refine ⟨h.media.haspt, h.media.cmd, ?_⟩
  have hs : 0 < tableSectors vdrive := by unfold tableSectors; split <;> omega
  have hlt := h.media.lt (h.table 0 hs)
  unfold tableBlock at hlt
  omega

/-- What a finished run returns. -/
theorem packParts_result (hret : vdrivePackParts fuel vdrive = some (ret, packed)) :
    ∃ mid, packLoop fuel vdrive 0 = some mid ∧ ret = (vdriveWritePartitionTable mid).1 ∧
      packed = { (vdriveWritePartitionTable mid).2 with
        currentOffset := vdrive.currentOffset, imageFormat := vdrive.imageFormat } := by
  obtain ⟨mid, hmid, hres⟩ := Option.map_eq_some_iff.mp hret
  cases hres
  exact ⟨mid, hmid, rfl, rfl⟩

theorem packParts_parts {mid : Vdrive} (hres : packed = { (vdriveWritePartitionTable mid).2 with
      currentOffset := vdrive.currentOffset, imageFormat := vdrive.imageFormat }) :
    packed.parts = mid.parts ∧
      packed.image.data = (vdriveWritePartitionTable mid).2.image.data := by
  rw [hres]
  exact ⟨vdriveWritePartitionTable_parts mid, rfl⟩

/-- The blocks outside the table end up as they were. -/
theorem Sound.packParts_data (h : Sound vdrive)
    (hret : vdrivePackParts fuel vdrive = some (ret, packed)) (hn : OffTable vdrive n) :
    packed.image.data n = vdrive.image.data n := by
  obtain ⟨mid, hmid, -, hres⟩ := packParts_result hret
  obtain ⟨-, hsame⟩ := packLoop_plan h.media h.fits hmid
  have htable : HasTable mid := by rw [hsame]; exact h.hasTable
  have hoff : OffTable mid n := by rw [hsame]; exact hn
  rw [(packParts_parts hres).2, vdriveWritePartitionTable_data htable hoff, hsame]

/-- The run on an image that differs in a block outside the table differs there only. -/
theorem Sound.packParts_setBlock (h : Sound vdrive)
    (hret : vdrivePackParts fuel vdrive = some (ret, packed)) (hn : OffTable vdrive n) :
    vdrivePackParts fuel (vdrive.setBlock n b) = some (ret, packed.setBlock n b) := by
  obtain ⟨mid, hmid, hr, hres⟩ := packParts_result hret
  obtain ⟨-, hsame⟩ := packLoop_plan h.media h.fits hmid
  have htable : HasTable mid := by rw [hsame]; exact h.hasTable
  have hoff : OffTable mid n := by rw [hsame]; exact hn
  unfold vdrivePackParts
  rw [packLoop_setBlock h.media h.fits, hmid, hres, hr]
  simp only [Option.map_some, vdriveWritePartitionTable_setBlock htable hoff]
  rfl

/-- Partitions that are where they were keep their data. -/
theorem Sound.preserved_of_gapless (h : Sound vdrive) (hret : vdrivePackParts fuel vdrive = some (ret, packed))
    (hgap : Gapless vdrive.parts (maxpart vdrive)) : Preserved vdrive packed := by
  obtain ⟨mid, hmid, -, hres⟩ := packParts_result hret
  obtain ⟨hplan, -⟩ := packLoop_plan h.media h.fits hmid
  have hparts : packed.parts = vdrive.parts :=
    (packParts_parts hres).1.trans
      (hplan.of_gapless h.disjoint hgap (fun k _ hk => absurd hk (Nat.not_lt_zero _)))
  intro i hi k hk
  rw [hparts]
  exact h.packParts_data hret (h.offTable i hi k hk)

/-- A moved partition does not bring its data along. -/
theorem Sound.not_preserved (h : Sound vdrive) (hret : vdrivePackParts fuel vdrive = some (ret, packed))
    (hgap : ¬ Gapless vdrive.parts (maxpart vdrive)) :
    ∃ n b, vdrivePackParts fuel (vdrive.setBlock n b) = some (ret, packed.setBlock n b) ∧
      ¬ Preserved (vdrive.setBlock n b) (packed.setBlock n b) := by
  obtain ⟨mid, hmid, -, hres⟩ := packParts_result hret
  obtain ⟨hplan, -⟩ := packLoop_plan h.media h.fits hmid
  obtain ⟨i, hi, hsize, hlt⟩ := hplan.moves (h.disjoint.ahead 0)
    (fun x hx => absurd hx (Nat.not_lt_zero x)) hgap
  rw [← (packParts_parts hres).1] at hlt
  -- the first sector of the partition: put there what the destination does not hold
  have hoff := h.offTable i (Movable.used hi) 0 (by show 0 < 2 * vdrive.parts.psize i; omega)
  refine ⟨2 * vdrive.parts.poffset i,
    fun _ => packed.image.data (2 * packed.parts.poffset i) 0 + 1,
    h.packParts_setBlock hret hoff, ?_⟩
  intro hp
  have hk : 0 < 2 * vdrive.parts.psize i := by omega
  have hne : 2 * packed.parts.poffset i ≠ 2 * vdrive.parts.poffset i := by omega
  have hdata := congrFun (hp i (Movable.used hi) 0 hk) 0
  simp only [Vdrive.setBlock, Nat.add_zero, Image.setBlock_same, Image.setBlock_other hne] at hdata
  exact absurd hdata (by simp)

end

/-- On a sound image whose packing returns OK, the partitions' data survive for every contents if
and only if the table has no gap before a partition. -/
theorem vdrivePackParts_preserves_iff {vdrive : Vdrive} (h : Sound vdrive)
    (hret : ∃ fuel packed, vdrivePackParts fuel vdrive = some (.ok, packed)) :
    (∀ data fuel packed, vdrivePackParts fuel (withData vdrive data) = some (.ok, packed) →
      Preserved (withData vdrive data) packed) ↔
    Gapless vdrive.parts (maxpart vdrive) := by
  constructor
  · intro hall
    by_contra hgap
    obtain ⟨fuel, packed, hret⟩ := hret
    obtain ⟨n, b, hother, hnot⟩ := h.not_preserved hret hgap
    exact hnot (hall (Function.update vdrive.image.data n b) fuel _ hother)
  · intro hgap data fuel packed hret
    exact (h.withData data).preserved_of_gapless hret hgap

/-! ## A partition behind a gap -/

def gapTable : PartTable where
  ptype := fun i => if i = 1 then 1 else 0
  poffset := fun i => if i = 1 then 10 else 0
  psize := fun i => if i = 1 then 4 else 0

/-- A D1M image with one partition, at LBA 10, whose first sector holds ones. -/
def gapDrive : Vdrive where
  image :=
    { shape := ⟨.d1m, 13, 256⟩
      readOnly := false
      blocks := 3240
      data := fun n _ => if n = 20 then 1 else 0
      errorMap := none }
  imageFormat := .none
  numTracks := 1
  haspt := true
  currentOffset := uint32Max
  sysOffset := 0x640
  parts := gapTable
  bamTrack := 0
  bamSector := 0
  headerTrack := 0
  headerSector := 0
  dirTrack := 0
  dirSector := 0
  d90toggle := 0
  bamSize := 0
  bam := fun _ => 0
  bamState := fun _ => -1
  bamTracks := fun _ => -1
  bamSectors := fun _ => -1

theorem gapDrive_used {i : Nat} (h : Used gapDrive i) : i = 1 := by
  obtain ⟨-, -, h⟩ := h
  by_contra hi
  exact h (if_neg hi)

theorem gapDrive_sound : Sound gapDrive where
  media :=
    { haspt := rfl
      cmd := Or.inr (Or.inl rfl)
      tracks := Nat.le_refl 1
      reads := by
        intro n hn
        have hn : n < 3240 := hn
        refine ⟨?_, hn, decide_eq_true (by omega), rfl, rfl⟩
        show checkCmd 13 168 (n / 256 + 1) (n % 256) = .ok n
        unfold checkCmd
        rw [if_neg (by omega), if_neg (by omega)]
        exact congrArg _ (by omega) }
  inside := by
    intro i hi
    rw [gapDrive_used hi]
    decide
  apart := by
    intro i j hi hj hne
    exact absurd ((gapDrive_used hi).trans (gapDrive_used hj).symm) hne
  table := by
    intro s hs
    have hs : s < 4 := hs
    show 2 * 0x640 + 8 + s < 3240
    omega
  offTable := by
    intro i hi k hk s hs
    rw [gapDrive_used hi] at hk ⊢
    have hs : s < 4 := hs
    have hk : k < 8 := hk
    show 2 * 10 + k ≠ 2 * 0x640 + 8 + s
    omega

theorem gapDrive_loop : packLoop 2 gapDrive 0 = some (moved gapDrive 1 0) := by
  have h1 : scan gapDrive.parts (maxpart gapDrive) 0 = ⟨1, 10, 0⟩ := rfl
  have h2 : scan (moved gapDrive 1 0).parts (maxpart (moved gapDrive 1 0)) 4 =
    ⟨0, int32Max, 0⟩ := rfl
  rw [packLoop_succ gapDrive_sound.media gapDrive_sound.fits, h1]
  refine (if_neg (by decide)).trans ((if_neg (by decide)).trans ((if_neg (by decide)).trans ?_))
  show packLoop 1 (moved gapDrive 1 0) 4 = _
  rw [packLoop_succ (gapDrive_sound.media.moved 1 0) (gapDrive_sound.fits.moved (Nat.zero_le _)), h2]
  exact if_pos ⟨rfl, rfl⟩

theorem gapDrive_packs : ∃ packed, vdrivePackParts 2 gapDrive = some (.ok, packed) ∧
    packed.parts.poffset 1 = 0 := by
  have htable : (vdriveWritePartitionTable (moved gapDrive 1 0)).1 = .ok := by decide +kernel
  have hparts := vdriveWritePartitionTable_parts (moved gapDrive 1 0)
  unfold vdrivePackParts
  rw [gapDrive_loop, Option.map_some]
  generalize vdriveWritePartitionTable (moved gapDrive 1 0) = written at htable hparts
  obtain ⟨ret, packed⟩ := written
  cases htable
  exact ⟨_, rfl, congrFun (congrArg PartTable.poffset hparts) 1⟩

/-- The partition is said to start at LBA 0 afterwards, where its first sector is not. -/
theorem gapDrive_loses_data : Sound gapDrive ∧ ∃ packed,
    vdrivePackParts 2 gapDrive = some (.ok, packed) ∧ ¬ Preserved gapDrive packed := by
  obtain ⟨packed, hret, hoff⟩ := gapDrive_packs
  refine ⟨gapDrive_sound, packed, hret, ?_⟩
  intro hp
  have hfirst : OffTable gapDrive 0 := by
    intro s hs
    show 0 ≠ 2 * 0x640 + 8 + s
    omega
  have hdata := hp 1 ⟨Nat.le_refl 1, by decide, by decide⟩ 0 (by decide)
  rw [hoff, gapDrive_sound.packParts_data hret hfirst] at hdata
  exact absurd (congrFun hdata 0) (by decide)

theorem vdrivePackParts_preserves_iff_gapDrive :
    (∀ data fuel packed, vdrivePackParts fuel (withData gapDrive data) = some (.ok, packed) →
      Preserved (withData gapDrive data) packed) ↔
    Gapless gapDrive.parts (maxpart gapDrive) :=
  vdrivePackParts_preserves_iff gapDrive_sound
    (gapDrive_packs.elim fun packed h => ⟨2, packed, h.1⟩)

end Vice.L3.PackParts
