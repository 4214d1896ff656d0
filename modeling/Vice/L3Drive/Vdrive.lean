import Vice.L3Drive.Disk

/-!
# Logical sectors (`vdrive.c`)

A drive addresses sectors by the track and sector of the mounted format.
`vdrive_log_to_phy` turns them into those of the image: unchanged for plain images,
through `current_offset`, counted in blocks of 512 bytes, for CMD images. `uint32Max`
is the offset of a drive that has no partition selected.

An image is attached, so `image_mode` is the image's read-only flag.

Results:
* `cmdAddress_block`: on a CMD image a logical offset lands on the block
  `2 * current_offset + offset`.
* `vdriveReadSector_setBlock`, `vdriveWriteSector_setBlock`: only the addressed block
  takes part in a transfer.
-/
namespace Vice.L3.Drive
open Vice.L2.Geometry Vice.L3.Disk

/-- mirrors src/vdrive/vdrive.h:45-54 -/
inductive Format
  | f1541 | f1571 | f1581 | f8050 | f8250 | f2040 | np | sys | f9000 | none
  deriving DecidableEq, Repr

def uint32Max : Nat := 4294967295

/-- The CMD partitions of `vdrive_t`, indexed by the partition number. -/
structure PartTable where
  ptype : Nat → Nat
  poffset : Nat → Nat
  psize : Nat → Nat

/-- mirrors src/vdrive/vdrive.h:134-206 (`vdrive_t`) -/
structure Vdrive where
  image : Image
  imageFormat : Format
  numTracks : Nat
  haspt : Bool
  currentOffset : Nat
  sysOffset : Nat
  parts : PartTable
  bamTrack : Nat
  bamSector : Nat
  headerTrack : Nat
  headerSector : Nat
  dirTrack : Nat
  dirSector : Nat
  d90toggle : Nat
  bamSize : Nat
  bam : Buf
  bamState : Nat → Int    -- -1 not in memory, 0 in memory, 1 dirty
  bamTracks : Nat → Int
  bamSectors : Nat → Int

/-- mirrors src/vdrive/vdrive.h:40 (`VDRIVE_IS_HD`) -/
def Vdrive.isHd (vdrive : Vdrive) : Bool := vdrive.image.shape.type = .dhd

/-- mirrors src/vdrive/vdrive.c:774-783 -/
def tosec4171 : List Nat :=
  [0, 0, 21, 42, 63, 84, 105, 126, 147, 168, 189,
   210, 231, 252, 273, 294, 315, 336, 357, 376, 395,
   414, 433, 452, 471, 490, 508, 526, 544, 562, 580,
   598, 615, 632, 649, 666,
   683, 704, 725, 746, 767, 788, 809, 830, 851, 872,
   893, 914, 935, 956, 977, 998, 1019, 1040, 1059, 1078,
   1097, 1116, 1135, 1154, 1173, 1191, 1209, 1227, 1245, 1263,
   1281, 1298, 1315, 1332, 1349]

/-- mirrors src/vdrive/vdrive.c:785-796 -/
def max4171 : List Nat :=
  [0, 21, 21, 21, 21, 21, 21, 21, 21, 21, 21,
   21, 21, 21, 21, 21, 21, 21, 19, 19, 19,
   19, 19, 19, 19, 18, 18, 18, 18, 18, 18,
   17, 17, 17, 17, 17,
   21, 21, 21, 21, 21, 21, 21, 21, 21, 21,
   21, 21, 21, 21, 21, 21, 21, 19, 19, 19,
   19, 19, 19, 19, 18, 18, 18, 18, 18, 18,
   17, 17, 17, 17, 17]

/-- A system partition of a CMD floppy: 8 sectors on track 0 and `limit` on track 1. -/
def sysOffsetFd (limit track sector : Nat) : Option Nat :=
  if track = 0 ∧ sector > 7 then none
  else if sector ≥ limit then none
  else some (track * 8 + sector)

/-- mirrors src/vdrive/vdrive.c:808-892: where a sector lies in its CMD partition. -/
def partitionOffset (vdrive : Vdrive) (track sector : Nat) : Option Nat :=
  if vdrive.imageFormat ≠ .sys ∧ track < 1 then none
  else match vdrive.imageFormat with
  | .f1541 =>
    if track > 35 then none
    else if sector ≥ max4171.getD track 0 then none
    else some (tosec4171.getD track 0 + sector)
  | .f1571 =>
    if track > 70 then none
    else if sector ≥ max4171.getD track 0 then none
    else some (tosec4171.getD track 0 + sector)
  | .f1581 =>
    if track > 80 then none
    else if sector ≥ 40 then none
    else some ((track - 1) * 40 + sector)
  | .np =>
    if track > vdrive.numTracks then none
    else if sector > 255 then none
    else some ((track - 1) * 256 + sector)
  | .sys =>
    if track > 1 then none
    else match vdrive.image.shape.type with
    | .dhd => if sector > 255 then none else some (track * 256 + sector)
    | .d1m => sysOffsetFd 32 track sector
    | .d2m => sysOffsetFd 72 track sector
    | .d4m => sysOffsetFd 152 track sector
    | _ => none
  | _ => none

/-- mirrors src/vdrive/vdrive.c:896-911: `dadr` of an offset in the selected partition. -/
def cmdAddress (vdrive : Vdrive) (offset : Nat) : Nat × Nat :=
  if vdrive.isHd then
    let track := vdrive.currentOffset / 2 ^ 15 + 1
    let sector := vdrive.currentOffset * 2 % 65536 + offset
    if sector / 65536 ≠ 0 then (track + 1, sector % 65536) else (track, sector)
  else
    let offset := (offset + vdrive.currentOffset * 2) % 2 ^ 32
    (offset / 256 + 1, offset % 256)

/-- mirrors src/vdrive/vdrive.c:798-936 (`vdrive_log_to_phy`) -/
def vdriveLogToPhy (vdrive : Vdrive) (track sector : Nat) : Option (Nat × Nat) :=
  if vdrive.currentOffset = uint32Max then none
  else if vdrive.haspt then (partitionOffset vdrive track sector).map (cmdAddress vdrive)
  else if vdrive.image.shape.type = .g71 then
    if track > 70 then none
    else some (if track > 35 then track + 7 else track, sector)
  else some (track, sector)

/-- mirrors src/vdrive/vdrive.c:940-969 (`vdrive_read_sector`) -/
def vdriveReadSector (vdrive : Vdrive) (buf : Buf) (track sector : Nat) : Ipe × Buf :=
  match vdriveLogToPhy vdrive track sector with
  | none => (.notReady, buf)
  | some (track, sector) => readSector vdrive.image buf track sector

/-- mirrors src/vdrive/vdrive.c:971-1001 (`vdrive_write_sector`) -/
def vdriveWriteSector (vdrive : Vdrive) (buf : Buf) (track sector : Nat) : Ipe × Vdrive :=
  if vdrive.image.readOnly then (.writeProtectOn, vdrive)
  else match vdriveLogToPhy vdrive track sector with
  | none => (.notReady, vdrive)
  | some (track, sector) =>
    let (ret, image) := writeSector vdrive.image buf track sector
    (ret, { vdrive with image := image })

/-! ## Transfers and the other blocks -/

/-- The drive with another block in its image. -/
def Vdrive.setBlock (vdrive : Vdrive) (n : Nat) (buf : Buf) : Vdrive :=
  { vdrive with image := vdrive.image.setBlock n buf }

section
variable {vdrive : Vdrive} {n track sector : Nat} {b buf : Buf}

theorem vdriveLogToPhy_setBlock :
    vdriveLogToPhy (vdrive.setBlock n b) track sector = vdriveLogToPhy vdrive track sector := rfl

/-- The logical sector is not stored in block `n`. -/
def Misses (vdrive : Vdrive) (n track sector : Nat) : Prop :=
  ∀ t s, vdriveLogToPhy vdrive track sector = some (t, s) → Avoids vdrive.image n t s

theorem vdriveReadSector_setBlock (h : Misses vdrive n track sector) :
    vdriveReadSector (vdrive.setBlock n b) buf track sector =
      vdriveReadSector vdrive buf track sector := by
  unfold vdriveReadSector
  rw [vdriveLogToPhy_setBlock]
  cases hp : vdriveLogToPhy vdrive track sector with
  | none => rfl
  | some ts => exact readSector_setBlock (h ts.1 ts.2 hp)

theorem vdriveWriteSector_setBlock (h : Misses vdrive n track sector) :
    vdriveWriteSector (vdrive.setBlock n b) buf track sector =
      ((vdriveWriteSector vdrive buf track sector).1,
        (vdriveWriteSector vdrive buf track sector).2.setBlock n b) := by
  unfold vdriveWriteSector
  rw [vdriveLogToPhy_setBlock]
  by_cases hro : vdrive.image.readOnly
  · rw [if_pos hro, if_pos (show (vdrive.setBlock n b).image.readOnly = true from hro)]
  · rw [if_neg hro, if_neg (show ¬ (vdrive.setBlock n b).image.readOnly = true from hro)]
    cases hp : vdriveLogToPhy vdrive track sector with
    | none => rfl
    | some ts =>
      have hw := @writeSector_setBlock vdrive.image n b buf ts.1 ts.2 (h ts.1 ts.2 hp)
      simp only [Vdrive.setBlock, hw]

/-- A store touches nothing but the image, and that keeps its shape. -/
theorem vdriveWriteSector_image (vdrive : Vdrive) (buf : Buf) (track sector : Nat) :
    ∃ image, (vdriveWriteSector vdrive buf track sector).2 = { vdrive with image := image } ∧
      image.shape = vdrive.image.shape := by
  unfold vdriveWriteSector
  split
  · exact ⟨vdrive.image, rfl, rfl⟩
  · split
    · exact ⟨vdrive.image, rfl, rfl⟩
    · exact ⟨_, rfl, writeSector_shape ..⟩

end

/-! ## CMD images -/

def IsCmd (type : ImageType) : Prop := type = .dhd ∨ type = .d1m ∨ type = .d2m ∨ type = .d4m

/-- Where block `n` of a CMD image lies. -/
def physical (vdrive : Vdrive) (n : Nat) : Nat × Nat :=
  if vdrive.isHd then (n / 65536 + 1, n % 65536) else (n / 256 + 1, n % 256)

theorem checkSector_cmd {image : Shape} (h : IsCmd image.type) {t s m : Nat}
    (hm : checkSector image t s = .ok m) :
    m = (t - 1) * (if image.type = .dhd then 65536 else 256) + s := by
  unfold checkSector checkCmd at hm
  rcases h with h | h | h | h
  all_goals
    simp only [h, ne_eq, reduceCtorEq, not_false_eq_true, true_and, if_true, if_false] at hm ⊢
    repeat' split at hm
    all_goals cases hm
    rfl

/-- An offset in a partition is a place behind its start. -/
theorem cmdAddress_block {vdrive : Vdrive} {offset : Nat} (ho : offset < 65536)
    (hsmall : vdrive.isHd ∨ offset + vdrive.currentOffset * 2 < 2 ^ 32) :
    cmdAddress vdrive offset = physical vdrive (2 * vdrive.currentOffset + offset) := by
  unfold cmdAddress physical
  by_cases hhd : vdrive.isHd
  · simp only [if_pos hhd]
    split <;> refine Prod.ext ?_ ?_ <;> simp only <;> omega
  · have hlt := hsmall.resolve_left hhd
    simp only [if_neg hhd, Nat.mod_eq_of_lt hlt]
    refine Prod.ext ?_ ?_ <;> simp only <;> omega

end Vice.L3.Drive
