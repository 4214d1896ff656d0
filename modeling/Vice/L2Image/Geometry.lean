import Mathlib.Tactic.IntervalCases

/-!
# Disk geometry (`diskimage.c`, `fsimage-check.c`)

The image types, their speed zones, how many sectors a track has and how its raw
track is laid out, and `fsimage_check_sector`, which turns a track and a sector
into a block number of the image file.

Results:
* `checkSector_dxx`: the block number of a sector of a D64, D67 or D71 image is the
  number of sectors before its track plus the sector, also on the second side.
* `trackFits`: on these images the sectors of a track and their gaps fit into the
  raw track.
-/
namespace Vice.L2.Geometry

/-- mirrors src/diskimage.h:73-93 (`DISK_IMAGE_TYPE_*` without the optional X64 and the tape) -/
inductive ImageType
  | g64 | g71 | p64 | d64 | d67 | d71 | d81 | d80 | d82 | d1m | d2m | d4m | dhd | d90
  deriving DecidableEq, Repr

/-- A C truth value. -/
def ofBool (b : Bool) : Nat := if b then 1 else 0

/-- mirrors src/diskimage/diskimage.c:80-121 (`disk_image_speed_map`) -/
def speedMap (format : ImageType) (track : Nat) : Nat :=
  let zone1541 (track : Nat) := ofBool (track < 31) + ofBool (track < 25) + ofBool (track < 18)
  let zone8050 (track : Nat) := ofBool (track < 65) + ofBool (track < 54) + ofBool (track < 40)
  match format with
  | .d67 | .d64 | .g64 | .p64 => zone1541 track
  | .d80 => zone8050 track
  | .d82 => zone8050 (if track > 77 then track - 77 else track)
  | .d71 => zone1541 (if track > 35 then track - 35 else track)
  | .g71 => zone1541 (if track > 42 then track - 42 else track)
  | _ => 0

def sectorMapD64 : List Nat := [17, 18, 19, 21]
def sectorMapD67 : List Nat := [17, 18, 20, 21]
def sectorMapD80 : List Nat := [23, 25, 27, 29]

/-- mirrors src/diskimage/diskimage.c:168-193 (`disk_image_sector_per_track`) -/
def sectorPerTrack (format : ImageType) (track : Nat) : Nat :=
  match format with
  | .d64 | .g64 | .p64 | .d71 | .g71 => sectorMapD64.getD (speedMap format track) 0
  | .d67 => sectorMapD67.getD (speedMap format track) 0
  | .d80 | .d82 => sectorMapD80.getD (speedMap format track) 0
  | _ => 0

def rawTrackSizeD64 : List Nat := [6250, 6666, 7142, 7692]
def rawTrackSizeD67 : List Nat := [6250, 6666, 7142, 7692]
def rawTrackSizeD80 : List Nat := [9375, 10000, 10714, 11538]

/-- mirrors src/diskimage/diskimage.c:243-269 (`disk_image_raw_track_size`) -/
def rawTrackSize (format : ImageType) (track : Nat) : Nat :=
  match format with
  | .d64 | .g64 | .p64 | .d71 | .g71 => rawTrackSizeD64.getD (speedMap format track) 0
  | .d67 => rawTrackSizeD67.getD (speedMap format track) 0
  | .d80 | .d82 => rawTrackSizeD80.getD (speedMap format track) 0
  | _ => 1

def gapSizeD64 : List Nat := [9, 12, 17, 8]
def gapSizeD67 : List Nat := [9, 12, 4, 8]

/-- mirrors src/diskimage/diskimage.c:291-315 (`disk_image_gap_size`) -/
def gapSize (format : ImageType) (track : Nat) : Nat :=
  match format with
  | .d64 | .g64 | .p64 | .d71 | .g71 => gapSizeD64.getD (speedMap format track) 0
  | .d67 => gapSizeD67.getD (speedMap format track) 0
  | .d80 | .d82 => 25
  | _ => 1

/-- mirrors src/diskimage/diskimage.c:320-343 (`disk_image_header_gap_size`) -/
def headerGapSize (format : ImageType) (_track : Nat) : Nat :=
  match format with
  | .d64 | .g64 | .p64 | .d71 | .g71 => 9
  | .d67 => 4
  | _ => 1

/-- mirrors src/diskimage/diskimage.c:349-372 (`disk_image_sync_size`) -/
def syncSize (format : ImageType) (_track : Nat) : Nat :=
  match format with
  | .d64 | .g64 | .p64 | .d71 | .g71 => 5
  | .d67 => 5
  | _ => 1

/-- The negative results of `fsimage_check_sector`. -/
inductive SectorErr
  | badTrknum | badSecnum
  deriving DecidableEq, Repr

/-- The part of `disk_image_t` that `fsimage_check_sector` reads. -/
structure Shape where
  type : ImageType
  tracks : Nat
  sectors : Nat
  deriving DecidableEq, Repr

/-- `f 1 + ... + f n`, the loops of `fsimage_check_sector`. -/
def sumSectors (f : Nat → Nat) : Nat → Nat
  | 0 => 0
  | n + 1 => sumSectors f n + f (n + 1)

/-- A zoned side: `limit` tracks, `f` sectors on each, `base` blocks before it. -/
def checkZoned (f : Nat → Nat) (base track sector : Nat) : Except SectorErr Nat :=
  if sector ≥ f track then .error .badSecnum else .ok (base + sumSectors f (track - 1) + sector)

/-- A CMD floppy: 256 sectors on each track and a shorter system track at the end. -/
def checkCmd (numTracks numSysSectors track sector : Nat) : Except SectorErr Nat :=
  if track > numTracks then .error .badTrknum
  else if sector > 255 ∨ (track = numTracks ∧ sector ≥ numSysSectors) then .error .badSecnum
  else .ok ((track - 1) * 256 + sector)

/-- mirrors src/diskimage/fsimage-check.c:50-200 (`fsimage_check_sector`) -/
def checkSector (image : Shape) (track sector : Nat) : Except SectorErr Nat :=
  if image.type ≠ .d90 ∧ track < 1 then .error .badTrknum
  else match image.type with
  | .d64 =>
    if track > 42 then .error .badTrknum else checkZoned (sectorPerTrack .d64) 0 track sector
  | .d67 =>
    if track > 35 then .error .badTrknum else checkZoned (sectorPerTrack .d67) 0 track sector
  | .d71 =>
    if track > 70 then .error .badTrknum
    else if track > 35 then checkZoned (sectorPerTrack .d64) 683 (track - 35) sector
    else checkZoned (sectorPerTrack .d64) 0 track sector
  | .d81 =>
    if track > 83 then .error .badTrknum
    else if sector ≥ 40 then .error .badSecnum
    else .ok ((track - 1) * 40 + sector)
  | .d80 =>
    if track > 77 then .error .badTrknum else checkZoned (sectorPerTrack .d80) 0 track sector
  | .d82 =>
    if track > 154 then .error .badTrknum
    else if track > 77 then checkZoned (sectorPerTrack .d80) 2083 (track - 77) sector
    else checkZoned (sectorPerTrack .d80) 0 track sector
  | .g64 | .g71 | .p64 =>
    if track > image.tracks ∨ track > 42 then .error .badTrknum
    else checkZoned (sectorPerTrack .d64) 0 track sector
  | .d1m => checkCmd 13 168 track sector
  | .d2m => checkCmd 26 80 track sector
  | .d4m => checkCmd 51 160 track sector
  | .dhd =>
    if track > 0xffff then .error .badTrknum
    else if sector > 0xffff then .error .badSecnum
    else .ok ((track - 1) * 65536 + sector)
  | .d90 =>
    if track > image.tracks then .error .badTrknum
    else if sector ≥ image.sectors then .error .badSecnum
    else .ok (track * (image.sectors / 32 * 32) + sector)

/-! ## Zones -/

theorem speedMap_le (format : ImageType) (track : Nat) : speedMap format track ≤ 3 := by
  have h : ∀ b, ofBool b ≤ 1 := by decide
  have hz : ∀ a b c, ofBool a + ofBool b + ofBool c ≤ 3 := by
    intro a b c
    have := h a; have := h b; have := h c
    omega
  unfold speedMap
  cases format <;> first | exact hz _ _ _ | exact Nat.zero_le _

/-- The image types that hold 1541 style tracks without GCR data. -/
def IsDxx (format : ImageType) : Prop := format = .d64 ∨ format = .d67 ∨ format = .d71

/-- What one sector takes up on a raw track. -/
def stride (format : ImageType) (track : Nat) : Nat :=
  335 + headerGapSize format track + gapSize format track + syncSize format track * 2

theorem trackFits {format : ImageType} (h : IsDxx format) (track : Nat) :
    sectorPerTrack format track * stride format track ≤ rawTrackSize format track := by
  have hz := speedMap_le format track
  unfold sectorPerTrack stride rawTrackSize gapSize headerGapSize syncSize
  rcases h with rfl | rfl | rfl
  all_goals
    simp only
    generalize speedMap _ track = z at *
    interval_cases z <;> decide

theorem sectorPerTrack_bound {format : ImageType} (h : IsDxx format) (track : Nat) :
    0 < sectorPerTrack format track ∧ sectorPerTrack format track ≤ 21 := by
  have hz := speedMap_le format track
  unfold sectorPerTrack
  rcases h with rfl | rfl | rfl
  all_goals
    simp only
    generalize speedMap _ track = z at *
    interval_cases z <;> decide

/-! ## Block numbers -/

theorem sumSectors_le {f : Nat → Nat} {m n : Nat} (h : m ≤ n) : sumSectors f m ≤ sumSectors f n := by
  induction n with
  | zero => rw [Nat.le_zero.mp h]
  | succ n ih =>
    rcases Nat.lt_or_eq_of_le h with h | h
    · have := ih (by omega)
      rw [sumSectors]; omega
    · rw [h]

/-- Sectors of different tracks have different block numbers. -/
theorem sumSectors_lt {f : Nat → Nat} {t u s : Nat} (ht : 0 < t) (h : t < u) (hs : s < f t) :
    sumSectors f (t - 1) + s < sumSectors f (u - 1) := by
  have h1 := sumSectors_le (f := f) (show t ≤ u - 1 by omega)
  obtain ⟨n, rfl⟩ : ∃ n, t = n + 1 := ⟨t - 1, by omega⟩
  rw [sumSectors] at h1
  rw [Nat.add_sub_cancel]
  omega

/-- The tracks `fsimage_check_sector` knows on these images. -/
def dxxMaxTracks : ImageType → Nat
  | .d64 => 42
  | .d67 => 35
  | .d71 => 70
  | _ => 0

theorem sumSectors_second_side {t : Nat} (h1 : 35 ≤ t) (h2 : t ≤ 70) :
    sumSectors (sectorPerTrack .d71) t = 683 + sumSectors (sectorPerTrack .d64) (t - 35) := by
  have hside : ∀ u < 36, sumSectors (sectorPerTrack .d71) (35 + u) =
      683 + sumSectors (sectorPerTrack .d64) u := by decide
  have := hside (t - 35) (by omega)
  rwa [show 35 + (t - 35) = t by omega] at this

theorem sectorPerTrack_d71 {t : Nat} (h : 35 < t) :
    sectorPerTrack .d71 t = sectorPerTrack .d64 (t - 35) := by
  simp only [sectorPerTrack, speedMap, if_pos h]

theorem sectorPerTrack_d71_first {t : Nat} (h : t ≤ 35) : sectorPerTrack .d71 t = sectorPerTrack .d64 t := by
  simp only [sectorPerTrack, speedMap, if_neg (show ¬ t > 35 by omega)]

theorem sumSectors_d71_first {t : Nat} (h : t ≤ 35) :
    sumSectors (sectorPerTrack .d71) t = sumSectors (sectorPerTrack .d64) t := by
  induction t with
  | zero => rfl
  | succ t ih => rw [sumSectors, sumSectors, ih (by omega), sectorPerTrack_d71_first h]

theorem checkSector_dxx {image : Shape} (h : IsDxx image.type) {t s : Nat} (ht : 1 ≤ t)
    (htmax : t ≤ dxxMaxTracks image.type) (hs : s < sectorPerTrack image.type t) :
    checkSector image t s = .ok (sumSectors (sectorPerTrack image.type) (t - 1) + s) := by
  obtain ⟨type, tracks, sectors⟩ := image
  unfold checkSector checkZoned
  simp only at *
  rw [if_neg (by omega)]
  rcases h with rfl | rfl | rfl
  · simp only [dxxMaxTracks] at htmax
    simp only [if_neg (show ¬ t > 42 by omega), if_neg (show ¬ s ≥ sectorPerTrack .d64 t by omega),
      Nat.zero_add]
  · simp only [dxxMaxTracks] at htmax
    simp only [if_neg (show ¬ t > 35 by omega), if_neg (show ¬ s ≥ sectorPerTrack .d67 t by omega),
      Nat.zero_add]
  · simp only [dxxMaxTracks] at htmax
    simp only [if_neg (show ¬ t > 70 by omega)]
    by_cases hside : t > 35
    · rw [sectorPerTrack_d71 hside] at hs
      rw [if_pos hside, if_neg (by omega), sumSectors_second_side (by omega) (by omega),
        show t - 35 - 1 = t - 1 - 35 by omega]
    · rw [sectorPerTrack_d71_first (by omega)] at hs
      rw [if_neg hside, if_neg (by omega), sumSectors_d71_first (by omega), Nat.zero_add]

end Vice.L2.Geometry
