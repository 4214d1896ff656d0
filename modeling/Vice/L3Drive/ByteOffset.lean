import Vice.L3Drive.CmdPartitions

/-!
# Byte offsets of sectors (`fsimage-check.c`, `fsimage-dxx.c`)

The number of a block is counted in an `unsigned int`, returned as an `int`, multiplied by 256 as an
`int`, and only then is it a `long`. A hard disk image may be 4 GB long, and a product that is not
an `int` any more has no value.

Results:
* `fsimageCheckSector_dhd`: the block number of a hard disk's sector.
* `dxxByteOffset_iff`: which of the addresses that a partition table can reach have their byte
  offset: those of the first 2 GB.
-/
namespace Vice.L3.ByteOffset
open Vice.L2.Geometry Vice.L3.Disk Vice.L3.Drive Vice.L3.PartitionSwitch Vice.L3.CmdPartitions

/-- An `unsigned int` as an `int`. -/
def toInt (n : Nat) : Int := if n % 2 ^ 32 < 2 ^ 31 then (n % 2 ^ 32 : Nat) else (n % 2 ^ 32 : Nat) - 2 ^ 32

/-- The product of two `int`s, if it is one. -/
def intMul (a b : Int) : Option Int := if -2 ^ 31 ≤ a * b ∧ a * b < 2 ^ 31 then some (a * b) else none

/-- mirrors src/diskimage/fsimage-check.h:34-38 -/
def sectorErrCode : SectorErr → Int
  | .badTrknum => -2
  | .badSecnum => -3

/-- mirrors src/diskimage/fsimage-check.c:50-214 (`fsimage_check_sector`), as its callers see it. -/
def fsimageCheckSector (image : Shape) (track sector : Nat) : Int :=
  match checkSector image track sector with
  | .error e => sectorErrCode e
  | .ok sectors => toInt sectors

/-- Why there is no byte offset. -/
inductive OffsetErr
  | outOfBounds
  | overflow
  deriving DecidableEq, Repr

/-- mirrors src/diskimage/fsimage-dxx.c:344-354 and 439-447: `offset` of a sector, the same for
reading and writing. -/
def dxxByteOffset (image : Shape) (track sector : Nat) : Except OffsetErr Int :=
  let sectors := fsimageCheckSector image track sector
  if sectors < 0 then .error .outOfBounds
  else
    match intMul sectors 256 with
    | none => .error .overflow
    | some offset => .ok offset

/-- A sector of the partition that `d` changes to lies at this address. -/
def Reaches (d : Drive) (track sector : Nat) : Prop :=
  ∃ p v t s, Selects d p v ∧ vdriveLogToPhy v t s = some (track, sector)

section
variable {d : Drive} {image : Shape} {track sector : Nat}

theorem fsimageCheckSector_dhd (h : image.type = .dhd) (ht1 : 1 ≤ track) (ht : track ≤ 0xffff)
    (hs : sector ≤ 0xffff) :
    fsimageCheckSector image track sector = toInt ((track - 1) * 65536 + sector) := by
  unfold fsimageCheckSector checkSector
  simp only [h, ne_eq, reduceCtorEq, not_false_eq_true, true_and, if_neg (Nat.not_lt.mpr ht1),
    if_neg (Nat.not_lt.mpr ht), if_neg (Nat.not_lt.mpr hs)]

/-- What is reached has a track and sector that a hard disk image can have. -/
theorem Reaches.bounds (hhd : d.vdrive.image.shape.type = .dhd) (hpt : d.vdrive.haspt = true)
    (hw : Words d.vdrive.parts) (h : Reaches d track sector) :
    1 ≤ track ∧ track ≤ 513 ∧ sector ≤ 0xffff := by
  obtain ⟨p, v, t, s, hv, ha⟩ := h
  have ho := hv.opened hpt (Or.inl hhd) hw
  have hts := ho.logToPhy_has ha
  rw [(ho.logToPhy t s).1 hts, Option.some.injEq] at ha
  have hoffset := ho.offset
  have hisHd : v.isHd = true := by
    unfold Vdrive.isHd
    rw [hv.spec.2.1]
    exact decide_eq_true hhd
  unfold cmdAddress at ha
  rw [if_pos hisHd] at ha
  simp only at ha
  split at ha <;> cases ha <;> omega

/-- mirrors src/diskimage/fsimage-check.c:184-194, src/diskimage/fsimage-dxx.c:336-354 and 431-447:
below 2 GB a sector's byte offset is what it should be, and from there on it has none. -/
theorem dxxByteOffset_iff (hhd : d.vdrive.image.shape.type = .dhd) (hpt : d.vdrive.haspt = true)
    (hw : Words d.vdrive.parts) (h : Reaches d track sector) :
    dxxByteOffset d.vdrive.image.shape track sector =
      .ok (((track - 1) * 65536 + sector) * 256 : Nat) ↔ track ≤ 128 := by
  obtain ⟨h1, h513, hs⟩ := h.bounds hhd hpt hw
  have hn : (track - 1) * 65536 + sector < 2 ^ 26 := by omega
  have hcheck := fsimageCheckSector_dhd hhd h1 (by omega) hs
  have hint : toInt ((track - 1) * 65536 + sector) = ((track - 1) * 65536 + sector : Nat) := by
    unfold toInt
    rw [Nat.mod_eq_of_lt (by omega), if_pos (by omega)]
  unfold dxxByteOffset intMul
  simp only [hcheck, hint]
  generalize hk : (track - 1) * 65536 + sector = n at *
  rw [if_neg (by omega)]
  by_cases hsmall : track ≤ 128
  · rw [if_pos (by omega)]
    simp only [Nat.cast_mul, Nat.cast_ofNat, hsmall]
  · rw [if_neg (by omega)]
    simp only [reduceCtorEq, hsmall]

end

/-- A hard disk with one partition of 1541 format at `poffset`. -/
def smallPartition (poffset : Nat) : Drive :=
  { nativeDrive 342 with
    vdrive := { (nativeDrive 342).vdrive with
      parts := ⟨fun p => if p = 1 then 2 else 0, fun _ => poffset, fun _ => 342⟩ } }

theorem smallPartition_words {poffset : Nat} (h : poffset < 2 ^ 24) :
    Words (smallPartition poffset).vdrive.parts := fun _ _ => ⟨h, show 342 < 2 ^ 24 by decide⟩

theorem dxxByteOffset_iff_small : dxxByteOffset (smallPartition 128).vdrive.image.shape 1 256 =
      .ok (((1 - 1) * 65536 + 256) * 256 : Nat) ↔ 1 ≤ 128 :=
  dxxByteOffset_iff (d := smallPartition 128) rfl rfl (smallPartition_words (by decide))
    ⟨1, _, 1, 0, ⟨_, rfl, rfl⟩, by decide +kernel⟩

/-- The first sector of a partition that starts at 2 GB. -/
theorem dxxByteOffset_not_always :
    ¬ ∀ (d : Drive) (track sector : Nat), d.vdrive.image.shape.type = .dhd → d.vdrive.haspt = true →
      Words d.vdrive.parts → Reaches d track sector →
      dxxByteOffset d.vdrive.image.shape track sector =
        .ok (((track - 1) * 65536 + sector) * 256 : Nat) := by
  intro hall
  have h := hall (smallPartition 0x400000) 129 0 rfl rfl (smallPartition_words (by decide))
    ⟨1, _, 1, 0, ⟨_, rfl, rfl⟩, by decide +kernel⟩
  revert h
  decide +kernel

end Vice.L3.ByteOffset
