import Vice.L2Image.GcrImage

/-!
# Sectors of an image, and what they are read from and written to (`fsimage.c`, `fsimage-probe.c`)

The probe tells the type of an image, the number of its tracks and whether an error map stands behind its blocks. A
sector is checked against the largest image of the type, not against this one, and its number is then used for the
map and for the file; the tracks of a GCR image are checked against this image, but from above only.

Results:
* `probe_facts`: what the probe has made sure of.
* `checkSector_inj`: no two sectors are at one place.
* `access_confined_iff`: an access keeps to the image exactly if its track is one of the image.
-/
namespace Vice.L2.SectorConfined
open Vice.L1.Gcr Vice.L2.Dxx Vice.L2.ErrorMap Vice.L2.GcrImage Vice.L2.Geometry

/-! ## The probe -/

/-- An image of a type with so many tracks, no GCR tracks being loaded. -/
def recognised (type : ImageType) (tracks maxHalfTracks : Nat) (file : Bytes) (errorInfo : Option ErrorInfo) : DiskImage where
  type := type
  tracks := tracks
  sectors := 0
  maxHalfTracks := maxHalfTracks
  file := file
  errorInfo := errorInfo
  gcr := fun _ => ⟨[]⟩

/-- The map of so many blocks behind them. -/
def readMap (file : Bytes) (blocks : Nat) : Option ErrorInfo :=
  (fpread file blocks (256 * blocks)).map fun map => ⟨map, blocks, false⟩

/-- An image whose map is read if it has one. -/
def withMap (type : ImageType) (tracks maxHalfTracks : Nat) (file : Bytes) (hasMap : Bool) (blocks : Nat) : Option DiskImage :=
  if hasMap then (readMap file blocks).map fun info => recognised type tracks maxHalfTracks file (some info)
  else some (recognised type tracks maxHalfTracks file none)

/-- mirrors src/diskimage/fsimage-probe.c:104-125: so many tracks more, and whether there is a map. -/
def d64Size (length : Nat) : Nat → Nat → Nat → Option (Nat × Nat × Bool)
  | 0, _, _ => none
  | n + 1, tracks, blocks =>
    if length = blocks * 256 then some (tracks, blocks, false)
    else if length = blocks * 256 + blocks then some (tracks, blocks, true)
    else d64Size length n (tracks + 1) (blocks + 17)

/-- mirrors src/diskimage/fsimage-probe.c:83-150 (`disk_image_check_for_d64`) -/
def checkForD64 (file : Bytes) : Option DiskImage :=
  match d64Size file.length 8 35 683 with
  | none => none
  | some (tracks, blocks, hasMap) => withMap .d64 tracks 84 file hasMap blocks

/-- The blocks that a check reads, one more than its limit at most. -/
def blocksRead (file : Bytes) (limit : Nat) : Nat := min (file.length / 256) (limit + 1)

/-- mirrors src/diskimage/fsimage-probe.c:153-194 (`disk_image_check_for_d67`), and the checks that are like it: the
length, and the number of blocks that are there then. -/
def checkForBlocks (type : ImageType) (tracks maxHalfTracks : Nat) (lengths numbers : List Nat) (limit : Nat) (file : Bytes) :
    Option DiskImage :=
  if lengths.contains file.length then
    if numbers.contains (blocksRead file limit) then some (recognised type tracks maxHalfTracks file none) else none
  else none

def checkForD67 : Bytes → Option DiskImage := checkForBlocks .d67 35 70 [176640] [690] 690

/-- mirrors src/diskimage/fsimage-probe.c:196-240 (`disk_image_check_for_d71`) -/
def checkForD71 (file : Bytes) : Option DiskImage :=
  if file.length = 349696 ∨ file.length = 349696 + 1366 then
    if min (file.length / 256) 1366 < 1366 then none
    else withMap .d71 70 140 file (file.length == 349696 + 1366) (min (file.length / 256) 1366)
  else none

/-- mirrors src/diskimage/fsimage-probe.c:262-267: the extension is that of another image of this size. -/
def looksLikeD1m (ext : Option (List UInt8)) : Bool :=
  match ext with
  | some (c :: d :: e :: _) => c != 0 && d == 0x31 && e != 0
  | _ => false

def looksLikeD81 (ext : Option (List UInt8)) : Bool :=
  match ext with
  | some (c :: d :: e :: _) => c != 0 && d == 0x38 && e == 0x31
  | _ => false

/-- mirrors src/diskimage/fsimage-probe.c:283-304: the tracks, by the blocks with a map and without. -/
def d81Tracks (blk : Nat) : Option (Nat × Bool) :=
  if blk = 3200 then some (80, false)
  else if blk = 3200 + 12 then some (80, true)
  else if blk = 3200 + 40 then some (81, false)
  else if blk = 3200 + 40 + 12 then some (81, true)
  else if blk = 3200 + 80 then some (82, false)
  else if blk = 3200 + 80 + 12 then some (82, true)
  else if blk = 3200 + 120 then some (83, false)
  else if blk = 3200 + 120 + 12 then some (83, true)
  else none

/-- mirrors src/diskimage/fsimage-probe.c:51-53 -/
def d81Lengths : List Nat := [819200, 822400, 829440, 832680, 839680, 842960, 849920, 853240]

/-- mirrors src/diskimage/fsimage-probe.c:242-333 (`disk_image_check_for_d81`) -/
def checkForD81 (ext : Option (List UInt8)) (file : Bytes) : Option DiskImage :=
  if d81Lengths.contains file.length then
    if looksLikeD1m ext then none
    else
      match d81Tracks (blocksRead file (3320 + 13)) with
      | none => none
      | some (tracks, hasMap) => withMap .d81 tracks 166 file hasMap (tracks * 40)
  else none

def checkForD80 : Bytes → Option DiskImage := checkForBlocks .d80 77 154 [533248] [2083] (2083 + 6)

def checkForD82 : Bytes → Option DiskImage := checkForBlocks .d82 154 308 [1066496] [4166] (4166 + 6)

/-- mirrors src/diskimage/fsimage-probe.c:510-541 (`disk_image_check_for_p64`), `p64Reads` being whether its pulses are. -/
def isP64 (p64Reads : Bool) (file : Bytes) : Bool :=
  match fpread file 8 0 with
  | none => false
  | some header => header == [0x50, 0x36, 0x34, 0x2d, 0x31, 0x35, 0x34, 0x31] && p64Reads

/-- mirrors src/diskimage/fsimage-probe.c:445-508 (`disk_image_check_for_gcr`) -/
def checkForGcr (file : Bytes) : Option DiskImage :=
  match fpread file 32 0 with
  | none => none
  | some header =>
    if header.getD 8 0 ≠ 0 then none
    else if numHalfTracks header < 1 then none
    else if header.take 8 = signature1541.take 8 then
      some (recognised .g64 (numHalfTracks header / 2) (numHalfTracks header) file none)
    else if header.take 8 = signature1571.take 8 then
      some (recognised .g71 (numHalfTracks header / 2) (numHalfTracks header) file none)
    else none

/-- mirrors src/diskimage/fsimage-probe.c:543-592 (`disk_image_check_for_d1m`) -/
def checkForD1m (ext : Option (List UInt8)) (file : Bytes) : Option DiskImage :=
  if looksLikeD81 ext then none
  else checkForBlocks .d1m 13 26 [829440, 832680] [3240, 3240 + 12] (3240 + 13) file

def checkForD2m : Bytes → Option DiskImage := checkForBlocks .d2m 26 52 [1658880, 1665360] [6480, 6480 + 25] (6480 + 26)

def checkForD4m : Bytes → Option DiskImage := checkForBlocks .d4m 51 102 [3317760, 3330720] [12960, 12960 + 50] (12960 + 51)

/-- mirrors src/diskimage/fsimage-probe.c:781-812 (`disk_image_check_for_d90`) -/
def checkForD90 (file : Bytes) : Option DiskImage :=
  if file.length = 153 * 4 * 32 * 256 then some { recognised .d90 152 0 file none with sectors := 4 * 32 }
  else if file.length = 153 * 6 * 32 * 256 then some { recognised .d90 152 0 file none with sectors := 6 * 32 }
  else none

/-- mirrors src/diskimage/fsimage-probe.c:814-865 (`fsimage_probe`), with the extension of the name of the file. Images
of pulses and of hard disks, for which the type is not one of those here, are `none`. -/
def fsimageProbe (p64Reads : Bool) (ext : Option (List UInt8)) (file : Bytes) : Option DiskImage :=
  (checkForD64 file).orElse fun _ =>
  (checkForD67 file).orElse fun _ =>
  (checkForD71 file).orElse fun _ =>
  (checkForD81 ext file).orElse fun _ =>
  (checkForD80 file).orElse fun _ =>
  (checkForD82 file).orElse fun _ =>
  if isP64 p64Reads file then none
  else
    (checkForGcr file).orElse fun _ =>
    (checkForD1m ext file).orElse fun _ =>
    (checkForD2m file).orElse fun _ =>
    (checkForD4m file).orElse fun _ => checkForD90 file

/-! ## Sectors -/

/-- What an access uses: a track by its index, a byte of the map, 256 bytes of the file. -/
inductive Use
  | track (index : Nat)
  | map (index : Nat)
  | block (offset : Nat)
  deriving DecidableEq, Repr

/-- What an access uses, and what it returns and leaves of the image and the buffer; a search on a track need not end. -/
structure Access where
  uses : List Use
  outcome : Option (Int × DiskImage × Bytes)

/-- mirrors src/diskimage/fsimage-dxx.c:399-428 -/
def ipeOf (rf : UInt8) : Int :=
  match rf.toNat with
  | 1 => 0
  | 2 => 20
  | 3 => 21
  | 4 => 22
  | 5 => 23
  | 7 => 25
  | 8 => 26
  | 9 => 27
  | 10 => 28
  | 11 => 29
  | 15 => 74
  | 16 => 24
  | _ => 0

/-- `(track * 2) - 2`, without sign. -/
def trackIndex (track : Nat) : Nat := (track * 2 + (2 ^ 32 - 2)) % 2 ^ 32

/-- The byte of the map, if there is one. -/
def mapAt (image : DiskImage) (sectors : Nat) : Option UInt8 := image.errorInfo.map fun info => info.map.getD sectors 0

def mapUses (image : DiskImage) (sectors : Nat) : List Use :=
  match image.errorInfo with
  | none => []
  | some _ => [.map sectors]

/-- mirrors src/diskimage/fsimage-dxx.c:362-370 -/
def hardError (rf : Option UInt8) : Bool :=
  match rf with
  | none => false
  | some rf => !(rf == 0 || rf == 1 || rf == 5 || rf == 7 || rf == 8)

/-- mirrors src/diskimage/fsimage-dxx.c:336-429 (`fsimage_dxx_read_sector`) -/
def dxxReadSector (hasGcr : Bool) (image : DiskImage) (buf : Bytes) (track sector : Nat) : Access :=
  match checkSector image.toShape track sector with
  | .error _ => ⟨[], some (-1, image, buf)⟩
  | .ok sectors =>
    if hardError (mapAt image sectors) then
      ⟨mapUses image sectors, some (ipeOf ((mapAt image sectors).getD 0), image, buf)⟩
    else if hasGcr then
      ⟨mapUses image sectors ++ [.track (trackIndex track)],
        (gcrReadSector (image.gcr (trackIndex track)) buf (UInt8.ofNat sector)).map fun (rf, buf) =>
          (ipeOf (if rf = .ok then (mapAt image sectors).getD (Dxx.FdcErr.code .ok) else Dxx.FdcErr.code rf), image, buf)⟩
    else
      match fpread image.file 256 (sectors * 256) with
      | none => ⟨mapUses image sectors, some (-1, image, buf)⟩
      | some data =>
        ⟨mapUses image sectors ++ [.block (sectors * 256)],
          some (ipeOf ((mapAt image sectors).getD (Dxx.FdcErr.code .ok)), image, data)⟩

/-- mirrors src/diskimage/fsimage-dxx.c:431-485 (`fsimage_dxx_write_sector`): what it uses, beside
`fsimageDxxWriteSector`. -/
def dxxWriteSector (hasGcr : Bool) (image : DiskImage) (buf : Block) (track sector : Nat) : Access where
  uses :=
    match checkSector image.toShape track sector with
    | .error _ => []
    | .ok sectors =>
      [.block (sectors * 256)] ++ (if hasGcr then [.track (trackIndex track)] else []) ++ mapUses image sectors
  outcome := (fsimageDxxWriteSector hasGcr image buf track sector true).map fun (code, image) => (code, image, buf.val)

/-- mirrors src/diskimage/fsimage-gcr.c:288-352 (`fsimage_gcr_read_sector`) -/
def gcrImageReadSector (hasGcr : Bool) (image : DiskImage) (buf : Bytes) (track sector : Nat) : Access :=
  let ipe (rf : FdcErr) : Int := if rf = .ok then 0 else if ipeOf (Dxx.FdcErr.code rf) = 0 then 74 else ipeOf (Dxx.FdcErr.code rf)
  if image.tracks < track then ⟨[], some (-1, image, buf)⟩
  else if hasGcr then
    ⟨[.track (trackIndex track)],
      (gcrReadSector (image.gcr (trackIndex track)) buf (UInt8.ofNat sector)).map fun (rf, buf) => (ipe rf, image, buf)⟩
  else
    match readHalfTrack image.type image.file (track * 2) with
    | none => ⟨[], some (-1, image, buf)⟩
    | some data =>
      ⟨[.track (trackIndex track)], (gcrReadSector ⟨data⟩ buf (UInt8.ofNat sector)).map fun (rf, buf) => (ipe rf, image, buf)⟩

/-- mirrors src/diskimage/fsimage-gcr.c:357-393: the track with the sector in it goes back to the file. -/
def storeTrack (readOnly : Bool) (image : DiskImage) (track : Nat) (written : Option (FdcErr × DiskTrack))
    (gcr : DiskTrack → Nat → DiskTrack) (buf : Bytes) : Option (Int × DiskImage × Bytes) :=
  written.map fun (rf, raw) =>
    if rf ≠ .ok then (-1, { image with gcr := gcr raw }, buf)
    else
      let (code, file) := writeHalfTrack image.type readOnly image.file (track * 2) (some raw.data)
      (if code < 0 then -1 else 0, { image with file, gcr := gcr raw }, buf)

/-- mirrors src/diskimage/fsimage-gcr.c:357-393 (`fsimage_gcr_write_sector`) -/
def gcrImageWriteSector (hasGcr readOnly : Bool) (image : DiskImage) (buf : Block) (track sector : Nat) : Access :=
  if image.tracks < track then ⟨[], some (-1, image, buf.val)⟩
  else if hasGcr then
    ⟨[.track (trackIndex track)],
      storeTrack readOnly image track (gcrWriteSector (image.gcr (trackIndex track)) buf.val (UInt8.ofNat sector))
        (fun raw => Function.update image.gcr (trackIndex track) raw) buf.val⟩
  else
    match readHalfTrack image.type image.file (track * 2) with
    | none => ⟨[], some (-1, image, buf.val)⟩
    | some data =>
      ⟨[.track (trackIndex track)],
        storeTrack readOnly image track (gcrWriteSector ⟨data⟩ buf.val (UInt8.ofNat sector)) (fun _ => image.gcr) buf.val⟩

/-- A read into a buffer, or a write. -/
inductive Request
  | read (buf : Bytes)
  | write (buf : Block)

def Request.buffer : Request → Bytes
  | .read buf => buf
  | .write buf => buf.val

/-- The types of GCR images. -/
def IsGcr (type : ImageType) : Prop := type = .g64 ∨ type = .g71

instance (type : ImageType) : Decidable (IsGcr type) := inferInstanceAs (Decidable (_ ∨ _))

/-- mirrors src/diskimage/fsimage.c:201-288 (`fsimage_read_sector`, `fsimage_write_sector`) -/
def access (hasGcr readOnly : Bool) (image : DiskImage) (track sector : Nat) : Request → Access
  | .read buf =>
    if IsGcr image.type then gcrImageReadSector hasGcr image buf track sector else dxxReadSector hasGcr image buf track sector
  | .write buf =>
    if IsGcr image.type then gcrImageWriteSector hasGcr readOnly image buf track sector
    else dxxWriteSector hasGcr image buf track sector

/-! ## What an access should do -/

/-- The blocks of the tracks of an image. -/
def dataBlocks (image : Shape) : Nat :=
  match image.type with
  | .d81 => image.tracks * 40
  | .d1m => (image.tracks - 1) * 256 + 168
  | .d2m => (image.tracks - 1) * 256 + 80
  | .d4m => (image.tracks - 1) * 256 + 160
  | .d90 => (image.tracks + 1) * image.sectors
  | type => sumSectors (sectorPerTrack type) image.tracks

/-- A track of the array, a byte of the map, a block of the tracks of the image. -/
def Inside (image : DiskImage) : Use → Prop
  | .track index => index < MAX_GCR_TRACKS
  | .map index => ∃ info ∈ image.errorInfo, index < info.len
  | .block offset => offset + 256 ≤ dataBlocks image.toShape * 256

/-- An access that uses nothing, and then is an error that changes nothing, or nothing but what belongs to the image,
and no block of another sector. -/
structure Confined (hasGcr readOnly : Bool) (image : DiskImage) (t s : Nat) (r : Request) : Prop where
  refused : (access hasGcr readOnly image t s r).uses = [] →
    ∃ code < 0, (access hasGcr readOnly image t s r).outcome = some (code, image, r.buffer)
  inside : ∀ u ∈ (access hasGcr readOnly image t s r).uses, Inside image u
  apart : ∀ t' s' r', (t', s') ≠ (t, s) → ∀ o o', .block o ∈ (access hasGcr readOnly image t s r).uses →
    .block o' ∈ (access hasGcr readOnly image t' s' r').uses → o + 256 ≤ o' ∨ o' + 256 ≤ o

def Request.isRead : Request → Bool
  | .read _ => true
  | .write _ => false

/-- The sector is refused, or its track is one of the image; a GCR track besides one of the array, but for track 0 of
an image whose tracks are not loaded, which is not found as long as the file is shorter than its signature is as a
number. Without a map, a sector behind the image is read in vain. -/
def Meets (hasGcr : Bool) (image : DiskImage) (t s : Nat) (r : Request) : Prop :=
  if IsGcr image.type then
    image.tracks < t ∨ if hasGcr then 1 ≤ t ∧ t ≤ 84 else 1 ≤ t ∨ readHalfTrack image.type image.file 0 = none
  else
    (∃ e, checkSector image.toShape t s = .error e) ∨
      (hasGcr = true → 1 ≤ t ∧ t ≤ 84) ∧ (t ≤ image.tracks ∨ r.isRead = true ∧ image.errorInfo = none)

/-! ## What the probe makes sure of -/

/-- The tracks of the types that have one size only. -/
def fullTracks : ImageType → Nat
  | .d67 => 35
  | .d71 => 70
  | .d80 => 77
  | .d82 => 154
  | .d1m => 13
  | .d2m => 26
  | .d4m => 51
  | .d90 => 152
  | _ => 0

structure Facts (image : DiskImage) : Prop where
  type : image.type ≠ .p64 ∧ image.type ≠ .dhd
  tracks : ¬ IsGcr image.type → image.type ≠ .d64 → image.type ≠ .d81 → image.tracks = fullTracks image.type
  heads : image.type = .d90 → image.sectors = 128 ∨ image.sectors = 192
  map : ∀ info ∈ image.errorInfo,
    (image.type = .d64 ∨ image.type = .d71 ∨ image.type = .d81) ∧ info.len = dataBlocks image.toShape
  whole : image.errorInfo = none → image.type = .d64 ∨ image.type = .d81 → image.file.length = dataBlocks image.toShape * 256
  halfTracks : IsGcr image.type → image.tracks = (image.file.getD 9 0).toNat / 2

section
variable {hasGcr readOnly p64Reads : Bool} {ext : Option (List UInt8)} {file : Bytes} {image : DiskImage} {type : ImageType}
  {t s b t' s' n m k : Nat} {r : Request}

theorem checkForBlocks_eq {lengths numbers : List Nat} (h : checkForBlocks type t m lengths numbers n file = some image) :
    image = recognised type t m file none := by
  unfold checkForBlocks at h
  split at h
  · split at h
    · exact (Option.some.inj h).symm
    · cases h
  · cases h

/-- Types of one size, without a map. -/
theorem facts_blocks (htype : type = .d67 ∨ type = .d80 ∨ type = .d82 ∨ type = .d1m ∨ type = .d2m ∨ type = .d4m)
    (ht : t = fullTracks type) : Facts (recognised type t m file none) := by
  have hnot : ¬ IsGcr type ∧ type ≠ .d64 ∧ type ≠ .d81 ∧ type ≠ .p64 ∧ type ≠ .dhd ∧ type ≠ .d90 := by
    rcases htype with rfl | rfl | rfl | rfl | rfl | rfl <;> decide
  obtain ⟨hgcr, hd64, hd81, hp64, hdhd, hd90⟩ := hnot
  exact {
    type := ⟨hp64, hdhd⟩
    tracks := fun _ _ _ => ht
    heads := fun h => absurd h hd90
    map := fun info h => by cases h
    whole := fun _ h => (h.elim hd64 hd81).elim
    halfTracks := fun h => absurd h hgcr
  }

/-- An image with a map or without, of the length it says. -/
theorem facts_withMap {hasMap : Bool} (h : withMap type t m file hasMap b = some image)
    (htype : type = .d64 ∨ type = .d71 ∧ t = 70 ∨ type = .d81) (hblocks : b = dataBlocks ⟨type, t, 0⟩)
    (hlength : hasMap = false → type ≠ .d71 → file.length = b * 256) : Facts image := by
  have hnot : ¬ IsGcr type ∧ type ≠ .p64 ∧ type ≠ .dhd ∧ type ≠ .d90 := by
    rcases htype with rfl | ⟨rfl, _⟩ | rfl <;> decide
  obtain ⟨hgcr, hp64, hdhd, hd90⟩ := hnot
  have htracks : type ≠ .d64 → type ≠ .d81 → t = fullTracks type := by
    rintro hd64 hd81
    rcases htype with rfl | ⟨rfl, rfl⟩ | rfl
    · exact absurd rfl hd64
    · rfl
    · exact absurd rfl hd81
  unfold withMap at h
  cases hasMap with
  | true =>
    rw [if_pos rfl] at h
    obtain ⟨info, hinfo, rfl⟩ := Option.map_eq_some_iff.mp h
    obtain ⟨map, _, rfl⟩ := Option.map_eq_some_iff.mp hinfo
    exact {
      type := ⟨hp64, hdhd⟩
      tracks := fun _ => htracks
      heads := fun h => absurd h hd90
      map := by
        intro info h
        obtain rfl := Option.some.inj h
        exact ⟨by rcases htype with h | ⟨h, _⟩ | h <;> simp [recognised, h], hblocks⟩
      whole := fun h => by cases h
      halfTracks := fun h => absurd h hgcr
    }
  | false =>
    rw [if_neg Bool.false_ne_true] at h
    obtain rfl := Option.some.inj h
    exact {
      type := ⟨hp64, hdhd⟩
      tracks := fun _ => htracks
      heads := fun h => absurd h hd90
      map := fun info h => by cases h
      whole := by
        intro _ h
        refine (hlength rfl ?_).trans (congrArg (· * 256) hblocks)
        rintro rfl
        rcases h with h | h <;> cases h
      halfTracks := fun h => absurd h hgcr
    }

/-- The size that is found is that of the tracks. -/
theorem d64Size_eq {hasMap : Bool} (h : d64Size n k t b = some (t', m, hasMap)) :
    t ≤ t' ∧ t' < t + k ∧ m = b + 17 * (t' - t) ∧ (hasMap = false → n = m * 256) := by
  induction k generalizing t b with
  | zero => cases h
  | succ k ih =>
    rw [d64Size] at h
    split at h
    · cases h
      exact ⟨Nat.le_refl _, by omega, by omega, fun _ => by assumption⟩
    · split at h
      · cases h
        exact ⟨Nat.le_refl _, by omega, by omega, fun hnot => by cases hnot⟩
      · obtain ⟨hlow, hhigh, hblocks, hlength⟩ := ih h
        exact ⟨by omega, by omega, by omega, hlength⟩

theorem dataBlocks_d64 (hlow : 35 ≤ t) (hhigh : t < 43) : 683 + 17 * (t - 35) = dataBlocks ⟨.d64, t, 0⟩ := by
  have hall : ∀ t < 43, 35 ≤ t → 683 + 17 * (t - 35) = sumSectors (sectorPerTrack .d64) t := by decide +kernel
  exact hall t hhigh hlow

theorem facts_d64 (h : checkForD64 file = some image) : Facts image := by
  unfold checkForD64 at h
  split at h
  · cases h
  · rename_i tracks blocks hasMap hsize
    obtain ⟨hlow, hhigh, hblocks, hlength⟩ := d64Size_eq hsize
    exact facts_withMap h (.inl rfl) (hblocks.trans (dataBlocks_d64 hlow hhigh)) fun hnone _ => hlength hnone

theorem facts_d71 (h : checkForD71 file = some image) : Facts image := by
  unfold checkForD71 at h
  split at h
  · split at h
    · cases h
    · have hall : min (file.length / 256) 1366 = 1366 := by omega
      have hblocks : dataBlocks ⟨.d71, 70, 0⟩ = 1366 := by decide +kernel
      exact facts_withMap h (.inr (.inl ⟨rfl, rfl⟩)) (hall.trans hblocks.symm) fun _ hne => absurd rfl hne
  · cases h

theorem facts_d81 (h : checkForD81 ext file = some image) : Facts image := by
  unfold checkForD81 at h
  split at h
  · rename_i hlengths
    split at h
    · cases h
    · split at h
      · cases h
      · rename_i tracks hasMap htracks
        refine facts_withMap h (.inr (.inr rfl)) rfl fun hnone _ => ?_
        subst hnone
        simp only [d81Lengths, List.contains_eq_mem, List.mem_cons, List.not_mem_nil, or_false, decide_eq_true_eq] at hlengths
        unfold blocksRead at htracks
        rcases hlengths with h | h | h | h | h | h | h | h <;> rw [h] at htracks ⊢ <;> simp [d81Tracks] at htracks <;> omega
  · cases h

theorem facts_gcr (h : checkForGcr file = some image) : Facts image := by
  unfold checkForGcr at h
  split at h
  · cases h
  · rename_i header hheader
    have hnum : numHalfTracks header = (file.getD 9 0).toNat := by
      obtain ⟨hlength, hat⟩ := heldAt_of_fpread hheader
      have hbyte := hat 9 (by omega)
      rw [Nat.zero_add] at hbyte
      unfold numHalfTracks
      rw [List.getD_eq_getElem?_getD, List.getD_eq_getElem?_getD, hbyte]
    have hfacts : ∀ type, IsGcr type → Facts (recognised type (numHalfTracks header / 2) (numHalfTracks header) file none) := by
      intro type hgcr
      have hnot : type ≠ .p64 ∧ type ≠ .dhd ∧ type ≠ .d90 ∧ type ≠ .d64 ∧ type ≠ .d81 := by
        rcases hgcr with rfl | rfl <;> decide
      exact {
        type := ⟨hnot.1, hnot.2.1⟩
        tracks := fun h => absurd hgcr h
        heads := fun h => absurd h hnot.2.2.1
        map := fun info h => by cases h
        whole := fun _ h => (h.elim hnot.2.2.2.1 hnot.2.2.2.2).elim
        halfTracks := fun _ => congrArg (· / 2) hnum
      }
    split at h
    · cases h
    · split at h
      · cases h
      · split at h
        · obtain rfl := Option.some.inj h
          exact hfacts _ (.inl rfl)
        · split at h
          · obtain rfl := Option.some.inj h
            exact hfacts _ (.inr rfl)
          · cases h

theorem facts_d90 (h : checkForD90 file = some image) : Facts image := by
  have hfacts : ∀ sectors, sectors = 128 ∨ sectors = 192 → Facts { recognised .d90 152 0 file none with sectors := sectors } := by
    intro sectors hsectors
    exact {
      type := ⟨(fun h => by cases h), (fun h => by cases h)⟩
      tracks := fun _ _ _ => rfl
      heads := fun _ => hsectors
      map := fun info h => by cases h
      whole := fun _ h => by rcases h with h | h <;> cases h
      halfTracks := fun h => by rcases h with h | h <;> cases h
    }
  unfold checkForD90 at h
  split at h
  · obtain rfl := Option.some.inj h
    exact hfacts _ (.inl rfl)
  · split at h
    · obtain rfl := Option.some.inj h
      exact hfacts _ (.inr rfl)
    · cases h

theorem orElse_cases {α : Type} {x : Option α} {f : Unit → Option α} {y : α} (h : x.orElse f = some y) :
    x = some y ∨ f () = some y := by
  cases x with
  | none => exact .inr h
  | some z => exact .inl h

/-- Every image that the probe recognises. -/
theorem probe_facts (h : fsimageProbe p64Reads ext file = some image) : Facts image := by
  rcases orElse_cases h with h | h
  · exact facts_d64 h
  rcases orElse_cases h with h | h
  · exact checkForBlocks_eq h ▸ facts_blocks (.inl rfl) rfl
  rcases orElse_cases h with h | h
  · exact facts_d71 h
  rcases orElse_cases h with h | h
  · exact facts_d81 h
  rcases orElse_cases h with h | h
  · exact checkForBlocks_eq h ▸ facts_blocks (.inr (.inl rfl)) rfl
  rcases orElse_cases h with h | h
  · exact checkForBlocks_eq h ▸ facts_blocks (.inr (.inr (.inl rfl))) rfl
  split at h
  · cases h
  rcases orElse_cases h with h | h
  · exact facts_gcr h
  rcases orElse_cases h with h | h
  · unfold checkForD1m at h
    split at h
    · cases h
    · exact checkForBlocks_eq h ▸ facts_blocks (.inr (.inr (.inr (.inl rfl)))) rfl
  rcases orElse_cases h with h | h
  · exact checkForBlocks_eq h ▸ facts_blocks (.inr (.inr (.inr (.inr (.inl rfl))))) rfl
  rcases orElse_cases h with h | h
  · exact checkForBlocks_eq h ▸ facts_blocks (.inr (.inr (.inr (.inr (.inr rfl))))) rfl
  exact facts_d90 h

/-! ## Places -/

/-- The blocks before a track. -/
def before (image : Shape) (t : Nat) : Nat :=
  match image.type with
  | .d81 => (t - 1) * 40
  | .d1m | .d2m | .d4m => (t - 1) * 256
  | .d90 => t * (image.sectors / 32 * 32)
  | type => sumSectors (sectorPerTrack type) (t - 1)

theorem before_mono (image : Shape) (h : t ≤ t') : before image t ≤ before image t' := by
  unfold before
  split
  · omega
  · omega
  · omega
  · omega
  · exact Nat.mul_le_mul_right _ h
  · exact sumSectors_le (by omega)

/-- The types that are read by blocks. -/
structure Blocks (image : Shape) : Prop where
  type : ¬ IsGcr image.type ∧ image.type ≠ .p64 ∧ image.type ≠ .dhd
  heads : image.type = .d90 → image.sectors = 128 ∨ image.sectors = 192

theorem Blocks.cases {image : Shape} (h : Blocks image) : Zoned image.type ∨ image.type = .d81 ∨
    (image.type = .d1m ∨ image.type = .d2m ∨ image.type = .d4m) ∨ image.type = .d90 := by
  obtain ⟨hgcr, hp64, hdhd⟩ := h.type
  cases htype : image.type with
  | g64 => exact absurd (.inl htype) hgcr
  | g71 => exact absurd (.inr htype) hgcr
  | p64 => exact absurd htype hp64
  | dhd => exact absurd htype hdhd
  | d64 | d67 | d71 | d80 | d82 => exact .inl (by simp [Zoned, IsDxx])
  | d81 => exact .inr (.inl rfl)
  | d1m | d2m | d4m => exact .inr (.inr (.inl (by simp)))
  | d90 => exact .inr (.inr (.inr rfl))

theorem before_zoned {image : Shape} (h : Zoned image.type) (t : Nat) :
    before image t = sumSectors (sectorPerTrack image.type) (t - 1) := by
  obtain ⟨type, tracks, sectors⟩ := image
  rcases h with (h | h | h) | h | h <;> simp only at h <;> subst h <;> rfl

theorem before_d81 {image : Shape} (h : image.type = .d81) (t : Nat) : before image t = (t - 1) * 40 := by
  obtain ⟨type, tracks, sectors⟩ := image
  subst h
  rfl

theorem before_cmd {image : Shape} (h : image.type = .d1m ∨ image.type = .d2m ∨ image.type = .d4m) (t : Nat) :
    before image t = (t - 1) * 256 := by
  obtain ⟨type, tracks, sectors⟩ := image
  rcases h with h | h | h <;> simp only at h <;> subst h <;> rfl

theorem before_d90 {image : Shape} (h : image.type = .d90) (t : Nat) : before image t = t * (image.sectors / 32 * 32) := by
  obtain ⟨type, tracks, sectors⟩ := image
  subst h
  rfl

theorem dataBlocks_zoned {image : Shape} (h : Zoned image.type) :
    dataBlocks image = sumSectors (sectorPerTrack image.type) image.tracks := by
  obtain ⟨type, tracks, sectors⟩ := image
  rcases h with (h | h | h) | h | h <;> simp only at h <;> subst h <;> rfl

theorem checkSector_d81 {image : Shape} (htype : image.type = .d81) (h : checkSector image t s = .ok b) :
    1 ≤ t ∧ t ≤ 83 ∧ s < 40 ∧ b = (t - 1) * 40 + s := by
  have hpos := checkSector_pos (by rw [htype]; decide) h
  obtain ⟨type, tracks, sectors⟩ := image
  simp only at htype
  subst htype
  unfold checkSector at h
  rw [if_neg (by omega)] at h
  simp only at h
  split at h
  · cases h
  · split at h
    · cases h
    · cases h
      exact ⟨hpos, by omega, by omega, rfl⟩

theorem checkCmd_ok (h : checkCmd n m t s = .ok b) : t ≤ n ∧ s ≤ 255 ∧ (t = n → s < m) ∧ b = (t - 1) * 256 + s := by
  unfold checkCmd at h
  split at h
  · cases h
  · split at h
    · cases h
    · cases h
      exact ⟨by omega, by omega, by omega, rfl⟩

/-- The sectors of the last track of a CMD floppy. -/
def sysSectors : ImageType → Nat
  | .d1m => 168
  | .d2m => 80
  | _ => 160

theorem checkSector_cmd {image : Shape} (htype : image.type = .d1m ∨ image.type = .d2m ∨ image.type = .d4m)
    (h : checkSector image t s = .ok b) :
    1 ≤ t ∧ t ≤ fullTracks image.type ∧ s ≤ 255 ∧ (t = fullTracks image.type → s < sysSectors image.type) ∧ b = (t - 1) * 256 + s := by
  have hpos := checkSector_pos (by rcases htype with h | h | h <;> rw [h] <;> decide) h
  obtain ⟨type, tracks, sectors⟩ := image
  simp only at htype ⊢
  unfold checkSector at h
  rw [if_neg (by omega)] at h
  rcases htype with rfl | rfl | rfl
  · exact ⟨hpos, checkCmd_ok h⟩
  · exact ⟨hpos, checkCmd_ok h⟩
  · exact ⟨hpos, checkCmd_ok h⟩

theorem checkSector_d90 {image : Shape} (htype : image.type = .d90) (h : checkSector image t s = .ok b) :
    t ≤ image.tracks ∧ s < image.sectors ∧ b = t * (image.sectors / 32 * 32) + s := by
  obtain ⟨type, tracks, sectors⟩ := image
  simp only at htype ⊢
  subst htype
  unfold checkSector at h
  simp only at h
  rw [if_neg fun hnot => hnot.1 rfl] at h
  split at h
  · cases h
  · split at h
    · cases h
    · cases h
      exact ⟨by omega, by omega, rfl⟩

/-- A sector stands in its track, and the track before the next one. -/
theorem checkSector_before {image : Shape} (hb : Blocks image) (h : checkSector image t s = .ok b) :
    b = before image t + s ∧ before image t + s < before image (t + 1) := by
  rcases hb.cases with hz | hd81 | hcmd | hd90
  · obtain ⟨hpos, hs, rfl⟩ := checkSector_zoned hz h
    rw [before_zoned hz, before_zoned hz]
    exact ⟨rfl, sumSectors_lt hpos (Nat.lt_succ_self t) hs⟩
  · obtain ⟨hpos, _, hs, rfl⟩ := checkSector_d81 hd81 h
    rw [before_d81 hd81, before_d81 hd81]
    omega
  · obtain ⟨hpos, _, hs, _, rfl⟩ := checkSector_cmd hcmd h
    rw [before_cmd hcmd, before_cmd hcmd]
    omega
  · obtain ⟨_, hs, rfl⟩ := checkSector_d90 hd90 h
    rw [before_d90 hd90, before_d90 hd90]
    rcases hb.heads hd90 with hheads | hheads
    all_goals
      rw [hheads] at hs ⊢
      omega

/-- No two sectors are at one place. -/
theorem checkSector_inj {image : Shape} (hb : Blocks image) (h : checkSector image t s = .ok b)
    (h' : checkSector image t' s' = .ok b) : t = t' ∧ s = s' := by
  obtain ⟨hplace, hin⟩ := checkSector_before hb h
  obtain ⟨hplace', hin'⟩ := checkSector_before hb h'
  rcases Nat.lt_trichotomy t t' with hlt | heq | hgt
  · have hmono := before_mono image (show t + 1 ≤ t' from hlt)
    omega
  · subst heq
    omega
  · have hmono := before_mono image (show t' + 1 ≤ t from hgt)
    omega

/-- The tracks that a type has at most. -/
def maxTracks (image : Shape) : Nat :=
  match image.type with
  | .d64 => 42
  | .d81 => 83
  | .d90 => image.tracks
  | type => fullTracks type

theorem checkSector_max {image : Shape} (hb : Blocks image) (h : checkSector image t s = .ok b) : t ≤ maxTracks image := by
  by_contra hgt
  rcases hb.cases with hz | hd81 | hcmd | hd90
  · obtain ⟨hpos, _⟩ := checkSector_zoned hz h
    obtain ⟨type, tracks, sectors⟩ := image
    unfold checkSector at h
    rcases hz with (hz | hz | hz) | hz | hz
    all_goals
      simp only at hz
      subst hz
      have hmore := Nat.lt_of_not_le hgt
      unfold maxTracks at hmore
      simp only [fullTracks] at hmore
      rw [if_neg (by omega)] at h
      simp only at h
      rw [if_pos hmore] at h
      cases h
  · have hsmall := (checkSector_d81 hd81 h).2.1
    rw [maxTracks, hd81] at hgt
    exact hgt hsmall
  · have hsmall := (checkSector_cmd hcmd h).2.1
    rcases hcmd with hcmd | hcmd | hcmd
    all_goals
      rw [maxTracks, hcmd] at hgt
      rw [hcmd] at hsmall
      exact hgt hsmall
  · have hsmall := (checkSector_d90 hd90 h).1
    rw [maxTracks, hd90] at hgt
    exact hgt hsmall

theorem Facts.blocks (hf : Facts image) (hgcr : ¬ IsGcr image.type) : Blocks image.toShape :=
  ⟨⟨hgcr, hf.type⟩, hf.heads⟩

theorem Facts.tracks_eq (hf : Facts image) (hgcr : ¬ IsGcr image.type) (hd64 : image.type ≠ .d64) (hd81 : image.type ≠ .d81) :
    maxTracks image.toShape = image.tracks := by
  have hfull := hf.tracks hgcr hd64 hd81
  rw [hfull]
  unfold maxTracks
  split
  · rename_i h
    exact absurd h hd64
  · rename_i h
    exact absurd h hd81
  · rename_i h
    rw [hfull, h]
  · rfl

/-- A sector is behind the blocks of the image exactly if its track is. -/
theorem place_iff (hf : Facts image) (hgcr : ¬ IsGcr image.type) (h : checkSector image.toShape t s = .ok b) :
    b < dataBlocks image.toShape ↔ t ≤ image.tracks := by
  have hb := hf.blocks hgcr
  obtain ⟨hplace, hin⟩ := checkSector_before hb h
  have hsides : dataBlocks image.toShape = before image.toShape (image.tracks + 1) →
      (b < dataBlocks image.toShape ↔ t ≤ image.tracks) := by
    intro hend
    rw [hend]
    constructor
    · intro hlt
      by_contra hgt
      have hmono := before_mono image.toShape (show image.tracks + 1 ≤ t by omega)
      omega
    · intro hle
      have hmono := before_mono image.toShape (show t + 1 ≤ image.tracks + 1 by omega)
      omega
  rcases hb.cases with hz | hd81 | hcmd | hd90
  · exact hsides (by rw [dataBlocks_zoned hz, before_zoned hz, Nat.add_sub_cancel])
  · exact hsides (by rw [before_d81 hd81, dataBlocks, hd81, Nat.add_sub_cancel])
  · obtain ⟨hpos, hfull, hs, hlast, rfl⟩ := checkSector_cmd hcmd h
    have hnot : image.type ≠ .d64 ∧ image.type ≠ .d81 := by rcases hcmd with h | h | h <;> rw [h] <;> decide
    have htracks := hf.tracks hgcr hnot.1 hnot.2
    rw [← htracks] at hfull hlast
    have hend : dataBlocks image.toShape = (image.tracks - 1) * 256 + sysSectors image.type := by
      rcases hcmd with h | h | h <;> rw [dataBlocks, h] <;> rfl
    rw [hend]
    refine ⟨fun _ => hfull, fun _ => ?_⟩
    rcases Nat.lt_or_eq_of_le hfull with hlt | heq
    · omega
    · have hshort := hlast heq
      rw [heq]
      omega
  · refine hsides ?_
    rw [before_d90 hd90, dataBlocks, hd90]
    rcases hf.heads hd90 with h | h <;> rw [h]

/-! ## Accesses -/

theorem trackIndex_lt (h : t ≤ 1000) : trackIndex t < MAX_GCR_TRACKS ↔ 1 ≤ t ∧ t ≤ 84 := by
  unfold trackIndex MAX_GCR_TRACKS
  omega

/-- What a read by blocks uses. -/
theorem dxxRead_uses {buf : Bytes} (h : checkSector image.toShape t s = .ok b) {u : Use}
    (hu : u ∈ (dxxReadSector hasGcr image buf t s).uses) :
    u = .map b ∧ image.errorInfo ≠ none ∨ u = .track (trackIndex t) ∧ hasGcr = true ∨
      u = .block (b * 256) ∧ b * 256 + 256 ≤ image.file.length := by
  have hmap : u ∈ mapUses image b → u = .map b ∧ image.errorInfo ≠ none := by
    intro hmem
    unfold mapUses at hmem
    cases hinfo : image.errorInfo with
    | none =>
      rw [hinfo] at hmem
      cases hmem
    | some info =>
      rw [hinfo] at hmem
      exact ⟨List.mem_singleton.mp hmem, Option.some_ne_none info⟩
  unfold dxxReadSector at hu
  rw [h] at hu
  simp only at hu
  split at hu
  · exact .inl (hmap hu)
  · split at hu
    · rename_i hgcr
      rcases List.mem_append.mp hu with hu | hu
      · exact .inl (hmap hu)
      · exact .inr (.inl ⟨List.mem_singleton.mp hu, hgcr⟩)
    · cases hread : fpread image.file 256 (b * 256) with
      | none =>
        rw [hread] at hu
        exact .inl (hmap hu)
      | some data =>
        rw [hread] at hu
        have hroom : b * 256 + 256 ≤ image.file.length := by
          by_contra hnot
          rw [fpread, if_neg hnot] at hread
          cases hread
        rcases List.mem_append.mp hu with hu | hu
        · exact .inl (hmap hu)
        · exact .inr (.inr ⟨List.mem_singleton.mp hu, hroom⟩)

/-- The map is used if there is one; if there is none, a loaded track is. -/
theorem dxxRead_used (hasGcr : Bool) (buf : Bytes) (h : checkSector image.toShape t s = .ok b) :
    (image.errorInfo ≠ none → .map b ∈ (dxxReadSector hasGcr image buf t s).uses) ∧
    (image.errorInfo = none → hasGcr = true → .track (trackIndex t) ∈ (dxxReadSector hasGcr image buf t s).uses) := by
  unfold dxxReadSector
  rw [h]
  simp only
  constructor
  · intro hinfo
    have hmem : Use.map b ∈ mapUses image b := by
      unfold mapUses
      split
      · contradiction
      · exact List.mem_singleton_self _
    split
    · exact hmem
    · split
      · exact List.mem_append_left _ hmem
      · split
        · exact hmem
        · exact List.mem_append_left _ hmem
  · intro hinfo hgcr
    have hsoft : hardError (mapAt image b) = false := by
      rw [mapAt, hinfo]
      rfl
    rw [hsoft, if_neg Bool.false_ne_true, if_pos hgcr]
    exact List.mem_append_right _ (List.mem_singleton_self _)

/-- Nothing used, and the read has failed. -/
theorem dxxRead_refused {buf : Bytes} (hnone : (dxxReadSector hasGcr image buf t s).uses = []) :
    (dxxReadSector hasGcr image buf t s).outcome = some (-1, image, buf) := by
  unfold dxxReadSector at hnone ⊢
  split
  · rfl
  · rename_i b hb
    rw [hb] at hnone
    simp only at hnone ⊢
    by_cases hhard : hardError (mapAt image b) = true
    · rw [if_pos hhard] at hnone
      unfold mapUses at hnone
      unfold mapAt at hhard
      cases hinfo : image.errorInfo with
      | none =>
        rw [hinfo] at hhard
        cases hhard
      | some info =>
        rw [hinfo] at hnone
        cases hnone
    · rw [if_neg hhard] at hnone ⊢
      by_cases hgcr : hasGcr = true
      · rw [if_pos hgcr] at hnone
        exact absurd (List.append_eq_nil_iff.mp hnone).2 (List.cons_ne_nil _ _)
      · rw [if_neg hgcr] at hnone ⊢
        cases hread : fpread image.file 256 (b * 256) with
        | none => rfl
        | some data =>
          rw [hread] at hnone
          exact absurd (List.append_eq_nil_iff.mp hnone).2 (List.cons_ne_nil _ _)

/-- What a write by blocks uses. -/
theorem dxxWrite_uses {buf : Block} (h : checkSector image.toShape t s = .ok b) :
    (dxxWriteSector hasGcr image buf t s).uses =
      [.block (b * 256)] ++ (if hasGcr then [.track (trackIndex t)] else []) ++ mapUses image b := by
  unfold dxxWriteSector
  rw [h]

/-- A block is that of a sector which passes the check. -/
theorem block_place (hgcr : ¬ IsGcr image.type) {o : Nat} (ho : .block o ∈ (access hasGcr readOnly image t s r).uses) :
    ∃ b, checkSector image.toShape t s = .ok b ∧ o = b * 256 := by
  cases r with
  | read buf =>
    rw [access, if_neg hgcr] at ho
    cases hcheck : checkSector image.toShape t s with
    | error e =>
      rw [dxxReadSector, hcheck] at ho
      cases ho
    | ok b =>
      refine ⟨b, rfl, ?_⟩
      rcases dxxRead_uses hcheck ho with ⟨heq, _⟩ | ⟨heq, _⟩ | ⟨heq, _⟩
      · cases heq
      · cases heq
      · exact Use.block.inj heq
  | write buf =>
    rw [access, if_neg hgcr] at ho
    cases hcheck : checkSector image.toShape t s with
    | error e =>
      rw [dxxWriteSector, hcheck] at ho
      cases ho
    | ok b =>
      refine ⟨b, rfl, ?_⟩
      rw [dxxWrite_uses hcheck] at ho
      have hmap : Use.block o ∉ mapUses image b := by
        unfold mapUses
        split <;> simp
      have htrack : Use.block o ∉ (if hasGcr then [Use.track (trackIndex t)] else []) := by
        split <;> simp
      rcases List.mem_append.mp ho with ho | ho
      · rcases List.mem_append.mp ho with ho | ho
        · exact Use.block.inj (List.mem_singleton.mp ho)
        · exact absurd ho htrack
      · exact absurd ho hmap

/-- No two sectors share a block. -/
theorem blocks_apart (hf : Facts image) (hgcr : ¬ IsGcr image.type) (hne : (t', s') ≠ (t, s)) {r' : Request} {o o' : Nat}
    (ho : .block o ∈ (access hasGcr readOnly image t s r).uses) (ho' : .block o' ∈ (access hasGcr readOnly image t' s' r').uses) :
    o + 256 ≤ o' ∨ o' + 256 ≤ o := by
  obtain ⟨b, hb, rfl⟩ := block_place hgcr ho
  obtain ⟨b', hb', rfl⟩ := block_place hgcr ho'
  have hother : b ≠ b' := by
    rintro rfl
    obtain ⟨ht, hs⟩ := checkSector_inj (hf.blocks hgcr) hb hb'
    exact hne (by rw [ht, hs])
  omega

theorem refused_error (hasGcr readOnly : Bool) (r : Request) (hgcr : ¬ IsGcr image.type) {e : SectorErr}
    (hcheck : checkSector image.toShape t s = .error e) :
    (access hasGcr readOnly image t s r).uses = [] ∧
      (access hasGcr readOnly image t s r).outcome = some (-1, image, r.buffer) := by
  cases r with
  | read buf =>
    rw [access, if_neg hgcr, dxxReadSector, hcheck]
    exact ⟨rfl, rfl⟩
  | write buf =>
    rw [access, if_neg hgcr, dxxWriteSector, fsimageDxxWriteSector, hcheck]
    exact ⟨rfl, rfl⟩

/-- The tracks of the images with a map are in the array. -/
theorem map_index (hf : Facts image) (hgcr : ¬ IsGcr image.type) (hinfo : image.errorInfo ≠ none)
    (h : checkSector image.toShape t s = .ok b) : 1 ≤ t ∧ t ≤ 84 := by
  obtain ⟨info, hinfo⟩ := Option.ne_none_iff_exists'.mp hinfo
  have hmax := checkSector_max (hf.blocks hgcr) h
  obtain ⟨htype, _⟩ := hf.map info hinfo
  have hpos := checkSector_pos (by rcases htype with h | h | h <;> rw [h] <;> decide) h
  refine ⟨hpos, ?_⟩
  unfold maxTracks at hmax
  rcases htype with htype | htype | htype
  all_goals
    rw [htype] at hmax
    simp only [fullTracks] at hmax
    omega

theorem check_small (hf : Facts image) (hgcr : ¬ IsGcr image.type) (h : checkSector image.toShape t s = .ok b) : t ≤ 1000 := by
  have hmax := checkSector_max (hf.blocks hgcr) h
  have hsmall : maxTracks image.toShape ≤ 1000 := by
    by_cases hd64 : image.type = .d64
    · rw [maxTracks, hd64]
      exact (by decide : 42 ≤ 1000)
    · by_cases hd81 : image.type = .d81
      · rw [maxTracks, hd81]
        exact (by decide : 83 ≤ 1000)
      · rw [hf.tracks_eq hgcr hd64 hd81, hf.tracks hgcr hd64 hd81]
        cases image.type <;> decide
  omega

/-- By blocks, from the tracks of the image. -/
theorem confined_of_meets (hf : Facts image) (hgcr : ¬ IsGcr image.type) (hcheck : checkSector image.toShape t s = .ok b)
    (htracks : hasGcr = true → 1 ≤ t ∧ t ≤ 84) (hplace : t ≤ image.tracks ∨ r.isRead = true ∧ image.errorInfo = none) :
    Confined hasGcr readOnly image t s r := by
  have hinsideTrack : hasGcr = true → Inside image (.track (trackIndex t)) :=
    fun h => (trackIndex_lt (check_small hf hgcr hcheck)).mpr (htracks h)
  have hinsideMap : t ≤ image.tracks → image.errorInfo ≠ none → Inside image (.map b) := by
    intro hle hinfo
    obtain ⟨info, hinfo⟩ := Option.ne_none_iff_exists'.mp hinfo
    refine ⟨info, hinfo, ?_⟩
    rw [(hf.map info hinfo).2]
    exact (place_iff hf hgcr hcheck).mpr hle
  have hinsideBlock : t ≤ image.tracks → Inside image (.block (b * 256)) := by
    intro hle
    have hlt := (place_iff hf hgcr hcheck).mpr hle
    show b * 256 + 256 ≤ dataBlocks image.toShape * 256
    omega
  have hapart : ∀ t' s' r', (t', s') ≠ (t, s) → ∀ o o', .block o ∈ (access hasGcr readOnly image t s r).uses →
      .block o' ∈ (access hasGcr readOnly image t' s' r').uses → o + 256 ≤ o' ∨ o' + 256 ≤ o :=
    fun t' s' r' hne o o' ho ho' => blocks_apart hf hgcr hne ho ho'
  cases r with
  | read buf =>
    have haccess : access hasGcr readOnly image t s (.read buf) = dxxReadSector hasGcr image buf t s := by rw [access, if_neg hgcr]
    refine ⟨fun hnone => ?_, fun u hu => ?_, hapart⟩
    · rw [haccess] at hnone ⊢
      exact ⟨-1, by decide, dxxRead_refused hnone⟩
    · rw [haccess] at hu
      rcases dxxRead_uses hcheck hu with ⟨rfl, hinfo⟩ | ⟨rfl, hloaded⟩ | ⟨rfl, hroom⟩
      · rcases hplace with hle | ⟨_, hnone⟩
        · exact hinsideMap hle hinfo
        · exact absurd hnone hinfo
      · exact hinsideTrack hloaded
      · rcases hplace with hle | ⟨_, hnone⟩
        · exact hinsideBlock hle
        · by_cases hwhole : image.type = .d64 ∨ image.type = .d81
          · rw [hf.whole hnone hwhole] at hroom
            exact hroom
          · rw [not_or] at hwhole
            have hmax := checkSector_max (hf.blocks hgcr) hcheck
            rw [hf.tracks_eq hgcr hwhole.1 hwhole.2] at hmax
            exact hinsideBlock hmax
  | write buf =>
    have haccess : access hasGcr readOnly image t s (.write buf) = dxxWriteSector hasGcr image buf t s := by rw [access, if_neg hgcr]
    have hle : t ≤ image.tracks := by
      rcases hplace with hle | ⟨hread, _⟩
      · exact hle
      · cases hread
    refine ⟨fun hnone => ?_, fun u hu => ?_, hapart⟩
    · rw [haccess, dxxWrite_uses hcheck] at hnone
      exact absurd hnone (by simp)
    · rw [haccess, dxxWrite_uses hcheck] at hu
      rcases List.mem_append.mp hu with hu | hu
      · rcases List.mem_append.mp hu with hu | hu
        · obtain rfl := List.mem_singleton.mp hu
          exact hinsideBlock hle
        · by_cases hloaded : hasGcr = true
          · rw [if_pos hloaded] at hu
            obtain rfl := List.mem_singleton.mp hu
            exact hinsideTrack hloaded
          · rw [if_neg hloaded] at hu
            cases hu
      · unfold mapUses at hu
        cases hinfo : image.errorInfo with
        | none =>
          rw [hinfo] at hu
          cases hu
        | some info =>
          rw [hinfo] at hu
          obtain rfl := List.mem_singleton.mp hu
          exact hinsideMap hle (by rw [hinfo]; exact Option.some_ne_none info)

/-- And from nothing but these. -/
theorem meets_of_confined (hf : Facts image) (hgcr : ¬ IsGcr image.type) (hcheck : checkSector image.toShape t s = .ok b)
    (hc : Confined hasGcr readOnly image t s r) :
    (hasGcr = true → 1 ≤ t ∧ t ≤ 84) ∧ (t ≤ image.tracks ∨ r.isRead = true ∧ image.errorInfo = none) := by
  have hsmall := check_small hf hgcr hcheck
  cases r with
  | read buf =>
    have haccess : access hasGcr readOnly image t s (.read buf) = dxxReadSector hasGcr image buf t s := by rw [access, if_neg hgcr]
    obtain ⟨hmap, htrack⟩ := dxxRead_used hasGcr buf hcheck
    rw [← haccess] at hmap htrack
    by_cases hinfo : image.errorInfo = none
    · exact ⟨fun hloaded => (trackIndex_lt hsmall).mp (hc.inside _ (htrack hinfo hloaded)), .inr ⟨rfl, hinfo⟩⟩
    · refine ⟨fun _ => map_index hf hgcr hinfo hcheck, .inl ?_⟩
      obtain ⟨info, hsome, hlt⟩ := hc.inside _ (hmap hinfo)
      rw [(hf.map info hsome).2] at hlt
      exact (place_iff hf hgcr hcheck).mp hlt
  | write buf =>
    have huses : (access hasGcr readOnly image t s (.write buf)).uses =
        [.block (b * 256)] ++ (if hasGcr then [.track (trackIndex t)] else []) ++ mapUses image b := by
      rw [access, if_neg hgcr]
      exact dxxWrite_uses hcheck
    have hblock : Inside image (.block (b * 256)) := hc.inside _ (by rw [huses]; simp)
    have htrack : hasGcr = true → Inside image (.track (trackIndex t)) :=
      fun hloaded => hc.inside _ (by rw [huses, hloaded]; simp)
    refine ⟨fun hloaded => (trackIndex_lt hsmall).mp (htrack hloaded), .inl ?_⟩
    refine (place_iff hf hgcr hcheck).mp ?_
    have hroom : b * 256 + 256 ≤ dataBlocks image.toShape * 256 := hblock
    omega

/-! ## GCR images -/

/-- What an access to a GCR image uses, and its end if that is nothing. -/
theorem gcr_access (hasGcr readOnly : Bool) (t s : Nat) (r : Request) (hgcr : IsGcr image.type) :
    (image.tracks < t → (access hasGcr readOnly image t s r).uses = [] ∧
      (access hasGcr readOnly image t s r).outcome = some (-1, image, r.buffer)) ∧
    (¬ image.tracks < t → hasGcr = true → (access hasGcr readOnly image t s r).uses = [.track (trackIndex t)]) ∧
    (¬ image.tracks < t → hasGcr = false →
      (readHalfTrack image.type image.file (t * 2) = none ∧ (access hasGcr readOnly image t s r).uses = [] ∧
        (access hasGcr readOnly image t s r).outcome = some (-1, image, r.buffer)) ∨
      ((readHalfTrack image.type image.file (t * 2)).isSome ∧
        (access hasGcr readOnly image t s r).uses = [.track (trackIndex t)])) := by
  cases r with
  | read buf =>
    rw [access, if_pos hgcr]
    unfold gcrImageReadSector
    simp only
    refine ⟨fun hlt => ?_, fun hle hloaded => ?_, fun hle hloaded => ?_⟩
    · rw [if_pos hlt]
      exact ⟨rfl, rfl⟩
    · rw [if_neg hle, if_pos hloaded]
    · rw [if_neg hle, if_neg (by rw [hloaded]; exact Bool.false_ne_true)]
      cases hread : readHalfTrack image.type image.file (t * 2) with
      | none => exact .inl ⟨rfl, rfl, rfl⟩
      | some data => exact .inr ⟨rfl, rfl⟩
  | write buf =>
    rw [access, if_pos hgcr]
    unfold gcrImageWriteSector
    refine ⟨fun hlt => ?_, fun hle hloaded => ?_, fun hle hloaded => ?_⟩
    · rw [if_pos hlt]
      exact ⟨rfl, rfl⟩
    · rw [if_neg hle, if_pos hloaded]
    · rw [if_neg hle, if_neg (by rw [hloaded]; exact Bool.false_ne_true)]
      cases hread : readHalfTrack image.type image.file (t * 2) with
      | none => exact .inl ⟨rfl, rfl, rfl⟩
      | some data => exact .inr ⟨rfl, rfl⟩

/-- A half track is found in a file with no more half tracks than the array has. -/
theorem readHalfTrack_num (h : (readHalfTrack type file n).isSome) : (file.getD 9 0).toNat ≤ MAX_GCR_TRACKS := by
  unfold readHalfTrack seekHalfTrack at h
  cases hheader : fpread file 12 0 with
  | none =>
    rw [hheader] at h
    cases h
  | some head =>
    rw [hheader] at h
    have hbyte : numHalfTracks head = (file.getD 9 0).toNat := by
      obtain ⟨hlength, hat⟩ := heldAt_of_fpread hheader
      have hnine := hat 9 (by omega)
      rw [Nat.zero_add] at hnine
      unfold numHalfTracks
      rw [List.getD_eq_getElem?_getD, List.getD_eq_getElem?_getD, hnine]
    rw [← hbyte]
    by_contra hmany
    simp only at h
    rw [if_pos (Nat.lt_of_not_le hmany), ite_self] at h
    cases h

theorem gcr_confined_iff (hf : Facts image) (hgcr : IsGcr image.type) : Confined hasGcr readOnly image t s r ↔
      (image.tracks < t ∨ if hasGcr then 1 ≤ t ∧ t ≤ 84 else 1 ≤ t ∨ readHalfTrack image.type image.file 0 = none) := by
  obtain ⟨hbeyond, hloadedUses, hfileUses⟩ := gcr_access hasGcr readOnly t s r hgcr
  have htracks := hf.halfTracks hgcr
  have hbyte := (image.file.getD 9 0).toNat_lt
  have hnothing : (access hasGcr readOnly image t s r).uses = [] ∧
      (access hasGcr readOnly image t s r).outcome = some (-1, image, r.buffer) → Confined hasGcr readOnly image t s r := by
    rintro ⟨huses, houtcome⟩
    refine ⟨fun _ => ⟨-1, by decide, houtcome⟩, fun u hu => ?_, fun t' s' r' _ o o' ho => ?_⟩
    · rw [huses] at hu
      cases hu
    · rw [huses] at ho
      cases ho
  have htrack : (access hasGcr readOnly image t s r).uses = [.track (trackIndex t)] → 1 ≤ t ∧ t ≤ 84 →
      Confined hasGcr readOnly image t s r := by
    intro huses hin
    refine ⟨fun hnone => ?_, fun u hu => ?_, fun t' s' r' _ o o' ho => ?_⟩
    · rw [huses] at hnone
      cases hnone
    · rw [huses] at hu
      obtain rfl := List.mem_singleton.mp hu
      exact (trackIndex_lt (by omega)).mpr hin
    · rw [huses] at ho
      cases List.mem_singleton.mp ho
  by_cases hlt : image.tracks < t
  · exact ⟨fun _ => .inl hlt, fun _ => hnothing (hbeyond hlt)⟩
  · have hindex : (access hasGcr readOnly image t s r).uses = [.track (trackIndex t)] → Confined hasGcr readOnly image t s r →
        1 ≤ t ∧ t ≤ 84 := by
      intro huses hc
      have hinside : Inside image (.track (trackIndex t)) := hc.inside _ (by rw [huses]; exact List.mem_singleton_self _)
      exact (trackIndex_lt (by omega)).mp hinside
    by_cases hloaded : hasGcr = true
    · rw [if_pos hloaded]
      have huses := hloadedUses hlt hloaded
      refine ⟨fun hc => .inr (hindex huses hc), fun hmeets => ?_⟩
      rcases hmeets with h | h
      · exact absurd h hlt
      · exact htrack huses h
    · rw [if_neg hloaded]
      rcases hfileUses hlt (Bool.eq_false_iff.mpr hloaded) with ⟨hnone, huses⟩ | ⟨hsome, huses⟩
      · refine ⟨fun _ => .inr ?_, fun _ => hnothing huses⟩
        by_cases hzero : t = 0
        · subst hzero
          exact .inr hnone
        · exact .inl (by omega)
      · have hnum := readHalfTrack_num hsome
        unfold MAX_GCR_TRACKS at hnum
        refine ⟨fun hc => .inr (.inl (hindex huses hc).1), fun hmeets => htrack huses ⟨?_, by omega⟩⟩
        by_contra hzero
        have hzero : t = 0 := by omega
        subst hzero
        rcases hmeets with h | h | h
        · exact hlt h
        · omega
        · rw [h] at hsome
          cases hsome

/-- What the probe has made sure of does not depend on the tracks that are loaded afterwards. -/
theorem Facts.loaded (hf : Facts image) (gcr : Nat → DiskTrack) : Facts { image with gcr := gcr } :=
  ⟨hf.type, hf.tracks, hf.heads, hf.map, hf.whole, hf.halfTracks⟩

theorem confined_iff_of_facts (hf : Facts image) : Confined hasGcr readOnly image t s r ↔ Meets hasGcr image t s r := by
  unfold Meets
  by_cases hgcr : IsGcr image.type
  · rw [if_pos hgcr]
    exact gcr_confined_iff hf hgcr
  · rw [if_neg hgcr]
    rcases checkSector_cases image.toShape t s with ⟨e, hcheck⟩ | ⟨b, hcheck⟩
    · refine ⟨fun _ => .inl ⟨e, hcheck⟩, fun _ => ?_⟩
      obtain ⟨huses, houtcome⟩ := refused_error hasGcr readOnly r hgcr hcheck
      refine ⟨fun _ => ⟨-1, by decide, houtcome⟩, fun u hu => ?_, fun t' s' r' _ o o' ho => ?_⟩
      · rw [huses] at hu
        cases hu
      · rw [huses] at ho
        cases ho
    · refine ⟨fun hc => .inr (meets_of_confined hf hgcr hcheck hc), fun hmeets => ?_⟩
      rcases hmeets with ⟨e, herror⟩ | ⟨htracks, hplace⟩
      · rw [hcheck] at herror
        cases herror
      · exact confined_of_meets hf hgcr hcheck htracks hplace

/-- An access keeps to the image exactly if its track is one of the image, whatever tracks are loaded. -/
theorem access_confined_iff (h : fsimageProbe p64Reads ext file = some image) (gcr : Nat → DiskTrack) :
    Confined hasGcr readOnly { image with gcr := gcr } t s r ↔ Meets hasGcr { image with gcr := gcr } t s r :=
  confined_iff_of_facts ((probe_facts h).loaded gcr)

end

/-- An image of 35 tracks with a map. -/
def mappedFile : Bytes := List.replicate 175531 1

def mappedImage : DiskImage := recognised .d64 35 84 mappedFile (some ⟨List.replicate 683 1, 683, false⟩)

theorem checkForD64_eq {file : Bytes} {t b : Nat} {hasMap : Bool}
    (h : d64Size file.length 8 35 683 = some (t, b, hasMap)) :
    checkForD64 file = withMap .d64 t 84 file hasMap b := by
  rw [checkForD64, h]

theorem mappedFile_probe : fsimageProbe true none mappedFile = some mappedImage := by
  have hlength : mappedFile.length = 175531 := List.length_replicate
  have hmap : readMap mappedFile 683 = some ⟨List.replicate 683 1, 683, false⟩ := by
    rw [readMap, fpread, if_pos (by rw [hlength]), mappedFile, List.drop_replicate, List.take_replicate]
    rfl
  have hsize : d64Size mappedFile.length 8 35 683 = some (35, 683, true) := by
    rw [hlength]
    decide +kernel
  rw [fsimageProbe, checkForD64_eq hsize, withMap, if_pos rfl, hmap, Option.map_some, ← mappedImage]
  rfl

theorem access_confined_last : Confined true false mappedImage 35 0 (.read []) :=
  (access_confined_iff mappedFile_probe fun _ => ⟨[]⟩).mpr
    (.inr ⟨fun _ => ⟨by decide, by decide⟩, .inl (Nat.le_refl 35)⟩)

/-- Track 36 is none of the image, and its first sector is written over the map. -/
theorem write_beyond : ∃ image, fsimageProbe true none mappedFile = some image ∧
    ¬ Confined false false image 36 0 (.write ⟨List.replicate 256 0, List.length_replicate⟩) := by
  refine ⟨mappedImage, mappedFile_probe, fun hc => ?_⟩
  have hcheck : checkSector mappedImage.toShape 36 0 = .ok 683 := by decide +kernel
  have huses : ∀ buf : Block, .map 683 ∈ (access false false mappedImage 36 0 (.write buf)).uses := by
    intro buf
    rw [access, if_neg (by decide), dxxWrite_uses hcheck]
    exact List.mem_append_right _ (List.mem_singleton_self _)
  obtain ⟨info, hinfo, hlt⟩ := hc.inside _ (huses _)
  obtain rfl := Option.some.inj hinfo
  exact absurd hlt (by decide)

end Vice.L2.SectorConfined
