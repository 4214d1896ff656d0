import Vice.L1Encoding.GcrRoundTrip
import Vice.L2Image.Geometry

/-!
# GCR tracks of a sector image (`fsimage-dxx.c`)

When a drive needs raw tracks, `fsimage_read_dxx_image` lays the sectors of each
track out back to back in a scratch buffer filled with 0x55 and copies the buffer
into the track, rotated by a skew that grows from track to track.
`fsimage_dxx_write_half_track` reads every sector of a raw track and stores what it
got in the image file, keeping the error map.

The file is its bytes, `image->gcr->tracks` a function of the half track. A result of
-1 is `none`.

Results:
* `layoutSectors_eq`: the scratch buffer is the sectors in order, each followed by its
  gap, and filler to the end.
-/
namespace Vice.L2.Dxx
open Vice.L0.BitRun Vice.L1.Gcr Vice.L2.Geometry

/-- mirrors src/diskimage/fsimage.h (`error_info`); a null `map` is no record at all. -/
structure ErrorInfo where
  map : Bytes
  len : Nat
  dirty : Bool

/-- mirrors src/diskimage.h:89-104 (`disk_image_t`), with the file behind it. -/
structure DiskImage extends Shape where
  maxHalfTracks : Nat
  file : Bytes
  errorInfo : Option ErrorInfo
  gcr : Nat → DiskTrack

/-- mirrors src/util.c:593-600 (`util_fpread`) -/
def fpread (file : Bytes) (num offset : Nat) : Option Bytes :=
  if offset + num ≤ file.length then some ((file.drop offset).take num) else none

/-- mirrors src/util.c:620-627 (`util_fpwrite`); the file system fills a hole with zeros. -/
def fpwrite (file buf : Bytes) (offset : Nat) : Bytes :=
  put (file ++ List.replicate (offset - file.length) 0) offset buf

/-- The error of a byte of the error map; `gcr_convert_sector_to_GCR` takes every other
code for a good sector. -/
def FdcErr.ofCode (c : UInt8) : FdcErr :=
  match c.toNat with
  | 2 => .header
  | 3 => .sync
  | 4 => .noblock
  | 5 => .dcheck
  | 7 => .verify
  | 8 => .wprot
  | 9 => .hcheck
  | 10 => .blength
  | 11 => .id
  | 12 => .fspeed
  | 15 => .drive
  | 16 => .decode
  | _ => .ok

/-- mirrors src/cbmdos.h:104-118 -/
def FdcErr.code : FdcErr → UInt8
  | .ok => 1
  | .header => 2
  | .sync => 3
  | .noblock => 4
  | .dcheck => 5
  | .verify => 7
  | .wprot => 8
  | .hcheck => 9
  | .blength => 10
  | .id => 11
  | .fspeed => 12
  | .drive => 15
  | .decode => 16

/-- What the layout of one track needs to know. -/
structure TrackLayout where
  track : Nat
  gap : Nat
  headergap : Nat
  synclen : Nat

/-- The sector loop of `fsimage_read_dxx_image`: `n` sectors from `sector` on, `ptr` the place in
the scratch buffer. -/
def layoutSectors (image : DiskImage) (l : TrackLayout) (header : GcrHeader) :
    Nat → Nat → Bytes → Bytes → Nat → Bytes × Bytes × Nat
  | 0, _, buffer, tempgcr, ptr => (buffer, tempgcr, ptr)
  | n + 1, sector, buffer, tempgcr, ptr =>
    let (buffer, tempgcr) :=
      match checkSector image.toShape l.track sector with
      | .error _ => (buffer, tempgcr)
      | .ok sectors =>
        let (buffer, rf) :=
          match fpread image.file 256 (sectors * 256) with
          | none => (buffer, FdcErr.drive)
          | some buffer =>
            match image.errorInfo with
            | none => (buffer, FdcErr.drive)
            | some info => (buffer, FdcErr.ofCode (info.map.getD sectors 0))
        let header := { header with sector := UInt8.ofNat sector }
        (buffer, tempgcr.take ptr ++
          gcrConvertSectorToGcr buffer (tempgcr.drop ptr) header l.headergap l.synclen rf)
    layoutSectors image l header n (sector + 1) buffer tempgcr
      (ptr + (335 + l.headergap + l.gap + l.synclen * 2))

/-- The variables of `fsimage_read_dxx_image` that live from one track to the next. -/
structure ReadState where
  gcr : Nat → DiskTrack
  header : GcrHeader
  buffer : Bytes
  trackoffset : Nat

def setTrack (gcr : Nat → DiskTrack) (halfTrack : Nat) (data : Bytes) : Nat → DiskTrack :=
  fun i => if i = halfTrack then ⟨data⟩ else gcr i

@[simp] theorem setTrack_same (gcr : Nat → DiskTrack) (i : Nat) (data : Bytes) :
    setTrack gcr i data i = ⟨data⟩ := if_pos rfl

theorem setTrack_other {gcr : Nat → DiskTrack} {i j : Nat} {data : Bytes} (h : j ≠ i) :
    setTrack gcr i data j = gcr j := if_neg h

/-- The scratch buffer copied behind the skew, with wraparound. -/
def skewed (trackSize trackoffset : Nat) (tempgcr : Bytes) : Bytes :=
  let data : Bytes := List.replicate trackSize 0x55
  let data := put data trackoffset (tempgcr.take (trackSize - trackoffset))
  put data 0 ((tempgcr.drop (trackSize - trackoffset)).take (trackSize - (trackSize - trackoffset)))

/-- mirrors src/diskimage/fsimage-dxx.c:240-254: the second side of a disk formatted as two single
sides starts over with its own id. -/
def secondSide (image : DiskImage) (imageHasTwoSingleSides : Bool) (track : Nat) (st : ReadState) :
    ReadState :=
  if imageHasTwoSingleSides ∧ track = 36 then
    let buffer := put st.buffer 162 [0xa0, 0xa0]
    let buffer :=
      match checkSector image.toShape (18 + 35) 0 with
      | .error _ => buffer
      | .ok sectors => (fpread image.file 256 (sectors * 256)).getD buffer
    { st with
      buffer
      header := { st.header with id1 := buffer.getD 162 0, id2 := buffer.getD 163 0, track := 1 } }
  else st

/-- mirrors src/diskimage/fsimage-dxx.c:256-307: lay the sectors out and copy them behind the skew. -/
def buildTrack (image : DiskImage) (track : Nat) (st : ReadState) : ReadState :=
  let trackSize := rawTrackSize image.type track
  let gap := gapSize image.type track
  let headergap := headerGapSize image.type track
  let synclen := syncSize image.type track
  let (buffer, tempgcr, ptr) :=
    layoutSectors image { track, gap, headergap, synclen } st.header
      (sectorPerTrack image.type track) 0 st.buffer (List.replicate trackSize 0x55) 0
  let trackoffset := st.trackoffset + (ptr - gap) + trackSize * 100 / 270
  let trackoffset := trackoffset % trackSize
  { gcr := setTrack st.gcr (track * 2 - 2) (skewed trackSize trackoffset tempgcr)
    header := st.header
    buffer, trackoffset }

/-- mirrors src/diskimage/fsimage-dxx.c:222-331, one turn of the track loop. -/
def readTrack (image : DiskImage) (imageHasTwoSingleSides : Bool) (track : Nat) (st : ReadState) :
    ReadState :=
  let halfTrack := track * 2 - 2
  let trackSize := rawTrackSize image.type track
  let st :=
    if track ≤ image.tracks then
      buildTrack image track (secondSide image imageHasTwoSingleSides track st)
    else { st with gcr := setTrack st.gcr halfTrack (List.replicate trackSize 0x55) }
  { st with
    gcr := setTrack st.gcr (halfTrack + 1) (List.replicate trackSize 0)
    header := { st.header with track := st.header.track + 1 } }

/-- The track loop over the first `n` tracks. -/
def readTracks (image : DiskImage) (imageHasTwoSingleSides : Bool) (st : ReadState) : Nat → ReadState
  | 0 => st
  | n + 1 => readTrack image imageHasTwoSingleSides (n + 1)
      (readTracks image imageHasTwoSingleSides st n)

/-- The second side of a single sided image in a 1571: unformatted. -/
def clearSecondSide (image : DiskImage) (gcr : Nat → DiskTrack) : Nat → Nat → DiskTrack
  | 0 => gcr
  | n + 1 =>
    let gcr := clearSecondSide image gcr n
    let halfTrack := (36 + (n + 1)) * 2 - 2
    let trackSize := rawTrackSize image.type (n + 1)
    setTrack (setTrack gcr halfTrack (List.replicate trackSize 0)) (halfTrack + 1)
      (List.replicate trackSize 0)

/-- mirrors src/diskimage/fsimage-dxx.c:149-334 (`fsimage_read_dxx_image`); `doubleSidedDrive`
is the drive type's part of it. -/
def fsimageReadDxxImage (image : DiskImage) (doubleSidedDrive : Bool) : Option DiskImage :=
  let (bamTrack, bamId) : Nat × Nat :=
    if image.type = .d80 ∨ image.type = .d82 then (39, 24) else (18, 162)
  match checkSector image.toShape bamTrack 0 with
  | .error _ => none
  | .ok sectors =>
    let buffer : Bytes := put (List.replicate 256 0) bamId [0xa0, 0xa0]
    let buffer := (fpread image.file 256 (sectors * 256)).getD buffer
    let header : GcrHeader := ⟨0, 1, buffer.getD (bamId + 1) 0, buffer.getD bamId 0⟩
    let imageHasTwoSingleSides := image.type = .d71 ∧ (buffer.getD 3 0) &&& 0x80 = 0
    let gcr :=
      if doubleSidedDrive ∧ image.type ≠ .d71 then
        clearSecondSide image image.gcr (image.maxHalfTracks / 2)
      else image.gcr
    let st := readTracks image imageHasTwoSingleSides ⟨gcr, header, buffer, 0⟩
      (image.maxHalfTracks / 2)
    some { image with gcr := st.gcr }

/-- The error map of a track beyond the ones the image had so far, or of a first error. -/
def ErrorInfo.grow (info : ErrorInfo) (newlen : Nat) : ErrorInfo :=
  { map := info.map.take newlen ++ List.replicate (newlen - info.len) 0, len := newlen, dirty := true }

/-- The sector loop of `fsimage_dxx_write_half_track`: what is read, and the error map. -/
def readBack (image : DiskImage) (raw : DiskTrack) (sectors : Nat) :
    Nat → Nat → Option ErrorInfo → Bool → Option (Bytes × Option ErrorInfo × Bool)
  | 0, _, info, created => some ([], info, created)
  | n + 1, sector, info, created =>
    match gcrReadSector raw (List.replicate 256 0) (UInt8.ofNat sector) with
    | none => none
    | some (rf, data) =>
      let (info, created) :=
        match rf, info with
        | .ok, info => (info, created)
        | _, some info => (some info, created)
        | _, none =>
          match checkSector image.toShape image.tracks 0 with
          | .error _ => (none, created)
          | .ok newlen =>
            let newlen := newlen + sectorPerTrack image.type image.tracks
            (some ⟨List.replicate newlen 1, newlen, true⟩, true)
      let info := info.map fun info =>
        if info.map.getD (sectors + sector) 0 ≠ FdcErr.code rf then
          { info with map := info.map.set (sectors + sector) (FdcErr.code rf), dirty := true }
        else info
      (readBack image raw sectors n (sector + 1) info created).map fun (rest, r) =>
        (data ++ rest, r)

/-- mirrors src/diskimage/fsimage-dxx.c:47-147 (`fsimage_dxx_write_half_track`): the result and
the image afterwards. -/
def fsimageDxxWriteHalfTrack (image : DiskImage) (halfTrack : Nat) (raw : DiskTrack) :
    Option (Int × DiskImage) :=
  let track := halfTrack / 2
  let maxSector := sectorPerTrack image.type track
  match checkSector image.toShape track 0 with
  | .error _ => some (-1, image)
  | .ok sectors =>
    let image :=
      if track > image.tracks then
        { image with
          tracks := track
          errorInfo := image.errorInfo.map fun info => info.grow (sectors + maxSector) }
      else image
    match readBack image raw sectors maxSector 0 image.errorInfo false with
    | none => none
    | some (buffer, info, created) =>
      -- `fwrite` of no bytes writes no item, which counts as a failure
      if maxSector = 0 then some (-1, { image with errorInfo := info })
      else
        let file := fpwrite image.file buffer (sectors * 256)
        match info with
        | none => some (0, { image with file })
        | some info =>
          if info.dirty then
            let file :=
              if created then fpwrite file (info.map.take info.len) (info.len * 256)
              else fpwrite file ((info.map.drop sectors).take maxSector) (info.len * 256 + sectors)
            some (0, { image with file, errorInfo := some { info with dirty := false } })
          else some (0, { image with file, errorInfo := some info })

/-! ## The layout -/

/-- The 256 bytes of a sector of the image, where `checkSector` finds them (`InImage.fpread`). -/
def DiskImage.block (image : DiskImage) (track sector : Nat) : Bytes :=
  (image.file.drop ((sumSectors (sectorPerTrack image.type) (track - 1) + sector) * 256)).take 256

/-- `n` sectors from `sector` on, laid out. -/
def layout (image : DiskImage) (l : TrackLayout) (header : GcrHeader) : Nat → Nat → Bytes
  | 0, _ => []
  | n + 1, sector =>
    sectorBytes (image.block l.track sector) (List.replicate l.headergap 0x55)
      { header with sector := UInt8.ofNat sector } l.synclen .ok ++
      (List.replicate l.gap 0x55 ++ layout image l header n (sector + 1))

/-- The step from one sector to the next. -/
def TrackLayout.stride (l : TrackLayout) : Nat := 335 + l.headergap + l.gap + l.synclen * 2

/-- The sectors the layout reads are there, and no error map spoils them. -/
structure InImage (image : DiskImage) (track n : Nat) : Prop where
  check : ∀ s < n, checkSector image.toShape track s =
    .ok (sumSectors (sectorPerTrack image.type) (track - 1) + s)
  inFile : (sumSectors (sectorPerTrack image.type) (track - 1) + n) * 256 ≤ image.file.length
  noMap : image.errorInfo = none

/-- A block of a stretch of blocks ends inside it. -/
theorem block_end (a : Nat) {s n : Nat} (hs : s < n) : (a + s) * 256 + 256 ≤ (a + n) * 256 := by
  have := Nat.mul_le_mul_right 256 (show a + s + 1 ≤ a + n by omega)
  rwa [Nat.succ_mul] at this

section
variable {image : DiskImage} {l : TrackLayout} {header : GcrHeader}

theorem InImage.fpread {n : Nat} (h : InImage image l.track n) {s : Nat} (hs : s < n) :
    fpread image.file 256 ((sumSectors (sectorPerTrack image.type) (l.track - 1) + s) * 256) =
      some (image.block l.track s) := by
  unfold Dxx.fpread DiskImage.block
  exact if_pos (Nat.le_trans (block_end _ hs) h.inFile)

theorem InImage.block_length {n : Nat} (h : InImage image l.track n) {s : Nat} (hs : s < n) :
    (image.block l.track s).length = 256 := by
  have := Nat.le_trans (block_end (sumSectors (sectorPerTrack image.type) (l.track - 1)) hs) h.inFile
  unfold DiskImage.block
  rw [List.length_take, List.length_drop]
  omega

/-- A drive error in the map's place writes a good sector. -/
theorem sectorBytes_drive (buffer gapBytes : Bytes) (header : GcrHeader) (sync : Nat) :
    sectorBytes buffer gapBytes header sync .drive = sectorBytes buffer gapBytes header sync .ok := rfl

theorem layout_length {N : Nat} (hr : InImage image l.track N) (hsync : l.synclen = 5) (n : Nat)
    {s : Nat} (hn : s + n ≤ N) : (layout image l header n s).length = n * l.stride := by
  induction n generalizing s with
  | zero => rw [Nat.zero_mul]; rfl
  | succ n ih =>
    rw [layout, List.length_append, List.length_append, ih (by omega),
      sectorBytes_length (hr.block_length (by omega)), List.length_replicate, List.length_replicate,
      Nat.succ_mul]
    unfold TrackLayout.stride
    omega

theorem layoutSectors_eq {N : Nat} (hr : InImage image l.track N) (hsync : l.synclen = 5) (n : Nat)
    {s m : Nat} (buffer pre : Bytes) (hn : s + n ≤ N) (hm : n * l.stride ≤ m) :
    (layoutSectors image l header n s buffer (pre ++ List.replicate m 0x55) pre.length).2 =
      (pre ++ (layout image l header n s ++ List.replicate (m - n * l.stride) 0x55),
        pre.length + n * l.stride) := by
  induction n generalizing s m buffer pre with
  | zero => simp [layoutSectors, layout]
  | succ n ih =>
    have hlen := hr.block_length (l := l) (s := s) (by omega)
    have hstride : l.stride = 340 + l.headergap + l.synclen + l.gap := by
      unfold TrackLayout.stride
      omega
    rw [Nat.succ_mul] at hm
    have hconv := @gcrConvertSectorToGcr_eq (image.block l.track s) (List.replicate m 0x55)
      { header with sector := UInt8.ofNat s } l.headergap l.synclen .drive hlen
      (by rw [List.length_replicate]; omega)
    rw [List.drop_replicate, List.take_replicate, List.drop_replicate, Nat.min_eq_left (by omega),
      sectorBytes_drive] at hconv
    rw [layoutSectors]
    simp only [hr.check s (by omega), hr.fpread (s := s) (by omega), hr.noMap, List.take_left,
      List.drop_left, hconv]
    have hsplit : m - (340 + l.headergap + l.synclen) = l.gap + (m - l.stride) := by omega
    rw [hsplit, List.replicate_add]
    have hpre : pre ++ (sectorBytes (image.block l.track s) (List.replicate l.headergap 0x55)
        { header with sector := UInt8.ofNat s } l.synclen .ok ++ (List.replicate l.gap 0x55 ++
          List.replicate (m - l.stride) 0x55)) =
        (pre ++ (sectorBytes (image.block l.track s) (List.replicate l.headergap 0x55)
          { header with sector := UInt8.ofNat s } l.synclen .ok ++ List.replicate l.gap 0x55)) ++
          List.replicate (m - l.stride) 0x55 := by
      simp only [List.append_assoc]
    have hptr : pre.length + (335 + l.headergap + l.gap + l.synclen * 2) =
        (pre ++ (sectorBytes (image.block l.track s) (List.replicate l.headergap 0x55)
          { header with sector := UInt8.ofNat s } l.synclen .ok ++
            List.replicate l.gap 0x55)).length := by
      rw [List.length_append, List.length_append, sectorBytes_length hlen, List.length_replicate,
        List.length_replicate]
      omega
    rw [hpre, hptr, ih _ _ (by omega) (by omega), ← hptr, layout]
    simp only [List.append_assoc, Prod.mk.injEq]
    refine ⟨?_, ?_⟩
    · rw [show m - l.stride - n * l.stride = m - (n + 1) * l.stride by rw [Nat.succ_mul]; omega]
    · rw [Nat.succ_mul]
      unfold TrackLayout.stride
      omega

end

end Vice.L2.Dxx
