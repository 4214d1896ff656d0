import Vice.L0Core.ByteFile
import Vice.L1Encoding.GcrWrite
import Vice.L2Image.DxxTracks

/-!
# The error map of a sector image (`fsimage-dxx.c`)

Behind its sectors an image file may have one byte for each of them, with the error a drive
finds there. `fsimage_dxx_write_half_track` and `fsimage_dxx_write_sector` change a copy in memory
and write the bytes they changed, at the place the map has in the file, which is where the sectors
end. A half track beyond the current number of tracks moves that place, and only the bytes of the new
track are written there.

Results:
* `inStep_of_run`: after calls that do not grow an image with a map or write behind its tracks, the
  file has the map and the data last written.
* `inStep_not_always`: a half track more, and it does not have the map.
-/
namespace Vice.L2.ErrorMap
open Vice.L0.ByteFile Vice.L1.Gcr Vice.L2.Dxx Vice.L2.Geometry

/-- What a sector holds. -/
def Block := { bytes : Bytes // bytes.length = 256 }

/-- mirrors src/diskimage/fsimage-dxx.c:431-485 (`fsimage_dxx_write_sector`). `hasGcr` is whether the
image has raw tracks, `errorByteWritten` whether the file takes the byte of the map: where it does
not, the source logs that and goes on. -/
def fsimageDxxWriteSector (hasGcr : Bool) (image : DiskImage) (buf : Block) (track sector : Nat)
    (errorByteWritten : Bool) : Option (Int × DiskImage) :=
  match checkSector image.toShape track sector with
  | .error _ => some (-1, image)
  | .ok sectors =>
    let file := fpwrite image.file buf.val (sectors * 256)
    let gcr :=
      if hasGcr then
        (gcrWriteSector (image.gcr (track * 2 - 2)) buf.val (UInt8.ofNat sector)).map fun (_, raw) =>
          setTrack image.gcr (track * 2 - 2) raw.data
      else some image.gcr
    gcr.map fun gcr =>
      match image.errorInfo with
      | none => (0, { image with file, gcr })
      | some info =>
        if info.map.getD sectors 0 ≠ Dxx.FdcErr.code .ok then
          let file :=
            if errorByteWritten then fpwrite file [Dxx.FdcErr.code .ok] (info.len * 256 + sectors) else file
          let info := { info with map := info.map.set sectors (Dxx.FdcErr.code .ok) }
          (0, { image with file, gcr, errorInfo := some info })
        else (0, { image with file, gcr })

inductive Call
  | halfTrack (ht : Nat) (raw : DiskTrack)
  | sector (buf : Block) (t s : Nat) (errorByteWritten : Bool)

/-- What a call returns and leaves. -/
def Call.apply (hasGcr : Bool) (image : DiskImage) : Call → Option (Int × DiskImage)
  | .halfTrack ht raw => fsimageDxxWriteHalfTrack image ht raw
  | .sector buf t s errorByteWritten => fsimageDxxWriteSector hasGcr image buf t s errorByteWritten

/-- The data a call has for a block: of a half track what the drive reads on it. -/
def Call.writes (image : DiskImage) (block : Nat) : Call → Option Bytes
  | .halfTrack ht raw =>
    match checkSector image.toShape (ht / 2) 0 with
    | .error _ => none
    | .ok sectors =>
      if sectors ≤ block ∧ block < sectors + sectorPerTrack image.type (ht / 2) then
        (gcrReadSector raw (List.replicate 256 0) (UInt8.ofNat (block - sectors))).map (·.2)
      else none
  | .sector buf t s _ => if checkSector image.toShape t s = .ok block then some buf.val else none

/-- The image after calls that all return 0, each of them made where `Ok` allows it, and the data
last written to each block. -/
inductive Run (hasGcr : Bool) (Ok : DiskImage → Call → Prop) (image₀ : DiskImage) :
    DiskImage → (Nat → Option Bytes) → Prop
  | start : Run hasGcr Ok image₀ image₀ fun _ => none
  | call {image image' : DiskImage} {written : Nat → Option Bytes} {c : Call} :
      Run hasGcr Ok image₀ image written → Ok image c → c.apply hasGcr image = some (0, image') →
      Run hasGcr Ok image₀ image' fun block => (c.writes image block).or (written block)

/-- The number of blocks `fsimage-probe.c` expects on so many tracks. -/
def numBlocks (type : ImageType) (tracks : Nat) : Nat :=
  if type = .d81 then tracks * 40 else sumSectors (sectorPerTrack type) tracks

/-- The images `fsimage_probe` hands out for this module's functions: it looks for a map behind the
blocks of three types and reads it. -/
structure Attached (image : DiskImage) : Prop where
  type : image.type ≠ .g64 ∧ image.type ≠ .g71 ∧ image.type ≠ .p64
  map : ∀ info ∈ image.errorInfo,
    (image.type = .d64 ∨ image.type = .d71 ∨ image.type = .d81) ∧
      info.len = numBlocks image.type image.tracks ∧ info.dirty = false ∧
      fpread image.file info.len (info.len * 256) = some info.map

/-- The file has the map at its place, and below it in each block what was last written to it, or
what the image had there. -/
structure InStep (image₀ image : DiskImage) (written : Nat → Option Bytes) : Prop where
  map : ∀ info ∈ image.errorInfo, fpread image.file info.len (info.len * 256) = some info.map
  data : ∀ block, (∀ info ∈ image.errorInfo, block < info.len) → ∀ data,
    (written block).or (fpread image₀.file 256 (block * 256)) = some data →
      fpread image.file 256 (block * 256) = some data

/-- The calls that keep the map in step: on an image with a map, no track beyond the current number
of tracks, and no byte of the map that the file does not take. -/
def Meets (image : DiskImage) : Call → Prop
  | .halfTrack ht _ => ∀ _info ∈ image.errorInfo, ht / 2 ≤ image.tracks
  | .sector _ t s errorByteWritten => ∀ info ∈ image.errorInfo, t ≤ image.tracks ∧
    (errorByteWritten ∨ ∀ block, checkSector image.toShape t s = .ok block →
      info.map.getD block 0 = Dxx.FdcErr.code .ok)

/-! ## Blocks -/

/-- The types whose tracks have GCR sectors. -/
def Zoned (type : ImageType) : Prop := IsDxx type ∨ type = .d80 ∨ type = .d82

theorem sumSectors_congr {f g : Nat → Nat} {n : Nat} (h : ∀ i < n, f (i + 1) = g (i + 1)) :
    sumSectors f n = sumSectors g n := by
  induction n with
  | zero => rfl
  | succ n ih => rw [sumSectors, sumSectors, ih fun i hi => h i (by omega), h n (by omega)]

theorem sumSectors_add (f : Nat → Nat) (m n : Nat) :
    sumSectors f (m + n) = sumSectors f m + sumSectors (fun i => f (m + i)) n := by
  induction n with
  | zero => rfl
  | succ n ih =>
    rw [← Nat.add_assoc, sumSectors, sumSectors, ih, Nat.add_assoc, Nat.add_assoc m n 1]

theorem sectorPerTrack_d82_first {t : Nat} (h : t ≤ 77) : sectorPerTrack .d82 t = sectorPerTrack .d80 t := by
  simp only [sectorPerTrack, speedMap, if_neg (show ¬ t > 77 by omega)]

theorem sectorPerTrack_d82_second {t : Nat} (h : 77 < t) :
    sectorPerTrack .d82 t = sectorPerTrack .d80 (t - 77) := by
  simp only [sectorPerTrack, speedMap, if_pos h]

theorem sumSectors_d82_first {t : Nat} (h : t ≤ 77) :
    sumSectors (sectorPerTrack .d82) t = sumSectors (sectorPerTrack .d80) t :=
  sumSectors_congr fun _ hi => sectorPerTrack_d82_first (by omega)

theorem sumSectors_d82_second (n : Nat) : sumSectors (sectorPerTrack .d82) (77 + n) =
    2083 + sumSectors (sectorPerTrack .d80) n := by
  have hfirst : sumSectors (sectorPerTrack .d82) 77 = 2083 := by decide +kernel
  rw [sumSectors_add, hfirst]
  congr 1
  apply sumSectors_congr
  intro i _
  rw [sectorPerTrack_d82_second (by omega), Nat.add_sub_cancel_left]

theorem checkZoned_ok {f : Nat → Nat} {base t s b : Nat} (h : checkZoned f base t s = .ok b) :
    s < f t ∧ b = base + sumSectors f (t - 1) + s := by
  unfold checkZoned at h
  split at h
  · cases h
  · cases h
    exact ⟨by omega, rfl⟩

theorem checkSector_cases (image : Shape) (t s : Nat) :
    (∃ e, checkSector image t s = .error e) ∨ ∃ b, checkSector image t s = .ok b := by
  cases checkSector image t s with
  | error e => exact Or.inl ⟨e, rfl⟩
  | ok b => exact Or.inr ⟨b, rfl⟩

theorem checkSector_pos {image : Shape} (htype : image.type ≠ .d90) {t s b : Nat}
    (h : checkSector image t s = .ok b) : 1 ≤ t := by
  unfold checkSector at h
  rcases Nat.lt_or_ge t 1 with h0 | h0
  · rw [if_pos ⟨htype, h0⟩] at h
    cases h
  · exact h0

/-- Where a sector of such a type is, as far as the type has it. -/
theorem checkSector_zoned {image : Shape} (hz : Zoned image.type) {t s b : Nat}
    (h : checkSector image t s = .ok b) :
    1 ≤ t ∧ s < sectorPerTrack image.type t ∧
      b = sumSectors (sectorPerTrack image.type) (t - 1) + s := by
  have h1 := checkSector_pos
    (by rcases hz with (hx | hx | hx) | hx | hx <;> rw [hx] <;> decide) h
  refine ⟨h1, ?_⟩
  obtain ⟨type, tracks, sectors⟩ := image
  unfold checkSector at h
  simp only at *
  rw [if_neg (by omega)] at h
  rcases hz with (rfl | rfl | rfl) | rfl | rfl <;> simp only at h <;> split at h
  any_goals cases h
  · simpa using checkZoned_ok h
  · simpa using checkZoned_ok h
  · split at h
    · have hok := checkZoned_ok h
      rwa [← sectorPerTrack_d71 (by omega), show t - 35 - 1 = t - 1 - 35 by omega,
        ← sumSectors_second_side (by omega) (by omega)] at hok
    · rw [sectorPerTrack_d71_first (by omega), sumSectors_d71_first (by omega)]
      simpa using checkZoned_ok h
  · simpa using checkZoned_ok h
  · split at h
    · have hok := checkZoned_ok h
      rwa [← sectorPerTrack_d82_second (by omega), ← sumSectors_d82_second,
        show 77 + (t - 77 - 1) = t - 1 by omega] at hok
    · rw [sectorPerTrack_d82_first (by omega), sumSectors_d82_first (by omega)]
      simpa using checkZoned_ok h

/-- Only these types have sectors in the drive's sense. -/
theorem zoned_of_sectorPerTrack {type : ImageType} (htype : type ≠ .g64 ∧ type ≠ .g71 ∧ type ≠ .p64)
    {t : Nat} (h : sectorPerTrack type t ≠ 0) : Zoned type := by
  obtain ⟨h1, h2, h3⟩ := htype
  unfold Zoned IsDxx
  cases type <;> first | contradiction | exact absurd rfl h | simp

theorem numBlocks_zoned {type : ImageType} (hz : Zoned type) (tracks : Nat) :
    numBlocks type tracks = sumSectors (sectorPerTrack type) tracks := by
  unfold numBlocks
  rw [if_neg]
  rcases hz with (rfl | rfl | rfl) | rfl | rfl <;> decide

/-- The sectors of a track the image has are among its blocks. -/
theorem track_numBlocks {image : Shape} (hz : Zoned image.type) {t b : Nat}
    (h : checkSector image t 0 = .ok b) (ht : t ≤ image.tracks) :
    b + sectorPerTrack image.type t ≤ numBlocks image.type image.tracks := by
  obtain ⟨h1, -, rfl⟩ := checkSector_zoned hz h
  obtain ⟨n, rfl⟩ : ∃ n, t = n + 1 := ⟨t - 1, by omega⟩
  rw [numBlocks_zoned hz]
  exact Nat.le_trans (Nat.le_of_eq rfl) (sumSectors_le ht)

theorem sector_numBlocks {image : Shape} (hz : Zoned image.type ∨ image.type = .d81) {t s b : Nat}
    (h : checkSector image t s = .ok b) (ht : t ≤ image.tracks) :
    b < numBlocks image.type image.tracks := by
  rcases hz with hz | hd81
  · obtain ⟨h1, hs, rfl⟩ := checkSector_zoned hz h
    rw [numBlocks_zoned hz]
    have hlt := sumSectors_lt h1 (show t < image.tracks + 1 by omega) hs
    rwa [Nat.add_sub_cancel] at hlt
  · have h1 := checkSector_pos (by rw [hd81]; decide) h
    obtain ⟨type, tracks, sectors⟩ := image
    simp only at hd81 ht
    subst hd81
    unfold checkSector at h
    rw [if_neg (by omega)] at h
    simp only at h
    split at h
    · cases h
    · split at h
      · cases h
      · cases h
        simp only [numBlocks, if_pos]
        omega

/-! ## Reading a track back -/

theorem decodeLoop_length (raw : DiskTrack) (shift : Nat) (n offset : Nat) (b : UInt8) :
    (gcrDecodeBlock.loop raw shift n offset b).length = 4 * n := by
  induction n generalizing offset b with
  | zero => rfl
  | succ n ih =>
    rw [gcrDecodeBlock.loop, List.length_append, ih]
    simp only [gcrDecodeBlock.bytes, gcrConvertGcrTo4bytes, gcrConvertGcrTo4bytes.loop,
      List.length_cons, List.length_nil]
    omega

/-- A sector is filled or left alone. -/
theorem gcrReadSector_length {raw : DiskTrack} {data out : Bytes} {sector : UInt8} {rf : FdcErr}
    (hdata : data.length = 256) (h : gcrReadSector raw data sector = some (rf, out)) :
    out.length = 256 := by
  have hblock : ∀ p, (((gcrDecodeBlock raw p 65).drop 1).take 256).length = 256 := by
    intro p
    rw [List.length_take, List.length_drop, gcrDecodeBlock, decodeLoop_length]
    rfl
  unfold gcrReadSector at h
  split at h
  · cases h
  · cases h
    exact hdata
  · split at h
    · cases h
      exact hdata
    · simp only at h
      split at h
      · cases h
        exact hblock _
      · split at h
        · cases h
          exact hblock _
        · cases h
          exact hblock _

section
variable {image : DiskImage} {raw : DiskTrack} {sectors n sector : Nat} {buffer : Bytes}
  {created created' : Bool} {info' : Option ErrorInfo}

/-- The buffer has each sector at its place. -/
theorem readBack_buffer {info : Option ErrorInfo}
    (h : readBack image raw sectors n sector info created = some (buffer, info', created')) :
    buffer.length = n * 256 ∧ ∀ k < n, ∃ rf data,
      gcrReadSector raw (List.replicate 256 0) (UInt8.ofNat (sector + k)) = some (rf, data) ∧
      data.length = 256 ∧ HeldAt buffer (k * 256) data := by
  induction n generalizing sector info created buffer with
  | zero =>
    cases h
    exact ⟨rfl, fun k hk => absurd hk (Nat.not_lt_zero k)⟩
  | succ n ih =>
    rw [readBack] at h
    split at h
    · cases h
    · rename_i rf data hread
      have hlen := gcrReadSector_length List.length_replicate hread
      simp only [Option.map_eq_some_iff] at h
      obtain ⟨⟨rest, r⟩, hrest, heq⟩ := h
      obtain ⟨rfl, rfl⟩ := Prod.mk.inj heq
      obtain ⟨hbuf, hall⟩ := ih hrest
      refine ⟨by rw [List.length_append, hlen, hbuf]; omega, ?_⟩
      intro k hk
      cases k with
      | zero =>
        refine ⟨rf, data, hread, hlen, ?_⟩
        intro i hi
        rw [Nat.zero_mul, Nat.zero_add, List.getElem?_append_left hi]
      | succ k =>
        obtain ⟨rf', data', hread', hlen', hheld⟩ := hall k (by omega)
        refine ⟨rf', data', by rwa [show sector + (k + 1) = sector + 1 + k by omega], hlen', ?_⟩
        intro i hi
        rw [← hheld i hi, List.getElem?_append_right (by omega)]
        congr 1
        omega

/-- A sector's error put into the map. -/
def note (info : ErrorInfo) (i : Nat) (rf : FdcErr) : ErrorInfo :=
  if info.map.getD i 0 ≠ Dxx.FdcErr.code rf then
    { info with map := info.map.set i (Dxx.FdcErr.code rf), dirty := true }
  else info

@[simp] theorem note_len (info : ErrorInfo) (i : Nat) (rf : FdcErr) : (note info i rf).len = info.len := by
  unfold note
  split <;> rfl

@[simp] theorem note_map_length (info : ErrorInfo) (i : Nat) (rf : FdcErr) :
    (note info i rf).map.length = info.map.length := by
  unfold note
  split
  · exact List.length_set
  · rfl

theorem note_other {info : ErrorInfo} {i j : Nat} (rf : FdcErr) (h : j ≠ i) :
    (note info i rf).map[j]? = info.map[j]? := by
  unfold note
  split
  · exact List.getElem?_set_ne (Ne.symm h)
  · rfl

theorem note_clean {info : ErrorInfo} {i : Nat} {rf : FdcErr} (h : (note info i rf).dirty = false) :
    info.dirty = false ∧ (note info i rf).map = info.map := by
  unfold note at *
  split at h
  · cases h
  · rename_i hsame
    exact ⟨h, by rw [if_neg hsame]⟩

/-- The sector at hand, and the map for the others. -/
theorem readBack_succ {info : ErrorInfo} (h : readBack image raw sectors (n + 1) sector (some info) created =
      some (buffer, info', created')) :
    ∃ rf rest, readBack image raw sectors n (sector + 1) (some (note info (sectors + sector) rf)) created =
      some (rest, info', created') := by
  rw [readBack] at h
  split at h
  · cases h
  · rename_i rf data hread
    simp only [Option.map_eq_some_iff] at h
    obtain ⟨⟨rest, r⟩, hrest, heq⟩ := h
    obtain ⟨-, rfl⟩ := Prod.mk.inj heq
    refine ⟨rf, rest, ?_⟩
    cases rf <;> exact hrest

/-- A map keeps its length, and its bytes for other tracks; where it stays clean, all of them. -/
theorem readBack_some {info : ErrorInfo}
    (h : readBack image raw sectors n sector (some info) created = some (buffer, info', created')) :
    ∃ map dirty, info' = some ⟨map, info.len, dirty⟩ ∧ created' = created ∧
      map.length = info.map.length ∧
      (∀ i, i < sectors + sector ∨ sectors + sector + n ≤ i → map[i]? = info.map[i]?) ∧
      (dirty = false → info.dirty = false ∧ map = info.map) := by
  induction n generalizing sector info buffer with
  | zero =>
    cases h
    exact ⟨info.map, info.dirty, rfl, rfl, rfl, fun _ _ => rfl, fun hd => ⟨hd, rfl⟩⟩
  | succ n ih =>
    obtain ⟨rf, rest, hrest⟩ := readBack_succ h
    obtain ⟨map, dirty, hinfo, hcr, hlen, hout, hclean⟩ := ih hrest
    refine ⟨map, dirty, by rw [hinfo, note_len], hcr, by rw [hlen, note_map_length], ?_, ?_⟩
    · intro i hi
      rw [hout i (by omega), note_other rf (by omega)]
    · intro hd
      obtain ⟨hd₁, hmap₁⟩ := hclean hd
      obtain ⟨hd₂, hmap₂⟩ := note_clean hd₁
      exact ⟨hd₂, hmap₁.trans hmap₂⟩

/-- A map made on the way is one for all tracks, and not written yet. -/
theorem readBack_none (h : readBack image raw sectors n sector none false = some (buffer, info', created')) :
    info' = none ∨ created' = true ∧ ∃ info nl, info' = some info ∧
      checkSector image.toShape image.tracks 0 = .ok nl ∧
      info.len = nl + sectorPerTrack image.type image.tracks ∧ info.map.length = info.len ∧
      info.dirty = true := by
  induction n generalizing sector buffer with
  | zero =>
    cases h
    exact Or.inl rfl
  | succ n ih =>
    rw [readBack] at h
    split at h
    · cases h
    · rename_i rf data hread
      simp only [Option.map_eq_some_iff] at h
      obtain ⟨⟨rest, r⟩, hrest, heq⟩ := h
      obtain ⟨-, rfl⟩ := Prod.mk.inj heq
      by_cases hrf : rf = .ok
      · subst hrf
        exact ih hrest
      · rcases checkSector_cases image.toShape image.tracks 0 with ⟨e, hcheck⟩ | ⟨nl, hcheck⟩
        · refine @ih (sector + 1) rest ?_
          cases rf <;> first | exact absurd rfl hrf | simpa only [hcheck, Option.map_none] using hrest
        · right
          have hmade : readBack image raw sectors n (sector + 1)
              (some (note ⟨List.replicate (nl + sectorPerTrack image.type image.tracks) 1,
                nl + sectorPerTrack image.type image.tracks, true⟩ (sectors + sector) rf)) true =
                some (rest, info', created') := by
            unfold note
            cases rf <;> first
              | exact absurd rfl hrf
              | simpa only [hcheck, Option.map_some] using hrest
          obtain ⟨map, dirty, hinfo, hcr, hlen, -, hclean⟩ := readBack_some hmade
          refine ⟨hcr, _, nl, hinfo, hcheck, note_len _ _ _, ?_, ?_⟩
          · rw [hlen, note_map_length, note_len]
            exact List.length_replicate
          · cases dirty with
            | true => rfl
            | false =>
              have := (note_clean (hclean rfl).1).1
              cases this

end

/-! ## A half track -/

theorem fpwrite_eq (file buf : Bytes) (off : Nat) : fpwrite file buf off = overwrite file off buf := by
  unfold fpwrite overwrite put
  rcases Nat.le_total off file.length with h | h
  · rw [Nat.sub_eq_zero_of_le h, List.replicate_zero, List.append_nil, List.append_nil]
  · have hlen : (file ++ List.replicate (off - file.length) 0).length = off := by
      rw [List.length_append, List.length_replicate]
      omega
    rw [List.take_of_length_le (by omega), List.drop_eq_nil_of_le (by omega),
      List.take_of_length_le h, List.drop_eq_nil_of_le (show file.length ≤ _ by omega)]

/-- What a successful write of a half track does to the file and the map, when it does not grow an
image that has one. -/
inductive TrackWritten (image : DiskImage) (raw : DiskTrack) (ht : Nat) (image' : DiskImage)
    (sectors : Nat) (file : Bytes) : Prop
  | noMap : image.errorInfo = none → image'.errorInfo = none → image'.file = file →
      TrackWritten image raw ht image' sectors file
  | created {info : ErrorInfo} {nl : Nat} : image.errorInfo = none → image'.errorInfo = some info →
      info.dirty = false → info.map.length = info.len →
      checkSector image'.toShape image'.tracks 0 = .ok nl →
      info.len = nl + sectorPerTrack image.type image'.tracks →
      image'.file = fpwrite file info.map (info.len * 256) →
      TrackWritten image raw ht image' sectors file
  | clean {info : ErrorInfo} : image.errorInfo = some info → image'.tracks = image.tracks →
      image'.errorInfo = some { info with dirty := false } → image'.file = file →
      TrackWritten image raw ht image' sectors file
  | changed {info : ErrorInfo} {map : Bytes} : image.errorInfo = some info →
      image'.tracks = image.tracks → image'.errorInfo = some ⟨map, info.len, false⟩ →
      map.length = info.map.length →
      (∀ i, i < sectors ∨ sectors + sectorPerTrack image.type (ht / 2) ≤ i → map[i]? = info.map[i]?) →
      image'.file = fpwrite file ((map.drop sectors).take (sectorPerTrack image.type (ht / 2)))
        (info.len * 256 + sectors) →
      TrackWritten image raw ht image' sectors file

theorem halfTrack_cases {image image' : DiskImage} {raw : DiskTrack} {ht : Nat}
    (h : fsimageDxxWriteHalfTrack image ht raw = some (0, image'))
    (hfit : ∀ _info ∈ image.errorInfo, ht / 2 ≤ image.tracks) :
    ∃ sectors buffer, checkSector image.toShape (ht / 2) 0 = .ok sectors ∧
      sectorPerTrack image.type (ht / 2) ≠ 0 ∧ image'.type = image.type ∧
      (buffer.length = sectorPerTrack image.type (ht / 2) * 256 ∧
        ∀ k < sectorPerTrack image.type (ht / 2), ∃ rf data,
          gcrReadSector raw (List.replicate 256 0) (UInt8.ofNat (0 + k)) = some (rf, data) ∧
            data.length = 256 ∧ HeldAt buffer (k * 256) data) ∧
      TrackWritten image raw ht image' sectors (fpwrite image.file buffer (sectors * 256)) := by
  unfold fsimageDxxWriteHalfTrack at h
  rcases checkSector_cases image.toShape (ht / 2) 0 with ⟨e, hcheck⟩ | ⟨sectors, hcheck⟩
  · simp only [hcheck] at h
    cases h
  simp only [hcheck] at h
  cases hinfo : image.errorInfo with
  | none =>
    -- the image may grow, but there is no map to grow with it
    obtain ⟨grown, hgrown, htype, hfile, hnone⟩ : ∃ grown : DiskImage,
        (if ht / 2 > image.tracks then
          { image with
            tracks := ht / 2
            errorInfo := image.errorInfo.map fun info =>
              info.grow (sectors + sectorPerTrack image.type (ht / 2)) }
        else image) = grown ∧ grown.type = image.type ∧ grown.file = image.file ∧
          grown.errorInfo = none := by
      split
      · exact ⟨_, rfl, rfl, rfl, by rw [hinfo]; rfl⟩
      · exact ⟨_, rfl, rfl, rfl, hinfo⟩
    rw [hgrown] at h
    split at h
    · cases h
    · rename_i buffer info created hread
      have hbuf := readBack_buffer hread
      rw [hnone] at hread
      split at h
      · cases h
      · rename_i hsome
        refine ⟨sectors, buffer, hcheck, hsome, ?_⟩
        rcases readBack_none hread with rfl | ⟨rfl, made, nl, rfl, hnl, hlen, hmap, hdirty⟩
        · cases h
          exact ⟨htype, hbuf, .noMap hinfo hnone (by rw [hfile])⟩
        · simp only [hdirty, if_true, Option.some.injEq, Prod.mk.injEq, true_and] at h
          subst h
          refine ⟨htype, hbuf, .created hinfo rfl rfl hmap hnl (by rw [hlen, htype]) ?_⟩
          rw [List.take_of_length_le (by rw [hmap]), hfile]
  | some info =>
    rw [if_neg (by have := hfit info hinfo; omega)] at h
    split at h
    · cases h
    · rename_i buffer info' created hread
      have hbuf := readBack_buffer hread
      rw [hinfo] at hread
      split at h
      · cases h
      · rename_i hsome
        refine ⟨sectors, buffer, hcheck, hsome, ?_⟩
        obtain ⟨map, dirty, rfl, rfl, hlen, hout, hclean⟩ := readBack_some hread
        cases dirty with
        | false =>
          simp only [Bool.false_eq_true, if_false, Option.some.injEq, Prod.mk.injEq, true_and] at h
          subst h
          obtain ⟨hd, rfl⟩ := hclean rfl
          exact ⟨rfl, hbuf, .clean hinfo rfl rfl rfl⟩
        | true =>
          simp only [if_true, Bool.false_eq_true, if_false, Option.some.injEq, Prod.mk.injEq, true_and] at h
          subst h
          exact ⟨rfl, hbuf, .changed hinfo rfl rfl hlen hout rfl⟩

/-! ## What the calls keep -/

theorem heldAt_of_fpread {file data : Bytes} {num off : Nat} (h : fpread file num off = some data) :
    data.length = num ∧ HeldAt file off data := by
  unfold fpread at h
  split at h
  · cases h
    have hlen : ((file.drop off).take num).length = num := by
      rw [List.length_take, List.length_drop]
      omega
    refine ⟨hlen, ?_⟩
    intro i hi
    rw [List.getElem?_take_of_lt (by omega), List.getElem?_drop]
  · cases h

theorem fpread_of_heldAt {file data : Bytes} {num off : Nat} (hlen : data.length = num)
    (hoff : 0 < num ∨ off = 0) (h : HeldAt file off data) : fpread file num off = some data := by
  subst hlen
  have hin : off + data.length ≤ file.length := by
    rcases Nat.eq_zero_or_pos data.length with h0 | h0
    · omega
    · have := h.inside (show data.length - 1 < data.length by omega)
      omega
  unfold fpread
  rw [if_pos hin, h.take_drop]

/-- The map is one for the tracks of the image and stands behind the blocks, and they hold what they
should. -/
structure Good (image₀ image : DiskImage) (written : Nat → Option Bytes) : Prop where
  type : image.type ≠ .g64 ∧ image.type ≠ .g71 ∧ image.type ≠ .p64
  map : ∀ info ∈ image.errorInfo, (Zoned image.type ∨ image.type = .d81) ∧
    info.len = numBlocks image.type image.tracks ∧ info.dirty = false ∧
    info.map.length = info.len ∧ HeldAt image.file (info.len * 256) info.map
  data : ∀ block, (∀ info ∈ image.errorInfo, block < info.len) → ∀ data,
    (written block).or (fpread image₀.file 256 (block * 256)) = some data →
      data.length = 256 ∧ HeldAt image.file (block * 256) data

section
variable {image₀ image image' : DiskImage} {written : Nat → Option Bytes}

theorem good_start (h : Attached image₀) : Good image₀ image₀ fun _ => none := by
  refine ⟨h.type, ?_, ?_⟩
  · intro info hinfo
    obtain ⟨htype, hlen, hdirty, hmap⟩ := h.map info hinfo
    obtain ⟨hmaplen, hheld⟩ := heldAt_of_fpread hmap
    refine ⟨?_, hlen, hdirty, hmaplen, hheld⟩
    rcases htype with htype | htype | htype
    · exact Or.inl (Or.inl (Or.inl htype))
    · exact Or.inl (Or.inl (Or.inr (Or.inr htype)))
    · exact Or.inr htype
  · intro block _ data hdata
    exact heldAt_of_fpread hdata

theorem Good.inStep (h : Good image₀ image written) : InStep image₀ image written := by
  constructor
  · intro info hinfo
    obtain ⟨-, -, -, hlen, hheld⟩ := h.map info hinfo
    rcases Nat.eq_zero_or_pos info.len with h0 | h0
    · exact fpread_of_heldAt hlen (Or.inr (by rw [h0, Nat.zero_mul])) hheld
    · exact fpread_of_heldAt hlen (Or.inl h0) hheld
  · intro block hblock data hdata
    obtain ⟨hlen, hheld⟩ := h.data block hblock data hdata
    exact fpread_of_heldAt hlen (Or.inl (by decide)) hheld

/-- Bytes written behind a block leave it alone. -/
theorem held_behind {file buf data : Bytes} {block len off : Nat} (h : HeldAt file (block * 256) data)
    (hlen : data.length = 256) (hblock : block < len) (hoff : len * 256 ≤ off) :
    HeldAt (fpwrite file buf off) (block * 256) data := by
  have hend := Nat.mul_le_mul_right 256 (show block + 1 ≤ len from hblock)
  rw [Nat.succ_mul] at hend
  rw [fpwrite_eq]
  exact h.overwrite (Or.inr (by rw [hlen]; exact Nat.le_trans hend hoff))

/-- The blocks of a track that is written, and the others. -/
theorem track_data {raw : DiskTrack} {ht sectors : Nat} {buffer : Bytes}
    (hcheck : checkSector image.toShape (ht / 2) 0 = .ok sectors)
    (hbuf : buffer.length = sectorPerTrack image.type (ht / 2) * 256 ∧
      ∀ k < sectorPerTrack image.type (ht / 2), ∃ rf data,
        gcrReadSector raw (List.replicate 256 0) (UInt8.ofNat (0 + k)) = some (rf, data) ∧
          data.length = 256 ∧ HeldAt buffer (k * 256) data)
    {block : Nat} {data : Bytes} {old : Option Bytes}
    (hold : ∀ data, old = some data → data.length = 256 ∧ HeldAt image.file (block * 256) data)
    (h : ((Call.halfTrack ht raw).writes image block).or old = some data) :
    data.length = 256 ∧ HeldAt (fpwrite image.file buffer (sectors * 256)) (block * 256) data := by
  obtain ⟨hlen, hall⟩ := hbuf
  rw [fpwrite_eq]
  simp only [Call.writes, hcheck] at h
  split at h
  · rename_i hin
    obtain ⟨k, rfl⟩ := Nat.exists_eq_add_of_le hin.1
    obtain ⟨rf, data', hread, hlen', hheld⟩ := hall k (by omega)
    rw [Nat.zero_add] at hread
    rw [Nat.add_sub_cancel_left, hread, Option.map_some, Option.some_or] at h
    cases h
    refine ⟨hlen', ?_⟩
    intro i hi
    have hinside := hheld.inside hi
    rw [Nat.add_mul, Nat.add_assoc, overwrite_new (Nat.le_add_right _ _)
      (Nat.add_lt_add_left hinside _), Nat.add_sub_cancel_left, hheld i hi]
  · rename_i hout
    rw [Option.none_or] at h
    obtain ⟨hlen', hheld⟩ := hold data h
    refine ⟨hlen', hheld.overwrite ?_⟩
    rw [hlen, hlen', ← Nat.add_mul, ← Nat.succ_mul]
    rcases Nat.lt_or_ge block sectors with hlt | hge
    · exact Or.inr (Nat.mul_le_mul_right 256 hlt)
    · exact Or.inl (Nat.mul_le_mul_right 256 (by omega))

theorem halfTrack_good {raw : DiskTrack} {ht : Nat} (hg : Good image₀ image written)
    (hfit : ∀ _info ∈ image.errorInfo, ht / 2 ≤ image.tracks)
    (h : fsimageDxxWriteHalfTrack image ht raw = some (0, image')) :
    Good image₀ image' fun block => ((Call.halfTrack ht raw).writes image block).or (written block) := by
  obtain ⟨sectors, buffer, hcheck, hsome, htype, hbuf, hw⟩ := halfTrack_cases h hfit
  have hz := zoned_of_sectorPerTrack hg.type hsome
  have hdata : ∀ block, (∀ info ∈ image.errorInfo, block < info.len) → ∀ data,
      (((Call.halfTrack ht raw).writes image block).or (written block)).or
        (fpread image₀.file 256 (block * 256)) = some data →
      data.length = 256 ∧ HeldAt (fpwrite image.file buffer (sectors * 256)) (block * 256) data := by
    intro block hblock data hd
    rw [Option.or_assoc] at hd
    exact track_data hcheck hbuf (hg.data block hblock) hd
  cases hw with
  | noMap hnone hnone' hfile =>
    refine ⟨by rw [htype]; exact hg.type, by rw [hnone']; simp, ?_⟩
    intro block _ data hd
    rw [hfile]
    exact hdata block (by rw [hnone]; simp) data hd
  | created hnone hinfo' hdirty hmap hnl hlen hfile =>
    rename_i info nl
    have hz' : Zoned image'.type := by rwa [htype]
    refine ⟨by rw [htype]; exact hg.type, ?_, ?_⟩
    · intro info' hmem
      rw [hinfo'] at hmem
      cases hmem
      refine ⟨Or.inl hz', ?_, hdirty, hmap, by rw [hfile, fpwrite_eq]; exact heldAt_overwrite⟩
      obtain ⟨h1, -, hb⟩ := checkSector_zoned hz' hnl
      obtain ⟨n, hn⟩ : ∃ n, image'.tracks = n + 1 := ⟨image'.tracks - 1, by omega⟩
      rw [numBlocks_zoned hz', hlen, hb, ← htype, hn, Nat.add_sub_cancel, sumSectors, Nat.add_zero]
    · intro block hblock data hd
      obtain ⟨hdlen, hheld⟩ := hdata block (by rw [hnone]; simp) data hd
      rw [hfile]
      exact ⟨hdlen, held_behind hheld hdlen (hblock info (by rw [hinfo']; rfl)) (Nat.le_refl _)⟩
  | clean hinfo htracks hinfo' hfile =>
    rename_i info
    obtain ⟨hzd, hlen, hdirty, hmap, hheld⟩ := hg.map info (by rw [hinfo]; rfl)
    have hin := track_numBlocks hz hcheck (hfit info (by rw [hinfo]; rfl))
    refine ⟨by rw [htype]; exact hg.type, ?_, ?_⟩
    · intro info' hmem
      rw [hinfo'] at hmem
      cases hmem
      refine ⟨by rwa [htype], by rw [htype, htracks]; exact hlen, rfl, hmap, ?_⟩
      rw [hfile, fpwrite_eq]
      exact hheld.overwrite (Or.inl (by rw [hbuf.1]; omega))
    · intro block hblock data hd
      rw [hfile]
      refine hdata block ?_ data hd
      intro info' hmem
      rw [hinfo] at hmem
      cases hmem
      exact hblock { info with dirty := false } (by rw [hinfo']; rfl)
  | changed hinfo htracks hinfo' hmaplen hout hfile =>
    rename_i info map
    obtain ⟨hzd, hlen, hdirty, hmap, hheld⟩ := hg.map info (by rw [hinfo]; rfl)
    have hin := track_numBlocks hz hcheck (hfit info (by rw [hinfo]; rfl))
    have hpart : ((map.drop sectors).take (sectorPerTrack image.type (ht / 2))).length =
        sectorPerTrack image.type (ht / 2) := by
      rw [List.length_take, List.length_drop]
      omega
    refine ⟨by rw [htype]; exact hg.type, ?_, ?_⟩
    · intro info' hmem
      rw [hinfo'] at hmem
      cases hmem
      refine ⟨by rwa [htype], by rw [htype, htracks]; exact hlen, rfl, hmaplen.trans hmap, ?_⟩
      have hold : HeldAt (fpwrite image.file buffer (sectors * 256)) (info.len * 256) info.map := by
        rw [fpwrite_eq]
        exact hheld.overwrite (Or.inl (by rw [hbuf.1]; omega))
      intro i hi
      simp only at hi ⊢
      rw [hfile, fpwrite_eq]
      by_cases hchanged : sectors ≤ i ∧ i < sectors + sectorPerTrack image.type (ht / 2)
      · rw [overwrite_new (by omega) (by omega), List.getElem?_take_of_lt (by omega),
          List.getElem?_drop]
        congr 1
        omega
      · have hmem : i < info.map.length := by omega
        rw [overwrite_old (hold.inside hmem) (by omega), hold i hmem, hout i (by omega)]
    · intro block hblock data hd
      have hbl := hblock _ (by rw [hinfo']; rfl)
      obtain ⟨hdlen, hheld'⟩ := hdata block
        (fun info' hmem => by rw [hinfo] at hmem; cases hmem; exact hbl) data hd
      rw [hfile]
      exact ⟨hdlen, held_behind hheld' hdlen hbl (Nat.le_add_right _ _)⟩

/-! ## A sector -/

/-- What a successful write of a sector does to the file and the map. -/
inductive SectorWritten (image image' : DiskImage) (b : Nat) (file : Bytes) (taken : Bool) : Prop
  | noMap : image.errorInfo = none → image'.errorInfo = none → image'.file = file →
      SectorWritten image image' b file taken
  | good {info : ErrorInfo} : image.errorInfo = some info → info.map.getD b 0 = Dxx.FdcErr.code .ok →
      image'.errorInfo = some info → image'.file = file → SectorWritten image image' b file taken
  | changed {info : ErrorInfo} : image.errorInfo = some info →
      info.map.getD b 0 ≠ Dxx.FdcErr.code .ok →
      image'.errorInfo = some { info with map := info.map.set b (Dxx.FdcErr.code .ok) } →
      image'.file = (if taken then fpwrite file [Dxx.FdcErr.code .ok] (info.len * 256 + b) else file) →
      SectorWritten image image' b file taken

theorem sector_cases {hasGcr taken : Bool} {buf : Block} {t s : Nat}
    (h : fsimageDxxWriteSector hasGcr image buf t s taken = some (0, image')) :
    ∃ b, checkSector image.toShape t s = .ok b ∧ image'.toShape = image.toShape ∧
      SectorWritten image image' b (fpwrite image.file buf.val (b * 256)) taken := by
  unfold fsimageDxxWriteSector at h
  rcases checkSector_cases image.toShape t s with ⟨e, hcheck⟩ | ⟨b, hcheck⟩
  · simp only [hcheck] at h
    cases h
  simp only [hcheck, Option.map_eq_some_iff] at h
  obtain ⟨gcr, -, h⟩ := h
  refine ⟨b, hcheck, ?_⟩
  cases hinfo : image.errorInfo with
  | none =>
    simp only [hinfo, Prod.mk.injEq, true_and] at h
    subst h
    exact ⟨rfl, .noMap hinfo rfl rfl⟩
  | some info =>
    simp only [hinfo] at h
    by_cases hbad : info.map.getD b 0 ≠ Dxx.FdcErr.code .ok
    · simp only [if_pos hbad, Prod.mk.injEq, true_and] at h
      subst h
      exact ⟨rfl, .changed hinfo hbad rfl rfl⟩
    · simp only [if_neg hbad, Prod.mk.injEq, true_and] at h
      subst h
      exact ⟨rfl, .good hinfo (Decidable.not_not.mp hbad) rfl rfl⟩

theorem sector_data {buf : Block} {t s b : Nat} {taken : Bool}
    (hcheck : checkSector image.toShape t s = .ok b) {block : Nat} {data : Bytes} {old : Option Bytes}
    (hold : ∀ data, old = some data → data.length = 256 ∧ HeldAt image.file (block * 256) data)
    (h : ((Call.sector buf t s taken).writes image block).or old = some data) :
    data.length = 256 ∧ HeldAt (fpwrite image.file buf.val (b * 256)) (block * 256) data := by
  rw [fpwrite_eq]
  simp only [Call.writes, hcheck, Except.ok.injEq] at h
  split at h
  · rename_i heq
    subst heq
    cases h
    exact ⟨buf.property, heldAt_overwrite⟩
  · rename_i hne
    obtain ⟨hlen, hheld⟩ := hold data h
    refine ⟨hlen, hheld.overwrite ?_⟩
    rw [buf.property, hlen, ← Nat.succ_mul, ← Nat.succ_mul]
    rcases Nat.lt_or_gt_of_ne hne with hlt | hgt
    · exact Or.inl (Nat.mul_le_mul_right 256 hlt)
    · exact Or.inr (Nat.mul_le_mul_right 256 hgt)

theorem sector_good {hasGcr taken : Bool} {buf : Block} {t s : Nat} (hg : Good image₀ image written)
    (hm : Meets image (.sector buf t s taken))
    (h : fsimageDxxWriteSector hasGcr image buf t s taken = some (0, image')) :
    Good image₀ image' fun block => ((Call.sector buf t s taken).writes image block).or (written block) := by
  obtain ⟨b, hcheck, hshape, hw⟩ := sector_cases h
  have htype : image'.type = image.type := congrArg Shape.type hshape
  have htracks : image'.tracks = image.tracks := congrArg Shape.tracks hshape
  have hdata : ∀ block, (∀ info ∈ image.errorInfo, block < info.len) → ∀ data,
      (((Call.sector buf t s taken).writes image block).or (written block)).or
        (fpread image₀.file 256 (block * 256)) = some data →
      data.length = 256 ∧ HeldAt (fpwrite image.file buf.val (b * 256)) (block * 256) data := by
    intro block hblock data hd
    rw [Option.or_assoc] at hd
    exact sector_data hcheck (hg.data block hblock) hd
  -- a sector of a track the image has is in front of the map
  have hmap : ∀ info ∈ image.errorInfo, b < info.len ∧
      HeldAt (fpwrite image.file buf.val (b * 256)) (info.len * 256) info.map := by
    intro info hinfo
    obtain ⟨hzd, hlen, -, -, hheld⟩ := hg.map info hinfo
    have hlt : b < info.len := by
      rw [hlen]
      exact sector_numBlocks hzd hcheck (hm info hinfo).1
    refine ⟨hlt, ?_⟩
    rw [fpwrite_eq]
    refine hheld.overwrite (Or.inl ?_)
    rw [buf.property, ← Nat.succ_mul]
    exact Nat.mul_le_mul_right 256 hlt
  cases hw with
  | noMap hnone hnone' hfile =>
    refine ⟨by rw [htype]; exact hg.type, by rw [hnone']; simp, ?_⟩
    intro block _ data hd
    rw [hfile]
    exact hdata block (by rw [hnone]; simp) data hd
  | good hinfo hok hinfo' hfile =>
    rename_i info
    refine ⟨by rw [htype]; exact hg.type, ?_, ?_⟩
    · intro info' hmem
      rw [hinfo', ← hinfo] at hmem
      obtain ⟨hzd, hlen, hdirty, hmaplen, -⟩ := hg.map info' hmem
      refine ⟨by rwa [htype], by rw [htype, htracks]; exact hlen, hdirty, hmaplen, ?_⟩
      rw [hfile]
      exact (hmap info' hmem).2
    · intro block hblock data hd
      rw [hfile]
      exact hdata block (by rw [hinfo, ← hinfo']; exact hblock) data hd
  | changed hinfo hbad hinfo' hfile =>
    rename_i info
    have hmem : info ∈ image.errorInfo := by rw [hinfo]; rfl
    obtain ⟨hzd, hlen, hdirty, hmaplen, -⟩ := hg.map info hmem
    obtain ⟨hlt, hheld⟩ := hmap info hmem
    have htaken : taken = true := by
      rcases (hm info hmem).2 with htaken | hall
      · exact htaken
      · exact absurd (hall b hcheck) hbad
    rw [htaken, if_pos rfl] at hfile
    refine ⟨by rw [htype]; exact hg.type, ?_, ?_⟩
    · intro info' hmem'
      rw [hinfo'] at hmem'
      cases hmem'
      refine ⟨by rwa [htype], by rw [htype, htracks]; exact hlen, hdirty,
        by simp only [List.length_set]; exact hmaplen, ?_⟩
      intro i hi
      simp only [List.length_set] at hi ⊢
      rw [hfile, fpwrite_eq]
      by_cases hib : i = b
      · subst hib
        rw [overwrite_new (Nat.le_refl _) (by simp), Nat.sub_self, List.getElem?_set_self hi]
        rfl
      · rw [overwrite_old (hheld.inside hi) (by simp only [List.length_cons, List.length_nil]; omega),
          hheld i hi, List.getElem?_set_ne (Ne.symm hib)]
    · intro block hblock data hd
      have hbl : block < info.len := hblock { info with map := info.map.set b (Dxx.FdcErr.code .ok) }
        (by rw [hinfo']; rfl)
      obtain ⟨hdlen, hheld'⟩ := hdata block
        (fun info' hmem' => by rw [hinfo] at hmem'; cases hmem'; exact hbl) data hd
      rw [hfile]
      exact ⟨hdlen, held_behind hheld' hdlen hbl (Nat.le_add_right _ _)⟩

/-! ## Runs -/

theorem good_of_run {hasGcr : Bool} (h : Attached image₀) (hrun : Run hasGcr Meets image₀ image written) :
    Good image₀ image written := by
  induction hrun with
  | start => exact good_start h
  | call hrun hm happly ih =>
    rename_i c
    cases c with
    | halfTrack ht raw => exact halfTrack_good ih hm happly
    | sector buf t s taken => exact sector_good ih hm happly

/-- mirrors src/diskimage/fsimage-dxx.c: as long as no call goes behind the tracks of an image with a
map, and the file takes the bytes of the map, file and memory agree. -/
theorem inStep_of_run {hasGcr : Bool} (h : Attached image₀)
    (hrun : Run hasGcr Meets image₀ image written) : InStep image₀ image written :=
  (good_of_run h hrun).inStep

/-- A 35 track image with a map that says all sectors are good. -/
def mappedD64 : DiskImage where
  type := .d64
  tracks := 35
  sectors := 0
  maxHalfTracks := 84
  file := List.replicate 174848 0 ++ List.replicate 683 1
  errorInfo := some ⟨List.replicate 683 1, 683, false⟩
  gcr := fun _ => ⟨[]⟩

theorem mappedD64_attached : Attached mappedD64 := by
  refine ⟨⟨by decide, by decide, by decide⟩, ?_⟩
  intro info hinfo
  cases hinfo
  refine ⟨Or.inl rfl, by decide +kernel, rfl, ?_⟩
  refine fpread_of_heldAt List.length_replicate (Or.inl (by decide)) ?_
  intro i hi
  have hfront : (List.replicate 174848 (0 : UInt8)).length = 174848 := List.length_replicate
  show (List.replicate 174848 (0 : UInt8) ++ List.replicate 683 1)[683 * 256 + i]? = _
  rw [List.getElem?_append_right (by rw [hfront]; omega), hfront, Nat.add_sub_cancel_left]

theorem inStep_of_run_mapped : ∃ (buf : Block) (image : DiskImage) (written : Nat → Option Bytes),
    written 0 = some buf.val ∧ InStep mappedD64 image written := by
  let buf : Block := ⟨List.replicate 256 7, List.length_replicate⟩
  obtain ⟨image', happly⟩ : ∃ image', (Call.sector buf 1 0 true).apply false mappedD64 =
      some (0, image') := ⟨_, rfl⟩
  have hmeets : Meets mappedD64 (.sector buf 1 0 true) := by
    intro info _
    exact ⟨by decide, Or.inl rfl⟩
  exact ⟨buf, image', _, rfl, inStep_of_run mappedD64_attached (.call .start hmeets happly)⟩

/-! ## Growing a map -/

/-- Sectors that can all be read, with whatever result. -/
theorem readBack_reads {raw : DiskTrack} {sectors n sector : Nat} (info : Option ErrorInfo) (created : Bool)
    (h : ∀ k < n, ∃ r, gcrReadSector raw (List.replicate 256 0) (UInt8.ofNat (sector + k)) = some r) :
    ∃ r, readBack image raw sectors n sector info created = some r := by
  induction n generalizing sector info created with
  | zero => exact ⟨_, rfl⟩
  | succ n ih =>
    obtain ⟨⟨rf, data⟩, hread⟩ := h 0 (Nat.succ_pos n)
    rw [Nat.add_zero] at hread
    have hrest := fun info created => @ih (sector + 1) info created fun k hk => by
      have := h (k + 1) (by omega)
      rwa [show sector + (k + 1) = sector + 1 + k by omega] at this
    rw [readBack, hread]
    simp only
    obtain ⟨r, hr⟩ := hrest _ _
    exact ⟨_, by rw [hr]; rfl⟩

/-- A half track behind the last one of an image with a map: the map moves, and of the bytes of the
earlier tracks none is written at the new place. -/
theorem halfTrack_grow {raw : DiskTrack} {ht sectors : Nat} {info : ErrorInfo}
    (hinfo : image.errorInfo = some info) (hcheck : checkSector image.toShape (ht / 2) 0 = .ok sectors)
    (hgt : image.tracks < ht / 2) (hsome : sectorPerTrack image.type (ht / 2) ≠ 0)
    (hread : ∀ k < sectorPerTrack image.type (ht / 2), ∃ r,
      gcrReadSector raw (List.replicate 256 0) (UInt8.ofNat (0 + k)) = some r) :
    ∃ image' map buffer bytes, fsimageDxxWriteHalfTrack image ht raw = some (0, image') ∧
      image'.errorInfo = some ⟨map, sectors + sectorPerTrack image.type (ht / 2), false⟩ ∧
      (∀ i < sectors, map[i]? = (info.grow (sectors + sectorPerTrack image.type (ht / 2))).map[i]?) ∧
      buffer.length = sectorPerTrack image.type (ht / 2) * 256 ∧
      image'.file = fpwrite (fpwrite image.file buffer (sectors * 256)) bytes
        ((sectors + sectorPerTrack image.type (ht / 2)) * 256 + sectors) := by
  obtain ⟨⟨buffer, info', created⟩, hr⟩ := @readBack_reads
    { image with
      tracks := ht / 2
      errorInfo := some (info.grow (sectors + sectorPerTrack image.type (ht / 2))) }
    raw sectors _ 0 (some (info.grow (sectors + sectorPerTrack image.type (ht / 2)))) false hread
  have hbuf := readBack_buffer hr
  obtain ⟨map, dirty, rfl, rfl, -, hout, hclean⟩ := readBack_some hr
  have hdirty : dirty = true := by
    cases dirty with
    | true => rfl
    | false =>
      have := (hclean rfl).1
      cases this
  subst hdirty
  let image' : DiskImage := { image with
    tracks := ht / 2
    file := fpwrite (fpwrite image.file buffer (sectors * 256))
      ((map.drop sectors).take (sectorPerTrack image.type (ht / 2)))
      ((sectors + sectorPerTrack image.type (ht / 2)) * 256 + sectors)
    errorInfo := some ⟨map, sectors + sectorPerTrack image.type (ht / 2), false⟩ }
  refine ⟨image', map, buffer, _, ?_, rfl, fun i hi => hout i (by omega), hbuf.1, rfl⟩
  unfold fsimageDxxWriteHalfTrack
  simp only [hcheck, if_pos hgt, hinfo, Option.map_some, hr, if_neg hsome]
  rfl

theorem inStep_not_always :
    ¬ ∀ (hasGcr : Bool) (image₀ image : DiskImage) (written : Nat → Option Bytes), Attached image₀ →
      Run hasGcr (fun _ _ => True) image₀ image written → InStep image₀ image written := by
  intro hall
  have hread : ∀ k < 17, ∃ r,
      gcrReadSector ⟨[]⟩ (List.replicate 256 0) (UInt8.ofNat (0 + k)) = some r :=
    fun _ _ => ⟨(.sync, List.replicate 256 0), rfl⟩
  -- track 36 of a 35 track image, without any sync
  obtain ⟨image', map, buffer, bytes, happly, hinfo, hmap, hbuf, hfile⟩ :=
    @halfTrack_grow mappedD64 ⟨[]⟩ 72 683 _ rfl (by decide +kernel) (by decide) (by decide) hread
  have hstep := hall false mappedD64 image' _ mappedD64_attached
    (.call .start trivial (show (Call.halfTrack 72 ⟨[]⟩).apply false mappedD64 = _ from happly))
  have h17 : sectorPerTrack mappedD64.type (72 / 2) = 17 := by decide
  have hlen0 : mappedD64.file.length = 175531 := by
    unfold mappedD64
    rw [List.length_append, List.length_replicate, List.length_replicate]
  have h700 : 683 + 17 = 700 := rfl
  rw [h17] at hinfo hmap hbuf hfile
  rw [h700] at hinfo hfile
  have hread' : fpread image'.file 700 (700 * 256) = some map :=
    hstep.map ⟨map, 700, false⟩ (by rw [hinfo]; exact Option.mem_some_self _)
  obtain ⟨hlen, hheld⟩ := heldAt_of_fpread hread'
  have hfirst := hheld 0 (by rw [hlen]; decide)
  -- the file has a gap where the map begins now
  rw [hfile, fpwrite_eq, fpwrite_eq, hmap 0 (by decide)] at hfirst
  rw [overwrite_gap (by rw [overwrite_length, hlen0, hbuf]; decide) (by decide)] at hfirst
  cases hfirst

end

end Vice.L2.ErrorMap
