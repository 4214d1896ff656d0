import Vice.L2Image.DxxTracks

/-!
# Whole images as GCR tracks and back

Every mark of a laid out track belongs to one of its sectors, so each sector number
has one header, and rotating the track moves the marks without changing what is
decoded there. So every sector of every track reads back, and writing the tracks
stores the bytes that are already in the file.

Results:
* `Built.read`: each sector of a skewed track is read back.
* `readDxxImage_roundTrip`: the whole image.
-/
namespace Vice.L2.Dxx
open Vice.L0.BitRun Vice.L1.Gcr Vice.L2.Geometry

/-! ## The marks of a track -/

section
variable {image : DiskImage} {l : TrackLayout} {header : GcrHeader} {N : Nat}

theorem sector_end (r : Nat) {buffer : Bytes} (hb : buffer.length = 256) (gapBytes : Bytes)
    (header : GcrHeader) (sync : Nat) :
    runAfter r (toBits (sectorBytes buffer gapBytes header sync .ok)) ≤ 4 := by
  obtain ⟨b, bs, hd, hb16⟩ := dataBytes_first buffer .ok
  obtain ⟨c, hc, -, hend⟩ := block_quiet hb16 bs
  rw [Readable.sectorBits (Or.inl rfl) hb, hd, hc]
  simp only [runAfter_append]
  exact hend

theorem layout_marks (hr : InImage image l.track N) (hsync : l.synclen = 5) (n : Nat) {s : Nat}
    (hn : s + n ≤ N) {r i : Nat} (h : Mark 10 r (toBits (layout image l header n s)) i) :
    ∃ j < n, i = 8 * (j * l.stride) + 40 ∨
      i = 8 * (j * l.stride) + 40 + dataAt l.headergap l.synclen := by
  induction n generalizing s r i with
  | zero => exact absurd h (quiet_nil _ _ _)
  | succ n ih =>
    have hlen := hr.block_length (l := l) (s := s) (by omega)
    have hgap := quietGap_fill l.headergap
    have hglen : (List.replicate l.headergap (0x55 : UInt8)).length = l.headergap :=
      List.length_replicate
    rw [layout, toBits_append, mark_append] at h
    rcases h with h | ⟨hi, h⟩
    · rw [sector_marks (Or.inl rfl) hlen hgap _ (by omega), hglen] at h
      exact ⟨0, by omega, by rw [Nat.zero_mul, Nat.mul_zero, Nat.zero_add]; exact h⟩
    · rw [toBits_append, mark_append] at h
      have hfill := fill_quiet l.gap (sector_end r hlen (List.replicate l.headergap 0x55)
        { header with sector := UInt8.ofNat s } l.synclen)
      rcases h with h | ⟨hi2, h⟩
      · exact absurd h (hfill.2 _)
      · obtain ⟨j, hj, hij⟩ := ih (by omega) h
        simp only [toBits_length, sectorBytes_length hlen, List.length_replicate] at hi hi2 hij
        refine ⟨j + 1, by omega, ?_⟩
        rw [Nat.succ_mul j]
        have hs : l.stride = 340 + l.headergap + l.synclen + l.gap := by
          unfold TrackLayout.stride
          omega
        omega

theorem layout_end (hr : InImage image l.track N) (n : Nat) {s : Nat} (hn : s + n ≤ N) {r : Nat}
    (h : r ≤ 4 ∨ 0 < n) : runAfter r (toBits (layout image l header n s)) ≤ 4 := by
  induction n generalizing s r with
  | zero => exact h.resolve_right (by omega)
  | succ n ih =>
    rw [layout, toBits_append, toBits_append, runAfter_append, runAfter_append]
    exact ih (by omega) (Or.inl (fill_quiet l.gap (sector_end r (hr.block_length (by omega)) _ _ _)).1)

/-- Sector `s + j` stands at its place in the layout. -/
theorem layout_split (hr : InImage image l.track N) (hsync : l.synclen = 5) (n : Nat) {s : Nat}
    (hn : s + n ≤ N) {j : Nat} (hj : j < n) :
    ∃ as bs, as.length = j * l.stride ∧ layout image l header n s = as ++
      (sectorBytes (image.block l.track (s + j)) (List.replicate l.headergap 0x55)
        { header with sector := UInt8.ofNat (s + j) } l.synclen .ok ++ bs) := by
  induction n generalizing s j with
  | zero => omega
  | succ n ih =>
    cases j with
    | zero => exact ⟨[], _, by simp, by rw [layout]; rfl⟩
    | succ j =>
      obtain ⟨as, bs, hlen, heq⟩ := ih (s := s + 1) (j := j) (by omega) (by omega)
      refine ⟨sectorBytes (image.block l.track s) (List.replicate l.headergap 0x55)
        { header with sector := UInt8.ofNat s } l.synclen .ok ++ (List.replicate l.gap 0x55 ++ as),
        bs, ?_, ?_⟩
      · rw [List.length_append, List.length_append, hlen,
          sectorBytes_length (hr.block_length (by omega)), List.length_replicate,
          List.length_replicate, Nat.succ_mul]
        unfold TrackLayout.stride
        omega
      · rw [layout, heq, show s + 1 + j = s + (j + 1) by omega]
        simp only [List.append_assoc]

end

/-! ## Rotating a track -/

/-- What is decoded depends on the bits alone. -/
theorem gcrDecodeBlock_congr {raw raw' : DiskTrack} {p p' : Nat} (hp : p < 8 * raw.size)
    (hp' : p' < 8 * raw'.size) (h : window raw.bits p 40 = window raw'.bits p' 40) :
    gcrDecodeBlock raw p 1 = gcrDecodeBlock raw' p' 1 := by
  obtain ⟨h1, -⟩ := @decodeBytes_spec raw (p % 8) (Nat.mod_lt _ (by decide)) 5 (p / 8) (by omega)
  rw [Nat.div_add_mod] at h1
  rw [gcrDecodeBlock_one _ hp h1.symm, gcrDecodeBlock_one _ hp' (h.symm.trans h1.symm)]

section
variable {raw : DiskTrack} {n : Nat}

theorem rotate_bits (hn : n ≤ raw.size) :
    DiskTrack.bits ⟨raw.data.rotate n⟩ = raw.bits.rotate (8 * n) := toBits_rotate hn

theorem holds_rotate (hn : n ≤ raw.size) {base : Nat} {bytes : Bytes} (hh : raw.Holds base bytes) :
    DiskTrack.Holds ⟨raw.data.rotate n⟩ (8 * raw.size - 8 * n + base) bytes := by
  refine ⟨by unfold DiskTrack.size; rw [List.length_rotate]; exact hh.1, ?_⟩
  rw [rotate_bits hn, window_rotate, ← hh.2, ← window_mod raw.bits (8 * n + _),
    ← window_mod raw.bits base, raw.bits_length,
    show 8 * n + (8 * raw.size - 8 * n + base) = base + 8 * raw.size by omega, Nat.add_mod_right]

theorem uniqueHeader_rotate (hn : n ≤ raw.size) (h10 : 10 ≤ 8 * raw.size) {sector : UInt8}
    (hu : UniqueHeader raw sector) : UniqueHeader ⟨raw.data.rotate n⟩ sector := by
  have hsize : DiskTrack.size ⟨raw.data.rotate n⟩ = raw.size := List.length_rotate ..
  have hback : ∀ p, HeaderAt ⟨raw.data.rotate n⟩ sector p →
      HeaderAt raw sector ((8 * n + p) % (8 * raw.size)) ∧ p < 8 * raw.size := by
    intro p hp
    have hlt := hp.1.1
    rw [DiskTrack.bits_length, hsize] at hlt
    have hmark := hp.1
    rw [rotate_bits hn] at hmark
    have hmark := ringMark_rotate (by rw [raw.bits_length]; omega) hmark
    rw [raw.bits_length] at hmark
    have hdec := @gcrDecodeBlock_congr ⟨raw.data.rotate n⟩ raw p ((8 * n + p) % (8 * raw.size))
      (by rw [hsize]; exact hlt) (Nat.mod_lt _ (by omega))
      (by rw [rotate_bits hn, window_rotate, ← raw.bits_length, window_mod])
    refine ⟨⟨hmark, ?_⟩, hlt⟩
    rw [← hdec]
    exact hp.2
  intro p q hp hq
  obtain ⟨hp1, hp2⟩ := hback p hp
  obtain ⟨hq1, hq2⟩ := hback q hq
  have hmod : (8 * n + p) ≡ (8 * n + q) [MOD 8 * raw.size] := hu _ _ hp1 hq1
  have := Nat.ModEq.add_left_cancel' _ hmod
  unfold Nat.ModEq at this
  rwa [Nat.mod_eq_of_lt hp2, Nat.mod_eq_of_lt hq2] at this

end

/-! ## Reading a track -/

section
variable {image : DiskImage} {l : TrackLayout} {header : GcrHeader} {N m : Nat}

/-- The scratch buffer of a track: the layout and filler to the end. -/
def scratch (image : DiskImage) (l : TrackLayout) (header : GcrHeader) (N m : Nat) : DiskTrack :=
  ⟨layout image l header N 0 ++ List.replicate m 0x55⟩

theorem scratch_size (hr : InImage image l.track N) (hsync : l.synclen = 5) :
    (scratch image l header N m).size = N * l.stride + m := by
  unfold scratch DiskTrack.size
  rw [List.length_append, layout_length hr hsync N (by omega), List.length_replicate]

theorem scratch_holds (hr : InImage image l.track N) (hsync : l.synclen = 5) {j : Nat} (hj : j < N) :
    (scratch image l header N m).Holds (8 * (j * l.stride))
      (sectorBytes (image.block l.track j) (List.replicate l.headergap 0x55)
        { header with sector := UInt8.ofNat j } l.synclen .ok) := by
  obtain ⟨as, bs, hlen, heq⟩ := @layout_split image l header N hr hsync N 0 (by omega) _ hj
  rw [Nat.zero_add] at heq
  have hbits : (scratch image l header N m).bits = toBits as ++ (toBits (sectorBytes
      (image.block l.track j) (List.replicate l.headergap 0x55)
        { header with sector := UInt8.ofNat j } l.synclen .ok) ++
      toBits (bs ++ List.replicate m 0x55)) := by
    unfold scratch DiskTrack.bits
    rw [heq]
    simp only [List.append_assoc, toBits_append]
  have hwin : window (scratch image l header N m).bits 0 (scratch image l header N m).bits.length =
      (scratch image l header N m).bits := by
    rw [window_eq_drop_take (by omega), List.drop_zero, List.take_length]
  constructor
  · have := congrArg List.length hbits
    simp only [DiskTrack.bits_length, List.length_append, toBits_length] at this
    omega
  · rw [hbits] at hwin
    have := window_part hwin
    rwa [toBits_length, hlen, Nat.zero_add, toBits_length, ← hbits] at this

theorem scratch_unique (hr : InImage image l.track N) (hsync : l.synclen = 5) (hpos : 0 < N)
    (hN : N ≤ 256) (sector : UInt8) : UniqueHeader (scratch image l header N m) sector := by
  have hsize := @scratch_size image l header N m hr hsync
  have hstride : 345 ≤ l.stride := by unfold TrackLayout.stride; omega
  have hglen : (List.replicate l.headergap (0x55 : UInt8)).length = l.headergap :=
    List.length_replicate
  -- a header is that of the sector whose number it carries
  have hone : ∀ p, HeaderAt (scratch image l header N m) sector p →
      ∃ j < N, p = 8 * (j * l.stride) + 40 ∧ sector = UInt8.ofNat j := by
    intro p hp
    have hlen := (scratch image l header N m).bits_length
    have hone := Nat.mul_le_mul_right l.stride hpos
    have hmark := (ringMark_iff (by omega) (by omega)).mp hp.1
    generalize runAfter 0 (scratch image l header N m).bits = r at hmark
    have hbits : (scratch image l header N m).bits = toBits (layout image l header N 0) ++
        toBits (List.replicate m 0x55) := toBits_append _ _
    rw [hbits, mark_append] at hmark
    rcases hmark with hmark | ⟨-, hmark⟩
    · obtain ⟨j, hj, hpj⟩ := layout_marks hr hsync N (by omega) hmark
      have hh := @scratch_holds image l header N m hr hsync _ hj
      have hdec := holds_decode (Or.inl rfl) (hr.block_length hj) hh
      have hin := hp.1.1
      rw [hlen] at hin
      rw [hglen] at hdec
      unfold headerPos at hdec
      refine ⟨j, hj, ?_⟩
      rcases hpj with hpj | hpj
      · have h2 := hp.2.2
        rw [← hpj, Nat.mod_eq_of_lt hin] at hdec
        rw [hdec.1] at h2
        exact ⟨hpj, h2.symm⟩
      · have h8 := hp.2.1
        rw [Nat.mod_add_mod, ← hpj, Nat.mod_eq_of_lt hin] at hdec
        rw [← gcrDecodeBlock_first _ p 64, hdec.2] at h8
        exact absurd h8 (dataBytes_not_header _ _)
    · exact absurd hmark ((fill_quiet m (layout_end hr N (by omega) (Or.inr hpos))).2 _)
  intro p q hp hq
  obtain ⟨j, hj, rfl, hs⟩ := hone p hp
  obtain ⟨k, hk, rfl, hs'⟩ := hone q hq
  have := congrArg UInt8.toNat (hs.symm.trans hs')
  rw [UInt8.toNat_ofNat', UInt8.toNat_ofNat', Nat.mod_eq_of_lt (by omega),
    Nat.mod_eq_of_lt (by omega)] at this
  rw [this]

/-- Every sector of a rotated track is read back. -/
theorem scratch_read (hr : InImage image l.track N) (hsync : l.synclen = 5) (hN : N ≤ 256)
    (hgap : l.headergap < 400) {off : Nat} (hoff : off ≤ (scratch image l header N m).size) {j : Nat}
    (hj : j < N) (out : Bytes) :
    gcrReadSector ⟨(scratch image l header N m).data.rotate off⟩ out (UInt8.ofNat j) =
      some (.ok, image.block l.track j) := by
  have hh := holds_rotate hoff (@scratch_holds image l header N m hr hsync _ hj)
  have hsize := holds_size (hr.block_length hj) (@scratch_holds image l header N m hr hsync _ hj)
  have hu := uniqueHeader_rotate hoff (by omega)
    (@scratch_unique image l header N m hr hsync (by omega) hN (UInt8.ofNat j))
  exact gcrReadSector_holds out (Or.inl rfl) (hr.block_length hj) (quietGap_fill _) (by omega)
    (by rw [List.length_replicate]; omega) hh hu

end

/-! ## Reading the image -/

theorem skewed_eq {trackSize off : Nat} {tempgcr : Bytes} (h : tempgcr.length = trackSize)
    (hoff : off ≤ trackSize) : skewed trackSize off tempgcr = tempgcr.rotate (trackSize - off) := by
  have h1 : (List.replicate trackSize (0x55 : UInt8)).take off = List.replicate off 0x55 := by
    rw [List.take_replicate, Nat.min_eq_left hoff]
  have h2 : (tempgcr.take (trackSize - off)).length = trackSize - off := by
    rw [List.length_take]; omega
  have h3 : (tempgcr.drop (trackSize - off)).length = off := by
    rw [List.length_drop]; omega
  rw [List.rotate_eq_drop_append_take (by omega)]
  simp only [skewed, put]
  rw [h1, h2, show off + (trackSize - off) = trackSize by omega, List.drop_replicate, Nat.sub_self,
    List.take_of_length_le (l := tempgcr.drop _) (by omega), h3]
  simp only [List.take_zero, List.nil_append, Nat.zero_add, List.replicate_zero, List.append_nil]
  rw [List.drop_append_of_le_length (by rw [List.length_replicate]), List.drop_replicate,
    Nat.sub_self, List.replicate_zero, List.nil_append]

/-- What `fsimage_probe.c` promises of a D64, D67 or D71 image without error map: the tracks are
ones the type knows, the drive reaches them, and the file has all their sectors. -/
structure Probed (image : DiskImage) : Prop where
  type : IsDxx image.type
  tracks : 18 ≤ image.tracks ∧ image.tracks ≤ dxxMaxTracks image.type
  halfTracks : image.tracks ≤ image.maxHalfTracks / 2
  inFile : sumSectors (sectorPerTrack image.type) image.tracks * 256 ≤ image.file.length
  noMap : image.errorInfo = none

theorem Probed.inImage {image : DiskImage} (h : Probed image) {t : Nat} (h1 : 1 ≤ t)
    (h2 : t ≤ image.tracks) : InImage image t (sectorPerTrack image.type t) := by
  refine ⟨fun s hs => checkSector_dxx h.type h1 (Nat.le_trans h2 h.tracks.2) hs, ?_, h.noMap⟩
  refine Nat.le_trans (Nat.mul_le_mul_right _ ?_) h.inFile
  obtain ⟨n, rfl⟩ : ∃ n, t = n + 1 := ⟨t - 1, by omega⟩
  exact sumSectors_le h2

/-- The layout parameters of a track. -/
def trackLayout (type : ImageType) (t : Nat) : TrackLayout :=
  ⟨t, gapSize type t, headerGapSize type t, syncSize type t⟩

/-- A track that `fsimage_read_dxx_image` has built. -/
def Built (image : DiskImage) (t : Nat) (raw : DiskTrack) : Prop :=
  ∃ header off, off ≤ (scratch image (trackLayout image.type t) header (sectorPerTrack image.type t)
      (rawTrackSize image.type t - sectorPerTrack image.type t * stride image.type t)).size ∧
    raw = ⟨(scratch image (trackLayout image.type t) header (sectorPerTrack image.type t)
      (rawTrackSize image.type t - sectorPerTrack image.type t * stride image.type t)).data.rotate off⟩

theorem Built.read {image : DiskImage} (h : Probed image) {t : Nat} (h1 : 1 ≤ t)
    (h2 : t ≤ image.tracks) {raw : DiskTrack} (hb : Built image t raw) {s : Nat}
    (hs : s < sectorPerTrack image.type t) (out : Bytes) :
    gcrReadSector raw out (UInt8.ofNat s) = some (.ok, image.block t s) := by
  obtain ⟨header, off, hoff, rfl⟩ := hb
  have hbound := sectorPerTrack_bound h.type t
  have hr : InImage image (trackLayout image.type t).track (sectorPerTrack image.type t) :=
    h.inImage h1 h2
  have hsync : (trackLayout image.type t).synclen = 5 := by
    unfold trackLayout syncSize
    rcases h.type with hx | hx | hx <;> rw [hx]
  have hgap : (trackLayout image.type t).headergap < 400 := by
    unfold trackLayout headerGapSize
    rcases h.type with hx | hx | hx <;> rw [hx] <;> simp only <;> omega
  exact scratch_read hr hsync (by omega) hgap hoff hs out

/-- The scratch buffer that `buildTrack` skews. -/
theorem layoutSectors_scratch {image : DiskImage} (h : Probed image) {t : Nat} (h1 : 1 ≤ t)
    (h2 : t ≤ image.tracks) (header : GcrHeader) (buffer : Bytes) :
    (layoutSectors image (trackLayout image.type t) header (sectorPerTrack image.type t) 0 buffer
      (List.replicate (rawTrackSize image.type t) 0x55) 0).2.1 =
      (scratch image (trackLayout image.type t) header (sectorPerTrack image.type t)
        (rawTrackSize image.type t - sectorPerTrack image.type t * stride image.type t)).data := by
  have hsync : (trackLayout image.type t).synclen = 5 := by
    unfold trackLayout syncSize
    rcases h.type with hx | hx | hx <;> rw [hx]
  have hr : InImage image (trackLayout image.type t).track (sectorPerTrack image.type t) :=
    h.inImage h1 h2
  have heq := @layoutSectors_eq image (trackLayout image.type t) header _ hr hsync
    (sectorPerTrack image.type t) 0 (rawTrackSize image.type t) buffer [] (by omega)
    (trackFits h.type t)
  rw [List.nil_append, List.length_nil] at heq
  rw [heq]
  rfl

theorem buildTrack_built {image : DiskImage} (h : Probed image) {t : Nat} (h1 : 1 ≤ t)
    (h2 : t ≤ image.tracks) (st : ReadState) :
    Built image t ((buildTrack image t st).gcr (t * 2 - 2)) := by
  have hr : InImage image (trackLayout image.type t).track (sectorPerTrack image.type t) :=
    h.inImage h1 h2
  have hsync : (trackLayout image.type t).synclen = 5 := by
    unfold trackLayout syncSize
    rcases h.type with hx | hx | hx <;> rw [hx]
  have hfit := trackFits h.type t
  have hsize := @scratch_size image (trackLayout image.type t) st.header
    (sectorPerTrack image.type t)
    (rawTrackSize image.type t - sectorPerTrack image.type t * stride image.type t) hr hsync
  have hstride : (trackLayout image.type t).stride = stride image.type t := rfl
  rw [hstride] at hsize
  simp only [buildTrack, setTrack_same]
  rw [show (⟨t, gapSize image.type t, headerGapSize image.type t, syncSize image.type t⟩ :
    TrackLayout) = trackLayout image.type t from rfl, layoutSectors_scratch h h1 h2]
  generalize st.trackoffset + _ + _ = off
  refine ⟨st.header, _, ?_, congrArg DiskTrack.mk (skewed_eq ?_ ?_)⟩
  · omega
  · exact hsize.trans (by omega)
  · rcases Nat.eq_zero_or_pos (rawTrackSize image.type t) with h0 | h0
    · have := (sectorPerTrack_bound h.type t).1
      have := Nat.mul_le_mul_right (stride image.type t) this
      unfold stride at hfit this
      omega
    · exact Nat.le_of_lt (Nat.mod_lt _ h0)

theorem buildTrack_other {image : DiskImage} {t i : Nat} (st : ReadState) (h : i ≠ t * 2 - 2) :
    (buildTrack image t st).gcr i = st.gcr i := by
  exact setTrack_other h

theorem secondSide_gcr (image : DiskImage) (two : Bool) (t : Nat) (st : ReadState) :
    (secondSide image two t st).gcr = st.gcr := by
  unfold secondSide
  split <;> rfl

theorem readTrack_built {image : DiskImage} (h : Probed image) {two : Bool} {t : Nat} (h1 : 1 ≤ t)
    (h2 : t ≤ image.tracks) (st : ReadState) :
    Built image t ((readTrack image two t st).gcr (t * 2 - 2)) := by
  simp only [readTrack, if_pos h2]
  rw [setTrack_other (by omega)]
  exact buildTrack_built h h1 h2 _

theorem readTrack_other {image : DiskImage} {two : Bool} {t i : Nat} (st : ReadState)
    (h1 : i ≠ t * 2 - 2) (h2 : i ≠ t * 2 - 2 + 1) :
    (readTrack image two t st).gcr i = st.gcr i := by
  simp only [readTrack]
  rw [setTrack_other h2]
  split
  · rw [buildTrack_other _ h1, secondSide_gcr]
  · exact setTrack_other h1

theorem readTracks_built {image : DiskImage} (h : Probed image) {two : Bool} (st : ReadState) (n : Nat)
    {t : Nat} (h1 : 1 ≤ t) (h2 : t ≤ image.tracks) (hn : t ≤ n) :
    Built image t ((readTracks image two st n).gcr (t * 2 - 2)) := by
  induction n with
  | zero => omega
  | succ n ih =>
    rw [readTracks]
    rcases Nat.lt_or_eq_of_le hn with hlt | heq
    · rw [readTrack_other _ (by omega) (by omega)]
      exact ih (by omega)
    · rw [← heq]
      exact readTrack_built h h1 h2 _

theorem fsimageReadDxxImage_built {image : DiskImage} (h : Probed image) (doubleSidedDrive : Bool) :
    ∃ gcr, fsimageReadDxxImage image doubleSidedDrive = some { image with gcr } ∧
      ∀ t, 1 ≤ t → t ≤ image.tracks → Built image t (gcr (t * 2 - 2)) := by
  have hcheck : ∃ sectors, checkSector image.toShape 18 0 = .ok sectors :=
    ⟨_, checkSector_dxx h.type (by decide) (Nat.le_trans h.tracks.1 h.tracks.2)
      (sectorPerTrack_bound h.type 18).1⟩
  obtain ⟨sectors, hcheck⟩ := hcheck
  have hnot : ¬ (image.type = .d80 ∨ image.type = .d82) := by
    rcases h.type with hx | hx | hx <;> rw [hx] <;> decide
  unfold fsimageReadDxxImage
  simp only [if_neg hnot, hcheck]
  exact ⟨_, rfl, fun t h1 h2 => readTracks_built h _ _ h1 h2 (Nat.le_trans h2 h.halfTracks)⟩

/-! ## Writing the tracks back -/

/-- `n` sectors of a track, one after the other. -/
def blocks (image : DiskImage) (t s n : Nat) : Bytes :=
  (image.file.drop ((sumSectors (sectorPerTrack image.type) (t - 1) + s) * 256)).take (n * 256)

theorem blocks_succ (image : DiskImage) (t s n : Nat) :
    blocks image t s (n + 1) = image.block t s ++ blocks image t (s + 1) n := by
  unfold blocks DiskImage.block
  rw [Nat.succ_mul, Nat.add_comm (n * 256), List.take_add, List.drop_drop, ← Nat.add_assoc, Nat.succ_mul]

/-- On tracks that read without error there is no error map to make. -/
theorem readBack_clean {image : DiskImage} {t : Nat} {raw : DiskTrack} (sectors : Nat) (n : Nat) {s : Nat}
    (h : ∀ i < s + n, ∀ out, gcrReadSector raw out (UInt8.ofNat i) = some (.ok, image.block t i)) :
    readBack image raw sectors n s none false = some (blocks image t s n, none, false) := by
  induction n generalizing s with
  | zero => unfold readBack blocks; rw [Nat.zero_mul, List.take_zero]
  | succ n ih =>
    rw [readBack, h s (by omega)]
    simp only [Option.map_none]
    rw [ih (fun i hi => h i (by omega)), blocks_succ]
    rfl

/-- Storing what is there changes nothing. -/
theorem fpwrite_same {file : Bytes} {off n : Nat} (h : off + n ≤ file.length) :
    fpwrite file ((file.drop off).take n) off = file := by
  have hlen : ((file.drop off).take n).length = n := by
    rw [List.length_take, List.length_drop]; omega
  unfold fpwrite put
  rw [show off - file.length = 0 by omega, List.replicate_zero, List.append_nil, hlen,
    List.append_assoc, ← List.drop_drop, List.take_append_drop, List.take_append_drop]

theorem writeHalfTrack_clean {image : DiskImage} (h : Probed image) {t : Nat} (h1 : 1 ≤ t)
    (h2 : t ≤ image.tracks) {raw : DiskTrack}
    (hread : ∀ s < sectorPerTrack image.type t, ∀ out,
      gcrReadSector raw out (UInt8.ofNat s) = some (.ok, image.block t s)) :
    fsimageDxxWriteHalfTrack image (2 * t) raw = some (0, image) := by
  have hin := h.inImage h1 h2
  have hcheck := hin.check 0 (sectorPerTrack_bound h.type t).1
  have hclean := @readBack_clean image t raw (sumSectors (sectorPerTrack image.type) (t - 1) + 0)
    (sectorPerTrack image.type t) 0 (fun i hi out => hread i (by omega) out)
  have hsame := @fpwrite_same image.file ((sumSectors (sectorPerTrack image.type) (t - 1) + 0) * 256)
    (sectorPerTrack image.type t * 256) (by rw [← Nat.add_mul]; exact hin.inFile)
  unfold fsimageDxxWriteHalfTrack
  rw [show 2 * t / 2 = t by omega]
  have hsome : sectorPerTrack image.type t ≠ 0 := by
    have := (sectorPerTrack_bound h.type t).1
    omega
  simp only [hcheck, if_neg (show ¬ t > image.tracks by omega), h.noMap, hclean, if_neg hsome]
  unfold blocks
  rw [hsame]
  have hmap := h.noMap
  obtain ⟨shape, maxHalfTracks, file, errorInfo, gcr⟩ := image
  simp only at hmap
  rw [hmap]

/-- mirrors src/diskimage/fsimage-dxx.c: an image without error map turned into GCR tracks reads back
sector by sector, and writing the tracks leaves the image as it is. -/
theorem readDxxImage_roundTrip {image : DiskImage} (h : Probed image) (doubleSidedDrive : Bool) :
    ∃ image', fsimageReadDxxImage image doubleSidedDrive = some image' ∧
      image'.file = image.file ∧ image'.errorInfo = none ∧
      ∀ t, 1 ≤ t → t ≤ image.tracks →
        (∀ s < sectorPerTrack image.type t, ∀ out,
          gcrReadSector (image'.gcr (2 * t - 2)) out (UInt8.ofNat s) = some (.ok, image.block t s)) ∧
        fsimageDxxWriteHalfTrack image' (2 * t) (image'.gcr (2 * t - 2)) = some (0, image') := by
  obtain ⟨gcr, hrun, hbuilt⟩ := fsimageReadDxxImage_built h doubleSidedDrive
  refine ⟨_, hrun, rfl, h.noMap, ?_⟩
  intro t h1 h2
  have hread : ∀ s < sectorPerTrack image.type t, ∀ out,
      gcrReadSector (gcr (2 * t - 2)) out (UInt8.ofNat s) = some (.ok, image.block t s) := by
    intro s hs out
    rw [Nat.mul_comm 2 t]
    exact (hbuilt t h1 h2).read h h1 h2 hs out
  have h' : Probed { image with gcr } := ⟨h.type, h.tracks, h.halfTracks, h.inFile, h.noMap⟩
  exact ⟨hread, writeHalfTrack_clean h' h1 h2 hread⟩

/-- A blank 35 track image. -/
def blankD64 : DiskImage where
  type := .d64
  tracks := 35
  sectors := 0
  maxHalfTracks := 84
  file := List.replicate 174848 0
  errorInfo := none
  gcr := fun _ => ⟨[]⟩

theorem readDxxImage_roundTrip_blank : ∃ image', fsimageReadDxxImage blankD64 true = some image' ∧
      image'.file = blankD64.file ∧ image'.errorInfo = none ∧
      ∀ t, 1 ≤ t → t ≤ 35 →
        (∀ s < sectorPerTrack .d64 t, ∀ out,
          gcrReadSector (image'.gcr (2 * t - 2)) out (UInt8.ofNat s) =
            some (.ok, blankD64.block t s)) ∧
        fsimageDxxWriteHalfTrack image' (2 * t) (image'.gcr (2 * t - 2)) = some (0, image') :=
  readDxxImage_roundTrip
    ⟨Or.inl rfl, by decide, by decide, by
      have hsum : sumSectors (sectorPerTrack .d64) 35 = 683 := by decide
      show sumSectors (sectorPerTrack .d64) 35 * 256 ≤ (List.replicate 174848 0).length
      rw [hsum, List.length_replicate], rfl⟩ true

end Vice.L2.Dxx
