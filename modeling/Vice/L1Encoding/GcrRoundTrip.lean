import Vice.L1Encoding.GcrSector

/-!
# Reading back a written sector

The bits of a written sector are two runs of ones, each followed by a coded
block that starts with a zero and is quiet after it, with the gap in between.
So a quiet gap leaves exactly two marks in it, and a reader that finds the first
as the only header with its sector number finds the second next.

Results:
* `sector_marks`: the marks of a written sector.
* `gcrReadSector_convert`: the round trip, at any bit position of the ring.
* `gcrReadSector_far`: a data block that starts 500 bytes or more behind its
  header is not found.
-/
namespace Vice.L1.Gcr
open Vice.L0.BitRun

theorem byteBits_ff : byteBits 0xff = List.replicate 8 true := by decide

theorem toBits_ones (n : Nat) : toBits (List.replicate n 0xff) = List.replicate (8 * n) true := by
  induction n with
  | zero => rfl
  | succ n ih =>
    rw [List.replicate_succ, toBits_cons, ih, byteBits_ff, List.replicate_append_replicate]
    congr 1
    omega

/-- A block whose first byte is below 16 starts with a zero. -/
theorem byteCodes_head {b : UInt8} (hb : b.toNat < 16) (bs : Bytes) :
    ∃ c, byteCodes (b :: bs) = false :: c := by
  have h0 : (b >>> 4).toNat = 0 := by rw [hi_toNat]; omega
  have h1 : (codesOf b).1 = 10 := by
    have : b >>> 4 = 0 := UInt8.toNat_inj.mp h0
    unfold codesOf
    rw [this]; rfl
  refine ⟨(natBits 5 10).tail ++ natBits 5 (codesOf b).2 ++ byteCodes bs, ?_⟩
  rw [byteCodes, List.flatMap_cons, codeBits, h1]
  rfl

/-- After the sync, a block is quiet but for the zero it starts with. -/
theorem block_quiet {b : UInt8} (hb : b.toNat < 16) (bs : Bytes) :
    ∃ c, byteCodes (b :: bs) = false :: c ∧ Quiet 10 0 c ∧ runAfter 0 c ≤ 4 := by
  obtain ⟨c, hc⟩ := byteCodes_head hb bs
  obtain ⟨h1, h2⟩ := byteCodes_quiet (b :: bs) (Nat.zero_le 4)
  rw [hc] at h1 h2
  exact ⟨c, hc, (quiet_cons.mp h2).2, h1⟩

/-! ## The marks of a sector -/

/-- The bits of a gap, after the one that ends the header. -/
def QuietGap (gapBytes : Bytes) : Prop := Quiet 10 1 (toBits gapBytes)

theorem header_end (r : Nat) (header : GcrHeader) (errorCode : FdcErr) :
    runAfter r (byteCodes (headerBytes header errorCode)) = 1 := by
  have h : byteCodes (headerBytes header errorCode) =
      byteCodes ((headerBytes header errorCode).take 7) ++ (natBits 5 10 ++ natBits 5 21) := by
    simp only [headerBytes, byteCodes, List.flatMap_cons, List.flatMap_nil, List.take_succ_cons,
      List.take_zero, List.append_assoc, List.append_nil]
    rfl
  rw [h, runAfter_append]
  rfl

/-- The filler of an unwritten stretch of track holds no mark. -/
theorem fill_quiet (n : Nat) {r : Nat} (hr : r ≤ 4) : runAfter r (toBits (List.replicate n 0x55)) ≤ 4 ∧
      Quiet 10 r (toBits (List.replicate n 0x55)) := by
  induction n generalizing r with
  | zero => exact ⟨hr, quiet_nil 10 r⟩
  | succ n ih =>
    have hbits : byteBits 0x55 = [false, true, false, true, false, true, false, true] := by decide
    obtain ⟨h1, h2⟩ := ih (r := 1) (by omega)
    rw [List.replicate_succ, toBits_cons, hbits, runAfter_append, quiet_append]
    refine ⟨h1, ?_, h2⟩
    simp [quiet_cons, quiet_nil]
    omega

theorem quietGap_fill (n : Nat) : QuietGap (List.replicate n 0x55) := (fill_quiet n (by decide)).2

/-- The error codes of a sector that is written without spoiling its marks. -/
def Readable (errorCode : FdcErr) : Prop :=
  errorCode = .ok ∨ errorCode = .noblock ∨ errorCode = .dcheck

theorem Readable.header_first {errorCode : FdcErr} (h : Readable errorCode) (header : GcrHeader) :
    ∃ bs, headerBytes header errorCode = 0x08 :: bs := by
  rcases h with rfl | rfl | rfl <;> exact ⟨_, rfl⟩

theorem Readable.sectorBits {errorCode : FdcErr} (h : Readable errorCode) {buffer : Bytes}
    (hb : buffer.length = 256) (gapBytes : Bytes) (header : GcrHeader) (sync : Nat) :
    toBits (sectorBytes buffer gapBytes header sync errorCode) =
      List.replicate 40 true ++ (byteCodes (headerBytes header errorCode) ++ (toBits gapBytes ++
        (List.replicate (8 * sync) true ++ byteCodes (dataBytes buffer errorCode)))) := by
  have hs : errorCode ≠ .sync := by rcases h with rfl | rfl | rfl <;> decide
  unfold sectorBytes
  simp only [if_neg hs, toBits_append, toBits_ones]
  rw [toBits_encode 2 rfl, toBits_encode 65 (dataBytes_length hb errorCode)]

theorem dataBytes_first (buffer : Bytes) (errorCode : FdcErr) :
    ∃ b bs, dataBytes buffer errorCode = b :: bs ∧ b.toNat < 16 := by
  refine ⟨_, _, rfl, ?_⟩
  split <;> decide

/-- A data block is never taken for a header. -/
theorem dataBytes_not_header (buffer : Bytes) (errorCode : FdcErr) :
    (dataBytes buffer errorCode).getD 0 0 ≠ 0x08 := by
  unfold dataBytes
  rw [List.cons_append, List.getD_cons_zero]
  split <;> decide

theorem byteCodes_length (bs : Bytes) : (byteCodes bs).length = 10 * bs.length := by
  induction bs with
  | nil => rfl
  | cons b bs ih =>
    rw [byteCodes, List.flatMap_cons, List.length_append, ← byteCodes, ih, codeBits]
    simp only [List.length_append, natBits_length, List.length_cons]
    omega

/-- Distance from the header's mark to the data block's. -/
def dataAt (gap sync : Nat) : Nat := 80 + 8 * gap + 8 * sync

/-- The bits of a sector behind its first sync. -/
def tailBits (buffer gapBytes : Bytes) (header : GcrHeader) (sync : Nat) (errorCode : FdcErr) :
    List Bool :=
  byteCodes (headerBytes header errorCode) ++ (toBits gapBytes ++
    (List.replicate (8 * sync) true ++ byteCodes (dataBytes buffer errorCode)))

/-- Behind the header's mark, the only mark is the data block's. -/
theorem tail_marks (buffer : Bytes) {gapBytes : Bytes} (hgap : QuietGap gapBytes)
    (header : GcrHeader) {sync : Nat} (hsync : 2 ≤ sync) (errorCode : FdcErr) (i : Nat) :
    Mark 10 0 (tailBits buffer gapBytes header sync errorCode) i ↔
      i = dataAt gapBytes.length sync := by
  obtain ⟨b, bs, hd, hb⟩ := dataBytes_first buffer errorCode
  obtain ⟨c, hc, hq, -⟩ := block_quiet hb bs
  have hhdr : ∀ i, ¬ Mark 10 0 (byteCodes (headerBytes header errorCode)) i :=
    (byteCodes_quiet _ (Nat.zero_le 4)).2
  have hlen : (byteCodes (headerBytes header errorCode)).length = 80 := byteCodes_length _
  have hs := mark_sync (k := 10) (r := runAfter 1 (toBits gapBytes)) (n := 8 * sync) (c := c)
    (m := []) (by omega) hq (i := i - 80 - 8 * gapBytes.length)
  rw [List.append_nil] at hs
  unfold tailBits dataAt
  rw [hd, hc, mark_append, header_end, mark_append, hlen, toBits_length, hs]
  constructor
  · rintro (h | ⟨h1, h | ⟨h2, h | ⟨-, h⟩⟩⟩)
    · exact absurd h (hhdr i)
    · exact absurd h (hgap _)
    · omega
    · exact absurd h (quiet_nil _ _ _)
  · intro h
    exact Or.inr ⟨by omega, Or.inr ⟨by omega, Or.inl (by omega)⟩⟩

/-- A sector's marks are the header's and those behind it. -/
theorem sector_marks_tail {errorCode : FdcErr} (h : Readable errorCode) {buffer : Bytes}
    (hb : buffer.length = 256) (gapBytes : Bytes) (header : GcrHeader) (sync r i : Nat) :
    Mark 10 r (toBits (sectorBytes buffer gapBytes header sync errorCode)) i ↔
      i = 40 ∨ (40 < i ∧ Mark 10 0 (tailBits buffer gapBytes header sync errorCode) (i - 40)) := by
  obtain ⟨bs, hbs⟩ := h.header_first header
  obtain ⟨c, hc, -, -⟩ := block_quiet (b := 0x08) (by decide) bs
  have htail : tailBits buffer gapBytes header sync errorCode = false :: (c ++ (toBits gapBytes ++
      (List.replicate (8 * sync) true ++ byteCodes (dataBytes buffer errorCode)))) := by
    unfold tailBits
    rw [hbs, hc]
    rfl
  rw [h.sectorBits hb gapBytes header sync]
  change Mark 10 r (List.replicate 40 true ++ tailBits buffer gapBytes header sync errorCode) i ↔ _
  rw [mark_append, List.length_replicate, runAfter_replicate_true]
  have hones : ¬ Mark 10 r (List.replicate 40 true) i := quiet_replicate_true _ _ _ _
  constructor
  · rintro (h | ⟨hi, h⟩)
    · exact absurd h hones
    · cases hj : i - 40 with
      | zero => left; omega
      | succ j =>
        right
        -- the first zero clears the run of the sync
        rw [hj, htail, mark_cons_succ] at h
        rw [htail, mark_cons_succ]
        exact ⟨by omega, h⟩
  · rintro (h | ⟨hi, h⟩)
    · refine Or.inr ⟨by omega, ?_⟩
      rw [h, htail, mark_cons_zero]
      exact ⟨rfl, by omega⟩
    · obtain ⟨j, hj⟩ : ∃ j, i - 40 = j + 1 := ⟨i - 41, by omega⟩
      refine Or.inr ⟨by omega, ?_⟩
      rw [hj, htail, mark_cons_succ] at h ⊢
      exact h

theorem sector_marks {errorCode : FdcErr} (h : Readable errorCode) {buffer : Bytes}
    (hb : buffer.length = 256) {gapBytes : Bytes} (hgap : QuietGap gapBytes)
    (header : GcrHeader) {sync : Nat} (hsync : 2 ≤ sync) (r i : Nat) :
    Mark 10 r (toBits (sectorBytes buffer gapBytes header sync errorCode)) i ↔
      i = 40 ∨ i = 40 + dataAt gapBytes.length sync := by
  rw [sector_marks_tail h hb, tail_marks buffer hgap header hsync errorCode]
  have : 80 ≤ dataAt gapBytes.length sync := by unfold dataAt; omega
  omega

/-! ## Reading it back -/

/-- The ring of the track holds `bytes` from bit `base` on. -/
def DiskTrack.Holds (raw : DiskTrack) (base : Nat) (bytes : Bytes) : Prop :=
  bytes.length ≤ raw.size ∧ window raw.bits base (8 * bytes.length) = toBits bytes

/-- No other header with this sector number. -/
def UniqueHeader (raw : DiskTrack) (sector : UInt8) : Prop :=
  ∀ p q, HeaderAt raw sector p → HeaderAt raw sector q → p = q

section
variable {raw : DiskTrack} {base : Nat} {buffer gapBytes : Bytes} {header : GcrHeader}
  {sync : Nat} {errorCode : FdcErr}

/-- Where the header block starts. -/
def headerPos (raw : DiskTrack) (base : Nat) : Nat := (base + 40) % (8 * raw.size)

theorem holds_tail (h : Readable errorCode) (hb : buffer.length = 256)
    (hh : raw.Holds base (sectorBytes buffer gapBytes header sync errorCode)) :
    window raw.bits (headerPos raw base) (tailBits buffer gapBytes header sync errorCode).length =
      tailBits buffer gapBytes header sync errorCode := by
  have hw := hh.2
  rw [h.sectorBits hb gapBytes header sync] at hw
  have := window_part (a := List.replicate 40 true)
    (b := tailBits buffer gapBytes header sync errorCode) (c := [])
    (by rw [List.append_nil]; exact hw)
  rw [List.length_replicate] at this
  unfold headerPos
  rwa [← raw.bits_length, window_mod]

theorem tailBits_length (hb : buffer.length = 256) : (tailBits buffer gapBytes header sync errorCode).length =
      dataAt gapBytes.length sync + 2600 := by
  have h1 : (byteCodes (headerBytes header errorCode)).length = 80 := byteCodes_length _
  unfold tailBits dataAt
  simp only [List.length_append, h1, toBits_length, List.length_replicate, byteCodes_length,
    dataBytes_length hb]
  omega

theorem holds_size (hb : buffer.length = 256)
    (hh : raw.Holds base (sectorBytes buffer gapBytes header sync errorCode)) :
    40 + dataAt gapBytes.length sync + 2600 ≤ 8 * raw.size := by
  have := hh.1
  rw [sectorBytes_length hb] at this
  unfold dataAt
  omega

/-- The header and the data block decode to what was coded. -/
theorem holds_decode (h : Readable errorCode) (hb : buffer.length = 256)
    (hh : raw.Holds base (sectorBytes buffer gapBytes header sync errorCode)) :
    gcrDecodeBlock raw (headerPos raw base) 1 = (headerBytes header errorCode).take 4 ∧
    gcrDecodeBlock raw ((headerPos raw base + dataAt gapBytes.length sync) % (8 * raw.size)) 65 =
      dataBytes buffer errorCode := by
  have hsize := holds_size hb hh
  have htail := holds_tail h hb hh
  have hpos : headerPos raw base < 8 * raw.size := Nat.mod_lt _ (by omega)
  constructor
  · apply gcrDecodeBlock_eq hpos (by rfl)
    have hsplit : byteCodes (headerBytes header errorCode) =
        byteCodes ((headerBytes header errorCode).take 4) ++
          byteCodes ((headerBytes header errorCode).drop 4) := by
      unfold byteCodes
      rw [← List.flatMap_append, List.take_append_drop]
    rw [toBits_encode 1 rfl]
    unfold tailBits at htail
    rw [hsplit, List.append_assoc] at htail
    have := window_part (a := []) (b := byteCodes ((headerBytes header errorCode).take 4)) (by exact htail)
    rwa [byteCodes_length, List.length_nil, Nat.add_zero] at this
  · apply gcrDecodeBlock_eq (Nat.mod_lt _ (by omega)) (dataBytes_length hb errorCode)
    rw [toBits_encode 65 (dataBytes_length hb errorCode), ← raw.bits_length, window_mod]
    have hsplit : tailBits buffer gapBytes header sync errorCode =
        (byteCodes (headerBytes header errorCode) ++ (toBits gapBytes ++
          List.replicate (8 * sync) true)) ++ (byteCodes (dataBytes buffer errorCode) ++ []) := by
      unfold tailBits
      simp only [List.append_assoc, List.append_nil]
    rw [hsplit] at htail
    have := window_part htail
    rw [List.length_append, List.length_append, byteCodes_length, byteCodes_length, toBits_length,
      List.length_replicate, dataBytes_length hb] at this
    unfold dataAt
    convert this using 2
    simp only [headerBytes, List.length_cons, List.length_nil]
    omega

theorem holds_header (h : Readable errorCode) (hb : buffer.length = 256) (hgap : QuietGap gapBytes)
    (hsync : 2 ≤ sync)
    (hh : raw.Holds base (sectorBytes buffer gapBytes header sync errorCode)) :
    HeaderAt raw header.sector (headerPos raw base) := by
  have hsize := holds_size hb hh
  refine ⟨?_, ?_⟩
  · have hm := (sector_marks h hb hgap header hsync 0 40).mpr (Or.inl rfl)
    rw [← hh.2] at hm
    have := hm.ring (by rw [raw.bits_length]; omega) (by rw [raw.bits_length]; omega)
    rwa [raw.bits_length] at this
  · rw [(holds_decode h hb hh).1]
    rcases h with rfl | rfl | rfl <;> exact ⟨rfl, rfl⟩

theorem holds_find (h : Readable errorCode) (hb : buffer.length = 256) (hgap : QuietGap gapBytes)
    (hsync : 2 ≤ sync) (hu : UniqueHeader raw header.sector)
    (hh : raw.Holds base (sectorBytes buffer gapBytes header sync errorCode)) :
    gcrFindSectorHeader raw header.sector = some (.ok (headerPos raw base)) := by
  have hsize := holds_size hb hh
  have hlen := raw.bits_length
  have hpos : headerPos raw base < 8 * raw.size := Nat.mod_lt _ (by omega)
  have hheader := holds_header h hb hgap hsync hh
  -- a mark less than ten bits into the track leaves the data block's
  have hmark : ∃ i, Mark 10 0 (window raw.bits 0 (raw.size * 8)) i := by
    by_cases h10 : 10 ≤ headerPos raw base
    · refine ⟨headerPos raw base, RingMark.mark h10 (by omega) (by omega) ?_⟩
      rw [Nat.zero_add, hlen, Nat.mod_eq_of_lt hpos]
      exact hheader.1
    · refine ⟨headerPos raw base + dataAt gapBytes.length sync,
        RingMark.mark (by unfold dataAt; omega) (by omega) (by omega) ?_⟩
      have hm := (tail_marks buffer hgap header hsync errorCode _).mpr rfl
      rw [← holds_tail h hb hh] at hm
      have := hm.ring (by rw [hlen]; omega) (by rw [hlen]; omega)
      rwa [Nat.zero_add]
  obtain ⟨i, hi⟩ := hmark
  exact gcrFindSectorHeader_eq hheader (fun q hq => hu _ _ hq hheader) hi

/-- What the walk from the header sees before the data block. -/
theorem holds_walk (h : Readable errorCode) (hb : buffer.length = 256) (hgap : QuietGap gapBytes)
    (hsync : 2 ≤ sync)
    (hh : raw.Holds base (sectorBytes buffer gapBytes header sync errorCode)) {n i : Nat}
    (hn : n ≤ dataAt gapBytes.length sync + 1) :
    Mark 10 0 (window raw.bits (headerPos raw base) n) i ↔
      i = dataAt gapBytes.length sync ∧ i < n := by
  have hlt : i < n → (Mark 10 0 (window raw.bits (headerPos raw base) n) i ↔
      i = dataAt gapBytes.length sync) := by
    intro hi
    rw [mark_window_le (n := (tailBits buffer gapBytes header sync errorCode).length)
      (by rw [tailBits_length hb]; omega) hi, holds_tail h hb hh]
    exact tail_marks buffer hgap header hsync errorCode i
  constructor
  · intro hm
    have hi := hm.lt
    rw [window_length] at hi
    exact ⟨(hlt hi).mp hm, hi⟩
  · rintro ⟨he, hi⟩
    exact (hlt hi).mpr he

end

/-- The checksum the reader is left with. -/
theorem checksum_left (c : UInt8) (bs : Bytes) : bs.foldl (· ^^^ ·) (bs.foldl (· ^^^ ·) c) = c := by
  rw [xor_foldl (bs.foldl (· ^^^ ·) c), xor_foldl c, UInt8.xor_assoc, UInt8.xor_self, UInt8.xor_zero]

theorem read_dataBytes {buffer : Bytes} (hb : buffer.length = 256) (errorCode : FdcErr) :
    ((dataBytes buffer errorCode).drop 1).take 256 = buffer ∧
    (dataBytes buffer errorCode).getD 257 0 =
      buffer.foldl (· ^^^ ·) (if errorCode = .dcheck then 0xff else 0x00) := by
  unfold dataBytes
  constructor
  · rw [List.cons_append, List.drop_succ_cons, List.drop_zero, ← hb, List.take_left]
  · rw [List.cons_append, List.getD_cons_succ, List.getD_append_right _ _ _ _ (by omega), hb]
    rfl

/-- The round trip: the reader gives the buffer and the error code back. -/
theorem gcrReadSector_holds {raw : DiskTrack} {base : Nat} {buffer gapBytes : Bytes}
    {header : GcrHeader} {sync : Nat} {errorCode : FdcErr} (out : Bytes)
    (hr : Readable errorCode) (hb : buffer.length = 256) (hgap : QuietGap gapBytes)
    (hsync : 2 ≤ sync) (hnear : 10 + gapBytes.length + sync < 500)
    (hh : raw.Holds base (sectorBytes buffer gapBytes header sync errorCode))
    (hu : UniqueHeader raw header.sector) :
    gcrReadSector raw out header.sector = some (errorCode, buffer) := by
  have hsize := holds_size hb hh
  have hpos : headerPos raw base < 8 * raw.size := Nat.mod_lt _ (by omega)
  have hwalk := fun n i => holds_walk hr hb hgap hsync hh (n := n) (i := i)
  have hnear' : dataAt gapBytes.length sync < 500 * 8 := by unfold dataAt; omega
  have hsync' : gcrFindSync raw (headerPos raw base) (500 * 8) =
      .ok ((headerPos raw base + dataAt gapBytes.length sync) % (8 * raw.size)) := by
    apply gcrFindSync_first hpos
    · rw [← mark_window_le (m := dataAt gapBytes.length sync + 1) (by omega) (by omega),
        hwalk _ _ (Nat.le_refl _)]
      exact ⟨rfl, by omega⟩
    · intro i hi
      have := (hwalk _ _ (by omega)).mp hi
      omega
  obtain ⟨hout, hchk⟩ := read_dataBytes hb errorCode
  unfold gcrReadSector
  rw [holds_find hr hb hgap hsync hu hh]
  simp only [hsync', (holds_decode hr hb hh).2, hout, hchk, checksum_left]
  rcases hr with rfl | rfl | rfl <;> rfl

/-- A data block 500 bytes or more behind its header is out of the reader's reach. -/
theorem gcrReadSector_far {raw : DiskTrack} {base : Nat} {buffer gapBytes : Bytes}
    {header : GcrHeader} {sync : Nat} {errorCode : FdcErr} (out : Bytes)
    (hr : Readable errorCode) (hb : buffer.length = 256) (hgap : QuietGap gapBytes)
    (hsync : 2 ≤ sync) (hfar : 500 ≤ 10 + gapBytes.length + sync)
    (hh : raw.Holds base (sectorBytes buffer gapBytes header sync errorCode))
    (hu : UniqueHeader raw header.sector) :
    gcrReadSector raw out header.sector = some (.sync, out) := by
  have hsize := holds_size hb hh
  have hpos : headerPos raw base < 8 * raw.size := Nat.mod_lt _ (by omega)
  have hfar' : 500 * 8 ≤ dataAt gapBytes.length sync := by unfold dataAt; omega
  have hsync' : gcrFindSync raw (headerPos raw base) (500 * 8) = .error .sync := by
    apply gcrFindSync_none hpos
    intro i hi
    have := (holds_walk hr hb hgap hsync hh (by omega)).mp hi
    omega
  unfold gcrReadSector
  rw [holds_find hr hb hgap hsync hu hh]
  simp only [hsync']

/-- mirrors src/gcr.c:112-168 and 266-296: a sector written by `gcr_convert_sector_to_GCR` and put
anywhere on the ring reads back, data and error code. -/
theorem gcrReadSector_convert {raw : DiskTrack} {base : Nat} {buffer data : Bytes}
    (header : GcrHeader) (gap sync : Nat) {errorCode : FdcErr} (out : Bytes)
    (hr : Readable errorCode) (hb : buffer.length = 256) (hsync : 2 ≤ sync)
    (hd : 340 + gap + sync ≤ data.length) (hgap : QuietGap ((data.drop 15).take gap))
    (hnear : 10 + gap + sync < 500)
    (hh : raw.Holds base
      ((gcrConvertSectorToGcr buffer data header gap sync errorCode).take (340 + gap + sync)))
    (hu : UniqueHeader raw header.sector) :
    gcrReadSector raw out header.sector = some (errorCode, buffer) := by
  have hg : ((data.drop 15).take gap).length = gap := by
    rw [List.length_take, List.length_drop]; omega
  rw [gcrConvertSectorToGcr_eq header errorCode hb hd,
    List.take_append_of_le_length (by rw [sectorBytes_length hb, hg]),
    List.take_of_length_le (by rw [sectorBytes_length hb, hg])] at hh
  exact gcrReadSector_holds out hr hb hgap hsync (by omega) hh hu

/-! ## A sector on its own -/

theorem DiskTrack.holds_self (raw : DiskTrack) : raw.Holds 0 raw.data := by
  refine ⟨Nat.le_refl _, ?_⟩
  have hlen : (toBits raw.data).length = 8 * raw.data.length := toBits_length _
  unfold DiskTrack.bits
  rw [window_eq_drop_take (by omega), List.drop_zero, List.take_of_length_le (by omega)]

/-- A track that is one sector has one header. -/
theorem lone_unique {buffer gapBytes : Bytes} (header : GcrHeader) {sync : Nat}
    {errorCode : FdcErr} (hr : Readable errorCode) (hb : buffer.length = 256)
    (hgap : QuietGap gapBytes) (hsync : 2 ≤ sync) (sector : UInt8) :
    UniqueHeader ⟨sectorBytes buffer gapBytes header sync errorCode⟩ sector := by
  generalize hraw : (⟨sectorBytes buffer gapBytes header sync errorCode⟩ : DiskTrack) = raw
  have hh : raw.Holds 0 (sectorBytes buffer gapBytes header sync errorCode) := by
    rw [← hraw]; exact DiskTrack.holds_self _
  have hsize := holds_size hb hh
  have hlen := raw.bits_length
  have hone : ∀ p, HeaderAt raw sector p → p = 40 := by
    intro p hp
    have hm := (ringMark_iff (by omega) (by omega)).mp hp.1
    have hbits : raw.bits = toBits (sectorBytes buffer gapBytes header sync errorCode) := by
      rw [← hraw]; rfl
    rw [hbits] at hm
    rcases (sector_marks hr hb hgap header hsync _ p).mp hm with h | h
    · exact h
    · have hdec := (holds_decode hr hb hh).2
      have hhead : headerPos raw 0 = 40 := Nat.mod_eq_of_lt (by omega)
      rw [hhead, Nat.mod_eq_of_lt (by omega), ← h] at hdec
      have h8 := hp.2.1
      rw [← gcrDecodeBlock_first raw p 64, hdec] at h8
      exact absurd h8 (dataBytes_not_header buffer errorCode)
  intro p q hp hq
  rw [hone p hp, hone q hq]

/-- A sector written over filler that just holds it. -/
theorem convert_over_fill {buffer : Bytes} (hb : buffer.length = 256) (header : GcrHeader)
    (gap sync : Nat) (errorCode : FdcErr) :
    gcrConvertSectorToGcr buffer (List.replicate (340 + gap + sync) 0x55) header gap sync errorCode =
      sectorBytes buffer (List.replicate gap 0x55) header sync errorCode := by
  rw [gcrConvertSectorToGcr_eq header errorCode hb (by rw [List.length_replicate]),
    List.drop_replicate, List.drop_replicate, Nat.sub_self, List.replicate_zero, List.append_nil,
    List.take_replicate, Nat.min_eq_left (by omega)]

theorem lone_holds {buffer : Bytes} (hb : buffer.length = 256) (header : GcrHeader)
    (gap sync : Nat) (errorCode : FdcErr) :
    DiskTrack.Holds ⟨sectorBytes buffer (List.replicate gap 0x55) header sync errorCode⟩ 0
      ((gcrConvertSectorToGcr buffer (List.replicate (340 + gap + sync) 0x55) header gap sync
        errorCode).take (340 + gap + sync)) := by
  have hlen := sectorBytes_length hb (List.replicate gap (0x55 : UInt8)) header sync errorCode
  rw [List.length_replicate] at hlen
  rw [convert_over_fill hb, List.take_of_length_le (by omega)]
  exact DiskTrack.holds_self _

theorem gcrReadSector_convert_lone :
    gcrReadSector ⟨sectorBytes (List.replicate 256 0x0f) (List.replicate 4 0x55)
      ⟨3, 18, 0x41, 0x42⟩ 2 .dcheck⟩ [] 3 = some (.dcheck, List.replicate 256 0x0f) := by
  have hr : Readable .dcheck := Or.inr (Or.inr rfl)
  have hread : ∀ buffer : Bytes, buffer.length = 256 →
      gcrReadSector ⟨sectorBytes buffer (List.replicate 4 0x55) ⟨3, 18, 0x41, 0x42⟩ 2 .dcheck⟩ [] 3 =
        some (.dcheck, buffer) := by
    intro buffer hb
    refine gcrReadSector_convert ⟨3, 18, 0x41, 0x42⟩ 4 2 [] hr hb
      (by decide) (by rw [List.length_replicate]) ?_ (by decide)
      (lone_holds hb ⟨3, 18, 0x41, 0x42⟩ 4 2 .dcheck)
      (lone_unique _ hr hb (quietGap_fill 4) (by decide) 3)
    rw [List.drop_replicate, List.take_replicate]
    exact quietGap_fill 4
  exact hread _ List.length_replicate

/-! ## Where the round trip fails -/

/-- Fifteen ones and a zero: with the one before it, a mark inside the gap. -/
def falseGap : Bytes := [0xff, 0xfe]

theorem falseGap_bits : toBits falseGap = List.replicate 15 true ++ [false] := by decide

theorem falseGap_tail_marks (buffer : Bytes) (header : GcrHeader) (errorCode : FdcErr) (i : Nat) :
    Mark 10 0 (tailBits buffer falseGap header 5 errorCode) i ↔ i = 95 ∨ i = 136 := by
  obtain ⟨b, bs, hd, hb⟩ := dataBytes_first buffer errorCode
  obtain ⟨c, hc, hq, -⟩ := block_quiet hb bs
  have hhdr : ∀ i, ¬ Mark 10 0 (byteCodes (headerBytes header errorCode)) i :=
    (byteCodes_quiet _ (Nat.zero_le 4)).2
  have hlen : (byteCodes (headerBytes header errorCode)).length = 80 := byteCodes_length _
  have hgap := mark_sync (k := 10) (r := 1) (n := 15) (c := [])
    (m := List.replicate (8 * 5) true ++ (false :: c)) (by omega) (quiet_nil _ _) (i := i - 80)
  have hdat := mark_sync (k := 10) (r := 0) (n := 8 * 5) (c := c) (m := []) (by omega) hq
    (i := i - 80 - 16)
  rw [List.append_nil] at hdat
  unfold tailBits
  rw [hd, hc, falseGap_bits, mark_append, header_end, hlen, List.append_assoc]
  rw [List.cons_append] at hgap
  rw [List.singleton_append, ← List.nil_append (List.replicate (8 * 5) true ++ _), hgap]
  simp only [List.length_nil, runAfter_nil, Nat.zero_add]
  rw [show 15 + 1 = 16 from rfl, hdat]
  constructor
  · rintro (h | ⟨h1, h | ⟨h2, h | ⟨-, h⟩⟩⟩)
    · exact absurd h (hhdr i)
    · omega
    · omega
    · exact absurd h (quiet_nil _ _ _)
  · rintro (h | h)
    · exact Or.inr ⟨by omega, Or.inl (by omega)⟩
    · exact Or.inr ⟨by omega, Or.inr ⟨by omega, Or.inl (by omega)⟩⟩

section
variable {raw : DiskTrack} {buffer : Bytes} {header : GcrHeader}

/-- What is decoded at the mark in the gap is neither a header nor a data block. -/
theorem falseGap_decode (hb : buffer.length = 256)
    (hh : raw.Holds 0 (sectorBytes buffer falseGap header 5 .ok)) :
    (gcrDecodeBlock raw 135 1).getD 0 0 = 0x50 := by
  have hsize := holds_size hb hh
  have htail := holds_tail (Or.inl rfl) hb hh
  have hhead : headerPos raw 0 = 40 := Nat.mod_eq_of_lt (by omega)
  have hsplit : tailBits buffer falseGap header 5 .ok =
      (byteCodes (headerBytes header .ok) ++ List.replicate 15 true) ++
        ((false :: List.replicate 39 true) ++ (true :: byteCodes (dataBytes buffer .ok))) := by
    unfold tailBits
    rw [falseGap_bits]
    simp only [List.append_assoc]
    rfl
  rw [hsplit, hhead] at htail
  have hw := window_part htail
  rw [List.length_append, byteCodes_length, List.length_replicate] at hw
  rw [gcrDecodeBlock_one [0x7f, 0xff, 0xff, 0xff, 0xff] (by omega)
    (by rw [show toBits [0x7f, 0xff, 0xff, 0xff, 0xff] = false :: List.replicate 39 true by decide];
        exact hw)]
  decide

theorem falseGap_header (hb : buffer.length = 256)
    (hraw : raw.data = sectorBytes buffer falseGap header 5 .ok) {sector : UInt8} {p : Nat}
    (hp : HeaderAt raw sector p) : p = 40 := by
  have hh : raw.Holds 0 (sectorBytes buffer falseGap header 5 .ok) := by
    rw [← hraw]; exact raw.holds_self
  have hsize := holds_size hb hh
  have hlen := raw.bits_length
  have hm := (ringMark_iff (by omega) (by omega)).mp hp.1
  rw [DiskTrack.bits, hraw, sector_marks_tail (Or.inl rfl) hb, falseGap_tail_marks] at hm
  rcases hm with h | ⟨-, h | h⟩
  · exact h
  · have h8 := hp.2.1
    rw [show p = 135 by omega, falseGap_decode hb hh] at h8
    exact absurd h8 (by decide)
  · have hdec := (holds_decode (Or.inl rfl) hb hh).2
    have hhead : headerPos raw 0 = 40 := Nat.mod_eq_of_lt (by omega)
    have hdat : dataAt falseGap.length 5 = 136 := by decide
    rw [hhead, hdat, Nat.mod_eq_of_lt (by omega), show 40 + 136 = p by omega] at hdec
    have h8 := hp.2.1
    rw [← gcrDecodeBlock_first raw p 64, hdec] at h8
    exact absurd h8 (dataBytes_not_header buffer .ok)

/-- The reader takes the mark in the gap for the data block's. -/
theorem falseGap_read (out : Bytes) (hb : buffer.length = 256)
    (hraw : raw.data = sectorBytes buffer falseGap header 5 .ok) :
    ∃ data, gcrReadSector raw out header.sector = some (.noblock, data) := by
  have hh : raw.Holds 0 (sectorBytes buffer falseGap header 5 .ok) := by
    rw [← hraw]; exact raw.holds_self
  have hsize := holds_size hb hh
  have hlen := raw.bits_length
  have hdat : dataAt falseGap.length 5 = 136 := by decide
  rw [hdat] at hsize
  have hhead : headerPos raw 0 = 40 := Nat.mod_eq_of_lt (by omega)
  have hheader : HeaderAt raw header.sector 40 := by
    refine ⟨(ringMark_iff (by omega) (by omega)).mpr ?_, ?_⟩
    · rw [DiskTrack.bits, hraw, sector_marks_tail (Or.inl rfl) hb]
      exact Or.inl rfl
    · have hdec := (holds_decode (Or.inl rfl) hb hh).1
      rw [hhead] at hdec
      rw [hdec]
      exact ⟨rfl, rfl⟩
  have hfind : gcrFindSectorHeader raw header.sector = some (.ok 40) := by
    refine gcrFindSectorHeader_eq hheader (fun q hq => falseGap_header hb hraw hq) (i := 40)
      (RingMark.mark (by omega) (by omega) (by omega) ?_)
    rw [Nat.zero_add, hlen, Nat.mod_eq_of_lt (by omega)]
    exact hheader.1
  have hwalk : ∀ {n i}, n ≤ 96 → i < n → (Mark 10 0 (window raw.bits 40 n) i ↔ i = 95) := by
    intro n i hn hi
    have htail := holds_tail (Or.inl rfl) hb hh
    have hl : (tailBits buffer falseGap header 5 .ok).length = 2736 := by
      rw [tailBits_length hb, hdat]
    rw [hhead, hl] at htail
    rw [mark_window_le (n := 2736) (by omega) hi, htail, falseGap_tail_marks]
    omega
  have hsync : gcrFindSync raw 40 (500 * 8) = .ok 135 := by
    rw [gcrFindSync_first (i := 95) (by omega), Nat.mod_eq_of_lt (by omega)]
    · rw [← mark_window_le (m := 96) (by omega) (by omega), hwalk (Nat.le_refl _) (by omega)]
    · intro i hi
      have hlt := hi.lt
      rw [window_length] at hlt
      have := (hwalk (by omega) hlt).mp hi
      omega
  have hfirst := gcrDecodeBlock_first raw 135 64
  rw [falseGap_decode hb hh] at hfirst
  unfold gcrReadSector
  rw [hfind]
  simp only [hsync, hfirst]
  exact ⟨_, if_pos (by decide)⟩

end

/-- Neither a quiet gap nor a near data block is enough on its own: with a gap of 490 bytes the data
block is out of reach, and a mark inside a short gap is taken for its own. -/
theorem gcrReadSector_convert_not_always :
    (¬ ∀ (raw : DiskTrack) (base : Nat) (buffer data out : Bytes) (header : GcrHeader)
      (gap sync : Nat) (errorCode : FdcErr), Readable errorCode → buffer.length = 256 → 2 ≤ sync →
      340 + gap + sync ≤ data.length → QuietGap ((data.drop 15).take gap) →
      raw.Holds base
        ((gcrConvertSectorToGcr buffer data header gap sync errorCode).take (340 + gap + sync)) →
      UniqueHeader raw header.sector →
      gcrReadSector raw out header.sector = some (errorCode, buffer)) ∧
    (¬ ∀ (raw : DiskTrack) (base : Nat) (buffer data out : Bytes) (header : GcrHeader)
      (gap sync : Nat) (errorCode : FdcErr), Readable errorCode → buffer.length = 256 → 2 ≤ sync →
      340 + gap + sync ≤ data.length → 10 + gap + sync < 500 →
      raw.Holds base
        ((gcrConvertSectorToGcr buffer data header gap sync errorCode).take (340 + gap + sync)) →
      UniqueHeader raw header.sector →
      gcrReadSector raw out header.sector = some (errorCode, buffer)) := by
  have hb : (List.replicate 256 (0 : UInt8)).length = 256 := List.length_replicate
  have hr : Readable .ok := Or.inl rfl
  constructor
  · intro hall
    have hholds := lone_holds hb ⟨0, 1, 0x41, 0x42⟩ 490 2 .ok
    have hu := lone_unique ⟨0, 1, 0x41, 0x42⟩ hr hb (quietGap_fill 490)
      (by decide : 2 ≤ 2) 0
    have hgap : QuietGap (((List.replicate (340 + 490 + 2) (0x55 : UInt8)).drop 15).take 490) := by
      rw [List.drop_replicate, List.take_replicate]
      exact quietGap_fill _
    have hread := hall _ 0 _ _ [] _ 490 2 .ok hr hb (by decide) (by rw [List.length_replicate]) hgap
      hholds hu
    have hfar := gcrReadSector_far [] hr hb (quietGap_fill 490) (by decide)
      (by rw [List.length_replicate]; decide)
      (DiskTrack.holds_self ⟨sectorBytes (List.replicate 256 0)
        (List.replicate 490 0x55) ⟨0, 1, 0x41, 0x42⟩ 2 .ok⟩) hu
    rw [hfar] at hread
    cases hread
  · intro hall
    have hdata : (List.replicate 15 (0x55 : UInt8) ++ (falseGap ++ List.replicate 330 0x55)).length =
        340 + 2 + 5 := by
      simp only [List.length_append, List.length_replicate]; rfl
    have heq := gcrConvertSectorToGcr_eq ⟨0, 1, 0x41, 0x42⟩ .ok hb (Nat.le_of_eq hdata.symm)
    rw [List.drop_eq_nil_of_le (Nat.le_of_eq hdata), List.append_nil,
      List.drop_append_of_le_length (by rw [List.length_replicate]), List.drop_replicate,
      Nat.sub_self, List.replicate_zero, List.nil_append,
      List.take_append_of_le_length (by decide), show falseGap.take 2 = falseGap from rfl] at heq
    have hlen := sectorBytes_length hb falseGap ⟨0, 1, 0x41, 0x42⟩ 5 .ok
    rw [show falseGap.length = 2 from rfl] at hlen
    have hholds := DiskTrack.holds_self ⟨sectorBytes (List.replicate 256 0) falseGap
      ⟨0, 1, 0x41, 0x42⟩ 5 .ok⟩
    have hu : UniqueHeader ⟨sectorBytes (List.replicate 256 0) falseGap ⟨0, 1, 0x41, 0x42⟩ 5 .ok⟩ 0 := by
      intro p q hp hq
      rw [falseGap_header hb rfl hp, falseGap_header hb rfl hq]
    have hread := hall _ 0 _ _ [] ⟨0, 1, 0x41, 0x42⟩ 2 5 .ok hr hb (by decide)
      (Nat.le_of_eq hdata.symm) (by decide)
      (by rw [heq, List.take_of_length_le (Nat.le_of_eq hlen)]; exact hholds) hu
    obtain ⟨data, hfalse⟩ := @falseGap_read ⟨sectorBytes (List.replicate 256 0) falseGap
      ⟨0, 1, 0x41, 0x42⟩ 5 .ok⟩ _ ⟨0, 1, 0x41, 0x42⟩ [] hb rfl
    rw [hfalse] at hread
    cases hread

end Vice.L1.Gcr
