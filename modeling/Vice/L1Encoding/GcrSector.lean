import Vice.L1Encoding.GcrTrack

/-!
# GCR sectors (`gcr.c`)

`gcr_convert_sector_to_GCR` writes a sector into a track buffer: a sync mark, a
coded header, a gap it skips over, a second sync mark and the coded data block
with its checksum. The error code picks what is spoiled on the way.

`gcrConvertSectorToGcr_eq` gives the bytes written, as pieces in order: the gap's bytes
are the ones the buffer held.
-/
namespace Vice.L1.Gcr
open Vice.L0.BitRun

/-- mirrors src/gcr.h:61-63 (`gcr_header_t`) -/
structure GcrHeader where
  sector : UInt8
  track : UInt8
  id2 : UInt8
  id1 : UInt8
  deriving DecidableEq, Repr

/-- `bs` stored at `off` (`memcpy`, `memset`). -/
def put (data : Bytes) (off : Nat) (bs : Bytes) : Bytes :=
  data.take off ++ bs ++ data.drop (off + bs.length)

/-- The loop of `gcr_convert_sector_to_GCR` over whole groups of the buffer. -/
def gcrConvertSectorToGcr.loop : Nat → Bytes → Bytes → Nat → UInt8 → Bytes × Bytes × Nat × UInt8
  | 0, buffer, data, off, chksum => (buffer, data, off, chksum)
  | i + 1, buffer, data, off, chksum =>
    let chksum := chksum ^^^
      (buffer.getD 0 0 ^^^ buffer.getD 1 0 ^^^ buffer.getD 2 0 ^^^ buffer.getD 3 0)
    let data := put data off (gcrConvert4bytesToGcr (buffer.take 4))
    gcrConvertSectorToGcr.loop i (buffer.drop 4) data (off + 5) chksum

/-- mirrors src/gcr.c:112-168 (`gcr_convert_sector_to_GCR`) -/
def gcrConvertSectorToGcr (buffer data : Bytes) (header : GcrHeader) (gap sync : Nat)
    (errorCode : FdcErr) : Bytes :=
  let idm : UInt8 := if errorCode = .id then 0xff else 0x00
  let syncByte : UInt8 := if errorCode = .sync then 0x55 else 0xff
  let data := put data 0 (List.replicate 5 syncByte)
  let chksum : UInt8 := if errorCode = .hcheck then 0xff else 0x00
  let chksum := chksum ^^^ (header.sector ^^^ header.track ^^^ header.id2 ^^^ header.id1 ^^^ idm)
  let data := put data 5 (gcrConvert4bytesToGcr
    [if errorCode = .header then 0xff else 0x08, chksum, header.sector, header.track])
  let data := put data 10 (gcrConvert4bytesToGcr [header.id2, header.id1 ^^^ idm, 0x0f, 0x0f])
  let off := 15 + gap
  let data := put data off (List.replicate sync syncByte)
  let off := off + sync
  let chksum : UInt8 := if errorCode = .dcheck then 0xff else 0x00
  let buf0 : UInt8 := if errorCode = .noblock then 0x00 else 0x07
  let chksum := chksum ^^^ (buffer.getD 0 0 ^^^ buffer.getD 1 0 ^^^ buffer.getD 2 0)
  let data := put data off (gcrConvert4bytesToGcr (buf0 :: buffer.take 3))
  let (buffer, data, off, chksum) :=
    gcrConvertSectorToGcr.loop 63 (buffer.drop 3) data (off + 5) chksum
  put data off (gcrConvert4bytesToGcr [buffer.getD 0 0, chksum ^^^ buffer.getD 0 0, 0, 0])

/-! ## What is written -/

@[simp] theorem put_length {data bs : Bytes} {off : Nat} (h : off + bs.length ≤ data.length) :
    (put data off bs).length = data.length := by
  simp only [put, List.length_append, List.length_take, List.length_drop]
  omega

theorem put_put (data as bs : Bytes) (off : Nat) (h : off + as.length ≤ data.length) :
    put (put data off as) (off + as.length) bs = put data off (as ++ bs) := by
  have hl : (data.take off).length = off := by rw [List.length_take]; omega
  have ht : (put data off as).take (off + as.length) = data.take off ++ as := by
    unfold put
    rw [List.take_append_of_le_length (by simp only [List.length_append, hl]; omega),
      List.take_of_length_le (by simp only [List.length_append, hl]; omega)]
  have hd : (put data off as).drop (off + as.length + bs.length) =
      data.drop (off + (as ++ bs).length) := by
    unfold put
    rw [List.drop_append, List.drop_eq_nil_of_le (by simp only [List.length_append, hl]; omega),
      List.nil_append, List.drop_drop, List.length_append, List.length_append, hl]
    congr 1
    omega
  unfold put at *
  rw [ht, hd]
  simp only [List.append_assoc]

theorem xor_foldl (c : UInt8) (bs : Bytes) : bs.foldl (· ^^^ ·) c = c ^^^ bs.foldl (· ^^^ ·) 0 := by
  induction bs generalizing c with
  | nil => simp
  | cons b bs ih =>
    rw [List.foldl_cons, List.foldl_cons, ih, ih (0 ^^^ b), UInt8.xor_assoc, UInt8.zero_xor]

theorem four_bytes {buffer : Bytes} (h : 4 ≤ buffer.length) :
    ∃ a b c d rest, buffer = a :: b :: c :: d :: rest := by
  match buffer, h with
  | a :: b :: c :: d :: rest, _ => exact ⟨a, b, c, d, rest, rfl⟩

theorem convertLoop_eq (n : Nat) {buffer data : Bytes} {off : Nat} (chksum : UInt8)
    (hb : 4 * n ≤ buffer.length) (hd : off + 5 * n ≤ data.length) :
    gcrConvertSectorToGcr.loop n buffer data off chksum =
      (buffer.drop (4 * n), put data off (encode (buffer.take (4 * n))), off + 5 * n,
        (buffer.take (4 * n)).foldl (· ^^^ ·) chksum) := by
  induction n generalizing buffer data off chksum with
  | zero => simp [gcrConvertSectorToGcr.loop, encode, put]
  | succ n ih =>
    obtain ⟨a, b, c, d, rest, rfl⟩ := four_bytes (show 4 ≤ buffer.length by omega)
    simp only [List.length_cons] at hb
    have h5 : (gcrConvert4bytesToGcr [a, b, c, d]).length = 5 := rfl
    rw [gcrConvertSectorToGcr.loop]
    simp only [List.getD_cons_zero, List.getD_cons_succ, List.take_succ_cons, List.take_zero,
      List.drop_succ_cons, List.drop_zero]
    rw [ih _ (by omega) (by rw [put_length (by omega)]; omega)]
    simp only [show 4 * (n + 1) = 4 * n + 1 + 1 + 1 + 1 by omega, List.drop_succ_cons,
      List.take_succ_cons, encode, List.foldl_cons]
    rw [← h5, put_put _ _ _ _ (by omega), h5]
    simp only [UInt8.xor_assoc, show off + 5 + 5 * n = off + 5 * (n + 1) by omega]

/-- The eight bytes of a header block. -/
def headerBytes (header : GcrHeader) (errorCode : FdcErr) : Bytes :=
  let idm : UInt8 := if errorCode = .id then 0xff else 0x00
  [if errorCode = .header then 0xff else 0x08,
    (if errorCode = .hcheck then 0xff else 0x00) ^^^
      (header.sector ^^^ header.track ^^^ header.id2 ^^^ header.id1 ^^^ idm),
    header.sector, header.track, header.id2, header.id1 ^^^ idm, 0x0f, 0x0f]

/-- The 260 bytes of a data block. -/
def dataBytes (buffer : Bytes) (errorCode : FdcErr) : Bytes :=
  (if errorCode = .noblock then 0x00 else 0x07) :: buffer ++
    [buffer.foldl (· ^^^ ·) (if errorCode = .dcheck then 0xff else 0x00), 0, 0]

/-- A written sector, piece by piece. -/
def sectorBytes (buffer gapBytes : Bytes) (header : GcrHeader) (sync : Nat) (errorCode : FdcErr) :
    Bytes :=
  let syncByte : UInt8 := if errorCode = .sync then 0x55 else 0xff
  List.replicate 5 syncByte ++ (encode (headerBytes header errorCode) ++ (gapBytes ++
    (List.replicate sync syncByte ++ encode (dataBytes buffer errorCode))))

theorem dataBytes_length {buffer : Bytes} (h : buffer.length = 256) (errorCode : FdcErr) :
    (dataBytes buffer errorCode).length = 4 * 65 := by
  simp [dataBytes, h]

theorem sectorBytes_length {buffer : Bytes} (h : buffer.length = 256) (gapBytes : Bytes)
    (header : GcrHeader) (sync : Nat) (errorCode : FdcErr) :
    (sectorBytes buffer gapBytes header sync errorCode).length = 340 + gapBytes.length + sync := by
  have h1 : (encode (headerBytes header errorCode)).length = 5 * 2 := encode_length 2 rfl
  have h2 := encode_length 65 (dataBytes_length h errorCode)
  simp only [sectorBytes, List.length_append, List.length_replicate, h1, h2]
  omega

/-- The data block is coded group by group across the buffer. -/
theorem dataBytes_split {buffer : Bytes} (h : buffer.length = 256) (errorCode : FdcErr)
    (buf0 c0 : UInt8) (h0 : buf0 = if errorCode = .noblock then 0x00 else 0x07)
    (hc : c0 = if errorCode = .dcheck then 0xff else 0x00) :
    encode (dataBytes buffer errorCode) =
      gcrConvert4bytesToGcr (buf0 :: buffer.take 3) ++
      (encode ((buffer.drop 3).take 252) ++
      gcrConvert4bytesToGcr [((buffer.drop 3).drop 252).getD 0 0,
        ((buffer.drop 3).take 252).foldl (· ^^^ ·)
          (c0 ^^^ (buffer.getD 0 0 ^^^ buffer.getD 1 0 ^^^ buffer.getD 2 0)) ^^^
          ((buffer.drop 3).drop 252).getD 0 0, 0, 0]) := by
  match buffer, h with
  | x :: y :: z :: rest, h =>
    simp only [List.length_cons] at h
    have hr : rest.length = 253 := by omega
    obtain ⟨last, hlast⟩ : ∃ last, rest.drop 252 = [last] := by
      have : (rest.drop 252).length = 1 := by rw [List.length_drop]; omega
      exact List.length_eq_one_iff.mp this
    have hsplit : rest = rest.take 252 ++ [last] := by rw [← hlast, List.take_append_drop]
    have hlen : (rest.take 252).length = 4 * 63 := by rw [List.length_take]; omega
    simp only [List.drop_succ_cons, List.drop_zero, List.take_succ_cons, List.take_zero,
      List.getD_cons_zero, List.getD_cons_succ, hlast]
    generalize rest.take 252 = front at *
    subst hsplit
    simp only [dataBytes, List.cons_append, List.append_assoc, encode, List.nil_append, ← h0, ← hc,
      List.foldl_cons, List.foldl_append, List.foldl_nil]
    rw [encode_append 63 _ hlen]
    simp only [encode, List.append_nil, UInt8.xor_assoc]

/-- Two stores that leave a gap between them. -/
theorem put_gap (data as bs : Bytes) (gap : Nat) : put (put data 0 as) (as.length + gap) bs =
      as ++ ((data.drop as.length).take gap ++ (bs ++ data.drop (as.length + gap + bs.length))) := by
  simp only [put, List.take_zero, List.nil_append, Nat.zero_add, Nat.add_assoc,
    List.take_length_add_append, List.drop_length_add_append, List.append_assoc, List.drop_drop]

theorem gcrConvertSectorToGcr_eq {buffer data : Bytes} (header : GcrHeader) {gap sync : Nat}
    (errorCode : FdcErr) (hb : buffer.length = 256) (hd : 340 + gap + sync ≤ data.length) :
    gcrConvertSectorToGcr buffer data header gap sync errorCode =
      sectorBytes buffer ((data.drop 15).take gap) header sync errorCode ++
        data.drop (340 + gap + sync) := by
  unfold gcrConvertSectorToGcr sectorBytes
  simp only [headerBytes, encode, List.append_nil]
  rw [dataBytes_split hb errorCode _ _ rfl rfl]
  generalize (if errorCode = FdcErr.sync then (0x55 : UInt8) else 0xff) = syncByte
  generalize hH1 : gcrConvert4bytesToGcr [if errorCode = .header then 0xff else 0x08, _, _, _] = H1
  generalize hH2 : gcrConvert4bytesToGcr [header.id2, _, _, _] = H2
  have l1 : H1.length = 5 := by rw [← hH1]; rfl
  have l2 : H2.length = 5 := by rw [← hH2]; rfl
  have l0 : (List.replicate 5 syncByte).length = 5 := List.length_replicate
  have hA : put (put (put data 0 (List.replicate 5 syncByte)) 5 H1) 10 H2 =
      put data 0 (List.replicate 5 syncByte ++ H1 ++ H2) := by
    have e1 := put_put data (List.replicate 5 syncByte) H1 0
      (by rw [l0]; omega)
    have e2 := put_put data (List.replicate 5 syncByte ++ H1) H2 0
      (by rw [List.length_append, l0, l1]; omega)
    rw [l0, Nat.zero_add] at e1
    rw [List.length_append, l0, l1, Nat.zero_add] at e2
    rw [e1, e2]
  rw [hA]
  have lA : (List.replicate 5 syncByte ++ H1 ++ H2).length = 15 := by
    rw [List.length_append, List.length_append, l0, l1, l2]
  generalize hAA : List.replicate 5 syncByte ++ H1 ++ H2 = A at lA
  have hdA : (put data 0 A).length = data.length := put_length (by omega)
  have hgap := put_gap data A
  rw [lA] at hgap
  generalize put data 0 A = data' at hdA hgap
  have h5 : ∀ b, (gcrConvert4bytesToGcr (b :: buffer.take 3)).length = 5 := by
    intro b
    obtain ⟨x, y, z, _, rest, rfl⟩ := four_bytes (show 4 ≤ buffer.length by omega)
    rfl
  have hS : (List.replicate sync syncByte).length = sync := List.length_replicate
  have l3 : (buffer.drop 3).length = 253 := by rw [List.length_drop, hb]
  have h252 := @encode_length 63 ((buffer.drop 3).take 252) (by rw [List.length_take, l3]; rfl)
  -- the second half is one store at the end of the gap
  have hB : ∀ G1 E G2 : Bytes, G1.length = 5 → E.length = 5 * 63 → G2.length = 5 →
      put (put (put (put data' (15 + gap) (List.replicate sync syncByte)) (15 + gap + sync) G1)
        (15 + gap + sync + 5) E) (15 + gap + sync + 5 + 5 * 63) G2 =
      put data' (15 + gap) (List.replicate sync syncByte ++ (G1 ++ (E ++ G2))) := by
    intro G1 E G2 g1 e g2
    have p1 := put_put data' (List.replicate sync syncByte) G1 (15 + gap)
      (by rw [hS]; omega)
    have p2 := put_put data' (List.replicate sync syncByte ++ G1) E (15 + gap)
      (by rw [List.length_append, hS, g1]; omega)
    have p3 := put_put data' (List.replicate sync syncByte ++ G1 ++ E) G2 (15 + gap)
      (by rw [List.length_append, List.length_append, hS, g1, e]; omega)
    rw [hS] at p1
    rw [List.length_append, hS, g1, ← Nat.add_assoc] at p2
    rw [List.length_append, List.length_append, hS, g1, e, ← Nat.add_assoc, ← Nat.add_assoc] at p3
    rw [p1, p2, p3]
    simp only [List.append_assoc]
  have hdS : (put data' (15 + gap) (List.replicate sync syncByte)).length = data'.length :=
    put_length (by rw [hS]; omega)
  rw [convertLoop_eq 63 _ (by omega) (by rw [put_length (by rw [h5, hdS]; omega), hdS]; omega)]
  simp only [show 4 * 63 = 252 from rfl]
  rw [hB _ _ _ (h5 _) h252 rfl, hgap, ← hAA]
  have h4 : ∀ x y : UInt8, (gcrConvert4bytesToGcr [x, y, 0, 0]).length = 5 := fun _ _ => rfl
  simp only [List.append_assoc, List.length_append, hS, h5, h252, h4]
  congr 9
  omega

end Vice.L1.Gcr
