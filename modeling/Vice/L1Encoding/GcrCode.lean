import Vice.L0Core.BitRun

/-!
# GCR code groups (`gcr.c`)

Four bytes are written as five: each nybble becomes a five-bit code
(`gcrConvData`), most significant bit first. `gcr_convert_4bytes_to_GCR` shifts
the codes through an unsigned register and cuts bytes off it;
`gcr_convert_GCR_to_4bytes` shifts the bytes back and looks every five bits up
in `fromGcrConvData`.

Results:
* `toBits_gcrConvert4bytesToGcr`: the five bytes are the eight codes in order.
* `gcrConvertGcrTo4bytes_convert`: the reader undoes the writer.
-/
namespace Vice.L1.Gcr
open Vice.L0.BitRun

abbrev Bytes := List UInt8

/-- mirrors src/gcr.c:52-58 -/
def gcrConvData : Bytes :=
  [0x0a, 0x0b, 0x12, 0x13,
   0x0e, 0x0f, 0x16, 0x17,
   0x09, 0x19, 0x1a, 0x1b,
   0x0d, 0x1d, 0x1e, 0x15]

/-- mirrors src/gcr.c:60-66 -/
def fromGcrConvData : Bytes :=
  [0, 0, 0, 0, 0, 0, 0, 0,
   0, 8, 0, 1, 0, 12, 4, 5,
   0, 0, 2, 3, 0, 15, 6, 7,
   0, 9, 10, 11, 0, 13, 14, 0]

/-- The code of a nybble. -/
def toGcr (n : UInt8) : UInt8 := gcrConvData.getD n.toNat 0

/-- The nybble of a code. -/
def fromGcr (c : UInt8) : UInt8 := fromGcrConvData.getD c.toNat 0

/-- The loop of `gcr_convert_4bytes_to_GCR`: `tdest` is the shift register and
`i` the position of the next byte in it. -/
def gcrConvert4bytesToGcr.loop (tdest : UInt32) (i : UInt32) : Bytes → Bytes
  | [] => [tdest.toUInt8]
  | b :: source =>
    let tdest := tdest <<< 5 ||| (toGcr (b >>> 4)).toUInt32
    let tdest := tdest <<< 5 ||| (toGcr (b &&& 0x0f)).toUInt32
    (tdest >>> i).toUInt8 :: gcrConvert4bytesToGcr.loop tdest (i + 2) source

/-- mirrors src/gcr.c:68-86 (`gcr_convert_4bytes_to_GCR`); `source` is four bytes long. -/
def gcrConvert4bytesToGcr (source : Bytes) : Bytes := gcrConvert4bytesToGcr.loop 0 2 source

/-- The loop of `gcr_convert_GCR_to_4bytes`. -/
def gcrConvertGcrTo4bytes.loop (tdest : UInt32) (i : UInt32) : Bytes → Bytes
  | [] => []
  | b :: source =>
    let tdest := tdest ||| b.toUInt32 <<< i
    let hi := fromGcr ((tdest >>> 16) &&& 0x1f).toUInt8 <<< 4
    let tdest := tdest <<< 5
    let lo := fromGcr ((tdest >>> 16) &&& 0x1f).toUInt8
    (hi ||| lo) :: gcrConvertGcrTo4bytes.loop (tdest <<< 5) (i + 2) source

/-- mirrors src/gcr.c:88-110 (`gcr_convert_GCR_to_4bytes`); `source` is five bytes long. -/
def gcrConvertGcrTo4bytes : Bytes → Bytes
  | [] => []
  | s0 :: source => gcrConvertGcrTo4bytes.loop (s0.toUInt32 <<< 13) 5 source

/-! ## Codes as numbers -/

theorem toGcr_lt : ∀ n : UInt8, (toGcr n).toNat < 32 := by
  intro n
  unfold toGcr
  by_cases h : n.toNat < 16
  · have key : ∀ i < 16, (gcrConvData.getD i 0).toNat < 32 := by decide
    exact key _ h
  · rw [List.getD_eq_default _ _ (by simp [gcrConvData]; omega)]; decide

theorem fromGcr_toGcr (n : UInt8) (h : n.toNat < 16) : fromGcr (toGcr n) = n := by
  have key : ∀ i < 16, fromGcr (gcrConvData.getD i 0) = UInt8.ofNat i := by decide
  unfold toGcr
  rw [key _ h, UInt8.ofNat_toNat]

theorem hi_toNat (b : UInt8) : (b >>> 4).toNat = b.toNat / 16 := by
  rw [UInt8.toNat_shiftRight]; simp [Nat.shiftRight_eq_div_pow]

theorem lo_toNat (b : UInt8) : (b &&& 0x0f).toNat = b.toNat % 16 := by
  rw [UInt8.toNat_and]
  exact Nat.and_two_pow_sub_one_eq_mod b.toNat 4

/-- The register after one code: five bits further, the code in the low bits. -/
theorem shift5_or (t : UInt32) (c : UInt8) (hc : c.toNat < 32) :
    (t <<< 5 ||| c.toUInt32).toNat = (t.toNat * 32 + c.toNat) % 2 ^ 32 := by
  rw [UInt32.toNat_or, UInt32.toNat_shiftLeft, UInt8.toNat_toUInt32]
  have h5 : (5 : UInt32).toNat % 32 = 5 := rfl
  rw [h5]
  have hlt : t.toNat < 2 ^ 32 := t.toNat_lt
  have e : t.toNat <<< 5 % 2 ^ 32 = (t.toNat % 2 ^ 27) <<< 5 := by
    simp only [Nat.shiftLeft_eq]; omega
  rw [e, ← Nat.shiftLeft_add_eq_or_of_lt (by omega), Nat.shiftLeft_eq]
  omega

theorem shiftRight_toUInt8 (t : UInt32) (i : UInt32) (hi : i.toNat < 32) :
    (t >>> i).toUInt8.toNat = t.toNat / 2 ^ i.toNat % 256 := by
  rw [UInt32.toNat_toUInt8, UInt32.toNat_shiftRight, Nat.mod_eq_of_lt hi, Nat.shiftRight_eq_div_pow]

/-- The five bytes of eight codes. -/
def packCodes (c0 c1 c2 c3 c4 c5 c6 c7 : Nat) : List Nat :=
  [c0 * 8 + c1 / 4, c1 % 4 * 64 + c2 * 2 + c3 / 16, c3 % 16 * 16 + c4 / 2,
   c4 % 2 * 128 + c5 * 4 + c6 / 8, c6 % 8 * 32 + c7]

/-- The codes of four bytes, as numbers. -/
def codesOf (b : UInt8) : Nat × Nat := ((toGcr (b >>> 4)).toNat, (toGcr (b &&& 0x0f)).toNat)

theorem codesOf_lt (b : UInt8) : (codesOf b).1 < 32 ∧ (codesOf b).2 < 32 :=
  ⟨toGcr_lt _, toGcr_lt _⟩

theorem gcrConvert4bytesToGcr_toNat (a b c d : UInt8) : (gcrConvert4bytesToGcr [a, b, c, d]).map UInt8.toNat =
      packCodes (codesOf a).1 (codesOf a).2 (codesOf b).1 (codesOf b).2
        (codesOf c).1 (codesOf c).2 (codesOf d).1 (codesOf d).2 := by
  have ha := codesOf_lt a
  have hb := codesOf_lt b
  have hc := codesOf_lt c
  have hd := codesOf_lt d
  simp only [codesOf] at *
  simp only [gcrConvert4bytesToGcr, gcrConvert4bytesToGcr.loop, List.map_cons, List.map_nil, packCodes]
  have e2 : (2 : UInt32).toNat = 2 := rfl
  have e4 : (2 + 2 : UInt32).toNat = 4 := rfl
  have e6 : (2 + 2 + 2 : UInt32).toNat = 6 := rfl
  have e8 : (2 + 2 + 2 + 2 : UInt32).toNat = 8 := rfl
  rw [shiftRight_toUInt8 _ _ (by rw [e2]; decide), shiftRight_toUInt8 _ _ (by rw [e4]; decide),
    shiftRight_toUInt8 _ _ (by rw [e6]; decide), shiftRight_toUInt8 _ _ (by rw [e8]; decide),
    UInt32.toNat_toUInt8]
  simp only [shift5_or _ _ (toGcr_lt _), e2, e4, e6, e8, UInt32.toNat_zero]
  generalize (toGcr (a >>> 4)).toNat = c0 at *
  generalize (toGcr (a &&& 0x0f)).toNat = c1 at *
  generalize (toGcr (b >>> 4)).toNat = c2 at *
  generalize (toGcr (b &&& 0x0f)).toNat = c3 at *
  generalize (toGcr (c >>> 4)).toNat = c4 at *
  generalize (toGcr (c &&& 0x0f)).toNat = c5 at *
  generalize (toGcr (d >>> 4)).toNat = c6 at *
  generalize (toGcr (d &&& 0x0f)).toNat = c7 at *
  simp only [List.cons.injEq, and_true]
  refine ⟨?_, ?_, ?_, ?_, ?_⟩ <;> omega

/-! ## The reader undoes the writer -/

theorem or_shift (t : UInt32) (b : UInt8) (i : UInt32) (hi : i.toNat ≤ 11)
    (ht : t.toNat % 2 ^ (i.toNat + 8) = 0) :
    (t ||| b.toUInt32 <<< i).toNat = t.toNat + b.toNat * 2 ^ i.toNat := by
  have hb : b.toNat < 2 ^ 8 := b.toNat_lt
  have hp : 2 ^ (8 + i.toNat) ≤ 2 ^ 19 := Nat.pow_le_pow_right (by decide) (by omega)
  have hlt : b.toNat * 2 ^ i.toNat < 2 ^ (8 + i.toNat) := by
    rw [Nat.pow_add]; exact Nat.mul_lt_mul_of_pos_right hb (Nat.two_pow_pos _)
  rw [UInt32.toNat_or, UInt32.toNat_shiftLeft, UInt8.toNat_toUInt32,
    Nat.mod_eq_of_lt (show i.toNat < 32 by omega), Nat.shiftLeft_eq,
    Nat.mod_eq_of_lt (show b.toNat * 2 ^ i.toNat < 2 ^ 32 by omega)]
  obtain ⟨q, hq⟩ := Nat.dvd_of_mod_eq_zero ht
  rw [hq, Nat.add_comm i.toNat 8, ← Nat.two_pow_add_eq_or_of_lt hlt]

/-- The code at the reading position of the register. -/
theorem code_at (t : UInt32) : ((t >>> 16) &&& 0x1f).toUInt8.toNat = t.toNat / 2 ^ 16 % 32 := by
  rw [UInt32.toNat_toUInt8, UInt32.toNat_and, UInt32.toNat_shiftRight,
    show (16 : UInt32).toNat % 32 = 16 from rfl, Nat.shiftRight_eq_div_pow,
    show (0x1f : UInt32).toNat = 2 ^ 5 - 1 from rfl, Nat.and_two_pow_sub_one_eq_mod]
  omega

theorem shl5 (t : UInt32) : (t <<< 5).toNat = t.toNat * 32 % 2 ^ 32 := by
  rw [UInt32.toNat_shiftLeft, show (5 : UInt32).toNat % 32 = 5 from rfl, Nat.shiftLeft_eq]

/-- One byte of output: the two nybbles of two codes. -/
theorem nybbles (b : UInt8) : fromGcr (toGcr (b >>> 4)) <<< 4 ||| fromGcr (toGcr (b &&& 0x0f)) = b := by
  rw [fromGcr_toGcr _ (by rw [hi_toNat]; have := b.toNat_lt; omega),
    fromGcr_toGcr _ (by rw [lo_toNat]; omega)]
  apply UInt8.toNat_inj.mp
  rw [UInt8.toNat_or, UInt8.toNat_shiftLeft, hi_toNat, lo_toNat,
    show (4 : UInt8).toNat % 8 = 4 from rfl, Nat.shiftLeft_eq]
  have hb := b.toNat_lt
  rw [Nat.mod_eq_of_lt (by omega), Nat.mul_comm, ← Nat.two_pow_add_eq_or_of_lt (by omega)]
  omega

/-- One turn of the decoding loop, on a register whose top holds two codes. -/
theorem decode_step (t : UInt32) (s : UInt8) (i : UInt32) (b : UInt8) (rest : Bytes)
    (hi : i.toNat ≤ 11) (ht : t.toNat % 2 ^ (i.toNat + 8) = 0)
    (hhi : (t.toNat + s.toNat * 2 ^ i.toNat) / 2 ^ 16 % 32 = (codesOf b).1)
    (hlo : (t.toNat + s.toNat * 2 ^ i.toNat) / 2 ^ 11 % 32 = (codesOf b).2) :
    gcrConvertGcrTo4bytes.loop t i (s :: rest) =
      b :: gcrConvertGcrTo4bytes.loop ((t ||| s.toUInt32 <<< i) <<< 5 <<< 5) (i + 2) rest := by
  have hor := or_shift t s i hi ht
  simp only [gcrConvertGcrTo4bytes.loop]
  have h1 : ((t ||| s.toUInt32 <<< i) >>> 16 &&& 0x1f).toUInt8 = toGcr (b >>> 4) := by
    apply UInt8.toNat_inj.mp
    rw [code_at, hor, hhi, codesOf]
  have h2 : ((t ||| s.toUInt32 <<< i) <<< 5 >>> 16 &&& 0x1f).toUInt8 = toGcr (b &&& 0x0f) := by
    apply UInt8.toNat_inj.mp
    rw [code_at, shl5, hor]
    rw [show (toGcr (b &&& 0x0f)).toNat = (codesOf b).2 from rfl, ← hlo]
    omega
  rw [h1, h2, nybbles]

theorem gcrConvertGcrTo4bytes_convert (a b c d : UInt8) :
    gcrConvertGcrTo4bytes (gcrConvert4bytesToGcr [a, b, c, d]) = [a, b, c, d] := by
  have hs := gcrConvert4bytesToGcr_toNat a b c d
  have hlen : ∃ s0 s1 s2 s3 s4, gcrConvert4bytesToGcr [a, b, c, d] = [s0, s1, s2, s3, s4] :=
    ⟨_, _, _, _, _, rfl⟩
  obtain ⟨s0, s1, s2, s3, s4, he⟩ := hlen
  rw [he] at hs ⊢
  simp only [List.map_cons, List.map_nil, packCodes, List.cons.injEq, and_true] at hs
  obtain ⟨h0, h1, h2, h3, h4⟩ := hs
  have ha := codesOf_lt a
  have hb := codesOf_lt b
  have hc := codesOf_lt c
  have hd := codesOf_lt d
  have e0 : (s0.toUInt32 <<< 13).toNat = s0.toNat * 2 ^ 13 := by
    rw [UInt32.toNat_shiftLeft, UInt8.toNat_toUInt32, show (13 : UInt32).toNat % 32 = 13 from rfl,
      Nat.shiftLeft_eq]
    have := s0.toNat_lt
    omega
  have k5 : (5 : UInt32).toNat = 5 := rfl
  have k7 : (5 + 2 : UInt32).toNat = 7 := rfl
  have k9 : (5 + 2 + 2 : UInt32).toNat = 9 := rfl
  have k11 : (5 + 2 + 2 + 2 : UInt32).toNat = 11 := rfl
  generalize hA : (codesOf a).1 = c0 at *
  generalize hA' : (codesOf a).2 = c1 at *
  generalize hB : (codesOf b).1 = c2 at *
  generalize hB' : (codesOf b).2 = c3 at *
  generalize hC : (codesOf c).1 = c4 at *
  generalize hC' : (codesOf c).2 = c5 at *
  generalize hD : (codesOf d).1 = c6 at *
  generalize hD' : (codesOf d).2 = c7 at *
  simp only [gcrConvertGcrTo4bytes]
  have t1 := or_shift (s0.toUInt32 <<< 13) s1 5 (by rw [k5]; decide) (by rw [e0, k5]; omega)
  rw [decode_step _ s1 5 a _ (by rw [k5]; decide) (by rw [e0, k5]; omega)
    (by rw [e0, k5, hA]; omega) (by rw [e0, k5, hA']; omega)]
  rw [e0, k5] at t1
  generalize hT1 : (s0.toUInt32 <<< 13 ||| s1.toUInt32 <<< 5) <<< 5 <<< 5 = T1
  have u1 : T1.toNat = (s0.toNat * 2 ^ 13 + s1.toNat * 2 ^ 5) * 1024 % 2 ^ 32 := by
    rw [← hT1, shl5, shl5, t1]; omega
  have t2 := or_shift T1 s2 (5 + 2) (by rw [k7]; decide) (by rw [u1, k7]; omega)
  rw [decode_step _ s2 (5 + 2) b _ (by rw [k7]; decide) (by rw [u1, k7]; omega)
    (by rw [u1, k7, hB]; omega) (by rw [u1, k7, hB']; omega)]
  rw [k7] at t2
  generalize hT2 : (T1 ||| s2.toUInt32 <<< (5 + 2)) <<< 5 <<< 5 = T2
  have u2 : T2.toNat = (T1.toNat + s2.toNat * 2 ^ 7) * 1024 % 2 ^ 32 := by
    rw [← hT2, shl5, shl5, t2]; omega
  have t3 := or_shift T2 s3 (5 + 2 + 2) (by rw [k9]; decide) (by rw [u2, k9]; omega)
  rw [decode_step _ s3 (5 + 2 + 2) c _ (by rw [k9]; decide) (by rw [u2, k9]; omega)
    (by rw [u2, k9, hC]; omega) (by rw [u2, k9, hC']; omega)]
  rw [k9] at t3
  generalize hT3 : (T2 ||| s3.toUInt32 <<< (5 + 2 + 2)) <<< 5 <<< 5 = T3
  have u3 : T3.toNat = (T2.toNat + s3.toNat * 2 ^ 9) * 1024 % 2 ^ 32 := by
    rw [← hT3, shl5, shl5, t3]; omega
  rw [decode_step _ s4 (5 + 2 + 2 + 2) d _ (by rw [k11]) (by rw [u3, k11]; omega)
    (by rw [u3, k11, hD]; omega) (by rw [u3, k11, hD']; omega)]
  rfl

/-! ## Codes as bits -/

/-- The `n` low bits of a number, most significant first. -/
def natBits (n v : Nat) : List Bool := (List.range n).map fun i => v.testBit (n - 1 - i)

@[simp] theorem natBits_length (n v : Nat) : (natBits n v).length = n := by simp [natBits]

theorem byteBits_eq_natBits (b : UInt8) : byteBits b = natBits 8 b.toNat := by
  simp [byteBits, natBits]

theorem natBits_append (m n a b : Nat) (hb : b < 2 ^ n) :
    natBits m a ++ natBits n b = natBits (m + n) (a * 2 ^ n + b) := by
  apply List.ext_getElem (by simp)
  intro i h1 h2
  simp only [natBits_length] at h2
  have key : ∀ k, (a * 2 ^ n + b).testBit k = if k < n then b.testBit k else a.testBit (k - n) := by
    intro k
    rw [Nat.mul_comm, Nat.testBit_two_pow_mul_add _ hb]
  by_cases hi : i < m
  · rw [List.getElem_append_left (by simpa using hi)]
    simp only [natBits, List.getElem_map, List.getElem_range]
    rw [key, if_neg (by omega)]
    congr 1
    omega
  · rw [List.getElem_append_right (by simpa using hi)]
    simp only [natBits, List.getElem_map, List.getElem_range, List.length_map, List.length_range]
    rw [key, if_pos (by omega)]
    congr 1
    omega

/-- The codes of a byte. -/
def codeBits (b : UInt8) : List Bool := natBits 5 (codesOf b).1 ++ natBits 5 (codesOf b).2

theorem toBits_gcrConvert4bytesToGcr (a b c d : UInt8) : toBits (gcrConvert4bytesToGcr [a, b, c, d]) =
      codeBits a ++ (codeBits b ++ (codeBits c ++ codeBits d)) := by
  have hs := gcrConvert4bytesToGcr_toNat a b c d
  have hlen : ∃ s0 s1 s2 s3 s4, gcrConvert4bytesToGcr [a, b, c, d] = [s0, s1, s2, s3, s4] :=
    ⟨_, _, _, _, _, rfl⟩
  obtain ⟨s0, s1, s2, s3, s4, he⟩ := hlen
  rw [he] at hs ⊢
  simp only [List.map_cons, List.map_nil, packCodes, List.cons.injEq, and_true] at hs
  obtain ⟨h0, h1, h2, h3, h4⟩ := hs
  have ha := codesOf_lt a
  have hb := codesOf_lt b
  have hc := codesOf_lt c
  have hd := codesOf_lt d
  simp only [toBits_cons, toBits_nil, byteBits_eq_natBits, codeBits, List.append_nil]
  generalize (codesOf a).1 = c0 at *
  generalize (codesOf a).2 = c1 at *
  generalize (codesOf b).1 = c2 at *
  generalize (codesOf b).2 = c3 at *
  generalize (codesOf c).1 = c4 at *
  generalize (codesOf c).2 = c5 at *
  generalize (codesOf d).1 = c6 at *
  generalize (codesOf d).2 = c7 at *
  have q0 := s0.toNat_lt
  have q1 := s1.toNat_lt
  have q2 := s2.toNat_lt
  have q3 := s3.toNat_lt
  have q4 := s4.toNat_lt
  rw [natBits_append 8 8 _ _ q4, natBits_append 8 16 _ _ (by omega),
    natBits_append 8 24 _ _ (by omega), natBits_append 8 32 _ _ (by omega)]
  simp only [List.append_assoc]
  rw [natBits_append 5 5 c6 c7 hd.2, natBits_append 5 10 _ _ (by omega),
    natBits_append 5 15 _ _ (by omega), natBits_append 5 20 _ _ (by omega),
    natBits_append 5 25 _ _ (by omega), natBits_append 5 30 _ _ (by omega),
    natBits_append 5 35 _ _ (by omega)]
  exact congrArg (natBits 40) (by omega)

/-- The sixteen codes in use. -/
def codes : List Nat := [10, 11, 18, 19, 14, 15, 22, 23, 9, 25, 26, 27, 13, 29, 30, 21]

theorem toGcr_mem_codes {n : UInt8} (hn : n.toNat < 16) : (toGcr n).toNat ∈ codes := by
  have key : ∀ i < 16, (gcrConvData.getD i 0).toNat ∈ codes := by decide
  exact key _ hn

/-- A code after at most four ones ends with at most four, and completes no run of ten. -/
theorem code_runs : ∀ c ∈ codes, runAfter 4 (natBits 5 c) ≤ 4 ∧
    ∀ i < 5, (natBits 5 c)[i]? = some false → runAfter 4 ((natBits 5 c).take i) < 10 := by
  decide

theorem code_quiet {n : UInt8} (hn : n.toNat < 16) {r : Nat} (hr : r ≤ 4) :
    runAfter r (natBits 5 (toGcr n).toNat) ≤ 4 ∧ Quiet 10 r (natBits 5 (toGcr n).toNat) := by
  obtain ⟨h1, h2⟩ := code_runs _ (toGcr_mem_codes hn)
  refine ⟨Nat.le_trans (runAfter_mono hr _) h1, quiet_mono hr ?_⟩
  rintro i hi
  have hlt := hi.lt
  rw [natBits_length] at hlt
  exact absurd hi.2 (Nat.not_le.mpr (h2 i hlt hi.1))

/-- The bits of a row of bytes, coded. -/
def byteCodes (bs : Bytes) : List Bool := bs.flatMap codeBits

theorem codeBits_quiet (b : UInt8) {r : Nat} (hr : r ≤ 4) :
    runAfter r (codeBits b) ≤ 4 ∧ Quiet 10 r (codeBits b) := by
  have hhi : (b >>> 4).toNat < 16 := by rw [hi_toNat]; have := b.toNat_lt; omega
  have hlo : (b &&& 0x0f).toNat < 16 := by rw [lo_toNat]; omega
  obtain ⟨h1, h2⟩ := code_quiet hhi hr
  obtain ⟨h3, h4⟩ := code_quiet hlo h1
  refine ⟨?_, quiet_append.mpr ⟨h2, h4⟩⟩
  rw [codeBits, runAfter_append]
  exact h3

theorem byteCodes_quiet (bs : Bytes) {r : Nat} (hr : r ≤ 4) :
    runAfter r (byteCodes bs) ≤ 4 ∧ Quiet 10 r (byteCodes bs) := by
  induction bs generalizing r with
  | nil => exact ⟨hr, quiet_nil 10 r⟩
  | cons b bs ih =>
    obtain ⟨h1, h2⟩ := codeBits_quiet b hr
    obtain ⟨h3, h4⟩ := ih h1
    refine ⟨?_, ?_⟩
    · rw [byteCodes, List.flatMap_cons, runAfter_append]; exact h3
    · rw [byteCodes, List.flatMap_cons]; exact quiet_append.mpr ⟨h2, h4⟩

/-! ## Rows of groups -/

/-- A row of four-byte groups, coded. -/
def encode : Bytes → Bytes
  | a :: b :: c :: d :: rest => gcrConvert4bytesToGcr [a, b, c, d] ++ encode rest
  | _ => []

theorem encode_append (n : Nat) {as : Bytes} (bs : Bytes) (h : as.length = 4 * n) :
    encode (as ++ bs) = encode as ++ encode bs := by
  induction n generalizing as with
  | zero => rw [List.length_eq_zero_iff.mp h]; rfl
  | succ n ih =>
    match as, h with
    | a :: b :: c :: d :: rest, h =>
      simp only [List.cons_append, encode, List.append_assoc]
      rw [ih (by simp only [List.length_cons] at h; omega)]

theorem encode_length (n : Nat) {bs : Bytes} (h : bs.length = 4 * n) : (encode bs).length = 5 * n := by
  induction n generalizing bs with
  | zero => rw [List.length_eq_zero_iff.mp h]; rfl
  | succ n ih =>
    match bs, h with
    | a :: b :: c :: d :: rest, h =>
      rw [encode, List.length_append, ih (by simp only [List.length_cons] at h; omega)]
      have : (gcrConvert4bytesToGcr [a, b, c, d]).length = 5 := rfl
      omega

theorem toBits_encode (n : Nat) {bs : Bytes} (h : bs.length = 4 * n) : toBits (encode bs) = byteCodes bs := by
  induction n generalizing bs with
  | zero => rw [List.length_eq_zero_iff.mp h]; rfl
  | succ n ih =>
    match bs, h with
    | a :: b :: c :: d :: rest, h =>
      rw [encode, toBits_append, toBits_gcrConvert4bytesToGcr,
        ih (by simp only [List.length_cons] at h; omega)]
      simp only [byteCodes, List.flatMap_cons, List.append_assoc]

end Vice.L1.Gcr
