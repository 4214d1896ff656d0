import Vice.L1Encoding.GcrRoundTrip
import Vice.L1Encoding.GcrSearch

/-!
# Writing a sector to a raw track (`gcr.c`)

`gcr_write_sector` looks a sector up as the reader does and codes a new data block over the old one,
at whatever bit it starts. The byte under the head is read once, for the bits in front of the block,
and once more at the end, for those behind it; in between the bits that do not fill a byte are
carried in `b`. `DiskTrack.pending` is the track with these carried bits in place.

Results:
* `writeByte_bits`: one coded byte is eight bits of the ring.
* `writeBytes_bits`, `writeLoop_eq`: rows of them.
* `gcrWriteSector_bits`: a block is 2600 bits, and the others stay.
-/
namespace Vice.L1.Gcr
open Vice.L0.BitRun

/-- `raw->data[i] = v` -/
def DiskTrack.set (raw : DiskTrack) (i : Nat) (v : UInt8) : DiskTrack := ⟨raw.data.set i v⟩

/-- The inner loop of `gcr_write_sector`, over the bytes of a group. -/
def gcrWriteSector.bytes (shift : Nat) :
    Bytes → DiskTrack → Nat → UInt8 → DiskTrack × Nat × UInt8
  | [], raw, offset, b => (raw, offset, b)
  | g :: gcr, raw, offset, b =>
    let (v, b) :=
      if shift ≠ 0 then (b ||| UInt8.ofNat (g.toNat >>> shift), UInt8.ofNat (g.toNat <<< 8 >>> shift))
      else (g, b)
    let raw := raw.set offset v
    let offset := if offset + 1 ≥ raw.size then 0 else offset + 1
    gcrWriteSector.bytes shift gcr raw offset b

def gcrWriteSector.loop (shift : Nat) :
    Nat → Bytes → DiskTrack → Nat → UInt8 → DiskTrack × Nat × UInt8
  | 0, _, raw, offset, b => (raw, offset, b)
  | num + 1, buf, raw, offset, b =>
    let (raw, offset, b) :=
      gcrWriteSector.bytes shift (gcrConvert4bytesToGcr (buf.take 4)) raw offset b
    gcrWriteSector.loop shift num (buf.drop 4) raw offset b

/-- The 260 bytes that `gcr_write_sector` codes. -/
def gcrWriteSector.buffer (data : Bytes) : Bytes :=
  let chksum := (data.drop 1).foldl (· ^^^ ·) (data.getD 0 0)
  0x07 :: data ++ [chksum, 0, 0]

/-- mirrors src/gcr.c:298-346 (`gcr_write_sector`); `data` is 256 bytes long. -/
def gcrWriteSector (raw : DiskTrack) (data : Bytes) (sector : UInt8) : Option (FdcErr × DiskTrack) :=
  match gcrFindSectorHeader raw sector with
  | none => none
  | some (.error e) => some (e, raw)
  | some (.ok p) =>
    match gcrFindSync raw p (500 * 8) with
    | .error e => some (e, raw)
    | .ok p =>
      let shift := p % 8
      let offset := p / 8
      let b := raw.byte offset &&& UInt8.ofNat (0xff00 >>> shift)
      let (raw, offset, b) := gcrWriteSector.loop shift 65 (gcrWriteSector.buffer data) raw offset b
      some (.ok, raw.set offset (b ||| (raw.byte offset &&& UInt8.ofNat (0xff >>> shift))))

/-! ## Bytes of a track -/

@[simp] theorem DiskTrack.set_size (raw : DiskTrack) (i : Nat) (v : UInt8) : (raw.set i v).size = raw.size := by
  unfold DiskTrack.set DiskTrack.size
  rw [List.length_set]

theorem DiskTrack.byte_set {raw : DiskTrack} {i : Nat} (hi : i < raw.size) (v : UInt8) (j : Nat) :
    (raw.set i v).byte j = if j = i then v else raw.byte j := by
  unfold DiskTrack.size at hi
  unfold DiskTrack.byte DiskTrack.set
  simp only [List.getD_eq_getElem?_getD, List.getElem?_set]
  by_cases hj : j = i
  · subst hj
    simp [hi]
  · rw [if_neg (Ne.symm hj), if_neg hj]

/-- Bit `r` of byte `q`, around the ring. -/
theorem DiskTrack.ring_bits {raw : DiskTrack} (h : 0 < raw.size) (q : Nat) {r : Nat} (hr : r < 8) :
    ring raw.bits (8 * q + r) = (raw.byte (q % raw.size)).toNat.testBit (7 - r) :=
  ring_toBits h q hr

/-! ## One coded byte -/

/-- The bits a writer at `shift` has not stored yet are at the top of `b`. -/
def Carried (shift : Nat) (b : UInt8) : Prop := ∀ k < 8 - shift, b.toNat.testBit k = false

/-- The track with the carried bits in place. -/
def DiskTrack.pending (raw : DiskTrack) (shift offset : Nat) (b : UInt8) : DiskTrack :=
  raw.set offset (b ||| (raw.byte offset &&& UInt8.ofNat (0xff >>> shift)))

theorem testBit_high (b : UInt8) {k : Nat} (hk : 8 ≤ k) : b.toNat.testBit k = false := by
  apply Nat.testBit_lt_two_pow
  calc b.toNat < 2 ^ 8 := b.toNat_lt
    _ ≤ 2 ^ k := Nat.pow_le_pow_right (by decide) hk

theorem lowMask_testBit (shift k : Nat) :
    (UInt8.ofNat (0xff >>> shift)).toNat.testBit k = decide (k + shift < 8) := by
  have hmask : (0xff >>> shift).testBit k = decide (k + shift < 8) := by
    rw [Nat.testBit_shiftRight, Nat.add_comm, show 0xff = 2 ^ 8 - 1 from rfl, Nat.testBit_two_pow_sub_one]
  by_cases hk : k < 8
  · rw [ofNat_testBit _ _ hk, hmask]
  · rw [testBit_high _ (by omega), decide_eq_false (by omega)]

/-- The byte under the head, the carried bits in place. -/
theorem pendingByte_testBit {b : UInt8} {shift : Nat} (hb : Carried shift b) (old : UInt8) (k : Nat) :
    (b ||| (old &&& UInt8.ofNat (0xff >>> shift))).toNat.testBit k =
      if k < 8 - shift then old.toNat.testBit k else b.toNat.testBit k := by
  rw [UInt8.toNat_or, UInt8.toNat_and, Nat.testBit_or, Nat.testBit_and, lowMask_testBit]
  by_cases h : k < 8 - shift
  · rw [if_pos h, hb k h, decide_eq_true (by omega), Bool.and_true, Bool.false_or]
  · rw [if_neg h, decide_eq_false (by omega), Bool.and_false, Bool.or_false]

/-- What is stored for a coded byte: the carried bits, then its first ones. -/
theorem storedByte_testBit {b g : UInt8} {shift k : Nat} (hb : Carried shift b) (hk : k < 8) :
    (if shift ≠ 0 then b ||| UInt8.ofNat (g.toNat >>> shift) else g).toNat.testBit k =
      if k < 8 - shift then g.toNat.testBit (k + shift) else b.toNat.testBit k := by
  by_cases h0 : shift = 0
  · rw [if_neg (by simpa using h0), h0, if_pos (by omega), Nat.add_zero]
  · rw [if_pos h0, UInt8.toNat_or, Nat.testBit_or, ofNat_testBit _ _ hk, Nat.testBit_shiftRight,
      Nat.add_comm shift k]
    by_cases h : k < 8 - shift
    · rw [if_pos h, hb k h, Bool.false_or]
    · rw [if_neg h, testBit_high g (by omega), Bool.or_false]

/-- What is carried on: its last bits. -/
theorem carriedByte_testBit {b g : UInt8} {shift k : Nat} (hb : Carried shift b) (hs : shift < 8) (hk : k < 8) :
    (if shift ≠ 0 then UInt8.ofNat (g.toNat <<< 8 >>> shift) else b).toNat.testBit k =
      if k < 8 - shift then false else g.toNat.testBit (k + shift - 8) := by
  by_cases h0 : shift = 0
  · rw [if_neg (by simpa using h0), if_pos (by omega), hb k (by omega)]
  · rw [if_pos h0, ofNat_testBit _ _ hk, Nat.testBit_shiftRight, Nat.testBit_shiftLeft, Nat.add_comm shift k]
    by_cases h : k < 8 - shift
    · rw [if_pos h, decide_eq_false (by omega), Bool.false_and]
    · rw [if_neg h, decide_eq_true (by omega), Bool.true_and]

theorem carried_next {b g : UInt8} {shift : Nat} (hb : Carried shift b) (hs : shift < 8) :
    Carried shift (if shift ≠ 0 then UInt8.ofNat (g.toNat <<< 8 >>> shift) else b) := by
  intro k hk
  rw [carriedByte_testBit hb hs (by omega), if_pos hk]

/-- One turn around a ring at most. -/
theorem wrap_add {o q n : Nat} (ho : o < n) (hq : q ≤ n) :
    (o + q) % n = if o + q < n then o + q else o + q - n := by
  split
  · next h => exact Nat.mod_eq_of_lt h
  · rw [Nat.mod_eq_sub_mod (by omega), Nat.mod_eq_of_lt (by omega)]

/-- One coded byte is eight bits of the ring; the others stay. -/
theorem writeByte_bits {raw : DiskTrack} {shift offset : Nat} {b v c : UInt8} (g : UInt8)
    (h2 : 2 ≤ raw.size) (ho : offset < raw.size) (hs : shift < 8) (hb : Carried shift b)
    (hv : v = if shift ≠ 0 then b ||| UInt8.ofNat (g.toNat >>> shift) else g)
    (hc : c = if shift ≠ 0 then UInt8.ofNat (g.toNat <<< 8 >>> shift) else b) {k : Nat}
    (hk : k < 8 * raw.size) :
    ring ((raw.set offset v).pending shift ((offset + 1) % raw.size) c).bits (8 * offset + shift + k) =
      if k < 8 then g.toNat.testBit (7 - k)
      else ring (raw.pending shift offset b).bits (8 * offset + shift + k) := by
  obtain ⟨q, r, hr, hqr⟩ : ∃ q r, r < 8 ∧ shift + k = 8 * q + r :=
    ⟨(shift + k) / 8, (shift + k) % 8, Nat.mod_lt _ (by decide), (Nat.div_add_mod _ 8).symm⟩
  have hnext : (offset + 1) % raw.size < raw.size := Nat.mod_lt _ (by omega)
  have hne : (offset + 1) % raw.size ≠ offset := by
    rw [wrap_add ho (by omega)]
    split <;> omega
  have hq : q ≤ raw.size := by omega
  have hat := wrap_add ho hq
  have hnx := wrap_add ho (show 1 ≤ raw.size by omega)
  rw [show 8 * offset + shift + k = 8 * (offset + q) + r by omega,
    DiskTrack.ring_bits (by unfold DiskTrack.pending; simp only [DiskTrack.set_size]; omega) _ hr,
    DiskTrack.ring_bits (by unfold DiskTrack.pending; simp only [DiskTrack.set_size]; omega) _ hr]
  unfold DiskTrack.pending
  simp only [DiskTrack.set_size]
  rw [DiskTrack.byte_set (by rw [DiskTrack.set_size]; exact hnext), DiskTrack.byte_set ho,
    DiskTrack.byte_set ho, DiskTrack.byte_set ho, if_neg hne]
  by_cases hq0 : q = 0 ∨ q = raw.size
  · -- the byte under the head
    have hm : (offset + q) % raw.size = offset := by
      rw [hat]
      split <;> omega
    rw [hm, if_neg (Ne.symm hne), if_pos rfl, if_pos rfl, hv, storedByte_testBit hb (by omega),
      pendingByte_testBit hb]
    by_cases hk8 : k < 8
    · rw [if_pos hk8, if_pos (by omega)]
      congr 1
      omega
    · rw [if_neg hk8, if_neg (by omega), if_neg (by omega)]
  · by_cases hq1 : q = 1
    · -- the byte behind it
      have hm : (offset + q) % raw.size = (offset + 1) % raw.size := by rw [hq1]
      have hcc : Carried shift c := hc ▸ carried_next hb hs
      rw [hm, if_pos rfl, if_neg hne, pendingByte_testBit hcc]
      by_cases hk8 : k < 8
      · rw [if_pos hk8, if_neg (by omega), hc, carriedByte_testBit hb hs (by omega),
          if_neg (by omega)]
        congr 1
        omega
      · rw [if_neg hk8, if_pos (by omega)]
    · have hm : (offset + q) % raw.size ≠ offset := by
        rw [hat]
        split <;> omega
      have hm' : (offset + q) % raw.size ≠ (offset + 1) % raw.size := by
        rw [hat, hnx]
        split <;> split <;> omega
      rw [if_neg hm', if_neg hm, if_neg hm, if_neg (by omega)]

/-! ## Rows of coded bytes -/

/-- The bit position one byte on, around the ring. -/
theorem ring_next (raw : DiskTrack) (offset shift k : Nat) :
    ring raw.bits (8 * ((offset + 1) % raw.size) + shift + k) =
      ring raw.bits (8 * offset + shift + (8 + k)) := by
  rw [← ring_mod, ← ring_mod raw.bits (8 * offset + shift + (8 + k)), raw.bits_length,
    Nat.add_assoc, ← Nat.mul_mod_mul_left, Nat.mod_add_mod]
  congr 2
  omega

/-- What a row of coded bytes has done when the writer stands at `offset'` with `c` carried. -/
structure Wrote (raw : DiskTrack) (shift offset : Nat) (b : UInt8) (gs : Bytes)
    (raw' : DiskTrack) (offset' : Nat) (c : UInt8) : Prop where
  size : raw'.size = raw.size
  place : offset' = (offset + gs.length) % raw.size
  carried : Carried shift c
  bits : ∀ k < 8 * raw.size, ring (raw'.pending shift offset' c).bits (8 * offset + shift + k) =
    if k < 8 * gs.length then (toBits gs).getD k false
    else ring (raw.pending shift offset b).bits (8 * offset + shift + k)

@[simp] theorem pending_size (raw : DiskTrack) (shift offset : Nat) (b : UInt8) :
    (raw.pending shift offset b).size = raw.size := by
  unfold DiskTrack.pending
  rw [DiskTrack.set_size]

theorem toBits_cons_getD (g : UInt8) (gs : Bytes) (k : Nat) : (toBits (g :: gs)).getD k false =
      if k < 8 then g.toNat.testBit (7 - k) else (toBits gs).getD (k - 8) false := by
  rw [toBits_cons]
  by_cases hk : k < 8
  · rw [if_pos hk, List.getD_append _ _ _ _ (by rw [byteBits_length]; exact hk),
      List.getD_eq_getElem?_getD, byteBits_getElem? g hk]
    rfl
  · rw [if_neg hk, List.getD_append_right _ _ _ _ (by rw [byteBits_length]; omega), byteBits_length]

theorem writeBytes_bits {shift : Nat} (hs : shift < 8) (gs : Bytes) {raw : DiskTrack} {offset : Nat}
    {b : UInt8} (h2 : 2 ≤ raw.size) (ho : offset < raw.size) (hb : Carried shift b)
    (hfit : gs.length ≤ raw.size) :
    Wrote raw shift offset b gs (gcrWriteSector.bytes shift gs raw offset b).1
      (gcrWriteSector.bytes shift gs raw offset b).2.1
      (gcrWriteSector.bytes shift gs raw offset b).2.2 := by
  induction gs generalizing raw offset b with
  | nil =>
    refine ⟨rfl, ?_, hb, fun k _ => ?_⟩
    · rw [List.length_nil, Nat.add_zero, Nat.mod_eq_of_lt ho]
      rfl
    · rw [if_neg (by simp)]
      rfl
  | cons g gs ih =>
    obtain ⟨v, hv⟩ : ∃ v, v = if shift ≠ 0 then b ||| UInt8.ofNat (g.toNat >>> shift) else g :=
      ⟨_, rfl⟩
    obtain ⟨c, hc⟩ : ∃ c, c = if shift ≠ 0 then UInt8.ofNat (g.toNat <<< 8 >>> shift) else b :=
      ⟨_, rfl⟩
    have hstep : gcrWriteSector.bytes shift (g :: gs) raw offset b =
        gcrWriteSector.bytes shift gs (raw.set offset v) ((offset + 1) % raw.size) c := by
      rw [gcrWriteSector.bytes]
      simp only [DiskTrack.set_size, next_offset ho]
      by_cases h0 : shift = 0
      · rw [if_neg (by simpa using h0)] at hv hc ⊢
        rw [hv, hc]
      · rw [if_pos h0] at hv hc ⊢
        rw [hv, hc]
    rw [List.length_cons] at hfit
    have hrest := @ih (raw.set offset v) ((offset + 1) % raw.size) c
      (by rwa [DiskTrack.set_size]) (by rw [DiskTrack.set_size]; exact Nat.mod_lt _ (by omega))
      (hc ▸ carried_next hb hs) (by rw [DiskTrack.set_size]; omega)
    rw [hstep]
    obtain ⟨hsize, hoff, hcar, hbits⟩ := hrest
    simp only [DiskTrack.set_size] at hsize hoff hbits
    refine ⟨hsize, ?_, hcar, fun k hk => ?_⟩
    · rw [hoff, Nat.mod_add_mod, List.length_cons]
      congr 1
      omega
    · have hone := writeByte_bits g h2 ho hs hb hv hc hk
      generalize gcrWriteSector.bytes shift gs (raw.set offset v) ((offset + 1) % raw.size) c = out
        at hsize hbits
      obtain ⟨raw', offset', c'⟩ := out
      simp only at hsize hbits ⊢
      -- the rest of the row is written one byte further on; its last byte is the one before it
      have hturn : ∀ (t : DiskTrack) (k' : Nat), t.size = raw.size →
          ring t.bits (8 * ((offset + 1) % raw.size) + shift + k') =
            ring t.bits (8 * offset + shift + (8 + k')) := by
        intro t k' ht
        rw [← ht]
        exact ring_next t offset shift k'
      have hsz : (raw'.pending shift offset' c').size = raw.size := by rw [pending_size, hsize]
      have hsz1 : ((raw.set offset v).pending shift ((offset + 1) % raw.size) c).size = raw.size := by
        rw [pending_size, DiskTrack.set_size]
      rw [toBits_cons_getD, List.length_cons]
      by_cases hk8 : k < 8
      · have h := hbits (8 * raw.size - 8 + k) (by omega)
        rw [if_neg (by omega), hturn _ _ hsz, hturn _ _ hsz1,
          show 8 * offset + shift + (8 + (8 * raw.size - 8 + k)) =
            8 * offset + shift + k + 8 * raw.size by omega] at h
        have hlen : ∀ t : DiskTrack, t.size = raw.size → ∀ i,
            ring t.bits (i + 8 * raw.size) = ring t.bits i := by
          intro t ht i
          rw [← ht, ← t.bits_length, ring_add_length]
        rw [hlen _ hsz, hlen _ hsz1, hone, if_pos hk8] at h
        rw [h, if_pos (by omega), if_pos hk8]
      · have h := hbits (k - 8) (by omega)
        rw [hturn _ _ hsz, hturn _ _ hsz1, show 8 + (k - 8) = k by omega, hone, if_neg hk8] at h
        rw [h, if_neg hk8]
        by_cases hin : k < 8 * (gs.length + 1)
        · rw [if_pos hin, if_pos (by omega)]
        · rw [if_neg hin, if_neg (by omega)]

theorem writeBytes_append (shift : Nat) (as bs : Bytes) (raw : DiskTrack) (offset : Nat) (b : UInt8) :
    gcrWriteSector.bytes shift (as ++ bs) raw offset b =
      gcrWriteSector.bytes shift bs (gcrWriteSector.bytes shift as raw offset b).1
        (gcrWriteSector.bytes shift as raw offset b).2.1
        (gcrWriteSector.bytes shift as raw offset b).2.2 := by
  induction as generalizing raw offset b with
  | nil => rfl
  | cons a as ih =>
    rw [List.cons_append, gcrWriteSector.bytes, gcrWriteSector.bytes]
    exact ih ..

/-- The groups of a buffer are one row. -/
theorem writeLoop_eq (shift n : Nat) {buf : Bytes} (h : buf.length = 4 * n) (raw : DiskTrack)
    (offset : Nat) (b : UInt8) :
    gcrWriteSector.loop shift n buf raw offset b =
      gcrWriteSector.bytes shift (encode buf) raw offset b := by
  induction n generalizing buf raw offset b with
  | zero =>
    rw [List.length_eq_zero_iff.mp h]
    rfl
  | succ n ih =>
    match buf, h with
    | a0 :: a1 :: a2 :: a3 :: rest, h =>
      simp only [List.length_cons] at h
      rw [gcrWriteSector.loop, encode, writeBytes_append]
      exact ih (show rest.length = 4 * n by omega) ..

/-! ## A block -/

theorem buffer_eq {data : Bytes} (h : data.length = 256) : gcrWriteSector.buffer data = dataBytes data .ok := by
  match data, h with
  | x :: rest, _ =>
    simp only [gcrWriteSector.buffer, dataBytes, reduceCtorEq, if_false, List.drop_succ_cons,
      List.drop_zero, List.getD_cons_zero, List.foldl_cons, UInt8.zero_xor]

/-- The data block of a sector: where its header is and where it starts. -/
def DataBlock (raw : DiskTrack) (sector : UInt8) (h p : Nat) : Prop :=
  gcrFindSectorHeader raw sector = some (.ok h) ∧ gcrFindSync raw h (500 * 8) = .ok p

/-- The top bits of the byte under the head. -/
theorem carried_first (old : UInt8) {shift : Nat} (hs : shift < 8) :
    Carried shift (old &&& UInt8.ofNat (0xff00 >>> shift)) := by
  intro k hk
  have hmask : (0xff00 >>> shift).testBit k = false := by
    rw [Nat.testBit_shiftRight, show 0xff00 = (2 ^ 8 - 1) <<< 8 from rfl, Nat.testBit_shiftLeft,
      decide_eq_false (by omega), Bool.false_and]
  rw [UInt8.toNat_and, Nat.testBit_and, ofNat_testBit _ _ (by omega), hmask, Bool.and_false]

/-- With them carried, the track is as it was. -/
theorem pending_first {raw : DiskTrack} {shift offset : Nat} (hs : shift < 8) (ho : offset < raw.size) :
    raw.pending shift offset (raw.byte offset &&& UInt8.ofNat (0xff00 >>> shift)) = raw := by
  have hbyte : raw.byte offset &&& UInt8.ofNat (0xff00 >>> shift) |||
      raw.byte offset &&& UInt8.ofNat (0xff >>> shift) = raw.byte offset := by
    apply UInt8.toNat_inj.mp
    apply Nat.eq_of_testBit_eq
    intro k
    by_cases hk : k < 8
    · rw [pendingByte_testBit (carried_first _ hs)]
      split
      · rfl
      · have hmask : (0xff00 >>> shift).testBit k = true := by
          rw [Nat.testBit_shiftRight, show 0xff00 = (2 ^ 8 - 1) <<< 8 from rfl, Nat.testBit_shiftLeft,
            decide_eq_true (by omega), Bool.true_and, Nat.testBit_two_pow_sub_one]
          exact decide_eq_true (by omega)
        rw [UInt8.toNat_and, Nat.testBit_and, ofNat_testBit _ _ hk, hmask, Bool.and_true]
    · rw [testBit_high _ (by omega), testBit_high _ (by omega)]
  unfold DiskTrack.pending DiskTrack.set
  rw [hbyte]
  unfold DiskTrack.byte DiskTrack.size at *
  rw [List.getD_eq_getElem?_getD, List.getElem?_eq_getElem ho, Option.getD_some, List.set_getElem_self]

theorem DataBlock.headerAt {raw : DiskTrack} {sector : UInt8} {h p : Nat}
    (hd : DataBlock raw sector h p) : HeaderAt raw sector h ∧ 10 ≤ 8 * raw.size := by
  have hend := gcrFindSectorHeader_end raw sector
  rw [hd.1] at hend
  cases hend with
  | found hs _ hat _ =>
    refine ⟨hat, ?_⟩
    by_contra hlt
    rw [findSync_short (by omega) (by have := hat.lt; omega)] at hs
    cases hs

theorem DataBlock.lt {raw : DiskTrack} {sector : UInt8} {h p : Nat} (hd : DataBlock raw sector h p) :
    p < 8 * raw.size := by
  obtain ⟨hat, h10⟩ := hd.headerAt
  obtain ⟨i, -, -, rfl, -⟩ := findSync_ok h10 hat.lt hd.2
  exact behind_lt (by omega) _ _

/-- A block is 2600 bits, and the others stay. -/
theorem gcrWriteSector_bits {raw raw' : DiskTrack} {data : Bytes} {sector : UInt8} {h p : Nat}
    (hlen : data.length = 256) (hd : DataBlock raw sector h p)
    (hw : gcrWriteSector raw data sector = some (.ok, raw')) (hfit : 2600 ≤ 8 * raw.size) :
    raw'.size = raw.size ∧ ∀ k < 8 * raw.size, ring raw'.bits (p + k) =
      if k < 2600 then (byteCodes (dataBytes data .ok)).getD k false else ring raw.bits (p + k) := by
  have hp := hd.lt
  have hs : p % 8 < 8 := Nat.mod_lt _ (by decide)
  have ho : p / 8 < raw.size := by omega
  have hlen4 := dataBytes_length hlen .ok
  have henc : (encode (dataBytes data .ok)).length = 325 := encode_length 65 hlen4
  unfold gcrWriteSector at hw
  rw [hd.1] at hw
  simp only [hd.2, buffer_eq hlen, writeLoop_eq _ 65 hlen4] at hw
  have hwrote := writeBytes_bits hs (encode (dataBytes data .ok)) (by omega) ho
    (carried_first (raw.byte (p / 8)) hs) (by omega)
  generalize gcrWriteSector.bytes (p % 8) (encode (dataBytes data .ok)) raw (p / 8)
    (raw.byte (p / 8) &&& UInt8.ofNat (0xff00 >>> (p % 8))) = out at hw hwrote
  obtain ⟨t, offset, c⟩ := out
  simp only [Option.some.injEq, Prod.mk.injEq, true_and] at hw
  subst hw
  refine ⟨by rw [DiskTrack.set_size]; exact hwrote.size, fun k hk => ?_⟩
  have hbits := hwrote.bits k hk
  rw [pending_first hs ho, Nat.div_add_mod, henc, toBits_encode 65 hlen4] at hbits
  exact hbits

end Vice.L1.Gcr
