import Vice.L1Encoding.GcrCode
import Mathlib.Data.Int.ModEq
import Mathlib.Tactic.IntervalCases

/-!
# Raw tracks (`gcr.c`)

A raw track is a ring of bits. `gcr_find_sync` walks it from a bit position,
shifting what it sees through an unsigned word, and stops at the first zero
that follows ten ones. `gcr_decode_block` reads code groups from any bit
position; `gcr_find_sector_header` looks for a header block with a given sector
number, and `gcr_read_sector` decodes the block behind the next sync mark.

The walk is a `do`-free loop on the walk's variables. A position is a `Nat`; the
negative results of the source are `Except.error`. The header search decodes at
a negative position when the track has a single sync mark that is no match:
that read before the buffer is `none`, as is running out of `fuel`.

Results:
* `gcrFindSync_first`, `gcrFindSync_none`: the walk finds the first mark of the
  window in front of it, or none when there is none.
* `gcrDecodeBlock_eq`: decoding undoes `encode` at any bit position.
-/
namespace Vice.L1.Gcr
open Vice.L0.BitRun

/-- mirrors src/cbmdos.h:104-118 (`fdc_err_t`) -/
inductive FdcErr
  | ok | header | sync | noblock | dcheck | verify | wprot | hcheck | blength | id | fspeed
  | drive | decode
  deriving DecidableEq, Repr

/-- mirrors src/gcr.h:51-54 (`disk_track_t`); no data is no bytes. -/
structure DiskTrack where
  data : Bytes
  deriving DecidableEq, Repr

def DiskTrack.size (raw : DiskTrack) : Nat := raw.data.length

/-- The track as a ring of bits. -/
def DiskTrack.bits (raw : DiskTrack) : List Bool := toBits raw.data

@[simp] theorem DiskTrack.bits_length (raw : DiskTrack) : raw.bits.length = 8 * raw.size :=
  toBits_length _

/-- `raw->data[i]` -/
def DiskTrack.byte (raw : DiskTrack) (i : Nat) : UInt8 := raw.data.getD i 0

/-- The loop of `gcr_find_sync`: `w` the word, `b` the byte under the head, shifted. -/
def gcrFindSync.loop (raw : DiskTrack) : Nat → UInt32 → Nat → Nat → Except FdcErr Nat
  | 0, _, _, _ => .error .sync
  | s + 1, w, b, p =>
    let next (w : UInt32) : Except FdcErr Nat :=
      if p % 8 ≠ 7 then gcrFindSync.loop raw s w (b <<< 1) (p + 1)
      else
        let p := if p + 1 ≥ raw.size * 8 then 0 else p + 1
        gcrFindSync.loop raw s w (raw.byte (p / 8)).toNat p
    if b.testBit 7 then next (w <<< 1 ||| 1)
    else if ~~~w &&& 0x3ff ≠ 0 then next (w <<< 1)
    else .ok p

/-- mirrors src/gcr.c:170-203 (`gcr_find_sync`) -/
def gcrFindSync (raw : DiskTrack) (p s : Nat) : Except FdcErr Nat :=
  if raw.size = 0 then .error .sync
  else gcrFindSync.loop raw s 0 ((raw.byte (p / 8)).toNat <<< (p % 8)) p

/-- The inner loop of `gcr_decode_block`: `j` code bytes, then the offset and the carried bits. -/
def gcrDecodeBlock.bytes (raw : DiskTrack) (shift : Nat) : Nat → Nat → UInt8 → Bytes × Nat × UInt8
  | 0, offset, b => ([], offset, b)
  | j + 1, offset, b =>
    let offset := if offset + 1 ≥ raw.size then 0 else offset + 1
    let next := (raw.byte offset).toNat
    let (g, b) :=
      if shift ≠ 0 then (b ||| UInt8.ofNat (next <<< shift >>> 8), UInt8.ofNat (next <<< shift))
      else (b, UInt8.ofNat next)
    let (gs, offset, b) := gcrDecodeBlock.bytes raw shift j offset b
    (g :: gs, offset, b)

def gcrDecodeBlock.loop (raw : DiskTrack) (shift : Nat) : Nat → Nat → UInt8 → Bytes
  | 0, _, _ => []
  | num + 1, offset, b =>
    let (gcr, offset, b) := gcrDecodeBlock.bytes raw shift 5 offset b
    gcrConvertGcrTo4bytes gcr ++ gcrDecodeBlock.loop raw shift num offset b

/-- mirrors src/gcr.c:205-233 (`gcr_decode_block`) -/
def gcrDecodeBlock (raw : DiskTrack) (p num : Nat) : Bytes :=
  gcrDecodeBlock.loop raw (p % 8) num (p / 8)
    (UInt8.ofNat ((raw.byte (p / 8)).toNat <<< (p % 8)))

/-- The loop of `gcr_find_sector_header`; `p2` is the first mark found. -/
def gcrFindSectorHeader.loop (raw : DiskTrack) (sector : UInt8) :
    Nat → Nat → Except FdcErr Nat → Option (Except FdcErr Nat)
  | 0, _, _ => none
  | fuel + 1, p, p2 =>
    let found := gcrFindSync raw p (raw.size * 8)
    if p2 = found then
      match p2 with
      | .error e => some (.error e)
      | .ok _ => some (.error .header)
    else
      let p2 := match p2 with
        | .error _ => found
        | .ok q2 => .ok q2
      match found with
      -- the source decodes at a negative position
      | .error _ => none
      | .ok q =>
        let header := gcrDecodeBlock raw q 1
        if header.getD 0 0 = 0x08 ∧ header.getD 2 0 = sector then some (.ok q)
        else gcrFindSectorHeader.loop raw sector fuel q p2

/-- mirrors src/gcr.c:235-264 (`gcr_find_sector_header`). Marks come back in ring
order, so one turn for each bit is enough. -/
def gcrFindSectorHeader (raw : DiskTrack) (sector : UInt8) : Option (Except FdcErr Nat) :=
  gcrFindSectorHeader.loop raw sector (8 * raw.size + 2) 0 (.error .sync)

/-- mirrors src/gcr.c:266-296 (`gcr_read_sector`); the second part is what `data` holds
afterwards. -/
def gcrReadSector (raw : DiskTrack) (data : Bytes) (sector : UInt8) : Option (FdcErr × Bytes) :=
  match gcrFindSectorHeader raw sector with
  | none => none
  | some (.error e) => some (e, data)
  | some (.ok p) =>
    match gcrFindSync raw p (500 * 8) with
    | .error e => some (e, data)
    | .ok p =>
      let buffer := gcrDecodeBlock raw p 65
      let out := (buffer.drop 1).take 256
      let b := out.foldl (· ^^^ ·) (buffer.getD 257 0)
      if buffer.getD 0 0 ≠ 0x07 then some (.noblock, out)
      else if b ≠ 0 then some (.dcheck, out)
      else some (.ok, out)

/-! ## The walk -/

/-- The word of the walk when it has just seen `r` ones. -/
def ShiftReg (w : UInt32) (r : Nat) : Prop :=
  (r < 10 ∧ w.toNat % 2 ^ (r + 1) = 2 ^ r - 1) ∨ (10 ≤ r ∧ w.toNat % 1024 = 1023)

theorem shiftReg_zero : ShiftReg 0 0 := Or.inl ⟨by decide, rfl⟩

theorem shl1 (w : UInt32) : (w <<< 1).toNat = w.toNat * 2 % 2 ^ 32 := by
  rw [UInt32.toNat_shiftLeft, show (1 : UInt32).toNat % 32 = 1 from rfl, Nat.shiftLeft_eq]

theorem ShiftReg.push_true {w : UInt32} {r : Nat} (h : ShiftReg w r) : ShiftReg (w <<< 1 ||| 1) (r + 1) := by
  have hor : (w <<< 1 ||| 1).toNat = w.toNat * 2 % 2 ^ 32 + 1 := by
    rw [UInt32.toNat_or, shl1, show (1 : UInt32).toNat = 1 from rfl,
      show w.toNat * 2 % 2 ^ 32 = 2 ^ 1 * (w.toNat % 2 ^ 31) by omega,
      ← Nat.two_pow_add_eq_or_of_lt (by decide)]
  unfold ShiftReg at h ⊢
  rw [hor]
  rcases h with ⟨h1, h2⟩ | ⟨h1, h2⟩
  · interval_cases r <;> omega
  · right; omega

theorem shiftReg_push_false (w : UInt32) : ShiftReg (w <<< 1) 0 := by
  left
  rw [shl1]
  omega

/-- The test of the source for fewer than ten ones. -/
theorem ShiftReg.test {w : UInt32} {r : Nat} (h : ShiftReg w r) : ~~~w &&& 0x3ff ≠ 0 ↔ r < 10 := by
  have hand : (~~~w &&& 0x3ff).toNat = (2 ^ 32 - 1 - w.toNat) % 1024 := by
    rw [UInt32.toNat_and, UInt32.toNat_not, show (0x3ff : UInt32).toNat = 2 ^ 10 - 1 from rfl,
      Nat.and_two_pow_sub_one_eq_mod]
    rfl
  have hw : w.toNat < 2 ^ 32 := w.toNat_lt
  rw [ne_eq, ← UInt32.toNat_inj, hand, UInt32.toNat_zero]
  rcases h with ⟨h1, h2⟩ | ⟨h1, h2⟩
  · interval_cases r <;> omega
  · omega

/-- The head bit is the ring's bit. -/
theorem headBit {raw : DiskTrack} {p : Nat} (hp : p < 8 * raw.size) :
    ((raw.byte (p / 8)).toNat <<< (p % 8)).testBit 7 = ring raw.bits p := by
  have hpos : 0 < raw.data.length := by unfold DiskTrack.size at hp; omega
  have hd := ring_toBits hpos (p / 8) (Nat.mod_lt p (by decide : 0 < 8))
  rw [Nat.div_add_mod] at hd
  unfold DiskTrack.bits DiskTrack.byte
  rw [hd, Nat.testBit_shiftLeft, Nat.mod_eq_of_lt (a := p / 8) (by unfold DiskTrack.size at hp; omega)]
  have : p % 8 < 8 := Nat.mod_lt _ (by decide)
  simp only [show 7 ≥ p % 8 by omega, decide_true, Bool.true_and]

/-- One step of the walk, on the ring. -/
theorem findSync_loop_succ {raw : DiskTrack} {s p : Nat} (w : UInt32) {r : Nat}
    (hp : p < 8 * raw.size) (hw : ShiftReg w r) :
    ∃ w', ShiftReg w' (if ring raw.bits p then r + 1 else 0) ∧
    gcrFindSync.loop raw (s + 1) w ((raw.byte (p / 8)).toNat <<< (p % 8)) p =
      if ring raw.bits p = true ∨ r < 10 then
        gcrFindSync.loop raw s w' ((raw.byte ((p + 1) % (8 * raw.size) / 8)).toNat <<<
          ((p + 1) % (8 * raw.size) % 8)) ((p + 1) % (8 * raw.size))
      else .ok p := by
  have hnext : ∀ w', (if p % 8 ≠ 7 then gcrFindSync.loop raw s w'
        ((raw.byte (p / 8)).toNat <<< (p % 8) <<< 1) (p + 1)
      else gcrFindSync.loop raw s w' (raw.byte ((if p + 1 ≥ raw.size * 8 then 0 else p + 1) / 8)).toNat
        (if p + 1 ≥ raw.size * 8 then 0 else p + 1)) =
      gcrFindSync.loop raw s w' ((raw.byte ((p + 1) % (8 * raw.size) / 8)).toNat <<<
          ((p + 1) % (8 * raw.size) % 8)) ((p + 1) % (8 * raw.size)) := by
    intro w'
    by_cases h7 : p % 8 ≠ 7
    · rw [if_pos h7, Nat.mod_eq_of_lt (a := p + 1) (by omega), show (p + 1) / 8 = p / 8 by omega,
        show (p + 1) % 8 = p % 8 + 1 by omega, Nat.shiftLeft_add]
    · rw [if_neg h7]
      have hm : (if p + 1 ≥ raw.size * 8 then 0 else p + 1) = (p + 1) % (8 * raw.size) := by
        split
        · rw [show p + 1 = 8 * raw.size by omega, Nat.mod_self]
        · rw [Nat.mod_eq_of_lt (by omega)]
      rw [hm]
      have h8 : (p + 1) % (8 * raw.size) % 8 = 0 := by
        rw [Nat.mod_mul_right_mod]; omega
      rw [h8, Nat.shiftLeft_zero]
  rw [gcrFindSync.loop]
  simp only [headBit hp, hw.test]
  cases hb : ring raw.bits p with
  | true =>
    refine ⟨w <<< 1 ||| 1, hw.push_true, ?_⟩
    simp only [if_true, true_or]
    exact hnext _
  | false =>
    refine ⟨w <<< 1, shiftReg_push_false w, ?_⟩
    simp only [Bool.false_eq_true, if_false, false_or]
    split
    · exact hnext _
    · rfl

theorem findSync_loop {raw : DiskTrack} (s : Nat) {w : UInt32} {p r : Nat}
    (hp : p < 8 * raw.size) (hw : ShiftReg w r) :
    (∀ i, Mark 10 r (window raw.bits p s) i → Quiet 10 r (window raw.bits p i) →
      gcrFindSync.loop raw s w ((raw.byte (p / 8)).toNat <<< (p % 8)) p =
        .ok ((p + i) % (8 * raw.size))) ∧
    (Quiet 10 r (window raw.bits p s) →
      gcrFindSync.loop raw s w ((raw.byte (p / 8)).toNat <<< (p % 8)) p = .error .sync) := by
  induction s generalizing w p r with
  | zero =>
    refine ⟨fun i hi => ?_, fun _ => rfl⟩
    have := hi.lt
    simp at this
  | succ s ih =>
    obtain ⟨w', hw', he⟩ := findSync_loop_succ (s := s) w hp hw
    have hp' : (p + 1) % (8 * raw.size) < 8 * raw.size := Nat.mod_lt _ (by omega)
    have hih := ih hp' hw'
    have hwin : ∀ n, window raw.bits ((p + 1) % (8 * raw.size)) n = window raw.bits (p + 1) n := by
      intro n
      rw [← raw.bits_length, window_mod]
    simp only [hwin] at hih
    rw [he, window_cons, quiet_cons]
    constructor
    · intro i hi hq
      cases i with
      | zero =>
        obtain ⟨hb, hr⟩ := mark_cons_zero.mp hi
        rw [if_neg (by rw [hb]; simp; omega), Nat.add_zero, Nat.mod_eq_of_lt hp]
      | succ i =>
        rw [window_cons, quiet_cons] at hq
        rw [if_pos hq.1, hih.1 i (mark_cons_succ.mp hi) hq.2, Nat.mod_add_mod, Nat.add_assoc, Nat.add_comm 1 i]
    · intro hq
      rw [if_pos hq.1, hih.2 hq.2]

theorem gcrFindSync_first {raw : DiskTrack} {p s i : Nat} (hp : p < 8 * raw.size)
    (hi : Mark 10 0 (window raw.bits p s) i) (hq : Quiet 10 0 (window raw.bits p i)) :
    gcrFindSync raw p s = .ok ((p + i) % (8 * raw.size)) := by
  unfold gcrFindSync
  rw [if_neg (by omega)]
  exact (findSync_loop s hp shiftReg_zero).1 i hi hq

theorem gcrFindSync_none {raw : DiskTrack} {p s : Nat} (hp : p < 8 * raw.size)
    (hq : Quiet 10 0 (window raw.bits p s)) : gcrFindSync raw p s = .error .sync := by
  unfold gcrFindSync
  split
  · rfl
  · exact (findSync_loop s hp shiftReg_zero).2 hq

/-! ## Decoding -/

/-- What a decoder at `shift` carries over from the byte at `offset`. -/
def carry (raw : DiskTrack) (shift offset : Nat) : UInt8 :=
  UInt8.ofNat ((raw.byte offset).toNat <<< shift)

theorem byteBits_eq_window {g : UInt8} {l : List Bool} {p : Nat}
    (h : ∀ i < 8, g.toNat.testBit (7 - i) = ring l (p + i)) : byteBits g = window l p 8 := by
  unfold byteBits window
  apply List.map_congr_left
  intro i hi
  exact h i (List.mem_range.mp hi)

theorem ofNat_testBit (n k : Nat) (hk : k < 8) : (UInt8.ofNat n).toNat.testBit k = n.testBit k := by
  rw [UInt8.toNat_ofNat', show (2 : Nat) ^ 8 = 2 ^ 8 from rfl, Nat.testBit_mod_two_pow]
  simp [hk]

/-- The byte the decoder cuts out of two neighbours. -/
theorem cut_bits {raw : DiskTrack} {shift offset : Nat} (hs : shift < 8) (ho : offset < raw.size) :
    byteBits (if shift ≠ 0 then carry raw shift offset |||
        UInt8.ofNat ((raw.byte ((offset + 1) % raw.size)).toNat <<< shift >>> 8)
      else carry raw shift offset) = window raw.bits (8 * offset + shift) 8 := by
  have hpos : 0 < raw.data.length := by unfold DiskTrack.size at ho; omega
  apply byteBits_eq_window
  intro i hi
  have hmod : offset % raw.data.length = offset := Nat.mod_eq_of_lt ho
  have hlow : i < 8 - shift → (carry raw shift offset).toNat.testBit (7 - i) =
      ring raw.bits (8 * offset + shift + i) := by
    intro h
    unfold carry
    rw [ofNat_testBit _ _ (by omega), Nat.testBit_shiftLeft, Nat.add_assoc]
    unfold DiskTrack.bits
    rw [ring_toBits hpos offset (show shift + i < 8 by omega), hmod]
    simp only [show 7 - i ≥ shift by omega, decide_true, Bool.true_and, DiskTrack.byte]
    congr 1
    omega
  by_cases h0 : shift = 0
  · rw [if_neg (by simpa using h0)]
    exact hlow (by omega)
  · rw [if_pos h0, UInt8.toNat_or, Nat.testBit_or, ofNat_testBit _ _ (by omega),
      Nat.testBit_shiftRight, Nat.testBit_shiftLeft]
    by_cases h : i < 8 - shift
    · rw [hlow h]
      have hb : (raw.byte ((offset + 1) % raw.size)).toNat.testBit (8 + (7 - i) - shift) = false := by
        apply Nat.testBit_lt_two_pow
        have := (raw.byte ((offset + 1) % raw.size)).toNat_lt
        have hp : 2 ^ 8 ≤ 2 ^ (8 + (7 - i) - shift) := Nat.pow_le_pow_right (by decide) (by omega)
        omega
      rw [hb, Bool.and_false, Bool.or_false]
    · have hc : (carry raw shift offset).toNat.testBit (7 - i) = false := by
        unfold carry
        rw [ofNat_testBit _ _ (by omega), Nat.testBit_shiftLeft]
        simp only [show ¬ 7 - i ≥ shift by omega, decide_false, Bool.false_and]
      rw [hc, Bool.false_or, show 8 * offset + shift + i = 8 * (offset + 1) + (shift + i - 8) by omega]
      unfold DiskTrack.bits
      rw [ring_toBits hpos (offset + 1) (show shift + i - 8 < 8 by omega)]
      simp only [show 8 + (7 - i) ≥ shift by omega, decide_true, Bool.true_and, DiskTrack.byte,
        DiskTrack.size]
      congr 1
      omega

theorem next_offset {raw : DiskTrack} {offset : Nat} (ho : offset < raw.size) :
    (if offset + 1 ≥ raw.size then 0 else offset + 1) = (offset + 1) % raw.size := by
  split
  · rw [show offset + 1 = raw.size by omega, Nat.mod_self]
  · rw [Nat.mod_eq_of_lt (by omega)]

/-- A bit position modulo the ring is as good as the position. -/
theorem window_offset_mod (raw : DiskTrack) (offset shift n : Nat) :
    window raw.bits (8 * (offset % raw.size) + shift) n = window raw.bits (8 * offset + shift) n := by
  rw [← window_mod raw.bits (8 * offset + shift), ← window_mod raw.bits (8 * (offset % raw.size) + shift),
    raw.bits_length, ← Nat.mul_mod_mul_left, Nat.mod_add_mod]

theorem decodeBytes_spec {raw : DiskTrack} {shift : Nat} (hs : shift < 8) (j : Nat) {offset : Nat}
    (ho : offset < raw.size) :
    toBits (gcrDecodeBlock.bytes raw shift j offset (carry raw shift offset)).1 =
        window raw.bits (8 * offset + shift) (8 * j) ∧
    (gcrDecodeBlock.bytes raw shift j offset (carry raw shift offset)).2 =
      ((offset + j) % raw.size, carry raw shift ((offset + j) % raw.size)) := by
  induction j generalizing offset with
  | zero =>
    rw [gcrDecodeBlock.bytes, Nat.add_zero, Nat.mod_eq_of_lt ho]
    exact ⟨rfl, rfl⟩
  | succ j ih =>
    have ho' : (offset + 1) % raw.size < raw.size := Nat.mod_lt _ (by omega)
    obtain ⟨h1, h2⟩ := ih ho'
    have hcut := cut_bits hs ho
    have hstep : gcrDecodeBlock.bytes raw shift (j + 1) offset (carry raw shift offset) =
        ((if shift ≠ 0 then carry raw shift offset |||
            UInt8.ofNat ((raw.byte ((offset + 1) % raw.size)).toNat <<< shift >>> 8)
          else carry raw shift offset) ::
          (gcrDecodeBlock.bytes raw shift j ((offset + 1) % raw.size)
            (carry raw shift ((offset + 1) % raw.size))).1,
          (gcrDecodeBlock.bytes raw shift j ((offset + 1) % raw.size)
            (carry raw shift ((offset + 1) % raw.size))).2) := by
      rw [gcrDecodeBlock.bytes]
      simp only [next_offset ho]
      by_cases h0 : shift = 0
      · simp only [h0, ne_eq, not_true_eq_false, if_false, carry, Nat.shiftLeft_zero]
      · simp only [ne_eq, h0, not_false_eq_true, if_true, carry]
    rw [hstep]
    constructor
    · rw [toBits_cons, hcut, h1, window_offset_mod raw,
        show 8 * (j + 1) = 8 + 8 * j by omega, window_add,
        show 8 * (offset + 1) + shift = 8 * offset + shift + 8 by omega]
    · rw [h2]
      simp only [Nat.mod_add_mod, show offset + 1 + j = offset + (j + 1) by omega]

theorem decodeLoop_eq {raw : DiskTrack} {shift : Nat} (hs : shift < 8) (n : Nat) {bs : Bytes}
    (hlen : bs.length = 4 * n) {offset : Nat} (ho : offset < raw.size)
    (hw : window raw.bits (8 * offset + shift) (40 * n) = toBits (encode bs)) :
    gcrDecodeBlock.loop raw shift n offset (carry raw shift offset) = bs := by
  induction n generalizing bs offset with
  | zero =>
    have : bs = [] := List.length_eq_zero_iff.mp hlen
    rw [this]; rfl
  | succ n ih =>
    match bs, hlen with
    | a :: b :: c :: d :: rest, hlen =>
      simp only [List.length_cons] at hlen
      obtain ⟨h1, h2⟩ := decodeBytes_spec hs 5 ho
      rw [show 40 * (n + 1) = 8 * 5 + 40 * n by omega, window_add, encode, toBits_append] at hw
      obtain ⟨hw1, hw2⟩ := List.append_inj hw (by simp; rfl)
      have hbytes := toBits_inj (h1.trans hw1)
      rw [gcrDecodeBlock.loop]
      simp only [h2, hbytes, gcrConvertGcrTo4bytes_convert]
      rw [@ih rest (by omega) _ (Nat.mod_lt _ (by omega))]
      · rfl
      · rw [window_offset_mod raw, ← hw2]
        congr 1
        omega

/-- Decoding at any bit position gives back what was coded there. -/
theorem gcrDecodeBlock_eq {raw : DiskTrack} {p n : Nat} {bs : Bytes} (hp : p < 8 * raw.size)
    (hlen : bs.length = 4 * n) (hw : window raw.bits p (40 * n) = toBits (encode bs)) :
    gcrDecodeBlock raw p n = bs := by
  unfold gcrDecodeBlock
  apply decodeLoop_eq (Nat.mod_lt _ (by decide)) n hlen (by omega)
  rw [Nat.div_add_mod, hw]

/-- A single group, whatever was written there. -/
theorem gcrDecodeBlock_one {raw : DiskTrack} {p : Nat} (enc : Bytes) (hp : p < 8 * raw.size)
    (hw : window raw.bits p 40 = toBits enc) :
    gcrDecodeBlock raw p 1 = gcrConvertGcrTo4bytes enc := by
  obtain ⟨h1, -⟩ := @decodeBytes_spec raw (p % 8) (Nat.mod_lt _ (by decide)) 5 (p / 8) (by omega)
  rw [Nat.div_add_mod, hw] at h1
  unfold gcrDecodeBlock
  simp only [gcrDecodeBlock.loop, List.append_nil]
  exact congrArg gcrConvertGcrTo4bytes (toBits_inj h1)

/-- A longer block starts with the same byte. -/
theorem gcrDecodeBlock_first (raw : DiskTrack) (p n : Nat) :
    (gcrDecodeBlock raw p (n + 1)).getD 0 0 = (gcrDecodeBlock raw p 1).getD 0 0 := by
  simp only [gcrDecodeBlock, gcrDecodeBlock.loop, gcrDecodeBlock.bytes, gcrConvertGcrTo4bytes,
    gcrConvertGcrTo4bytes.loop, List.cons_append, List.getD_cons_zero]

/-! ## The header search -/

/-- A header block for `sector` begins at `p`. -/
def HeaderAt (raw : DiskTrack) (sector : UInt8) (p : Nat) : Prop :=
  RingMark 10 raw.bits p ∧ (gcrDecodeBlock raw p 1).getD 0 0 = 0x08 ∧
    (gcrDecodeBlock raw p 1).getD 2 0 = sector

/-- From a mark, the walk reaches the next one, which is at or before any other. -/
theorem findSync_next {raw : DiskTrack} {q d : Nat} (hq : RingMark 10 raw.bits q)
    (hd : 0 < d) (hdN : d < 8 * raw.size) (hh : RingMark 10 raw.bits ((q + d) % (8 * raw.size)))
    (h10 : 10 ≤ raw.size * 8) :
    ∃ j, 0 < j ∧ j ≤ d ∧ gcrFindSync raw q (raw.size * 8) = .ok ((q + j) % (8 * raw.size)) ∧
      RingMark 10 raw.bits ((q + j) % (8 * raw.size)) := by
  have hlen : raw.bits.length = 8 * raw.size := raw.bits_length
  have hqN : q < 8 * raw.size := by rw [← hlen]; exact hq.1
  have hd10 : 10 ≤ d := by
    by_contra hlt
    have h1 := hh.2.2 (d - 1) (by omega)
    have h2 : ring raw.bits ((q + d) % (8 * raw.size) + raw.bits.length - 1 - (d - 1)) = ring raw.bits q := by
      rw [← ring_mod, ← ring_mod raw.bits q]
      congr 1
      rw [hlen]
      have e := Nat.mod_add_div (q + d) (8 * raw.size)
      have e2 : q + 8 * raw.size = ((q + d) % (8 * raw.size) + 8 * raw.size - 1 - (d - 1)) +
          8 * raw.size * ((q + d) / (8 * raw.size)) := by omega
      rw [← Nat.add_mod_right q, e2, Nat.add_mul_mod_self_left]
    rw [h2, hq.2.1] at h1
    cases h1
  rw [← hlen] at hh
  have hm : Mark 10 0 (window raw.bits q (raw.size * 8)) d :=
    RingMark.mark hd10 (by omega) (by omega) hh
  obtain ⟨j, hjd, hj, hquiet⟩ := exists_first_mark hm
  refine ⟨j, ?_, hjd, gcrFindSync_first hqN hj hquiet, ?_⟩
  · cases j with
    | zero => have := hj.2; simp at this
    | succ j => omega
  · rw [← hlen]
    exact hj.ring (by omega) (by omega)

theorem headerLoop_eq {raw : DiskTrack} {sector : UInt8} {h : Nat} (hh : HeaderAt raw sector h)
    (huniq : ∀ q, HeaderAt raw sector q → q = h) (h10 : 10 ≤ raw.size * 8) (fuel : Nat)
    {q d q2 d2 : Nat} (hq : RingMark 10 raw.bits q) (hd : 0 < d) (hdd : d ≤ d2)
    (hd2 : d2 < 8 * raw.size) (hqd : (q + d) % (8 * raw.size) = h)
    (hq2 : (q2 + d2) % (8 * raw.size) = h) (hfuel : d ≤ fuel) :
    gcrFindSectorHeader.loop raw sector fuel q (.ok q2) = some (.ok h) := by
  induction fuel generalizing q d with
  | zero => omega
  | succ fuel ih =>
    obtain ⟨j, hj, hjd, hfind, hmark⟩ := findSync_next hq hd (by omega) (by rw [hqd]; exact hh.1) h10
    have hq'd : ((q + j) % (8 * raw.size) + (d - j)) % (8 * raw.size) = h := by
      rw [Nat.mod_add_mod, show q + j + (d - j) = q + d by omega, hqd]
    -- the first mark is not met again before `h`
    have hne : q2 ≠ (q + j) % (8 * raw.size) := by
      intro he
      rw [← he, ← hq2] at hq'd
      have := Nat.ModEq.add_left_cancel' q2 hq'd
      unfold Nat.ModEq at this
      rw [Nat.mod_eq_of_lt (by omega), Nat.mod_eq_of_lt hd2] at this
      omega
    have hne' : (Except.ok q2 : Except FdcErr Nat) ≠ .ok ((q + j) % (8 * raw.size)) := by
      simpa using hne
    simp only [gcrFindSectorHeader.loop, hfind, if_neg hne']
    by_cases hmatch : (gcrDecodeBlock raw ((q + j) % (8 * raw.size)) 1).getD 0 0 = 0x08 ∧
        (gcrDecodeBlock raw ((q + j) % (8 * raw.size)) 1).getD 2 0 = sector
    · rw [if_pos hmatch, huniq _ ⟨hmark, hmatch⟩]
    · rw [if_neg hmatch]
      apply ih hmark (d := d - j) _ (by omega) hq'd (by omega)
      by_contra h0
      rw [show d - j = 0 by omega, Nat.add_zero, Nat.mod_mod] at hq'd
      rw [hq'd] at hmatch
      exact hmatch hh.2

theorem gcrFindSectorHeader_eq {raw : DiskTrack} {sector : UInt8} {h : Nat}
    (hh : HeaderAt raw sector h) (huniq : ∀ q, HeaderAt raw sector q → q = h) {i : Nat}
    (hi : Mark 10 0 (window raw.bits 0 (raw.size * 8)) i) :
    gcrFindSectorHeader raw sector = some (.ok h) := by
  have hlen : raw.bits.length = 8 * raw.size := raw.bits_length
  have hhN : h < 8 * raw.size := by rw [← hlen]; exact hh.1.1
  have h10 : 10 ≤ raw.size * 8 := by
    have h1 := hi.lt
    have h2 := (le_runAfter_zero_iff _ _).mp hi.2
    simp at h1 h2
    omega
  obtain ⟨j, -, hj, hquiet⟩ := exists_first_mark hi
  have hfind := gcrFindSync_first (by omega) hj hquiet
  have hmark : RingMark 10 raw.bits ((0 + j) % (8 * raw.size)) := by
    rw [← hlen]; exact hj.ring (by omega) (by omega)
  generalize hq : (0 + j) % (8 * raw.size) = q at hfind hmark
  have hqN : q < 8 * raw.size := by rw [← hlen]; exact hmark.1
  have hne : (Except.error FdcErr.sync : Except FdcErr Nat) ≠ .ok q := by simp
  unfold gcrFindSectorHeader
  obtain ⟨fuel, hfuel⟩ : ∃ fuel, 8 * raw.size + 1 = fuel := ⟨_, rfl⟩
  rw [show 8 * raw.size + 2 = fuel + 1 by omega]
  simp only [gcrFindSectorHeader.loop, hfind, if_neg hne]
  by_cases hmatch : (gcrDecodeBlock raw q 1).getD 0 0 = 0x08 ∧ (gcrDecodeBlock raw q 1).getD 2 0 = sector
  · rw [if_pos hmatch, huniq _ ⟨hmark, hmatch⟩]
  · rw [if_neg hmatch]
    have hqh : q ≠ h := by
      intro he; rw [he] at hmatch; exact hmatch hh.2
    have hd : (q + (h + 8 * raw.size - q) % (8 * raw.size)) % (8 * raw.size) = h := by
      rw [Nat.add_mod_mod, show q + (h + 8 * raw.size - q) = h + 8 * raw.size by omega,
        Nat.add_mod_right, Nat.mod_eq_of_lt hhN]
    refine headerLoop_eq hh huniq h10 _ hmark ?_ (Nat.le_refl _) (Nat.mod_lt _ (by omega)) hd hd ?_
    · by_contra h0
      rw [show (h + 8 * raw.size - q) % (8 * raw.size) = 0 by omega, Nat.add_zero,
        Nat.mod_eq_of_lt hqN] at hd
      exact hqh hd
    · have := Nat.mod_lt (h + 8 * raw.size - q) (show 8 * raw.size > 0 by omega)
      omega
end Vice.L1.Gcr
