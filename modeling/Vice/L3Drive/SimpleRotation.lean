import Mathlib.Tactic.SplitIfs
import Vice.L0Core.CatchUp
import Vice.L3Drive.Rotation

/-!
# The simple rotation (`rotation.c`)

For images without anything special, `rotation_1541_simple` moves the head by the bits that have
passed since it was called last. The time is turned into bits in slices of 1000 cycles, with what is
left kept in an accumulator of 32 bits. While reading it works on copies of the shift register and
the place of the head.


A call for so many bits that their `int` gets negative counts it down below its least value, which
is undefined.

The copies that the read branch works on are what is in the drive after each bit, but for bits of the
shift register that nothing looks at, and for the byte 0, which is given out as $11 at the end.

Results:
* `readBits_eq`: the read branch is a step for each bit, and `settle` at the end.
* `readBits_split`, `writeBits_split`: so it can be called in between.
-/
namespace Vice.L3.SimpleRotation
open Vice.L1.Gcr Vice.L3.Rotation Vice.L0.CatchUp

/-- The 1x or 2x mode, and the speed zone. -/
structure Speed where
  frequency : Fin 2
  zone : Fin 4

/-- mirrors src/drive/rotation.c:88-90 (`rot_speed_bps`) -/
def rotSpeedBps : List Nat :=
  [250000, 266667, 285714, 307692, 125000, 133333, 142857, 153846]

def Speed.bps (v : Speed) : Nat := rotSpeedBps.getD (4 * v.frequency.val + v.zone.val) 0

/-- mirrors src/drive/rotation.c:995,1008-1011: the quotient is cut towards 0. -/
def rpmscale (d : Drive) : Nat :=
  (1000000 + Int.tdiv (d.wobbleFactor * 1000000) 3200000).toNat * 30000 / d.rpm

/-- mirrors src/drive/rotation.c:1013-1019: the accumulator has 32 bits. -/
def slices (bps scale : Nat) (delta accum bitsMoved : Nat) : Nat × Nat :=
  if h : 0 < delta then
    let tdelta := if 1000 < delta then 1000 else delta
    let accum := (accum + bps * tdelta) % 2 ^ 32
    slices bps scale (delta - tdelta) (accum % scale) (bitsMoved + accum / scale)
  else (bitsMoved, accum)
termination_by delta
decreasing_by
  split <;> omega

section
variable (d : Drive)

/-- The local variables of the read branch. -/
structure Reader where
  off : Nat
  byte : UInt32
  lastReadData : UInt32
  bitCounter : Nat

/-- mirrors src/drive/rotation.c:1026-1031: without an image or a track it is 0. -/
def loadByte (c : Circuit) (off : Nat) : UInt32 :=
  if d.gcrImageLoaded = false then 0
  else
    match c.track with
    | none => 0
    | some bytes => (bytes.getD (off >>> 3) 0).toUInt32

/-- mirrors src/drive/rotation.c:1022-1031 -/
def openReader (c : Circuit) : Reader where
  off := c.gcrHeadOffset
  byte := loadByte d c c.gcrHeadOffset <<< (c.gcrHeadOffset &&& 7).toUInt32
  lastReadData := UInt32.ofNat c.lastReadData <<< 7
  bitCounter := c.bitCounter

/-- mirrors src/drive/rotation.c:1060-1063, 1091-1094 -/
def byteReadyNow (c : Circuit) : Circuit :=
  if d.byteReadyActive &&& 0x02 ≠ 0 then { c with byteReadyEdge := 1, byteReadyLevel := 1 } else c

/-- mirrors src/drive/rotation.c:1033-1068: a turn of the loop of the read branch. -/
def readerTurn (x : Reader × Circuit) : Reader × Circuit :=
  let (r, c) := x
  let off := r.off + 1
  let wraps := off &&& 7 = 0 ∧ d.gcrCurrentTrackSize ≤ off >>> 3
  let off := if wraps then 0 else off
  let byte := if (r.off + 1) &&& 7 = 0 then loadByte d c off else r.byte <<< 1
  let lastReadData := (r.lastReadData <<< 1) ||| (byte &&& 0x80)
  let c := { c with lastWriteData := c.lastWriteData <<< 1 }
  if ~~~lastReadData &&& 0x1ff80 ≠ 0 then
    if r.bitCounter + 1 = 8 then
      let gcrRead := (lastReadData >>> 7).toUInt8
      (⟨off, byte, lastReadData, 0⟩, byteReadyNow d { c with gcrRead := gcrRead, lastWriteData := gcrRead })
    else (⟨off, byte, lastReadData, r.bitCounter + 1⟩, c)
  else (⟨off, byte, lastReadData, 0⟩, c)

/-- mirrors src/drive/rotation.c:1069-1074 -/
def closeReader (x : Reader × Circuit) : Circuit :=
  { x.2 with
    lastReadData := ((x.1.lastReadData >>> 7) &&& 0x3ff).toNat
    bitCounter := x.1.bitCounter
    gcrHeadOffset := x.1.off
    gcrRead := if x.2.gcrRead = 0 then 0x11 else x.2.gcrRead }

def readBits (bitsMoved : Nat) (c : Circuit) : Circuit :=
  closeReader ((readerTurn d)^[bitsMoved] (openReader d c, c))

/-- mirrors src/drive/rotation.c:1079-1096: a turn of the loop of the write branch. -/
def writeTurn (c : Circuit) : Circuit :=
  let lastReadData := (c.lastReadData <<< 1) &&& 0x3fe
  let lastReadData := if lastReadData &&& 0xf = 0 then lastReadData ||| 1 else lastReadData
  let c := writeNextBit d { c with lastReadData := lastReadData } (c.lastWriteData &&& 0x80)
  let c := { c with lastWriteData := c.lastWriteData <<< 1 }
  if c.bitCounter + 1 = 8 then
    byteReadyNow d { c with bitCounter := 0, lastWriteData := d.gcrWriteValue }
  else { c with bitCounter := c.bitCounter + 1 }

def writeBits (bitsMoved : Nat) (c : Circuit) : Circuit := (writeTurn d)^[bitsMoved] c

/-- The clock of the last call, and the rest. -/
structure Spin where
  circuit : Circuit
  rotationLastClk : Nat

/-- mirrors src/drive/rotation.c:989-1100 (`rotation_1541_simple`), at `clk`. -/
def rotation1541Simple (v : Speed) (clk : Nat) (s : Spin) : Option Spin :=
  let (bits, accum) := slices v.bps (rpmscale d) (clk - s.rotationLastClk) s.circuit.accum 0
  let bitsMoved := Int.bmod bits (2 ^ 32)
  if bitsMoved < 0 then none
  else
    let c := { s.circuit with accum := accum }
    let c := if d.readWriteMode then readBits d bitsMoved.toNat c else writeBits d bitsMoved.toNat c
    some ⟨c, clk⟩

end

section
variable {d : Drive} {c c' : Circuit} {n m : Nat}

/-! ## Registers -/

theorem and_mask (n : Nat) : n &&& 0x1ff80 = n / 128 % 1024 * 128 := by
  have hmask : (0x1ff80 : Nat) = (2 ^ 10 - 1) <<< 7 := rfl
  have hmove : n &&& (2 ^ 10 - 1) <<< 7 = ((n >>> 7) &&& (2 ^ 10 - 1)) <<< 7 := by
    apply Nat.eq_of_testBit_eq
    intro i
    simp only [Nat.testBit_and, Nat.testBit_shiftLeft, Nat.testBit_shiftRight]
    by_cases hi : 7 ≤ i
    · simp [hi]
    · simp [hi]
  rw [hmask, hmove, Nat.and_two_pow_sub_one_eq_mod, Nat.shiftLeft_eq, Nat.shiftRight_eq_div_pow]

/-- Ten ones in the bits that are looked at. -/
theorem sync_iff (x : UInt32) : ~~~x &&& 0x1ff80 ≠ 0 ↔ x.toNat / 128 % 1024 ≠ 1023 := by
  have hnot : (~~~x &&& 0x1ff80 : UInt32).toNat = (2 ^ 32 - 1 - x.toNat) / 128 % 1024 * 128 := by
    rw [UInt32.toNat_and, UInt32.toNat_not]
    exact and_mask _
  have hx := x.toNat_lt
  rw [ne_eq, ← UInt32.toNat_inj, hnot, UInt32.toNat_zero]
  omega

theorem bit_toNat (byte : UInt32) : (byte &&& 0x80).toNat = byte.toNat / 128 % 2 * 128 := by
  rw [UInt32.toNat_and]
  have hbit : byte.toNat &&& 1 <<< 7 = ((byte.toNat >>> 7) &&& 1) <<< 7 := by
    apply Nat.eq_of_testBit_eq
    intro i
    simp only [Nat.testBit_and, Nat.testBit_shiftLeft, Nat.testBit_shiftRight]
    by_cases hi : 7 ≤ i
    · simp [hi]
    · simp [hi]
  exact hbit.trans (by rw [Nat.and_one_is_mod, Nat.shiftLeft_eq, Nat.shiftRight_eq_div_pow])

/-- The register takes a bit in. -/
theorem shift_toNat {x : UInt32} (hlow : x.toNat % 128 = 0) (byte : UInt32) :
    ((x <<< 1) ||| (byte &&& 0x80)).toNat = x.toNat * 2 % 2 ^ 32 + byte.toNat / 128 % 2 * 128 := by
  have hshift : (x <<< 1).toNat = x.toNat * 2 % 2 ^ 32 := by
    rw [UInt32.toNat_shiftLeft, Nat.shiftLeft_eq]
    rfl
  rw [UInt32.toNat_or, hshift, bit_toNat]
  have hdiv : x.toNat * 2 % 2 ^ 32 = x.toNat * 2 % 2 ^ 32 / 256 * 2 ^ 8 := by omega
  have hlt : byte.toNat / 128 % 2 * 128 < 2 ^ 8 := by omega
  rw [hdiv, Nat.mul_comm _ (2 ^ 8), ← Nat.two_pow_add_eq_or_of_lt hlt]

/-! ## Bits -/

/-- The head a bit further. -/
def nextRead (d : Drive) (off : Nat) : Nat :=
  if (off + 1) &&& 7 = 0 ∧ d.gcrCurrentTrackSize ≤ (off + 1) >>> 3 then 0 else off + 1

/-- The bit under the head. -/
def headBit (d : Drive) (c : Circuit) (off : Nat) : Nat :=
  (loadByte d c off).toNat * 2 ^ (off % 8) / 128 % 2

/-- What reading a bit changes in the drive. -/
def readBit (d : Drive) (c : Circuit) : Circuit :=
  let off := nextRead d c.gcrHeadOffset
  let lastReadData := (c.lastReadData * 2 + headBit d c off) % 1024
  let c := { c with
    gcrHeadOffset := off, lastReadData := lastReadData, lastWriteData := c.lastWriteData <<< 1 }
  if lastReadData = 1023 then { c with bitCounter := 0 }
  else if c.bitCounter + 1 = 8 then
    byteReadyNow d
      { c with bitCounter := 0, gcrRead := lastReadData.toUInt8, lastWriteData := lastReadData.toUInt8 }
  else { c with bitCounter := c.bitCounter + 1 }

/-- What the end of a call changes. -/
def settle (c : Circuit) : Circuit :=
  { c with
    lastReadData := c.lastReadData % 1024
    gcrRead := if c.gcrRead = 0 then 0x11 else c.gcrRead }

/-- The copies are what is in the drive. -/
structure Tracks (d : Drive) (x : Reader × Circuit) (c : Circuit) : Prop where
  off : x.1.off = c.gcrHeadOffset
  byte : x.1.byte.toNat = (loadByte d c c.gcrHeadOffset).toNat * 2 ^ (c.gcrHeadOffset % 8)
  low : x.1.lastReadData.toNat % 128 = 0
  lastReadData : x.1.lastReadData.toNat / 128 % 1024 = c.lastReadData % 1024
  bitCounter : x.1.bitCounter = c.bitCounter
  rest : { x.2 with
    gcrHeadOffset := c.gcrHeadOffset
    lastReadData := c.lastReadData
    bitCounter := c.bitCounter } = c

theorem loadByte_lt (d : Drive) (c : Circuit) (off : Nat) : (loadByte d c off).toNat < 256 := by
  unfold loadByte
  split_ifs
  · decide
  · split
    · decide
    · rw [UInt8.toNat_toUInt32]
      exact UInt8.toNat_lt _

theorem pow_le (k : Nat) : 2 ^ (k % 8) ≤ 2 ^ 7 :=
  Nat.pow_le_pow_right (by decide) (by omega)

theorem shifted_lt (d : Drive) (c : Circuit) (off k : Nat) :
    (loadByte d c off).toNat * 2 ^ (k % 8) < 2 ^ 31 := by
  have hle := Nat.mul_le_mul (Nat.le_of_lt (loadByte_lt d c off)) (pow_le k)
  omega

theorem openReader_tracks (d : Drive) (c : Circuit) : Tracks d (openReader d c, c) c := by
  have hoff : c.gcrHeadOffset &&& 7 = c.gcrHeadOffset % 8 := Nat.and_two_pow_sub_one_eq_mod _ 3
  have hlast : (UInt32.ofNat c.lastReadData <<< 7).toNat = c.lastReadData % 2 ^ 32 * 128 % 2 ^ 32 := by
    rw [UInt32.toNat_shiftLeft, Nat.shiftLeft_eq, UInt32.toNat_ofNat']
    rfl
  refine ⟨rfl, ?_, ?_, ?_, rfl, rfl⟩
  · change (loadByte d c c.gcrHeadOffset <<< (c.gcrHeadOffset &&& 7).toUInt32).toNat = _
    have hlt := shifted_lt d c c.gcrHeadOffset c.gcrHeadOffset
    have hsmall : c.gcrHeadOffset % 8 < 2 ^ 32 := by omega
    rw [hoff, UInt32.toNat_shiftLeft, Nat.toUInt32_eq, UInt32.toNat_ofNat_of_lt' hsmall, Nat.shiftLeft_eq,
      Nat.mod_eq_of_lt (by omega : c.gcrHeadOffset % 8 < 32), Nat.mod_eq_of_lt (by omega)]
  · change (UInt32.ofNat c.lastReadData <<< 7).toNat % 128 = 0
    rw [hlast]
    omega
  · change (UInt32.ofNat c.lastReadData <<< 7).toNat / 128 % 1024 = _
    rw [hlast]
    omega

theorem closeReader_tracks {x : Reader × Circuit} (h : Tracks d x c) : closeReader x = settle c := by
  have hlast : ((x.1.lastReadData >>> 7) &&& 0x3ff).toNat = c.lastReadData % 1024 := by
    rw [← h.lastReadData, UInt32.toNat_and, UInt32.toNat_shiftRight, Nat.shiftRight_eq_div_pow]
    exact Nat.and_two_pow_sub_one_eq_mod _ 10
  have hrest := h.rest
  unfold closeReader settle
  rw [hlast, h.bitCounter, h.off]
  conv_rhs => rw [← hrest]

theorem and_seven (off : Nat) : off &&& 7 = off % 8 := Nat.and_two_pow_sub_one_eq_mod _ 3

/-- Within a byte the same one is read. -/
theorem loadByte_within (d : Drive) (c : Circuit) {off : Nat} (h : ¬ (off + 1) % 8 = 0) :
    loadByte d c (off + 1) = loadByte d c off := by
  have hplace : (off + 1) >>> 3 = off >>> 3 := by
    rw [Nat.shiftRight_eq_div_pow, Nat.shiftRight_eq_div_pow]
    omega
  unfold loadByte
  rw [hplace]

theorem nextRead_within {off : Nat} (h : ¬ (off + 1) % 8 = 0) : nextRead d off = off + 1 := by
  unfold nextRead
  rw [if_neg fun hwrap => h (and_seven _ ▸ hwrap.1)]

theorem nextRead_boundary {off : Nat} (h : (off + 1) % 8 = 0) : nextRead d off % 8 = 0 := by
  unfold nextRead
  split_ifs
  · rfl
  · exact h

/-- The next byte of the copies, where the head goes. -/
theorem nextByte_toNat {byte : UInt32} {off : Nat}
    (hbyte : byte.toNat = (loadByte d c off).toNat * 2 ^ (off % 8)) :
    (if (off + 1) &&& 7 = 0 then loadByte d c (nextRead d off) else byte <<< 1).toNat =
      (loadByte d c (nextRead d off)).toNat * 2 ^ (nextRead d off % 8) := by
  rw [and_seven]
  by_cases hoff : (off + 1) % 8 = 0
  · rw [if_pos hoff, nextRead_boundary hoff, Nat.pow_zero, Nat.mul_one]
  · have hlt := shifted_lt d c off off
    have hpow : 2 ^ ((off + 1) % 8) = 2 ^ (off % 8) * 2 := by
      rw [← Nat.pow_succ]
      congr 1
      omega
    have hshift : (byte <<< 1).toNat = byte.toNat * 2 % 2 ^ 32 := by
      rw [UInt32.toNat_shiftLeft, Nat.shiftLeft_eq]
      rfl
    rw [if_neg hoff, nextRead_within hoff, loadByte_within d c hoff, hpow, ← Nat.mul_assoc, hshift,
      hbyte, Nat.mod_eq_of_lt (by omega)]

theorem readerTurn_tracks {x : Reader × Circuit} (h : Tracks d x c) :
    Tracks d (readerTurn d x) (readBit d c) := by
  obtain ⟨⟨off, byte, last, bits⟩, y⟩ := x
  obtain ⟨hoff, hbyte, hlow, hlast, hbits, hrest⟩ := h
  dsimp only at hoff hbyte hlow hlast hbits hrest
  obtain ⟨o, l, b, rfl⟩ : ∃ o l b, c = { y with gcrHeadOffset := o, lastReadData := l, bitCounter := b } :=
    ⟨_, _, _, hrest.symm⟩
  dsimp only at hoff hbits hlast hbyte
  subst hoff hbits
  have hload : ∀ k, loadByte d { y with gcrHeadOffset := off, lastReadData := l, bitCounter := bits } k =
      loadByte d y k := fun _ => rfl
  rw [hload] at hbyte
  have hbyte' := nextByte_toNat hbyte
  unfold readerTurn readBit headBit
  dsimp only
  rw [show (if off + 1 &&& 7 = 0 ∧ d.gcrCurrentTrackSize ≤ (off + 1) >>> 3 then 0 else off + 1) =
    nextRead d off from rfl, hload]
  generalize hnew : (if (off + 1) &&& 7 = 0 then loadByte d y (nextRead d off) else byte <<< 1) = byte'
  rw [hnew] at hbyte'
  have hshift := shift_toNat hlow byte'
  have hsync := sync_iff (last <<< 1 ||| byte' &&& 0x80)
  rw [hbyte'] at hshift
  generalize (last <<< 1 ||| byte' &&& 0x80) = last' at hshift hsync ⊢
  generalize (loadByte d y (nextRead d off)).toNat * 2 ^ (nextRead d off % 8) / 128 % 2 = bit at hshift ⊢
  have hlow' : last'.toNat % 128 = 0 := by omega
  have hregister : last'.toNat / 128 % 1024 = (l * 2 + bit) % 1024 := by omega
  have hread : (last' >>> 7).toUInt8 = ((l * 2 + bit) % 1024).toUInt8 := by
    apply UInt8.toNat_inj.mp
    rw [UInt32.toNat_toUInt8, UInt32.toNat_shiftRight, Nat.shiftRight_eq_div_pow, Nat.toUInt8_eq,
      UInt8.toNat_ofNat', ← hregister]
    change last'.toNat / 128 % 256 = last'.toNat / 128 % 1024 % 256
    omega
  by_cases hones : (l * 2 + bit) % 1024 = 1023
  · rw [if_neg (fun hne => hsync.mp hne (hregister.trans hones)), if_pos hones]
    exact ⟨rfl, hbyte', hlow', by dsimp only; omega, rfl, rfl⟩
  · rw [if_pos (hsync.mpr fun heq => hones (hregister.symm.trans heq)), if_neg hones, hread]
    by_cases height : bits + 1 = 8
    · rw [if_pos height, if_pos height]
      unfold byteReadyNow
      split_ifs
      · exact ⟨rfl, hbyte', hlow', by dsimp only; omega, rfl, rfl⟩
      · exact ⟨rfl, hbyte', hlow', by dsimp only; omega, rfl, rfl⟩
    · rw [if_neg height, if_neg height]
      exact ⟨rfl, hbyte', hlow', by dsimp only; omega, rfl, rfl⟩

theorem readerTurns_track (d : Drive) (c : Circuit) (n : Nat) :
    Tracks d ((readerTurn d)^[n] (openReader d c, c)) ((readBit d)^[n] c) := by
  induction n with
  | zero => exact openReader_tracks d c
  | succ n ih =>
    rw [Function.iterate_succ_apply', Function.iterate_succ_apply']
    exact readerTurn_tracks ih

theorem readBits_eq (d : Drive) (n : Nat) (c : Circuit) : readBits d n c = settle ((readBit d)^[n] c) :=
  closeReader_tracks (readerTurns_track d c n)

/-! ## Calls in between -/

theorem settle_idem (c : Circuit) : settle (settle c) = settle c := by
  unfold settle
  dsimp only
  rw [Nat.mod_mod]
  by_cases hread : c.gcrRead = 0
  · rw [if_pos hread, if_neg (by decide)]
  · rw [if_neg hread, if_neg hread]

theorem settle_readBit (d : Drive) (c : Circuit) : settle (readBit d (settle c)) = settle (readBit d c) := by
  have hhead : headBit d (settle c) (nextRead d c.gcrHeadOffset) =
      headBit d c (nextRead d c.gcrHeadOffset) := rfl
  have hmod : ((settle c).lastReadData * 2 + headBit d c (nextRead d c.gcrHeadOffset)) % 1024 =
      (c.lastReadData * 2 + headBit d c (nextRead d c.gcrHeadOffset)) % 1024 := by
    change (c.lastReadData % 1024 * 2 + _) % 1024 = _
    omega
  have hread := congrArg Circuit.gcrRead (settle_idem c)
  unfold readBit
  dsimp only
  rw [show (settle c).gcrHeadOffset = c.gcrHeadOffset from rfl, hhead, hmod,
    show (settle c).bitCounter = c.bitCounter from rfl]
  generalize (c.lastReadData * 2 + headBit d c (nextRead d c.gcrHeadOffset)) % 1024 = last
  -- a byte that comes in hides the one that was there; else it is settled once or twice
  split_ifs
  · exact congrArg (fun r => ({ settle c with
      gcrHeadOffset := nextRead d c.gcrHeadOffset, lastReadData := last % 1024,
      lastWriteData := c.lastWriteData <<< 1, bitCounter := 0, gcrRead := r } : Circuit)) hread
  · unfold byteReadyNow
    split_ifs <;> rfl
  · exact congrArg (fun r => ({ settle c with
      gcrHeadOffset := nextRead d c.gcrHeadOffset, lastReadData := last % 1024,
      lastWriteData := c.lastWriteData <<< 1, bitCounter := c.bitCounter + 1, gcrRead := r } : Circuit)) hread

theorem readBits_split (d : Drive) (n m : Nat) (c : Circuit) :
    readBits d m (readBits d n c) = readBits d (n + m) c := by
  rw [readBits_eq, readBits_eq, readBits_eq]
  exact settle_split settle_idem (settle_readBit d) n m c

theorem writeBits_split (d : Drive) (n m : Nat) (c : Circuit) :
    writeBits d m (writeBits d n c) = writeBits d (n + m) c := by
  unfold writeBits
  rw [Nat.add_comm, Function.iterate_add_apply]

/-! ## The accumulator is apart -/

/-- The circuit with another accumulator. -/
def setAccum (a : Nat) (c : Circuit) : Circuit := { c with accum := a }

theorem byteReadyNow_accum (d : Drive) (a : Nat) (c : Circuit) :
    setAccum a (byteReadyNow d c) = byteReadyNow d (setAccum a c) := by
  unfold byteReadyNow
  split_ifs <;> rfl

theorem readBit_accum (d : Drive) (a : Nat) : Function.Commute (setAccum a) (readBit d) := by
  intro c
  have hhead : headBit d (setAccum a c) (nextRead d c.gcrHeadOffset) =
      headBit d c (nextRead d c.gcrHeadOffset) := rfl
  unfold readBit
  dsimp only
  rw [show (setAccum a c).gcrHeadOffset = c.gcrHeadOffset from rfl, hhead,
    show (setAccum a c).lastReadData = c.lastReadData from rfl,
    show (setAccum a c).bitCounter = c.bitCounter from rfl]
  split_ifs
  · rfl
  · exact byteReadyNow_accum d a _
  · rfl

theorem writeNextBit_accum (d : Drive) (a : Nat) (c : Circuit) (value : UInt8) :
    setAccum a (writeNextBit d c value) = writeNextBit d (setAccum a c) value := by
  obtain ⟨accum, last, write, bits, ue7, uc, uf4, rand, fc, fs, fl, flux, so, cycle, xor, off, read, dirty,
    edge, level, track⟩ := c
  unfold writeNextBit
  by_cases himage : d.gcrImageLoaded = false
  · rw [if_pos himage, if_pos himage]
  · rw [if_neg himage, if_neg himage]
    cases track with
    | none => rfl
    | some bytes => rfl

/-- The first half of a turn of the write branch: a bit goes to the disk. -/
def written (d : Drive) (c : Circuit) : Circuit :=
  let last := (c.lastReadData <<< 1) &&& 0x3fe
  writeNextBit d { c with lastReadData := if last &&& 0xf = 0 then last ||| 1 else last }
    (c.lastWriteData &&& 0x80)

/-- The second: the shift register moves, or is loaded. -/
def shifted (d : Drive) (c : Circuit) : Circuit :=
  if c.bitCounter + 1 = 8 then byteReadyNow d { c with bitCounter := 0, lastWriteData := d.gcrWriteValue }
  else { c with lastWriteData := c.lastWriteData <<< 1, bitCounter := c.bitCounter + 1 }

theorem writeTurn_eq (d : Drive) (c : Circuit) : writeTurn d c = shifted d (written d c) := rfl

theorem shifted_accum (d : Drive) (a : Nat) (c : Circuit) :
    setAccum a (shifted d c) = shifted d (setAccum a c) := by
  unfold shifted
  rw [show (setAccum a c).bitCounter = c.bitCounter from rfl]
  split_ifs
  · exact byteReadyNow_accum d a _
  · rfl

theorem writeTurn_accum (d : Drive) (a : Nat) : Function.Commute (setAccum a) (writeTurn d) := by
  intro c
  have hwritten : setAccum a (written d c) = written d (setAccum a c) := writeNextBit_accum d a _ _
  rw [writeTurn_eq, writeTurn_eq, shifted_accum, hwritten]

theorem readBits_accum (d : Drive) (a n : Nat) (c : Circuit) :
    setAccum a (readBits d n c) = readBits d n (setAccum a c) := by
  have hcommute := ((readBit_accum d a).iterate_right n).eq c
  rw [readBits_eq, readBits_eq, ← hcommute]
  rfl

theorem writeBits_accum (d : Drive) (a n : Nat) (c : Circuit) :
    setAccum a (writeBits d n c) = writeBits d n (setAccum a c) :=
  ((writeTurn_accum d a).iterate_right n).eq c

/-! ## The head stays on the track -/

/-- The head is on the track. -/
def OnTrack (d : Drive) (c : Circuit) : Prop := c.gcrHeadOffset < 8 * d.gcrCurrentTrackSize

theorem nextRead_lt {off : Nat} (h : off < 8 * d.gcrCurrentTrackSize) :
    nextRead d off < 8 * d.gcrCurrentTrackSize := by
  unfold nextRead
  rw [and_seven, Nat.shiftRight_eq_div_pow]
  split_ifs
  · omega
  · omega

theorem readBit_onTrack (h : OnTrack d c) : OnTrack d (readBit d c) := by
  have hnext := nextRead_lt h
  unfold readBit OnTrack
  dsimp only
  split_ifs
  · exact hnext
  · unfold byteReadyNow
    split_ifs <;> exact hnext
  · exact hnext

theorem byteReadyNow_onTrack (h : OnTrack d c) : OnTrack d (byteReadyNow d c) := by
  unfold byteReadyNow
  split_ifs
  · exact h
  · exact h

theorem writeNextBit_onTrack (h : OnTrack d c) (value : UInt8) : OnTrack d (writeNextBit d c value) := by
  have hnext : nextOffset d c.gcrHeadOffset < 8 * d.gcrCurrentTrackSize := by
    unfold nextOffset
    unfold OnTrack at h
    rw [Nat.shiftLeft_eq]
    split_ifs <;> omega
  unfold writeNextBit
  dsimp only
  by_cases himage : d.gcrImageLoaded = false
  · rw [if_pos himage]
    exact h
  · rw [if_neg himage]
    split
    · exact hnext
    · exact hnext

theorem writeTurn_onTrack (h : OnTrack d c) : OnTrack d (writeTurn d c) := by
  have hwritten : OnTrack d (written d c) := writeNextBit_onTrack (by exact h) _
  rw [writeTurn_eq]
  unfold shifted
  split_ifs
  · exact byteReadyNow_onTrack (by exact hwritten)
  · exact hwritten

theorem readBits_onTrack (h : OnTrack d c) (n : Nat) : OnTrack d (readBits d n c) := by
  have hbits : OnTrack d ((readBit d)^[n] c) := by
    induction n with
    | zero => exact h
    | succ n ih => exact Function.iterate_succ_apply' (readBit d) n c ▸ readBit_onTrack ih
  rw [readBits_eq]
  exact hbits

theorem writeBits_onTrack (h : OnTrack d c) (n : Nat) : OnTrack d (writeBits d n c) := by
  induction n with
  | zero => exact h
  | succ n ih =>
    unfold writeBits at ih ⊢
    exact Function.iterate_succ_apply' (writeTurn d) n c ▸ writeTurn_onTrack ih

end

end Vice.L3.SimpleRotation
