import Vice.L1Encoding.GcrWrite

/-!
# Where a raw track is accessed (`gcr.c`)

The functions of the raw track once more, with the `int` positions of the source and every access
checked: one outside of the track stops the run, and so does a search that never ends. A negative
result is an error code, as in the source.

On a track whose only mark is not the header that is looked for, the second walk fails, and the
search decodes a block at position -3 before it looks at the result.

Results:
* `Checked.gcrFindSync_eq`, `Checked.gcrDecodeBlock_eq`: from a position of the track, no access is
  outside of it.
* `LoneMark.search`: the search on such a track.
* `gcrAccesses_iff`: on all other tracks the search, the reader and the writer end inside of them.
-/
namespace Vice.L1.Gcr
open Vice.L0.BitRun

/-- What stops a checked run. -/
inductive Fault
  | outside (i : Int)
  | endless
  deriving DecidableEq, Repr

/-- mirrors src/cbmdos.h:104-118, the numbers of the error codes. -/
def FdcErr.code : FdcErr → Int
  | .ok => 1
  | .header => 2
  | .sync => 3
  | .noblock => 4
  | .dcheck => 5
  | .verify => 7
  | .wprot => 8
  | .hcheck => 9
  | .blength => 10
  | .id => 11
  | .fspeed => 12
  | .drive => 15
  | .decode => 16

/-- `raw->data[i]`, read. -/
def DiskTrack.load (raw : DiskTrack) (i : Int) : Except Fault UInt8 :=
  if 0 ≤ i ∧ i < raw.size then .ok (raw.byte i.toNat) else .error (.outside i)

/-- `raw->data[i] = v` -/
def DiskTrack.store (raw : DiskTrack) (i : Int) (v : UInt8) : Except Fault DiskTrack :=
  if 0 ≤ i ∧ i < raw.size then .ok (raw.set i.toNat v) else .error (.outside i)

namespace Checked

def gcrFindSync.loop (raw : DiskTrack) : Nat → UInt32 → Nat → Int → Except Fault Int
  | 0, _, _, _ => .ok (-FdcErr.sync.code)
  | s + 1, w, b, p =>
    let next (w : UInt32) : Except Fault Int :=
      if p % 8 ≠ 7 then gcrFindSync.loop raw s w (b <<< 1) (p + 1)
      else do
        let p := if p + 1 ≥ raw.size * 8 then 0 else p + 1
        let b ← raw.load (p / 8)
        gcrFindSync.loop raw s w b.toNat p
    if b.testBit 7 then next (w <<< 1 ||| 1)
    else if ~~~w &&& 0x3ff ≠ 0 then next (w <<< 1)
    else .ok p

/-- mirrors src/gcr.c:170-203 (`gcr_find_sync`) -/
def gcrFindSync (raw : DiskTrack) (p : Int) (s : Nat) : Except Fault Int :=
  if raw.size = 0 then .ok (-FdcErr.sync.code)
  else do
    let b ← raw.load (p / 8)
    gcrFindSync.loop raw s 0 (b.toNat <<< (p % 8).toNat) p

def gcrDecodeBlock.bytes (raw : DiskTrack) (shift : Nat) :
    Nat → Int → UInt8 → Except Fault (Bytes × Int × UInt8)
  | 0, offset, b => .ok ([], offset, b)
  | j + 1, offset, b => do
    let offset := if offset + 1 ≥ raw.size then 0 else offset + 1
    let next ← raw.load offset
    let (g, b) :=
      if shift ≠ 0 then
        (b ||| UInt8.ofNat (next.toNat <<< shift >>> 8), UInt8.ofNat (next.toNat <<< shift))
      else (b, next)
    let (gs, offset, b) ← gcrDecodeBlock.bytes raw shift j offset b
    return (g :: gs, offset, b)

def gcrDecodeBlock.loop (raw : DiskTrack) (shift : Nat) : Nat → Int → UInt8 → Except Fault Bytes
  | 0, _, _ => .ok []
  | num + 1, offset, b => do
    let (gcr, offset, b) ← gcrDecodeBlock.bytes raw shift 5 offset b
    let buf ← gcrDecodeBlock.loop raw shift num offset b
    return gcrConvertGcrTo4bytes gcr ++ buf

/-- mirrors src/gcr.c:205-232 (`gcr_decode_block`) -/
def gcrDecodeBlock (raw : DiskTrack) (p : Int) (num : Nat) : Except Fault Bytes := do
  let shift := (p % 8).toNat
  let b ← raw.load (p / 8)
  gcrDecodeBlock.loop raw shift num (p / 8) (UInt8.ofNat (b.toNat <<< shift))

def gcrFindSectorHeader.loop (raw : DiskTrack) (sector : UInt8) : Nat → Int → Int → Except Fault Int
  | 0, _, _ => .error .endless
  | fuel + 1, p, p2 => do
    let p ← gcrFindSync raw p (raw.size * 8)
    if p2 = p then return if p2 < 0 then p2 else -FdcErr.header.code
    else
      let p2 := if p2 < 0 then p else p2
      let header ← gcrDecodeBlock raw p 1
      if header.getD 0 0 = 0x08 ∧ header.getD 2 0 = sector then return p
      else gcrFindSectorHeader.loop raw sector fuel p p2

/-- mirrors src/gcr.c:234-261 (`gcr_find_sector_header`), for `fuel` turns. -/
def gcrFindSectorHeader (fuel : Nat) (raw : DiskTrack) (sector : UInt8) : Except Fault Int :=
  gcrFindSectorHeader.loop raw sector fuel 0 (-FdcErr.sync.code)

/-- mirrors src/gcr.c:263-292 (`gcr_read_sector`) -/
def gcrReadSector (fuel : Nat) (raw : DiskTrack) (data : Bytes) (sector : UInt8) :
    Except Fault (Int × Bytes) := do
  let p ← gcrFindSectorHeader fuel raw sector
  if p < 0 then return (-p, data)
  else
    let p ← gcrFindSync raw p (500 * 8)
    if p < 0 then return (-p, data)
    else
      let buffer ← gcrDecodeBlock raw p 65
      let out := (buffer.drop 1).take 256
      let b := out.foldl (· ^^^ ·) (buffer.getD 257 0)
      if buffer.getD 0 0 ≠ 0x07 then return (FdcErr.noblock.code, out)
      else if b ≠ 0 then return (FdcErr.dcheck.code, out)
      else return (FdcErr.ok.code, out)

def gcrWriteSector.bytes (shift : Nat) :
    Bytes → DiskTrack → Int → UInt8 → Except Fault (DiskTrack × Int × UInt8)
  | [], raw, offset, b => .ok (raw, offset, b)
  | g :: gcr, raw, offset, b => do
    let (v, b) :=
      if shift ≠ 0 then (b ||| UInt8.ofNat (g.toNat >>> shift), UInt8.ofNat (g.toNat <<< 8 >>> shift))
      else (g, b)
    let raw ← raw.store offset v
    let offset := if offset + 1 ≥ raw.size then 0 else offset + 1
    gcrWriteSector.bytes shift gcr raw offset b

def gcrWriteSector.loop (shift : Nat) :
    Nat → Bytes → DiskTrack → Int → UInt8 → Except Fault (DiskTrack × Int × UInt8)
  | 0, _, raw, offset, b => .ok (raw, offset, b)
  | num + 1, buf, raw, offset, b => do
    let (raw, offset, b) ←
      gcrWriteSector.bytes shift (gcrConvert4bytesToGcr (buf.take 4)) raw offset b
    gcrWriteSector.loop shift num (buf.drop 4) raw offset b

/-- mirrors src/gcr.c:294-346 (`gcr_write_sector`) -/
def gcrWriteSector (fuel : Nat) (raw : DiskTrack) (data : Bytes) (sector : UInt8) :
    Except Fault (Int × DiskTrack) := do
  let p ← gcrFindSectorHeader fuel raw sector
  if p < 0 then return (-p, raw)
  else
    let p ← gcrFindSync raw p (500 * 8)
    if p < 0 then return (-p, raw)
    else
      let shift := (p % 8).toNat
      let old ← raw.load (p / 8)
      let b := old &&& UInt8.ofNat (0xff00 >>> shift)
      let (raw, offset, b) ←
        gcrWriteSector.loop shift 65 (Gcr.gcrWriteSector.buffer data) raw (p / 8) b
      let last ← raw.load offset
      let raw ← raw.store offset (b ||| last &&& UInt8.ofNat (0xff >>> shift))
      return (FdcErr.ok.code, raw)

end Checked

/-! ## Inside of the track -/

/-- A result as the source returns it. -/
def code : Except FdcErr Nat → Int
  | .ok p => p
  | .error e => -e.code

theorem FdcErr.code_pos (e : FdcErr) : 0 < e.code := by cases e <;> decide

theorem code_neg {r : Except FdcErr Nat} : code r < 0 ↔ ∃ e, r = .error e := by
  cases r with
  | ok p => simp only [code, reduceCtorEq, exists_false, iff_false]; omega
  | error e => have := e.code_pos; simp only [code, Except.error.injEq, exists_eq', iff_true]; omega

section
variable {raw : DiskTrack} {sector : UInt8} {p q : Nat}

theorem load_eq (h : p < raw.size) : raw.load p = .ok (raw.byte p) := by
  unfold DiskTrack.load
  rw [if_pos (by omega), Int.toNat_natCast]

theorem store_eq (h : p < raw.size) (v : UInt8) : raw.store p v = .ok (raw.set p v) := by
  unfold DiskTrack.store
  rw [if_pos (by omega), Int.toNat_natCast]

/-- The next index, around the end. -/
theorem next_cast (n : Nat) : (if (p : Int) + 1 ≥ n then (0 : Int) else p + 1) =
    ((if p + 1 ≥ n then 0 else p + 1 : Nat) : Int) := by
  split <;> split <;> omega

theorem pos_shift : ((p : Int) % 8).toNat = p % 8 := by omega

theorem pos_offset : (p : Int) / 8 = ((p / 8 : Nat) : Int) := by omega

theorem Checked.findSync_loop (hsize : 0 < raw.size) (s : Nat) (w : UInt32) (b : Nat) (hp : p < 8 * raw.size) :
    Checked.gcrFindSync.loop raw s w b p = .ok (code (Gcr.gcrFindSync.loop raw s w b p)) := by
  induction s generalizing w b p with
  | zero => rfl
  | succ s ih =>
    rw [Checked.gcrFindSync.loop, Gcr.gcrFindSync.loop]
    have hnext : ∀ w : UInt32,
        (if (p : Int) % 8 ≠ 7 then Checked.gcrFindSync.loop raw s w (b <<< 1) ((p : Int) + 1)
          else (raw.load ((if (p : Int) + 1 ≥ raw.size * 8 then 0 else (p : Int) + 1) / 8)).bind
            fun b => Checked.gcrFindSync.loop raw s w b.toNat
              (if (p : Int) + 1 ≥ raw.size * 8 then 0 else (p : Int) + 1)) =
        .ok (code (if p % 8 ≠ 7 then Gcr.gcrFindSync.loop raw s w (b <<< 1) (p + 1)
          else Gcr.gcrFindSync.loop raw s w
            (raw.byte ((if p + 1 ≥ raw.size * 8 then 0 else p + 1) / 8)).toNat
            (if p + 1 ≥ raw.size * 8 then 0 else p + 1))) := by
      intro w
      by_cases h7 : p % 8 = 7
      · have hwrap := next_cast (p := p) (raw.size * 8)
        rw [Nat.cast_mul, Nat.cast_ofNat] at hwrap
        rw [if_neg (show ¬ (p : Int) % 8 ≠ 7 by omega), if_neg (show ¬ p % 8 ≠ 7 by omega), hwrap]
        have hlt : (if p + 1 ≥ raw.size * 8 then 0 else p + 1) < 8 * raw.size := by split <;> omega
        generalize (if p + 1 ≥ raw.size * 8 then 0 else p + 1) = p' at hlt
        rw [pos_offset, load_eq (by omega)]
        exact ih w _ hlt
      · rw [if_pos (show (p : Int) % 8 ≠ 7 by omega), if_pos h7]
        exact ih (p := p + 1) w _ (by omega)
    by_cases hb : b.testBit 7 = true
    · simp only [if_pos hb]
      exact hnext _
    · simp only [if_neg hb]
      by_cases hw : ~~~w &&& 0x3ff ≠ 0
      · simp only [if_pos hw]
        exact hnext _
      · simp only [if_neg hw]
        rfl

theorem Checked.gcrFindSync_eq (hp : p < 8 * raw.size) (s : Nat) :
    Checked.gcrFindSync raw p s = .ok (code (Gcr.gcrFindSync raw p s)) := by
  unfold Checked.gcrFindSync Gcr.gcrFindSync
  rw [if_neg (by omega), if_neg (by omega), pos_offset, load_eq (by omega), pos_shift]
  exact findSync_loop (by omega) s 0 _ hp

theorem Checked.decodeBytes_eq (hsize : 0 < raw.size) (shift j : Nat) (offset : Nat) (b : UInt8) :
    Checked.gcrDecodeBlock.bytes raw shift j offset b =
      .ok ((Gcr.gcrDecodeBlock.bytes raw shift j offset b).1,
        ((Gcr.gcrDecodeBlock.bytes raw shift j offset b).2.1 : Int),
        (Gcr.gcrDecodeBlock.bytes raw shift j offset b).2.2) := by
  induction j generalizing offset b with
  | zero => rfl
  | succ j ih =>
    rw [Checked.gcrDecodeBlock.bytes, Gcr.gcrDecodeBlock.bytes]
    simp only [next_cast]
    have hlt : (if offset + 1 ≥ raw.size then 0 else offset + 1) < raw.size := by split <;> omega
    generalize (if offset + 1 ≥ raw.size then 0 else offset + 1) = offset' at hlt
    rw [load_eq hlt]
    simp only [bind, Except.bind, UInt8.ofNat_toNat]
    by_cases h0 : shift ≠ 0
    · simp only [if_pos h0, ih]
      rfl
    · simp only [if_neg h0, ih]
      rfl

theorem Checked.gcrDecodeBlock_eq (hp : p < 8 * raw.size) (num : Nat) :
    Checked.gcrDecodeBlock raw p num = .ok (Gcr.gcrDecodeBlock raw p num) := by
  have hloop : ∀ (shift num offset : Nat) (b : UInt8),
      Checked.gcrDecodeBlock.loop raw shift num offset b =
        .ok (Gcr.gcrDecodeBlock.loop raw shift num offset b) := by
    intro shift num
    induction num with
    | zero => exact fun _ _ => rfl
    | succ num ih =>
      intro offset b
      rw [Checked.gcrDecodeBlock.loop, Gcr.gcrDecodeBlock.loop, decodeBytes_eq (by omega)]
      simp only [bind, Except.bind, ih]
      rfl
  unfold Checked.gcrDecodeBlock Gcr.gcrDecodeBlock
  simp only [pos_shift, pos_offset]
  rw [load_eq (by omega)]
  exact hloop ..

/-- The walk has one way to fail. -/
theorem findSync_sync {s : Nat} {e : FdcErr} (hp : p < 8 * raw.size)
    (h : Gcr.gcrFindSync raw p s = .error e) : e = .sync := by
  rcases findSync_spec hp s with ⟨_, -, -, he⟩ | ⟨-, he⟩ <;> rw [h] at he <;> cases he
  rfl

theorem findSync_lt {s : Nat} (hp : p < 8 * raw.size) (h : Gcr.gcrFindSync raw p s = .ok q) :
    q < 8 * raw.size := by
  rcases findSync_spec hp s with ⟨i, -, -, he⟩ | ⟨-, he⟩ <;> rw [h] at he <;> cases he
  exact behind_lt (by omega) p i

theorem code_inj {r r' : Except FdcErr Nat} (h : ∀ e, r = .error e → e = .sync)
    (h' : ∀ e, r' = .error e → e = .sync) : code r = code r' ↔ r = r' := by
  refine ⟨fun heq => ?_, congrArg code⟩
  cases r with
  | ok p =>
    cases r' with
    | ok q =>
      simp only [code] at heq
      rw [show p = q by omega]
    | error e =>
      have := e.code_pos
      simp only [code] at heq
      omega
  | error e =>
    cases r' with
    | ok q =>
      have := e.code_pos
      simp only [code] at heq
      omega
    | error e' => rw [h e rfl, h' e' rfl]

/-- A search that ends, ends the same way and inside of the track. -/
theorem Checked.headerLoop_eq (fuel : Nat) {p2 r : Except FdcErr Nat} (hp : p < 8 * raw.size)
    (h2 : ∀ e, p2 = .error e → e = .sync)
    (h : Gcr.gcrFindSectorHeader.loop raw sector fuel p p2 = some r) :
    Checked.gcrFindSectorHeader.loop raw sector fuel p (code p2) = .ok (code r) := by
  induction fuel generalizing p p2 with
  | zero => cases h
  | succ fuel ih =>
    rw [Gcr.gcrFindSectorHeader.loop.eq_def] at h
    simp only at h
    rw [Checked.gcrFindSectorHeader.loop, gcrFindSync_eq hp]
    have hsync := fun e => findSync_sync (s := raw.size * 8) (e := e) hp
    have hlt := fun q => findSync_lt (s := raw.size * 8) (q := q) hp
    generalize Gcr.gcrFindSync raw p (raw.size * 8) = found at h hsync hlt
    simp only [bind, Except.bind, code_inj h2 hsync]
    by_cases heq : p2 = found
    · rw [if_pos heq] at h ⊢
      cases p2 with
      | error e =>
        cases h
        rw [if_pos (code_neg.mpr ⟨e, rfl⟩)]
        rfl
      | ok q2 =>
        cases h
        rw [if_neg (by simp [code_neg])]
        rfl
    · rw [if_neg heq] at h ⊢
      cases found with
      | error e => cases h
      | ok q =>
        simp only at h
        have hqN := hlt q rfl
        have hrest : ∀ p3 : Except FdcErr Nat, (∀ e, p3 = .error e → e = .sync) →
            (if (Gcr.gcrDecodeBlock raw q 1).getD 0 0 = 0x08 ∧
                (Gcr.gcrDecodeBlock raw q 1).getD 2 0 = sector then some (.ok q)
              else Gcr.gcrFindSectorHeader.loop raw sector fuel q p3) = some r →
            (if (Gcr.gcrDecodeBlock raw q 1).getD 0 0 = 0x08 ∧
                (Gcr.gcrDecodeBlock raw q 1).getD 2 0 = sector then .ok (q : Int)
              else Checked.gcrFindSectorHeader.loop raw sector fuel q (code p3)) = .ok (code r) := by
          intro p3 h3 h
          split at h
          · next hm =>
            rw [if_pos hm]
            cases h
            rfl
          · next hm =>
            rw [if_neg hm]
            exact ih hqN h3 h
        rw [show code (.ok q) = (q : Int) from rfl, gcrDecodeBlock_eq hqN]
        -- the first mark is kept from the first turn on
        cases p2 with
        | error e =>
          rw [if_pos (code_neg.mpr ⟨e, rfl⟩)]
          exact hrest (.ok q) (fun e he => by cases he) h
        | ok q2 =>
          rw [if_neg (by simp [code_neg])]
          exact hrest (.ok q2) (fun e he => by cases he) h

theorem Checked.gcrFindSectorHeader_eq (hsize : 0 < raw.size) {r : Except FdcErr Nat}
    (h : Gcr.gcrFindSectorHeader raw sector = some r) :
    Checked.gcrFindSectorHeader (8 * raw.size + 2) raw sector = .ok (code r) :=
  headerLoop_eq _ (by omega) (fun e he => by cases he; rfl) h

/-- The block behind a found header. -/
theorem header_lt (h : Gcr.gcrFindSectorHeader raw sector = some (.ok p)) : p < 8 * raw.size := by
  have hend := gcrFindSectorHeader_end raw sector
  rw [h] at hend
  cases hend with
  | found _ _ hat _ => exact hat.lt

theorem Checked.gcrReadSector_eq (hsize : 0 < raw.size) (data : Bytes)
    {r : FdcErr × Bytes} (h : Gcr.gcrReadSector raw data sector = some r) :
    Checked.gcrReadSector (8 * raw.size + 2) raw data sector = .ok (r.1.code, r.2) := by
  unfold Gcr.gcrReadSector at h
  unfold Checked.gcrReadSector
  cases hf : Gcr.gcrFindSectorHeader raw sector with
  | none => rw [hf] at h; cases h
  | some found =>
    rw [hf] at h
    rw [gcrFindSectorHeader_eq hsize hf]
    simp only [bind, Except.bind]
    cases found with
    | error e =>
      cases h
      rw [if_pos (code_neg.mpr ⟨e, rfl⟩)]
      simp only [code, Int.neg_neg]
      rfl
    | ok p =>
      have hpN := header_lt hf
      simp only at h
      rw [if_neg (by simp [code_neg]), show code (.ok p) = (p : Int) from rfl, gcrFindSync_eq hpN]
      simp only
      cases hs : Gcr.gcrFindSync raw p (500 * 8) with
      | error e =>
        rw [hs] at h
        cases h
        rw [if_pos (code_neg.mpr ⟨e, rfl⟩)]
        simp only [code, Int.neg_neg]
        rfl
      | ok q =>
        rw [hs] at h
        rw [if_neg (by simp [code_neg]), show code (.ok q) = (q : Int) from rfl,
          gcrDecodeBlock_eq (findSync_lt hpN hs)]
        simp only at h ⊢
        split at h
        · next h7 => rw [if_pos h7]; cases h; rfl
        · next h7 =>
          rw [if_neg h7]
          split at h
          · next hb => rw [if_pos hb]; cases h; rfl
          · next hb => rw [if_neg hb]; cases h; rfl

end

/-! ## Writing -/

theorem Checked.writeBytes_eq (shift : Nat) (gs : Bytes) {raw : DiskTrack} {offset : Nat} (b : UInt8)
    (ho : offset < raw.size) :
    Checked.gcrWriteSector.bytes shift gs raw offset b =
      .ok ((Gcr.gcrWriteSector.bytes shift gs raw offset b).1,
        ((Gcr.gcrWriteSector.bytes shift gs raw offset b).2.1 : Int),
        (Gcr.gcrWriteSector.bytes shift gs raw offset b).2.2) ∧
    (Gcr.gcrWriteSector.bytes shift gs raw offset b).1.size = raw.size ∧
    (Gcr.gcrWriteSector.bytes shift gs raw offset b).2.1 < raw.size := by
  induction gs generalizing raw offset b with
  | nil => exact ⟨rfl, rfl, ho⟩
  | cons g gs ih =>
    rw [Checked.gcrWriteSector.bytes, Gcr.gcrWriteSector.bytes]
    generalize (if shift ≠ 0 then
      (b ||| UInt8.ofNat (g.toNat >>> shift), UInt8.ofNat (g.toNat <<< 8 >>> shift)) else (g, b)) = vb
    obtain ⟨v, b'⟩ := vb
    have hlt : (if offset + 1 ≥ raw.size then 0 else offset + 1) < (raw.set offset v).size := by
      rw [DiskTrack.set_size]
      split <;> omega
    have hrest := ih b' hlt
    dsimp only
    rw [store_eq ho]
    simp only [bind, Except.bind, DiskTrack.set_size, next_cast] at hrest ⊢
    exact hrest

theorem Checked.writeLoop_eq (shift num : Nat) {buf : Bytes} {raw : DiskTrack} {offset : Nat}
    (b : UInt8) (ho : offset < raw.size) :
    Checked.gcrWriteSector.loop shift num buf raw offset b =
      .ok ((Gcr.gcrWriteSector.loop shift num buf raw offset b).1,
        ((Gcr.gcrWriteSector.loop shift num buf raw offset b).2.1 : Int),
        (Gcr.gcrWriteSector.loop shift num buf raw offset b).2.2) ∧
    (Gcr.gcrWriteSector.loop shift num buf raw offset b).1.size = raw.size ∧
    (Gcr.gcrWriteSector.loop shift num buf raw offset b).2.1 < raw.size := by
  induction num generalizing buf raw offset b with
  | zero => exact ⟨rfl, rfl, ho⟩
  | succ num ih =>
    rw [Checked.gcrWriteSector.loop, Gcr.gcrWriteSector.loop]
    obtain ⟨heq, hsize, hlt⟩ :=
      writeBytes_eq shift (gcrConvert4bytesToGcr (buf.take 4)) b ho
    rw [heq]
    generalize Gcr.gcrWriteSector.bytes shift (gcrConvert4bytesToGcr (buf.take 4)) raw offset b = out
      at hsize hlt
    obtain ⟨raw', offset', b'⟩ := out
    have hrest := @ih (buf.drop 4) raw' offset' b' (hlt.trans_eq hsize.symm)
    rw [hsize] at hrest
    simp only [bind, Except.bind]
    exact hrest

theorem Checked.gcrWriteSector_eq {raw : DiskTrack} {sector : UInt8} (hsize : 0 < raw.size)
    (data : Bytes) {r : FdcErr × DiskTrack} (h : Gcr.gcrWriteSector raw data sector = some r) :
    Checked.gcrWriteSector (8 * raw.size + 2) raw data sector = .ok (r.1.code, r.2) := by
  unfold Gcr.gcrWriteSector at h
  unfold Checked.gcrWriteSector
  cases hf : Gcr.gcrFindSectorHeader raw sector with
  | none => rw [hf] at h; cases h
  | some found =>
    rw [hf] at h
    rw [gcrFindSectorHeader_eq hsize hf]
    simp only [bind, Except.bind]
    cases found with
    | error e =>
      cases h
      rw [if_pos (code_neg.mpr ⟨e, rfl⟩)]
      simp only [code, Int.neg_neg]
      rfl
    | ok p =>
      have hpN := header_lt hf
      simp only at h
      rw [if_neg (by simp [code_neg]), show code (.ok p) = (p : Int) from rfl, gcrFindSync_eq hpN]
      simp only
      cases hs : Gcr.gcrFindSync raw p (500 * 8) with
      | error e =>
        rw [hs] at h
        cases h
        rw [if_pos (code_neg.mpr ⟨e, rfl⟩)]
        simp only [code, Int.neg_neg]
        rfl
      | ok q =>
        have hqN := findSync_lt hpN hs
        rw [hs] at h
        simp only at h
        rw [if_neg (by simp [code_neg]), show code (.ok q) = (q : Int) from rfl]
        simp only [pos_shift, pos_offset]
        rw [load_eq (by omega)]
        obtain ⟨heq, hsz, hlt⟩ := @writeLoop_eq (q % 8) 65 (Gcr.gcrWriteSector.buffer data) raw (q / 8)
          (raw.byte (q / 8) &&& UInt8.ofNat (0xff00 >>> (q % 8))) (show q / 8 < raw.size by omega)
        simp only [heq]
        generalize Gcr.gcrWriteSector.loop (q % 8) 65 (Gcr.gcrWriteSector.buffer data) raw (q / 8)
          (raw.byte (q / 8) &&& UInt8.ofNat (0xff00 >>> (q % 8))) = out at h hsz hlt
        obtain ⟨raw', offset', b'⟩ := out
        simp only at h hsz hlt ⊢
        rw [load_eq (hlt.trans_eq hsz.symm)]
        simp only
        rw [store_eq (hlt.trans_eq hsz.symm)]
        cases h
        rfl

/-! ## Outside of it -/

/-- The only mark of the track is one the search can see, and not the header it looks for. -/
def LoneMark (raw : DiskTrack) (sector : UInt8) : Prop :=
  ∃ q, 10 ≤ q ∧ RingMark 10 raw.bits q ∧ (∀ p, RingMark 10 raw.bits p → p = q) ∧
    ¬ HeaderAt raw sector q

section
variable {raw : DiskTrack} {sector : UInt8}

theorem loneMark_of_none (h : Gcr.gcrFindSectorHeader raw sector = none) : LoneMark raw sector := by
  have hend := gcrFindSectorHeader_end raw sector
  rw [h] at hend
  cases hend with
  | @lone q0 hs hnone hone =>
    have hpos : 0 < raw.size := by
      by_contra h0
      unfold Gcr.gcrFindSync at hs
      rw [if_pos (by omega)] at hs
      cases hs
    have h10 : 10 ≤ 8 * raw.size := by
      by_contra hlt
      rw [findSync_short (by omega) (by omega)] at hs
      cases hs
    obtain ⟨i, hi10, hiN, rfl, hm, -⟩ := findSync_ok h10 (by omega) hs
    refine ⟨_, ?_, hm, hone, hnone _⟩
    unfold DiskTrack.behind
    rw [Nat.zero_add, Nat.mod_eq_of_lt (by omega)]
    exact hi10

/-- The first walk finds the mark, the second fails; the block is decoded all the same. -/
theorem LoneMark.search (h : LoneMark raw sector) (fuel : Nat) :
    ∃ f, Checked.gcrFindSectorHeader fuel raw sector = .error f := by
  obtain ⟨q, hq10, hm, hone, hat⟩ := h
  have hqN : q < 8 * raw.size := by rw [← raw.bits_length]; exact hm.1
  have h10 : 10 ≤ 8 * raw.size := by omega
  have hz : raw.behind 0 q = q := by
    unfold DiskTrack.behind
    rw [Nat.zero_add, Nat.mod_eq_of_lt hqN]
  have hfirst : Gcr.gcrFindSync raw 0 (raw.size * 8) = .ok q := by
    cases hf : Gcr.gcrFindSync raw 0 (raw.size * 8) with
    | error e => exact absurd (hz.symm ▸ hm) ((findSync_error h10 (by omega) hf).2 q hq10 (by omega))
    | ok p =>
      obtain ⟨i, -, -, rfl, hmp, -⟩ := findSync_ok h10 (by omega) hf
      rw [hone _ hmp]
  have hsecond : Gcr.gcrFindSync raw q (raw.size * 8) = .error .sync := by
    rcases findSync_around hm h10 with ⟨d, hd, hdN, -, hmd, -⟩ | ⟨he, -⟩
    · have := behind_inj (e := 0) hdN (by omega) ((hone _ hmd).trans (behind_zero hqN).symm)
      omega
    · exact he
  unfold Checked.gcrFindSectorHeader
  match fuel with
  | 0 => exact ⟨_, rfl⟩
  | fuel + 1 =>
    have hwalk : Checked.gcrFindSync raw 0 (raw.size * 8) = .ok (q : Int) := by
      have h0 := Checked.gcrFindSync_eq (show 0 < 8 * raw.size by omega) (raw.size * 8)
      rw [hfirst] at h0
      exact h0
    rw [Checked.gcrFindSectorHeader.loop, hwalk]
    simp only [bind, Except.bind]
    have hpos := FdcErr.sync.code_pos
    rw [if_neg (show ¬ -FdcErr.sync.code = (q : Int) by omega),
      if_pos (show -FdcErr.sync.code < 0 by omega), Checked.gcrDecodeBlock_eq hqN]
    simp only
    rw [if_neg (fun hmatch => hat ⟨hm, hmatch⟩)]
    match fuel with
    | 0 => exact ⟨_, rfl⟩
    | fuel + 1 =>
      have hfail : Checked.gcrFindSync raw q (raw.size * 8) = .ok (-FdcErr.sync.code) := by
        rw [Checked.gcrFindSync_eq hqN, hsecond]
        rfl
      rw [Checked.gcrFindSectorHeader.loop, hfail]
      simp only [bind, Except.bind]
      rw [if_neg (show ¬ (q : Int) = -FdcErr.sync.code by omega),
        if_neg (show ¬ (q : Int) < 0 by omega)]
      -- the read in front of the track
      exact ⟨.outside (-1), rfl⟩

/-- A run that ends, with no access outside of the track. -/
def EndsInside {α : Type} (run : Nat → Except Fault α) : Prop := ∃ fuel r, run fuel = .ok r

/-- mirrors src/gcr.c:170-346: the search ends and stays inside of the track, for itself and for the
reader and the writer, on every track but one whose only mark is not the header. -/
theorem gcrAccesses_iff (raw : DiskTrack) (sector : UInt8) :
    (EndsInside (fun fuel => Checked.gcrFindSectorHeader fuel raw sector) ∧
      (∀ data, EndsInside (fun fuel => Checked.gcrReadSector fuel raw data sector)) ∧
      ∀ data, EndsInside (fun fuel => Checked.gcrWriteSector fuel raw data sector)) ↔
    ¬ LoneMark raw sector := by
  constructor
  · rintro ⟨⟨fuel, r, hr⟩, -⟩ hlone
    obtain ⟨f, hf⟩ := hlone.search fuel
    simp only at hr
    rw [hf] at hr
    cases hr
  · intro hlone
    rcases Nat.eq_zero_or_pos raw.size with h0 | hpos
    · -- without data the walk fails before it reads any
      have hsearch : Checked.gcrFindSectorHeader 1 raw sector = .ok (-FdcErr.sync.code) := by
        unfold Checked.gcrFindSectorHeader Checked.gcrFindSectorHeader.loop Checked.gcrFindSync
        rw [if_pos h0]
        rfl
      refine ⟨⟨1, _, hsearch⟩, fun data => ⟨1, (FdcErr.sync.code, data), ?_⟩,
        fun data => ⟨1, (FdcErr.sync.code, raw), ?_⟩⟩
      · simp only [Checked.gcrReadSector, hsearch]
        rfl
      · simp only [Checked.gcrWriteSector, hsearch]
        rfl
    · obtain ⟨r, hr⟩ : ∃ r, Gcr.gcrFindSectorHeader raw sector = some r :=
        Option.ne_none_iff_exists'.mp fun hnone => hlone (loneMark_of_none hnone)
      refine ⟨⟨_, _, Checked.gcrFindSectorHeader_eq hpos hr⟩, fun data => ?_, fun data => ?_⟩
      · obtain ⟨out, hout⟩ : ∃ out, Gcr.gcrReadSector raw data sector = some out := by
          unfold Gcr.gcrReadSector
          rw [hr]
          cases r with
          | error e => exact ⟨_, rfl⟩
          | ok p =>
            simp only
            split
            · exact ⟨_, rfl⟩
            · split
              · exact ⟨_, rfl⟩
              · split <;> exact ⟨_, rfl⟩
        exact ⟨_, _, Checked.gcrReadSector_eq hpos data hout⟩
      · obtain ⟨out, hout⟩ : ∃ out, Gcr.gcrWriteSector raw data sector = some out := by
          unfold Gcr.gcrWriteSector
          rw [hr]
          cases r with
          | error e => exact ⟨_, rfl⟩
          | ok p =>
            simp only
            split <;> exact ⟨_, rfl⟩
        exact ⟨_, _, Checked.gcrWriteSector_eq hpos data hout⟩

end

/-- Sixteen ones and eight zeros: one mark, and no header. -/
def loneTrack : DiskTrack := ⟨[0xff, 0xff, 0x00]⟩

theorem gcrAccesses_not_always : ¬ ∀ (raw : DiskTrack) (sector : UInt8), 1 ≤ raw.size →
      EndsInside fun fuel => Checked.gcrFindSectorHeader fuel raw sector := by
  intro hall
  have hlone : LoneMark loneTrack 0 := by
    refine loneMark_of_none ?_
    decide +kernel
  obtain ⟨fuel, r, hr⟩ := hall loneTrack 0 (by decide)
  obtain ⟨f, hf⟩ := hlone.search fuel
  simp only at hr
  rw [hf] at hr
  cases hr

end Vice.L1.Gcr
