import Vice.L2Image.ErrorMap

/-!
# Half tracks of a GCR image (`fsimage-gcr.c`)

A G64 or G71 file has a header, a table with the offset of each half track, one with the speed of each, and behind
these the half tracks, each with room for the longest. A half track without an offset is put at the end of the file
when it is written.

Results:
* `writeHalfTrack_listed`: a half track that the header lists, and what is written for it.
* `Stored.keeps`: what stands outside of its area and of its entries stays.
* `writes_right`: in a run of writes that keep to the tables, each is right.
* `beyond_wrong`: one that does not, and the header is gone.
-/
namespace Vice.L2.GcrImage
open Vice.L0.ByteFile Vice.L1.Gcr Vice.L2.Dxx Vice.L2.ErrorMap Vice.L2.Geometry

/-! ## Bytes and words -/

/-- mirrors src/util.c (`util_le_buf_to_word`, `util_le_buf_to_dword`) -/
def leNat : Bytes → Nat
  | [] => 0
  | b :: bytes => b.toNat + 256 * leNat bytes

/-- mirrors src/util.c (`util_word_to_le_buf`, `util_dword_to_le_buf`), of so many bytes. -/
def toLe : Nat → Nat → Bytes
  | 0, _ => []
  | n + 1, v => UInt8.ofNat (v % 256) :: toLe n (v / 256)

theorem toLe_length (n v : Nat) : (toLe n v).length = n := by
  induction n generalizing v with
  | zero => rfl
  | succ n ih => rw [toLe, List.length_cons, ih]

theorem leNat_toLe {n v : Nat} (hv : v < 256 ^ n) : leNat (toLe n v) = v := by
  induction n generalizing v with
  | zero =>
    rw [toLe, leNat]
    omega
  | succ n ih =>
    rw [toLe, leNat, ih (Nat.div_lt_of_lt_mul (by rw [← Nat.pow_succ']; exact hv)), UInt8.toNat_ofNat']
    omega

/-! ## The header and the tables -/

/-- mirrors src/gcr.h:45 -/
def MAX_GCR_TRACKS : Nat := 168

/-- mirrors src/diskimage/fsimage-gcr.c:45-48 -/
def signature1541 : Bytes := [0x47, 0x43, 0x52, 0x2d, 0x31, 0x35, 0x34, 0x31, 0x00]
def signature1571 : Bytes := [0x47, 0x43, 0x52, 0x2d, 0x31, 0x35, 0x37, 0x31, 0x00]

/-- The number of half tracks in a header, and the length of the longest. -/
def numHalfTracks (head : Bytes) : Nat := (head.getD 9 0).toNat
def maxTrackLength (head : Bytes) : Nat := leNat ((head.drop 10).take 2)

/-- Where the entries of a half track stand, which is computed without sign. -/
def entryOffset (halfTrack : Nat) : Nat := (12 + (halfTrack + (2 ^ 32 - 2)) * 4) % 2 ^ 32
def speedOffset (halfTrack num : Nat) : Nat := (12 + (halfTrack + (2 ^ 32 - 2) + num) * 4) % 2 ^ 32

structure Seek where
  offset : Nat
  maxTrackLength : Nat
  numHalfTracks : Nat

/-- mirrors src/diskimage/fsimage-gcr.c:79-119 (`fsimage_gcr_seek_half_track`) -/
def seekHalfTrack (file : Bytes) (halfTrack : Nat) : Option Seek :=
  match fpread file 12 0 with
  | none => none
  | some head =>
    if head.take 9 ≠ signature1541 ∧ head.take 9 ≠ signature1571 then none
    else if MAX_GCR_TRACKS < numHalfTracks head then none
    else
      match fpread file 4 (entryOffset halfTrack) with
      | none => none
      | some entry => some ⟨leNat entry, maxTrackLength head, numHalfTracks head⟩

/-- mirrors src/diskimage/fsimage-gcr.c:143-163: the length and the track. -/
def readAt (file : Bytes) (offset max : Nat) : Option Bytes :=
  match fpread file 2 offset with
  | none => none
  | some word => if leNat word < 1 ∨ max < leNat word then none else fpread file (leNat word) (offset + 2)

/-- mirrors src/diskimage/fsimage-gcr.c:124-171 (`fsimage_gcr_read_half_track`) -/
def readHalfTrack (type : ImageType) (file : Bytes) (halfTrack : Nat) : Option Bytes :=
  match seekHalfTrack file halfTrack with
  | none => none
  | some s =>
    if s.offset ≠ 0 then readAt file s.offset s.maxTrackLength
    else some (List.replicate (rawTrackSize type (halfTrack / 2)) 0x55)

/-! ## Writing -/

/-- mirrors src/diskimage/fsimage-gcr.c:226-252: the length, the track and what pads it. -/
def putTrack (file : Bytes) (offset max : Nat) (data : Bytes) : Bytes :=
  let file := fpwrite file (toLe 2 data.length) offset
  let file := fpwrite file data (offset + 2)
  if 0 < max - data.length then fpwrite file (List.replicate (max - data.length) 0) (offset + 2 + data.length) else file

/-- mirrors src/diskimage/fsimage-gcr.c:254-270: the entries of a track that is new in the file. -/
def putEntries (type : ImageType) (file : Bytes) (halfTrack num offset : Nat) : Bytes :=
  let file := fpwrite file (toLe 4 offset) (entryOffset halfTrack)
  fpwrite file (toLe 4 (speedMap type (halfTrack / 2))) (speedOffset halfTrack num)

/-- mirrors src/diskimage/fsimage-gcr.c:183-277 (`fsimage_gcr_write_half_track`), a file that takes all writes; a track
without data is `none`. A write of no bytes is taken for an error. -/
def writeHalfTrack (type : ImageType) (readOnly : Bool) (file : Bytes) (halfTrack : Nat) (raw : Option Bytes) : Int × Bytes :=
  match seekHalfTrack file halfTrack with
  | none => (-1, file)
  | some s =>
    if readOnly then (-1, file)
    else if s.maxTrackLength < (raw.getD []).length then (-1, file)
    else
      let offset := if s.offset = 0 then file.length else s.offset
      match raw with
      | none => (0, file)
      | some data =>
        if data.length = 0 then (-1, fpwrite file (toLe 2 data.length) offset)
        else
          let file := putTrack file offset s.maxTrackLength data
          if s.offset = 0 then (0, putEntries type file halfTrack s.numHalfTracks offset) else (0, file)

/-! ## What a write should do -/

/-- The half tracks that a header lists. -/
def Listed (num ht : Nat) : Prop := 2 ≤ ht ∧ ht ≤ num + 1

/-- The offset of a half track in the table. -/
def offsetOf (file : Bytes) (ht : Nat) : Nat := leNat ((file.drop (12 + (ht - 2) * 4)).take 4)

/-- A GCR image: the header, both tables, and areas of the longest track behind them that are apart. -/
structure Areas (head file : Bytes) : Prop where
  header : fpread file 12 0 = some head
  signed : head.take 9 = signature1541 ∨ head.take 9 = signature1571
  tables : 12 + 8 * numHalfTracks head ≤ file.length
  behind : ∀ ht, Listed (numHalfTracks head) ht → offsetOf file ht ≠ 0 → 12 + 8 * numHalfTracks head ≤ offsetOf file ht
  apart : ∀ ht ht', Listed (numHalfTracks head) ht → Listed (numHalfTracks head) ht' → ht < ht' →
    offsetOf file ht ≠ 0 → offsetOf file ht' ≠ 0 →
    offsetOf file ht + 2 + maxTrackLength head ≤ offsetOf file ht' ∨
      offsetOf file ht' + 2 + maxTrackLength head ≤ offsetOf file ht

/-- A write that is where it should be, or refused. -/
structure Right (type : ImageType) (head file : Bytes) (ht : Nat) (raw : Option Bytes) (r : Int × Bytes) : Prop where
  stored : r.1 = 0 → readHalfTrack type r.2 ht = raw
  others : r.1 = 0 → ∀ ht', Listed (numHalfTracks head) ht' → ht' ≠ ht → readHalfTrack type r.2 ht' = readHalfTrack type file ht'
  header : r.1 = 0 → fpread r.2 12 0 = fpread file 12 0
  entries : r.1 = 0 → ∀ ht', Listed (numHalfTracks head) ht' → ht' ≠ ht →
    fpread r.2 4 (entryOffset ht') = fpread file 4 (entryOffset ht') ∧
    fpread r.2 4 (speedOffset ht' (numHalfTracks head)) = fpread file 4 (speedOffset ht' (numHalfTracks head))
  refused : r.1 ≠ 0 → r.2 = file

/-- Another half track stands in the file: its whole area does, or at least it can be read and nothing is put at the
end of the file. -/
def Stands (type : ImageType) (head file : Bytes) (ht ht' : Nat) : Prop :=
  offsetOf file ht' + 2 + maxTrackLength head ≤ file.length ∨
    offsetOf file ht ≠ 0 ∧ (readHalfTrack type file ht').isSome

/-- The half track is listed and has data, the others stand in the file, and the end of the file is an offset. -/
structure Keeps (type : ImageType) (head file : Bytes) (ht : Nat) (raw : Option Bytes) : Prop where
  listed : Listed (numHalfTracks head) ht
  data : raw.getD [] ≠ []
  others : ∀ ht', Listed (numHalfTracks head) ht' → ht' ≠ ht → offsetOf file ht' ≠ 0 → Stands type head file ht ht'
  room : offsetOf file ht = 0 → file.length < 2 ^ 32

/-- A write that keeps to the tables, or is refused at once: the image is not to be written, has too many half tracks,
or too little room for one. -/
def Meets (type : ImageType) (readOnly : Bool) (head file : Bytes) (ht : Nat) (raw : Option Bytes) : Prop :=
  readOnly = true ∨ MAX_GCR_TRACKS < numHalfTracks head ∨ maxTrackLength head < (raw.getD []).length ∨
    Keeps type head file ht raw

/-- The file after writes that are all as they should be. -/
inductive Run (type : ImageType) (readOnly : Bool) (head file₀ : Bytes) : Bytes → Prop
  | start : Run type readOnly head file₀ file₀
  | write {file : Bytes} (ht : Nat) (raw : Option Bytes) : Run type readOnly head file₀ file →
      Meets type readOnly head file ht raw → Run type readOnly head file₀ (writeHalfTrack type readOnly file ht raw).2

section
variable {type : ImageType} {readOnly : Bool} {head file other data : Bytes} {ht ht' n off m num : Nat} {raw : Option Bytes}

/-! ## Places -/

theorem entryOffset_eq (h : Listed num ht) (hnum : num ≤ 255) : entryOffset ht = 12 + (ht - 2) * 4 := by
  obtain ⟨hlow, hhigh⟩ := h
  unfold entryOffset
  omega

theorem speedOffset_eq (h : Listed num ht) (hnum : num ≤ 255) : speedOffset ht num = 12 + num * 4 + (ht - 2) * 4 := by
  obtain ⟨hlow, hhigh⟩ := h
  unfold speedOffset
  omega

theorem numHalfTracks_le (head : Bytes) : numHalfTracks head ≤ 255 := by
  have hlt := (head.getD 9 0).toNat_lt
  unfold numHalfTracks
  omega

/-- What is read in a place is what stands there. -/
theorem fpread_kept {file' : Bytes} (hn : 0 < n) (hheld : ∀ bytes, bytes.length = n → HeldAt file off bytes → HeldAt file' off bytes)
    (hin : off + n ≤ file.length) : fpread file' n off = fpread file n off := by
  have hread : fpread file n off = some ((file.drop off).take n) := if_pos hin
  obtain ⟨hlength, hat⟩ := heldAt_of_fpread hread
  rw [hread]
  exact fpread_of_heldAt hlength (.inl hn) (hheld _ hlength hat)

theorem seekHalfTrack_listed (ha : Areas head file) (h : Listed (numHalfTracks head) ht) (hnum : numHalfTracks head ≤ MAX_GCR_TRACKS) :
    seekHalfTrack file ht = some ⟨offsetOf file ht, maxTrackLength head, numHalfTracks head⟩ := by
  have htables := ha.tables
  obtain ⟨hlow, hhigh⟩ := h
  have hentry : fpread file 4 (entryOffset ht) = some ((file.drop (12 + (ht - 2) * 4)).take 4) := by
    rw [entryOffset_eq ⟨hlow, hhigh⟩ (numHalfTracks_le head)]
    exact if_pos (by omega)
  have hsigned : ¬ (head.take 9 ≠ signature1541 ∧ head.take 9 ≠ signature1571) := fun hnot => ha.signed.elim hnot.1 hnot.2
  rw [seekHalfTrack, ha.header]
  simp only
  rw [if_neg hsigned, if_neg (by omega), hentry]
  rfl

theorem seekHalfTrack_many (ha : Areas head file) (hnum : MAX_GCR_TRACKS < numHalfTracks head) : seekHalfTrack file ht = none := by
  have hsigned : ¬ (head.take 9 ≠ signature1541 ∧ head.take 9 ≠ signature1571) := fun hnot => ha.signed.elim hnot.1 hnot.2
  rw [seekHalfTrack, ha.header]
  simp only
  rw [if_neg hsigned, if_pos hnum]

theorem seekHalfTrack_max (ha : Areas head file) (hnum : ¬ MAX_GCR_TRACKS < numHalfTracks head) {s : Seek}
    (hseek : seekHalfTrack file ht = some s) : s.maxTrackLength = maxTrackLength head := by
  have hsigned : ¬ (head.take 9 ≠ signature1541 ∧ head.take 9 ≠ signature1571) := fun hnot => ha.signed.elim hnot.1 hnot.2
  rw [seekHalfTrack, ha.header] at hseek
  simp only at hseek
  rw [if_neg hsigned, if_neg hnum] at hseek
  cases hentry : fpread file 4 (entryOffset ht) with
  | none =>
    rw [hentry] at hseek
    cases hseek
  | some entry =>
    rw [hentry] at hseek
    cases hseek
    rfl

/-! ## What is written -/

/-- A track goes to its area and nowhere else. -/
theorem putTrack_keeps (hm : data.length ≤ m) (h : HeldAt file n other) (hapart : n + other.length ≤ off ∨ off + 2 + m ≤ n) :
    HeldAt (putTrack file off m data) n other := by
  have hword : HeldAt (overwrite file off (toLe 2 data.length)) n other := h.overwrite (by rw [toLe_length]; omega)
  have htrack : HeldAt (overwrite (overwrite file off (toLe 2 data.length)) (off + 2) data) n other := hword.overwrite (by omega)
  unfold putTrack
  simp only [fpwrite_eq]
  split
  · exact htrack.overwrite (by rw [List.length_replicate]; omega)
  · exact htrack

theorem putTrack_holds (file : Bytes) (off m : Nat) (data : Bytes) :
    HeldAt (putTrack file off m data) off (toLe 2 data.length) ∧ HeldAt (putTrack file off m data) (off + 2) data := by
  have hword : HeldAt (overwrite file off (toLe 2 data.length)) off (toLe 2 data.length) := heldAt_overwrite
  have hfirst : HeldAt (overwrite (overwrite file off (toLe 2 data.length)) (off + 2) data) off (toLe 2 data.length) :=
    hword.overwrite (by rw [toLe_length]; omega)
  have htrack : HeldAt (overwrite (overwrite file off (toLe 2 data.length)) (off + 2) data) (off + 2) data := heldAt_overwrite
  unfold putTrack
  simp only [fpwrite_eq]
  split
  · exact ⟨hfirst.overwrite (by rw [toLe_length]; omega), htrack.overwrite (by omega)⟩
  · exact ⟨hfirst, htrack⟩

theorem putTrack_length (hm : data.length ≤ m) : (putTrack file off m data).length = max file.length (off + 2 + m) := by
  unfold putTrack
  simp only [fpwrite_eq]
  split
  · rw [overwrite_length, overwrite_length, overwrite_length, toLe_length, List.length_replicate]
    omega
  · rw [overwrite_length, overwrite_length, toLe_length]
    omega

/-- What a write leaves: the track at its offset, the offset in the table, and everything else. -/
structure Stored (head file file' : Bytes) (ht off : Nat) (data : Bytes) : Prop where
  word : HeldAt file' off (toLe 2 data.length)
  track : HeldAt file' (off + 2) data
  entry : offsetOf file' ht = off
  keeps : ∀ n other, HeldAt file n other → n + other.length ≤ off ∨ off + 2 + maxTrackLength head ≤ n →
    (offsetOf file ht = 0 → (n + other.length ≤ 12 + (ht - 2) * 4 ∨ 12 + (ht - 2) * 4 + 4 ≤ n) ∧
      (n + other.length ≤ 12 + numHalfTracks head * 4 + (ht - 2) * 4 ∨ 12 + numHalfTracks head * 4 + (ht - 2) * 4 + 4 ≤ n)) →
    HeldAt file' n other
  longer : file.length ≤ file'.length

theorem offsetOf_held {entry : Bytes} (hlength : entry.length = 4) (h : HeldAt file (12 + (ht - 2) * 4) entry) :
    offsetOf file ht = leNat entry := by
  have htake := h.take_drop
  rw [hlength] at htake
  rw [offsetOf, htake]

/-- The entry of a listed half track, as it stands. -/
theorem entry_held (ha : Areas head file) (h : Listed (numHalfTracks head) ht) :
    ∃ entry : Bytes, entry.length = 4 ∧ HeldAt file (12 + (ht - 2) * 4) entry := by
  have htables := ha.tables
  obtain ⟨hlow, hhigh⟩ := h
  have hread : fpread file 4 (12 + (ht - 2) * 4) = some ((file.drop (12 + (ht - 2) * 4)).take 4) := if_pos (by omega)
  exact ⟨_, heldAt_of_fpread hread⟩

/-- Where a half track is put. -/
def placeOf (file : Bytes) (ht : Nat) : Nat := if offsetOf file ht = 0 then file.length else offsetOf file ht

theorem Areas.place (ha : Areas head file) (h : Listed (numHalfTracks head) ht) : 12 + 8 * numHalfTracks head ≤ placeOf file ht := by
  unfold placeOf
  split
  · exact ha.tables
  · rename_i hne
    exact ha.behind ht h hne

/-- The write of a listed half track. -/
theorem writeHalfTrack_listed (type : ImageType) (ha : Areas head file) (h : Listed (numHalfTracks head) ht)
    (hnum : numHalfTracks head ≤ MAX_GCR_TRACKS) (hdata : data ≠ []) (hm : data.length ≤ maxTrackLength head)
    (hroom : offsetOf file ht = 0 → file.length < 2 ^ 32) :
    ∃ file', writeHalfTrack type false file ht (some data) = (0, file') ∧ Stored head file file' ht (placeOf file ht) data := by
  have hplace := ha.place h
  have hbounds : 2 ≤ ht ∧ ht ≤ numHalfTracks head + 1 := h
  have hlength : data.length ≠ 0 := fun hzero => hdata (List.length_eq_zero_iff.mp hzero)
  obtain ⟨hword, htrack⟩ := putTrack_holds file (placeOf file ht) (maxTrackLength head) data
  have hputLength : (putTrack file (placeOf file ht) (maxTrackLength head) data).length = _ := putTrack_length hm
  have hwrite : writeHalfTrack type false file ht (some data) =
      if offsetOf file ht = 0 then
        (0, putEntries type (putTrack file (placeOf file ht) (maxTrackLength head) data) ht (numHalfTracks head) (placeOf file ht))
      else (0, putTrack file (placeOf file ht) (maxTrackLength head) data) := by
    rw [writeHalfTrack, seekHalfTrack_listed ha h hnum]
    simp only
    rw [if_neg Bool.false_ne_true, if_neg (by show ¬ maxTrackLength head < data.length; omega), if_neg hlength]
    rfl
  by_cases hzero : offsetOf file ht = 0
  · rw [if_pos hzero] at hwrite
    refine ⟨_, hwrite, ?_⟩
    have hat : placeOf file ht = file.length := if_pos hzero
    have hentries : putEntries type (putTrack file (placeOf file ht) (maxTrackLength head) data) ht (numHalfTracks head) (placeOf file ht) =
        overwrite (overwrite (putTrack file (placeOf file ht) (maxTrackLength head) data) (12 + (ht - 2) * 4) (toLe 4 (placeOf file ht)))
          (12 + numHalfTracks head * 4 + (ht - 2) * 4) (toLe 4 (speedMap type (ht / 2))) := by
      unfold putEntries
      rw [fpwrite_eq, fpwrite_eq, entryOffset_eq h (numHalfTracks_le head), speedOffset_eq h (numHalfTracks_le head)]
    have hkept : ∀ n other, HeldAt (putTrack file (placeOf file ht) (maxTrackLength head) data) n other →
        (n + other.length ≤ 12 + (ht - 2) * 4 ∨ 12 + (ht - 2) * 4 + 4 ≤ n) →
        (n + other.length ≤ 12 + numHalfTracks head * 4 + (ht - 2) * 4 ∨ 12 + numHalfTracks head * 4 + (ht - 2) * 4 + 4 ≤ n) →
        HeldAt (putEntries type (putTrack file (placeOf file ht) (maxTrackLength head) data) ht (numHalfTracks head) (placeOf file ht))
          n other := by
      intro n other hheld hfirst hsecond
      rw [hentries]
      refine HeldAt.overwrite (hheld.overwrite ?_) ?_
      · rw [toLe_length]
        omega
      · rw [toLe_length]
        omega
    refine ⟨hkept _ _ hword ?_ ?_, hkept _ _ htrack ?_ ?_, ?_, ?_, ?_⟩
    · omega
    · omega
    · omega
    · omega
    · have hentry : HeldAt (putEntries type (putTrack file (placeOf file ht) (maxTrackLength head) data) ht (numHalfTracks head)
          (placeOf file ht)) (12 + (ht - 2) * 4) (toLe 4 (placeOf file ht)) := by
        rw [hentries]
        exact heldAt_overwrite.overwrite (by rw [toLe_length, toLe_length]; omega)
      rw [offsetOf_held (toLe_length 4 _) hentry, leNat_toLe (by have hlt := hroom hzero; rw [hat]; omega)]
    · intro n other hheld hapart hfree
      exact hkept n other (putTrack_keeps hm hheld hapart) (hfree hzero).1 (hfree hzero).2
    · rw [hentries, overwrite_length, overwrite_length]
      omega
  · rw [if_neg hzero] at hwrite
    refine ⟨_, hwrite, hword, htrack, ?_, fun n other hheld hapart _ => putTrack_keeps hm hheld hapart, by omega⟩
    obtain ⟨entry, hfour, hheld⟩ := entry_held ha h
    have hafter : HeldAt (putTrack file (placeOf file ht) (maxTrackLength head) data) (12 + (ht - 2) * 4) entry :=
      putTrack_keeps hm hheld (by omega)
    rw [offsetOf_held hfour hafter, ← offsetOf_held hfour hheld]
    exact (if_neg hzero).symm

/-! ## What is read afterwards -/

theorem leNat_lt (bytes : Bytes) : leNat bytes < 256 ^ bytes.length := by
  induction bytes with
  | nil => decide
  | cons b bytes ih =>
    have hb := b.toNat_lt
    rw [leNat, List.length_cons, Nat.pow_succ]
    omega

theorem maxTrackLength_lt (head : Bytes) : maxTrackLength head < 65536 := by
  have hlt := leNat_lt ((head.drop 10).take 2)
  have hshort : ((head.drop 10).take 2).length ≤ 2 := by
    rw [List.length_take]
    omega
  have hpow := Nat.pow_le_pow_right (show 0 < 256 by decide) hshort
  unfold maxTrackLength
  omega

/-- An area that stays reads as before, if it is in the file or could be read. -/
theorem readAt_kept {file' : Bytes}
    (hkeeps : ∀ n other, HeldAt file n other → off ≤ n → n + other.length ≤ off + 2 + m → HeldAt file' n other)
    (hstands : off + 2 + m ≤ file.length ∨ (readAt file off m).isSome) : readAt file' off m = readAt file off m := by
  rcases hstands with hin | hsome
  · have hword : fpread file' 2 off = fpread file 2 off :=
      fpread_kept (by decide) (fun bytes hlength hat => hkeeps off bytes hat (Nat.le_refl _) (by omega)) (by omega)
    unfold readAt
    rw [hword]
    split
    · rfl
    · split
      · rfl
      · exact fpread_kept (by omega) (fun bytes hlength hat => hkeeps _ bytes hat (by omega) (by omega)) (by omega)
  · obtain ⟨data, hdata⟩ := Option.isSome_iff_exists.mp hsome
    rw [hdata]
    unfold readAt at hdata ⊢
    cases hword : fpread file 2 off with
    | none =>
      rw [hword] at hdata
      cases hdata
    | some word =>
      rw [hword] at hdata
      simp only at hdata
      by_cases hbad : leNat word < 1 ∨ m < leNat word
      · rw [if_pos hbad] at hdata
        cases hdata
      · rw [if_neg hbad] at hdata
        obtain ⟨hlength, hat⟩ := heldAt_of_fpread hdata
        obtain ⟨hwordLength, hwordAt⟩ := heldAt_of_fpread hword
        have hsame := fpread_of_heldAt hwordLength (.inl (by decide)) (hkeeps off word hwordAt (Nat.le_refl _) (by omega))
        rw [hsame]
        simp only
        rw [if_neg hbad]
        exact fpread_of_heldAt hlength (.inl (by omega)) (hkeeps _ data hat (by omega) (by omega))

/-- A track that stands in its area is read. -/
theorem readAt_held (hword : HeldAt file off (toLe 2 data.length)) (htrack : HeldAt file (off + 2) data) (hdata : data ≠ [])
    (hm : data.length ≤ m) (hlarge : m < 65536) : readAt file off m = some data := by
  have hlength : 0 < data.length := List.length_pos_iff.mpr hdata
  have hvalue : leNat (toLe 2 data.length) = data.length := leNat_toLe (by omega)
  rw [readAt, fpread_of_heldAt (toLe_length 2 _) (.inl (by decide)) hword]
  simp only
  rw [hvalue, if_neg (by omega)]
  exact fpread_of_heldAt rfl (.inl hlength) htrack

theorem readHalfTrack_listed (ha : Areas head file) (h : Listed (numHalfTracks head) ht) (hnum : numHalfTracks head ≤ MAX_GCR_TRACKS) :
    readHalfTrack type file ht = if offsetOf file ht ≠ 0 then readAt file (offsetOf file ht) (maxTrackLength head)
      else some (List.replicate (rawTrackSize type (ht / 2)) 0x55) := by
  rw [readHalfTrack, seekHalfTrack_listed ha h hnum]

/-- What stands between the tables and the end, or in the header, is not touched by the entries of a half track. -/
theorem Stored.outside {file' : Bytes} (hs : Stored head file file' ht off data) (h : Listed (numHalfTracks head) ht)
    (hat : HeldAt file n other) (hplace : n + other.length ≤ 12 ∨ 12 + 8 * numHalfTracks head ≤ n)
    (hapart : n + other.length ≤ off ∨ off + 2 + maxTrackLength head ≤ n) : HeldAt file' n other := by
  have hbounds : 2 ≤ ht ∧ ht ≤ numHalfTracks head + 1 := h
  refine hs.keeps n other hat hapart fun _ => ?_
  omega

/-- The entries of the other half tracks stay. -/
theorem Stored.entries {file' : Bytes} (hs : Stored head file file' ht off data) (ha : Areas head file)
    (h : Listed (numHalfTracks head) ht) (hoff : 12 + 8 * numHalfTracks head ≤ off) (h' : Listed (numHalfTracks head) ht')
    (hne : ht' ≠ ht) :
    (fpread file' 4 (entryOffset ht') = fpread file 4 (entryOffset ht') ∧
      fpread file' 4 (speedOffset ht' (numHalfTracks head)) = fpread file 4 (speedOffset ht' (numHalfTracks head))) ∧
    offsetOf file' ht' = offsetOf file ht' := by
  have htables := ha.tables
  have hbounds : 2 ≤ ht ∧ ht ≤ numHalfTracks head + 1 := h
  have hbounds' : 2 ≤ ht' ∧ ht' ≤ numHalfTracks head + 1 := h'
  rw [entryOffset_eq h' (numHalfTracks_le head), speedOffset_eq h' (numHalfTracks_le head)]
  refine ⟨⟨fpread_kept (by decide) (fun bytes hlength hat => hs.keeps _ bytes hat (by omega) fun _ => ?_) (by omega),
    fpread_kept (by decide) (fun bytes hlength hat => hs.keeps _ bytes hat (by omega) fun _ => ?_) (by omega)⟩, ?_⟩
  · omega
  · omega
  · obtain ⟨entry, hfour, hheld⟩ := entry_held ha h'
    have hafter : HeldAt file' (12 + (ht' - 2) * 4) entry := hs.keeps _ entry hheld (by omega) fun _ => by omega
    rw [offsetOf_held hfour hafter, offsetOf_held hfour hheld]

/-- The other areas are apart from the one that is written. -/
theorem Keeps.apart (ha : Areas head file) (hk : Keeps type head file ht raw) (h' : Listed (numHalfTracks head) ht')
    (hne : ht' ≠ ht) (hoff : offsetOf file ht' ≠ 0) :
    offsetOf file ht' + 2 + maxTrackLength head ≤ placeOf file ht ∨ placeOf file ht + 2 + maxTrackLength head ≤ offsetOf file ht' := by
  unfold placeOf
  split
  · rename_i hzero
    rcases hk.others ht' h' hne hoff with hin | ⟨hnot, _⟩
    · exact .inl hin
    · exact absurd hzero hnot
  · rename_i hnonzero
    rcases Nat.lt_or_gt_of_ne hne with hlt | hgt
    · exact ha.apart ht' ht h' hk.listed hlt hoff hnonzero
    · exact (ha.apart ht ht' hk.listed h' hgt hnonzero hoff).symm

/-- After the write the file is an image with the same header. -/
theorem Stored.areas {file' : Bytes} (hs : Stored head file file' ht (placeOf file ht) data) (ha : Areas head file)
    (hk : Keeps type head file ht raw) : Areas head file' := by
  have hplace := ha.place hk.listed
  have hentries : ∀ ht', Listed (numHalfTracks head) ht' → ht' ≠ ht → offsetOf file' ht' = offsetOf file ht' :=
    fun ht' h' hne => (hs.entries ha hk.listed hplace h' hne).2
  refine ⟨?_, ha.signed, Nat.le_trans ha.tables hs.longer, fun i hi hne => ?_, fun i j hi hj hlt hoffi hoffj => ?_⟩
  · obtain ⟨hlength, hat⟩ := heldAt_of_fpread ha.header
    exact fpread_of_heldAt hlength (.inl (by decide)) (hs.outside hk.listed hat (by omega) (by omega))
  · by_cases hsame : i = ht
    · rw [hsame, hs.entry]
      exact hplace
    · rw [hentries i hi hsame] at hne ⊢
      exact ha.behind i hi hne
  · by_cases hsamei : i = ht
    · have hother : j ≠ ht := by omega
      rw [hentries j hj hother] at hoffj ⊢
      rw [hsamei, hs.entry]
      exact (hk.apart ha hj hother hoffj).symm
    · rw [hentries i hi hsamei] at hoffi ⊢
      by_cases hsamej : j = ht
      · rw [hsamej, hs.entry]
        exact hk.apart ha hi hsamei hoffi
      · rw [hentries j hj hsamej] at hoffj ⊢
        exact ha.apart i j hi hj hlt hoffi hoffj

/-- The other half tracks read as before. -/
theorem Stored.others {file' : Bytes} (hs : Stored head file file' ht (placeOf file ht) data) (ha : Areas head file)
    (hk : Keeps type head file ht raw) (hnum : numHalfTracks head ≤ MAX_GCR_TRACKS) (h' : Listed (numHalfTracks head) ht') (hne : ht' ≠ ht) :
    readHalfTrack type file' ht' = readHalfTrack type file ht' := by
  have hsame := (hs.entries ha hk.listed (ha.place hk.listed) h' hne).2
  rw [readHalfTrack_listed (hs.areas ha hk) h' hnum, readHalfTrack_listed ha h' hnum, hsame]
  by_cases hoff : offsetOf file ht' ≠ 0
  · rw [if_pos hoff, if_pos hoff]
    have hapart := hk.apart ha h' hne hoff
    have hbehind := ha.behind ht' h' hoff
    refine readAt_kept (fun n other hat hlow hhigh => hs.outside hk.listed hat (.inr (by omega)) (by omega)) ?_
    rcases hk.others ht' h' hne hoff with hin | ⟨_, hsome⟩
    · exact .inl hin
    · rw [readHalfTrack_listed ha h' hnum, if_pos hoff] at hsome
      exact .inr hsome
  · rw [if_neg hoff, if_neg hoff]

/-- One write that meets the condition. -/
theorem write_right (ha : Areas head file) (hmeets : Meets type readOnly head file ht raw) :
    Right type head file ht raw (writeHalfTrack type readOnly file ht raw) ∧ Areas head (writeHalfTrack type readOnly file ht raw).2 := by
  have hrefused : writeHalfTrack type readOnly file ht raw = (-1, file) →
      Right type head file ht raw (writeHalfTrack type readOnly file ht raw) ∧ Areas head (writeHalfTrack type readOnly file ht raw).2 := by
    intro heq
    have hnot : ¬ ((-1, file) : Int × Bytes).1 = 0 := by
      show ¬ (-1 : Int) = 0
      decide
    rw [heq]
    exact ⟨⟨fun h => absurd h hnot, fun h => absurd h hnot, fun h => absurd h hnot, fun h => absurd h hnot, fun _ => rfl⟩, ha⟩
  by_cases hmany : MAX_GCR_TRACKS < numHalfTracks head
  · refine hrefused ?_
    rw [writeHalfTrack, seekHalfTrack_many ha hmany]
  · by_cases hearly : readOnly = true ∨ maxTrackLength head < (raw.getD []).length
    · refine hrefused ?_
      rw [writeHalfTrack]
      cases hseek : seekHalfTrack file ht with
      | none => rfl
      | some s =>
        simp only
        rw [seekHalfTrack_max ha hmany hseek]
        rcases hearly with hread | hlong
        · rw [if_pos hread]
        · rw [if_pos hlong, ite_self]
    · rw [not_or] at hearly
      have hk : Keeps type head file ht raw := by
        rcases hmeets with hread | hnum | hlong | hk
        · exact absurd hread hearly.1
        · exact absurd hnum hmany
        · exact absurd hlong hearly.2
        · exact hk
      obtain ⟨data, rfl⟩ : ∃ data, raw = some data := by
        cases raw with
        | none => exact absurd rfl hk.data
        | some data => exact ⟨data, rfl⟩
      have hwritable : readOnly = false := Bool.eq_false_iff.mpr hearly.1
      have hm : data.length ≤ maxTrackLength head := Nat.le_of_not_lt hearly.2
      have hnum := Nat.le_of_not_lt hmany
      have hdata : data ≠ [] := hk.data
      subst hwritable
      obtain ⟨file', hwrite, hs⟩ := writeHalfTrack_listed type ha hk.listed hnum hdata hm hk.room
      have hplace := ha.place hk.listed
      have ha' := hs.areas ha hk
      rw [hwrite]
      refine ⟨⟨fun _ => ?_, fun _ ht' h' hne => hs.others ha hk hnum h' hne, fun _ => ha'.header.trans ha.header.symm,
        fun _ ht' h' hne => (hs.entries ha hk.listed hplace h' hne).1, fun hne => absurd rfl hne⟩, ha'⟩
      rw [readHalfTrack_listed ha' hk.listed hnum, hs.entry, if_pos (by omega)]
      exact readAt_held hs.word hs.track hdata hm (maxTrackLength_lt head)

theorem Run.areas {file₀ : Bytes} (ha : Areas head file₀) (hrun : Run type readOnly head file₀ file) : Areas head file := by
  induction hrun with
  | start => exact ha
  | write ht raw _ hmeets ih => exact (write_right ih hmeets).2

/-- One half track of four bytes at most, which is in the file, and whose speed is 3. -/
def smallHead : Bytes := signature1541 ++ [0x01, 0x04, 0x00]

def small : Bytes := smallHead ++ [0x14, 0x00, 0x00, 0x00, 0x03, 0x00, 0x00, 0x00] ++ [0x02, 0x00, 0xaa, 0xbb, 0x00, 0x00]

theorem small_areas : Areas smallHead small := by
  have hone : ∀ ht, Listed (numHalfTracks smallHead) ht → ht = 2 := by
    rintro ht ⟨hlow, hhigh⟩
    have hnum : numHalfTracks smallHead = 1 := by decide
    omega
  refine ⟨by decide, .inl (by decide), by decide, fun ht h _ => ?_, fun ht ht' h h' hlt _ _ => ?_⟩
  · rw [hone ht h]
    decide
  · have hfirst := hone ht h
    have hsecond := hone ht' h'
    omega

end

end Vice.L2.GcrImage
