import Vice.L2Image.T64
import Mathlib.Tactic.SplitIfs

/-!
# When a T64 container delivers its files

What `t64_open` makes of a record depends on the record that follows it among the first `num_used`,
which need not be a used one nor the one whose data follow, and the end address it keeps has 16 bits.

Results:
* `opened_record`: a record after `t64_open`.
* `size_eq_iff`: when a repaired record has the size it should.
* `delivers_iff`: when all of it goes right.
-/
namespace Vice.L2.T64

variable {q : Qsort} {file : Bytes} {header : Header} {records : List FileRecord} {sizes : List Nat}
  {r next : FileRecord} {tapesize e i : Nat}

/-- The record after `r`. -/
def following : List FileRecord → FileRecord → Option FileRecord
  | [], _ => none
  | a :: rest, r => if a = r then rest.head? else following rest r

/-- The size that the directory shows for `r`, in 16 bits: up to the record after it in the order of
the offsets, or to the end of the container if it does not report less; what it reports if it is not
among the first `num_used`. -/
def shown (q : Qsort) (tapesize : Nat) (numUsed : Nat) (records : List FileRecord) (r : FileRecord) : Nat :=
  if r.index < numUsed then
    match following (q.sort compContent (records.take numUsed)) r with
    | some next => (next.contents - r.contents).toUInt16.toNat
    | none => min r.reportedSize.toNat (UInt16.ofNat tapesize - r.contents.toUInt16).toNat
  else r.reportedSize.toNat

/-- No read is of no bytes, and none is of so many that their sum with the position is a small `int`. -/
def Castable (e : Nat) : Nat → List Nat → Prop
  | _, [] => True
  | position, size :: sizes =>
    0 < size ∧ (e < position + size → (e : Int) < toInt (position + size)) ∧
      Castable e (min e (position + size)) sizes

/-- What has to be so for all of it to go right. -/
structure Deliverable (q : Qsort) (file : Bytes) (numUsed : Nat) (records : List FileRecord)
    (sizes : List Nat) : Prop where
  shown_eq : ∀ r ∈ records, r.used = true →
    shown q file.length numUsed records r = expected file.length records r
  ends_below : ∀ r ∈ records, r.used = true →
    r.startAddr.toNat + expected file.length records r ≤ 65535
  castable : ∀ r ∈ records, r.used = true → Castable (expected file.length records r) 0 sizes

/-! ## One record -/

/-- The size that goes into the end address. -/
def repairedSize (tapesize : Nat) (next : Option FileRecord) (r : FileRecord) : Nat :=
  match next with
  | some next => (next.contents - r.contents).toUInt16.toNat
  | none => min r.reportedSize.toNat (UInt16.ofNat tapesize - r.contents.toUInt16).toNat

/-- A size that was reported or put into the end address comes back if the end address has it. -/
theorem size_eq_iff (r : FileRecord) (e : Nat) :
    r.size = (e : Int) ↔ r.reportedSize.toNat = e ∧ r.startAddr.toNat + e ≤ 65535 := by
  have hend := r.endAddr.toNat_lt
  have hstart := r.startAddr.toNat_lt
  rw [FileRecord.size, FileRecord.reportedSize, UInt16.toNat_sub]
  omega

theorem reportedSize_add (r : FileRecord) (n : UInt16) :
    ({ r with endAddr := r.startAddr + n } : FileRecord).reportedSize = n := by
  show r.startAddr + n - r.startAddr = n
  rw [UInt16.add_comm, UInt16.add_sub_cancel]

theorem repair_reportedSize (tapesize : Nat) (next : Option FileRecord) (r : FileRecord) :
    (repair tapesize next r).reportedSize.toNat = repairedSize tapesize next r := by
  cases next with
  | none =>
    simp only [repair, repairedSize]
    split
    · rename_i hless
      rw [reportedSize_add]
      exact (Nat.min_eq_right (Nat.le_of_lt (UInt16.lt_iff_toNat_lt.1 hless))).symm
    · rename_i hnot
      exact (Nat.min_eq_left (Nat.le_of_not_lt fun h => hnot (UInt16.lt_iff_toNat_lt.2 h))).symm
  | some next =>
    simp only [repair, repairedSize]
    split
    · rw [reportedSize_add]
    · rename_i hsame
      rw [not_not] at hsame
      rw [hsame]

/-- All but the end address is left alone. -/
theorem repair_rest (tapesize : Nat) (next : Option FileRecord) (r : FileRecord) :
    (repair tapesize next r).rest = r.rest := by
  cases next with
  | none =>
    simp only [repair]
    split <;> rfl
  | some next =>
    simp only [repair]
    split <;> rfl

/-! ## The directory after `t64_open` -/

theorem setEnds_eq {l : List FileRecord} (h : l.Nodup) (tapesize : Nat) :
    setEnds tapesize l = l.map fun r => repair tapesize (following l r) r := by
  induction l with
  | nil => rfl
  | cons a rest ih =>
    rw [List.nodup_cons] at h
    rw [setEnds, ih h.2, List.map_cons]
    congr 1
    · rw [following, if_pos rfl]
    · refine List.map_congr_left fun r hr => ?_
      rw [following, if_neg]
      exact fun heq => h.1 (heq ▸ hr)

theorem compIndex_nonpos (a b : FileRecord) : compIndex a b ≤ 0 ↔ a.index ≤ b.index := by
  unfold compIndex
  split_ifs <;> omega

theorem repair_index (tapesize : Nat) (next : Option FileRecord) (r : FileRecord) :
    (repair tapesize next r).index = r.index := by
  have hrest := repair_rest tapesize next r
  have hindex := congrArg FileRecord.index hrest
  exact hindex

/-- Records in the order of their numbers get back there. -/
theorem sort_index {l p : List FileRecord} {f : FileRecord → FileRecord} (hf : ∀ r, (f r).index = r.index)
    (hperm : l.Perm p) (hp : p.Pairwise fun a b => a.index < b.index) :
    q.sort compIndex (l.map f) = p.map f := by
  have hsorted := q.sorted compIndex (l.map f)
    (fun a b c hab hbc => by rw [compIndex_nonpos] at *; omega)
    (fun a b => by rw [compIndex_nonpos, compIndex_nonpos]; omega)
  have hboth := (q.perm compIndex (l.map f)).trans (hperm.map f)
  have hmap : (p.map f).Pairwise fun a b => a.index < b.index := by
    rw [List.pairwise_map]
    exact hp.imp fun h => by rw [hf, hf]; exact h
  have hnodup : ((p.map f).map FileRecord.index).Nodup := by
    rw [List.Nodup, List.pairwise_map]
    exact hmap.imp Nat.ne_of_lt
  refine hboth.eq_of_pairwise (fun a b ha hb hab hba => ?_) hsorted
    (hmap.imp fun h => (compIndex_nonpos _ _).2 (Nat.le_of_lt h))
  rw [compIndex_nonpos] at hab hba
  exact List.inj_on_of_nodup_map hnodup (hboth.mem_iff.1 ha) hb (Nat.le_antisymm hab hba)

/-- A record as `t64_open` leaves it. -/
def opened (q : Qsort) (tapesize numUsed : Nat) (records : List FileRecord) (r : FileRecord) : FileRecord :=
  if r.index < numUsed then
    repair tapesize (following (q.sort compContent (records.take numUsed)) r) r
  else r

theorem directory_index {n : Nat} (h : directory file n = some records) :
    records.map FileRecord.index = List.range n := by
  unfold directory at h
  split at h
  · cases h
  · cases h
    rw [List.map_map]
    exact List.map_id'' (fun _ => rfl) _

theorem record_index {n i : Nat} (h : records.map FileRecord.index = List.range n)
    (hr : records[i]? = some r) : r.index = i := by
  have hi := congrArg (fun l => l[i]?) h
  simp only [List.getElem?_map, hr, Option.map_some] at hi
  have hlt : i < (List.range n).length := by
    by_contra hno
    rw [List.getElem?_eq_none (by omega)] at hi
    cases hi
  rw [List.getElem?_range (by rwa [List.length_range] at hlt)] at hi
  exact Option.some.inj hi

theorem opened_record (hheader : headerRead file = some header)
    (hrecords : directory file header.numEntries = some records) :
    t64Open q file = some ⟨file, header,
      records.map (opened q file.length header.numUsed records), -1, 0⟩ := by
  have hindex := directory_index hrecords
  have hsorted : records.Pairwise fun a b => a.index < b.index := by
    rw [← List.pairwise_map (f := FileRecord.index), hindex]
    exact List.pairwise_lt_range
  have htake := hsorted.sublist (List.take_sublist header.numUsed records)
  have hnodup : (q.sort compContent (records.take header.numUsed)).Nodup :=
    (q.perm _ _).nodup_iff.2 (List.Nodup.of_map FileRecord.index (by
      rw [List.Nodup, List.pairwise_map]
      exact htake.imp Nat.ne_of_lt))
  have hsort := sort_index (q := q) (f := fun r => repair file.length
    (following (q.sort compContent (records.take header.numUsed)) r) r)
    (fun r => repair_index _ _ r) (q.perm compContent (records.take header.numUsed)) htake
  unfold t64Open
  simp only [hheader, hrecords, Option.bind_eq_bind, Option.bind_some, setEnds_eq hnodup, hsort]
  congr 2
  have hsplit : records.map (opened q file.length header.numUsed records) =
      (records.take header.numUsed).map (opened q file.length header.numUsed records) ++
        (records.drop header.numUsed).map (opened q file.length header.numUsed records) := by
    rw [← List.map_append, List.take_append_drop]
  rw [hsplit]
  congr 1
  · refine List.map_congr_left fun r hr => ?_
    obtain ⟨i, hi, hget⟩ := List.getElem_of_mem hr
    rw [List.length_take] at hi
    have hat : records[i]? = some r := by
      rw [← hget, List.getElem_take, List.getElem?_eq_getElem (by omega)]
    rw [opened, if_pos]
    rw [record_index hindex hat]
    omega
  · symm
    refine List.map_congr_left (g := id) (fun r hr => ?_) |>.trans (List.map_id _)
    obtain ⟨i, hi, hget⟩ := List.getElem_of_mem hr
    rw [List.length_drop] at hi
    have hat : records[header.numUsed + i]? = some r := by
      rw [← hget, List.getElem_drop, List.getElem?_eq_getElem (by omega)]
    rw [opened, if_neg, id]
    rw [record_index hindex hat]
    omega

/-! ## Reading in chunks -/

/-- The current file of `t`, with its first `position` bytes read. -/
structure Reading (t : Container) (r : FileRecord) (e position : Nat) : Prop where
  number : 0 ≤ t.currentFileNumber
  record : t.fileRecords[t.currentFileNumber.toNat]? = some r
  position_eq : t.currentFileSeekPosition = position
  position_le : position ≤ e
  size : r.size = (e : Int)
  inside : r.contents.toNat + e ≤ t.file.length
  reachable : r.contents.toNat + e ≤ 2 ^ 32

theorem slice_length {offset n : Nat} (h : offset + n ≤ file.length) : (slice file offset n).length = n := by
  rw [slice, List.length_take, List.length_drop]
  omega

theorem slice_add (file : Bytes) (offset a b : Nat) :
    slice file offset (a + b) = slice file offset a ++ slice file (offset + a) b := by
  rw [slice, slice, slice, List.take_add, List.drop_drop]

theorem toInt_le (n : Nat) : toInt n ≤ n := by
  have hmod := Nat.mod_le n (2 ^ 32)
  unfold toInt
  split <;> omega

variable {t : Container} {position size : Nat}

/-- A read that sees where the file ends. -/
theorem t64Read_castable (h : Reading t r e position) (hpos : 0 < size)
    (hcast : e < position + size → (e : Int) < toInt (position + size)) :
    t64Read t size = some (slice t.file (r.contents.toNat + position) (min size (e - position)),
      { t with currentFileSeekPosition := min e (position + size) }) := by
  have hle := h.position_le
  have hin := h.inside
  have hreach := h.reachable
  have hguard : ¬(t.currentFileNumber < 0 ∨ size = 0) := by
    have := h.number
    omega
  have hfirst : ¬(r.size < (position : Int)) := by
    rw [h.size]
    omega
  have hsize : (if decide (r.size < toInt (position + size)) = true then (r.size - position).toNat
      else size) = min size (e - position) := by
    rw [h.size]
    by_cases hmore : e < position + size
    · rw [if_pos (decide_eq_true (hcast hmore))]
      omega
    · have hno : ¬(e : Int) < toInt (position + size) := by
        have := toInt_le (position + size)
        omega
      rw [if_neg (by rw [decide_eq_false hno]; exact Bool.false_ne_true)]
      omega
  have hslice : slice t.file ((r.contents.toNat + position) % 2 ^ 32) (min size (e - position)) =
      slice t.file (r.contents.toNat + position) (min size (e - position)) := by
    obtain hmore | hend : position < e ∨ position = e := by omega
    · rw [Nat.mod_eq_of_lt (by omega)]
    · rw [hend, Nat.sub_self, Nat.min_zero]
      rfl
  have hlength : (slice t.file (r.contents.toNat + position) (min size (e - position))).length =
      min size (e - position) := slice_length (by omega)
  have hplace : position + min size (e - position) = min e (position + size) := by omega
  simp only [t64Read, if_neg hguard, h.record, h.position_eq, Option.bind_eq_bind, Option.bind_some,
    decide_eq_false hfirst, Bool.and_false, Bool.false_eq_true, ↓reduceIte, hsize, hslice, hlength,
    ne_eq, not_true_eq_false, hplace]

/-- A read that does not gets too many bytes, if any. -/
theorem t64Read_miscast (h : Reading t r e position) {buf : Bytes} {t' : Container}
    (hmore : toInt (position + size) ≤ e) (hread : t64Read t size = some (buf, t')) :
    buf.length = size := by
  have hpast : ¬(r.size < toInt (position + size)) := by
    rw [h.size]
    omega
  unfold t64Read at hread
  split at hread
  · cases hread
  · simp only [h.record, h.position_eq, Option.bind_eq_bind, Option.bind_some, decide_eq_false hpast,
      Bool.false_and, Bool.false_eq_true, ↓reduceIte] at hread
    split at hread
    · cases hread
    · rename_i hlength
      rw [not_not] at hlength
      cases hread
      exact hlength

theorem readChunks_iff (sizes : List Nat) (h : Reading t r e position) : readChunks t sizes =
        some (slice t.file (r.contents.toNat + position) (min (e - position) sizes.sum)) ↔
      Castable e position sizes := by
  induction sizes generalizing t position with
  | nil =>
    rw [List.sum_nil, Nat.min_zero]
    exact iff_of_true rfl trivial
  | cons size sizes ih =>
    obtain rfl | hpos := Nat.eq_zero_or_pos size
    · have hnone : t64Read t 0 = none := by
        rw [t64Read, if_pos (.inr rfl)]
      rw [readChunks, hnone]
      exact iff_of_false (Option.some_ne_none _).symm fun hcast => Nat.lt_irrefl 0 hcast.1
    · by_cases hcast : e < position + size → (e : Int) < toInt (position + size)
      · have hle := h.position_le
        have hread := t64Read_castable h hpos hcast
        have hnext : Reading { t with currentFileSeekPosition := min e (position + size) } r e
            (min e (position + size)) :=
          ⟨h.number, h.record, rfl, Nat.min_le_left _ _, h.size, h.inside, h.reachable⟩
        have hsplit : slice t.file (r.contents.toNat + position) (min (e - position) (size :: sizes).sum) =
            slice t.file (r.contents.toNat + position) (min size (e - position)) ++
              slice t.file (r.contents.toNat + min e (position + size))
                (min (e - min e (position + size)) sizes.sum) := by
          have hsum : min (e - position) (size :: sizes).sum = min size (e - position) +
              min (e - min e (position + size)) sizes.sum := by
            rw [List.sum_cons]
            omega
          have hplace : r.contents.toNat + min e (position + size) =
              r.contents.toNat + position + min size (e - position) := by omega
          rw [hsum, hplace, slice_add]
        have hrest := ih hnext
        simp only [readChunks, hread, Option.bind_eq_bind, Option.bind_some, hsplit, Castable]
        rw [and_iff_right hpos, and_iff_right hcast, ← hrest]
        cases readChunks { t with currentFileSeekPosition := min e (position + size) } sizes with
        | none => exact iff_of_false (Option.some_ne_none _).symm (Option.some_ne_none _).symm
        | some rest =>
          simp only [Option.bind_some, Option.some.injEq, List.append_cancel_left_eq]
      · refine iff_of_false (fun hall => ?_) fun hall => hcast hall.2.1
        rw [Classical.not_imp, not_lt] at hcast
        cases hread : t64Read t size with
        | none =>
          rw [readChunks, hread] at hall
          exact absurd hall (Option.some_ne_none _).symm
        | some result =>
          obtain ⟨buf, t'⟩ := result
          have hlength := t64Read_miscast h hcast.2 hread
          simp only [readChunks, hread, Option.bind_eq_bind, Option.bind_some] at hall
          cases hrest : readChunks t' sizes with
          | none =>
            rw [hrest] at hall
            exact absurd hall (Option.some_ne_none _).symm
          | some rest =>
            rw [hrest] at hall
            have hboth := congrArg List.length (Option.some.inj hall)
            rw [List.length_append, hlength, slice, List.length_take] at hboth
            omega

/-! ## The whole container -/

theorem opened_reportedSize (q : Qsort) (tapesize numUsed : Nat) (records : List FileRecord)
    (r : FileRecord) : (opened q tapesize numUsed records r).reportedSize.toNat =
      shown q tapesize numUsed records r := by
  unfold opened shown
  split
  · exact repair_reportedSize _ _ _
  · rfl

theorem opened_rest (q : Qsort) (tapesize numUsed : Nat) (records : List FileRecord) (r : FileRecord) :
    (opened q tapesize numUsed records r).rest = r.rest := by
  unfold opened
  split
  · exact repair_rest _ _ _
  · rfl

theorem opened_startAddr (q : Qsort) (tapesize numUsed : Nat) (records : List FileRecord)
    (r : FileRecord) : (opened q tapesize numUsed records r).startAddr = r.startAddr := by
  have hrest := opened_rest q tapesize numUsed records r
  have hstart := congrArg FileRecord.startAddr hrest
  exact hstart

theorem opened_contents (q : Qsort) (tapesize numUsed : Nat) (records : List FileRecord)
    (r : FileRecord) : (opened q tapesize numUsed records r).contents = r.contents := by
  have hrest := opened_rest q tapesize numUsed records r
  have hcontents := congrArg FileRecord.contents hrest
  exact hcontents

theorem directory_length {n : Nat} (h : directory file n = some records) : records.length = n := by
  have hlength := congrArg List.length (directory_index h)
  rwa [List.length_map, List.length_range] at hlength

/-- The used files come out whole and the directory as it was exactly if the directory shows their
sizes, none of them ends behind $FFFF, and the chunks can be read. -/
theorem delivers_iff (q : Qsort) (file : Bytes) (header : Header) (records : List FileRecord)
    (sizes : List Nat) (hfile : WellFormed file header records) :
    (∃ t, Delivers q file records sizes t) ↔
      Deliverable q file header.numUsed records sizes := by
  have hopen := opened_record (q := q) hfile.header_eq hfile.records_eq
  generalize ht : (⟨file, header, records.map (opened q file.length header.numUsed records), -1, 0⟩ :
    Container) = t at hopen
  have hget {i : Nat} {r : FileRecord} (hr : records[i]? = some r) : t.fileRecords[i]? =
      some (opened q file.length header.numUsed records r) := by
    rw [← ht, List.getElem?_map, hr, Option.map_some]
  have hsize (r : FileRecord) : (opened q file.length header.numUsed records r).size =
      (expected file.length records r : Int) ↔
        shown q file.length header.numUsed records r = expected file.length records r ∧
          r.startAddr.toNat + expected file.length records r ≤ 65535 := by
    rw [size_eq_iff, opened_reportedSize, opened_startAddr]
  have hseek {i : Nat} {r : FileRecord} (hr : records[i]? = some r) (hused : r.used = true)
      (hright : (opened q file.length header.numUsed records r).size =
        (expected file.length records r : Int)) :
      ∃ t', t64SeekToFile t i = some t' ∧ (readChunks t' sizes =
        some (slice file r.contents.toNat (min (expected file.length records r) sizes.sum)) ↔
          Castable (expected file.length records r) 0 sizes) := by
    have hmem := List.mem_of_getElem? hr
    have hlt : i < records.length := (List.getElem?_eq_some_iff.1 hr).1
    rw [directory_length hfile.records_eq] at hlt
    have hentries : t.header.numEntries = header.numEntries := by rw [← ht]
    have hwhole : t.file = file := by rw [← ht]
    refine ⟨{ t with currentFileNumber := i, currentFileSeekPosition := 0 }, ?_, ?_⟩
    · rw [t64SeekToFile, if_neg]
      rw [hentries]
      omega
    · have hreading : Reading { t with currentFileNumber := i, currentFileSeekPosition := 0 }
          (opened q file.length header.numUsed records r) (expected file.length records r) 0 :=
        ⟨Int.natCast_nonneg i, hget hr, rfl, Nat.zero_le _, hright,
          by rw [opened_contents, hwhole]; exact hfile.inside r hmem hused,
          by rw [opened_contents]; exact hfile.reachable r hmem hused⟩
      have hiff := readChunks_iff sizes hreading
      rw [opened_contents, Nat.add_zero, Nat.sub_zero] at hiff
      exact hwhole ▸ hiff
  constructor
  · rintro ⟨t', hopens, horder, hsizes, hreads⟩
    rw [hopen] at hopens
    cases Option.some.inj hopens
    have hright (i : Nat) (r : FileRecord) (hr : records[i]? = some r) (hused : r.used = true) :
        (opened q file.length header.numUsed records r).size =
          (expected file.length records r : Int) := by
      have h := hsizes i r hr hused
      rw [hget hr] at h
      exact Option.some.inj h
    refine ⟨fun r hr hused => ?_, fun r hr hused => ?_, fun r hr hused => ?_⟩
    all_goals
      obtain ⟨i, hi⟩ := List.getElem?_of_mem hr
      have hthis := hright i r hi hused
    · exact ((hsize r).1 hthis).1
    · exact ((hsize r).1 hthis).2
    · obtain ⟨t1, hseek1, hiff⟩ := hseek hi hused hthis
      obtain ⟨t2, hseek2, hread⟩ := hreads i r hi hused
      rw [hseek1] at hseek2
      cases hseek2
      exact hiff.1 hread
  · rintro ⟨hshown, hends, hcast⟩
    have hright (r : FileRecord) (hr : r ∈ records) (hused : r.used = true) :=
      (hsize r).2 ⟨hshown r hr hused, hends r hr hused⟩
    refine ⟨t, hopen, ?_, fun i r hr hused => ?_, fun i r hr hused => ?_⟩
    · rw [← ht, List.map_map]
      exact List.map_congr_left fun r _ => opened_rest q file.length header.numUsed records r
    · rw [hget hr, Option.map_some, hright r (List.mem_of_getElem? hr) hused]
    · have hmem := List.mem_of_getElem? hr
      obtain ⟨t1, hseek1, hiff⟩ := hseek hr hused (hright r hmem hused)
      exact ⟨t1, hseek1, hiff.2 (hcast r hmem hused)⟩

/-! ## Two containers -/

/-- Insertion does for a `qsort`. -/
def insertionQsort : Qsort where
  sort compar l := l.insertionSort fun a b => compar a b ≤ 0
  perm compar l := List.perm_insertionSort _ l
  sorted compar l htrans htotal := by
    have : Std.Total fun a b => compar a b ≤ 0 := ⟨htotal⟩
    have : IsTrans FileRecord fun a b => compar a b ≤ 0 := ⟨htrans⟩
    exact List.pairwise_insertionSort _ l

/-- A record as it is in the file. -/
def recordBytes (entryType : UInt8) (start finish contents : UInt8 × UInt8) : Bytes :=
  [entryType, 130, start.1, start.2, finish.1, finish.2, 0, 0, contents.1, contents.2, 0, 0, 0, 0, 0, 0] ++
    List.replicate 16 32

/-- "C64S tape file", for `n` records. -/
def headerBytes (n : UInt8) : Bytes :=
  [67, 54, 52, 83, 32, 116, 97, 112, 101, 32, 102, 105, 108, 101] ++ List.replicate 18 0 ++
    [1, 1, n, 0, n, 0, 0, 0] ++ List.replicate 24 32

/-- Two files, the second in front of the first, both reported too long. -/
def twoFiles : Bytes :=
  headerBytes 2 ++ recordBytes 1 (1, 8) (195, 163) (132, 0) ++ recordBytes 1 (0, 192) (255, 255) (128, 0) ++
    [1, 2, 3, 4, 5, 6]

/-- One file of 16 bytes, from $FFF0 to the end of the memory. -/
def fileAtTop : Bytes :=
  headerBytes 1 ++ recordBytes 1 (240, 255) (0, 0) (96, 0) ++ List.replicate 16 7

def headerOf (n : Nat) : Header where
  magic := [67, 54, 52, 83, 32, 116, 97, 112, 101, 32, 102, 105, 108, 101] ++ List.replicate 18 0
  version := 257
  numEntries := n
  numUsed := n
  description := List.replicate 24 32

def twoRecords : List FileRecord :=
  [⟨1, List.replicate 16 32, 130, 0x0801, 0xa3c3, 132, 0⟩,
    ⟨1, List.replicate 16 32, 130, 0xc000, 0xffff, 128, 1⟩]

def recordAtTop : FileRecord := ⟨1, List.replicate 16 32, 130, 0xfff0, 0, 96, 0⟩

instance decidableCastable (e : Nat) : (position : Nat) → (sizes : List Nat) →
    Decidable (Castable e position sizes)
  | _, [] => inferInstanceAs (Decidable True)
  | position, size :: sizes =>
    have := decidableCastable e (min e (position + size)) sizes
    inferInstanceAs (Decidable (0 < size ∧ (e < position + size → (e : Int) < toInt (position + size)) ∧
      Castable e (min e (position + size)) sizes))

/-- 4 bytes from $C000 on and 2 from $0801 on, in three chunks. -/
theorem twoFiles_delivered : ∃ t, Delivers insertionQsort twoFiles twoRecords [3, 100, 1] t :=
  (delivers_iff insertionQsort twoFiles (headerOf 2) twoRecords [3, 100, 1]
    ⟨by decide +kernel, by decide +kernel, by decide +kernel, by decide +kernel, by decide +kernel,
      by decide +kernel⟩).2
    ⟨by decide +kernel, by decide +kernel, by decide +kernel⟩

/-- A file that ends with the memory has the end address 0, and its size is -65520. -/
theorem fileAtTop_lost : WellFormed fileAtTop (headerOf 1) [recordAtTop] ∧
    expected fileAtTop.length [recordAtTop] recordAtTop = 16 ∧
    ∀ q sizes, ¬∃ t, Delivers q fileAtTop [recordAtTop] sizes t := by
  have hfile : WellFormed fileAtTop (headerOf 1) [recordAtTop] :=
    ⟨by decide +kernel, by decide +kernel, by decide +kernel, by decide +kernel, by decide +kernel,
      by decide +kernel⟩
  have hexpected : expected fileAtTop.length [recordAtTop] recordAtTop = 16 := by decide +kernel
  refine ⟨hfile, hexpected, ?_⟩
  rintro q sizes ⟨t, hopens, -, hsize, -⟩
  have hone : q.sort compIndex (setEnds fileAtTop.length (q.sort compContent [recordAtTop])) =
      [recordAtTop] := by
    rw [List.perm_singleton.1 (q.perm compContent [recordAtTop])]
    have hsame : setEnds fileAtTop.length [recordAtTop] = [recordAtTop] := by decide +kernel
    rw [hsame, List.perm_singleton.1 (q.perm compIndex [recordAtTop])]
  have hheader := hfile.header_eq
  have hrecords := hfile.records_eq
  have htake : [recordAtTop].take (headerOf 1).numUsed = [recordAtTop] := rfl
  simp only [t64Open, hheader, hrecords, Option.bind_eq_bind, Option.bind_some, htake, hone,
    Option.some.injEq] at hopens
  have hwrong := hsize 0 recordAtTop rfl rfl
  rw [← hopens, hexpected] at hwrong
  exact absurd hwrong (by decide)

end Vice.L2.T64
