import Mathlib.Algebra.Group.Int.Defs
import Mathlib.Algebra.GroupWithZero.Nat
import Mathlib.Data.List.Sort

/-!
# T64 containers (`t64.c`)

A T64 file is a header, a directory and the data of its files, each at an offset its record has.
The end addresses in the records are not to be trusted, so `t64_open` sorts the first `num_used`
records by their offsets and takes the distance to the next one as the size of a file; what is kept
is the end address, in 16 bits.

* `t64Open`, `t64SeekToFile`, `t64Read` are the source's.
* `expected` is the size a record should get.
-/
namespace Vice.L2.T64

abbrev Bytes := List UInt8

/-- mirrors src/tape/t64.c:64-76 (`get_number`) -/
def getNumber (p : Bytes) : UInt32 := p.foldr (fun b n => b.toUInt32 ||| n <<< 8) 0

/-- `memcpy` of `n` bytes from `offset` on. -/
def slice (buf : Bytes) (offset n : Nat) : Bytes := (buf.drop offset).take n

/-- mirrors src/tape/t64.h:58-75 -/
structure Header where
  magic : Bytes
  version : UInt16
  numEntries : Nat
  numUsed : Nat
  description : Bytes
  deriving DecidableEq

/-- mirrors src/tape/t64.h:155-167 -/
structure FileRecord where
  entryType : UInt8
  cbmName : Bytes
  cbmType : UInt8
  startAddr : UInt16
  endAddr : UInt16
  contents : UInt32
  index : Nat
  deriving DecidableEq

/-- All of a record but its end address. -/
def FileRecord.rest (r : FileRecord) : FileRecord := { r with endAddr := 0 }

/-- `T64_FILE_RECORD_FREE` is 0. -/
def FileRecord.used (r : FileRecord) : Bool := r.entryType ≠ 0

/-- mirrors src/tape/t64.c:48-53: "C64 tape image file", "C64S tape file", "C64S tape image file" -/
def magicHeaders : List Bytes := [
  [67, 54, 52, 32, 116, 97, 112, 101, 32, 105, 109, 97, 103, 101, 32, 102, 105, 108, 101],
  [67, 54, 52, 83, 32, 116, 97, 112, 101, 32, 102, 105, 108, 101],
  [67, 54, 52, 83, 32, 116, 97, 112, 101, 32, 105, 109, 97, 103, 101, 32, 102, 105, 108, 101]]

/-- mirrors src/tape/t64.c:85-96 (`check_magic`) -/
def checkMagic (magic : Bytes) : Bool := magicHeaders.any fun p => magic.take p.length == p

/-- mirrors src/tape/t64.c:214-264 (`t64_header_read`) -/
def headerRead (file : Bytes) : Option Header :=
  if file.length < 64 then none
  else
    let magic := slice file 0 32
    if !checkMagic magic then none
    else
      let atLeastOne (n : Nat) := if n = 0 then 1 else n
      let numEntries := atLeastOne (getNumber (slice file 34 2)).toUInt16.toNat
      let numUsed := atLeastOne (getNumber (slice file 36 2)).toUInt16.toNat
      if numEntries < numUsed then none
      else some {
        magic
        version := (getNumber (slice file 32 2)).toUInt16
        numEntries
        numUsed
        description := slice file 40 24 }

/-- mirrors src/tape/t64.c:158-178 (`t64_file_record_read`) -/
def fileRecordRead (buf : Bytes) (index : Nat) : FileRecord where
  entryType := buf.getD 0 0
  cbmName := slice buf 16 16
  cbmType := buf.getD 1 0
  startAddr := (getNumber (slice buf 2 2)).toUInt16
  endAddr := (getNumber (slice buf 4 2)).toUInt16
  contents := getNumber (slice buf 8 4)
  index

/-- The records behind the header, none where the file ends before. -/
def directory (file : Bytes) (numEntries : Nat) : Option (List FileRecord) :=
  if file.length < 64 + 32 * numEntries then none
  else some ((List.range numEntries).map fun i => fileRecordRead (slice file (64 + 32 * i) 32) i)

/-- mirrors src/tape/t64.c:110-122 (`comp_content`) -/
def compContent (r1 r2 : FileRecord) : Int :=
  if r1.contents < r2.contents then -1 else if r2.contents < r1.contents then 1 else 0

/-- mirrors src/tape/t64.c:136-148 (`comp_index`) -/
def compIndex (r1 r2 : FileRecord) : Int :=
  if r1.index < r2.index then -1 else if r2.index < r1.index then 1 else 0

/-- A `qsort` that does what it should where the comparison is an order; what it does with records
that compare equal is its own affair. -/
structure Qsort where
  sort : (FileRecord → FileRecord → Int) → List FileRecord → List FileRecord
  perm : ∀ compar l, (sort compar l).Perm l
  sorted : ∀ compar l, (∀ a b c, compar a b ≤ 0 → compar b c ≤ 0 → compar a c ≤ 0) →
    (∀ a b, compar a b ≤ 0 ∨ compar b a ≤ 0) → (sort compar l).Pairwise fun a b => compar a b ≤ 0

/-- `end_addr - start_addr` in 16 bits. -/
def FileRecord.reportedSize (r : FileRecord) : UInt16 := r.endAddr - r.startAddr

/-- The end address of a record, by the one that follows it or the end of the container:
mirrors src/tape/t64.c:533-569 -/
def repair (tapesize : Nat) (next : Option FileRecord) (r : FileRecord) : FileRecord :=
  match next with
  | some next =>
    let actualSize := (next.contents - r.contents).toUInt16
    if r.reportedSize ≠ actualSize then { r with endAddr := r.startAddr + actualSize } else r
  | none =>
    let actualSize := UInt16.ofNat tapesize - r.contents.toUInt16
    if actualSize < r.reportedSize then { r with endAddr := r.startAddr + actualSize } else r

/-- The loop over the sorted records, and the last of them. -/
def setEnds (tapesize : Nat) : List FileRecord → List FileRecord
  | [] => []
  | r :: rest => repair tapesize rest.head? r :: setEnds tapesize rest

/-- mirrors src/tape/t64.h:176-211; `file` is what the descriptor reads. -/
structure Container where
  file : Bytes
  header : Header
  fileRecords : List FileRecord
  currentFileNumber : Int
  currentFileSeekPosition : Nat

/-- mirrors src/tape/t64.c:481-582 (`t64_open`), of a file that can be read -/
def t64Open (q : Qsort) (file : Bytes) : Option Container := do
  let header ← headerRead file
  let records ← directory file header.numEntries
  let sorted := q.sort compContent (records.take header.numUsed)
  let fixed := q.sort compIndex (setEnds file.length sorted)
  some ⟨file, header, fixed ++ records.drop header.numUsed, -1, 0⟩

/-- mirrors src/tape/t64.c:184-187 (`t64_file_record_get_size`) -/
def FileRecord.size (r : FileRecord) : Int := (r.endAddr.toNat : Int) - r.startAddr.toNat

/-- mirrors src/tape/t64.c:330-342 (`t64_seek_to_file`) -/
def t64SeekToFile (t : Container) (fileNumber : Int) : Option Container :=
  if fileNumber < 0 ∨ (t.header.numEntries : Int) ≤ fileNumber then none
  else some { t with currentFileNumber := fileNumber, currentFileSeekPosition := 0 }

/-- The conversion to `int`. -/
def toInt (n : Nat) : Int :=
  if n % 2 ^ 32 < 2 ^ 31 then (n % 2 ^ 32 : Nat) else ((n % 2 ^ 32 : Nat) : Int) - 2 ^ 32

/-- The bytes read, none where the source returns -1: mirrors src/tape/t64.c:417-453 (`t64_read`) -/
def t64Read (t : Container) (size : Nat) : Option (Bytes × Container) :=
  if t.currentFileNumber < 0 ∨ size = 0 then none
  else do
    let r ← t.fileRecords[t.currentFileNumber.toNat]?
    let offset := (r.contents.toNat + t.currentFileSeekPosition) % 2 ^ 32
    let past := decide (r.size < toInt (t.currentFileSeekPosition + size))
    if past && decide (r.size < t.currentFileSeekPosition) then none
    else
      let size := if past then (r.size - t.currentFileSeekPosition).toNat else size
      let buf := slice t.file offset size
      if buf.length ≠ size then none
      else some (buf, { t with currentFileSeekPosition := t.currentFileSeekPosition + buf.length })

/-- Reads of the sizes given, one after the other, all that they return. -/
def readChunks (t : Container) : List Nat → Option Bytes
  | [] => some []
  | size :: sizes => do
    let (buf, t) ← t64Read t size
    let rest ← readChunks t sizes
    some (buf ++ rest)

/-! ## What it is for -/

/-- The offsets of the used records that lie behind `r`. -/
def later (records : List FileRecord) (r : FileRecord) : List Nat :=
  ((records.filter fun other => other.used && decide (r.contents < other.contents)).map
    fun other => other.contents.toNat)

/-- The size a used record should have: up to the next used data area, or for the last one up to the
end of the container, if it does not report less. -/
def expected (tapesize : Nat) (records : List FileRecord) (r : FileRecord) : Nat :=
  match (later records r).min? with
  | some next => next - r.contents.toNat
  | none => min (tapesize - r.contents.toNat) r.reportedSize.toNat

/-- A container with its header and its directory, and the data areas of the used records apart, in
the file, within the reach of an offset and of less than 64 KiB. -/
structure WellFormed (file : Bytes) (header : Header) (records : List FileRecord) : Prop where
  header_eq : headerRead file = some header
  records_eq : directory file header.numEntries = some records
  apart : (records.filter FileRecord.used).Pairwise fun a b => a.contents ≠ b.contents
  inside : ∀ r ∈ records, r.used = true →
    r.contents.toNat + expected file.length records r ≤ file.length
  reachable : ∀ r ∈ records, r.used = true →
    r.contents.toNat + expected file.length records r ≤ 2 ^ 32
  short : ∀ r ∈ records, r.used = true → expected file.length records r ≤ 65535

/-- What opening the container and reading its files in chunks of these sizes should do. -/
structure Delivers (q : Qsort) (file : Bytes) (records : List FileRecord) (sizes : List Nat)
    (t : Container) : Prop where
  opens : t64Open q file = some t
  order : t.fileRecords.map FileRecord.rest = records.map FileRecord.rest
  size_eq : ∀ (i : Nat) r, records[i]? = some r → r.used = true →
    (t.fileRecords[i]?).map FileRecord.size = some (expected file.length records r : Int)
  reads : ∀ (i : Nat) r, records[i]? = some r → r.used = true → ∃ t', t64SeekToFile t i = some t' ∧
    readChunks t' sizes =
      some (slice file r.contents.toNat (min (expected file.length records r) sizes.sum))

end Vice.L2.T64
