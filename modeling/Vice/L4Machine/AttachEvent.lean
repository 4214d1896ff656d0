import Mathlib.Tactic.SplitIfs
import Vice.L4Machine.Netplay

/-!
# Attached images in a history (`event.c`)

An EVENT_ATTACHIMAGE has the unit, the drive and the read-only flag in a byte each, and then either
the name of the file, and behind it the contents when the image is attached for the first time, or
no name, the CRC of the contents, and the name without its directory.

* `eventPlaybackAttachImage`: what is read from the data of the event.

Results:
* `attach_event_never`: something is always written behind the block.
-/
namespace Vice.L4.AttachEvent
open Vice.L4.Netplay

/-- An allocated block, and if anything was written that is not in it. -/
structure Block where
  bytes : List UInt8
  overrun : Bool

/-- The contents of a new block are whatever was there. -/
def libMalloc (garbage : Nat → UInt8) (size : Nat) : Block := ⟨(List.range size).map garbage, false⟩

def Block.libRealloc (b : Block) (garbage : Nat → UInt8) (size : Nat) : Block :=
  { b with bytes := b.bytes.take size ++ (libMalloc garbage (size - b.bytes.length)).bytes }

def Block.put (b : Block) (start : Nat) (data : List UInt8) : Block where
  bytes := (b.bytes.take start ++ data ++ b.bytes.drop (start + data.length)).take b.bytes.length
  overrun := b.overrun || decide (b.bytes.length < start + data.length)

def crc32Size : Nat := 4

def dirSep : UInt8 := 0x2f

/-- mirrors src/util.c:495-575 (`util_fname_split`): the name behind the last separator. -/
def strfile (filename : List UInt8) : List UInt8 := (filename.reverse.takeWhile (· ≠ dirSep)).reverse

/-- What is attached; a file that cannot be opened has no image. -/
structure Attachment where
  unit : UInt8
  drive : UInt8
  readOnly : UInt8
  filename : List UInt8
  named : filename ≠ []
  terminated : (0 : UInt8) ∉ filename
  image : Option (List UInt8)

/-- mirrors src/crc32.c:95-128 (`crc32_file`): an empty file is not read. -/
def crc32File (crc32Buf : List UInt8 → UInt32) : Option (List UInt8) → UInt32
  | none => 0
  | some [] => 0
  | some bytes => crc32Buf bytes

/-- mirrors src/event.c:160-224 (`event_record_attach_in_list`): the data of the event. `seen` says
that `event_image_append` finds the name. -/
def eventRecordAttachInList (crc32Buf : List UInt8 → UInt32) (garbage : Nat → UInt8)
    (imageInclude seen : Bool) (a : Attachment) : Block :=
  let size :=
    if imageInclude then a.filename.length + 3 else (strfile a.filename).length + crc32Size + 4
  let eventData := (((libMalloc garbage size).put 0 [a.unit]).put 1 [a.drive]).put 2 [a.readOnly]
  if imageInclude then
    let eventData := eventData.put 3 (a.filename ++ [0])
    if seen then eventData
    else
      match a.image with
      | some image => (eventData.libRealloc garbage (size + image.length)).put size image
      | none => eventData
  else
    let eventData := eventData.put 3 [0]
    let eventData := eventData.put 3 (utilDwordToLeBuf (crc32File crc32Buf a.image))
    eventData.put (4 + crc32Size) (strfile a.filename ++ [0])

/-- What an image is played back from. -/
inductive Source
  | crc (crc : UInt32)
  | image (bytes : List UInt8)
  | mapped
  deriving DecidableEq, Repr

structure Played where
  unit : UInt8
  drive : UInt8
  readOnly : UInt8
  name : List UInt8
  source : Source
  deriving DecidableEq, Repr

/-- A string of the data, if it ends there. -/
def cString (data : List UInt8) : Option (List UInt8) :=
  if 0 ∈ data then some (data.takeWhile (· ≠ 0)) else none

/-- mirrors src/event.c:237-327 (`event_playback_attach_image`): what is recovered from the data,
unless it is read beyond its end. The length of the image is a `size_t`. -/
def eventPlaybackAttachImage (data : List UInt8) : Option Played := do
  let unit ← data[0]?
  let drive ← data[1]?
  let readOnly ← data[2]?
  let first ← data[3]?
  if first = 0 then
    let name ← cString (data.drop (4 + crc32Size))
    if data.length < 3 + crc32Size then none
    else some ⟨unit, drive, readOnly, name, .crc (utilLeBufToDword (data.drop 3))⟩
  else
    let name ← cString (data.drop 3)
    let fileLen := (2 ^ 64 + data.length - name.length - 4) % 2 ^ 64
    if 0 < fileLen then
      if data.length < name.length + 4 + fileLen then none
      else some ⟨unit, drive, readOnly, name, .image ((data.drop (name.length + 4)).take fileLen)⟩
    else some ⟨unit, drive, readOnly, name, .mapped⟩

/-- What was attached, as the mode has it. -/
def Attachment.expected (crc32Buf : List UInt8 → UInt32) (imageInclude seen : Bool) (a : Attachment) :
    Played where
  unit := a.unit
  drive := a.drive
  readOnly := a.readOnly
  name := if imageInclude then a.filename else strfile a.filename
  source :=
    if imageInclude then if seen then .mapped else .image (a.image.getD [])
    else .crc (crc32File crc32Buf a.image)

/-- The block is written inside only, and what was attached is recovered from it. -/
def RecordedExactly (crc32Buf : List UInt8 → UInt32) (garbage : Nat → UInt8) (imageInclude seen : Bool)
    (a : Attachment) : Prop :=
  (eventRecordAttachInList crc32Buf garbage imageInclude seen a).overrun = false ∧
    eventPlaybackAttachImage (eventRecordAttachInList crc32Buf garbage imageInclude seen a).bytes =
      some (a.expected crc32Buf imageInclude seen)

section
variable {crc32Buf : List UInt8 → UInt32} {garbage : Nat → UInt8} {imageInclude seen : Bool}
  {a : Attachment} {b : Block} {start : Nat} {data : List UInt8}

@[simp] theorem libMalloc_length (garbage : Nat → UInt8) (size : Nat) :
    (libMalloc garbage size).bytes.length = size := by
  simp [libMalloc]

@[simp] theorem put_length (b : Block) (start : Nat) (data : List UInt8) :
    (b.put start data).bytes.length = b.bytes.length := by
  simp only [Block.put, List.length_take, List.length_append, List.length_drop]
  omega

theorem put_overrun (h : b.overrun = true) : (b.put start data).overrun = true := by
  rw [Block.put, h, Bool.true_or]

theorem put_past (h : b.bytes.length < start + data.length) : (b.put start data).overrun = true := by
  rw [Block.put, decide_eq_true h, Bool.or_true]

theorem realloc_overrun {size : Nat} (h : b.overrun = true) : (b.libRealloc garbage size).overrun = true := h

/-- The terminator of the last string is written behind the block. -/
theorem record_overrun (crc32Buf : List UInt8 → UInt32) (garbage : Nat → UInt8)
    (imageInclude seen : Bool) (a : Attachment) :
    (eventRecordAttachInList crc32Buf garbage imageInclude seen a).overrun = true := by
  unfold eventRecordAttachInList
  cases imageInclude with
  | true =>
    have hname : ∀ b : Block, b.bytes.length = a.filename.length + 3 →
        (b.put 3 (a.filename ++ [0])).overrun = true := by
      intro b hlen
      apply put_past
      rw [hlen, List.length_append, List.length_singleton]
      omega
    simp only [if_true]
    split_ifs
    · exact hname _ (by simp)
    · cases a.image with
      | none => exact hname _ (by simp)
      | some image => exact put_overrun (realloc_overrun (hname _ (by simp)))
  | false =>
    simp only [Bool.false_eq_true, if_false]
    apply put_past
    simp only [put_length, libMalloc_length, List.length_append, List.length_singleton, crc32Size]
    omega

/-- No attached image is recorded as it should be. -/
theorem attach_event_never (crc32Buf : List UInt8 → UInt32) (garbage : Nat → UInt8)
    (imageInclude seen : Bool) (a : Attachment) :
    ¬ RecordedExactly crc32Buf garbage imageInclude seen a := by
  rintro ⟨hinside, -⟩
  rw [record_overrun] at hinside
  cases hinside

end

/-- "a.d64", which holds one byte. -/
def oneByteImage : Attachment where
  unit := 8
  drive := 0
  readOnly := 0
  filename := [0x61, 0x2e, 0x64, 0x36, 0x34]
  named := by decide
  terminated := by decide
  image := some [7]

/-- The event that includes the image has the terminator behind its eight bytes. -/
theorem oneByteImage_overrun : ¬ RecordedExactly (fun _ => 0) (fun _ => 0) true false oneByteImage := by
  rintro ⟨hinside, -⟩
  revert hinside
  decide

end Vice.L4.AttachEvent
