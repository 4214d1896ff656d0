import Mathlib.Logic.Function.Basic
import Vice.L2Image.Geometry

/-!
# Sectors of an attached image (`fsimage-dxx.c`, `diskimage.c`)

The drive code sees an image as numbered blocks of 256 bytes. A track and sector is
turned into a block number by `fsimage_check_sector`; the error map, when the image
has one, decides which blocks read with an error.

A sector buffer is a function of the byte's index, of which 256 are used. Byte offsets
are computed in an `int`, so a block from 2^23 on has no offset: such a block counts as
unreadable. Images with a GCR view attached are not modelled here.

Results:
* `readSector_setBlock`, `writeSector_setBlock`: a block that is not addressed neither
  influences a transfer nor is changed by one.
-/
namespace Vice.L3.Disk
open Vice.L2.Geometry

abbrev Buf := Nat → UInt8

/-- mirrors src/cbmdos.h:33-78, with `minus` for the -1 of the functions below the DOS. -/
inductive Ipe
  | ok | minus
  | readErrorBnf | readErrorSync | readErrorData | readErrorChk | readErrorGcr
  | writeErrorVer | writeProtectOn | readErrorBchk | writeErrorBig | diskIdMismatch
  | noBlock | illegalTrackOrSector
  | notReady
  deriving DecidableEq, Repr

/-- What the drive code uses of `disk_image_t`: `blocks` is the length of the file in sectors,
`errorMap` is `error_info.map`. -/
structure Image where
  shape : Shape
  readOnly : Bool
  blocks : Nat
  data : Nat → Buf
  errorMap : Option (Nat → Nat)

/-- mirrors src/diskimage/fsimage-dxx.c:401-428 -/
def ipeOfFdc (rf : Nat) : Ipe :=
  match rf with
  | 2 => .readErrorBnf
  | 3 => .readErrorSync
  | 4 => .readErrorData
  | 5 => .readErrorChk
  | 7 => .writeErrorVer
  | 8 => .writeProtectOn
  | 9 => .readErrorBchk
  | 10 => .writeErrorBig
  | 11 => .diskIdMismatch
  | 15 => .notReady
  | 16 => .readErrorGcr
  | _ => .ok

/-- The error that the error map holds for a block. -/
def Image.fdcErr (image : Image) (sectors : Nat) : Nat :=
  match image.errorMap with
  | none => 1
  | some map => map sectors

/-- mirrors src/diskimage/fsimage-dxx.c:363-372: these errors let the buffer be filled. -/
def softError (rf : Nat) : Bool := rf = 0 || rf = 1 || rf = 5 || rf = 7 || rf = 8

/-- `sectors * 256` is still an `int`. -/
def hasOffset (sectors : Nat) : Bool := sectors * 256 < 2 ^ 31

/-- mirrors src/diskimage/fsimage-dxx.c:336-429 (`fsimage_dxx_read_sector`), `image->gcr` null. Takes
the caller's buffer, which an error may leave as it is. -/
def readSector (image : Image) (buf : Buf) (track sector : Nat) : Ipe × Buf :=
  match checkSector image.shape track sector with
  | .error _ => (.minus, buf)
  | .ok sectors =>
    if softError (image.fdcErr sectors) then
      if sectors < image.blocks ∧ hasOffset sectors then
        (ipeOfFdc (image.fdcErr sectors), image.data sectors)
      else (.minus, buf)
    else (ipeOfFdc (image.fdcErr sectors), buf)

/-- mirrors src/diskimage/diskimage.c:673-698 (`disk_image_write_sector`) and
src/diskimage/fsimage-dxx.c:431-485 (`fsimage_dxx_write_sector`). A store past the end makes the file
longer, and a written block loses its error. -/
def writeSector (image : Image) (buf : Buf) (track sector : Nat) : Ipe × Image :=
  if image.readOnly then (.minus, image)
  else match checkSector image.shape track sector with
  | .error _ => (.minus, image)
  | .ok sectors =>
    if hasOffset sectors then
      (.ok, { image with
        data := Function.update image.data sectors buf
        blocks := max image.blocks (sectors + 1)
        errorMap := image.errorMap.map fun map => Function.update map sectors 1 })
    else (.minus, image)

/-- The image with another block in place of one of its own. -/
def Image.setBlock (image : Image) (n : Nat) (buf : Buf) : Image :=
  { image with data := Function.update image.data n buf }

section
variable {image : Image} {n : Nat} {b : Buf}

@[simp] theorem Image.setBlock_shape : (image.setBlock n b).shape = image.shape := rfl
@[simp] theorem Image.setBlock_readOnly : (image.setBlock n b).readOnly = image.readOnly := rfl

@[simp] theorem Image.setBlock_blocks : (image.setBlock n b).blocks = image.blocks := rfl

@[simp] theorem Image.setBlock_fdcErr (m : Nat) : (image.setBlock n b).fdcErr m = image.fdcErr m := rfl
theorem Image.setBlock_same : (image.setBlock n b).data n = b := Function.update_self ..

theorem Image.setBlock_other {m : Nat} (h : m ≠ n) : (image.setBlock n b).data m = image.data m :=
  Function.update_of_ne h ..

theorem Image.setBlock_self : image.setBlock n (image.data n) = image := by
  unfold Image.setBlock
  rw [Function.update_eq_self]

/-- The track and sector is not that of block `n`. -/
def Avoids (image : Image) (n track sector : Nat) : Prop :=
  ∀ m, checkSector image.shape track sector = .ok m → m ≠ n

theorem readSector_setBlock {buf : Buf} {track sector : Nat} (h : Avoids image n track sector) :
    readSector (image.setBlock n b) buf track sector = readSector image buf track sector := by
  unfold readSector
  rw [Image.setBlock_shape]
  cases hc : checkSector image.shape track sector with
  | error e => rfl
  | ok m => simp only [Image.setBlock_fdcErr, Image.setBlock_blocks, Image.setBlock_other (h m hc)]

theorem writeSector_setBlock {buf : Buf} {track sector : Nat} (h : Avoids image n track sector) :
    writeSector (image.setBlock n b) buf track sector =
      ((writeSector image buf track sector).1,
        (writeSector image buf track sector).2.setBlock n b) := by
  unfold writeSector
  rw [Image.setBlock_shape, Image.setBlock_readOnly]
  by_cases hro : image.readOnly
  · rw [if_pos hro, if_pos hro]
  · rw [if_neg hro, if_neg hro]
    cases hc : checkSector image.shape track sector with
    | error e => rfl
    | ok m =>
      by_cases ho : hasOffset m
      · have hne : n ≠ m := (h m hc).symm
        have hcomm : Function.update (Function.update image.data n b) m buf =
            Function.update (Function.update image.data m buf) n b :=
          Function.update_comm hne ..
        simp only [if_pos ho, Image.setBlock, hcomm]
      · simp only [if_neg ho]

theorem writeSector_shape (buf : Buf) (track sector : Nat) :
    (writeSector image buf track sector).2.shape = image.shape := by
  unfold writeSector
  split
  · rfl
  · split
    · rfl
    · split <;> rfl

/-- A block that reads: it has an address, no error, and lies in the file. -/
def Reads (image : Image) (track sector n : Nat) : Prop :=
  checkSector image.shape track sector = .ok n ∧ n < image.blocks ∧ hasOffset n ∧
    ipeOfFdc (image.fdcErr n) = .ok ∧ softError (image.fdcErr n)

theorem Reads.readSector {track sector : Nat} (h : Reads image track sector n) (buf : Buf) :
    readSector image buf track sector = (.ok, image.data n) := by
  obtain ⟨hc, hn, ho, hi, hs⟩ := h
  unfold Disk.readSector
  simp only [hc, if_pos hs, hn, ho, and_self, if_true, hi]

end

end Vice.L3.Disk
