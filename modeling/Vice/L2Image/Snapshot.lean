import Mathlib.Algebra.GroupWithZero.Nat
import Mathlib.Data.List.TakeWhile
import Vice.L0Core.ByteFile

/-!
# Snapshot files (`snapshot.c`)

A snapshot is a header and a chain of modules. A module is its name, padded to 16 characters, a
version and its size, which includes this header and is written when the module is closed, and
then the values that a device has written, one after another. `snapshot_module_open` walks along
the sizes until it finds the name.

A `FILE` never fails here; a function that returns -1 gives the `snapshot_error` it sets. `m->file`
is the only file there is, so a module carries it. An array to be written is the list of its `num`
elements.

Results:
* `writeValue_ok`: what a value adds to a module.
* `readValue_enc`: it is read back.
-/
namespace Vice.L2.Snapshot
open Vice.L0.ByteFile

/-- mirrors src/snapshot.h:36-65, without the errors of a failing file. -/
inductive SnapshotError
  | readEof | readByteArray | illegalStringLength | readOutOfBounds | moduleHeaderRead
  | magicStringMismatch | cannotReadVersion | cannotReadMachineName | machineMismatch
  deriving DecidableEq, Repr

/-- The characters before the terminating zero. -/
structure CString where
  chars : List UInt8
  noZero : 0 ∉ chars
  deriving DecidableEq, Repr

/-- The string at the start of a buffer. -/
def CString.ofBuffer (p : List UInt8) : CString :=
  ⟨p.takeWhile (· ≠ 0), fun h => by simpa using List.mem_takeWhile_imp h⟩

abbrev ReadM := StateT File (Except SnapshotError)

/-! ## Writing to the file -/

/-- mirrors src/snapshot.c:100-109 (`snapshot_write_byte`) -/
def snapshotWriteByte (f : File) (data : UInt8) : File := fputc f data

/-- mirrors src/snapshot.c:111-120 (`snapshot_write_word`) -/
def snapshotWriteWord (f : File) (data : UInt16) : File :=
  snapshotWriteByte (snapshotWriteByte f (data &&& 0xff).toUInt8) (data >>> 8).toUInt8

/-- mirrors src/snapshot.c:122-131 (`snapshot_write_dword`) -/
def snapshotWriteDword (f : File) (data : UInt32) : File :=
  snapshotWriteWord (snapshotWriteWord f (data &&& 0xffff).toUInt16) (data >>> 16).toUInt16

/-- mirrors src/snapshot.c:133-142 (`snapshot_write_qword`) -/
def snapshotWriteQword (f : File) (data : UInt64) : File :=
  snapshotWriteDword (snapshotWriteDword f (data &&& 0xffffffff).toUInt32) (data >>> 32).toUInt32

/-- The loop of `snapshot_write_padded_string`; the string ends where `found_zero` is set. -/
def padded (padChar : UInt8) : List UInt8 → Nat → List UInt8
  | _, 0 => []
  | [], len + 1 => padChar :: padded padChar [] len
  | c :: s, len + 1 => c :: padded padChar s len

/-- mirrors src/snapshot.c:158-176 (`snapshot_write_padded_string`) -/
def snapshotWritePaddedString (f : File) (s : CString) (padChar : UInt8) (len : Nat) : File :=
  (padded padChar s.chars len).foldl snapshotWriteByte f

/-- mirrors src/snapshot.c:178-187 (`snapshot_write_byte_array`) -/
def snapshotWriteByteArray (f : File) (data : List UInt8) : File :=
  if 0 < data.length then fwrite f data else f

/-- mirrors src/snapshot.c:189-201 (`snapshot_write_word_array`) -/
def snapshotWriteWordArray (f : File) (data : List UInt16) : File :=
  data.foldl snapshotWriteWord f

/-- mirrors src/snapshot.c:203-215 (`snapshot_write_dword_array`) -/
def snapshotWriteDwordArray (f : File) (data : List UInt32) : File :=
  data.foldl snapshotWriteDword f

/-- The bytes of a string with its terminating zero; none for `NULL`. -/
def stringBytes : Option CString → List UInt8
  | none => []
  | some s => s.chars ++ [0]

/-- mirrors src/snapshot.c:218-236 (`snapshot_write_string`): the result is an `int`. -/
def snapshotWriteString (f : File) (s : Option CString) : File × Int32 :=
  let len := (stringBytes s).length
  ((stringBytes s).foldl snapshotWriteByte (snapshotWriteWord f (UInt16.ofNat len)),
    Int32.ofNat (len + 2))

/-! ## Reading from the file -/

/-- mirrors src/snapshot.c:238-250 (`snapshot_read_byte`) -/
def snapshotReadByte : ReadM UInt8 := fun f =>
  match fgetc f with
  | none => .error .readEof
  | some r => .ok r

/-- mirrors src/snapshot.c:252-263 (`snapshot_read_word`) -/
def snapshotReadWord : ReadM UInt16 := do
  let lo ← snapshotReadByte
  let hi ← snapshotReadByte
  return lo.toUInt16 ||| (hi.toUInt16 <<< 8)

/-- mirrors src/snapshot.c:265-276 (`snapshot_read_dword`) -/
def snapshotReadDword : ReadM UInt32 := do
  let lo ← snapshotReadWord
  let hi ← snapshotReadWord
  return lo.toUInt32 ||| (hi.toUInt32 <<< 16)

/-- mirrors src/snapshot.c:278-289 (`snapshot_read_qword`) -/
def snapshotReadQword : ReadM UInt64 := do
  let lo ← snapshotReadDword
  let hi ← snapshotReadDword
  return lo.toUInt64 ||| (hi.toUInt64 <<< 32)

/-- mirrors src/snapshot.c:311-320 (`snapshot_read_byte_array`) -/
def snapshotReadByteArray (num : Nat) : ReadM (List UInt8) := fun f =>
  if 0 < num then
    match fread f num with
    | none => .error .readByteArray
    | some r => .ok r
  else .ok ([], f)

/-- mirrors src/snapshot.c:322-334 (`snapshot_read_word_array`) -/
def snapshotReadWordArray (num : Nat) : ReadM (List UInt16) := readTimes snapshotReadWord num

/-- mirrors src/snapshot.c:336-348 (`snapshot_read_dword_array`) -/
def snapshotReadDwordArray (num : Nat) : ReadM (List UInt32) := readTimes snapshotReadDword num

/-- mirrors src/snapshot.c:350-380 (`snapshot_read_string`) -/
def snapshotReadString : ReadM (Option CString) := do
  let w ← snapshotReadWord
  let len := w.toNat
  if len = 0 then
    return none
  let p ← readTimes snapshotReadByte len
  return some (.ofBuffer (p.set (len - 1) 0))

/-! ## Modules -/

/-- mirrors src/snapshot.c:68-83 (`snapshot_module_s`) -/
structure Module where
  file : File
  writeMode : Bool
  size : UInt32
  offset : Nat
  sizeOffset : Nat
  deriving DecidableEq, Repr

/-- The common shape of the `snapshot_module_write_…` functions. -/
def writeSized (m : Module) (file : File) (n : UInt32) : Module :=
  { m with file := file, size := m.size + n }

/-- mirrors src/snapshot.c:384-392 (`snapshot_module_write_byte`) -/
def snapshotModuleWriteByte (m : Module) (b : UInt8) : Module :=
  writeSized m (snapshotWriteByte m.file b) 1

/-- mirrors src/snapshot.c:394-402 (`snapshot_module_write_word`) -/
def snapshotModuleWriteWord (m : Module) (w : UInt16) : Module :=
  writeSized m (snapshotWriteWord m.file w) 2

/-- mirrors src/snapshot.c:404-412 (`snapshot_module_write_dword`) -/
def snapshotModuleWriteDword (m : Module) (dw : UInt32) : Module :=
  writeSized m (snapshotWriteDword m.file dw) 4

/-- mirrors src/snapshot.c:414-422 (`snapshot_module_write_qword`) -/
def snapshotModuleWriteQword (m : Module) (qw : UInt64) : Module :=
  writeSized m (snapshotWriteQword m.file qw) 8

/-- mirrors src/snapshot.c:444-452 (`snapshot_module_write_byte_array`) -/
def snapshotModuleWriteByteArray (m : Module) (b : List UInt8) : Module :=
  writeSized m (snapshotWriteByteArray m.file b) (UInt32.ofNat b.length)

/-- mirrors src/snapshot.c:454-462 (`snapshot_module_write_word_array`) -/
def snapshotModuleWriteWordArray (m : Module) (w : List UInt16) : Module :=
  writeSized m (snapshotWriteWordArray m.file w) (UInt32.ofNat (w.length * 2))

/-- mirrors src/snapshot.c:464-472 (`snapshot_module_write_dword_array`) -/
def snapshotModuleWriteDwordArray (m : Module) (dw : List UInt32) : Module :=
  writeSized m (snapshotWriteDwordArray m.file dw) (UInt32.ofNat (dw.length * 4))

/-- mirrors src/snapshot.c:474-485 (`snapshot_module_write_string`): a length that is negative as
an `int` is refused. -/
def snapshotModuleWriteString (m : Module) (s : Option CString) : Except SnapshotError Module :=
  let (file, len) := snapshotWriteString m.file s
  if len < 0 then .error .illegalStringLength
  else .ok (writeSized m file len.toUInt32)

/-- The common shape of the `snapshot_module_read_…` functions: nothing is read that would end
after the module. -/
def readBounded {α : Type} (n : Nat) (rd : ReadM α) (m : Module) :
    Except SnapshotError (α × Module) :=
  if m.offset + m.size.toNat < m.file.pos + n then .error .readOutOfBounds
  else (rd m.file).map fun r => (r.1, { m with file := r.2 })

/-- mirrors src/snapshot.c:489-498 (`snapshot_module_read_byte`) -/
def snapshotModuleReadByte := readBounded 1 snapshotReadByte

/-- mirrors src/snapshot.c:500-509 (`snapshot_module_read_word`) -/
def snapshotModuleReadWord := readBounded 2 snapshotReadWord

/-- mirrors src/snapshot.c:511-520 (`snapshot_module_read_dword`) -/
def snapshotModuleReadDword := readBounded 4 snapshotReadDword

/-- mirrors src/snapshot.c:522-531 (`snapshot_module_read_qword`) -/
def snapshotModuleReadQword := readBounded 8 snapshotReadQword

/-- mirrors src/snapshot.c:544-553 (`snapshot_module_read_byte_array`) -/
def snapshotModuleReadByteArray (num : Nat) := readBounded num (snapshotReadByteArray num)

/-- mirrors src/snapshot.c:555-563 (`snapshot_module_read_word_array`) -/
def snapshotModuleReadWordArray (num : Nat) := readBounded (num * 2) (snapshotReadWordArray num)

/-- mirrors src/snapshot.c:565-574 (`snapshot_module_read_dword_array`) -/
def snapshotModuleReadDwordArray (num : Nat) :=
  readBounded (num * 4) (snapshotReadDwordArray num)

/-- mirrors src/snapshot.c:576-585 (`snapshot_module_read_string`): only the length is checked
against the size of the module. -/
def snapshotModuleReadString := readBounded 2 snapshotReadString

section
variable {m m' : Module} {f : File} {bs rest : List UInt8}

/-! ## Little endian -/

def le16 (w : UInt16) : List UInt8 := [(w &&& 0xff).toUInt8, (w >>> 8).toUInt8]

def le32 (dw : UInt32) : List UInt8 :=
  le16 (dw &&& 0xffff).toUInt16 ++ le16 (dw >>> 16).toUInt16

def le64 (qw : UInt64) : List UInt8 :=
  le32 (qw &&& 0xffffffff).toUInt32 ++ le32 (qw >>> 32).toUInt32

/-- A number of `2 * k` bits is put together again from its halves. -/
theorem join_halves (k : Nat) {n : Nat} (h : n < 2 ^ (2 * k)) :
    n % 2 ^ k &&& 2 ^ k - 1 ||| (n >>> k % 2 ^ k) <<< k % 2 ^ (2 * k) = n := by
  have hpow : 2 ^ (2 * k) = 2 ^ k * 2 ^ k := by rw [Nat.two_mul, Nat.pow_add]
  have hdiv : n / 2 ^ k < 2 ^ k := Nat.div_lt_of_lt_mul (hpow ▸ h)
  rw [Nat.and_two_pow_sub_one_eq_mod, Nat.mod_mod, Nat.shiftRight_eq_div_pow, Nat.mod_eq_of_lt hdiv,
    Nat.shiftLeft_eq, Nat.mod_eq_of_lt (Nat.lt_of_le_of_lt (Nat.div_mul_le_self n _) h), Nat.or_comm,
    Nat.mul_comm, ← Nat.two_pow_add_eq_or_of_lt (Nat.mod_lt _ (Nat.two_pow_pos k)), Nat.div_add_mod]

theorem join_word (w : UInt16) : (w &&& 0xff).toUInt8.toUInt16 ||| ((w >>> 8).toUInt8.toUInt16 <<< 8) = w :=
  UInt16.toNat_inj.mp (by simpa using join_halves 8 w.toNat_lt)

theorem join_dword (w : UInt32) :
    (w &&& 0xffff).toUInt16.toUInt32 ||| ((w >>> 16).toUInt16.toUInt32 <<< 16) = w :=
  UInt32.toNat_inj.mp (by simpa using join_halves 16 w.toNat_lt)

theorem join_qword (w : UInt64) :
    (w &&& 0xffffffff).toUInt32.toUInt64 ||| ((w >>> 32).toUInt32.toUInt64 <<< 32) = w :=
  UInt64.toNat_inj.mp (by simpa using join_halves 32 w.toNat_lt)

theorem writes_byte (b : UInt8) : Writes (snapshotWriteByte · b) [b] := writes_fputc b

theorem writes_word (w : UInt16) : Writes (snapshotWriteWord · w) (le16 w) :=
  (writes_byte _).comp (writes_byte _)

theorem writes_dword (dw : UInt32) : Writes (snapshotWriteDword · dw) (le32 dw) :=
  (writes_word _).comp (writes_word _)

theorem writes_qword (qw : UInt64) : Writes (snapshotWriteQword · qw) (le64 qw) :=
  (writes_dword _).comp (writes_dword _)

theorem reads_byte (b : UInt8) : Reads snapshotReadByte [b] b := by
  intro f rest h
  rw [snapshotReadByte, fgetc_cons h]
  rfl

theorem reads_word (w : UInt16) : Reads snapshotReadWord (le16 w) w := by
  have h : Reads snapshotReadWord (le16 w) _ := (reads_byte _).pair _ (reads_byte _)
  rwa [join_word] at h

theorem reads_dword (dw : UInt32) : Reads snapshotReadDword (le32 dw) dw := by
  have h : Reads snapshotReadDword (le32 dw) _ := (reads_word _).pair _ (reads_word _)
  rwa [join_dword] at h

theorem reads_qword (qw : UInt64) : Reads snapshotReadQword (le64 qw) qw := by
  have h : Reads snapshotReadQword (le64 qw) _ := (reads_dword _).pair _ (reads_dword _)
  rwa [join_qword] at h

/-! ## Typed values -/

inductive Kind
  | byte | word | dword | qword
  | byteArray (num : Nat) | wordArray (num : Nat) | dwordArray (num : Nat)
  | string
  deriving DecidableEq, Repr

inductive Value
  | byte (b : UInt8) | word (w : UInt16) | dword (dw : UInt32) | qword (qw : UInt64)
  | byteArray (b : List UInt8) | wordArray (w : List UInt16) | dwordArray (dw : List UInt32)
  | string (s : Option CString)
  deriving DecidableEq, Repr

def Value.kind : Value → Kind
  | byte _ => .byte
  | word _ => .word
  | dword _ => .dword
  | qword _ => .qword
  | byteArray b => .byteArray b.length
  | wordArray w => .wordArray w.length
  | dwordArray dw => .dwordArray dw.length
  | string _ => .string

/-- The bytes that stand for a value in the file. -/
def Value.enc : Value → List UInt8
  | byte b => [b]
  | word w => le16 w
  | dword dw => le32 dw
  | qword qw => le64 qw
  | byteArray b => b
  | wordArray w => w.flatMap le16
  | dwordArray dw => dw.flatMap le32
  | string s => le16 (UInt16.ofNat (stringBytes s).length) ++ stringBytes s

/-- The number of bytes that a read of this kind asks for. -/
def Kind.least : Kind → Nat
  | byte => 1
  | word => 2
  | dword => 4
  | qword => 8
  | byteArray num => num
  | wordArray num => num * 2
  | dwordArray num => num * 4
  | string => 2

/-- The length of a string, with its terminating zero, is a word. -/
def Value.Short : Value → Prop
  | string s => (stringBytes s).length < 2 ^ 16
  | _ => True

instance (v : Value) : Decidable v.Short :=
  match v with
  | .string s => inferInstanceAs (Decidable ((stringBytes s).length < 2 ^ 16))
  | .byte _ | .word _ | .dword _ | .qword _ | .byteArray _ | .wordArray _ | .dwordArray _ =>
    isTrue trivial

def writeValue (m : Module) : Value → Except SnapshotError Module
  | .byte b => .ok (snapshotModuleWriteByte m b)
  | .word w => .ok (snapshotModuleWriteWord m w)
  | .dword dw => .ok (snapshotModuleWriteDword m dw)
  | .qword qw => .ok (snapshotModuleWriteQword m qw)
  | .byteArray b => .ok (snapshotModuleWriteByteArray m b)
  | .wordArray w => .ok (snapshotModuleWriteWordArray m w)
  | .dwordArray dw => .ok (snapshotModuleWriteDwordArray m dw)
  | .string s => snapshotModuleWriteString m s

def readValue (m : Module) : Kind → Except SnapshotError (Value × Module)
  | .byte => (snapshotModuleReadByte m).map (Prod.map .byte id)
  | .word => (snapshotModuleReadWord m).map (Prod.map .word id)
  | .dword => (snapshotModuleReadDword m).map (Prod.map .dword id)
  | .qword => (snapshotModuleReadQword m).map (Prod.map .qword id)
  | .byteArray num => (snapshotModuleReadByteArray num m).map (Prod.map .byteArray id)
  | .wordArray num => (snapshotModuleReadWordArray num m).map (Prod.map .wordArray id)
  | .dwordArray num => (snapshotModuleReadDwordArray num m).map (Prod.map .dwordArray id)
  | .string => (snapshotModuleReadString m).map (Prod.map .string id)

/-! ## Values written and read back -/

theorem le16_length (w : UInt16) : (le16 w).length = 2 := rfl

theorem le32_length (dw : UInt32) : (le32 dw).length = 4 := rfl

theorem le64_length (qw : UInt64) : (le64 qw).length = 8 := rfl

theorem flatMap_length {α : Type} {enc : α → List UInt8} {k : Nat}
    (h : ∀ x, (enc x).length = k) (xs : List α) : (xs.flatMap enc).length = xs.length * k := by
  induction xs with
  | nil => exact (Nat.zero_mul k).symm
  | cons x xs ih => rw [List.flatMap_cons, List.length_append, h, ih, List.length_cons,
      Nat.succ_mul, Nat.add_comm]

theorem writes_bytes (bs : List UInt8) : Writes (fun f => bs.foldl snapshotWriteByte f) bs := by
  have h := Writes.foldl writes_byte bs
  rwa [List.flatMap_singleton'] at h

theorem writes_byteArray (b : List UInt8) : Writes (snapshotWriteByteArray · b) b := by
  intro f hf
  change snapshotWriteByteArray f b = _
  unfold snapshotWriteByteArray
  split
  · rfl
  · next h =>
    rw [List.length_eq_zero_iff.mp (Nat.eq_zero_of_not_pos h), fwrite_nil hf]

theorem writes_string (s : Option CString) :
    Writes (fun f => (snapshotWriteString f s).1) (Value.string s).enc :=
  (writes_word _).comp (writes_bytes _)

theorem int32_length (h : bs.length < 2 ^ 16) : ¬ Int32.ofNat (bs.length + 2) < 0 ∧
      (Int32.ofNat (bs.length + 2)).toUInt32 = UInt32.ofNat (bs.length + 2) := by
  refine ⟨?_, rfl⟩
  rw [Int32.lt_iff_toInt_lt, Int32.toInt_ofNat_of_lt (by omega), Int32.toInt_zero]
  omega

/-- Written at the end of the file, a value adds its bytes to it and their number to the size. -/
theorem writeValue_ok {v : Value} (hshort : v.Short) (hm : m.file = ⟨bs, bs.length⟩) :
    writeValue m v = .ok { m with
      file := ⟨bs ++ v.enc, (bs ++ v.enc).length⟩
      size := m.size + UInt32.ofNat v.enc.length } := by
  cases v with
  | byte b =>
    rw [writeValue, snapshotModuleWriteByte, hm, (writes_byte b).atEnd]
    rfl
  | word w =>
    rw [writeValue, snapshotModuleWriteWord, hm, (writes_word w).atEnd]
    rfl
  | dword dw =>
    rw [writeValue, snapshotModuleWriteDword, hm, (writes_dword dw).atEnd]
    rfl
  | qword qw =>
    rw [writeValue, snapshotModuleWriteQword, hm, (writes_qword qw).atEnd]
    rfl
  | byteArray b =>
    rw [writeValue, snapshotModuleWriteByteArray, hm, (writes_byteArray b).atEnd]
    rfl
  | wordArray w =>
    rw [writeValue, snapshotModuleWriteWordArray, snapshotWriteWordArray, hm,
      (Writes.foldl writes_word w).atEnd, ← flatMap_length le16_length]
    rfl
  | dwordArray dw =>
    rw [writeValue, snapshotModuleWriteDwordArray, snapshotWriteDwordArray, hm,
      (Writes.foldl writes_dword dw).atEnd, ← flatMap_length le32_length]
    rfl
  | string s =>
    have hlen := int32_length hshort
    have henc : (Value.string s).enc.length = (stringBytes s).length + 2 := by
      rw [Value.enc, List.length_append, le16_length, Nat.add_comm]
    rw [writeValue, snapshotModuleWriteString, hm]
    dsimp only
    rw [show (snapshotWriteString ⟨bs, bs.length⟩ s).2 = Int32.ofNat ((stringBytes s).length + 2)
      from rfl, if_neg hlen.1, hlen.2, (writes_string s).atEnd, henc]
    rfl

theorem reads_byteArray (b : List UInt8) : Reads (snapshotReadByteArray b.length) b b := by
  intro f rest h
  unfold snapshotReadByteArray
  split
  · next hpos => rw [fread_append (List.length_pos_iff.mp hpos) h]
  · next hzero =>
    rw [List.length_eq_zero_iff.mp (Nat.eq_zero_of_not_pos hzero)]
    rfl

theorem ofBuffer_chars (s : CString) : CString.ofBuffer (s.chars ++ [0]) = s := by
  obtain ⟨chars, hzero⟩ := s
  have hall : ∀ c ∈ chars, decide (c ≠ 0) = true := fun c hc => by
    rw [decide_eq_true_eq]
    exact fun h => hzero (h ▸ hc)
  simp only [CString.ofBuffer, List.takeWhile_append_of_pos hall]
  congr
  simp

theorem reads_string {s : Option CString} (hshort : (stringBytes s).length < 2 ^ 16) :
    Reads snapshotReadString (Value.string s).enc s := by
  have hlen : (UInt16.ofNat (stringBytes s).length).toNat = (stringBytes s).length := by
    rw [UInt16.toNat_ofNat', Nat.mod_eq_of_lt hshort]
  refine (reads_word _).bind ?_
  cases s with
  | none => exact reads_pure none
  | some s =>
    dsimp only
    rw [hlen, if_neg (by simp [stringBytes])]
    have hset : (s.chars ++ [0]).set ((s.chars ++ [0]).length - 1) 0 = s.chars ++ [(0 : UInt8)] := by
      simp
    have hbytes : Reads (readTimes snapshotReadByte (s.chars ++ [0]).length) (s.chars ++ [0])
        (s.chars ++ [0]) := by
      have h := Reads.readTimes reads_byte (s.chars ++ [0])
      rwa [List.flatMap_singleton'] at h
    have h := hbytes.bind (k := fun p =>
      pure (some (CString.ofBuffer (p.set ((s.chars ++ [0]).length - 1) 0)))) (by
        rw [hset, ofBuffer_chars]
        exact reads_pure _)
    rwa [List.append_nil] at h

theorem readBounded_ok {α : Type} {n : Nat} {rd : ReadM α} {x : α} (hrd : Reads rd bs x)
    (hn : n ≤ bs.length) (hfit : m.file.pos + bs.length ≤ m.offset + m.size.toNat)
    (h : m.file.bytes.drop m.file.pos = bs ++ rest) :
    readBounded n rd m =
      .ok (x, { m with file := { m.file with pos := m.file.pos + bs.length } }) := by
  rw [readBounded, if_neg (by omega), hrd m.file rest h]
  rfl

/-- The module with the file further on. -/
def Module.skip (m : Module) (n : Nat) : Module :=
  { m with file := { m.file with pos := m.file.pos + n } }

theorem least_le_enc (v : Value) : v.kind.least ≤ v.enc.length := by
  cases v with
  | wordArray w => exact Nat.le_of_eq (flatMap_length le16_length w).symm
  | dwordArray dw => exact Nat.le_of_eq (flatMap_length le32_length dw).symm
  | string s =>
    rw [Value.enc, List.length_append, le16_length]
    exact Nat.le_add_right 2 _
  | _ => exact Nat.le_refl _

/-- What is read of the file for a value of this kind. -/
def Kind.reader : Kind → ReadM Value
  | byte => .byte <$> snapshotReadByte
  | word => .word <$> snapshotReadWord
  | dword => .dword <$> snapshotReadDword
  | qword => .qword <$> snapshotReadQword
  | byteArray num => .byteArray <$> snapshotReadByteArray num
  | wordArray num => .wordArray <$> snapshotReadWordArray num
  | dwordArray num => .dwordArray <$> snapshotReadDwordArray num
  | string => .string <$> snapshotReadString

theorem readBounded_map {α β : Type} (n : Nat) (rd : ReadM α) (g : α → β) (m : Module) :
    (readBounded n rd m).map (Prod.map g id) = readBounded n (g <$> rd) m := by
  unfold readBounded
  split
  · rfl
  · change _ = (rd m.file >>= fun p => pure (g p.1, p.2)).map _
    cases rd m.file <;> rfl

theorem readValue_eq (m : Module) (k : Kind) : readValue m k = readBounded k.least k.reader m := by
  cases k <;> exact readBounded_map ..

theorem reads_value {v : Value} (hshort : v.Short) : Reads v.kind.reader v.enc v := by
  cases v with
  | byte b => exact (reads_byte b).map _
  | word w => exact (reads_word w).map _
  | dword dw => exact (reads_dword dw).map _
  | qword qw => exact (reads_qword qw).map _
  | byteArray b => exact (reads_byteArray b).map _
  | wordArray w => exact (Reads.readTimes reads_word w).map _
  | dwordArray dw => exact (Reads.readTimes reads_dword dw).map _
  | string s => exact (reads_string hshort).map _

/-- Within the module, a value is read back from its bytes. -/
theorem readValue_enc {v : Value} (hshort : v.Short)
    (hfit : m.file.pos + v.enc.length ≤ m.offset + m.size.toNat)
    (h : m.file.bytes.drop m.file.pos = v.enc ++ rest) :
    readValue m v.kind = .ok (v, m.skip v.enc.length) := by
  rw [readValue_eq, readBounded_ok (reads_value hshort) (least_le_enc v) hfit h]
  rfl

theorem readValue_outOfBounds {k : Kind} (h : m.offset + m.size.toNat < m.file.pos + k.least) :
    readValue m k = .error .readOutOfBounds := by
  rw [readValue_eq, readBounded, if_pos h]

/-! ## Whatever is read -/

theorem takes_byte : Takes snapshotReadByte 1 := by
  intro f x f' h
  unfold snapshotReadByte fgetc at h
  cases hget : f.bytes[f.pos]? with
  | none =>
    rw [hget] at h
    cases h
  | some c =>
    rw [hget] at h
    cases h
    rfl

theorem takes_word : Takes snapshotReadWord 2 :=
  takes_byte.bind fun _ => takes_byte.bind fun _ => takes_pure _

theorem takes_dword : Takes snapshotReadDword 4 :=
  takes_word.bind fun _ => takes_word.bind fun _ => takes_pure _

theorem takes_qword : Takes snapshotReadQword 8 :=
  takes_dword.bind fun _ => takes_dword.bind fun _ => takes_pure _

theorem takes_byteArray (num : Nat) : Takes (snapshotReadByteArray num) num := by
  intro f x f' h
  unfold snapshotReadByteArray at h
  split at h
  · unfold fread at h
    split at h
    · cases h
    · next hread =>
      split at hread
      · cases hread
        cases h
        rfl
      · cases hread
  · next hzero =>
    cases h
    rw [Nat.eq_zero_of_not_pos hzero]
    rfl

theorem byteArray_length {num : Nat} {x : List UInt8} {f' : File}
    (h : snapshotReadByteArray num f = .ok (x, f')) : x.length = num := by
  unfold snapshotReadByteArray at h
  split at h
  · unfold fread at h
    split at h
    · cases h
    · next hread =>
      split at hread
      · next hle =>
        cases hread
        cases h
        rw [List.length_take, List.length_drop]
        omega
      · cases hread
  · next hzero =>
    cases h
    rw [Nat.eq_zero_of_not_pos hzero]
    rfl

theorem ofBuffer_length (h : 0 ∈ bs) : (CString.ofBuffer bs).chars.length < bs.length := by
  by_contra hge
  have hall : bs.takeWhile (· ≠ 0) = bs :=
    (List.takeWhile_prefix _).eq_of_length_le (Nat.le_of_not_lt hge)
  have hzero := (CString.ofBuffer bs).noZero
  rw [show (CString.ofBuffer bs).chars = bs from hall] at hzero
  exact hzero h

/-- No string is longer than its length says. -/
theorem string_short {s : Option CString} {f' : File} (h : snapshotReadString f = .ok (s, f')) :
    (stringBytes s).length < 2 ^ 16 ∧ f'.bytes = f.bytes ∧
      f.pos + (Value.string s).enc.length ≤ f'.pos := by
  obtain ⟨w, g, hw, h⟩ := bind_ok h
  have hg := takes_word f w g hw
  have hlt := w.toNat_lt
  dsimp only at h
  split at h
  · cases h
    rw [hg]
    exact ⟨by decide, rfl, Nat.le_refl _⟩
  · next hne =>
    obtain ⟨p, g', hp, h⟩ := bind_ok h
    have hg' := takes_readTimes takes_byte w.toNat g p g' hp
    have hlen := readTimes_length hp
    have hzero : 0 ∈ p.set (w.toNat - 1) 0 := List.mem_set (by omega) 0
    have hlt := ofBuffer_length hzero
    rw [List.length_set] at hlt
    cases h
    rw [hg', hg]
    simp only [stringBytes, Value.enc, List.length_append, List.length_singleton, le16_length]
    exact ⟨by omega, trivial, by omega⟩

theorem reader_ok {k : Kind} {v : Value} {f' : File} (h : k.reader f = .ok (v, f')) :
    v.Short ∧ f'.bytes = f.bytes ∧ f.pos + v.enc.length ≤ f'.pos := by
  cases k with
  | byte =>
    obtain ⟨x, hx, rfl⟩ := map_ok h
    rw [takes_byte f x f' hx]
    exact ⟨trivial, rfl, Nat.le_refl _⟩
  | word =>
    obtain ⟨x, hx, rfl⟩ := map_ok h
    rw [takes_word f x f' hx]
    exact ⟨trivial, rfl, Nat.le_refl _⟩
  | dword =>
    obtain ⟨x, hx, rfl⟩ := map_ok h
    rw [takes_dword f x f' hx]
    exact ⟨trivial, rfl, Nat.le_refl _⟩
  | qword =>
    obtain ⟨x, hx, rfl⟩ := map_ok h
    rw [takes_qword f x f' hx]
    exact ⟨trivial, rfl, Nat.le_refl _⟩
  | byteArray num =>
    obtain ⟨x, hx, rfl⟩ := map_ok h
    rw [takes_byteArray num f x f' hx, Value.enc, byteArray_length hx]
    exact ⟨trivial, rfl, Nat.le_refl _⟩
  | wordArray num =>
    obtain ⟨x, hx, rfl⟩ := map_ok h
    rw [takes_readTimes takes_word num f x f' hx, Value.enc, flatMap_length le16_length, readTimes_length hx]
    exact ⟨trivial, rfl, Nat.le_refl _⟩
  | dwordArray num =>
    obtain ⟨x, hx, rfl⟩ := map_ok h
    rw [takes_readTimes takes_dword num f x f' hx, Value.enc, flatMap_length le32_length, readTimes_length hx]
    exact ⟨trivial, rfl, Nat.le_refl _⟩
  | string =>
    obtain ⟨x, hx, rfl⟩ := map_ok h
    exact string_short hx

/-- A read leaves the module and the bytes of the file as they are. -/
structure Advanced (m m' : Module) (n : Nat) : Prop where
  offset : m'.offset = m.offset
  size : m'.size = m.size
  bytes : m'.file.bytes = m.file.bytes
  pos : m.file.pos + n ≤ m'.file.pos

theorem Advanced.trans {m'' : Module} {n k : Nat} (h : Advanced m m' n) (h' : Advanced m' m'' k) :
    Advanced m m'' (n + k) :=
  ⟨h'.offset.trans h.offset, h'.size.trans h.size, h'.bytes.trans h.bytes, by
    have := h.pos
    have := h'.pos
    omega⟩

theorem readValue_advances {k : Kind} {v : Value} (h : readValue m k = .ok (v, m')) :
    v.Short ∧ Advanced m m' v.enc.length := by
  rw [readValue_eq, readBounded] at h
  split at h
  · cases h
  · cases hrd : k.reader m.file with
    | error e =>
      rw [hrd] at h
      cases h
    | ok r =>
      rw [hrd] at h
      cases h
      obtain ⟨hshort, hbytes, hpos⟩ := reader_ok hrd
      exact ⟨hshort, rfl, rfl, hbytes, hpos⟩

end

end Vice.L2.Snapshot
