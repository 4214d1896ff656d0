import Mathlib.Algebra.Group.Nat.Defs
import Mathlib.Data.List.Induction

/-!
# PETSCII as UTF-8 (`charset.c`)

A string is converted into a buffer of its own length first. If the result is longer the buffer gets the
length that was counted, and all is converted once more. While it counts, the first pass writes nothing
that has no room behind the place it is at; but the room is an unsigned number, and once the place is
behind the end of the buffer the room is huge.

Results:
* `pass_place`, `pass_cells`: where a pass ends, and what it leaves in memory.
* `pass_outside`: when a pass writes outside of the buffer.
* `converts_iff`: the conversion is in bounds exactly if all characters but the last fit.
-/
namespace Vice.L1.PetsciiUtf8

/-! ## Characters -/

/-- mirrors src/charset.c:110-118 (`petcii_fix_dupes`) -/
def petciiFixDupes (c : UInt8) : UInt8 :=
  if 0x60 ≤ c ∧ c ≤ 0x7f then (c - 0x60) + 0xc0 else if 0xe0 ≤ c then (c - 0xe0) + 0xa0 else c

def ASCII_UNMAPPED : UInt8 := 0x2e

/-- The machine, and what the C library takes for printable. -/
structure Host where
  pet : Bool
  isprint : UInt8 → Bool

section
variable (host : Host) (c : UInt8)

/-- mirrors src/charset.c:132-162 (`charset_p_toascii`), without control codes -/
def charsetPToascii : UInt8 :=
  let c := petciiFixDupes c
  if c = 0x0d then 0x0a
  else if c = 0x0a then 0x0d
  else if c ≤ 0x1f then ASCII_UNMAPPED
  else if c = 0xa0 then 0x20
  else if 0xc1 ≤ c ∧ c ≤ 0xda then (c - 0xc1) + 0x41
  else if 0x41 ≤ c ∧ c ≤ 0x5a then (c - 0x41) + 0x61
  else if host.isprint c then c
  else ASCII_UNMAPPED

/-- mirrors src/charset.c:245-273 (`charset_petscii_to_ucs`) -/
def charsetPetsciiToUcs : Nat :=
  if c = 0x5c then if host.pet then 0x5c else 0xa3
  else if c = 0x5e then 0x2191
  else if c = 0x5f then 0x2190
  else if c = 0xa0 ∨ c = 0xe0 then 0xa0
  else if c = 0xc0 then 0x2500
  else if c = 0xde ∨ c = 0xff then 0x3c0
  else (charsetPToascii host c).toNat

end

def marked (mark : UInt8) (bits : Nat) : UInt8 := mark ||| UInt8.ofNat bits

/-- The bytes of a code, and none for a code out of range: mirrors src/charset.c:277-308 (`charset_ucs_to_utf8`) -/
def charsetUcsToUtf8 (code : Nat) : List UInt8 :=
  if code ≤ 0x7f then [UInt8.ofNat code]
  else if code ≤ 0x7ff then [marked 0xc0 (code >>> 6), marked 0x80 (code &&& 0x3f)]
  else if code ≤ 0xffff then
    [marked 0xe0 (code >>> 12), marked 0x80 ((code >>> 6) &&& 0x3f), marked 0x80 (code &&& 0x3f)]
  else if code ≤ 0x10ffff then
    [marked 0xe0 (code >>> 18), marked 0x80 ((code >>> 12) &&& 0x3f), marked 0x80 ((code >>> 6) &&& 0x3f),
      marked 0x80 (code &&& 0x3f)]
  else []

/-! ## Strings -/

/-- The memory behind a pointer, how much of it is allocated, and whether something was written elsewhere. -/
structure Buffer where
  cells : Nat → UInt8
  size : Nat
  outside : Bool

def Buffer.write (b : Buffer) (i : Nat) (byte : UInt8) : Buffer :=
  { b with cells := Function.update b.cells i byte, outside := b.outside || decide (b.size ≤ i) }

def Buffer.writes (b : Buffer) : Nat → List UInt8 → Buffer
  | _, [] => b
  | i, byte :: bytes => (b.write i byte).writes (i + 1) bytes

/-- A difference of `size_t`. -/
def sizeSub (m n : Nat) : Nat := if n ≤ m then m - n else 2 ^ 64 - (n - m)

section
variable (host : Host)

/-- One character at `d`, if it fits into what is left of `len`: mirrors src/charset.c:346-348 -/
def put (len : Nat) (db : Nat × Buffer) (c : UInt8) : Nat × Buffer :=
  let (d, b) := db
  let bytes := charsetUcsToUtf8 (charsetPetsciiToUcs host c)
  (d + bytes.length, if bytes.length ≤ sizeSub len d then b.writes d bytes else b)

/-- mirrors src/charset.c:345-350 -/
def pass (len : Nat) (b : Buffer) (s : List UInt8) : Nat × Buffer := s.foldl (put host len) (0, b)

/-- The loop; `lib_realloc` keeps what is in the buffer. Mirrors src/charset.c:344-361 -/
def passes (s : List UInt8) : Nat → Nat → Buffer → Option Buffer
  | 0, _, _ => none
  | n + 1, len, b =>
    let (d, b) := pass host len b s
    if len < d then passes s n d { b with size := d + 1 } else some (b.write d 0)

/-- The buffer that is returned, after at most so many passes: mirrors src/charset.c:310-370
(`charset_petconv_stralloc`), from a string and whatever is in memory -/
def charsetPetconvStralloc (memory : Nat → UInt8) (s : List UInt8) (n : Nat) : Option Buffer :=
  passes host s n s.length ⟨memory, s.length + 1, false⟩

end

/-- A string in C: no byte of it is zero, and it is an object, as its UTF-8 form has to be. -/
structure CString where
  bytes : List UInt8
  nonzero : 0 ∉ bytes
  fits : 3 * bytes.length < 2 ^ 63

/-- The UTF-8 encodings of the characters. -/
def encoded (host : Host) (s : List UInt8) : List UInt8 :=
  s.flatMap fun c => String.utf8EncodeChar (Char.ofNat (charsetPetsciiToUcs host c))

/-- A string stands in memory. -/
structure Holds (cells : Nat → UInt8) (string : List UInt8) : Prop where
  bytes : ∀ i (h : i < string.length), cells i = string[i]
  terminator : cells string.length = 0
  nonzero : 0 ∉ string

/-- The conversion ends with the encodings, and all that was written was allocated. -/
def Converts (host : Host) (s : CString) : Prop :=
  ∀ memory, ∃ n b, charsetPetconvStralloc host memory s.bytes n = some b ∧ b.outside = false ∧
    Holds b.cells (encoded host s.bytes)

/-! ## What a character takes -/

section
variable {host : Host} {c : UInt8} {s : List UInt8} {b : Buffer} {d i len : Nat} {bytes : List UInt8}

theorem charsetPToascii_ne_zero (hc : c ≠ 0) : charsetPToascii host c ≠ 0 := by
  have hdupes : ∀ n < 256, UInt8.ofNat n ≠ 0 → petciiFixDupes (UInt8.ofNat n) ≠ 0 := by decide +kernel
  have hnonzero := hdupes c.toNat c.toNat_lt (by rwa [UInt8.ofNat_toNat])
  rw [UInt8.ofNat_toNat] at hnonzero
  have hupper : ∀ n < 256, 0xc1 ≤ UInt8.ofNat n ∧ UInt8.ofNat n ≤ 0xda → UInt8.ofNat n - 0xc1 + 0x41 ≠ 0 := by
    decide +kernel
  have hlower : ∀ n < 256, 0x41 ≤ UInt8.ofNat n ∧ UInt8.ofNat n ≤ 0x5a → UInt8.ofNat n - 0x41 + 0x61 ≠ 0 := by
    decide +kernel
  unfold charsetPToascii
  dsimp only
  generalize petciiFixDupes c = k at hnonzero ⊢
  have hu := hupper k.toNat k.toNat_lt
  have hl := hlower k.toNat k.toNat_lt
  rw [UInt8.ofNat_toNat] at hu hl
  split_ifs with _ _ _ _ hbig hsmall
  · decide
  · decide
  · decide
  · decide
  · exact hu hbig
  · exact hl hsmall
  · exact hnonzero
  · decide

theorem ucs_cases (host : Host) (hc : c ≠ 0) : charsetPetsciiToUcs host c ∈ [0x2191, 0x2190, 0x2500, 0x3c0] ∨
    0 < charsetPetsciiToUcs host c ∧ charsetPetsciiToUcs host c < 0x100 := by
  have hascii : 0 < (charsetPToascii host c).toNat :=
    Nat.pos_of_ne_zero fun h => charsetPToascii_ne_zero hc (UInt8.toNat_inj.mp h)
  have hlt := (charsetPToascii host c).toNat_lt
  unfold charsetPetsciiToUcs
  split_ifs
  · exact .inr (by decide)
  · exact .inr (by decide)
  · exact .inl (by decide)
  · exact .inl (by decide)
  · exact .inr (by decide)
  · exact .inl (by decide)
  · exact .inl (by decide)
  · exact .inr ⟨hascii, hlt⟩

/-- The bytes of a character are its UTF-8 encoding. -/
theorem utf8_eq (hc : c ≠ 0) : charsetUcsToUtf8 (charsetPetsciiToUcs host c) =
    String.utf8EncodeChar (Char.ofNat (charsetPetsciiToUcs host c)) := by
  have hfew : ∀ n ∈ [0x2191, 0x2190, 0x2500, 0x3c0], charsetUcsToUtf8 n = String.utf8EncodeChar (Char.ofNat n) := by
    decide +kernel
  have hbyte : ∀ n < 0x100, charsetUcsToUtf8 n = String.utf8EncodeChar (Char.ofNat n) := by decide +kernel
  obtain h | h := ucs_cases host hc
  · exact hfew _ h
  · exact hbyte _ h.2

theorem utf8_shape (host : Host) (hc : c ≠ 0) : 0 < (charsetUcsToUtf8 (charsetPetsciiToUcs host c)).length ∧
    (charsetUcsToUtf8 (charsetPetsciiToUcs host c)).length ≤ 3 ∧ 0 ∉ charsetUcsToUtf8 (charsetPetsciiToUcs host c) := by
  have hfew : ∀ n ∈ [0x2191, 0x2190, 0x2500, 0x3c0], 0 < (charsetUcsToUtf8 n).length ∧
      (charsetUcsToUtf8 n).length ≤ 3 ∧ 0 ∉ charsetUcsToUtf8 n := by
    decide +kernel
  have hbyte : ∀ n < 0x100, 0 < n → 0 < (charsetUcsToUtf8 n).length ∧ (charsetUcsToUtf8 n).length ≤ 3 ∧
      0 ∉ charsetUcsToUtf8 n := by
    decide +kernel
  obtain h | h := ucs_cases host hc
  · exact hfew _ h
  · exact hbyte _ h.2 h.1

/-! ## Memory -/

theorem writes_cells (b : Buffer) (d : Nat) (bytes : List UInt8) (i : Nat) :
    (b.writes d bytes).cells i = if h : d ≤ i ∧ i < d + bytes.length then bytes[i - d] else b.cells i := by
  induction bytes generalizing b d with
  | nil =>
    rw [dif_neg (by simp)]
    rfl
  | cons byte bytes ih =>
    rw [Buffer.writes, ih]
    by_cases hd : i = d
    · subst hd
      rw [dif_neg (by omega), dif_pos ⟨Nat.le_refl i, by simp⟩]
      simp [Buffer.write]
    · by_cases hi : d + 1 ≤ i ∧ i < d + 1 + bytes.length
      · rw [dif_pos hi, dif_pos ⟨by omega, by simp; omega⟩]
        have hindex : i - d = (i - (d + 1)) + 1 := by omega
        simp only [hindex, List.getElem_cons_succ]
      · rw [dif_neg hi, dif_neg (by simp; omega)]
        exact Function.update_of_ne hd byte b.cells

theorem writes_size (b : Buffer) (d : Nat) (bytes : List UInt8) : (b.writes d bytes).size = b.size := by
  induction bytes generalizing b d with
  | nil => rfl
  | cons byte bytes ih => exact ih _ _

theorem writes_outside (b : Buffer) (d : Nat) (bytes : List UInt8) (hne : bytes ≠ []) :
    (b.writes d bytes).outside = (b.outside || decide (b.size < d + bytes.length)) := by
  induction bytes generalizing b d with
  | nil => exact absurd rfl hne
  | cons byte bytes ih =>
    rw [Buffer.writes]
    cases bytes with
    | nil =>
      show (b.outside || decide (b.size ≤ d)) = (b.outside || decide (b.size < d + 1))
      congr 1
      exact decide_eq_decide.mpr Nat.lt_succ_iff.symm
    | cons byte' bytes =>
      rw [ih _ _ (List.cons_ne_nil _ _), Buffer.write, Bool.or_assoc, List.length_cons (a := byte), ← Bool.decide_or]
      congr 1
      exact decide_eq_decide.mpr (by simp; omega)

/-! ## A pass -/

def width (host : Host) (s : List UInt8) : Nat := (encoded host s).length

theorem encoded_cons (c : UInt8) (s : List UInt8) : encoded host (c :: s) =
    String.utf8EncodeChar (Char.ofNat (charsetPetsciiToUcs host c)) ++ encoded host s :=
  List.flatMap_cons

theorem encoded_append (s t : List UInt8) : encoded host (s ++ t) = encoded host s ++ encoded host t :=
  List.flatMap_append

theorem encoded_concat (host : Host) (s : List UInt8) (hc : c ≠ 0) :
    encoded host (s ++ [c]) = encoded host s ++ charsetUcsToUtf8 (charsetPetsciiToUcs host c) := by
  have hnil : encoded host [] = [] := rfl
  rw [encoded_append, encoded_cons, hnil, List.append_nil, utf8_eq hc]

theorem width_concat (s : List UInt8) (c : UInt8) (hc : c ≠ 0) : width host (s ++ [c]) =
    width host s + (charsetUcsToUtf8 (charsetPetsciiToUcs host c)).length := by
  rw [width, encoded_concat host s hc, List.length_append]
  rfl

theorem width_dropLast_le (host : Host) (s : List UInt8) : width host s.dropLast ≤ width host s := by
  cases hs : s.getLast? with
  | none =>
    rw [List.getLast?_eq_none_iff.mp hs]
    exact Nat.le_refl _
  | some c =>
    obtain ⟨t, rfl⟩ := List.getLast?_eq_some_iff.mp hs
    rw [List.dropLast_concat, width, width, encoded_append, List.length_append]
    exact Nat.le_add_right _ _

theorem width_le (host : Host) (hs : 0 ∉ s) : width host s ≤ 3 * s.length := by
  induction s with
  | nil => exact Nat.zero_le _
  | cons c s ih =>
    have hc : c ≠ 0 := fun h => hs (h ▸ List.mem_cons_self)
    have hrest := ih fun h => hs (List.mem_cons_of_mem c h)
    have hthree := (utf8_shape host hc).2.1
    rw [utf8_eq hc] at hthree
    rw [width, encoded_cons, List.length_append, List.length_cons]
    have : (encoded host s).length = width host s := rfl
    omega

theorem not_mem_concat {t : List UInt8} (h : 0 ∉ t ++ [c]) : 0 ∉ t ∧ c ≠ 0 :=
  ⟨fun ht => h (List.mem_append_left _ ht), fun hc => h (hc ▸ List.mem_append_right t List.mem_cons_self)⟩

theorem pass_concat (len : Nat) (b : Buffer) (s : List UInt8) (c : UInt8) :
    pass host len b (s ++ [c]) = put host len (pass host len b s) c :=
  List.foldl_append

theorem pass_place (host : Host) (len : Nat) (b : Buffer) (hs : 0 ∉ s) : (pass host len b s).1 = width host s ∧ (pass host len b s).2.size = b.size := by
  induction s using List.reverseRecOn with
  | nil => exact ⟨rfl, rfl⟩
  | append_singleton s c ih =>
    obtain ⟨hs, hc⟩ := not_mem_concat hs
    obtain ⟨hplace, hsize⟩ := ih hs
    rw [pass_concat, width_concat s c hc, put]
    refine ⟨by rw [hplace], ?_⟩
    dsimp only
    split_ifs
    · rw [writes_size, hsize]
    · exact hsize

/-- What is behind the end is taken for room without end. -/
theorem sizeSub_lt {k : Nat} (hk : 0 < k) (hk' : k ≤ 3) (hd : d < 2 ^ 63) :
    k ≤ sizeSub len d ↔ d + k ≤ len ∨ len < d := by
  unfold sizeSub
  split_ifs with hle
  · omega
  · omega

theorem pass_outside (host : Host) (hs : 0 ∉ s) (hfits : 3 * s.length < 2 ^ 63) (hsize : b.size = len + 1) :
    (pass host len b s).2.outside = (b.outside || decide (len < width host s.dropLast)) := by
  induction s using List.reverseRecOn with
  | nil =>
    have hnone : ¬ len < width host ([] : List UInt8).dropLast := Nat.not_lt_zero len
    rw [decide_eq_false hnone, Bool.or_false]
    rfl
  | append_singleton s c ih =>
    obtain ⟨hs, hc⟩ := not_mem_concat hs
    rw [List.length_append, List.length_singleton] at hfits
    obtain ⟨hpos, hthree, -⟩ := utf8_shape host hc
    obtain ⟨hplace, hkept⟩ := pass_place host len b hs
    have hwidth := width_le host hs
    have hdrop := width_dropLast_le host s
    rw [pass_concat, put, List.dropLast_concat]
    dsimp only
    rw [hplace]
    by_cases hroom : (charsetUcsToUtf8 (charsetPetsciiToUcs host c)).length ≤ sizeSub len (width host s)
    · rw [if_pos hroom, writes_outside _ _ _ (List.length_pos_iff.mp hpos), ih hs (by omega), hkept, hsize, Bool.or_assoc,
        ← Bool.decide_or]
      rw [sizeSub_lt hpos hthree (by omega)] at hroom
      congr 1
      exact decide_eq_decide.mpr (by omega)
    · rw [if_neg hroom, ih hs (by omega)]
      rw [sizeSub_lt hpos hthree (by omega)] at hroom
      congr 1
      exact decide_eq_decide.mpr (by omega)

/-- A pass that has room for all writes all. -/
theorem pass_cells (hs : 0 ∉ s) (hfits : 3 * s.length < 2 ^ 63) (hroom : width host s ≤ len) (i : Nat)
    (hi : i < (encoded host s).length) : (pass host len b s).2.cells i = (encoded host s)[i] := by
  induction s using List.reverseRecOn with
  | nil => exact absurd hi (Nat.not_lt_zero i)
  | append_singleton s c ih =>
    obtain ⟨hs, hc⟩ := not_mem_concat hs
    rw [List.length_append, List.length_singleton] at hfits
    obtain ⟨hpos, hthree, -⟩ := utf8_shape host hc
    obtain ⟨hplace, -⟩ := pass_place host len b hs
    have hwidth := width_le host hs
    rw [width_concat s c hc] at hroom
    have hencoded := encoded_concat host s hc
    have hlength : (encoded host s).length = width host s := rfl
    have hrest : (charsetUcsToUtf8 (charsetPetsciiToUcs host c)).length ≤ sizeSub len (width host s) :=
      (sizeSub_lt hpos hthree (by omega)).mpr (.inl (by omega))
    simp only [hencoded, List.length_append] at hi ⊢
    rw [pass_concat, put]
    dsimp only
    rw [hplace, if_pos hrest, writes_cells]
    by_cases hold : i < (encoded host s).length
    · rw [dif_neg (by omega), List.getElem_append_left hold]
      exact ih hs (by omega) (by omega) hold
    · rw [dif_pos ⟨by omega, by omega⟩, List.getElem_append_right (by omega)]
      rfl

/-! ## The conversion -/

theorem encoded_nonzero (hs : 0 ∉ s) : 0 ∉ encoded host s := by
  intro h
  obtain ⟨c, hc, hmem⟩ := List.mem_flatMap.mp h
  have hne : c ≠ 0 := fun hzero => hs (hzero ▸ hc)
  rw [← utf8_eq hne] at hmem
  exact (utf8_shape host hne).2.2 hmem

/-- A pass with enough room is the last one. -/
theorem passes_last (host : Host) (hs : 0 ∉ s) (hfits : 3 * s.length < 2 ^ 63) (hroom : width host s ≤ len) (hsize : b.size = len + 1)
    (n : Nat) : ∃ b', passes host s (n + 1) len b = some b' ∧ b'.outside = b.outside ∧ Holds b'.cells (encoded host s) := by
  obtain ⟨hplace, hkept⟩ := pass_place host len b hs
  have houtside := pass_outside host hs hfits hsize
  have hdrop := width_dropLast_le host s
  refine ⟨(pass host len b s).2.write (width host s) 0, ?_, ?_, ?_⟩
  · rw [passes]
    dsimp only
    rw [hplace, if_neg (by omega)]
  · rw [Buffer.write, houtside, hkept, hsize, decide_eq_false (by omega), decide_eq_false (by omega)]
    dsimp only
    rw [Bool.or_false, Bool.or_false]
  · refine ⟨fun i hi => ?_, Function.update_self _ _ _, encoded_nonzero hs⟩
    have hlt : i < width host s := hi
    show Function.update (pass host len b s).2.cells (width host s) 0 i = _
    rw [Function.update_of_ne (Nat.ne_of_lt hlt)]
    exact pass_cells hs hfits hroom i hi

theorem passes_outside (host : Host) (houtside : b.outside = true) {n : Nat} {b' : Buffer} (hs : 0 ∉ s) (hfits : 3 * s.length < 2 ^ 63)
    (hsize : b.size = len + 1) (h : passes host s n len b = some b') : b'.outside = true := by
  induction n generalizing len b with
  | zero => exact absurd h.symm (Option.some_ne_none b')
  | succ n ih =>
    have hpass := pass_outside host hs hfits hsize
    rw [houtside, Bool.true_or] at hpass
    rw [passes] at h
    dsimp only at h
    split_ifs at h with hmore
    · exact ih (b := { (pass host len b s).2 with size := (pass host len b s).1 + 1 }) hpass rfl h
    · rw [← Option.some.inj h, Buffer.write, hpass, Bool.true_or]

/-- The conversion is in bounds exactly if the characters before the last take no more than the string itself. -/
theorem converts_iff (host : Host) (s : CString) : Converts host s ↔ width host s.bytes.dropLast ≤ s.bytes.length := by
  obtain ⟨bytes, hs, hfits⟩ := s
  dsimp only
  have hplace (memory : Nat → UInt8) := pass_place host bytes.length ⟨memory, bytes.length + 1, false⟩ hs
  have houtside (memory : Nat → UInt8) := @pass_outside bytes ⟨memory, bytes.length + 1, false⟩ bytes.length
    host hs hfits rfl
  constructor
  · intro h
    by_contra hlong
    obtain ⟨n, b, hconverted, hinside, -⟩ := h fun _ => 0
    have hfirst := houtside fun _ => 0
    rw [decide_eq_true (Nat.lt_of_not_le hlong), Bool.or_true] at hfirst
    cases n with
    | zero => exact absurd hconverted.symm (Option.some_ne_none b)
    | succ n =>
      have hdrop := width_dropLast_le host bytes
      rw [charsetPetconvStralloc, passes] at hconverted
      dsimp only at hconverted
      rw [(hplace fun _ => 0).1, if_pos (by omega)] at hconverted
      have htrue := passes_outside host (b := { (pass host bytes.length ⟨fun _ => 0, bytes.length + 1, false⟩ bytes).2 with
        size := width host bytes + 1 }) hfirst hs hfits rfl hconverted
      exact Bool.false_ne_true (hinside.symm.trans htrue)
  · intro hshort memory
    have hfirst := houtside memory
    rw [decide_eq_false (Nat.not_lt.mpr hshort), Bool.or_false] at hfirst
    by_cases hroom : width host bytes ≤ bytes.length
    · obtain ⟨b, hb, hinside, hholds⟩ := @passes_last bytes ⟨memory, bytes.length + 1, false⟩ _ host hs hfits
        hroom rfl 0
      exact ⟨1, b, hb, hinside, hholds⟩
    · obtain ⟨b, hb, hinside, hholds⟩ := @passes_last bytes
        { (pass host bytes.length ⟨memory, bytes.length + 1, false⟩ bytes).2 with size := width host bytes + 1 } _ host hs
        hfits (Nat.le_refl _) rfl 0
      refine ⟨2, b, ?_, hinside.trans hfirst, hholds⟩
      rw [charsetPetconvStralloc, passes]
      dsimp only
      rw [(hplace memory).1, if_pos (by omega)]
      exact hb

end

/-- An arrow and a letter on a C64. -/
def arrowLetter : CString := ⟨[0x5e, 0x41], by decide, by decide⟩

theorem arrowLetter_not_converted : ¬ Converts ⟨false, fun c => decide (0x20 ≤ c ∧ c ≤ 0x7e)⟩ arrowLetter := by
  intro h
  obtain ⟨n, b, hconverted, hinside, -⟩ := h fun _ => 0
  match n, hconverted with
  | 1, hone =>
    have hnone : charsetPetconvStralloc ⟨false, fun c => decide (0x20 ≤ c ∧ c ≤ 0x7e)⟩ (fun _ => 0) arrowLetter.bytes 1 =
        none := rfl
    exact absurd (hnone.symm.trans hone).symm (Option.some_ne_none b)
  | n + 2, htwo =>
    have htrue : (charsetPetconvStralloc ⟨false, fun c => decide (0x20 ≤ c ∧ c ≤ 0x7e)⟩ (fun _ => 0) arrowLetter.bytes
        (n + 2)).map Buffer.outside = some true := rfl
    rw [htwo, Option.map_some] at htrue
    exact Bool.false_ne_true (hinside.symm.trans (Option.some.inj htrue))

end Vice.L1.PetsciiUtf8
