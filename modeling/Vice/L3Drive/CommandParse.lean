import Mathlib.Data.List.TakeWhile

/-!
# Command strings (`cbmdos.c`)

A string of the command channel has a command, a drive or partition, a path up to a colon, a
file name and the rest from the first `=` or `,` on. Only the first letters of words count as the
command's abbreviation, so `BLOCK-ALLOCATE` is `B-A`.

The string is its bytes, with a zero byte behind them, and a pointer into it is an index.

Results:
* `parseTail_parts`: the file name and the rest are the end of the string, and the rest starts with the
  first `=` or `,`.
-/
namespace Vice.L3.CommandParse

abbrev Bytes := List UInt8

/-- mirrors src/cbmdos.h:135-158 (`cbmdos_cmd_parse_plus_t`): what decoding a command fills in. `file`
is a null pointer where the string ends with the command. -/
structure Cmd where
  command : Bytes
  abbrv : Bytes
  drive : Nat
  path : Bytes
  file : Option Bytes
  more : Bytes
  colon : Bool
  deriving DecidableEq, Repr

/-- The results of `cbmdos_command_parse_plus` in this mode other than a command. -/
inductive ParseError
  | noName | inval
  deriving DecidableEq, Repr

section
variable (full : Bytes)

/-- `*p` -/
def byteAt (p : Nat) : UInt8 := full.getD p 0

/-- `memchr(p, c, limit - p)` -/
def memchr (c : UInt8) (p : Nat) : Option Nat :=
  let before := (full.drop p).takeWhile (· ≠ c)
  if p + before.length < full.length then some (p + before.length) else none

/-- The first index from `p` on that does not satisfy `ok`. -/
def skipWhile (ok : UInt8 → Bool) (p : Nat) : Nat := p + ((full.drop p).takeWhile ok).length

def isDigit (c : UInt8) : Bool := 0x30 ≤ c ∧ c ≤ 0x39

/-- A letter, shifted or not. -/
def isLetter (c : UInt8) : Bool := (0x41 ≤ c ∧ c ≤ 0x5a) ∨ (0xc1 ≤ c ∧ c ≤ 0xda)

/-- What a command ends with; `special` is a user command. -/
def isDelimiter (special : Bool) (c : UInt8) : Bool :=
  c = 0x3a ∨ c = 0x20 ∨ c = 29 ∨ (special = false ∧ (c = 0x2f ∨ isDigit c))

/-- mirrors src/cbmdos.c:586-649: the loop over the words of a command that starts at 0, with the
abbreviation so far. `none` is the command `C` with a shifted `P`, which is not looked at any further. -/
def scanCommand (special : Bool) : Nat → Nat → Bytes → Option (Nat × Bytes)
  | 0, p, temp => some (p, temp)
  | fuel + 1, p, temp =>
    if p ≥ full.length then some (p, temp)
    else
      let temp := temp ++ [byteAt full p]
      let p := p + 1
      if p ≥ full.length ∨ byteAt full 0 < 0x41 then some (p, temp)
      else if byteAt full 0 = 0x43 ∧ (byteAt full p = 0x50 ∨ byteAt full p = 0x44) then some (p + 1, temp)
      else if byteAt full 0 = 0x43 ∧ byteAt full p = 0xd0 then none
      else if byteAt full 0 = 0x4d ∧ byteAt full p = 0x44 then some (p + 1, temp)
      else
        let p := if special then p else skipWhile full isLetter p
        if p ≥ full.length ∨ isDelimiter special (byteAt full p) then some (p, temp)
        else
          let temp := temp ++ [byteAt full p]
          let p := p + 1
          if p ≥ full.length ∨ isDelimiter special (byteAt full p) then some (p, temp)
          else scanCommand special fuel p temp

/-- mirrors src/cbmdos.c:665-675: digits that would make the number 256 or more are skipped. -/
def driveNumber (digits : Bytes) : Nat :=
  digits.foldl (fun drive c =>
    let i := drive * 10 + (c.toNat - 0x30)
    if i < 256 then i else drive) 0

/-- mirrors src/cbmdos.c:717-728: where the file name that starts at `p1` ends. -/
def nameEnd (p1 : Nat) : Nat :=
  match memchr full 0x3d p1, memchr full 0x2c p1 with
  | some p, some p2 => min p p2
  | some p, none => p
  | none, some p2 => p2
  | none, none => full.length

/-- mirrors src/cbmdos.c:659-741: what is behind the command, from `p` on; `colon` is where the first
colon is. -/
def parseTail (cmd : Cmd) (colon : Option Nat) (p : Nat) : Cmd :=
  let p := skipWhile full (fun c => c = 0x20 ∨ c = 29) p
  let before := match colon with
    | none => 0
    | some colon => colon - p
  let digits := ((full.drop p).take before).takeWhile isDigit
  let p := skipWhile full (· = 0x20) (p + digits.length)
  let path := match colon with
    | none => []
    | some colon => (full.drop p).take (colon - p)
  let p := p + path.length
  let p := if byteAt full p = 0x3a then p + 1 else p
  { cmd with
    drive := driveNumber digits
    path := path
    file := some ((full.drop p).take (nameEnd full p - p))
    more := full.drop (nameEnd full p) }

/-- mirrors src/cbmdos.c:350-380 and 512-747 (`cbmdos_command_parse_plus`) for commands. -/
def cbmdosCommandParsePlus : Except ParseError Cmd :=
  let cmd : Cmd := ⟨[], [], 0, [], none, [], false⟩
  if full = [] then .error .noName
  else
    let c := byteAt full 0
    let next := byteAt full 1
    if (c = 0x55 ∨ c = 0x4d) ∧ full.length < 2 then .error .inval
    else if c = 0x50 ∨ (c = 0x55 ∧ ¬ (next = 0x31 ∨ next = 0x41 ∨ next = 0x32 ∨ next = 0x42)) ∨
        (c = 0x4d ∧ next ≠ 0x44) then .ok { cmd with command := full }
    else
      let colon := memchr full 0x3a 0
      let cmd := { cmd with colon := colon.isSome }
      let special : Bool := c = 0x55
      let scanned := if isDigit c then some (0, []) else scanCommand full special full.length 0 []
      match scanned with
      | none => .ok { cmd with command := (full ++ [0]).take 3 }
      | some (p, temp) =>
        let cmd := { cmd with command := full.take p, abbrv := temp }
        if p ≥ full.length then .ok cmd else .ok (parseTail full cmd colon p)

variable {full} {p q : Nat} {c : UInt8}

/-- What stops a scan. -/
theorem takeWhile_stop {l : Bytes} (h : (l.takeWhile (· ≠ c)).length < l.length) :
    l[(l.takeWhile (· ≠ c)).length]? = some c := by
  induction l with
  | nil => exact absurd h (Nat.lt_irrefl _)
  | cons b l ih =>
    by_cases hb : b = c
    · rw [List.takeWhile_cons_of_neg (by simpa using hb), hb]
      rfl
    · rw [List.takeWhile_cons_of_pos (by simpa using hb)] at h ⊢
      exact ih (Nat.lt_of_succ_lt_succ h)

/-- What is scanned has no `c`. -/
theorem take_takeWhile (l : Bytes) : ∀ b ∈ l.take (l.takeWhile (· ≠ c)).length, b ≠ c := by
  intro b hb
  rw [← List.prefix_iff_eq_take.mp (List.takeWhile_prefix _)] at hb
  simpa using List.mem_takeWhile_imp hb

theorem memchr_some (h : memchr full c p = some q) :
    p ≤ q ∧ q < full.length ∧ full[q]? = some c ∧ ∀ b ∈ (full.drop p).take (q - p), b ≠ c := by
  unfold memchr at h
  dsimp only at h
  split at h
  · rename_i hlt
    cases h
    refine ⟨Nat.le_add_right _ _, hlt, ?_, ?_⟩
    · rw [← List.getElem?_drop]
      exact takeWhile_stop (by rw [List.length_drop]; omega)
    · rw [Nat.add_sub_cancel_left]
      exact take_takeWhile _
  · cases h

theorem memchr_none (h : memchr full c p = none) : ∀ b ∈ full.drop p, b ≠ c := by
  unfold memchr at h
  dsimp only at h
  split at h
  · cases h
  · rename_i hge
    have hall : ((full.drop p).takeWhile (· ≠ c)).length = (full.drop p).length := by
      have := (List.takeWhile_prefix (· ≠ c) (l := full.drop p)).length_le
      rw [List.length_drop] at this ⊢
      omega
    have := take_takeWhile (c := c) (full.drop p)
    rwa [hall, List.take_length] at this

theorem mem_take_of_le {l : Bytes} {m n : Nat} (hmn : m ≤ n) {b : UInt8} (h : b ∈ l.take m) : b ∈ l.take n := by
  have htake : l.take m = (l.take n).take m := by rw [List.take_take, Nat.min_eq_left hmn]
  rw [htake] at h
  exact List.mem_of_mem_take h

/-- A name ends at the first `=` or `,`, or with the string. -/
theorem nameEnd_ok (full : Bytes) (p : Nat) :
    (∀ b ∈ (full.drop p).take (nameEnd full p - p), b ≠ 0x3d ∧ b ≠ 0x2c) ∧
      (nameEnd full p = full.length ∨ p ≤ nameEnd full p ∧
        (full[nameEnd full p]? = some 0x3d ∨ full[nameEnd full p]? = some 0x2c)) := by
  unfold nameEnd
  cases heq : memchr full 0x3d p with
  | none =>
    have hnone := memchr_none heq
    cases hcomma : memchr full 0x2c p with
    | none =>
      have hnone' := memchr_none hcomma
      exact ⟨fun b hb => ⟨hnone b (List.mem_of_mem_take hb), hnone' b (List.mem_of_mem_take hb)⟩,
        Or.inl rfl⟩
    | some q =>
      obtain ⟨hle, -, hat, hbefore⟩ := memchr_some hcomma
      exact ⟨fun b hb => ⟨hnone b (List.mem_of_mem_take hb), hbefore b hb⟩, Or.inr ⟨hle, Or.inr hat⟩⟩
  | some q =>
    obtain ⟨hle, -, hat, hbefore⟩ := memchr_some heq
    cases hcomma : memchr full 0x2c p with
    | none =>
      have hnone' := memchr_none hcomma
      exact ⟨fun b hb => ⟨hbefore b hb, hnone' b (List.mem_of_mem_take hb)⟩, Or.inr ⟨hle, Or.inl hat⟩⟩
    | some q' =>
      obtain ⟨hle', -, hat', hbefore'⟩ := memchr_some hcomma
      dsimp only
      rcases Nat.le_total q q' with hqq | hqq
      · rw [Nat.min_eq_left hqq]
        exact ⟨fun b hb => ⟨hbefore b hb, hbefore' b (mem_take_of_le (by omega) hb)⟩,
          Or.inr ⟨hle, Or.inl hat⟩⟩
      · rw [Nat.min_eq_right hqq]
        exact ⟨fun b hb => ⟨hbefore b (mem_take_of_le (by omega) hb), hbefore' b hb⟩,
          Or.inr ⟨hle', Or.inr hat'⟩⟩

/-- mirrors src/cbmdos.c:715-741: the string ends with the file name and the rest. -/
theorem parseTail_parts (full : Bytes) (cmd : Cmd) (colon : Option Nat) (p : Nat) :
    ∃ name, (parseTail full cmd colon p).file = some name ∧
      name ++ (parseTail full cmd colon p).more <:+ full ∧ (∀ b ∈ name, b ≠ 0x3d ∧ b ≠ 0x2c) ∧
      ∀ b ∈ (parseTail full cmd colon p).more.head?, b = 0x3d ∨ b = 0x2c := by
  unfold parseTail
  dsimp only
  generalize (if byteAt full _ = 0x3a then _ else _ : Nat) = p1
  obtain ⟨hname, hend⟩ := nameEnd_ok full p1
  refine ⟨_, rfl, ?_, hname, ?_⟩
  · rcases hend with hlen | ⟨hle, -⟩
    · rw [hlen, List.drop_length, List.append_nil,
        List.take_of_length_le (by rw [List.length_drop])]
      exact List.drop_suffix _ _
    · have hsplit : (full.drop p1).take (nameEnd full p1 - p1) ++ full.drop (nameEnd full p1) =
          full.drop p1 := by
        have h := List.take_append_drop (nameEnd full p1 - p1) (full.drop p1)
        rwa [List.drop_drop, Nat.add_sub_cancel' hle] at h
      rw [hsplit]
      exact List.drop_suffix _ _
  · intro b hb
    rw [List.head?_drop] at hb
    rcases hend with hlen | ⟨-, hat | hat⟩
    · rw [hlen, List.getElem?_eq_none (Nat.le_refl _)] at hb
      cases hb
    · rw [hat] at hb
      cases hb
      exact Or.inl rfl
    · rw [hat] at hb
      cases hb
      exact Or.inr rfl

end

end Vice.L3.CommandParse
