import Mathlib.Data.List.Basic

/-!
# CBM tape blocks (`tap.c`)

A tape image is a list of pulse lengths. A byte is a long and a middle pulse, eight bits of two
pulses each and a parity bit; a block is a pilot of short pulses, a countdown of nine bytes that
also tells which copy it is, the bytes and an end marker. Every block is recorded twice, and
`tap_cbm_read_block` takes the bytes it could not read from the second copy.

The list holds what successive calls of `tap_get_pulse` return; a file position is what is left of
it. The array `error_buf` is not initialised: what it holds, and what stands behind it in memory,
is a parameter.
-/
namespace Vice.L4.TapBlock

/-- `tap_pulse_short_min` to `tap_pulse_long_max`, in the order every machine has them. -/
structure PulseRanges where
  shortMin : Nat
  shortMax : Nat
  middleMin : Nat
  middleMax : Nat
  longMin : Nat
  longMax : Nat
  short_lt_middle : shortMax < middleMin
  middle_le : middleMin ≤ middleMax
  middle_lt_long : middleMax < longMin

/-- The values before `tap_init`; mirrors src/tape/tap.c:72-77 -/
def defaultRanges : PulseRanges where
  shortMin := 0x24
  shortMax := 0x36
  middleMin := 0x37
  middleMax := 0x49
  longMin := 0x4a
  longMax := 0x64
  short_lt_middle := by decide
  middle_le := by decide
  middle_lt_long := by decide

variable (r : PulseRanges)

/-- `TAP_PULSE_SHORT` -/
def PulseRanges.short (p : Nat) : Bool := r.shortMin ≤ p && p ≤ r.shortMax

/-- `TAP_PULSE_MIDDLE` -/
def PulseRanges.middle (p : Nat) : Bool := r.middleMin ≤ p && p ≤ r.middleMax

/-- `TAP_PULSE_LONG` -/
def PulseRanges.long (p : Nat) : Bool := r.longMin ≤ p && p ≤ r.longMax

/-! ## Bits and bytes -/

/-- What `tap_cbm_read_bit` returns: -1, -2, or the bit. -/
inductive BitRead where
  | tapeEnd | error | bit (b : Bool)
  deriving DecidableEq, Repr

/-- What `tap_cbm_read_byte` returns: -1, -2, -3, or the byte. -/
inductive ByteRead where
  | tapeEnd | error | blockEnd | byte (b : UInt8)
  deriving DecidableEq, Repr

/-- A long pulse counts as a middle one here. mirrors src/tape/tap.c:462-485 -/
def readBit : List Nat → BitRead × List Nat
  | pulse1 :: pulse2 :: tape =>
    (if r.short pulse1 && (r.middle pulse2 || r.long pulse2) then .bit false
      else if (r.middle pulse1 || r.long pulse1) && r.short pulse2 then .bit true
      else .error, tape)
  | _ => (.tapeEnd, [])

/-- The loop over the bits, with `read` and `parity`; mirrors src/tape/tap.c:510-521 -/
def readBits : Nat → UInt8 → Bool → List Nat → Except ByteRead (UInt8 × Bool) × List Nat
  | 0, read, parity, tape => (.ok (read, parity), tape)
  | n + 1, read, parity, tape =>
    match readBit r tape with
    | (.tapeEnd, tape) => (.error .tapeEnd, tape)
    | (.error, tape) => (.error .error, tape)
    | (.bit b, tape) => readBits n (read >>> 1 ||| if b then 0x80 else 0) (parity ^^ b) tape

/-- mirrors src/tape/tap.c:523-532 -/
def checkParity : Except ByteRead (UInt8 × Bool) × List Nat → ByteRead × List Nat
  | (.error e, tape) => (e, tape)
  | (.ok (read, parity), tape) =>
    match readBit r tape with
    | (.tapeEnd, tape) => (.tapeEnd, tape)
    | (.error, tape) => (.error, tape)
    | (.bit b, tape) => (if b != parity then .error else .byte read, tape)

/-- A byte that does not begin with a long pulse counts as the end of the tape.
mirrors src/tape/tap.c:488-533 -/
def readByte : List Nat → ByteRead × List Nat
  | [] => (.tapeEnd, [])
  | p :: tape =>
    if !r.long p then (.tapeEnd, tape)
    else
      match tape with
      | [] => (.tapeEnd, [])
      | q :: tape =>
        if r.short q then (.blockEnd, tape)
        else if r.long q then (.error, tape)
        else checkParity r (readBits r 8 0 true tape)

/-! ## Pilots -/

/-- True unless the tape ended. After more than 50 bytes that cannot be read it gives up where it
is. mirrors src/tape/tap.c:535-583 -/
def skipPilot : Nat → List Nat → Bool × List Nat
  | _, [] => (false, [])
  | errors, p :: tape =>
    if r.long p then
      match readByte r (p :: tape) with
      | (.tapeEnd, rest) => (false, rest)
      | (.byte _, _) => (true, p :: tape)
      | (_, rest) => if 50 < errors + 1 then (true, rest) else skipPilot (errors + 1) tape
    else if r.short p then skipPilot errors tape
    else (true, tape)

/-- `PILOT_MIN_LENGTH_CBM` -/
def pilotMinLength : Nat := 32

/-- The search for a CBM pilot: the position of the first 32 short pulses in a row.
mirrors src/tape/tap.c:1243-1416 -/
def findPilot : (start : List Nat) → (count : Nat) → List Nat → Option (List Nat)
  | start, count, [] => if pilotMinLength ≤ count then some start else none
  | start, count, p :: tape =>
    if pilotMinLength ≤ count then some start
    else if r.short p then findPilot start (count + 1) tape
    else findPilot tape 0 tape

/-! ## Blocks -/

/-- What the reading of a block returns: 0 and -1 to -7. -/
inductive BlockRead where
  | ok | tapeEnd | sync | longBlock | tooManyErrors | doubleError | checksum
  deriving DecidableEq, Repr

/-- `MAX_ERRORS` -/
def maxErrors : Nat := 30

/-- What the two passes share. -/
structure Block where
  pass : Nat
  buffer : List UInt8
  size : Nat
  errorBuf : Nat → Int
  errorCount : Int

/-- The sync countdown and the copy it stands for; a byte that was not read is no countdown either.
mirrors src/tape/tap.c:640-661 -/
def readCountdown : Nat → Option Nat → List Nat → Except BlockRead (Option Nat) × List Nat
  | 0, found, tape => (.ok found, tape)
  | count + 1, found, tape =>
    match readByte r tape with
    | (.tapeEnd, tape) => (.error .tapeEnd, tape)
    | (.byte data, tape) =>
      if count + 1 ≠ (data &&& 0x7f).toNat then (.error .sync, tape)
      else
        match found with
        | none => readCountdown count (some (if data &&& 0x80 ≠ 0 then 1 else 2)) tape
        | some pass =>
          if (pass = 1 ∧ data &&& 0x80 = 0) ∨ (pass = 2 ∧ data &&& 0x80 ≠ 0) then
            (.error .sync, tape)
          else readCountdown count (some pass) tape
    | (_, tape) => (.error .sync, tape)

/-- `while (ecount < *error_count && error_buf[ecount] < count) ecount++`, at most `n` times -/
def skipErrors (s : Block) (count : Nat) : Nat → Nat → Nat
  | 0, ecount => ecount
  | n + 1, ecount =>
    if ecount < s.errorCount ∧ s.errorBuf ecount < count then skipErrors s count n (ecount + 1)
    else ecount

/-- `error_buf[(*error_count)++] = count` -/
def Block.addError (s : Block) (count : Nat) : Block :=
  { s with
    errorBuf := fun i => if i = s.errorCount then count else s.errorBuf i
    errorCount := s.errorCount + 1 }

/-- The loop over the bytes of a block; every call reads a pulse at least, so `fuel` is the length
of the tape and one more. mirrors src/tape/tap.c:671-721 -/
def readData (c16 : Bool) : Nat → Block → (count ecount : Nat) → List Nat →
    (BlockRead × Block) × List Nat
  | 0, s, _, _, tape => ((.tapeEnd, s), tape)
  | fuel + 1, s, count, ecount, tape =>
    match readByte r tape with
    | (.tapeEnd, tape) => ((.tapeEnd, s), tape)
    | (.error, tape) =>
      if s.pass = 1 then
        if s.errorCount < maxErrors then readData c16 fuel (s.addError count) (count + 1) ecount tape
        else ((.tooManyErrors, s), tape)
      else
        let ecount := skipErrors s count s.errorCount.toNat ecount
        if s.errorCount < 0 ∨ s.errorBuf ecount = count then ((.doubleError, s), tape)
        else readData c16 fuel s (count + 1) ecount tape
    | (.blockEnd, tape) => ((.ok, { s with size := count }), tape)
    | (.byte data, tape) =>
      if count < s.size then
        let s := { s with buffer := s.buffer.set count data }
        if c16 && count + 1 == s.size then ((.ok, s), tape)
        else readData c16 fuel s (count + 1) ecount tape
      else ((.longBlock, s), tape)

/-- mirrors src/tape/tap.c:623-722 -/
def readBlockOnce (c16 : Bool) (s : Block) (tape : List Nat) : (BlockRead × Block) × List Nat :=
  match skipPilot r 0 tape with
  | (false, tape) => ((.tapeEnd, s), tape)
  | (true, tape) =>
    match readCountdown r 9 none tape with
    | (.error e, tape) => ((e, s), tape)
    | (.ok found, tape) =>
      let pass := found.getD 0
      let s := { s with pass := pass, errorCount := if pass = 1 then 0 else s.errorCount }
      readData r c16 (tape.length + 1) s 0 0 tape

/-- `parity ^= buffer[i]` over the bytes -/
def xorAll (bytes : List UInt8) : UInt8 := bytes.foldl (· ^^^ ·) 0

/-- After a first copy without errors the pilot of the repeat is skipped. -/
def skipRepeat (tape : List Nat) : BlockRead × List Nat :=
  match findPilot r tape 0 tape with
  | none => (.tapeEnd, [])
  | some tape => (if (skipPilot r 0 tape).1 then .ok else .tapeEnd, (skipPilot r 0 tape).2)

/-- The loop over the passes; `pass` is set by the countdown that was found. A second round needs a
further pilot, so `fuel` is the length of the tape and one more.
mirrors src/tape/tap.c:736-789 -/
def readPasses (c16 : Bool) : Nat → Block → List Nat → (BlockRead × Block) × List Nat
  | 0, s, tape => ((.tapeEnd, s), tape)
  | fuel + 1, s, tape =>
    match readBlockOnce r c16 s tape with
    | ((ret, s), tape) =>
      if ret = .ok ∧ s.errorCount = 0 then
        let next := if s.pass = 1 then skipRepeat r tape else (.ok, tape)
        ((if xorAll (s.buffer.take s.size) ≠ 0 then .checksum else next.1, s), next.2)
      else if ret = .tapeEnd then ((ret, s), tape)
      else
        let s := if ret ≠ .ok then { s with errorCount := -1 } else s
        if s.pass < 2 then
          match findPilot r tape 0 tape with
          | none => ((.tapeEnd, s), [])
          | some tape => readPasses c16 fuel { s with pass := s.pass + 1 } tape
        else ((ret, s), tape)

/-- mirrors src/tape/tap.c:725-796 -/
def readBlock (c16 : Bool) (errorBuf : Nat → Int) (buffer : List UInt8) (size : Nat)
    (tape : List Nat) : (BlockRead × Block) × List Nat :=
  readPasses r c16 (tape.length + 1)
    { pass := 1, buffer := buffer, size := size, errorBuf := errorBuf, errorCount := -1 } tape

end Vice.L4.TapBlock
