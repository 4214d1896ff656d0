import Mathlib.Algebra.GroupWithZero.Nat
import Mathlib.Data.UInt
import Vice.L5Monitor.BinaryReceive

/-!
# The framing of the binary monitor

A command is `STX`, the API version, the length of the body in four bytes, a request id, a
type and the body. The length is the client's, and the sizes computed from it are 32 bits
wide.

Results:
* `iterate_spec`: one round of the loop against the concatenated stream.
* `session_frames`: the commands handed over in any calls are the frames of the stream.
* `wide_overrun`, `widest_stale`: lengths near 2^32.
-/
namespace Vice.L5.BinaryFrame
open Vice.L0.Bytes Vice.L5.BinaryReceive

def ascStx : UInt8 := 0x02

/-- mirrors src/monitor/monitor_binary.c:350-352 -/
def littleEndianToUint32 (input : Memory) (i : Nat) : UInt32 :=
  ((input (i + 3)).toUInt32 <<< 24) + ((input (i + 2)).toUInt32 <<< 16) +
    ((input (i + 1)).toUInt32 <<< 8) + (input i).toUInt32

/-- `body` points into the buffer.
mirrors src/monitor/monitor_binary.c:219-227 (`binary_command_s`) -/
structure BinaryCommand where
  requestId : UInt32
  length : UInt32
  body : Memory
  apiVersion : UInt8
  type : UInt8

/-- mirrors src/monitor/monitor_binary.c:1931-1951 (`monitor_binary_process_command`): how it reads
the buffer. -/
def readCommand (pbuffer : Memory) : BinaryCommand where
  apiVersion := pbuffer 1
  requestId := littleEndianToUint32 pbuffer 6
  length := littleEndianToUint32 pbuffer 2
  type := pbuffer 10
  body := fun i => pbuffer (11 + i)

inductive Received
  | closed
  | skipped
  | command (c : BinaryCommand)

/-- The part of the loop behind the length: the buffer grows and takes the rest. -/
def receiveCommand (r : Receiver) : Receiver × Received :=
  let bodyLength := littleEndianToUint32 r.buffer 2
  let remainingHeaderSize : UInt32 := 5
  let commandSize : UInt32 := 1 + 4 + remainingHeaderSize + bodyLength + 1
  let size := (commandSize + 1).toNat
  let r := if r.bufferSize < size then { r with bufferSize := size } else r
  let (r, ok) := receiveAll r 6 (remainingHeaderSize + bodyLength).toNat 0
  if ok then (r, .command (readCommand r.buffer)) else (r, .closed)

/-- One round of the loop of `monitor_binary_get_command_line`.
mirrors src/monitor/monitor_binary.c:2089-2151 -/
def iterate (r : Receiver) : Receiver × Received :=
  let r := if r.bufferSize = 0 then { r with bufferSize := 300 } else r
  let (r, n) := monitorBinaryReceive r 0 1
  if n = 0 then (monitorBinaryQuit r, .closed)
  else if r.buffer 0 ≠ ascStx then (r, .skipped)
  else
    let (r, ok) := receiveAll r 1 (1 + 4) 0
    if ok then
      if 0x01 ≤ r.buffer 1 ∧ r.buffer 1 ≤ 0x02 then receiveCommand r else (r, .skipped)
    else (r, .closed)

/-- What the rest of the monitor decides: whether a command leaves the monitor, and what its handler
does to the buffer. -/
structure Host where
  exits : BinaryCommand → Bool
  handle : BinaryCommand → Memory → Memory

/-- One call, with the commands it handed to `monitor_binary_process_command`. `polls` are the
answers of `monitor_binary_data_available`.
mirrors src/monitor/monitor_binary.c:2084-2161 -/
def monitorBinaryGetCommandLine (host : Host) : List Bool → Receiver →
    Receiver × List BinaryCommand
  | [], r | false :: _, r => (r, [])
  | true :: polls, r =>
    match iterate r with
    | (r, .closed) => (r, [])
    | (r, .skipped) => monitorBinaryGetCommandLine host polls r
    | (r, .command c) =>
      let r := { r with buffer := Function.update (host.handle c r.buffer) 0 0 }
      if host.exits c then (r, [c])
      else
        let (r, cs) := monitorBinaryGetCommandLine host polls r
        (r, c :: cs)

/-- Any calls one after another. -/
def session (host : Host) : List (List Bool) → Receiver → Receiver × List BinaryCommand
  | [], r => (r, [])
  | polls :: calls, r =>
    let (r, cs) := monitorBinaryGetCommandLine host polls r
    let (r, ds) := session host calls r
    (r, cs ++ ds)

/-! ## The stream as a whole -/

/-- A command as the client sent it. -/
structure Frame where
  apiVersion : UInt8
  length : UInt32
  requestId : UInt32
  type : UInt8
  body : List UInt8
  deriving DecidableEq

def BinaryCommand.frame (c : BinaryCommand) : Frame :=
  ⟨c.apiVersion, c.length, c.requestId, c.type, load c.body 0 c.length.toNat⟩

def atStream (stream : List UInt8) : Memory := fun i => stream.getD i 0

/-- The length that a header at the front of the stream announces. -/
def announced (stream : List UInt8) : Option UInt32 :=
  if 6 ≤ stream.length ∧ atStream stream 0 = ascStx ∧ 0x01 ≤ atStream stream 1 ∧
      atStream stream 1 ≤ 0x02 then some (littleEndianToUint32 (atStream stream) 2)
  else none

/-- The next frame, or nothing if a byte or a header does not begin one, and what follows. -/
def nextFrame (stream : List UInt8) : Option (Option Frame × List UInt8) :=
  if stream.length = 0 then none
  else if atStream stream 0 ≠ ascStx then some (none, stream.drop 1)
  else if stream.length < 6 then none
  else match announced stream with
    | none => some (none, stream.drop 6)
    | some n =>
      if stream.length < 11 + n.toNat then none
      else some (some ⟨atStream stream 1, n, littleEndianToUint32 (atStream stream) 6,
        atStream stream 10, (stream.drop 11).take n.toNat⟩, stream.drop (11 + n.toNat))

theorem nextFrame_shorter {stream rest : List UInt8} {f : Option Frame}
    (h : nextFrame stream = some (f, rest)) : rest.length < stream.length := by
  unfold nextFrame at h
  split at h
  · cases h
  split at h
  · cases h
    rw [List.length_drop]
    omega
  split at h
  · cases h
  split at h
  · cases h
    rw [List.length_drop]
    omega
  · split at h
    · cases h
    · cases h
      rw [List.length_drop]
      omega

def frames (stream : List UInt8) : List Frame :=
  match _h : nextFrame stream with
  | none => []
  | some (f, rest) => f.toList ++ frames rest
termination_by stream.length
decreasing_by exact nextFrame_shorter _h

/-- What the framing leaves of a stream after some frames. -/
inductive Rest (stream : List UInt8) : List UInt8 → Prop
  | start : Rest stream stream
  | step {f : Option Frame} {rest rest' : List UInt8} : Rest stream rest →
      nextFrame rest = some (f, rest') → Rest stream rest'

/-- No header announces a length for which the buffer does not grow. -/
def Modest (stream : List UInt8) : Prop :=
  ∀ rest n, Rest stream rest → announced rest = some n → n.toNat < 2 ^ 32 - 12

/-! ## One round -/

section
variable {r s t : Receiver} {bytes stream rest : List UInt8} {f : Option Frame} {host : Host}

theorem littleEndianToUint32_congr {m m' : Memory} {i : Nat}
    (h : ∀ j < 4, m (i + j) = m' (i + j)) : littleEndianToUint32 m i = littleEndianToUint32 m' i := by
  have h0 := h 0 (by omega)
  rw [Nat.add_zero] at h0
  rw [littleEndianToUint32, littleEndianToUint32, h 3 (by omega), h 2 (by omega), h 1 (by omega), h0]

/-- What stands in the buffer is the front of the stream. -/
theorem took_buffer (h : Took r s 0 bytes) {i : Nat} (hi : i < bytes.length) :
    s.buffer i = atStream r.stream i := by
  have hat : store r.buffer 0 bytes (0 + i) = bytes[i] := store_inside hi
  rw [Nat.zero_add] at hat
  rw [h.buffer, hat, atStream, h.stream, List.getD_eq_getElem?_getD, List.getElem?_append_left hi,
    List.getElem?_eq_getElem hi, Option.getD_some]

/-- What the rounds keep. -/
structure Safe (r : Receiver) : Prop where
  overrun : r.overrun = false
  bufferSize : r.bufferSize = 0 ∨ 300 ≤ r.bufferSize

/-- How a round ends. -/
def Ends (t : Receiver) (got : Received) : Option (Option Frame × List UInt8) → Prop
  | none => got = .closed ∧ t.connected = false ∧ t.stream = []
  | some (none, rest) => got = .skipped ∧ Flows t ∧ t.stream = rest
  | some (some f, rest) => ∃ c, got = .command c ∧ c.frame = f ∧ Flows t ∧ t.stream = rest

theorem readCommand_frame (h : Took r s 0 bytes)
    (hlen : bytes.length = 11 + (littleEndianToUint32 (atStream r.stream) 2).toNat) :
    (readCommand s.buffer).frame = ⟨atStream r.stream 1,
      littleEndianToUint32 (atStream r.stream) 2, littleEndianToUint32 (atStream r.stream) 6,
      atStream r.stream 10,
      (r.stream.drop 11).take (littleEndianToUint32 (atStream r.stream) 2).toNat⟩ := by
  have hat : ∀ {i}, i < 11 → s.buffer i = atStream r.stream i :=
    fun hi => took_buffer h (by omega)
  have hlength : littleEndianToUint32 s.buffer 2 = littleEndianToUint32 (atStream r.stream) 2 :=
    littleEndianToUint32_congr fun j hj => hat (by omega)
  have hbody : load (fun i => s.buffer (11 + i)) 0
      (littleEndianToUint32 (atStream r.stream) 2).toNat =
      (r.stream.drop 11).take (littleEndianToUint32 (atStream r.stream) 2).toNat := by
    generalize (littleEndianToUint32 (atStream r.stream) 2).toNat = n at hlen ⊢
    have hload : load (store r.buffer 0 bytes) (0 + 11) n = (bytes.drop 11).take n :=
      load_store (by omega)
    rw [← h.buffer] at hload
    rw [h.stream]
    rw [List.drop_append_of_le_length (by omega), List.take_append_of_le_length
      (by rw [List.length_drop]; omega), ← hload]
    simp [load]
  simp only [BinaryCommand.frame, readCommand, hlength, hat (show 1 < 11 by omega),
    hat (show 10 < 11 by omega), hbody, Frame.mk.injEq, and_true, true_and]
  exact littleEndianToUint32_congr fun j hj => hat (by omega)

theorem Took.safe {off : Nat} (h : Took r s off bytes) (hsafe : Safe r)
    (hroom : off + bytes.length ≤ r.bufferSize) : Safe s :=
  ⟨by rw [h.overrun, hsafe.overrun, overruns_fits hroom, Bool.or_false],
    by rw [h.bufferSize]; exact hsafe.bufferSize⟩

theorem Ended.safe {off len : Nat} (h : Ended r s off len) (hsafe : Safe r)
    (hroom : off + len ≤ r.bufferSize) : Safe s :=
  have hfits : off + r.stream.length ≤ r.bufferSize := by
    have := h.short
    omega
  ⟨by rw [h.overrun, hsafe.overrun, overruns_fits hfits, Bool.or_false],
    by rw [h.bufferSize]; exact hsafe.bufferSize⟩

theorem commandSize_toNat (n : UInt32) : (1 + 4 + 5 + n + 1 + 1 : UInt32).toNat = (n.toNat + 12) % 2 ^ 32 ∧
      (5 + n).toNat = (n.toNat + 5) % 2 ^ 32 := by
  have hsum : (1 + 4 + 5 : UInt32).toNat = 10 := rfl
  have hfive : (5 : UInt32).toNat = 5 := rfl
  have hone : (1 : UInt32).toNat = 1 := rfl
  constructor
  · rw [UInt32.toNat_add, UInt32.toNat_add, UInt32.toNat_add, hsum, hone]
    omega
  · rw [UInt32.toNat_add, hfive]
    omega

/-- Below `2^32 - 12` no size wraps around. -/
theorem receiveCommand_spec (hsafe : Safe r) (h : Took r s 0 bytes) (hlen : bytes.length = 6)
    (hr : 300 ≤ r.bufferSize) {n : UInt32}
    (hn : littleEndianToUint32 (atStream r.stream) 2 = n) (hmax : n.toNat < 2 ^ 32 - 12) :
    Safe (receiveCommand s).1 ∧ Ends (receiveCommand s).1 (receiveCommand s).2
      (if r.stream.length < 11 + n.toNat then none
      else some (some ⟨atStream r.stream 1, n, littleEndianToUint32 (atStream r.stream) 6,
        atStream r.stream 10, (r.stream.drop 11).take n.toNat⟩, r.stream.drop (11 + n.toNat))) := by
  obtain ⟨hsize, hrest⟩ := commandSize_toNat n
  rw [Nat.mod_eq_of_lt (by omega)] at hsize hrest
  have hheader : littleEndianToUint32 s.buffer 2 = n :=
    (littleEndianToUint32_congr fun j hj => took_buffer h (by omega)).trans hn
  unfold receiveCommand
  simp only [hheader, hsize, hrest, h.bufferSize]
  -- the buffer has room for the whole command
  obtain ⟨size, hgrown, hsize, hroom⟩ : ∃ size, (if r.bufferSize < n.toNat + 12 then
      { s with bufferSize := n.toNat + 12 } else s) = { s with bufferSize := size } ∧
      r.bufferSize ≤ size ∧ n.toNat + 12 ≤ size := by
    split
    · exact ⟨_, rfl, by omega, Nat.le_refl _⟩
    · exact ⟨s.bufferSize, rfl, Nat.le_of_eq h.bufferSize.symm, by rw [h.bufferSize]; omega⟩
  rw [hgrown]
  have hbegin := h.grow (by omega) hsize
  have hsafe' : Safe { r with bufferSize := size } :=
    ⟨hsafe.overrun, .inr (Nat.le_trans hr hsize)⟩
  rcases receiveAll_spec hbegin.flows 6 (n.toNat + 5) with
    ⟨more, htook, hmore, hok⟩ | ⟨hended, hok⟩
  · have hall := hbegin.append (by rw [hlen]; exact htook)
    have hlong : (bytes ++ more).length = 11 + n.toNat := by
      rw [List.length_append]
      omega
    have hstream : r.stream = (bytes ++ more) ++ _ := hall.stream
    simp only [hok, ↓reduceIte]
    rw [if_neg (by rw [hstream, List.length_append]; omega)]
    refine ⟨Took.safe hall hsafe' (by dsimp only; omega), _, rfl, ?_, hall.flows, ?_⟩
    · have hframe := readCommand_frame hall
      simp only [Receiver.stream] at hframe hn ⊢
      rw [hn] at hframe
      exact hframe hlong
    · rw [hstream, ← hlong, List.drop_left]
  · have hend := hbegin.ended (by rw [hlen]; exact hended)
    have hshort : r.stream.length < bytes.length + (n.toNat + 5) := hend.short
    simp only [hok, Bool.false_eq_true, ↓reduceIte]
    rw [if_pos (by omega)]
    refine ⟨Ended.safe hend hsafe' (by dsimp only; omega), rfl, hend.closed, ?_⟩
    rw [Receiver.stream, hend.chunks, List.flatten_nil]

/-- Behind a header that announces a length comes `receiveCommand`. -/
theorem iterate_header (h : Flows r) (hr : r.bufferSize ≠ 0) {n : UInt32} (hann : announced r.stream = some n) :
    ∃ s bytes, Took r s 0 bytes ∧ bytes.length = 6 ∧ iterate r = receiveCommand s := by
  unfold announced at hann
  split at hann
  · next hheader =>
    obtain ⟨hlen, hstx, hapi⟩ := hheader
    rcases receive_spec h 0 1 with ⟨first, hfirst, hone, hn⟩ | ⟨hended, -⟩
    · rcases receiveAll_spec hfirst.flows 1 (1 + 4) with ⟨header, hheader, hfive, hok⟩ | ⟨hend, -⟩
      · have hsix := hfirst.append (by rw [hone]; exact hheader)
        have hlen6 : (first ++ header).length = 6 := by
          rw [List.length_append]
          omega
        refine ⟨_, _, hsix, hlen6, ?_⟩
        have hat0 : (monitorBinaryReceive r 0 1).1.buffer 0 = ascStx :=
          (took_buffer hfirst (by omega)).trans hstx
        have hat1 := took_buffer hsix (show 1 < (first ++ header).length by omega)
        unfold iterate
        simp only [hr, hn, Nat.one_ne_zero, ne_eq, hat0, not_true_eq_false, hok, hat1, hapi,
          and_self, ↓reduceIte]
      · have hshort := (hfirst.ended (by rw [hone]; exact hend)).short
        omega
    · have hshort := hended.short
      omega
  · cases hann

/-- The round on an allocated buffer. -/
theorem iterate_allocated (hsafe : Safe r) (h : Flows r) (hr : 300 ≤ r.bufferSize)
    (hmax : ∀ n, announced r.stream = some n → n.toNat < 2 ^ 32 - 12) :
    Safe (iterate r).1 ∧ Ends (iterate r).1 (iterate r).2 (nextFrame r.stream) := by
  cases hann : announced r.stream with
  | some n =>
    obtain ⟨s, bytes, htook, hlen, hround⟩ := iterate_header h (by omega) hann
    have hget := hann
    unfold announced at hget
    split at hget
    · next hheader =>
      cases hget
      have hspec := receiveCommand_spec hsafe htook hlen hr rfl (hmax _ hann)
      rw [hround]
      unfold nextFrame
      rw [if_neg (by omega), if_neg (not_not.mpr hheader.2.1), if_neg (by omega), hann]
      exact hspec
    · cases hget
  | none =>
    unfold iterate nextFrame
    simp only [show r.bufferSize ≠ 0 by omega, ↓reduceIte]
    rcases receive_spec h 0 1 with ⟨first, hfirst, hone, hn⟩ | ⟨hended, hn⟩
    · have hat : (monitorBinaryReceive r 0 1).1.buffer 0 = atStream r.stream 0 :=
        took_buffer hfirst (by omega)
      have hlen := congrArg List.length hfirst.stream
      rw [List.length_append, hone] at hlen
      simp only [hn, Nat.one_ne_zero, hat, ↓reduceIte, show r.stream.length ≠ 0 by omega]
      by_cases hstx : atStream r.stream 0 ≠ ascStx
      · rw [if_pos hstx, if_pos hstx]
        refine ⟨Took.safe hfirst hsafe (by omega), rfl, hfirst.flows, ?_⟩
        rw [hfirst.stream, ← hone, List.drop_left]
      rw [if_neg hstx, if_neg hstx]
      rcases receiveAll_spec hfirst.flows 1 (1 + 4) with ⟨header, hheader, hfive, hok⟩ | ⟨hend, hok⟩
      · have hsix := hfirst.append (by rw [hone]; exact hheader)
        have hlen6 : (first ++ header).length = 6 := by
          rw [List.length_append]
          omega
        have hlong := congrArg List.length hsix.stream
        rw [List.length_append, hlen6] at hlong
        have hapi : ¬ (0x01 ≤ atStream r.stream 1 ∧ atStream r.stream 1 ≤ 0x02) := fun hapi => by
          rw [announced, if_pos ⟨by omega, not_not.mp hstx, hapi⟩] at hann
          cases hann
        simp only [hok, ↓reduceIte, show ¬ r.stream.length < 6 by omega,
          took_buffer hsix (show 1 < (first ++ header).length by omega), hapi]
        rw [hann]
        refine ⟨Took.safe hsix hsafe (by omega), rfl, hsix.flows, ?_⟩
        rw [hsix.stream, ← hlen6, List.drop_left]
      · have hend' := hfirst.ended (by rw [hone]; exact hend)
        have hshort := hend'.short
        simp only [hok, Bool.false_eq_true, ↓reduceIte, show r.stream.length < 6 by omega]
        exact ⟨Ended.safe hend' hsafe (by omega), rfl, hend'.closed, by
          rw [Receiver.stream, hend'.chunks, List.flatten_nil]⟩
    · have hshort := hended.short
      simp only [show (monitorBinaryReceive r 0 1).2 = 0 by omega, ↓reduceIte,
        show r.stream.length = 0 by omega]
      exact ⟨Ended.safe hended.quit hsafe (by omega), rfl, rfl, rfl⟩

theorem iterate_spec (hsafe : Safe r) (h : Flows r)
    (hmax : ∀ n, announced r.stream = some n → n.toNat < 2 ^ 32 - 12) :
    Safe (iterate r).1 ∧ Ends (iterate r).1 (iterate r).2 (nextFrame r.stream) := by
  rcases hsafe.bufferSize with hzero | hr
  · have halloc : iterate r = iterate { r with bufferSize := 300 } := by
      unfold iterate
      simp only [hzero, ↓reduceIte, Nat.reduceEqDiff]
    rw [halloc]
    exact @iterate_allocated { r with bufferSize := 300 } ⟨hsafe.overrun, .inr (Nat.le_refl _)⟩
      ⟨h.connected, h.chunks⟩ (Nat.le_refl _) hmax
  · exact iterate_allocated hsafe h hr hmax

/-! ## Calls one after another -/

theorem frames_none (h : nextFrame stream = none) : frames stream = [] := by
  rw [frames]
  split
  · rfl
  · next heq => rw [h] at heq; cases heq

theorem frames_some (h : nextFrame stream = some (f, rest)) : frames stream = f.toList ++ frames rest := by
  rw [frames]
  split
  · next heq => rw [h] at heq; cases heq
  · next heq => rw [h] at heq; cases heq; rfl

theorem nextFrame_nil : nextFrame [] = none := rfl

theorem Rest.next (h : nextFrame stream = some (f, rest)) {rest' : List UInt8}
    (hr : Rest rest rest') : Rest stream rest' := by
  induction hr with
  | start => exact .step .start h
  | step _ hstep ih => exact .step ih hstep

theorem Modest.next (hm : Modest stream) (h : nextFrame stream = some (f, rest)) : Modest rest :=
  fun rest' n hrest hann => hm rest' n (hrest.next h) hann

/-- Whatever is left behind the first frame is left by what follows it. -/
theorem Rest.cases_first (h : nextFrame stream = some (f, rest)) {rest' : List UInt8}
    (hr : Rest stream rest') : rest' = stream ∨ Rest rest rest' := by
  induction hr with
  | start => exact .inl rfl
  | step _ hstep ih =>
    rcases ih with rfl | hrest
    · rw [h] at hstep
      cases hstep
      exact .inr .start
    · exact .inr (.step hrest hstep)

theorem rest_nil (h : Rest [] rest) : rest = [] := by
  induction h with
  | start => rfl
  | step _ hstep ih =>
    rw [ih, nextFrame_nil] at hstep
    cases hstep

theorem modest_nil : Modest [] := by
  intro rest n hrest hann
  rw [rest_nil hrest] at hann
  simp [announced] at hann

/-- A connection between two rounds. -/
structure Running (r : Receiver) : Prop where
  safe : Safe r
  flows : Flows r ∨ r.connected = false ∧ r.stream = []
  modest : Modest r.stream

theorem iterate_closed (hclosed : r.connected = false) :
    (iterate r).2 = .closed ∧ (iterate r).1.connected = false ∧ (iterate r).1.stream = [] ∧
      (Safe r → Safe (iterate r).1) := by
  have hnone : ∀ size, monitorBinaryReceive { r with bufferSize := size } 0 1 =
      ({ r with bufferSize := size }, 0) := by
    intro size
    rw [monitorBinaryReceive, if_neg (by simp [hclosed])]
  obtain ⟨size, hgrown, hsize⟩ : ∃ size, (if r.bufferSize = 0 then { r with bufferSize := 300 }
      else r) = { r with bufferSize := size } ∧ (Safe r → size = 0 ∨ 300 ≤ size) := by
    split
    · exact ⟨_, rfl, fun _ => .inr (Nat.le_refl _)⟩
    · exact ⟨_, rfl, fun hsafe => hsafe.bufferSize⟩
  have hround : iterate r = (monitorBinaryQuit { r with bufferSize := size }, .closed) := by
    unfold iterate
    rw [hgrown]
    simp only [hnone, ↓reduceIte]
  rw [hround]
  exact ⟨rfl, rfl, rfl, fun hsafe => ⟨hsafe.overrun, hsize hsafe⟩⟩

/-- A round hands over the frame at the front of the stream, if there is one. -/
theorem round_running (h : Running r) : Running (iterate r).1 ∧
    match (iterate r).2 with
    | .closed => (iterate r).1.stream = [] ∧ frames r.stream = []
    | .skipped => frames r.stream = frames (iterate r).1.stream
    | .command c => frames r.stream = c.frame :: frames (iterate r).1.stream := by
  rcases h.flows with hflows | ⟨hclosed, hnil⟩
  · obtain ⟨hsafe, hends⟩ := iterate_spec h.safe hflows fun n hann =>
      h.modest _ n .start hann
    generalize hnext : nextFrame r.stream = next at hends
    match next, hnext with
    | none, hnext =>
      obtain ⟨hgot, hclosed, hnil⟩ := hends
      rw [hgot]
      exact ⟨⟨hsafe, .inr ⟨hclosed, hnil⟩, hnil ▸ modest_nil⟩, hnil, frames_none hnext⟩
    | some (none, rest), hnext =>
      obtain ⟨hgot, hflows, hrest⟩ := hends
      rw [hgot]
      exact ⟨⟨hsafe, .inl hflows, hrest ▸ h.modest.next hnext⟩, by
        rw [frames_some hnext, hrest]; rfl⟩
    | some (some f, rest), hnext =>
      obtain ⟨c, hgot, hframe, hflows, hrest⟩ := hends
      rw [hgot]
      exact ⟨⟨hsafe, .inl hflows, hrest ▸ h.modest.next hnext⟩, by
        dsimp only
        rw [frames_some hnext, hrest, hframe]
        rfl⟩
  · obtain ⟨hgot, hclosed', hnil', hsafe⟩ := iterate_closed hclosed
    rw [hgot]
    exact ⟨⟨hsafe h.safe, .inr ⟨hclosed', hnil'⟩, hnil' ▸ modest_nil⟩, hnil', by
      rw [hnil, frames_none nextFrame_nil]⟩

theorem getCommandLine_running (host : Host) (polls : List Bool) (h : Running r) :
    Running (monitorBinaryGetCommandLine host polls r).1 ∧
    frames r.stream = (monitorBinaryGetCommandLine host polls r).2.map BinaryCommand.frame ++
      frames (monitorBinaryGetCommandLine host polls r).1.stream := by
  induction polls generalizing r with
  | nil => exact ⟨h, rfl⟩
  | cons poll polls ih =>
    cases poll with
    | false => exact ⟨h, rfl⟩
    | true =>
      have hround := round_running h
      unfold monitorBinaryGetCommandLine
      generalize iterate r = step at hround
      match step, hround with
      | (t, .closed), ⟨hrun, hnil, hframes⟩ =>
        dsimp only at hrun hnil ⊢
        rw [hframes, hnil, frames_none nextFrame_nil]
        exact ⟨hrun, rfl⟩
      | (t, .skipped), ⟨hrun, hframes⟩ =>
        dsimp only at hrun hframes ⊢
        rw [hframes]
        exact ih hrun
      | (t, .command c), ⟨hrun, hframes⟩ =>
        -- the handler may change the buffer, which the next command overwrites
        have hnext : Running { t with buffer := Function.update (host.handle c t.buffer) 0 0 } :=
          ⟨⟨hrun.safe.overrun, hrun.safe.bufferSize⟩,
            hrun.flows.imp (fun hf => ⟨hf.connected, hf.chunks⟩) id, hrun.modest⟩
        dsimp only at hframes ⊢
        split
        · exact ⟨hnext, hframes⟩
        · obtain ⟨hdone, hrest⟩ := ih hnext
          exact ⟨hdone, by rw [hframes, List.map_cons, List.cons_append, ← hrest]; rfl⟩

theorem session_running (host : Host) (calls : List (List Bool)) (h : Running r) :
    Running (session host calls r).1 ∧
    frames r.stream = (session host calls r).2.map BinaryCommand.frame ++
      frames (session host calls r).1.stream := by
  induction calls generalizing r with
  | nil => exact ⟨h, rfl⟩
  | cons polls calls ih =>
    obtain ⟨hcall, hframes⟩ := getCommandLine_running host polls h
    obtain ⟨hdone, hrest⟩ := ih hcall
    exact ⟨hdone, by rw [session, hframes, hrest, List.map_append, List.append_assoc]⟩

/-- In any calls on a stream whose lengths stay below `2^32 - 12`, nothing is written behind the
buffer, and the commands are the frames of the stream as a whole: those of what was read so far,
and all of them once the connection has ended. -/
theorem session_frames (host : Host) (calls : List (List Bool)) (hsafe : Safe r) (h : Flows r)
    (hm : Modest r.stream) :
    (session host calls r).1.overrun = false ∧
    frames r.stream = (session host calls r).2.map BinaryCommand.frame ++
      frames (session host calls r).1.stream ∧
    ((session host calls r).1.connected = false →
      (session host calls r).2.map BinaryCommand.frame = frames r.stream) := by
  obtain ⟨hdone, hframes⟩ := session_running host calls ⟨hsafe, .inl h, hm⟩
  refine ⟨hdone.safe.overrun, hframes, fun hclosed => ?_⟩
  have hnil : (session host calls r).1.stream = [] := by
    rcases hdone.flows with hf | ⟨-, hnil⟩
    · rw [hf.connected] at hclosed
      cases hclosed
    · exact hnil
  rw [hframes, hnil, frames_none nextFrame_nil, List.append_nil]

/-! ## Lengths near 2^32 -/

theorem announced_header {n : UInt32} (h : announced stream = some n) :
    6 ≤ stream.length ∧ littleEndianToUint32 (atStream stream) 2 = n := by
  unfold announced at h
  split at h
  · next hheader => exact ⟨hheader.1, Option.some.inj h⟩
  · cases h

/-- Here `command_size + 1` is at most 6, so the buffer does not grow, and the loop asks for the
whole length. -/
theorem wide_overrun (h : Flows r) (hr : 300 ≤ r.bufferSize) {n : UInt32}
    (hann : announced r.stream = some n) (hlo : 2 ^ 32 - 12 ≤ n.toNat) (hhi : n.toNat < 2 ^ 32 - 5)
    (hlong : r.bufferSize < r.stream.length) (hsize : r.bufferSize < n.toNat + 11) :
    (iterate r).1.overrun = true := by
  obtain ⟨s, bytes, htook, hlen, hround⟩ := iterate_header h (by omega) hann
  obtain ⟨-, hn⟩ := announced_header hann
  have hheader : littleEndianToUint32 s.buffer 2 = n :=
    (littleEndianToUint32_congr fun j hj => took_buffer htook (by omega)).trans hn
  obtain ⟨hwrap, hrest⟩ := commandSize_toNat n
  rw [Nat.mod_eq_of_lt (show n.toNat + 5 < 2 ^ 32 by omega)] at hrest
  have hsmall : ¬ r.bufferSize < (n.toNat + 12) % 2 ^ 32 := by omega
  have htotal := congrArg List.length htook.stream
  rw [List.length_append, hlen] at htotal
  have hover : (receiveAll s 6 (n.toNat + 5) 0).1.overrun = true := by
    rcases receiveAll_spec htook.flows 6 (n.toNat + 5) with ⟨more, hmore, hcount, -⟩ | ⟨hend, -⟩
    · rw [hmore.overrun, hcount, htook.bufferSize, Overruns, decide_eq_true (by omega), Bool.or_true]
    · rw [hend.overrun, htook.bufferSize, Overruns, decide_eq_true (by omega), Bool.or_true]
  rw [hround]
  unfold receiveCommand
  simp only [hheader, hwrap, hrest, htook.bufferSize, hsmall, ↓reduceIte]
  split <;> exact hover

/-- Here the loop asks for nothing at all: request id and type are what was in the buffer. -/
theorem widest_stale (h : Flows r) (hr : r.bufferSize ≠ 0)
    (hann : announced r.stream = some (0xFFFFFFFB : UInt32)) :
    ∃ t c, iterate r = (t, .command c) ∧ c.requestId = littleEndianToUint32 r.buffer 6 ∧
      c.type = r.buffer 10 := by
  obtain ⟨s, bytes, htook, hlen, hround⟩ := iterate_header h hr hann
  obtain ⟨-, hn⟩ := announced_header hann
  have hheader : littleEndianToUint32 s.buffer 2 = 0xFFFFFFFB :=
    (littleEndianToUint32_congr fun j hj => took_buffer htook (by omega)).trans hn
  have hstale : ∀ i, 6 ≤ i → s.buffer i = r.buffer i := fun i hi => by
    rw [htook.buffer, store_above (by omega)]
  have hnone : ∀ t : Receiver, receiveAll t 6 (5 + (0xFFFFFFFB : UInt32)).toNat 0 = (t, true) := by
    intro t
    rw [receiveAll, if_neg (by decide)]
  rw [hround]
  unfold receiveCommand
  simp only [hheader, hnone, ↓reduceIte]
  refine ⟨_, _, rfl, ?_, ?_⟩
  · exact (littleEndianToUint32_congr fun j hj => by split <;> exact hstale _ (by omega))
  · simp only [readCommand]
    split <;> exact hstale 10 (by omega)

theorem session_round (host : Host) (r : Receiver) :
    (session host [[true]] r).1.overrun = (iterate r).1.overrun ∧
      (session host [[true]] r).2 =
        match (iterate r).2 with
        | .command c => [c]
        | _ => [] := by
  simp only [session, monitorBinaryGetCommandLine]
  match iterate r with
  | (t, .closed) => exact ⟨rfl, rfl⟩
  | (t, .skipped) => exact ⟨rfl, rfl⟩
  | (t, .command c) =>
    dsimp only
    split <;> exact ⟨rfl, rfl⟩

end

/-- A client that sends its stream in these chunks, on a buffer of 300 bytes with leftover `x`. -/
def client (chunks : List (List UInt8)) (x : UInt8) : Receiver :=
  ⟨fun _ => x, 300, chunks, true, false⟩

def quietHost : Host := ⟨fun _ => false, fun _ m => m⟩

theorem client_safe (chunks : List (List UInt8)) (x : UInt8) : Safe (client chunks x) :=
  ⟨rfl, .inr (Nat.le_refl _)⟩

/-- The length `2^32 - 12` and 295 bytes. -/
def wide : Receiver := client [[2, 1, 0xF4, 0xFF, 0xFF, 0xFF], List.replicate 295 0] 0

/-- The length `2^32 - 5` and nothing, on a buffer with leftover `x`. -/
def widest (x : UInt8) : Receiver := client [[2, 1, 0xFB, 0xFF, 0xFF, 0xFF]] x

theorem framing_breaks : (Safe wide ∧ Flows wide ∧ (session quietHost [[true]] wide).1.overrun = true) ∧
    ∃ c d, (∀ x, Safe (widest x) ∧ Flows (widest x)) ∧ (widest 0).stream = (widest 1).stream ∧
      (session quietHost [[true]] (widest 0)).2 = [c] ∧
      (session quietHost [[true]] (widest 1)).2 = [d] ∧ c.frame ≠ d.frame := by
  have hwide : Flows wide := ⟨rfl, by decide⟩
  have hwidest : ∀ x, Flows (widest x) := fun x =>
    ⟨rfl, fun c hc => by rw [List.mem_singleton.mp hc]; decide⟩
  have hstale : ∀ x, announced (widest x).stream = some (0xFFFFFFFB : UInt32) := fun x => by
    show announced [2, 1, 0xFB, 0xFF, 0xFF, 0xFF] = _
    decide
  refine ⟨⟨client_safe _ _, hwide, ?_⟩, ?_⟩
  · rw [(session_round _ _).1]
    have hlen : wide.stream.length = 301 := by
      rw [show wide.stream = [2, 1, 0xF4, 0xFF, 0xFF, 0xFF] ++ (List.replicate 295 0 ++ []) from rfl,
        List.length_append, List.length_append, List.length_replicate]
      rfl
    have hann : announced wide.stream = some (0xFFFFFFF4 : UInt32) :=
      if_pos ⟨by omega, rfl, by decide, by decide⟩
    have hsize : wide.bufferSize = 300 := rfl
    exact wide_overrun hwide (Nat.le_refl _) hann (by decide) (by decide) (by omega) (by decide)
  · obtain ⟨t, c, hc, -, htype⟩ := widest_stale (hwidest 0) (by decide) (hstale 0)
    obtain ⟨u, d, hd, -, htype'⟩ := widest_stale (hwidest 1) (by decide) (hstale 1)
    refine ⟨c, d, fun x => ⟨client_safe _ _, hwidest x⟩, rfl, ?_, ?_, fun heq => ?_⟩
    · rw [(session_round _ _).2, hc]
    · rw [(session_round _ _).2, hd]
    · have hsame : c.type = d.type := congrArg Frame.type heq
      rw [htype, htype'] at hsame
      exact absurd hsame (by decide)

/-- A ping, cut inside the header. -/
def ping : Receiver := client [[2, 2, 0], [0, 0, 0, 1, 0, 0, 0, 0x81]] 7

theorem session_frames_ping : (session quietHost [[true, true]] ping).1.overrun = false ∧
      [⟨2, 0, 1, 0x81, []⟩] = (session quietHost [[true, true]] ping).2.map BinaryCommand.frame ++
        frames (session quietHost [[true, true]] ping).1.stream ∧
      ((session quietHost [[true, true]] ping).1.connected = false →
        (session quietHost [[true, true]] ping).2.map BinaryCommand.frame =
          [⟨2, 0, 1, 0x81, []⟩]) := by
  have hnext : nextFrame ping.stream = some (some ⟨2, 0, 1, 0x81, []⟩, []) := by decide
  have hone : frames ping.stream = [⟨2, 0, 1, 0x81, []⟩] := by
    rw [frames_some hnext, frames_none nextFrame_nil]
    rfl
  have hm : Modest ping.stream := by
    intro rest n hrest hann
    rcases (hrest.cases_first hnext).imp_right rest_nil with rfl | rfl
    · have hzero : announced ping.stream = some 0 := by decide
      rw [hzero] at hann
      cases hann
      decide
    · simp [announced] at hann
  have hping := @session_frames ping quietHost [[true, true]] (client_safe _ _) ⟨rfl, by decide⟩ hm
  rwa [hone] at hping

end Vice.L5.BinaryFrame
