import Vice.L0Core.Bytes

/-!
# Receiving from a client of the binary monitor

The socket delivers the client's stream in chunks as the network splits it; one receive call
returns a part of one chunk. `monitor_binary_receive` repeats it until the block is full or
the connection ends.

Results:
* `receive_spec`: the block is the next bytes of the stream, wherever the chunks end.
* `receiveAll_spec`: the same for the loops around it.
-/
namespace Vice.L5.BinaryReceive
open Vice.L0.Bytes

/-- The static buffer of `monitor_binary_get_command_line` with its size, 0 before it is
allocated, and the connection. `overrun` records a byte written behind the buffer. -/
structure Receiver where
  buffer : Memory
  bufferSize : Nat
  chunks : List (List UInt8)
  connected : Bool
  overrun : Bool

/-- One receive call: no byte only at the end of the stream. -/
def viceNetworkReceive (chunks : List (List UInt8)) (len : Nat) :
    List UInt8 × List (List UInt8) :=
  match chunks with
  | [] => ([], [])
  | c :: rest => (c.take len, if c.length ≤ len then rest else c.drop len :: rest)

/-- mirrors src/monitor/monitor_binary.c:247-251 -/
def monitorBinaryQuit (r : Receiver) : Receiver := { r with connected := false, chunks := [] }

/-- Bytes that a receive call puts at `off`. -/
def Receiver.put (r : Receiver) (off : Nat) (bytes : List UInt8) : Receiver :=
  { r with
    buffer := store r.buffer off bytes
    overrun := r.overrun || decide (r.bufferSize < off + bytes.length) }

/-- mirrors src/monitor/monitor_binary.c:253-281 -/
def monitorBinaryReceive (r : Receiver) (off len : Nat) : Receiver × Nat :=
  if len ≠ 0 ∧ r.connected = true then
    let (bytes, chunks) := viceNetworkReceive r.chunks len
    if bytes.length = 0 then (monitorBinaryQuit r, 0)
    else
      let (r, total) := monitorBinaryReceive ({ r with chunks }.put off bytes) (off + bytes.length)
        (len - bytes.length)
      (r, bytes.length + total)
  else (r, 0)
termination_by len
decreasing_by omega

/-- The loops of `monitor_binary_get_command_line` (src/monitor/monitor_binary.c:2117-2124 and
2142-2149), from `n` on; `false` when the connection ended. -/
def receiveAll (r : Receiver) (off len n : Nat) : Receiver × Bool :=
  if n < len then
    let (r, o) := monitorBinaryReceive r (off + n) (len - n)
    if o = 0 then (monitorBinaryQuit r, false) else receiveAll r off len (n + o)
  else (r, true)
termination_by len - n
decreasing_by omega

section
variable {r s : Receiver} {off len n : Nat}

/-- What is still to come. -/
def Receiver.stream (r : Receiver) : List UInt8 := r.chunks.flatten

/-- An open connection. -/
structure Flows (r : Receiver) : Prop where
  connected : r.connected = true
  chunks : ∀ c ∈ r.chunks, c ≠ []

/-- A block of `n` bytes at `off` does not fit. -/
def Overruns (size off n : Nat) : Bool := decide (0 < n ∧ size < off + n)

/-- The next `bytes` of the stream went to `off`. -/
structure Took (r s : Receiver) (off : Nat) (bytes : List UInt8) : Prop where
  flows : Flows s
  stream : r.stream = bytes ++ s.stream
  buffer : s.buffer = store r.buffer off bytes
  bufferSize : s.bufferSize = r.bufferSize
  overrun : s.overrun = (r.overrun || Overruns r.bufferSize off bytes.length)

/-- The connection ended first. -/
structure Ended (r s : Receiver) (off len : Nat) : Prop where
  short : r.stream.length < len
  closed : s.connected = false
  chunks : s.chunks = []
  bufferSize : s.bufferSize = r.bufferSize
  overrun : s.overrun = (r.overrun || Overruns r.bufferSize off r.stream.length)

theorem overruns_nil (size off : Nat) : Overruns size off 0 = false := by simp [Overruns]

theorem overruns_fits {size off n : Nat} (h : off + n ≤ size) : Overruns size off n = false := by
  simp only [Overruns, decide_eq_false_iff_not]
  omega

theorem overruns_append (size off m n : Nat) :
    (Overruns size off m || Overruns size (off + m) n) = Overruns size off (m + n) := by
  simp only [Overruns, ← Bool.decide_or, decide_eq_decide]
  omega

theorem Took.nil (h : Flows r) (off : Nat) : Took r r off [] :=
  ⟨h, rfl, (store_nil _ _).symm, rfl, by rw [List.length_nil, overruns_nil, Bool.or_false]⟩

theorem Took.append {t : Receiver} {a b : List UInt8} (h : Took r s off a)
    (h' : Took s t (off + a.length) b) : Took r t off (a ++ b) where
  flows := h'.flows
  stream := by rw [h.stream, h'.stream, List.append_assoc]
  buffer := by rw [h'.buffer, h.buffer, store_append]
  bufferSize := h'.bufferSize.trans h.bufferSize
  overrun := by
    rw [h'.overrun, h.overrun, h.bufferSize, Bool.or_assoc, overruns_append, List.length_append]

theorem Took.ended {t : Receiver} {a : List UInt8} (h : Took r s off a)
    (h' : Ended s t (off + a.length) len) : Ended r t off (a.length + len) where
  short := by
    rw [h.stream, List.length_append]
    have := h'.short
    omega
  closed := h'.closed
  chunks := h'.chunks
  bufferSize := h'.bufferSize.trans h.bufferSize
  overrun := by
    rw [h'.overrun, h.overrun, h.bufferSize, Bool.or_assoc, overruns_append, h.stream, List.length_append]

/-- The buffer may have become larger first. -/
theorem Took.grow {bytes : List UInt8} (h : Took r s off bytes)
    (hroom : off + bytes.length ≤ r.bufferSize) {size : Nat} (hsize : r.bufferSize ≤ size) :
    Took { r with bufferSize := size } { s with bufferSize := size } off bytes := by
  refine ⟨⟨h.flows.connected, h.flows.chunks⟩, h.stream, h.buffer, rfl, ?_⟩
  have hold := h.overrun
  rw [overruns_fits hroom] at hold
  rw [overruns_fits (Nat.le_trans hroom hsize)]
  exact hold

/-- One call takes the first bytes of the stream. -/
theorem networkReceive_took {c : List UInt8} {rest : List (List UInt8)} (h : Flows r)
    (hc : r.chunks = c :: rest) (off : Nat) {len : Nat} (hlen : len ≠ 0) :
    Took r ({ r with chunks := if c.length ≤ len then rest else c.drop len :: rest }.put off
      (c.take len)) off (c.take len) := by
  have hne : ∀ d ∈ rest, d ≠ [] := fun d hd => h.chunks d (hc ▸ List.mem_cons_of_mem c hd)
  refine ⟨⟨h.connected, ?_⟩, ?_, rfl, rfl, ?_⟩
  · simp only [Receiver.put]
    split
    · exact hne
    · next hlong =>
      intro d hd
      rcases List.mem_cons.mp hd with rfl | hd
      · simpa using hlong
      · exact hne d hd
  · simp only [Receiver.put, Receiver.stream, hc, List.flatten_cons]
    split
    · next hshort => rw [List.take_of_length_le hshort]
    · rw [List.flatten_cons, ← List.append_assoc, List.take_append_drop]
  · have hpos : 0 < c.length :=
      List.length_pos_iff.mpr (h.chunks c (hc ▸ List.mem_cons_self ..))
    have htake : 0 < (c.take len).length := by
      rw [List.length_take]
      omega
    simp only [Receiver.put, Overruns, htake, true_and]

theorem receive_spec (h : Flows r) (off len : Nat) :
    (∃ bytes, Took r (monitorBinaryReceive r off len).1 off bytes ∧ bytes.length = len ∧
      (monitorBinaryReceive r off len).2 = len) ∨
    (Ended r (monitorBinaryReceive r off len).1 off len ∧
      (monitorBinaryReceive r off len).2 < len) := by
  induction len using Nat.strongRecOn generalizing r off with
  | ind len ih =>
    rw [monitorBinaryReceive]
    by_cases hlen : len = 0
    · subst hlen
      exact .inl ⟨[], by simpa using Took.nil h off, rfl, by simp⟩
    rw [if_pos ⟨hlen, h.connected⟩]
    cases hc : r.chunks with
    | nil =>
      refine .inr ⟨⟨?_, rfl, rfl, rfl, ?_⟩, ?_⟩
      · simp only [Receiver.stream, hc, List.flatten_nil, List.length_nil]
        omega
      · rw [Receiver.stream, hc, List.flatten_nil, List.length_nil, overruns_nil, Bool.or_false]
        rfl
      · simp only [viceNetworkReceive, List.length_nil, ↓reduceIte]
        omega
    | cons c rest =>
      have hpos : 0 < c.length :=
        List.length_pos_iff.mpr (h.chunks c (hc ▸ List.mem_cons_self ..))
      have htake : (c.take len).length ≠ 0 := by rw [List.length_take]; omega
      have hle : (c.take len).length ≤ len := List.length_take_le len c
      have hfirst := networkReceive_took h hc off hlen
      simp only [viceNetworkReceive, htake, ↓reduceIte]
      generalize c.take len = bytes at *
      rcases ih (len - bytes.length) (by omega) hfirst.flows (off + bytes.length) with
        ⟨more, htook, hmore, htotal⟩ | ⟨hended, htotal⟩
      · refine .inl ⟨bytes ++ more, hfirst.append htook, ?_, ?_⟩
        · rw [List.length_append]
          omega
        · rw [htotal]
          omega
      · have hend := hfirst.ended hended
        rw [Nat.add_sub_cancel' hle] at hend
        exact .inr ⟨hend, by omega⟩

/-- A call on a connection that ended receives nothing, and the loop gives up. -/
theorem receiveAll_closed (hclosed : r.connected = false) (hn : n < len) :
    receiveAll r off len n = (monitorBinaryQuit r, false) := by
  have hnone : monitorBinaryReceive r (off + n) (len - n) = (r, 0) := by
    rw [monitorBinaryReceive, hclosed, if_neg (by simp)]
  rw [receiveAll, if_pos hn, hnone]
  rfl

theorem Ended.quit (h : Ended r s off len) : Ended r (monitorBinaryQuit s) off len :=
  ⟨h.short, rfl, rfl, h.bufferSize, h.overrun⟩

theorem receiveAll_spec (h : Flows r) (off len : Nat) :
    (∃ bytes, Took r (receiveAll r off len 0).1 off bytes ∧ bytes.length = len ∧
      (receiveAll r off len 0).2 = true) ∨
    (Ended r (receiveAll r off len 0).1 off len ∧ (receiveAll r off len 0).2 = false) := by
  rcases Nat.eq_zero_or_pos len with rfl | hpos
  · rw [receiveAll, if_neg (by omega)]
    exact .inl ⟨[], Took.nil h off, rfl, rfl⟩
  have hrecv := receive_spec h off len
  rw [receiveAll, if_pos hpos]
  simp only [Nat.add_zero, Nat.sub_zero, Nat.zero_add]
  rcases hrecv with ⟨bytes, htook, hlen, htotal⟩ | ⟨hended, htotal⟩
  · refine .inl ⟨bytes, ?_⟩
    simp only [htotal, Nat.ne_of_gt hpos, ↓reduceIte]
    rw [receiveAll, if_neg (by omega)]
    exact ⟨htook, hlen, rfl⟩
  · refine .inr ?_
    split
    · exact ⟨hended.quit, rfl⟩
    · rw [receiveAll_closed hended.closed htotal]
      exact ⟨hended.quit, rfl⟩

end

end Vice.L5.BinaryReceive
