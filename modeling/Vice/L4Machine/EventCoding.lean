import Vice.L4Machine.NetplayWire

/-!
# A buffer of events from the peer

`network_create_event_list` is not told how many bytes were received: it follows the sizes in the
buffer until it comes to an EVENT_LIST_END. `decodeTurn` is a turn of its loop, and nothing where it
reads a byte that was not received. The size of a buffer that is sent is an `int`.

Results:
* `decodes_iff`: the records that are followed have to lead to an EVENT_LIST_END.
* `event_coding_iff`: both.
* `short_buffer_read_past`: a buffer that is too short.
-/
namespace Vice.L4.EventCoding
open Vice.L4.EventHistory Vice.L4.Netplay Vice.L4.NetplayWire

/-- Where `bufptr` points, the list so far, and if the loop is left. -/
structure Decoder where
  bufptr : Nat
  list : List Event
  done : Bool

/-- The local variables before the loop. -/
def newDecoder : Decoder := ⟨0, [], false⟩

def typeAt (buf : List UInt8) (p : Nat) : UInt32 := utilLeBufToDword (buf.drop p)

def sizeAt (buf : List UInt8) (p : Nat) : UInt32 := utilLeBufToDword (buf.drop (p + 8))

/-- mirrors src/network.c:350-357: a turn of the loop of `network_create_event_list`. The last byte
of the header is read in any case, and the data if the type is one that is recorded with it;
`12 + size` is an `unsigned int`. -/
def decodeTurn (maincpuClk : UInt64) (buf : List UInt8) (d : Decoder) : Option Decoder :=
  if d.done then some d
  else if buf.length < d.bufptr + 12 then none
  else
    let type := typeAt buf d.bufptr
    let size := sizeAt buf d.bufptr
    if type ∈ recordsData ∧ buf.length < d.bufptr + 12 + size.toNat then none
    else
      some
        { bufptr := d.bufptr + (12 + size).toNat
          list := eventRecordInList d.list maincpuClk type
            ((buf.drop (d.bufptr + 12)).take size.toNat)
          done := type = eventListEnd }

def decodeTurns (maincpuClk : UInt64) (buf : List UInt8) : Nat → Decoder → Option Decoder
  | 0, d => some d
  | n + 1, d => (decodeTurn maincpuClk buf d).bind (decodeTurns maincpuClk buf n)

/-- The loop comes to its end with this list, and has read nothing that was not received. -/
def DecodesTo (maincpuClk : UInt64) (buf : List UInt8) (list : List Event) : Prop :=
  ∃ n p, decodeTurns maincpuClk buf n newDecoder = some ⟨p, list, true⟩

def Decodes (buf : List UInt8) : Prop := ∀ maincpuClk, ∃ list, DecodesTo maincpuClk buf list

/-- From `p` on there are records, each behind the one before, up to an EVENT_LIST_END. -/
inductive Framed (buf : List UInt8) : Nat → Prop
  | last {p : Nat} (hheader : p + 12 ≤ buf.length) (htype : typeAt buf p = eventListEnd) : Framed buf p
  | next {p : Nat} (hheader : p + 12 ≤ buf.length) (htype : typeAt buf p ≠ eventListEnd)
      (hdata : typeAt buf p ∈ recordsData → p + 12 + (sizeAt buf p).toNat ≤ buf.length)
      (hrest : Framed buf (p + (12 + sizeAt buf p).toNat)) : Framed buf p

/-- mirrors src/network.c:304-317: the size is an `int`. A negative one cannot be allocated, and a
smaller one than the events have is written beyond. -/
def createBuffer (list : List Event) : Option (List UInt8) :=
  let bytes := networkCreateEventBuffer list
  let size := Int.bmod bytes.length (2 ^ 32)
  if size < 0 then none
  else if size < bytes.length then none
  else some bytes

/-- A call of `event_record_in_list` before the list is ended. -/
structure RecordCall where
  clk : UInt64
  type : UInt32
  data : List UInt8
  isOpen : type ≠ eventListEnd
  bare : type = eventKeyboardClear → data = []

def recordAll (calls : List RecordCall) : List Event :=
  calls.foldl (fun list c => eventRecordInList list c.clk c.type c.data) []

/-- The list with its end. -/
def closed (calls : List RecordCall) (clk : UInt64) : List Event :=
  eventRecordInList (recordAll calls) clk eventListEnd []

/-- The buffer of the list is made, and the list that is made of it has the same types and data. -/
def RoundTrips (calls : List RecordCall) (clk : UInt64) : Prop :=
  ∃ buf, createBuffer (closed calls clk ++ [freshNode]) = some buf ∧
    ∀ maincpuClk, ∃ list, DecodesTo maincpuClk buf list ∧
      list.map Event.entry = (closed calls clk).map Event.entry

/-! ## Received buffers -/

section
variable {clk : UInt64} {buf : List UInt8} {d : Decoder} {list : List Event} {n p : Nat}

/-- A record that is no end. -/
theorem decodeTurn_next (hheader : p + 12 ≤ buf.length) (htype : typeAt buf p ≠ eventListEnd)
    (hdata : typeAt buf p ∈ recordsData → p + 12 + (sizeAt buf p).toNat ≤ buf.length) :
    decodeTurn clk buf ⟨p, list, false⟩ = some ⟨p + (12 + sizeAt buf p).toNat,
      eventRecordInList list clk (typeAt buf p) ((buf.drop (p + 12)).take (sizeAt buf p).toNat), false⟩ := by
  have hinside : ¬ (typeAt buf p ∈ recordsData ∧ buf.length < p + 12 + (sizeAt buf p).toNat) :=
    fun h => Nat.not_lt.mpr (hdata h.1) h.2
  unfold decodeTurn
  dsimp only
  rw [if_neg Bool.false_ne_true, if_neg (Nat.not_lt.mpr hheader), if_neg hinside, decide_eq_false htype]

theorem end_no_data : eventListEnd ∉ recordsData := by decide

/-- The end of the list. -/
theorem decodeTurn_last (hheader : p + 12 ≤ buf.length) (htype : typeAt buf p = eventListEnd) (clk : UInt64)
    (list : List Event) :
    ∃ q list', decodeTurn clk buf ⟨p, list, false⟩ = some ⟨q, list', true⟩ := by
  have hinside : ¬ (typeAt buf p ∈ recordsData ∧ buf.length < p + 12 + (sizeAt buf p).toNat) :=
    fun h => end_no_data (htype ▸ h.1)
  unfold decodeTurn
  dsimp only
  rw [if_neg Bool.false_ne_true, if_neg (Nat.not_lt.mpr hheader), if_neg hinside, decide_eq_true htype]
  exact ⟨_, _, rfl⟩

theorem Framed.turns (h : Framed buf p) (clk : UInt64) (list : List Event) :
    ∃ n q list', decodeTurns clk buf n ⟨p, list, false⟩ = some ⟨q, list', true⟩ := by
  induction h generalizing list with
  | last hheader htype =>
    obtain ⟨q, list', hturn⟩ := decodeTurn_last hheader htype clk list
    exact ⟨1, q, list', by rw [decodeTurns, hturn]; rfl⟩
  | next hheader htype hdata _ ih =>
    obtain ⟨n, q, list', hturns⟩ := ih (eventRecordInList list clk _ _)
    exact ⟨n + 1, q, list', by rw [decodeTurns, decodeTurn_next hheader htype hdata]; exact hturns⟩

theorem framed_of_turns {q : Nat} {list' : List Event}
    (h : decodeTurns clk buf n ⟨p, list, false⟩ = some ⟨q, list', true⟩) : Framed buf p := by
  induction n generalizing p list with
  | zero => cases h
  | succ n ih =>
    by_cases hheader : p + 12 ≤ buf.length
    · by_cases htype : typeAt buf p = eventListEnd
      · exact .last hheader htype
      · by_cases hdata : typeAt buf p ∈ recordsData → p + 12 + (sizeAt buf p).toNat ≤ buf.length
        · rw [decodeTurns, decodeTurn_next hheader htype hdata] at h
          exact .next hheader htype hdata (ih h)
        · have hpast : typeAt buf p ∈ recordsData ∧ buf.length < p + 12 + (sizeAt buf p).toNat := by
            rw [Classical.not_imp, Nat.not_le] at hdata
            exact hdata
          have hturn : decodeTurn clk buf ⟨p, list, false⟩ = none := by
            unfold decodeTurn
            dsimp only
            rw [if_neg Bool.false_ne_true, if_neg (Nat.not_lt.mpr hheader), if_pos hpast]
          rw [decodeTurns, hturn] at h
          cases h
    · have hturn : decodeTurn clk buf ⟨p, list, false⟩ = none := by
        unfold decodeTurn
        dsimp only
        rw [if_neg Bool.false_ne_true, if_pos (Nat.not_le.mp hheader)]
      rw [decodeTurns, hturn] at h
      cases h

theorem decodes_iff : Decodes buf ↔ Framed buf 0 := by
  constructor
  · intro h
    obtain ⟨list, n, q, hturns⟩ := h 0
    exact framed_of_turns hturns
  · intro h clk
    obtain ⟨n, q, list, hturns⟩ := h.turns clk []
    exact ⟨list, n, q, hturns⟩

/-- Twelve bytes are too few for anything but one end. -/
theorem Framed.header (h : Framed buf p) : p + 12 ≤ buf.length := by
  cases h with
  | last hheader _ => exact hheader
  | next hheader _ _ _ => exact hheader

/-! ## Lists that are sent -/

theorem createBuffer_some_iff {list : List Event} :
    (∃ buf, createBuffer list = some buf) ↔ (networkCreateEventBuffer list).length < 2 ^ 31 := by
  unfold createBuffer
  dsimp only
  generalize (networkCreateEventBuffer list) = bytes
  have hsize := Int.bmod_def (bytes.length : Int) (2 ^ 32)
  by_cases hfits : bytes.length < 2 ^ 31
  · have hsame : Int.bmod bytes.length (2 ^ 32) = bytes.length := by
      rw [hsize, Int.emod_eq_of_lt (by omega) (by omega), if_pos (by omega)]
    rw [hsame, if_neg (by omega), if_neg (by omega)]
    exact ⟨fun _ => hfits, fun _ => ⟨bytes, rfl⟩⟩
  · have hless : Int.bmod bytes.length (2 ^ 32) < bytes.length := by
      rw [hsize]
      have hmod := Int.emod_lt_of_pos (bytes.length : Int) (by decide : (0 : Int) < 2 ^ 32)
      split_ifs
      · omega
      · omega
    constructor
    · rintro ⟨buf, hbuf⟩
      split_ifs at hbuf
    · exact fun h => absurd h hfits

theorem createBuffer_eq {list : List Event} (h : createBuffer list = some buf) :
    buf = networkCreateEventBuffer list := by
  unfold createBuffer at h
  dsimp only at h
  split_ifs at h
  exact (Option.some.inj h).symm

/-- The decoder of `Netplay` reads the data of every record, and this one no more than that. -/
theorem turns_of_loop {fuel : Nat} {list' : List Event} (hsmall : buf.length < 2 ^ 31)
    (h : createEventListLoop clk fuel (buf.drop p) list = some list') :
    ∃ n q, decodeTurns clk buf n ⟨p, list, false⟩ = some ⟨q, list', true⟩ := by
  induction fuel generalizing p list with
  | zero => cases h
  | succ fuel ih =>
    rw [createEventListLoop] at h
    dsimp only at h
    have hsize : utilLeBufToDword ((buf.drop p).drop 8) = sizeAt buf p := by
      rw [sizeAt, List.drop_drop]
    have hdata : ((buf.drop p).drop 12) = buf.drop (p + 12) := List.drop_drop
    rw [hsize, hdata] at h
    by_cases hfits : (buf.drop p).length < 12 + (sizeAt buf p).toNat
    · rw [if_pos hfits] at h
      cases h
    · rw [if_neg hfits] at h
      rw [List.length_drop] at hfits
      have hheader : p + 12 ≤ buf.length := by omega
      have hinside : p + 12 + (sizeAt buf p).toNat ≤ buf.length := by omega
      by_cases htype : typeAt buf p = eventListEnd
      · have hturn : decodeTurn clk buf ⟨p, list, false⟩ = some ⟨p + (12 + sizeAt buf p).toNat,
            eventRecordInList list clk (typeAt buf p)
              ((buf.drop (p + 12)).take (sizeAt buf p).toNat), true⟩ := by
          unfold decodeTurn
          dsimp only
          rw [if_neg Bool.false_ne_true, if_neg (Nat.not_lt.mpr hheader),
            if_neg fun h => end_no_data (htype ▸ h.1), decide_eq_true htype]
        have hlist : eventRecordInList list clk (typeAt buf p)
            ((buf.drop (p + 12)).take (sizeAt buf p).toNat) = list' := by
          have htype' : utilLeBufToDword (buf.drop p) = eventListEnd := htype
          rw [if_pos htype'] at h
          exact Option.some.inj h
        exact ⟨1, _, by rw [decodeTurns, hturn, hlist]; rfl⟩
      · have htype' : ¬ utilLeBufToDword (buf.drop p) = eventListEnd := htype
        have hnext : (12 + sizeAt buf p).toNat = 12 + (sizeAt buf p).toNat := by
          rw [UInt32.toNat_add]
          exact Nat.mod_eq_of_lt (by simp only [UInt32.reduceToNat]; omega)
        rw [if_neg htype', List.drop_drop] at h
        obtain ⟨n, q, hturns⟩ := ih h
        refine ⟨n + 1, q, ?_⟩
        rw [decodeTurns, decodeTurn_next hheader htype fun _ => hinside, hnext]
        exact hturns

/-- What is recorded can be recorded again. -/
theorem recordAll_recordable (calls : List RecordCall) :
    ∀ x ∈ (recordAll calls).map Event.entry, Recordable x := by
  have hall : ∀ list : List Event, (∀ x ∈ list.map Event.entry, Recordable x) →
      ∀ x ∈ (calls.foldl (fun list c => eventRecordInList list c.clk c.type c.data) list).map
        Event.entry, Recordable x := by
    induction calls with
    | nil => exact fun list h => h
    | cons c calls ih =>
      intro list h
      apply ih
      intro x hx
      rw [recordInList_entries list c.clk c.clk, List.mem_append] at hx
      rcases hx with hx | hx
      · exact h x hx
      · exact recordable_of_recorded c.isOpen hx
  exact hall [] fun x hx => absurd hx (List.not_mem_nil ·)

theorem closed_entries (calls : List RecordCall) (clk : UInt64) :
    (closed calls clk).map Event.entry = (recordAll calls).map Event.entry ++ [endMark] :=
  record_end

theorem roundTrips_iff (calls : List RecordCall) (clk : UInt64) : RoundTrips calls clk ↔
      (networkCreateEventBuffer (closed calls clk ++ [freshNode])).length < 2 ^ 31 := by
  constructor
  · rintro ⟨buf, hbuf, -⟩
    exact createBuffer_some_iff.mp ⟨buf, hbuf⟩
  · intro hsmall
    obtain ⟨buf, hbuf⟩ := createBuffer_some_iff.mpr hsmall
    refine ⟨buf, hbuf, fun clk' => ?_⟩
    have hframe := recordAll_recordable calls
    have hlist := closed_entries calls clk
    have hfuel := length_le_buffer hframe hlist
    rw [← createBuffer_eq hbuf] at hsmall hfuel
    obtain ⟨remote, hloop, hremote⟩ := createEventListLoop_buffer clk' hframe hlist
      (by rw [← createBuffer_eq hbuf]; omega) hfuel []
    rw [← createBuffer_eq hbuf] at hloop
    obtain ⟨n, q, hturns⟩ := turns_of_loop (p := 0) hsmall hloop
    refine ⟨remote, ⟨n, q, hturns⟩, ?_⟩
    rw [hremote, hlist]
    rfl

/-- A list comes back exactly if its buffer has fewer than 2^31 bytes, and a received buffer is
decoded within its bounds exactly if its records lead to an end. -/
theorem event_coding_iff (calls : List RecordCall) (clk : UInt64) (buf : List UInt8) : (RoundTrips calls clk ↔
      (networkCreateEventBuffer (closed calls clk ++ [freshNode])).length < 2 ^ 31) ∧
    (Decodes buf ↔ Framed buf 0) :=
  ⟨roundTrips_iff calls clk, decodes_iff⟩

end

/-- A buffer of one byte is read beyond its end. -/
theorem short_buffer_read_past : ¬ Decodes [1] := by
  intro h
  have hheader := (decodes_iff.mp h).header
  revert hheader
  decide

end Vice.L4.EventCoding
