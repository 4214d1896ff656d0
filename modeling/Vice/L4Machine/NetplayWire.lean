import Vice.L0Core.Framing
import Vice.L4Machine.Netplay

/-!
# The messages of net play

Results:
* `createEventList_buffer`: the list of a buffer has the types and data of the list it was made of.
* `lengthField`: four bytes of length before a message.
-/
namespace Vice.L4.NetplayWire
open Vice.L0.Framing Vice.L4.EventHistory Vice.L4.Netplay

section
variable {e : Event} {es list : List Event} {clk : UInt64} {rest buf : List UInt8} {x : Entry}
  {frame : List Entry} {fuel : Nat}

/-! ## Lengths -/

theorem utilDwordToLeBuf_length (dw : UInt32) : (utilDwordToLeBuf dw).length = 4 := rfl

/-- A byte of a number, and the ones below it. -/
theorem join_byte (n k : Nat) : n % 2 ^ k ||| n / 2 ^ k % 2 ^ 8 * 2 ^ k = n % 2 ^ (k + 8) := by
  have hlt : n % 2 ^ k < 2 ^ k := Nat.mod_lt _ (Nat.two_pow_pos k)
  rw [Nat.or_comm, Nat.mul_comm, ← Nat.two_pow_add_eq_or_of_lt hlt, Nat.pow_add, Nat.mod_mul]
  omega

theorem byte_toNat (dw : UInt32) (k : UInt32) (hk : k.toNat < 32) :
    ((dw >>> k) &&& 0xff).toUInt8.toUInt32.toNat = dw.toNat / 2 ^ k.toNat % 2 ^ 8 := by
  rw [UInt8.toNat_toUInt32, UInt32.toNat_toUInt8, UInt32.toNat_and, UInt32.toNat_shiftRight,
    Nat.mod_eq_of_lt hk, show (0xff : UInt32).toNat = 2 ^ 8 - 1 from rfl,
    Nat.and_two_pow_sub_one_eq_mod, Nat.mod_mod, Nat.shiftRight_eq_div_pow]

/-- Such a byte, shifted back. -/
theorem byte_shifted (dw k : UInt32) (hk : k.toNat ≤ 24) :
    (((dw >>> k) &&& 0xff).toUInt8.toUInt32 <<< k).toNat =
      dw.toNat / 2 ^ k.toNat % 2 ^ 8 * 2 ^ k.toNat := by
  have hlt : dw.toNat / 2 ^ k.toNat % 2 ^ 8 * 2 ^ k.toNat < 2 ^ 32 := by
    have hbyte : dw.toNat / 2 ^ k.toNat % 2 ^ 8 < 2 ^ 8 := Nat.mod_lt _ (by omega)
    calc dw.toNat / 2 ^ k.toNat % 2 ^ 8 * 2 ^ k.toNat < 2 ^ 8 * 2 ^ k.toNat :=
          Nat.mul_lt_mul_of_pos_right hbyte (Nat.two_pow_pos _)
      _ = 2 ^ (8 + k.toNat) := (Nat.pow_add ..).symm
      _ ≤ 2 ^ 32 := Nat.pow_le_pow_right (by omega) (by omega)
  rw [UInt32.toNat_shiftLeft, byte_toNat dw k (by omega), Nat.mod_eq_of_lt (by omega : k.toNat < 32),
    Nat.shiftLeft_eq, Nat.mod_eq_of_lt hlt]

theorem dword_le (dw : UInt32) (rest : List UInt8) : utilLeBufToDword (utilDwordToLeBuf dw ++ rest) = dw := by
  apply UInt32.toNat_inj.mp
  have hlow : (dw &&& 0xff).toUInt8.toUInt32.toNat = dw.toNat % 2 ^ 8 := by
    rw [UInt8.toNat_toUInt32, UInt32.toNat_toUInt8, UInt32.toNat_and,
      show (0xff : UInt32).toNat = 2 ^ 8 - 1 from rfl, Nat.and_two_pow_sub_one_eq_mod, Nat.mod_mod]
  have h8 := byte_shifted dw 8 (by decide)
  have h16 := byte_shifted dw 16 (by decide)
  have h24 := byte_shifted dw 24 (by decide)
  simp only [UInt32.reduceToNat] at h8 h16 h24
  show (_ ||| _ ||| _ ||| _ : UInt32).toNat = _
  rw [UInt32.toNat_or, UInt32.toNat_or, UInt32.toNat_or, hlow, h8, h16, h24, join_byte, join_byte, join_byte]
  exact Nat.mod_eq_of_lt dw.toNat_lt

/-- Four bytes before each message; one of 2^31 bytes is never sent. -/
def lengthField : LengthField where
  width := 4
  bound := 2 ^ 31
  enc n := utilDwordToLeBuf (UInt32.ofNat n)
  dec bytes := (utilLeBufToDword bytes).toNat
  width_pos := by omega
  bound_pos := by omega
  enc_length _ := rfl
  dec_enc n hn := by
    have hdword := dword_le (UInt32.ofNat n) []
    rw [List.append_nil] at hdword
    rw [hdword]
    exact UInt32.toNat_ofNat_of_lt' (Nat.lt_trans hn (by decide))

/-! ## Lists -/

/-- The mark at the end of a list. -/
def endMark : Entry := (eventListEnd, [])

/-- An entry as it is recorded: data that `event_record_in_list` keeps, and no end of the list. -/
def Recordable (x : Entry) : Prop :=
  x.1 ≠ eventListEnd ∧ (x.1 ∈ recordsData ∨ (x.1 = eventKeyboardClear ∧ x.2 = []))

theorem recordInList_entries (list : List Event) (clk clk' : UInt64) (type : UInt32) (data : List UInt8) :
    (eventRecordInList list clk type data).map Event.entry =
      list.map Event.entry ++ (eventRecordInList [] clk' type data).map Event.entry := by
  unfold eventRecordInList
  split
  · simp only [List.map_append, List.map_cons, List.map_nil, List.nil_append]
    rfl
  · split
    · simp only [List.map_append, List.map_cons, List.map_nil, List.nil_append]
      rfl
    · simp only [List.map_nil, List.append_nil]

/-- What is recorded of a type other than the end of the list can be recorded again. -/
theorem recordable_of_recorded {type : UInt32} {data : List UInt8} (htype : type ≠ eventListEnd)
    (hx : x ∈ (eventRecordInList [] clk type data).map Event.entry) : Recordable x := by
  unfold eventRecordInList at hx
  split at hx
  · rename_i hdata
    rw [List.nil_append, List.map_singleton, List.mem_singleton] at hx
    rw [hx]
    exact ⟨htype, .inl hdata⟩
  · split at hx
    · rename_i _ hclear
      rw [List.nil_append, List.map_singleton, List.mem_singleton] at hx
      rw [hx]
      exact ⟨htype, .inr ⟨hclear.resolve_left htype, rfl⟩⟩
    · cases hx

theorem record_recordable (hx : Recordable x) :
    (eventRecordInList list clk x.1 x.2).map Event.entry = list.map Event.entry ++ [x] := by
  obtain ⟨hend, hdata | ⟨hclear, hnone⟩⟩ := hx
  · rw [eventRecordInList, if_pos hdata, List.map_append]
    rfl
  · obtain ⟨type, data⟩ := x
    simp only at hclear hnone
    subst hclear hnone
    rw [eventRecordInList, if_neg (by decide), if_pos (.inr rfl), List.map_append]
    rfl

theorem record_end : (eventRecordInList list clk eventListEnd []).map Event.entry =
    list.map Event.entry ++ [endMark] := by
  rw [eventRecordInList, if_neg (by decide), if_pos (.inl rfl), List.map_append]
  rfl

/-- What is played of a list that is still open, or closed. -/
theorem playback_entries (hframe : ∀ x ∈ frame, Recordable x) {tail : List Entry}
    (htail : tail = [] ∨ tail = [endMark]) (hlist : list.map Event.entry = frame ++ tail) :
    eventPlaybackEventList list = frame := by
  induction frame generalizing list with
  | nil =>
    obtain rfl | rfl := htail
    · rw [List.map_eq_nil_iff.1 hlist]
      rfl
    · cases list with
      | nil => cases hlist
      | cons e es =>
        rw [List.map_cons, List.nil_append] at hlist
        have he : e.type = eventListEnd := congrArg Prod.fst (List.cons.inj hlist).1
        rw [eventPlaybackEventList, List.takeWhile_cons_of_neg (by simpa using he)]
        rfl
  | cons x frame ih =>
    cases list with
    | nil => cases hlist
    | cons e es =>
      obtain ⟨hx, hrest⟩ := List.cons.inj hlist
      have he : e.type ≠ eventListEnd := by
        have hx' := (hframe x List.mem_cons_self).1
        rwa [← hx] at hx'
      have hes := ih (fun y hy => hframe y (List.mem_cons_of_mem _ hy)) hrest
      rw [eventPlaybackEventList, List.takeWhile_cons_of_pos (by simpa using he), List.map_cons]
      rw [eventPlaybackEventList] at hes
      rw [hes]
      exact congrArg (· :: frame) hx

/-! ## Buffers -/

theorem encodeEvent_length (e : Event) : (encodeEvent e).length = 12 + e.data.length := by
  simp only [encodeEvent, List.length_append, utilDwordToLeBuf_length]
  omega

/-- One node of a buffer. -/
theorem createEventListLoop_cons (hdata : e.data.length < 2 ^ 32) :
    createEventListLoop clk (fuel + 1) (encodeEvent e ++ rest) list =
      if e.type = eventListEnd then some (eventRecordInList list clk e.type e.data)
      else createEventListLoop clk fuel rest (eventRecordInList list clk e.type e.data) := by
  have htype : utilLeBufToDword (encodeEvent e ++ rest) = e.type := by
    rw [encodeEvent, List.append_assoc]
    exact dword_le _ _
  have hdrop8 : (encodeEvent e ++ rest).drop 8 =
      utilDwordToLeBuf (UInt32.ofNat e.data.length) ++ (e.data ++ rest) := by
    simp only [encodeEvent, List.append_assoc]
    rfl
  have hdrop12 : (encodeEvent e ++ rest).drop 12 = e.data ++ rest := by
    simp only [encodeEvent, List.append_assoc]
    rfl
  have hsize : (utilLeBufToDword ((encodeEvent e ++ rest).drop 8)).toNat = e.data.length := by
    rw [hdrop8, dword_le]
    exact UInt32.toNat_ofNat_of_lt' hdata
  have hrest : (encodeEvent e ++ rest).drop (12 + e.data.length) = rest := by
    rw [← encodeEvent_length, List.drop_left]
  have hfits : ¬ (encodeEvent e ++ rest).length < 12 + e.data.length := by
    rw [List.length_append, encodeEvent_length]
    omega
  simp only [createEventListLoop, htype, hsize, hdrop12, hrest, List.take_left, hfits, ↓reduceIte]

/-- The first node of a buffer. -/
theorem buffer_cons (e : Event) (es : List Event) (hend : e.type ≠ eventListEnd) :
    networkCreateEventBuffer (e :: es) = encodeEvent e ++ networkCreateEventBuffer es := by
  rw [networkCreateEventBuffer, if_neg hend]

theorem buffer_end (es : List Event) (hend : e.type = eventListEnd) :
    networkCreateEventBuffer (e :: es) = encodeEvent e := by
  rw [networkCreateEventBuffer, if_pos hend, List.append_nil]

/-- A closed list, and what is made of its buffer. -/
theorem createEventListLoop_buffer (clk : UInt64) (hframe : ∀ x ∈ frame, Recordable x)
    (hlist : es.map Event.entry = frame ++ [endMark])
    (hsize : (networkCreateEventBuffer (es ++ [freshNode])).length < 2 ^ 32)
    (hfuel : es.length ≤ fuel) (list : List Event) :
    ∃ remote, createEventListLoop clk fuel (networkCreateEventBuffer (es ++ [freshNode])) list =
        some remote ∧
      remote.map Event.entry = list.map Event.entry ++ (frame ++ [endMark]) := by
  induction frame generalizing es fuel list with
  | nil =>
    obtain ⟨e, es, rfl⟩ := List.exists_cons_of_ne_nil (l := es) (by rintro rfl; cases hlist)
    obtain ⟨hentry, -⟩ := List.cons.inj hlist
    have hend : e.type = eventListEnd := congrArg Prod.fst hentry
    have hdata : e.data = [] := congrArg Prod.snd hentry
    obtain ⟨fuel, rfl⟩ := Nat.exists_eq_succ_of_ne_zero (n := fuel) (by
      rintro rfl
      cases hfuel)
    rw [List.cons_append, buffer_end _ hend]
    have hloop : createEventListLoop clk (fuel + 1) (encodeEvent e ++ []) list = _ :=
      createEventListLoop_cons (by rw [hdata]; decide)
    rw [List.append_nil, if_pos hend, hend, hdata] at hloop
    exact ⟨_, hloop, record_end⟩
  | cons x frame ih =>
    obtain ⟨e, es, rfl⟩ := List.exists_cons_of_ne_nil (l := es) (by rintro rfl; cases hlist)
    obtain ⟨hentry, hrest⟩ := List.cons.inj hlist
    have hx := hframe x List.mem_cons_self
    obtain rfl : x = Event.entry e := hentry.symm
    have hend : e.type ≠ eventListEnd := hx.1
    obtain ⟨fuel, rfl⟩ := Nat.exists_eq_succ_of_ne_zero (n := fuel) (by
      rintro rfl
      cases hfuel)
    rw [List.cons_append, buffer_cons _ _ hend] at hsize ⊢
    rw [List.length_append, encodeEvent_length] at hsize
    rw [createEventListLoop_cons (by omega), if_neg hend]
    obtain ⟨remote, hloop, hremote⟩ := ih (fun y hy => hframe y (List.mem_cons_of_mem _ hy)) hrest
      (by omega) (Nat.le_of_succ_le_succ hfuel) (eventRecordInList list clk e.type e.data)
    refine ⟨remote, hloop, ?_⟩
    have hrecord : (eventRecordInList list clk e.type e.data).map Event.entry =
        list.map Event.entry ++ [Event.entry e] := record_recordable hx
    rw [hremote, hrecord, List.append_assoc]
    rfl

/-- The size of the buffer of a list that is being closed. -/
theorem buffer_length (hopen : ∀ e ∈ es, e.type ≠ eventListEnd) (clk : UInt64) (rest : List Event) :
    (networkCreateEventBuffer (es ++ ⟨eventListEnd, clk, []⟩ :: rest)).length =
      (es.map fun e => 12 + e.data.length).sum + 12 := by
  induction es with
  | nil =>
    rw [List.nil_append, buffer_end _ rfl, encodeEvent_length]
    rfl
  | cons e es ih =>
    rw [List.cons_append, buffer_cons _ _ (hopen e List.mem_cons_self), List.length_append,
      encodeEvent_length, ih fun x hx => hopen x (List.mem_cons_of_mem _ hx), List.map_cons,
      List.sum_cons]
    omega

theorem length_le_buffer (hframe : ∀ x ∈ frame, Recordable x)
    (hlist : es.map Event.entry = frame ++ [endMark]) :
    es.length ≤ (networkCreateEventBuffer (es ++ [freshNode])).length := by
  induction frame generalizing es with
  | nil =>
    obtain ⟨e, es, rfl⟩ := List.exists_cons_of_ne_nil (l := es) (by rintro rfl; cases hlist)
    obtain ⟨hentry, hnone⟩ := List.cons.inj hlist
    have hend : e.type = eventListEnd := congrArg Prod.fst hentry
    rw [List.map_eq_nil_iff.1 hnone, List.cons_append, buffer_end _ hend, encodeEvent_length]
    show 1 ≤ _
    omega
  | cons x frame ih =>
    obtain ⟨e, es, rfl⟩ := List.exists_cons_of_ne_nil (l := es) (by rintro rfl; cases hlist)
    obtain ⟨hentry, hrest⟩ := List.cons.inj hlist
    have hend : e.type ≠ eventListEnd := by
      have hx := (hframe x List.mem_cons_self).1
      rwa [← hentry] at hx
    have hle := ih (fun y hy => hframe y (List.mem_cons_of_mem _ hy)) hrest
    rw [List.cons_append, buffer_cons _ _ hend, List.length_append, encodeEvent_length, List.length_cons]
    omega

/-- A message carries a frame when, at whatever clock, the list made of it is that frame, closed. -/
def Carries (message : List UInt8) (frame : List Entry) : Prop :=
  ∀ clk, ∃ remote, networkCreateEventList clk message = some remote ∧
    remote.map Event.entry = frame ++ [endMark]

theorem createEventList_buffer (hframe : ∀ x ∈ frame, Recordable x)
    (hlist : es.map Event.entry = frame ++ [endMark])
    (hsize : (networkCreateEventBuffer (es ++ [freshNode])).length < 2 ^ 31) :
    Carries (networkCreateEventBuffer (es ++ [freshNode])) frame := by
  intro clk
  exact createEventListLoop_buffer clk hframe hlist (by omega) (length_le_buffer hframe hlist) []

/-- A closed list has a node to send. -/
theorem buffer_pos (hframe : ∀ x ∈ frame, Recordable x) (hlist : es.map Event.entry = frame ++ [endMark]) :
    0 < (networkCreateEventBuffer (es ++ [freshNode])).length := by
  have hle := length_le_buffer hframe hlist
  have hlen := congrArg List.length hlist
  rw [List.length_map, List.length_append, List.length_singleton] at hlen
  omega

end
end Vice.L4.NetplayWire
