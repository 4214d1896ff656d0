import Vice.L4Machine.NetplayWire

/-!
# Both emulators play the same (`network.c`)

The invariant is about both parties and the bytes between them: what one has received of a message,
what is in its inbox and what the other has still to send is a stream of the frames that were sent
and not yet played. The ring keeps the lists of the last `N` frames, so the list a party plays of
its own has the number of the message it has just received.

A list that is recorded while the lists of a frame are played comes too late for its own message,
and where there is no delay `frame_to_play` is not set before the first frame.

Results:
* `partyStep_moves`: what a step does to a party and to the streams at both its ends.
* `step_inv`, `run_inv`: the invariant of a session.
* `netplay_agreed`: what the parties play, and that they never both wait.
-/
namespace Vice.L4.NetplayAgreement
open Vice.L0.Framing Vice.L4.EventHistory Vice.L4.Netplay Vice.L4.NetplayWire

section
variable {N K j k : Nat} {p q A B : Party} {m : Moved} {role : Role} {inbox bytes : List UInt8}
  {clk : UInt64} {type : UInt32} {data : List UInt8} {late : Late} {s s' : Session}

/-! ## What a state says -/

/-- What was recorded in each frame, the current one included. -/
def frames (p : Party) : List (List Entry) := p.recorded ++ [p.recording]

def frameAt (p : Party) (j : Nat) : List Entry := (frames p).getD j []

/-- The current frame is over and its list closed. -/
def inHook : Phase → Bool
  | .sending _ | .receivingLen _ | .receivingBuf _ _ => true
  | _ => false

def receiving : Phase → Bool
  | .receivingLen _ | .receivingBuf _ _ => true
  | _ => false

/-- The frames whose lists went to the socket, or are going. -/
def sentFrames (p : Party) : List (List Entry) := if inHook p.phase then frames p else p.recorded

/-- What is still to go to the socket. -/
def pending : Phase → List UInt8
  | .suspending rest | .sending rest => rest
  | _ => []

/-- What has come of a message that is not complete. -/
def consumed : Phase → List UInt8
  | .receivingLen got => got
  | .receivingBuf recvLen got => lengthField.enc recvLen ++ got
  | _ => []

/-- A message is never received beyond its end. -/
def Partial : Phase → Prop
  | .receivingLen got => got.length < 4
  | .receivingBuf recvLen got => got.length < recvLen ∧ recvLen < 2 ^ 31
  | .crashed => False
  | _ => True

/-- The lists of the last `N` frames are kept in a ring; the older ones are closed. -/
def Ring (N : Nat) (ring : List (Option (List Event))) (recorded : List (List Entry))
    (recording : List Entry) (closed : Bool) : Prop :=
  ∀ j ≤ recorded.length, recorded.length < j + N → ∃ list, ring[j % N]?.join = some list ∧
    list.map Event.entry = (recorded ++ [recording]).getD j [] ++
      if j < recorded.length ∨ closed = true then [endMark] else []

/-- Where a party stands in its frames. -/
structure PartyInv (N : Nat) (p : Party) : Prop where
  frameDelta : p.frameDelta = N
  currentFrame : p.currentFrame = p.recorded.length % N
  ring : p.frameEventList.length = N
  frameToPlay : 1 ≤ p.recorded.length ∨ N = 1 → p.frameToPlay = (p.recorded.length + 1) % N
  frameBufferFull :
    p.frameBufferFull = decide (N ≤ p.recorded.length + if receiving p.phase then 1 else 0)
  ahead : receiving p.phase = true → N ≤ p.recorded.length + 1
  recordable : ∀ frame ∈ frames p, ∀ x ∈ frame, Recordable x
  lists : Ring N p.frameEventList p.recorded p.recording (inHook p.phase)
  delayed : p.played.length = p.recorded.length + 1 - N
  phase : Partial p.phase

/-- The stream from `A` to `B`: the frames sent and not yet played. -/
structure Link (A B : Party) (inbox : List UInt8) : Prop where
  wire : Wire lengthField Carries ((sentFrames A).drop B.played.length)
    (consumed B.phase ++ (inbox ++ pending A.phase))
  le : B.played.length ≤ (sentFrames A).length

/-- The server's list is played first. -/
def inOrder : Role → List Entry → List Entry → List Entry
  | .server, own, remote => own ++ remote
  | .client, own, remote => remote ++ own

/-! ## Frames -/

theorem frameAt_recorded (hj : j < p.recorded.length) : frameAt p j = p.recorded[j] := by
  rw [frameAt, frames, List.getD_eq_getElem?_getD, List.getElem?_append_left hj,
    List.getElem?_eq_getElem hj, Option.getD_some]

theorem frameAt_current : frameAt p p.recorded.length = p.recording := by
  rw [frameAt, frames, List.getD_eq_getElem?_getD, List.getElem?_concat_length, Option.getD_some]

theorem frameAt_mem (hj : j ≤ p.recorded.length) : frameAt p j ∈ frames p := by
  obtain hlt | rfl := Nat.lt_or_eq_of_le hj
  · rw [frameAt_recorded hlt]
    exact List.mem_append_left _ (List.getElem_mem _)
  · rw [frameAt_current]
    exact List.mem_append_right _ List.mem_cons_self

theorem frames_length : (frames p).length = p.recorded.length + 1 := by
  rw [frames, List.length_append, List.length_singleton]

theorem recorded_le_sent : p.recorded.length ≤ (sentFrames p).length := by
  unfold sentFrames
  split
  · rw [frames_length]
    omega
  · exact Nat.le_refl _

theorem sent_le : (sentFrames p).length ≤ p.recorded.length + 1 := by
  unfold sentFrames
  split
  · rw [frames_length]
  · omega

theorem sentFrames_get (hk : k < (sentFrames p).length) : (sentFrames p)[k]? = some (frameAt p k) := by
  unfold sentFrames at hk ⊢
  split
  · rename_i hin
    rw [if_pos hin] at hk
    rw [frameAt, List.getD_eq_getElem?_getD, List.getElem?_eq_getElem hk, Option.getD_some]
  · rename_i hin
    rw [if_neg hin] at hk
    rw [frameAt_recorded hk, List.getElem?_eq_getElem hk]

/-- The next frame that was sent, and those behind it. -/
theorem drop_sent (hk : k < (sentFrames p).length) :
    (sentFrames p).drop k = frameAt p k :: (sentFrames p).drop (k + 1) := by
  have hget := sentFrames_get hk
  rw [List.getElem?_eq_getElem hk] at hget
  rw [List.drop_eq_getElem_cons hk, Option.some.inj hget]

/-! ## The ring -/

/-- Two of the last `N` frames have different places. -/
theorem mod_ne (h : j < k) (hlt : k < j + N) : k % N ≠ j % N := by
  intro heq
  have hzero := Nat.sub_mod_eq_zero_of_mod_eq heq
  rw [Nat.mod_eq_of_lt (by omega)] at hzero
  omega

variable {ring : List (Option (List Event))} {recorded : List (List Entry)}
  {recording recording' : List Entry} {closed : Bool} {list : List Event}

/-- The list of the current frame changes. -/
theorem Ring.set (h : Ring N ring recorded recording false) (hlt : recorded.length % N < ring.length)
    (hlist : list.map Event.entry = recording' ++ if closed = true then [endMark] else []) :
    Ring N (ring.set (recorded.length % N) (some list)) recorded recording' closed := by
  intro j hj hlast
  obtain hjlt | rfl := Nat.lt_or_eq_of_le hj
  · obtain ⟨old, hget, hold⟩ := h j hj hlast
    refine ⟨old, ?_, ?_⟩
    · rw [List.getElem?_set_ne (mod_ne hjlt hlast)]
      exact hget
    · rw [hold, List.getD_eq_getElem?_getD, List.getD_eq_getElem?_getD,
        List.getElem?_append_left hjlt, List.getElem?_append_left hjlt, if_pos (.inl hjlt),
        if_pos (.inl hjlt)]
  · refine ⟨list, ?_, ?_⟩
    · rw [List.getElem?_set_self hlt, Option.join_some]
    · rw [hlist, List.getD_eq_getElem?_getD, List.getElem?_concat_length, Option.getD_some]
      simp only [Nat.lt_irrefl, false_or]

/-- The next frame takes the place of the oldest. -/
theorem Ring.next (h : Ring N ring recorded recording true) (hlt : (recorded.length + 1) % N < ring.length) :
    Ring N (ring.set ((recorded.length + 1) % N) (some [])) (recorded ++ [recording]) [] false := by
  intro j hj hlast
  rw [List.length_append, List.length_singleton] at hj hlast ⊢
  obtain hjlt | rfl := Nat.lt_or_eq_of_le hj
  · obtain ⟨old, hget, hold⟩ := h j (by omega) (by omega)
    refine ⟨old, ?_, ?_⟩
    · rw [List.getElem?_set_ne (mod_ne hjlt hlast)]
      exact hget
    · have hlen : j < (recorded ++ [recording]).length := by
        rw [List.length_append, List.length_singleton]
        exact hjlt
      rw [hold, List.getD_eq_getElem?_getD, List.getD_eq_getElem?_getD,
        List.getElem?_append_left hlen, if_pos (.inr rfl), if_pos (.inl hjlt)]
  · refine ⟨[], ?_, ?_⟩
    · rw [List.getElem?_set_self hlt, Option.join_some]
    · have hlen : (recorded ++ [recording]).length = recorded.length + 1 := by
        rw [List.length_append, List.length_singleton]
      rw [List.getD_eq_getElem?_getD, ← hlen, List.getElem?_concat_length, Option.getD_some]
      simp only [Nat.lt_irrefl, Bool.false_eq_true, or_self, ↓reduceIte, List.map_nil, List.append_nil]

theorem PartyInv.place_lt (hN : 1 ≤ N) (h : PartyInv N p) (j : Nat) : j % N < p.frameEventList.length := by
  rw [h.ring]
  exact Nat.mod_lt _ hN

/-- The list of the current frame. -/
theorem PartyInv.current (hN : 1 ≤ N) (h : PartyInv N p) : ∃ list, p.list p.currentFrame = some list ∧
      list.map Event.entry = p.recording ++ if inHook p.phase = true then [endMark] else [] := by
  obtain ⟨list, hlist, hentries⟩ := h.lists p.recorded.length (Nat.le_refl _) (by omega)
  rw [← h.currentFrame] at hlist
  rw [List.getD_eq_getElem?_getD, List.getElem?_concat_length, Option.getD_some] at hentries
  simp only [Nat.lt_irrefl, false_or] at hentries
  exact ⟨list, hlist, hentries⟩

/-! ## What a step does to a party and its streams -/

/-- `p` moves while `A` sends to it. -/
structure Moves (N : Nat) (role : Role) (A p : Party) (m : Moved) : Prop where
  inv : PartyInv N m.party
  frames : ∀ j < (sentFrames p).length, frameAt m.party j = frameAt p j
  sent_le : (sentFrames p).length ≤ (sentFrames m.party).length
  sent : ∀ k ≤ (sentFrames p).length, ∀ bytes,
    Wire lengthField Carries ((sentFrames p).drop k) (bytes ++ pending p.phase) →
      Wire lengthField Carries ((sentFrames m.party).drop k)
        (bytes ++ (m.sent ++ pending m.party.phase))
  link : Link A m.party m.inbox
  played : m.party.played = p.played ∨
    p.played.length < (sentFrames A).length ∧ p.played.length < (sentFrames p).length ∧
      m.party.played =
        p.played ++ [inOrder role (frameAt p p.played.length) (frameAt A p.played.length)]

/-- An event is recorded in the list of the current frame. -/
theorem recordInFrame_eq {list : List Event} (hlist : p.list p.currentFrame = some list) :
    recordInFrame p clk type data = { p with
      frameEventList :=
        p.frameEventList.set p.currentFrame (some (eventRecordInList list clk type data)) } := by
  unfold recordInFrame
  split
  · rename_i hnone
    rw [hlist] at hnone
    cases hnone
  · rename_i list' hlist'
    rw [hlist] at hlist'
    cases hlist'
    rfl

theorem running_sent (h : inHook p.phase = false) : sentFrames p = p.recorded := by
  rw [sentFrames, h]
  rfl

theorem hook_sent (h : inHook p.phase = true) : sentFrames p = frames p := by
  rw [sentFrames, h]
  rfl

/-- What `networkEventRecord` changes. -/
theorem networkEventRecord_eq {list : List Event} (hlist : p.list p.currentFrame = some list) :
    networkEventRecord p clk type data = { p with
      frameEventList :=
        p.frameEventList.set p.currentFrame (some (eventRecordInList list clk type data))
      recording := p.recording ++ (eventRecordInList [] clk type data).map Event.entry } := by
  rw [networkEventRecord, recordInFrame_eq hlist]

theorem record_inv (hN : 1 ≤ N) (hinv : PartyInv N p) (hphase : inHook p.phase = false)
    (htype : type ≠ eventListEnd) : PartyInv N (networkEventRecord p clk type data) := by
  obtain ⟨list, hlist, hentries⟩ := hinv.current hN
  rw [hphase] at hentries
  simp only [Bool.false_eq_true, ↓reduceIte, List.append_nil] at hentries
  have hmap := recordInList_entries list clk clk type data
  rw [hentries] at hmap
  have hring := hinv.lists
  rw [hphase] at hring
  have hset := @Ring.set N p.frameEventList p.recorded p.recording _ false _ hring
    (hinv.place_lt hN _) (hmap.trans (List.append_nil _).symm)
  rw [networkEventRecord_eq hlist]
  constructor
  case lists =>
    rw [hphase, hinv.currentFrame]
    exact hset
  case ring =>
    rw [List.length_set]
    exact hinv.ring
  case recordable =>
    intro frame hframe x hx
    obtain hframe | hframe := List.mem_append.1 hframe
    · exact hinv.recordable frame (List.mem_append_left _ hframe) x hx
    · rw [List.mem_singleton.1 hframe] at hx
      obtain hx | hx := List.mem_append.1 hx
      · exact hinv.recordable p.recording (List.mem_append_right _ List.mem_cons_self) x hx
      · exact recordable_of_recorded htype hx
  case frameDelta => exact hinv.frameDelta
  case currentFrame => exact hinv.currentFrame
  case frameToPlay => exact hinv.frameToPlay
  case frameBufferFull => exact hinv.frameBufferFull
  case ahead => exact hinv.ahead
  case delayed => exact hinv.delayed
  case phase => exact hinv.phase

/-- The same frames are sent as before. -/
theorem Moves.of_sent {sent inbox' : List UInt8} (hinv : PartyInv N q)
    (hsent : sentFrames q = sentFrames p) (hbytes : pending p.phase = sent ++ pending q.phase)
    (hlink : Link A q inbox')
    (hplayed : q.played = p.played ∨ p.played.length < (sentFrames A).length ∧
      p.played.length < (sentFrames p).length ∧ q.played =
        p.played ++ [inOrder role (frameAt p p.played.length) (frameAt A p.played.length)]) :
    Moves N role A p ⟨q, sent, inbox'⟩ where
  inv := hinv
  frames j hj := by
    have hq := sentFrames_get (p := q) (hsent ▸ hj)
    rw [hsent, sentFrames_get hj] at hq
    exact (Option.some.inj hq).symm
  sent_le := Nat.le_of_eq (congrArg List.length hsent.symm)
  sent k _ bytes hwire := by
    rw [hsent, ← hbytes]
    exact hwire
  link := hlink
  played := hplayed

theorem Link.of_eq (h : Link A p inbox) (hplayed : q.played = p.played)
    (hconsumed : consumed q.phase = consumed p.phase) : Link A q inbox := by
  refine ⟨?_, ?_⟩
  · rw [hplayed, hconsumed]
    exact h.wire
  · rw [hplayed]
    exact h.le

theorem record_moves (hN : 1 ≤ N) (hinv : PartyInv N p) (hlink : Link A p inbox)
    (hphase : p.phase = .running) (htype : type ≠ eventListEnd) :
    Moves N role A p ⟨networkEventRecord p clk type data, [], inbox⟩ := by
  have hnot : inHook p.phase = false := by rw [hphase]; rfl
  obtain ⟨list, hlist, -⟩ := hinv.current hN
  obtain ⟨q, hq⟩ : ∃ q, networkEventRecord p clk type data = q := ⟨_, rfl⟩
  have hinv' := @record_inv N p clk type data hN hinv hnot htype
  rw [networkEventRecord_eq hlist] at hinv' hq ⊢
  rw [hq] at hinv' ⊢
  have hsame : q.recorded = p.recorded ∧ q.phase = p.phase ∧ q.played = p.played := by
    subst hq
    exact ⟨rfl, rfl, rfl⟩
  obtain ⟨hrecorded, hphase', hplayed⟩ := hsame
  have hsent : sentFrames q = sentFrames p := by
    rw [running_sent hnot, running_sent (p := q) (hphase' ▸ hnot), hrecorded]
  exact .of_sent hinv' hsent (by rw [hphase']; rfl) (hlink.of_eq hplayed (by rw [hphase']))
    (.inl hplayed)

/-! ### In the middle of something -/

variable {phase : Phase} {suspended : Bool}

/-- Only the phase changes, and neither into the hook nor out of it, nor from its first half to the
second. -/
theorem PartyInv.setPhase (hinv : PartyInv N p) (hin : inHook phase = inHook p.phase)
    (hreceiving : receiving phase = receiving p.phase) (hwithin : Partial phase) :
    PartyInv N { p with phase := phase, suspended := suspended } where
  frameDelta := hinv.frameDelta
  currentFrame := hinv.currentFrame
  ring := hinv.ring
  frameToPlay := hinv.frameToPlay
  frameBufferFull := by
    rw [hreceiving]
    exact hinv.frameBufferFull
  ahead := by
    rw [hreceiving]
    exact hinv.ahead
  recordable := hinv.recordable
  lists := by
    rw [hin]
    exact hinv.lists
  delayed := hinv.delayed
  phase := hwithin

theorem sent_setPhase (hin : inHook phase = inHook p.phase) :
    sentFrames { p with phase := phase, suspended := suspended } = sentFrames p := by
  simp only [sentFrames, hin, frames]

theorem suspend_moves (hinv : PartyInv N p) (hlink : Link A p inbox) (hphase : p.phase = .running) :
    Moves N role A p ⟨networkSuspend p, [], inbox⟩ := by
  unfold networkSuspend
  split
  · exact .of_sent hinv rfl rfl hlink (.inl rfl)
  · have hin : inHook (.suspending (utilDwordToLeBuf 0)) = inHook p.phase := by
      rw [hphase]
      rfl
    constructor
    case inv => exact hinv.setPhase hin (by rw [hphase]; rfl) trivial
    case frames => exact fun j _ => rfl
    case sent_le => exact Nat.le_of_eq (congrArg List.length (sent_setPhase hin).symm)
    case sent =>
      intro k _ bytes hwire
      rw [hphase, show pending Phase.running = [] from rfl, List.append_nil] at hwire
      rw [sent_setPhase hin]
      exact hwire.append_idle
    case link => exact hlink.of_eq rfl (by rw [hphase]; rfl)
    case played => exact .inl rfl

/-- The zero length of a suspension goes to the socket. -/
theorem sendSuspending_moves {n : Nat} {rest : List UInt8} (hinv : PartyInv N p)
    (hlink : Link A p inbox) (hphase : p.phase = .suspending rest) :
    Moves N role A p ⟨{ p with phase :=
      if rest.length ≤ n then .running else .suspending (rest.drop n) }, rest.take n, inbox⟩ := by
  split
  · rename_i hall
    have hin : inHook .running = inHook p.phase := by rw [hphase]; rfl
    refine .of_sent (hinv.setPhase hin (by rw [hphase]; rfl) trivial) (sent_setPhase hin) ?_
      (hlink.of_eq rfl (by rw [hphase]; rfl)) (.inl rfl)
    rw [hphase, List.take_of_length_le hall]
    exact (List.append_nil _).symm
  · have hin : inHook (.suspending (rest.drop n)) = inHook p.phase := by rw [hphase]; rfl
    refine .of_sent (hinv.setPhase hin (by rw [hphase]; rfl) trivial) (sent_setPhase hin) ?_
      (hlink.of_eq rfl (by rw [hphase]; rfl)) (.inl rfl)
    rw [hphase]
    exact (List.take_append_drop n rest).symm

/-! ### The hook -/

/-- The next frame begins once the lists of one frame were played, or when none had to be. -/
theorem PartyInv.prepare (hN : 1 ≤ N) (hring : p.frameEventList.length = N)
    (hdelta : p.frameDelta = N) (hcurrent : p.currentFrame = p.recorded.length % N)
    (hfull : p.frameBufferFull = decide (N ≤ p.recorded.length + 1))
    (hrecordable : ∀ frame ∈ frames p, ∀ x ∈ frame, Recordable x)
    (hlists : Ring N p.frameEventList p.recorded p.recording true)
    (hdelayed : p.played.length = p.recorded.length + 2 - N) :
    PartyInv N (networkPrepareNextFrame p) := by
  have hplace : (p.currentFrame + 1) % N = (p.recorded.length + 1) % N := by
    rw [hcurrent, Nat.mod_add_mod]
  have hlen : (p.recorded ++ [p.recording]).length = p.recorded.length + 1 := by
    rw [List.length_append, List.length_singleton]
  unfold networkPrepareNextFrame
  constructor
  case frameDelta => exact hdelta
  case currentFrame =>
    rw [hlen, hdelta]
    exact hplace
  case ring =>
    rw [List.length_set]
    exact hring
  case frameToPlay =>
    intro _
    rw [hlen, hdelta, hplace]
    show ((p.recorded.length + 1) % N + 1) % N = _
    rw [Nat.mod_add_mod]
  case frameBufferFull =>
    rw [hlen]
    exact hfull
  case ahead => exact fun h => by cases h
  case recordable =>
    intro frame hframe x hx
    obtain hframe | hframe := List.mem_append.1 hframe
    · exact hrecordable frame hframe x hx
    · rw [List.mem_singleton.1 hframe] at hx
      cases hx
  case lists =>
    rw [hdelta, hplace]
    exact hlists.next (by rw [hring]; exact Nat.mod_lt _ hN)
  case delayed =>
    rw [hlen]
    exact hdelayed
  case phase => trivial

/-- The condition on a step: the list to send fits into an `int`, and the devices record nothing
while they are played to. -/
def StepOk (p : Party) : Action → Prop
  | .hook _ => ∀ list, p.list p.currentFrame = some list →
      (list.map fun e => 12 + e.data.length).sum + 12 < 2 ^ 31
  | .receive _ _ late => late = []
  | _ => True

/-- The list of the frame is closed and is to be sent. -/
theorem hook_moves (hN : 1 ≤ N) (hinv : PartyInv N p) (hlink : Link A p inbox)
    (hphase : p.phase = .running) (hok : StepOk p (.hook clk)) :
    Moves N role A p ⟨networkHookConnectedSend p clk, [], inbox⟩ := by
  obtain ⟨list, hlist, hentries⟩ := hinv.current hN
  have hnot : inHook p.phase = false := by rw [hphase]; rfl
  rw [hnot] at hentries
  simp only [Bool.false_eq_true, ↓reduceIte, List.append_nil] at hentries
  have hrecording := hinv.recordable p.recording (List.mem_append_right _ List.mem_cons_self)
  have hopen : ∀ e ∈ list, e.type ≠ eventListEnd := by
    intro e he
    refine (hrecording (Event.entry e) ?_).1
    rw [← hentries]
    exact List.mem_map_of_mem he
  obtain ⟨closed, hend⟩ : ∃ closed, eventRecordInList list clk eventListEnd [] = closed := ⟨_, rfl⟩
  have hclosed : closed.map Event.entry = p.recording ++ [endMark] := by
    rw [← hend, record_end, hentries]
  generalize hbuf : networkCreateEventBuffer (closed ++ [freshNode]) = buf
  have hsize : buf.length < 2 ^ 31 := by
    rw [eventRecordInList, if_neg (by decide), if_pos (.inl rfl)] at hend
    rw [← hbuf, ← hend, List.append_assoc]
    exact lt_of_eq_of_lt (buffer_length hopen clk [freshNode]) (hok list hlist)
  have hcarries : Carries buf p.recording := by
    rw [← hbuf] at hsize ⊢
    exact createEventList_buffer hrecording hclosed hsize
  have hpos : 0 < buf.length := by
    rw [← hbuf]
    exact buffer_pos hrecording hclosed
  have hplace : p.currentFrame < p.frameEventList.length := by
    rw [hinv.currentFrame]
    exact hinv.place_lt hN _
  have hhook : networkHookConnectedSend p clk = { p with
      frameEventList := p.frameEventList.set p.currentFrame (some closed)
      phase := .sending (lengthField.enc buf.length ++ buf) } := by
    rw [networkHookConnectedSend, recordInFrame_eq hlist, hend]
    simp only [Party.list, List.getElem?_set_self hplace, Option.join_some]
    rw [hbuf, if_pos hsize]
    rfl
  rw [hhook]
  have hring := hinv.lists
  rw [hnot] at hring
  have hset := @Ring.set N p.frameEventList p.recorded p.recording p.recording true _ hring
    (hinv.place_lt hN _) hclosed
  have hsent := running_sent hnot
  constructor
  case inv =>
    constructor
    case lists =>
      rw [hinv.currentFrame]
      exact hset
    case ring =>
      rw [List.length_set]
      exact hinv.ring
    case frameBufferFull =>
      have hfull := hinv.frameBufferFull
      rwa [hphase] at hfull
    case ahead => exact fun h => by cases h
    case frameDelta => exact hinv.frameDelta
    case currentFrame => exact hinv.currentFrame
    case frameToPlay => exact hinv.frameToPlay
    case recordable => exact hinv.recordable
    case delayed => exact hinv.delayed
    case phase => trivial
  case frames => exact fun j _ => rfl
  case sent_le => exact recorded_le_sent.trans' (Nat.le_of_eq (congrArg List.length hsent))
  case sent =>
    intro k hk bytes hwire
    rw [hsent] at hwire hk
    rw [hphase, show pending Phase.running = [] from rfl, List.append_nil] at hwire
    show Wire _ _ ((p.recorded ++ [p.recording]).drop k) _
    rw [List.drop_append_of_le_length hk]
    exact hwire.append_frame hcarries hpos hsize
  case link => exact hlink.of_eq rfl (by rw [hphase]; rfl)
  case played => exact .inl rfl

/-- Once the list is sent a message is awaited, where the ring is full; else the next frame
begins. -/
theorem receiveStart_inv (hN : 1 ≤ N) (hinv : PartyInv N p) {rest : List UInt8}
    (hphase : p.phase = .sending rest) :
    PartyInv N (networkHookConnectedReceive p) ∧
      sentFrames (networkHookConnectedReceive p) = sentFrames p ∧
      pending (networkHookConnectedReceive p).phase = [] ∧
      consumed (networkHookConnectedReceive p).phase = [] ∧
      (networkHookConnectedReceive p).played = p.played := by
  have hin : inHook p.phase = true := by rw [hphase]; rfl
  have hlists := hinv.lists
  rw [hin] at hlists
  have hfull : (p.frameBufferFull || p.currentFrame + 1 == p.frameDelta) =
      decide (N ≤ p.recorded.length + 1) := by
    have h := hinv.frameBufferFull
    rw [hphase] at h
    simp only [receiving, Bool.false_eq_true, ↓reduceIte, Nat.add_zero] at h
    rw [h, hinv.currentFrame, hinv.frameDelta]
    by_cases hle : N ≤ p.recorded.length
    · simp only [hle, decide_true, Bool.true_or]
      exact (decide_eq_true (by omega)).symm
    · rw [Nat.mod_eq_of_lt (by omega), decide_eq_false hle, Bool.false_or]
      by_cases heq : p.recorded.length + 1 = N
      · rw [beq_iff_eq.2 heq, decide_eq_true (by omega)]
      · rw [beq_eq_false_iff_ne.2 heq, decide_eq_false (by omega)]
  by_cases hahead : N ≤ p.recorded.length + 1
  · have heq : networkHookConnectedReceive p =
        { p with suspended := false, frameBufferFull := true, phase := .receivingLen [] } := by
      simp only [networkHookConnectedReceive, hfull, hahead, decide_true, ↓reduceIte]
    rw [heq]
    refine ⟨?_, ?_, rfl, rfl, rfl⟩
    · exact ⟨hinv.frameDelta, hinv.currentFrame, hinv.ring, hinv.frameToPlay,
        (decide_eq_true hahead).symm, fun _ => hahead, hinv.recordable, hlists, hinv.delayed,
        Nat.zero_lt_succ 3⟩
    · rw [hook_sent hin]
      rfl
  · obtain ⟨q, hq⟩ : ∃ q : Party, { p with suspended := false, frameBufferFull := false } = q :=
      ⟨_, rfl⟩
    have heq : networkHookConnectedReceive p = networkPrepareNextFrame q := by
      simp only [networkHookConnectedReceive, hfull, hahead, decide_false, Bool.false_eq_true, ↓reduceIte, hq]
    rw [heq]
    have hinv' : PartyInv N (networkPrepareNextFrame q) := by
      subst hq
      refine PartyInv.prepare hN hinv.ring hinv.frameDelta hinv.currentFrame
        (decide_eq_false hahead).symm hinv.recordable hlists ?_
      show p.played.length = p.recorded.length + 2 - N
      rw [hinv.delayed]
      omega
    have hsent : sentFrames (networkPrepareNextFrame q) = sentFrames p := by
      subst hq
      rw [hook_sent hin]
      rfl
    refine ⟨hinv', hsent, rfl, rfl, ?_⟩
    subst hq
    rfl

theorem sendFrame_moves {n : Nat} {rest : List UInt8} (hN : 1 ≤ N) (hinv : PartyInv N p)
    (hlink : Link A p inbox) (hphase : p.phase = .sending rest) :
    Moves N role A p ⟨if rest.length ≤ n then networkHookConnectedReceive p
      else { p with phase := .sending (rest.drop n) }, rest.take n, inbox⟩ := by
  split
  · rename_i hall
    obtain ⟨hinv', hsent, hpending, hconsumed, hplayed⟩ := receiveStart_inv hN hinv hphase
    refine .of_sent hinv' hsent ?_ (hlink.of_eq hplayed (by rw [hconsumed, hphase]; rfl))
      (.inl hplayed)
    rw [hpending, hphase, List.take_of_length_le hall]
    exact (List.append_nil _).symm
  · have hin : inHook (.sending (rest.drop n)) = inHook p.phase := by rw [hphase]; rfl
    refine .of_sent (hinv.setPhase hin (by rw [hphase]; rfl) trivial) (sent_setPhase hin) ?_
      (hlink.of_eq rfl (by rw [hphase]; rfl)) (.inl rfl)
    rw [hphase]
    exact (List.take_append_drop n rest).symm

/-! ### Receiving -/

/-- What is taken from the inbox goes on with what was received before. -/
theorem taken_append (got inbox rest : List UInt8) (n : Nat) :
    got ++ (inbox ++ rest) = (got ++ inbox.take n) ++ (inbox.drop n ++ rest) := by
  rw [List.append_assoc, ← List.append_assoc (inbox.take n), List.take_append_drop]

theorem receiveLength_moves {got : List UInt8} {n : Nat} (hinv : PartyInv N p)
    (hlink : Link A p inbox) (hphase : p.phase = .receivingLen got) :
    Moves N role A p ⟨receiveLength p (got ++ inbox.take (min n (4 - got.length))), [],
      inbox.drop (min n (4 - got.length))⟩ := by
  have hwithin : got.length < 4 := by
    have h := hinv.phase
    rwa [hphase] at h
  have hwire := hlink.wire
  rw [hphase] at hwire
  change Wire _ _ _ (got ++ _) at hwire
  rw [taken_append got inbox _ (min n (4 - got.length))] at hwire
  have hlen : (got ++ inbox.take (min n (4 - got.length))).length ≤ 4 := by
    rw [List.length_append, List.length_take]
    omega
  generalize got ++ inbox.take (min n (4 - got.length)) = got' at hwire hlen
  generalize inbox.drop (min n (4 - got.length)) = inbox' at hwire
  -- The phase stays in the second half of the hook, whatever has come.
  have hmove : ∀ (phase : Phase) (suspended : Bool), receiving phase = true → Partial phase →
      inHook phase = true → pending phase = [] →
      Wire lengthField Carries ((sentFrames A).drop p.played.length)
        (consumed phase ++ (inbox' ++ pending A.phase)) →
      Moves N role A p ⟨{ p with phase := phase, suspended := suspended }, [], inbox'⟩ := by
    intro phase suspended hreceiving hpart hin hpending hw
    have hin' : inHook phase = inHook p.phase := by
      rw [hphase, hin]
      rfl
    have hreceiving' : receiving phase = receiving p.phase := by
      rw [hphase, hreceiving]
      rfl
    refine .of_sent (hinv.setPhase hin' hreceiving' hpart) (sent_setPhase hin') ?_ ⟨hw, hlink.le⟩
      (.inl rfl)
    rw [hphase, hpending]
    rfl
  unfold receiveLength
  split
  · rename_i hshort
    exact hmove (.receivingLen got') p.suspended rfl hshort rfl rfl hwire
  · rename_i hwhole
    obtain ⟨hzero, hrest⟩ | ⟨x, ys, message, rest', hxs, hx, hpos, hlt, hgot, hrest, hw⟩ :=
      hwire.idle_or_frame (Nat.le_antisymm hlen (Nat.le_of_not_lt hwhole))
    · have hdec : (utilLeBufToDword got').toNat = 0 := hzero
      simp only [hdec, ↓reduceIte]
      exact hmove (.receivingLen []) true rfl (Nat.zero_lt_succ 3) rfl rfl hrest
    · have hdec : (utilLeBufToDword got').toNat = message.length := by
        rw [hgot]
        exact lengthField.dec_enc _ hlt
      simp only [hdec, Nat.ne_of_gt hpos, ↓reduceIte]
      refine hmove (.receivingBuf message.length []) p.suspended rfl ⟨hpos, hlt⟩ rfl rfl ?_
      show Wire _ _ _ (lengthField.enc message.length ++ [] ++ _)
      rw [List.append_nil, hrest, hxs]
      exact .frame hx hpos hlt hw

/-- The list of the frame that is played is still in the ring. -/
theorem PartyInv.toPlay (hN : 1 ≤ N) (hinv : PartyInv N p) (hreceiving : receiving p.phase = true) :
    p.played.length ≤ p.recorded.length ∧ ∃ own, p.list p.frameToPlay = some own ∧
      eventPlaybackEventList own = frameAt p p.played.length := by
  have hahead := hinv.ahead hreceiving
  have hin : inHook p.phase = true := by
    revert hreceiving
    cases p.phase <;> simp [receiving, inHook]
  have hdelayed := hinv.delayed
  have hle : p.played.length ≤ p.recorded.length := by omega
  obtain ⟨own, hown, hentries⟩ := hinv.lists p.played.length hle (by omega)
  refine ⟨hle, own, ?_, ?_⟩
  · rw [hinv.frameToPlay (by omega), Party.list]
    have hmod : (p.recorded.length + 1) % N = p.played.length % N := by
      rw [show p.recorded.length + 1 = p.played.length + N by omega, Nat.add_mod_right]
    rw [hmod]
    exact hown
  · exact playback_entries (hinv.recordable _ (frameAt_mem hle)) (.inr (if_pos (.inr hin)))
      hentries

/-- One frame is played, and the next one begins. -/
theorem playFrame_moves (hN : 1 ≤ N) (hinv : PartyInv N p) (hreceiving : receiving p.phase = true)
    (hle : p.played.length ≤ p.recorded.length) (hlt : p.played.length < (sentFrames A).length)
    {server client : List Event} {inbox' : List UInt8}
    (hplay : eventPlaybackEventList server ++ eventPlaybackEventList client =
      inOrder role (frameAt p p.played.length) (frameAt A p.played.length))
    (hwire : Wire lengthField Carries ((sentFrames A).drop (p.played.length + 1))
      (inbox' ++ pending A.phase)) :
    Moves N role A p ⟨playFrame p server client [], [], inbox'⟩ := by
  have hin : inHook p.phase = true := by
    revert hreceiving
    cases p.phase <;> simp [receiving, inHook]
  have hpending : pending p.phase = [] := by
    revert hreceiving
    cases p.phase <;> simp [receiving, pending]
  have hahead := hinv.ahead hreceiving
  obtain ⟨connected, heq⟩ : ∃ connected, playFrame p server client [] =
      networkPrepareNextFrame { p with
        connected := connected
        played := p.played ++
          [inOrder role (frameAt p p.played.length) (frameAt A p.played.length)] } := by
    unfold playFrame
    rw [hplay]
    split
    · exact ⟨false, rfl⟩
    · exact ⟨p.connected, rfl⟩
  rw [heq]
  have hlists := hinv.lists
  rw [hin] at hlists
  have hfull : p.frameBufferFull = decide (N ≤ p.recorded.length + 1) := by
    have h := hinv.frameBufferFull
    rwa [hreceiving] at h
  have hdelayed := hinv.delayed
  have hown : p.played.length < (sentFrames p).length := by
    rw [hook_sent hin, frames_length]
    omega
  refine .of_sent ?_ ?_ (hpending.trans rfl) ⟨?_, ?_⟩ (.inr ⟨hlt, hown, rfl⟩)
  · refine PartyInv.prepare hN hinv.ring hinv.frameDelta hinv.currentFrame hfull hinv.recordable
      hlists ?_
    show (p.played ++ [_]).length = p.recorded.length + 2 - N
    rw [List.length_append, List.length_singleton]
    omega
  · rw [hook_sent hin]
    rfl
  · show Wire _ _ ((sentFrames A).drop (p.played ++ [_]).length) ([] ++ _)
    rw [List.length_append, List.length_singleton]
    exact hwire
  · show (p.played ++ [_]).length ≤ _
    rw [List.length_append, List.length_singleton]
    exact hlt

theorem receiveBytes_moves {got : List UInt8} {n recvLen : Nat} (hN : 1 ≤ N) (hinv : PartyInv N p)
    (hA : PartyInv N A) (hlink : Link A p inbox) (hphase : p.phase = .receivingBuf recvLen got) (hlate : late = []) :
    Moves N role A p ⟨receiveBytes role p clk recvLen
        (got ++ inbox.take (min n (recvLen - got.length))) late, [],
      inbox.drop (min n (recvLen - got.length))⟩ := by
  have hwithin : got.length < recvLen ∧ recvLen < 2 ^ 31 := by
    have h := hinv.phase
    rwa [hphase] at h
  obtain ⟨hgot, hbound⟩ := hwithin
  have hreceiving : receiving p.phase = true := by rw [hphase]; rfl
  have hwire := hlink.wire
  rw [hphase] at hwire
  change Wire _ _ _ (lengthField.enc recvLen ++ got ++ _) at hwire
  rw [List.append_assoc, taken_append got inbox _ (min n (recvLen - got.length))] at hwire
  have hlen : (got ++ inbox.take (min n (recvLen - got.length))).length ≤ recvLen := by
    rw [List.length_append, List.length_take]
    omega
  generalize got ++ inbox.take (min n (recvLen - got.length)) = got' at hwire hlen
  generalize inbox.drop (min n (recvLen - got.length)) = inbox' at hwire
  unfold receiveBytes
  split
  · rename_i hshort
    have hin : inHook (.receivingBuf recvLen got') = inHook p.phase := by rw [hphase]; rfl
    refine .of_sent (hinv.setPhase hin (by rw [hphase]; rfl) ⟨hshort, hbound⟩) (sent_setPhase hin)
      (by rw [hphase]; rfl) ⟨?_, hlink.le⟩ (.inl rfl)
    rw [← List.append_assoc] at hwire
    exact hwire
  · rename_i hwhole
    have hfull : got'.length = recvLen := Nat.le_antisymm hlen (Nat.le_of_not_lt hwhole)
    have hdec := lengthField.dec_enc recvLen hbound
    obtain ⟨hzero, -⟩ | ⟨x, ys, message, rest', hxs, hx, hpos, hlt, henc, hrest, hw⟩ :=
      hwire.idle_or_frame (lengthField.enc_length recvLen)
    · rw [hdec] at hzero
      omega
    · have hsame : recvLen = message.length := by
        rw [← hdec, henc]
        exact lengthField.dec_enc _ hlt
      obtain ⟨rfl, rfl⟩ := List.append_inj hrest (hfull.trans hsame)
      have hsent : p.played.length < (sentFrames A).length := by
        have hlen := congrArg List.length hxs
        rw [List.length_drop, List.length_cons] at hlen
        omega
      rw [drop_sent hsent] at hxs
      obtain ⟨rfl, rfl⟩ := List.cons.inj hxs
      obtain ⟨hle, own, hown, hplayOwn⟩ := hinv.toPlay hN hreceiving
      obtain ⟨remote, hremote, hentries⟩ := hx clk
      have hplayRemote : eventPlaybackEventList remote = frameAt A p.played.length := by
        have hbegun : p.played.length ≤ A.recorded.length :=
          Nat.le_of_lt_succ (Nat.lt_of_lt_of_le hsent sent_le)
        exact playback_entries (hA.recordable _ (frameAt_mem hbegun)) (.inr rfl) hentries
      unfold receiveFrame
      rw [hremote, hown, hlate]
      cases role with
      | server =>
        exact playFrame_moves hN hinv hreceiving hle hsent (by rw [hplayOwn, hplayRemote]; rfl) hw
      | client =>
        exact playFrame_moves hN hinv hreceiving hle hsent (by rw [hplayOwn, hplayRemote]; rfl) hw

/-- One step of a party, while its peer sends to it. -/
theorem partyStep_moves {a : Action} (hN : 1 ≤ N) (hinv : PartyInv N p) (hA : PartyInv N A)
    (hlink : Link A p inbox) (hok : StepOk p a) (h : partyStep role p inbox a = some m) :
    Moves N role A p m := by
  cases a with
  | record clk type data =>
    simp only [partyStep] at h
    split at h
    · rename_i hif
      cases h
      exact record_moves hN hinv hlink hif.1 hif.2
    · cases h
  | suspend =>
    simp only [partyStep] at h
    split at h
    · rename_i hif
      cases h
      exact suspend_moves hinv hlink hif
    · cases h
  | hook clk =>
    simp only [partyStep] at h
    split at h
    · rename_i hif
      cases h
      exact hook_moves hN hinv hlink hif.1 hok
    · cases h
  | send n =>
    simp only [partyStep] at h
    split at h
    · rename_i rest hphase
      cases h
      exact sendSuspending_moves hinv hlink hphase
    · rename_i rest hphase
      cases h
      exact sendFrame_moves hN hinv hlink hphase
    · cases h
  | receive n clk late =>
    simp only [partyStep] at h
    split at h
    · rename_i got hphase
      cases h
      exact receiveLength_moves hinv hlink hphase
    · rename_i recvLen got hphase
      cases h
      exact receiveBytes_moves hN hinv hA hlink hphase hok
    · cases h

/-! ## Both parties -/

/-- The frames of the server and the client with one number, in the order they are played in. -/
def together (s : Session) (j : Nat) : List Entry :=
  frameAt (s.party .server) j ++ frameAt (s.party .client) j

structure Inv (N : Nat) (s : Session) : Prop where
  party : ∀ r, PartyInv N (s.party r)
  link : ∀ r, Link (s.party r.other) (s.party r) (s.inbox r)
  played : ∀ r j, j < (s.party r).played.length → (s.party r).played[j]? = some (together s j)

theorem other_other (r : Role) : r.other.other = r := by
  cases r <;> rfl

theorem eq_or_other (r r' : Role) : r' = r ∨ r' = r.other := by
  cases r <;> cases r' <;> simp [Role.other]

theorem together_eq (s : Session) (r : Role) (j : Nat) :
    together s j = inOrder r (frameAt (s.party r) j) (frameAt (s.party r.other) j) := by
  cases r <;> rfl

theorem move_self (s : Session) (r : Role) (m : Moved) :
    (s.move r m).party r = m.party ∧ (s.move r m).party r.other = s.party r.other ∧
      (s.move r m).inbox r = m.inbox ∧
      (s.move r m).inbox r.other = s.inbox r.other ++ m.sent := by
  cases r <;> exact ⟨rfl, rfl, rfl, rfl⟩

/-- A frame that was played was sent by both. -/
theorem Inv.played_sent (h : Inv N s) (hN : 1 ≤ N) (r r' : Role)
    (hj : j < (s.party r).played.length) : j < (sentFrames (s.party r')).length := by
  obtain rfl | rfl := eq_or_other r r'
  · have hdelayed := (h.party r').delayed
    have hle := @recorded_le_sent (s.party r')
    omega
  · exact Nat.lt_of_lt_of_le hj (h.link r).le

theorem step_inv {r : Role} {a : Action} (hN : 1 ≤ N) (h : Inv N s) (hok : StepOk (s.party r) a)
    (hstep : step s r a = some s') : Inv N s' := by
  obtain ⟨m, hm, rfl⟩ := Option.map_eq_some_iff.1 hstep
  have hmoves := partyStep_moves hN (h.party r) (h.party r.other) (h.link r) hok hm
  obtain ⟨hself, hother, hinbox, hinboxOther⟩ := move_self s r m
  -- The frames that both have sent stay.
  have hframes : ∀ r' j, j < (sentFrames (s.party r')).length →
      frameAt ((s.move r m).party r') j = frameAt (s.party r') j := by
    intro r' j hj
    obtain rfl | rfl := eq_or_other r r'
    · rw [hself]
      exact hmoves.frames j hj
    · rw [hother]
  have htogether : ∀ r' j, j < (s.party r').played.length →
      together (s.move r m) j = together s j := by
    intro r' j hj
    rw [together, together, hframes .server j (h.played_sent hN r' .server hj),
      hframes .client j (h.played_sent hN r' .client hj)]
  constructor
  case party =>
    intro r'
    obtain rfl | rfl := eq_or_other r r'
    · rw [hself]
      exact hmoves.inv
    · rw [hother]
      exact h.party _
  case link =>
    intro r'
    obtain rfl | rfl := eq_or_other r r'
    · rw [hself, hother, hinbox]
      exact hmoves.link
    · have hlink := h.link r.other
      rw [other_other] at hlink ⊢
      rw [hself, hother, hinboxOther]
      refine ⟨?_, hlink.le.trans hmoves.sent_le⟩
      have hwire := hlink.wire
      rw [← List.append_assoc] at hwire
      have hwire' := hmoves.sent _ hlink.le _ hwire
      simpa only [List.append_assoc] using hwire'
  case played =>
    intro r' j hj
    obtain rfl | rfl := eq_or_other r r'
    · rw [hself] at hj ⊢
      obtain hsame | ⟨hsent, hown, hnew⟩ := hmoves.played
      · rw [hsame] at hj ⊢
        rw [htogether r' j hj]
        exact h.played r' j hj
      · rw [hnew, List.length_append, List.length_singleton] at hj
        rw [hnew]
        obtain hlt | rfl := Nat.lt_or_eq_of_le (Nat.le_of_lt_succ hj)
        · rw [List.getElem?_append_left hlt, htogether r' j hlt]
          exact h.played r' j hlt
        · rw [List.getElem?_concat_length, together_eq _ r', hframes r' _ hown, hframes r'.other _ hsent]
    · rw [hother] at hj ⊢
      rw [htogether _ j hj]
      exact h.played _ j hj

/-! ## Runs -/

/-- What is agreed on: each party has played the frames up to `N - 1` before the current one, each
once, as the server's list and then the client's. No party has crashed, nor do both wait for bytes
that are not on their way. -/
structure Agreed (N : Nat) (s : Session) : Prop where
  delayed : ∀ r, (s.party r).played.length = (s.party r).recorded.length + 1 - N
  played : ∀ r j, j < (s.party r).played.length → (s.party r).played[j]? = some (together s j)
  alive : ∀ r, (s.party r).phase ≠ .crashed
  moving : ∃ r, receiving (s.party r).phase = false ∨ s.inbox r ≠ []

/-- A party that waits for a message has played all that its peer has sent. -/
theorem Link.waiting (hlink : Link A p []) (hreceiving : receiving p.phase = true)
    (hwithin : Partial p.phase) (hpeer : receiving A.phase = true) :
    A.recorded.length + 1 ≤ p.played.length := by
  have hin : inHook A.phase = true := by
    revert hpeer
    cases A.phase <;> simp [receiving, inHook]
  have hpending : pending A.phase = [] := by
    revert hpeer
    cases A.phase <;> simp [receiving, pending]
  have hwire := hlink.wire
  rw [hpending, List.append_nil, List.append_nil] at hwire
  have hnone : (sentFrames A).drop p.played.length = [] := by
    cases hphase : p.phase with
    | receivingLen got =>
      rw [hphase] at hwire hwithin
      exact (hwire.nothing_left hwithin).1
    | receivingBuf recvLen got =>
      rw [hphase] at hwire hwithin
      obtain ⟨hgot, hbound⟩ := hwithin
      have hdec := lengthField.dec_enc recvLen hbound
      obtain ⟨hzero, -⟩ | ⟨x, ys, message, rest', -, -, -, hlt, henc, hrest, -⟩ :=
        Wire.idle_or_frame hwire (lengthField.enc_length recvLen)
      · rw [hdec] at hzero
        omega
      · have hsame := lengthField.dec_enc _ hlt
        rw [← henc, hdec] at hsame
        have hlen := congrArg List.length hrest
        rw [List.length_append] at hlen
        omega
    | running => rw [hphase] at hreceiving; cases hreceiving
    | suspending rest => rw [hphase] at hreceiving; cases hreceiving
    | sending rest => rw [hphase] at hreceiving; cases hreceiving
    | crashed => rw [hphase] at hreceiving; cases hreceiving
  have hle := List.drop_eq_nil_iff.1 hnone
  rwa [hook_sent hin, frames_length] at hle

theorem Inv.agreed (hN : 1 ≤ N) (h : Inv N s) : Agreed N s := by
  refine ⟨fun r => (h.party r).delayed, h.played, fun r hcrashed => ?_, ?_⟩
  · have hwithin := (h.party r).phase
    rw [hcrashed] at hwithin
    exact hwithin
  · by_contra hstuck
    have hwait : ∀ r, receiving (s.party r).phase = true ∧ s.inbox r = [] := by
      intro r
      by_cases hreceiving : receiving (s.party r).phase = true
      · by_cases hinbox : s.inbox r = []
        · exact ⟨hreceiving, hinbox⟩
        · exact absurd ⟨r, .inr hinbox⟩ hstuck
      · exact absurd ⟨r, .inl (Bool.eq_false_iff.2 hreceiving)⟩ hstuck
    have hbehind : ∀ r, (s.party r.other).recorded.length + 1 ≤ (s.party r).played.length := by
      intro r
      have hlink := h.link r
      rw [(hwait r).2] at hlink
      exact hlink.waiting (hwait r).1 (h.party r).phase (hwait r.other).1
    have hserver := hbehind .server
    have hclient := hbehind .client
    have hs := (h.party .server).delayed
    have hc := (h.party .client).delayed
    simp only [Role.other] at hserver hclient
    omega

/-- What earlier connections left does not matter, unless there is no delay. -/
theorem connect_inv (hN : 1 ≤ N) (hfresh : N = 1 → p.frameToPlay = 0) : PartyInv N (connect N p) := by
  constructor
  case frameDelta => rfl
  case currentFrame => exact (Nat.zero_mod N).symm
  case ring =>
    show ((List.replicate N none).set 0 (some [])).length = N
    rw [List.length_set, List.length_replicate]
  case frameToPlay =>
    intro hone
    obtain hone | rfl := hone
    · cases hone
    · exact (hfresh rfl).trans (Nat.mod_one _).symm
  case frameBufferFull => exact (decide_eq_false (by show ¬ N ≤ 0 + 0; omega)).symm
  case ahead => exact fun h => by cases h
  case recordable =>
    intro frame hframe x hx
    rw [List.mem_singleton.1 hframe] at hx
    cases hx
  case lists =>
    intro j hj _
    obtain rfl : j = 0 := Nat.le_zero.1 hj
    refine ⟨[], ?_, rfl⟩
    show ((List.replicate N none).set 0 (some []))[0 % N]?.join = _
    rw [Nat.zero_mod, List.getElem?_set_self (by rw [List.length_replicate]; exact hN),
      Option.join_some]
  case delayed =>
    show 0 = 0 + 1 - N
    omega
  case phase => trivial

theorem begin_inv {old : Role → Party} (hN : 1 ≤ N)
    (hfresh : ∀ r, N = 1 → (old r).frameToPlay = 0) : Inv N (begin N old) where
  party r := connect_inv hN (hfresh r)
  link _ := ⟨.nil, Nat.le_refl 0⟩
  played _ _ hj := absurd hj (Nat.not_lt_zero _)

/-- Every step of a run meets the condition. -/
def RunOk (s : Session) : List (Role × Action) → Prop
  | [] => True
  | (r, a) :: rest =>
    StepOk (s.party r) a ∧
      match step s r a with
      | none => True
      | some s' => RunOk s' rest

instance (p : Party) (a : Action) : Decidable (StepOk p a) :=
  match a with
  | .hook _ =>
    match h : p.list p.currentFrame with
    | none => isTrue fun list hlist => by cases h.symm.trans hlist
    | some list =>
      decidable_of_iff ((list.map fun e => 12 + e.data.length).sum + 12 < 2 ^ 31)
        ⟨fun hlt list' hlist => by cases h.symm.trans hlist; exact hlt, fun hall => hall list h⟩
  | .receive _ _ late => inferInstanceAs (Decidable (late = []))
  | .record .. | .suspend | .send _ => isTrue trivial

instance decidableRunOk (s : Session) (actions : List (Role × Action)) :
    Decidable (RunOk s actions) :=
  match actions with
  | [] => isTrue trivial
  | (r, a) :: rest =>
    match h : step s r a with
    | none => decidable_of_iff (StepOk (s.party r) a) (by simp only [RunOk, h, and_true])
    | some s' =>
      have := decidableRunOk s' rest
      decidable_of_iff (StepOk (s.party r) a ∧ RunOk s' rest) (by simp only [RunOk, h])

theorem run_inv {actions : List (Role × Action)} (hN : 1 ≤ N) (h : Inv N s)
    (hok : RunOk s actions) (hrun : run s actions = some s') : Inv N s' := by
  induction actions generalizing s with
  | nil =>
    cases hrun
    exact h
  | cons x rest ih =>
    obtain ⟨r, a⟩ := x
    obtain ⟨t, hstep, hrest⟩ := Option.bind_eq_some_iff.1 hrun
    obtain ⟨hfirst, hok⟩ := hok
    rw [hstep] at hok
    exact ih (step_inv hN h hfirst hstep) hok hrest

/-- Both parties play the same, however their steps are ordered and their streams cut, while every
list to send fits and no device records anything as it is played to. -/
theorem netplay_agreed {old : Role → Party} {actions : List (Role × Action)} (hN : 1 ≤ N)
    (hfresh : ∀ r, N = 1 → (old r).frameToPlay = 0) (hok : RunOk (begin N old) actions)
    (hrun : run (begin N old) actions = some s) : Agreed N s :=
  (run_inv hN (begin_inv hN hfresh) hok hrun).agreed hN

end

/-- An emulator that was never connected. -/
def unconnected : Party where
  frameDelta := 0
  currentFrame := 0
  frameToPlay := 0
  frameBufferFull := false
  suspended := false
  connected := false
  frameEventList := []
  phase := .running
  recorded := []
  recording := []
  played := []

/-- The user of the server changes the resource "BoardType", the client suspends, and both play the
frame, some bytes at a time. -/
def boardTypeRun (late : Late) : List (Role × Action) :=
  [(.server, .record 10 eventResource [0x42, 0x6f, 0x61, 0x72, 0x64, 0x54, 0x79, 0x70, 0x65, 0, 1, 0,
      0, 0]), (.client, .suspend), (.client, .send 3), (.server, .hook 20), (.client, .send 9),
    (.server, .send 9), (.client, .hook 25), (.client, .send 7), (.server, .send 99),
    (.client, .send 99), (.client, .receive 4 30 []), (.client, .receive 9 30 []),
    (.client, .receive 99 30 []), (.server, .receive 3 40 []), (.server, .receive 9 40 []),
    (.server, .receive 9 40 []), (.server, .receive 99 40 late)]

theorem netplay_agreed_boardType :
    ∃ s, run (begin 1 fun _ => unconnected) (boardTypeRun []) = some s ∧ Agreed 1 s := by
  obtain ⟨s, hrun⟩ : ∃ s, run (begin 1 fun _ => unconnected) (boardTypeRun []) = some s := ⟨_, rfl⟩
  exact ⟨s, hrun, netplay_agreed (by decide) (fun _ _ => rfl) (by decide) hrun⟩

/-! ## Where they do not agree -/

/-- Setting "BoardType" triggers a reset of the machine, which is recorded in a list that has been
sent already. -/
theorem boardType_reset :
    (run (begin 1 fun _ => unconnected) (boardTypeRun [(40, eventResetcpu, [1, 0, 0, 0])])).map
        (fun s => ((s.party .server).played[0]?, together s 0)) =
      some (some [(eventResource, [0x42, 0x6f, 0x61, 0x72, 0x64, 0x54, 0x79, 0x70, 0x65, 0, 1, 0, 0,
        0])], [(eventResource, [0x42, 0x6f, 0x61, 0x72, 0x64, 0x54, 0x79, 0x70, 0x65, 0, 1, 0, 0, 0]),
          (eventResetcpu, [1, 0, 0, 0])]) := by
  decide

/-- A first connection in which the server has sent the list of one frame. -/
def firstConnection : List (Role × Action) := [(.server, .hook 10), (.server, .send 99)]

/-- A frame without events that the server plays. -/
def secondConnection : List (Role × Action) :=
  [(.server, .hook 20), (.server, .send 99), (.client, .hook 20), (.client, .send 99),
    (.server, .receive 4 30 []), (.server, .receive 99 30 [])]

/-- Where the first connection had a delay and the second has none, the server plays a list that is
not in its array. -/
theorem secondConnection_crashed : ((run (begin 3 fun _ => unconnected) firstConnection).bind fun t =>
        run (begin 1 t.party) secondConnection).map (fun s => (s.party .server).phase) =
      some .crashed := by
  decide

theorem netplay_disagreed :
    (∃ s, run (begin 1 fun _ => unconnected) (boardTypeRun [(40, eventResetcpu, [1, 0, 0, 0])]) =
        some s ∧ ¬ Agreed 1 s) ∧
      ∃ s t, run (begin 3 fun _ => unconnected) firstConnection = some t ∧
        run (begin 1 t.party) secondConnection = some s ∧ ¬ Agreed 1 s := by
  constructor
  · obtain ⟨s, hrun, hs⟩ := Option.map_eq_some_iff.1 boardType_reset
    obtain ⟨hplayed, htogether⟩ := Prod.mk.inj hs
    refine ⟨s, hrun, fun hagreed => ?_⟩
    have hlt := (List.getElem?_eq_some_iff.1 hplayed).1
    have hsame := hagreed.played .server 0 hlt
    rw [hplayed, htogether] at hsame
    exact absurd hsame (by decide)
  · obtain ⟨s, hrun, hs⟩ := Option.map_eq_some_iff.1 secondConnection_crashed
    obtain ⟨t, hfirst, hsecond⟩ := Option.bind_eq_some_iff.1 hrun
    exact ⟨s, t, hfirst, hsecond, fun hagreed => hagreed.alive .server hs⟩

end Vice.L4.NetplayAgreement
