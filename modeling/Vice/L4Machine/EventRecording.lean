import Vice.L4Machine.EventReplay

/-!
# Recorded histories replay

A recording begins with EVENT_INITIAL, which says whether the clock is that of the start snapshot
or that of a reset. What the alarm handler has no case for, and what does not fit into a module, is
recorded and does not come back.

Results:
* `recorded_begun`: between two resets the clocks of a recorded list do not go back.
* `recorded_comesBack`: written to the end snapshot, read and played back, every event behind
  EVENT_INITIAL is handed on once, in order and at its clock.
-/
namespace Vice.L4.EventRecording
open Vice.L0.ByteFile Vice.L2.Snapshot Vice.L2.SnapshotModules
open Vice.L4.EventHistory Vice.L4.EventRead Vice.L4.EventReplay

section
variable {e last : Event} {es post : List Event} {cps nts floor fuel K : Nat} {p q : Player}
  {cycles : Nat → Nat}

/-! ## Recording -/

/-- The lists that a recording fills, begun at the clock `start` and now at `clk`: an event is
recorded as it happens, a reset of the CPU sets the clock, and a list that was played back before
it went on has timestamps too.
mirrors src/event.c:690-705 (`event_initial_write`) and src/event.c:371-376 (`event_record`) -/
inductive Recorded (start : UInt64) : UInt64 → List Event → Prop
  | fileSave (names : List UInt8) :
      Recorded start start
        (eventRecordInList [] start eventInitial (eventStartModeFileSave :: names))
  | startReset (version : List UInt8) :
      Recorded start (UInt64.ofNat resetClk)
        (eventRecordInList [] start eventInitial (eventStartModeReset :: version))
  | wait {clk clk' : UInt64} {es : List Event} (h : Recorded start clk es) (hle : clk ≤ clk') :
      Recorded start clk' es
  | stamp {clk : UInt64} {es : List Event} {e : Event} (h : Recorded start clk es)
      (htype : e.type = eventTimestamp) : Recorded start clk (es ++ [e])
  | record {clk : UInt64} {es : List Event} {type : UInt32} (h : Recorded start clk es)
      (htype : type ∈ handedOn) (data : List UInt8) :
      Recorded start clk (eventRecordInList es clk type data)
  | resetcpu {clk : UInt64} {es : List Event} (h : Recorded start clk es) (data : List UInt8) :
      Recorded start (UInt64.ofNat resetClk) (eventRecordInList es clk eventResetcpu data)

/-- What EVENT_INITIAL says of the clock that the events begin at. -/
def StartsAt (start : UInt64) (initial : Event) (floor : Nat) : Prop :=
  (initial.data.headD 0 = eventStartModeFileSave ∧ floor = start.toNat) ∨
    (initial.data.headD 0 = eventStartModeReset ∧ floor = resetClk)

/-- A recorded list: EVENT_INITIAL, and events at clocks that only a reset takes back. -/
structure Begun (start clk : UInt64) (initial : Event) (rest : List Event) (floor : Nat) :
    Prop where
  initialType : initial.type = eventInitial
  initialClk : initial.clk = start
  startsAt : StartsAt start initial floor
  clocked : Clocked floor rest
  clkAfter : floorAfter floor rest ≤ clk.toNat

theorem recordInList_data {type : UInt32} {clk : UInt64} {data : List UInt8} (htype : type ∈ recordsData) :
    eventRecordInList es clk type data = es ++ [⟨type, clk, data⟩] := if_pos htype

theorem handedOn_recordsData : ∀ type ∈ handedOn, type ∈ recordsData := by
  intro type htype
  simp only [handedOn, List.mem_cons, List.not_mem_nil, or_false] at htype
  rcases htype with rfl | rfl | rfl | rfl | rfl | rfl | rfl <;> decide

theorem unstamped_snoc (hstamp : e.type ≠ eventTimestamp) : unstamped (es ++ [e]) = unstamped es ++ [e] := by
  unfold unstamped
  rw [List.filter_append, List.filter_cons_of_pos (by simpa using hstamp), List.filter_nil]

/-- One event more, where the clock goes on from `after`. -/
theorem Begun.snoc {start clk after : UInt64} {initial : Event} {rest : List Event}
    (h : Begun start clk initial rest floor) {type : UInt32} (data : List UInt8)
    (htype : type ∈ handedOn ∨ type = eventResetcpu)
    (hafter : (if type = eventResetcpu then resetClk else clk.toNat) ≤ after.toNat) :
    Begun start after initial (rest ++ [⟨type, clk, data⟩]) floor where
  initialType := h.initialType
  initialClk := h.initialClk
  startsAt := h.startsAt
  clocked := clocked_snoc h.clocked h.clkAfter htype
  clkAfter := by
    rw [floorAfter_snoc]
    exact hafter

theorem recorded_begun {start clk : UInt64} (h : Recorded start clk es) :
    ∃ initial rest floor, unstamped es = initial :: rest ∧
      Begun start clk initial rest floor := by
  induction h with
  | fileSave names =>
    exact ⟨_, [], start.toNat, rfl, rfl, rfl, .inl ⟨rfl, rfl⟩, trivial, Nat.le_refl _⟩
  | startReset version =>
    exact ⟨_, [], resetClk, rfl, rfl, rfl, .inr ⟨rfl, rfl⟩, trivial, Nat.le_refl _⟩
  | wait _ hle ih =>
    obtain ⟨initial, rest, floor, hes, hbegun⟩ := ih
    exact ⟨initial, rest, floor, hes, hbegun.initialType, hbegun.initialClk, hbegun.startsAt,
      hbegun.clocked, hbegun.clkAfter.trans (UInt64.le_iff_toNat_le.1 hle)⟩
  | @stamp clk es e _ htype ih =>
    obtain ⟨initial, rest, floor, hes, hbegun⟩ := ih
    refine ⟨initial, rest, floor, ?_, hbegun⟩
    rw [← hes, unstamped, unstamped, List.filter_append,
      List.filter_cons_of_neg (by simpa using htype), List.filter_nil, List.append_nil]
  | @record clk es type _ htype data ih =>
    obtain ⟨initial, rest, floor, hes, hbegun⟩ := ih
    obtain ⟨-, hstamp, hreset, -⟩ := handedOn_types (e := ⟨type, clk, data⟩) htype
    refine ⟨initial, rest ++ [⟨type, clk, data⟩], floor, ?_,
      hbegun.snoc data (.inl htype) (Nat.le_of_eq (if_neg hreset))⟩
    rw [recordInList_data (handedOn_recordsData type htype), unstamped_snoc hstamp, hes]
    rfl
  | @resetcpu clk es _ data ih =>
    obtain ⟨initial, rest, floor, hes, hbegun⟩ := ih
    refine ⟨initial, rest ++ [⟨eventResetcpu, clk, data⟩], floor, ?_,
      hbegun.snoc data (.inr rfl) (Nat.le_of_eq (if_pos rfl))⟩
    rw [recordInList_data (by decide), unstamped_snoc (by show eventResetcpu ≠ _; decide), hes]
    rfl

/-! ## The start -/

theorem unstamped_append (hlast : last.type = eventListEnd) :
    unstamped (es ++ last :: post) = unstamped es ++ last :: unstamped post := by
  have hstamp : last.type ≠ eventTimestamp := by rw [hlast]; decide
  unfold unstamped
  rw [List.filter_append, List.filter_cons_of_pos (by simpa using hstamp)]

/-- What is read begins with EVENT_INITIAL, and the seconds count from where it says. -/
theorem readBack_initial (htype : e.type = eventInitial) : readBack cps nts (e :: es) = e ::
      readBack cps (if e.data.headD 0 = eventStartModeReset then 0 else e.clk.toNat) es := by
  have hend : e.type ≠ eventListEnd := by rw [htype]; decide
  have hreset : e.type ≠ eventResetcpu := by rw [htype]; decide
  rw [readBack, if_neg hend, if_neg hreset]
  simp only [stampsBefore, htype, ↓reduceIte, List.nil_append]

/-- After a reset the first node is a timestamp unless the list ends there, so `event_reset_ack`
does not pass an event. -/
theorem readBack_head (hclocked : Clocked resetClk es) (hlast : last.type = eventListEnd) :
    ∃ m ms, readBack cps 0 (es ++ last :: post) = m :: ms ∧ m.type ≠ eventResetcpu := by
  have hstart : ∀ e es, e.type ≠ eventInitial → 0 < e.clk.toNat →
      ∃ m ms, readBack cps 0 (e :: es) = m :: ms ∧ m.type ≠ eventResetcpu := by
    intro e es hinitial hclk
    obtain ⟨fuel, hfuel⟩ := Nat.exists_eq_succ_of_ne_zero (Nat.ne_of_gt hclk)
    have hzero : (if (0 : Nat) = clockMax then e.clk.toNat else 0) = 0 := if_neg (by decide)
    rw [readBack, stampsBefore_eq hinitial, hzero]
    rw [hfuel, insertTimestamps, if_pos (Nat.succ_pos fuel)]
    simp only [List.cons_append]
    split
    · exact ⟨_, _, rfl, by show eventTimestamp ≠ eventResetcpu; decide⟩
    · exact ⟨_, _, rfl, by show eventTimestamp ≠ eventResetcpu; decide⟩
  cases es with
  | nil =>
    have hinitial : last.type ≠ eventInitial := by rw [hlast]; decide
    by_cases hclk : 0 < last.clk.toNat
    · exact hstart last post hinitial hclk
    · have hzero : last.clk.toNat = 0 := Nat.eq_zero_of_not_pos hclk
      refine ⟨last, [], ?_, by rw [hlast]; decide⟩
      rw [List.nil_append, readBack, if_pos hlast, stampsBefore_eq hinitial, hzero, insertTimestamps]
      rfl
  | cons e es =>
    obtain ⟨hfloor, htype, -⟩ := hclocked
    exact hstart e _ (played_types htype).2.2 (Nat.lt_of_lt_of_le (by decide) hfloor)

/-- Playing back from `p` hands the events `es` on and stops; whenever one looks, it has handed on
the first of them. -/
def Replays (K : Nat) (p : Player) (es : List Event) : Prop :=
  ∀ cycles, Bounded K cycles → ∃ ds, ds.map Delivery.event = es ∧ (∀ d ∈ ds, OnTime K d) ∧
    (∃ n q, run cycles n p = some q ∧ Stopped q ∧ q.delivered = ds) ∧
    ∀ m, ∃ q, run cycles m p = some q ∧ q.delivered <+: ds

/-- An earlier state of a run. -/
theorem run_earlier {n m : Nat} (h : run cycles n p = some q) (hle : m ≤ n) :
    ∃ r, run cycles m p = some r ∧ r.delivered <+: q.delivered := by
  obtain ⟨k, rfl⟩ := Nat.exists_eq_add_of_le hle
  rw [run_add] at h
  obtain ⟨r, hr, hq⟩ := Option.bind_eq_some_iff.1 h
  exact ⟨r, hr, run_grows hq⟩

/-- A later state of a run that has stopped. -/
theorem run_later {n m : Nat} (h : run cycles n p = some q) (hstop : Stopped q) (hle : n ≤ m) :
    ∃ r, run cycles m p = some r ∧ r.delivered = q.delivered := by
  obtain ⟨k, rfl⟩ := Nat.exists_eq_add_of_le hle
  obtain ⟨r, hr, -, hsame⟩ := run_stopped hstop (fun i => cycles (n + i)) k
  refine ⟨r, ?_, hsame⟩
  rw [run_add, h]
  exact hr

theorem Plays.replays (h : Plays K p es) (hnone : p.delivered = []) : Replays K p es := by
  intro cycles hcycles
  obtain ⟨n, q, ds, hrun, hstop, hdel, hmap, htime⟩ := h cycles hcycles
  rw [hnone, List.nil_append] at hdel
  refine ⟨ds, hmap, htime, ⟨n, q, hrun, hstop, hdel⟩, fun m => ?_⟩
  obtain hle | hle := Nat.le_total m n
  · obtain ⟨r, hr, hpre⟩ := run_earlier hrun hle
    exact ⟨r, hr, hdel ▸ hpre⟩
  · obtain ⟨r, hr, hsame⟩ := run_later hrun hstop hle
    exact ⟨r, hr, ⟨[], by rw [List.append_nil, hsame, hdel]⟩⟩

/-- Of a list that was read, everything behind EVENT_INITIAL is played. -/
theorem start_replays {start clk : UInt64} {initial : Event} {rest : List Event}
    (hcps : 0 < cps) (hK : 1 ≤ K) (hbegun : Begun start clk initial rest floor)
    (hlast : last.type = eventListEnd) (now : Nat) :
    ∃ p, eventPlaybackStart (readBack cps clockMax (initial :: (rest ++ last :: post))) now
      start.toNat = some p ∧ Replays K p rest := by
  rw [readBack_initial hbegun.initialType, hbegun.initialClk]
  obtain ⟨hmode, hfloor⟩ | ⟨hmode, hfloor⟩ := hbegun.startsAt
  · rw [hmode, if_neg (by decide)]
    have hclocked := hbegun.clocked
    rw [hfloor] at hclocked
    have hplayable : Playable start.toNat start.toNat
        (readBack cps start.toNat (rest ++ last :: post)) :=
      playable_readBack hcps hclocked hlast (Nat.le_refl _) (Nat.le_refl _) (Nat.le_refl _)
    have hplayed : played (readBack cps start.toNat (rest ++ last :: post)) = rest :=
      played_readBack hclocked hlast
    obtain ⟨m, ms, hnodes, -⟩ := hplayable.head
    rw [hnodes] at hplayable hplayed ⊢
    refine ⟨{ unplayed (m :: ms) start.toNat with
      eventAlarm := some m.clk.toNat, playbackActive := true }, ?_, ?_⟩
    · simp only [eventPlaybackStart, startPlayback, hbegun.initialType, hmode, ↓reduceIte, nextCurrentList,
        nextAlarmSet, unplayed, List.tail_cons, Option.map_some]
    · refine Plays.replays ?_ rfl
      rw [← hplayed]
      exact plays hK hplayable _ m ms rfl
        ⟨rfl, rfl, rfl, rfl, rfl, .inr (by show start.toNat < _; omega)⟩
  · rw [hmode, if_pos rfl]
    have hclocked := hbegun.clocked
    rw [hfloor] at hclocked
    have hplayable : Playable resetClk 0 (readBack cps 0 (rest ++ last :: post)) :=
      playable_readBack hcps hclocked hlast (Nat.le_refl _) (Nat.zero_le _) (Nat.le_refl _)
    have hplayed : played (readBack cps 0 (rest ++ last :: post)) = rest :=
      played_readBack hclocked hlast
    obtain ⟨m, ms, hnodes, hreset⟩ : ∃ m ms, readBack cps 0 (rest ++ last :: post) = m :: ms ∧
      m.type ≠ eventResetcpu := readBack_head hclocked hlast
    rw [hnodes] at hplayable hplayed ⊢
    refine ⟨{ unplayed (m :: ms) now with
      playbackActive := true, playbackResetAck := true, resetPending := true }, ?_, ?_⟩
    · have hother : eventStartModeReset ≠ eventStartModeFileSave := by decide
      simp only [eventPlaybackStart, startPlayback, hbegun.initialType, hmode, hother, ↓reduceIte,
        nextCurrentList, unplayed, List.tail_cons, Option.map_some]
    · refine @Plays.replays rest K _ ?_ rfl
      rw [← List.nil_append rest]
      refine Plays.after [] fun cycles hcycles => ⟨1, { unplayed (m :: ms) resetClk with
        eventAlarm := some m.clk.toNat, playbackActive := true }, [], ?_, rfl, rfl,
        (fun d hd => by cases hd), ?_⟩
      · simp only [run, Option.bind_some, step, unplayed, eventResetAck, ackPlaybackReset,
          nextAlarmSet, passResetcpu, hreset, ↓reduceIte]
      · rw [← hplayed]
        exact plays hK hplayable _ m ms rfl
          ⟨rfl, rfl, rfl, rfl, rfl, .inr (by show resetClk < _; omega)⟩

/-! ## The whole way -/

variable {version : ViceVersion} {major minor : UInt8} {machine : CString}
  {before after : List Contents}

/-- What was saved is read, wherever the file has been read before, and played back: the events
`es` come, each of them once and at its clock. -/
def ComesBack (cps K fuel pos now snapshotClk : Nat) (saved : Except SnapshotError Snapshot)
    (es : List Event) : Prop :=
  ∃ s nodes p, saved = .ok s ∧
    eventSnapshotReadModule cps fuel { s with file := fseek s.file pos } =
      some (.ok (some nodes)) ∧
    eventPlaybackStart nodes now snapshotClk = some p ∧ Replays K p es

/-- A list from the start snapshot on, with a key, a reset and a joystick move behind it. -/
def keyResetJoystick : List Event :=
  [⟨eventInitial, 100, [eventStartModeFileSave]⟩, ⟨eventKeyboardMatrix, 120, [1]⟩,
    ⟨eventResetcpu, 130, [0]⟩, ⟨eventJoystickValue, 50, [2]⟩]

theorem recorded_keyResetJoystick : Recorded 100 50 keyResetJoystick := by
  have hinitial : Recorded 100 100 [⟨eventInitial, 100, [eventStartModeFileSave]⟩] := .fileSave []
  have hkey := @Recorded.record 100 120 _ eventKeyboardMatrix (.wait hinitial (by decide))
    (by decide) [1]
  have hreset := @Recorded.resetcpu 100 130 _ (.wait hkey (by decide)) [0]
  exact @Recorded.record 100 50 _ eventJoystickValue (.wait hreset (by decide)) (by decide) [2]

theorem saved_keyResetJoystick : Saved [] (keyResetJoystick ++ [freshNode]) [] := by
  refine ⟨List.pairwise_singleton _ _, fun d hd => ?_⟩
  rw [List.mem_singleton.1 hd]
  exact ⟨by decide, by decide⟩

/-- The snapshot with one list in it. -/
def c64History (nodes : List Event) : Except SnapshotError Snapshot :=
  endSnapshot ⟨3, 9, 0, 0, 0⟩ 1 0 ⟨[0x43, 0x36, 0x34], c64_noZero⟩ [] nodes []

/-- All that playing back hands on is there when it has stopped. -/
theorem Replays.delivered (h : Replays K p es) (hcycles : Bounded K cycles) {n : Nat}
    (hrun : run cycles n p = some q) (hstop : Stopped q) : q.delivered.map Delivery.event = es := by
  obtain ⟨ds, hmap, -, ⟨n', q', hrun', hstop', hds⟩, -⟩ := h cycles hcycles
  rw [← hmap, ← hds]
  obtain hle | hle := Nat.le_total n n'
  · obtain ⟨r, hr, hsame⟩ := run_later hrun hstop hle
    rw [hrun'] at hr
    cases hr
    rw [hsame]
  · obtain ⟨r, hr, hsame⟩ := run_later hrun' hstop' hle
    rw [hrun] at hr
    cases hr
    rw [hsame]

/-- The values of a list have no strings among them. -/
theorem eventContents_short : ∀ v ∈ (eventContents es).values, v.Short := by
  intro v hv
  obtain ⟨e, -, hv⟩ := List.mem_flatMap.1 hv
  simp only [nodeValues, List.mem_cons, List.not_mem_nil, or_false] at hv
  rcases hv with rfl | rfl | rfl | rfl <;> exact trivial

/-- A module that its size field cannot hold cannot be read. -/
theorem oversize_error (hsize : (UInt32.ofNat (22 + (payload (eventContents es)).length)).toNat < 26)
    (pos : Nat) :
    ∃ s, endSnapshot version major minor machine [] es [] = .ok s ∧
      eventSnapshotReadModule cps (fuel + 1) { s with file := fseek s.file pos } =
        some (.error .readOutOfBounds) := by
  rw [endSnapshot_eq, snapshotCreate_eq]
  generalize snapshotHeader version major minor machine = pre
  have hwrite : ∀ s : Snapshot, s.file = ⟨pre, pre.length⟩ →
      writeModules s ([] ++ eventContents es :: []) =
        .ok { s with file := snapshotModuleClose (unclosed pre (eventContents es)) } := by
    intro s hs
    rw [List.nil_append, writeModules, writeModule, create_written eventContents_short hs]
    rfl
  refine ⟨_, hwrite _ rfl, ?_⟩
  rw [close_eq]
  have hdrop : (pre ++ encModule (eventContents es)).drop pre.length =
      encModule (eventContents es) ++ [] := by
    rw [List.drop_left, List.append_nil]
  have hopen : moduleLoop (eventContents es).name.string (fuel + 1)
      ⟨pre ++ encModule (eventContents es), pre.length⟩ pre.length = _ := moduleLoop_here rfl hdrop
  generalize hbytes : pre ++ encModule (eventContents es) = bytes at hopen ⊢
  have hheader : readNodeHeader (openedAt bytes pre.length (eventContents es)) =
      .error .readOutOfBounds := by
    have hbound : snapshotModuleReadDword (openedAt bytes pre.length (eventContents es)) =
        .error .readOutOfBounds := if_pos (by simp only [openedAt]; omega)
    rw [readNodeHeader, hbound]
    rfl
  have hopen' : snapshotModuleOpen (fuel + 1)
      { file := fseek ⟨bytes, pre.length +
          (UInt32.ofNat (22 + (payload (eventContents es)).length)).toNat⟩ pos
        firstModuleOffset := pre.length } eventModule.string =
      some (.ok (openedAt bytes pre.length (eventContents es), 0, 1)) := hopen
  simp only [eventSnapshotReadModule]
  rw [hopen']
  simp only [readLoop, hheader]
  rfl

/-- What the keyboard of net play records, for which the alarm handler has no case. -/
def keyboardClear : List Event :=
  eventRecordInList
    (eventRecordInList [] 100 eventInitial [eventStartModeFileSave]) 120 eventKeyboardClear []

/-- A disk image attached, so large that the size of the module comes to 0. -/
def largeImage : List Event :=
  eventRecordInList (eventRecordInList [] 100 eventInitial [eventStartModeFileSave]) 120
    eventAttachimage (List.replicate (2 ^ 32 - 71) 0)

theorem largeImage_size :
    UInt32.ofNat (22 + (payload (eventContents (largeImage ++ [freshNode]))).length) = 0 := by
  have hlist : largeImage ++ [freshNode] = [⟨eventInitial, 100, [eventStartModeFileSave]⟩,
      ⟨eventAttachimage, 120, List.replicate (2 ^ 32 - 71) 0⟩, freshNode] := by
    rw [largeImage, recordInList_data (by decide), recordInList_data (by decide)]
    rfl
  have hkept : unstamped (largeImage ++ [freshNode]) = largeImage ++ [freshNode] := by
    refine List.filter_eq_self.2 fun e he => ?_
    rw [hlist] at he
    simp only [List.mem_cons, List.not_mem_nil, or_false] at he
    rcases he with rfl | rfl | rfl <;> rfl
  rw [payload_eq, hkept, hlist]
  simp only [List.flatMap_cons, List.flatMap_nil, List.length_append, enc_length,
    List.length_replicate, freshNode, List.length_cons, List.length_nil]
  rfl

/-- Playing the list back stops, and nothing was handed on. -/
theorem keyboardClear_stops :
    ((eventPlaybackStart (readBack 30 clockMax (unstamped (keyboardClear ++ [freshNode]))) 0
      100).bind (run (fun _ => 1) 40)).map (fun q =>
        (q.playbackActive, q.eventAlarm, q.resetPending, q.delivered)) =
      some (false, none, false, []) := by
  decide

end
end Vice.L4.EventRecording
