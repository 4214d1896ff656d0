import Vice.L4Machine.EventRead

/-!
# Playing back (`event.c`)

The alarm of a node comes at its clock or up to an instruction later, hands the node on and sets the
alarm of the next one; behind an EVENT_RESETCPU the CPU sets it once the clock has started over. So
from each node that stands by the rest of the list plays, whatever timestamps stand between.

Results:
* `plays`: a list whose clocks only a reset takes back is handed on in order and in time, and playing
  stops at its end.
* `playable_readBack`, `played_readBack`: the timestamps that the reader inserts are in order with
  the events, of which none is lost.
-/
namespace Vice.L4.EventReplay
open Vice.L0.ByteFile Vice.L2.Snapshot Vice.L2.SnapshotModules
open Vice.L4.EventHistory Vice.L4.EventRead

section
variable {e : Event} {es nodes post : List Event} {cps nts base floor lo clk fuel K : Nat}
  {p q : Player} {cycles : Nat → Nat}

/-! ## Lists that can be played back -/

/-- Up to the end of the list every node is a timestamp or something to play, and between two
resets of the CPU the clocks do not go back; an event that was recorded is not before `base`, where
its stretch began. -/
inductive Playable : Nat → Nat → List Event → Prop
  | listEnd {base lo : Nat} {e : Event} {es : List Event} (htype : e.type = eventListEnd) :
      Playable base lo (e :: es)
  | stamp {base lo : Nat} {e : Event} {es : List Event} (htype : e.type = eventTimestamp)
      (hlo : lo ≤ e.clk.toNat) (hrest : Playable base e.clk.toNat es) : Playable base lo (e :: es)
  | event {base lo : Nat} {e : Event} {es : List Event} (htype : e.type ∈ handedOn)
      (hlo : lo ≤ e.clk.toNat) (hbase : base ≤ e.clk.toNat)
      (hrest : Playable base e.clk.toNat es) : Playable base lo (e :: es)
  | reset {base lo : Nat} {e : Event} {es : List Event} (htype : e.type = eventResetcpu)
      (hlo : lo ≤ e.clk.toNat) (hbase : base ≤ e.clk.toNat)
      (hrest : Playable resetClk 0 es) : Playable base lo (e :: es)

/-- The events of a list, without its timestamps and what follows its end. -/
def played : List Event → List Event
  | [] => []
  | e :: es =>
    if e.type = eventListEnd then []
    else if e.type = eventTimestamp then played es
    else e :: played es

/-- A node to play is none of the others. -/
theorem handedOn_types (h : e.type ∈ handedOn) :
    e.type ≠ eventListEnd ∧ e.type ≠ eventTimestamp ∧ e.type ≠ eventResetcpu ∧
      e.type ≠ eventInitial := by
  revert h
  generalize e.type = type
  intro h
  simp only [handedOn, List.mem_cons, List.not_mem_nil, or_false] at h
  rcases h with rfl | rfl | rfl | rfl | rfl | rfl | rfl <;> decide

theorem played_event (hend : e.type ≠ eventListEnd) (hstamp : e.type ≠ eventTimestamp) :
    played (e :: es) = e :: played es := by
  rw [played, if_neg hend, if_neg hstamp]

theorem Playable.head (h : Playable base lo nodes) :
    ∃ e es, nodes = e :: es ∧ (e.type = eventListEnd ∨ lo ≤ e.clk.toNat) := by
  cases h with
  | listEnd htype => exact ⟨_, _, rfl, .inl htype⟩
  | stamp _ hlo _ => exact ⟨_, _, rfl, .inr hlo⟩
  | event _ hlo _ _ => exact ⟨_, _, rfl, .inr hlo⟩
  | reset _ hlo _ _ => exact ⟨_, _, rfl, .inr hlo⟩

/-! ## Runs -/

theorem run_add (cycles : Nat → Nat) (m n : Nat) (p : Player) :
    run cycles (m + n) p = (run cycles m p).bind (run (fun i => cycles (m + i)) n) := by
  induction n with
  | zero =>
    cases run cycles m p <;> rfl
  | succ n ih =>
    rw [← Nat.add_assoc, run, ih, Option.bind_assoc]
    rfl

/-- The events of a step come behind those before. -/
theorem playEvent_grows (p : Player) (e : Event) (offset : Nat) :
    p.delivered <+: (playEvent p e offset).delivered := by
  unfold playEvent
  split
  · exact List.prefix_append _ _
  · split
    · exact List.prefix_append _ _
    · split
      · unfold eventPlaybackStop
        split <;> exact List.prefix_refl _
      · exact List.prefix_refl _

theorem nextAlarmSet_delivered (h : nextAlarmSet p = some q) : q.delivered = p.delivered := by
  unfold nextAlarmSet at h
  split at h
  · cases h
  · cases h
    rfl

theorem eventAlarmHandler_grows {offset : Nat} (h : eventAlarmHandler p offset = some q) :
    p.delivered <+: q.delivered := by
  unfold eventAlarmHandler at h
  split at h
  · cases h
  · rename_i e es _
    have hplay := playEvent_grows { p with eventAlarm := none } e offset
    simp only at h
    split at h
    · rw [nextAlarmSet_delivered h]
      exact hplay
    · cases h
      exact hplay

theorem eventResetAck_delivered (h : eventResetAck p = some q) : q.delivered = p.delivered := by
  obtain ⟨r, hr, hq⟩ := Option.bind_eq_some_iff.1 h
  have hack : r.delivered = p.delivered := by
    unfold ackPlaybackReset at hr
    split at hr
    · exact (nextAlarmSet_delivered hr).trans rfl
    · cases hr
      rfl
  rw [← hack]
  unfold passResetcpu at hq
  split at hq
  · cases hq
    rfl
  · split at hq
    · exact (nextAlarmSet_delivered hq).trans rfl
    · cases hq
      rfl

theorem step_grows {k : Nat} (h : step k p = some q) : p.delivered <+: q.delivered := by
  unfold step at h
  split at h
  · have hsame : q.delivered = p.delivered := (eventResetAck_delivered h).trans rfl
    exact ⟨[], by rw [hsame, List.append_nil]⟩
  · split at h
    · cases h
      exact List.prefix_refl _
    · split at h
      · exact eventAlarmHandler_grows h
      · cases h
        exact List.prefix_refl _

theorem run_grows {n : Nat} (h : run cycles n p = some q) : p.delivered <+: q.delivered := by
  induction n generalizing q with
  | zero =>
    cases h
    exact List.prefix_refl _
  | succ n ih =>
    obtain ⟨r, hr, hq⟩ := Option.bind_eq_some_iff.1 h
    exact (ih hr).trans (step_grows hq)

/-- Nothing is left that could happen. -/
structure Stopped (p : Player) : Prop where
  playbackActive : p.playbackActive = false
  eventAlarm : p.eventAlarm = none
  resetPending : p.resetPending = false

theorem run_stopped (h : Stopped p) (cycles : Nat → Nat) (n : Nat) :
    ∃ q, run cycles n p = some q ∧ Stopped q ∧ q.delivered = p.delivered := by
  induction n with
  | zero => exact ⟨p, rfl, h, rfl⟩
  | succ n ih =>
    obtain ⟨q, hrun, hstop, hsame⟩ := ih
    refine ⟨{ q with maincpuClk := q.maincpuClk + cycles n }, ?_, ⟨hstop.1, hstop.2, hstop.3⟩, hsame⟩
    rw [run, hrun]
    simp only [Option.bind_some, step, hstop.resetPending, hstop.eventAlarm, Bool.false_eq_true, ↓reduceIte]

/-! ## One node -/

/-- A node stands by: its alarm is set, and unless it ends the list the clock is not `K` cycles past
it, or past the start of the stretch. -/
structure Ready (K base : Nat) (p : Player) (e : Event) (es : List Event) : Prop where
  current : p.current = e :: es
  eventAlarm : p.eventAlarm = some e.clk.toNat
  playbackActive : p.playbackActive = true
  resetPending : p.resetPending = false
  playbackResetAck : p.playbackResetAck = false
  clk : e.type = eventListEnd ∨ p.maincpuClk < max base e.clk.toNat + K

/-- Instructions of one to `K` cycles. -/
def Bounded (K : Nat) (cycles : Nat → Nat) : Prop := ∀ i, 1 ≤ cycles i ∧ cycles i ≤ K

theorem Bounded.shift (h : Bounded K cycles) (m : Nat) : Bounded K fun i => cycles (m + i) :=
  fun i => h (m + i)

/-- The two things that a set alarm leaves to do. -/
theorem step_alarm {a k : Nat} (hpending : p.resetPending = false) (ha : p.eventAlarm = some a) :
    step k p = if a ≤ p.maincpuClk then eventAlarmHandler p (p.maincpuClk - a)
      else some { p with maincpuClk := p.maincpuClk + k } := by
  unfold step
  rw [if_neg (Bool.eq_false_iff.1 hpending)]
  split
  · rename_i hnone
    rw [ha] at hnone
    cases hnone
  · rename_i a' ha'
    rw [ha] at ha'
    cases ha'
    rfl

/-- Instructions go by until the alarm is due. -/
theorem run_until (hcycles : Bounded K cycles) (hready : Ready K base p e es) :
    ∃ n c, run cycles n p = some { p with maincpuClk := c } ∧ e.clk.toNat ≤ c ∧
      (e.type = eventListEnd ∨ c < max base e.clk.toNat + K) := by
  generalize hleft : e.clk.toNat - p.maincpuClk = left
  induction left using Nat.strongRecOn generalizing p cycles with
  | ind left ih =>
    by_cases hdue : e.clk.toNat ≤ p.maincpuClk
    · exact ⟨0, p.maincpuClk, rfl, hdue, hready.clk⟩
    · obtain ⟨hone, hmost⟩ := hcycles 0
      let p' : Player := { p with maincpuClk := p.maincpuClk + cycles 0 }
      have hstep : step (cycles 0) p = some p' := by
        rw [step_alarm hready.resetPending hready.eventAlarm, if_neg hdue]
      have hready' : Ready K base p' e es :=
        ⟨hready.current, hready.eventAlarm, hready.playbackActive, hready.resetPending,
          hready.playbackResetAck, .inr (by show p.maincpuClk + cycles 0 < _; omega)⟩
      have hless : e.clk.toNat - p'.maincpuClk < left := by
        show e.clk.toNat - (p.maincpuClk + cycles 0) < left
        omega
      obtain ⟨n, c, hrun, hc, hlate⟩ := ih _ hless (hcycles.shift 1) hready' rfl
      refine ⟨1 + n, c, ?_, hc, hlate⟩
      rw [run_add]
      show (step (cycles 0) p).bind _ = _
      rw [hstep]
      exact hrun

/-- The step of an alarm that is due. -/
theorem step_due (hready : Ready K base p e es) {c k : Nat} (hc : e.clk.toNat ≤ c) :
    step k { p with maincpuClk := c } =
      eventAlarmHandler { p with maincpuClk := c } (c - e.clk.toNat) :=
  (step_alarm (p := { p with maincpuClk := c }) hready.resetPending hready.eventAlarm).trans
    (if_pos hc)

/-- Handed on at its clock, up to the instruction that was being executed. -/
def OnTime (K : Nat) (d : Delivery) : Prop :=
  d.clk = d.event.clk.toNat + d.offset ∧ d.offset < K

/-- From `p` on, the events `es` are handed on and playing stops. -/
def Plays (K : Nat) (p : Player) (es : List Event) : Prop :=
  ∀ cycles, Bounded K cycles → ∃ n q ds, run cycles n p = some q ∧ Stopped q ∧
    q.delivered = p.delivered ++ ds ∧ ds.map Delivery.event = es ∧ ∀ d ∈ ds, OnTime K d

/-- Some steps that hand on `es'`, and then the rest. -/
theorem Plays.after (es' : List Event)
    (hsteps : ∀ cycles, Bounded K cycles → ∃ n r new, run cycles n p = some r ∧
      r.delivered = p.delivered ++ new ∧ new.map Delivery.event = es' ∧
      (∀ d ∈ new, OnTime K d) ∧ Plays K r es) : Plays K p (es' ++ es) := by
  intro cycles hcycles
  obtain ⟨n, r, new, hrun, hdel, hnew, hnewTime, hplays⟩ := hsteps cycles hcycles
  obtain ⟨m, q, ds, hrun', hstop, hdel', hmap, htime⟩ := hplays _ (hcycles.shift n)
  refine ⟨n + m, q, new ++ ds, ?_, hstop, ?_, ?_, ?_⟩
  · rw [run_add, hrun]
    exact hrun'
  · rw [hdel', hdel, List.append_assoc]
  · rw [List.map_append, hnew, hmap]
  · intro d hd
    obtain hd | hd := List.mem_append.1 hd
    · exact hnewTime d hd
    · exact htime d hd

variable {m : Event} {ms : List Event} {offset : Nat}

theorem handler_end (hcur : p.current = e :: es) (htype : e.type = eventListEnd)
    (hactive : p.playbackActive = true) :
    eventAlarmHandler p offset = some { p with eventAlarm := none, playbackActive := false } := by
  have hplay : playEvent { p with eventAlarm := none } e offset =
      { p with eventAlarm := none, playbackActive := false } := by
    simp only [playEvent, htype, eventPlaybackStop, hactive, ↓reduceIte]
    rfl
  unfold eventAlarmHandler
  split
  · rename_i hnil
    rw [hcur] at hnil
    cases hnil
  · rename_i e' es' hcur'
    rw [hcur] at hcur'
    cases hcur'
    simp only [hplay, htype, ne_eq, not_true_eq_false, false_and, ↓reduceIte]

/-- After an event that leaves the clock running, the next node stands by. -/
theorem handler_next (hcur : p.current = e :: m :: ms) (hend : e.type ≠ eventListEnd)
    (hreset : e.type ≠ eventResetcpu) :
    eventAlarmHandler p offset =
      some { playEvent { p with eventAlarm := none } e offset with
        current := m :: ms
        eventAlarm := some m.clk.toNat } := by
  have hkeep : (playEvent { p with eventAlarm := none } e offset).current = e :: m :: ms := by
    unfold playEvent
    rw [if_neg hreset, if_neg hend]
    split <;> exact hcur
  unfold eventAlarmHandler
  split
  · rename_i hnil
    rw [hcur] at hnil
    cases hnil
  · rename_i e' es' hcur'
    rw [hcur] at hcur'
    cases hcur'
    simp only [hend, hreset, ne_eq, not_false_eq_true, and_self, ↓reduceIte, nextAlarmSet,
      nextCurrentList, hkeep, List.tail_cons]

theorem handler_reset (hcur : p.current = e :: es) (htype : e.type = eventResetcpu) :
    eventAlarmHandler p offset = some { p with
      eventAlarm := none
      resetPending := true
      delivered := p.delivered ++ [⟨e, offset, p.maincpuClk⟩] } := by
  have hnot : e.type ∉ handedOn := fun h => (handedOn_types h).2.2.1 htype
  unfold eventAlarmHandler
  split
  · rename_i hnil
    rw [hcur] at hnil
    cases hnil
  · rename_i e' es' hcur'
    rw [hcur] at hcur'
    cases hcur'
    rw [playEvent, if_neg hnot, if_pos htype, if_neg fun h => h.2 htype]
    rfl

/-- The reset of the CPU that an EVENT_RESETCPU asked for goes on behind it. -/
theorem step_reset {k : Nat} (hcur : p.current = e :: m :: ms) (htype : e.type = eventResetcpu)
    (hpending : p.resetPending = true) (hack : p.playbackResetAck = false) :
    step k p = some { p with
      current := m :: ms
      eventAlarm := some m.clk.toNat
      resetPending := false
      maincpuClk := resetClk } := by
  simp only [step, hpending, eventResetAck, ackPlaybackReset, hack, passResetcpu, hcur, htype,
    nextAlarmSet, nextCurrentList, List.tail_cons, Bool.false_eq_true, ↓reduceIte, Option.bind_some]

/-- The clock bound passes on to the next node. -/
theorem bound_next {c : Nat} (hend : e.type ≠ eventListEnd)
    (hlate : e.type = eventListEnd ∨ c < max base e.clk.toNat + K)
    (hm : m.type = eventListEnd ∨ e.clk.toNat ≤ m.clk.toNat) :
    m.type = eventListEnd ∨ c < max base m.clk.toNat + K := by
  have hc := hlate.resolve_left hend
  exact hm.imp_right fun hle => by omega

/-- An event that is not before its stretch is late by less than an instruction. -/
theorem onTime_of_bound {c : Nat} (hbase : base ≤ e.clk.toNat) (hc : e.clk.toNat ≤ c)
    (hlate : c < max base e.clk.toNat + K) :
    ∀ d ∈ [(⟨e, c - e.clk.toNat, c⟩ : Delivery)], OnTime K d := by
  intro d hd
  rw [List.mem_singleton.1 hd]
  refine ⟨?_, ?_⟩
  · show c = e.clk.toNat + (c - e.clk.toNat)
    omega
  · show c - e.clk.toNat < K
    omega

theorem plays (hK : 1 ≤ K) (h : Playable base lo nodes) :
    ∀ p e es, nodes = e :: es → Ready K base p e es → Plays K p (played nodes) := by
  induction h with
  | listEnd htype =>
    rintro p e es ⟨⟩ hready cycles hcycles
    obtain ⟨n, c, hrun, hc, -⟩ := run_until hcycles hready
    refine ⟨n + 1, { p with maincpuClk := c, eventAlarm := none, playbackActive := false }, [], ?_,
      ⟨rfl, rfl, hready.resetPending⟩, (List.append_nil _).symm, ?_, fun d hd => by cases hd⟩
    · rw [run, hrun, Option.bind_some, step_due hready hc]
      exact handler_end hready.current htype hready.playbackActive
    · rw [played, if_pos htype]
      rfl
  | @stamp base lo e es htype hlo hrest ih =>
    rintro p _ _ ⟨⟩ hready
    have hend : e.type ≠ eventListEnd := by rw [htype]; decide
    have hreset : e.type ≠ eventResetcpu := by rw [htype]; decide
    have hnot : e.type ∉ handedOn := by rw [htype]; decide
    obtain ⟨m, ms, rfl, hm⟩ := hrest.head
    rw [played, if_neg hend, if_pos htype]
    refine Plays.after [] fun cycles hcycles => ?_
    obtain ⟨n, c, hrun, hc, hlate⟩ := run_until hcycles hready
    refine ⟨n + 1, { p with
      maincpuClk := c, current := m :: ms, eventAlarm := some m.clk.toNat }, [], ?_,
      (List.append_nil _).symm, rfl, (fun d hd => by cases hd), ih _ m ms rfl ?_⟩
    · rw [run, hrun, Option.bind_some, step_due hready hc]
      rw [handler_next (p := { p with maincpuClk := c }) hready.current hend hreset]
      simp only [playEvent, hnot, hreset, hend, ↓reduceIte]
    · exact ⟨rfl, rfl, hready.playbackActive, hready.resetPending, hready.playbackResetAck,
        bound_next hend hlate hm⟩
  | @event base lo e es htype hlo hbase hrest ih =>
    rintro p _ _ ⟨⟩ hready
    obtain ⟨hend, hstamp, hreset, -⟩ := handedOn_types htype
    obtain ⟨m, ms, rfl, hm⟩ := hrest.head
    rw [played_event hend hstamp]
    refine Plays.after [e] fun cycles hcycles => ?_
    obtain ⟨n, c, hrun, hc, hlate⟩ := run_until hcycles hready
    refine ⟨n + 1, { p with
      maincpuClk := c
      current := m :: ms
      eventAlarm := some m.clk.toNat
      delivered := p.delivered ++ [⟨e, c - e.clk.toNat, c⟩] }, [⟨e, c - e.clk.toNat, c⟩], ?_,
      rfl, rfl, ?_, ih _ m ms rfl ?_⟩
    · rw [run, hrun, Option.bind_some, step_due hready hc]
      rw [handler_next (p := { p with maincpuClk := c }) hready.current hend hreset]
      simp only [playEvent, htype, ↓reduceIte, deliver]
    · exact onTime_of_bound hbase hc (hlate.resolve_left hend)
    · exact ⟨rfl, rfl, hready.playbackActive, hready.resetPending, hready.playbackResetAck,
        bound_next hend hlate hm⟩
  | @reset base lo e es htype hlo hbase hrest ih =>
    rintro p _ _ ⟨⟩ hready
    have hend : e.type ≠ eventListEnd := by rw [htype]; decide
    have hstamp : e.type ≠ eventTimestamp := by rw [htype]; decide
    obtain ⟨m, ms, rfl, hm⟩ := hrest.head
    rw [played_event hend hstamp]
    refine Plays.after [e] fun cycles hcycles => ?_
    obtain ⟨n, c, hrun, hc, hlate⟩ := run_until hcycles hready
    -- The alarm hands it on, and the reset that follows sets the alarm of the next node.
    refine ⟨n + 1 + 1, { p with
      maincpuClk := resetClk
      current := m :: ms
      eventAlarm := some m.clk.toNat
      delivered := p.delivered ++ [⟨e, c - e.clk.toNat, c⟩]
      resetPending := false }, [⟨e, c - e.clk.toNat, c⟩], ?_, rfl, rfl, ?_, ih _ m ms rfl ?_⟩
    · rw [run, run, hrun, Option.bind_some, step_due hready hc]
      rw [handler_reset (p := { p with maincpuClk := c }) hready.current htype, Option.bind_some]
      exact step_reset hready.current htype rfl hready.playbackResetAck
    · exact onTime_of_bound hbase hc (hlate.resolve_left hend)
    · exact ⟨rfl, rfl, hready.playbackActive, rfl, hready.playbackResetAck,
        .inr (by show resetClk < _; omega)⟩

/-! ## What the reader makes of a recorded list -/

/-- Seconds are inserted up to the clock of an event, and the next one is not before it. -/
theorem insertTimestamps_next (hcps : 0 < cps) (hfuel : clk ≤ nts + fuel) :
    clk ≤ (insertTimestamps cps fuel nts clk).2 ∧ nts ≤ (insertTimestamps cps fuel nts clk).2 := by
  induction fuel generalizing nts with
  | zero => exact ⟨hfuel, Nat.le_refl _⟩
  | succ fuel ih =>
    unfold insertTimestamps
    split
    · obtain ⟨hclk, hnts⟩ := @ih (nts + cps) (by omega)
      exact ⟨hclk, (Nat.le_add_right nts cps).trans hnts⟩
    · exact ⟨by omega, Nat.le_refl _⟩

/-- Inserted before a node, they are in order with it and with what came before. -/
theorem insertTimestamps_playable (hclk : clk < 2 ^ 64) (hlo : lo ≤ nts)
    (hrest : ∀ lo' ≤ max lo clk, Playable base lo' nodes) :
    Playable base lo ((insertTimestamps cps fuel nts clk).1 ++ nodes) := by
  induction fuel generalizing nts lo with
  | zero => exact hrest lo (Nat.le_max_left _ _)
  | succ fuel ih =>
    unfold insertTimestamps
    split
    · rename_i hlt
      have hword : (UInt64.ofNat nts).toNat = nts := UInt64.toNat_ofNat_of_lt' (hlt.trans hclk)
      refine .stamp rfl (by rw [hword]; exact hlo) ?_
      show Playable base (UInt64.ofNat nts).toNat _
      rw [hword]
      exact ih (by omega) fun lo' hle => hrest lo' (by omega)
    · exact hrest lo (Nat.le_max_left _ _)

theorem insertTimestamps_played : played ((insertTimestamps cps fuel nts clk).1 ++ nodes) = played nodes := by
  induction fuel generalizing nts with
  | zero => rfl
  | succ fuel ih =>
    unfold insertTimestamps
    split
    · rw [List.cons_append, played, if_neg (by show eventTimestamp ≠ eventListEnd; decide),
        if_pos rfl]
      exact ih
    · rfl

/-- Events that were recorded one after another from the clock `floor` on; a reset starts over. -/
def Clocked : Nat → List Event → Prop
  | _, [] => True
  | floor, e :: es =>
    floor ≤ e.clk.toNat ∧ (e.type ∈ handedOn ∨ e.type = eventResetcpu) ∧
      Clocked (if e.type = eventResetcpu then resetClk else e.clk.toNat) es

/-- The clock from which the next event is recorded. -/
def floorAfter : Nat → List Event → Nat
  | floor, [] => floor
  | _, e :: es => floorAfter (if e.type = eventResetcpu then resetClk else e.clk.toNat) es

theorem clocked_snoc (h : Clocked floor es) (hclk : floorAfter floor es ≤ e.clk.toNat)
    (htype : e.type ∈ handedOn ∨ e.type = eventResetcpu) : Clocked floor (es ++ [e]) := by
  induction es generalizing floor with
  | nil => exact ⟨hclk, htype, trivial⟩
  | cons d es ih => exact ⟨h.1, h.2.1, ih h.2.2 hclk⟩

theorem floorAfter_snoc : floorAfter floor (es ++ [e]) =
      if e.type = eventResetcpu then resetClk else e.clk.toNat := by
  induction es generalizing floor with
  | nil => rfl
  | cons d es ih => exact ih

theorem played_types (h : e.type ∈ handedOn ∨ e.type = eventResetcpu) :
    e.type ≠ eventListEnd ∧ e.type ≠ eventTimestamp ∧ e.type ≠ eventInitial := by
  obtain h | h := h
  · obtain ⟨h1, h2, -, h4⟩ := handedOn_types h
    exact ⟨h1, h2, h4⟩
  · rw [h]
    decide

/-- The clock the seconds before a node are counted from. -/
theorem stampsBefore_eq (htype : e.type ≠ eventInitial) :
    stampsBefore cps nts e = insertTimestamps cps e.clk.toNat
      (if nts = clockMax then e.clk.toNat else nts) e.clk.toNat := by
  simp only [stampsBefore, htype, ↓reduceIte]

variable {last : Event}

/-- Reading inserts timestamps where they hold nothing up. -/
theorem playable_readBack (hcps : 0 < cps) (h : Clocked floor es) (hlast : last.type = eventListEnd)
    (hbase : base ≤ floor) (hlo : lo ≤ floor) (hnts : lo ≤ nts) :
    Playable base lo (readBack cps nts (es ++ last :: post)) := by
  induction es generalizing floor base lo nts with
  | nil =>
    have htype : last.type ≠ eventInitial := by rw [hlast]; decide
    rw [List.nil_append, readBack, if_pos hlast, stampsBefore_eq htype]
    split
    · -- No second passes before the first event of all.
      rename_i hmax
      have hnone : insertTimestamps cps last.clk.toNat last.clk.toNat last.clk.toNat =
          ([], last.clk.toNat) := by
        cases last.clk.toNat with
        | zero => rfl
        | succ n => rw [insertTimestamps, if_neg (Nat.lt_irrefl _)]
      rw [hnone]
      exact .listEnd hlast
    · exact insertTimestamps_playable last.clk.toNat_lt hnts fun lo' _ => .listEnd hlast
  | cons e es ih =>
    obtain ⟨hfloor, htype, hrest⟩ := h
    obtain ⟨hend, hstamp, hinitial⟩ := played_types htype
    have hnext : lo ≤ (if nts = clockMax then e.clk.toNat else nts) := by
      split <;> omega
    rw [List.cons_append, readBack, if_neg hend, stampsBefore_eq hinitial]
    generalize (if nts = clockMax then e.clk.toNat else nts) = next at hnext
    have hafter := @insertTimestamps_next cps next e.clk.toNat e.clk.toNat hcps (by omega)
    refine insertTimestamps_playable e.clk.toNat_lt hnext fun lo' hle => ?_
    by_cases hreset : e.type = eventResetcpu
    · rw [if_pos hreset] at hrest ⊢
      exact .reset hreset (by omega) (by omega)
        (ih hrest (Nat.le_refl _) (Nat.zero_le _) (Nat.zero_le _))
    · rw [if_neg hreset] at hrest ⊢
      exact .event (htype.resolve_right hreset) (by omega) (by omega)
        (ih hrest (by omega) (Nat.le_refl _) hafter.1)

theorem played_readBack (h : Clocked floor es) (hlast : last.type = eventListEnd) :
    played (readBack cps nts (es ++ last :: post)) = es := by
  induction es generalizing floor nts with
  | nil =>
    have htype : last.type ≠ eventInitial := by rw [hlast]; decide
    rw [List.nil_append, readBack, if_pos hlast, stampsBefore_eq htype]
    exact insertTimestamps_played.trans (if_pos hlast)
  | cons e es ih =>
    obtain ⟨hfloor, htype, hrest⟩ := h
    obtain ⟨hend, hstamp, hinitial⟩ := played_types htype
    rw [List.cons_append, readBack, if_neg hend, stampsBefore_eq hinitial]
    refine insertTimestamps_played.trans ?_
    rw [played_event hend hstamp, ih hrest]

end
end Vice.L4.EventReplay
