import Vice.L2Image.SnapshotModules

/-!
# Event histories (`event.c`)

What the user does is recorded as a list of events with their clocks, the list is written to the
EVENT module of the end snapshot, and playing it back hands each event on when an alarm at its
clock goes off. A reset of the CPU starts the clock over, so it interrupts the chain of alarms:
`event_alarm_handler` stops at EVENT_RESETCPU and `event_reset_ack` goes on behind it.

* `eventSnapshotWriteModule`, `eventSnapshotReadModule`: the module. The reader throws timestamps
  away and inserts one for each second.
* `Player`: what playing back changes. `step` is one instruction, one alarm or one reset of the CPU.

The half of the alarm handler that counts seconds while recording is not here, nor what is shown of
the time: nothing that is played back depends on it. Clocks are natural numbers while the reader
adds seconds to them; 64 bits are enough for half a million years.
-/
namespace Vice.L4.EventHistory
open Vice.L0.ByteFile Vice.L2.Snapshot Vice.L2.SnapshotModules

/-! ## Events -/

/-! mirrors src/vice-event.h:33-48 -/
def eventListEnd : UInt32 := 0
def eventKeyboardMatrix : UInt32 := 1
def eventKeyboardRestore : UInt32 := 2
def eventJoystickValue : UInt32 := 3
def eventDatasette : UInt32 := 4
def eventInitial : UInt32 := 5
def eventAttachdisk : UInt32 := 6
def eventAttachtape : UInt32 := 7
def eventResetcpu : UInt32 := 8
def eventTimestamp : UInt32 := 9
def eventAttachimage : UInt32 := 10
def eventKeyboardDelay : UInt32 := 12
def eventSyncTest : UInt32 := 14
def eventKeyboardClear : UInt32 := 15
def eventResource : UInt32 := 16

/-! mirrors src/vice-event.h:50-53 -/
def eventStartModeFileSave : UInt8 := 0
def eventStartModeReset : UInt8 := 2

/-- A node of the list; `size` is the length of `data`.
mirrors src/vice-event.h:55-62 (`event_list_s`) -/
structure Event where
  type : UInt32
  clk : UInt64
  data : List UInt8
  deriving DecidableEq, Repr

/-- A node as `lib_calloc` makes it, which is where the next event goes. -/
def freshNode : Event := ⟨eventListEnd, 0, []⟩

/-- The types that are recorded with their data. -/
def recordsData : List UInt32 :=
  [eventResetcpu, eventKeyboardMatrix, eventKeyboardRestore, eventKeyboardDelay, eventJoystickValue,
    eventDatasette, eventAttachdisk, eventAttachtape, eventAttachimage, eventInitial, eventSyncTest,
    eventResource]

/-- The events before the fresh node, one more recorded at `maincpuClk`:
mirrors src/event.c:330-377 (`event_record_in_list`) -/
def eventRecordInList (events : List Event) (maincpuClk : UInt64) (type : UInt32)
    (data : List UInt8) : List Event :=
  if type ∈ recordsData then events ++ [⟨type, maincpuClk, data⟩]
  else if type = eventListEnd ∨ type = eventKeyboardClear then events ++ [⟨type, maincpuClk, []⟩]
  else events

/-! ## The module -/

/-- "EVENT" -/
def eventModule : ModuleName where
  string := ⟨[0x45, 0x56, 0x45, 0x4e, 0x54], by decide⟩
  nonempty := by decide
  bounded := by decide

/-- The body of the loop of `event_snapshot_write_module`. -/
def writeNode (m : Module) (e : Event) : Module :=
  if e.type = eventTimestamp then m
  else
    let m := snapshotModuleWriteDword m e.type
    let m := snapshotModuleWriteQword m e.clk
    let m := snapshotModuleWriteDword m (UInt32.ofNat e.data.length)
    snapshotModuleWriteByteArray m e.data

/-- mirrors src/event.c:1137-1173, with `event_mode` not 0 -/
def eventSnapshotWriteModule (s : Snapshot) (nodes : List Event) : Snapshot :=
  let m := snapshotModuleCreate s eventModule.string 0 1
  { s with file := snapshotModuleClose (nodes.foldl writeNode m) }

/-- Type, clock and size of a node. -/
def readNodeHeader (m : Module) : Except SnapshotError (UInt32 × UInt64 × UInt32 × Module) := do
  let (type, m) ← snapshotModuleReadDword m
  let (clk, m) ← snapshotModuleReadQword m
  let (size, m) ← snapshotModuleReadDword m
  return (type, clk, size, m)

/-- The data of a node, which is not read where there is none. -/
def readNodeData (m : Module) (size : UInt32) : Except SnapshotError (List UInt8 × Module) :=
  if 0 < size.toNat then snapshotModuleReadByteArray size.toNat m else .ok ([], m)

/-- The timestamps inserted before an event, and the clock of the next one:
mirrors src/event.c:1094-1104. `fuel` seconds are enough where each of them has a cycle. -/
def insertTimestamps (cyclesPerSecond : Nat) : Nat → Nat → Nat → List Event × Nat
  | 0, nextTimestampClk, _ => ([], nextTimestampClk)
  | fuel + 1, nextTimestampClk, clk =>
    if nextTimestampClk < clk then
      let later :=
        insertTimestamps cyclesPerSecond fuel (nextTimestampClk + cyclesPerSecond) clk
      (⟨eventTimestamp, UInt64.ofNat nextTimestampClk, []⟩ :: later.1, later.2)
    else ([], nextTimestampClk)

/-- `CLOCK_MAX`, which stands for no timestamp yet. -/
def clockMax : Nat := 2 ^ 64 - 1

/-- What comes before a node that was read, and the clock of the next timestamp:
mirrors src/event.c:1082-1106 -/
def stampsBefore (cyclesPerSecond nextTimestampClk : Nat) (e : Event) : List Event × Nat :=
  let next := if nextTimestampClk = clockMax then e.clk.toNat else nextTimestampClk
  if e.type = eventInitial then
    ([], if e.data.headD 0 = eventStartModeReset then 0 else e.clk.toNat)
  else insertTimestamps cyclesPerSecond e.clk.toNat next e.clk.toNat

/-- The loop of `event_snapshot_read_module`. -/
def readLoop (cyclesPerSecond : Nat) :
    Nat → Module → Nat → Option (Except SnapshotError (List Event))
  | 0, _, _ => none
  | fuel + 1, m, nextTimestampClk =>
    match readNodeHeader m with
    | .error e => some (.error e)
    | .ok (type, clk, size, m) =>
      if type = eventTimestamp then readLoop cyclesPerSecond fuel m nextTimestampClk
      else match readNodeData m size with
        | .error e => some (.error e)
        | .ok (data, m) =>
          let node : Event := ⟨type, clk, data⟩
          let stamps := stampsBefore cyclesPerSecond nextTimestampClk node
          if type = eventListEnd then some (.ok (stamps.1 ++ [node]))
          else
            let next := if type = eventResetcpu then stamps.2 - clk.toNat else stamps.2
            (readLoop cyclesPerSecond fuel m next).map fun r => r.map (stamps.1 ++ node :: ·)

/-- mirrors src/event.c:1028-1135, with `event_mode` not 0. Without the module no list is read.
`fuel` bounds the modules walked along and the nodes read. -/
def eventSnapshotReadModule (cyclesPerSecond fuel : Nat) (s : Snapshot) :
    Option (Except SnapshotError (Option (List Event))) :=
  match snapshotModuleOpen fuel s eventModule.string with
  | none => none
  | some (.error _) => some (.ok none)
  | some (.ok (m, _, _)) =>
    (readLoop cyclesPerSecond fuel m clockMax).map fun r => r.map some

/-! ## Playing back -/

/-- An event handed on to its device: by an alarm that came `offset` cycles late, when the clock
of the CPU stood at `clk`. -/
structure Delivery where
  event : Event
  offset : Nat
  clk : Nat
  deriving DecidableEq, Repr

/-- `event_list->current` and what follows it, the alarm of the events, and the CPU: its clock and
whether a reset of it is pending. -/
structure Player where
  current : List Event
  eventAlarm : Option Nat
  playbackActive : Bool
  playbackResetAck : Bool
  resetPending : Bool
  maincpuClk : Nat
  delivered : List Delivery
  deriving DecidableEq, Repr

/-- mirrors src/event.c:387-394 (`next_alarm_set`); there is no event after the last node. -/
def nextAlarmSet (p : Player) : Option Player :=
  match p.current with
  | [] => none
  | e :: _ => some { p with eventAlarm := some e.clk.toNat }

/-- mirrors src/event.c:395-398 (`next_current_list`) -/
def nextCurrentList (p : Player) : Player := { p with current := p.current.tail }

/-- mirrors src/event.c:932-949 (`event_playback_stop`) -/
def eventPlaybackStop (p : Player) : Player :=
  if p.playbackActive then { p with playbackActive := false, eventAlarm := none } else p

/-- The types that the alarm handler hands on to a device. -/
def handedOn : List UInt32 :=
  [eventKeyboardMatrix, eventKeyboardRestore, eventJoystickValue, eventDatasette, eventAttachimage,
    eventAttachdisk, eventAttachtape]

/-- An event is handed on. -/
def deliver (p : Player) (e : Event) (offset : Nat) : Player :=
  { p with delivered := p.delivered ++ [⟨e, offset, p.maincpuClk⟩] }

/-- The switch of the alarm handler: an unknown type is logged, a timestamp only shown. -/
def playEvent (p : Player) (e : Event) (offset : Nat) : Player :=
  if e.type ∈ handedOn then deliver p e offset
  else if e.type = eventResetcpu then { deliver p e offset with resetPending := true }
  else if e.type = eventListEnd then eventPlaybackStop p
  else p

/-- mirrors src/event.c:400-469 (`event_alarm_handler`) while nothing is recorded -/
def eventAlarmHandler (p : Player) (offset : Nat) : Option Player :=
  match p.current with
  | [] => none
  | e :: _ =>
    let p := playEvent { p with eventAlarm := none } e offset
    if e.type ≠ eventListEnd ∧ e.type ≠ eventResetcpu then nextAlarmSet (nextCurrentList p)
    else some p

/-- The reset that playing back began with is acknowledged: mirrors src/event.c:815-818 -/
def ackPlaybackReset (p : Player) : Option Player :=
  if p.playbackResetAck then nextAlarmSet { p with playbackResetAck := false } else some p

/-- On behind an EVENT_RESETCPU: mirrors src/event.c:820-823 -/
def passResetcpu (p : Player) : Option Player :=
  match p.current with
  | [] => some p
  | e :: _ => if e.type = eventResetcpu then nextAlarmSet (nextCurrentList p) else some p

/-- mirrors src/event.c:809-831 (`event_reset_ack`) while nothing is recorded -/
def eventResetAck (p : Player) : Option Player := (ackPlaybackReset p).bind passResetcpu

/-- A list that was read, before anything of it is played. -/
def unplayed (nodes : List Event) (maincpuClk : Nat) : Player where
  current := nodes
  eventAlarm := none
  playbackActive := false
  playbackResetAck := false
  resetPending := false
  maincpuClk := maincpuClk
  delivered := []

/-- Start mode EVENT_START_MODE_FILE_SAVE reads the start snapshot, which brings back its clock;
EVENT_START_MODE_RESET triggers a reset. mirrors src/event.c:867-909 -/
def startPlayback (p : Player) (e : Event) (snapshotClk : Nat) : Option Player :=
  if e.type = eventInitial then
    let mode := e.data.headD 0
    if mode = eventStartModeFileSave then
      nextAlarmSet (nextCurrentList { p with maincpuClk := snapshotClk })
    else if mode = eventStartModeReset then
      some { nextCurrentList p with resetPending := true, playbackResetAck := true }
    else some p
  else nextAlarmSet { p with maincpuClk := snapshotClk }

/-- mirrors src/event.c:837-918 (`event_playback_start_trap`) with the list that was read, where
the start snapshot can be read too -/
def eventPlaybackStart (nodes : List Event) (maincpuClk snapshotClk : Nat) : Option Player :=
  match nodes with
  | [] => none
  | e :: _ => (startPlayback (unplayed nodes maincpuClk) e snapshotClk).map fun p =>
    { p with playbackActive := true }

/-- The clock after `cpu_reset`: mirrors src/maincpu.c:437 -/
def resetClk : Nat := 6

/-- What the CPU does next: a pending reset, an alarm that is due, or an instruction of `cycles`
cycles. -/
def step (cycles : Nat) (p : Player) : Option Player :=
  if p.resetPending then eventResetAck { p with resetPending := false, maincpuClk := resetClk }
  else match p.eventAlarm with
    | none => some { p with maincpuClk := p.maincpuClk + cycles }
    | some alarm =>
      if alarm ≤ p.maincpuClk then eventAlarmHandler p (p.maincpuClk - alarm)
      else some { p with maincpuClk := p.maincpuClk + cycles }

/-- `n` steps, with instructions of any lengths. -/
def run (cycles : Nat → Nat) : Nat → Player → Option Player
  | 0, p => some p
  | n + 1, p => (run cycles n p).bind (step (cycles n))

end Vice.L4.EventHistory
