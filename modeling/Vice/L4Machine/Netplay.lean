import Vice.L4Machine.EventHistory

/-!
# Net play (`network.c`)

Two emulators run the same machine. What the user of each does in a frame is recorded in a list;
once a frame `network_hook` sends the list and, when it is `frame_delta - 1` frames ahead, waits for
a list of the peer and plays the server's and the client's lists of one frame back. The lists of the
last `frame_delta` frames are kept in a ring.

* `partyStep`: one emulator records an event, suspends, enters the hook, hands some bytes to the
  socket or takes some from it.
* `step`, `run`: both of them, in any order.

A send or receive that fails is not here, nor the texts that the user sees.
-/
namespace Vice.L4.Netplay
open Vice.L4.EventHistory

/-! ## Messages -/

/-- mirrors src/util.c:636-642 (`util_dword_to_le_buf`) -/
def utilDwordToLeBuf (data : UInt32) : List UInt8 :=
  [(data &&& 0xff).toUInt8, ((data >>> 8) &&& 0xff).toUInt8, ((data >>> 16) &&& 0xff).toUInt8,
    ((data >>> 24) &&& 0xff).toUInt8]

/-- mirrors src/util.c:644-651 (`util_le_buf_to_dword`), of the first four bytes -/
def utilLeBufToDword : List UInt8 → UInt32
  | b0 :: b1 :: b2 :: b3 :: _ =>
    b0.toUInt32 ||| (b1.toUInt32 <<< 8) ||| (b2.toUInt32 <<< 16) ||| (b3.toUInt32 <<< 24)
  | _ => 0

/-- The body of the loop that fills the buffer; of the clock there are 32 bits. -/
def encodeEvent (e : Event) : List UInt8 :=
  utilDwordToLeBuf e.type ++ (utilDwordToLeBuf e.clk.toUInt32 ++
    (utilDwordToLeBuf (UInt32.ofNat e.data.length) ++ e.data))

/-- The buffer of the nodes of a list, up to the first EVENT_LIST_END:
mirrors src/network.c:288-331 (`network_create_event_buffer`) -/
def networkCreateEventBuffer : List Event → List UInt8
  | [] => []
  | e :: es =>
    encodeEvent e ++ if e.type = eventListEnd then [] else networkCreateEventBuffer es

/-- The loop of `network_create_event_list`. A buffer that ends too soon is read beyond its end. -/
def createEventListLoop (maincpuClk : UInt64) :
    Nat → List UInt8 → List Event → Option (List Event)
  | 0, _, _ => none
  | fuel + 1, bufptr, list =>
    let type := utilLeBufToDword bufptr
    let size := (utilLeBufToDword (bufptr.drop 8)).toNat
    if bufptr.length < 12 + size then none
    else
      let list := eventRecordInList list maincpuClk type ((bufptr.drop 12).take size)
      if type = eventListEnd then some list
      else createEventListLoop maincpuClk fuel (bufptr.drop (12 + size)) list

/-- mirrors src/network.c:333-361 (`network_create_event_list`) -/
def networkCreateEventList (maincpuClk : UInt64) (buf : List UInt8) : Option (List Event) :=
  createEventListLoop maincpuClk buf.length buf []

/-- What an event is to the device it is played to. -/
abbrev Entry := UInt32 × List UInt8

def Event.entry (e : Event) : Entry := (e.type, e.data)

/-- What is played of a list: mirrors src/event.c:472-536 (`event_playback_event_list`) -/
def eventPlaybackEventList (list : List Event) : List Entry :=
  (list.takeWhile (·.type ≠ eventListEnd)).map Event.entry

/-! ## One emulator -/

inductive Role
  | server
  | client
  deriving DecidableEq, Repr

def Role.other : Role → Role
  | .server => .client
  | .client => .server

/-- Between two calls of the hook, in `network_suspend`, in one of the two halves of the hook, or
out of the array of lists. -/
inductive Phase
  | running
  | suspending (rest : List UInt8)
  | sending (rest : List UInt8)
  | receivingLen (got : List UInt8)
  | receivingBuf (recvLen : Nat) (got : List UInt8)
  | crashed
  deriving DecidableEq, Repr

/-- The variables of `network.c`; a list without a base is `none`. The last three fields are what
an observer writes down: what was recorded in each frame that is over and in this one, and what was
played in each frame that was played. -/
structure Party where
  frameDelta : Nat
  currentFrame : Nat
  frameToPlay : Nat
  frameBufferFull : Bool
  suspended : Bool
  connected : Bool
  frameEventList : List (Option (List Event))
  phase : Phase
  recorded : List (List Entry)
  recording : List Entry
  played : List (List Entry)
  deriving DecidableEq, Repr

/-- mirrors src/network.c:266-276 (`network_init_frame_event_list`) -/
def networkInitFrameEventList (frameDelta : Nat) (p : Party) : Party :=
  { p with
    frameDelta := frameDelta
    frameEventList := (List.replicate frameDelta none).set 0 (some [])
    currentFrame := 0
    frameBufferFull := false }

/-- Both have agreed on a delay and are connected; what earlier connections left stays. -/
def connect (frameDelta : Nat) (p : Party) : Party :=
  { networkInitFrameEventList frameDelta p with
    connected := true
    phase := .running
    recorded := []
    recording := []
    played := [] }

/-- The ring moves on: mirrors src/network.c:278-286 (`network_prepare_next_frame`) -/
def networkPrepareNextFrame (p : Party) : Party :=
  let currentFrame := (p.currentFrame + 1) % p.frameDelta
  { p with
    currentFrame := currentFrame
    frameToPlay := (currentFrame + 1) % p.frameDelta
    frameEventList := p.frameEventList.set currentFrame (some [])
    phase := .running
    recorded := p.recorded ++ [p.recording]
    recording := [] }

/-- `frame_event_list[i]`, where it has a base -/
def Party.list (p : Party) (i : Nat) : Option (List Event) := p.frameEventList[i]?.join

/-- One event more in the list of the current frame; without a base nothing is recorded. -/
def recordInFrame (p : Party) (clk : UInt64) (type : UInt32) (data : List UInt8) : Party :=
  match p.list p.currentFrame with
  | none => p
  | some list =>
    { p with
      frameEventList :=
        p.frameEventList.set p.currentFrame (some (eventRecordInList list clk type data)) }

/-- An event that `network_event_record` or `network_attach_image` lets pass. -/
def networkEventRecord (p : Party) (clk : UInt64) (type : UInt32) (data : List UInt8) : Party :=
  { recordInFrame p clk type data with
    recording := p.recording ++ (eventRecordInList [] clk type data).map Event.entry }

/-- mirrors src/network.c:840-851 (`network_suspend`) -/
def networkSuspend (p : Party) : Party :=
  if p.connected = false ∨ p.suspended then p
  else { p with phase := .suspending (utilDwordToLeBuf 0), suspended := true }

/-- The list is closed and about to be sent. Its size is an `int`, and a negative one cannot be
allocated. mirrors src/network.c:857-886 (`network_hook_connected_send`) -/
def networkHookConnectedSend (p : Party) (clk : UInt64) : Party :=
  let p := recordInFrame p clk eventListEnd []
  match p.list p.currentFrame with
  | none => { p with phase := .crashed }
  | some list =>
    let buf := networkCreateEventBuffer (list ++ [freshNode])
    if buf.length < 2 ^ 31 then
      { p with phase := .sending (utilDwordToLeBuf (UInt32.ofNat buf.length) ++ buf) }
    else { p with phase := .crashed }

/-- The start of `network_hook_connected_receive`: mirrors src/network.c:898-904 -/
def networkHookConnectedReceive (p : Party) : Party :=
  let full := p.frameBufferFull || p.currentFrame + 1 == p.frameDelta
  let p := { p with suspended := false, frameBufferFull := full }
  if full then { p with phase := .receivingLen [] } else networkPrepareNextFrame p

/-- The length of the next message; the peer has suspended where it is 0:
mirrors src/network.c:905-925 -/
def receiveLength (p : Party) (got : List UInt8) : Party :=
  if got.length < 4 then { p with phase := .receivingLen got }
  else
    let recvLen := (utilLeBufToDword got).toNat
    if recvLen = 0 then { p with suspended := true, phase := .receivingLen [] }
    else { p with phase := .receivingBuf recvLen [] }

/-- The first nodes of the lists are tests of the CPU registers that differ:
mirrors src/network.c:948-962 -/
def outOfSync (client server : List Event) : Bool :=
  let c := client.headD freshNode
  let s := server.headD freshNode
  c.type == eventSyncTest && s.type == eventSyncTest && c.data.take 20 != s.data.take 20

/-- mirrors src/network.c:827-838 (`network_disconnect`) -/
def networkDisconnect (p : Party) : Party := { p with connected := false }

/-- What the devices record while they are played to, at a clock. -/
abbrev Late := List (UInt64 × UInt32 × List UInt8)

/-- The two lists of a frame are played; `late` is recorded meanwhile:
mirrors src/network.c:948-971 -/
def playFrame (p : Party) (server client : List Event) (late : Late) : Party :=
  let p := if outOfSync client server then networkDisconnect p else p
  let p := { p with
    played := p.played ++ [eventPlaybackEventList server ++ eventPlaybackEventList client] }
  let p := late.foldl (fun p x => networkEventRecord p x.1 x.2.1 x.2.2) p
  networkPrepareNextFrame p

/-- A message is there: mirrors src/network.c:937-946 -/
def receiveFrame (role : Role) (p : Party) (clk : UInt64) (buf : List UInt8) (late : Late) : Party :=
  match networkCreateEventList clk buf, p.list p.frameToPlay with
  | some remote, some own =>
    match role with
    | .server => playFrame p own remote late
    | .client => playFrame p remote own late
  | _, _ => { p with phase := .crashed }

/-- `network_recv_buffer` has some bytes of a message more. -/
def receiveBytes (role : Role) (p : Party) (clk : UInt64) (recvLen : Nat) (got : List UInt8)
    (late : Late) : Party :=
  if got.length < recvLen then { p with phase := .receivingBuf recvLen got }
  else receiveFrame role p clk got late

/-! ## Both of them -/

/-- What one emulator does next: `send` and `receive` are one call of the socket, for up to so many
bytes. -/
inductive Action
  | record (clk : UInt64) (type : UInt32) (data : List UInt8)
  | suspend
  | hook (clk : UInt64)
  | send (n : Nat)
  | receive (n : Nat) (clk : UInt64) (late : Late)
  deriving DecidableEq, Repr

/-- The emulator, what it has put on the wire, and what is left of what was there for it. -/
structure Moved where
  party : Party
  sent : List UInt8
  inbox : List UInt8

/-- Only the hook records an EVENT_LIST_END. -/
def partyStep (role : Role) (p : Party) (inbox : List UInt8) : Action → Option Moved
  | .record clk type data =>
    if p.phase = .running ∧ type ≠ eventListEnd then
      some ⟨networkEventRecord p clk type data, [], inbox⟩
    else none
  | .suspend => if p.phase = .running then some ⟨networkSuspend p, [], inbox⟩ else none
  | .hook clk =>
    if p.phase = .running ∧ p.connected then some ⟨networkHookConnectedSend p clk, [], inbox⟩
    else none
  | .send n =>
    match p.phase with
    | .suspending rest =>
      some ⟨{ p with phase := if rest.length ≤ n then .running else .suspending (rest.drop n) },
        rest.take n, inbox⟩
    | .sending rest =>
      some ⟨if rest.length ≤ n then networkHookConnectedReceive p
        else { p with phase := .sending (rest.drop n) }, rest.take n, inbox⟩
    | _ => none
  | .receive n clk late =>
    match p.phase with
    | .receivingLen got =>
      let m := min n (4 - got.length)
      some ⟨receiveLength p (got ++ inbox.take m), [], inbox.drop m⟩
    | .receivingBuf recvLen got =>
      let m := min n (recvLen - got.length)
      some ⟨receiveBytes role p clk recvLen (got ++ inbox.take m) late, [], inbox.drop m⟩
    | _ => none

/-- Both emulators, and for each the bytes that were sent to it and that it has not received. -/
structure Session where
  party : Role → Party
  inbox : Role → List UInt8

/-- Two emulators that have just connected. -/
def begin (frameDelta : Nat) (old : Role → Party) : Session where
  party r := connect frameDelta (old r)
  inbox _ := []

def Session.move (s : Session) (r : Role) (m : Moved) : Session where
  party := Function.update s.party r m.party
  inbox := Function.update (Function.update s.inbox r m.inbox) r.other (s.inbox r.other ++ m.sent)

def step (s : Session) (r : Role) (a : Action) : Option Session :=
  (partyStep r (s.party r) (s.inbox r) a).map (s.move r)

def run (s : Session) : List (Role × Action) → Option Session
  | [] => some s
  | (r, a) :: rest => (step s r a).bind (run · rest)

end Vice.L4.Netplay
