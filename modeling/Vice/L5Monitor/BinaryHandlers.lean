import Vice.L5Monitor.BinaryMachine

/-!
# The handlers of the binary monitor (`monitor_binary.c`)

One function for each command. A handler reads the body of its command, which goes on behind
`length` with what earlier commands have left in the buffer, works on the machine and sends
responses.
-/
namespace Vice.L5.BinaryHandlers
open Vice.L0.Bytes Vice.L5.BinaryFrame Vice.L5.CpuHistory Vice.L5.BinaryMachine

/-- mirrors src/monitor/monitor_binary.c:90-141 (`t_binary_command`) -/
inductive CommandType
  | memGet | memSet | checkpointGet | checkpointSet | checkpointDelete | checkpointList
  | checkpointToggle | conditionSet | registersGet | registersSet | dump | undump | resourceGet
  | resourceSet | advanceInstructions | keyboardFeed | executeUntilReturn | keymatrixSet
  | keymatrixTap | keymatrixGet | screenGet | driveAttach | videoRecord | ping | banksAvailable
  | registersAvailable | displayGet | viceInfo | cpuhistoryGet | paletteGet | joyportSet
  | userportSet | exit | quit | reset | autostart
  deriving DecidableEq, Repr

def CommandType.ofCode (code : UInt8) : Option CommandType :=
  match code.toNat with
  | 0x01 => some memGet
  | 0x02 => some memSet
  | 0x11 => some checkpointGet
  | 0x12 => some checkpointSet
  | 0x13 => some checkpointDelete
  | 0x14 => some checkpointList
  | 0x15 => some checkpointToggle
  | 0x22 => some conditionSet
  | 0x31 => some registersGet
  | 0x32 => some registersSet
  | 0x41 => some dump
  | 0x42 => some undump
  | 0x51 => some resourceGet
  | 0x52 => some resourceSet
  | 0x71 => some advanceInstructions
  | 0x72 => some keyboardFeed
  | 0x73 => some executeUntilReturn
  | 0x74 => some keymatrixSet
  | 0x75 => some keymatrixTap
  | 0x76 => some keymatrixGet
  | 0x77 => some screenGet
  | 0x78 => some driveAttach
  | 0x79 => some videoRecord
  | 0x81 => some ping
  | 0x82 => some banksAvailable
  | 0x83 => some registersAvailable
  | 0x84 => some displayGet
  | 0x85 => some viceInfo
  | 0x86 => some cpuhistoryGet
  | 0x91 => some paletteGet
  | 0xa2 => some joyportSet
  | 0xb2 => some userportSet
  | 0xaa => some exit
  | 0xbb => some quit
  | 0xcc => some reset
  | 0xdd => some autostart
  | _ => none

section
variable {σ : Type} (M : Machine σ) (c : BinaryCommand) (s : σ)

/-- The length of the body as the handlers compare it. -/
def len (c : BinaryCommand) : Nat := c.length.toNat

/-- An error is sent and the handler returns. -/
def fails (e : BinaryError) (s : σ) : σ × List Response := (s, [monitorBinaryError e c.requestId])

/-- A response without a body ends the handler. -/
def done (type : BinaryResponse) (s : σ) : σ × List Response :=
  (s, [⟨0, type, .ok, c.requestId, none⟩])

/-- A response ends the handler; `responseSize` is what the handler has reserved for the body. -/
def answersSized (type : BinaryResponse) (responseSize : UInt32) (body : List UInt8) (s : σ) :
    σ × List Response :=
  (s, [⟨responseSize, type, .ok, c.requestId, some body⟩])

/-- The same for a body of fixed parts. -/
def answers (type : BinaryResponse) (body : List UInt8) (s : σ) : σ × List Response :=
  answersSized c type (UInt32.ofNat body.length) body s

/-! ## Checkpoints -/

/-- mirrors src/monitor/monitor_binary.c:528-552 (`monitor_binary_response_checkpoint_info`) -/
def checkpointInfo (requestId : UInt32) (checkpt : Checkpoint) (hit : Bool) : Response :=
  let op : UInt8 := (if checkpt.checkStore then 2 else 0) ||| (if checkpt.checkLoad then 1 else 0) |||
    (if checkpt.checkExec then 4 else 0)
  let body := writeUint32 checkpt.checknum ++ [hit.toUInt8] ++ writeUint16 checkpt.startAddr ++
    writeUint16 checkpt.endAddr ++ [checkpt.stop.toUInt8, checkpt.enabled.toUInt8, op,
      checkpt.temporary.toUInt8] ++ writeUint32 checkpt.hitCount ++ writeUint32 checkpt.ignoreCount ++
    [checkpt.condition.toUInt8, memspaceToUint8 checkpt.memspace]
  ⟨23, .checkpointInfo, .ok, requestId, some body⟩

/-- mirrors src/monitor/monitor_binary.c:554-557 (`monitor_binary_process_ping`) -/
def processPing : σ × List Response := done c .ping s

/-- mirrors src/monitor/monitor_binary.c:559-577 (`monitor_binary_process_checkpoint_get`) -/
def processCheckpointGet : σ × List Response :=
  let brknum := littleEndianToUint32 c.body 0
  if len c < 4 then fails c .cmdInvalidLength s
  else
    match M.findCheckpoint s brknum with
    | none => fails c .objectMissing s
    | some checkpt => (s, [checkpointInfo c.requestId checkpt false])

/-- mirrors src/monitor/monitor_binary.c:579-627 (`monitor_binary_process_checkpoint_set`), from
where the memory space is known. -/
def checkpointSetAt (memspace : Memspace) : σ × List Response :=
  let silent := M.checkpointDecodeSilent c.body c.length
  let (s, brknum) := M.addCheckpoint s memspace (littleEndianToUint16 c.body 0)
    (littleEndianToUint16 c.body 2) (c.body 4 ≠ 0) (c.body 6) (c.body 7 ≠ 0)
  let s := if c.body 5 = 0 then M.switchCheckpoint s false brknum else s
  match M.findCheckpoint s brknum with
  | none => (s, [])
  | some checkpt => (M.setSilent s brknum silent, [checkpointInfo c.requestId checkpt false])

def processCheckpointSet : σ × List Response :=
  let requestedMemspace := c.body 8
  if len c < 8 then fails c .cmdInvalidLength s
  else if 9 ≤ len c then
    let memspace := getRequestedMemspace requestedMemspace
    if memspace = .invalid then fails c .invalidMemspace s
    else checkpointSetAt M c s memspace
  else checkpointSetAt M c s .comp

/-- mirrors src/monitor/monitor_binary.c:629-649 (`monitor_binary_process_checkpoint_delete`) -/
def processCheckpointDelete : σ × List Response :=
  let brknum := littleEndianToUint32 c.body 0
  if len c < 4 then fails c .cmdInvalidLength s
  else
    match M.findCheckpoint s brknum with
    | none => fails c .objectMissing s
    | some _ => done c .checkpointDelete (M.deleteCheckpoint s brknum)

/-- mirrors src/monitor/monitor_binary.c:651-667 (`monitor_binary_process_checkpoint_list`) -/
def processCheckpointList : σ × List Response :=
  let checkpts := M.checkpointListGet s
  (s, checkpts.map (fun checkpt => checkpointInfo c.requestId checkpt false) ++
    [⟨4, .checkpointList, .ok, c.requestId, some (writeUint32 (UInt32.ofNat checkpts.length))⟩])

/-- mirrors src/monitor/monitor_binary.c:669-690 (`monitor_binary_process_checkpoint_toggle`) -/
def processCheckpointToggle : σ × List Response :=
  let brknum := littleEndianToUint32 c.body 0
  let enable := decide (c.body 4 ≠ 0)
  if len c < 5 then fails c .cmdInvalidLength s
  else
    match M.findCheckpoint s brknum with
    | none => fails c .objectMissing s
    | some _ => done c .checkpointToggle (M.switchCheckpoint s enable brknum)

def ascii (text : String) : List UInt8 := text.toList.map fun ch => UInt8.ofNat ch.toNat

/-- mirrors src/monitor/monitor_binary.c:692-736 (`monitor_binary_process_condition_set`) -/
def processConditionSet : σ × List Response :=
  let brknum := littleEndianToUint32 c.body 0
  let length := (c.body 4).toNat
  if len c < 5 + length then fails c .cmdInvalidLength s
  else
    match M.findCheckpoint s brknum with
    | none => fails c .objectMissing s
    | some _ =>
      let cond := stringField c.body 5 length
      let cmd := ascii "cond " ++ ascii (toString brknum.toNat) ++ ascii " if ( " ++ cond ++ ascii " )"
      match M.parseAndExecuteLine s cmd with
      | (s, true) => done c .conditionSet s
      | (s, false) => fails c .cmdFailure s

/-! ## Running the machine -/

/-- mirrors src/monitor/monitor_binary.c:738-755 (`monitor_binary_process_advance_instructions`) -/
def processAdvanceInstructions : σ × List Response :=
  let stepOverSubroutines := c.body 0
  let count := littleEndianToUint16 c.body 1
  if len c < 3 then fails c .cmdInvalidLength s
  else
    done c .advanceInstructions
      (if stepOverSubroutines ≠ 0 then M.instructionsNext s count else M.instructionsStep s count)

/-- mirrors src/monitor/monitor_binary.c:757-769 (`monitor_binary_process_reset`) -/
def processReset : σ × List Response :=
  let resetType := c.body 0
  if len c < 1 then fails c .cmdInvalidLength s
  else done c .reset (M.resetMachine s resetType)

/-- mirrors src/monitor/monitor_binary.c:771-791 (`monitor_binary_process_keyboard_feed`) -/
def processKeyboardFeed : σ × List Response :=
  let length := (c.body 0).toNat
  if c.apiVersion < 0x02 then fails c .cmdInvalidApiVersion s
  else if len c < 1 + length then fails c .cmdInvalidLength s
  else done c .keyboardFeed (M.kbdbufFeed s (stringField c.body 1 length))

/-- mirrors src/monitor/monitor_binary.c:793-798 -/
def processExecuteUntilReturn : σ × List Response :=
  done c .executeUntilReturn (M.instructionReturn s)

/-- mirrors src/monitor/monitor_binary.c:800-808 (`monitor_binary_process_keymatrix_set`) -/
def processKeymatrixSet : σ × List Response :=
  match M.keymatrixSet s c.body c.length with
  | (s, true) => done c .keymatrixSet s
  | (s, false) => fails c .cmdInvalidLength s

/-- mirrors src/monitor/monitor_binary.c:810-818 (`monitor_binary_process_keymatrix_tap`) -/
def processKeymatrixTap : σ × List Response :=
  match M.keymatrixTap s c.body c.length with
  | (s, true) => done c .keymatrixTap s
  | (s, false) => fails c .cmdInvalidLength s

/-- mirrors src/monitor/monitor_binary.c:820-830 (`monitor_binary_process_keymatrix_get`) -/
def processKeymatrixGet : σ × List Response :=
  match M.keymatrixGet s with
  | none => fails c .cmdFailure s
  | some buf => answers c .keymatrixGet buf s

/-- mirrors src/monitor/monitor_binary.c:832-842 (`monitor_binary_process_screen_get`) -/
def processScreenGet : σ × List Response :=
  match M.screenGet s with
  | none => fails c .cmdFailure s
  | some buf => answers c .screenGet buf s

/-- mirrors src/monitor/monitor_binary.c:876-901 (`monitor_binary_process_drive_attach`) -/
def processDriveAttach : σ × List Response :=
  match M.daDecode c.body c.length with
  | .errLength => fails c .cmdInvalidLength s
  | .errParam => fails c .invalidParameter s
  | .ok req =>
    if req.detach then done c .driveAttach (M.detachDisk s req.unit req.drive)
    else
      match M.attachDisk s req.unit req.drive req.path with
      | (s, true) => done c .driveAttach s
      | (s, false) => fails c .cmdFailure s

/-- mirrors src/monitor/monitor_binary.c:938-953 (`monitor_binary_process_video_record`) -/
def processVideoRecord : σ × List Response :=
  match M.videoRecord s c.body c.length with
  | (s, .errLength) => fails c .cmdInvalidLength s
  | (s, .failed) => fails c .cmdFailure s
  | (s, .ok) => done c .videoRecord s

/-- mirrors src/monitor/monitor_binary.c:955-977 (`monitor_binary_process_autostart`) -/
def processAutostart : σ × List Response :=
  let run := decide (c.body 0 ≠ 0)
  let fileIndex := littleEndianToUint16 c.body 1
  let filenameLength := (c.body 3).toNat
  if len c < 4 + filenameLength then fails c .cmdInvalidLength s
  else
    match M.autostart s (stringField c.body 4 filenameLength) fileIndex run with
    | (s, true) => done c .autostart s
    | (s, false) => fails c .cmdFailure s

/-- mirrors src/monitor/monitor_binary.c:1047-1069 (`monitor_binary_process_dump`) -/
def processDump : σ × List Response :=
  let saveRoms := decide (c.body 0 ≠ 0)
  let saveDisks := decide (c.body 1 ≠ 0)
  let filenameLength := (c.body 2).toNat
  if len c < 3 + filenameLength then fails c .cmdInvalidLength s
  else
    match M.writeSnapshot s (stringField c.body 3 filenameLength) saveRoms saveDisks with
    | (s, true) => done c .dump s
    | (s, false) => fails c .cmdFailure s

/-- mirrors src/monitor/monitor_binary.c:1071-1100 (`monitor_binary_process_undump`) -/
def processUndump : σ × List Response :=
  let filenameLength := (c.body 0).toNat
  if len c < 1 + filenameLength then fails c .cmdInvalidLength s
  else
    match M.readSnapshot s (stringField c.body 1 filenameLength) with
    | (s, false) => fails c .cmdFailure s
    | (s, true) => answers c .undump (writeUint16 (M.pc s)) (M.setDotAddr s (M.pc s))

/-- mirrors src/monitor/monitor_binary.c:1213-1218 (`monitor_binary_process_exit`) -/
def processExit : σ × List Response := done c .exit (M.exitMon s)

/-- mirrors src/monitor/monitor_binary.c:1220-1225 (`monitor_binary_process_quit`) -/
def processQuit : σ × List Response := done c .quit (M.quit s)

/-! ## Registers -/

/-- mirrors src/monitor/monitor_binary.c:465-483 (`write_registers`) -/
def writeRegisters (regs : List Register) (count : UInt16) : List UInt8 :=
  writeUint16 count ++ (regs.filter (!·.isFlags)).flatMap fun reg =>
    [3, reg.id] ++ writeUint16 reg.val

/-- mirrors src/monitor/monitor_binary.c:485-506 (`monitor_binary_response_register_info`) -/
def registerInfo (requestId : UInt32) (memspace : Memspace) : Response :=
  let regs := M.registerListGet s memspace
  let count := UInt16.ofNat (regs.filter (!·.isFlags)).length
  ⟨2 + count.toUInt32 * 4, .registerInfo, .ok, requestId, some (writeRegisters regs count)⟩

/-- mirrors src/monitor/monitor_binary.c:979-997 (`monitor_binary_process_registers_get`) -/
def processRegistersGet : σ × List Response :=
  let requestedMemspace := c.body 0
  if len c < 1 then fails c .cmdInvalidLength s
  else
    let memspace := getRequestedMemspace requestedMemspace
    if memspace = .invalid then fails c .invalidMemspace s
    else (s, [registerInfo M s c.requestId memspace])

/-- The loop of `monitor_binary_process_registers_set` from the item at `cursor`, with the error
that ends it. -/
def registersLoop (memspace : Memspace) : Nat → Nat → σ → σ × Option BinaryError
  | 0, _, s => (s, none)
  | n + 1, cursor, s =>
    let itemSize := c.body cursor
    let regId := c.body (cursor + 1)
    let regVal := littleEndianToUint16 c.body (cursor + 2)
    if itemSize < 3 then (s, some .cmdInvalidLength)
    else if M.registerValid s memspace regId = false then (s, some .objectMissing)
    else
      registersLoop memspace n (cursor + (itemSize.toNat + 1)) (M.registerSetVal s memspace regId regVal)

/-- mirrors src/monitor/monitor_binary.c:999-1045 (`monitor_binary_process_registers_set`) -/
def processRegistersSet : σ × List Response :=
  let requestedMemspace := c.body 0
  let count := (littleEndianToUint16 c.body 1).toNat
  if len c < 3 + count * (3 + 1) then fails c .cmdInvalidLength s
  else
    let memspace := getRequestedMemspace requestedMemspace
    if memspace = .invalid then fails c .invalidMemspace s
    else
      match registersLoop M c memspace count 3 s with
      | (s, some e) => fails c e s
      | (s, none) => (s, [registerInfo M s c.requestId memspace])

/-- The registers that are counted: the list goes on with an entry without name and flags. -/
def countAvailable (regs : List Register) : Nat :=
  if regs = [] then 0 else ((regs.drop 1).filter (!·.isFlags)).length + 1

/-- mirrors src/monitor/monitor_binary.c:1285-1363 (`monitor_binary_process_registers_available`) -/
def processRegistersAvailable : σ × List Response :=
  let requestedMemspace := c.body 0
  if len c < 1 then fails c .cmdInvalidLength s
  else
    let memspace := getRequestedMemspace requestedMemspace
    if memspace = .invalid then fails c .invalidMemspace s
    else
      let regs := M.registerListGet s memspace
      let countAll := UInt16.ofNat regs.length
      let listed := (regs.take countAll.toNat).filter (!·.isFlags)
      let responseSize := 2 + (listed.map fun reg => UInt32.ofNat (reg.name.length + 3) + 1).sum
      answersSized c .registersAvailable responseSize
        (writeUint16 (UInt16.ofNat (countAvailable regs)) ++ listed.flatMap fun reg =>
          [UInt8.ofNat (reg.name.length + 3), reg.id, reg.size] ++ writeString reg.name) s

/-! ## Resources -/

/-- `monitor_binary_process_resource_get` from where the type is asked. -/
def resourceValue (resourceName : List UInt8) : σ × List Response :=
  match M.queryType s resourceName with
  | .string =>
    match M.getString s resourceName with
    | none => fails c .objectMissing s
    | some value =>
      if 255 < value.length then fails c .objectMissing s
      else answers c .resourceGet ([0x00] ++ writeString value) s
  | .integer =>
    match M.getInt s resourceName with
    | none => fails c .objectMissing s
    | some value => answers c .resourceGet ([0x01, 4] ++ writeUint32 value) s
  | .unknown => fails c .objectMissing s

/-- mirrors src/monitor/monitor_binary.c:1102-1152 (`monitor_binary_process_resource_get`): the
length is an error, but it goes on. -/
def processResourceGet : σ × List Response :=
  let resourceNameLength := (c.body 0).toNat
  let (s, sent) :=
    if resourceNameLength < 1 ∨ len c < 1 + resourceNameLength then fails c .cmdInvalidLength s
    else (s, [])
  let (s, more) := resourceValue M c s (stringField c.body 1 resourceNameLength)
  (s, sent ++ more)

/-- The integer of `length` bytes at `off`. -/
def resourceInt (body : Memory) (off length : Nat) : Option UInt32 :=
  if length = 1 then some (body off).toUInt32
  else if length = 2 then some (littleEndianToUint16 body off).toUInt32
  else if length = 4 then some (littleEndianToUint32 body off)
  else none

/-- mirrors src/monitor/monitor_binary.c:1154-1211 (`monitor_binary_process_resource_set`) -/
def processResourceSet : σ × List Response :=
  let resourceValueType := c.body 0
  let nameLength := (c.body 1).toNat
  let valueLength := (c.body (2 + nameLength)).toNat
  if nameLength < 1 ∨ valueLength < 1 ∨ len c < 2 + nameLength + 1 + valueLength then
    fails c .cmdInvalidLength s
  else
    let resourceName := stringField c.body 2 nameLength
    let resourceValue := stringField c.body (2 + nameLength + 1) valueLength
    if resourceValueType = 0x00 then
      match M.queryType s resourceName with
      | .unknown => fails c .objectMissing s
      | .integer | .string =>
        match M.setValueString s resourceName resourceValue with
        | (s, true) => done c .resourceSet s
        | (s, false) => fails c .cmdFailure s
    else if resourceValueType = 0x01 then
      match resourceInt c.body (2 + nameLength + 1) valueLength with
      | none => fails c .cmdInvalidLength s
      | some value =>
        match M.setInt s resourceName value with
        | (s, true) => done c .resourceSet s
        | (s, false) => fails c .cmdFailure s
    else fails c .invalidParameter s

/-! ## Information -/

/-- mirrors src/monitor/monitor_binary.c:1227-1283 (`monitor_binary_process_banks_available`) -/
def processBanksAvailable : σ × List Response :=
  match M.banks s with
  | none => fails c .cmdFailure s
  | some banks =>
    let count := UInt16.ofNat banks.length
    let listed := banks.take count.toNat
    let responseSize := 2 + (listed.map fun bank => UInt32.ofNat (bank.2.length + 3) + 1).sum
    answersSized c .banksAvailable responseSize (writeUint16 count ++ listed.flatMap fun bank =>
      [UInt8.ofNat (bank.2.length + 3)] ++ writeUint16 bank.1 ++ writeString bank.2) s

/-- The canvas that `use_vic` selects. -/
def canvasNumber (useVic : UInt8) : Nat := if M.isC128 ∧ useVic ≠ 0 then 1 else 0

/-- mirrors src/monitor/monitor_binary.c:1411-1493 (`monitor_binary_process_display_get`) -/
def processDisplayGet : σ × List Response :=
  let useVic := c.body 0
  let format := c.body 1
  if c.apiVersion < 0x02 then fails c .cmdInvalidApiVersion s
  else if len c < 2 then fails c .cmdInvalidLength s
  else if format ≠ 0x00 then fails c .invalidParameter s
  else
    match M.screenshot s (canvasNumber M useVic) with
    | none => fails c .cmdFailure s
    | some shot =>
      let bufferLength := shot.debugWidth.toNat * shot.debugHeight.toNat
      answers c .displayGet (writeUint32 13 ++ writeUint16 shot.debugWidth ++
        writeUint16 shot.debugHeight ++ writeUint16 shot.debugOffsetX ++
        writeUint16 shot.debugOffsetY ++ writeUint16 shot.innerWidth ++
        writeUint16 shot.innerHeight ++ [8] ++ writeUint32 (UInt32.ofNat bufferLength) ++
        (List.range shot.debugHeight.toNat).flatMap shot.line) s

/-- mirrors src/monitor/monitor_binary.c:1495-1553 (`monitor_binary_process_palette_get`) -/
def processPaletteGet : σ × List Response :=
  let useVic := c.body 0
  if len c < 1 then fails c .cmdInvalidLength s
  else
    match M.screenshot s (canvasNumber M useVic) with
    | none => fails c .cmdFailure s
    | some shot =>
      let numEntries := UInt16.ofNat shot.palette.length
      answersSized c .paletteGet (2 + numEntries.toUInt32 * (3 + 1)) (writeUint16 numEntries ++
        (shot.palette.take numEntries.toNat).flatMap fun (red, green, blue) =>
          [3, red, green, blue]) s

/-- mirrors src/monitor/monitor_binary.c:1555-1582 (`monitor_binary_process_joyport_set`) -/
def processJoyportSet : σ × List Response :=
  let port := littleEndianToUint16 c.body 0
  let value := littleEndianToUint16 c.body 2
  if len c < 4 then fails c .cmdInvalidLength s
  else
    match M.joyportSetOutput s port value with
    | (s, .ok) => done c .joyportSet s
    | (s, .illegalPort) => fails c .objectMissing s
    | (s, .illegalValue) => fails c .invalidParameter s
    | (s, .generalFailure) => fails c .cmdFailure s

/-- mirrors src/monitor/monitor_binary.c:1584-1607 (`monitor_binary_process_userport_set`) -/
def processUserportSet : σ × List Response :=
  let value := littleEndianToUint16 c.body 0
  if len c < 2 then fails c .cmdInvalidLength s
  else
    match M.userportSetOutput s value with
    | (s, .ok) => done c .userportSet s
    | (s, .illegalValue) => fails c .invalidParameter s
    | (s, .illegalPort) | (s, .generalFailure) => fails c .cmdFailure s

/-- mirrors src/monitor/monitor_binary.c:1609-1621 (`monitor_binary_process_vice_info`) -/
def processViceInfo : σ × List Response :=
  let (v0, v1, v2, v3) := M.version
  answers c .viceInfo ([4, v0, v1, v2, v3, 4] ++ writeUint32 M.revision) s

/-- The registers of the history among those of the CPU, with the values of a record: `e_PC`, `e_A`,
`e_X`, `e_Y`, `e_SP`, `e_FLAGS`, `e_Rasterline` and `e_Cycle`. -/
def historyRegisters (templates : List Register) (e : Entry) : List Register :=
  (templates.filter (!·.isFlags)).filterMap fun reg =>
    match reg.id.toNat with
    | 0x00 => some { reg with val := e.regA.toUInt16 }
    | 0x01 => some { reg with val := e.regX.toUInt16 }
    | 0x02 => some { reg with val := e.regY.toUInt16 }
    | 0x03 => some { reg with val := e.addr }
    | 0x04 => some { reg with val := e.regSp.toUInt16 }
    | 0x05 => some { reg with val := e.regSt }
    | 0x35 | 0x36 => some { reg with val := 0xffff }
    | _ => none

/-- The response with the `entries` of the history, `count` of which were counted. -/
def historyResponse (ring : Ring) (memspace : Memspace) (count : UInt16) (entries : List Nat) :
    Response :=
  let templates := M.registerListGet s memspace
  let body := writeUint32 count.toUInt32 ++ entries.flatMap fun pos =>
    let e := ring.entry pos
    [47] ++ writeRegisters (historyRegisters templates e) 8 ++ writeUint64 e.cycle ++
      [4, e.op, e.p1, e.p2, 0xff]
  ⟨4 + count.toUInt32 * 48, .cpuhistoryGet, .ok, c.requestId, some body⟩

/-- mirrors src/monitor/monitor_binary.c:1624-1798 (`monitor_binary_process_cpuhistory`); `none` when
it does not return. -/
def processCpuhistory (fuel : Nat) : Option (σ × List Response) :=
  match M.cpuhistory s with
  | none => some (fails c .cmdFailure s)
  | some ring =>
    let requestedMemspace := c.body 0
    if len c < 5 then some (fails c .cmdInvalidLength s)
    else
      let memspace := getRequestedMemspace requestedMemspace
      if memspace = .invalid then some (fails c .invalidMemspace s)
      else
        let requestedCount := (littleEndianToUint32 c.body 1).toUInt16
        if requestedCount < 1 then some (fails c .invalidParameter s)
        else do
          let current ← monCpuhistorySeek fuel ring memspace requestedCount.toNat
          let counted ← entriesFrom ring memspace fuel current
          let count := UInt16.ofNat counted.length
          let current ← monCpuhistorySeek fuel ring memspace count.toNat
          let entries ← entriesFrom ring memspace fuel current
          some (s, [historyResponse M c s ring memspace count entries])

/-! ## Memory -/

/-- mirrors src/monitor/monitor_binary.c:1801-1867 (`monitor_binary_process_mem_get`) -/
def processMemGet : σ × List Response :=
  let newSidefx := decide (c.body 0 ≠ 0)
  let startaddress := littleEndianToUint16 c.body 1
  let endaddress := littleEndianToUint16 c.body 3
  let requestedMemspace := c.body 5
  let requestedBanknum := littleEndianToUint16 c.body 6
  let length := endaddress.toNat + 1 - startaddress.toNat
  if endaddress < startaddress then fails c .invalidParameter s
  else if len c < 8 then fails c .cmdInvalidLength s
  else
    let memspace := getRequestedMemspace requestedMemspace
    if memspace = .invalid then fails c .invalidMemspace s
    else if M.banknumValidate s memspace requestedBanknum = false then fails c .invalidParameter s
    else
      let (s, block) := M.getMemBlock s newSidefx memspace requestedBanknum startaddress length
      (s, [⟨2 + UInt32.ofNat length, .memGet, .ok, c.requestId,
        some (writeUint16 (UInt16.ofNat length) ++ block)⟩])

/-- mirrors src/monitor/monitor_binary.c:1869-1928 (`monitor_binary_process_mem_set`) -/
def processMemSet : σ × List Response :=
  let newSidefx := decide (c.body 0 ≠ 0)
  let startaddress := littleEndianToUint16 c.body 1
  let endaddress := littleEndianToUint16 c.body 3
  let requestedMemspace := c.body 5
  let requestedBanknum := littleEndianToUint16 c.body 6
  let length := endaddress.toNat + 1 - startaddress.toNat
  if endaddress < startaddress then fails c .invalidParameter s
  else if len c < length + 8 then fails c .cmdInvalidLength s
  else
    let memspace := getRequestedMemspace requestedMemspace
    if memspace = .invalid then fails c .invalidMemspace s
    else if M.banknumValidate s memspace requestedBanknum = false then fails c .invalidParameter s
    else
      done c .memSet ((List.range length).foldl (fun s i =>
        M.setMemVal s newSidefx memspace requestedBanknum (startaddress + UInt16.ofNat i)
          (c.body (8 + i))) s)

end

/-! ## Dispatch -/

/-- The handler of a command. -/
def dispatch {σ : Type} (fuel : Nat) (M : Machine σ) (c : BinaryCommand) (s : σ) :
    Option CommandType → Option (σ × List Response)
  | some .ping => some (processPing c s)
  | some .memGet => some (processMemGet M c s)
  | some .memSet => some (processMemSet M c s)
  | some .checkpointGet => some (processCheckpointGet M c s)
  | some .checkpointSet => some (processCheckpointSet M c s)
  | some .checkpointDelete => some (processCheckpointDelete M c s)
  | some .checkpointList => some (processCheckpointList M c s)
  | some .checkpointToggle => some (processCheckpointToggle M c s)
  | some .conditionSet => some (processConditionSet M c s)
  | some .registersGet => some (processRegistersGet M c s)
  | some .registersSet => some (processRegistersSet M c s)
  | some .dump => some (processDump M c s)
  | some .undump => some (processUndump M c s)
  | some .resourceGet => some (processResourceGet M c s)
  | some .resourceSet => some (processResourceSet M c s)
  | some .advanceInstructions => some (processAdvanceInstructions M c s)
  | some .keyboardFeed => some (processKeyboardFeed M c s)
  | some .executeUntilReturn => some (processExecuteUntilReturn M c s)
  | some .keymatrixSet => some (processKeymatrixSet M c s)
  | some .keymatrixTap => some (processKeymatrixTap M c s)
  | some .keymatrixGet => some (processKeymatrixGet M c s)
  | some .screenGet => some (processScreenGet M c s)
  | some .driveAttach => some (processDriveAttach M c s)
  | some .videoRecord => some (processVideoRecord M c s)
  | some .paletteGet => some (processPaletteGet M c s)
  | some .joyportSet => some (processJoyportSet M c s)
  | some .userportSet => some (processUserportSet M c s)
  | some .banksAvailable => some (processBanksAvailable M c s)
  | some .registersAvailable => some (processRegistersAvailable M c s)
  | some .displayGet => some (processDisplayGet M c s)
  | some .viceInfo => some (processViceInfo M c s)
  | some .cpuhistoryGet => processCpuhistory M c s fuel
  | some .exit => some (processExit M c s)
  | some .quit => some (processQuit M c s)
  | some .reset => some (processReset M c s)
  | some .autostart => some (processAutostart M c s)
  | none => some (fails c .cmdInvalidType s)

/-- mirrors src/monitor/monitor_binary.c:1931-2050 (`monitor_binary_process_command`) -/
def processCommand {σ : Type} (fuel : Nat) (M : Machine σ) (pbuffer : Memory) (s : σ) :
    Option (σ × List Response) :=
  let c := readCommand pbuffer
  if c.apiVersion < 0x01 ∨ 0x02 < c.apiVersion then some (fails c .cmdInvalidApiVersion s)
  else dispatch fuel M c (M.driveCpuExecuteAll s) (CommandType.ofCode c.type)

/-! ## A small machine -/

/-- All registers exist, and the state is what has been written to them, in order; there is one
resource, an integer. -/
def smallMachine (resource : List UInt8) (ring : Option Ring) :
    Machine (List (UInt8 × UInt16)) where
  driveCpuExecuteAll s := s
  findCheckpoint _ brknum := some ⟨brknum, .comp, 0, 0, true, true, false, false, true, false, 0, 0, false⟩
  addCheckpoint s _ _ _ _ _ _ := (s, 1)
  switchCheckpoint s _ _ := s
  setSilent s _ _ := s
  deleteCheckpoint s _ := s
  checkpointListGet _ := []
  checkpointDecodeSilent body length := 10 ≤ length.toNat ∧ body 9 ≠ 0
  parseAndExecuteLine s _ := (s, true)
  instructionsNext s _ := s
  instructionsStep s _ := s
  instructionReturn s := s
  resetMachine s _ := s
  kbdbufFeed s _ := s
  keymatrixSet s _ _ := (s, true)
  keymatrixTap s _ _ := (s, true)
  keymatrixGet _ := some []
  screenGet _ := some []
  daDecode _ _ := .errLength
  detachDisk s _ _ := s
  attachDisk s _ _ _ := (s, false)
  videoRecord s _ _ := (s, .errLength)
  autostart s _ _ _ := (s, false)
  registerListGet _ _ := []
  registerValid _ _ _ := true
  registerSetVal s _ id val := s ++ [(id, val)]
  pc _ := 0
  setDotAddr s _ := s
  writeSnapshot s _ _ _ := (s, false)
  readSnapshot s _ := (s, false)
  queryType _ name := if name = resource then .integer else .unknown
  getString _ _ := none
  getInt _ _ := some 0
  setValueString s _ _ := (s, true)
  setInt s _ _ := (s, true)
  exitMon s := s
  quit s := s
  banks _ := none
  isC128 := false
  screenshot _ _ := none
  joyportSetOutput s _ _ := (s, .ok)
  userportSetOutput s _ := (s, .ok)
  version := (3, 9, 0, 0)
  revision := 0
  cpuhistory _ := ring
  banknumValidate _ _ _ := false
  getMemBlock s _ _ _ _ count := (s, List.replicate count 0)
  setMemVal s _ _ _ _ _ := s

/-- A command in the buffer, with zeros behind it. -/
def commandBytes (requestId : UInt32) (code : UInt8) (body : List UInt8) : Memory :=
  atStream ([ascStx, 0x02] ++ writeUint32 (UInt32.ofNat body.length) ++ writeUint32 requestId ++
    [code] ++ body)

end Vice.L5.BinaryHandlers
