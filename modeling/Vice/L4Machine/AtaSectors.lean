import Vice.L4Machine.AtaTransferRuns

/-!
# The sectors that are asked for (`core/ata.c`)

A command that moves sectors is right if it accesses only sectors that were asked for and are there, if the
words are the bytes of these in their order, and if what was written comes back. `seek_sector` makes sure
that the first sector is within the size, and nobody looks at the others: what is asked for beyond it is
read from the file, and written to it.

Results:
* `transfer_read`, `transfer_write`: where a command is after any accesses and alarms.
* `exists_completing`: it comes to its end.
-/
namespace Vice.L4.AtaTransfer
open Vice.L4.AtaCommand (Image ATA_ABRT ATA_IDNF)
open Vice.L4.AtaAddress (Works)

/-- A drive that waits for a command, with the sectors of this one in its registers or in the packet. -/
structure Ready (write : Bool) (c : Drive) (f : Image) : Prop where
  type : c.type ≠ .none
  selected : c.dev = c.slave
  awake : c.cmd ≠ 0xe6
  idle : c.busy = 0
  room : c.buffer.length = 2048
  calm : c.type.atapi = true → c.attention = false
  asked : c.type.atapi = true → c.packet.getD 0 0 = if write then 0x2a else 0x28
  file : c.image = some f
  works : Works f
  writable : write = true → c.readonly = false

/-- The sectors of two commands are the same. -/
structure SameSectors (c c' : Drive) : Prop where
  type : c'.type = c.type
  start : startOf c' = startOf c
  count : sectorsOf c' = sectorsOf c

/-- All bytes passed that were asked for. -/
def Complete (c : Drive) (words : List UInt16) : Prop := 2 * words.length = sectorsOf c * c.type.sectorSize

/-- The command is exact and confined, whatever accesses and alarms there are. -/
structure Exact (others : OtherCommands) (clk : Nat) (write : Bool) (c : Drive) (f : Image) : Prop where
  confined : ∀ events, ∀ n ∈ (transfer others (command others clk write c) events).2.accessed,
    startOf c ≤ n ∧ n < startOf c + sectorsOf c ∧ n < c.geometry.size
  indices : ∀ events, let d := (transfer others (command others clk write c) events).2
    d.buffer.length = 2048 ∧ (wantsData d = true → d.bufp ||| 1 < 2048)
  outside : ∀ events, ∃ f', (transfer others (command others clk write c) events).2.image = some f' ∧
    ∀ i, write = false ∨ i < startOf c * c.type.sectorSize ∨
      (startOf c + sectorsOf c) * c.type.sectorSize ≤ i → f'.data.getD i 0 = f.data.getD i 0
  ordered : write = false → ∀ events, let words := (transfer others (command others clk write c) events).1
    bytesOf words = (List.range (2 * words.length)).map fun i =>
      byteAt c.type.sectorSize f.data (startOf c * c.type.sectorSize + i)
  returned : write = true → ∀ events, let (words, d) := transfer others (command others clk write c) events
    Complete c words → ∀ clk' c' f', Ready false c' f' → SameSectors c c' →
      d.image.map Image.data = some f'.data →
      ∀ events', (transfer others (command others clk' false c') events').1 <+: words
  finishes : 0 ≤ address c → address c < c.geometry.size →
    ∃ events, Complete c (transfer others (command others clk write c) events).1

/-- The sectors are all within the size, or the first one is not. -/
def Fits (c : Drive) : Prop :=
  0 ≤ address c → address c < c.geometry.size → startOf c + sectorsOf c ≤ c.geometry.size

section
variable {c d : Drive} {others : OtherCommands} {f : Image} {clk : Nat} {words : List UInt16} {write : Bool}
  {events : List Event} {j m : Nat}

/-! ## The start of a command -/

/-- The head is at the first sector. -/
structure Sought (d d' : Drive) (f : Image) : Prop where
  type : d'.type = d.type
  selected : d'.dev = d.dev
  slave : d'.slave = d.slave
  buffer : d'.buffer = d.buffer
  readonly : d'.readonly = d.readonly
  attention : d'.attention = d.attention
  count : d'.sectorCountInternal = d.sectorCountInternal
  accessed : d'.accessed = d.accessed
  error : d'.error = 0
  busy : d.busy = 0 → d'.busy &&& ~~~2 &&& ~~~1 = 0
  image : d'.image = some { f with pos := startOf d * d.type.sectorSize }
  nextSector : d'.nextSector = startOf d

theorem powerMode_buffer (clk : Nat) (e : AtaCommand.Drive) :
    (AtaCommand.ataChangePowerMode clk 0xff e).buffer = e.buffer ∧
      ((AtaCommand.ataChangePowerMode clk 0xff e).busy = e.busy ∨
        (AtaCommand.ataChangePowerMode clk 0xff e).busy = e.busy ||| 1) := by
  by_cases hpower : e.power = 0
  · simp [AtaCommand.ataChangePowerMode, hpower]
  · simp [AtaCommand.ataChangePowerMode, hpower]

/-- The motor is running, or will be. -/
theorem sought_of_power {p : AtaCommand.Drive} (herror : p.error = 0)
    (hbusy : p.busy = d.busy ||| 2 ∨ p.busy = d.busy ||| 2 ||| 1) (hbuffer : p.buffer = d.buffer)
    (hreadonly : p.readonly = d.readonly) (hcount : p.sectorCountInternal = d.sectorCountInternal) :
    Sought d { d with
      toDrive := { p with image := some { f with pos := startOf d * d.type.sectorSize }, pos := startOf d }
      nextSector := startOf d } f where
  type := rfl
  selected := rfl
  slave := rfl
  buffer := hbuffer
  readonly := hreadonly
  attention := rfl
  count := hcount
  accessed := rfl
  error := herror
  busy hidle := by
    rw [hidle] at hbusy
    dsimp only
    obtain h | h := hbusy
    all_goals
      rw [h]
      rfl
  image := rfl
  nextSector := rfl

theorem seekSector_accepts (hfile : d.image = some f) (hworks : Works f) (h0 : 0 ≤ address d)
    (hlt : address d < d.geometry.size) : Sought d (seekSector d clk) f := by
  have hnone : ¬ (d.geometry.size ≤ address d ∨ address d < 0) := by omega
  rcases d with ⟨⟨⟩⟩
  obtain rfl := hfile
  unfold seekSector
  dsimp only
  rw [if_neg (by exact hnone), hworks.seek, if_neg Bool.false_ne_true]
  generalize hp : AtaCommand.ataChangePowerMode clk 0xff _ = p
  obtain ⟨hpe, -, hpr, hpn⟩ := AtaAddress.ataChangePowerMode_idle clk _
  obtain ⟨hpb, hpower⟩ := powerMode_buffer clk _
  rw [hp] at hpe hpr hpn hpb hpower
  exact sought_of_power hpe hpower hpb hpr hpn

/-- An address beyond the size ends the command. -/
theorem seekSector_rejects (hfile : d.image = some f) (h : ¬ (0 ≤ address d ∧ address d < d.geometry.size)) :
    seekSector d clk = { d with
      bufp := d.type.sectorSize, error := if d.type.atapi then 0x54 else ATA_IDNF, cmd := 0x00 } := by
  have hover : d.geometry.size ≤ address d ∨ address d < 0 := by omega
  rcases d with ⟨⟨⟩⟩
  obtain rfl := hfile
  unfold seekSector
  dsimp only
  rw [if_pos (by exact hover)]

/-- The drive as the command finds it. -/
def started (c : Drive) : Drive :=
  { c with accessed := [], bufp := c.type.sectorSize, error := 0, cmd := 0x00, sectorCountInternal := countByte c }

def readCommand (c : Drive) : UInt8 := if c.type.atapi then 0x28 else 0x20

def writeCommand (c : Drive) : UInt8 := if c.type.atapi then 0x2a else 0x30

theorem readCommand_cases (c : Drive) : readCommand c = 0x20 ∨ readCommand c = 0x28 := by
  unfold readCommand
  split_ifs
  · exact .inr rfl
  · exact .inl rfl

theorem writeCommand_cases (c : Drive) : writeCommand c = 0x30 ∨ writeCommand c = 0x2a := by
  unfold writeCommand
  split_ifs
  · exact .inr rfl
  · exact .inl rfl

/-- What the command is, once the head is there. -/
def begun (clk : Nat) (write : Bool) (c : Drive) : Drive :=
  let d := seekSector (started c) clk
  if d.error ≠ 0 then d
  else if write then { d with bufp := 0, cmd := writeCommand c } else readSector { d with cmd := readCommand c }

/-- A command that got to its sectors may write them. -/
theorem started_readonly (h : Ready write c f) (hwrite : write = true)
    (herror : ¬ (seekSector (started c) clk).error ≠ 0) : (seekSector (started c) clk).readonly = false := by
  by_cases hvalid : 0 ≤ address (started c) ∧ address (started c) < (started c).geometry.size
  · have hsought := @seekSector_accepts (started c) f clk h.file h.works hvalid.1 hvalid.2
    exact hsought.readonly.trans (h.writable hwrite)
  · rw [@seekSector_rejects (started c) f clk h.file hvalid] at herror
    dsimp only at herror
    exfalso
    split_ifs at herror
    · exact herror (by decide)
    · exact herror (by decide)

theorem packetCommand_eq (h : Ready write c f) (hatapi : c.type.atapi = true) :
    command others clk write c = begun clk write c := by
  have hcount : countByte c = c.packet.getD 8 0 := if_pos hatapi
  have hstarted : started c = { c with
      accessed := [], bufp := c.type.sectorSize, error := 0, cmd := 0x00
      sectorCountInternal := c.packet.getD 8 0 } := by
    rw [started, hcount]
  have hcalm : ¬ c.attention = true := by
    rw [h.calm hatapi]
    exact Bool.false_ne_true
  have hreadonly := @started_readonly c f clk write h
  have hasked := h.asked hatapi
  unfold command begun readCommand writeCommand
  rw [if_pos hatapi, if_pos hatapi, if_pos hatapi]
  unfold atapiPacketExecuteCommand
  dsimp only
  rw [if_neg hcalm, ← hstarted]
  cases write with
  | true =>
    rw [if_pos rfl] at hasked
    rw [hasked, if_neg (by decide), if_pos rfl]
    by_cases herror : (seekSector (started c) clk).error ≠ 0
    · rw [if_pos herror, if_pos herror]
    · rw [if_neg herror, if_neg herror, if_neg (ne_true_of_eq_false (hreadonly rfl herror)), if_pos rfl]
  | false =>
    rw [if_neg Bool.false_ne_true] at hasked
    rw [hasked, if_pos rfl]
    rfl

theorem ataCommand_eq (h : Ready write c f) (hatapi : ¬ c.type.atapi = true) :
    command others clk write c = begun clk write c := by
  have hcount : countByte c = c.sectorCount := if_neg hatapi
  have hstarted : started c = { c with
      accessed := [], bufp := c.type.sectorSize, error := 0, cmd := 0x00
      sectorCountInternal := c.sectorCount } := by
    rw [started, hcount]
  have hreadonly := @started_readonly c f clk write h
  unfold command begun readCommand writeCommand
  rw [if_neg hatapi, if_neg hatapi, if_neg hatapi]
  unfold ataExecuteCommand
  dsimp only
  rw [if_neg h.awake, ← hstarted]
  cases write with
  | true =>
    rw [if_pos rfl, if_neg (by decide), if_pos (by decide)]
    by_cases herror : (seekSector (started c) clk).error ≠ 0
    · rw [if_pos herror, if_pos herror]
    · rw [if_neg herror, if_neg herror, if_neg (ne_true_of_eq_false (hreadonly rfl herror)), if_pos rfl]
  | false =>
    rw [if_neg Bool.false_ne_true, if_pos (by decide)]
    rfl

theorem command_eq (h : Ready write c f) : command others clk write c = begun clk write c := by
  by_cases hatapi : c.type.atapi = true
  · exact packetCommand_eq h hatapi
  · exact ataCommand_eq h hatapi

theorem started_kept (h : Ready write c f) : Kept c (started c) :=
  ⟨rfl, h.selected, h.room, rfl, h.calm⟩

theorem Sought.kept {d' : Drive} (h : Sought d d' f) (hkept : Kept c d) : Kept c d' where
  type := h.type.trans hkept.type
  selected := by rw [h.selected, h.slave, hkept.selected]
  room := by rw [h.buffer, hkept.room]
  readonly := h.readonly.trans hkept.readonly
  calm := fun hatapi => h.attention.trans (hkept.calm hatapi)

theorem count_left (c : Drive) : ((countByte c).toNat + 0) % 256 = sectorsOf c % 256 := by
  unfold sectorsOf
  split_ifs with hzero
  · rw [hzero]
    rfl
  · rfl

theorem begun_write (h : Ready true c f) (h0 : 0 ≤ address c) (hlt : address c < c.geometry.size) :
    Writing c f [] 0 0 (begun clk true c) ∧ (begun clk true c).busy &&& ~~~2 &&& ~~~1 = 0 := by
  have hsought := @seekSector_accepts (started c) f clk h.file h.works h0 hlt
  have hkept := hsought.kept (started_kept h)
  have hsize := (sectorSize_even c.type).2.1
  unfold begun
  dsimp only
  rw [if_neg (fun hne => hne hsought.error), if_pos rfl]
  refine ⟨?_, hsought.busy h.idle⟩
  exact {
    type := hkept.type, selected := hkept.selected, room := hkept.room, readonly := hkept.readonly
    calm := hkept.calm, cmd := writeCommand_cases c, bufp := rfl, inside := hsize
    length := by simp, more := (sectorsOf_le c).1, left := by
      dsimp only
      rw [hsought.count]
      exact count_left c
    filled := by simp [bytesOf]
    file := ⟨f.data, hsought.image, ⟨fun i hi => absurd hi (by simp), fun _ _ => rfl⟩⟩
    accessed := hsought.accessed, nextSector := hsought.nextSector }

theorem begun_read (h : Ready false c f) (h0 : 0 ≤ address c) (hlt : address c < c.geometry.size) :
    Reading c f [] 0 0 (begun clk false c) ∧ (begun clk false c).busy &&& ~~~2 &&& ~~~1 = 0 := by
  have hsought := @seekSector_accepts (started c) f clk h.file h.works h0 hlt
  have hkept := hsought.kept (started_kept h)
  obtain ⟨-, hsize, hsmall⟩ := sectorSize_even c.type
  unfold begun
  dsimp only
  rw [if_neg (fun hne => hne hsought.error), if_neg Bool.false_ne_true]
  obtain ⟨pos, hread, hpos⟩ := @readSector_eq { seekSector (started c) clk with cmd := readCommand c }
    { f with pos := startOf c * c.type.sectorSize } (startOf c) hsought.image
    ⟨h.works.seek, h.works.read, h.works.write, h.works.flush⟩ (fun hatapi => hkept.calm (hkept.type ▸ hatapi))
    (.inl (congrArg (startOf c * DriveType.sectorSize ·) hkept.type.symm))
  rw [hread]
  refine ⟨?_, hsought.busy h.idle⟩
  rw [show ({ seekSector (started c) clk with cmd := readCommand c } : Drive).type = c.type from hkept.type] at hpos ⊢
  exact {
    type := rfl, selected := hkept.selected
    room := by
      dsimp only
      rw [List.length_append, sectorAt_length, List.length_drop, hkept.room]
      omega
    readonly := hkept.readonly, calm := hkept.calm, cmd := readCommand_cases c, bufp := rfl, inside := hsize
    length := by simp, more := (sectorsOf_le c).1
    left := by
      dsimp only
      rw [hsought.count]
      exact count_left c
    sector := List.take_left' (sectorAt_length _ _)
    file := ⟨pos, rfl, hpos⟩
    accessed := by
      dsimp only
      rw [hsought.accessed, hsought.nextSector]
      rfl
    nextSector := congrArg (· + 1) hsought.nextSector
    words := rfl }

/-- A command that is rejected moves nothing. -/
theorem begun_rejected (h : Ready write c f) (hinvalid : ¬ (0 ≤ address c ∧ address c < c.geometry.size)) :
    Ended c [] 0 (begun clk write c) ∧ (begun clk write c).image = some f := by
  have hseek := @seekSector_rejects (started c) f clk h.file hinvalid
  have herror : (seekSector (started c) clk).error ≠ 0 := by
    rw [hseek]
    dsimp only
    split_ifs <;> decide
  have hpos := Nat.mul_pos (sectorsOf_le c).1 (sectorSize_even c.type).2.1
  have hbegun : begun clk write c = seekSector (started c) clk := if_pos herror
  rw [hbegun, hseek]
  refine ⟨?_, h.file⟩
  exact {
    type := rfl, room := h.room, still := rfl, bufp := rfl, length := Nat.zero_le _, most := Nat.zero_le _
    complete := fun hcomplete => absurd hcomplete (Nat.ne_of_lt hpos), accessed := rfl }

theorem command_write (h : Ready true c f) : WriteState c f [] (command others clk true c) := by
  rw [command_eq h]
  by_cases hvalid : 0 ≤ address c ∧ address c < c.geometry.size
  · exact .inl ⟨0, 0, (begun_write h hvalid.1 hvalid.2).1⟩
  · obtain ⟨hended, hfile⟩ := @begun_rejected c f clk true h hvalid
    refine .inr ⟨0, hended, f.data, f.pos, hfile, ⟨fun i hi => absurd hi (by simp), fun _ _ => rfl⟩⟩

theorem command_read (h : Ready false c f) : ReadState c f [] (command others clk false c) := by
  rw [command_eq h]
  by_cases hvalid : 0 ≤ address c ∧ address c < c.geometry.size
  · exact .inl ⟨0, 0, (begun_read h hvalid.1 hvalid.2).1⟩
  · obtain ⟨hended, hfile⟩ := @begun_rejected c f clk false h hvalid
    exact .inr ⟨0, hended, ⟨f.pos, hfile⟩, rfl⟩

/-! ## Runs -/

/-- What every turn keeps is kept by a transfer. -/
theorem transfer_spec {I : List UInt16 → Drive → Prop} (hturn : ∀ words d event, I words d → moving d = true →
      I (words ++ (passed d event).toList) (step others d event))
    (h : I words d) : I (words ++ (transfer others d events).1) (transfer others d events).2 := by
  induction events generalizing words d with
  | nil =>
    rw [transfer, List.append_nil]
    exact h
  | cons event events ih =>
    rw [transfer]
    split_ifs with hmoving
    · have hnext := ih (hturn words d event h hmoving)
      rw [List.append_assoc] at hnext
      exact hnext
    · rw [List.append_nil]
      exact h

theorem transfer_read (h : Ready false c f) : ReadState c f (transfer others (command others clk false c) events).1
    (transfer others (command others clk false c) events).2 := by
  have hstart := @command_read c others f clk h
  have hrun := @transfer_spec _ others _ events (ReadState c f) ?_ hstart
  · exact hrun
  · intro words d event hd hmoving
    obtain ⟨j, m, hreading⟩ | ⟨k, hended⟩ := hd
    · have htype : d.type ≠ .none := hreading.type ▸ h.type
      have hroom : d.bufp < d.type.sectorSize := by
        rw [hreading.bufp, hreading.type]
        exact hreading.inside
      exact hreading.turn h.works (step_turn htype hreading.selected hmoving hroom event)
    · rw [hended.still] at hmoving
      exact absurd hmoving Bool.false_ne_true

theorem transfer_write (h : Ready true c f) :
    WriteState c f (transfer others (command others clk true c) events).1
      (transfer others (command others clk true c) events).2 := by
  have hstart := @command_write c others f clk h
  have hrun := @transfer_spec _ others _ events (WriteState c f) ?_ hstart
  · exact hrun
  · intro words d event hd hmoving
    obtain ⟨j, m, hwriting⟩ | ⟨k, hended⟩ := hd
    · have htype : d.type ≠ .none := hwriting.type ▸ h.type
      have hroom : d.bufp < d.type.sectorSize := by
        rw [hwriting.bufp, hwriting.type]
        exact hwriting.inside
      exact hwriting.turn h.works (h.writable rfl) (step_turn htype hwriting.selected hmoving hroom event)
    · rw [hended.still] at hmoving
      exact absurd hmoving Bool.false_ne_true

/-- What a command leaves at any time: `k` sectors were accessed, and the bytes of no others changed. -/
structure Confined (write : Bool) (c : Drive) (f : Image) (words : List UInt16) (k : Nat) (d : Drive) : Prop where
  most : k ≤ sectorsOf c
  accessed : d.accessed = List.range' (startOf c) k
  complete : Complete c words → k = sectorsOf c
  room : d.buffer.length = 2048
  index : wantsData d = true → d.bufp ||| 1 < 2048
  file : ∃ f', d.image = some f' ∧ ∀ i, write = false ∨ i < startOf c * c.type.sectorSize ∨
    (startOf c + sectorsOf c) * c.type.sectorSize ≤ i → f'.data.getD i 0 = f.data.getD i 0

theorem index_lt {m : Nat} (t : DriveType) (hm : m < t.sectorSize) (heven : m % 2 = 0) : m ||| 1 < 2048 := by
  obtain ⟨hsize, -, hsmall⟩ := sectorSize_even t
  rw [or_one_eq heven]
  omega

theorem wantsData_lt (h : wantsData d = true) : d.bufp < d.type.sectorSize := by
  unfold wantsData at h
  rw [Bool.and_eq_true, decide_eq_true_eq] at h
  exact h.2

theorem ReadState.confined (h : ReadState c f words d) : ∃ k, Confined false c f words k d := by
  obtain ⟨j, m, hreading⟩ | ⟨k, hended⟩ := h
  · obtain ⟨pos, hfile, -⟩ := hreading.file
    have hlt := length_lt hreading.length hreading.inside hreading.more
    refine ⟨j + 1, hreading.more, hreading.accessed, fun hcomplete => absurd hcomplete (Nat.ne_of_lt hlt),
      hreading.room, fun _ => ?_, ⟨_, hfile, fun _ _ => rfl⟩⟩
    rw [hreading.bufp]
    exact index_lt c.type hreading.inside hreading.even
  · obtain ⟨pos, hfile⟩ := hended.file
    refine ⟨k, hended.most, hended.accessed, hended.complete, hended.room, fun hwants => ?_,
      ⟨_, hfile, fun _ _ => rfl⟩⟩
    have hlt := wantsData_lt hwants
    rw [hended.bufp, hended.type] at hlt
    exact absurd hlt (Nat.lt_irrefl _)

theorem written_outside {data : List UInt8} {k : Nat} (h : Written (startOf c) c.type.sectorSize f.data (bytesOf words) k data)
    (hmost : k ≤ sectorsOf c) (i : Nat) (hi : true = false ∨ i < startOf c * c.type.sectorSize ∨
      (startOf c + sectorsOf c) * c.type.sectorSize ≤ i) : data.getD i 0 = f.data.getD i 0 := by
  have hle : (startOf c + k) * c.type.sectorSize ≤ (startOf c + sectorsOf c) * c.type.sectorSize :=
    Nat.mul_le_mul_right _ (Nat.add_le_add_left hmost _)
  obtain hfalse | hbelow | habove := hi
  · exact absurd hfalse (by decide)
  · exact h.old i (.inl hbelow)
  · exact h.old i (.inr (Nat.le_trans hle habove))

theorem WriteState.confined (h : WriteState c f words d) : ∃ k, Confined true c f words k d := by
  obtain ⟨j, m, hwriting⟩ | ⟨k, hended⟩ := h
  · obtain ⟨data, hfile, hwritten⟩ := hwriting.file
    have hlt := length_lt hwriting.length hwriting.inside hwriting.more
    refine ⟨j, Nat.le_of_lt hwriting.more, hwriting.accessed,
      fun hcomplete => absurd hcomplete (Nat.ne_of_lt hlt), hwriting.room, fun _ => ?_,
      ⟨_, hfile, written_outside hwritten (Nat.le_of_lt hwriting.more)⟩⟩
    rw [hwriting.bufp]
    exact index_lt c.type hwriting.inside hwriting.even
  · obtain ⟨data, pos, hfile, hwritten⟩ := hended.file
    refine ⟨k, hended.most, hended.accessed, hended.complete, hended.room, fun hwants => ?_,
      ⟨_, hfile, written_outside hwritten hended.most⟩⟩
    have hlt := wantsData_lt hwants
    rw [hended.bufp, hended.type] at hlt
    exact absurd hlt (Nat.lt_irrefl _)

theorem transfer_confined (h : Ready write c f) :
    ∃ k, Confined write c f (transfer others (command others clk write c) events).1 k
      (transfer others (command others clk write c) events).2 := by
  cases write with
  | true => exact (transfer_write h).confined
  | false => exact (transfer_read h).confined

/-- A command that is rejected accesses nothing. -/
theorem transfer_rejected (h : Ready write c f) (hinvalid : ¬ (0 ≤ address c ∧ address c < c.geometry.size)) :
    (transfer others (command others clk write c) events).2.accessed = [] := by
  have hended := (@begun_rejected c f clk write h hinvalid).1
  rw [command_eq h]
  cases events with
  | nil => exact hended.accessed
  | cons event events =>
    rw [transfer, hended.still, if_neg Bool.false_ne_true]
    exact hended.accessed

theorem ReadState.words_eq (h : ReadState c f words d) : 2 * words.length ≤ sectorsOf c * c.type.sectorSize ∧
      bytesOf words = (List.range (2 * words.length)).map fun i =>
        byteAt c.type.sectorSize f.data (startOf c * c.type.sectorSize + i) := by
  obtain ⟨j, m, hreading⟩ | ⟨k, hended⟩ := h
  · exact ⟨Nat.le_of_lt (length_lt hreading.length hreading.inside hreading.more), hreading.words⟩
  · exact ⟨hended.length, hended.words⟩

/-! ## The end of a command -/

/-- As long as a turn brings a word, a transfer comes to its end. -/
theorem transfer_finishes {I : List UInt16 → Drive → Prop}
    (hturn : ∀ words d, I words d → moving d = true ∧ ∃ event word, passed d event = some word ∧
      (I (words ++ [word]) (step others d event) ∨ Complete c (words ++ [word])))
    (hlt : ∀ words d, I words d → 2 * words.length < sectorsOf c * c.type.sectorSize) (n : Nat)
    (words : List UInt16) (d : Drive) (h : I words d) (hn : sectorsOf c * c.type.sectorSize ≤ 2 * words.length + n) :
    ∃ events, Complete c (words ++ (transfer others d events).1) := by
  induction n generalizing words d with
  | zero =>
    have := hlt words d h
    omega
  | succ n ih =>
    obtain ⟨hmoving, event, word, hpassed, hnext⟩ := hturn words d h
    obtain hmore | hcomplete := hnext
    · obtain ⟨events, hevents⟩ := ih (words ++ [word]) (step others d event) hmore (by
        rw [List.length_append, List.length_singleton]
        omega)
      refine ⟨event :: events, ?_⟩
      rw [transfer, if_pos hmoving, hpassed]
      rw [List.append_assoc] at hevents
      exact hevents
    · refine ⟨[event], ?_⟩
      rw [transfer, if_pos hmoving, hpassed]
      exact hcomplete

theorem Reading.finishes (h : Reading c f words j m d) (hworks : Works f) (htype : c.type ≠ .none)
    (hidle : d.busy = 0) : ∃ events, Complete c (words ++ (transfer others d events).1) := by
  refine transfer_finishes (I := fun words d => d.busy = 0 ∧ ∃ j m, Reading c f words j m d) ?_ ?_
    (sectorsOf c * c.type.sectorSize) words d ⟨hidle, j, m, h⟩ (Nat.le_add_left _ _)
  · rintro words d ⟨hidle, j, m, h⟩
    have hwants : wantsData d = true := by
      unfold wantsData
      rw [hidle, h.bufp, h.type]
      simpa using h.inside
    have hmoving := moving_iff.mpr (.inl h.cmd)
    have hread := readData_eq 0 hwants h.cmd
    have hregister : ataRegisterRead d 0 0 = readData d 0 :=
      ataRegisterRead_data 0 (h.type ▸ htype) h.selected (awake_of_moving hmoving)
    refine ⟨hmoving, .read 0 0, bufferWord d, ?_, ?_⟩
    · unfold passed
      dsimp only
      rw [if_pos ⟨rfl, hwants, h.cmd, h.selected⟩, hregister, hread]
    · rw [show step others d (.read 0 0) = takeWord d by
        rw [show step others d (.read 0 0) = (ataRegisterRead d 0 0).2 from rfl, hregister, hread]]
      obtain ⟨j', m', hmore⟩ | ⟨k, -, hcomplete⟩ := h.taken hworks
      · exact .inl ⟨(h.busy hworks).trans hidle, j', m', hmore⟩
      · exact .inr hcomplete
  · rintro words d ⟨-, j, m, h⟩
    exact length_lt h.length h.inside h.more

theorem Writing.finishes (h : Writing c f words j m d) (hworks : Works f) (hwritable : c.readonly = false)
    (htype : c.type ≠ .none) (hidle : d.busy = 0) :
    ∃ events, Complete c (words ++ (transfer others d events).1) := by
  refine transfer_finishes (I := fun words d => d.busy = 0 ∧ ∃ j m, Writing c f words j m d) ?_ ?_
    (sectorsOf c * c.type.sectorSize) words d ⟨hidle, j, m, h⟩ (Nat.le_add_left _ _)
  · rintro words d ⟨hidle, j, m, h⟩
    have hwants : wantsData d = true := by
      unfold wantsData
      rw [hidle, h.bufp, h.type]
      simpa using h.inside
    have hmoving := moving_iff.mpr (.inr h.cmd)
    refine ⟨hmoving, .store 0 0 0, 0, if_pos ⟨rfl, hwants, h.cmd⟩, ?_⟩
    rw [show step others d (.store 0 0 0) = storeData d others 0 0 from
      ataRegisterStore_data 0 0 (h.type ▸ htype) (awake_of_moving hmoving)]
    obtain ⟨j', m', hmore⟩ | ⟨k, -, hcomplete⟩ := h.given hworks hwritable 0 0 hwants
    · exact .inl ⟨(h.busy hworks hwritable 0 0 hwants).trans hidle, j', m', hmore⟩
    · exact .inr hcomplete
  · rintro words d ⟨-, j, m, h⟩
    exact length_lt h.length h.inside h.more

/-- When the motor runs and the head is there the words can pass. -/
theorem alarms_finish (hmoving : moving d = true)
    (hwords : ∃ events, Complete c (transfer others (step others (step others d .headAlarm) .spindleAlarm) events).1) :
    ∃ events, Complete c (transfer others d events).1 := by
  obtain ⟨events, hcomplete⟩ := hwords
  refine ⟨.headAlarm :: .spindleAlarm :: events, ?_⟩
  have hnext : moving (step others d .headAlarm) = true := hmoving
  rw [transfer, if_pos hmoving, transfer, if_pos hnext]
  exact hcomplete

theorem exists_completing (h : Ready write c f) (h0 : 0 ≤ address c) (hlt : address c < c.geometry.size) :
    ∃ events, Complete c (transfer others (command others clk write c) events).1 := by
  have hquiet (d : Drive) : Quiet d (step others (step others d .headAlarm) .spindleAlarm) :=
    ⟨rfl, rfl, rfl, rfl, rfl, rfl, rfl, rfl, rfl, rfl, rfl, rfl⟩
  rw [command_eq h]
  cases write with
  | true =>
    obtain ⟨hwriting, hidle⟩ := @begun_write c f clk h h0 hlt
    exact alarms_finish (moving_iff.mpr (.inr hwriting.cmd))
      ((hwriting.quiet (hquiet _)).finishes h.works (h.writable rfl) h.type hidle)
  | false =>
    obtain ⟨hreading, hidle⟩ := @begun_read c f clk h h0 hlt
    exact alarms_finish (moving_iff.mpr (.inl hreading.cmd))
      ((hreading.quiet (hquiet _)).finishes h.works h.type hidle)

/-! ## What comes back -/

theorem byteAt_inside {data : List UInt8} {i size : Nat} (hsize : 0 < size)
    (h : (i / size + 1) * size ≤ data.length) : byteAt size data i = data.getD i 0 := by
  have hmod := Nat.mod_lt i hsize
  have hdiv := Nat.div_add_mod' i size
  have hsucc : (i / size + 1) * size = i / size * size + size := Nat.succ_mul _ _
  have hwhole : ((data.drop (i / size * size)).take size).length = size := by
    rw [List.length_take, List.length_drop]
    omega
  unfold byteAt sectorAt
  dsimp only
  rw [if_pos hwhole, List.getD_eq_getElem?_getD, List.getElem?_take_of_lt hmod, List.getElem?_drop, hdiv,
    ← List.getD_eq_getElem?_getD]

theorem bytesOf_inj {words words' : List UInt16} (h : bytesOf words = bytesOf words') : words = words' := by
  induction words generalizing words' with
  | nil =>
    have hlength := congrArg List.length h
    rw [bytesOf_length, bytesOf_length] at hlength
    rw [List.length_nil] at hlength
    exact (List.length_eq_zero_iff.mp (by omega)).symm
  | cons word words ih =>
    cases words' with
    | nil => simp [bytesOf] at h
    | cons word' words' =>
      simp only [bytesOf, List.flatMap_cons, List.cons_append, List.nil_append, List.cons.injEq] at h
      obtain ⟨hlow, hhigh, hrest⟩ := h
      have hword : word = word' := by
        have hlt := word.toNat_lt
        have hlt' := word'.toNat_lt
        rw [← UInt8.toNat_inj, UInt16.toNat_toUInt8, UInt16.toNat_toUInt8] at hlow hhigh
        rw [UInt16.toNat_shiftRight, UInt16.toNat_shiftRight, show (8 : UInt16).toNat % 16 = 8 from rfl,
          Nat.shiftRight_eq_div_pow, Nat.shiftRight_eq_div_pow] at hhigh
        apply UInt16.toNat_inj.mp
        omega
      rw [hword, ih hrest]

theorem bytesOf_take (words : List UInt16) (n : Nat) : bytesOf (words.take n) = (bytesOf words).take (2 * n) := by
  have hsplit : bytesOf words = bytesOf (words.take n) ++ bytesOf (words.drop n) := by
    rw [← bytesOf_append, List.take_append_drop]
  by_cases hn : n ≤ words.length
  · have hlength : (bytesOf (words.take n)).length = 2 * n := by
      rw [bytesOf_length, List.length_take, Nat.min_eq_left hn]
    rw [hsplit, List.take_left' hlength]
  · rw [List.take_of_length_le (by omega), List.take_of_length_le]
    rw [bytesOf_length]
    omega

/-- A command that is complete wrote all of its words. -/
theorem WriteState.complete (h : WriteState c f words d) (hcomplete : Complete c words) :
    ∃ data pos, d.image = some { f with data := data, pos := pos } ∧
      Written (startOf c) c.type.sectorSize f.data (bytesOf words) (sectorsOf c) data := by
  obtain ⟨j, m, hwriting⟩ | ⟨k, hended⟩ := h
  · exact absurd hcomplete (Nat.ne_of_lt (length_lt hwriting.length hwriting.inside hwriting.more))
  · obtain ⟨data, pos, hfile, hwritten⟩ := hended.file
    rw [hended.complete hcomplete] at hwritten
    exact ⟨data, pos, hfile, hwritten⟩

theorem Written.byteAt {start size count i : Nat} {old bytes data : List UInt8}
    (h : Written start size old bytes count data) (hsize : 0 < size) (hbytes : bytes.length = count * size)
    (hi : i < count * size) : byteAt size data (start * size + i) = bytes.getD i 0 := by
  have hplace (i : Nat) (hi : i < count * size) : start * size + i < data.length := by
    have hnew := h.new i hi
    rw [List.getElem?_eq_getElem (by omega : i < bytes.length)] at hnew
    exact (List.getElem?_eq_some_iff.mp hnew).1
  have hlast := hplace (count * size - 1) (by omega)
  have hsector : (start * size + i) / size < start + count := by
    rw [Nat.div_lt_iff_lt_mul hsize, Nat.add_mul]
    omega
  have hend : ((start * size + i) / size + 1) * size ≤ (start + count) * size := Nat.mul_le_mul_right size hsector
  rw [Nat.add_mul start] at hend
  rw [byteAt_inside hsize (by omega), List.getD_eq_getElem?_getD, h.new i hi, List.getD_eq_getElem?_getD]

/-- What was written comes back. -/
theorem read_back {c' : Drive} {f' : Image} {words' : List UInt16} {d' : Drive} (hwrite : WriteState c f words d)
    (hcomplete : Complete c words) (hsame : SameSectors c c') (hdata : d.image.map Image.data = some f'.data)
    (hread : ReadState c' f' words' d') : words' <+: words := by
  obtain ⟨data, pos, hfile, hwritten⟩ := hwrite.complete hcomplete
  rw [hfile, Option.map_some, Option.some.injEq] at hdata
  obtain ⟨hlength, hwords'⟩ := hread.words_eq
  have hsize := (sectorSize_even c.type).2.1
  have hbytes : (bytesOf words).length = sectorsOf c * c.type.sectorSize := (bytesOf_length words).trans hcomplete
  rw [hsame.type, hsame.start, ← hdata] at hwords'
  rw [hsame.type, hsame.count] at hlength
  have htake : bytesOf words' = bytesOf (words.take words'.length) := by
    rw [bytesOf_take, hwords']
    apply List.ext_getElem?
    intro i
    rw [List.getElem?_map]
    by_cases hi : i < 2 * words'.length
    · rw [List.getElem?_range hi, List.getElem?_take_of_lt hi, Option.map_some,
        hwritten.byteAt hsize hbytes (by omega), List.getD_eq_getElem?_getD,
        List.getElem?_eq_getElem (by omega : i < (bytesOf words).length), Option.getD_some]
    · rw [List.getElem?_eq_none (by rw [List.length_range]; omega), List.getElem?_eq_none]
      · rfl
      · rw [List.length_take]
        omega
  rw [bytesOf_inj htake]
  exact List.take_prefix _ _

theorem transfers_exact_iff (others : OtherCommands) (clk : Nat) (write : Bool) (c : Drive) (f : Image)
    (h : Ready write c f) : Exact others clk write c f ↔ Fits c := by
  constructor
  · intro hexact h0 hlt
    obtain ⟨events, hcomplete⟩ := hexact.finishes h0 hlt
    obtain ⟨k, hconfined⟩ := @transfer_confined c others f clk write events h
    rw [Complete] at hcomplete
    have hk := hconfined.complete hcomplete
    have hcount := (sectorsOf_le c).1
    have hlast := (hexact.confined events (startOf c + sectorsOf c - 1) (by
      rw [hconfined.accessed, hk, List.mem_range'_1]
      omega)).2.2
    omega
  · intro hfits
    refine ⟨?_, ?_, ?_, ?_, ?_, fun h0 hlt => exists_completing h h0 hlt⟩
    · intro events n hn
      by_cases hvalid : 0 ≤ address c ∧ address c < c.geometry.size
      · obtain ⟨k, hconfined⟩ := @transfer_confined c others f clk write events h
        have hmost := hconfined.most
        have hsize := hfits hvalid.1 hvalid.2
        rw [hconfined.accessed, List.mem_range'_1] at hn
        omega
      · rw [transfer_rejected h hvalid] at hn
        exact absurd hn List.not_mem_nil
    · intro events
      obtain ⟨k, hconfined⟩ := @transfer_confined c others f clk write events h
      exact ⟨hconfined.room, hconfined.index⟩
    · intro events
      obtain ⟨k, hconfined⟩ := @transfer_confined c others f clk write events h
      exact hconfined.file
    · rintro rfl events
      exact (transfer_read h).words_eq.2
    · rintro rfl events
      dsimp only
      intro hcomplete clk' c' f' hready hsame hdata events'
      exact read_back (transfer_write h) hcomplete hsame hdata (transfer_read hready)

end

/-! ## A small card -/

/-- The card with its drive, and a command for `count` sectors from the last one on. -/
def cardDrive (count : UInt8) : Drive where
  toDrive := { AtaAddress.cardDrive 63 with
    lba := true, sectorCount := count, buffer := List.replicate 2048 0 }
  type := .cf
  packet := List.replicate 12 0
  attention := false
  features := 0
  dev := false
  slave := false
  legacy := 0
  control := 0
  nextSector := 0
  accessed := []

theorem cardDrive_ready (write : Bool) (count : UInt8) : Ready write (cardDrive count) AtaAddress.cardImage where
  type := by
    intro h
    cases h
  selected := rfl
  awake := by
    change (0x08 : UInt8) ≠ 0xe6
    decide
  idle := rfl
  room := List.length_replicate
  calm := fun h => absurd h Bool.false_ne_true
  asked := fun h => absurd h Bool.false_ne_true
  file := rfl
  works := AtaAddress.cardImage_works
  writable := fun _ => rfl

/-- Do nothing for other commands. -/
def noCommands : OtherCommands := ⟨fun _ d => d, fun _ d => d, fun d => d⟩

theorem card_last_sector : Exact noCommands 0 true (cardDrive 1) AtaAddress.cardImage ↔ Fits (cardDrive 1) :=
  transfers_exact_iff noCommands 0 true (cardDrive 1) AtaAddress.cardImage (cardDrive_ready true 1)

/-- Two sectors from the last one on: the second one is not there, and is written. -/
theorem beyond_last_sector : ¬ Exact noCommands 0 true (cardDrive 2) AtaAddress.cardImage := by
  intro hexact
  have hready := cardDrive_ready true 2
  have haddress : address (cardDrive 2) = 63 := by decide
  have hsectors : sectorsOf (cardDrive 2) = 2 := by decide
  have hsize : (cardDrive 2).geometry.size = 64 := rfl
  obtain ⟨events, hcomplete⟩ := hexact.finishes (by rw [haddress]; decide) (by rw [haddress, hsize]; decide)
  obtain ⟨k, hconfined⟩ := @transfer_confined _ noCommands _ 0 true events hready
  have hk := hconfined.complete hcomplete
  have hstart : startOf (cardDrive 2) = 63 := by rw [startOf, haddress]; rfl
  have hlast := (hexact.confined events 64 (by
    rw [hconfined.accessed, hk, hstart, hsectors]
    decide)).2.2
  rw [hsize] at hlast
  exact absurd hlast (by decide)

end Vice.L4.AtaTransfer
