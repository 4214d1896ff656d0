import Vice.L0Core.ByteFile
import Vice.L4Machine.AtaAddress
import Vice.L4Machine.AtaTransfer

/-!
# Sectors through the data register (`core/ata.c`)

While a command moves sectors nothing but the data register and a reset does anything that matters, and
each word that passes is the next one of the sectors asked for.

Results:
* `step_turn`: what an access or an alarm can do.
* `Reading.turn`, `Writing.turn`: where a command is after any of them.
-/
namespace Vice.L4.AtaTransfer
open Vice.L4.AtaCommand (Image put)
open Vice.L4.AtaAddress (Works)
open Vice.L0.ByteFile (overwrite overwrite_new overwrite_old overwrite_gap overwrite_length)

section
variable {d d' : Drive} {others : OtherCommands}

/-! ## What a turn can do -/

/-- Only what has to do with the alarms and the control register is different. -/
structure Quiet (d d' : Drive) : Prop where
  type : d'.type = d.type
  cmd : d'.cmd = d.cmd
  bufp : d'.bufp = d.bufp
  buffer : d'.buffer = d.buffer
  image : d'.image = d.image
  count : d'.sectorCountInternal = d.sectorCountInternal
  accessed : d'.accessed = d.accessed
  nextSector : d'.nextSector = d.nextSector
  readonly : d'.readonly = d.readonly
  attention : d'.attention = d.attention
  selected : d'.dev = d.dev
  slave : d'.slave = d.slave

theorem Quiet.refl (d : Drive) : Quiet d d := ⟨rfl, rfl, rfl, rfl, rfl, rfl, rfl, rfl, rfl, rfl, rfl, rfl⟩

/-- A reset ends the command where it is. -/
structure Halted (d d' : Drive) : Prop where
  type : d'.type = d.type
  cmd : d'.cmd = 0x08
  bufp : d'.bufp = d.type.sectorSize
  buffer : d'.buffer = d.buffer
  image : d'.image = d.image
  accessed : d'.accessed = d.accessed

inductive Turn (others : OtherCommands) (d : Drive) : Option UInt16 → Drive → Prop
  | quiet {d' : Drive} (h : Quiet d d') : Turn others d none d'
  | halted {d' : Drive} (h : Halted d d') : Turn others d none d'
  | taken (bus) (hwants : wantsData d = true) (hcmd : d.cmd = 0x20 ∨ d.cmd = 0x28) :
      Turn others d (some (bufferWord d)) (readData d bus).2
  | given (clk value) (hwants : wantsData d = true) (hcmd : d.cmd = 0x30 ∨ d.cmd = 0x2a) :
      Turn others d (some value) (storeData d others clk value)

theorem moving_iff : moving d = true ↔ (d.cmd = 0x20 ∨ d.cmd = 0x28) ∨ (d.cmd = 0x30 ∨ d.cmd = 0x2a) := by
  simp [moving, or_assoc]

theorem ataRegisterRead_else (d : Drive) {addr : Nat} (bus : UInt16) (h : addr ≠ 0) :
    (ataRegisterRead d addr bus).2 = d := by
  unfold ataRegisterRead
  split
  · rfl
  · dsimp only
    split <;> try rfl
    · rename_i haddr
      split_ifs at haddr
      exact absurd haddr h
    · split_ifs <;> rfl

theorem ataRegisterRead_data (bus : UInt16) (htype : d.type ≠ .none) (hselected : d.dev = d.slave)
    (hawake : d.cmd ≠ 0xe6) : ataRegisterRead d 0 bus = readData d bus := by
  unfold ataRegisterRead
  rw [if_neg (by simp [htype, hselected, hawake])]
  dsimp only
  rw [if_neg (by omega)]
  rfl

theorem awake_of_moving (h : moving d = true) : d.cmd ≠ 0xe6 := by
  intro hsleep
  simp [moving, hsleep] at h

theorem ataRegisterStore_control (clk : Nat) (value : UInt16) (htype : d.type ≠ .none) :
    ataRegisterStore d others clk 14 value = storeControl d value := by
  unfold ataRegisterStore
  dsimp only
  rw [if_neg htype, if_neg (by simp), if_neg (by simp)]
  rfl

theorem storeControl_turn (value : UInt16) (hawake : d.cmd ≠ 0xe6) :
    Quiet d (storeControl d value) ∨ Halted d (storeControl d value) := by
  unfold storeControl
  dsimp only
  split_ifs
  · refine .inr ?_
    unfold ataReset
    dsimp only
    rw [if_pos hawake]
    exact ⟨rfl, rfl, rfl, rfl, rfl, rfl⟩
  · exact .inl ⟨rfl, rfl, rfl, rfl, rfl, rfl, rfl, rfl, rfl, rfl, rfl, rfl⟩

theorem deviceReset_halts (clk : Nat) {value : UInt16} (htype : d.type ≠ .none) (hselected : d.dev = d.slave)
    (hatapi : d.type.atapi = true) (hvalue : value.toUInt8 = 0x08) :
    Halted d (ataRegisterStore d others clk 7 value) := by
  have hstore : ataRegisterStore d others clk 7 value = storeCommand d others clk value.toUInt8 := by
    unfold ataRegisterStore
    dsimp only
    rw [if_neg htype, if_neg (by simp [hatapi, hvalue]), if_neg (by simp [hatapi, hvalue])]
    rfl
  have hcommand : storeCommand d others clk 0x08 = driveDiag { d with bufp := d.type.sectorSize, error := 0, cmd := 0x00 } := by
    unfold storeCommand atapiExecuteCommand
    rw [if_pos (.inl hselected), if_pos hatapi, if_neg (by simp)]
    rfl
  rw [hstore, hvalue, hcommand]
  exact ⟨rfl, rfl, rfl, rfl, rfl, rfl⟩

/-- The other registers are not stored to while data are wanted. -/
theorem storeElse_keeps {addr : Nat} (clk : Nat) {value : UInt16} (hroom : d.bufp < d.type.sectorSize)
    (hdata : addr ≠ 0) (hcontrol : addr ≠ 14)
    (hreset : ¬ (addr = 7 ∧ d.type.atapi = true ∧ value.toUInt8 = 0x08)) :
    ataRegisterStore d others clk addr value = d := by
  have hnot : (addr == 7 && d.type.atapi && value.toUInt8 == 0x08) = false := by
    rw [Bool.eq_false_iff]
    simpa [and_assoc] using hreset
  unfold ataRegisterStore
  dsimp only
  rw [hnot]
  split
  · rfl
  · rw [if_pos ⟨hdata, hcontrol, rfl, .inr hroom⟩]

theorem ataRegisterStore_data (clk : Nat) (value : UInt16) (htype : d.type ≠ .none) (hawake : d.cmd ≠ 0xe6) :
    ataRegisterStore d others clk 0 value = storeData d others clk value := by
  unfold ataRegisterStore
  dsimp only
  rw [if_neg htype, if_neg (by simp), if_neg (by simp [hawake])]
  rfl

/-- The data register of a command that reads. -/
def takeWord (d : Drive) : Drive :=
  if d.bufp + 2 < d.type.sectorSize then { d with bufp := d.bufp + 2 }
  else if d.sectorCountInternal - 1 = 0 then
    { d with bufp := d.type.sectorSize, sectorCountInternal := 0, cmd := 0x00 }
  else readSector { d with bufp := d.bufp + 2, sectorCountInternal := d.sectorCountInternal - 1 }

theorem readData_eq (bus : UInt16) (hwants : wantsData d = true) (hcmd : d.cmd = 0x20 ∨ d.cmd = 0x28) :
    readData d bus = (bufferWord d, takeWord d) := by
  have hmem : d.cmd ∈ [0x20, 0x23, 0x28, 0xec, 0xe4, 0xa1] := by
    obtain h | h := hcmd <;> rw [h] <;> decide
  unfold readData takeWord
  rw [hwants, if_neg (by simp), if_pos hmem]
  dsimp only
  by_cases hin : d.bufp + 2 < d.type.sectorSize
  · rw [if_neg (by omega), if_pos hin]
  · rw [if_pos (by omega), if_neg hin]
    by_cases hlast : d.sectorCountInternal - 1 = 0
    · rw [if_pos hlast, if_pos hlast, if_neg (by simp), hlast]
    · rw [if_neg hlast, if_neg hlast, if_pos hcmd]

theorem readData_turn (bus : UInt16) (hmoving : moving d = true) (hselected : d.dev = d.slave)
    (hdata : ataRegisterRead d 0 bus = readData d bus) :
    Turn others d (passed d (.read 0 bus)) (readData d bus).2 := by
  by_cases hwants : wantsData d = true
  · obtain hcmd | hcmd := moving_iff.mp hmoving
    · have hpassed : passed d (.read 0 bus) = some (bufferWord d) := by
        unfold passed
        dsimp only
        rw [if_pos ⟨rfl, hwants, hcmd, hselected⟩, hdata, readData_eq bus hwants hcmd]
      rw [hpassed]
      exact .taken bus hwants hcmd
    · have hnot : ¬ (d.cmd = 0x20 ∨ d.cmd = 0x28) := by
        obtain h | h := hcmd <;> rw [h] <;> decide
      have hpassed : passed d (.read 0 bus) = none := if_neg fun h => hnot h.2.2.1
      have hsame : readData d bus = (bus, d) := by
        unfold readData
        obtain h | h := hcmd
        all_goals
          rw [h]
          simp
      rw [hpassed, hsame]
      exact .quiet (.refl d)
  · have hpassed : passed d (.read 0 bus) = none := if_neg fun h => hwants h.2.1
    have hsame : readData d bus = (bus, d) := by
      unfold readData
      simp [hwants]
    rw [hpassed, hsame]
    exact .quiet (.refl d)

theorem storeData_turn (clk : Nat) (value : UInt16) (hmoving : moving d = true) :
    Turn others d (passed d (.store clk 0 value)) (storeData d others clk value) := by
  by_cases hwants : wantsData d = true
  · obtain hcmd | hcmd := moving_iff.mp hmoving
    · have hnot : ¬ (d.cmd = 0x30 ∨ d.cmd = 0x2a) := by
        obtain h | h := hcmd <;> rw [h] <;> decide
      have hpassed : passed d (.store clk 0 value) = none := if_neg fun h => hnot h.2.2
      have hsame : storeData d others clk value = d := by
        unfold storeData
        obtain h | h := hcmd
        all_goals
          rw [h]
          simp
      rw [hpassed, hsame]
      exact .quiet (.refl d)
    · have hpassed : passed d (.store clk 0 value) = some value := if_pos ⟨rfl, hwants, hcmd⟩
      rw [hpassed]
      exact .given clk value hwants hcmd
  · have hpassed : passed d (.store clk 0 value) = none := if_neg fun h => hwants h.2.1
    have hsame : storeData d others clk value = d := by
      unfold storeData
      simp [hwants]
    rw [hpassed, hsame]
    exact .quiet (.refl d)

theorem step_turn (htype : d.type ≠ .none) (hselected : d.dev = d.slave) (hmoving : moving d = true)
    (hroom : d.bufp < d.type.sectorSize) (event : Event) :
    Turn others d (passed d event) (step others d event) := by
  have hawake := awake_of_moving hmoving
  cases event with
  | read addr bus =>
    by_cases hdata : addr = 0
    · subst hdata
      have hread := ataRegisterRead_data bus htype hselected hawake
      have hturn := @readData_turn d others bus hmoving hselected hread
      rw [show step others d (.read 0 bus) = (readData d bus).2 from congrArg Prod.snd hread]
      exact hturn
    · have hpassed : passed d (.read addr bus) = none := if_neg fun h => hdata h.1
      have hsame : step others d (.read addr bus) = d := ataRegisterRead_else d bus hdata
      rw [hpassed, hsame]
      exact .quiet (.refl d)
  | store clk addr value =>
    by_cases hdata : addr = 0
    · subst hdata
      have hturn := @storeData_turn d others clk value hmoving
      rw [show step others d (.store clk 0 value) = storeData d others clk value from
        ataRegisterStore_data clk value htype hawake]
      exact hturn
    · have hpassed : passed d (.store clk addr value) = none := if_neg fun h => hdata h.1
      rw [hpassed]
      by_cases hcontrol : addr = 14
      · subst hcontrol
        rw [show step others d (.store clk 14 value) = storeControl d value from
          @ataRegisterStore_control d others clk value htype]
        obtain hquiet | hhalted := storeControl_turn value hawake
        · exact .quiet hquiet
        · exact .halted hhalted
      · by_cases hreset : addr = 7 ∧ d.type.atapi = true ∧ value.toUInt8 = 0x08
        · obtain ⟨rfl, hatapi, hvalue⟩ := hreset
          exact .halted (deviceReset_halts clk htype hselected hatapi hvalue)
        · have hsame : step others d (.store clk addr value) = d :=
            storeElse_keeps clk hroom hdata hcontrol hreset
          rw [hsame]
          exact .quiet (.refl d)
  | spindleAlarm => exact .quiet ⟨rfl, rfl, rfl, rfl, rfl, rfl, rfl, rfl, rfl, rfl, rfl, rfl⟩
  | headAlarm => exact .quiet ⟨rfl, rfl, rfl, rfl, rfl, rfl, rfl, rfl, rfl, rfl, rfl, rfl⟩
  | standbyAlarm =>
    unfold step
    dsimp only
    split_ifs
    · exact .quiet ⟨rfl, rfl, rfl, rfl, rfl, rfl, rfl, rfl, rfl, rfl, rfl, rfl⟩
    · exact .quiet ⟨rfl, rfl, rfl, rfl, rfl, rfl, rfl, rfl, rfl, rfl, rfl, rfl⟩

end

/-! ## Bytes and words -/

def bytesOf (words : List UInt16) : List UInt8 :=
  words.flatMap fun (word : UInt16) => [word.toUInt8, (word >>> 8).toUInt8]

/-- A sector of a file, zeros if it is not all there. -/
def sectorAt (size : Nat) (data : List UInt8) (n : Nat) : List UInt8 :=
  let got := (data.drop (n * size)).take size
  if got.length = size then got else List.replicate size 0

/-- What is read for byte `i` of a file. -/
def byteAt (size : Nat) (data : List UInt8) (i : Nat) : UInt8 := (sectorAt size data (i / size)).getD (i % size) 0

section
variable {d d' : Drive} {data : List UInt8} {words : List UInt16} {i j k m n size : Nat}

theorem bytesOf_length (words : List UInt16) : (bytesOf words).length = 2 * words.length := by
  induction words with
  | nil => rfl
  | cons word words ih =>
    rw [bytesOf, List.flatMap_cons, List.length_append, ← bytesOf, ih, List.length_cons]
    simp only [List.length_cons, List.length_nil]
    omega

theorem bytesOf_append (words more : List UInt16) : bytesOf (words ++ more) = bytesOf words ++ bytesOf more :=
  List.flatMap_append

theorem word_toNat (low high : UInt8) :
    (low.toUInt16 ||| high.toUInt16 <<< 8).toNat = high.toNat * 256 + low.toNat := by
  have hlow := low.toNat_lt
  have hhigh := high.toNat_lt
  have hshift : high.toNat <<< 8 % 2 ^ 16 = high.toNat <<< 8 := by
    rw [Nat.shiftLeft_eq]
    omega
  have hsum := Nat.shiftLeft_add_eq_or_of_lt hlow high.toNat
  rw [Nat.shiftLeft_eq] at hsum
  simp only [UInt16.toNat_or, UInt16.toNat_shiftLeft, UInt8.toNat_toUInt16]
  rw [show (8 : UInt16).toNat % 16 = 8 from rfl, hshift, Nat.or_comm, Nat.shiftLeft_eq, ← hsum]

theorem word_low (low high : UInt8) : (low.toUInt16 ||| high.toUInt16 <<< 8).toUInt8 = low := by
  have hlow := low.toNat_lt
  apply UInt8.toNat_inj.mp
  rw [UInt16.toNat_toUInt8, word_toNat]
  omega

theorem word_high (low high : UInt8) : ((low.toUInt16 ||| high.toUInt16 <<< 8) >>> 8).toUInt8 = high := by
  have hlow := low.toNat_lt
  have hhigh := high.toNat_lt
  apply UInt8.toNat_inj.mp
  rw [UInt16.toNat_toUInt8, UInt16.toNat_shiftRight, word_toNat, show (8 : UInt16).toNat % 16 = 8 from rfl,
    Nat.shiftRight_eq_div_pow]
  omega

theorem or_one_eq (h : m % 2 = 0) : m ||| 1 = m + 1 := by
  have hor := Nat.shiftLeft_add_eq_or_of_lt (show 1 < 2 ^ 1 by decide) (m / 2)
  rw [Nat.shiftLeft_eq, show m / 2 * 2 ^ 1 = m by omega] at hor
  exact hor.symm

theorem bytesOf_bufferWord (heven : d.bufp % 2 = 0) :
    bytesOf [bufferWord d] = [d.buffer.getD d.bufp 0, d.buffer.getD (d.bufp + 1) 0] := by
  have hbytes : bytesOf [bufferWord d] = [(bufferWord d).toUInt8, (bufferWord d >>> 8).toUInt8] := rfl
  rw [hbytes, bufferWord, word_low, word_high, or_one_eq heven]

theorem getD_take (xs : List UInt8) (h : m < n) : xs.getD m 0 = (xs.take n).getD m 0 := by
  rw [List.getD_eq_getElem?_getD, List.getD_eq_getElem?_getD, List.getElem?_take_of_lt h]

theorem byteAt_eq (hm : m < size) : byteAt size data (n * size + m) = (sectorAt size data n).getD m 0 := by
  have hdiv : (n * size + m) / size = n := by
    rw [Nat.mul_comm, Nat.mul_add_div (by omega), Nat.div_eq_of_lt hm, Nat.add_zero]
  have hmod : (n * size + m) % size = m := by
    rw [Nat.mul_comm, Nat.mul_add_mod, Nat.mod_eq_of_lt hm]
  rw [byteAt, hdiv, hmod]

theorem sectorSize_even (t : DriveType) : t.sectorSize % 2 = 0 ∧ 0 < t.sectorSize ∧ t.sectorSize ≤ 2048 := by
  cases t <;> decide

end

/-! ## Sectors -/

/-- The next sector that is read is `n`, or the file is at its end before that. -/
def AtSector (size : Nat) (data : List UInt8) (pos n : Nat) : Prop :=
  pos = n * size ∨ data.length ≤ pos ∧ data.length ≤ n * size

section
variable {d d' : Drive} {f : Image} {n size : Nat}

theorem sectorAt_end {data : List UInt8} (hsize : 0 < size) (h : data.length ≤ n * size) :
    sectorAt size data n = List.replicate size 0 := by
  unfold sectorAt
  dsimp only
  rw [List.drop_eq_nil_of_le h, if_neg (by simp; omega)]

theorem readBlock_eq (hworks : Works f) (hsize : 0 < size) (hpos : AtSector size f.data f.pos n) :
    ∃ pos, readBlock size f = (sectorAt size f.data n, false, { f with pos := pos }) ∧
      AtSector size f.data pos (n + 1) := by
  unfold readBlock
  dsimp only
  rw [hworks.read, if_neg Bool.false_ne_true]
  have hsucc : (n + 1) * size = n * size + size := Nat.succ_mul n size
  obtain hpos | ⟨hpos, hend⟩ := hpos
  · have hlength : ((f.data.drop f.pos).take size).length = min size (f.data.length - f.pos) := by
      rw [List.length_take, List.length_drop]
    by_cases hwhole : ((f.data.drop f.pos).take size).length = size
    · rw [if_pos hwhole]
      refine ⟨f.pos + size, ?_, .inl (by omega)⟩
      unfold sectorAt
      dsimp only
      rw [← hpos, if_pos hwhole]
    · rw [if_neg hwhole]
      refine ⟨f.pos + ((f.data.drop f.pos).take size).length, ?_, .inr (by omega)⟩
      unfold sectorAt
      dsimp only
      rw [← hpos, if_neg hwhole]
  · have hnone : f.data.drop f.pos = [] := List.drop_eq_nil_of_le hpos
    rw [hnone, List.take_nil, if_neg (by simp; omega), sectorAt_end hsize hend]
    exact ⟨f.pos, rfl, .inr ⟨hpos, by omega⟩⟩

/-- What is the same at every turn of a command. -/
structure Kept (c d : Drive) : Prop where
  type : d.type = c.type
  selected : d.dev = d.slave
  room : d.buffer.length = 2048
  readonly : d.readonly = c.readonly
  calm : c.type.atapi = true → d.attention = false

theorem calm_eq (hcalm : d.type.atapi = true → d.attention = false) : (d.attention && d.type.atapi) = false := by
  cases hatapi : d.type.atapi with
  | true => rw [hcalm hatapi, Bool.false_and]
  | false => exact Bool.and_false _

theorem readSector_eq (hfile : d.image = some f) (hworks : Works f)
    (hcalm : d.type.atapi = true → d.attention = false) (hpos : AtSector d.type.sectorSize f.data f.pos n) :
    ∃ pos, readSector d = { d with
        error := 0
        buffer := sectorAt d.type.sectorSize f.data n ++ d.buffer.drop d.type.sectorSize
        image := some { f with pos := pos }
        nextSector := d.nextSector + 1
        accessed := d.accessed ++ [d.nextSector]
        pos := d.pos + 1
        bufp := 0 } ∧ AtSector d.type.sectorSize f.data pos (n + 1) := by
  obtain ⟨pos, hread, hnext⟩ := readBlock_eq hworks (sectorSize_even d.type).2.1 hpos
  refine ⟨pos, ?_, hnext⟩
  unfold readSector
  dsimp only
  rw [calm_eq hcalm, if_neg Bool.false_ne_true, hfile]
  dsimp only
  rw [hread]
  dsimp only
  rw [if_neg Bool.false_ne_true]

theorem sectorAt_length (data : List UInt8) (n : Nat) : (sectorAt size data n).length = size := by
  unfold sectorAt
  dsimp only
  split_ifs with h
  · exact h
  · exact List.length_replicate

end

/-! ## Reading -/

/-- What a command has in its count. -/
def countByte (d : Drive) : UInt8 := if d.type.atapi then d.packet.getD 8 0 else d.sectorCount

/-- The sectors a command is for; 0 is 256. -/
def sectorsOf (d : Drive) : Nat := if countByte d = 0 then 256 else (countByte d).toNat

/-- Where they begin. -/
def startOf (d : Drive) : Nat := (address d).toNat

/-- Sectors `j` of those asked for are done, and `m` bytes of the next. -/
structure Reading (c : Drive) (f : Image) (words : List UInt16) (j m : Nat) (d : Drive) : Prop
    extends Kept c d where
  cmd : d.cmd = 0x20 ∨ d.cmd = 0x28
  bufp : d.bufp = m
  inside : m < c.type.sectorSize
  length : 2 * words.length = j * c.type.sectorSize + m
  more : j < sectorsOf c
  left : (d.sectorCountInternal.toNat + j) % 256 = sectorsOf c % 256
  sector : d.buffer.take c.type.sectorSize = sectorAt c.type.sectorSize f.data (startOf c + j)
  file : ∃ pos, d.image = some { f with pos := pos } ∧
    AtSector c.type.sectorSize f.data pos (startOf c + j + 1)
  accessed : d.accessed = List.range' (startOf c) (j + 1)
  nextSector : d.nextSector = startOf c + j + 1
  words : bytesOf words = (List.range (2 * words.length)).map fun i =>
    byteAt c.type.sectorSize f.data (startOf c * c.type.sectorSize + i)

/-- A command that is over, with `k` of its sectors accessed: all of them if all words passed. -/
structure Ended (c : Drive) (words : List UInt16) (k : Nat) (d : Drive) : Prop where
  type : d.type = c.type
  room : d.buffer.length = 2048
  still : moving d = false
  bufp : d.bufp = c.type.sectorSize
  length : 2 * words.length ≤ sectorsOf c * c.type.sectorSize
  most : k ≤ sectorsOf c
  complete : 2 * words.length = sectorsOf c * c.type.sectorSize → k = sectorsOf c
  accessed : d.accessed = List.range' (startOf c) k

structure EndedReading (c : Drive) (f : Image) (words : List UInt16) (k : Nat) (d : Drive) : Prop
    extends Ended c words k d where
  file : ∃ pos, d.image = some { f with pos := pos }
  words : bytesOf words = (List.range (2 * words.length)).map fun i =>
    byteAt c.type.sectorSize f.data (startOf c * c.type.sectorSize + i)

/-- Where a command that reads is. -/
def ReadState (c : Drive) (f : Image) (words : List UInt16) (d : Drive) : Prop :=
  (∃ j m, Reading c f words j m d) ∨ ∃ k, EndedReading c f words k d

section
variable {c d d' : Drive} {others : OtherCommands} {f : Image} {words : List UInt16} {j m k : Nat}
  {word : Option UInt16}

theorem Kept.quiet (h : Kept c d) (hquiet : Quiet d d') : Kept c d' where
  type := hquiet.type.trans h.type
  selected := by rw [hquiet.selected, hquiet.slave, h.selected]
  room := by rw [hquiet.buffer, h.room]
  readonly := hquiet.readonly.trans h.readonly
  calm := fun hatapi => hquiet.attention.trans (h.calm hatapi)

theorem Reading.quiet (h : Reading c f words j m d) (hquiet : Quiet d d') : Reading c f words j m d' where
  toKept := h.toKept.quiet hquiet
  cmd := hquiet.cmd ▸ h.cmd
  bufp := hquiet.bufp.trans h.bufp
  inside := h.inside
  length := h.length
  more := h.more
  left := hquiet.count ▸ h.left
  sector := hquiet.buffer ▸ h.sector
  file := hquiet.image ▸ h.file
  accessed := hquiet.accessed.trans h.accessed
  nextSector := hquiet.nextSector.trans h.nextSector
  words := h.words

theorem moving_halted (h : Halted d d') : moving d' = false := by
  rw [moving, h.cmd]
  rfl

/-- What is done is less than what was asked for. -/
theorem length_lt {count size : Nat} (hlength : 2 * words.length = j * size + m) (hm : m < size)
    (hj : j < count) : 2 * words.length < count * size := by
  calc 2 * words.length = j * size + m := hlength
    _ < j * size + size := by omega
    _ = (j + 1) * size := (Nat.succ_mul j size).symm
    _ ≤ count * size := Nat.mul_le_mul_right size hj

theorem Kept.halted (h : Kept c d) (hhalted : Halted d d') (hmost : k ≤ sectorsOf c)
    (hlength : 2 * words.length < sectorsOf c * c.type.sectorSize)
    (haccessed : d.accessed = List.range' (startOf c) k) : Ended c words k d' where
  type := hhalted.type.trans h.type
  room := hhalted.buffer ▸ h.room
  still := moving_halted hhalted
  bufp := h.type ▸ hhalted.bufp
  length := Nat.le_of_lt hlength
  most := hmost
  complete := fun hcomplete => absurd hcomplete (Nat.ne_of_lt hlength)
  accessed := hhalted.accessed.trans haccessed

theorem Reading.halted (h : Reading c f words j m d) (hhalted : Halted d d') :
    EndedReading c f words (j + 1) d' where
  toEnded := h.toKept.halted hhalted h.more (length_lt h.length h.inside h.more) h.accessed
  file := by
    obtain ⟨pos, hfile, -⟩ := h.file
    exact ⟨pos, hhalted.image.trans hfile⟩
  words := h.words

theorem even_of_length {size : Nat} (hsize : size % 2 = 0) (h : 2 * words.length = j * size + m) : m % 2 = 0 := by
  have hj : j * size % 2 = 0 := by rw [Nat.mul_mod, hsize, Nat.mul_zero, Nat.zero_mod]
  omega

theorem Reading.even (h : Reading c f words j m d) : m % 2 = 0 :=
  even_of_length (sectorSize_even c.type).1 h.length

/-- The word that passes is the next one of the sectors. -/
theorem Reading.words_bufferWord (h : Reading c f words j m d) :
    bytesOf (words ++ [bufferWord d]) = (List.range (2 * (words ++ [bufferWord d]).length)).map fun i =>
      byteAt c.type.sectorSize f.data (startOf c * c.type.sectorSize + i) := by
  obtain ⟨heven, -, -⟩ := sectorSize_even c.type
  have hinside := h.inside
  have hlength := h.length
  have hmeven := h.even
  have hplace (i : Nat) (hi : i < c.type.sectorSize) :
      byteAt c.type.sectorSize f.data (startOf c * c.type.sectorSize + (j * c.type.sectorSize + i)) =
        d.buffer.getD i 0 := by
    rw [← Nat.add_assoc, ← Nat.add_mul, byteAt_eq hi, getD_take d.buffer hi, h.sector]
  have hfirst : byteAt c.type.sectorSize f.data (startOf c * c.type.sectorSize + 2 * words.length) =
      d.buffer.getD m 0 := by
    rw [hlength]
    exact hplace m hinside
  have hsecond : byteAt c.type.sectorSize f.data (startOf c * c.type.sectorSize + (2 * words.length + 1)) =
      d.buffer.getD (m + 1) 0 := by
    rw [hlength]
    exact hplace (m + 1) (by omega)
  rw [bytesOf_append, bytesOf_bufferWord (h.bufp ▸ hmeven), h.bufp, ← hfirst, ← hsecond, h.words,
    List.length_append, List.length_singleton, Nat.mul_add, List.range_succ, List.range_succ, List.map_append,
    List.map_append, List.append_assoc]
  rfl

/-- The count runs out with the last sector. -/
theorem left_iff {left : UInt8} {count : Nat} (h : (left.toNat + j) % 256 = count % 256) (hj : j < count)
    (hcount : count ≤ 256) : left - 1 = 0 ↔ j + 1 = count := by
  have hlt := left.toNat_lt
  rw [← UInt8.toNat_inj, UInt8.toNat_sub, UInt8.toNat_one, UInt8.toNat_zero]
  omega

theorem left_pred {left : UInt8} {count : Nat} (h : (left.toNat + j) % 256 = count % 256) :
    ((left - 1).toNat + (j + 1)) % 256 = count % 256 := by
  have hlt := left.toNat_lt
  rw [UInt8.toNat_sub, UInt8.toNat_one]
  omega

theorem sectorsOf_le (c : Drive) : 0 < sectorsOf c ∧ sectorsOf c ≤ 256 := by
  have hlt := (countByte c).toNat_lt
  unfold sectorsOf
  split_ifs with hzero
  · decide
  · have hpos : (countByte c).toNat ≠ 0 := fun h => hzero (UInt8.toNat_inj.mp h)
    omega

theorem words_length (word : UInt16) (hlength : 2 * words.length = j * k + m) :
    2 * (words ++ [word]).length = j * k + (m + 2) := by
  rw [List.length_append, List.length_singleton]
  omega

theorem Reading.taken (h : Reading c f words j m d) (hworks : Works f) :
    (∃ j m, Reading c f (words ++ [bufferWord d]) j m (takeWord d)) ∨
      ∃ k, EndedReading c f (words ++ [bufferWord d]) k (takeWord d) ∧
        2 * (words ++ [bufferWord d]).length = sectorsOf c * c.type.sectorSize := by
  have hmore := h.more
  have hinside := h.inside
  have hcount := (sectorsOf_le c).2
  have hwords := h.words_bufferWord
  have hlength := words_length (bufferWord d) h.length
  obtain ⟨heven, -, -⟩ := sectorSize_even c.type
  have hmeven := h.even
  unfold takeWord
  by_cases hin : d.bufp + 2 < d.type.sectorSize
  · rw [if_pos hin]
    refine .inl ⟨j, m + 2, ?_⟩
    have hin' : m + 2 < c.type.sectorSize := by rw [← h.bufp, ← h.type]; exact hin
    exact {
      type := h.type, selected := h.selected, room := h.room, readonly := h.readonly, calm := h.calm
      cmd := h.cmd, bufp := congrArg (· + 2) h.bufp, inside := hin', length := hlength, more := h.more
      left := h.left, sector := h.sector, file := h.file, accessed := h.accessed, nextSector := h.nextSector
      words := hwords }
  · rw [if_neg hin]
    rw [h.bufp, h.type] at hin
    have hfull : 2 * (words ++ [bufferWord d]).length = (j + 1) * c.type.sectorSize := by
      rw [hlength, Nat.succ_mul]
      omega
    by_cases hlast : d.sectorCountInternal - 1 = 0
    · rw [if_pos hlast]
      have hall : j + 1 = sectorsOf c := (left_iff h.left hmore hcount).mp hlast
      obtain ⟨pos, hfile, -⟩ := h.file
      refine .inr ⟨j + 1, ?_, by rw [hfull, hall]⟩
      exact {
        type := h.type, room := h.room, still := rfl, bufp := congrArg DriveType.sectorSize h.type
        length := Nat.le_of_eq (by rw [hfull, hall])
        most := hmore, complete := fun _ => hall, accessed := h.accessed, file := ⟨pos, hfile⟩, words := hwords }
    · rw [if_neg hlast]
      have hnext : j + 1 < sectorsOf c := by
        have := mt (left_iff h.left hmore hcount).mpr hlast
        omega
      obtain ⟨pos, hfile, hpos⟩ := h.file
      obtain ⟨pos', hread, hpos'⟩ := @readSector_eq
        { d with bufp := d.bufp + 2, sectorCountInternal := d.sectorCountInternal - 1 } { f with pos := pos }
        (startOf c + j + 1) hfile ⟨hworks.seek, hworks.read, hworks.write, hworks.flush⟩
        (by rw [h.type]; exact h.calm) (by rw [h.type]; exact hpos)
      rw [hread]
      have hroom := (sectorSize_even c.type).2.2
      refine .inl ⟨j + 1, 0, ?_⟩
      exact {
        type := h.type, selected := h.selected
        room := by
          dsimp only
          rw [List.length_append, sectorAt_length, List.length_drop, h.room, h.type]
          omega
        readonly := h.readonly, calm := h.calm, cmd := h.cmd, bufp := rfl
        inside := (sectorSize_even c.type).2.1, length := hfull, more := hnext, left := left_pred h.left
        sector := by
          dsimp only
          rw [h.type, List.take_left' (sectorAt_length _ _)]
          rfl
        file := ⟨pos', rfl, h.type ▸ hpos'⟩
        accessed := by
          dsimp only
          rw [h.accessed, h.nextSector]
          exact List.range'_1_concat.symm
        nextSector := congrArg (· + 1) h.nextSector
        words := hwords }

theorem Reading.turn (h : Reading c f words j m d) (hworks : Works f) (hturn : Turn others d word d') :
    ReadState c f (words ++ word.toList) d' := by
  cases hturn with
  | quiet hquiet => exact .inl ⟨j, m, by rw [Option.toList_none, List.append_nil]; exact h.quiet hquiet⟩
  | halted hhalted => exact .inr ⟨j + 1, by rw [Option.toList_none, List.append_nil]; exact h.halted hhalted⟩
  | taken bus hwants hcmd =>
    rw [readData_eq bus hwants hcmd]
    obtain hmore | ⟨k, hended, -⟩ := h.taken hworks
    · exact .inl hmore
    · exact .inr ⟨k, hended⟩
  | given clk value hwants hcmd =>
    have hread := h.cmd
    obtain hcmd | hcmd := hcmd
    all_goals
      rw [hcmd] at hread
      exact absurd hread (by decide)

end

/-! ## Writing -/

/-- `k` sectors from `start` on hold what was stored, and the others what they held. -/
structure Written (start size : Nat) (old bytes : List UInt8) (k : Nat) (data : List UInt8) : Prop where
  new : ∀ i < k * size, data[start * size + i]? = bytes[i]?
  old : ∀ i, i < start * size ∨ (start + k) * size ≤ i → data.getD i 0 = old.getD i 0

structure Writing (c : Drive) (f : Image) (words : List UInt16) (j m : Nat) (d : Drive) : Prop
    extends Kept c d where
  cmd : d.cmd = 0x30 ∨ d.cmd = 0x2a
  bufp : d.bufp = m
  inside : m < c.type.sectorSize
  length : 2 * words.length = j * c.type.sectorSize + m
  more : j < sectorsOf c
  left : (d.sectorCountInternal.toNat + j) % 256 = sectorsOf c % 256
  filled : d.buffer.take m = (bytesOf words).drop (j * c.type.sectorSize)
  file : ∃ data, d.image = some { f with data := data, pos := (startOf c + j) * c.type.sectorSize } ∧
    Written (startOf c) c.type.sectorSize f.data (bytesOf words) j data
  accessed : d.accessed = List.range' (startOf c) j
  nextSector : d.nextSector = startOf c + j

structure EndedWriting (c : Drive) (f : Image) (words : List UInt16) (k : Nat) (d : Drive) : Prop
    extends Ended c words k d where
  file : ∃ data pos, d.image = some { f with data := data, pos := pos } ∧
    Written (startOf c) c.type.sectorSize f.data (bytesOf words) k data

/-- Where a command that writes is. -/
def WriteState (c : Drive) (f : Image) (words : List UInt16) (d : Drive) : Prop :=
  (∃ j m, Writing c f words j m d) ∨ ∃ k, EndedWriting c f words k d

section
variable {c d d' : Drive} {others : OtherCommands} {f : Image} {words : List UInt16} {j k m size start : Nat}
  {word : Option UInt16} {value : UInt16} {block bytes data old : List UInt8}

theorem put_eq (data : List UInt8) (pos : Nat) (block : List UInt8) : put data pos block = overwrite data pos block := by
  unfold put overwrite
  rw [List.take_append, List.take_replicate]
  simp

/-- The next sector. -/
theorem Written.next (h : Written start size old bytes k data) (hk : k * size ≤ bytes.length)
    (hblock : block.length = size) :
    Written start size old (bytes.take (k * size) ++ block) (k + 1)
      (overwrite data ((start + k) * size) block) where
  new i hi := by
    have hsum : (start + k) * size = start * size + k * size := Nat.add_mul start k size
    have hsucc : (k + 1) * size = k * size + size := Nat.succ_mul k size
    have htake : (bytes.take (k * size)).length = k * size := by
      rw [List.length_take]
      omega
    by_cases hlt : i < k * size
    · have hold : data[start * size + i]? = bytes[i]? := h.new i hlt
      have hinside : start * size + i < data.length := by
        have hsome : i < bytes.length := by omega
        rw [List.getElem?_eq_getElem hsome] at hold
        exact (List.getElem?_eq_some_iff.mp hold).1
      rw [overwrite_old hinside (.inl (by omega)), hold, List.getElem?_append_left (by omega),
        List.getElem?_take_of_lt hlt]
    · rw [overwrite_new (by omega) (by omega), List.getElem?_append_right (by omega), htake]
      congr 1
      omega
  old i hi := by
    have hsum : (start + k) * size = start * size + k * size := Nat.add_mul start k size
    have hsucc : (start + (k + 1)) * size = (start + k) * size + size := Nat.succ_mul (start + k) size
    have hout : i < (start + k) * size ∨ (start + k) * size + block.length ≤ i := by omega
    have hdata : data.getD i 0 = old.getD i 0 := h.old i (by omega)
    rw [← hdata, List.getD_eq_getElem?_getD, List.getD_eq_getElem?_getD]
    by_cases hinside : i < data.length
    · rw [overwrite_old hinside hout]
    · rw [List.getElem?_eq_none (by omega : data.length ≤ i)]
      obtain hlt | hge := hout
      · rw [overwrite_gap (by omega) hlt]
        rfl
      · rw [List.getElem?_eq_none]
        rw [overwrite_length]
        omega

theorem Written.append (h : Written start size old bytes k data) (hk : k * size ≤ bytes.length)
    (more : List UInt8) : Written start size old (bytes ++ more) k data where
  new i hi := by rw [h.new i hi, List.getElem?_append_left (by omega)]
  old := h.old

theorem take_set_set {xs : List UInt8} (h : m + 1 < xs.length) (a b : UInt8) :
    ((xs.set m a).set (m + 1) b).take (m + 2) = xs.take m ++ [a, b] := by
  have hm : m < xs.length := by omega
  have hlength : (xs.take m).length ≤ m := List.length_take_le m xs
  rw [List.take_add_one, List.take_add_one, List.take_set, List.take_set,
    List.set_eq_of_length_le hlength, List.set_eq_of_length_le (by omega)]
  simp [h, hm]

theorem writeSector_eq (hfile : d.image = some f) (hworks : Works f)
    (hcalm : d.type.atapi = true → d.attention = false) (hwritable : d.readonly = false)
    (hroom : d.buffer.length = 2048) :
    writeSector d = { d with
      error := 0
      image := some { f with
        data := overwrite f.data f.pos (d.buffer.take d.type.sectorSize)
        pos := f.pos + d.type.sectorSize }
      nextSector := d.nextSector + 1
      accessed := d.accessed ++ [d.nextSector]
      pos := d.pos + 1
      bufp := d.type.sectorSize } := by
  have hlength : (d.buffer.take d.type.sectorSize).length = d.type.sectorSize := by
    have hsize := (sectorSize_even d.type).2.2
    rw [List.length_take, hroom]
    omega
  have hattention := calm_eq hcalm
  rcases d with ⟨⟨⟩⟩
  obtain rfl := hfile
  obtain rfl := hwritable
  unfold writeSector
  dsimp only at hlength hattention ⊢
  rw [hattention, if_neg Bool.false_ne_true, if_neg Bool.false_ne_true]
  unfold Image.write
  rw [hworks.write, if_neg Bool.false_ne_true]
  dsimp only
  rw [if_neg Bool.false_ne_true, hworks.flush, if_neg (by simp), hlength, put_eq]

/-- A word in the buffer. -/
def filled (d : Drive) (value : UInt16) : Drive :=
  { d with
    buffer := (d.buffer.set d.bufp value.toUInt8).set (d.bufp ||| 1) (value >>> 8).toUInt8
    bufp := d.bufp + 2 }

theorem storeData_eq (clk : Nat) (hwants : wantsData d = true) (hcmd : d.cmd = 0x30 ∨ d.cmd = 0x2a) :
    storeData d others clk value =
      if d.bufp + 2 < d.type.sectorSize then filled d value else storeSector (filled d value) := by
  have hmem : d.cmd ∈ [0x30, 0x2a, 0xe8, 0xa0] := by
    obtain h | h := hcmd <;> rw [h] <;> decide
  unfold storeData
  rw [hwants, if_neg (by simp), if_pos hmem]
  dsimp only
  rw [if_pos (or_comm.mp hcmd)]
  by_cases hin : d.bufp + 2 < d.type.sectorSize
  · rw [if_neg (by omega), if_pos hin]
    rfl
  · rw [if_pos (by omega), if_neg hin]
    rfl

theorem storeSector_eq (hwrite : writeSector d = d') (herror : d'.error = 0) (hfile : d'.image = some f)
    (hworks : Works f) :
    storeSector d = if d'.sectorCountInternal - 1 = 0 then
        { d' with sectorCountInternal := 0, bufp := d'.type.sectorSize, cmd := 0x00 }
      else { d' with sectorCountInternal := d'.sectorCountInternal - 1, bufp := 0 } := by
  have hflushed : d'.image.any (fun f => !f.flushFails f.data) = true := by
    rw [hfile, Option.any_some, hworks.flush]
    rfl
  unfold storeSector
  rw [hwrite]
  dsimp only
  rw [if_neg (fun h => h herror), hflushed, if_pos rfl]
  by_cases hlast : d'.sectorCountInternal - 1 = 0
  · rw [if_neg (fun h => h hlast), if_pos hlast, hlast]
  · rw [if_pos hlast, if_neg hlast]

theorem Writing.quiet (h : Writing c f words j m d) (hquiet : Quiet d d') : Writing c f words j m d' where
  toKept := h.toKept.quiet hquiet
  cmd := hquiet.cmd ▸ h.cmd
  bufp := hquiet.bufp.trans h.bufp
  inside := h.inside
  length := h.length
  more := h.more
  left := hquiet.count ▸ h.left
  filled := hquiet.buffer ▸ h.filled
  file := hquiet.image ▸ h.file
  accessed := hquiet.accessed.trans h.accessed
  nextSector := hquiet.nextSector.trans h.nextSector

theorem Writing.halted (h : Writing c f words j m d) (hhalted : Halted d d') : EndedWriting c f words j d' where
  toEnded := h.toKept.halted hhalted (Nat.le_of_lt h.more) (length_lt h.length h.inside h.more) h.accessed
  file := by
    obtain ⟨data, hfile, hwritten⟩ := h.file
    exact ⟨data, _, hhalted.image.trans hfile, hwritten⟩

theorem Writing.even (h : Writing c f words j m d) : m % 2 = 0 :=
  even_of_length (sectorSize_even c.type).1 h.length

/-- The word goes behind those that are in the buffer. -/
theorem Writing.filled_take (h : Writing c f words j m d) (value : UInt16) :
    (AtaTransfer.filled d value).buffer.take (m + 2) =
      (bytesOf (words ++ [value])).drop (j * c.type.sectorSize) := by
  have hsize := sectorSize_even c.type
  have hinside := h.inside
  have hroom : m + 1 < d.buffer.length := by
    rw [h.room]
    have := h.even
    omega
  have hlength : j * c.type.sectorSize ≤ (bytesOf words).length := by
    rw [bytesOf_length, h.length]
    exact Nat.le_add_right _ _
  rw [AtaTransfer.filled, h.bufp, or_one_eq h.even, take_set_set hroom, h.filled, bytesOf_append,
    List.drop_append_of_le_length hlength]
  rfl

theorem Writing.given (h : Writing c f words j m d) (hworks : Works f) (hwritable : c.readonly = false)
    (clk : Nat) (value : UInt16) (hwants : wantsData d = true) :
    (∃ j m, Writing c f (words ++ [value]) j m (storeData d others clk value)) ∨
      ∃ k, EndedWriting c f (words ++ [value]) k (storeData d others clk value) ∧
        2 * (words ++ [value]).length = sectorsOf c * c.type.sectorSize := by
  have hmore := h.more
  have hinside := h.inside
  have heven := h.even
  have hcount := (sectorsOf_le c).2
  obtain ⟨hsize, -, hsmall⟩ := sectorSize_even c.type
  have htake := h.filled_take value
  have hlength := words_length value h.length
  have hbytes : j * c.type.sectorSize ≤ (bytesOf words).length := by
    rw [bytesOf_length, h.length]
    exact Nat.le_add_right _ _
  obtain ⟨data, hfile, hwritten⟩ := h.file
  have hroom : (AtaTransfer.filled d value).buffer.length = 2048 := by
    rw [AtaTransfer.filled, List.length_set, List.length_set, h.room]
  rw [storeData_eq clk hwants h.cmd]
  by_cases hin : d.bufp + 2 < d.type.sectorSize
  · rw [if_pos hin]
    refine .inl ⟨j, m + 2, ?_⟩
    exact {
      type := h.type, selected := h.selected, room := hroom, readonly := h.readonly, calm := h.calm
      cmd := h.cmd, bufp := congrArg (· + 2) h.bufp
      inside := by rw [← h.bufp, ← h.type]; exact hin
      length := hlength, more := h.more, left := h.left, filled := htake
      file := ⟨data, hfile, by rw [bytesOf_append]; exact hwritten.append hbytes _⟩
      accessed := h.accessed, nextSector := h.nextSector }
  · rw [if_neg hin]
    rw [h.bufp, h.type] at hin
    have hfull : m + 2 = c.type.sectorSize := by omega
    have hsucc : (j + 1) * c.type.sectorSize = j * c.type.sectorSize + c.type.sectorSize := Nat.succ_mul j _
    have hblock : (AtaTransfer.filled d value).buffer.take (AtaTransfer.filled d value).type.sectorSize =
        (bytesOf (words ++ [value])).drop (j * c.type.sectorSize) := by
      rw [show (AtaTransfer.filled d value).type = c.type from h.type, ← htake, hfull]
    have hcalm : d.type.atapi = true → d.attention = false := fun hatapi => h.calm (h.type ▸ hatapi)
    have hwrite := writeSector_eq (d := AtaTransfer.filled d value) hfile
      ⟨hworks.seek, hworks.read, hworks.write, hworks.flush⟩ hcalm
      (h.readonly.trans hwritable) hroom
    rw [storeSector_eq hwrite rfl rfl ⟨hworks.seek, hworks.read, hworks.write, hworks.flush⟩]
    have hnext : Written (startOf c) c.type.sectorSize f.data (bytesOf (words ++ [value])) (j + 1)
        (overwrite data ((startOf c + j) * c.type.sectorSize)
          ((AtaTransfer.filled d value).buffer.take (AtaTransfer.filled d value).type.sectorSize)) := by
      have hlen : (bytesOf (words ++ [value])).length = j * c.type.sectorSize + c.type.sectorSize := by
        rw [bytesOf_length, hlength, hfull]
      have hdrop : ((bytesOf (words ++ [value])).drop (j * c.type.sectorSize)).length = c.type.sectorSize := by
        rw [List.length_drop]
        omega
      have happend := (hwritten.append hbytes (bytesOf [value])).next (by rw [← bytesOf_append]; omega) hdrop
      rw [hblock]
      rw [← bytesOf_append, List.take_append_drop] at happend
      exact happend
    have haccessed : d.accessed ++ [d.nextSector] = List.range' (startOf c) (j + 1) := by
      rw [h.accessed, h.nextSector]
      exact List.range'_1_concat.symm
    have hpos : (startOf c + j) * c.type.sectorSize + (AtaTransfer.filled d value).type.sectorSize =
        (startOf c + (j + 1)) * c.type.sectorSize := by
      rw [show (AtaTransfer.filled d value).type = c.type from h.type]
      exact (Nat.succ_mul (startOf c + j) _).symm
    dsimp only
    by_cases hlast : d.sectorCountInternal - 1 = 0
    · rw [if_pos (by exact hlast)]
      have hall : j + 1 = sectorsOf c := (left_iff h.left hmore hcount).mp hlast
      have htotal : 2 * (words ++ [value]).length = sectorsOf c * c.type.sectorSize := by
        rw [hlength, hfull, ← hall, hsucc]
      refine .inr ⟨j + 1, ?_, htotal⟩
      exact {
        type := h.type, room := hroom, still := rfl, bufp := congrArg DriveType.sectorSize h.type
        length := Nat.le_of_eq htotal
        most := hmore, complete := fun _ => hall, accessed := haccessed, file := ⟨_, _, rfl, hnext⟩ }
    · rw [if_neg (by exact hlast)]
      have hnot : j + 1 < sectorsOf c := by
        have := mt (left_iff h.left hmore hcount).mpr hlast
        omega
      refine .inl ⟨j + 1, 0, ?_⟩
      exact {
        type := h.type, selected := h.selected, room := hroom, readonly := h.readonly, calm := h.calm
        cmd := h.cmd, bufp := rfl, inside := (sectorSize_even c.type).2.1
        length := by rw [hlength, hfull, hsucc, Nat.add_zero]
        more := hnot, left := left_pred h.left
        filled := by
          have hall : (bytesOf (words ++ [value])).length = (j + 1) * c.type.sectorSize := by
            rw [bytesOf_length, hlength, hfull, hsucc]
          rw [List.take_zero, List.drop_eq_nil_of_le (Nat.le_of_eq hall)]
        file := ⟨_, by rw [hpos], hnext⟩
        accessed := haccessed
        nextSector := congrArg (· + 1) h.nextSector }

theorem Writing.turn (h : Writing c f words j m d) (hworks : Works f) (hwritable : c.readonly = false)
    (hturn : Turn others d word d') : WriteState c f (words ++ word.toList) d' := by
  cases hturn with
  | quiet hquiet => exact .inl ⟨j, m, by rw [Option.toList_none, List.append_nil]; exact h.quiet hquiet⟩
  | halted hhalted => exact .inr ⟨j, by rw [Option.toList_none, List.append_nil]; exact h.halted hhalted⟩
  | taken bus hwants hcmd =>
    have hwrite := h.cmd
    obtain hcmd | hcmd := hcmd
    all_goals
      rw [hcmd] at hwrite
      exact absurd hwrite (by decide)
  | given clk value hwants hcmd =>
    obtain hmore | ⟨k, hended, -⟩ := h.given hworks hwritable clk value hwants
    · exact .inl hmore
    · exact .inr ⟨k, hended⟩

/-! ## Waiting -/

theorem Reading.busy (h : Reading c f words j m d) (hworks : Works f) : (takeWord d).busy = d.busy := by
  obtain ⟨pos, hfile, hpos⟩ := h.file
  unfold takeWord
  split_ifs
  · rfl
  · rfl
  · obtain ⟨pos', hread, -⟩ := @readSector_eq
      { d with bufp := d.bufp + 2, sectorCountInternal := d.sectorCountInternal - 1 } { f with pos := pos }
      (startOf c + j + 1) hfile ⟨hworks.seek, hworks.read, hworks.write, hworks.flush⟩
      (by rw [h.type]; exact h.calm) (by rw [h.type]; exact hpos)
    rw [hread]

theorem Writing.busy (h : Writing c f words j m d) (hworks : Works f) (hwritable : c.readonly = false) (clk : Nat)
    (value : UInt16) (hwants : wantsData d = true) : (storeData d others clk value).busy = d.busy := by
  obtain ⟨data, hfile, -⟩ := h.file
  have hroom : (AtaTransfer.filled d value).buffer.length = 2048 := by
    rw [AtaTransfer.filled, List.length_set, List.length_set, h.room]
  have hcalm : d.type.atapi = true → d.attention = false := fun hatapi => h.calm (h.type ▸ hatapi)
  have hwrite := writeSector_eq (d := AtaTransfer.filled d value) hfile
    ⟨hworks.seek, hworks.read, hworks.write, hworks.flush⟩ hcalm (h.readonly.trans hwritable) hroom
  rw [storeData_eq clk hwants h.cmd]
  split_ifs
  · rfl
  · rw [storeSector_eq hwrite rfl rfl ⟨hworks.seek, hworks.read, hworks.write, hworks.flush⟩]
    split_ifs
    · rfl
    · rfl

end

end Vice.L4.AtaTransfer
