import Vice.L4Machine.AtaCommand
import Mathlib.Logic.Function.Iterate

/-!
# The addresses of a hard disk (`seek_sector`)

A command block is valid in linear mode if its number is below the size, and with cylinders, heads and
sectors if each of them is below what the translation has, or the sector at most that. `seek_sector`
looks at all of this, but forgets what it found about the three: the number that stands for an invalid
block is overwritten by the one the block would have.

Results:
* `accepted_accesses`, `rejected_keeps`: what a command does with a number, in and out of range.
* `ata_addressing_iff`: the commands check their blocks, except for the invalid ones that come out at a
  number within the size.
-/
namespace Vice.L4.AtaAddress
open Vice.L4.AtaCommand

section
variable {d : Drive} {f : Image} {others : UInt8 → Drive → Drive} {clk lba n : Nat} {value : UInt8}

/-! ## What a block means -/

/-- The block is a linear number. -/
def Linear (d : Drive) : Prop := (d.lbamode && d.lba) = true

/-- The cylinder, head and sector are those of the translation. -/
def InRange (d : Drive) : Prop :=
  0 < d.sector.toNat ∧ d.sector.toNat ≤ d.translation.sectors ∧ d.head.val < d.translation.heads ∧
    d.cylinder.toNat < d.translation.cylinders

/-- The address a block stands for. -/
def address (d : Drive) : Int := if d.lbamode && d.lba then lbaAddress d else chsAddress d

def Valid (d : Drive) : Prop := (¬ Linear d → InRange d) ∧ address d < d.geometry.size

/-- A block out of range that comes out within the size. -/
def Aliased (d : Drive) : Prop :=
  ¬ Linear d ∧ ¬ InRange d ∧ 0 ≤ chsAddress d ∧ chsAddress d < d.geometry.size

/-- A block in range is one of the sectors of the translation. -/
theorem inRange_lt (h : InRange d) : 0 ≤ chsAddress d ∧
    chsAddress d < (d.translation.cylinders * d.translation.heads * d.translation.sectors : Nat) := by
  obtain ⟨hpos, hsector, hhead, hcylinder⟩ := h
  have htracks : (d.cylinder.toNat * d.translation.heads + d.head.val + 1) * d.translation.sectors ≤
      d.translation.cylinders * d.translation.heads * d.translation.sectors := by
    apply Nat.mul_le_mul_right
    calc d.cylinder.toNat * d.translation.heads + d.head.val + 1
        ≤ d.cylinder.toNat * d.translation.heads + d.translation.heads := by omega
      _ = (d.cylinder.toNat + 1) * d.translation.heads := (Nat.succ_mul _ _).symm
      _ ≤ d.translation.cylinders * d.translation.heads := Nat.mul_le_mul_right _ hcylinder
  have hnat : chsAddress d =
      ((d.cylinder.toNat * d.translation.heads + d.head.val) * d.translation.sectors : Nat) +
        (d.sector.toNat : Int) - 1 := by
    unfold chsAddress
    push_cast
    rfl
  rw [Nat.succ_mul] at htracks
  omega

/-! ## Seeking -/

/-- The host does what it is asked. -/
structure Works (f : Image) : Prop where
  seek : ∀ p, f.seekFails p = false
  read : ∀ p, f.readFails p = false
  write : ∀ p, f.writeFails p = false
  flush : ∀ data, f.flushFails data = false

theorem seekSector_rejects (hfile : d.image = some f) (h : d.geometry.size ≤ address d ∨ address d < 0) :
    seekSector d clk = { d with bufp := sectorSize, error := ATA_IDNF, cmd := 0x00 } := by
  unfold seekSector
  dsimp only
  rw [hfile]
  dsimp only
  rw [if_pos (by exact h)]

/-- The head is at a sector, and the file too. -/
structure Sought (d d' : Drive) (f : Image) (lba : Nat) : Prop where
  error : d'.error = 0
  cmd : d'.cmd = 0x00
  pos : d'.pos = lba
  image : d'.image = some { f with pos := lba * sectorSize }
  readonly : d'.readonly = d.readonly
  count : d'.sectorCountInternal = d.sectorCountInternal

theorem ataChangePowerMode_idle (clk : Nat) (c : Drive) :
    (ataChangePowerMode clk 0xff c).error = c.error ∧ (ataChangePowerMode clk 0xff c).cmd = c.cmd ∧
      (ataChangePowerMode clk 0xff c).readonly = c.readonly ∧
      (ataChangePowerMode clk 0xff c).sectorCountInternal = c.sectorCountInternal := by
  by_cases hpower : c.power = 0
  · simp [ataChangePowerMode, hpower]
  · simp [ataChangePowerMode, hpower]

theorem sought_of_power (clk : Nat) {c : Drive} (herror : c.error = 0) (hcmd : c.cmd = 0x00)
    (hreadonly : c.readonly = d.readonly) (hcount : c.sectorCountInternal = d.sectorCountInternal) :
    Sought d { ataChangePowerMode clk 0xff c with
      image := some { f with pos := lba * sectorSize }, pos := lba } f lba := by
  obtain ⟨hpe, hpc, hpr, hpn⟩ := ataChangePowerMode_idle clk c
  exact ⟨hpe.trans herror, hpc.trans hcmd, rfl, rfl, hpr.trans hreadonly, hpn.trans hcount⟩

theorem seekSector_accepts (hfile : d.image = some f) (hworks : Works f) (h0 : 0 ≤ address d)
    (hlt : address d < d.geometry.size) : Sought d (seekSector d clk) f (address d).toNat := by
  have hnone : ¬ (d.geometry.size ≤ address d ∨ address d < 0) := by omega
  unfold seekSector
  dsimp only
  rw [hfile]
  dsimp only
  rw [if_neg (by exact hnone), hworks.seek, if_neg Bool.false_ne_true]
  exact sought_of_power clk rfl rfl rfl rfl

/-! ## Sectors -/

/-- A sector of a file, zeros if it is not all there. -/
def sectorAt (data : List UInt8) (lba : Nat) : List UInt8 :=
  let got := (data.drop (lba * sectorSize)).take sectorSize
  if got.length = sectorSize then got else List.replicate sectorSize 0

theorem read_works (hworks : Works f) : f.read.2.1 = false ∧ f.read.2.2 = { f with pos := f.read.2.2.pos } := by
  unfold Image.read
  dsimp only
  rw [hworks.read, if_neg Bool.false_ne_true]
  split_ifs
  · exact ⟨rfl, rfl⟩
  · exact ⟨rfl, rfl⟩

theorem readSector_eq (hfile : d.image = some f) (hworks : Works f) : readSector d = { d with
      error := 0, buffer := f.read.1, image := some f.read.2.2, pos := d.pos + 1, bufp := 0 } := by
  unfold readSector
  dsimp only
  rw [hfile]
  dsimp only
  rw [(read_works hworks).1, if_neg Bool.false_ne_true]

theorem read_sectorAt (hworks : Works f) (lba : Nat) :
    ({ f with pos := lba * sectorSize } : Image).read.1 = sectorAt f.data lba := by
  unfold Image.read sectorAt
  dsimp only
  rw [hworks.read, if_neg Bool.false_ne_true]
  split_ifs
  · rfl
  · rfl

theorem writeSector_data (hfile : d.image = some f) (hworks : Works f) (hwritable : d.readonly = false) :
    (writeSector d).image.map Image.data = some (put f.data f.pos d.buffer) := by
  unfold writeSector Image.write
  dsimp only
  rw [hfile]
  dsimp only
  rw [hwritable, if_neg Bool.false_ne_true, hworks.write, if_neg Bool.false_ne_true]
  dsimp only
  rw [hworks.flush, if_neg (by simp), if_neg Bool.false_ne_true]
  rfl

/-- What a verify reads over. -/
def readOver (f : Image) : Image := f.read.2.2

theorem readOver_works (hworks : Works f) : Works (readOver f) := by
  rw [readOver, (read_works hworks).2]
  exact ⟨hworks.seek, hworks.read, hworks.write, hworks.flush⟩

/-- The loop ends with the counter, after as many turns as it had. -/
theorem verifyTurns_spec (n : Nat) (d : Drive) (f : Image) (hfile : d.image = some f) (hworks : Works f)
    (hn : (d.sectorCountInternal - 1).toNat + 1 ≤ n) :
    (verifyTurns n d).error = 0 ∧
      (verifyTurns n d).pos = d.pos + ((d.sectorCountInternal - 1).toNat + 1) ∧
      (verifyTurns n d).image = some (readOver^[(d.sectorCountInternal - 1).toNat + 1] f) := by
  induction n generalizing d f with
  | zero => omega
  | succ n ih =>
    unfold verifyTurns
    rw [readSector_eq hfile hworks]
    dsimp only
    rw [if_neg (by simp)]
    generalize hleft : d.sectorCountInternal - 1 = left at hn ⊢
    split_ifs with hzero
    · subst hzero
      exact ⟨rfl, rfl, rfl⟩
    · have hless : (left - 1).toNat + 1 = left.toNat := by
        have hpos : left.toNat ≠ 0 := fun h => hzero (UInt8.toNat_inj.mp h)
        have hlt := left.toNat_lt
        rw [UInt8.toNat_sub, UInt8.toNat_one]
        omega
      obtain ⟨herror, hpos, himage⟩ := ih
        { d with
          error := 0, buffer := f.read.1, image := some f.read.2.2, pos := d.pos + 1, bufp := 0,
          sectorCountInternal := left } (readOver f) rfl (readOver_works hworks)
        (by dsimp only; omega)
      dsimp only at hpos himage
      refine ⟨herror, ?_, ?_⟩
      · rw [hpos, hless]
        omega
      · rw [himage, hless, Function.iterate_succ_apply]

/-! ## Commands -/

def isRead (value : UInt8) : Prop := value = 0x20 ∨ value = 0x21

def isWrite (value : UInt8) : Prop := value = 0x30 ∨ value = 0x31

def isVerify (value : UInt8) : Prop := value = 0x40 ∨ value = 0x41

def isSeek (value : UInt8) : Prop := value = 0x70

/-- The sectors a command is for; 0 is 256. -/
def sectorsOf (d : Drive) : Nat := if d.sectorCount = 0 then 256 else d.sectorCount.toNat

/-- The command does its work at a sector: the buffer is what is there, or goes there with the next
sector that is written, or so many sectors are read over from there. -/
structure Accesses (value : UInt8) (d d' : Drive) (f : Image) (lba : Nat) : Prop where
  reads : isRead value → d'.error = 0 ∧ d'.pos = lba + 1 ∧ d'.bufp = 0 ∧
    d'.buffer = sectorAt f.data lba ∧ d'.image.map Image.data = some f.data
  writes : isWrite value → d'.pos = lba ∧ d'.image.map Image.data = some f.data ∧
    if d.readonly then d'.error = ATA_WP ||| ATA_ABRT
    else d'.error = 0 ∧ d'.bufp = 0 ∧ d'.cmd = 0x30 ∧ ∀ buffer,
      (writeSector { d' with buffer := buffer }).image.map Image.data =
        some (put f.data (lba * sectorSize) buffer)
  verifies : isVerify value → d'.error = 0 ∧ d'.pos = lba + sectorsOf d ∧
    d'.image = some (readOver^[sectorsOf d] { f with pos := lba * sectorSize })
  seeks : isSeek value → d'.error = 0 ∧ d'.pos = lba ∧
    d'.image = some { f with pos := lba * sectorSize }

/-- ID not found, and nothing moved. -/
structure Rejected (d d' : Drive) : Prop where
  error : d'.error = ATA_IDNF
  pos : d'.pos = d.pos
  image : d'.image = d.image

def isSectorCommand (value : UInt8) : Prop := isRead value ∨ isWrite value ∨ isVerify value ∨ isSeek value

/-- A command checks its block. -/
def Checked (others : UInt8 → Drive → Drive) (clk : Nat) (value : UInt8) (d : Drive) (f : Image) : Prop :=
  (Valid d → Accesses value d (ataExecuteCommand d others clk value) f (address d).toNat) ∧
    (¬ Valid d → Rejected d (ataExecuteCommand d others clk value))

theorem address_nonneg (h : Linear d ∨ InRange d) : 0 ≤ address d := by
  unfold address
  split_ifs with hlinear
  · exact Int.natCast_nonneg _
  · exact (inRange_lt (h.resolve_left hlinear)).1

theorem sectorsOf_eq (d : Drive) : (d.sectorCount - 1).toNat + 1 = sectorsOf d := by
  unfold sectorsOf
  have hlt := d.sectorCount.toNat_lt
  rw [UInt8.toNat_sub, UInt8.toNat_one]
  split_ifs with hzero
  · rw [hzero]
    rfl
  · have hpos : d.sectorCount.toNat ≠ 0 := fun h => hzero (UInt8.toNat_inj.mp h)
    omega

theorem sectorsOf_le (d : Drive) : sectorsOf d ≤ 256 := by
  have hlt := d.sectorCount.toNat_lt
  unfold sectorsOf
  split_ifs <;> omega

/-- The drive as the command finds it. -/
def started (d : Drive) : Drive := { d with bufp := sectorSize, error := 0, cmd := 0x00 }

/-- The same with the sectors it is for. -/
def counted (d : Drive) : Drive := { started d with sectorCountInternal := d.sectorCount }

theorem execute_read (hawake : d.cmd ≠ 0xe6) (h : isRead value) : ataExecuteCommand d others clk value =
    if (seekSector (counted d) clk).error ≠ 0 then seekSector (counted d) clk
    else readSector { seekSector (counted d) clk with cmd := 0x20 } := by
  obtain rfl | rfl := h
  all_goals
    unfold ataExecuteCommand
    rw [if_neg hawake]
    rfl

theorem execute_write (hawake : d.cmd ≠ 0xe6) (h : isWrite value) : ataExecuteCommand d others clk value =
    if (seekSector (counted d) clk).error ≠ 0 then seekSector (counted d) clk
    else if (seekSector (counted d) clk).readonly then
      { seekSector (counted d) clk with error := ATA_WP ||| ATA_ABRT }
    else { seekSector (counted d) clk with bufp := 0, cmd := 0x30 } := by
  obtain rfl | rfl := h
  all_goals
    unfold ataExecuteCommand
    rw [if_neg hawake]
    rfl

theorem execute_verify (hawake : d.cmd ≠ 0xe6) (h : isVerify value) : ataExecuteCommand d others clk value =
    if (seekSector (counted d) clk).error ≠ 0 then seekSector (counted d) clk
    else verifyTurns 256 (seekSector (counted d) clk) := by
  obtain rfl | rfl := h
  all_goals
    unfold ataExecuteCommand
    rw [if_neg hawake]
    rfl

theorem execute_seek (hawake : d.cmd ≠ 0xe6) (h : isSeek value) :
    ataExecuteCommand d others clk value = seekSector (started d) clk := by
  obtain rfl := h
  unfold ataExecuteCommand
  rw [if_neg hawake]
  rfl

/-- A number within the size is where the command works. -/
theorem accepted_accesses (hfile : d.image = some f) (hworks : Works f) (hawake : d.cmd ≠ 0xe6)
    (h0 : 0 ≤ address d) (hlt : address d < d.geometry.size) :
    Accesses value d (ataExecuteCommand d others clk value) f (address d).toNat := by
  have hcounted : Sought (counted d) (seekSector (counted d) clk) f (address d).toNat :=
    seekSector_accepts (by exact hfile) hworks (by exact h0) (by exact hlt)
  have hplain : Sought (started d) (seekSector (started d) clk) f (address d).toNat :=
    seekSector_accepts (by exact hfile) hworks (by exact h0) (by exact hlt)
  have hworks' : Works { f with pos := (address d).toNat * sectorSize } :=
    ⟨hworks.seek, hworks.read, hworks.write, hworks.flush⟩
  have hseek : ¬ (seekSector (counted d) clk).error ≠ 0 := fun h => h hcounted.error
  refine ⟨fun h => ?_, fun h => ?_, fun h => ?_, fun h => ?_⟩
  · rw [execute_read hawake h, if_neg hseek, readSector_eq (by exact hcounted.image) hworks']
    refine ⟨rfl, congrArg (· + 1) hcounted.pos, rfl, read_sectorAt hworks _, ?_⟩
    rw [(read_works hworks').2]
    rfl
  · rw [execute_write hawake h, if_neg hseek, hcounted.readonly, show (counted d).readonly = d.readonly from rfl]
    cases hreadonly : d.readonly with
    | true =>
      rw [if_pos rfl, if_pos rfl]
      refine ⟨hcounted.pos, ?_, rfl⟩
      dsimp only
      rw [hcounted.image]
      rfl
    | false =>
      rw [if_neg Bool.false_ne_true, if_neg Bool.false_ne_true]
      refine ⟨hcounted.pos, ?_, hcounted.error, rfl, rfl, fun buffer => ?_⟩
      · dsimp only
        rw [hcounted.image]
        rfl
      · exact writeSector_data (by exact hcounted.image) hworks' (by exact hcounted.readonly.trans hreadonly)
  · have hcount : (seekSector (counted d) clk).sectorCountInternal = d.sectorCount := hcounted.count
    have hturns := verifyTurns_spec 256 (seekSector (counted d) clk) _ hcounted.image hworks' (by
      rw [hcount, sectorsOf_eq]
      exact sectorsOf_le d)
    rw [hcount, sectorsOf_eq, hcounted.pos] at hturns
    rw [execute_verify hawake h, if_neg hseek]
    exact hturns
  · rw [execute_seek hawake h]
    exact ⟨hplain.error, hplain.pos, hplain.image⟩

/-- Any other number is not found, and nothing moves. -/
theorem rejected_keeps (hfile : d.image = some f) (hawake : d.cmd ≠ 0xe6) (hcommand : isSectorCommand value)
    (h : d.geometry.size ≤ address d ∨ address d < 0) :
    Rejected d (ataExecuteCommand d others clk value) := by
  have hcounted := @seekSector_rejects (counted d) f clk (by exact hfile) (by exact h)
  have hplain := @seekSector_rejects (started d) f clk (by exact hfile) (by exact h)
  have hseek : (seekSector (counted d) clk).error ≠ 0 := by
    rw [hcounted]
    exact (by decide : ATA_IDNF ≠ 0)
  obtain hread | hwrite | hverify | hseek' := hcommand
  · rw [execute_read hawake hread, if_pos hseek, hcounted]
    exact ⟨rfl, rfl, rfl⟩
  · rw [execute_write hawake hwrite, if_pos hseek, hcounted]
    exact ⟨rfl, rfl, rfl⟩
  · rw [execute_verify hawake hverify, if_pos hseek, hcounted]
    exact ⟨rfl, rfl, rfl⟩
  · rw [execute_seek hawake hseek', hplain]
    exact ⟨rfl, rfl, rfl⟩

/-- What works at a sector is not rejected. -/
theorem not_rejected {d' : Drive} (hcommand : isSectorCommand value) (h : Accesses value d d' f lba) :
    ¬ Rejected d d' := by
  intro hrejected
  have herror := hrejected.error
  obtain hread | hwrite | hverify | hseek := hcommand
  · rw [(h.reads hread).1] at herror
    exact absurd herror (by decide)
  · have hwrites := (h.writes hwrite).2.2
    split_ifs at hwrites
    · rw [hwrites] at herror
      exact absurd herror (by decide)
    · rw [hwrites.1] at herror
      exact absurd herror (by decide)
  · rw [(h.verifies hverify).1] at herror
    exact absurd herror (by decide)
  · rw [(h.seeks hseek).1] at herror
    exact absurd herror (by decide)

/-- An invalid block within the size is taken for the one with its number. -/
theorem aliased_unchecked (hfile : d.image = some f) (hworks : Works f) (hawake : d.cmd ≠ 0xe6)
    (hcommand : isSectorCommand value) (h : Aliased d) : ¬ Checked others clk value d f := by
  obtain ⟨hlinear, hrange, h0, hlt⟩ := h
  have haddress : address d = chsAddress d := if_neg hlinear
  intro hchecked
  have haccess := @accepted_accesses d f others clk value hfile hworks hawake (haddress ▸ h0) (haddress ▸ hlt)
  exact not_rejected hcommand haccess (hchecked.2 fun hvalid => hrange (hvalid.1 hlinear))

theorem ata_addressing_iff (others : UInt8 → Drive → Drive) (clk : Nat) (value : UInt8) (d : Drive)
    (f : Image) (hfile : d.image = some f) (hworks : Works f) (hawake : d.cmd ≠ 0xe6)
    (hcommand : isSectorCommand value) : Checked others clk value d f ↔ ¬ Aliased d := by
  refine ⟨fun h haliased => aliased_unchecked hfile hworks hawake hcommand haliased h, fun h => ⟨?_, ?_⟩⟩
  · intro hvalid
    have h0 : 0 ≤ address d := address_nonneg (or_iff_not_imp_left.mpr hvalid.1)
    exact accepted_accesses hfile hworks hawake h0 hvalid.2
  · intro hinvalid
    apply rejected_keeps hfile hawake hcommand
    by_contra hwithin
    have hin : 0 ≤ address d ∧ address d < d.geometry.size := by omega
    by_cases hgood : Linear d ∨ InRange d
    · exact hinvalid ⟨or_iff_not_imp_left.mp hgood, hin.2⟩
    · have hlinear : ¬ Linear d := fun hl => hgood (Or.inl hl)
      have haddress : address d = chsAddress d := if_neg hlinear
      exact h ⟨hlinear, fun hr => hgood (Or.inr hr), haddress ▸ hin.1, haddress ▸ hin.2⟩

end

/-! ## A small card -/

/-- A card of 4 cylinders, 2 heads and 8 sectors. -/
def card : Geometry := ⟨⟨4, 2, 8, by decide, by decide, by decide⟩, 64⟩

def cardImage : Image := ⟨[], 0, fun _ => false, fun _ => false, fun _ => false, fun _ => false⟩

/-- Its drive after a reset, asked for sector `sector` of the first track. -/
def cardDrive (sector : UInt8) : Drive where
  error := 1
  sectorCount := 1
  sectorCountInternal := 0
  sector := sector
  cylinder := 0
  head := 0
  lba := false
  cmd := 0x08
  power := 0xff
  bufp := 512
  buffer := []
  image := some cardImage
  geometry := card
  translation := card.translation
  readonly := false
  wcache := false
  busy := 0
  pos := 0
  standby := 0
  standbyMax := 0
  spindleAlarm := none
  headAlarm := none
  standbyAlarm := none
  lbamode := true
  seekTime := 10
  spinupTime := 300000
  spindownTime := 2000
  cycles1s := 1000000

theorem cardImage_works : Works cardImage := ⟨fun _ => rfl, fun _ => rfl, fun _ => rfl, fun _ => rfl⟩

theorem ata_addressing_card : Checked (fun _ d => d) 0 0x20 (cardDrive 8) cardImage ↔ ¬ Aliased (cardDrive 8) :=
  ata_addressing_iff (fun _ d => d) 0 0x20 (cardDrive 8) cardImage rfl cardImage_works (by decide)
    (Or.inl (Or.inl rfl))

/-- The ninth sector of a track of eight is the first one of the next. -/
theorem ninth_sector_unchecked : ¬ Checked (fun _ d => d) 0 0x20 (cardDrive 9) cardImage := by
  have hlinear : ¬ Linear (cardDrive 9) := by
    unfold Linear
    decide
  have hrange : ¬ InRange (cardDrive 9) := fun h => absurd h.2.1 (by decide)
  have hvalue : chsAddress (cardDrive 9) = 8 := by decide
  refine aliased_unchecked rfl cardImage_works (by decide) (Or.inl (Or.inl rfl))
    ⟨hlinear, hrange, ?_, ?_⟩
  · rw [hvalue]
    decide
  · rw [hvalue]
    decide

end Vice.L4.AtaAddress
