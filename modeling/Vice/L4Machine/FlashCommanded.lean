import Vice.L4Machine.FlashSectors

/-!
# Flash contents change only as commanded

Every store that adds a sector sets a bit of an eight byte mask. The S29GL064N has 128 sectors, so there
the second half of them has no bit and the store goes past the mask. Otherwise the chip does what the
table of commands says.

Results:
* `store_tracked`, `alarm_tracked`: what one access does.
* `flash_commanded`: the array after any run whose sectors all have a bit.
-/
namespace Vice.L4.FlashCommanded
open Vice.L4.FlashCore Vice.L4.FlashCommand Vice.L4.FlashSectors

section
variable {t : FlashType} {s s' : Flash} {p : Phase} {k addr : Nat} {byte : UInt8} {clk : UInt64}

/-! ## Runs -/

/-- What the computer does, and when. The alarm may come at any time. -/
inductive Access
  | store (clk : UInt64) (rmw : Bool) (addr : Nat) (byte : UInt8)
  | read (clk : UInt64) (addr : Nat)
  | alarm (clk : UInt64)

/-- The address is one of the chip. -/
def Access.inRange (t : FlashType) : Access → Prop
  | .store _ _ addr _ => addr < t.size
  | .read _ addr => addr < t.size
  | .alarm _ => True

def step (t : FlashType) (s : Flash) : Access → Option Flash
  | .store clk rmw addr byte => store t s clk rmw addr byte
  | .read clk addr => (read t s clk addr).map (·.2)
  | .alarm clk => if s.eraseAlarm.isSome then eraseAlarmHandler t s clk else some s

def run (t : FlashType) (s : Flash) (es : List Access) : Option Flash := es.foldlM (step t) s

/-- What the chip sees: of a read-modify-write, the value that was read is stored first. -/
def busOf (s : Flash) : Access → List Bus
  | .store _ rmw addr byte => (if rmw then [.store ⟨addr, s.lastRead⟩] else []) ++ [.store ⟨addr, byte⟩]
  | .read _ _ => []
  | .alarm _ => [.alarm]

def bus (t : FlashType) : Flash → List Access → List Bus
  | _, [] => []
  | s, e :: es => busOf s e ++ (step t s e).elim [] fun s' => bus t s' es

/-- If the store adds a sector, the sector has a bit in the mask. -/
def Fits (t : FlashType) (s : Flash) (addr : Nat) (byte : UInt8) : Prop :=
  (s.flashState = .eraseSelect ∨ s.flashState = .sectorEraseTimeout) → byte = 0x30 → addr / t.sectorSize < 64

/-- The same of a store that may be doubled. -/
def Access.fits (t : FlashType) (s : Flash) : Access → Prop
  | .store clk rmw addr byte =>
    (rmw = true → Fits t s addr s.lastRead) ∧
      ((if rmw then storeInternal t s (clk - 1) addr s.lastRead else some s).elim True fun s' => Fits t s' addr byte)
  | _ => True

def FitsAll (t : FlashType) : Flash → List Access → Prop
  | _, [] => True
  | s, e :: es => e.fits t s ∧ (step t s e).elim True fun s' => FitsAll t s' es

/-! ## What is tracked -/

/-- The beginning of a command that brings the chip to a state. -/
def Heard (t : FlashType) : FlashState → List Store → Prop
  | .read, heard | .autoselect, heard | .byteProgramError, heard => heard = []
  | .magic1, heard => ∃ a1, flashMagic1 t a1 = true ∧ heard = [⟨a1, 0xaa⟩]
  | .magic2, heard => ∃ a1 a2, flashMagic1 t a1 = true ∧ flashMagic2 t a2 = true ∧ heard = [⟨a1, 0xaa⟩, ⟨a2, 0x55⟩]
  | .byteProgram, heard => ∃ a1 a2 a3, flashMagic1 t a1 = true ∧ flashMagic2 t a2 = true ∧ flashMagic1 t a3 = true ∧
      heard = [⟨a1, 0xaa⟩, ⟨a2, 0x55⟩, ⟨a3, 0xa0⟩]
  | .eraseMagic1, heard => ∃ a1 a2 a3, flashMagic1 t a1 = true ∧ flashMagic2 t a2 = true ∧ flashMagic1 t a3 = true ∧
      heard = [⟨a1, 0xaa⟩, ⟨a2, 0x55⟩, ⟨a3, 0x80⟩]
  | .eraseMagic2, heard => ∃ a1 a2 a3 a4, flashMagic1 t a1 = true ∧ flashMagic2 t a2 = true ∧ flashMagic1 t a3 = true ∧
      flashMagic1 t a4 = true ∧ heard = [⟨a1, 0xaa⟩, ⟨a2, 0x55⟩, ⟨a3, 0x80⟩, ⟨a4, 0xaa⟩]
  | .eraseSelect, heard => ∃ a1 a2 a3 a4 a5, flashMagic1 t a1 = true ∧ flashMagic2 t a2 = true ∧
      flashMagic1 t a3 = true ∧ flashMagic1 t a4 = true ∧ flashMagic2 t a5 = true ∧
      heard = [⟨a1, 0xaa⟩, ⟨a2, 0x55⟩, ⟨a3, 0x80⟩, ⟨a4, 0xaa⟩, ⟨a5, 0x55⟩]
  | _, _ => False

/-- The state of each phase, with the sectors of the mask, and whether the alarm is pending. -/
inductive PhaseOf (t : FlashType) : FlashState → Phase → Finset Nat → Bool → Prop
  | command {state : FlashState} {heard : List Store} : Heard t state heard → PhaseOf t state (.command heard) ∅ false
  | erasingChip : PhaseOf t .chipErase .erasingChip ∅ true
  | collecting (sectors : Finset Nat) : PhaseOf t .sectorEraseTimeout (.collecting sectors) sectors true
  | erasing (sectors : Finset Nat) : PhaseOf t .sectorErase (.erasing sectors) sectors true
  | suspended (sectors : Finset Nat) : PhaseOf t .sectorEraseSuspend (.suspended sectors) sectors false

/-- The chip is in a phase. -/
structure Tracks (t : FlashType) (s : Flash) (p : Phase) (sectors : Finset Nat) (pending : Bool) : Prop where
  base : s.flashBaseState = .read ∨ s.flashBaseState = .autoselect
  phase : PhaseOf t s.flashState p sectors pending
  mask : MaskIs t s sectors
  alarm : s.eraseAlarm.isSome = pending

/-- A step that leaves the chip in the phase it should, with the effects it should have. -/
def Follows (t : FlashType) (s : Flash) (next : Phase × List Effect) (o : Option Flash) : Prop :=
  ∃ s' sectors pending, o = some s' ∧ Tracks t s' next.1 sectors pending ∧
    s'.flashData = next.2.foldl (Effect.apply t) s.flashData

/-! ## Stores -/

section
variable {heard heard' : List Store} {state : FlashState} {sectors : Finset Nat} {pending : Bool}

/-- More of a command was heard. -/
theorem heard_follows (h : Tracks t s (.command heard) ∅ false) (hheard : Heard t state heard') :
    Follows t s (.command heard', []) (some { s with flashState := state }) :=
  ⟨_, ∅, false, rfl, ⟨h.base, .command hheard, h.mask.congr rfl, h.alarm⟩, rfl⟩

theorem base_heard (h : s.flashBaseState = .read ∨ s.flashBaseState = .autoselect) : Heard t s.flashBaseState [] := by
  obtain h | h := h <;> rw [h] <;> rfl

/-- What was heard is dropped. -/
theorem dropped_follows (h : Tracks t s (.command heard) ∅ false) :
    Follows t s (.command [], []) (some (toBase s)) := heard_follows h (base_heard h.base)

/-- A store that is to be the next of a command, or else drops what was heard. -/
theorem next_follows {c : Prop} [Decidable c] (h : Tracks t s (.command heard) ∅ false)
    (hheard : c → Heard t state heard') :
    Follows t s (.command (if c then heard' else []), [])
      (if c then some { s with flashState := state } else some (toBase s)) := by
  split_ifs with hc
  · exact heard_follows h (hheard hc)
  · exact dropped_follows h

/-- The array is read, or its codes. -/
theorem listening_follows (h : Tracks t s (.command heard) ∅ false) (hstate : state = .read ∨ state = .autoselect) :
    Follows t s (.command [], []) (some { s with flashState := state, flashBaseState := state }) :=
  ⟨_, ∅, false, rfl, ⟨hstate, .command (by obtain rfl | rfl := hstate <;> rfl), h.mask.congr rfl, h.alarm⟩, rfl⟩

theorem program_follows (h : Tracks t s (.command heard) ∅ false) (haddr : addr < t.size) :
    Follows t s (.command [], [.program addr byte]) (do
      let (done, s) ← flashProgramByte t s addr byte
      if done then some (toBase s) else some { s with flashState := .byteProgramError }) := by
  unfold flashProgramByte
  rw [if_pos haddr]
  dsimp only [bind, Option.bind]
  split_ifs
  · exact ⟨_, ∅, false, rfl, ⟨h.base, .command (base_heard h.base), h.mask.congr rfl, h.alarm⟩, rfl⟩
  · exact ⟨_, ∅, false, rfl, ⟨h.base, .command rfl, h.mask.congr rfl, h.alarm⟩, rfl⟩

/-- The last store of an erase command. -/
theorem select_follows (hshape : Shape t k) (clk : UInt64) (h : Tracks t s (.command heard) ∅ false)
    (hstate : s.flashState = .eraseSelect) (haddr : addr < t.size) (hfit : Fits t s addr byte) :
    Follows t s (if flashMagic1 t addr = true ∧ byte = 0x10 then .erasingChip
        else if byte = 0x30 then .collecting {addr / t.sectorSize} else .command [], [])
      (storeInternal t s clk addr byte) := by
  unfold storeInternal
  rw [hstate]
  dsimp only
  split_ifs with h10 h30
  · exact ⟨_, ∅, true, rfl, ⟨h.base, .erasingChip, h.mask.congr rfl, rfl⟩, rfl⟩
  · obtain ⟨s', hadd, hmask, heq⟩ := add_mask hshape h.mask haddr (hfit (Or.inl hstate) h30)
    rw [hadd]
    refine ⟨_, _, true, rfl, ⟨?_, .collecting _, hmask.congr rfl, rfl⟩, ?_⟩
    · rw [heq]
      exact h.base
    · rw [heq]
      rfl
  · exact dropped_follows h

/-- A store while no command has begun. -/
theorem start_follows (h : Tracks t s (.command []) ∅ false)
    (hstate : s.flashState = .read ∨ s.flashState = .autoselect ∨ s.flashState = .byteProgramError) :
    Follows t s (hear t [] ⟨addr, byte⟩) (storeInternal t s clk addr byte) := by
  have hsame : Follows t s (.command [], []) (some s) := ⟨s, ∅, false, rfl, h, rfl⟩
  have hstart : flashMagic1 t addr = true → byte = 0xaa →
      Follows t s (.command [⟨addr, byte⟩], []) (some { s with flashState := .magic1 }) := fun h1 hbyte =>
    heard_follows h ⟨addr, h1, by rw [hbyte]⟩
  rw [heard_start]
  unfold storeInternal
  by_cases hc : flashMagic1 t addr = true ∧ byte = 0xaa
  · have hf0 : ¬ byte = 0xf0 := by
      rw [hc.2]
      decide
    rw [if_pos hc]
    obtain hstate | hstate | hstate := hstate <;> rw [hstate] <;> dsimp only <;> rw [if_pos hc]
    · exact hstart hc.1 hc.2
    · rw [if_neg hf0]
      exact hstart hc.1 hc.2
    · rw [if_neg hf0]
      exact hstart hc.1 hc.2
  · rw [if_neg hc]
    obtain hstate | hstate | hstate := hstate <;> rw [hstate] <;> dsimp only <;> rw [if_neg hc]
    · exact hsame
    · split_ifs
      · exact listening_follows h (Or.inl rfl)
      · exact hsame
    · split_ifs
      · exact listening_follows h (Or.inl rfl)
      · exact hsame

/-- The byte after the unlock stores. -/
theorem unlocked_follows {a1 a2 : Nat} (h1 : flashMagic1 t a1 = true) (h2 : flashMagic2 t a2 = true)
    (h : Tracks t s (.command [⟨a1, 0xaa⟩, ⟨a2, 0x55⟩]) ∅ false) (hstate : s.flashState = .magic2) :
    Follows t s (hear t [⟨a1, 0xaa⟩, ⟨a2, 0x55⟩] ⟨addr, byte⟩) (storeInternal t s clk addr byte) := by
  rw [heard_unlock h1 h2]
  unfold storeInternal
  rw [hstate]
  dsimp only
  by_cases h3 : flashMagic1 t addr = true
  · rw [if_pos h3]
    by_cases hmore : byte = 0xa0 ∨ byte = 0x80
    · rw [if_pos ⟨h3, hmore⟩]
      obtain rfl | rfl := hmore
      · exact heard_follows h ⟨a1, a2, addr, h1, h2, h3, rfl⟩
      · exact heard_follows h ⟨a1, a2, addr, h1, h2, h3, rfl⟩
    · rw [if_neg (fun hc => hmore hc.2)]
      split
      · exact listening_follows h (Or.inr rfl)
      · exact listening_follows h (Or.inl rfl)
      · exact absurd (Or.inl rfl) hmore
      · exact absurd (Or.inr rfl) hmore
      · exact dropped_follows h
  · rw [if_neg h3, if_neg (fun hc => h3 hc.1)]
    exact dropped_follows h

theorem command_tracked (hshape : Shape t k) (h : Tracks t s (.command heard) ∅ false)
    (hheard : Heard t s.flashState heard) (haddr : addr < t.size) (hfit : Fits t s addr byte) :
    Follows t s (hear t heard ⟨addr, byte⟩) (storeInternal t s clk addr byte) := by
  cases hstate : s.flashState with
  | read =>
    rw [hstate] at hheard
    obtain rfl : heard = [] := hheard
    exact start_follows h (Or.inl hstate)
  | magic1 =>
    rw [hstate] at hheard
    obtain ⟨a1, h1, rfl⟩ := hheard
    rw [heard_first h1]
    unfold storeInternal
    rw [hstate]
    exact next_follows h fun hc => ⟨a1, addr, h1, hc.1, by rw [hc.2]⟩
  | magic2 =>
    rw [hstate] at hheard
    obtain ⟨a1, a2, h1, h2, rfl⟩ := hheard
    exact unlocked_follows h1 h2 h hstate
  | byteProgram =>
    rw [hstate] at hheard
    obtain ⟨a1, a2, a3, h1, h2, h3, rfl⟩ := hheard
    rw [heard_program h1 h2 h3]
    unfold storeInternal
    rw [hstate]
    exact program_follows h haddr
  | eraseMagic1 =>
    rw [hstate] at hheard
    obtain ⟨a1, a2, a3, h1, h2, h3, rfl⟩ := hheard
    rw [heard_erase h1 h2 h3]
    unfold storeInternal
    rw [hstate]
    exact next_follows h fun hc => ⟨a1, a2, a3, addr, h1, h2, h3, hc.1, by rw [hc.2]⟩
  | eraseMagic2 =>
    rw [hstate] at hheard
    obtain ⟨a1, a2, a3, a4, h1, h2, h3, h4, rfl⟩ := hheard
    rw [heard_erase_first h1 h2 h3 h4]
    unfold storeInternal
    rw [hstate]
    exact next_follows h fun hc => ⟨a1, a2, a3, a4, addr, h1, h2, h3, h4, hc.1, by rw [hc.2]⟩
  | eraseSelect =>
    have hselect := select_follows hshape clk h hstate haddr hfit
    rw [hstate] at hheard
    obtain ⟨a1, a2, a3, a4, a5, h1, h2, h3, h4, h5, rfl⟩ := hheard
    rw [heard_select h1 h2 h3 h4 h5]
    exact hselect
  | autoselect =>
    rw [hstate] at hheard
    obtain rfl : heard = [] := hheard
    exact start_follows h (Or.inr (Or.inl hstate))
  | byteProgramError =>
    rw [hstate] at hheard
    obtain rfl : heard = [] := hheard
    exact start_follows h (Or.inr (Or.inr hstate))
  | chipErase | sectorErase | sectorEraseTimeout | sectorEraseSuspend =>
    rw [hstate] at hheard
    exact absurd hheard id

/-- A store to the chip in any phase. -/
theorem store_tracked (hshape : Shape t k) (clk : UInt64) (h : Tracks t s p sectors pending) (haddr : addr < t.size)
    (hfit : Fits t s addr byte) :
    Follows t s (p.next t (.store ⟨addr, byte⟩)) (storeInternal t s clk addr byte) := by
  obtain ⟨hbase, hphase, hmask, halarm⟩ := h
  generalize hstate : s.flashState = state at hphase
  cases hphase with
  | command hheard =>
    exact command_tracked hshape ⟨hbase, hstate ▸ .command hheard, hmask, halarm⟩ (hstate ▸ hheard) haddr hfit
  | erasingChip =>
    unfold storeInternal
    rw [hstate]
    exact ⟨s, ∅, true, rfl, ⟨hbase, hstate ▸ .erasingChip, hmask, halarm⟩, rfl⟩
  | collecting =>
    unfold storeInternal Phase.next
    rw [hstate]
    dsimp only
    split_ifs with h30
    · obtain ⟨s', hadd, hmask', heq⟩ := add_mask hshape hmask haddr (hfit (Or.inr hstate) h30)
      refine ⟨s', _, true, hadd, ⟨?_, ?_, hmask', ?_⟩, ?_⟩
      · rw [heq]
        exact hbase
      · rw [heq]
        dsimp only
        rw [hstate]
        exact .collecting _
      · rw [heq]
        exact halarm
      · rw [heq]
        rfl
    · exact ⟨_, ∅, false, rfl, ⟨hbase, .command (base_heard hbase), (cleared_mask t _).congr rfl, rfl⟩, rfl⟩
  | erasing =>
    unfold storeInternal Phase.next
    rw [hstate]
    dsimp only
    split_ifs
    · exact ⟨_, _, false, rfl, ⟨hbase, .suspended _, hmask.congr rfl, rfl⟩, rfl⟩
    · exact ⟨s, _, true, rfl, ⟨hbase, hstate ▸ .erasing _, hmask, halarm⟩, rfl⟩
  | suspended =>
    unfold storeInternal Phase.next
    rw [hstate]
    dsimp only
    split_ifs
    · exact ⟨_, _, true, rfl, ⟨hbase, .erasing _, hmask.congr rfl, rfl⟩, rfl⟩
    · exact ⟨s, _, false, rfl, ⟨hbase, hstate ▸ .suspended _, hmask, halarm⟩, rfl⟩

/-! ## Alarms -/

/-- The alarm while sectors are erased, in two parts. -/
theorem sectorErase_alarm (hstate : s.flashState = .sectorErase)
    (hfirst : eraseFirst t { s with eraseAlarm := none } = some s') :
    eraseAlarmHandler t s clk =
      if maskLeft s' ≠ 0 then some { s' with eraseAlarm := some (clk + t.eraseSectorCycles) }
      else some (toBase s') := by
  unfold eraseAlarmHandler
  dsimp only
  rw [hstate]
  dsimp only
  rw [hstate] at hfirst
  rw [hfirst]
  rfl

/-- The next sector is erased. -/
theorem erasing_follows (hshape : Shape t k) (h : Tracks t s (.erasing sectors) sectors true)
    (hstate : s.flashState = .sectorErase) : Follows t s (eraseNext sectors) (eraseAlarmHandler t s clk) := by
  have hmask : MaskIs t { s with eraseAlarm := none } sectors := h.mask.congr rfl
  unfold eraseNext
  by_cases hne : sectors.Nonempty
  · obtain ⟨s', hfirst, hrest, heq⟩ := eraseFirst_eq hshape hmask hne
    rw [dif_pos hne, sectorErase_alarm hstate hfirst]
    dsimp only
    have hleft := maskLeft_empty hrest
    have hbase : s'.flashBaseState = .read ∨ s'.flashBaseState = .autoselect := by
      rw [heq]
      exact h.base
    have hdata : s'.flashData = (Effect.eraseSector (sectors.min' hne)).apply t s.flashData := by rw [heq]
    by_cases hempty : sectors.erase (sectors.min' hne) = ∅
    · rw [if_pos hempty, if_neg (fun hne => hne (hleft.mpr hempty))]
      rw [hempty] at hrest
      refine ⟨_, ∅, false, rfl, ⟨hbase, .command (base_heard hbase), hrest.congr rfl, ?_⟩, hdata⟩
      rw [heq]
      rfl
    · rw [if_neg hempty, if_pos (fun hzero => hempty (hleft.mp hzero))]
      refine ⟨_, _, true, rfl, ⟨hbase, ?_, hrest.congr rfl, rfl⟩, hdata⟩
      rw [heq]
      dsimp only
      rw [hstate]
      exact .erasing _
  · obtain rfl : sectors = ∅ := Finset.not_nonempty_iff_eq_empty.mp hne
    rw [dif_neg hne, sectorErase_alarm hstate (eraseFirst_empty hmask),
      if_neg (fun hne => hne ((maskLeft_empty hmask).mpr rfl))]
    exact ⟨_, ∅, false, rfl, ⟨h.base, .command (base_heard h.base), hmask.congr rfl, rfl⟩, rfl⟩

/-- All is erased. -/
theorem chip_follows (h : Tracks t s .erasingChip ∅ true) (hstate : s.flashState = .chipErase) :
    Follows t s (.command [], [.eraseChip]) (eraseAlarmHandler t s clk) := by
  unfold eraseAlarmHandler
  dsimp only
  rw [hstate]
  dsimp only
  unfold flashEraseChip setFF
  rw [if_pos (Nat.le_of_eq (Nat.zero_add _))]
  refine ⟨_, ∅, false, rfl, ⟨h.base, .command (base_heard h.base), h.mask.congr rfl, rfl⟩, ?_⟩
  funext i
  dsimp only [toBase]
  rw [Nat.zero_add]
  simp only [Nat.zero_le, true_and]
  rfl

theorem alarm_tracked (hshape : Shape t k) (clk : UInt64) (h : Tracks t s p sectors pending) :
    Follows t s (p.next t .alarm) (step t s (.alarm clk)) := by
  obtain ⟨hbase, hphase, hmask, halarm⟩ := h
  unfold step
  rw [halarm]
  generalize hstate : s.flashState = state at hphase
  cases hphase with
  | command hheard => exact ⟨s, ∅, false, rfl, ⟨hbase, hstate ▸ .command hheard, hmask, halarm⟩, rfl⟩
  | erasingChip => exact chip_follows ⟨hbase, hstate ▸ .erasingChip, hmask, halarm⟩ hstate
  | collecting =>
    dsimp only
    unfold eraseAlarmHandler
    dsimp only
    rw [if_pos rfl, hstate]
    exact ⟨_, _, true, rfl, ⟨hbase, .erasing _, hmask.congr rfl, rfl⟩, rfl⟩
  | erasing => exact erasing_follows hshape ⟨hbase, hstate ▸ .erasing _, hmask, halarm⟩ hstate
  | suspended => exact ⟨s, _, false, rfl, ⟨hbase, hstate ▸ .suspended _, hmask, halarm⟩, rfl⟩

/-! ## Reads -/

theorem fetch_eq (h : addr < t.size) : fetch t s addr = some (s.flashData addr) := if_pos h

theorem swapLines_lt (hshape : Shape t k) (h : addr < t.size) : swapLines addr < t.size := by
  have hlarge := hshape.large
  unfold swapLines
  split_ifs
  · have hlt : addr &&& 3 < 4 := Nat.lt_succ_of_le Nat.and_le_right
    have hall : ∀ i < 4, [0, 2, 1, 3].getD i 0 < 4 := by decide
    exact Nat.lt_of_lt_of_le (hall _ hlt) hlarge
  · exact h

/-- A read changes at most the toggle bits. -/
theorem read_tracked (hshape : Shape t k) (clk : UInt64) (h : Tracks t s p sectors pending) (haddr : addr < t.size) :
    Follows t s (p, []) (step t s (.read clk addr)) := by
  have hkeep : ∀ value program : UInt8,
      Tracks t { s with programByte := program, lastRead := value } p sectors pending := fun _ _ => ⟨h.base, h.phase, h.mask.congr rfl, h.alarm⟩
  have hplain : ∀ value : UInt8, Follows t s (p, []) (some { s with lastRead := value }) :=
    fun value => ⟨_, _, _, rfl, hkeep value s.programByte, rfl⟩
  have hswap : (if t.swapped then swapLines addr else addr) < t.size := by
    split_ifs
    · exact swapLines_lt hshape haddr
    · exact haddr
  unfold step FlashCore.read
  cases hstate : s.flashState with
  | autoselect =>
    dsimp only
    generalize (if t.swapped = true then swapLines addr else addr) = line at hswap
    split_ifs
    · exact hplain _
    · exact hplain _
    · exact hplain _
    · rw [fetch_eq hswap]
      exact hplain _
  | byteProgramError => exact hplain _
  | sectorEraseSuspend | chipErase | sectorErase | sectorEraseTimeout =>
    exact ⟨_, _, _, rfl, hkeep _ _, rfl⟩
  | _ =>
    dsimp only
    rw [fetch_eq haddr]
    exact hplain _

/-! ## Runs -/

/-- What an access does, with what is still to come. -/
theorem access_tracked (hshape : Shape t k) (e : Access) (h : Tracks t s p sectors pending) (hrange : e.inRange t)
    (hfits : e.fits t s) :
    ∃ s' p' sectors' pending', step t s e = some s' ∧ Tracks t s' p' sectors' pending' ∧
      ∀ rest, (commanded t p (busOf s e ++ rest)).foldl (Effect.apply t) s.flashData =
        (commanded t p' rest).foldl (Effect.apply t) s'.flashData := by
  cases e with
  | alarm clk =>
    obtain ⟨s', sectors', pending', hstep, htracks, hdata⟩ := alarm_tracked hshape clk h
    refine ⟨s', _, sectors', pending', hstep, htracks, fun rest => ?_⟩
    rw [hdata, ← List.foldl_append]
    rfl
  | read clk addr =>
    obtain ⟨s', sectors', pending', hstep, htracks, hdata⟩ := read_tracked hshape clk h hrange
    exact ⟨s', p, sectors', pending', hstep, htracks, fun rest => by rw [hdata]; rfl⟩
  | store clk rmw addr byte =>
    obtain ⟨hfirst, hsecond⟩ := hfits
    cases rmw with
    | false =>
      obtain ⟨s', sectors', pending', hstep, htracks, hdata⟩ := store_tracked hshape clk h hrange hsecond
      refine ⟨s', _, sectors', pending', hstep, htracks, fun rest => ?_⟩
      rw [hdata, ← List.foldl_append]
      rfl
    | true =>
      obtain ⟨s1, sectors1, pending1, hstep1, htracks1, hdata1⟩ :=
        store_tracked hshape (clk - 1) h hrange (hfirst rfl)
      rw [if_pos rfl, hstep1] at hsecond
      obtain ⟨s', sectors', pending', hstep, htracks, hdata⟩ :=
        store_tracked hshape clk htracks1 hrange hsecond
      refine ⟨s', _, sectors', pending', ?_, htracks, fun rest => ?_⟩
      · change (storeInternal t s (clk - 1) addr s.lastRead).bind _ = _
        rw [hstep1]
        exact hstep
      · rw [hdata, hdata1, ← List.foldl_append, ← List.foldl_append]
        rfl

theorem run_tracked (hshape : Shape t k) (es : List Access) (h : Tracks t s p sectors pending)
    (hrange : ∀ e ∈ es, e.inRange t) (hfits : FitsAll t s es) :
    ∃ s' p' sectors' pending', run t s es = some s' ∧ Tracks t s' p' sectors' pending' ∧
      s'.flashData = (commanded t p (bus t s es)).foldl (Effect.apply t) s.flashData := by
  induction es generalizing s p sectors pending with
  | nil => exact ⟨s, p, sectors, pending, rfl, h, rfl⟩
  | cons e es ih =>
    obtain ⟨hfit, hrest⟩ := hfits
    obtain ⟨s1, p1, sectors1, pending1, hstep, htracks, hdata⟩ :=
      access_tracked hshape e h (hrange e List.mem_cons_self) hfit
    rw [hstep] at hrest
    obtain ⟨s', p', sectors', pending', hrun, htracks', hdata'⟩ :=
      ih htracks (fun e' he' => hrange e' (List.mem_cons_of_mem e he')) hrest
    refine ⟨s', p', sectors', pending', ?_, htracks', ?_⟩
    · unfold run
      rw [List.foldlM_cons, hstep]
      exact hrun
    · rw [hdata', bus, hstep, hdata]
      rfl

theorem reset_tracked (t : FlashType) (s : Flash) : Tracks t (reset s) (.command []) ∅ false :=
  ⟨Or.inl rfl, .command rfl, (cleared_mask t _).congr rfl, rfl⟩

/-- The states in which something waits for the alarm. -/
def FlashState.waits (state : FlashState) : Prop :=
  state = .sectorEraseTimeout ∨ state = .sectorErase ∨ state = .chipErase

theorem pending_iff (h : Tracks t s p sectors pending) :
    s.eraseAlarm.isSome = true ↔ FlashState.waits s.flashState := by
  obtain ⟨-, hphase, -, halarm⟩ := h
  rw [halarm]
  unfold FlashState.waits
  generalize s.flashState = state at hphase
  cases hphase with
  | command hheard => cases state <;> first | exact absurd hheard id | simp
  | _ => simp

end

end

/-- From reset on the chip accesses nothing outside of its array and its mask, the array is what the
commands make it, and the alarm is pending while something is to be erased. -/
theorem flash_commanded (t : FlashType) (ht : IsType t) (s : Flash) (es : List Access)
    (hrange : ∀ e ∈ es, e.inRange t) (hfits : FitsAll t (reset s) es) :
    ∃ s', run t (reset s) es = some s' ∧
      s'.flashData = (commanded t (.command []) (bus t (reset s) es)).foldl (Effect.apply t) s.flashData ∧
      (s'.eraseAlarm.isSome = true ↔ FlashState.waits s'.flashState) := by
  obtain ⟨k, hshape⟩ := shape_of ht
  obtain ⟨s', p', sectors', pending', hrun, htracks, hdata⟩ :=
    run_tracked hshape es (reset_tracked t s) hrange hfits
  exact ⟨s', hrun, hdata, pending_iff htracks⟩

/-! ## Runs on a chip -/

instance decidableElim {α : Type} (o : Option α) (P : α → Prop) [DecidablePred P] : Decidable (o.elim True P) :=
  match o with
  | none => .isTrue trivial
  | some a => inferInstanceAs (Decidable (P a))

instance (t : FlashType) (s : Flash) (addr : Nat) (byte : UInt8) : Decidable (Fits t s addr byte) :=
  inferInstanceAs (Decidable ((s.flashState = .eraseSelect ∨ s.flashState = .sectorEraseTimeout) → byte = 0x30 → _))

instance (t : FlashType) (s : Flash) (e : Access) : Decidable (e.fits t s) :=
  match e with
  | .store _ _ _ _ => inferInstanceAs (Decidable (_ ∧ _))
  | .read _ _ => .isTrue trivial
  | .alarm _ => .isTrue trivial

def decideFits (t : FlashType) : (s : Flash) → (es : List Access) → Decidable (FitsAll t s es)
  | _, [] => .isTrue trivial
  | _, _ :: es =>
    have : DecidablePred fun s' => FitsAll t s' es := fun s' => decideFits t s' es
    inferInstanceAs (Decidable (_ ∧ _))

instance (t : FlashType) (s : Flash) (es : List Access) : Decidable (FitsAll t s es) := decideFits t s es

instance (t : FlashType) (e : Access) : Decidable (e.inRange t) :=
  match e with
  | .store _ _ addr _ => inferInstanceAs (Decidable (addr < t.size))
  | .read _ addr => inferInstanceAs (Decidable (addr < t.size))
  | .alarm _ => .isTrue trivial

/-- A chip in which all bits are set. -/
def blank : Flash := ⟨fun _ => 0xff, .read, .read, 0, fun _ => 0, 0, none⟩

/-- The stores of a command that begins with the unlock stores. -/
def unlocked (byte : UInt8) : List Access :=
  [.store 0 false 0x555 0xaa, .store 0 false 0x2aa 0x55, .store 0 false 0x555 byte]

/-- Two sectors are erased after a byte in the first of them was programmed. -/
def programAndErase : List Access :=
  unlocked 0xa0 ++ [.store 0 false 0x12345 0x5a, .read 0 0x12345] ++ unlocked 0x80 ++ (unlocked 0x30).take 2 ++
    [.store 0 false 0x12345 0x30, .store 0 false 0x70000 0x30, .alarm 0, .read 0 0, .alarm 0, .alarm 0]

theorem flash_commanded_b : ∃ s', run (flash040Types .b) (reset blank) programAndErase = some s' ∧
    s'.flashData =
      (commanded (flash040Types .b) (.command []) (bus (flash040Types .b) (reset blank) programAndErase)).foldl
        (Effect.apply (flash040Types .b)) blank.flashData ∧
    (s'.eraseAlarm.isSome = true ↔ FlashState.waits s'.flashState) :=
  flash_commanded _ (.flash040 .b) blank programAndErase (by decide +kernel) (by decide +kernel)

/-- A sector of the upper half of the S29GL064N. -/
def eraseUpper : List Access :=
  [.store 0 false 0xaaa 0xaa, .store 0 false 0x555 0x55, .store 0 false 0xaaa 0x80,
    .store 0 false 0xaaa 0xaa, .store 0 false 0x555 0x55, .store 0 false 0x400000 0x30]

/-- Its bit would be in the ninth byte of the mask. -/
theorem upper_sector_past_mask : ¬ ∀ (t : FlashType), IsType t → ∀ (s : Flash) (es : List Access),
    (∀ e ∈ es, e.inRange t) → (run t (reset s) es).isSome = true := fun h =>
  absurd (h _ (.flash040 .type064) blank eraseUpper (by decide +kernel)) (by decide +kernel)

end Vice.L4.FlashCommanded
