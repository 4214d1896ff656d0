import Vice.L4Machine.FlashCore
import Mathlib.Data.Finset.Max
import Mathlib.Tactic.SplitIfs

/-!
# The commands of a flash chip

A table of commands, each a sequence of stores, and what they do to the array. A store that goes on with
no command of the table drops what was heard before it, and itself. A list of sectors can be added to
till the timeout, or dropped by any other store; then its sectors are erased one after the other.

Results:
* `commanded`: the effects of a run on the array.
* `heard_start` and so on: what a store does after the beginning of a command.
-/
namespace Vice.L4.FlashCommand
open Vice.L4.FlashCore

/-- A store as the chip sees it, or its alarm. -/
structure Store where
  addr : Nat
  byte : UInt8

inductive Bus
  | store (st : Store)
  | alarm

/-! ## The table -/

/-- What a store of a command has to be; `free` is the byte that is programmed. -/
inductive Slot
  | first (byte : UInt8)
  | second (byte : UInt8)
  | anywhere (byte : UInt8)
  | free

inductive Command
  | program
  | autoselect
  | array
  | eraseChip
  | eraseSectors
  deriving DecidableEq

def Command.slots : Command → List Slot
  | .program => [.first 0xaa, .second 0x55, .first 0xa0, .free]
  | .autoselect => [.first 0xaa, .second 0x55, .first 0x90]
  | .array => [.first 0xaa, .second 0x55, .first 0xf0]
  | .eraseChip => [.first 0xaa, .second 0x55, .first 0x80, .first 0xaa, .second 0x55, .first 0x10]
  | .eraseSectors => [.first 0xaa, .second 0x55, .first 0x80, .first 0xaa, .second 0x55, .anywhere 0x30]

def commands : List Command := [.program, .autoselect, .array, .eraseChip, .eraseSectors]

section
variable (t : FlashType)

def Slot.accepts (st : Store) : Slot → Bool
  | .first byte => flashMagic1 t st.addr && st.byte == byte
  | .second byte => flashMagic2 t st.addr && st.byte == byte
  | .anywhere byte => st.byte == byte
  | .free => true

/-- Whether the stores are the beginning of a command. -/
def begins : List Slot → List Store → Bool
  | _, [] => true
  | [], _ :: _ => false
  | slot :: slots, st :: stores => slot.accepts t st && begins slots stores

/-- Whether the stores are all of it. -/
def completes (slots : List Slot) (stores : List Store) : Bool :=
  begins t slots stores && stores.length == slots.length

/-! ## Phases -/

/-- A change of the array. -/
inductive Effect
  | program (addr : Nat) (byte : UInt8)
  | eraseSector (sector : Nat)
  | eraseChip

def Effect.apply (data : Nat → UInt8) : Effect → Nat → UInt8
  | .program addr byte => fun i => if i = addr then data addr &&& byte else data i
  | .eraseSector sector => fun i => if i / t.sectorSize = sector then 0xff else data i
  | .eraseChip => fun i => if i < t.size then 0xff else data i

/-- What the chip is doing: some stores of a command were heard, or something is erased, or will be. -/
inductive Phase
  | command (heard : List Store)
  | erasingChip
  | collecting (sectors : Finset Nat)
  | erasing (sectors : Finset Nat)
  | suspended (sectors : Finset Nat)

/-- What a command does with its last store. -/
def Command.exec (st : Store) : Command → Phase × List Effect
  | .program => (.command [], [.program st.addr st.byte])
  | .autoselect | .array => (.command [], [])
  | .eraseChip => (.erasingChip, [])
  | .eraseSectors => (.collecting {st.addr / t.sectorSize}, [])

/-- A store is added to what was heard. -/
def hear (heard : List Store) (st : Store) : Phase × List Effect :=
  match commands.find? fun c => completes t c.slots (heard ++ [st]) with
  | some c => c.exec t st
  | none =>
    if commands.any fun c => begins t c.slots (heard ++ [st]) then (.command (heard ++ [st]), [])
    else (.command [], [])

/-- The first of the sectors is erased, once. -/
def eraseNext (sectors : Finset Nat) : Phase × List Effect :=
  if h : sectors.Nonempty then
    let rest := sectors.erase (sectors.min' h)
    (if rest = ∅ then .command [] else .erasing rest, [.eraseSector (sectors.min' h)])
  else (.command [], [])

def Phase.next : Phase → Bus → Phase × List Effect
  | .command heard, .store st => hear t heard st
  | .collecting sectors, .store st =>
    (if st.byte = 0x30 then .collecting (insert (st.addr / t.sectorSize) sectors) else .command [], [])
  | .erasing sectors, .store st => (if st.byte = 0xb0 then .suspended sectors else .erasing sectors, [])
  | .suspended sectors, .store st => (if st.byte = 0x30 then .erasing sectors else .suspended sectors, [])
  | .collecting sectors, .alarm => (.erasing sectors, [])
  | .erasing sectors, .alarm => eraseNext sectors
  | .erasingChip, .alarm => (.command [], [.eraseChip])
  | p, _ => (p, [])

/-- The effects of a run. -/
def commanded : Phase → List Bus → List Effect
  | _, [] => []
  | p, e :: es => (p.next t e).2 ++ commanded (p.next t e).1 es

/-! ## Commands store by store -/

section
variable {t} {a1 a2 a3 a4 a5 a : Nat} {b : UInt8}

theorem heard_start :
    hear t [] ⟨a, b⟩ = (.command (if flashMagic1 t a = true ∧ b = 0xaa then [⟨a, b⟩] else []), []) := by
  by_cases h : flashMagic1 t a = true ∧ b = 0xaa
  · simp [hear, commands, completes, begins, Command.slots, Slot.accepts, h]
  · rw [if_neg h]
    simp [hear, commands, completes, begins, Command.slots, Slot.accepts, h]

theorem heard_first (h1 : flashMagic1 t a1 = true) : hear t [⟨a1, 0xaa⟩] ⟨a, b⟩ =
      (.command (if flashMagic2 t a = true ∧ b = 0x55 then [⟨a1, 0xaa⟩, ⟨a, b⟩] else []), []) := by
  by_cases h : flashMagic2 t a = true ∧ b = 0x55
  · simp [hear, commands, completes, begins, Command.slots, Slot.accepts, h1, h]
  · rw [if_neg h]
    simp [hear, commands, completes, begins, Command.slots, Slot.accepts, h1, h]

theorem heard_unlock (h1 : flashMagic1 t a1 = true) (h2 : flashMagic2 t a2 = true) :
    hear t [⟨a1, 0xaa⟩, ⟨a2, 0x55⟩] ⟨a, b⟩ =
      (.command (if flashMagic1 t a = true ∧ (b = 0xa0 ∨ b = 0x80) then [⟨a1, 0xaa⟩, ⟨a2, 0x55⟩, ⟨a, b⟩] else []),
        []) := by
  by_cases h : flashMagic1 t a = true
  · by_cases ha0 : b = 0xa0
    · simp [hear, commands, completes, begins, Command.slots, Slot.accepts, h1, h2, h, ha0]
    · by_cases h80 : b = 0x80
      · simp [hear, commands, completes, begins, Command.slots, Slot.accepts, h1, h2, h, h80]
      · by_cases h90 : b = 0x90
        · simp [hear, commands, completes, begins, Command.slots, Slot.accepts, Command.exec, h1, h2, h, h90]
        · by_cases hf0 : b = 0xf0
          · simp [hear, commands, completes, begins, Command.slots, Slot.accepts, Command.exec, h1, h2, h, hf0]
          · simp [hear, commands, completes, begins, Command.slots, Slot.accepts, h1, h2, h, ha0, h80, h90, hf0]
  · simp [hear, commands, completes, begins, Command.slots, Slot.accepts, h1, h2, h]

theorem heard_program (h1 : flashMagic1 t a1 = true) (h2 : flashMagic2 t a2 = true) (h3 : flashMagic1 t a3 = true) :
    hear t [⟨a1, 0xaa⟩, ⟨a2, 0x55⟩, ⟨a3, 0xa0⟩] ⟨a, b⟩ = (.command [], [.program a b]) := by
  simp [hear, commands, completes, begins, Command.slots, Slot.accepts, Command.exec, h1, h2, h3]

theorem heard_erase (h1 : flashMagic1 t a1 = true) (h2 : flashMagic2 t a2 = true) (h3 : flashMagic1 t a3 = true) :
    hear t [⟨a1, 0xaa⟩, ⟨a2, 0x55⟩, ⟨a3, 0x80⟩] ⟨a, b⟩ =
      (.command (if flashMagic1 t a = true ∧ b = 0xaa then [⟨a1, 0xaa⟩, ⟨a2, 0x55⟩, ⟨a3, 0x80⟩, ⟨a, b⟩] else []),
        []) := by
  by_cases h : flashMagic1 t a = true ∧ b = 0xaa
  · simp [hear, commands, completes, begins, Command.slots, Slot.accepts, h1, h2, h3, h]
  · rw [if_neg h]
    simp [hear, commands, completes, begins, Command.slots, Slot.accepts, h1, h2, h3, h]

theorem heard_erase_first (h1 : flashMagic1 t a1 = true) (h2 : flashMagic2 t a2 = true) (h3 : flashMagic1 t a3 = true)
    (h4 : flashMagic1 t a4 = true) :
    hear t [⟨a1, 0xaa⟩, ⟨a2, 0x55⟩, ⟨a3, 0x80⟩, ⟨a4, 0xaa⟩] ⟨a, b⟩ =
      (.command (if flashMagic2 t a = true ∧ b = 0x55 then
        [⟨a1, 0xaa⟩, ⟨a2, 0x55⟩, ⟨a3, 0x80⟩, ⟨a4, 0xaa⟩, ⟨a, b⟩] else []), []) := by
  by_cases h : flashMagic2 t a = true ∧ b = 0x55
  · simp [hear, commands, completes, begins, Command.slots, Slot.accepts, h1, h2, h3, h4, h]
  · rw [if_neg h]
    simp [hear, commands, completes, begins, Command.slots, Slot.accepts, h1, h2, h3, h4, h]

theorem heard_select (h1 : flashMagic1 t a1 = true) (h2 : flashMagic2 t a2 = true) (h3 : flashMagic1 t a3 = true)
    (h4 : flashMagic1 t a4 = true) (h5 : flashMagic2 t a5 = true) :
    hear t [⟨a1, 0xaa⟩, ⟨a2, 0x55⟩, ⟨a3, 0x80⟩, ⟨a4, 0xaa⟩, ⟨a5, 0x55⟩] ⟨a, b⟩ =
      (if flashMagic1 t a = true ∧ b = 0x10 then .erasingChip
        else if b = 0x30 then .collecting {a / t.sectorSize} else .command [], []) := by
  by_cases h : flashMagic1 t a = true ∧ b = 0x10
  · rw [if_pos h]
    simp [hear, commands, completes, begins, Command.slots, Slot.accepts, Command.exec, h1, h2, h3, h4, h5, h]
  · rw [if_neg h]
    by_cases h30 : b = 0x30
    · simp [hear, commands, completes, begins, Command.slots, Slot.accepts, Command.exec, h1, h2, h3, h4, h5, h30]
    · simp [hear, commands, completes, begins, Command.slots, Slot.accepts, h1, h2, h3, h4, h5, h, h30]

end

end

end Vice.L4.FlashCommand
