import Vice.L4Machine.M93c86
import Mathlib.Data.Nat.Bitwise
import Mathlib.Tactic.SplitIfs

/-!
# Commands of the EEPROM as frames

A command is framed by the chip select, raised with the clock low and dropped at the end. In between the
bits are put in with a pulse of the clock each: any number of zeros, a one, two bits of the opcode, ten
of the address or more of the opcode, and sixteen of the word that is stored. `Memory` is what the
commands should do.

Results:
* `Open`: what has come in, and `feed`, which brings in more of it.
* `head_received`: the first thirteen bits, up to the last.
-/
namespace Vice.L4.M93c86Frames
open Vice.L4.M93c86

/-! ## Accesses -/

/-- What the computer does; `out` is a read of a bit, `poll` a read whose bit is not looked at, and
`snap` a snapshot that is written and read back. -/
inductive Op
  | select (value : Bool)
  | data (value : Bool)
  | clock (value : Bool)
  | out
  | poll
  | snap
  deriving DecidableEq

def step (s : Eeprom) : Op → Eeprom
  | .select value => writeSelect s value
  | .data value => writeData s value
  | .clock value => writeClock s value
  | .out => (readData s).2
  | .poll => (readData s).2
  | .snap => snapshotReadModule (snapshotWriteModule s)

def steps (s : Eeprom) (ops : List Op) : Eeprom := ops.foldl step s

/-- The bits that are read. -/
def outs (s : Eeprom) : List Op → List Bool
  | [] => []
  | .out :: ops => (readData s).1 :: outs (step s .out) ops
  | op :: ops => outs (step s op) ops

/-! ## The memory -/

/-- The words, and whether they can be changed. -/
structure Memory where
  words : Fin 1024 → UInt16
  enabled : Bool

/-- The commands. `low` are bits that are not used, as are the bits put in during a read. -/
inductive Command
  | read (addr : Fin 1024) (n : Nat) (ignored : Nat → Bool)
  | write (addr : Fin 1024) (word : UInt16)
  | erase (addr : Fin 1024)
  | wral (low : Nat) (word : UInt16)
  | eral (low : Nat)
  | wen (low : Nat)
  | wds (low : Nat)

/-- While writing is disabled nothing is stored. -/
def Memory.store (m : Memory) (words : Fin 1024 → UInt16) : Memory :=
  if m.enabled then { m with words := words } else m

def Memory.exec (m : Memory) : Command → Memory
  | .read _ _ _ => m
  | .write addr word => m.store (Function.update m.words addr word)
  | .erase addr => m.store (Function.update m.words addr 0xffff)
  | .wral _ word => m.store fun _ => word
  | .eral _ => m.store fun _ => 0xffff
  | .wen _ => { m with enabled := true }
  | .wds _ => { m with enabled := false }

theorem words_neZero : NeZero 1024 := ⟨by decide⟩

attribute [scoped instance] words_neZero

/-- The bits of a read: those of each word, the most significant one first, and the next word. -/
def Memory.answer (m : Memory) : Command → List Bool
  | .read addr n _ => (List.range (16 * n)).map fun t =>
      (m.words (Fin.ofNat 1024 (addr.val + t / 16))).toNat.testBit (15 - t % 16)
  | _ => []

/-! ## Frames -/

/-- The lower `w` bits of a number, the most significant one first. -/
def bitsOf : Nat → Nat → List Bool
  | 0, _ => []
  | w + 1, v => v.testBit w :: bitsOf w v

/-- A bit is put in. -/
def pulse (b : Bool) : List Op := [.data b, .clock true, .clock false]

def pulses (bits : List Bool) : List Op := bits.flatMap pulse

/-- A bit is put in and one is read. -/
def readPulse (b : Bool) : List Op := [.data b, .clock true, .out, .clock false]

/-- The thirteen bits of a command, but the last eight bits as a number. -/
def head (o1 o0 f1 f0 : Bool) (low : Nat) : List Bool := true :: o1 :: o0 :: f1 :: f0 :: bitsOf 8 low

def Command.bits : Command → List Bool
  | .read addr _ _ => head true false (addr.val.testBit 9) (addr.val.testBit 8) addr
  | .write addr word => head false true (addr.val.testBit 9) (addr.val.testBit 8) addr ++ bitsOf 16 word.toNat
  | .erase addr => head true true (addr.val.testBit 9) (addr.val.testBit 8) addr
  | .wral low word => head false false false true low ++ bitsOf 16 word.toNat
  | .eral low => head false false true false low
  | .wen low => head false false true true low
  | .wds low => head false false false false low

/-- What comes after the bits of a read. -/
def Command.reads : Command → List Op
  | .read _ n ignored => (List.range (16 * n)).flatMap fun t => readPulse (ignored t)
  | _ => []

/-- A command after some zeros, and then the chip may be asked so many times whether it is busy. -/
structure Frame where
  zeros : Nat
  command : Command
  polls : Option Nat

/-- The chip is selected again, and asked. -/
def pollOps : Option Nat → List Op
  | none => []
  | some n => .select true :: (List.replicate n .poll ++ [.select false])

def Frame.ops (f : Frame) : List Op :=
  [.select true] ++ (pulses (List.replicate f.zeros false) ++
    ((pulses f.command.bits ++ f.command.reads) ++ ([.select false] ++ pollOps f.polls)))

/-! ## Lists -/

section
variable {s : Eeprom} {m : Memory} {reg count : Nat} {k : Cmd} {b : Bool}

theorem steps_append (s : Eeprom) (a b : List Op) : steps s (a ++ b) = steps (steps s a) b :=
  List.foldl_append

theorem outs_append (s : Eeprom) (a b : List Op) : outs s (a ++ b) = outs s a ++ outs (steps s a) b := by
  induction a generalizing s with
  | nil => rfl
  | cons op a ih =>
    cases op with
    | out => exact congrArg _ (ih _)
    | _ => exact ih _

theorem steps_pulses_cons (s : Eeprom) (b : Bool) (bits : List Bool) :
    steps s (pulses (b :: bits)) = steps (steps s (pulse b)) (pulses bits) := by
  rw [pulses, List.flatMap_cons, steps_append]
  rfl

theorem steps_pulses_append (s : Eeprom) (a b : List Bool) :
    steps s (pulses (a ++ b)) = steps (steps s (pulses a)) (pulses b) := by
  rw [pulses, List.flatMap_append, steps_append]
  rfl

theorem outs_pulses (s : Eeprom) (bits : List Bool) : outs s (pulses bits) = [] := by
  induction bits generalizing s with
  | nil => rfl
  | cons b bits ih => exact ih _

theorem bitsOf_length (w v : Nat) : (bitsOf w v).length = w := by
  induction w with
  | zero => rfl
  | succ w ih => exact congrArg (· + 1) ih

/-- The last bit apart. -/
theorem bitsOf_last (w v : Nat) : bitsOf (w + 1) v = bitsOf w (v / 2) ++ [v.testBit 0] := by
  induction w with
  | zero => rfl
  | succ w ih =>
    rw [bitsOf, ih, bitsOf, List.cons_append, Nat.testBit_succ]

/-- What a register holds after more bits. -/
def shifted (reg : Nat) (bits : List Bool) : Nat := bits.foldl (fun x b => x * 2 + b.toNat) reg

theorem shifted_bitsOf (reg w v : Nat) : shifted reg (bitsOf w v) = reg * 2 ^ w + v % 2 ^ w := by
  induction w generalizing reg with
  | zero => simp [shifted, bitsOf, Nat.mod_one]
  | succ w ih =>
    have hstep : shifted reg (bitsOf (w + 1) v) = shifted (reg * 2 + (v.testBit w).toNat) (bitsOf w v) := rfl
    rw [hstep, ih, Nat.mod_pow_succ, Nat.toNat_testBit, Nat.add_mul, Nat.pow_succ, Nat.mul_assoc,
      Nat.mul_comm 2, Nat.mul_comm (2 ^ w) (v / 2 ^ w % 2)]
    omega

/-! ## What has come in -/

/-- The bytes are those of the words. -/
def Holds (data : Nat → UInt8) (words : Fin 1024 → UInt16) : Prop :=
  ∀ a : Fin 1024, (data (a.val <<< 1)).toNat = (words a).toNat / 256 ∧
    (data ((a.val <<< 1) + 1)).toNat = (words a).toNat % 256

/-- The chip is selected, and some bits of a command have come in. -/
structure Open (s : Eeprom) (reg count : Nat) (k : Cmd) (m : Memory) : Prop where
  cs : s.cs = true
  clock : s.clock = false
  reg : s.inputShiftreg = reg
  count : s.inputCount = count
  command : s.command = k
  enabled : s.writeEnableStatus = m.enabled
  holds : Holds s.data m.words

/-- The register holds no more bits than came in. -/
structure Room (reg count : Nat) : Prop where
  count_lt : count < 30
  reg_lt : reg < 2 ^ count

def isReading (k : Cmd) : Prop := k = .readDummy ∨ k = .readData

instance (k : Cmd) : Decidable (isReading k) := inferInstanceAs (Decidable (_ ∨ _))

/-- A pulse puts its bit in. -/
theorem pulse_eq (h : Open s reg count k m) (hk : ¬ isReading k) (b : Bool) :
    steps s (pulse b) = { shiftIn { s with dataIn := b } with clock := false } := by
  have hdummy : ¬ k = .readDummy := fun h => hk (Or.inl h)
  have hdata : ¬ k = .readData := fun h => hk (Or.inr h)
  have hrise : writeClock { s with dataIn := b } true = { shiftIn { s with dataIn := b } with clock := true } := by
    unfold writeClock
    rw [if_pos ⟨h.cs, rfl, h.clock⟩]
    dsimp only
    rw [h.command, if_neg hdummy, if_neg hdata]
  have hfall : ∀ c : Eeprom, writeClock c false = { c with clock := false } := by
    intro c
    unfold writeClock
    rw [if_neg (fun hc => Bool.noConfusion hc.2.1)]
  have hput : writeData s b = { s with dataIn := b } := by
    unfold writeData
    rw [h.cs, if_pos rfl]
  change writeClock (writeClock (writeData s b) true) false = _
  rw [hput, hrise, hfall]

/-- The register and the counter after a bit, before it is looked at. -/
def taken (s : Eeprom) (b : Bool) (reg count : Nat) : Eeprom :=
  { s with dataIn := b, inputShiftreg := reg * 2 + b.toNat, inputCount := count + 1 }

theorem room_succ (h : Room reg count) (hcount : count < 29) (b : Bool) : Room (reg * 2 + b.toNat) (count + 1) := by
  refine ⟨by omega, ?_⟩
  have hreg := h.reg_lt
  have hbit : b.toNat ≤ 1 := Bool.toNat_le b
  rw [Nat.pow_succ]
  omega

theorem room_word (h : Room reg count) : reg < 2 ^ 30 :=
  Nat.lt_of_lt_of_le h.reg_lt (Nat.pow_le_pow_right (by decide) (Nat.le_of_lt h.count_lt))

theorem shiftIn_eq (h : Open s reg count k m) (hroom : Room reg count) (b : Bool) :
    shiftIn { s with dataIn := b } =
      if count + 1 = 1 then startBit (taken s b reg count)
      else if count + 1 = 3 then opcode (taken s b reg count)
      else if count + 1 = 5 then opcode00 (taken s b reg count)
      else if count + 1 = 13 then addressed (taken s b reg count)
      else if count + 1 = 29 then filled (taken s b reg count)
      else taken s b reg count := by
  have hword := room_word hroom
  have hcount := hroom.count_lt
  have hbit : b.toNat ≤ 1 := Bool.toNat_le b
  unfold shiftIn
  dsimp only
  rw [h.reg, h.count, Nat.mod_eq_of_lt (by omega : reg * 2 + b.toNat < 2 ^ 32),
    Nat.mod_eq_of_lt (by omega : count + 1 < 2 ^ 32)]
  rfl

/-- The counts at which something happens. -/
def isStop (count : Nat) : Prop := count = 1 ∨ count = 3 ∨ count = 5 ∨ count = 13 ∨ count = 29

theorem pulse_quiet (h : Open s reg count k m) (hroom : Room reg count) (hk : ¬ isReading k)
    (hstop : ¬ isStop (count + 1)) (b : Bool) :
    Open (steps s (pulse b)) (reg * 2 + b.toNat) (count + 1) k m := by
  have h1 : ¬ count + 1 = 1 := fun h => hstop (Or.inl h)
  have h3 : ¬ count + 1 = 3 := fun h => hstop (Or.inr (Or.inl h))
  have h5 : ¬ count + 1 = 5 := fun h => hstop (Or.inr (Or.inr (Or.inl h)))
  have h13 : ¬ count + 1 = 13 := fun h => hstop (Or.inr (Or.inr (Or.inr (Or.inl h))))
  have h29 : ¬ count + 1 = 29 := fun h => hstop (Or.inr (Or.inr (Or.inr (Or.inr h))))
  rw [pulse_eq h hk, shiftIn_eq h hroom, if_neg h1, if_neg h3, if_neg h5, if_neg h13, if_neg h29]
  exact ⟨h.cs, rfl, rfl, rfl, h.command, h.enabled, h.holds⟩

/-- Bits between two stops. -/
theorem feed (bits : List Bool) (h : Open s reg count k m) (hroom : Room reg count) (hk : ¬ isReading k)
    (hlen : count + bits.length < 30)
    (hstop : ∀ c, count < c → c ≤ count + bits.length → ¬ isStop c) :
    Open (steps s (pulses bits)) (shifted reg bits) (count + bits.length) k m ∧
      Room (shifted reg bits) (count + bits.length) := by
  induction bits generalizing s reg count with
  | nil => exact ⟨h, hroom⟩
  | cons b bits ih =>
    rw [List.length_cons] at hlen hstop ⊢
    have hnext := pulse_quiet h hroom hk (hstop (count + 1) (by omega) (by omega)) b
    have hrest := ih hnext (room_succ hroom (by omega) b) (by omega)
      (fun c hlow hhigh => hstop c (by omega) (by omega))
    rw [show count + 1 + bits.length = count + (bits.length + 1) by omega] at hrest
    rw [steps_pulses_cons]
    exact hrest

/-! ## Stops -/

/-- Zeros before the start bit are forgotten. -/
theorem zero_forgotten (h : Open s 0 0 k m) (hk : ¬ isReading k) : Open (steps s (pulse false)) 0 0 k m := by
  rw [pulse_eq h hk, shiftIn_eq h ⟨by decide, by decide⟩, if_pos rfl]
  exact ⟨h.cs, rfl, rfl, rfl, h.command, h.enabled, h.holds⟩

theorem zeros_forgotten (n : Nat) (h : Open s 0 0 k m) (hk : ¬ isReading k) :
    Open (steps s (pulses (List.replicate n false))) 0 0 k m := by
  induction n generalizing s with
  | zero => exact h
  | succ n ih =>
    rw [List.replicate_succ, steps_pulses_cons]
    exact ih (zero_forgotten h hk)

theorem start_taken (h : Open s 0 0 k m) (hk : ¬ isReading k) : Open (steps s (pulse true)) 1 1 k m := by
  rw [pulse_eq h hk, shiftIn_eq h ⟨by decide, by decide⟩, if_pos rfl]
  exact ⟨h.cs, rfl, rfl, rfl, h.command, h.enabled, h.holds⟩

/-- The command of an opcode. -/
def opcodeCmd (o1 o0 : Bool) : Cmd :=
  match o1, o0 with
  | false, false => .cmd00
  | false, true => .write
  | true, false => .read
  | true, true => .erase

theorem opcode_taken (o1 o0 : Bool) (h : Open s (2 + o1.toNat) 2 k m) (hk : ¬ isReading k) :
    Open (steps s (pulse o0)) (4 + 2 * o1.toNat + o0.toNat) 3 (opcodeCmd o1 o0) m := by
  have hroom : Room (2 + o1.toNat) 2 := ⟨by decide, by cases o1 <;> decide⟩
  rw [pulse_eq h hk, shiftIn_eq h hroom, if_neg (by decide), if_pos rfl]
  cases o1 <;> cases o0 <;> exact ⟨h.cs, rfl, rfl, rfl, rfl, h.enabled, h.holds⟩

/-- The command of two more bits. -/
def headCmd (o1 o0 f1 f0 : Bool) : Cmd :=
  match opcodeCmd o1 o0, f1, f0 with
  | .cmd00, false, false => .wds
  | .cmd00, false, true => .wral
  | .cmd00, true, false => .eral
  | .cmd00, true, true => .wen
  | k, _, _ => k

/-- Writing is enabled before the command that does it is complete. -/
def headMemory (o1 o0 f1 f0 : Bool) (m : Memory) : Memory :=
  if headCmd o1 o0 f1 f0 = .wen then { m with enabled := true } else m

theorem opcode00_taken (o1 o0 f1 f0 : Bool)
    (h : Open s ((4 + 2 * o1.toNat + o0.toNat) * 2 + f1.toNat) 4 (opcodeCmd o1 o0) m) :
    Open (steps s (pulse f0)) (16 + 8 * o1.toNat + 4 * o0.toNat + 2 * f1.toNat + f0.toNat) 5
      (headCmd o1 o0 f1 f0) (headMemory o1 o0 f1 f0 m) := by
  have hroom : Room ((4 + 2 * o1.toNat + o0.toNat) * 2 + f1.toNat) 4 :=
    ⟨by decide, by cases o1 <;> cases o0 <;> cases f1 <;> decide⟩
  have hk : ¬ isReading (opcodeCmd o1 o0) := by cases o1 <;> cases o0 <;> decide
  rw [pulse_eq h hk, shiftIn_eq h hroom, if_neg (by decide), if_neg (by decide), if_pos rfl]
  obtain ⟨hcs, hclock, hreg, hcount, hcommand, henabled, hholds⟩ := h
  have hcmd : (taken s f0 ((4 + 2 * o1.toNat + o0.toNat) * 2 + f1.toNat) 4).command = opcodeCmd o1 o0 :=
    hcommand
  unfold opcode00
  rw [hcmd]
  cases o1 <;> cases o0
  · cases f1 <;> cases f0
    · exact ⟨hcs, rfl, rfl, rfl, rfl, henabled, hholds⟩
    · exact ⟨hcs, rfl, rfl, rfl, rfl, henabled, hholds⟩
    · exact ⟨hcs, rfl, rfl, rfl, rfl, henabled, hholds⟩
    · exact ⟨hcs, rfl, rfl, rfl, rfl, rfl, hholds⟩
  all_goals
    cases f1 <;> cases f0 <;> exact ⟨hcs, rfl, rfl, rfl, hcommand, henabled, hholds⟩

/-- The bits of a command up to the last of the thirteen. -/
theorem head_received (o1 o0 f1 f0 : Bool) (low : Nat) (h : Open s 0 0 k m) (hk : ¬ isReading k) :
    Open (steps s (pulses (true :: o1 :: o0 :: f1 :: f0 :: bitsOf 7 (low / 2))))
      ((16 + 8 * o1.toNat + 4 * o0.toNat + 2 * f1.toNat + f0.toNat) * 128 + low / 2 % 128) 12
      (headCmd o1 o0 f1 f0) (headMemory o1 o0 f1 f0 m) := by
  have hstart := start_taken h hk
  have hfirst := pulse_quiet hstart ⟨by decide, by decide⟩ hk (by unfold isStop; decide) o1
  have hopcode := opcode_taken o1 o0 (by rw [Nat.mul_comm] at hfirst; exact hfirst) hk
  have hk3 : ¬ isReading (opcodeCmd o1 o0) := by cases o1 <;> cases o0 <;> decide
  have hthird := pulse_quiet hopcode ⟨by decide, by cases o1 <;> cases o0 <;> decide⟩ hk3
    (by unfold isStop; decide) f1
  have hfourth := opcode00_taken o1 o0 f1 f0 hthird
  have hk5 : ¬ isReading (headCmd o1 o0 f1 f0) := by cases o1 <;> cases o0 <;> cases f1 <;> cases f0 <;> decide
  have hrest := (feed (bitsOf 7 (low / 2)) hfourth
    ⟨by decide, by cases o1 <;> cases o0 <;> cases f1 <;> cases f0 <;> decide⟩ hk5
    (by rw [bitsOf_length]; decide) (by
      intro c hlow hhigh
      rw [bitsOf_length] at hhigh
      unfold isStop
      omega)).1
  rw [shifted_bitsOf, bitsOf_length] at hrest
  rw [steps_pulses_cons, steps_pulses_cons, steps_pulses_cons, steps_pulses_cons, steps_pulses_cons]
  exact hrest

end

end Vice.L4.M93c86Frames
