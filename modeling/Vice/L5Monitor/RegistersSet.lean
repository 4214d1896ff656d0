import Mathlib.Data.List.TakeWhile
import Vice.L5Monitor.CpuRegisters

/-!
# Setting registers (`monitor_binary_process_registers_set`)

The items of a command are checked and applied in one loop, so those before a bad one stay applied,
and an applied one need not leave its value in the register: a value is cut to the member that holds
the register, the raster line and the cycle are not set at all, and registers that share members
change together.

Results:
* `registersLoop_eq`: the loop applies the items before the first bad one.
* `allOrNothing_iff`: a command is all-or-nothing exactly when, bit by bit, the last item that
  writes a bit writes the right one.
* `not_always_allOrNothing`: A is set, and an unknown register after it is an error.
-/
namespace Vice.L5.RegistersSet
open Vice.L0.Bytes Vice.L0.LastWrite Vice.L5.BinaryFrame Vice.L5.CpuHistory Vice.L5.BinaryMachine
  Vice.L5.BinaryHandlers Vice.L5.CpuRegisters

/-- An item of the command as the loop reads it. -/
structure Item where
  size : UInt8
  id : UInt8
  val : UInt16

def itemAt (body : Memory) (cursor : Nat) : Item :=
  ⟨body cursor, body (cursor + 1), littleEndianToUint16 body (cursor + 2)⟩

/-- The items from `cursor` on: each goes as far as its size says. -/
def itemsFrom (body : Memory) : Nat → Nat → List Item
  | 0, _ => []
  | n + 1, cursor =>
    itemAt body cursor :: itemsFrom body n (cursor + ((itemAt body cursor).size.toNat + 1))

/-- The number of items and where they are. -/
def itemsOf (c : BinaryCommand) : List Item :=
  itemsFrom c.body (littleEndianToUint16 c.body 1).toNat 3

/-- The memory space of the command. -/
def memspaceOf (c : BinaryCommand) : Memspace := getRequestedMemspace (c.body 0)

section
variable {ρ : Type} (E : Surroundings ρ) (mem : Memspace)

/-- The item passes the checks of the loop. -/
def good (s : Board ρ) (item : Item) : Bool :=
  decide (3 ≤ item.size) && monRegisterValid E s mem item.id

def apply (s : Board ρ) (item : Item) : Board ρ := monRegisterSetVal E s mem item.id item.val

/-- The last value given for a register. -/
def lastGiven (items : List Item) (id : UInt8) : Option UInt16 :=
  lastWrite (fun (item : Item) id => if item.id = id then some item.val else none) items id

/-- What an item writes to bit `k.2` of register `k.1`. -/
def itemWrites (cpu : CpuType) (item : Item) (k : UInt8 × Nat) : Option Bool :=
  registerWrites cpu (item.id, item.val) k

/-- The value that a register should have after the items. -/
def wanted (s : Board ρ) (items : List Item) (id : UInt8) : UInt32 :=
  ((lastGiven items id).map UInt16.toUInt32).getD (monRegisterGetVal E s mem id)

/-- All or nothing: after an error every register has its old value, and otherwise the last value
given for it, or its old one when none is given. -/
def AllOrNothing (c : BinaryCommand) (s s' : Board ρ) (sent : List Response) : Prop :=
  ∀ id, monRegisterValid E s (memspaceOf c) id →
    monRegisterGetVal E s' (memspaceOf c) id =
      if sent.all (·.errorcode = .ok) then wanted E (memspaceOf c) s (itemsOf c) id
      else monRegisterGetVal E s (memspaceOf c) id

/-- For each bit of each register: if an item is bad, the last item before the first bad one that
writes the bit writes what is there; otherwise the last item that writes it writes the bit of the
value wanted for its register, or without one the bit is there already. -/
def WritesRight (s : Board ρ) (items : List Item) : Prop :=
  ∀ id, monRegisterValid E s mem id → ∀ i < 32,
    let here := (monRegisterGetVal E s mem id).toBitVec.getLsbD i
    if items.all (good E mem s) then
      (lastWrite (itemWrites (s.cpu mem)) items (id, i)).getD here =
        (wanted E mem s items id).toBitVec.getLsbD i
    else
      ∀ b ∈ lastWrite (itemWrites (s.cpu mem)) (items.takeWhile (good E mem s)) (id, i), b = here

end

section
variable {ρ : Type} {M : Machine (Board ρ)} {E : Surroundings ρ} {mem : Memspace} {s : Board ρ}
  {c : BinaryCommand} {id : UInt8} {i : Nat} {items : List Item}

/-! ## The loop -/

@[simp] theorem good_apply (item item' : Item) :
    good E mem (apply E mem s item) item' = good E mem s item' := by
  simp [good, apply]

/-- The loop applies the items before the first bad one, and ends with an error if there is one. -/
theorem registersLoop_eq (n cursor : Nat) : ∃ e, registersLoop (withRegisters M E) c mem n cursor s =
        (((itemsFrom c.body n cursor).takeWhile (good E mem s)).foldl (apply E mem) s, e) ∧
      (e = none ↔ (itemsFrom c.body n cursor).all (good E mem s)) ∧ ∀ e' ∈ e, e' ≠ .ok := by
  induction n generalizing cursor s with
  | zero => exact ⟨none, rfl, by simp [itemsFrom], by simp⟩
  | succ n ih =>
    rw [registersLoop, itemsFrom]
    generalize hitem : itemAt c.body cursor = item
    have hsizeOf : c.body cursor = item.size := hitem ▸ rfl
    have hidOf : c.body (cursor + 1) = item.id := hitem ▸ rfl
    have hvalOf : littleEndianToUint16 c.body (cursor + 2) = item.val := hitem ▸ rfl
    rw [hsizeOf, hidOf, hvalOf]
    by_cases hsize : item.size < 3
    · have hbad : good E mem s item = false := by
        rw [good, decide_eq_false (UInt8.not_le.mpr hsize), Bool.false_and]
      refine ⟨some .cmdInvalidLength, ?_, ?_, by simp⟩
      · rw [if_pos hsize, List.takeWhile_cons_of_neg (by simp [hbad])]
        rfl
      · simp [hbad]
    rw [if_neg hsize]
    cases hvalid : monRegisterValid E s mem item.id with
    | false =>
      have hbad : good E mem s item = false := by rw [good, hvalid, Bool.and_false]
      refine ⟨some .objectMissing, ?_, ?_, by simp⟩
      · rw [if_pos (by exact hvalid), List.takeWhile_cons_of_neg (by simp [hbad])]
        rfl
      · simp [hbad]
    | true =>
      have hgood : good E mem s item = true := by
        rw [good, hvalid, decide_eq_true (UInt8.not_lt.mp hsize), Bool.true_and]
      have hsame : good E mem (apply E mem s item) = good E mem s := funext fun _ => good_apply ..
      obtain ⟨e, hloop, hall, herr⟩ := ih (cursor + (item.size.toNat + 1)) (s := apply E mem s item)
      rw [hsame] at hloop hall
      refine ⟨e, ?_, ?_, herr⟩
      · rw [if_neg (by simp [withRegisters, hvalid]), List.takeWhile_cons_of_pos hgood, List.foldl_cons,
          ← hloop]
        rfl
      · rw [hall, List.all_cons, hgood, Bool.true_and]

/-! ## The registers after the items -/

/-- The items are applied to a CPU that stays what it is. -/
theorem getVal_foldl (hacc : accessible E mem = true) (hi : i < 32) (items : List Item) (reg : UInt8) :
    (monRegisterGetVal E (items.foldl (apply E mem) s) mem reg).toBitVec.getLsbD i =
      (lastWrite (itemWrites (s.cpu mem)) items (reg, i)).getD
        ((monRegisterGetVal E s mem reg).toBitVec.getLsbD i) := by
  have hinv : ∀ (s' : Board ρ) (item : Item), s'.cpu = s.cpu → (apply E mem s' item).cpu = s.cpu :=
    fun s' item h => by rw [apply, monRegisterSetVal_cpu, h]
  have hstep : ∀ (s' : Board ρ) (item : Item), s'.cpu = s.cpu →
      (monRegisterGetVal E (apply E mem s' item) mem reg).toBitVec.getLsbD i =
        (itemWrites (s.cpu mem) item (reg, i)).getD
          ((monRegisterGetVal E s' mem reg).toBitVec.getLsbD i) := by
    intro s' item h
    rw [itemWrites, ← h]
    exact monRegisterGetVal_set hacc hi
  exact @read_foldl Item (UInt8 × Nat) Bool (Board ρ) (itemWrites (s.cpu mem)) (apply E mem)
    (fun s' k => (monRegisterGetVal E s' mem k.1).toBitVec.getLsbD k.2) (fun s' => s'.cpu = s.cpu)
    hinv (reg, i) hstep items s rfl

theorem uint32_eq_iff {x y : UInt32} : x = y ↔ ∀ i < 32, x.toBitVec.getLsbD i = y.toBitVec.getLsbD i :=
  ⟨fun h i _ => by rw [h], fun h => UInt32.eq_of_toBitVec_eq (BitVec.eq_of_getLsbD_eq h)⟩

/-- A register that is valid is accessible. -/
theorem accessible_of_valid {reg : UInt8} (h : monRegisterValid E s mem reg = true) :
    accessible E mem = true := by
  by_contra hacc
  rw [Bool.not_eq_true] at hacc
  rw [monRegisterValid, if_pos hacc] at h
  cases h

/-! ## All or nothing -/

/-- The command is refused before its items are looked at. -/
def refused (c : BinaryCommand) : Prop :=
  len c < 3 + (littleEndianToUint16 c.body 1).toNat * (3 + 1) ∨ memspaceOf c = .invalid

instance (c : BinaryCommand) : Decidable (refused c) := inferInstanceAs (Decidable (_ ∨ _))

theorem processRegistersSet_refused (h : refused c) :
    ∃ e, e ≠ .ok ∧ processRegistersSet (withRegisters M E) c s = fails c e s := by
  unfold processRegistersSet
  by_cases hlen : len c < 3 + (littleEndianToUint16 c.body 1).toNat * (3 + 1)
  · exact ⟨.cmdInvalidLength, by decide, if_pos hlen⟩
  · have hmem : getRequestedMemspace (c.body 0) = .invalid := h.resolve_left hlen
    exact ⟨.invalidMemspace, by decide, by rw [if_neg hlen, if_pos hmem]⟩

theorem processRegistersSet_accepted (h : ¬ refused c) : ∃ sent, processRegistersSet (withRegisters M E) c s =
        (((itemsOf c).takeWhile (good E (memspaceOf c) s)).foldl (apply E (memspaceOf c)) s, sent) ∧
      (sent.all (·.errorcode = .ok) ↔ (itemsOf c).all (good E (memspaceOf c) s)) := by
  obtain ⟨hlen, hmem⟩ := not_or.mp h
  obtain ⟨e, hloop, hall, herr⟩ := @registersLoop_eq ρ M E (memspaceOf c) s c
    (littleEndianToUint16 c.body 1).toNat 3
  have hmem' : getRequestedMemspace (c.body 0) ≠ .invalid := hmem
  unfold processRegistersSet
  dsimp only
  rw [if_neg hlen, if_neg hmem', show getRequestedMemspace (c.body 0) = memspaceOf c from rfl]
  rw [hloop]
  cases e with
  | none => exact ⟨_, rfl, by simpa [registerInfo, itemsOf] using hall⟩
  | some e =>
    refine ⟨_, rfl, ?_⟩
    have hne := herr e rfl
    simpa [fails, monitorBinaryError, itemsOf, hne] using hall

/-- What the items leave in the registers is what `WritesRight` asks for. -/
theorem writesRight_iff : WritesRight E mem s items ↔ ∀ reg, monRegisterValid E s mem reg →
      monRegisterGetVal E ((items.takeWhile (good E mem s)).foldl (apply E mem) s) mem reg =
        if items.all (good E mem s) then wanted E mem s items reg else monRegisterGetVal E s mem reg := by
  unfold WritesRight
  refine forall_congr' fun reg => forall_congr' fun hvalid => ?_
  have hacc := accessible_of_valid hvalid
  rw [uint32_eq_iff]
  refine forall_congr' fun i => forall_congr' fun hi => ?_
  rw [getVal_foldl hacc hi]
  dsimp only
  by_cases hall : items.all (good E mem s)
  · rw [if_pos hall, if_pos hall, List.takeWhile_eq_self_iff.mpr (List.all_eq_true.mp hall)]
  · rw [if_neg hall, if_neg hall, getD_eq_self_iff]

/-- A command to set registers is all-or-nothing exactly when it is refused at once or the items that
are applied write the right bits. -/
theorem allOrNothing_iff (M : Machine (Board ρ)) (E : Surroundings ρ) (c : BinaryCommand) (s : Board ρ) :
    AllOrNothing E c s (processRegistersSet (withRegisters M E) c s).1
        (processRegistersSet (withRegisters M E) c s).2 ↔
      refused c ∨ WritesRight E (memspaceOf c) s (itemsOf c) := by
  by_cases href : refused c
  · obtain ⟨e, he, hset⟩ := @processRegistersSet_refused ρ M E s c href
    rw [hset]
    refine iff_of_true (fun reg _ => ?_) (.inl href)
    rw [if_neg (by simp [fails, monitorBinaryError, he])]
    rfl
  · obtain ⟨sent, hset, hall⟩ := @processRegistersSet_accepted ρ M E s c href
    rw [hset, or_iff_right href, writesRight_iff]
    refine forall_congr' fun reg => forall_congr' fun _ => ?_
    dsimp only
    by_cases hok : sent.all (·.errorcode = .ok) = true
    · rw [if_pos hok, if_pos (hall.mp hok)]
    · rw [if_neg hok, if_neg (mt hall.mpr hok)]

/-! ## A bad item behind a good one -/

/-- A 6510 with zeros in its registers. -/
def zeroBoard : Board Unit where
  cpu _ := .cpu6502
  regs _ := ⟨fun _ => 0, fun _ => 0, 0, 0, 0, 0⟩
  rest := ()

def quiet : Surroundings Unit where
  driveEmulated _ := true
  lineCycle _ _ := (0, 0)
  getMemVal _ _ _ := 0

/-- A is set to 5, and then the register 0xff. -/
def badSecond : BinaryCommand :=
  readCommand (commandBytes 1 0x32 [0, 2, 0, 3, 0x00, 5, 0, 3, 0xff, 1, 0])

/-- The first item stays applied. -/
theorem not_always_allOrNothing : ¬ refused badSecond ∧ ∀ M : Machine (Board Unit),
      ¬ AllOrNothing quiet badSecond zeroBoard
        (processRegistersSet (withRegisters M quiet) badSecond zeroBoard).1
        (processRegistersSet (withRegisters M quiet) badSecond zeroBoard).2 := by
  have haccepted : ¬ refused badSecond := by decide +kernel
  refine ⟨haccepted, fun M hkept => ?_⟩
  obtain ⟨sent, hset, hall⟩ := @processRegistersSet_accepted Unit M quiet zeroBoard badSecond haccepted
  rw [hset] at hkept
  have hbad : (itemsOf badSecond).all (good quiet (memspaceOf badSecond) zeroBoard) = false := by
    decide +kernel
  have hsent : ¬ sent.all (·.errorcode = .ok) = true := fun h => by
    rw [hall.mp h] at hbad
    cases hbad
  have ha := hkept eA (by decide +kernel)
  rw [if_neg hsent] at ha
  have hchanged : monRegisterGetVal quiet
      (((itemsOf badSecond).takeWhile (good quiet (memspaceOf badSecond) zeroBoard)).foldl
        (apply quiet (memspaceOf badSecond)) zeroBoard) (memspaceOf badSecond) eA ≠
      monRegisterGetVal quiet zeroBoard (memspaceOf badSecond) eA := by
    decide +kernel
  exact hchanged ha

end

end Vice.L5.RegistersSet
