import Mathlib.Logic.Function.Iterate
import Mathlib.Tactic.SplitIfs

/-!
# The TPI in interrupt mode (`core/tpicore.c`)

Port C of a 6525 can collect five interrupt sources. An edge of a source is latched, and if the mask
lets it through it becomes active and asserts the line, or waits on a stack. Reading the active
interrupt register takes the active source away, storing to it ends its service.


`rmw_flag` is a pointer that the store compares with 0 and then sets to 0, so the first store of all
comes twice. The ports, and the CA and CB lines, are left out.

A source waits from the edge, or the store to the mask, that lets it through to the read that returns
it. The chip keeps what waits in the active register and on the stack. `Tracker` is what should wait,
from the edges and the accesses alone, with counts of what came and went.

Results:
* `matches_step`: what waits is what should, on every access but a few.
* `pushIrqState_eq`: what a read leaves.
-/
namespace Vice.L4.TpiCore

/-- Of `c_tpi` the registers of port C, the control register and the active interrupt register. -/
structure Tpi where
  latches : BitVec 8
  mask : BitVec 8
  creg : BitVec 8
  active : BitVec 8
  irqPrevious : BitVec 8
  irqStack : BitVec 8
  tpiLastRead : BitVec 8
  rmwFlag : Bool
  line : Bool

/-- mirrors src/core/tpicore.c:54 -/
def pow2 (i : Nat) : BitVec 8 := BitVec.twoPow 8 i

/-- The sources, the highest first. -/
def sources : List Nat := [4, 3, 2, 1, 0]

section
variable (s : Tpi)

def irqMode : Prop := s.creg &&& 1 ≠ 0

instance : Decidable (irqMode s) := inferInstanceAs (Decidable (_ ≠ _))

def irqPriority : Prop := s.creg &&& 2 ≠ 0

instance : Decidable (irqPriority s) := inferInstanceAs (Decidable (_ ≠ _))

/-- mirrors src/core/tpicore.c:61-89 (`set_latch_bit`) -/
def setLatchBit (bit : BitVec 8) : Tpi :=
  let s := { s with latches := s.latches ||| bit }
  if s.mask &&& bit = 0 then s
  else
    let s := if irqPriority s then
        if s.latches &&& ~~~bit < bit then { s with active := bit, line := true } else s
      else if s.active = 0 then { s with active := bit, line := true } else s
    { s with irqStack := s.irqStack ||| bit }

/-- mirrors src/core/tpicore.c:91-111 (`pop_irq_state`) -/
def popIrqState : Tpi :=
  let s := if irqPriority s then
      match sources.find? fun i => s.irqStack.getLsbD i with
      | some i => { s with active := pow2 i }
      | none => s
    else s
  { s with line := s.active ≠ 0 }

/-- mirrors src/core/tpicore.c:113-136 (`push_irq_state`) -/
def pushIrqState : BitVec 8 × Tpi :=
  let oldActive := s.active
  let s := { s with
    latches := s.latches &&& ~~~s.active, irqStack := s.irqStack &&& ~~~s.active, active := 0 }
  let s := if irqPriority s then s else { s with active := s.irqStack, irqStack := 0 }
  (oldActive, { s with line := s.active ≠ 0 })

/-- mirrors src/core/tpicore.c:140-165 (`tpicore_reset`) -/
def tpicoreReset : Tpi :=
  { s with
    latches := 0, mask := 0, creg := 0, active := 0, irqPrevious := 0xff, irqStack := 0, line := false }

/-- The registers of port C, under their names in interrupt mode and the others. -/
inductive Register
  | ilr
  | imr
  | creg
  | air
  deriving DecidableEq

/-- mirrors src/core/tpicore.c:199-249: the store proper. -/
def storeNow (reg : Register) (byte : BitVec 8) : Tpi :=
  match reg with
  | .ilr =>
    let s := { s with latches := byte }
    if irqMode s then { s with latches := s.latches &&& byte } else s
  | .imr =>
    let s := { s with mask := byte }
    if irqMode s then
      sources.foldl
        (fun s i => if (s.mask &&& s.latches).getLsbD i then setLatchBit s (pow2 i) else s) s
    else s
  | .creg => { s with creg := byte }
  | .air => popIrqState s

/-- mirrors src/core/tpicore.c:167-251 (`tpicore_store`) -/
def tpicoreStore (reg : Register) (byte : BitVec 8) : Tpi :=
  if s.rmwFlag then storeNow (storeNow { s with rmwFlag := false } reg s.tpiLastRead) reg byte
  else storeNow s reg byte

/-- mirrors src/core/tpicore.c:284-286 (`tpicore_read` of TPI_AIR) -/
def readAir : BitVec 8 × Tpi :=
  let (byte, s) := pushIrqState s
  (byte, { s with tpiLastRead := byte })

/-- The edge of a source that `tpicore_set_int` latches. -/
def Latches (bit : Nat) (state : Bool) : Prop :=
  if state = false then
    s.irqPrevious.getLsbD bit = false ∧ 3 ≤ bit ∧ (pow2 bit >>> 1) &&& s.creg ≠ 0
  else s.irqPrevious.getLsbD bit = true ∧ (bit < 3 ∨ (pow2 bit >>> 1) &&& s.creg = 0)

instance (bit : Nat) (state : Bool) : Decidable (Latches s bit state) :=
  inferInstanceAs (Decidable (if state = false then _ ∧ _ ∧ _ else _ ∧ _))

/-- mirrors src/core/tpicore.c:319-365 (`tpicore_set_int`): `state` means that the source pulls its
line low. -/
def tpicoreSetInt (bit : Nat) (state : Bool) : Tpi :=
  if 5 ≤ bit then s
  else
    let latched := if Latches s bit state then setLatchBit s (pow2 bit) else s
    { latched with
      irqPrevious := if state then s.irqPrevious &&& ~~~pow2 bit else s.irqPrevious ||| pow2 bit }

end

/-! ## What should wait -/

/-- What goes on at a TPI in interrupt mode. -/
inductive Event
  | setInt (bit : Nat) (state : Bool)
  | storeMask (byte : BitVec 8)
  | storeLatches (byte : BitVec 8)
  | storeAir (byte : BitVec 8)
  | readAir

/-- What the chip does. -/
def tpi (s : Tpi) : Event → Tpi
  | .setInt bit state => tpicoreSetInt s bit state
  | .storeMask byte => tpicoreStore s .imr byte
  | .storeLatches byte => tpicoreStore s .ilr byte
  | .storeAir byte => tpicoreStore s .air byte
  | .readAir => (readAir s).2

/-- The sources that are latched and those that wait, whether the last access to the register was a
read, and how often each source came to wait, was returned, and had its latch cleared while it waited. -/
structure Tracker where
  latched : BitVec 8
  pending : BitVec 8
  serving : Bool
  entered : Nat → Nat
  returned : Nat → Nat
  withdrawn : Nat → Nat

/-- One more for each source of a set. -/
def counted (count : Nat → Nat) (x : BitVec 8) (b : Nat) : Nat := count b + (x.getLsbD b).toNat

def Tracker.latch (g : Tracker) (i : Nat) : Tracker := { g with latched := g.latched ||| pow2 i }

/-- A source that waits already comes to nothing. -/
def Tracker.enter (g : Tracker) (i : Nat) : Tracker :=
  { g with
    pending := g.pending ||| pow2 i
    entered := counted g.entered (pow2 i &&& ~~~g.pending) }

/-- What should wait after an event at a chip in state `s`. A latch that is cleared takes its source
back, but for one that is active. -/
def track (s : Tpi) (g : Tracker) : Event → Tracker
  | .setInt bit state =>
    if bit < 5 ∧ Latches s bit state then
      if s.mask.getLsbD bit then (g.latch bit).enter bit else g.latch bit
    else g
  | .storeMask byte =>
    sources.foldl (fun g i => if (byte &&& g.latched).getLsbD i then g.enter i else g) g
  | .storeLatches byte =>
    let gone := g.latched &&& ~~~byte &&& g.pending &&& ~~~s.active
    { g with
      latched := g.latched &&& byte
      pending := g.pending &&& ~~~gone
      withdrawn := counted g.withdrawn gone }
  | .storeAir _ => { g with serving := false }
  | .readAir =>
    let byte := (readAir s).1
    { g with
      latched := g.latched &&& ~~~byte
      pending := g.pending &&& ~~~byte
      returned := counted g.returned byte
      serving := true }

section
variable {s : Tpi} {g : Tracker} {creg byte x y : BitVec 8} {i : Nat}

/-! ## Sets of sources -/

theorem getLsbD_pow2 (hi : i < 5) (j : Nat) : (pow2 i).getLsbD j = decide (i = j) := by
  have hw : i < 8 := by omega
  rw [pow2, BitVec.getLsbD_twoPow, decide_eq_true hw, Bool.true_and]

theorem pow2_ne_zero (hi : i < 5) : pow2 i ≠ 0 := by
  intro h
  have hbit := getLsbD_pow2 hi i
  rw [h] at hbit
  simp at hbit

theorem and_pow2 (hi : i < 5) : x &&& pow2 i = 0 ↔ x.getLsbD i = false := by
  rw [pow2, BitVec.and_twoPow]
  cases hbit : x.getLsbD i with
  | false => simp
  | true => simpa [pow2] using pow2_ne_zero hi

theorem or_pow2_self (hi : i < 5) (h : x.getLsbD i = true) : x ||| pow2 i = x := by
  refine BitVec.eq_of_getLsbD_eq fun j _ => ?_
  rw [BitVec.getLsbD_or, getLsbD_pow2 hi]
  by_cases hj : i = j
  · subst hj
    rw [h, Bool.true_or]
  · rw [decide_eq_false hj, Bool.or_false]

/-- What is not there has to be added. -/
theorem or_and_not (x y : BitVec 8) : (x ||| y) &&& ~~~y = x &&& ~~~y := by
  refine BitVec.eq_of_getLsbD_eq fun j hj => ?_
  simp only [BitVec.getLsbD_and, BitVec.getLsbD_or, BitVec.getLsbD_not, hj, decide_true, Bool.true_and]
  cases x.getLsbD j <;> cases y.getLsbD j <;> rfl

theorem exists_source (hsmall : x &&& 0x1f = x) (hne : x ≠ 0) :
    ∃ i, (sources.find? fun i => x.getLsbD i) = some i ∧ i < 5 ∧ x.getLsbD i = true := by
  cases hfind : sources.find? fun i => x.getLsbD i with
  | some i =>
    have hmem := List.mem_of_find?_eq_some hfind
    refine ⟨i, rfl, ?_, List.find?_some hfind⟩
    simp only [sources, List.mem_cons, List.not_mem_nil, or_false] at hmem
    omega
  | none =>
    refine absurd (BitVec.eq_of_getLsbD_eq fun j hj => ?_) hne
    have hnone := List.find?_eq_none.mp hfind
    by_cases hsource : j ∈ sources
    · simpa using hnone j hsource
    · have hhigh : (0x1f : BitVec 8).getLsbD j = false := by
        clear hfind hnone hsmall hne
        revert hsource hj
        revert j
        decide
      rw [← hsmall, BitVec.getLsbD_and, hhigh, Bool.and_false]
      exact BitVec.getLsbD_zero.symm

/-! ## An edge that is latched -/

/-- No other latched source is as high. -/
def Topmost (latches : BitVec 8) (i : Nat) : Prop := latches &&& ~~~pow2 i < pow2 i

instance (latches : BitVec 8) (i : Nat) : Decidable (Topmost latches i) :=
  inferInstanceAs (Decidable (_ < _))

/-- A source that is let through becomes active. -/
def Raises (s : Tpi) (i : Nat) : Prop := if irqPriority s then Topmost s.latches i else s.active = 0

instance (s : Tpi) (i : Nat) : Decidable (Raises s i) :=
  inferInstanceAs (Decidable (if irqPriority s then Topmost s.latches i else s.active = 0))

theorem setLatchBit_masked (hi : i < 5) (h : s.mask.getLsbD i = false) :
    setLatchBit s (pow2 i) = { s with latches := s.latches ||| pow2 i } := by
  unfold setLatchBit
  exact if_pos ((and_pow2 hi).mpr h)

theorem setLatchBit_passed (hi : i < 5) (h : s.mask.getLsbD i = true) : setLatchBit s (pow2 i) =
      if Raises s i then
        { s with
          latches := s.latches ||| pow2 i, active := pow2 i, line := true,
          irqStack := s.irqStack ||| pow2 i }
      else { s with latches := s.latches ||| pow2 i, irqStack := s.irqStack ||| pow2 i } := by
  have hne : ¬ s.mask &&& pow2 i = 0#8 := by
    rw [show s.mask &&& pow2 i = 0#8 ↔ s.mask.getLsbD i = false from and_pow2 hi, h]
    exact Bool.noConfusion
  by_cases hpriority : s.creg &&& 2#8 = 0#8
  · by_cases hactive : s.active = 0#8
    · simp [setLatchBit, Raises, irqPriority, hne, hpriority, hactive]
    · simp [setLatchBit, Raises, irqPriority, hne, hpriority, hactive]
  · by_cases htop : s.latches &&& ~~~pow2 i < pow2 i
    · simp [setLatchBit, Raises, Topmost, irqPriority, or_and_not, hne, hpriority, htop]
    · simp [setLatchBit, Raises, Topmost, irqPriority, or_and_not, hne, hpriority, htop]

/-! ## What waits is what should -/

/-- The chip and the tracker agree. -/
structure Matches (creg : BitVec 8) (s : Tpi) (g : Tracker) : Prop where
  creg : s.creg = creg
  flag : s.rmwFlag = false
  line : s.line = true ↔ s.active ≠ 0
  latched : s.latches = g.latched
  pending : s.active ||| s.irqStack = g.pending
  below : irqPriority s → s.active &&& s.irqStack = s.active
  small : g.latched &&& 0x1f = g.latched ∧ g.pending &&& 0x1f = g.pending
  count : ∀ b, g.entered b = g.returned b + g.withdrawn b + (g.pending.getLsbD b).toNat

theorem small_or (hi : i < 5) (h : x &&& 0x1f = x) : (x ||| pow2 i) &&& 0x1f = x ||| pow2 i := by
  have hpow : pow2 i &&& 0x1f = pow2 i := by
    revert i
    decide
  refine BitVec.eq_of_getLsbD_eq fun j _ => ?_
  have hx := congrArg (BitVec.getLsbD · j) h
  have hp := congrArg (BitVec.getLsbD · j) hpow
  simp only [BitVec.getLsbD_and, BitVec.getLsbD_or] at hx hp ⊢
  rw [Bool.and_or_distrib_right, hx, hp]

theorem small_and (h : x &&& 0x1f = x) (y : BitVec 8) : (x &&& y) &&& 0x1f = x &&& y := by
  rw [BitVec.and_assoc, BitVec.and_comm y, ← BitVec.and_assoc, h]

theorem matches_latch (hi : i < 5) (h : Matches creg s g) :
    Matches creg { s with latches := s.latches ||| pow2 i } (g.latch i) :=
  ⟨h.creg, h.flag, h.line, congrArg (· ||| pow2 i) h.latched, h.pending, h.below,
    ⟨small_or hi h.small.1, h.small.2⟩, h.count⟩

/-- The count of a source that comes to wait. -/
theorem count_enter (hi : i < 5) (h : ∀ b, g.entered b = g.returned b + g.withdrawn b + (g.pending.getLsbD b).toNat)
    (b : Nat) : (g.enter i).entered b =
      (g.enter i).returned b + (g.enter i).withdrawn b + ((g.enter i).pending.getLsbD b).toNat := by
  unfold Tracker.enter counted
  dsimp only
  rw [h b, BitVec.getLsbD_and, BitVec.getLsbD_or, BitVec.getLsbD_not, getLsbD_pow2 hi]
  by_cases hb : i = b
  · subst hb
    have hw : i < 8 := by omega
    rw [decide_eq_true hw]
    cases g.pending.getLsbD i <;> simp
  · simp [hb]

theorem matches_enter (hi : i < 5) (hmask : s.mask.getLsbD i = true) (h : Matches creg s g) :
    Matches creg (setLatchBit s (pow2 i)) ((g.latch i).enter i) := by
  have hlatch := matches_latch hi h
  have hstack : s.active ||| (s.irqStack ||| pow2 i) = g.pending ||| pow2 i := by
    rw [← BitVec.or_assoc, h.pending]
  rw [setLatchBit_passed hi hmask]
  split_ifs with hraises
  · have hunion : pow2 i ||| (s.irqStack ||| pow2 i) = g.pending ||| pow2 i := by
      rw [← hstack]
      refine BitVec.eq_of_getLsbD_eq fun j _ => ?_
      simp only [BitVec.getLsbD_or]
      by_cases hpriority : irqPriority s
      · have hbelow := congrArg (BitVec.getLsbD · j) (h.below hpriority)
        simp only [BitVec.getLsbD_and] at hbelow
        revert hbelow
        cases s.active.getLsbD j <;> cases s.irqStack.getLsbD j <;> cases (pow2 i).getLsbD j <;> simp
      · have hidle : s.active = 0 := by
          unfold Raises at hraises
          rwa [if_neg hpriority] at hraises
        rw [hidle]
        cases s.irqStack.getLsbD j <;> cases (pow2 i).getLsbD j <;> simp
    refine ⟨h.creg, h.flag, ⟨fun _ => pow2_ne_zero hi, fun _ => rfl⟩, hlatch.latched, hunion, fun _ => ?_,
      ⟨hlatch.small.1, small_or hi h.small.2⟩, count_enter hi hlatch.count⟩
    refine BitVec.eq_of_getLsbD_eq fun j _ => ?_
    simp only [BitVec.getLsbD_and, BitVec.getLsbD_or]
    cases s.irqStack.getLsbD j <;> cases (pow2 i).getLsbD j <;> rfl
  · refine ⟨h.creg, h.flag, h.line, hlatch.latched, hstack, fun hpriority => ?_,
      ⟨hlatch.small.1, small_or hi h.small.2⟩, count_enter hi hlatch.count⟩
    refine BitVec.eq_of_getLsbD_eq fun j _ => ?_
    have hbelow := congrArg (BitVec.getLsbD · j) (h.below hpriority)
    simp only [BitVec.getLsbD_and, BitVec.getLsbD_or] at hbelow ⊢
    revert hbelow
    cases s.active.getLsbD j <;> cases s.irqStack.getLsbD j <;> cases (pow2 i).getLsbD j <;> simp

theorem latch_self (hi : i < 5) (h : g.latched.getLsbD i = true) : g.latch i = g := by
  unfold Tracker.latch
  rw [or_pow2_self hi h]

/-- What the loop over the sources does. -/
def raiseAll (l : List Nat) (s : Tpi) : Tpi :=
  l.foldl (fun s i => if (s.mask &&& s.latches).getLsbD i then setLatchBit s (pow2 i) else s) s

/-- What it should do. -/
def enterAll (mask : BitVec 8) (l : List Nat) (g : Tracker) : Tracker :=
  l.foldl (fun g i => if (mask &&& g.latched).getLsbD i then g.enter i else g) g

theorem setLatchBit_mask (hi : i < 5) : (setLatchBit s (pow2 i)).mask = s.mask := by
  cases hmask : s.mask.getLsbD i with
  | false => rw [setLatchBit_masked hi hmask]
  | true =>
    rw [setLatchBit_passed hi hmask]
    split_ifs <;> rfl

theorem matches_raiseAll {l : List Nat} (hl : ∀ i ∈ l, i < 5) (h : Matches creg s g) :
    Matches creg (raiseAll l s) (enterAll s.mask l g) := by
  induction l generalizing s g with
  | nil => exact h
  | cons i l ih =>
    have hi := hl i (List.mem_cons_self ..)
    have hrest := fun j hj => hl j (List.mem_cons_of_mem i hj)
    unfold raiseAll enterAll
    rw [List.foldl_cons, List.foldl_cons, h.latched]
    by_cases hbit : (s.mask &&& g.latched).getLsbD i = true
    · have hboth := hbit
      rw [BitVec.getLsbD_and, Bool.and_eq_true] at hboth
      have hnext := matches_enter hi hboth.1 h
      rw [latch_self hi hboth.2] at hnext
      rw [if_pos hbit, if_pos hbit, ← @setLatchBit_mask s i hi]
      exact ih hrest hnext
    · rw [if_neg hbit, if_neg hbit]
      exact ih hrest h

/-! ## Accesses -/

theorem matches_previous (h : Matches creg s g) (previous : BitVec 8) :
    Matches creg { s with irqPrevious := previous } g :=
  ⟨h.creg, h.flag, h.line, h.latched, h.pending, h.below, h.small, h.count⟩

theorem matches_setInt (bit : Nat) (state : Bool) (h : Matches creg s g) :
    Matches creg (tpi s (.setInt bit state)) (track s g (.setInt bit state)) := by
  unfold tpi track tpicoreSetInt
  dsimp only
  by_cases hbit : 5 ≤ bit
  · have hnone : ¬ (bit < 5 ∧ Latches s bit state) := fun hboth => absurd hboth.1 (by omega)
    rw [if_pos hbit, if_neg hnone]
    exact h
  · have hlt : bit < 5 := by omega
    rw [if_neg hbit]
    by_cases hlatches : Latches s bit state
    · have hboth : bit < 5 ∧ Latches s bit state := ⟨hlt, hlatches⟩
      rw [if_pos hlatches, if_pos hboth]
      apply matches_previous
      cases hmask : s.mask.getLsbD bit with
      | false =>
        rw [if_neg Bool.false_ne_true, setLatchBit_masked hlt hmask]
        exact matches_latch hlt h
      | true =>
        rw [if_pos rfl]
        exact matches_enter hlt hmask h
    · have hnone : ¬ (bit < 5 ∧ Latches s bit state) := fun hboth => hlatches hboth.2
      rw [if_neg hlatches, if_neg hnone]
      exact matches_previous h _

theorem tpicoreStore_eq (hflag : s.rmwFlag = false) (reg : Register) (byte : BitVec 8) :
    tpicoreStore s reg byte = storeNow s reg byte := by
  unfold tpicoreStore
  rw [hflag, if_neg Bool.false_ne_true]

theorem sources_lt : ∀ i ∈ sources, i < 5 := by decide

theorem matches_storeMask (hmode : creg &&& 1 ≠ 0) (byte : BitVec 8) (h : Matches creg s g) :
    Matches creg (tpi s (.storeMask byte)) (track s g (.storeMask byte)) := by
  have hmode' : irqMode { s with mask := byte } := by
    rw [← h.creg] at hmode
    exact hmode
  unfold tpi
  dsimp only
  rw [tpicoreStore_eq h.flag]
  unfold storeNow
  dsimp only
  rw [if_pos hmode']
  have hstored : Matches creg { s with mask := byte } g :=
    ⟨h.creg, h.flag, h.line, h.latched, h.pending, h.below, h.small, h.count⟩
  exact matches_raiseAll sources_lt hstored

/-- Only latches that are set are cleared, and none of a source on the stack. -/
def ClearsIdle (s : Tpi) (byte : BitVec 8) : Prop :=
  byte &&& ~~~s.latches = 0 ∧ s.latches &&& ~~~byte &&& s.irqStack &&& ~~~s.active = 0

theorem matches_storeLatches (hmode : creg &&& 1 ≠ 0) (hclear : ClearsIdle s byte) (h : Matches creg s g) :
    Matches creg (tpi s (.storeLatches byte)) (track s g (.storeLatches byte)) := by
  have hmode' : irqMode { s with latches := byte } := by
    rw [← h.creg] at hmode
    exact hmode
  have hlatched : byte &&& byte = g.latched &&& byte := by
    rw [← h.latched]
    refine BitVec.eq_of_getLsbD_eq fun j hj => ?_
    have hset := congrArg (BitVec.getLsbD · j) hclear.1
    simp only [BitVec.getLsbD_and, BitVec.getLsbD_not, BitVec.ofNat_eq_ofNat, BitVec.getLsbD_zero, hj, decide_true,
      Bool.true_and] at hset ⊢
    revert hset
    cases byte.getLsbD j <;> cases s.latches.getLsbD j <;> simp
  have hgone : g.latched &&& ~~~byte &&& g.pending &&& ~~~s.active = 0 := by
    rw [← h.latched, ← h.pending]
    refine BitVec.eq_of_getLsbD_eq fun j hj => ?_
    have hset := congrArg (BitVec.getLsbD · j) hclear.2
    simp only [BitVec.getLsbD_and, BitVec.getLsbD_or, BitVec.getLsbD_not, BitVec.ofNat_eq_ofNat,
      BitVec.getLsbD_zero, hj, decide_true, Bool.true_and] at hset ⊢
    revert hset
    cases byte.getLsbD j <;> cases s.latches.getLsbD j <;> cases s.active.getLsbD j <;>
      cases s.irqStack.getLsbD j <;> simp
  have hsmall : (g.latched &&& byte) &&& 0x1f = g.latched &&& byte := small_and h.small.1 byte
  have hkept : g.pending &&& ~~~(0 : BitVec 8) = g.pending := BitVec.and_allOnes
  unfold tpi track
  dsimp only
  rw [tpicoreStore_eq h.flag, hgone, hkept]
  unfold storeNow
  dsimp only
  rw [if_pos hmode']
  exact ⟨h.creg, h.flag, h.line, hlatched, h.pending, h.below, ⟨hsmall, h.small.2⟩,
    fun b => by simpa [counted] using h.count b⟩

theorem matches_storeAir (byte : BitVec 8) (h : Matches creg s g) :
    Matches creg (tpi s (.storeAir byte)) (track s g (.storeAir byte)) := by
  unfold tpi track
  dsimp only
  rw [tpicoreStore_eq h.flag]
  unfold storeNow popIrqState
  dsimp only
  by_cases hpriority : irqPriority s
  · rw [if_pos hpriority]
    cases hfind : sources.find? fun i => s.irqStack.getLsbD i with
    | none => exact ⟨h.creg, h.flag, decide_eq_true_iff, h.latched, h.pending, h.below, h.small, h.count⟩
    | some i =>
      have hi := sources_lt i (List.mem_of_find?_eq_some hfind)
      have hbit : s.irqStack.getLsbD i = true := List.find?_some hfind
      have hstack : s.irqStack ||| pow2 i = s.irqStack := or_pow2_self hi hbit
      have hpending : pow2 i ||| s.irqStack = g.pending := by
        rw [BitVec.or_comm, hstack, ← h.pending]
        refine BitVec.eq_of_getLsbD_eq fun j _ => ?_
        have hbelow := congrArg (BitVec.getLsbD · j) (h.below hpriority)
        simp only [BitVec.getLsbD_and, BitVec.getLsbD_or] at hbelow ⊢
        revert hbelow
        cases s.active.getLsbD j <;> cases s.irqStack.getLsbD j <;> simp
      refine ⟨h.creg, h.flag, decide_eq_true_iff, h.latched, hpending, fun _ => ?_, h.small, h.count⟩
      dsimp only
      rw [← hstack]
      refine BitVec.eq_of_getLsbD_eq fun j _ => ?_
      simp only [BitVec.getLsbD_and, BitVec.getLsbD_or]
      cases s.irqStack.getLsbD j <;> cases (pow2 i).getLsbD j <;> rfl
  · rw [if_neg hpriority]
    exact ⟨h.creg, h.flag, decide_eq_true_iff, h.latched, h.pending, h.below, h.small, h.count⟩

/-- The count of what is taken away. -/
theorem count_leave (hin : x &&& y = x) (j : Nat) :
    (y.getLsbD j).toNat = (x.getLsbD j).toNat + ((y &&& ~~~x).getLsbD j).toNat := by
  have hbit := congrArg (BitVec.getLsbD · j) hin
  by_cases hj : j < 8
  · simp only [BitVec.getLsbD_and, BitVec.getLsbD_not, hj, decide_true, Bool.true_and] at hbit ⊢
    revert hbit
    cases x.getLsbD j <;> cases y.getLsbD j <;> simp
  · rw [BitVec.getLsbD_of_ge _ j (by omega), BitVec.getLsbD_of_ge _ j (by omega),
      BitVec.getLsbD_of_ge _ j (by omega)]
    rfl

theorem active_pending (h : Matches creg s g) : s.active &&& g.pending = s.active := by
  rw [← h.pending]
  refine BitVec.eq_of_getLsbD_eq fun j _ => ?_
  simp only [BitVec.getLsbD_and, BitVec.getLsbD_or]
  cases s.active.getLsbD j <;> cases s.irqStack.getLsbD j <;> rfl

/-- What a read leaves in the two modes. -/
theorem pushIrqState_eq (s : Tpi) : pushIrqState s =
    if irqPriority s then
      (s.active, { s with
        latches := s.latches &&& ~~~s.active, irqStack := s.irqStack &&& ~~~s.active, active := 0,
        line := false })
    else
      (s.active, { s with
        latches := s.latches &&& ~~~s.active, active := s.irqStack &&& ~~~s.active, irqStack := 0,
        line := s.irqStack &&& ~~~s.active ≠ 0 }) := by
  by_cases hpriority : s.creg &&& 2#8 = 0#8
  · simp [pushIrqState, irqPriority, hpriority]
  · simp [pushIrqState, irqPriority, hpriority]

theorem matches_readAir (h : Matches creg s g) : Matches creg (tpi s .readAir) (track s g .readAir) := by
  have hrest : s.irqStack &&& ~~~s.active = g.pending &&& ~~~s.active := by
    rw [← h.pending, BitVec.or_comm, or_and_not]
  have hcount : ∀ b, g.entered b = counted g.returned s.active b + g.withdrawn b +
      ((g.pending &&& ~~~s.active).getLsbD b).toNat := by
    intro b
    rw [h.count b, counted, count_leave (active_pending h) b]
    omega
  have hsmall := And.intro (small_and h.small.1 (~~~s.active)) (small_and h.small.2 (~~~s.active))
  unfold tpi track readAir
  rw [pushIrqState_eq]
  by_cases hpriority : irqPriority s
  · rw [if_pos hpriority]
    refine ⟨h.creg, h.flag, by simp, congrArg (· &&& ~~~s.active) h.latched, ?_, fun _ => ?_, hsmall, hcount⟩
    · exact (BitVec.zero_or).trans hrest
    · exact BitVec.zero_and
  · rw [if_neg hpriority]
    refine ⟨h.creg, h.flag, decide_eq_true_iff, congrArg (· &&& ~~~s.active) h.latched, ?_,
      fun hp => absurd hp hpriority, hsmall, hcount⟩
    exact (BitVec.or_zero).trans hrest

/-- On every event that stores to the latches only what it may, the two go on together. -/
theorem matches_step (hmode : creg &&& 1 ≠ 0) (h : Matches creg s g) (e : Event)
    (hclear : ∀ byte, e = .storeLatches byte → ClearsIdle s byte) : Matches creg (tpi s e) (track s g e) := by
  cases e with
  | setInt bit state => exact matches_setInt bit state h
  | storeMask byte => exact matches_storeMask hmode byte h
  | storeLatches byte => exact matches_storeLatches hmode (hclear byte rfl) h
  | storeAir byte => exact matches_storeAir byte h
  | readAir => exact matches_readAir h

end

end Vice.L4.TpiCore
