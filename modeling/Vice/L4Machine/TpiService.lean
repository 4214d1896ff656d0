import Vice.L4Machine.TpiCore

/-!
# No interrupt is lost (`core/tpicore.c`)

The processor serves the interrupts of a TPI by reading the active interrupt register and storing to it,
until the line is released. That returns all that waits, if the line is asserted while something does.
Three things in the chip's code can spoil it:

* a store to the latches sets them to what is stored, where it should clear those that are 0 in it;
* a latch that is cleared leaves its source on the stack;

Results:
-/
namespace Vice.L4.TpiService
open Vice.L4.TpiCore

section
variable {s : Tpi} {g : Tracker} {x : Tpi × Tracker} {creg byte : BitVec 8} {i : Nat}

/-! ## The line -/

/-- The line is not low while something waits, but in a service of priority mode. -/
def Answered (s : Tpi) (g : Tracker) : Prop :=
  g.serving = false ∨ ¬ irqPriority s → s.active = 0 → s.irqStack = 0

/-- The line is asserted for a source that comes to wait, or will be at the end of the service. -/
def Heard (s : Tpi) (g : Tracker) (i : Nat) : Prop :=
  g.serving = true ∨ s.active ≠ 0 ∨ ¬ irqPriority s ∨ Topmost s.latches i

/-- None of the three happens. -/
def Proper (s : Tpi) (g : Tracker) : Event → Prop
  | .setInt bit state => bit < 5 → Latches s bit state → s.mask.getLsbD bit = true → Heard s g bit
  | .storeMask byte => (∀ i ∈ sources, (byte &&& s.latches).getLsbD i = false) ∨
      ∃ i ∈ sources, (byte &&& s.latches).getLsbD i = true ∧ Heard s g i
  | .storeLatches byte => ClearsIdle s byte
  | .storeAir _ => True
  | .readAir => True

theorem setLatchBit_active (hi : i < 5) (hmask : s.mask.getLsbD i = true)
    (h : s.active ≠ 0 ∨ ¬ irqPriority s ∨ Topmost s.latches i) : (setLatchBit s (pow2 i)).active ≠ 0 := by
  rw [setLatchBit_passed hi hmask]
  split_ifs with hraises
  · exact pow2_ne_zero hi
  · unfold Raises at hraises
    obtain hactive | hplain | htop := h
    · exact hactive
    · rwa [if_neg hplain] at hraises
    · by_cases hpriority : irqPriority s
      · rw [if_pos hpriority] at hraises
        exact absurd htop hraises
      · rwa [if_neg hpriority] at hraises

theorem setLatchBit_latches (hi : i < 5) : (setLatchBit s (pow2 i)).latches = s.latches ||| pow2 i := by
  cases hmask : s.mask.getLsbD i with
  | false => rw [setLatchBit_masked hi hmask]
  | true =>
    rw [setLatchBit_passed hi hmask]
    split_ifs <;> rfl

theorem setLatchBit_creg (hi : i < 5) : (setLatchBit s (pow2 i)).creg = s.creg := by
  cases hmask : s.mask.getLsbD i with
  | false => rw [setLatchBit_masked hi hmask]
  | true =>
    rw [setLatchBit_passed hi hmask]
    split_ifs <;> rfl

theorem raiseAll_none {l : List Nat} (h : ∀ i ∈ l, (s.mask &&& s.latches).getLsbD i = false) :
    raiseAll l s = s := by
  induction l with
  | nil => rfl
  | cons i l ih =>
    unfold raiseAll
    rw [List.foldl_cons, h i (List.mem_cons_self ..), if_neg Bool.false_ne_true]
    exact ih fun j hj => h j (List.mem_cons_of_mem i hj)

/-- One source that is heard is enough. -/
theorem raiseAll_active {l : List Nat} (hl : ∀ i ∈ l, i < 5) (h : s.active ≠ 0 ∨ ∃ i ∈ l,
      (s.mask &&& s.latches).getLsbD i = true ∧ (¬ irqPriority s ∨ Topmost s.latches i)) :
    (raiseAll l s).active ≠ 0 := by
  induction l generalizing s with
  | nil =>
    obtain hactive | ⟨i, hi, -⟩ := h
    · exact hactive
    · cases hi
  | cons j l ih =>
    have hj := hl j (List.mem_cons_self ..)
    have hrest := fun k hk => hl k (List.mem_cons_of_mem j hk)
    unfold raiseAll
    rw [List.foldl_cons]
    by_cases hbit : (s.mask &&& s.latches).getLsbD j = true
    · have hboth := hbit
      rw [BitVec.getLsbD_and, Bool.and_eq_true] at hboth
      have hlatches : (setLatchBit s (pow2 j)).latches = s.latches := by
        rw [setLatchBit_latches hj, or_pow2_self hj hboth.2]
      have hpriority : irqPriority (setLatchBit s (pow2 j)) ↔ irqPriority s := by
        unfold irqPriority
        rw [setLatchBit_creg hj]
      rw [if_pos hbit]
      apply ih hrest
      obtain hactive | ⟨i, hi, hset, hheard⟩ := h
      · exact Or.inl (setLatchBit_active hj hboth.1 (Or.inl hactive))
      · obtain rfl | hi := List.mem_cons.mp hi
        · exact Or.inl (setLatchBit_active hj hboth.1 (Or.inr hheard))
        · refine Or.inr ⟨i, hi, ?_, ?_⟩
          · rwa [setLatchBit_mask hj, hlatches]
          · rwa [hpriority, hlatches]
    · rw [if_neg hbit]
      apply ih hrest
      obtain hactive | ⟨i, hi, hset, hheard⟩ := h
      · exact Or.inl hactive
      · obtain rfl | hi := List.mem_cons.mp hi
        · exact absurd hset hbit
        · exact Or.inr ⟨i, hi, hset, hheard⟩

/-- A source that was heard while no service has to end is active. -/
theorem heard_idle (h : Heard s g i) (hidle : g.serving = false ∨ ¬ irqPriority s) :
    s.active ≠ 0 ∨ ¬ irqPriority s ∨ Topmost s.latches i := by
  obtain hserving | hrest := h
  · exact Or.inr (Or.inl (hidle.resolve_left (by rw [hserving]; exact Bool.noConfusion)))
  · exact hrest

/-! ## Events -/

theorem answered_setInt (bit : Nat) (state : Bool) (h : Answered s g) (hproper : Proper s g (.setInt bit state)) :
    Answered (tpi s (.setInt bit state)) (track s g (.setInt bit state)) := by
  unfold tpi track tpicoreSetInt
  dsimp only
  by_cases hbit : 5 ≤ bit
  · have hnone : ¬ (bit < 5 ∧ Latches s bit state) := fun hboth => absurd hboth.1 (by omega)
    rw [if_pos hbit, if_neg hnone]
    exact h
  · have hlt : bit < 5 := by omega
    rw [if_neg hbit]
    by_cases hlatches : Latches s bit state
    · have hboth : bit < 5 ∧ Latches s bit state := ⟨hlt, hlatches⟩
      rw [if_pos hlatches, if_pos hboth]
      cases hmask : s.mask.getLsbD bit with
      | false =>
        rw [if_neg Bool.false_ne_true, setLatchBit_masked hlt hmask]
        exact h
      | true =>
        rw [if_pos rfl]
        intro hidle hactive
        have hidle' : g.serving = false ∨ ¬ irqPriority s := by
          unfold irqPriority at hidle ⊢
          dsimp only at hidle
          rwa [setLatchBit_creg hlt] at hidle
        exact absurd hactive
          (setLatchBit_active hlt hmask (heard_idle (hproper hlt hlatches hmask) hidle'))
    · have hnone : ¬ (bit < 5 ∧ Latches s bit state) := fun hboth => hlatches hboth.2
      rw [if_neg hlatches, if_neg hnone]
      exact h

theorem raiseAll_creg {l : List Nat} (hl : ∀ i ∈ l, i < 5) : (raiseAll l s).creg = s.creg := by
  induction l generalizing s with
  | nil => rfl
  | cons i l ih =>
    have hrest := fun j hj => hl j (List.mem_cons_of_mem i hj)
    unfold raiseAll
    rw [List.foldl_cons]
    by_cases hbit : (s.mask &&& s.latches).getLsbD i = true
    · rw [if_pos hbit]
      exact (ih hrest).trans (setLatchBit_creg (hl i (List.mem_cons_self ..)))
    · rw [if_neg hbit]
      exact ih hrest

theorem enterAll_serving (byte : BitVec 8) (l : List Nat) : (enterAll byte l g).serving = g.serving := by
  induction l generalizing g with
  | nil => rfl
  | cons i l ih =>
    unfold enterAll
    rw [List.foldl_cons]
    split_ifs
    · exact ih
    · exact ih

theorem answered_storeMask (hmode : creg &&& 1 ≠ 0) (hmatches : Matches creg s g) (h : Answered s g)
    (hproper : Proper s g (.storeMask byte)) :
    Answered (tpi s (.storeMask byte)) (track s g (.storeMask byte)) := by
  have hmode' : irqMode { s with mask := byte } := by
    rw [← hmatches.creg] at hmode
    exact hmode
  have hstep : tpi s (.storeMask byte) = raiseAll sources { s with mask := byte } := by
    unfold tpi
    dsimp only
    rw [tpicoreStore_eq hmatches.flag]
    exact if_pos hmode'
  have htrack : (track s g (.storeMask byte)).serving = g.serving := enterAll_serving byte sources
  rw [hstep]
  obtain hnone | ⟨i, hi, hset, hheard⟩ := hproper
  · have hsame := @raiseAll_none { s with mask := byte } sources hnone
    rw [hsame]
    intro hidle
    rw [htrack] at hidle
    exact h hidle
  · intro hidle hactive
    rw [htrack] at hidle
    unfold irqPriority at hidle
    rw [raiseAll_creg sources_lt] at hidle
    refine absurd hactive (raiseAll_active sources_lt ?_)
    obtain hactive' | hrest := heard_idle hheard hidle
    · exact Or.inl hactive'
    · exact Or.inr ⟨i, hi, hset, hrest⟩

theorem answered_storeLatches (hmatches : Matches creg s g) (h : Answered s g) (byte : BitVec 8) :
    Answered (tpi s (.storeLatches byte)) (track s g (.storeLatches byte)) := by
  unfold tpi
  dsimp only
  rw [tpicoreStore_eq hmatches.flag]
  unfold storeNow
  dsimp only
  split_ifs
  · exact h
  · exact h

/-- The end of a service brings the next source up. -/
theorem answered_storeAir (hmatches : Matches creg s g) (h : Answered s g) (byte : BitVec 8) :
    Answered (tpi s (.storeAir byte)) (track s g (.storeAir byte)) := by
  unfold tpi track
  dsimp only
  rw [tpicoreStore_eq hmatches.flag]
  unfold storeNow popIrqState
  dsimp only
  by_cases hpriority : irqPriority s
  · rw [if_pos hpriority]
    cases hfind : sources.find? fun i => s.irqStack.getLsbD i with
    | some i =>
      intro _ hactive
      exact absurd hactive (pow2_ne_zero (sources_lt i (List.mem_of_find?_eq_some hfind)))
    | none =>
      intro _ _
      by_contra hstack
      have hin : s.irqStack &&& g.pending = s.irqStack := by
        rw [← hmatches.pending]
        refine BitVec.eq_of_getLsbD_eq fun j _ => ?_
        simp only [BitVec.getLsbD_and, BitVec.getLsbD_or]
        cases s.active.getLsbD j <;> cases s.irqStack.getLsbD j <;> rfl
      have hsmall : s.irqStack &&& 0x1f = s.irqStack := by
        rw [← hin, BitVec.and_assoc, hmatches.small.2]
      obtain ⟨i, hsome, -⟩ := exists_source hsmall hstack
      rw [hfind] at hsome
      cases hsome
  · rw [if_neg hpriority]
    exact fun _ => h (Or.inr hpriority)

theorem answered_readAir : Answered (tpi s .readAir) (track s g .readAir) := by
  unfold tpi track readAir
  rw [pushIrqState_eq]
  by_cases hpriority : irqPriority s
  · rw [if_pos hpriority]
    intro hidle
    obtain hserving | hplain := hidle
    · cases hserving
    · exact absurd hpriority hplain
  · rw [if_neg hpriority]
    exact fun _ _ => rfl

theorem answered_step (hmode : creg &&& 1 ≠ 0) (hmatches : Matches creg s g) (h : Answered s g) {e : Event}
    (hproper : Proper s g e) : Answered (tpi s e) (track s g e) := by
  cases e with
  | setInt bit state => exact answered_setInt bit state h hproper
  | storeMask byte => exact answered_storeMask hmode hmatches h hproper
  | storeLatches byte => exact answered_storeLatches hmatches h byte
  | storeAir byte => exact answered_storeAir hmatches h byte
  | readAir => exact answered_readAir

/-! ## Runs -/

def move (x : Tpi × Tracker) (e : Event) : Tpi × Tracker := (tpi x.1 e, track x.1 x.2 e)

def moves (x : Tpi × Tracker) (es : List Event) : Tpi × Tracker := es.foldl move x

/-- The chip in interrupt mode after a reset, and nothing waits. -/
def start (s : Tpi) (creg : BitVec 8) : Tpi × Tracker :=
  (tpicoreStore (tpicoreReset s) .creg creg, ⟨0, 0, false, fun _ => 0, fun _ => 0, fun _ => 0⟩)

/-- A run without the three. -/
def Properly (x : Tpi × Tracker) : List Event → Prop
  | [] => True
  | e :: es => Proper x.1 x.2 e ∧ Properly (move x e) es

structure Kept (creg : BitVec 8) (x : Tpi × Tracker) : Prop where
  agree : Matches creg x.1 x.2
  answered : Answered x.1 x.2

theorem kept_start (s : Tpi) (creg : BitVec 8) : Kept creg (start s creg) := by
  have hstore : tpicoreStore (tpicoreReset s) .creg creg =
      { tpicoreReset s with creg := creg, rmwFlag := false } := by
    unfold tpicoreStore
    split_ifs with hflag
    · rfl
    · rw [Bool.not_eq_true] at hflag
      rw [← hflag]
      rfl
  unfold start
  rw [hstore]
  refine ⟨⟨rfl, rfl, ⟨fun h => Bool.noConfusion h, fun h => absurd rfl h⟩, rfl, BitVec.zero_or,
    fun _ => BitVec.zero_and,
    ⟨BitVec.zero_and, BitVec.zero_and⟩, ?_⟩,
    fun _ _ => rfl⟩
  intro b
  simp

theorem kept_move (hmode : creg &&& 1 ≠ 0) (h : Kept creg x) {e : Event} (hproper : Proper x.1 x.2 e) :
    Kept creg (move x e) := by
  refine ⟨matches_step hmode h.agree e ?_, answered_step hmode h.agree h.answered hproper⟩
  rintro byte rfl
  exact hproper

theorem kept_moves (hmode : creg &&& 1 ≠ 0) {es : List Event} (h : Kept creg x) (hproper : Properly x es) :
    Kept creg (moves x es) := by
  induction es generalizing x with
  | nil => exact h
  | cons e es ih => exact ih (kept_move hmode h hproper.1) hproper.2

/-! ## Serving -/

/-- A service that goes on ends. -/
def ended (x : Tpi × Tracker) : Tpi × Tracker := if x.2.serving then move x (.storeAir 0) else x

/-- The processor reads the register and stores to it. -/
def serve (x : Tpi × Tracker) : Tpi × Tracker := move (move x .readAir) (.storeAir 0)

theorem kept_ended (hmode : creg &&& 1 ≠ 0) (h : Kept creg x) :
    Kept creg (ended x) ∧ (ended x).2.serving = false := by
  unfold ended
  split_ifs with hserving
  · exact ⟨kept_move hmode h trivial, rfl⟩
  · exact ⟨h, Bool.eq_false_iff.mpr hserving⟩

theorem kept_serve (hmode : creg &&& 1 ≠ 0) (h : Kept creg x) :
    Kept creg (serve x) ∧ (serve x).2.serving = false :=
  ⟨kept_move hmode (@kept_move x creg hmode h .readAir trivial) trivial, rfl⟩

/-- With the line low and no service, nothing waits. -/
theorem pending_of_low (h : Kept creg x) (hserving : x.2.serving = false) (hlow : x.1.line = false) :
    x.2.pending = 0 := by
  have hactive : x.1.active = 0 := by
    by_contra hne
    rw [h.agree.line.mpr hne] at hlow
    cases hlow
  rw [← h.agree.pending, hactive, h.answered (Or.inl hserving) hactive]
  rfl

/-- What is taken away from a set makes it smaller. -/
theorem toNat_and_not_lt {a y : BitVec 8} (hin : a &&& y = a) (hne : a ≠ 0) : (y &&& ~~~a).toNat < y.toNat := by
  have hapart : (y &&& ~~~a) &&& a = 0#8 := by
    refine BitVec.eq_of_getLsbD_eq fun j hj => ?_
    simp only [BitVec.getLsbD_and, BitVec.getLsbD_not, BitVec.getLsbD_zero, hj, decide_true, Bool.true_and]
    cases y.getLsbD j <;> cases a.getLsbD j <;> rfl
  have hwhole : (y &&& ~~~a) + a = y := by
    rw [BitVec.add_eq_or_of_and_eq_zero _ _ hapart]
    refine BitVec.eq_of_getLsbD_eq fun j hj => ?_
    have hbit := congrArg (BitVec.getLsbD · j) hin
    simp only [BitVec.getLsbD_and, BitVec.getLsbD_or, BitVec.getLsbD_not, hj, decide_true, Bool.true_and] at hbit ⊢
    revert hbit
    cases y.getLsbD j <;> cases a.getLsbD j <;> simp
  have hsum := BitVec.toNat_add_of_and_eq_zero hapart
  rw [hwhole] at hsum
  have hpos : a.toNat ≠ 0 := fun hzero => hne (BitVec.eq_of_toNat_eq hzero)
  omega

theorem serve_lt (h : Kept creg x) (hline : x.1.line = true) :
    (serve x).2.pending.toNat < x.2.pending.toNat := by
  have hread : (readAir x.1).1 = x.1.active := rfl
  have hpending : (serve x).2.pending = x.2.pending &&& ~~~x.1.active := by
    unfold serve move track
    dsimp only
    rw [hread]
  rw [hpending]
  exact toNat_and_not_lt (active_pending h.agree) (h.agree.line.mp hline)

/-- Serving comes to an end with nothing left. -/
theorem served (hmode : creg &&& 1 ≠ 0) (h : Kept creg x) (hserving : x.2.serving = false) :
    ∃ n, (∀ m < n, (serve^[m] x).1.line = true) ∧ (serve^[n] x).1.line = false ∧
      (serve^[n] x).2.pending = 0 := by
  induction hk : x.2.pending.toNat using Nat.strongRecOn generalizing x with
  | ind k ih =>
    cases hline : x.1.line with
    | false =>
      refine ⟨0, fun m hm => absurd hm (Nat.not_lt_zero m), hline, pending_of_low h hserving hline⟩
    | true =>
      have hless := serve_lt h hline
      obtain ⟨hkept, hserving'⟩ := kept_serve hmode h
      obtain ⟨n, hhigh, hlow, hnone⟩ := ih _ (hk ▸ hless) hkept hserving' rfl
      refine ⟨n + 1, fun m hm => ?_, hlow, hnone⟩
      cases m with
      | zero => exact hline
      | succ m =>
        rw [Function.iterate_succ_apply]
        exact hhigh m (Nat.lt_of_succ_lt_succ hm)

/-! ## Nothing is lost or invented -/

/-- The line is asserted exactly for active interrupts. Each source came to wait as often as it was
returned or taken back, and once more if it waits. When the processor goes on with its services till the
line is released, nothing waits any more. -/
structure Sound (x : Tpi × Tracker) : Prop where
  line : x.1.line = true ↔ x.1.active ≠ 0
  count : ∀ b, x.2.entered b = x.2.returned b + x.2.withdrawn b + (x.2.pending.getLsbD b).toNat
  served : ∃ n, (∀ m < n, (serve^[m] (ended x)).1.line = true) ∧ (serve^[n] (ended x)).1.line = false ∧
    (serve^[n] (ended x)).2.pending = 0

theorem tpi_sound (s : Tpi) (creg : BitVec 8) (hmode : creg &&& 1 ≠ 0) (es : List Event)
    (hproper : Properly (start s creg) es) : Sound (moves (start s creg) es) := by
  have hkept := kept_moves hmode (kept_start s creg) hproper
  obtain ⟨hended, hserving⟩ := kept_ended hmode hkept
  exact ⟨hkept.agree.line, hkept.agree.count, served hmode hended hserving⟩

end

/-- A chip as it comes. -/
def blank : Tpi := ⟨0, 0, 0, 0, 0, 0, 0, true, false⟩

theorem tpi_sound_edge : Sound (moves (start blank 1) [.storeMask 0x1f, .setInt 0 true, .readAir]) :=
  tpi_sound blank 1 (by decide) [.storeMask 0x1f, .setInt 0 true, .readAir]
    ⟨Or.inl (by decide), fun _ _ _ => Or.inr (Or.inr (Or.inl (by decide))), trivial, trivial⟩

/-- A store to the latches makes an interrupt where there was no edge. -/
theorem stored_latch_returned : (readAir (moves (start blank 1) [.storeLatches 1, .storeMask 1]).1).1 = 1 ∧
    ¬ Sound (moves (start blank 1) [.storeLatches 1, .storeMask 1, .readAir]) :=
  ⟨by decide, fun h => absurd (h.count 0) (by decide)⟩

end Vice.L4.TpiService
