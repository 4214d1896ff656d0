import Mathlib.Data.Nat.Bitwise

/-!
# Interrupt lines (`interrupt.h`)

Every source of interrupts has a word with a bit for each line it holds, and the CPU sees the lines
together: IRQ as long as any source holds it, NMI from the first source on until it is
acknowledged. How many sources hold a line is counted as they take it and let it go.

`nirq` and `nnmi` never exceed the number of sources, so they are integers here. What
`nmi_trap_func` does after an acknowledgement are calls of their own.

Results:
* `irq_counted`, `nmi_counted`: a call keeps the counts and the IRQ line.
* `lines_accounted`: after a reset this holds in every run of calls, and no branch that reports a
  wrong count is entered.
-/
namespace Vice.L4.InterruptLines

/-! ## Model -/

def ikNmi : UInt32 := 0x01
def ikIrq : UInt32 := 0x02
def ikIrqpend : UInt32 := 0x40

def clockMax : UInt64 := ~~~0

/-- mirrors src/interrupt.h:54-119 (`interrupt_cpu_status_s`) without resets and traps.
`num_ints` is the length of `pending_int`. -/
structure InterruptCpuStatus where
  pendingInt : List UInt32
  nirq : Int
  irqClk : UInt64
  nnmi : Int
  nmiClk : UInt64
  numDmaPerOpcode : Nat
  numCyclesLeft : Nat → UInt64
  dmaStartClk : Nat → UInt64
  irqDelayCycles : UInt64
  nmiDelayCycles : UInt64
  lastOpcodeInfo : UInt32
  lastStolenCyclesClk : UInt64
  irqPendingClk : UInt64
  globalPendingInt : UInt32

/-- mirrors src/interrupt.c:54-80 -/
def interruptCpuStatusReset (cs : InterruptCpuStatus) : InterruptCpuStatus where
  pendingInt := List.replicate cs.pendingInt.length 0
  nirq := 0
  irqClk := 0
  nnmi := 0
  nmiClk := 0
  numDmaPerOpcode := 0
  numCyclesLeft := fun _ => 0
  dmaStartClk := fun _ => 0
  irqDelayCycles := 0
  nmiDelayCycles := 0
  lastOpcodeInfo := cs.lastOpcodeInfo
  lastStolenCyclesClk := 0
  irqPendingClk := clockMax
  globalPendingInt := 0

/-- The locals of `interrupt_fixup_int_clk`. -/
structure DmaScan where
  numCyclesLeft : UInt64
  lastNumCyclesLeft : UInt64
  lastStartClk : UInt64

/-- The loop of `interrupt_fixup_int_clk`. -/
def scanDma (cs : InterruptCpuStatus) (cpuClk : UInt64) : Nat → DmaScan → DmaScan
  | 0, d => d
  | numDma + 1, d =>
    let left := cs.numCyclesLeft numDma
    if cs.dmaStartClk numDma - 1 ≤ cpuClk then { d with numCyclesLeft := left }
    else scanDma cs cpuClk numDma ⟨left, left, cs.dmaStartClk numDma⟩

/-- mirrors src/interrupt.c:219-279; the result is what `*int_clk` is set to -/
def interruptFixupIntClk (cs : InterruptCpuStatus) (cpuClk : UInt64) : UInt64 :=
  let cyclesLeftToTriggerIrq : UInt64 := if cs.lastOpcodeInfo &&& 0x100 ≠ 0 then 2 else 1
  let d := scanDma cs cpuClk cs.numDmaPerOpcode ⟨0, 0, clockMax⟩
  let left :=
    if d.numCyclesLeft - d.lastNumCyclesLeft > d.lastStartClk - cpuClk - 1 then
      d.lastNumCyclesLeft + d.lastStartClk - cpuClk - 1
    else d.numCyclesLeft
  let intClk := cs.lastStolenCyclesClk
  let intClk :=
    if cs.numDmaPerOpcode > 0 ∧ cs.dmaStartClk 0 > cpuClk then intClk - (cs.dmaStartClk 0 - cpuClk)
    else intClk
  if left ≥ cyclesLeftToTriggerIrq then intClk - (cyclesLeftToTriggerIrq + 1) else intClk

/-- The clock of an interrupt: the CPU may have had cycles stolen since. -/
def intClk (cs : InterruptCpuStatus) (cpuClk : UInt64) : UInt64 :=
  if cs.lastStolenCyclesClk ≤ cpuClk then cpuClk else interruptFixupIntClk cs cpuClk

/-- `interrupt_log_wrong_nirq` and `interrupt_log_wrong_nnmi` -/
inductive Wrong
  | nirq | nnmi
  deriving DecidableEq, Repr

/-- mirrors src/interrupt.h:141-196, with what is logged -/
def interruptSetIrq (cs : InterruptCpuStatus) (intNum : Nat) (value : Int) (cpuClk : UInt64) :
    InterruptCpuStatus × Option Wrong :=
  match cs.pendingInt[intNum]? with
  | none => (cs, none)
  | some p =>
    if value ≠ 0 then
      if p &&& ikIrq = 0 then
        let cs : InterruptCpuStatus :=
          { cs with pendingInt := cs.pendingInt.set intNum (p ||| ikIrq) }
        let cs :=
          if cs.nirq = 0 then
            { cs with
              globalPendingInt := cs.globalPendingInt ||| (ikIrq ||| ikIrqpend)
              irqPendingClk := clockMax
              irqDelayCycles := 0
              irqClk := intClk cs cpuClk }
          else cs
        ({ cs with nirq := cs.nirq + 1 }, none)
      else (cs, none)
    else if p &&& ikIrq ≠ 0 then
      if cs.nirq > 0 then
        let cs : InterruptCpuStatus := { cs with
          pendingInt := cs.pendingInt.set intNum (p &&& ~~~ikIrq)
          nirq := cs.nirq - 1 }
        if cs.nirq = 0 then
          ({ cs with
            globalPendingInt := cs.globalPendingInt &&& ~~~ikIrq
            irqPendingClk := cpuClk + 3 }, none)
        else (cs, none)
      else (cs, some .nirq)
    else (cs, none)

/-- mirrors src/interrupt.h:199-250, with what is logged -/
def interruptSetNmi (cs : InterruptCpuStatus) (intNum : Nat) (value : Int) (cpuClk : UInt64) :
    InterruptCpuStatus × Option Wrong :=
  match cs.pendingInt[intNum]? with
  | none => (cs, none)
  | some p =>
    if value ≠ 0 then
      if p &&& ikNmi = 0 then
        let cs :=
          if cs.nnmi = 0 ∧ cs.globalPendingInt &&& ikNmi = 0 then
            { cs with
              globalPendingInt := cs.globalPendingInt ||| ikNmi
              nmiDelayCycles := 0
              nmiClk := intClk cs cpuClk }
          else cs
        ({ cs with
          nnmi := cs.nnmi + 1
          pendingInt := cs.pendingInt.set intNum (p ||| ikNmi) }, none)
      else (cs, none)
    else if p &&& ikNmi ≠ 0 then
      if cs.nnmi > 0 then
        ({ cs with
          nnmi := cs.nnmi - 1
          pendingInt := cs.pendingInt.set intNum (p &&& ~~~ikNmi) }, none)
      else (cs, some .nnmi)
    else (cs, none)

/-- mirrors src/interrupt.h:273-281, before `nmi_trap_func` -/
def interruptAckNmi (cs : InterruptCpuStatus) : InterruptCpuStatus :=
  { cs with globalPendingInt := cs.globalPendingInt &&& ~~~ikNmi }

/-- mirrors src/interrupt.h:284-289 -/
def interruptAckIrq (cs : InterruptCpuStatus) : InterruptCpuStatus :=
  { cs with
    globalPendingInt := cs.globalPendingInt &&& ~~~ikIrqpend
    irqPendingClk := clockMax }

inductive Call
  | setIrq (intNum : Nat) (value : Int) (cpuClk : UInt64)
  | setNmi (intNum : Nat) (value : Int) (cpuClk : UInt64)
  | ackIrq
  | ackNmi
  deriving DecidableEq, Repr

def step (cs : InterruptCpuStatus) : Call → InterruptCpuStatus × Option Wrong
  | .setIrq intNum value cpuClk => interruptSetIrq cs intNum value cpuClk
  | .setNmi intNum value cpuClk => interruptSetNmi cs intNum value cpuClk
  | .ackIrq => (interruptAckIrq cs, none)
  | .ackNmi => (interruptAckNmi cs, none)

def run (cs : InterruptCpuStatus) (calls : List Call) : InterruptCpuStatus :=
  calls.foldl (fun cs c => (step cs c).1) cs

/-! ## What holds between calls -/

def has (ik x : UInt32) : Bool := x &&& ik ≠ 0

/-- The counts are right, and the CPU sees an IRQ as long as a source holds it. -/
structure Counted (cs : InterruptCpuStatus) : Prop where
  nirq : cs.nirq = (cs.pendingInt.countP (has ikIrq) : Nat)
  nnmi : cs.nnmi = (cs.pendingInt.countP (has ikNmi) : Nat)
  line : has ikIrq cs.globalPendingInt = true ↔ cs.nirq > 0

/-- The CPU begins to see an NMI when the first source takes the line, and stops when it
acknowledges it. -/
structure NmiEdge (cs : InterruptCpuStatus) (c : Call) : Prop where
  raised : has ikNmi cs.globalPendingInt = false →
    has ikNmi (step cs c).1.globalPendingInt = true → cs.nnmi = 0 ∧ (step cs c).1.nnmi = 1
  cleared : has ikNmi cs.globalPendingInt = true →
    has ikNmi (step cs c).1.globalPendingInt = false → c = .ackNmi

section
variable {cs : InterruptCpuStatus} {intNum i : Nat} {value : Int} {cpuClk : UInt64} {p q x y : UInt32}
  {f : UInt32 → Bool} {l : List UInt32}

/-! ## Bits -/

def OneBit (ik : UInt32) : Prop := ∃ i, ik.toNat = 2 ^ i

theorem ikIrq_oneBit : OneBit ikIrq := ⟨1, rfl⟩

theorem ikNmi_oneBit : OneBit ikNmi := ⟨0, rfl⟩

theorem has_eq {ik : UInt32} (h : ik.toNat = 2 ^ i) (x : UInt32) : has ik x = x.toNat.testBit i := by
  have hand : (x &&& ik).toNat = (x.toNat.testBit i).toNat * 2 ^ i := by
    rw [UInt32.toNat_and, h, Nat.and_two_pow]
  have hzero : x &&& ik = 0 ↔ (x &&& ik).toNat = 0 := by
    rw [← UInt32.toNat_inj]
    rfl
  rw [has]
  cases hbit : x.toNat.testBit i with
  | false => simp [hzero, hand, hbit]
  | true => simp [hzero, hand, hbit]

theorem has_or {ik : UInt32} (h : OneBit ik) (x y : UInt32) : has ik (x ||| y) = (has ik x || has ik y) := by
  obtain ⟨i, hi⟩ := h
  simp [has_eq hi]

theorem has_and {ik : UInt32} (h : OneBit ik) (x y : UInt32) : has ik (x &&& y) = (has ik x && has ik y) := by
  obtain ⟨i, hi⟩ := h
  simp [has_eq hi]

theorem and_eq_zero_iff {ik : UInt32} : x &&& ik = 0 ↔ has ik x = false := by
  simp [has]

/-! ## Counting sources -/

theorem countP_raised (hl : l[i]? = some p) (hp : f p = false) (hq : f q = true) :
    (l.set i q).countP f = l.countP f + 1 := by
  obtain ⟨hi, hget⟩ := List.getElem?_eq_some_iff.mp hl
  simp [List.countP_set hi, hget, hp, hq]

theorem countP_lowered (hl : l[i]? = some p) (hp : f p = true) (hq : f q = false) :
    (l.set i q).countP f + 1 = l.countP f := by
  obtain ⟨hi, hget⟩ := List.getElem?_eq_some_iff.mp hl
  have hpos : 0 < l.countP f :=
    List.countP_pos_iff.mpr ⟨p, List.mem_of_getElem? hl, hp⟩
  simp [List.countP_set hi, hget, hp, hq]
  omega

theorem countP_kept (hl : l[i]? = some p) (hq : f q = f p) : (l.set i q).countP f = l.countP f := by
  obtain ⟨hi, hget⟩ := List.getElem?_eq_some_iff.mp hl
  have hpos : f p = true → 0 < l.countP f := fun hp =>
    List.countP_pos_iff.mpr ⟨p, List.mem_of_getElem? hl, hp⟩
  cases hp : f p with
  | false => simp [List.countP_set hi, hget, hp, hq]
  | true =>
    have h := hpos hp
    simp [List.countP_set hi, hget, hp, hq]
    omega

/-! ## One call -/

/-- What a call on the IRQ line leaves of the NMI line. -/
structure IrqOnly (cs cs' : InterruptCpuStatus) : Prop where
  nnmi : cs'.nnmi = cs.nnmi
  line : has ikNmi cs'.globalPendingInt = has ikNmi cs.globalPendingInt

theorem set_raised {ik other : UInt32} (hik : OneBit ik) (hother : OneBit other)
    (hself : has ik ik = true) (hapart : has other ik = false) (hl : l[i]? = some p)
    (hp : has ik p = false) :
    (l.set i (p ||| ik)).countP (has ik) = l.countP (has ik) + 1 ∧
      (l.set i (p ||| ik)).countP (has other) = l.countP (has other) := by
  constructor
  · exact countP_raised hl hp (by simp [has_or hik, hself])
  · exact countP_kept hl (by simp [has_or hother, hapart])

theorem set_lowered {ik other : UInt32} (hik : OneBit ik) (hother : OneBit other)
    (hself : has ik (~~~ik) = false) (hapart : has other (~~~ik) = true) (hl : l[i]? = some p)
    (hp : has ik p = true) :
    (l.set i (p &&& ~~~ik)).countP (has ik) + 1 = l.countP (has ik) ∧
      (l.set i (p &&& ~~~ik)).countP (has other) = l.countP (has other) := by
  constructor
  · exact countP_lowered hl hp (by simp [has_and hik, hself])
  · exact countP_kept hl (by simp [has_and hother, hapart])

/-- A source that holds a line is counted. -/
theorem countP_pos_of_has {ik : UInt32} (hl : l[i]? = some p) (hp : has ik p = true) : 0 < l.countP (has ik) :=
  List.countP_pos_iff.mpr ⟨p, List.mem_of_getElem? hl, hp⟩

theorem irq_counted (h : Counted cs) (intNum : Nat) (value : Int) (cpuClk : UInt64) :
    Counted (interruptSetIrq cs intNum value cpuClk).1 ∧
      (interruptSetIrq cs intNum value cpuClk).2 = none ∧
      IrqOnly cs (interruptSetIrq cs intNum value cpuClk).1 := by
  obtain ⟨hnirq, hnnmi, hline⟩ := h
  have hself : has ikIrq ikIrq = true := by decide
  have hnmi : has ikNmi ikIrq = false := by decide
  have hpend : has ikNmi ikIrqpend = false := by decide
  have hand : has ikIrq (~~~ikIrq) = false := by decide
  have hand' : has ikNmi (~~~ikIrq) = true := by decide
  unfold interruptSetIrq
  cases hp : cs.pendingInt[intNum]? with
  | none => exact ⟨⟨hnirq, hnnmi, hline⟩, rfl, rfl, rfl⟩
  | some p =>
    simp only [ne_eq, and_eq_zero_iff, Bool.not_eq_false]
    split
    · split
      · next hhas =>
        obtain ⟨hraised, hkept⟩ := set_raised ikIrq_oneBit ikNmi_oneBit hself hnmi hp hhas
        split
        · next hzero =>
          refine ⟨⟨?_, ?_, ?_⟩, rfl, rfl, ?_⟩
          · simp only [hraised]
            omega
          · simp only [hkept, hnnmi]
          · simp only [has_or ikIrq_oneBit, hself, Bool.true_or, Bool.or_true, true_iff]
            omega
          · simp only [has_or ikNmi_oneBit, hnmi, hpend, Bool.or_false]
        · next hzero =>
          refine ⟨⟨?_, ?_, ?_⟩, rfl, rfl, rfl⟩
          · simp only [hraised]
            omega
          · simp only [hkept, hnnmi]
          · simp only [hline]
            omega
      · exact ⟨⟨hnirq, hnnmi, hline⟩, rfl, rfl, rfl⟩
    · split
      · next hhas =>
        have hpos := countP_pos_of_has hp hhas
        obtain ⟨hlowered, hkept⟩ := set_lowered ikIrq_oneBit ikNmi_oneBit hand hand' hp hhas
        rw [if_pos (by omega)]
        split
        · next hzero =>
          refine ⟨⟨?_, ?_, ?_⟩, rfl, rfl, ?_⟩
          · simp only at hzero ⊢
            omega
          · simp only [hkept, hnnmi]
          · simp only [has_and ikIrq_oneBit, hand, Bool.and_false]
            simp [hzero]
          · simp only [has_and ikNmi_oneBit, hand', Bool.and_true]
        · next hzero =>
          refine ⟨⟨?_, ?_, ?_⟩, rfl, rfl, rfl⟩
          · simp only
            omega
          · simp only [hkept, hnnmi]
          · simp only [hline]
            omega
      · exact ⟨⟨hnirq, hnnmi, hline⟩, rfl, rfl, rfl⟩

/-- What a call on the NMI line does to it. -/
structure NmiMoves (cs cs' : InterruptCpuStatus) : Prop where
  raised : has ikNmi cs.globalPendingInt = false → has ikNmi cs'.globalPendingInt = true →
    cs.nnmi = 0 ∧ cs'.nnmi = 1
  kept : has ikNmi cs.globalPendingInt = true → has ikNmi cs'.globalPendingInt = true

theorem nmiMoves_same {cs' : InterruptCpuStatus}
    (h : has ikNmi cs'.globalPendingInt = has ikNmi cs.globalPendingInt) : NmiMoves cs cs' := by
  constructor
  · intro hclear hset
    rw [h, hclear] at hset
    cases hset
  · intro hset
    rw [h, hset]

theorem nmi_counted (h : Counted cs) (intNum : Nat) (value : Int) (cpuClk : UInt64) :
    Counted (interruptSetNmi cs intNum value cpuClk).1 ∧
      (interruptSetNmi cs intNum value cpuClk).2 = none ∧
      NmiMoves cs (interruptSetNmi cs intNum value cpuClk).1 := by
  obtain ⟨hnirq, hnnmi, hline⟩ := h
  have hirq : has ikIrq ikNmi = false := by decide
  unfold interruptSetNmi
  cases hp : cs.pendingInt[intNum]? with
  | none => exact ⟨⟨hnirq, hnnmi, hline⟩, rfl, nmiMoves_same rfl⟩
  | some p =>
    simp only [ne_eq, and_eq_zero_iff, Bool.not_eq_false]
    split
    · split
      · next hhas =>
        obtain ⟨hraised, hkept⟩ := set_raised ikNmi_oneBit ikIrq_oneBit (by decide) hirq hp hhas
        split
        · next hedge =>
          refine ⟨⟨?_, ?_, ?_⟩, rfl, ?_, ?_⟩
          · simp only [hkept, hnirq]
          · simp only [hraised]
            omega
          · simp only [has_or ikIrq_oneBit, hirq, Bool.or_false, hline]
          · intro _ _
            simp [hedge.1]
          · intro hset
            rw [hedge.2] at hset
            cases hset
        · refine ⟨⟨?_, ?_, hline⟩, rfl, nmiMoves_same rfl⟩
          · simp only [hkept, hnirq]
          · simp only [hraised]
            omega
      · exact ⟨⟨hnirq, hnnmi, hline⟩, rfl, nmiMoves_same rfl⟩
    · split
      · next hhas =>
        have hpos := countP_pos_of_has hp hhas
        obtain ⟨hlowered, hkept⟩ := set_lowered ikNmi_oneBit ikIrq_oneBit (by decide) (by decide)
          hp hhas
        rw [if_pos (by omega)]
        refine ⟨⟨?_, ?_, hline⟩, rfl, nmiMoves_same rfl⟩
        · simp only [hkept, hnirq]
        · simp only
          omega
      · exact ⟨⟨hnirq, hnnmi, hline⟩, rfl, nmiMoves_same rfl⟩

theorem step_counted (h : Counted cs) (c : Call) : Counted (step cs c).1 ∧ (step cs c).2 = none := by
  cases c with
  | setIrq intNum value cpuClk =>
    obtain ⟨hcounted, hnone, -⟩ := irq_counted h intNum value cpuClk
    exact ⟨hcounted, hnone⟩
  | setNmi intNum value cpuClk =>
    obtain ⟨hcounted, hnone, -⟩ := nmi_counted h intNum value cpuClk
    exact ⟨hcounted, hnone⟩
  | ackIrq =>
    have hkept : has ikIrq (~~~ikIrqpend) = true := by decide
    refine ⟨⟨h.nirq, h.nnmi, ?_⟩, rfl⟩
    simpa [step, interruptAckIrq, has_and ikIrq_oneBit, hkept] using h.line
  | ackNmi =>
    have hkept : has ikIrq (~~~ikNmi) = true := by decide
    refine ⟨⟨h.nirq, h.nnmi, ?_⟩, rfl⟩
    simpa [step, interruptAckNmi, has_and ikIrq_oneBit, hkept] using h.line

theorem nmi_edge (h : Counted cs) (c : Call) : NmiEdge cs c := by
  cases c with
  | setIrq intNum value cpuClk =>
    obtain ⟨-, -, honly⟩ := irq_counted h intNum value cpuClk
    have hmoves := nmiMoves_same honly.line
    refine ⟨hmoves.raised, fun hset hclear => ?_⟩
    rw [step, hmoves.kept hset] at hclear
    cases hclear
  | setNmi intNum value cpuClk =>
    obtain ⟨-, -, hmoves⟩ := nmi_counted h intNum value cpuClk
    refine ⟨hmoves.raised, fun hset hclear => ?_⟩
    rw [step, hmoves.kept hset] at hclear
    cases hclear
  | ackIrq =>
    have hkept : has ikNmi (~~~ikIrqpend) = true := by decide
    have hmoves : NmiMoves cs (interruptAckIrq cs) :=
      nmiMoves_same (by simp [interruptAckIrq, has_and ikNmi_oneBit, hkept])
    refine ⟨hmoves.raised, fun hset hclear => ?_⟩
    rw [step, hmoves.kept hset] at hclear
    cases hclear
  | ackNmi =>
    have hcleared : has ikNmi (~~~ikNmi) = false := by decide
    refine ⟨fun _ hset => ?_, fun _ _ => rfl⟩
    simp [step, interruptAckNmi, has_and ikNmi_oneBit, hcleared] at hset

/-! ## All calls -/

theorem reset_counted (cs : InterruptCpuStatus) : Counted (interruptCpuStatusReset cs) := by
  have hnone : ∀ ik, (List.replicate cs.pendingInt.length 0).countP (has ik) = 0 := by
    intro ik
    rw [List.countP_replicate, if_neg (by simp [has])]
  constructor
  · simp [interruptCpuStatusReset, hnone]
  · simp [interruptCpuStatusReset, hnone]
  · simp [interruptCpuStatusReset, has]

theorem run_counted (h : Counted cs) (calls : List Call) : Counted (run cs calls) := by
  induction calls generalizing cs with
  | nil => exact h
  | cons c calls ih => exact ih (step_counted h c).1

/-- After any calls since a reset, and at the one that follows. -/
theorem lines_accounted (cs : InterruptCpuStatus) (calls : List Call) (c : Call) :
    Counted (run (interruptCpuStatusReset cs) calls) ∧
      (step (run (interruptCpuStatusReset cs) calls) c).2 = none ∧
      NmiEdge (run (interruptCpuStatusReset cs) calls) c := by
  have h := run_counted (reset_counted cs) calls
  exact ⟨h, (step_counted h c).2, nmi_edge h c⟩

end

end Vice.L4.InterruptLines
