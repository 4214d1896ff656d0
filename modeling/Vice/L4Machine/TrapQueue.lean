import Mathlib.Logic.Function.Basic
import Mathlib.Data.List.Basic

/-!
# The trap queue of the main CPU

Traps are functions to call before the next instruction. Requests stand in an array that has
a head and a count; one dispatch calls what was there when it began, and a trap may request
more. The head moves with each call and the count does not, so a request that is not made by
the first trap of its batch goes too far back.

Results:
* `doTrap_holds`: one dispatch, when only its first trap makes requests.
* `traps_once_in_order`: every run of such dispatches.
* `gap_called`: the second trap of a batch makes a request, and it is lost.
-/
namespace Vice.L4.TrapQueue

/-- The part of `interrupt_cpu_status_s` about traps. A slot is a function with its data, and
`none` is memory nothing was written to.
mirrors src/interrupt.h:92-108 -/
structure CpuStatus (τ : Type) where
  trap : Nat → Option τ
  trapsSize : Nat
  trapsNext : Nat
  trapsCount : Nat
  ikTrap : Bool

section
variable {τ : Type}

/-- mirrors src/interrupt.c:57-83 (`interrupt_cpu_status_reset`) -/
def interruptCpuStatusReset : CpuStatus τ :=
  { trap := fun _ => none, trapsSize := 0, trapsNext := 0, trapsCount := 0, ikTrap := false }

/-- mirrors src/interrupt.c:320-348 -/
def interruptMaincpuTriggerTrap (cs : CpuStatus τ) (t : τ) : CpuStatus τ :=
  let thisTrapIndex := cs.trapsNext + cs.trapsCount
  let trapsCount := cs.trapsCount + 1
  let trapSizeNeeded := cs.trapsNext + trapsCount
  { trap := Function.update cs.trap thisTrapIndex (some t)
    trapsSize := if trapSizeNeeded > cs.trapsSize then trapSizeNeeded else cs.trapsSize
    trapsNext := cs.trapsNext
    trapsCount
    ikTrap := true }

/-- The loop of `interrupt_do_trap`, `n` times, with what was called. The call of trap `i` of the
batch requests the traps `nested i`. -/
def trapLoop (nested : Nat → List τ) (cs : CpuStatus τ) : Nat → CpuStatus τ × List (Option τ)
  | 0 => (cs, [])
  | i + 1 =>
    let (cs, called) := trapLoop nested cs i
    let func := cs.trap cs.trapsNext
    let cs := (nested i).foldl interruptMaincpuTriggerTrap cs
    ({ cs with trapsNext := cs.trapsNext + 1 }, called ++ [func])

/-- mirrors src/interrupt.c:352-371 -/
def interruptDoTrap (nested : Nat → List τ) (cs : CpuStatus τ) : CpuStatus τ × List (Option τ) :=
  let trapsThisCycle := cs.trapsCount
  let (cs, called) := trapLoop nested cs trapsThisCycle
  if cs.trapsCount > trapsThisCycle then
    ({ cs with trapsCount := cs.trapsCount - trapsThisCycle }, called)
  else ({ cs with ikTrap := false, trapsNext := 0, trapsCount := 0 }, called)

/-! ## Runs -/

/-- A CPU with the traps requested so far and the slots called so far. -/
structure Run (τ : Type) where
  cs : CpuStatus τ
  requested : List τ
  called : List (Option τ)

def Run.start : Run τ := ⟨interruptCpuStatusReset, [], []⟩

def Run.trigger (r : Run τ) (t : τ) : Run τ :=
  { r with cs := interruptMaincpuTriggerTrap r.cs t, requested := r.requested ++ [t] }

/-- The traps of the batch ask for theirs in turn. -/
def Run.dispatch (r : Run τ) (nested : Nat → List τ) : Run τ where
  cs := (interruptDoTrap nested r.cs).1
  requested := r.requested ++ (List.range r.cs.trapsCount).flatMap nested
  called := r.called ++ (interruptDoTrap nested r.cs).2

/-- The runs whose dispatches are `allowed`. The CPU dispatches when `IK_TRAP` is set. -/
inductive Reaches (allowed : CpuStatus τ → (Nat → List τ) → Prop) : Run τ → Prop
  | start : Reaches allowed Run.start
  | trigger {r : Run τ} (t : τ) : Reaches allowed r → Reaches allowed (r.trigger t)
  | dispatch {r : Run τ} (nested : Nat → List τ) : Reaches allowed r → r.cs.ikTrap = true →
      allowed r.cs nested → Reaches allowed (r.dispatch nested)

/-- Only the first trap of the batch makes requests. -/
def FirstOnly (cs : CpuStatus τ) (nested : Nat → List τ) : Prop :=
  ∀ i, 0 < i → i < cs.trapsCount → nested i = []

/-- What was called is what was requested first, each pair once and in that order, the rest is
still to come and the CPU knows of it, and the next dispatch calls exactly the rest, whatever
its traps request. -/
structure OnceInOrder (r : Run τ) : Prop where
  prefix_called : r.called = (r.requested.take r.called.length).map some
  rest : r.called.length + r.cs.trapsCount = r.requested.length
  pending : r.cs.ikTrap = true ↔ r.called.length < r.requested.length
  next : ∀ nested, (r.dispatch nested).called = r.requested.map some

variable {cs : CpuStatus τ} {r : Run τ} {nested : Nat → List τ} {q l : List τ} {h n : Nat} {t : τ}

/-! ## What the slots hold -/

/-- The slots from `h` on hold the queue `q`. -/
structure Holds (cs : CpuStatus τ) (h : Nat) (q : List τ) : Prop where
  count : cs.trapsCount = q.length
  slot : ∀ k < q.length, cs.trap (h + k) = q[k]?
  armed : cs.ikTrap = true ↔ q ≠ []

theorem trigger_holds (hq : Holds cs cs.trapsNext q) :
    Holds (interruptMaincpuTriggerTrap cs t) cs.trapsNext (q ++ [t]) := by
  refine ⟨by simp [interruptMaincpuTriggerTrap, hq.count], fun k hk => ?_,
    by simp [interruptMaincpuTriggerTrap]⟩
  simp only [interruptMaincpuTriggerTrap, hq.count]
  rcases Nat.lt_or_ge k q.length with hlt | hge
  · rw [Function.update_of_ne (by omega), hq.slot k hlt, List.getElem?_append_left hlt]
  · have hlast : k = q.length := by
      rw [List.length_append, List.length_singleton] at hk
      omega
    rw [hlast, Function.update_self, List.getElem?_concat_length]

theorem triggers_next (cs : CpuStatus τ) (l : List τ) :
    (l.foldl interruptMaincpuTriggerTrap cs).trapsNext = cs.trapsNext := by
  induction l generalizing cs with
  | nil => rfl
  | cons t l ih => exact ih _

theorem triggers_holds (hq : Holds cs cs.trapsNext q) (l : List τ) :
    Holds (l.foldl interruptMaincpuTriggerTrap cs) cs.trapsNext (q ++ l) := by
  induction l generalizing cs q with
  | nil => simpa using hq
  | cons t l ih =>
    have hstep := ih (trigger_holds (t := t) hq)
    rwa [List.append_assoc, List.singleton_append] at hstep

/-- Requests only add: what stands below the first free slot stays. -/
theorem triggers_keep (cs : CpuStatus τ) (l : List τ) :
    cs.trapsCount ≤ (l.foldl interruptMaincpuTriggerTrap cs).trapsCount ∧
      ∀ k < cs.trapsNext + cs.trapsCount,
        (l.foldl interruptMaincpuTriggerTrap cs).trap k = cs.trap k := by
  induction l generalizing cs with
  | nil => exact ⟨Nat.le_refl _, fun k _ => rfl⟩
  | cons t l ih =>
    obtain ⟨hcount, hslot⟩ := ih (interruptMaincpuTriggerTrap cs t)
    simp only [interruptMaincpuTriggerTrap] at hcount hslot
    refine ⟨Nat.le_trans (Nat.le_succ _) hcount, fun k hk => ?_⟩
    rw [List.foldl_cons, interruptMaincpuTriggerTrap, hslot k (by omega),
      Function.update_of_ne (by omega)]

/-! ## One dispatch -/

/-- Whatever the traps request, the batch itself is called in order. -/
theorem trapLoop_calls (nested : Nat → List τ) (cs : CpuStatus τ) (n : Nat) (hn : n ≤ cs.trapsCount) :
    (trapLoop nested cs n).1.trapsNext = cs.trapsNext + n ∧
      cs.trapsCount ≤ (trapLoop nested cs n).1.trapsCount ∧
      (∀ k < cs.trapsNext + cs.trapsCount, (trapLoop nested cs n).1.trap k = cs.trap k) ∧
      (trapLoop nested cs n).2 = (List.range n).map fun k => cs.trap (cs.trapsNext + k) := by
  induction n with
  | zero => exact ⟨rfl, Nat.le_refl _, fun k _ => rfl, rfl⟩
  | succ n ih =>
    obtain ⟨hnext, hcount, hslot, hcalled⟩ := ih (by omega)
    obtain ⟨hcount', hslot'⟩ := triggers_keep (trapLoop nested cs n).1 (nested n)
    rw [trapLoop]
    dsimp only
    refine ⟨?_, Nat.le_trans hcount hcount', fun k hk => ?_, ?_⟩
    · rw [triggers_next, hnext, Nat.add_assoc]
    · rw [hslot' k (by omega), hslot k hk]
    · rw [hcalled, hnext, hslot _ (by omega), List.range_succ, List.map_append, List.map_singleton]

/-- With requests from the first trap only, the queue has them behind the batch. -/
theorem trapLoop_holds (hq : Holds cs cs.trapsNext q) (hf : FirstOnly cs nested) (hn : n ≤ cs.trapsCount) :
    Holds (trapLoop nested cs n).1 cs.trapsNext (q ++ (List.range n).flatMap nested) := by
  induction n with
  | zero =>
    rw [List.range_zero, List.flatMap_nil, List.append_nil]
    exact hq
  | succ n ih =>
    have ih := ih (by omega)
    obtain ⟨hnext, -, -, -⟩ := trapLoop_calls nested cs n (by omega)
    rw [List.range_succ, List.flatMap_append, List.flatMap_singleton, ← List.append_assoc]
    rcases Nat.eq_zero_or_pos n with rfl | hpos
    · have hfirst := triggers_holds ih (nested 0)
      exact ⟨hfirst.count, hfirst.slot, hfirst.armed⟩
    · rw [hf n hpos (by omega), List.append_nil]
      rw [trapLoop, hf n hpos (by omega)]
      exact ⟨ih.count, ih.slot, ih.armed⟩

theorem doTrap_called (hq : Holds cs cs.trapsNext q) : (interruptDoTrap nested cs).2 = q.map some := by
  obtain ⟨-, -, -, hcalled⟩ := trapLoop_calls nested cs cs.trapsCount (Nat.le_refl _)
  have hres : (interruptDoTrap nested cs).2 = (trapLoop nested cs cs.trapsCount).2 := by
    unfold interruptDoTrap
    dsimp only
    split <;> rfl
  rw [hres, hcalled, hq.count]
  refine List.ext_getElem? fun k => ?_
  rcases Nat.lt_or_ge k q.length with hk | hk
  · simp [hk, hq.slot k hk]
  · simp [hk]

/-- Afterwards the queue is what the batch requested. -/
theorem doTrap_holds (hq : Holds cs cs.trapsNext q) (hf : FirstOnly cs nested) :
    Holds (interruptDoTrap nested cs).1 (interruptDoTrap nested cs).1.trapsNext
      ((List.range cs.trapsCount).flatMap nested) := by
  obtain ⟨hnext, -, -, -⟩ := trapLoop_calls nested cs cs.trapsCount (Nat.le_refl _)
  obtain ⟨hcount, hslot, harmed⟩ := trapLoop_holds hq hf (Nat.le_refl _)
  unfold interruptDoTrap
  dsimp only
  generalize (List.range cs.trapsCount).flatMap nested = new at *
  rw [List.length_append] at hcount hslot
  split
  · next hmore =>
    have hnew : new ≠ [] := by
      rintro rfl
      rw [List.length_nil] at hcount
      have := hq.count
      omega
    refine ⟨?_, fun k hk => ?_, ?_⟩ <;> dsimp only
    · rw [hcount, hq.count]
      omega
    · have hn := hq.count
      rw [hnext, Nat.add_assoc, hslot _ (by omega), List.getElem?_append_right (by omega), hn,
        Nat.add_sub_cancel_left]
    · rw [harmed]
      simp [hnew]
  · next hdone =>
    have hnew : new = [] := by
      rw [← List.length_eq_zero_iff]
      have := hq.count
      omega
    subst hnew
    exact ⟨rfl, nofun, by simp⟩

/-! ## Runs of dispatches -/

/-- What the slots hold is what was requested and not called. -/
def Waiting (r : Run τ) : Prop :=
  ∃ q, Holds r.cs r.cs.trapsNext q ∧ r.called ++ q.map some = r.requested.map some

theorem start_waiting : Waiting (Run.start : Run τ) := 
  ⟨[], ⟨rfl, nofun, by simp [Run.start, interruptCpuStatusReset]⟩, rfl⟩

theorem trigger_waiting (hw : Waiting r) (t : τ) : Waiting (r.trigger t) := by
  obtain ⟨q, hq, hall⟩ := hw
  refine ⟨q ++ [t], trigger_holds hq, ?_⟩
  simp only [Run.trigger, List.map_append, ← hall, List.append_assoc]

theorem dispatch_called (hw : Waiting r) (nested : Nat → List τ) :
    (r.dispatch nested).called = r.requested.map some := by
  obtain ⟨q, hq, hall⟩ := hw
  rw [Run.dispatch, doTrap_called hq, hall]

theorem dispatch_waiting (hw : Waiting r) (hf : FirstOnly r.cs nested) : Waiting (r.dispatch nested) := by
  have hcalled := dispatch_called hw nested
  obtain ⟨q, hq, hall⟩ := hw
  refine ⟨_, doTrap_holds hq hf, ?_⟩
  rw [hcalled, Run.dispatch, List.map_append]

theorem reaches_waiting (hr : Reaches FirstOnly r) : Waiting r := by
  induction hr with
  | start => exact start_waiting
  | trigger t _ ih => exact trigger_waiting ih t
  | dispatch nested _ _ hf ih => exact dispatch_waiting ih hf

theorem Waiting.onceInOrder (hw : Waiting r) : OnceInOrder r := by
  have hnext := dispatch_called hw
  obtain ⟨q, hq, hall⟩ := hw
  have hlen : r.called.length + q.length = r.requested.length := by
    simpa using congrArg List.length hall
  refine ⟨?_, by rw [hq.count, hlen], ?_, hnext⟩
  · rw [List.map_take, ← hall, List.take_left]
  · rw [hq.armed, ← List.length_pos_iff]
    omega

/-- Traps run once and in order, and a trap requested during a dispatch in a later one, as long as
of each batch only the first trap requests any. -/
theorem traps_once_in_order (hr : Reaches FirstOnly r) : OnceInOrder r :=
  (reaches_waiting hr).onceInOrder

end

/-- Two traps are requested, and the first of them requests two more. -/
def chained : Run Nat :=
  ((Run.start.trigger 1).trigger 2).dispatch fun i => if i = 0 then [3, 4] else []

theorem traps_once_in_order_chained :
    OnceInOrder chained ∧ chained.called = [some 1, some 2] ∧ chained.requested = [1, 2, 3, 4] := by
  refine ⟨traps_once_in_order ?_, by decide, by decide⟩
  refine .dispatch _ (.trigger 2 (.trigger 1 .start)) (by decide) fun i hpos _ => ?_
  exact if_neg (by omega)

/-- Here the second of them requests one, and the next dispatch calls a slot nothing was written
to: trap 3 is never called. -/
def gap : Run Nat :=
  (((Run.start.trigger 1).trigger 2).dispatch fun i => if i = 1 then [3] else []).dispatch fun _ => []

theorem gap_called : Reaches (fun _ _ => True) gap ∧ gap.requested = [1, 2, 3] ∧
      gap.called = [some 1, some 2, none] ∧ gap.cs.trapsCount = 0 ∧ gap.cs.ikTrap = false ∧
      ¬ OnceInOrder gap := by
  refine ⟨.dispatch _ (.dispatch _ (.trigger 2 (.trigger 1 .start)) (by decide) trivial) (by decide)
    trivial, by decide, by decide, by decide, by decide, fun h => ?_⟩
  exact absurd h.prefix_called (by decide)

end Vice.L4.TrapQueue
