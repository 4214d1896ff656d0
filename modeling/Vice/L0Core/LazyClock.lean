import Mathlib.Logic.Function.Iterate

/-!
# Devices that are evaluated late

A device with an alarm is only looked at when it is accessed or when the alarm is dispatched, which
may be late. The reference does something at the end of every cycle. Within a cycle an access comes
before the alarm of that cycle.

Results:
* `settle_settle`: how early the alarms are dispatched does not matter.
* `settle_succ`: one cycle more is one alarm more at most.
* `Sim.run_agrees`: a device that agrees with the reference over one cycle and over one access
  agrees with it over any sequence of accesses and dispatches.
-/
namespace Vice.L0.LazyClock

/-! ## Alarms -/

/-- The clock of the next alarm, and what happens when it goes off. -/
structure Alarmed (σ : Type) where
  due : σ → Option Nat
  handle : σ → σ

variable {σ ρ α β : Type}

/-- The alarms before `clk` go off. -/
def Alarmed.loop (A : Alarmed σ) (clk : Nat) : Nat → σ → σ
  | 0, s => s
  | fuel + 1, s =>
    match A.due s with
    | none => s
    | some d => if d < clk then A.loop clk fuel (A.handle s) else s

def Alarmed.settle (A : Alarmed σ) (clk : Nat) (s : σ) : σ := A.loop clk clk s

/-- No alarm is left before `clk`. -/
def Alarmed.Settled (A : Alarmed σ) (clk : Nat) (s : σ) : Prop := ∀ d, A.due s = some d → clk ≤ d

/-- Each alarm sets the next one later. -/
structure Alarmed.Forward (A : Alarmed σ) (inv : σ → Prop) : Prop where
  keep : ∀ {s d}, inv s → A.due s = some d → inv (A.handle s)
  later : ∀ {s d d'}, inv s → A.due s = some d → A.due (A.handle s) = some d' → d < d'

section
variable {A : Alarmed σ} {inv : σ → Prop} {s : σ} {clk clk' fuel fuel' d : Nat}

theorem loop_settled (h : A.Settled clk s) : A.loop clk fuel s = s := by
  cases fuel with
  | zero => rfl
  | succ fuel =>
    rw [Alarmed.loop]
    cases hdue : A.due s with
    | none => rfl
    | some d =>
      have hle := h d hdue
      simp only [if_neg (Nat.not_lt.2 hle)]

theorem loop_due (hdue : A.due s = some d) (hd : d < clk) :
    A.loop clk (fuel + 1) s = A.loop clk fuel (A.handle s) := by
  rw [Alarmed.loop, hdue]
  simp only [if_pos hd]

theorem settled_or_due (A : Alarmed σ) (clk : Nat) (s : σ) :
    A.Settled clk s ∨ ∃ d, A.due s = some d ∧ d < clk := by
  cases hdue : A.due s with
  | none =>
    refine .inl fun d hd => ?_
    rw [hdue] at hd
    cases hd
  | some d =>
    by_cases hlt : d < clk
    · exact .inr ⟨d, rfl, hlt⟩
    · refine .inl fun d' hd' => ?_
      rw [hdue] at hd'
      cases hd'
      exact Nat.le_of_not_lt hlt

/-- The fuel is enough when it covers the cycles from the next alarm on. -/
theorem loop_spec (hA : A.Forward inv) (hs : inv s) (hfuel : ∀ d, A.due s = some d → clk ≤ d + fuel) :
    inv (A.loop clk fuel s) ∧ A.Settled clk (A.loop clk fuel s) := by
  induction fuel generalizing s with
  | zero => exact ⟨hs, hfuel⟩
  | succ fuel ih =>
    obtain hsettled | ⟨d, hdue, hd⟩ := settled_or_due A clk s
    · rw [loop_settled hsettled]
      exact ⟨hs, hsettled⟩
    · rw [loop_due hdue hd]
      refine ih (hA.keep hs hdue) fun d' hd' => ?_
      have hlater := hA.later hs hdue hd'
      have hle := hfuel d hdue
      omega

/-- Two amounts of fuel that are both enough. -/
theorem loop_fuel (hA : A.Forward inv) (hs : inv s) (hfuel : ∀ d, A.due s = some d → clk ≤ d + fuel)
    (hfuel' : ∀ d, A.due s = some d → clk ≤ d + fuel') :
    A.loop clk fuel s = A.loop clk fuel' s := by
  induction fuel generalizing s fuel' with
  | zero =>
    have hsettled : A.Settled clk s := hfuel
    rw [loop_settled hsettled, loop_settled hsettled]
  | succ fuel ih =>
    obtain hsettled | ⟨d, hdue, hd⟩ := settled_or_due A clk s
    · rw [loop_settled hsettled, loop_settled hsettled]
    · have hle := hfuel d hdue
      have hle' := hfuel' d hdue
      obtain ⟨n, rfl⟩ : ∃ n, fuel' = n + 1 := ⟨fuel' - 1, by omega⟩
      rw [loop_due hdue hd, loop_due hdue hd]
      refine ih (hA.keep hs hdue) (fun d' hd' => ?_) fun d' hd' => ?_
      · have hlater := hA.later hs hdue hd'
        omega
      · have hlater := hA.later hs hdue hd'
        omega

theorem settle_inv (hA : A.Forward inv) (hs : inv s) : inv (A.settle clk s) :=
  (loop_spec hA hs fun _ _ => Nat.le_add_left _ _).1

theorem settle_loop (hA : A.Forward inv) (hs : inv s) (hclk : clk ≤ clk') :
    A.settle clk' (A.loop clk fuel s) = A.settle clk' s := by
  induction fuel generalizing s with
  | zero => rfl
  | succ fuel ih =>
    obtain hsettled | ⟨d, hdue, hd⟩ := settled_or_due A clk s
    · rw [loop_settled hsettled]
    · rw [loop_due hdue hd, ih (hA.keep hs hdue)]
      obtain ⟨n, rfl⟩ : ∃ n, clk' = n + 1 := ⟨clk' - 1, by omega⟩
      rw [Alarmed.settle, Alarmed.settle, loop_due hdue (Nat.lt_of_lt_of_le hd hclk)]
      refine loop_fuel hA (hA.keep hs hdue) (fun d' hd' => ?_) fun d' hd' => ?_
      · exact Nat.le_add_left _ _
      · have hlater := hA.later hs hdue hd'
        omega

/-- Alarms that go off early do not go off again. -/
theorem settle_settle (hA : A.Forward inv) (hs : inv s) (hclk : clk ≤ clk') :
    A.settle clk' (A.settle clk s) = A.settle clk' s :=
  settle_loop hA hs hclk

/-- The alarm of one cycle. -/
theorem settle_succ (hA : A.Forward inv) (hs : inv s) (hsettled : A.Settled clk s) :
    A.settle (clk + 1) s = if A.due s = some clk then A.handle s else s := by
  split
  · rename_i hdue
    rw [Alarmed.settle, loop_due hdue (Nat.lt_succ_self clk)]
    exact loop_settled fun d hd => hA.later hs hdue hd
  · rename_i hne
    refine loop_settled fun d hd => ?_
    have hle := hsettled d hd
    have hother : d ≠ clk := fun heq => hne (heq ▸ hd)
    omega

end

/-! ## Accesses -/

/-- What an access at a clock does, after the alarms before it. -/
structure Machine (σ α β : Type) extends Alarmed σ where
  access : Nat → α → σ → σ × Option β

/-- What an access does, and the end of a cycle. -/
structure Ticking (ρ α β : Type) where
  access : α → ρ → ρ × Option β
  tick : ρ → ρ

/-- An access, or the alarms up to a clock being dispatched. -/
inductive Event (α : Type)
  | access (clk : Nat) (a : α)
  | dispatch (clk : Nat)
  deriving DecidableEq, Repr

/-- From the cycle `now` on: one access a cycle, and alarms after the accesses of their cycle. -/
def Ordered : Nat → List (Event α) → Prop
  | _, [] => True
  | now, .access clk _ :: es => now ≤ clk ∧ Ordered (clk + 1) es
  | now, .dispatch clk :: es => now ≤ clk + 1 ∧ Ordered (clk + 1) es

/-- What is read in a run, with the state it ends in. -/
def Machine.run (M : Machine σ α β) : σ → List (Event α) → σ × List β
  | s, [] => (s, [])
  | s, .access clk a :: es =>
    let x := M.access clk a (M.settle clk s)
    let y := M.run x.1 es
    (y.1, x.2.toList ++ y.2)
  | s, .dispatch clk :: es => M.run (M.settle (clk + 1) s) es

/-- The reference, from the cycle `now` on. -/
def Ticking.run (R : Ticking ρ α β) : Nat → ρ → List (Event α) → ρ × List β
  | _, r, [] => (r, [])
  | now, r, .access clk a :: es =>
    let x := R.access a (R.tick^[clk - now] r)
    let y := R.run (clk + 1) (R.tick x.1) es
    (y.1, x.2.toList ++ y.2)
  | now, r, .dispatch clk :: es => R.run (clk + 1) (R.tick^[clk + 1 - now] r) es

/-- Every access of a run is `ok` in the two states before it. -/
def RunOk (M : Machine σ α β) (R : Ticking ρ α β) (ok : σ → ρ → α → Prop) :
    Nat → σ → ρ → List (Event α) → Prop
  | _, _, _, [] => True
  | now, s, r, .access clk a :: es =>
    let s' := M.settle clk s
    let r' := R.tick^[clk - now] r
    ok s' r' a ∧ RunOk M R ok (clk + 1) (M.access clk a s').1 (R.tick (R.access a r').1) es
  | now, s, r, .dispatch clk :: es =>
    RunOk M R ok (clk + 1) (M.settle (clk + 1) s) (R.tick^[clk + 1 - now] r) es

/-- The cycle after the last event. -/
def nextClk : Nat → List (Event α) → Nat
  | now, [] => now
  | _, .access clk _ :: es => nextClk (clk + 1) es
  | _, .dispatch clk :: es => nextClk (clk + 1) es

/-- Agreement of a settled state with the reference at the start of a cycle, kept by a cycle without
an access and by one with an access that is `ok`. -/
structure Sim (M : Machine σ α β) (R : Ticking ρ α β) (inv : σ → Prop)
    (ok : σ → ρ → α → Prop) (rel : Nat → σ → ρ → Prop) : Prop where
  forward : M.Forward inv
  tick : ∀ {clk s r}, rel clk s r → rel (clk + 1) (M.settle (clk + 1) s) (R.tick r)
  keep : ∀ {clk s r a}, rel clk s r → ok s r a → inv (M.access clk a s).1
  access : ∀ {clk s r a}, rel clk s r → ok s r a →
    (M.access clk a s).2 = (R.access a r).2 ∧
      rel (clk + 1) (M.settle (clk + 1) (M.access clk a s).1) (R.tick (R.access a r).1)

section
variable {M : Machine σ α β} {R : Ticking ρ α β} {inv : σ → Prop} {ok : σ → ρ → α → Prop}
  {rel : Nat → σ → ρ → Prop} {s : σ} {r : ρ} {clk now : Nat} {es : List (Event α)}

/-- Some cycles without an access. -/
theorem Sim.ticks (h : Sim M R inv ok rel) (hs : inv s) (hrel : rel now (M.settle now s) r)
    (n : Nat) : rel (now + n) (M.settle (now + n) s) (R.tick^[n] r) := by
  induction n with
  | zero => exact hrel
  | succ n ih =>
    have htick := h.tick ih
    rw [settle_settle h.forward hs (Nat.le_succ _)] at htick
    rw [Function.iterate_succ_apply']
    exact htick

/-- A run reads what the reference reads, and ends in agreement with it. -/
theorem Sim.run_agrees (h : Sim M R inv ok rel) (hs : inv s) (hrel : rel now (M.settle now s) r)
    (hordered : Ordered now es) (hok : RunOk M R ok now s r es) :
    (M.run s es).2 = (R.run now r es).2 ∧
      rel (nextClk now es) (M.settle (nextClk now es) (M.run s es).1) (R.run now r es).1 := by
  induction es generalizing now s r with
  | nil => exact ⟨rfl, hrel⟩
  | cons e es ih =>
    cases e with
    | access clk a =>
      obtain ⟨hclk, hordered⟩ := hordered
      obtain ⟨hfirst, hok⟩ := hok
      have hticks := h.ticks hs hrel (clk - now)
      rw [Nat.add_sub_cancel' hclk] at hticks
      obtain ⟨hread, hnext⟩ := h.access hticks hfirst
      obtain ⟨hrest, hend⟩ := ih (h.keep hticks hfirst) hnext hordered hok
      refine ⟨?_, hend⟩
      simp only [Machine.run, Ticking.run, hread, hrest]
    | dispatch clk =>
      obtain ⟨hclk, hordered⟩ := hordered
      have hticks := h.ticks hs hrel (clk + 1 - now)
      rw [Nat.add_sub_cancel' hclk] at hticks
      have hinv : inv (M.settle (clk + 1) s) := settle_inv h.forward hs
      have hsame := settle_settle h.forward hs (Nat.le_refl (clk + 1))
      exact ih hinv (by rw [hsame]; exact hticks) hordered hok

end
end Vice.L0.LazyClock
