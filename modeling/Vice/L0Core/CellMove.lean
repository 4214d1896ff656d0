import Mathlib.Logic.Function.Basic

/-!
# Cells moved one by one

Two memories, and a cell of each for every step. What is moved cell by cell is moved as a whole if no
cell comes twice.

Results:
* `copyCells`: cells of one memory are copied to the other; `copied_back` if they are copied back.
* `exchangeCells`: cells are exchanged; `exchanged_twice`.
-/
namespace Vice.L0.CellMove

section
variable {α β γ : Type} {n i : Nat} {f : Nat → α} {g : Nat → β} {src : α → γ} {dst : β → γ}

/-- The first `n` cells are all different. -/
def Distinct (n : Nat) (g : Nat → β) : Prop := ∀ i < n, ∀ j < n, g i = g j → i = j

/-- The cells but the first. -/
def tail (g : Nat → β) (i : Nat) : β := g (i + 1)

theorem Distinct.tail (h : Distinct (n + 1) g) : Distinct n (tail g) := fun i hi j hj heq =>
  Nat.succ.inj (h (i + 1) (Nat.succ_lt_succ hi) (j + 1) (Nat.succ_lt_succ hj) heq)

theorem Distinct.first (h : Distinct (n + 1) g) (hi : i < n) : g 0 ≠ CellMove.tail g i := fun heq =>
  Nat.noConfusion (h 0 (Nat.succ_pos n) (i + 1) (Nat.succ_lt_succ hi) heq)

/-! ## Copies -/

def copyCells [DecidableEq β] : Nat → (Nat → α) → (Nat → β) → (α → γ) → (β → γ) → β → γ
  | 0, _, _, _, dst => dst
  | n + 1, f, g, src, dst => copyCells n (tail f) (tail g) src (Function.update dst (g 0) (src (f 0)))

theorem copied_off [DecidableEq β] (c : β) (h : ∀ i < n, c ≠ g i) : copyCells n f g src dst c = dst c := by
  induction n generalizing f g dst with
  | zero => rfl
  | succ n ih =>
    refine (ih ?_).trans (Function.update_of_ne (h 0 (Nat.succ_pos n)) ..)
    exact fun i hi => h (i + 1) (Nat.succ_lt_succ hi)

theorem copied_at [DecidableEq β] (h : Distinct n g) (hi : i < n) : copyCells n f g src dst (g i) = src (f i) := by
  induction n generalizing f g dst i with
  | zero => exact absurd hi (Nat.not_lt_zero i)
  | succ n ih =>
    rw [copyCells]
    cases i with
    | zero =>
      rw [copied_off _ fun j hj => h.first hj]
      exact Function.update_self ..
    | succ i => exact ih h.tail (Nat.lt_of_succ_lt_succ hi)

/-- Copied back into the memory they came from, the cells are as they were. -/
theorem copied_back [DecidableEq α] [DecidableEq β] (hf : Distinct n f) (hg : Distinct n g) (src' : α → γ) (c : α) :
    ((∃ i < n, c = f i) → copyCells n g f (copyCells n f g src dst) src' c = src c) ∧
      ((∀ i < n, c ≠ f i) → copyCells n g f (copyCells n f g src dst) src' c = src' c) := by
  refine ⟨?_, copied_off c⟩
  rintro ⟨i, hi, rfl⟩
  rw [copied_at hf hi, copied_at hg hi]

/-! ## Exchanges -/

def exchangeCells [DecidableEq α] [DecidableEq β] :
    Nat → (Nat → α) → (Nat → β) → (α → γ) × (β → γ) → (α → γ) × (β → γ)
  | 0, _, _, p => p
  | n + 1, f, g, p =>
    exchangeCells n (tail f) (tail g) (Function.update p.1 (f 0) (p.2 (g 0)), Function.update p.2 (g 0) (p.1 (f 0)))

section
variable [DecidableEq α] [DecidableEq β] {p : (α → γ) × (β → γ)}

theorem exchanged_off (a : α) (b : β) : ((∀ i < n, a ≠ f i) → (exchangeCells n f g p).1 a = p.1 a) ∧
      ((∀ i < n, b ≠ g i) → (exchangeCells n f g p).2 b = p.2 b) := by
  induction n generalizing f g p with
  | zero => exact ⟨fun _ => rfl, fun _ => rfl⟩
  | succ n ih =>
    constructor
    · intro h
      refine (ih.1 ?_).trans (Function.update_of_ne (h 0 (Nat.succ_pos n)) ..)
      exact fun i hi => h (i + 1) (Nat.succ_lt_succ hi)
    · intro h
      refine (ih.2 ?_).trans (Function.update_of_ne (h 0 (Nat.succ_pos n)) ..)
      exact fun i hi => h (i + 1) (Nat.succ_lt_succ hi)

theorem exchanged_at (hf : Distinct n f) (hg : Distinct n g) (hi : i < n) :
    (exchangeCells n f g p).1 (f i) = p.2 (g i) ∧ (exchangeCells n f g p).2 (g i) = p.1 (f i) := by
  induction n generalizing f g p i with
  | zero => exact absurd hi (Nat.not_lt_zero i)
  | succ n ih =>
    rw [exchangeCells]
    cases i with
    | zero =>
      obtain ⟨hleft, hright⟩ := exchanged_off (n := n) (f := tail f) (g := tail g)
        (p := (Function.update p.1 (f 0) (p.2 (g 0)), Function.update p.2 (g 0) (p.1 (f 0)))) (f 0) (g 0)
      rw [hleft fun j hj => hf.first hj, hright fun j hj => hg.first hj]
      exact ⟨Function.update_self .., Function.update_self ..⟩
    | succ i =>
      have hlt := Nat.lt_of_succ_lt_succ hi
      obtain ⟨hleft, hright⟩ := ih hf.tail hg.tail hlt
        (p := (Function.update p.1 (f 0) (p.2 (g 0)), Function.update p.2 (g 0) (p.1 (f 0))))
      refine ⟨hleft.trans ?_, hright.trans ?_⟩
      · exact Function.update_of_ne (hg.first hlt).symm ..
      · exact Function.update_of_ne (hf.first hlt).symm ..

/-- Exchanged twice, all cells are as they were. -/
theorem exchanged_twice (hf : Distinct n f) (hg : Distinct n g) :
    exchangeCells n f g (exchangeCells n f g p) = p := by
  refine Prod.ext (funext fun a => ?_) (funext fun b => ?_)
  · by_cases h : ∃ i < n, a = f i
    · obtain ⟨i, hi, rfl⟩ := h
      rw [(exchanged_at hf hg hi).1, (exchanged_at hf hg hi).2]
    · have hoff : ∀ i < n, a ≠ f i := fun i hi heq => h ⟨i, hi, heq⟩
      rw [((exchanged_off (g := g) a (g 0)).1 hoff), ((exchanged_off (g := g) a (g 0)).1 hoff)]
  · by_cases h : ∃ i < n, b = g i
    · obtain ⟨i, hi, rfl⟩ := h
      rw [(exchanged_at hf hg hi).2, (exchanged_at hf hg hi).1]
    · have hoff : ∀ i < n, b ≠ g i := fun i hi heq => h ⟨i, hi, heq⟩
      rw [((exchanged_off (f := f) (f 0) b).2 hoff), ((exchanged_off (f := f) (f 0) b).2 hoff)]

end

end

end Vice.L0.CellMove
