import Mathlib.Data.List.Basic

/-!
# The last write to a place

Items are worked through in order, and each of them writes some places of the state and keeps the
others. After all of them a place holds what the last item that writes it writes there.

Results:
* `read_foldl`: what a place holds after a list of items.
* `getD_eq_self_iff`: when that is what it held before.
-/
namespace Vice.L0.LastWrite

section
variable {ι κ β σ : Type} (writes : ι → κ → Option β)

/-- What the last of the items that write the place writes there. -/
def lastWrite : List ι → κ → Option β
  | [], _ => none
  | item :: items, k => (lastWrite items k).or (writes item k)

theorem lastWrite_cons (item : ι) (items : List ι) (k : κ) :
    lastWrite writes (item :: items) k = (lastWrite writes items k).or (writes item k) := rfl

variable {writes} {step : σ → ι → σ} {read : σ → κ → β} {Inv : σ → Prop}

/-- One item decides what each place holds from what it held, as long as `Inv` holds. -/
theorem read_foldl (hinv : ∀ s item, Inv s → Inv (step s item)) {k : κ}
    (hstep : ∀ s item, Inv s → read (step s item) k = (writes item k).getD (read s k))
    (items : List ι) {s : σ} (hs : Inv s) :
    read (items.foldl step s) k = (lastWrite writes items k).getD (read s k) := by
  induction items generalizing s with
  | nil => rfl
  | cons item items ih =>
    rw [List.foldl_cons, ih (hinv s item hs), hstep s item hs, lastWrite_cons]
    cases lastWrite writes items k with
    | none => rfl
    | some b => rfl

theorem getD_eq_self_iff {o : Option β} {b : β} : o.getD b = b ↔ ∀ b' ∈ o, b' = b := by
  cases o with
  | none => simp
  | some b' => simp

end

end Vice.L0.LastWrite
