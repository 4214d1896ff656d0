import Mathlib.Data.Fintype.EquivFin

/-!
# Walks along links

A walk goes from a place to the next, until there is none. Where one of finitely many keys
decides how it goes on, it comes to an end exactly if it never comes to a key twice.

Results:
* `ends_iff`: a walk ends iff it does not return.
* `ends_coarse`: a walk ends with one of larger steps that it follows.
-/
namespace Vice.L0.LinkWalk

section
variable {α β : Type} {next fine : α → Option α} {coarse : β → Option β} {o : Option α} {a : α}
  {b : β} {i j m n : Nat}

/-- Where a walk is after `n` steps. -/
def place (next : α → Option α) (o : Option α) : Nat → Option α
  | 0 => o
  | n + 1 => (place next o n).bind next

def Ends (next : α → Option α) (o : Option α) : Prop := ∃ n, place next o n = none

/-- No place is come to twice. -/
def NoReturn (next : α → Option α) (o : Option α) : Prop :=
  ∀ i j a, place next o i = some a → place next o j = some a → i = j

theorem place_add (next : α → Option α) (o : Option α) (m n : Nat) :
    place next o (m + n) = place next (place next o m) n := by
  induction n with
  | zero => rfl
  | succ n ih => rw [← Nat.add_assoc, place, ih, place]

theorem place_none (next : α → Option α) (n : Nat) : place next none n = none := by
  induction n with
  | zero => rfl
  | succ n ih => rw [place, ih, Option.bind_none]

theorem place_succ (next : α → Option α) (a : α) (n : Nat) :
    place next (some a) (n + 1) = place next (next a) n := by
  rw [Nat.add_comm, place_add]
  rfl

theorem place_after (h : place next o m = none) (hmn : m ≤ n) : place next o n = none := by
  obtain ⟨k, rfl⟩ := Nat.exists_eq_add_of_le hmn
  rw [place_add, h, place_none]

/-- A walk ends if it does so from a later place. -/
theorem ends_place (m : Nat) : Ends next (place next o m) ↔ Ends next o := by
  constructor
  · rintro ⟨n, hn⟩
    exact ⟨m + n, by rw [place_add, hn]⟩
  · rintro ⟨n, hn⟩
    exact ⟨n, by rw [← place_add, Nat.add_comm]; exact place_after hn (Nat.le_add_right n m)⟩

theorem ends_none : Ends next none := ⟨0, rfl⟩

theorem ends_next : Ends next (some a) ↔ Ends next (next a) := (ends_place 1).symm

/-- From a place that was come to twice, a walk goes round. -/
theorem Ends.noReturn (h : Ends next o) : NoReturn next o := by
  classical
  have hend := Nat.find_spec h
  have hmin := fun n hn => Nat.find_min h (m := n) hn
  have key : ∀ i j a, i < j → place next o i = some a → place next o j = some a → False := by
    intro i j a hij hi hj
    have hjN : j < Nat.find h := by
      by_contra hle
      rw [place_after hend (Nat.le_of_not_lt hle)] at hj
      cases hj
    obtain ⟨k, hk⟩ := Nat.exists_eq_add_of_le (Nat.le_of_lt hjN)
    refine hmin (i + k) (by omega) ?_
    rw [place_add, hi, ← hj, ← place_add, ← hk]
    exact hend
  intro i j a hi hj
  rcases Nat.lt_trichotomy i j with hlt | heq | hgt
  · exact absurd (key i j a hlt hi hj) id
  · exact heq
  · exact absurd (key j i a hgt hj hi) id

/-- Where a key decides how a walk goes on from a place it has come to, it ends iff no key comes
twice. -/
theorem ends_iff [Finite β] (key : α → β)
    (hkey : ∀ a' a b, next a' = some b → key a = key b → next b = some b ∨ next a = next b) :
    Ends next o ↔ ∀ i j a b, place next o i = some a → place next o j = some b → key a = key b →
      i = j := by
  constructor
  · intro h
    have hret := h.noReturn
    have hlt : ∀ i j a b, i < j → place next o i = some a → place next o j = some b →
        key a = key b → False := by
      intro i j a b hij hi hj hab
      obtain ⟨k, rfl⟩ : ∃ k, j = k + 1 := ⟨j - 1, by omega⟩
      obtain ⟨a', -, hb⟩ := Option.bind_eq_some_iff.mp hj
      have hnext : place next o (k + 1 + 1) = next b := by rw [place, hj, Option.bind_some]
      rcases hkey a' a b hb hab with hself | hsame
      · have := hret _ _ b hj (hnext.trans hself)
        omega
      · have hi' : place next o (i + 1) = next a := by rw [place, hi, Option.bind_some]
        cases hc : next a with
        | none =>
          rw [place_after (hi'.trans hc) (by omega)] at hj
          cases hj
        | some c =>
          have := hret _ _ c (hi'.trans hc) (hnext.trans (hsame ▸ hc))
          omega
    intro i j a b hi hj hab
    rcases Nat.lt_trichotomy i j with hij | heq | hji
    · exact absurd (hlt i j a b hij hi hj hab) id
    · exact heq
    · exact absurd (hlt j i b a hji hj hi hab.symm) id
  · intro h
    by_contra hends
    have hall : ∀ n, ∃ a, place next o n = some a := fun n =>
      Option.ne_none_iff_exists'.mp fun hn => hends ⟨n, hn⟩
    choose f hf using hall
    exact not_injective_infinite_finite (fun n => key (f n)) fun i j hij =>
      h i j (f i) (f j) (hf i) (hf j) hij

/-- A walk in small steps along one in large steps. -/
theorem ends_coarse (R : α → β → Prop) (hstep : ∀ a b b', R a b → coarse b = some b' →
      ∃ k a', place fine (some a) (k + 1) = some a' ∧ R a' b')
    (hend : ∀ a b, R a b → coarse b = none → Ends fine (some a)) (hR : R a b) :
    Ends fine (some a) ↔ Ends coarse (some b) := by
  constructor
  · -- the small steps to the end are more than the large ones on the way
    rintro ⟨n, hn⟩
    induction n using Nat.strong_induction_on generalizing a b with
    | _ n ih =>
      cases hb : coarse b with
      | none => exact ⟨1, hb⟩
      | some b' =>
        obtain ⟨k, a', ha', hR'⟩ := hstep a b b' hR hb
        have hk : k + 1 ≤ n := by
          by_contra hlt
          rw [place_after hn (by omega)] at ha'
          cases ha'
        obtain ⟨m, rfl⟩ := Nat.exists_eq_add_of_le hk
        rw [place_add, ha'] at hn
        rw [ends_next, hb]
        exact ih m (by omega) hR' hn
  · rintro ⟨n, hn⟩
    induction n generalizing a b with
    | zero => cases hn
    | succ n ih =>
      rw [place_succ] at hn
      cases hb : coarse b with
      | none => exact hend a b hR hb
      | some b' =>
        obtain ⟨k, a', ha', hR'⟩ := hstep a b b' hR hb
        rw [hb] at hn
        rw [← ends_place (k + 1), ha']
        exact ih hR' hn

end

end Vice.L0.LinkWalk
