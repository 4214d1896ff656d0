import Mathlib.Data.List.Basic

/-!
# Scripts that start scripts

An item of a script may start other scripts, which are played completely before the rest of its own
goes on. `Plays` says so by its structure; an interpreter keeps a stack instead, on which an item
puts what it starts.

Results:
* `Plays.start`: what is started may as well stand in front of the rest.
-/
namespace Vice.L0.NestedScripts

section
variable {σ α : Type} {exec : σ → α → σ × List (List α)}

/-- From the state `s` the scripts are played in order; the items `xs` are executed and lead to
`s'`. `exec` gives the scripts that an item starts, the one to be played first at the head. -/
inductive Plays (exec : σ → α → σ × List (List α)) : σ → List (List α) → σ → List α → Prop
  | nil (s : σ) : Plays exec s [] s []
  | finished {s s' : σ} {rest : List (List α)} {xs : List α} :
      Plays exec s rest s' xs → Plays exec s ([] :: rest) s' xs
  | item {s t s' : σ} {x : α} {script : List α} {rest : List (List α)} {inner outer : List α} :
      Plays exec (exec s x).1 (exec s x).2 t inner → Plays exec t (script :: rest) s' outer →
      Plays exec s ((x :: script) :: rest) s' (x :: (inner ++ outer))

variable {s s' t : σ} {scripts rest : List (List α)} {xs ys : List α}

theorem Plays.append (h : Plays exec s scripts t xs) (h' : Plays exec t rest s' ys) :
    Plays exec s (scripts ++ rest) s' (xs ++ ys) := by
  induction h with
  | nil s => exact h'
  | finished _ ih => exact .finished (ih h')
  | item hinner _ _ ih =>
    rw [List.cons_append, List.cons_append, List.append_assoc]
    exact .item hinner (ih h')

theorem Plays.split (h : Plays exec s (scripts ++ rest) s' xs) :
    ∃ t ys zs, Plays exec s scripts t ys ∧ Plays exec t rest s' zs ∧ xs = ys ++ zs := by
  generalize hall : scripts ++ rest = all at h
  induction h generalizing scripts with
  | nil s =>
    obtain ⟨rfl, rfl⟩ := List.append_eq_nil_iff.mp hall
    exact ⟨s, [], [], .nil s, .nil s, rfl⟩
  | @finished s s' rest' xs h ih =>
    cases scripts with
    | nil => exact ⟨s, [], xs, .nil s, (show rest = [] :: rest' from hall) ▸ .finished h, rfl⟩
    | cons script scripts =>
      obtain ⟨rfl, htail⟩ := List.cons.inj hall
      obtain ⟨t, ys, zs, hys, hzs, he⟩ := ih htail
      exact ⟨t, ys, zs, .finished hys, hzs, he⟩
  | @item s t' s' x script' rest' inner outer hinner houter _ ih =>
    cases scripts with
    | nil =>
      exact ⟨s, [], _, .nil s,
        (show rest = (x :: script') :: rest' from hall) ▸ .item hinner houter, rfl⟩
    | cons script scripts =>
      obtain ⟨rfl, htail⟩ := List.cons.inj hall
      obtain ⟨t, ys, zs, hys, hzs, rfl⟩ := @ih (script' :: scripts) (congrArg _ htail)
      exact ⟨t, _, zs, .item hinner hys, hzs, by rw [List.cons_append, List.append_assoc]⟩

/-- The first item is executed, and what it starts comes before the rest of its script. -/
theorem Plays.start {x : α} {script : List α}
    (h : Plays exec (exec s x).1 ((exec s x).2 ++ script :: rest) s' xs) :
    Plays exec s ((x :: script) :: rest) s' (x :: xs) := by
  obtain ⟨t, inner, outer, hinner, houter, rfl⟩ := h.split
  exact .item hinner houter

end

end Vice.L0.NestedScripts
