import Mathlib.Data.List.Nodup

/-!
# Lists that change while they are walked

A walk goes through a linked list and has saved the entry that it goes to next when the list is
changed: entries are taken out, and new ones are put in anywhere. The entries are numbered as they
are made, so those below a bound are the old ones.

Results:
* `Edited.trans`: changes after each other.
* `Walked.next`: where the saved entry is left, the walk misses none of the old entries and keeps
  their order.
* `behind_shorter`: without new entries it comes nearer to the end.
-/
namespace Vice.L0.SavedNext

variable {f f' f'' f₀ x q : Nat} {a b l l' l'' l₀ visited : List Nat}

/-- The list and the bound are changed: of the old entries some are left, in their order. -/
structure Edited (f : Nat) (l : List Nat) (f' : Nat) (l' : List Nat) : Prop where
  le : f ≤ f'
  kept : (l'.filter (· < f)).Sublist l
  below : ∀ x ∈ l', x < f'
  nodup : l'.Nodup

theorem Edited.mem (h : Edited f l f' l') (hx : x ∈ l') (hold : x < f) : x ∈ l :=
  h.kept.subset (List.mem_filter.mpr ⟨hx, decide_eq_true hold⟩)

theorem Edited.same (hbelow : ∀ x ∈ l, x < f) (hnodup : l.Nodup) : Edited f l f l :=
  ⟨Nat.le_refl f, List.filter_sublist, hbelow, hnodup⟩

theorem Edited.trans (h : Edited f l f' l') (h' : Edited f' l' f'' l'') : Edited f l f'' l'' := by
  refine ⟨Nat.le_trans h.le h'.le, ?_, h'.below, h'.nodup⟩
  have htwice : l''.filter (· < f) = (l''.filter (· < f')).filter (· < f) := by
    rw [List.filter_filter]
    refine List.filter_congr fun x _ => ?_
    have hle := h.le
    by_cases hx : x < f
    · simp [hx, Nat.lt_of_lt_of_le hx hle]
    · simp [hx]
  rw [htwice]
  exact (h'.kept.filter _).trans h.kept

/-- An entry is taken out. -/
theorem Edited.erase (hbelow : ∀ x ∈ l, x < f) (hnodup : l.Nodup) (x : Nat) : Edited f l f (l.erase x) :=
  ⟨Nat.le_refl f, List.filter_sublist.trans List.erase_sublist,
    fun _ hy => hbelow _ (List.mem_of_mem_erase hy), hnodup.erase x⟩

/-- A new entry is put in. -/
theorem Edited.insert (hbelow : ∀ x ∈ l, x < f) (hnodup : l.Nodup) (hl : l = a ++ b) :
    Edited f l (f + 1) (a ++ f :: b) := by
  subst hl
  have hnew : f ∉ a ++ b := fun hmem => Nat.lt_irrefl _ (hbelow f hmem)
  refine ⟨Nat.le_succ f, ?_, fun x hx => ?_, ?_⟩
  · rw [List.filter_append, List.filter_cons_of_neg (by simp), ← List.filter_append]
    exact List.filter_sublist
  · rcases List.mem_cons.mp (List.perm_middle.mem_iff.mp hx) with rfl | hx
    · exact Nat.lt_succ_self _
    · exact Nat.lt_succ_of_lt (hbelow x hx)
  · exact List.perm_middle.nodup_iff.mpr (List.nodup_cons.mpr ⟨hnew, hnodup⟩)

/-! ## Places in a list -/

/-- The entry that the walk is at and those behind it. -/
def behind (l : List Nat) : Option Nat → List Nat
  | none => []
  | some p => l.dropWhile (· ≠ p)

/-- The entry behind one. -/
def following (l : List Nat) (p : Nat) : Option Nat := (l.dropWhile (· ≠ p)).tail.head?

theorem behind_self : behind (x :: l) (some x) = x :: l := by
  rw [behind, List.dropWhile_cons_of_neg (by simp)]

theorem behind_other (hne : x ≠ q) : behind (x :: l) (some q) = behind l (some q) := by
  rw [behind, behind, List.dropWhile_cons_of_pos (by simpa using hne)]

theorem behind_subset (l : List Nat) (p : Option Nat) : behind l p ⊆ l := by
  cases p with
  | none => exact List.nil_subset l
  | some p => exact (List.dropWhile_sublist _).subset

theorem following_mem (h : following l x = some q) : q ∈ l := by
  have hmem : q ∈ (l.dropWhile (· ≠ x)).tail := List.mem_of_mem_head? (Option.mem_def.mpr h)
  exact (List.dropWhile_sublist _).subset (List.mem_of_mem_tail hmem)

theorem following_ne (hnodup : l.Nodup) (h : following l x = some q) : q ≠ x := by
  induction l with
  | nil => cases h
  | cons y l ih =>
    obtain ⟨hy, hl⟩ := List.nodup_cons.mp hnodup
    by_cases hyx : y = x
    · subst hyx
      have htail : l.head? = some q := by
        rw [← h, following, List.dropWhile_cons_of_neg (by simp)]
        rfl
      rintro rfl
      exact hy (List.mem_of_mem_head? (Option.mem_def.mpr htail))
    · apply ih hl
      rw [← h, following, following, List.dropWhile_cons_of_pos (by simpa using hyx)]

theorem behind_following (hnodup : l.Nodup) (hx : x ∈ l) :
    behind l (some x) = x :: behind l (following l x) := by
  induction l with
  | nil => cases hx
  | cons y l ih =>
    obtain ⟨hy, hl⟩ := List.nodup_cons.mp hnodup
    by_cases hyx : y = x
    · subst hyx
      have hfollowing : following (y :: l) y = l.head? := by
        rw [following, List.dropWhile_cons_of_neg (by simp)]
        rfl
      rw [behind_self, hfollowing]
      cases l with
      | nil => rfl
      | cons z l => rw [List.head?_cons, behind_other (List.ne_of_not_mem_cons hy), behind_self]
    · have hfollowing : following (y :: l) x = following l x := by
        rw [following, List.dropWhile_cons_of_pos (by simpa using hyx)]
        rfl
      have hxl : x ∈ l := (List.mem_cons.mp hx).resolve_left fun h => hyx h.symm
      rw [behind_other hyx, hfollowing, ih hl hxl]
      cases hq : following l x with
      | none => rfl
      | some q => rw [behind_other fun h : y = q => hy (h ▸ following_mem hq)]

/-- A place in a list that some entries were taken out of. -/
theorem behind_sublist (h : l'.Sublist l) (hnodup : l.Nodup) (hq : q ∈ l') :
    (behind l' (some q)).Sublist (behind l (some q)) := by
  induction h with
  | slnil => exact List.Sublist.refl _
  | cons y h ih =>
    obtain ⟨hy, hl⟩ := List.nodup_cons.mp hnodup
    rw [behind_other fun hyq : y = q => hy (hyq ▸ h.subset hq)]
    exact ih hl hq
  | cons_cons y h ih =>
    obtain ⟨hy, hl⟩ := List.nodup_cons.mp hnodup
    by_cases hyq : y = q
    · subst hyq
      rw [behind_self, behind_self]
      exact h.cons_cons y
    · rw [behind_other hyq, behind_other hyq]
      exact ih hl ((List.mem_cons.mp hq).resolve_left fun h => hyq h.symm)

theorem filter_behind {p : Nat → Bool} (hq : p q = true) :
    (behind l (some q)).filter p = behind (l.filter p) (some q) := by
  induction l with
  | nil => rfl
  | cons y l ih =>
    by_cases hyq : y = q
    · subst hyq
      rw [behind_self, List.filter_cons_of_pos hq, behind_self]
    · rw [behind_other hyq, ih]
      by_cases hy : p y = true
      · rw [List.filter_cons_of_pos hy, behind_other hyq]
      · rw [List.filter_cons_of_neg hy]

theorem mem_behind (hx : x ∈ l) : x ∈ behind l (some x) := by
  induction l with
  | nil => cases hx
  | cons y l ih =>
    by_cases hyx : y = x
    · subst hyx
      rw [behind_self]
      exact List.mem_cons_self ..
    · rw [behind_other hyx]
      exact ih ((List.mem_cons.mp hx).resolve_left fun h => hyx h.symm)

/-- The old entries that are left, from a place that is left. -/
theorem Edited.rest (h : Edited f l f' l') (hnodup : l.Nodup) (hq : q ∈ l') (hold : q < f) :
    ((behind l' (some q)).filter (· < f)).Sublist (behind l (some q)) := by
  rw [filter_behind (decide_eq_true hold)]
  exact behind_sublist h.kept hnodup (List.mem_filter.mpr ⟨hq, decide_eq_true hold⟩)

theorem mem_behind_sublist (h : l'.Sublist l) (hnodup : l.Nodup) (hq : q ∈ l') (hx : x ∈ l')
    (hbehind : x ∈ behind l (some q)) : x ∈ behind l' (some q) := by
  induction h with
  | slnil => cases hq
  | cons y h ih =>
    obtain ⟨hy, hl⟩ := List.nodup_cons.mp hnodup
    rw [behind_other fun hyq : y = q => hy (hyq ▸ h.subset hq)] at hbehind
    exact ih hl hq hx hbehind
  | cons_cons y h ih =>
    obtain ⟨hy, hl⟩ := List.nodup_cons.mp hnodup
    by_cases hyq : y = q
    · subst hyq
      rwa [behind_self]
    · rw [behind_other hyq] at hbehind ⊢
      have hxy : x ≠ y := fun hxy => hy (hxy ▸ behind_subset _ (some q) hbehind)
      exact ih hl ((List.mem_cons.mp hq).resolve_left fun h => hyq h.symm)
        ((List.mem_cons.mp hx).resolve_left hxy) hbehind

/-- An old entry that is left stays behind a place that is left. -/
theorem Edited.mem_rest (h : Edited f l f' l') (hnodup : l.Nodup) (hq : q ∈ l') (hold : q < f)
    (hx : x ∈ l') (hxold : x < f) (hbehind : x ∈ behind l (some q)) : x ∈ behind l' (some q) := by
  have hkept : ∀ y ∈ l', y < f → y ∈ l'.filter (· < f) :=
    fun y hy hlt => List.mem_filter.mpr ⟨hy, decide_eq_true hlt⟩
  have hmem := mem_behind_sublist h.kept hnodup (hkept q hq hold) (hkept x hx hxold) hbehind
  rw [← filter_behind (decide_eq_true hold)] at hmem
  exact (List.mem_filter.mp hmem).1

/-! ## Walks -/

/-- Of the entries `l₀` at the start, those below `f₀`, the visited ones and those to come are in
order, and none is missed. -/
structure Walked (f₀ : Nat) (l₀ l : List Nat) (p : Option Nat) (visited : List Nat) : Prop where
  order : (visited.filter (· < f₀) ++ (behind l p).filter (· < f₀)).Sublist l₀
  met : ∀ x ∈ l, x < f₀ → x ∈ visited ∨ x ∈ behind l p

/-- A walk may pass over the first entries. -/
theorem Walked.start (hnodup : l.Nodup) (hl : l = a ++ b) (f₀ : Nat) : Walked f₀ l l b.head? a := by
  have hbehind : behind l b.head? = b := by
    subst hl
    cases b with
    | nil => rfl
    | cons q b =>
      have hqa : ∀ y ∈ a, decide (y ≠ q) = true := fun y hy =>
        decide_eq_true ((List.nodup_append.mp hnodup).2.2 y hy q (List.mem_cons_self ..))
      rw [List.head?_cons, behind, List.dropWhile_append_of_pos hqa]
      exact behind_self
  refine ⟨?_, fun x hx _ => ?_⟩
  · rw [hbehind, ← List.filter_append, ← hl]
    exact List.filter_sublist
  · rw [hl] at hx
    rw [hbehind]
    exact List.mem_append.mp hx

/-- The walk goes on to the entry that it saved before the list was changed, if that is left. -/
theorem Walked.next (h : Walked f₀ l₀ l (some x) visited) (hle : f₀ ≤ f) (hnodup : l.Nodup)
    (hbelow : ∀ y ∈ l, y < f) (hx : x ∈ l) (hedit : Edited f l f' l')
    (hspared : ∀ q, following l x = some q → q ∈ l') :
    Walked f₀ l₀ l' (following l x) (visited ++ [x]) := by
  have hrest := behind_following hnodup hx
  have hold : ∀ y, y < f₀ → y < f := fun y hy => Nat.lt_of_lt_of_le hy hle
  have htwice : ∀ l : List Nat, (l.filter (· < f)).filter (· < f₀) = l.filter (· < f₀) := by
    intro l
    rw [List.filter_filter]
    refine List.filter_congr fun y _ => ?_
    by_cases hy : y < f₀
    · simp [hy, hold y hy]
    · simp [hy]
  constructor
  · refine List.Sublist.trans ?_ h.order
    rw [hrest, List.filter_append, List.append_assoc]
    apply List.Sublist.append (List.Sublist.refl _)
    rw [← List.filter_append, List.singleton_append]
    cases hq : following l x with
    | none => exact List.Sublist.refl _
    | some q =>
      have hqmem := hspared q hq
      have hqold := hbelow q (following_mem hq)
      have hsub := (hedit.rest hnodup hqmem hqold).filter (· < f₀)
      rw [htwice] at hsub
      rw [List.filter_cons, List.filter_cons]
      split
      · exact hsub.cons_cons x
      · exact hsub
  · intro y hy hyold
    rcases h.met y (hedit.mem hy (hold y hyold)) hyold with hvisited | hbehind
    · exact .inl (List.mem_append_left _ hvisited)
    · rw [hrest] at hbehind
      rcases List.mem_cons.mp hbehind with rfl | hbehind
      · exact .inl (List.mem_append_right _ (List.mem_singleton_self _))
      · right
        cases hq : following l x with
        | none =>
          rw [hq] at hbehind
          cases hbehind
        | some q =>
          rw [hq] at hbehind
          exact hedit.mem_rest hnodup (hspared q hq) (hbelow q (following_mem hq)) hy
            (hold y hyold) hbehind

/-- At its end the walk has come to every old entry that is left, once and in order. -/
theorem Walked.order_end (h : Walked f₀ l₀ l none visited) : (visited.filter (· < f₀)).Sublist l₀ := by
  have horder := h.order
  rwa [show behind l none = [] from rfl, List.filter_nil, List.append_nil] at horder

theorem Walked.met_end (h : Walked f₀ l₀ l none visited) (hx : x ∈ l) (hold : x < f₀) : x ∈ visited :=
  (h.met x hx hold).resolve_right (List.not_mem_nil ·)

theorem Walked.count_end (h : Walked f₀ l₀ l none visited) (hnodup : l₀.Nodup) (hx : x ∈ l)
    (hold : x < f₀) : visited.count x = 1 := by
  have hcount : (visited.filter (· < f₀)).count x = visited.count x :=
    List.count_filter (decide_eq_true hold)
  have hle := List.nodup_iff_count_le_one.mp (h.order_end.nodup hnodup) x
  have hpos := List.count_pos_iff.mpr (h.met_end hx hold)
  omega

/-- Where no entry is new, less is left. -/
theorem behind_shorter (hnodup : l.Nodup) (hbelow : ∀ y ∈ l, y < f) (hx : x ∈ l)
    (hedit : Edited f l f' l') (hnew : l' ⊆ l) (hspared : ∀ q, following l x = some q → q ∈ l') :
    (behind l' (following l x)).length < (behind l (some x)).length := by
  rw [behind_following hnodup hx, List.length_cons]
  apply Nat.lt_succ_of_le
  cases hq : following l x with
  | none => exact Nat.zero_le _
  | some q =>
    have hsub := (hedit.rest hnodup (hspared q hq) (hbelow q (following_mem hq))).length_le
    rwa [List.filter_eq_self.mpr] at hsub
    exact fun y hy => decide_eq_true (hbelow y (hnew (behind_subset l' _ hy)))

end Vice.L0.SavedNext
