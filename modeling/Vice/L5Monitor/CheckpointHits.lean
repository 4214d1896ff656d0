import Vice.L5Monitor.CheckpointWalk

/-!
# Every checkpoint is met once

A command may delete the entry that the walk goes to next, which is freed then, and it may delete
its own checkpoint and give the number to a new one, which is then deleted as the temporary one that
was hit. In all other cases an access is reported as it should be.

Results:
* `turns_inv`: any number of turns.
* `checkpoints_exact_iff`: an access is reported right exactly if no command does that.
* `command_frees_next`: a command that deletes the next checkpoint.
-/
namespace Vice.L5.CheckpointHits
open Vice.L5.Breakpoints Vice.L5.BreakpointRuns Vice.L0.SavedNext Vice.L5.CheckpointWalk

section
variable {κ γ ω : Type} {e : Env κ γ ω} {kind : Kind} {mem addr : Nat} {s s₀ : Session κ γ ω}
  {w w' : Walk κ γ ω} {cp n : Nat}

/-- A walk at its end: the entries that are still there were visited once and in order, and the hits
are counted and stop. -/
structure Outcome (s : Session κ γ ω) (kind : Kind) (mem : Nat) (w : Walk κ γ ω) : Prop where
  once : ∀ cp ∈ listOf s.mon kind mem, cp ∈ listOf w.session.mon kind mem → w.visited.count cp = 1
  order : (w.visited.filter (· ∈ listOf s.mon kind mem)).Sublist (listOf s.mon kind mem)
  hitCount : ∀ cp < s.mon.fresh,
    (w.session.mon.checkpoint cp).hitCount = (s.mon.checkpoint cp).hitCount + w.hits.count cp
  stops : w.mustStop = true ↔ ∃ cp ∈ w.hits, (w.session.mon.checkpoint cp).stop = true

/-- What is done for an entry, apart from what its command does. -/
structure VisitExact (e : Env κ γ ω) (addr : Nat) (s : Session κ γ ω) (cp : Nat) : Prop where
  hitCount : ∀ x < s.mon.fresh, ((visit e addr s cp).1.mon.checkpoint x).hitCount =
    (s.mon.checkpoint x).hitCount + if x = cp ∧ Hit e addr s cp then 1 else 0
  ignoreCount : ∀ x, ((visit e addr s cp).1.mon.checkpoint x).ignoreCount =
    ((afterCommand e addr s cp).mon.checkpoint x).ignoreCount -
      if x = cp ∧ Ignored e addr s cp then 1 else 0
  deleted : ∀ x, x ∈ (visit e addr s cp).1.mon.allCheckpoints ↔
    x ∈ (afterCommand e addr s cp).mon.allCheckpoints ∧
      ¬ (x = cp ∧ Hit e addr s cp ∧ (s.mon.checkpoint cp).temporary = true)

/-- The walk ends, it touches no entry that was removed, and it does what it should. -/
def Exact (e : Env κ γ ω) (kind : Kind) (mem addr : Nat) (s : Session κ γ ω) : Prop :=
  ∃ n w, turns e kind mem addr n (start kind mem addr s) = some w ∧ w.ptr = none ∧
    Outcome s kind mem w ∧
    ∀ k < n, ∀ w' cp, turns e kind mem addr k (start kind mem addr s) = some w' →
      w'.ptr = some cp → VisitExact e addr w'.session cp

/-- The command of a hit checkpoint leaves the next entry in the list, and the number of a temporary
checkpoint is its own, or nobody's if it is gone. -/
structure Spares (e : Env κ γ ω) (kind : Kind) (mem addr : Nat) (s : Session κ γ ω) (cp : Nat) :
    Prop where
  next : ∀ q, following (listOf s.mon kind mem) cp = some q →
    q ∈ listOf (afterCommand e addr s cp).mon kind mem
  number : (s.mon.checkpoint cp).temporary = true →
    let mon := (afterCommand e addr s cp).mon
    let found := monBreakpointFindCheckpoint mon (s.mon.checkpoint cp).checknum
    found = some cp ∨ found = none ∧ cp ∉ mon.allCheckpoints

/-- All commands of a walk do so, and after some time none puts anything in the list. -/
def AllSpare (e : Env κ γ ω) (kind : Kind) (mem addr : Nat) (s : Session κ γ ω) : Prop :=
  (∀ k w cp, turns e kind mem addr k (start kind mem addr s) = some w → w.ptr = some cp →
    Hit e addr w.session cp → Spares e kind mem addr w.session cp) ∧
  ∃ N, ∀ k, N ≤ k → ∀ w cp, turns e kind mem addr k (start kind mem addr s) = some w →
    w.ptr = some cp → Hit e addr w.session cp →
    listOf (afterCommand e addr w.session cp).mon kind mem ⊆ listOf w.session.mon kind mem

/-! ## One entry -/

theorem matches_iff (e : Env κ γ ω) (addr : Nat) (s : Session κ γ ω) (cp : Nat) :
    let c := s.mon.checkpoint cp
    Matches e addr s cp ↔ (c.enabled ∧ monIsInRange c.startAddr c.endAddr addr) ∧
      ¬ (c.condition.any fun cond => !e.holds s.world cond) = true := by
  unfold Matches
  dsimp only
  cases (s.mon.checkpoint cp).condition with
  | none => simp
  | some cond => simp [and_assoc]

/-- A checkpoint that does not match, one that is ignored, and one that is hit. -/
theorem visit_cases (e : Env κ γ ω) (addr : Nat) (s : Session κ γ ω) (cp : Nat) :
    ¬ Hit e addr s cp ∧ ¬ Ignored e addr s cp ∧ visit e addr s cp = (s, false) ∨
    ¬ Hit e addr s cp ∧ Ignored e addr s cp ∧ visit e addr s cp =
      (s.modify cp fun c => { c with ignoreCount := c.ignoreCount - 1 }, false) ∨
    Hit e addr s cp ∧ ¬ Ignored e addr s cp ∧ visit e addr s cp =
      (dropTemporary (runCommand e (recordHit s cp) cp) cp, (s.mon.checkpoint cp).stop) := by
  have hmatches := matches_iff e addr s cp
  dsimp only at hmatches
  unfold Hit Ignored visit
  dsimp only
  split_ifs with hrange hcond hignore
  · left
    have hnot : ¬ Matches e addr s cp := fun h => (hmatches.mp h).2 hcond
    exact ⟨fun h => hnot h.1, fun h => hnot h.1, rfl⟩
  · right; left
    exact ⟨fun h => hignore h.2, ⟨hmatches.mpr ⟨hrange, hcond⟩, hignore⟩, rfl⟩
  · right; right
    exact ⟨⟨hmatches.mpr ⟨hrange, hcond⟩, not_not.mp hignore⟩, fun h => hignore (not_not.mp hignore ▸ h.2), rfl⟩
  · left
    have hnot : ¬ Matches e addr s cp := fun h => hrange (hmatches.mp h).1
    exact ⟨fun h => hnot h.1, fun h => hnot h.1, rfl⟩

theorem afterCommand_hit (h : Hit e addr s cp) :
    afterCommand e addr s cp = runCommand e (recordHit s cp) cp := if_pos h

theorem afterCommand_other (h : ¬ Hit e addr s cp) : afterCommand e addr s cp = s := if_neg h

theorem recordHit_lists (s : Session κ γ ω) (cp : Nat) : listOf (recordHit s cp).mon = listOf s.mon := by
  funext kind
  cases kind <;> rfl

theorem recordHit_checkpoint (s : Session κ γ ω) (cp x : Nat) :
    let c := (recordHit s cp).mon.checkpoint x
    let c' := s.mon.checkpoint x
    c.checknum = c'.checknum ∧ c.stop = c'.stop ∧ c.temporary = c'.temporary ∧
      c.hitCount = c'.hitCount + if x = cp then 1 else 0 := by
  unfold recordHit Session.modify Monitor.modify
  dsimp only
  by_cases hx : x = cp
  · subst hx
    rw [Function.update_self, if_pos rfl]
    exact ⟨rfl, rfl, rfl, rfl⟩
  · rw [Function.update_of_ne hx, if_neg hx]
    exact ⟨rfl, rfl, rfl, rfl⟩

theorem modified_linked (h : Linked s.mon) (cp : Nat) (change : Checkpoint κ → Checkpoint κ) :
    Linked (s.modify cp change).mon := modify_linked h change

/-- The command of a hit checkpoint starts with the hit recorded. -/
theorem command_changed (h : Linked s.mon) (e : Env κ γ ω) (cp : Nat) :
    Changed (recordHit s cp).mon (runCommand e (recordHit s cp) cp).mon :=
  runCommand_changed (modified_linked h cp _)

theorem hit_changed (h : Linked s.mon) (e : Env κ γ ω) (cp : Nat) :
    Changed (recordHit s cp).mon (dropTemporary (runCommand e (recordHit s cp) cp) cp).mon :=
  (command_changed h e cp).trans (dropTemporary_changed (command_changed h e cp).linked)

theorem ignored_lists (s : Session κ γ ω) (cp : Nat) (change : Checkpoint κ → Checkpoint κ) :
    listOf (s.modify cp change).mon = listOf s.mon := by
  funext kind
  cases kind <;> rfl

theorem visit_linked (h : Linked s.mon) (e : Env κ γ ω) (addr cp : Nat) : Linked (visit e addr s cp).1.mon := by
  rcases visit_cases e addr s cp with ⟨-, -, hvisit⟩ | ⟨-, -, hvisit⟩ | ⟨-, -, hvisit⟩
  · rw [hvisit]
    exact h
  · rw [hvisit]
    exact modified_linked h cp _
  · rw [hvisit]
    exact (hit_changed h e cp).linked

theorem visit_lists (h : Linked s.mon) (e : Env κ γ ω) (addr cp : Nat) (kind : Kind) (mem : Nat) :
    Edited s.mon.fresh (listOf s.mon kind mem) (visit e addr s cp).1.mon.fresh
      (listOf (visit e addr s cp).1.mon kind mem) := by
  have hsame := Edited.same (h.below kind mem) (h.nodup kind mem)
  rcases visit_cases e addr s cp with ⟨-, -, hvisit⟩ | ⟨-, -, hvisit⟩ | ⟨-, -, hvisit⟩
  · rw [hvisit]
    exact hsame
  · rw [hvisit, ignored_lists]
    exact hsame
  · have hlist := (hit_changed h e cp).lists kind mem
    rw [recordHit_lists] at hlist
    rw [hvisit]
    exact hlist

/-- The members that the walk depends on stay. -/
theorem visit_same (h : Linked s.mon) (e : Env κ γ ω) (addr cp : Nat) {x : Nat} (hx : x < s.mon.fresh) :
    ((visit e addr s cp).1.mon.checkpoint x).stop = (s.mon.checkpoint x).stop := by
  rcases visit_cases e addr s cp with ⟨-, -, hvisit⟩ | ⟨-, -, hvisit⟩ | ⟨-, -, hvisit⟩
  · rw [hvisit]
  · rw [hvisit]
    unfold Session.modify Monitor.modify
    dsimp only
    by_cases hxcp : x = cp
    · subst hxcp
      rw [Function.update_self]
    · rw [Function.update_of_ne hxcp]
  · rw [hvisit]
    exact ((hit_changed h e cp).same x hx).2.1.trans (recordHit_checkpoint s cp x).2.1

theorem visit_stop (e : Env κ γ ω) (addr : Nat) (s : Session κ γ ω) (cp : Nat) :
    (visit e addr s cp).2 = true ↔ Hit e addr s cp ∧ (s.mon.checkpoint cp).stop = true := by
  rcases visit_cases e addr s cp with ⟨hnot, -, hvisit⟩ | ⟨hnot, -, hvisit⟩ | ⟨hhit, -, hvisit⟩
  · rw [hvisit]
    exact ⟨fun h => (Bool.false_ne_true h).elim, fun h => (hnot h.1).elim⟩
  · rw [hvisit]
    exact ⟨fun h => (Bool.false_ne_true h).elim, fun h => (hnot h.1).elim⟩
  · rw [hvisit]
    exact ⟨fun h => ⟨hhit, h⟩, fun h => h.2⟩

/-! ## What is counted -/

theorem visit_hitCount (h : Linked s.mon) (e : Env κ γ ω) (addr cp : Nat) {x : Nat} (hx : x < s.mon.fresh) :
    ((visit e addr s cp).1.mon.checkpoint x).hitCount =
      (s.mon.checkpoint x).hitCount + if x = cp ∧ Hit e addr s cp then 1 else 0 := by
  rcases visit_cases e addr s cp with ⟨hnot, -, hvisit⟩ | ⟨hnot, -, hvisit⟩ | ⟨hhit, -, hvisit⟩
  · rw [hvisit, if_neg fun h => hnot h.2]
    rfl
  · rw [hvisit, if_neg fun h => hnot h.2]
    unfold Session.modify Monitor.modify
    dsimp only
    by_cases hxcp : x = cp
    · subst hxcp
      rw [Function.update_self]
      rfl
    · rw [Function.update_of_ne hxcp]
      rfl
  · rw [hvisit]
    simp only [hhit, and_true]
    exact ((hit_changed h e cp).same x hx).2.2.2.trans (recordHit_checkpoint s cp x).2.2.2

theorem deleteNumbers_checkpoint (m : Monitor κ) (ns : List Nat) :
    (ns.foldl deleteNumber m).checkpoint = m.checkpoint := by
  induction ns generalizing m with
  | nil => rfl
  | cons n ns ih =>
    rw [List.foldl_cons, ih]
    unfold deleteNumber
    split <;> rfl

theorem delete_checkpoint (m : Monitor κ) (cpNum : Int) :
    (monBreakpointDeleteCheckpoint m cpNum).checkpoint = m.checkpoint := by
  unfold monBreakpointDeleteCheckpoint
  split_ifs
  · exact deleteNumbers_checkpoint m _
  · split
    · rfl
    · dsimp only
      split_ifs <;> rfl

theorem dropTemporary_checkpoint (s : Session κ γ ω) (cp : Nat) :
    (dropTemporary s cp).mon.checkpoint = s.mon.checkpoint := by
  have hdelete := delete_checkpoint s.mon (s.mon.checkpoint cp).checknum
  unfold dropTemporary
  dsimp only
  split_ifs
  · exact hdelete
  · rfl

theorem visit_ignoreCount (e : Env κ γ ω) (addr : Nat) (s : Session κ γ ω) (cp x : Nat) :
    ((visit e addr s cp).1.mon.checkpoint x).ignoreCount =
      ((afterCommand e addr s cp).mon.checkpoint x).ignoreCount -
        if x = cp ∧ Ignored e addr s cp then 1 else 0 := by
  rcases visit_cases e addr s cp with
    ⟨hnot, hignored, hvisit⟩ | ⟨hnot, hignored, hvisit⟩ | ⟨hhit, hignored, hvisit⟩
  · rw [hvisit, afterCommand_other hnot, if_neg fun h => hignored h.2, Int.sub_zero]
  · rw [hvisit, afterCommand_other hnot]
    simp only [hignored, and_true]
    unfold Session.modify Monitor.modify
    dsimp only
    by_cases hxcp : x = cp
    · subst hxcp
      rw [Function.update_self, if_pos rfl]
    · rw [Function.update_of_ne hxcp, if_neg hxcp, Int.sub_zero]
  · rw [hvisit, afterCommand_hit hhit, if_neg fun h => hignored h.2, Int.sub_zero]
    exact congrArg Checkpoint.ignoreCount (congrFun (dropTemporary_checkpoint _ cp) x)

/-! ## What is deleted -/

/-- One number is deleted. -/
theorem delete_all (m : Monitor κ) (n : Nat) : (monBreakpointDeleteCheckpoint m n).allCheckpoints =
    match monBreakpointFindCheckpoint m n with
    | some cp => m.allCheckpoints.erase cp
    | none => m.allCheckpoints := by
  unfold monBreakpointDeleteCheckpoint
  rw [if_neg (by omega)]
  cases monBreakpointFindCheckpoint m n with
  | none => rfl
  | some cp =>
    dsimp only
    split_ifs <;> rfl

theorem delete_lists (m : Monitor κ) (n : Nat) : listOf (monBreakpointDeleteCheckpoint m n) =
    match monBreakpointFindCheckpoint m n with
    | some cp => listOf (removeCheckpoint m cp)
    | none => listOf m := by
  unfold monBreakpointDeleteCheckpoint
  rw [if_neg (by omega)]
  cases monBreakpointFindCheckpoint m n with
  | none => rfl
  | some cp =>
    dsimp only
    split_ifs
    · rfl
    · funext kind
      cases kind <;> rfl

theorem dropTemporary_all_iff (h : Linked s.mon) (cp : Nat) :
    (∀ x, x ∈ (dropTemporary s cp).mon.allCheckpoints ↔
      x ∈ s.mon.allCheckpoints ∧ ¬ (x = cp ∧ (s.mon.checkpoint cp).temporary = true)) ↔
    ((s.mon.checkpoint cp).temporary = true →
      let found := monBreakpointFindCheckpoint s.mon (s.mon.checkpoint cp).checknum
      found = some cp ∨ found = none ∧ cp ∉ s.mon.allCheckpoints) := by
  have hdelete := delete_all s.mon (s.mon.checkpoint cp).checknum
  unfold dropTemporary
  dsimp only
  cases (s.mon.checkpoint cp).temporary
  · simp
  · rw [if_pos rfl]
    simp only [and_true, forall_const]
    change (∀ x, x ∈ (monBreakpointDeleteCheckpoint s.mon (s.mon.checkpoint cp).checknum).allCheckpoints ↔ _) ↔ _
    rw [hdelete]
    cases hfound : monBreakpointFindCheckpoint s.mon (s.mon.checkpoint cp).checknum with
    | none =>
      simp only [reduceCtorEq, true_and, false_or]
      exact ⟨fun hall hcp => ((hall cp).mp hcp).2 rfl,
        fun hgone x => ⟨fun hx => ⟨hx, fun hxcp => hgone (hxcp ▸ hx)⟩, fun hx => hx.1⟩⟩
    | some y =>
      simp only [reduceCtorEq, false_and, or_false, Option.some.injEq, h.allNodup.mem_erase_iff]
      have hy := (find_some hfound).1
      constructor
      · intro hall
        by_contra hne
        exact ((hall y).mpr ⟨hy, hne⟩).1 rfl
      · rintro rfl x
        exact and_comm

theorem visit_deleted_iff (h : Linked s.mon) (hcp : cp < s.mon.fresh) :
    (∀ x, x ∈ (visit e addr s cp).1.mon.allCheckpoints ↔
      x ∈ (afterCommand e addr s cp).mon.allCheckpoints ∧
        ¬ (x = cp ∧ Hit e addr s cp ∧ (s.mon.checkpoint cp).temporary = true)) ↔
    (Hit e addr s cp → (s.mon.checkpoint cp).temporary = true →
      let mon := (afterCommand e addr s cp).mon
      let found := monBreakpointFindCheckpoint mon (s.mon.checkpoint cp).checknum
      found = some cp ∨ found = none ∧ cp ∉ mon.allCheckpoints) := by
  rcases visit_cases e addr s cp with ⟨hnot, -, hvisit⟩ | ⟨hnot, -, hvisit⟩ | ⟨hhit, -, hvisit⟩
  · rw [hvisit, afterCommand_other hnot]
    simp [hnot]
  · rw [hvisit, afterCommand_other hnot]
    simp only [hnot, false_and, and_false, not_false_eq_true, and_true, false_implies, iff_true]
    exact fun x => Iff.rfl
  · obtain ⟨hnum, -, htemp, -⟩ := recordHit_checkpoint s cp cp
    obtain ⟨hnum', -, htemp', -⟩ := (command_changed h e cp).same cp hcp
    have hdrop := dropTemporary_all_iff (command_changed h e cp).linked cp
    rw [htemp', htemp, hnum', hnum] at hdrop
    rw [hvisit, afterCommand_hit hhit]
    simp only [hhit, true_and, forall_const]
    exact hdrop

/-! ## Turns -/

/-- What holds in each turn of a walk from `s₀`. -/
structure Inv (s₀ : Session κ γ ω) (kind : Kind) (mem : Nat) (w : Walk κ γ ω) : Prop where
  linked : Linked w.session.mon
  le : s₀.mon.fresh ≤ w.session.mon.fresh
  walked : Walked s₀.mon.fresh (listOf s₀.mon kind mem) (listOf w.session.mon kind mem) w.ptr w.visited
  here : ∀ cp, w.ptr = some cp → cp ∈ listOf w.session.mon kind mem
  below : ∀ cp ∈ w.hits, cp < w.session.mon.fresh
  hitCount : ∀ cp < s₀.mon.fresh,
    (w.session.mon.checkpoint cp).hitCount = (s₀.mon.checkpoint cp).hitCount + w.hits.count cp
  stops : w.mustStop = true ↔ ∃ cp ∈ w.hits, (w.session.mon.checkpoint cp).stop = true

theorem search_eq_dropWhile (m : Monitor κ) (addr : Nat) (l : List Nat) :
    searchCheckpointList m addr l = l.dropWhile fun cp =>
      !monIsInRange (m.checkpoint cp).startAddr (m.checkpoint cp).endAddr addr := by
  induction l with
  | nil => rfl
  | cons cp l ih =>
    rw [searchCheckpointList]
    cases hrange : monIsInRange (m.checkpoint cp).startAddr (m.checkpoint cp).endAddr addr
    · rw [if_neg Bool.false_ne_true, ih, List.dropWhile_cons_of_pos (by rw [hrange]; rfl)]
    · rw [if_pos rfl, List.dropWhile_cons_of_neg (by rw [hrange]; decide)]

theorem start_inv (h : Linked s.mon) (kind : Kind) (mem addr : Nat) :
    Inv s kind mem (start kind mem addr s) := by
  have hsplit := (List.takeWhile_append_dropWhile
    (p := fun cp => !monIsInRange (s.mon.checkpoint cp).startAddr (s.mon.checkpoint cp).endAddr addr)
    (l := listOf s.mon kind mem)).symm
  rw [← search_eq_dropWhile] at hsplit
  refine ⟨h, Nat.le_refl _, .start (h.nodup kind mem) hsplit _, fun cp hcp => ?_,
    fun cp hcp => absurd hcp (List.not_mem_nil ·), fun cp _ => rfl, ?_⟩
  · have hmem := List.mem_of_mem_head? (Option.mem_def.mpr hcp)
    change cp ∈ listOf s.mon kind mem
    rw [hsplit]
    exact List.mem_append_right _ hmem
  · exact ⟨fun h => (Bool.false_ne_true h).elim, fun ⟨_, h, _⟩ => absurd h (List.not_mem_nil ·)⟩

/-- What a turn for an entry leaves. -/
def turned (e : Env κ γ ω) (kind : Kind) (mem addr : Nat) (w : Walk κ γ ω) (cp : Nat) : Walk κ γ ω where
  session := (visit e addr w.session cp).1
  ptr := following (listOf w.session.mon kind mem) cp
  mustStop := w.mustStop || (visit e addr w.session cp).2
  visited := w.visited ++ [cp]
  hits := if Hit e addr w.session cp then w.hits ++ [cp] else w.hits

theorem turn_eq (h : Inv s₀ kind mem w) (hptr : w.ptr = some cp) :
    turn e kind mem addr w = some (turned e kind mem addr w cp) := by
  unfold turn
  rw [hptr]
  exact if_pos (h.here cp hptr)

theorem turned_count (w : Walk κ γ ω) (x : Nat) : (turned e kind mem addr w cp).hits.count x =
    w.hits.count x + if x = cp ∧ Hit e addr w.session cp then 1 else 0 := by
  unfold turned
  dsimp only
  by_cases hhit : Hit e addr w.session cp
  · rw [if_pos hhit, List.count_append, List.count_singleton]
    by_cases hx : x = cp
    · simp [hx, hhit]
    · have hne : ¬ cp = x := fun h => hx h.symm
      simp [hx, hne]
  · rw [if_neg hhit, if_neg fun h => hhit h.2]
    rfl

/-- The entry that was saved is left. -/
theorem turned_inv (h : Inv s₀ kind mem w) (hptr : w.ptr = some cp)
    (hspared : ∀ q, following (listOf w.session.mon kind mem) cp = some q →
      q ∈ listOf (visit e addr w.session cp).1.mon kind mem) :
    Inv s₀ kind mem (turned e kind mem addr w cp) := by
  have hcp := h.here cp hptr
  have hbelow := h.linked.below kind mem
  have hedit := visit_lists h.linked e addr cp kind mem
  have hwalked := h.walked
  rw [hptr] at hwalked
  have hstop : ∀ x < w.session.mon.fresh,
      ((visit e addr w.session cp).1.mon.checkpoint x).stop = (w.session.mon.checkpoint x).stop :=
    fun x hx => visit_same h.linked e addr cp hx
  refine ⟨visit_linked h.linked e addr cp, Nat.le_trans h.le hedit.le,
    hwalked.next h.le (h.linked.nodup kind mem) hbelow hcp hedit hspared, fun q hq => hspared q hq,
    fun x hx => ?_, fun x hx => ?_, ?_⟩
  · change x ∈ (if _ then _ else _) at hx
    split_ifs at hx
    · rcases List.mem_append.mp hx with hx | hx
      · exact Nat.lt_of_lt_of_le (h.below x hx) hedit.le
      · rw [List.mem_singleton.mp hx]
        exact Nat.lt_of_lt_of_le (hbelow cp hcp) hedit.le
    · exact Nat.lt_of_lt_of_le (h.below x hx) hedit.le
  · rw [turned_count, ← Nat.add_assoc, ← h.hitCount x hx]
    exact visit_hitCount h.linked e addr cp (Nat.lt_of_lt_of_le hx h.le)
  · have hstopped := visit_stop e addr w.session cp
    change (w.mustStop || (visit e addr w.session cp).2) = true ↔
      ∃ x ∈ (if Hit e addr w.session cp then w.hits ++ [cp] else w.hits),
        ((visit e addr w.session cp).1.mon.checkpoint x).stop = true
    rw [Bool.or_eq_true, h.stops, hstopped]
    have hold : (∃ x ∈ w.hits, ((visit e addr w.session cp).1.mon.checkpoint x).stop = true) ↔
        ∃ x ∈ w.hits, (w.session.mon.checkpoint x).stop = true :=
      exists_congr fun x => and_congr_right fun hx => by rw [hstop x (h.below x hx)]
    by_cases hhit : Hit e addr w.session cp
    · rw [if_pos hhit, ← hold, ← hstop cp (hbelow cp hcp)]
      simp [hhit, or_and_right, exists_or]
    · rw [if_neg hhit, hold]
      simp [hhit]

/-- Nothing gets into a list when a temporary checkpoint is deleted. -/
theorem dropTemporary_subset (s : Session κ γ ω) (cp : Nat) (kind : Kind) (mem : Nat) :
    listOf (dropTemporary s cp).mon kind mem ⊆ listOf s.mon kind mem := by
  have hdelete := delete_lists s.mon (s.mon.checkpoint cp).checknum
  unfold dropTemporary
  dsimp only
  split_ifs
  · change listOf (monBreakpointDeleteCheckpoint s.mon (s.mon.checkpoint cp).checknum) kind mem ⊆ _
    rw [hdelete]
    cases monBreakpointFindCheckpoint s.mon (s.mon.checkpoint cp).checknum with
    | none => exact List.Subset.refl _
    | some y =>
      change listOf (removeCheckpoint s.mon y) kind mem ⊆ _
      rcases removeCheckpoint_lists s.mon y kind mem with hlist | hlist
      · rw [hlist]
        exact List.erase_subset
      · rw [hlist]
        exact List.Subset.refl _
  · exact List.Subset.refl _

/-- The others stay if the number is the checkpoint's own. -/
theorem dropTemporary_kept {q : Nat} (hq : q ∈ listOf s.mon kind mem) (hne : q ≠ cp)
    (hnumber : (s.mon.checkpoint cp).temporary = true →
      let found := monBreakpointFindCheckpoint s.mon (s.mon.checkpoint cp).checknum
      found = some cp ∨ found = none ∧ cp ∉ s.mon.allCheckpoints) :
    q ∈ listOf (dropTemporary s cp).mon kind mem := by
  have hdelete := delete_lists s.mon (s.mon.checkpoint cp).checknum
  unfold dropTemporary
  dsimp only
  split_ifs with htemp
  · change q ∈ listOf (monBreakpointDeleteCheckpoint s.mon (s.mon.checkpoint cp).checknum) kind mem
    rw [hdelete]
    rcases hnumber htemp with hfound | ⟨hfound, -⟩
    · rw [hfound]
      change q ∈ listOf (removeCheckpoint s.mon cp) kind mem
      rcases removeCheckpoint_lists s.mon cp kind mem with hlist | hlist
      · rw [hlist]
        exact (List.mem_erase_of_ne hne).mpr hq
      · rw [hlist]
        exact hq
    · rw [hfound]
      exact hq
  · exact hq

theorem following_kept (h : Inv s₀ kind mem w) (hptr : w.ptr = some cp)
    (hspares : Hit e addr w.session cp → Spares e kind mem addr w.session cp) {q : Nat}
    (hq : following (listOf w.session.mon kind mem) cp = some q) :
    q ∈ listOf (visit e addr w.session cp).1.mon kind mem := by
  have hlist : q ∈ listOf w.session.mon kind mem := following_mem hq
  rcases visit_cases e addr w.session cp with ⟨-, -, hvisit⟩ | ⟨-, -, hvisit⟩ | ⟨hhit, -, hvisit⟩
  · rw [hvisit]
    exact hlist
  · rw [hvisit, ignored_lists]
    exact hlist
  · obtain ⟨hnext, hnumber⟩ := hspares hhit
    have hne := following_ne (h.linked.nodup kind mem) hq
    obtain ⟨hnum, -, htemp, -⟩ := recordHit_checkpoint w.session cp cp
    obtain ⟨hnum', -, htemp', -⟩ := (command_changed h.linked e cp).same cp
      (h.linked.below kind mem cp (h.here cp hptr))
    rw [afterCommand_hit hhit] at hnext hnumber
    rw [hvisit]
    apply dropTemporary_kept (hnext q hq) hne
    rw [htemp', htemp, hnum', hnum]
    exact hnumber

/-- An entry that is left was left by the command. -/
theorem following_left {q : Nat} (hq : following (listOf w.session.mon kind mem) cp = some q)
    (hleft : q ∈ listOf (visit e addr w.session cp).1.mon kind mem) :
    q ∈ listOf (afterCommand e addr w.session cp).mon kind mem := by
  rcases visit_cases e addr w.session cp with ⟨hnot, -, -⟩ | ⟨hnot, -, -⟩ | ⟨hhit, -, hvisit⟩
  · rw [afterCommand_other hnot]
    exact following_mem hq
  · rw [afterCommand_other hnot]
    exact following_mem hq
  · rw [afterCommand_hit hhit]
    rw [hvisit] at hleft
    exact dropTemporary_subset _ cp kind mem hleft

/-- Without new entries from its command, a turn leaves less to come. -/
theorem turned_shorter (h : Inv s₀ kind mem w) (hptr : w.ptr = some cp)
    (hspared : ∀ q, following (listOf w.session.mon kind mem) cp = some q →
      q ∈ listOf (visit e addr w.session cp).1.mon kind mem)
    (hnew : Hit e addr w.session cp →
      listOf (afterCommand e addr w.session cp).mon kind mem ⊆ listOf w.session.mon kind mem) :
    let w' := turned e kind mem addr w cp
    (behind (listOf w'.session.mon kind mem) w'.ptr).length <
      (behind (listOf w.session.mon kind mem) w.ptr).length := by
  rw [hptr]
  refine behind_shorter (h.linked.nodup kind mem) (h.linked.below kind mem) (h.here cp hptr)
    (visit_lists h.linked e addr cp kind mem) ?_ hspared
  change listOf (visit e addr w.session cp).1.mon kind mem ⊆ _
  rcases visit_cases e addr w.session cp with ⟨-, -, hvisit⟩ | ⟨-, -, hvisit⟩ | ⟨hhit, -, hvisit⟩
  · rw [hvisit]
    exact List.Subset.refl _
  · rw [hvisit, ignored_lists]
    exact List.Subset.refl _
  · rw [hvisit]
    have hcommand := hnew hhit
    rw [afterCommand_hit hhit] at hcommand
    exact List.Subset.trans (dropTemporary_subset _ cp kind mem) hcommand

/-! ## Walks -/

theorem turns_succ (h : turns e kind mem addr n (start kind mem addr s) = some w) :
    turns e kind mem addr (n + 1) (start kind mem addr s) = turn e kind mem addr w := by
  rw [turns, h]
  rfl

theorem turn_done (hptr : w.ptr = none) : turn e kind mem addr w = some w := by
  unfold turn
  rw [hptr]

theorem turns_done (hw : turns e kind mem addr n (start kind mem addr s) = some w) (hptr : w.ptr = none)
    (j : Nat) : turns e kind mem addr (n + j) (start kind mem addr s) = some w := by
  induction j with
  | zero => exact hw
  | succ j ih => rw [← Nat.add_assoc, turns_succ ih, turn_done hptr]

theorem turns_none (h : turns e kind mem addr n (start kind mem addr s) = none) (j : Nat) :
    turns e kind mem addr (n + j) (start kind mem addr s) = none := by
  induction j with
  | zero => exact h
  | succ j ih =>
    rw [← Nat.add_assoc, turns, ih]
    rfl

theorem turns_inv (h : Linked s.mon)
    (hspare : ∀ k w cp, turns e kind mem addr k (start kind mem addr s) = some w → w.ptr = some cp →
      Hit e addr w.session cp → Spares e kind mem addr w.session cp) (k : Nat) :
    ∃ w, turns e kind mem addr k (start kind mem addr s) = some w ∧ Inv s kind mem w := by
  induction k with
  | zero => exact ⟨_, rfl, start_inv h kind mem addr⟩
  | succ k ih =>
    obtain ⟨w, hw, hinv⟩ := ih
    rw [turns_succ hw]
    cases hptr : w.ptr with
    | none => exact ⟨w, turn_done hptr, hinv⟩
    | some cp =>
      refine ⟨_, turn_eq hinv hptr, turned_inv hinv hptr fun q hq => ?_⟩
      exact following_kept hinv hptr (hspare k w cp hw hptr) hq

/-- Every turn of a walk that goes on has the invariant, whatever the commands do. -/
theorem inv_of_turns (h : Linked s.mon) {k : Nat}
    (hw : turns e kind mem addr k (start kind mem addr s) = some w)
    (hnext : (turns e kind mem addr (k + 1) (start kind mem addr s)).isSome) : Inv s kind mem w := by
  induction k generalizing w with
  | zero =>
    cases hw
    exact start_inv h kind mem addr
  | succ k ih =>
    cases hold : turns e kind mem addr k (start kind mem addr s) with
    | none =>
      rw [turns, hold] at hw
      cases hw
    | some w₀ =>
      have hinv := ih hold (by rw [hw]; rfl)
      rw [turns_succ hold] at hw
      cases hptr : w₀.ptr with
      | none =>
        rw [turn_done hptr] at hw
        cases hw
        exact hinv
      | some cp =>
        rw [turn_eq hinv hptr] at hw
        cases hw
        refine turned_inv hinv hptr fun q hq => ?_
        -- the entry is looked at in the next turn
        rw [turns, turns_succ hold, turn_eq hinv hptr, Option.bind_some, turn] at hnext
        have hq' : (turned e kind mem addr w₀ cp).ptr = some q := hq
        rw [hq'] at hnext
        by_contra hgone
        have hgone' : q ∉ listOf (turned e kind mem addr w₀ cp).session.mon kind mem := hgone
        dsimp only at hnext
        rw [if_neg hgone'] at hnext
        cases hnext

theorem turns_end (h : Linked s.mon) (hspare : AllSpare e kind mem addr s) :
    ∃ n w, turns e kind mem addr n (start kind mem addr s) = some w ∧ w.ptr = none ∧
      Inv s kind mem w := by
  obtain ⟨hspare, N, hnew⟩ := hspare
  have hends : ∀ d k w, N ≤ k → turns e kind mem addr k (start kind mem addr s) = some w →
      Inv s kind mem w → (behind (listOf w.session.mon kind mem) w.ptr).length ≤ d →
      ∃ n w, turns e kind mem addr n (start kind mem addr s) = some w ∧ w.ptr = none ∧
        Inv s kind mem w := by
    intro d
    induction d with
    | zero =>
      intro k w hk hw hinv hlen
      refine ⟨k, w, hw, ?_, hinv⟩
      cases hptr : w.ptr with
      | none => rfl
      | some cp =>
        rw [hptr] at hlen
        have hmem := mem_behind (hinv.here cp hptr)
        rw [List.eq_nil_of_length_eq_zero (Nat.le_zero.mp hlen)] at hmem
        cases hmem
    | succ d ih =>
      intro k w hk hw hinv hlen
      cases hptr : w.ptr with
      | none => exact ⟨k, w, hw, hptr, hinv⟩
      | some cp =>
        have hkept := fun q hq => following_kept (q := q) hinv hptr (hspare k w cp hw hptr) hq
        have hshorter := turned_shorter hinv hptr hkept (hnew k hk w cp hw hptr)
        exact ih (k + 1) (turned e kind mem addr w cp) (Nat.le_succ_of_le hk)
          ((turns_succ hw).trans (turn_eq hinv hptr)) (turned_inv hinv hptr hkept)
          (Nat.le_of_lt_succ (Nat.lt_of_lt_of_le hshorter hlen))
  obtain ⟨w, hw, hinv⟩ := turns_inv h hspare N
  exact hends _ N w (Nat.le_refl N) hw hinv (Nat.le_refl _)

theorem outcome_of_inv (h : Linked s.mon) (hinv : Inv s kind mem w) (hptr : w.ptr = none) :
    Outcome s kind mem w := by
  have hwalked := hinv.walked
  rw [hptr] at hwalked
  have hbelow := h.below kind mem
  refine ⟨fun cp hcp hleft => hwalked.count_end (h.nodup kind mem) hleft (hbelow cp hcp), ?_,
    hinv.hitCount, hinv.stops⟩
  have hfilter : w.visited.filter (· ∈ listOf s.mon kind mem) =
      (w.visited.filter (· < s.mon.fresh)).filter (· ∈ listOf s.mon kind mem) := by
    rw [List.filter_filter]
    refine List.filter_congr fun x _ => ?_
    by_cases hx : x ∈ listOf s.mon kind mem
    · simp [hx, hbelow x hx]
    · simp [hx]
  rw [hfilter]
  exact List.filter_sublist.trans hwalked.order_end

theorem visit_exact (h : Linked s.mon) (hcp : cp < s.mon.fresh)
    (hspares : Hit e addr s cp → Spares e kind mem addr s cp) : VisitExact e addr s cp where
  hitCount _ hx := visit_hitCount h e addr cp hx
  ignoreCount := visit_ignoreCount e addr s cp
  deleted := (visit_deleted_iff h hcp).mpr fun hhit => (hspares hhit).number

/-- An access is reported as it should be exactly if each command that is executed leaves the entry
behind its own in the list and does not give its number away, and the commands do not put in entries
for ever. -/
theorem checkpoints_exact_iff (h : Linked s.mon) : Exact e kind mem addr s ↔ AllSpare e kind mem addr s := by
  constructor
  · rintro ⟨n, w, hw, hptr, -, hexact⟩
    have hlate : ∀ k, n ≤ k → turns e kind mem addr k (start kind mem addr s) = some w := by
      intro k hk
      obtain ⟨j, rfl⟩ := Nat.exists_eq_add_of_le hk
      exact turns_done hw hptr j
    have hinv : ∀ k w', turns e kind mem addr k (start kind mem addr s) = some w' → Inv s kind mem w' := by
      intro k w' hw'
      apply inv_of_turns h hw'
      by_contra hnone
      have hgone := turns_none (Option.not_isSome_iff_eq_none.mp hnone) n
      rw [hlate _ (Nat.le_add_left n (k + 1))] at hgone
      cases hgone
    refine ⟨fun k w' cp hw' hptr' hhit => ?_, n, fun k hk w' cp hw' hptr' => ?_⟩
    · have hbefore := hinv k w' hw'
      have hafter := hinv (k + 1) _ ((turns_succ hw').trans (turn_eq hbefore hptr'))
      have hlt : k < n := by
        by_contra hge
        cases hw'.symm.trans (hlate k (Nat.le_of_not_lt hge))
        rw [hptr] at hptr'
        cases hptr'
      have hcp := hbefore.linked.below kind mem cp (hbefore.here cp hptr')
      exact ⟨fun q hq => following_left hq (hafter.here q hq),
        (visit_deleted_iff hbefore.linked hcp).mp (hexact k hlt w' cp hw' hptr').deleted hhit⟩
    · rw [hlate k hk] at hw'
      cases hw'
      rw [hptr] at hptr'
      cases hptr'
  · intro hspare
    obtain ⟨n, w, hw, hptr, hinv⟩ := turns_end h hspare
    refine ⟨n, w, hw, hptr, outcome_of_inv h hinv hptr, fun k _ w' cp hw' hptr' => ?_⟩
    obtain ⟨w'', hw'', hinv'⟩ := turns_inv h hspare.1 k
    cases hw'.symm.trans hw''
    exact visit_exact hinv'.linked (hinv'.linked.below kind mem cp (hinv'.here cp hptr'))
      (hspare.1 k w' cp hw' hptr')

end

/-- The only line is one that deletes a checkpoint, and there are no conditions. -/
def deleting : Env Unit Int Unit where
  lines n _ := ([.deleteCheckpoint n], ())
  holds _ _ := true

/-- Two breakpoints at $1000, of which the first has a command that deletes another one. -/
def twoBreakpoints (deletes : Int) : Session Unit Int Unit where
  mon := run noCheckpoints
    [.addCheckpoint ⟨1, 0x1000⟩ ⟨6, 0⟩ true 4 false, .addCheckpoint ⟨1, 0x1000⟩ ⟨6, 0⟩ true 4 false]
  command := fun cp => if cp = 0 then some deletes else none
  silent := fun _ => false
  world := ()

theorem twoBreakpoints_linked (deletes : Int) : Linked (twoBreakpoints deletes).mon :=
  run_linked noCheckpoints_started

/-- A command that deletes its own checkpoint does no harm. -/
theorem checkpoints_exact_own : Exact deleting .exec 1 0x1000 (twoBreakpoints 1) := by
  apply (checkpoints_exact_iff (twoBreakpoints_linked 1)).mpr
  have hturns : (turns deleting .exec 1 0x1000 1 (start .exec 1 0x1000 (twoBreakpoints 1))).all
      (fun w => w.ptr == some 1 && following (listOf w.session.mon .exec 1) 1 == none &&
        !(w.session.mon.checkpoint 1).temporary) = true := by decide
  have hend : (turns deleting .exec 1 0x1000 2 (start .exec 1 0x1000 (twoBreakpoints 1))).map Walk.ptr =
      some none := by decide
  have hlate : ∀ k w, 2 ≤ k → turns deleting .exec 1 0x1000 k (start .exec 1 0x1000 (twoBreakpoints 1)) =
      some w → w.ptr = none := by
    intro k w hk hw
    obtain ⟨j, rfl⟩ := Nat.exists_eq_add_of_le hk
    obtain ⟨w', hw', hptr⟩ := Option.map_eq_some_iff.mp hend
    cases hw.symm.trans (turns_done hw' hptr j)
    exact hptr
  refine ⟨fun k w cp hw hptr _ => ?_, 2, fun k hk w cp hw hptr => ?_⟩
  · match k with
    | 0 =>
      cases hw
      have hcp : (start .exec 1 0x1000 (twoBreakpoints 1)).ptr = some 0 := by decide
      cases hcp.symm.trans hptr
      refine ⟨fun q hq => ?_, fun htemp => ?_⟩
      · have hnext : following (listOf (twoBreakpoints 1).mon .exec 1) 0 = some 1 := by decide
        cases hnext.symm.trans hq
        decide
      · revert htemp
        decide
    | 1 =>
      rw [hw] at hturns
      simp only [Option.all_some, Bool.and_eq_true, beq_iff_eq, Bool.not_eq_true'] at hturns
      obtain ⟨⟨hcp, hnext⟩, htemp⟩ := hturns
      cases hcp.symm.trans hptr
      refine ⟨fun q hq => ?_, fun htemp' => ?_⟩
      · rw [hnext] at hq
        cases hq
      · rw [htemp] at htemp'
        cases htemp'
    | k + 2 =>
      rw [hlate (k + 2) w (Nat.le_add_left 2 k) hw] at hptr
      cases hptr
  · rw [hlate k w hk hw] at hptr
    cases hptr

/-- Two breakpoints at $1000, and the command of #1 deletes #2: its entry is freed, and visited. -/
theorem command_frees_next : Linked (twoBreakpoints 2).mon ∧
    ¬ Exact deleting .exec 1 0x1000 (twoBreakpoints 2) := by
  refine ⟨twoBreakpoints_linked 2, ?_⟩
  rintro ⟨n, w, hw, hptr, -⟩
  have hfreed : (turns deleting .exec 1 0x1000 2 (start .exec 1 0x1000 (twoBreakpoints 2))).isNone = true := by
    decide
  match n with
  | 0 =>
    cases hw
    revert hptr
    decide
  | 1 =>
    have hfirst : (turns deleting .exec 1 0x1000 1 (start .exec 1 0x1000 (twoBreakpoints 2))).map Walk.ptr =
        some (some 1) := by decide
    rw [hw, Option.map_some, hptr] at hfirst
    cases hfirst
  | n + 2 =>
    have hnone := turns_none (Option.isNone_iff_eq_none.mp hfreed) n
    rw [Nat.add_comm, hw] at hnone
    cases hnone

end Vice.L5.CheckpointHits
