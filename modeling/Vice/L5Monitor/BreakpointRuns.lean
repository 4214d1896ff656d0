import Vice.L5Monitor.Breakpoints

/-!
# The lists of the checkpoints agree

`Indexed` says it of the lists and the numbers, `Masked` of the bits that make a CPU look at them.
`mon_breakpoint_unset` breaks both: it leaves the lists for loads and stores as they are, and it
does not look at the bits.

Results:
* `removeCheckpoint_kept`, `add_kept`: the two operations that change lists.
* `run_consistent`: every run.
* `unset_leaves_mask`: what `mon_breakpoint_unset` does.
-/
namespace Vice.L5.BreakpointRuns
open Vice.L5.Breakpoints

section
variable {κ : Type} {m : Monitor κ} {cp : Nat} {mem : Nat}

/-- What a list is searched for. -/
inductive Kind
  | exec | load | store
  deriving DecidableEq

def listOf (m : Monitor κ) : Kind → Nat → List Nat
  | .exec => m.breakpoints
  | .load => m.watchpointsLoad
  | .store => m.watchpointsStore

def Checks (m : Monitor κ) (cp : Nat) : Kind → Prop
  | .exec => (m.checkpoint cp).checkExec = true
  | .load => (m.checkpoint cp).checkLoad = true
  | .store => (m.checkpoint cp).checkStore = true

def Sorted (m : Monitor κ) (entries : List Nat) : Prop :=
  entries.Pairwise fun cp cp' => m.location cp ≤ m.location cp'

/-- The checkpoints and their lists agree with each other and with the bits for the CPUs. -/
structure Consistent (m : Monitor κ) : Prop where
  numbers : m.allCheckpoints.Pairwise fun cp cp' =>
    (m.checkpoint cp).checknum ≠ (m.checkpoint cp').checknum
  listed : ∀ kind mem cp, cp ∈ listOf m kind mem ↔
    cp ∈ m.allCheckpoints ∧ m.memspace cp = mem ∧ Checks m cp kind
  allSorted : Sorted m m.allCheckpoints
  sorted : ∀ kind mem, Sorted m (listOf m kind mem)
  breakMask : ∀ mem, m.monitorMask mem &&& miBreak ≠ 0 ↔ m.breakpoints mem ≠ []
  watchMask : ∀ mem, m.monitorMask mem &&& miWatch ≠ 0 ↔
    m.watchpointsLoad mem ≠ [] ∨ m.watchpointsStore mem ≠ []

/-- The lists and the numbers. -/
structure Indexed (m : Monitor κ) : Prop where
  nodup : m.allCheckpoints.Nodup
  below : ∀ cp ∈ m.allCheckpoints, cp < m.fresh
  counted : ∀ cp ∈ m.allCheckpoints, (m.checkpoint cp).checknum ∈ m.numbers
  distinct : ∀ cp ∈ m.allCheckpoints, ∀ cp' ∈ m.allCheckpoints,
    (m.checkpoint cp).checknum = (m.checkpoint cp').checknum → cp = cp'
  listNodup : ∀ kind mem, (listOf m kind mem).Nodup
  listed : ∀ kind mem cp, cp ∈ listOf m kind mem ↔
    cp ∈ m.allCheckpoints ∧ m.memspace cp = mem ∧ Checks m cp kind
  allSorted : Sorted m m.allCheckpoints
  sorted : ∀ kind mem, Sorted m (listOf m kind mem)

/-- The bits of a memspace. -/
def Masked (m : Monitor κ) (mem : Nat) : Prop :=
  (m.monitorMask mem &&& miBreak ≠ 0 ↔ m.breakpoints mem ≠ []) ∧
    (m.monitorMask mem &&& miWatch ≠ 0 ↔ m.watchpointsLoad mem ≠ [] ∨ m.watchpointsStore mem ≠ [])

structure Kept (m : Monitor κ) : Prop where
  indexed : Indexed m
  masked : ∀ mem, Masked m mem
  first : 1 ≤ m.breakpointCount

theorem Kept.consistent (h : Kept m) : Consistent m where
  numbers := by
    apply h.indexed.nodup.imp_of_mem
    intro cp cp' hcp hcp' hne hnum
    exact hne (h.indexed.distinct cp hcp cp' hcp' hnum)
  listed := h.indexed.listed
  allSorted := h.indexed.allSorted
  sorted := h.indexed.sorted
  breakMask := fun mem => (h.masked mem).1
  watchMask := fun mem => (h.masked mem).2

/-! ## Bits -/

section
variable {w : Nat} {x b c : BitVec w}

theorem set_self : (x ||| b) &&& b = b := by
  ext i
  simp
  exact .inr

theorem clear_self : x &&& ~~~b &&& b = 0 := by
  simp [BitVec.and_assoc]

theorem set_other (h : b &&& c = 0) : (x ||| b) &&& c = x &&& c := by
  rw [BitVec.and_comm, BitVec.and_or_distrib_left, BitVec.and_comm c b, h]
  simp [BitVec.and_comm]

theorem clear_other (h : b &&& c = 0) : x &&& ~~~b &&& c = x &&& c := by
  ext i hi
  have hbit : (b &&& c)[i] = (0 : BitVec w)[i] := by rw [h]
  simp only [BitVec.getElem_and, BitVec.getElem_not, BitVec.ofNat_eq_ofNat, BitVec.getElem_zero] at hbit ⊢
  cases hb : b[i]
  · simp
  · rw [hb] at hbit
    simp_all

end

/-- The state of a memspace is what its lists say. -/
theorem updateCheckpointState_masked : Masked (updateCheckpointState m mem) mem := by
  have hdisjoint : miWatch &&& miBreak = 0 := by decide
  have hdisjoint' : miBreak &&& miWatch = 0 := by decide
  constructor
  · unfold updateCheckpointState
    simp only [Function.update_self]
    by_cases hlist : m.breakpoints mem ≠ []
    · rw [if_pos hlist, set_self]
      exact ⟨fun _ => hlist, fun _ => by decide⟩
    · rw [if_neg hlist, clear_self]
      exact ⟨fun h => absurd rfl h, fun h => absurd h hlist⟩
  · unfold updateCheckpointState
    simp only [Function.update_self]
    have hkept : ∀ x : BitVec 32, (if m.breakpoints mem ≠ [] then x ||| miBreak
        else x &&& ~~~miBreak) &&& miWatch = x &&& miWatch := by
      intro x
      split
      · exact set_other hdisjoint'
      · exact clear_other hdisjoint'
    rw [hkept]
    by_cases hlist : m.watchpointsLoad mem ≠ [] ∨ m.watchpointsStore mem ≠ []
    · rw [if_pos hlist, set_self]
      exact ⟨fun _ => hlist, fun _ => by decide⟩
    · rw [if_neg hlist, clear_self]
      exact ⟨fun h => absurd rfl h, fun h => absurd h hlist⟩

/-- No other memspace is touched. -/
theorem updateCheckpointState_other {mem' : Nat} (hother : mem' ≠ mem) (h : Masked m mem') :
    Masked (updateCheckpointState m mem) mem' := by
  unfold Masked updateCheckpointState at *
  simp only [Function.update_of_ne hother]
  exact h

theorem updateCheckpointState_lists : listOf (updateCheckpointState m mem) = listOf m := by
  funext kind
  cases kind <;> rfl

theorem updateCheckpointState_checks : Checks (updateCheckpointState m mem) = Checks m := by
  funext cp kind
  cases kind <;> rfl

theorem updateCheckpointState_indexed (h : Indexed m) : Indexed (updateCheckpointState m mem) := by
  obtain ⟨hnodup, hbelow, hcounted, hdistinct, hlistNodup, hlisted, hallSorted, hsorted⟩ := h
  refine ⟨hnodup, hbelow, hcounted, hdistinct, ?_, ?_, hallSorted, ?_⟩
  · rwa [updateCheckpointState_lists]
  · rw [updateCheckpointState_lists, updateCheckpointState_checks]
    exact hlisted
  · rw [updateCheckpointState_lists]
    exact hsorted

/-- Lists that differ for one memspace, before its state is updated. -/
theorem updateCheckpointState_kept (h : Indexed m) (hmasked : ∀ mem' ≠ mem, Masked m mem')
    (hfirst : 1 ≤ m.breakpointCount) : Kept (updateCheckpointState m mem) := by
  refine ⟨updateCheckpointState_indexed h, fun mem' => ?_, hfirst⟩
  by_cases hmem : mem' = mem
  · rw [hmem]
    exact updateCheckpointState_masked
  · exact updateCheckpointState_other hmem (hmasked mem' hmem)

/-! ## Changes of a checkpoint -/

/-- What the lists depend on stays. -/
def Stays (change : Checkpoint κ → Checkpoint κ) : Prop :=
  ∀ c, (change c).checknum = c.checknum ∧ (change c).startAddr = c.startAddr ∧
    (change c).checkExec = c.checkExec ∧ (change c).checkLoad = c.checkLoad ∧
    (change c).checkStore = c.checkStore

theorem modify_checkpoint {change : Checkpoint κ → Checkpoint κ} (hstays : Stays change) (cp' : Nat) :
    let c := (m.modify cp change).checkpoint cp'
    let c' := m.checkpoint cp'
    c.checknum = c'.checknum ∧ c.startAddr = c'.startAddr ∧ c.checkExec = c'.checkExec ∧
      c.checkLoad = c'.checkLoad ∧ c.checkStore = c'.checkStore := by
  unfold Monitor.modify
  by_cases hcp : cp' = cp
  · subst hcp
    simp only [Function.update_self]
    exact hstays _
  · simp [Function.update_of_ne hcp]

theorem modify_kept {change : Checkpoint κ → Checkpoint κ} (h : Kept m) (hstays : Stays change) :
    Kept (m.modify cp change) := by
  have hsame := @modify_checkpoint κ m cp change hstays
  have hlocation : (m.modify cp change).location = m.location := by
    funext cp'
    exact congrArg MonAddr.location (hsame cp').2.1
  have hmemspace : (m.modify cp change).memspace = m.memspace := by
    funext cp'
    exact congrArg MonAddr.memspace (hsame cp').2.1
  have hlists : listOf (m.modify cp change) = listOf m := by
    funext kind
    cases kind <;> rfl
  have hchecks : Checks (m.modify cp change) = Checks m := by
    funext cp' kind
    cases kind
    · exact congrArg (· = true) (hsame cp').2.2.1
    · exact congrArg (· = true) (hsame cp').2.2.2.1
    · exact congrArg (· = true) (hsame cp').2.2.2.2
  have hnum : ∀ cp', ((m.modify cp change).checkpoint cp').checknum = (m.checkpoint cp').checknum :=
    fun cp' => (hsame cp').1
  obtain ⟨⟨hnodup, hbelow, hcounted, hdistinct, hlistNodup, hlisted, hallSorted, hsorted⟩, hmasked, hfirst⟩ := h
  refine ⟨⟨hnodup, hbelow, ?_, ?_, ?_, ?_, ?_, ?_⟩, hmasked, hfirst⟩
  · intro cp' hcp'
    rw [hnum]
    exact hcounted cp' hcp'
  · intro cp' hcp' cp'' hcp''
    rw [hnum, hnum]
    exact hdistinct cp' hcp' cp'' hcp''
  · rwa [hlists]
  · rwa [hlists, hmemspace, hchecks]
  · unfold Sorted
    rw [hlocation]
    exact hallSorted
  · unfold Sorted
    rw [hlocation, hlists]
    exact hsorted

/-! ## Removal -/

/-- A checkpoint is taken from each list that it is in. -/
def unlist (m : Monitor κ) (cp : Nat) : Monitor κ :=
  { m with
    allCheckpoints := m.allCheckpoints.erase cp
    breakpoints := fun mem => (m.breakpoints mem).erase cp
    watchpointsLoad := fun mem => (m.watchpointsLoad mem).erase cp
    watchpointsStore := fun mem => (m.watchpointsStore mem).erase cp }

theorem unlist_lists (kind : Kind) (mem : Nat) :
    listOf (unlist m cp) kind mem = (listOf m kind mem).erase cp := by
  cases kind <;> rfl

theorem unlist_checks : Checks (unlist m cp) = Checks m := by
  funext cp kind
  cases kind <;> rfl

theorem unlist_indexed (h : Indexed m) : Indexed (unlist m cp) := by
  obtain ⟨hnodup, hbelow, hcounted, hdistinct, hlistNodup, hlisted, hallSorted, hsorted⟩ := h
  have hkept : ∀ cp' ∈ m.allCheckpoints.erase cp, cp' ∈ m.allCheckpoints :=
    fun cp' hcp' => List.mem_of_mem_erase hcp'
  refine ⟨hnodup.erase cp, fun cp' hcp' => hbelow cp' (hkept cp' hcp'),
    fun cp' hcp' => hcounted cp' (hkept cp' hcp'),
    fun cp' hcp' cp'' hcp'' => hdistinct cp' (hkept cp' hcp') cp'' (hkept cp'' hcp''), ?_, ?_, ?_, ?_⟩
  · intro kind mem
    rw [unlist_lists]
    exact (hlistNodup kind mem).erase cp
  · intro kind mem cp'
    rw [unlist_lists, unlist_checks, (hlistNodup kind mem).mem_erase_iff, hlisted]
    change _ ↔ cp' ∈ m.allCheckpoints.erase cp ∧ _
    rw [hnodup.mem_erase_iff, and_assoc]
    rfl
  · exact hallSorted.sublist List.erase_sublist
  · intro kind mem
    rw [unlist_lists]
    exact (hsorted kind mem).sublist List.erase_sublist

/-- It is in no list that it is not taken from. -/
theorem erase_unless {lists : Nat → List Nat} {checks : Bool}
    (hlisted : ∀ mem, cp ∈ lists mem → m.memspace cp = mem ∧ checks = true) :
    (if checks = true then changeList lists (m.memspace cp) (·.erase cp) else lists) =
      fun mem => (lists mem).erase cp := by
  funext mem
  by_cases hmem : cp ∈ lists mem
  · obtain ⟨hspace, hchecks⟩ := hlisted mem hmem
    rw [if_pos hchecks]
    unfold changeList
    rw [hspace, Function.update_self]
  · rw [List.erase_of_not_mem hmem]
    split
    · unfold changeList
      by_cases hspace : mem = m.memspace cp
      · rw [hspace, Function.update_self]
        rw [hspace] at hmem
        exact List.erase_of_not_mem hmem
      · rw [Function.update_of_ne hspace]
    · rfl

theorem removeCheckpoint_eq (h : Indexed m) :
    removeCheckpoint m cp = updateCheckpointState (unlist m cp) (m.memspace cp) := by
  have hexec := @erase_unless κ m cp m.breakpoints (m.checkpoint cp).checkExec
    fun mem hcp => ((h.listed .exec mem cp).mp hcp).2
  have hload := @erase_unless κ m cp m.watchpointsLoad (m.checkpoint cp).checkLoad
    fun mem hcp => ((h.listed .load mem cp).mp hcp).2
  have hstore := @erase_unless κ m cp m.watchpointsStore (m.checkpoint cp).checkStore
    fun mem hcp => ((h.listed .store mem cp).mp hcp).2
  unfold removeCheckpoint unlist
  dsimp only
  rw [hexec, hload, hstore]

/-- The lists of the other memspaces do not change. -/
theorem unlist_masked {mem' : Nat} (h : Kept m) (hother : mem' ≠ m.memspace cp) :
    Masked (unlist m cp) mem' := by
  have hlist : ∀ kind, (listOf m kind mem').erase cp = listOf m kind mem' := by
    intro kind
    apply List.erase_of_not_mem
    intro hcp
    exact hother ((h.indexed.listed kind mem' cp).mp hcp).2.1.symm
  have hmasked := h.masked mem'
  unfold Masked at *
  change (m.monitorMask mem' &&& miBreak ≠ 0 ↔ (listOf m .exec mem').erase cp ≠ []) ∧
    (m.monitorMask mem' &&& miWatch ≠ 0 ↔
      (listOf m .load mem').erase cp ≠ [] ∨ (listOf m .store mem').erase cp ≠ [])
  rw [hlist, hlist, hlist]
  exact hmasked

theorem removeCheckpoint_kept (h : Kept m) : Kept (removeCheckpoint m cp) := by
  rw [removeCheckpoint_eq h.indexed]
  exact updateCheckpointState_kept (unlist_indexed h.indexed) (fun mem' => unlist_masked h) h.first

theorem removeCheckpoint_all : (removeCheckpoint m cp).allCheckpoints = m.allCheckpoints.erase cp := rfl

/-! ## Deletion -/

theorem find_some {n : Int} (h : monBreakpointFindCheckpoint m n = some cp) :
    cp ∈ m.allCheckpoints ∧ ((m.checkpoint cp).checknum : Int) = n := by
  unfold monBreakpointFindCheckpoint at h
  exact ⟨List.mem_of_find?_eq_some h, by simpa using List.find?_some h⟩

theorem find_none {n : Int} (h : monBreakpointFindCheckpoint m n = none) :
    ∀ cp ∈ m.allCheckpoints, ((m.checkpoint cp).checknum : Int) ≠ n := by
  unfold monBreakpointFindCheckpoint at h
  simpa using h

/-- One number is gone, and nothing else. -/
theorem deleteNumber_spec (h : Kept m) (n : Nat) :
    Kept (deleteNumber m n) ∧ (deleteNumber m n).checkpoint = m.checkpoint ∧
      (deleteNumber m n).breakpointCount = m.breakpointCount ∧
      ∀ cp ∈ (deleteNumber m n).allCheckpoints,
        cp ∈ m.allCheckpoints ∧ (m.checkpoint cp).checknum ≠ n := by
  unfold deleteNumber
  split
  · next cp hfound =>
    obtain ⟨hcp, hnum⟩ := find_some hfound
    refine ⟨removeCheckpoint_kept h, rfl, rfl, fun cp' hcp' => ?_⟩
    rw [removeCheckpoint_all, h.indexed.nodup.mem_erase_iff] at hcp'
    refine ⟨hcp'.2, fun hnum' => hcp'.1 (h.indexed.distinct cp' hcp'.2 cp hcp ?_)⟩
    omega
  · next hnone =>
    refine ⟨h, rfl, rfl, fun cp' hcp' => ⟨hcp', fun hnum => ?_⟩⟩
    apply find_none hnone cp' hcp'
    rw [hnum]

theorem deleteNumbers_spec (h : Kept m) (ns : List Nat) : Kept (ns.foldl deleteNumber m) ∧
      ∀ cp ∈ (ns.foldl deleteNumber m).allCheckpoints,
        cp ∈ m.allCheckpoints ∧ (m.checkpoint cp).checknum ∉ ns := by
  induction ns generalizing m with
  | nil => exact ⟨h, fun _ hcp => ⟨hcp, by simp⟩⟩
  | cons n ns ih =>
    obtain ⟨hkept, hcheckpoint, -, hgone⟩ := deleteNumber_spec h n
    obtain ⟨hrest, hgone'⟩ := ih hkept
    refine ⟨hrest, fun cp hcp => ?_⟩
    obtain ⟨hmid, hnum'⟩ := hgone' cp hcp
    obtain ⟨hold, hnum⟩ := hgone cp hmid
    rw [hcheckpoint] at hnum'
    exact ⟨hold, by simp [hnum, hnum']⟩

/-- The numbers start again when no checkpoint is left. -/
theorem Kept.restart (h : Kept m) (hempty : m.allCheckpoints = []) : Kept { m with breakpointCount := 1 } := by
  obtain ⟨⟨hnodup, hbelow, hcounted, hdistinct, hlistNodup, hlisted, hallSorted, hsorted⟩, hmasked, -⟩ := h
  refine ⟨⟨hnodup, hbelow, fun cp hcp => ?_, hdistinct, fun kind => ?_, fun kind => ?_, hallSorted,
    fun kind => ?_⟩, hmasked, Nat.le_refl 1⟩
  · rw [hempty] at hcp
    cases hcp
  · have hlist := hlistNodup kind
    cases kind <;> exact hlist
  · have hlist := hlisted kind
    cases kind <;> exact hlist
  · have hlist := hsorted kind
    cases kind <;> exact hlist

theorem deleteCheckpoint_kept (h : Kept m) (cpNum : Int) : Kept (monBreakpointDeleteCheckpoint m cpNum) := by
  unfold monBreakpointDeleteCheckpoint
  split
  · obtain ⟨hkept, hgone⟩ := deleteNumbers_spec h m.numbers
    apply hkept.restart
    apply List.eq_nil_iff_forall_not_mem.mpr
    intro cp hcp
    obtain ⟨hold, hnum⟩ := hgone cp hcp
    exact hnum (h.indexed.counted cp hold)
  · split
    · exact h
    · next cp _ =>
      have hkept := @removeCheckpoint_kept κ m cp h
      dsimp only
      split
      · exact hkept
      · next hnone =>
        apply hkept.restart
        apply List.eq_nil_iff_forall_not_mem.mpr
        intro cp' hcp'
        apply hnone
        rw [List.any_eq_true]
        refine ⟨_, hkept.indexed.counted cp' hcp', ?_⟩
        rw [Option.isSome_iff_ne_none]
        intro hfound
        exact find_none hfound cp' hcp' rfl

/-! ## A new checkpoint -/

section
variable {location : Nat → Nat} {entries : List Nat}

theorem mem_addToCheckpointList {cp' : Nat} :
    cp' ∈ addToCheckpointList location cp entries ↔ cp' = cp ∨ cp' ∈ entries := by
  induction entries with
  | nil => simp [addToCheckpointList]
  | cons entry entries ih =>
    rw [addToCheckpointList]
    split
    · rw [List.mem_cons, ih, List.mem_cons]
      exact or_left_comm
    · rw [List.mem_cons]

theorem addToCheckpointList_nodup (h : entries.Nodup) (hcp : cp ∉ entries) :
    (addToCheckpointList location cp entries).Nodup := by
  induction entries with
  | nil => simp [addToCheckpointList]
  | cons entry entries ih =>
    rw [List.nodup_cons] at h
    rw [List.mem_cons, not_or] at hcp
    rw [addToCheckpointList]
    split
    · rw [List.nodup_cons, mem_addToCheckpointList, not_or]
      exact ⟨⟨Ne.symm hcp.1, h.1⟩, ih h.2 hcp.2⟩
    · rw [List.nodup_cons, List.mem_cons, not_or]
      exact ⟨hcp, List.nodup_cons.mpr h⟩

theorem addToCheckpointList_sorted (h : entries.Pairwise fun cp cp' => location cp ≤ location cp') :
    (addToCheckpointList location cp entries).Pairwise fun cp cp' => location cp ≤ location cp' := by
  induction entries with
  | nil => simp [addToCheckpointList]
  | cons entry entries ih =>
    obtain ⟨hfirst, hrest⟩ := List.pairwise_cons.mp h
    rw [addToCheckpointList]
    split
    · next hle =>
      refine List.pairwise_cons.mpr ⟨fun cp' hcp' => ?_, ih hrest⟩
      rcases mem_addToCheckpointList.mp hcp' with rfl | hold
      · exact hle
      · exact hfirst cp' hold
    · next hlt =>
      refine List.pairwise_cons.mpr ⟨fun cp' hcp' => ?_, h⟩
      rcases List.mem_cons.mp hcp' with rfl | hold
      · omega
      · have hle := hfirst cp' hold
        omega

end

/-- The checkpoint gets an address and a number, but is in no list. -/
def created (m : Monitor κ) (c : Checkpoint κ) : Monitor κ :=
  { m with
    checkpoint := Function.update m.checkpoint m.fresh c
    fresh := m.fresh + 1
    breakpointCount := m.breakpointCount + 1 }

theorem created_old {c : Checkpoint κ} (hcp : cp < m.fresh) : (created m c).checkpoint cp = m.checkpoint cp :=
  Function.update_of_ne (Nat.ne_of_lt hcp) ..

theorem created_new {c : Checkpoint κ} : (created m c).checkpoint m.fresh = c :=
  Function.update_self ..

theorem mem_numbers {n : Nat} (hfirst : 1 ≤ m.breakpointCount) :
    n ∈ m.numbers ↔ 1 ≤ n ∧ n < m.breakpointCount := by
  unfold Monitor.numbers
  rw [List.mem_range'_1]
  omega

theorem created_indexed {c : Checkpoint κ} (h : Kept m) : Indexed (created m c) := by
  have hmem : ∀ kind mem cp, cp ∈ listOf m kind mem → cp ∈ m.allCheckpoints :=
    fun kind mem cp hcp => ((h.indexed.listed kind mem cp).mp hcp).1
  have hlists : listOf (created m c) = listOf m := by
    funext kind
    cases kind <;> rfl
  have hsorted : ∀ entries : List Nat, (∀ cp ∈ entries, cp ∈ m.allCheckpoints) → Sorted m entries →
      Sorted (created m c) entries := by
    intro entries hold hs
    apply hs.imp_of_mem
    intro cp cp' hcp hcp' hle
    unfold Monitor.location
    rw [created_old (h.indexed.below cp (hold cp hcp)), created_old (h.indexed.below cp' (hold cp' hcp'))]
    exact hle
  refine ⟨h.indexed.nodup, fun cp hcp => Nat.lt_succ_of_lt (h.indexed.below cp hcp), ?_, ?_, ?_, ?_,
    hsorted _ (fun _ => id) h.indexed.allSorted, ?_⟩
  · intro cp hcp
    have hnum := (mem_numbers h.first).mp (h.indexed.counted cp hcp)
    rw [created_old (h.indexed.below cp hcp), mem_numbers (Nat.le_add_left 1 _)]
    change 1 ≤ _ ∧ _ < m.breakpointCount + 1
    omega
  · intro cp hcp cp' hcp'
    rw [created_old (h.indexed.below cp hcp), created_old (h.indexed.below cp' hcp')]
    exact h.indexed.distinct cp hcp cp' hcp'
  · rw [hlists]
    exact h.indexed.listNodup
  · intro kind mem cp
    rw [hlists, h.indexed.listed]
    refine and_congr_right fun hcp => ?_
    have hold : (created m c).checkpoint cp = m.checkpoint cp := created_old (h.indexed.below cp hcp)
    unfold Monitor.memspace
    rw [hold]
    cases kind
    · simp [Checks, hold]
    · simp [Checks, hold]
    · simp [Checks, hold]
  · intro kind mem
    rw [hlists]
    exact hsorted _ (hmem kind mem) (h.indexed.sorted kind mem)

/-- A checkpoint gets into each list that it belongs to. -/
def enlist (m : Monitor κ) (cp : Nat) : Monitor κ :=
  let add := fun lists => changeList lists (m.memspace cp) (addToCheckpointList m.location cp)
  let c := m.checkpoint cp
  { m with
    allCheckpoints := addToCheckpointList m.location cp m.allCheckpoints
    breakpoints := if c.checkExec then add m.breakpoints else m.breakpoints
    watchpointsLoad := if c.checkLoad then add m.watchpointsLoad else m.watchpointsLoad
    watchpointsStore := if c.checkStore then add m.watchpointsStore else m.watchpointsStore }

theorem enlist_checks : Checks (enlist m cp) = Checks m := by
  funext cp kind
  cases kind <;> rfl

/-- The list that it gets into, and the others. -/
theorem enlist_lists (kind : Kind) (mem : Nat) : (Checks m cp kind ∧ mem = m.memspace cp ∧
      listOf (enlist m cp) kind mem = addToCheckpointList m.location cp (listOf m kind mem)) ∨
    (¬ (Checks m cp kind ∧ mem = m.memspace cp) ∧ listOf (enlist m cp) kind mem = listOf m kind mem) := by
  have hlist : ∀ (lists : Nat → List Nat) (checks : Bool),
      let lists' := if checks = true then
        changeList lists (m.memspace cp) (addToCheckpointList m.location cp) else lists
      (checks = true ∧ mem = m.memspace cp ∧
        lists' mem = addToCheckpointList m.location cp (lists mem)) ∨
      (¬ (checks = true ∧ mem = m.memspace cp) ∧ lists' mem = lists mem) := by
    intro lists checks
    cases checks
    · simp
    · by_cases hmem : mem = m.memspace cp
      · simp [hmem, changeList]
      · simp [hmem, changeList]
  cases kind
  · exact hlist m.breakpoints (m.checkpoint cp).checkExec
  · exact hlist m.watchpointsLoad (m.checkpoint cp).checkLoad
  · exact hlist m.watchpointsStore (m.checkpoint cp).checkStore

theorem enlist_indexed (h : Indexed m) (hnew : cp ∉ m.allCheckpoints) (hbelow : cp < m.fresh)
    (hcounted : (m.checkpoint cp).checknum ∈ m.numbers)
    (hdistinct : ∀ cp' ∈ m.allCheckpoints, (m.checkpoint cp').checknum ≠ (m.checkpoint cp).checknum) :
    Indexed (enlist m cp) := by
  have hall : ∀ cp', cp' ∈ (enlist m cp).allCheckpoints ↔ cp' = cp ∨ cp' ∈ m.allCheckpoints :=
    fun cp' => mem_addToCheckpointList
  have hout : ∀ kind mem, cp ∉ listOf m kind mem :=
    fun kind mem hcp => hnew ((h.listed kind mem cp).mp hcp).1
  refine ⟨addToCheckpointList_nodup h.nodup hnew, fun cp' hcp' => ?_, fun cp' hcp' => ?_,
    fun cp' hcp' cp'' hcp'' hnum => ?_, fun kind mem => ?_, fun kind mem cp' => ?_,
    addToCheckpointList_sorted h.allSorted, fun kind mem => ?_⟩
  · rcases (hall cp').mp hcp' with rfl | hold
    · exact hbelow
    · exact h.below cp' hold
  · rcases (hall cp').mp hcp' with rfl | hold
    · exact hcounted
    · exact h.counted cp' hold
  · rcases (hall cp').mp hcp' with rfl | hold
    · rcases (hall cp'').mp hcp'' with rfl | hold'
      · rfl
      · exact absurd hnum.symm (hdistinct cp'' hold')
    · rcases (hall cp'').mp hcp'' with rfl | hold'
      · exact absurd hnum (hdistinct cp' hold)
      · exact h.distinct cp' hold cp'' hold' hnum
  · rcases @enlist_lists κ m cp kind mem with ⟨-, -, hlist⟩ | ⟨-, hlist⟩
    · rw [hlist]
      exact addToCheckpointList_nodup (h.listNodup kind mem) (hout kind mem)
    · rw [hlist]
      exact h.listNodup kind mem
  · rw [enlist_checks, hall]
    change _ ↔ _ ∧ m.memspace cp' = mem ∧ _
    rcases @enlist_lists κ m cp kind mem with ⟨hchecks, hmem, hlist⟩ | ⟨hother, hlist⟩
    · rw [hlist, mem_addToCheckpointList, h.listed]
      constructor
      · rintro (rfl | ⟨hold, hrest⟩)
        · exact ⟨.inl rfl, hmem.symm, hchecks⟩
        · exact ⟨.inr hold, hrest⟩
      · rintro ⟨rfl | hold, hrest⟩
        · exact .inl rfl
        · exact .inr ⟨hold, hrest⟩
    · rw [hlist, h.listed]
      constructor
      · rintro ⟨hold, hrest⟩
        exact ⟨.inr hold, hrest⟩
      · rintro ⟨rfl | hold, hmem, hchecks⟩
        · exact absurd ⟨hchecks, hmem.symm⟩ hother
        · exact ⟨hold, hmem, hchecks⟩
  · rcases @enlist_lists κ m cp kind mem with ⟨-, -, hlist⟩ | ⟨-, hlist⟩
    · rw [hlist]
      exact addToCheckpointList_sorted (h.sorted kind mem)
    · rw [hlist]
      exact h.sorted kind mem

theorem enlist_masked {mem' : Nat} (h : Masked m mem') (hother : mem' ≠ m.memspace cp) :
    Masked (enlist m cp) mem' := by
  have hlist : ∀ kind, listOf (enlist m cp) kind mem' = listOf m kind mem' := by
    intro kind
    rcases @enlist_lists κ m cp kind mem' with ⟨-, hmem, -⟩ | ⟨-, hlist⟩
    · exact absurd hmem hother
    · exact hlist
  unfold Masked at *
  change (m.monitorMask mem' &&& miBreak ≠ 0 ↔ listOf (enlist m cp) .exec mem' ≠ []) ∧
    (m.monitorMask mem' &&& miWatch ≠ 0 ↔
      listOf (enlist m cp) .load mem' ≠ [] ∨ listOf (enlist m cp) .store mem' ≠ [])
  rw [hlist, hlist, hlist]
  exact h

/-- The checkpoint that is added. -/
def newCheckpoint (m : Monitor κ) (startAddr endAddr : MonAddr) (stop : Bool) (memoryOp : Nat)
    (isTemp : Bool) : Checkpoint κ where
  checknum := m.breakpointCount
  startAddr := (monEvaluateAddressRange m startAddr endAddr).1
  endAddr := (monEvaluateAddressRange m startAddr endAddr).2
  stop := stop
  enabled := true
  hitCount := 0
  ignoreCount := 0
  condition := none
  checkLoad := memoryOp.testBit 0
  checkStore := memoryOp.testBit 1
  checkExec := memoryOp.testBit 2
  temporary := isTemp

theorem add_eq (startAddr endAddr : MonAddr) (stop : Bool) (memoryOp : Nat) (isTemp : Bool) :
    let m' := created m (newCheckpoint m startAddr endAddr stop memoryOp isTemp)
    (breakpointAddCheckpoint m startAddr endAddr stop memoryOp isTemp).2 =
      updateCheckpointState (enlist m' m.fresh) (m'.memspace m.fresh) := by
  unfold breakpointAddCheckpoint enlist Monitor.memspace
  simp only [created_new]
  rfl

theorem add_kept (h : Kept m) (startAddr endAddr : MonAddr) (stop : Bool) (memoryOp : Nat)
    (isTemp : Bool) : Kept (breakpointAddCheckpoint m startAddr endAddr stop memoryOp isTemp).2 := by
  have hnum : (newCheckpoint m startAddr endAddr stop memoryOp isTemp).checknum = m.breakpointCount := rfl
  have hindexed := @created_indexed κ m (newCheckpoint m startAddr endAddr stop memoryOp isTemp) h
  rw [add_eq]
  apply updateCheckpointState_kept
  · apply enlist_indexed hindexed
    · intro hcp
      exact Nat.lt_irrefl _ (h.indexed.below m.fresh hcp)
    · exact Nat.lt_succ_self m.fresh
    · rw [created_new, hnum, mem_numbers (Nat.le_add_left 1 _)]
      exact ⟨h.first, Nat.lt_succ_self _⟩
    · intro cp' hcp'
      have hold := (mem_numbers h.first).mp (h.indexed.counted cp' hcp')
      rw [created_new, created_old (h.indexed.below cp' hcp'), hnum]
      omega
  · intro mem' hother
    exact enlist_masked (h.masked mem') hother
  · exact Nat.le_add_left 1 _

/-! ## Operations at an address -/

theorem search_suffix (loc : Nat) (entries : List Nat) : searchCheckpointList m loc entries <:+ entries := by
  induction entries with
  | nil => exact List.suffix_rfl
  | cons entry entries ih =>
    rw [searchCheckpointList]
    split
    · exact List.suffix_rfl
    · exact ih.trans (List.suffix_cons ..)

theorem set_kept (h : Kept m) (address : MonAddr) : Kept (monBreakpointSet m address) := by
  unfold monBreakpointSet
  split
  · exact modify_kept h fun c => ⟨rfl, rfl, rfl, rfl, rfl⟩
  · exact add_kept h ..

theorem enableAt_kept (h : Kept m) (address : MonAddr) (enabled : Bool) :
    Kept (enableAt m address enabled) := by
  unfold enableAt
  split
  · exact modify_kept h fun c => ⟨rfl, rfl, rfl, rfl, rfl⟩
  · exact h

/-- The breakpoint at the address, if there is one, is for execution only, and not the last one. -/
def UnsetKeeps (m : Monitor κ) (address : MonAddr) : Prop :=
  ∀ cp rest, searchCheckpointList m (address.location % 65536) (m.breakpoints address.memspace) =
      cp :: rest →
    (m.checkpoint cp).checkLoad = false ∧ (m.checkpoint cp).checkStore = false ∧
      m.breakpoints address.memspace ≠ [cp]

theorem found_mem {loc : Nat} {rest : List Nat}
    (h : searchCheckpointList m loc (m.breakpoints mem) = cp :: rest) : cp ∈ m.breakpoints mem := by
  apply (search_suffix loc (m.breakpoints mem)).subset
  rw [h]
  exact List.mem_cons_self ..

theorem unset_kept (h : Kept m) {address : MonAddr} (hkeeps : UnsetKeeps m address) :
    Kept (monBreakpointUnset m address) := by
  unfold monBreakpointUnset
  split
  · next cp rest hfound =>
    obtain ⟨hload, hstore, hlast⟩ := hkeeps cp rest hfound
    obtain ⟨-, hmem, hexec⟩ := (h.indexed.listed .exec _ cp).mp (found_mem hfound)
    have hout : ∀ kind mem, ¬ Checks m cp kind → (listOf m kind mem).erase cp = listOf m kind mem :=
      fun kind mem hchecks => List.erase_of_not_mem fun hcp =>
        hchecks ((h.indexed.listed kind mem cp).mp hcp).2.2
    -- nothing else refers to it, so this is the same as a removal
    have hsame : { m with
        allCheckpoints := m.allCheckpoints.erase cp
        breakpoints := changeList m.breakpoints address.memspace (·.erase cp) } = unlist m cp := by
      have hbreak := @erase_unless κ m cp m.breakpoints true
        fun mem hcp => ⟨((h.indexed.listed .exec mem cp).mp hcp).2.1, rfl⟩
      have hwatch : (fun mem => (m.watchpointsLoad mem).erase cp) = m.watchpointsLoad :=
        funext fun mem => hout .load mem (by simp [Checks, hload])
      have hwatch' : (fun mem => (m.watchpointsStore mem).erase cp) = m.watchpointsStore :=
        funext fun mem => hout .store mem (by simp [Checks, hstore])
      rw [if_pos rfl, hmem] at hbreak
      unfold unlist
      rw [hbreak, hwatch, hwatch']
    rw [hsame]
    refine ⟨unlist_indexed h.indexed, fun mem' => ?_, h.first⟩
    by_cases hother : mem' = m.memspace cp
    · have hmasked := h.masked mem'
      have hne : (m.breakpoints mem').erase cp ≠ [] := by
        rw [hother, hmem]
        intro hnil
        have hlen := List.length_erase_of_mem (found_mem hfound)
        rw [hnil] at hlen
        obtain ⟨cp', hone⟩ : ∃ cp', m.breakpoints address.memspace = [cp'] := by
          apply List.length_eq_one_iff.mp
          have hpos := List.length_pos_of_mem (found_mem hfound)
          simp only [List.length_nil] at hlen
          omega
        have hcp := found_mem hfound
        rw [hone, List.mem_singleton] at hcp
        rw [hcp] at hlast
        exact hlast hone
      have hcp : cp ∈ m.breakpoints mem' := by
        rw [hother, hmem]
        exact found_mem hfound
      unfold Masked at *
      change (m.monitorMask mem' &&& miBreak ≠ 0 ↔ (m.breakpoints mem').erase cp ≠ []) ∧
        (m.monitorMask mem' &&& miWatch ≠ 0 ↔
          (listOf m .load mem').erase cp ≠ [] ∨ (listOf m .store mem').erase cp ≠ [])
      rw [hout .load mem' (by simp [Checks, hload]), hout .store mem' (by simp [Checks, hstore])]
      exact ⟨iff_of_true (hmasked.1.mpr (List.ne_nil_of_mem hcp)) hne, hmasked.2⟩
    · exact unlist_masked h hother
  · exact h

/-! ## Hits -/

theorem checkEntries_kept (h : Kept m) (holds : κ → Bool) (addr : Nat) (entries : List Nat)
    (mustStop : Bool) : Kept (checkEntries holds addr entries m mustStop).2 := by
  induction entries generalizing m mustStop with
  | nil => exact h
  | cons cp entries ih =>
    have hignored : Kept (m.modify cp fun c => { c with ignoreCount := c.ignoreCount - 1 }) :=
      modify_kept h fun c => ⟨rfl, rfl, rfl, rfl, rfl⟩
    have hhit : Kept (m.modify cp fun c => { c with hitCount := c.hitCount + 1 }) :=
      modify_kept h fun c => ⟨rfl, rfl, rfl, rfl, rfl⟩
    rw [checkEntries]
    dsimp only
    split
    · split
      · exact ih h _
      · split
        · exact ih hignored _
        · apply ih
          split
          · exact deleteCheckpoint_kept hhit _
          · exact hhit
    · exact ih h _

/-! ## Runs -/

/-- An operation on the checkpoints, or an access that is reported. -/
inductive Op (κ : Type)
  | addCheckpoint (startAddr endAddr : MonAddr) (stop : Bool) (memoryOp : Nat) (isTemp : Bool)
  | deleteCheckpoint (cpNum : Int)
  | set (address : MonAddr)
  | unset (address : MonAddr)
  | enable (address : MonAddr)
  | disable (address : MonAddr)
  | switchCheckpoint (op : Bool) (cpNum : Int)
  | setIgnoreCount (cpNum count : Int)
  | setCondition (cpNum : Int) (cnode : κ)
  | checkCheckpoint (holds : κ → Bool) (mem addr op : Nat)

def step (m : Monitor κ) : Op κ → Monitor κ
  | .addCheckpoint startAddr endAddr stop memoryOp isTemp =>
    (breakpointAddCheckpoint m startAddr endAddr stop memoryOp isTemp).2
  | .deleteCheckpoint cpNum => monBreakpointDeleteCheckpoint m cpNum
  | .set address => monBreakpointSet m address
  | .unset address => monBreakpointUnset m address
  | .enable address => monBreakpointEnable m address
  | .disable address => monBreakpointDisable m address
  | .switchCheckpoint op cpNum => monBreakpointSwitchCheckpoint m op cpNum
  | .setIgnoreCount cpNum count => monBreakpointSetIgnoreCount m cpNum count
  | .setCondition cpNum cnode => monBreakpointSetCheckpointCondition m cpNum cnode
  | .checkCheckpoint holds mem addr op => (monBreakpointCheckCheckpoint holds m mem addr op).2

def run (m : Monitor κ) : List (Op κ) → Monitor κ
  | [] => m
  | op :: ops => run (step m op) ops

/-- The operation is not an unset that leaves something behind. -/
def Keeps (m : Monitor κ) : Op κ → Prop
  | .unset address => UnsetKeeps m address
  | _ => True

def AllKeep (m : Monitor κ) : List (Op κ) → Prop
  | [] => True
  | op :: ops => Keeps m op ∧ AllKeep (step m op) ops

/-- As after `monitor_init` and `mon_breakpoint_init`. -/
structure Started (m : Monitor κ) : Prop where
  all : m.allCheckpoints = []
  lists : ∀ mem, m.breakpoints mem = [] ∧ m.watchpointsLoad mem = [] ∧ m.watchpointsStore mem = []
  mask : ∀ mem, m.monitorMask mem = 0
  count : m.breakpointCount = 1

theorem Started.kept (h : Started m) : Kept m := by
  have hlists : ∀ kind mem, listOf m kind mem = [] := by
    intro kind mem
    obtain ⟨hexec, hload, hstore⟩ := h.lists mem
    cases kind
    · exact hexec
    · exact hload
    · exact hstore
  refine ⟨⟨?_, ?_, ?_, ?_, ?_, ?_, ?_, ?_⟩, fun mem => ?_, Nat.le_of_eq h.count.symm⟩
  · simp [h.all]
  · simp [h.all]
  · simp [h.all]
  · simp [h.all]
  · simp [hlists]
  · simp [hlists, h.all]
  · simp [Sorted, h.all]
  · simp [Sorted, hlists]
  · simp [Masked, h.lists, h.mask]

theorem switchNumber_kept (h : Kept m) (op : Bool) (n : Int) : Kept (switchNumber op m n) := by
  unfold switchNumber
  split
  · exact modify_kept h fun c => ⟨rfl, rfl, rfl, rfl, rfl⟩
  · exact h

theorem switchNumbers_kept (h : Kept m) (op : Bool) (ns : List Nat) :
    Kept (ns.foldl (fun m (n : Nat) => switchNumber op m n) m) := by
  induction ns generalizing m with
  | nil => exact h
  | cons n ns ih => exact ih (switchNumber_kept h op n)

theorem step_kept {op : Op κ} (h : Kept m) (hkeeps : Keeps m op) : Kept (step m op) := by
  cases op with
  | addCheckpoint startAddr endAddr stop memoryOp isTemp => exact add_kept h ..
  | deleteCheckpoint cpNum => exact deleteCheckpoint_kept h cpNum
  | set address => exact set_kept h address
  | unset address => exact unset_kept h hkeeps
  | enable address => exact enableAt_kept h address true
  | disable address => exact enableAt_kept h address false
  | switchCheckpoint op cpNum =>
    simp only [step, monBreakpointSwitchCheckpoint]
    split
    · exact switchNumbers_kept h op _
    · exact switchNumber_kept h op cpNum
  | setIgnoreCount cpNum count =>
    simp only [step, monBreakpointSetIgnoreCount]
    split
    · exact modify_kept h fun c => ⟨rfl, rfl, rfl, rfl, rfl⟩
    · exact h
  | setCondition cpNum cnode =>
    simp only [step, monBreakpointSetCheckpointCondition]
    split
    · exact modify_kept h fun c => ⟨rfl, rfl, rfl, rfl, rfl⟩
    · exact h
  | checkCheckpoint holds mem addr op => exact checkEntries_kept h ..

theorem run_kept {ops : List (Op κ)} (h : Kept m) (hkeep : AllKeep m ops) : Kept (run m ops) := by
  induction ops generalizing m with
  | nil => exact h
  | cons op ops ih => exact ih (step_kept h hkeep.1) hkeep.2

/-- After any operations, with every `mon_breakpoint_unset` among them where it is right. -/
theorem run_consistent {ops : List (Op κ)} (h : Started m) (hkeep : AllKeep m ops) :
    Consistent (run m ops) := (run_kept h.kept hkeep).consistent

end

/-- No checkpoint yet. -/
def noCheckpoints : Monitor Unit where
  checkpoint := fun _ => ⟨0, ⟨0, 0⟩, ⟨0, 0⟩, 0, 0, none, false, false, false, false, false, false⟩
  fresh := 0
  breakpointCount := 1
  allCheckpoints := []
  breakpoints := fun _ => []
  watchpointsLoad := fun _ => []
  watchpointsStore := fun _ => []
  monitorMask := fun _ => 0
  watching := fun _ => false
  trapOn := fun _ => false
  defaultMemspace := 1
  dotAddr := fun mem => ⟨mem, 0⟩

theorem noCheckpoints_started : Started noCheckpoints :=
  ⟨rfl, fun _ => ⟨rfl, rfl, rfl⟩, fun _ => rfl, rfl⟩

/-- Two breakpoints, of which one is unset. -/
theorem run_consistent_unset :
    Consistent (run noCheckpoints [.set ⟨1, 0x1000⟩, .set ⟨1, 0x2000⟩, .unset ⟨1, 0x1000⟩]) := by
  apply run_consistent noCheckpoints_started
  refine ⟨trivial, trivial, ?_, trivial⟩
  intro cp rest hfound
  have hlist : searchCheckpointList (step (step noCheckpoints (.set ⟨1, 0x1000⟩)) (.set ⟨1, 0x2000⟩))
      0x1000 [0, 1] = [0, 1] := by decide
  cases hlist.symm.trans hfound
  exact ⟨rfl, rfl, by decide⟩

/-- A breakpoint is set and unset: the CPU still looks for breakpoints. -/
theorem unset_leaves_mask : Started noCheckpoints ∧
    ¬ Consistent (run noCheckpoints [.set ⟨1, 0x1000⟩, .unset ⟨1, 0x1000⟩]) := by
  refine ⟨noCheckpoints_started, fun h => ?_⟩
  have hmask : (run noCheckpoints [.set ⟨1, 0x1000⟩, .unset ⟨1, 0x1000⟩]).monitorMask 1 &&& miBreak ≠ 0 := by
    decide
  apply (h.breakMask 1).mp hmask
  decide

end Vice.L5.BreakpointRuns
