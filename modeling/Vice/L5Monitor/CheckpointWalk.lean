import Vice.L0Core.SavedNext
import Vice.L5Monitor.BreakpointRuns

/-!
# Hits of checkpoints (`mon_breakpoint.c`)

When an access is reported, the list for it is gone through from its first entry in range on. The
pointer to the next entry is read before anything is done for an entry, because a temporary
checkpoint is deleted on its hit. A checkpoint may have a command, a line of the monitor that is
executed on the hit, and that may itself add and delete checkpoints. An entry that is removed from
a list is freed, so a walk that comes to one is at an end here (`turn` is `none`).

What the lines of the monitor do is a parameter, since their parser is generated: a list of calls of
the functions for checkpoints, and what becomes of the rest. What is sent and printed on a hit is
left out, and so are the drives, which run up to the clock before a line is executed.

The lists of the checkpoints are never in disorder as far as a walk is concerned: no entry is in one
twice, and a new one is new. That holds after `mon_breakpoint_unset` too.

Results:
* `run_linked`: every run.
* `call_changed`: what a call of a command may have changed.
-/
namespace Vice.L5.CheckpointWalk
open Vice.L5.Breakpoints Vice.L5.BreakpointRuns Vice.L0.SavedNext

section
variable {κ γ ω : Type}

/-- The monitor, the other members of the checkpoints, and everything else. -/
structure Session (κ γ ω : Type) where
  mon : Monitor κ
  command : Nat → Option γ
  silent : Nat → Bool
  world : ω

/-- mirrors src/monitor/mon_parse.y:402-467,479-492: what lines of the monitor call, or set. -/
inductive Call (κ γ : Type)
  | addCheckpoint (startAddr endAddr : MonAddr) (stop : Bool) (memoryOp : Nat) (isTemp : Bool)
  | deleteCheckpoint (cpNum : Int)
  | switchCheckpoint (op : Bool) (cpNum : Int)
  | setIgnoreCount (cpNum count : Int)
  | setCondition (cpNum : Int) (cnode : κ)
  | setCommand (cpNum : Int) (cmd : γ)
  | setDummyState (mem : Nat)
  | setAddresses (defaultMemspace : Nat) (dotAddr : Nat → MonAddr)

/-- What is outside: the lines of the monitor, and the values of conditions. -/
structure Env (κ γ ω : Type) where
  lines : γ → Session κ γ ω → List (Call κ γ) × ω
  holds : ω → κ → Bool

def Session.modify (s : Session κ γ ω) (cp : Nat) (change : Checkpoint κ → Checkpoint κ) :
    Session κ γ ω := { s with mon := s.mon.modify cp change }

/-- mirrors src/monitor/mon_breakpoint.c:649-712: there is no command yet. -/
def Session.add (s : Session κ γ ω) (startAddr endAddr : MonAddr) (stop : Bool) (memoryOp : Nat)
    (isTemp : Bool) : Session κ γ ω :=
  { s with
    mon := (breakpointAddCheckpoint s.mon startAddr endAddr stop memoryOp isTemp).2
    command := Function.update s.command s.mon.fresh none
    silent := Function.update s.silent s.mon.fresh false }

/-- mirrors src/monitor/mon_breakpoint.c:351-380, and 217-218: the command of what is removed is
freed. -/
def Session.delete (s : Session κ γ ω) (cpNum : Int) : Session κ γ ω :=
  let mon := monBreakpointDeleteCheckpoint s.mon cpNum
  { s with
    mon := mon
    command := fun cp =>
      if cp ∈ s.mon.allCheckpoints ∧ cp ∉ mon.allCheckpoints then none else s.command cp }

/-- mirrors src/monitor/mon_breakpoint.c:403-415 (`mon_breakpoint_set_checkpoint_command`) -/
def Session.setCommand (s : Session κ γ ω) (cpNum : Int) (cmd : γ) : Session κ γ ω :=
  match monBreakpointFindCheckpoint s.mon cpNum with
  | some cp => { s with command := Function.update s.command cp (some cmd) }
  | none => s

/-- mirrors src/monitor/mon_breakpoint.c:201-208 (`mon_breakpoint_set_dummy_state`) -/
def Session.setDummyState (s : Session κ γ ω) (mem : Nat) : Session κ γ ω :=
  let mem := if mem = eDefaultSpace then s.mon.defaultMemspace else mem
  { s with mon := updateCheckpointState s.mon mem }

def Session.call (s : Session κ γ ω) : Call κ γ → Session κ γ ω
  | .addCheckpoint startAddr endAddr stop memoryOp isTemp => s.add startAddr endAddr stop memoryOp isTemp
  | .deleteCheckpoint cpNum => s.delete cpNum
  | .switchCheckpoint op cpNum => { s with mon := monBreakpointSwitchCheckpoint s.mon op cpNum }
  | .setIgnoreCount cpNum count => { s with mon := monBreakpointSetIgnoreCount s.mon cpNum count }
  | .setCondition cpNum cnode =>
    { s with mon := monBreakpointSetCheckpointCondition s.mon cpNum cnode }
  | .setCommand cpNum cmd => s.setCommand cpNum cmd
  | .setDummyState mem => s.setDummyState mem
  | .setAddresses defaultMemspace dotAddr =>
    { s with mon := { s.mon with defaultMemspace := defaultMemspace, dotAddr := dotAddr } }

/-- mirrors src/monitor/mon_parse.y:1231-1300 (`parse_and_execute_line`) -/
def parseAndExecuteLine (e : Env κ γ ω) (s : Session κ γ ω) (input : γ) : Session κ γ ω :=
  let (calls, world) := e.lines input s
  { calls.foldl Session.call s with world := world }

def recordHit (s : Session κ γ ω) (cp : Nat) : Session κ γ ω :=
  s.modify cp fun c => { c with hitCount := c.hitCount + 1 }

/-- mirrors src/monitor/mon_breakpoint.c:571-611 -/
def runCommand (e : Env κ γ ω) (s : Session κ γ ω) (cp : Nat) : Session κ γ ω :=
  if s.silent cp then s
  else
    match s.command cp with
    | some cmd => parseAndExecuteLine e s cmd
    | none => s

/-- mirrors src/monitor/mon_breakpoint.c:613-615 -/
def dropTemporary (s : Session κ γ ω) (cp : Nat) : Session κ γ ω :=
  let c := s.mon.checkpoint cp
  if c.temporary then s.delete c.checknum else s

/-- mirrors src/monitor/mon_breakpoint.c:540-616: what is done for an entry, and if it stops. -/
def visit (e : Env κ γ ω) (addr : Nat) (s : Session κ γ ω) (cp : Nat) : Session κ γ ω × Bool :=
  let c := s.mon.checkpoint cp
  if c.enabled ∧ monIsInRange c.startAddr c.endAddr addr then
    if c.condition.any fun cond => !e.holds s.world cond then (s, false)
    else if c.ignoreCount ≠ 0 then
      (s.modify cp fun c => { c with ignoreCount := c.ignoreCount - 1 }, false)
    else (dropTemporary (runCommand e (recordHit s cp) cp) cp, c.stop)
  else (s, false)

/-- The checkpoint is enabled and in range, and its condition holds. -/
def Matches (e : Env κ γ ω) (addr : Nat) (s : Session κ γ ω) (cp : Nat) : Prop :=
  let c := s.mon.checkpoint cp
  c.enabled = true ∧ monIsInRange c.startAddr c.endAddr addr = true ∧
    c.condition.all (e.holds s.world) = true

def Hit (e : Env κ γ ω) (addr : Nat) (s : Session κ γ ω) (cp : Nat) : Prop :=
  Matches e addr s cp ∧ (s.mon.checkpoint cp).ignoreCount = 0

def Ignored (e : Env κ γ ω) (addr : Nat) (s : Session κ γ ω) (cp : Nat) : Prop :=
  Matches e addr s cp ∧ (s.mon.checkpoint cp).ignoreCount ≠ 0

instance (e : Env κ γ ω) (addr : Nat) (s : Session κ γ ω) (cp : Nat) :
    Decidable (Matches e addr s cp) := inferInstanceAs (Decidable (_ ∧ _ ∧ _))

instance (e : Env κ γ ω) (addr : Nat) (s : Session κ γ ω) (cp : Nat) : Decidable (Hit e addr s cp) :=
  inferInstanceAs (Decidable (_ ∧ _))

instance (e : Env κ γ ω) (addr : Nat) (s : Session κ γ ω) (cp : Nat) :
    Decidable (Ignored e addr s cp) := inferInstanceAs (Decidable (_ ∧ _))

/-- The local variables, and which entries were visited and hit. -/
structure Walk (κ γ ω : Type) where
  session : Session κ γ ω
  ptr : Option Nat
  mustStop : Bool
  visited : List Nat
  hits : List Nat

/-- mirrors src/monitor/mon_breakpoint.c:516-535: the search looks at the entries before the first in
range. -/
def start (kind : Kind) (mem addr : Nat) (s : Session κ γ ω) : Walk κ γ ω where
  session := s
  ptr := (searchCheckpointList s.mon addr (listOf s.mon kind mem)).head?
  mustStop := false
  visited := (listOf s.mon kind mem).takeWhile fun cp =>
    !monIsInRange (s.mon.checkpoint cp).startAddr (s.mon.checkpoint cp).endAddr addr
  hits := []

/-- mirrors src/monitor/mon_breakpoint.c:537-617: one turn of the loop, or nothing if `ptr` was
freed. -/
def turn (e : Env κ γ ω) (kind : Kind) (mem addr : Nat) (w : Walk κ γ ω) : Option (Walk κ γ ω) :=
  match w.ptr with
  | none => some w
  | some cp =>
    if cp ∈ listOf w.session.mon kind mem then
      let (session, stop) := visit e addr w.session cp
      some
        { session := session
          ptr := following (listOf w.session.mon kind mem) cp
          mustStop := w.mustStop || stop
          visited := w.visited ++ [cp]
          hits := if Hit e addr w.session cp then w.hits ++ [cp] else w.hits }
    else none

def turns (e : Env κ γ ω) (kind : Kind) (mem addr : Nat) : Nat → Walk κ γ ω → Option (Walk κ γ ω)
  | 0, w => some w
  | n + 1, w => (turns e kind mem addr n w).bind (turn e kind mem addr)

/-- What the command of a hit checkpoint leaves. -/
def afterCommand (e : Env κ γ ω) (addr : Nat) (s : Session κ γ ω) (cp : Nat) : Session κ γ ω :=
  if Hit e addr s cp then runCommand e (recordHit s cp) cp else s

end

section
variable {κ : Type} {m m' m'' : Monitor κ} {cp mem : Nat} {kind : Kind}

structure Linked (m : Monitor κ) : Prop where
  allBelow : ∀ cp ∈ m.allCheckpoints, cp < m.fresh
  allNodup : m.allCheckpoints.Nodup
  below : ∀ kind mem, ∀ cp ∈ listOf m kind mem, cp < m.fresh
  nodup : ∀ kind mem, (listOf m kind mem).Nodup

/-- What no command changes. -/
def Same (c c' : Checkpoint κ) : Prop :=
  c'.checknum = c.checknum ∧ c'.stop = c.stop ∧ c'.temporary = c.temporary ∧ c'.hitCount = c.hitCount

/-- The lists are changed, but no checkpoint is. -/
structure Changed (m m' : Monitor κ) : Prop where
  all : Edited m.fresh m.allCheckpoints m'.fresh m'.allCheckpoints
  lists : ∀ kind mem, Edited m.fresh (listOf m kind mem) m'.fresh (listOf m' kind mem)
  same : ∀ cp < m.fresh, Same (m.checkpoint cp) (m'.checkpoint cp)

theorem Changed.linked (h : Changed m m') : Linked m' where
  allBelow := h.all.below
  allNodup := h.all.nodup
  below kind mem := (h.lists kind mem).below
  nodup kind mem := (h.lists kind mem).nodup

/-- The lists stay as they are. -/
theorem Linked.changed (h : Linked m) (hfresh : m'.fresh = m.fresh)
    (hall : m'.allCheckpoints = m.allCheckpoints) (hlists : listOf m' = listOf m)
    (hsame : ∀ cp, Same (m.checkpoint cp) (m'.checkpoint cp)) : Changed m m' := by
  refine ⟨?_, fun kind mem => ?_, fun cp _ => hsame cp⟩
  · rw [hfresh, hall]
    exact .same h.allBelow h.allNodup
  · rw [hfresh, hlists]
    exact .same (h.below kind mem) (h.nodup kind mem)

theorem Linked.refl (h : Linked m) : Changed m m := h.changed rfl rfl rfl fun _ => ⟨rfl, rfl, rfl, rfl⟩

theorem Changed.trans (h : Changed m m') (h' : Changed m' m'') : Changed m m'' := by
  refine ⟨h.all.trans h'.all, fun kind mem => (h.lists kind mem).trans (h'.lists kind mem),
    fun cp hcp => ?_⟩
  obtain ⟨hnum, hstop, htemp, hcount⟩ := h.same cp hcp
  obtain ⟨hnum', hstop', htemp', hcount'⟩ := h'.same cp (Nat.lt_of_lt_of_le hcp h.all.le)
  exact ⟨hnum'.trans hnum, hstop'.trans hstop, htemp'.trans htemp, hcount'.trans hcount⟩

theorem update_changed (h : Linked m) (mem : Nat) : Changed m (updateCheckpointState m mem) :=
  h.changed rfl rfl updateCheckpointState_lists fun _ => ⟨rfl, rfl, rfl, rfl⟩

theorem modify_changed {change : Checkpoint κ → Checkpoint κ} (h : Linked m)
    (hchange : ∀ c, Same c (change c)) : Changed m (m.modify cp change) := by
  have hlists : listOf (m.modify cp change) = listOf m := by
    funext kind
    cases kind <;> rfl
  refine h.changed rfl rfl hlists fun x => ?_
  unfold Monitor.modify
  dsimp only
  by_cases hx : x = cp
  · subst hx
    rw [Function.update_self]
    exact hchange _
  · rw [Function.update_of_ne hx]
    exact ⟨rfl, rfl, rfl, rfl⟩

theorem removeCheckpoint_lists (m : Monitor κ) (cp : Nat) (kind : Kind) (mem : Nat) :
    listOf (removeCheckpoint m cp) kind mem = (listOf m kind mem).erase cp ∨
      listOf (removeCheckpoint m cp) kind mem = listOf m kind mem := by
  have hlist : ∀ (lists : Nat → List Nat) (checks : Bool),
      let lists' := if checks = true then changeList lists (m.memspace cp) (·.erase cp) else lists
      lists' mem = (lists mem).erase cp ∨ lists' mem = lists mem := by
    intro lists checks
    cases checks
    · exact .inr rfl
    · by_cases hmem : mem = m.memspace cp
      · simp [changeList, hmem]
      · simp [changeList, hmem]
  cases kind
  · exact hlist m.breakpoints (m.checkpoint cp).checkExec
  · exact hlist m.watchpointsLoad (m.checkpoint cp).checkLoad
  · exact hlist m.watchpointsStore (m.checkpoint cp).checkStore

theorem removeCheckpoint_changed (h : Linked m) : Changed m (removeCheckpoint m cp) := by
  refine ⟨.erase h.allBelow h.allNodup cp, fun kind mem => ?_, fun _ _ => ⟨rfl, rfl, rfl, rfl⟩⟩
  rcases removeCheckpoint_lists m cp kind mem with hlist | hlist
  · rw [hlist]
    exact .erase (h.below kind mem) (h.nodup kind mem) cp
  · rw [hlist]
    exact .same (h.below kind mem) (h.nodup kind mem)

theorem deleteNumber_changed (h : Linked m) (n : Nat) : Changed m (deleteNumber m n) := by
  unfold deleteNumber
  split
  · exact removeCheckpoint_changed h
  · exact h.refl

theorem deleteNumbers_changed (h : Linked m) (ns : List Nat) : Changed m (ns.foldl deleteNumber m) := by
  induction ns generalizing m with
  | nil => exact h.refl
  | cons n ns ih =>
    have hfirst := deleteNumber_changed h n
    exact hfirst.trans (ih hfirst.linked)

theorem count_changed (h : Changed m m') (n : Nat) : Changed m { m' with breakpointCount := n } := by
  refine ⟨h.all, fun kind mem => ?_, h.same⟩
  have hlist := h.lists kind mem
  cases kind <;> exact hlist

theorem deleteCheckpoint_changed (h : Linked m) (cpNum : Int) :
    Changed m (monBreakpointDeleteCheckpoint m cpNum) := by
  unfold monBreakpointDeleteCheckpoint
  split_ifs
  · exact count_changed (deleteNumbers_changed h _) 1
  · split
    · exact h.refl
    · dsimp only
      split_ifs
      · exact removeCheckpoint_changed h
      · exact count_changed (removeCheckpoint_changed h) 1

theorem addToCheckpointList_split (location : Nat → Nat) (cp : Nat) (entries : List Nat) :
    ∃ a b, entries = a ++ b ∧ addToCheckpointList location cp entries = a ++ cp :: b := by
  induction entries with
  | nil => exact ⟨[], [], rfl, rfl⟩
  | cons entry entries ih =>
    rw [addToCheckpointList]
    split_ifs
    · obtain ⟨a, b, hentries, hadd⟩ := ih
      exact ⟨entry :: a, b, by rw [hentries]; rfl, by rw [hadd]; rfl⟩
    · exact ⟨[], entry :: entries, rfl, rfl⟩

theorem add_changed (h : Linked m) (startAddr endAddr : MonAddr) (stop : Bool) (memoryOp : Nat)
    (isTemp : Bool) : Changed m (breakpointAddCheckpoint m startAddr endAddr stop memoryOp isTemp).2 := by
  have hinsert : ∀ {location : Nat → Nat} {l : List Nat}, (∀ x ∈ l, x < m.fresh) → l.Nodup →
      Edited m.fresh l (m.fresh + 1) (addToCheckpointList location m.fresh l) := by
    intro location l hbelow hnodup
    obtain ⟨a, b, hl, hadd⟩ := addToCheckpointList_split location m.fresh l
    rw [hadd]
    exact .insert hbelow hnodup hl
  rw [add_eq]
  refine ⟨hinsert h.allBelow h.allNodup, fun kind mem => ?_, fun cp hcp => ?_⟩
  · rw [updateCheckpointState_lists]
    have hold : listOf (created m (newCheckpoint m startAddr endAddr stop memoryOp isTemp)) kind mem =
        listOf m kind mem := by cases kind <;> rfl
    rcases @enlist_lists κ (created m (newCheckpoint m startAddr endAddr stop memoryOp isTemp)) m.fresh
      kind mem with ⟨-, -, hlist⟩ | ⟨-, hlist⟩
    · rw [hlist, hold]
      exact hinsert (h.below kind mem) (h.nodup kind mem)
    · rw [hlist, hold]
      exact ⟨Nat.le_succ _, List.filter_sublist, fun x hx => Nat.lt_succ_of_lt (h.below kind mem x hx),
        h.nodup kind mem⟩
  · have hold := @created_old κ m cp (newCheckpoint m startAddr endAddr stop memoryOp isTemp) hcp
    change Same (m.checkpoint cp) ((created m _).checkpoint cp)
    rw [hold]
    exact ⟨rfl, rfl, rfl, rfl⟩

theorem switchNumber_changed (h : Linked m) (op : Bool) (n : Int) : Changed m (switchNumber op m n) := by
  unfold switchNumber
  split
  · exact modify_changed h fun c => ⟨rfl, rfl, rfl, rfl⟩
  · exact h.refl

theorem switchNumbers_changed (h : Linked m) (op : Bool) (ns : List Nat) :
    Changed m (ns.foldl (fun m (n : Nat) => switchNumber op m n) m) := by
  induction ns generalizing m with
  | nil => exact h.refl
  | cons n ns ih =>
    have hfirst := switchNumber_changed h op n
    exact hfirst.trans (ih hfirst.linked)

theorem switchCheckpoint_changed (h : Linked m) (op : Bool) (cpNum : Int) :
    Changed m (monBreakpointSwitchCheckpoint m op cpNum) := by
  unfold monBreakpointSwitchCheckpoint
  split_ifs
  · exact switchNumbers_changed h op _
  · exact switchNumber_changed h op cpNum

theorem setIgnoreCount_changed (h : Linked m) (cpNum count : Int) :
    Changed m (monBreakpointSetIgnoreCount m cpNum count) := by
  unfold monBreakpointSetIgnoreCount
  split
  · exact modify_changed h fun c => ⟨rfl, rfl, rfl, rfl⟩
  · exact h.refl

theorem setCondition_changed (h : Linked m) (cpNum : Int) (cnode : κ) :
    Changed m (monBreakpointSetCheckpointCondition m cpNum cnode) := by
  unfold monBreakpointSetCheckpointCondition
  split
  · exact modify_changed h fun c => ⟨rfl, rfl, rfl, rfl⟩
  · exact h.refl

/-! ## Runs -/

/-- A checkpoint is changed in any way. -/
theorem modify_linked (h : Linked m) (change : Checkpoint κ → Checkpoint κ) : Linked (m.modify cp change) := by
  obtain ⟨hallBelow, hallNodup, hbelow, hnodup⟩ := h
  refine ⟨hallBelow, hallNodup, fun kind => ?_, fun kind => ?_⟩
  · have hlist := hbelow kind
    cases kind <;> exact hlist
  · have hlist := hnodup kind
    cases kind <;> exact hlist

theorem unset_linked (h : Linked m) (address : MonAddr) : Linked (monBreakpointUnset m address) := by
  unfold monBreakpointUnset
  split
  · next cp rest _ =>
    have hedit := Edited.erase h.allBelow h.allNodup cp
    have hlist : ∀ mem, Edited m.fresh (m.breakpoints mem) m.fresh
        (changeList m.breakpoints address.memspace (·.erase cp) mem) := by
      intro mem
      unfold changeList
      by_cases hmem : mem = address.memspace
      · subst hmem
        rw [Function.update_self]
        exact .erase (h.below .exec _) (h.nodup .exec _) cp
      · rw [Function.update_of_ne hmem]
        exact .same (h.below .exec mem) (h.nodup .exec mem)
    refine ⟨hedit.below, hedit.nodup, fun kind mem => ?_, fun kind mem => ?_⟩
    · cases kind
      · exact (hlist mem).below
      · exact h.below .load mem
      · exact h.below .store mem
    · cases kind
      · exact (hlist mem).nodup
      · exact h.nodup .load mem
      · exact h.nodup .store mem
  · exact h

theorem checkEntries_linked (h : Linked m) (holds : κ → Bool) (addr : Nat) (entries : List Nat)
    (mustStop : Bool) : Linked (checkEntries holds addr entries m mustStop).2 := by
  induction entries generalizing m mustStop with
  | nil => exact h
  | cons cp entries ih =>
    have hhit : Linked (m.modify cp fun c => { c with hitCount := c.hitCount + 1 }) :=
      modify_linked h _
    rw [checkEntries]
    dsimp only
    split_ifs
    · exact ih h _
    · exact ih (modify_linked h _) _
    · exact ih (deleteCheckpoint_changed hhit _).linked _
    · exact ih hhit _
    · exact ih h _

theorem step_linked (h : Linked m) (op : Op κ) : Linked (step m op) := by
  have hmodify : ∀ address enabled, Linked (enableAt m address enabled) := by
    intro address enabled
    unfold enableAt
    split
    · exact modify_linked h _
    · exact h
  cases op with
  | addCheckpoint startAddr endAddr stop memoryOp isTemp => exact (add_changed h ..).linked
  | deleteCheckpoint cpNum => exact (deleteCheckpoint_changed h cpNum).linked
  | set address =>
    rw [step, monBreakpointSet]
    split
    · exact modify_linked h _
    · exact (add_changed h ..).linked
  | unset address => exact unset_linked h address
  | enable address => exact hmodify address true
  | disable address => exact hmodify address false
  | switchCheckpoint op cpNum => exact (switchCheckpoint_changed h op cpNum).linked
  | setIgnoreCount cpNum count => exact (setIgnoreCount_changed h cpNum count).linked
  | setCondition cpNum cnode => exact (setCondition_changed h cpNum cnode).linked
  | checkCheckpoint holds mem addr op => exact checkEntries_linked h ..

/-- Any operations, with unsets that leave something behind among them. -/
theorem run_linked {ops : List (Op κ)} (h : Started m) : Linked (run m ops) := by
  have hlinked : ∀ {m : Monitor κ}, Linked m → Linked (run m ops) := by
    induction ops with
    | nil => exact fun h => h
    | cons op ops ih => exact fun h => ih (step_linked h op)
  apply hlinked
  have hindexed := h.kept.indexed
  exact ⟨hindexed.below, hindexed.nodup,
    fun kind mem cp hcp => hindexed.below cp ((hindexed.listed kind mem cp).mp hcp).1, hindexed.listNodup⟩

end

/-! ## Commands -/

section
variable {κ γ ω : Type} {e : Env κ γ ω} {s : Session κ γ ω} {cp : Nat}

theorem call_changed (h : Linked s.mon) (c : Call κ γ) : Changed s.mon (s.call c).mon := by
  cases c with
  | addCheckpoint startAddr endAddr stop memoryOp isTemp => exact add_changed h ..
  | deleteCheckpoint cpNum => exact deleteCheckpoint_changed h cpNum
  | switchCheckpoint op cpNum => exact switchCheckpoint_changed h op cpNum
  | setIgnoreCount cpNum count => exact setIgnoreCount_changed h cpNum count
  | setCondition cpNum cnode => exact setCondition_changed h cpNum cnode
  | setCommand cpNum cmd =>
    rw [Session.call, Session.setCommand]
    split
    · exact h.refl
    · exact h.refl
  | setDummyState mem => exact update_changed h _
  | setAddresses defaultMemspace dotAddr =>
    refine h.changed rfl rfl ?_ fun _ => ⟨rfl, rfl, rfl, rfl⟩
    funext kind
    cases kind <;> rfl

theorem calls_changed (h : Linked s.mon) (calls : List (Call κ γ)) :
    Changed s.mon (calls.foldl Session.call s).mon := by
  induction calls generalizing s with
  | nil => exact h.refl
  | cons c calls ih =>
    have hfirst := call_changed h c
    exact hfirst.trans (ih hfirst.linked)

theorem parseAndExecuteLine_changed (h : Linked s.mon) (input : γ) :
    Changed s.mon (parseAndExecuteLine e s input).mon :=
  calls_changed h _

theorem runCommand_changed (h : Linked s.mon) : Changed s.mon (runCommand e s cp).mon := by
  unfold runCommand
  split_ifs
  · exact h.refl
  · split
    · exact parseAndExecuteLine_changed h _
    · exact h.refl

theorem dropTemporary_changed (h : Linked s.mon) : Changed s.mon (dropTemporary s cp).mon := by
  have hdelete := deleteCheckpoint_changed h (s.mon.checkpoint cp).checknum
  unfold dropTemporary
  dsimp only
  split_ifs
  · exact hdelete
  · exact h.refl

end

end Vice.L5.CheckpointWalk
