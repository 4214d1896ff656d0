import Mathlib.Logic.Function.Basic

/-!
# Checkpoints (`mon_breakpoint.c`)

A checkpoint is an object that up to four lists point to: the list of all of them, and for its
memspace those that are searched when an instruction is executed, and when memory is loaded or
stored. Each list is sorted by the start address. A checkpoint that is removed is taken from its
lists but never freed, so its address is not used again; `fresh` is the next one.

Checkpoints may have a condition, which is evaluated on a hit; those with a command, which executes
a line of the monitor, are left out.
-/
namespace Vice.L5.Breakpoints

/-- mirrors src/monitor/montypes.h:221-224 (`MON_ADDR`) -/
structure MonAddr where
  memspace : Nat
  location : Nat
  deriving DecidableEq, Repr

def eDefaultSpace : Nat := 0

def eInvalidSpace : Nat := 6

def MonAddr.isValid (a : MonAddr) : Bool := a.memspace ≠ eInvalidSpace

/-- mirrors src/monitor/mon_breakpoint.h:38-60 (`mon_checkpoint_t`) -/
structure Checkpoint (κ : Type) where
  checknum : Nat
  startAddr : MonAddr
  endAddr : MonAddr
  hitCount : Nat
  ignoreCount : Int
  condition : Option κ
  stop : Bool
  enabled : Bool
  checkLoad : Bool
  checkStore : Bool
  checkExec : Bool
  temporary : Bool

/-- The static variables, and those of `monitor.c` and of the CPUs that they set. -/
structure Monitor (κ : Type) where
  checkpoint : Nat → Checkpoint κ
  fresh : Nat
  breakpointCount : Nat
  allCheckpoints : List Nat
  breakpoints : Nat → List Nat
  watchpointsLoad : Nat → List Nat
  watchpointsStore : Nat → List Nat
  monitorMask : Nat → BitVec 32
  watching : Nat → Bool      -- the CPU calls the monitor for loads and stores
  trapOn : Nat → Bool
  defaultMemspace : Nat
  dotAddr : Nat → MonAddr

def miBreak : BitVec 32 := 1

def miWatch : BitVec 32 := 2

section
variable {κ : Type}

/-! ## Addresses -/

/-- mirrors src/monitor/monitor.c:512-529 (`mon_is_in_range`) -/
def monIsInRange (startAddr endAddr : MonAddr) (loc : Nat) : Bool :=
  if endAddr.isValid then
    if endAddr.location < startAddr.location then
      startAddr.location ≤ loc ∨ loc ≤ endAddr.location
    else startAddr.location ≤ loc ∧ loc ≤ endAddr.location
  else loc = startAddr.location

/-- mirrors src/monitor/monitor.c:531-542 (`is_valid_addr_range`) -/
def isValidAddrRange (startAddr endAddr : MonAddr) : Bool :=
  if startAddr.memspace = eInvalidSpace then false
  else if startAddr.memspace ≠ endAddr.memspace ∧
      (startAddr.memspace ≠ eDefaultSpace ∨ endAddr.memspace ≠ eDefaultSpace) then false
  else true

/-- mirrors src/monitor/monitor.c:572-606: the memspaces of a range. -/
def resolveRange (defaultMemspace : Nat) (startAddr endAddr : MonAddr) : MonAddr × MonAddr :=
  if startAddr.memspace = eDefaultSpace then
    if endAddr.memspace = eDefaultSpace then
      ({ startAddr with memspace := defaultMemspace }, { endAddr with memspace := defaultMemspace })
    else if endAddr.memspace ≠ eInvalidSpace then
      ({ startAddr with memspace := endAddr.memspace }, endAddr)
    else ({ startAddr with memspace := defaultMemspace }, endAddr)
  else if endAddr.memspace = eDefaultSpace then
    (startAddr, { endAddr with memspace := startAddr.memspace })
  else (startAddr, endAddr)

/-- mirrors src/monitor/monitor.c:562-626 (`mon_evaluate_address_range`), for a range that need not be
one and with the default length 0. -/
def monEvaluateAddressRange (m : Monitor κ) (startAddr endAddr : MonAddr) : MonAddr × MonAddr :=
  if isValidAddrRange startAddr endAddr then resolveRange m.defaultMemspace startAddr endAddr
  else
    let startAddr :=
      if startAddr.isValid = false then m.dotAddr m.defaultMemspace
      else if startAddr.memspace = eDefaultSpace then { startAddr with memspace := m.defaultMemspace }
      else startAddr
    if endAddr.isValid = false then (startAddr, startAddr)
    else (startAddr, { endAddr with memspace := startAddr.memspace })

/-! ## Lists -/

/-- mirrors src/monitor/mon_breakpoint.c:596-646 (`add_to_checkpoint_list`): behind the entries that
do not start later. -/
def addToCheckpointList (location : Nat → Nat) (cp : Nat) : List Nat → List Nat
  | [] => [cp]
  | entry :: entries =>
    if location entry ≤ location cp then entry :: addToCheckpointList location cp entries
    else cp :: entry :: entries

/-- Where a checkpoint starts. -/
def Monitor.location (m : Monitor κ) (cp : Nat) : Nat := (m.checkpoint cp).startAddr.location

def Monitor.memspace (m : Monitor κ) (cp : Nat) : Nat := (m.checkpoint cp).startAddr.memspace

/-- mirrors src/monitor/mon_breakpoint.c:415-435 (`search_checkpoint_list`): the entry and those
behind it. -/
def searchCheckpointList (m : Monitor κ) (loc : Nat) : List Nat → List Nat
  | [] => []
  | entry :: entries =>
    if monIsInRange (m.checkpoint entry).startAddr (m.checkpoint entry).endAddr loc then entry :: entries
    else searchCheckpointList m loc entries

/-- mirrors src/monitor/mon_breakpoint.c:144-156 (`mon_breakpoint_find_checkpoint`) -/
def monBreakpointFindCheckpoint (m : Monitor κ) (brknum : Int) : Option Nat :=
  m.allCheckpoints.find? fun cp => ((m.checkpoint cp).checknum : Int) = brknum

/-- mirrors src/monitor/mon_breakpoint.c:158-184 (`update_checkpoint_state`) -/
def updateCheckpointState (m : Monitor κ) (mem : Nat) : Monitor κ :=
  let watched := m.watchpointsLoad mem ≠ [] ∨ m.watchpointsStore mem ≠ []
  let mask := m.monitorMask mem
  let mask := if watched then mask ||| miWatch else mask &&& ~~~miWatch
  let mask := if m.breakpoints mem ≠ [] then mask ||| miBreak else mask &&& ~~~miBreak
  { m with
    watching := Function.update m.watching mem watched
    monitorMask := Function.update m.monitorMask mem mask
    trapOn := Function.update m.trapOn mem (mask ≠ 0) }

/-- Changes the list of one memspace. -/
def changeList (lists : Nat → List Nat) (mem : Nat) (change : List Nat → List Nat) : Nat → List Nat :=
  Function.update lists mem (change (lists mem))

/-- mirrors src/monitor/mon_breakpoint.c:210-232 (`remove_checkpoint`) -/
def removeCheckpoint (m : Monitor κ) (cp : Nat) : Monitor κ :=
  let c := m.checkpoint cp
  let mem := m.memspace cp
  let remove := fun lists => changeList lists mem (·.erase cp)
  updateCheckpointState
    { m with
      allCheckpoints := m.allCheckpoints.erase cp
      breakpoints := if c.checkExec then remove m.breakpoints else m.breakpoints
      watchpointsLoad := if c.checkLoad then remove m.watchpointsLoad else m.watchpointsLoad
      watchpointsStore := if c.checkStore then remove m.watchpointsStore else m.watchpointsStore } mem

/-- Changes a checkpoint. -/
def Monitor.modify (m : Monitor κ) (cp : Nat) (change : Checkpoint κ → Checkpoint κ) : Monitor κ :=
  { m with checkpoint := Function.update m.checkpoint cp (change (m.checkpoint cp)) }

/-! ## Operations -/

/-- The numbers that are gone through for all checkpoints. -/
def Monitor.numbers (m : Monitor κ) : List Nat := List.range' 1 (m.breakpointCount - 1)

def switchNumber (op : Bool) (m : Monitor κ) (n : Int) : Monitor κ :=
  match monBreakpointFindCheckpoint m n with
  | some cp => m.modify cp fun c => { c with enabled := op }
  | none => m

/-- mirrors src/monitor/mon_breakpoint.c:234-260 (`mon_breakpoint_switch_checkpoint`) -/
def monBreakpointSwitchCheckpoint (m : Monitor κ) (op : Bool) (cpNum : Int) : Monitor κ :=
  if cpNum = -1 then m.numbers.foldl (fun m (n : Nat) => switchNumber op m n) m else switchNumber op m cpNum

/-- mirrors src/monitor/mon_breakpoint.c:262-274 (`mon_breakpoint_set_ignore_count`) -/
def monBreakpointSetIgnoreCount (m : Monitor κ) (cpNum count : Int) : Monitor κ :=
  match monBreakpointFindCheckpoint m cpNum with
  | some cp => m.modify cp fun c => { c with ignoreCount := count }
  | none => m

/-- mirrors src/monitor/mon_breakpoint.c:382-400 (`mon_breakpoint_set_checkpoint_condition`) -/
def monBreakpointSetCheckpointCondition (m : Monitor κ) (cpNum : Int) (cnode : κ) : Monitor κ :=
  match monBreakpointFindCheckpoint m cpNum with
  | some cp => m.modify cp fun c => { c with condition := some cnode }
  | none => m

/-- mirrors src/monitor/mon_breakpoint.c:356-361: one number of all. -/
def deleteNumber (m : Monitor κ) (n : Nat) : Monitor κ :=
  match monBreakpointFindCheckpoint m n with
  | some cp => removeCheckpoint m cp
  | none => m

/-- mirrors src/monitor/mon_breakpoint.c:351-380 (`mon_breakpoint_delete_checkpoint`) -/
def monBreakpointDeleteCheckpoint (m : Monitor κ) (cpNum : Int) : Monitor κ :=
  if cpNum = -1 then { m.numbers.foldl deleteNumber m with breakpointCount := 1 }
  else
    match monBreakpointFindCheckpoint m cpNum with
    | none => m
    | some cp =>
      let m := removeCheckpoint m cp
      if m.numbers.any fun n => (monBreakpointFindCheckpoint m n).isSome then m
      else { m with breakpointCount := 1 }

/-- mirrors src/monitor/mon_breakpoint.c:649-712 (`breakpoint_add_checkpoint`): the number of the
checkpoint; the bits of `memoryOp` are load, store and execute. -/
def breakpointAddCheckpoint (m : Monitor κ) (startAddr endAddr : MonAddr) (stop : Bool) (memoryOp : Nat)
    (isTemp : Bool) : Nat × Monitor κ :=
  let (startAddr, endAddr) := monEvaluateAddressRange m startAddr endAddr
  let cp := m.fresh
  let c : Checkpoint κ :=
    { checknum := m.breakpointCount
      startAddr := startAddr
      endAddr := endAddr
      stop := stop
      enabled := true
      hitCount := 0
      ignoreCount := 0
      condition := none
      checkLoad := memoryOp.testBit 0
      checkStore := memoryOp.testBit 1
      checkExec := memoryOp.testBit 2
      temporary := isTemp }
  let mem := startAddr.memspace
  let m := { m with
    checkpoint := Function.update m.checkpoint cp c
    fresh := cp + 1
    breakpointCount := m.breakpointCount + 1 }
  let add := fun lists => changeList lists mem (addToCheckpointList m.location cp)
  (c.checknum, updateCheckpointState
    { m with
      allCheckpoints := addToCheckpointList m.location cp m.allCheckpoints
      breakpoints := if c.checkExec then add m.breakpoints else m.breakpoints
      watchpointsLoad := if c.checkLoad then add m.watchpointsLoad else m.watchpointsLoad
      watchpointsStore := if c.checkStore then add m.watchpointsStore else m.watchpointsStore } mem)

def eExec : Nat := 4

/-- mirrors src/monitor/mon_breakpoint.c:735-751 (`mon_breakpoint_set`): the location is cut to 16
bits. -/
def monBreakpointSet (m : Monitor κ) (address : MonAddr) : Monitor κ :=
  match searchCheckpointList m (address.location % 65536) (m.breakpoints address.memspace) with
  | cp :: _ => m.modify cp fun c => { c with enabled := true }
  | [] => (breakpointAddCheckpoint m address address true eExec false).2

/-- mirrors src/monitor/mon_breakpoint.c:753-766 (`mon_breakpoint_unset`): only two lists, and the
state is not updated. -/
def monBreakpointUnset (m : Monitor κ) (address : MonAddr) : Monitor κ :=
  match searchCheckpointList m (address.location % 65536) (m.breakpoints address.memspace) with
  | cp :: _ =>
    { m with
      allCheckpoints := m.allCheckpoints.erase cp
      breakpoints := changeList m.breakpoints address.memspace (·.erase cp) }
  | [] => m

/-- mirrors src/monitor/mon_breakpoint.c:768-794 (`mon_breakpoint_enable`, `mon_breakpoint_disable`) -/
def enableAt (m : Monitor κ) (address : MonAddr) (enabled : Bool) : Monitor κ :=
  match searchCheckpointList m (address.location % 65536) (m.breakpoints address.memspace) with
  | cp :: _ => m.modify cp fun c => { c with enabled := enabled }
  | [] => m

def monBreakpointEnable (m : Monitor κ) (address : MonAddr) : Monitor κ := enableAt m address true

def monBreakpointDisable (m : Monitor κ) (address : MonAddr) : Monitor κ := enableAt m address false

/-- mirrors src/monitor/mon_breakpoint.c:524-590: the entries from the first one in range on. A
temporary checkpoint is deleted on its hit. -/
def checkEntries (holds : κ → Bool) (addr : Nat) : List Nat → Monitor κ → Bool → Bool × Monitor κ
  | [], m, mustStop => (mustStop, m)
  | cp :: entries, m, mustStop =>
    let c := m.checkpoint cp
    if c.enabled ∧ monIsInRange c.startAddr c.endAddr addr then
      if c.condition.any fun cond => !holds cond then checkEntries holds addr entries m mustStop
      else if c.ignoreCount ≠ 0 then
        checkEntries holds addr entries
          (m.modify cp fun c => { c with ignoreCount := c.ignoreCount - 1 }) mustStop
      else
        let m := m.modify cp fun c => { c with hitCount := c.hitCount + 1 }
        let m := if c.temporary then monBreakpointDeleteCheckpoint m c.checknum else m
        checkEntries holds addr entries m (mustStop || c.stop)
    else checkEntries holds addr entries m mustStop

/-- mirrors src/monitor/mon_breakpoint.c:466-594 (`mon_breakpoint_check_checkpoint`) -/
def monBreakpointCheckCheckpoint (holds : κ → Bool) (m : Monitor κ) (mem addr op : Nat) :
    Bool × Monitor κ :=
  let list :=
    if op = 1 then m.watchpointsLoad mem
    else if op = 2 then m.watchpointsStore mem
    else m.breakpoints mem
  checkEntries holds addr (searchCheckpointList m addr list) m false

end

end Vice.L5.Breakpoints
