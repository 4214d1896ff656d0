import Mathlib.Algebra.Group.Nat.Defs
import Mathlib.Algebra.Group.Int.Defs
import Mathlib.Logic.Function.Basic
import Mathlib.Data.List.Induction
import Mathlib.Tactic.SplitIfs

/-!
# The keyboard queue (`kbdbuf.c`)

Characters that are to be typed wait in a ring buffer until the buffer of the emulated machine is empty. A
RETURN of a command waits for an alarm. When it comes a RETURN is put into the machine, and the first
character of the queue is dropped, whatever it is by then.

Results:
* `ring_store`: what a string leaves in the ring.
* `flush_inv`, `dispatch_inv`, `feed_inv`: one call each.
* `run_faithful`: all that is injected is what was fed, as long as no alarm outlives what it was set for.
-/
namespace Vice.L4.KeyboardQueue

/-- mirrors src/kbdbuf.c:60 -/
def QUEUE_SIZE : Int := 16384

/-- A character that was put into the machine, with the count behind it and the size it should keep to. -/
structure Injection where
  c : UInt8
  count : Nat
  size : Int

/-- mirrors src/kbdbuf.c:62-103. The queue is the memory around it, and an alarm time of 0 is none. What was
put into the machine is kept beside it. -/
structure State where
  bufferLocation : UInt16
  numPendingLocation : UInt16
  bufferSize : Int
  kernalInitCycles : Nat
  queue : Int → UInt8
  headIdx : Int
  numPending : Int
  kbdBufEnabled : Bool
  kbdBufCmdline : Bool
  useKbdbufFlushAlarm : Bool
  kbdbufFlushAlarmTime : Nat
  memory : UInt16 → UInt8
  injected : List Injection

/-- The clock, the cycles of a frame, and a random number less than these. -/
structure Time where
  clk : Nat
  cycles : Nat
  rand : Nat

section
variable (s : State)

/-- The keys in the machine's buffer. -/
def count : Nat := (s.memory s.numPendingLocation).toNat

/-- mirrors src/kbdbuf.c:223-230 -/
def tokbdbuffer (c : UInt8) : State :=
  let num := count s
  let memory := Function.update s.memory (s.bufferLocation + UInt16.ofNat num) c
  let memory := Function.update memory s.numPendingLocation (UInt8.ofNat (num + 1))
  { s with memory := memory, injected := s.injected ++ [⟨c, num + 1, s.bufferSize⟩] }

/-- mirrors src/kbdbuf.c:271-276 -/
def removefromqueue : State :=
  { s with numPending := s.numPending - 1, headIdx := (s.headIdx + 1).tmod QUEUE_SIZE }

/-- The loop: mirrors src/kbdbuf.c:391-406. It ends early with a RETURN that is to wait. -/
def flushLoop (time : Time) : Nat → State → State
  | 0, s => { s with kbdBufCmdline := false }
  | n + 1, s =>
    if s.queue s.headIdx = 13 ∧ s.useKbdbufFlushAlarm = true then
      { s with kbdbufFlushAlarmTime := time.clk + time.cycles + (time.rand + 1) }
    else flushLoop time n (removefromqueue (tokbdbuffer s (s.queue s.headIdx)))

/-- mirrors src/kbdbuf.c:362-410 (`kbdbuf_flush`), called by no memory access of its own -/
def flush (time : Time) : State :=
  if s.kbdBufEnabled = false ∨ s.numPending = 0 ∨ count s ≠ 0 ∨ time.clk < s.kernalInitCycles ∨
      s.kbdbufFlushAlarmTime ≠ 0 then s
  else
    let n := if s.bufferSize < s.numPending then s.bufferSize else s.numPending
    flushLoop time (n % 2 ^ 32).toNat s

/-- The characters at `p` and behind it, around the end of the queue. -/
def store : (Int → UInt8) → Int → List UInt8 → Int → UInt8
  | queue, _, [] => queue
  | queue, p, c :: string => store (Function.update queue p c) ((p + 1).tmod QUEUE_SIZE) string

/-- A number as an `int`. -/
def int (n : Int) : Int := n.bmod (2 ^ 32)

/-- mirrors src/kbdbuf.c:246-269 (`string_to_queue`), with whether the string is accepted -/
def stringToQueue (time : Time) (string : List UInt8) : Bool × State :=
  let num := int string.length
  if QUEUE_SIZE < int (s.numPending + num) ∨ s.kbdBufEnabled = false then (false, s)
  else
    let p := (s.headIdx + s.numPending).tmod QUEUE_SIZE
    (true, flush { s with
      queue := store s.queue p (string.take num.toNat)
      numPending := int (s.numPending + num) } time)

/-- mirrors src/kbdbuf.c:355-366 (`kbdbuf_feed`, `kbdbuf_feed_runcmd`) -/
def feed (runcmd : Bool) (time : Time) (string : List UInt8) : Bool × State :=
  stringToQueue { s with useKbdbufFlushAlarm := runcmd } time string

/-- mirrors src/kbdbuf.c:291-298 (`kbdbuf_flush_alarm_triggered`) -/
def kbdbufFlushAlarmTriggered : State := removefromqueue (tokbdbuffer { s with kbdbufFlushAlarmTime := 0 } 13)

/-- mirrors src/kbdbuf.c:300-312 (`kbdbuf_reset`) -/
def reset (location plocation : UInt16) (size : Int) (mincycles : Nat) : State :=
  { s with
    bufferLocation := location
    numPendingLocation := plocation
    bufferSize := size
    kernalInitCycles := mincycles
    kbdBufEnabled := mincycles != 0 }

/-- mirrors src/kbdbuf.c:314-323 (`kbdbuf_abort`) -/
def abort : State := if s.kbdBufCmdline = false then { s with numPending := 0 } else s

end

/-! ## Runs -/

/-- The calls, and what the machine does to its memory: of the keys in its buffer it only takes some away. -/
inductive Op
  | feed (runcmd : Bool) (time : Time) (string : List UInt8)
  | flush (time : Time)
  | alarm
  | abort
  | reset (location plocation : UInt16) (size : Int) (mincycles : Nat)
  | machine (memory : UInt16 → UInt8)

/-- The program, and the characters that were accepted and not aborted. -/
structure Run where
  state : State
  kept : List UInt8

/-- A string ends with its first zero. -/
def cString (bytes : List UInt8) : List UInt8 := bytes.takeWhile (· != 0)

def step (r : Run) : Op → Run
  | .feed runcmd time bytes =>
    let (accepted, s) := feed r.state runcmd time (cString bytes)
    ⟨s, if accepted then r.kept ++ cString bytes else r.kept⟩
  | .flush time => { r with state := flush r.state time }
  | .alarm => if r.state.kbdbufFlushAlarmTime = 0 then r else { r with state := kbdbufFlushAlarmTriggered r.state }
  | .abort => ⟨abort r.state, r.kept.take r.state.injected.length⟩
  | .reset location plocation size mincycles => { r with state := reset r.state location plocation size mincycles }
  | .machine memory =>
    let count := r.state.memory r.state.numPendingLocation
    let left := min count (memory r.state.numPendingLocation)
    { r with state := { r.state with memory := Function.update memory r.state.numPendingLocation left } }

/-- The program as it starts, in any memory. -/
def start (memory : UInt16 → UInt8) : Run :=
  ⟨⟨0, 0, 0, 0, fun _ => 0, 0, 0, false, false, false, 0, memory, []⟩, []⟩

def run (memory : UInt16 → UInt8) (ops : List Op) : Run := ops.foldl step (start memory)

/-- The queue is within its bounds, the machine's buffer was never overfilled, and what was injected is the
first of what was to be, with the rest still in the queue. -/
structure Faithful (r : Run) : Prop where
  bounds : 0 ≤ r.state.numPending ∧ r.state.numPending ≤ QUEUE_SIZE
  counts : ∀ injection ∈ r.state.injected, (injection.count : Int) ≤ injection.size
  order : r.state.injected.map Injection.c = r.kept.take r.state.injected.length
  rest : (r.kept.length : Int) = r.state.injected.length + r.state.numPending

/-- A string is counted as an `int` together with the queue, a buffer has a size that a byte can count to, and
when an alarm comes the RETURN it was set for is the next character and has room. -/
def Meets (s : State) : Op → Prop
  | .feed _ _ bytes => s.numPending + (cString bytes).length < 2 ^ 31
  | .alarm => s.kbdbufFlushAlarmTime ≠ 0 →
      0 < s.numPending ∧ s.queue s.headIdx = 13 ∧ (count s : Int) < s.bufferSize
  | .reset _ _ size _ => 0 ≤ size ∧ size ≤ 255
  | _ => True

/-- Every step of a run meets it. -/
def AllMeet : Run → List Op → Prop
  | _, [] => True
  | r, op :: ops => Meets r.state op ∧ AllMeet (step r op) ops

/-! ## The ring -/

/-- So many characters from a place on. -/
def ring (queue : Int → UInt8) (h k : Nat) : List UInt8 := (List.range k).map fun i => queue ((h + i) % 16384 : Nat)

section
variable {queue : Int → UInt8} {h k : Nat} {c : UInt8} {string kept : List UInt8} {s : State} {time : Time}

theorem tmod_nat (n : Nat) : (n : Int).tmod QUEUE_SIZE = ((n % 16384 : Nat) : Int) := rfl

theorem ring_succ : ring queue h (k + 1) = ring queue h k ++ [queue ((h + k) % 16384 : Nat)] := by
  rw [ring, List.range_succ, List.map_append]
  rfl

theorem ring_cons (hh : h < 16384) : ring queue h (k + 1) = queue h :: ring queue ((h + 1) % 16384) k := by
  rw [ring, List.range_succ_eq_map, List.map_cons, List.map_map, Nat.add_zero, Nat.mod_eq_of_lt hh, ring]
  congr 1
  apply List.map_congr_left
  intro i _
  have hplace : (h + (i + 1)) % 16384 = ((h + 1) % 16384 + i) % 16384 := by omega
  rw [Function.comp_apply, Nat.succ_eq_add_one, hplace]

/-- A place that is not in use may change. -/
theorem ring_update (hk : k < 16384) : ring (Function.update queue ((h + k) % 16384 : Nat) c) h k = ring queue h k := by
  apply List.map_congr_left
  intro i hi
  have hlt := List.mem_range.mp hi
  apply Function.update_of_ne
  intro hsame
  have hplaces : (h + i) % 16384 = (h + k) % 16384 := Int.ofNat_inj.mp hsame
  omega

theorem ring_store (hroom : k + string.length ≤ 16384) :
    ring (store queue ((h + k) % 16384 : Nat) string) h (k + string.length) = ring queue h k ++ string := by
  induction string generalizing queue k with
  | nil => rw [List.append_nil, List.length_nil, Nat.add_zero, store]
  | cons c string ih =>
    rw [List.length_cons] at hroom
    have hnext : (((h + k) % 16384 : Nat) + 1 : Int).tmod QUEUE_SIZE = ((h + (k + 1)) % 16384 : Nat) := by
      have hmod : ((h + k) % 16384 + 1) % 16384 = (h + (k + 1)) % 16384 := by omega
      rw [← hmod]
      exact tmod_nat _
    have hlength : k + (c :: string).length = k + 1 + string.length := by
      rw [List.length_cons]
      omega
    have hrest : ring (store (Function.update queue ((h + k) % 16384 : Nat) c) ((h + (k + 1)) % 16384 : Nat) string) h
        (k + 1 + string.length) = ring (Function.update queue ((h + k) % 16384 : Nat) c) h (k + 1) ++ string := ih (by omega)
    rw [store, hnext, hlength, hrest, ring_succ, ring_update (by omega), Function.update_self, List.append_assoc]
    rfl

/-! ## What every call keeps -/

/-- The queue begins at `h` and has `k` characters; with those injected they are all that is kept. -/
structure Inv (s : State) (kept : List UInt8) (h k : Nat) : Prop where
  head : s.headIdx = h
  inside : h < 16384
  pending : s.numPending = k
  room : k ≤ 16384
  size : 0 ≤ s.bufferSize ∧ s.bufferSize ≤ 255
  cmdline : s.kbdBufCmdline = false
  counts : ∀ injection ∈ s.injected, (injection.count : Int) ≤ injection.size
  kept : kept = s.injected.map Injection.c ++ ring s.queue h k

theorem Inv.faithful (hinv : Inv s kept h k) : Faithful ⟨s, kept⟩ := by
  have hroom := hinv.room
  have hlength : (s.injected.map Injection.c).length = s.injected.length := List.length_map _
  refine ⟨⟨?_, ?_⟩, hinv.counts, ?_, ?_⟩
  · rw [hinv.pending]
    exact Int.natCast_nonneg k
  · rw [hinv.pending, QUEUE_SIZE]
    omega
  · rw [hinv.kept, ← hlength, List.take_left]
  · have hlengths : kept.length = s.injected.length + k := by
      rw [hinv.kept, List.length_append, hlength, ring, List.length_map, List.length_range]
    show (kept.length : Int) = s.injected.length + s.numPending
    rw [hinv.pending, hlengths, Int.natCast_add]

theorem count_tokbdbuffer (hcount : count s < 255) : count (tokbdbuffer s c) = count s + 1 := by
  have hbyte : (UInt8.ofNat (count s + 1)).toNat = count s + 1 := by
    rw [UInt8.toNat_ofNat']
    omega
  show (Function.update (Function.update s.memory _ c) s.numPendingLocation _ s.numPendingLocation).toNat = _
  rw [Function.update_self]
  exact hbyte

/-- A character goes from the queue to the machine. -/
theorem inject_inv (hinv : Inv s kept h (k + 1)) (hc : s.queue s.headIdx = c) (hcount : (count s : Int) < s.bufferSize) :
    Inv (removefromqueue (tokbdbuffer s c)) kept ((h + 1) % 16384) k := by
  have hroom := hinv.room
  refine ⟨?_, Nat.mod_lt _ (by omega), ?_, by omega, hinv.size, hinv.cmdline, ?_, ?_⟩
  · show (s.headIdx + 1).tmod QUEUE_SIZE = _
    rw [hinv.head]
    exact tmod_nat (h + 1)
  · show s.numPending - 1 = k
    rw [hinv.pending]
    omega
  · intro injection hmem
    obtain hold | hnew := List.mem_append.mp hmem
    · exact hinv.counts injection hold
    · rw [List.mem_singleton.mp hnew]
      show ((count s + 1 : Nat) : Int) ≤ s.bufferSize
      omega
  · rw [hinv.head] at hc
    rw [hinv.kept, ring_cons hinv.inside, hc]
    show _ = (s.injected ++ [_]).map Injection.c ++ ring s.queue ((h + 1) % 16384) k
    rw [List.map_append, List.append_assoc]
    rfl

theorem flushLoop_inv (n : Nat) (hinv : Inv s kept h k) (hn : n ≤ k) (hcount : (count s + n : Int) ≤ s.bufferSize) :
    ∃ h' k', Inv (flushLoop time n s) kept h' k' := by
  induction n generalizing s h k with
  | zero =>
    exact ⟨h, k, hinv.head, hinv.inside, hinv.pending, hinv.room, hinv.size, rfl, hinv.counts, hinv.kept⟩
  | succ n ih =>
    rw [flushLoop]
    split_ifs with hreturn
    · exact ⟨h, k, hinv.head, hinv.inside, hinv.pending, hinv.room, hinv.size, hinv.cmdline, hinv.counts, hinv.kept⟩
    · obtain ⟨j, rfl⟩ : ∃ j, k = j + 1 := ⟨k - 1, by omega⟩
      have hsize := hinv.size
      have hnext := inject_inv hinv rfl (by omega)
      refine ih hnext (by omega) ?_
      have hcounted : count (removefromqueue (tokbdbuffer s (s.queue s.headIdx))) = count s + 1 :=
        count_tokbdbuffer (by omega)
      rw [hcounted]
      show ((count s + 1 : Nat) + n : Int) ≤ s.bufferSize
      omega

theorem flush_inv (hinv : Inv s kept h k) (time : Time) : ∃ h' k', Inv (flush s time) kept h' k' := by
  unfold flush
  by_cases hwait : s.kbdBufEnabled = false ∨ s.numPending = 0 ∨ count s ≠ 0 ∨ time.clk < s.kernalInitCycles ∨
      s.kbdbufFlushAlarmTime ≠ 0
  · rw [if_pos hwait]
    exact ⟨h, k, hinv⟩
  · rw [if_neg hwait]
    have hempty : count s = 0 := by
      by_contra hne
      exact hwait (.inr (.inr (.inl hne)))
    have hsize := hinv.size
    have hpending := hinv.pending
    have hroom := hinv.room
    have hfew : ((if s.bufferSize < s.numPending then s.bufferSize else s.numPending) % 2 ^ 32).toNat ≤ k ∧
        (((if s.bufferSize < s.numPending then s.bufferSize else s.numPending) % 2 ^ 32).toNat : Int) ≤ s.bufferSize := by
      split_ifs
      · omega
      · omega
    refine flushLoop_inv _ hinv hfew.1 ?_
    rw [hempty, Int.natCast_zero, Int.zero_add]
    exact hfew.2

theorem int_nat {n : Nat} (hn : n < 2 ^ 31) : int n = n := by
  unfold int
  rw [Int.bmod_def]
  omega

/-- A string that is counted right goes behind the others, if there is room. -/
theorem feed_eq (hinv : Inv s kept h k) (runcmd : Bool) (time : Time) (hlength : k + string.length < 2 ^ 31) :
    feed s runcmd time string =
      if 16384 < k + string.length ∨ s.kbdBufEnabled = false then (false, { s with useKbdbufFlushAlarm := runcmd })
      else
        (true, flush { s with
          useKbdbufFlushAlarm := runcmd
          queue := store s.queue ((h + k) % 16384 : Nat) string
          numPending := (k + string.length : Nat) } time) := by
  have hnum : int string.length = string.length := int_nat (by omega)
  have hsum : int (k + string.length) = ((k + string.length : Nat) : Int) := int_nat hlength
  have hplace : ((h : Int) + k).tmod QUEUE_SIZE = ((h + k) % 16384 : Nat) := tmod_nat (h + k)
  have htake : string.take (string.length : Int).toNat = string := List.take_length
  have hlong : QUEUE_SIZE < ((k + string.length : Nat) : Int) ↔ 16384 < k + string.length := by
    rw [QUEUE_SIZE]
    omega
  unfold feed stringToQueue
  simp only [hinv.pending, hinv.head, hnum, hsum, hplace, htake, hlong]

theorem feed_inv (hinv : Inv s kept h k) (runcmd : Bool) (time : Time) (hlength : k + string.length < 2 ^ 31) :
    ∃ h' k', Inv (feed s runcmd time string).2 (if (feed s runcmd time string).1 then kept ++ string else kept) h' k' := by
  rw [feed_eq hinv runcmd time hlength]
  by_cases hrefused : 16384 < k + string.length ∨ s.kbdBufEnabled = false
  · rw [if_pos hrefused]
    exact ⟨h, k, hinv.head, hinv.inside, hinv.pending, hinv.room, hinv.size, hinv.cmdline, hinv.counts, hinv.kept⟩
  · have hfits : k + string.length ≤ 16384 := Nat.le_of_not_lt fun hlong => hrefused (.inl hlong)
    rw [if_neg hrefused]
    refine flush_inv (h := h) (k := k + string.length) ?_ time
    refine ⟨hinv.head, hinv.inside, rfl, hfits, hinv.size, hinv.cmdline, hinv.counts, ?_⟩
    show kept ++ string = s.injected.map Injection.c ++ ring (store s.queue _ string) h (k + string.length)
    rw [ring_store hfits, hinv.kept, List.append_assoc]

/-- The alarm comes for the RETURN that is next. -/
theorem dispatch_inv (hinv : Inv s kept h k) (hpending : 0 < s.numPending) (hreturn : s.queue s.headIdx = 13)
    (hcount : (count s : Int) < s.bufferSize) : ∃ h' k', Inv (kbdbufFlushAlarmTriggered s) kept h' k' := by
  rw [hinv.pending] at hpending
  obtain ⟨j, rfl⟩ : ∃ j, k = j + 1 := ⟨k - 1, by omega⟩
  have hunset : Inv { s with kbdbufFlushAlarmTime := 0 } kept h (j + 1) :=
    ⟨hinv.head, hinv.inside, hinv.pending, hinv.room, hinv.size, hinv.cmdline, hinv.counts, hinv.kept⟩
  exact ⟨_, j, inject_inv hunset hreturn hcount⟩

theorem abort_inv (hinv : Inv s kept h k) : Inv (abort s) (kept.take s.injected.length) h 0 := by
  have hlength : (s.injected.map Injection.c).length = s.injected.length := List.length_map _
  unfold abort
  rw [if_pos hinv.cmdline]
  refine ⟨hinv.head, hinv.inside, rfl, by omega, hinv.size, hinv.cmdline, hinv.counts, ?_⟩
  rw [hinv.kept, ← hlength, List.take_left]
  exact (List.append_nil _).symm

/-! ## Runs that meet it -/

variable {r : Run} {op : Op} {ops : List Op}

theorem step_inv (hinv : Inv r.state r.kept h k) (hmeets : Meets r.state op) :
    ∃ h' k', Inv (step r op).state (step r op).kept h' k' := by
  cases op with
  | feed runcmd time bytes =>
    refine feed_inv hinv runcmd time ?_
    have hshort : r.state.numPending + (cString bytes).length < 2 ^ 31 := hmeets
    rw [hinv.pending] at hshort
    omega
  | flush time => exact flush_inv hinv time
  | alarm =>
    rw [step]
    split_ifs with hnone
    · exact ⟨h, k, hinv⟩
    · obtain ⟨hpending, hreturn, hcount⟩ := hmeets hnone
      exact dispatch_inv hinv hpending hreturn hcount
  | abort => exact ⟨h, 0, abort_inv hinv⟩
  | reset location plocation size mincycles =>
    exact ⟨h, k, hinv.head, hinv.inside, hinv.pending, hinv.room, hmeets, hinv.cmdline, hinv.counts, hinv.kept⟩
  | machine memory =>
    exact ⟨h, k, hinv.head, hinv.inside, hinv.pending, hinv.room, hinv.size, hinv.cmdline, hinv.counts, hinv.kept⟩

theorem start_inv (memory : UInt16 → UInt8) : Inv (start memory).state (start memory).kept 0 0 :=
  ⟨rfl, by omega, rfl, by omega, ⟨Int.le_refl 0, show (0 : Int) ≤ 255 by decide⟩, rfl, fun _ h => absurd h List.not_mem_nil, rfl⟩

theorem run_inv (hinv : Inv r.state r.kept h k) (hmeets : AllMeet r ops) :
    ∃ h' k', Inv (ops.foldl step r).state (ops.foldl step r).kept h' k' := by
  induction ops generalizing r h k with
  | nil => exact ⟨h, k, hinv⟩
  | cons op ops ih =>
    obtain ⟨_, _, hnext⟩ := step_inv hinv hmeets.1
    exact ih hnext hmeets.2

end

/-- In a run whose steps all meet it, what is injected is what was fed. -/
theorem run_faithful (memory : UInt16 → UInt8) (ops : List Op) (hmeets : AllMeet (start memory) ops) :
    Faithful (run memory ops) := by
  obtain ⟨_, _, hinv⟩ := run_inv (start_inv memory) hmeets
  exact hinv.faithful

/-- A machine with a buffer for ten keys, and a command that ends with RETURN. -/
def command : List Op :=
  [.reset 631 198 10 1, .feed true ⟨2, 100, 3⟩ [0x52, 0x0d], .flush ⟨3, 100, 3⟩, .alarm]

theorem command_faithful : Faithful (run (fun _ => 0) command) :=
  run_faithful (fun _ => 0) command (by
    refine ⟨show (0 : Int) ≤ 10 ∧ (10 : Int) ≤ 255 by decide, show (0 : Int) + 2 < 2 ^ 31 by decide, trivial, ?_, trivial⟩
    intro _
    decide)

/-- The RETURN that waits is aborted, and comes all the same. -/
theorem aborted_comes : ¬ Faithful (run (fun _ => 0) [.reset 631 198 10 1, .feed true ⟨2, 100, 3⟩ [0x0d], .abort, .alarm]) := by
  intro h
  exact absurd h.bounds.1 (by decide)

end Vice.L4.KeyboardQueue
