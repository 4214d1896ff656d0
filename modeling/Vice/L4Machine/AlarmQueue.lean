import Mathlib.Algebra.Group.Nat.Defs
import Mathlib.Order.Fin.Basic
import Mathlib.Data.List.Perm.Basic
import Mathlib.Data.List.Perm.Lattice
import Mathlib.Data.List.Perm.Subperm
import Vice.L0Core.MinScan

/-!
# The alarm queue

Every chip sets alarms on the context of its CPU. The pending ones stand in an array in no
order; an alarm knows its index there, and the context caches the smallest clock and the
index of one entry that has it. Removing an entry moves the last one into the hole.

Results:
* `alarmSet_queued`, `alarmUnset_queued`, `alarmDestroy_queued`: what each call keeps.
* `alarmQueue_ok`: what holds after every step of a run.
-/
namespace Vice.L4.AlarmQueue
open Vice.L0.MinScan

abbrev Clock := Fin (2 ^ 64)

/-- `CLOCK_MAX` -/
def clockMax : Clock := Fin.last _

/-- `ALARM_CONTEXT_MAX_PENDING_ALARMS` -/
def maxPendingAlarms : Nat := 0x100

/-- mirrors src/alarm.h:62-68 (`pending_alarms_s`) -/
structure PendingAlarm (α : Type) where
  alarm : α
  clk : Clock

/-- mirrors src/alarm.h:71-91 (`alarm_context_s`), with the field `pending_idx` of its alarms.
The list is the one linked through the alarms. -/
structure AlarmContext (α : Type) where
  alarms : List α
  pendingAlarms : Nat → PendingAlarm α
  numPendingAlarms : Nat
  nextPendingAlarmClk : Clock
  nextPendingAlarmIdx : Int
  pendingIdx : α → Int

section
variable {α : Type}

/-- mirrors src/alarm.c:49-57 (`alarm_context_init`). It sets neither the array nor the index of
the next alarm. -/
def alarmContextInit (pendingAlarms : Nat → PendingAlarm α) (nextPendingAlarmIdx : Int)
    (pendingIdx : α → Int) : AlarmContext α :=
  { alarms := [], pendingAlarms, numPendingAlarms := 0, nextPendingAlarmClk := clockMax,
    nextPendingAlarmIdx, pendingIdx }

/-- mirrors src/alarm.h:110-131 (`alarm_context_update_next_pending`) -/
def alarmContextUpdateNextPending (c : AlarmContext α) : AlarmContext α :=
  let p := minScan (fun i => (c.pendingAlarms i).clk) (clockMax, c.nextPendingAlarmIdx)
    c.numPendingAlarms
  { c with nextPendingAlarmClk := p.1, nextPendingAlarmIdx := p.2 }

/-- mirrors src/alarm.h:133-145 (`alarm_context_dispatch`): the alarm whose callback is called,
and the offset it gets. -/
def alarmContextDispatch (c : AlarmContext α) (cpuClk : Clock) : α × Clock :=
  ((c.pendingAlarms c.nextPendingAlarmIdx.toNat).alarm, cpuClk - c.nextPendingAlarmClk)

variable [DecidableEq α]

/-- mirrors src/alarm.c:100-120 (`alarm_init`) -/
def alarmInit (c : AlarmContext α) (a : α) : AlarmContext α :=
  { c with alarms := a :: c.alarms, pendingIdx := Function.update c.pendingIdx a (-1) }

/-- mirrors src/alarm.h:147-185 (`alarm_set`) -/
def alarmSet (c : AlarmContext α) (a : α) (cpuClk : Clock) : AlarmContext α :=
  let idx := c.pendingIdx a
  if idx < 0 then
    let newIdx := c.numPendingAlarms
    if newIdx ≥ maxPendingAlarms then c
    else
      let next := if cpuClk < c.nextPendingAlarmClk then (cpuClk, (newIdx : Int))
        else (c.nextPendingAlarmClk, c.nextPendingAlarmIdx)
      { c with
        pendingAlarms := Function.update c.pendingAlarms newIdx ⟨a, cpuClk⟩
        numPendingAlarms := newIdx + 1
        nextPendingAlarmClk := next.1
        nextPendingAlarmIdx := next.2
        pendingIdx := Function.update c.pendingIdx a newIdx }
  else
    let d := { c with
      pendingAlarms := Function.update c.pendingAlarms idx.toNat
        { c.pendingAlarms idx.toNat with clk := cpuClk } }
    if c.nextPendingAlarmClk > cpuClk ∨ idx = c.nextPendingAlarmIdx then
      alarmContextUpdateNextPending d
    else d

/-- The entry at `idx` goes, and the last one takes its place. -/
def dropEntry (c : AlarmContext α) (idx : Nat) : AlarmContext α :=
  let last := c.numPendingAlarms - 1
  if last ≠ idx then
    { c with
      numPendingAlarms := last
      pendingAlarms := Function.update c.pendingAlarms idx (c.pendingAlarms last)
      pendingIdx := Function.update c.pendingIdx (c.pendingAlarms last).alarm idx }
  else { c with numPendingAlarms := last }

/-- mirrors src/alarm.c:161-202 (`alarm_unset`) -/
def alarmUnset (c : AlarmContext α) (a : α) : AlarmContext α :=
  let idx := c.pendingIdx a
  if idx < 0 then c
  else
    let d :=
      if c.numPendingAlarms > 1 then
        let e := dropEntry c idx.toNat
        if e.nextPendingAlarmIdx = idx then alarmContextUpdateNextPending e
        else if e.nextPendingAlarmIdx = (c.numPendingAlarms - 1 : Nat) then
          { e with nextPendingAlarmIdx := idx }
        else e
      else
        { c with numPendingAlarms := 0, nextPendingAlarmClk := clockMax, nextPendingAlarmIdx := -1 }
    { d with pendingIdx := Function.update d.pendingIdx a (-1) }

/-- mirrors src/alarm.c:135-159 (`alarm_destroy`) -/
def alarmDestroy (c : AlarmContext α) : Option α → AlarmContext α
  | none => c
  | some a =>
    let d := alarmUnset c a
    { d with alarms := d.alarms.erase a }

end

/-! ## The invariant -/

section
variable {α : Type} {c : AlarmContext α} {a b : α} {clk : Clock} {i j : Nat}

/-- An alarm's index is the one of its entry, and there are no other entries. -/
structure Indexed (c : AlarmContext α) : Prop where
  nodup : c.alarms.Nodup
  room : c.numPendingAlarms ≤ maxPendingAlarms
  live : ∀ i < c.numPendingAlarms, (c.pendingAlarms i).alarm ∈ c.alarms
  index : ∀ i < c.numPendingAlarms, c.pendingIdx (c.pendingAlarms i).alarm = i
  entry : ∀ a ∈ c.alarms, 0 ≤ c.pendingIdx a →
    (c.pendingIdx a).toNat < c.numPendingAlarms ∧ (c.pendingAlarms (c.pendingIdx a).toNat).alarm = a

/-- The cached clock is the smallest, and the cached index is an entry that has it. With no entry
below `CLOCK_MAX` the index says nothing. -/
structure Cached (c : AlarmContext α) : Prop where
  least : ∀ i < c.numPendingAlarms, c.nextPendingAlarmClk ≤ (c.pendingAlarms i).clk
  attained : c.nextPendingAlarmClk < clockMax → ∃ i < c.numPendingAlarms,
    c.nextPendingAlarmIdx = i ∧ (c.pendingAlarms i).clk = c.nextPendingAlarmClk

structure Queued (c : AlarmContext α) : Prop where
  indexed : Indexed c
  cached : Cached c

theorem Indexed.inj (h : Indexed c) (hi : i < c.numPendingAlarms) (hj : j < c.numPendingAlarms)
    (he : (c.pendingAlarms i).alarm = (c.pendingAlarms j).alarm) : i = j := by
  have h1 := h.index i hi
  rw [he, h.index j hj] at h1
  omega

theorem Indexed.spare (h : Indexed c) (hp : c.pendingIdx a < 0) (hi : i < c.numPendingAlarms) :
    (c.pendingAlarms i).alarm ≠ a := by
  rintro rfl
  rw [h.index i hi] at hp
  omega

theorem updateNextPending_indexed (h : Indexed c) : Indexed (alarmContextUpdateNextPending c) :=
  ⟨h.nodup, h.room, h.live, h.index, h.entry⟩

theorem updateNextPending_cached (c : AlarmContext α) : Cached (alarmContextUpdateNextPending c) := by
  refine ⟨fun i hi => @minScan_le _ _ (fun i => (c.pendingAlarms i).clk) _ i _ hi, fun hlt => ?_⟩
  obtain ⟨i, hi, he⟩ := minScan_mem hlt
  refine ⟨i, hi, ?_, ?_⟩ <;> simp only [alarmContextUpdateNextPending, he]

theorem alarmContextInit_queued (pendingAlarms : Nat → PendingAlarm α) (idx : Int)
    (pendingIdx : α → Int) : Queued (alarmContextInit pendingAlarms idx pendingIdx) where
  indexed := ⟨List.nodup_nil, Nat.zero_le _, nofun, nofun, nofun⟩
  cached := ⟨nofun, fun hlt => absurd hlt (lt_irrefl _)⟩

/-! ## What the invariant says -/

/-- The entries are, in some order, the alarms with an index. -/
theorem Indexed.count (h : Indexed c) :
    c.numPendingAlarms = (c.alarms.filter fun a => 0 ≤ c.pendingIdx a).length := by
  have hperm : ((List.range c.numPendingAlarms).map fun i => (c.pendingAlarms i).alarm).Perm
      (c.alarms.filter fun a => 0 ≤ c.pendingIdx a) := by
    refine (List.perm_ext_iff_of_nodup ?_ (h.nodup.filter _)).mpr fun a => ?_
    · refine List.Nodup.map_on (fun i hi j hj he => ?_) List.nodup_range
      exact h.inj (List.mem_range.mp hi) (List.mem_range.mp hj) he
    · simp only [List.mem_map, List.mem_range, List.mem_filter, decide_eq_true_eq]
      constructor
      · rintro ⟨i, hi, rfl⟩
        exact ⟨h.live i hi, by rw [h.index i hi]; omega⟩
      · rintro ⟨ha, hp⟩
        exact ⟨_, h.entry a ha hp⟩
  rw [← hperm.length_eq, List.length_map, List.length_range]

/-- What the queue promises its callers. -/
structure QueueOk (c : AlarmContext α) : Prop where
  /-- An alarm without an index is not in the array; one with an index stands there and nowhere
  else. -/
  once : ∀ a ∈ c.alarms,
    (c.pendingIdx a < 0 ∧ ∀ i < c.numPendingAlarms, (c.pendingAlarms i).alarm ≠ a) ∨
    ∃ i < c.numPendingAlarms, c.pendingIdx a = i ∧
      ∀ j < c.numPendingAlarms, (c.pendingAlarms j).alarm = a ↔ j = i
  alarms : ∀ i < c.numPendingAlarms, (c.pendingAlarms i).alarm ∈ c.alarms
  count : c.numPendingAlarms = (c.alarms.filter fun a => 0 ≤ c.pendingIdx a).length
  least : ∀ i < c.numPendingAlarms, c.nextPendingAlarmClk ≤ (c.pendingAlarms i).clk
  attained : 0 < c.numPendingAlarms →
    ∃ i < c.numPendingAlarms, (c.pendingAlarms i).clk = c.nextPendingAlarmClk
  none_pending : c.numPendingAlarms = 0 → c.nextPendingAlarmClk = clockMax
  dispatch : c.nextPendingAlarmClk < clockMax → ∃ i < c.numPendingAlarms,
    c.nextPendingAlarmIdx = i ∧ (c.pendingAlarms i).clk = c.nextPendingAlarmClk ∧
    (∀ j < c.numPendingAlarms, (c.pendingAlarms i).clk ≤ (c.pendingAlarms j).clk) ∧
    ∀ cpuClk, alarmContextDispatch c cpuClk =
      ((c.pendingAlarms i).alarm, cpuClk - (c.pendingAlarms i).clk)

theorem Queued.queueOk (h : Queued c) : QueueOk c := by
  obtain ⟨hi, hc⟩ := h
  refine ⟨fun a ha => ?_, hi.live, hi.count, hc.least, fun hpos => ?_, fun hzero => ?_,
    fun hlt => ?_⟩
  · by_cases hp : c.pendingIdx a < 0
    · exact .inl ⟨hp, fun i hlt => hi.spare hp hlt⟩
    · obtain ⟨hlt, he⟩ := hi.entry a ha (by omega)
      refine .inr ⟨_, hlt, by omega, fun j hj => ⟨fun hja => ?_, fun hja => hja ▸ he⟩⟩
      exact hi.inj hj hlt (hja.trans he.symm)
  · by_cases hmax : c.nextPendingAlarmClk < clockMax
    · obtain ⟨i, hlt, -, hclk⟩ := hc.attained hmax
      exact ⟨i, hlt, hclk⟩
    · exact ⟨0, hpos, le_antisymm (le_trans (Fin.le_last _) (not_lt.mp hmax)) (hc.least 0 hpos)⟩
  · by_contra hne
    obtain ⟨i, hlt, -⟩ := hc.attained (lt_of_le_of_ne (Fin.le_last _) hne)
    omega
  · obtain ⟨i, hi', hidx, hclk⟩ := hc.attained hlt
    refine ⟨i, hi', hidx, hclk, fun j hj => hclk ▸ hc.least j hj, fun cpuClk => ?_⟩
    rw [alarmContextDispatch, hidx, Int.toNat_natCast, hclk]

/-! ## Setting -/

/-- A clock that is not below the cached one leaves the cache as it is. -/
theorem add_cached (h : Cached c) (p : α → Int) :
    let next := if clk < c.nextPendingAlarmClk then (clk, (c.numPendingAlarms : Int))
      else (c.nextPendingAlarmClk, c.nextPendingAlarmIdx)
    Cached { c with
      pendingAlarms := Function.update c.pendingAlarms c.numPendingAlarms ⟨a, clk⟩
      numPendingAlarms := c.numPendingAlarms + 1
      nextPendingAlarmClk := next.1
      nextPendingAlarmIdx := next.2
      pendingIdx := p } := by
  intro next
  have hold : ∀ {i}, i < c.numPendingAlarms →
      Function.update c.pendingAlarms c.numPendingAlarms ⟨a, clk⟩ i = c.pendingAlarms i :=
    fun hi => Function.update_of_ne (by omega) _ _
  have hnew : Function.update c.pendingAlarms c.numPendingAlarms ⟨a, clk⟩ c.numPendingAlarms =
      ⟨a, clk⟩ := Function.update_self _ _ _
  by_cases hlt : clk < c.nextPendingAlarmClk
  · have hnext : next = (clk, (c.numPendingAlarms : Int)) := if_pos hlt
    rw [hnext]
    refine ⟨fun i hi => ?_, fun _ => ⟨_, Nat.lt_succ_self _, rfl, ?_⟩⟩ <;> dsimp only at *
    · rcases Nat.lt_succ_iff_lt_or_eq.mp hi with hi | rfl
      · rw [hold hi]
        exact le_trans (le_of_lt hlt) (h.least i hi)
      · rw [hnew]
    · rw [hnew]
  · have hnext : next = (c.nextPendingAlarmClk, c.nextPendingAlarmIdx) := if_neg hlt
    rw [hnext]
    refine ⟨fun i hi => ?_, fun hmax => ?_⟩ <;> dsimp only at *
    · rcases Nat.lt_succ_iff_lt_or_eq.mp hi with hi | rfl
      · rw [hold hi]
        exact h.least i hi
      · rw [hnew]
        exact le_of_not_gt hlt
    · obtain ⟨i, hi, hidx, hclk⟩ := h.attained hmax
      exact ⟨i, Nat.lt_succ_of_lt hi, hidx, by rw [hold hi, hclk]⟩

/-- The alarm keeps its entry. -/
theorem modify_indexed (h : Indexed c) (j : Nat) : Indexed { c with
      pendingAlarms := Function.update c.pendingAlarms j { c.pendingAlarms j with clk := clk } } := by
  have hsame : ∀ i, (Function.update c.pendingAlarms j { c.pendingAlarms j with clk := clk } i).alarm =
      (c.pendingAlarms i).alarm := by
    intro i
    by_cases hij : i = j
    · rw [hij, Function.update_self]
    · rw [Function.update_of_ne hij]
  refine ⟨h.nodup, h.room, fun i hi => ?_, fun i hi => ?_, fun b hb hp => ?_⟩ <;>
    dsimp only at * <;> rw [hsame]
  · exact h.live i hi
  · exact h.index i hi
  · exact h.entry b hb hp

theorem modify_cached (h : Cached c) (hle : c.nextPendingAlarmClk ≤ clk)
    (hne : (j : Int) ≠ c.nextPendingAlarmIdx) :
    Cached { c with
      pendingAlarms := Function.update c.pendingAlarms j { c.pendingAlarms j with clk := clk } } := by
  refine ⟨fun i hi => ?_, fun hmax => ?_⟩ <;> dsimp only at *
  · by_cases hij : i = j
    · rw [hij, Function.update_self]
      exact hle
    · rw [Function.update_of_ne hij]
      exact h.least i hi
  · obtain ⟨i, hi, hidx, hclk⟩ := h.attained hmax
    exact ⟨i, hi, hidx, by rw [Function.update_of_ne (by omega), hclk]⟩

variable [DecidableEq α]

theorem alarmInit_queued (h : Queued c) (ha : a ∉ c.alarms) : Queued (alarmInit c a) where
  cached := ⟨h.cached.least, h.cached.attained⟩
  indexed := by
    obtain ⟨hnodup, hroom, hlive, hindex, hentry⟩ := h.indexed
    have hne : ∀ {b}, b ∈ c.alarms → b ≠ a := fun hb he => ha (he ▸ hb)
    refine ⟨List.nodup_cons.mpr ⟨ha, hnodup⟩, hroom, fun i hi => ?_, fun i hi => ?_,
      fun b hb hp => ?_⟩
    · exact List.mem_cons_of_mem a (hlive i hi)
    · show Function.update c.pendingIdx a (-1) (c.pendingAlarms i).alarm = _
      rw [Function.update_of_ne (hne (hlive i hi))]
      exact hindex i hi
    · simp only [alarmInit] at hp ⊢
      rcases List.mem_cons.mp hb with rfl | hb
      · simp at hp
      · rw [Function.update_of_ne (hne hb)] at hp ⊢
        exact hentry b hb hp

theorem add_indexed (h : Indexed c) (ha : a ∈ c.alarms) (hp : c.pendingIdx a < 0)
    (hroom : c.numPendingAlarms < maxPendingAlarms) (next : Clock × Int) :
    Indexed { c with
      pendingAlarms := Function.update c.pendingAlarms c.numPendingAlarms ⟨a, clk⟩
      numPendingAlarms := c.numPendingAlarms + 1
      nextPendingAlarmClk := next.1
      nextPendingAlarmIdx := next.2
      pendingIdx := Function.update c.pendingIdx a c.numPendingAlarms } := by
  refine ⟨h.nodup, hroom, fun i hi => ?_, fun i hi => ?_, fun b hb hpb => ?_⟩ <;> dsimp only at *
  · rcases Nat.lt_succ_iff_lt_or_eq.mp hi with hlt | rfl
    · rw [Function.update_of_ne (by omega)]
      exact h.live i hlt
    · rw [Function.update_self]
      exact ha
  · rcases Nat.lt_succ_iff_lt_or_eq.mp hi with hlt | rfl
    · rw [Function.update_of_ne (show i ≠ c.numPendingAlarms by omega),
        Function.update_of_ne (h.spare hp hlt)]
      exact h.index i hlt
    · rw [Function.update_self, Function.update_self]
  · by_cases hba : b = a
    · subst hba
      rw [Function.update_self, Int.toNat_natCast, Function.update_self]
      exact ⟨Nat.lt_succ_self _, rfl⟩
    · rw [Function.update_of_ne hba] at hpb ⊢
      obtain ⟨hlt, he⟩ := h.entry b hb hpb
      rw [Function.update_of_ne (by omega)]
      exact ⟨Nat.lt_succ_of_lt hlt, he⟩

theorem alarmSet_queued (h : Queued c) (ha : a ∈ c.alarms) : Queued (alarmSet c a clk) := by
  unfold alarmSet
  by_cases hp : c.pendingIdx a < 0
  · by_cases hfull : c.numPendingAlarms ≥ maxPendingAlarms
    · simpa only [hp, hfull, ↓reduceIte] using h
    · simp only [hp, hfull, ↓reduceIte]
      exact ⟨add_indexed h.indexed ha hp (by omega) _, add_cached h.cached _⟩
  · have hj : ((c.pendingIdx a).toNat : Int) = c.pendingIdx a := by omega
    simp only [hp, ↓reduceIte]
    by_cases hscan : c.nextPendingAlarmClk > clk ∨ c.pendingIdx a = c.nextPendingAlarmIdx
    · simp only [hscan, ↓reduceIte]
      exact ⟨updateNextPending_indexed (modify_indexed h.indexed _), updateNextPending_cached _⟩
    · simp only [hscan, ↓reduceIte]
      push Not at hscan
      exact ⟨modify_indexed h.indexed _, modify_cached h.cached hscan.1 (hj ▸ hscan.2)⟩

/-! ## Unsetting -/

theorem dropEntry_fields (c : AlarmContext α) (k : Nat) :
    (dropEntry c k).numPendingAlarms = c.numPendingAlarms - 1 ∧
      (dropEntry c k).alarms = c.alarms ∧
      (dropEntry c k).nextPendingAlarmClk = c.nextPendingAlarmClk ∧
      (dropEntry c k).nextPendingAlarmIdx = c.nextPendingAlarmIdx := by
  unfold dropEntry
  dsimp only
  split <;> exact ⟨rfl, rfl, rfl, rfl⟩

/-- What stands in the array afterwards. -/
theorem dropEntry_entry (c : AlarmContext α) (k i : Nat) : (dropEntry c k).pendingAlarms i =
      if i = k then c.pendingAlarms (c.numPendingAlarms - 1) else c.pendingAlarms i := by
  unfold dropEntry
  dsimp only
  split
  · exact Function.update_apply _ _ _ _
  · next h =>
    rw [not_ne_iff.mp h]
    split
    · next hi => rw [hi]
    · rfl

theorem dropEntry_index (c : AlarmContext α) (k : Nat) (b : α) : (dropEntry c k).pendingIdx b =
      if c.numPendingAlarms - 1 ≠ k ∧ b = (c.pendingAlarms (c.numPendingAlarms - 1)).alarm then
        (k : Int) else c.pendingIdx b := by
  unfold dropEntry
  dsimp only
  split
  · next h => simp only [Function.update_apply, ne_eq, h, not_false_eq_true, true_and]
  · next h => rw [if_neg fun hb => h hb.1]

/-- `pending_idx` of the alarm that goes is set last. -/
def forget (c : AlarmContext α) (a : α) : AlarmContext α :=
  { c with pendingIdx := Function.update c.pendingIdx a (-1) }

theorem drop_indexed (h : Indexed c) (hj : j < c.numPendingAlarms)
    (ha : (c.pendingAlarms j).alarm = a) : Indexed (forget (dropEntry c j) a) := by
  obtain ⟨hnum, halarms, -, -⟩ := dropEntry_fields c j
  have hlast : c.numPendingAlarms - 1 < c.numPendingAlarms := by omega
  have hentry := dropEntry_entry c j
  have hindex := dropEntry_index c j
  constructor <;> simp only [forget, hnum, halarms]
  · exact h.nodup
  · have := h.room
    omega
  · intro i hi
    rw [hentry]
    split
    · exact h.live _ hlast
    · exact h.live i (by omega)
  · intro i hi
    -- the moved entry and every other one; neither is the alarm that goes
    rw [hentry]
    split
    · next hij =>
      have hne : (c.pendingAlarms (c.numPendingAlarms - 1)).alarm ≠ a := fun he => by
        have := h.inj hlast hj (he.trans ha.symm)
        omega
      rw [Function.update_of_ne hne, hindex, if_pos ⟨by omega, rfl⟩, hij]
    · next hij =>
      have hne : (c.pendingAlarms i).alarm ≠ a := fun he =>
        hij (h.inj (by omega) hj (he.trans ha.symm))
      have hmoved : (c.pendingAlarms i).alarm ≠
          (c.pendingAlarms (c.numPendingAlarms - 1)).alarm := fun he => by
        have := h.inj (by omega) hlast he
        omega
      rw [Function.update_of_ne hne, hindex, if_neg fun hb => hmoved hb.2, h.index i (by omega)]
  · intro b hb hp
    by_cases hba : b = a
    · subst hba
      simp at hp
    rw [Function.update_of_ne hba, hindex] at hp ⊢
    split
    · next hmoved =>
      rw [Int.toNat_natCast, hentry, if_pos rfl]
      exact ⟨by omega, hmoved.2.symm⟩
    · next hmoved =>
      rw [if_neg hmoved] at hp
      obtain ⟨hlt, he⟩ := h.entry b hb hp
      have hbj : (c.pendingIdx b).toNat ≠ j := fun hk => hba (by rw [← he, hk, ha])
      have hbl : (c.pendingIdx b).toNat ≠ c.numPendingAlarms - 1 := fun hk =>
        hmoved ⟨fun hl => hbj (hk.trans hl), by rw [← hk, he]⟩
      rw [hentry, if_neg hbj]
      exact ⟨by omega, he⟩

/-- Moving the entry the cache points at moves the cached index with it. -/
theorem drop_cached (h : Cached c) (hj : j < c.numPendingAlarms) (hne : c.nextPendingAlarmIdx ≠ j) :
    Cached (if (dropEntry c j).nextPendingAlarmIdx = (c.numPendingAlarms - 1 : Nat) then
      { dropEntry c j with nextPendingAlarmIdx := j } else dropEntry c j) := by
  obtain ⟨hnum, -, hclk, hidx⟩ := dropEntry_fields c j
  have hentry := dropEntry_entry c j
  have hleast : ∀ i < c.numPendingAlarms - 1,
      c.nextPendingAlarmClk ≤ ((dropEntry c j).pendingAlarms i).clk := by
    intro i hi
    rw [hentry]
    split
    · exact h.least _ (by omega)
    · exact h.least i (by omega)
  split
  · next hlast =>
    rw [hidx] at hlast
    constructor <;> simp only [hnum, hclk]
    · exact hleast
    · intro hmax
      obtain ⟨i, hi, hi', hc⟩ := h.attained hmax
      have hil : i = c.numPendingAlarms - 1 := by omega
      exact ⟨j, by omega, rfl, by rw [hentry, if_pos rfl, ← hil, hc]⟩
  · next hlast =>
    rw [hidx] at hlast
    constructor <;> simp only [hnum, hclk, hidx]
    · exact hleast
    · intro hmax
      obtain ⟨i, hi, hi', hc⟩ := h.attained hmax
      have hij : i ≠ j := fun he => hne (by rw [hi', he])
      exact ⟨i, by omega, hi', by rw [hentry, if_neg hij, hc]⟩

theorem alarmUnset_queued (h : Queued c) (ha : a ∈ c.alarms) : Queued (alarmUnset c a) := by
  unfold alarmUnset
  by_cases hp : c.pendingIdx a < 0
  · simpa only [hp, ↓reduceIte] using h
  obtain ⟨hlt, he⟩ := h.indexed.entry a ha (by omega)
  have hj : c.pendingIdx a = ((c.pendingIdx a).toNat : Nat) := by omega
  generalize (c.pendingIdx a).toNat = j at hlt he hj
  have hdrop := drop_indexed h.indexed hlt he
  simp only [hj, Int.toNat_natCast, show ¬ (j : Int) < 0 by omega, ↓reduceIte]
  by_cases hone : c.numPendingAlarms > 1
  · simp only [hone, ↓reduceIte]
    split
    · next hidx =>
      have hc := updateNextPending_cached (dropEntry c j)
      exact ⟨⟨hdrop.nodup, hdrop.room, hdrop.live, hdrop.index, hdrop.entry⟩,
        ⟨hc.least, hc.attained⟩⟩
    · next hidx =>
      rw [(dropEntry_fields c j).2.2.2] at hidx
      have hc := drop_cached h.cached hlt hidx
      refine ⟨?_, ⟨hc.least, hc.attained⟩⟩
      split <;> exact ⟨hdrop.nodup, hdrop.room, hdrop.live, hdrop.index, hdrop.entry⟩
  · simp only [hone, ↓reduceIte]
    have hzero : j = 0 := by omega
    have hnum : c.numPendingAlarms - 1 = j := by omega
    have heq : dropEntry c j = { c with numPendingAlarms := 0 } := by
      simp only [dropEntry, hnum, ne_eq, not_true_eq_false, ↓reduceIte, hzero]
    rw [heq] at hdrop
    exact ⟨⟨hdrop.nodup, hdrop.room, hdrop.live, hdrop.index, hdrop.entry⟩,
      ⟨nofun, fun hmax => absurd hmax (lt_irrefl _)⟩⟩

theorem alarmUnset_index (c : AlarmContext α) (a : α) : (alarmUnset c a).pendingIdx a < 0 := by
  by_cases hp : c.pendingIdx a < 0
  · simp only [alarmUnset, hp, ↓reduceIte]
  · simp only [alarmUnset, hp, ↓reduceIte, Function.update_self]
    decide

theorem alarmDestroy_queued (h : Queued c) (ha : a ∈ c.alarms) : Queued (alarmDestroy c (some a)) := by
  have hu := alarmUnset_queued h ha
  have hidle : ∀ i < (alarmUnset c a).numPendingAlarms,
      ((alarmUnset c a).pendingAlarms i).alarm ≠ a :=
    fun i hi => hu.indexed.spare (alarmUnset_index c a) hi
  refine ⟨⟨hu.indexed.nodup.erase a, hu.indexed.room, fun i hi => ?_, hu.indexed.index,
    fun b hb => ?_⟩, ⟨hu.cached.least, hu.cached.attained⟩⟩
  · exact (List.mem_erase_of_ne (hidle i hi)).mpr (hu.indexed.live i hi)
  · exact hu.indexed.entry b (List.mem_of_mem_erase hb)

/-! ## Runs -/

inductive AlarmOp (α : Type)
  | new (a : α)
  | set (a : α) (cpuClk : Clock)
  | unset (a : α)
  | destroy (a : Option α)

def call (c : AlarmContext α) : AlarmOp α → AlarmContext α
  | .new a => alarmInit c a
  | .set a cpuClk => alarmSet c a cpuClk
  | .unset a => alarmUnset c a
  | .destroy a => alarmDestroy c a

/-- A new alarm has memory of its own, and the other calls are for alarms not yet destroyed. -/
def Meets (c : AlarmContext α) : AlarmOp α → Prop
  | .new a => a ∉ c.alarms
  | .set a _ | .unset a | .destroy (some a) => a ∈ c.alarms
  | .destroy none => True

instance (c : AlarmContext α) (op : AlarmOp α) : Decidable (Meets c op) :=
  match op with
  | .new a => inferInstanceAs (Decidable (a ∉ c.alarms))
  | .set a _ | .unset a | .destroy (some a) => inferInstanceAs (Decidable (a ∈ c.alarms))
  | .destroy none => inferInstanceAs (Decidable True)

/-- The contexts that the calls lead to. -/
inductive Reaches : AlarmContext α → Prop
  | init (pendingAlarms : Nat → PendingAlarm α) (idx : Int) (pendingIdx : α → Int) :
      Reaches (alarmContextInit pendingAlarms idx pendingIdx)
  | step (op : AlarmOp α) {c : AlarmContext α} : Reaches c → Meets c op → Reaches (call c op)

theorem call_queued {op : AlarmOp α} (h : Queued c) (hm : Meets c op) : Queued (call c op) := by
  match op with
  | .new _ => exact alarmInit_queued h hm
  | .set _ _ => exact alarmSet_queued h hm
  | .unset _ => exact alarmUnset_queued h hm
  | .destroy none => exact h
  | .destroy (some _) => exact alarmDestroy_queued h hm

theorem reaches_queued (hr : Reaches c) : Queued c := by
  induction hr with
  | init pendingAlarms idx pendingIdx => exact alarmContextInit_queued pendingAlarms idx pendingIdx
  | step op _ hm ih => exact call_queued ih hm

/-- Whatever was set, unset and destroyed before: the array, the indices and the cache agree, and
the next alarm called is one with the smallest clock. -/
theorem alarmQueue_ok (hr : Reaches c) : QueueOk c := (reaches_queued hr).queueOk

end

/-- Two alarms at one clock, of which the one set first goes. -/
def tied : AlarmContext Bool :=
  ([.new false, .new true, .set false 7, .set true 7, .unset false] : List (AlarmOp Bool)).foldl call
    (alarmContextInit (fun _ => ⟨false, 0⟩) 3 fun _ => 0)

theorem alarmQueue_ok_tied :
    QueueOk tied ∧ tied.nextPendingAlarmClk = 7 ∧ alarmContextDispatch tied 9 = (true, 2) := by
  refine ⟨alarmQueue_ok ?_, by decide, by decide⟩
  refine .step (.unset false) (.step (.set true 7) (.step (.set false 7) (.step (.new true)
    (.step (.new false) (.init _ _ _) ?_) ?_) ?_) ?_) ?_ <;> decide

end Vice.L4.AlarmQueue
