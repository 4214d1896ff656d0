import Mathlib.Data.List.TakeWhile
import Mathlib.Order.Basic

/-!
# Pulse streams

A track of a .p64 image is a list of flux pulses in the order the head meets them, with the index
of the one that comes next. The links of the source's list are the order of `pulses`; -1, its null
link, is any index without a pulse.

`insertPulse` and `removePulse` take the pulse list of the library at its word: they insert and
remove the pulse named and keep the list sorted.

Results:
* `past_resync`, `resync_past`: the search at the start of a call finds it from wherever the index
  was, and leaves an index alone that is there.
* `past_next`, `past_removePulse`, `past_strengthen`, `past_insertPulse`: every way of handling a
  pulse under the head moves on to it.
-/
namespace Vice.L3.P64Pulses

/-- mirrors src/lib/p64/p64.h:56 -/
def samplesPerRotation : Nat := 3200000

/-- mirrors src/lib/p64/p64.h:101-106 -/
structure Pulse where
  position : Nat
  strength : UInt32
  deriving DecidableEq

/-- mirrors src/lib/p64/p64.h:112-120 -/
structure PulseStream where
  pulses : List Pulse
  currentIndex : Nat
  sorted : pulses.Pairwise fun p q => p.position < q.position
  bounded : ∀ p ∈ pulses, p.position < samplesPerRotation
  deriving DecidableEq

variable {s : PulseStream} {head i j : Nat} {p : Pulse}

/-! ## Operations -/

namespace PulseStream

/-- The pulse at `CurrentIndex`, none for -1. -/
def current (s : PulseStream) : Option Pulse := s.pulses[s.currentIndex]?

/-- `while` the pulses go by, take the next. -/
def walkOn (s : PulseStream) (goesBy : Pulse → Bool) (i : Nat) : Nat :=
  i + ((s.pulses.drop i).takeWhile goesBy).length

/-- Back to the first pulse of those behind the head: mirrors src/drive/rotation.c:653-658 -/
def walkBack (s : PulseStream) (head : Nat) : Nat → Nat
  | 0 => 0
  | i + 1 => if s.pulses[i]?.any (head < ·.position) then s.walkBack head i else i + 1

/-- Reset if out of head position bounds, or search from the current pulse:
mirrors src/drive/rotation.c:645-664 -/
def resync (s : PulseStream) (head : Nat) : PulseStream :=
  { s with
    currentIndex :=
      if s.pulses.getLast?.any (·.position ≤ head) then s.pulses.length
      else
        s.walkOn (·.position ≤ head)
          (if s.current = none then 0 else s.walkBack head s.currentIndex) }

/-- From the first pulse of the track again: mirrors src/drive/rotation.c:784-788, :904-908 -/
def rewind (s : PulseStream) (head : Nat) : PulseStream :=
  { s with currentIndex := s.walkOn (·.position < head) 0 }

/-- `CurrentIndex = Pulses[CurrentIndex].Next` -/
def next (s : PulseStream) : PulseStream :=
  { s with currentIndex := s.currentIndex + 1 }

/-- `P64PulseStreamFreePulse` of the current pulse, which makes the next one current:
mirrors src/lib/p64/p64.c:456-473 -/
def removePulse (s : PulseStream) : PulseStream where
  pulses := s.pulses.eraseIdx s.currentIndex
  currentIndex := s.currentIndex
  sorted := s.sorted.sublist (s.pulses.eraseIdx_sublist s.currentIndex)
  bounded p hp := s.bounded p ((s.pulses.eraseIdx_sublist s.currentIndex).mem hp)

end PulseStream

/-! ## Sorted lists -/

theorem before_le {l : List Pulse} (hp : p ∈ l.takeWhile (·.position ≤ head)) : p.position ≤ head := by
  simpa using List.mem_takeWhile_imp hp

theorem before_lt {l : List Pulse} (hp : p ∈ l.takeWhile (·.position < head)) : p.position < head := by
  simpa using List.mem_takeWhile_imp hp

theorem lt_behind {l : List Pulse} (hl : l.Pairwise fun p q => p.position < q.position)
    (hp : p ∈ l.dropWhile (·.position ≤ head)) : head < p.position := by
  induction l with
  | nil => cases hp
  | cons q l ih =>
    rw [List.pairwise_cons] at hl
    rw [List.dropWhile_cons] at hp
    split at hp
    · exact ih hl.2 hp
    · rename_i hq
      have hq' : head < q.position := by simpa using hq
      obtain rfl | hmem := List.mem_cons.1 hp
      · exact hq'
      · exact Nat.lt_trans hq' (hl.1 p hmem)

/-- `P64PulseStreamAddPulse`, which makes the pulse current, and overwrites the one that was at
its place: mirrors src/lib/p64/p64.c:475-518 -/
def PulseStream.insertPulse (s : PulseStream) (position : Nat) (strength : UInt32) : PulseStream :=
  let position := position % samplesPerRotation
  let before := s.pulses.takeWhile (·.position < position)
  let behind := s.pulses.dropWhile (·.position ≤ position)
  { pulses := before ++ ⟨position, strength⟩ :: behind
    currentIndex := before.length
    sorted := by
      have hbehind : ∀ q ∈ behind, position < q.position := fun q hq => lt_behind s.sorted hq
      refine List.pairwise_append.2 ⟨?_, List.pairwise_cons.2 ⟨hbehind, ?_⟩, ?_⟩
      · exact s.sorted.sublist (List.takeWhile_sublist _)
      · exact s.sorted.sublist (List.dropWhile_sublist _)
      · intro p hp q hq
        have hlt := before_lt hp
        obtain rfl | hmem := List.mem_cons.1 hq
        · exact hlt
        · exact Nat.lt_trans hlt (hbehind q hmem)
    bounded := by
      intro p hp
      obtain hbefore | rfl | hbehind : p ∈ before ∨ p = ⟨position, strength⟩ ∨ p ∈ behind := by
        simpa using hp
      · exact s.bounded p ((List.takeWhile_sublist _).mem hbefore)
      · exact Nat.mod_lt _ (by decide)
      · exact s.bounded p ((List.dropWhile_sublist _).mem hbehind) }

/-- The strength of the current pulse is set, its place is not. -/
theorem positions_modify (l : List Pulse) (i : Nat) (strength : UInt32) :
    (l.modify i fun p => { p with strength }).map (·.position) = l.map (·.position) := by
  induction l generalizing i with
  | nil => simp
  | cons p l ih =>
    cases i with
    | zero => simp
    | succ i => simp [ih]

/-- mirrors src/drive/rotation.c:922-923 -/
def PulseStream.strengthen (s : PulseStream) : PulseStream where
  pulses := s.pulses.modify s.currentIndex fun p => { p with strength := 0xffffffff }
  currentIndex := s.currentIndex
  sorted := by
    have hsorted := s.sorted
    rw [← List.pairwise_map (f := Pulse.position) (R := (· < ·))] at hsorted ⊢
    rwa [positions_modify]
  bounded := by
    intro p hp
    have hmem : p.position ∈ s.pulses.map (·.position) := by
      rw [← positions_modify s.pulses s.currentIndex 0xffffffff]
      exact List.mem_map_of_mem hp
    obtain ⟨q, hq, heq⟩ := List.mem_map.1 hmem
    exact heq ▸ s.bounded q hq

/-! ## Where the index is -/

/-- The current pulse is the first one behind the head. -/
def Past (s : PulseStream) (head : Nat) : Prop :=
  ∃ b a, s.pulses = b ++ a ∧ s.currentIndex = b.length ∧
    (∀ p ∈ b, p.position ≤ head) ∧ ∀ p ∈ a, head < p.position

/-- The current pulse is the first one under the head or behind it. -/
def Due (s : PulseStream) (head : Nat) : Prop :=
  ∃ b a, s.pulses = b ++ a ∧ s.currentIndex = b.length ∧
    (∀ p ∈ b, p.position < head) ∧ ∀ p ∈ a, head ≤ p.position

theorem takeWhile_append {b a : List Pulse} {goesBy : Pulse → Bool} (hb : ∀ p ∈ b, goesBy p = true)
    (ha : ∀ p ∈ a, goesBy p = false) : (b ++ a).takeWhile goesBy = b := by
  rw [List.takeWhile_append_of_pos hb]
  cases a with
  | nil => simp
  | cons p a => simp [ha p List.mem_cons_self]

/-- There is one such index. -/
theorem past_iff : Past s head ↔ s.currentIndex = (s.pulses.takeWhile (·.position ≤ head)).length := by
  constructor
  · rintro ⟨b, a, hpulses, hindex, hb, ha⟩
    rw [hpulses, hindex, takeWhile_append (by simpa using hb) (by simpa using ha)]
  · intro hindex
    refine ⟨_, _, (List.takeWhile_append_dropWhile (p := (·.position ≤ head))).symm, hindex,
      fun p => before_le, fun p => lt_behind s.sorted⟩

theorem current_split {b a : List Pulse} (hpulses : s.pulses = b ++ a)
    (hindex : s.currentIndex = b.length) : s.current = a.head? := by
  rw [PulseStream.current, hpulses, hindex, List.getElem?_append_right (Nat.le_refl _),
    Nat.sub_self, List.head?_eq_getElem?]

theorem current_past (h : Past s head) (hp : s.current = some p) : head < p.position := by
  obtain ⟨b, a, hpulses, hindex, -, ha⟩ := h
  rw [current_split hpulses hindex] at hp
  exact ha p (List.mem_of_mem_head? hp)

/-- No pulse goes by while the head does not reach the current one. -/
theorem due_of_past (h : Past s head) (hlt : head < j)
    (hreach : ∀ p, s.current = some p → j ≤ p.position) : Due s j := by
  obtain ⟨b, a, hpulses, hindex, hb, ha⟩ := h
  refine ⟨b, a, hpulses, hindex, fun p hp => Nat.lt_of_le_of_lt (hb p hp) hlt, ?_⟩
  rw [current_split hpulses hindex] at hreach
  have hsorted := s.sorted
  rw [hpulses, List.pairwise_append] at hsorted
  cases a with
  | nil => simp
  | cons q a =>
    have hq := hreach q rfl
    intro p hp
    obtain rfl | hmem := List.mem_cons.1 hp
    · exact hq
    · exact Nat.le_of_lt (Nat.lt_of_le_of_lt hq ((List.pairwise_cons.1 hsorted.2.1).1 p hmem))

theorem due_rewind : Due (s.rewind head) head := by
  refine ⟨s.pulses.takeWhile (·.position < head), s.pulses.dropWhile (·.position < head),
    List.takeWhile_append_dropWhile.symm, ?_, fun p => before_lt, fun p hp => ?_⟩
  · simp only [PulseStream.rewind, PulseStream.walkOn, List.drop_zero, Nat.zero_add]
  · obtain rfl | hpos := Nat.eq_zero_or_pos head
    · exact Nat.zero_le _
    · have hsame : (fun p : Pulse => decide (p.position < head)) =
          fun p => decide (p.position ≤ head - 1) := by
        funext q
        rw [decide_eq_decide]
        omega
      rw [hsame] at hp
      have := lt_behind s.sorted hp
      omega

/-- No pulse is under the head. -/
theorem past_of_due (h : Due s head) (hnot : s.current.any (·.position = head) = false) : Past s head := by
  obtain ⟨b, a, hpulses, hindex, hb, ha⟩ := h
  rw [current_split hpulses hindex] at hnot
  have hsorted := s.sorted
  rw [hpulses, List.pairwise_append] at hsorted
  refine ⟨b, a, hpulses, hindex, fun p hp => Nat.le_of_lt (hb p hp), fun p hp => ?_⟩
  cases a with
  | nil => cases hp
  | cons q a =>
    have hq : head < q.position := by
      have hle := ha q List.mem_cons_self
      have hne : q.position ≠ head := by simpa using hnot
      omega
    obtain rfl | hmem := List.mem_cons.1 hp
    · exact hq
    · exact Nat.lt_trans hq ((List.pairwise_cons.1 hsorted.2.1).1 p hmem)

/-- The pulse under the head, with those before it and those behind. -/
theorem split_at (h : Due s head) (hat : s.current.any (·.position = head) = true) :
    ∃ b p a, s.pulses = b ++ p :: a ∧ s.currentIndex = b.length ∧ p.position = head ∧
      (∀ q ∈ b, q.position ≤ head) ∧ ∀ q ∈ a, head < q.position := by
  obtain ⟨b, a, hpulses, hindex, hb, -⟩ := h
  rw [current_split hpulses hindex] at hat
  have hsorted := s.sorted
  rw [hpulses, List.pairwise_append] at hsorted
  cases a with
  | nil => simp at hat
  | cons p a =>
    have hp : p.position = head := by simpa using hat
    refine ⟨b, p, a, hpulses, hindex, hp, fun q hq => Nat.le_of_lt (hb q hq), fun q hq => ?_⟩
    exact hp ▸ (List.pairwise_cons.1 hsorted.2.1).1 q hq

theorem past_next (h : Due s head) (hat : s.current.any (·.position = head) = true) : Past s.next head := by
  obtain ⟨b, p, a, hpulses, hindex, hp, hb, ha⟩ := split_at h hat
  refine ⟨b ++ [p], a, by simp [PulseStream.next, hpulses],
    by simp [PulseStream.next, hindex], fun q hq => ?_, ha⟩
  obtain hq | hq := List.mem_append.1 hq
  · exact hb q hq
  · rw [List.mem_singleton.1 hq, hp]

theorem past_removePulse (h : Due s head) (hat : s.current.any (·.position = head) = true) :
    Past s.removePulse head := by
  obtain ⟨b, p, a, hpulses, hindex, -, hb, ha⟩ := split_at h hat
  refine ⟨b, a, ?_, hindex, hb, ha⟩
  simp only [PulseStream.removePulse, hpulses, hindex]
  rw [List.eraseIdx_append_of_length_le (Nat.le_refl _), Nat.sub_self, List.eraseIdx_cons_zero]

theorem past_strengthen (h : Due s head) (hat : s.current.any (·.position = head) = true) :
    Past s.strengthen.next head := by
  obtain ⟨b, p, a, hpulses, hindex, hp, hb, ha⟩ := split_at h hat
  refine ⟨b ++ [{ p with strength := 0xffffffff }], a, ?_, ?_, fun q hq => ?_, ha⟩
  · simp only [PulseStream.next, PulseStream.strengthen, hpulses, hindex, List.append_assoc,
      List.singleton_append]
    rw [List.modify_eq_take_cons_drop (by simp)]
    simp
  · simp [PulseStream.next, PulseStream.strengthen, hindex]
  · obtain hq | hq := List.mem_append.1 hq
    · exact hb q hq
    · rw [List.mem_singleton.1 hq, ← hp]

theorem past_insertPulse (strength : UInt32) (hhead : head < samplesPerRotation) :
    Past (s.insertPulse head strength).next head := by
  have hmod : head % samplesPerRotation = head := Nat.mod_eq_of_lt hhead
  refine ⟨s.pulses.takeWhile (·.position < head) ++ [⟨head, strength⟩],
    s.pulses.dropWhile (·.position ≤ head), ?_, ?_, fun q hq => ?_, fun q => lt_behind s.sorted⟩
  · simp [PulseStream.next, PulseStream.insertPulse, hmod]
  · simp [PulseStream.next, PulseStream.insertPulse, hmod]
  · obtain hq | hq := List.mem_append.1 hq
    · exact Nat.le_of_lt (before_lt hq)
    · rw [List.mem_singleton.1 hq]

/-! ## The search at the start of a call -/

theorem walkBack_le (i : Nat) : s.walkBack head i ≤ i := by
  induction i with
  | zero => exact Nat.le_refl _
  | succ i ih =>
    unfold PulseStream.walkBack
    split
    · exact Nat.le_succ_of_le ih
    · exact Nat.le_refl _

/-- It stops at the start of the track or behind a pulse that has gone by. -/
theorem walkBack_stop (i : Nat) : s.walkBack head i = 0 ∨
    ∃ j, s.walkBack head i = j + 1 ∧ s.pulses[j]?.any (head < ·.position) = false := by
  induction i with
  | zero => exact .inl rfl
  | succ i ih =>
    unfold PulseStream.walkBack
    split
    · exact ih
    · rename_i hstop
      exact .inr ⟨i, rfl, by simpa using hstop⟩

/-- The search back does not lose the pulse looked for. -/
theorem start_le {b a : List Pulse} (hpulses : s.pulses = b ++ a) (ha : ∀ p ∈ a, head < p.position) :
    (if s.current = none then 0 else s.walkBack head s.currentIndex) ≤ b.length := by
  split
  · exact Nat.zero_le _
  · rename_i hsome
    have hlt : s.currentIndex < s.pulses.length := by
      by_contra hno
      exact hsome (List.getElem?_eq_none (Nat.le_of_not_lt hno))
    obtain hzero | ⟨j, hj, hstop⟩ := @walkBack_stop s head s.currentIndex
    · omega
    · rw [hj]
      by_contra hbehind
      have hback := @walkBack_le s head s.currentIndex
      have hlen : j < s.pulses.length := by omega
      obtain ⟨p, hp⟩ : ∃ p, s.pulses[j]? = some p := ⟨_, List.getElem?_eq_getElem hlen⟩
      rw [hp, Option.any_some, decide_eq_false_iff_not] at hstop
      rw [hpulses, List.getElem?_append_right (by omega)] at hp
      exact hstop (ha p (List.mem_of_getElem? hp))

theorem past_resync : Past (s.resync head) head := by
  refine past_iff.2 ?_
  have hsplit : s.pulses = s.pulses.takeWhile (·.position ≤ head) ++
      s.pulses.dropWhile (·.position ≤ head) := List.takeWhile_append_dropWhile.symm
  have hbehind : ∀ p ∈ s.pulses.dropWhile (·.position ≤ head), head < p.position :=
    fun p => lt_behind s.sorted
  generalize hb : s.pulses.takeWhile (·.position ≤ head) = b at hsplit
  generalize s.pulses.dropWhile (·.position ≤ head) = a at hsplit hbehind
  have hbefore : ∀ p ∈ b, p.position ≤ head := fun p hp => before_le (hb ▸ hp)
  simp only [PulseStream.resync, hb]
  split
  · rename_i hlast
    rw [hsplit] at hlast ⊢
    by_cases hnil : a = []
    · rw [hnil, List.append_nil]
    · rw [List.getLast?_append, List.getLast?_eq_some_getLast hnil, Option.some_or,
        Option.any_some, decide_eq_true_eq] at hlast
      exact absurd hlast (Nat.not_le.2 (hbehind _ (List.getLast_mem hnil)))
  · have hstart := start_le hsplit hbehind
    generalize (if s.current = none then 0 else s.walkBack head s.currentIndex) = i at hstart
    rw [PulseStream.walkOn, hsplit, List.drop_append_of_le_length hstart, takeWhile_append, List.length_drop]
    · omega
    · intro p hp
      simpa using hbefore p (List.mem_of_mem_drop hp)
    · simpa using hbehind

theorem resync_past (h : Past s head) : s.resync head = s := by
  have hnew := past_iff.1 (@past_resync s head)
  have hold := past_iff.1 h
  obtain ⟨pulses, currentIndex, hsorted, hbounded⟩ := s
  simp only [PulseStream.resync, PulseStream.mk.injEq, true_and]
  simp only [PulseStream.resync] at hnew hold
  rw [hnew, hold]

end Vice.L3.P64Pulses
