import Mathlib.Data.Finite.Prod
import Vice.L0Core.LinkWalk
import Vice.L3Drive.BamFrame
import Vice.L3Drive.Channel

/-!
# The loops of opening a file (`vdrive-dir.c`, `vdrive-iec.c`)

The search of a directory and the scan to the end of a file that is appended to follow the links of
the disk, and keep no account of the sectors they have been to. The directory listing of an
attached image does (`circular_check` in `diskcontents-block.c`).

Results:
* `findFile_ends`, `findNextSlot_ends`, `scanToEnd_ends`: each loop ends iff its links do not go round.
* `open_ends_iff`: opening a file ends iff the loops it comes to do.
* `open_not_always`: a directory sector that links to itself.
-/
namespace Vice.L3.OpenLoops
open Vice.L0.LinkWalk Vice.L2.Geometry Vice.L3.Disk Vice.L3.Drive Vice.L3.Bam Vice.L3.BamSearch
open Vice.L3.BamFrame Vice.L3.Directory Vice.L3.Channel

/-! ## The links -/

abbrev Link := UInt8 × UInt8

def linkOf (buf : Buf) : Link := (buf 0, buf 1)

/-- Where a loop goes on from a link, with what is in its buffer: to the next sector, unless there is
none, it cannot be read, or it holds what makes the loop `stop`. -/
def nextSector (v : Vdrive) (stop : Buf → Bool) (p : Link × Buf) : Option (Link × Buf) :=
  if p.1.1 = 0 then none
  else match vdriveReadSector v p.2 p.1.1.toNat p.1.2.toNat with
    | (.ok, buf) => if stop buf then none else some (linkOf buf, buf)
    | _ => none

/-- The way from a link comes to no link twice. -/
def Straight (v : Vdrive) (stop : Buf → Bool) (p : Link × Buf) : Prop :=
  ∀ i j a b, place (nextSector v stop) (some p) i = some a →
    place (nextSector v stop) (some p) j = some b → a.1 = b.1 → i = j

/-- A search of `dir` for an entry that is `good` stops in this sector. -/
def stops (dir : DirContext) (good : Buf → Bool) (buf : Buf) : Bool :=
  (List.range 8).any fun j => hits dir (slotBytes buf j) && good (slotBytes buf j)

section
variable {v w : Vdrive} {dir dir' : DirContext} {good : Buf → Bool} {fuel n t s : Nat} {p : BufferInfo}

instance uint8_finite : Finite UInt8 := Finite.of_injective UInt8.toFin fun _ _ h => UInt8.toFin_inj.mp h

/-- Reading fails, fills the buffer, or leaves it and says that it has read. -/
theorem read_cases (v : Vdrive) (t s : Nat) : (∃ rc, rc ≠ .ok ∧ ∀ buf, (vdriveReadSector v buf t s).1 = rc) ∨
      (∃ data, ∀ buf, vdriveReadSector v buf t s = (.ok, data)) ∨
      ∀ buf, vdriveReadSector v buf t s = (.ok, buf) := by
  unfold vdriveReadSector
  cases vdriveLogToPhy v t s with
  | none => exact Or.inl ⟨.notReady, by decide, fun _ => rfl⟩
  | some ts =>
    simp only
    unfold readSector
    cases checkSector v.image.shape ts.1 ts.2 with
    | error e => exact Or.inl ⟨.minus, by decide, fun _ => rfl⟩
    | ok n =>
      simp only
      by_cases hrc : ipeOfFdc (v.image.fdcErr n) = .ok
      · rw [hrc]
        by_cases hsoft : softError (v.image.fdcErr n)
        · by_cases hin : n < v.image.blocks ∧ hasOffset n
          · exact Or.inr (Or.inl ⟨v.image.data n, fun _ => by rw [if_pos hsoft, if_pos hin]⟩)
          · exact Or.inl ⟨.minus, by decide, fun _ => by rw [if_pos hsoft, if_neg hin]⟩
        · exact Or.inr (Or.inr fun _ => by rw [if_neg hsoft])
      · by_cases hsoft : softError (v.image.fdcErr n)
        · by_cases hin : n < v.image.blocks ∧ hasOffset n
          · exact Or.inl ⟨_, hrc, fun _ => by rw [if_pos hsoft, if_pos hin]⟩
          · exact Or.inl ⟨.minus, by decide, fun _ => by rw [if_pos hsoft, if_neg hin]⟩
        · exact Or.inl ⟨_, hrc, fun _ => by rw [if_neg hsoft]⟩

/-- The way ends exactly if it is straight: at a link it has come to once, a read does the same again. -/
theorem ends_straight (v : Vdrive) (stop : Buf → Bool) (p : Link × Buf) :
    Ends (nextSector v stop) (some p) ↔ Straight v stop p := by
  refine ends_iff Prod.fst fun a' a b hb hab => ?_
  obtain ⟨l, bufA⟩ := a
  obtain ⟨l', bufB⟩ := b
  obtain rfl : l = l' := hab
  by_cases hl : l.1 = 0
  · exact Or.inr (by unfold nextSector; rw [if_pos hl, if_pos hl])
  · rcases read_cases v l.1.toNat l.2.toNat with ⟨rc, hrc, hread⟩ | ⟨data, hread⟩ | hread
    · refine Or.inr ?_
      have hnone : ∀ buf, nextSector v stop (l, buf) = none := by
        intro buf
        have := hread buf
        unfold nextSector
        rw [if_neg hl]
        generalize vdriveReadSector v buf l.1.toNat l.2.toNat = r at this
        obtain ⟨rc', buf'⟩ := r
        obtain rfl : rc' = rc := this
        cases rc' <;> first | rfl | exact absurd rfl hrc
      rw [hnone, hnone]
    · exact Or.inr (by unfold nextSector; simp only [hread])
    · -- the buffer still holds the sector that linked here
      refine Or.inl ?_
      have hprev : linkOf bufB = l ∧ stop bufB = false := by
        unfold nextSector at hb
        split at hb
        · cases hb
        · split at hb
          · split at hb
            · cases hb
            · next hstop =>
              cases hb
              exact ⟨rfl, Bool.eq_false_iff.mpr hstop⟩
          · cases hb
      unfold nextSector
      rw [if_neg hl, hread]
      simp only [hprev.2, Bool.false_eq_true, if_false, hprev.1]

/-! ## Entry by entry -/

/-- Where a search goes on from an entry, unless it ends there or the next is `good`. -/
def nextGood (v : Vdrive) (good : Buf → Bool) (dir : DirContext) : Option DirContext :=
  match nextEntry v dir with
  | (.entry, dir) =>
    let slot := slotBytes dir.buffer dir.slot
    if hits dir slot && good slot then none else some dir
  | _ => none

/-- A step changes the place only. -/
theorem nextEntry_same (v : Vdrive) (dir : DirContext) :
    hits (nextEntry v dir).2 = hits dir ∧ (nextEntry v dir).2.findLength = dir.findLength := by
  unfold nextEntry
  dsimp only
  split
  · split <;> exact ⟨rfl, rfl⟩
  · exact ⟨rfl, rfl⟩

/-- A search of the entries behind the one it has got to. -/
def stopsBehind (dir : DirContext) (good : Buf → Bool) : Bool :=
  (List.range' (dir.slot + 1) (7 - dir.slot)).any fun j =>
    hits dir (slotBytes dir.buffer j) && good (slotBytes dir.buffer j)

/-- One of them stops the search, or it comes to the last. -/
theorem sector_ends (v : Vdrive) (good : Buf → Bool) (hi : dir.slot ≤ 7) :
    (stopsBehind dir good = true → Ends (nextGood v good) (some dir)) ∧
      (stopsBehind dir good = false →
        place (nextGood v good) (some dir) (7 - dir.slot) = some { dir with slot := 7 }) := by
  obtain ⟨k, hk⟩ : ∃ k, k = 7 - dir.slot := ⟨_, rfl⟩
  unfold stopsBehind
  rw [← hk]
  induction k generalizing dir with
  | zero =>
    have h7 : dir.slot = 7 := by omega
    refine ⟨fun h => absurd h Bool.false_ne_true, fun _ => ?_⟩
    rw [← h7]
    rfl
  | succ k ih =>
    have hnext : nextEntry v dir = (.entry, { dir with slot := dir.slot + 1 }) := by
      unfold nextEntry
      rw [if_neg (show ¬ dir.slot + 1 ≥ 8 by omega)]
    have hgood : nextGood v good dir =
        if hits dir (slotBytes dir.buffer (dir.slot + 1)) && good (slotBytes dir.buffer (dir.slot + 1))
        then none else some { dir with slot := dir.slot + 1 } := by
      unfold nextGood
      rw [hnext]
      rfl
    rw [List.range'_succ, List.any_cons, place_succ, ends_next, hgood]
    by_cases hstop : (hits dir (slotBytes dir.buffer (dir.slot + 1)) &&
        good (slotBytes dir.buffer (dir.slot + 1))) = true
    · rw [hstop, Bool.true_or, if_pos rfl]
      exact ⟨fun _ => ends_none, fun h => absurd h.symm Bool.false_ne_true⟩
    · rw [Bool.eq_false_iff.mpr hstop, Bool.false_or, if_neg Bool.false_ne_true]
      exact @ih { dir with slot := dir.slot + 1 } (show dir.slot + 1 ≤ 7 by omega)
        (show k = 7 - (dir.slot + 1) by omega)

/-- Behind the last entry of a sector: the next sector is read. -/
theorem nextGood_last {d : DirContext} (hslot : d.slot = 7) {buf : Buf} (h0 : d.buffer 0 ≠ 0)
    (hread : vdriveReadSector v d.buffer (d.buffer 0).toNat (d.buffer 1).toNat = (.ok, buf)) :
    nextGood v good d =
      if hits d (slotBytes buf 0) && good (slotBytes buf 0) then none
      else some { d with
        slot := 0, track := (d.buffer 0).toNat, sector := (d.buffer 1).toNat, buffer := buf } := by
  unfold nextGood nextEntry
  simp only [hslot, Nat.reduceAdd, ge_iff_le, Nat.le_refl, if_true, if_neg h0, hread, ne_eq,
    not_true_eq_false, if_false]
  rfl

/-- A search ends with the way along the links of the directory. -/
theorem nextGood_ends (v : Vdrive) (good : Buf → Bool) (hslot : dir.slot = 7) :
    Ends (nextGood v good) (some dir) ↔
      Straight v (stops dir good) (linkOf dir.buffer, dir.buffer) := by
  rw [← ends_straight]
  refine ends_coarse (fun d p => d.slot = 7 ∧ p = (linkOf d.buffer, d.buffer) ∧ hits d = hits dir)
    (fun d p p' hR hp' => ?_) (fun d p hR hp => ?_) ⟨hslot, rfl, rfl⟩
  · obtain ⟨h7, rfl, hhits⟩ := hR
    unfold nextSector at hp'
    split at hp'
    · cases hp'
    · next h0 =>
      split at hp'
      · next buf hread =>
        split at hp'
        · cases hp'
        · next hstop =>
          cases hp'
          have hfirst : nextGood v good _ = _ := nextGood_last h7 h0 hread
          unfold stops at hstop
          rw [List.range_eq_range', List.range'_succ, List.any_cons, ← hhits] at hstop
          obtain ⟨hzero, hrest⟩ := Bool.or_eq_false_iff.mp (Bool.eq_false_iff.mpr hstop)
          rw [if_neg (Bool.eq_false_iff.mp hzero)] at hfirst
          have hsector := (@sector_ends { d with
            slot := 0, track := (d.buffer 0).toNat, sector := (d.buffer 1).toNat, buffer := buf }
            v good (Nat.zero_le 7)).2 hrest
          exact ⟨7, { d with
            slot := 7, track := (d.buffer 0).toNat, sector := (d.buffer 1).toNat, buffer := buf },
            by rw [place_succ, hfirst]; exact hsector, rfl, rfl, hhits⟩
      · cases hp'
  · obtain ⟨h7, rfl, hhits⟩ := hR
    unfold nextSector at hp
    split at hp
    · next h0 =>
      refine ⟨1, ?_⟩
      show nextGood v good d = none
      unfold nextGood nextEntry
      simp only [h7, Nat.reduceAdd, ge_iff_le, Nat.le_refl, if_true, if_pos (show d.buffer 0 = 0 from h0)]
    · next h0 =>
      split at hp
      · next buf hread =>
        split at hp
        · next hstop =>
          have hfirst : nextGood v good _ = _ := nextGood_last h7 h0 hread
          unfold stops at hstop
          rw [List.range_eq_range', List.range'_succ, List.any_cons, ← hhits] at hstop
          rw [ends_next, hfirst]
          split
          · exact ends_none
          · next hzero =>
            rw [Bool.eq_false_iff.mpr hzero, Bool.false_or] at hstop
            exact (@sector_ends { d with
              slot := 0, track := (d.buffer 0).toNat, sector := (d.buffer 1).toNat, buffer := buf }
              v good (Nat.zero_le 7)).1 hstop
        · cases hp
      · next hread =>
        refine ⟨1, ?_⟩
        show nextGood v good d = none
        unfold nextGood nextEntry
        simp only [h7, Nat.reduceAdd, ge_iff_le, Nat.le_refl, if_true, if_neg (show ¬ d.buffer 0 = 0 from h0)]
        have hnot : ∀ buf, vdriveReadSector v d.buffer (d.buffer 0).toNat (d.buffer 1).toNat ≠
          (.ok, buf) := hread
        generalize vdriveReadSector v d.buffer (d.buffer 0).toNat (d.buffer 1).toNat = r at hnot
        obtain ⟨rc, buf⟩ := r
        have hrc : rc ≠ .ok := fun heq => hnot buf (by rw [heq])
        simp only [if_pos hrc]

/-! ## The loops -/

/-- An entry that is no DEL. -/
def isFile (slot : Buf) : Bool := fileType slot ≠ ftDel

theorem nextGood_entry {d : DirContext} (h : nextEntry v dir = (.entry, d)) :
    nextGood v good dir =
      if hits d (slotBytes d.buffer d.slot) && good (slotBytes d.buffer d.slot) then none
      else some d := by
  unfold nextGood
  rw [h]

theorem nextGood_none {r : Step × DirContext} (h : nextEntry v dir = r) (hr : r.1 ≠ .entry) :
    nextGood v good dir = none := by
  obtain ⟨step, d⟩ := r
  unfold nextGood
  rw [h]
  cases step with
  | entry => exact absurd rfl hr
  | ended => rfl
  | error => rfl

/-- Behind what a search has found, the way ends; so it does from where the search began. -/
theorem searchSlots_back {r : Step × DirContext} (h : searchSlots v fuel dir = some r)
    (hend : r.1 = .entry → good (slotBytes r.2.buffer r.2.slot) = false →
      Ends (nextGood v good) (some r.2)) : Ends (nextGood v good) (some dir) := by
  induction fuel generalizing dir with
  | zero => cases h
  | succ fuel ih =>
    rw [ends_next]
    unfold searchSlots at h
    obtain ⟨step, d, hn⟩ : ∃ step d, nextEntry v dir = (step, d) := ⟨_, _, rfl⟩
    rw [hn] at h
    cases step with
    | ended =>
      rw [nextGood_none hn (by simp)]
      exact ends_none
    | error =>
      rw [nextGood_none hn (by simp)]
      exact ends_none
    | entry =>
      rw [nextGood_entry hn]
      by_cases hit : hits d (slotBytes d.buffer d.slot) = true
      · simp only [if_pos hit] at h
        cases h
        rw [hit, Bool.true_and]
        cases hg : good (slotBytes d.buffer d.slot) with
        | true => exact ends_none
        | false => exact hend rfl hg
      · simp only [if_neg hit] at h
        rw [Bool.eq_false_iff.mpr hit, Bool.false_and, if_neg Bool.false_ne_true]
        exact ih h

/-- A search finds something on a way that ends, and comes nearer to the end. -/
theorem searchSlots_forth (h : place (nextGood v good) (some dir) n = none) (hfuel : n ≤ fuel) :
    ∃ r, searchSlots v fuel dir = some r ∧
      (r.1 = .entry → good (slotBytes r.2.buffer r.2.slot) = false →
        ∃ m < n, place (nextGood v good) (some r.2) m = none) := by
  induction n generalizing dir fuel with
  | zero => cases h
  | succ n ih =>
    obtain ⟨fuel, rfl⟩ : ∃ k, fuel = k + 1 := ⟨fuel - 1, by omega⟩
    rw [place_succ] at h
    unfold searchSlots
    obtain ⟨step, d, hn⟩ : ∃ step d, nextEntry v dir = (step, d) := ⟨_, _, rfl⟩
    rw [hn]
    cases step with
    | ended => exact ⟨_, rfl, fun h => by cases h⟩
    | error => exact ⟨_, rfl, fun h => by cases h⟩
    | entry =>
      rw [nextGood_entry hn] at h
      by_cases hit : hits d (slotBytes d.buffer d.slot) = true
      · simp only [if_pos hit]
        refine ⟨_, rfl, fun _ hg => ⟨n, Nat.lt_succ_self n, ?_⟩⟩
        rw [show good (slotBytes d.buffer d.slot) = false from hg, Bool.and_false,
          if_neg Bool.false_ne_true] at h
        exact h
      · simp only [if_neg hit]
        rw [Bool.eq_false_iff.mpr hit, Bool.false_and, if_neg Bool.false_ne_true] at h
        obtain ⟨r, hr, hnear⟩ := ih h (Nat.le_of_succ_le_succ hfuel)
        refine ⟨r, hr, fun he hg => ?_⟩
        obtain ⟨m, hm, hend⟩ := hnear he hg
        exact ⟨m, Nat.lt_succ_of_lt hm, hend⟩

theorem searchSlots_length {r : Step × DirContext} (h : searchSlots v fuel dir = some r) :
    r.2.findLength = dir.findLength := by
  induction fuel generalizing dir with
  | zero => cases h
  | succ fuel ih =>
    have hsame := nextEntry_same v dir
    unfold searchSlots at h
    obtain ⟨step, d, hn⟩ : ∃ step d, nextEntry v dir = (step, d) := ⟨_, _, rfl⟩
    rw [hn] at h hsame
    cases step with
    | ended =>
      cases h
      exact hsame.2
    | error =>
      cases h
      exact hsame.2
    | entry =>
      simp only at h
      split at h
      · cases h
        exact hsame.2
      · exact (ih h).trans hsame.2

/-- What a search has found does not depend on how long it may take. -/
theorem searchSlots_more {r : Step × DirContext} {fuel' : Nat} (h : searchSlots v fuel dir = some r)
    (hle : fuel ≤ fuel') : searchSlots v fuel' dir = some r := by
  induction fuel generalizing dir fuel' with
  | zero => cases h
  | succ fuel ih =>
    obtain ⟨k, rfl⟩ : ∃ k, fuel' = k + 1 := ⟨fuel' - 1, by omega⟩
    unfold searchSlots at h ⊢
    obtain ⟨step, d, hn⟩ : ∃ step d, nextEntry v dir = (step, d) := ⟨_, _, rfl⟩
    rw [hn] at h ⊢
    cases step with
    | ended => exact h
    | error => exact h
    | entry =>
      simp only at h ⊢
      split
      · next hit => rwa [if_pos hit] at h
      · next hit =>
        rw [if_neg hit] at h
        exact ih h (Nat.le_of_succ_le_succ hle)

theorem findNextSlot_isSome (fuel : Nat) (v : Vdrive) (dir : DirContext) :
    (vdriveDirFindNextSlot fuel v dir).isSome ↔ (searchSlots v fuel dir).isSome := by
  unfold vdriveDirFindNextSlot
  rcases searchSlots v fuel dir with _ | ⟨_ | _ | _, d⟩
  · exact Iff.rfl
  · exact Iff.rfl
  · simp only
    split <;> exact Iff.rfl
  · exact Iff.rfl

/-- One search, for the next entry. -/
theorem findNextSlot_ends (v : Vdrive) (dir : DirContext) :
    (∃ fuel, (vdriveDirFindNextSlot fuel v dir).isSome) ↔
      Ends (nextGood v fun _ => true) (some dir) := by
  constructor
  · rintro ⟨fuel, h⟩
    obtain ⟨r, hr⟩ := Option.isSome_iff_exists.mp ((findNextSlot_isSome fuel v dir).mp h)
    exact searchSlots_back hr fun _ h => by cases h
  · rintro ⟨n, hn⟩
    obtain ⟨r, hr, -⟩ := searchSlots_forth hn (Nat.le_refl n)
    exact ⟨n, (findNextSlot_isSome n v dir).mpr (by rw [hr]; rfl)⟩

/-- A search under a name changes nothing. -/
theorem findNextSlot_named {r : Step × DirContext} (hlen : 0 ≤ dir.findLength)
    (h : searchSlots v fuel dir = some r) :
    vdriveDirFindNextSlot fuel v dir =
      some (if r.1 = .entry then some (slotBytes r.2.buffer r.2.slot) else none, r.2, v) := by
  have hlen' := searchSlots_length h
  obtain ⟨step, d⟩ := r
  unfold vdriveDirFindNextSlot
  rw [h]
  cases step with
  | entry => rfl
  | error => rfl
  | ended =>
    simp only at hlen' ⊢
    rw [if_neg (show ¬ d.findLength < 0 by omega)]
    rfl

theorem findFile_more {fuel' : Nat} {r : Option Buf × DirContext × Vdrive}
    (hlen : 0 ≤ dir.findLength) (h : findFile fuel v dir = some r) (hle : fuel ≤ fuel') :
    findFile fuel' v dir = some r ∧ r.2.2 = v := by
  induction fuel generalizing dir fuel' with
  | zero => cases h
  | succ fuel ih =>
    obtain ⟨k, rfl⟩ : ∃ k, fuel' = k + 1 := ⟨fuel' - 1, by omega⟩
    unfold findFile at h ⊢
    cases hs : searchSlots v (fuel + 1) dir with
    | none =>
      unfold vdriveDirFindNextSlot at h
      rw [hs] at h
      cases h
    | some found =>
      have hlen' := searchSlots_length hs
      rw [findNextSlot_named hlen hs] at h
      rw [findNextSlot_named hlen (searchSlots_more hs hle)]
      by_cases he : found.1 = .entry
      · simp only [if_pos he] at h ⊢
        split at h
        · next hdel =>
          rw [if_pos hdel]
          exact ih (by omega) h (Nat.le_of_succ_le_succ hle)
        · next hdel =>
          rw [if_neg hdel]
          cases h
          exact ⟨rfl, rfl⟩
      · simp only [if_neg he] at h ⊢
        cases h
        exact ⟨rfl, rfl⟩

/-- The search for a file, past entries that are DEL. -/
theorem findFile_ends (v : Vdrive) (hlen : 0 ≤ dir.findLength) :
    (∃ fuel, (findFile fuel v dir).isSome) ↔ Ends (nextGood v isFile) (some dir) := by
  constructor
  · rintro ⟨fuel, h⟩
    induction fuel generalizing dir with
    | zero => cases h
    | succ fuel ih =>
      unfold findFile at h
      cases hs : searchSlots v (fuel + 1) dir with
      | none =>
        unfold vdriveDirFindNextSlot at h
        rw [hs] at h
        cases h
      | some found =>
        have hlen' := searchSlots_length hs
        rw [findNextSlot_named hlen hs] at h
        refine searchSlots_back hs fun he hg => ih (by omega) ?_
        have hdel : fileType (slotBytes found.2.buffer found.2.slot) = ftDel := by
          by_contra hne
          unfold isFile at hg
          rw [decide_eq_true hne] at hg
          cases hg
        simp only [if_pos he, if_pos hdel] at h
        exact h
  · rintro ⟨n, hn⟩
    refine ⟨n, ?_⟩
    have key : ∀ n dir fuel, 0 ≤ dir.findLength → place (nextGood v isFile) (some dir) n = none →
        n ≤ fuel → (findFile fuel v dir).isSome := by
      intro n
      induction n using Nat.strong_induction_on with
      | _ n ih =>
        intro dir fuel hlen hn hfuel
        cases n with
        | zero => cases hn
        | succ n =>
          obtain ⟨fuel, rfl⟩ : ∃ k, fuel = k + 1 := ⟨fuel - 1, by omega⟩
          obtain ⟨found, hs, hnear⟩ := searchSlots_forth hn hfuel
          have hlen' := searchSlots_length hs
          unfold findFile
          rw [findNextSlot_named hlen hs]
          by_cases he : found.1 = .entry
          · simp only [if_pos he]
            split
            · next hdel =>
              obtain ⟨m, hm, hend⟩ := hnear he (decide_eq_false (not_not.mpr hdel))
              exact ih m hm found.2 fuel (by omega) hend (by omega)
            · rfl
          · simp only [if_neg he]
            rfl
    exact key n dir n hlen hn (Nat.le_refl n)

/-- One turn of the scan to the end of a file: it is over, or goes on as the links do. -/
theorem scanToEnd_turn (v : Vdrive) (p : BufferInfo) (l : Link) :
    (nextSector v (fun _ => false) (l, p.buffer) = none ∧
        ∃ r, ∀ fuel, scanToEnd (fuel + 1) v p l.1.toNat l.2.toNat = some r) ∨
      ∃ q : BufferInfo, nextSector v (fun _ => false) (l, p.buffer) = some (linkOf q.buffer, q.buffer) ∧
        ∀ fuel, scanToEnd (fuel + 1) v p l.1.toNat l.2.toNat =
          scanToEnd fuel v q (linkOf q.buffer).1.toNat (linkOf q.buffer).2.toNat := by
  by_cases h0 : l.1 = 0
  · refine Or.inl ⟨by unfold nextSector; rw [if_pos h0], (true, p, l.2.toNat), fun fuel => ?_⟩
    unfold scanToEnd
    rw [h0]
    rfl
  · have hne : l.1.toNat ≠ 0 := fun h => h0 (UInt8.toNat_inj.mp h)
    obtain ⟨rc, buf, hread⟩ : ∃ rc buf, vdriveReadSector v p.buffer l.1.toNat l.2.toNat = (rc, buf) :=
      ⟨_, _, rfl⟩
    by_cases hrc : rc = .ok
    · subst hrc
      refine Or.inr ⟨{ p with
        track := l.1.toNat, sector := l.2.toNat, buffer := buf, slot := countBlock p.slot }, ?_,
        fun fuel => ?_⟩
      · unfold nextSector
        rw [if_neg h0, hread]
        rfl
      · rw [scanToEnd, if_neg hne, hread]
        rfl
    · refine Or.inl ⟨?_, _, fun fuel => by
        unfold scanToEnd
        rw [if_neg hne, hread]
        exact if_pos hrc⟩
      unfold nextSector
      rw [if_neg h0, hread]
      cases rc <;> first | rfl | exact absurd rfl hrc

/-- The scan to the end of a file. -/
theorem scanToEnd_ends (v : Vdrive) (p : BufferInfo) (l : Link) :
    (∃ fuel, (scanToEnd fuel v p l.1.toNat l.2.toNat).isSome) ↔
      Straight v (fun _ => false) (l, p.buffer) := by
  rw [← ends_straight]
  constructor
  · rintro ⟨fuel, h⟩
    induction fuel generalizing p l with
    | zero => cases h
    | succ fuel ih =>
      rw [ends_next]
      obtain ⟨hnone, -⟩ | ⟨q, hnext, hscan⟩ := scanToEnd_turn v p l
      · rw [hnone]
        exact ends_none
      · rw [hnext]
        rw [hscan] at h
        exact ih q _ h
  · rintro ⟨n, hn⟩
    refine ⟨n, ?_⟩
    induction n generalizing p l with
    | zero => cases hn
    | succ n ih =>
      rw [place_succ] at hn
      obtain ⟨-, r, hr⟩ | ⟨q, hnext, hscan⟩ := scanToEnd_turn v p l
      · rw [hr]
        rfl
      · rw [hnext] at hn
        rw [hscan]
        exact ih q _ hn

theorem scanToEnd_more {fuel' : Nat} (l : Link) (hle : fuel ≤ fuel')
    (h : (scanToEnd fuel v p l.1.toNat l.2.toNat).isSome) :
    (scanToEnd fuel' v p l.1.toNat l.2.toNat).isSome := by
  induction fuel generalizing p l fuel' with
  | zero => cases h
  | succ fuel ih =>
    obtain ⟨k, rfl⟩ : ∃ k, fuel' = k + 1 := ⟨fuel' - 1, by omega⟩
    obtain ⟨-, r, hr⟩ | ⟨q, -, hscan⟩ := scanToEnd_turn v p l
    · rw [hr]
      rfl
    · rw [hscan] at h ⊢
      exact ih _ (Nat.le_of_succ_le_succ hle) h

/-! ## Opening a file -/

/-- Where the search for the file begins. -/
def searchFor (v : Vdrive) (p : BufferInfo) (cmd : CmdParse) : DirContext :=
  vdriveDirFindFirstSlot v (some (cmd.file.take 16))
    (if cmd.readmode = .read ∨ cmd.readmode = .append then cmd.filetype else ftDel) p.dir

/-- The file is overwritten: `@` was given, or it was never closed. -/
def Overwrites (cmd : CmdParse) (slot : Buf) : Prop :=
  cmd.command.head? = some 0x40 ∨ (slot slotTypeOffset &&& 0x80 = 0 ∧ fileType slot ≠ ftRel)

/-- The links that are followed once the search has come to `slot`: those of a file that is appended to,
or, for a new file's entry, those of the directory again. -/
def GoesStraight (v : Vdrive) (p : BufferInfo) (cmd : CmdParse) (dir : DirContext) :
    Option Buf → Prop
  | some slot => cmd.readmode = .append → ¬ Overwrites cmd slot →
      Straight v (fun _ => false) ((slot slotFirstTrack, slot slotFirstSector), p.buffer)
  | none => (v.imageFormat = .np → (vdriveBamAllocFirstFreeSector v).1 ≠ none) →
      Straight v (stops (vdriveDirFindFirstSlot v none 0 dir) fun _ => true)
        (linkOf (vdriveDirFindFirstSlot v none 0 dir).buffer,
          (vdriveDirFindFirstSlot v none 0 dir).buffer)

/-- The call goes on to write a sequential file. -/
def Writes (v : Vdrive) (cmd : CmdParse) (slot : Option Buf) : Prop :=
  cmd.filetype ≠ ftRel ∧ slot.map fileType ≠ some ftRel ∧ cmd.readmode ≠ .read ∧
    v.image.readOnly = false

/-- All links on the way of opening a file are straight. -/
structure OpensStraight (v : Vdrive) (p : BufferInfo) (cmd : CmdParse) : Prop where
  search : Straight v (stops (searchFor v p cmd) isFile)
    (linkOf (searchFor v p cmd).buffer, (searchFor v p cmd).buffer)
  goesOn : ∀ fuel slot dir w, findFile fuel v (searchFor v p cmd) = some (slot, dir, w) →
    Writes v cmd slot → GoesStraight v p cmd dir slot

/-- With more fuel the call does not fall short, and it ends with its links. -/
def EndsIff (done : Nat → Bool) (straight : Prop) : Prop :=
  (∀ fuel fuel', fuel ≤ fuel' → done fuel → done fuel') ∧ ((∃ fuel, done fuel) ↔ straight)

theorem EndsIff.always {done : Nat → Bool} {straight : Prop} (h : ∀ fuel, done fuel) (hs : straight) :
    EndsIff done straight := ⟨fun _ fuel' _ _ => h fuel', ⟨fun _ => hs, fun _ => ⟨0, h 0⟩⟩⟩

theorem EndsIff.congr {done done' : Nat → Bool} {straight : Prop} (h : EndsIff done straight)
    (heq : ∀ fuel, done' fuel = done fuel) : EndsIff done' straight := by
  obtain rfl : done' = done := funext heq
  exact h

theorem scanToEnd_endsIff (v : Vdrive) (p : BufferInfo) (l : Link) :
    EndsIff (fun fuel => (scanToEnd fuel v p l.1.toNat l.2.toNat).isSome)
      (Straight v (fun _ => false) (l, p.buffer)) :=
  ⟨fun _ _ hle h => scanToEnd_more l hle h, scanToEnd_ends v p l⟩

theorem findNextSlot_endsIff (v : Vdrive) (hslot : dir.slot = 7) :
    EndsIff (fun fuel => (vdriveDirFindNextSlot fuel v dir).isSome)
      (Straight v (stops dir fun _ => true) (linkOf dir.buffer, dir.buffer)) := by
  refine ⟨fun fuel fuel' hle h => ?_, (findNextSlot_ends v dir).trans (nextGood_ends v _ hslot)⟩
  obtain ⟨r, hr⟩ := Option.isSome_iff_exists.mp ((findNextSlot_isSome fuel v dir).mp h)
  exact (findNextSlot_isSome fuel' v dir).mpr (by rw [searchSlots_more hr hle]; rfl)

/-- Appending. -/
theorem iecOpenAppend_endsIff (v : Vdrive) (p : BufferInfo) (slot : Buf) :
    EndsIff (fun fuel => (iecOpenAppend fuel v p slot).isSome)
      (Straight v (fun _ => false) ((slot slotFirstTrack, slot slotFirstSector), p.buffer)) := by
  refine (scanToEnd_endsIff v { p with
    mode := .sequential
    slot := setBlocks (Function.update slot slotTypeOffset (slot slotTypeOffset &&& 0x7f)) 0xff
    track := (slot slotFirstTrack).toNat
    sector := (slot slotFirstSector).toNat } (slot slotFirstTrack, slot slotFirstSector)).congr
    fun fuel => ?_
  unfold iecOpenAppend
  dsimp only
  cases scanToEnd fuel v _ (slot slotFirstTrack).toNat (slot slotFirstSector).toNat with
  | none => rfl
  | some r =>
    obtain ⟨_ | _, q, sector⟩ := r
    · rfl
    · dsimp only
      split <;> rfl

/-- A search on the drive with another BAM. -/
theorem straight_same (h : SameDisk v w) (stop : Buf → Bool) (l : Link × Buf) :
    Straight w stop l ↔ Straight v stop l := by
  have hnext : nextSector w stop = nextSector v stop := by
    funext l
    unfold nextSector
    rw [h.read]
  unfold Straight
  rw [hnext]

theorem findFirstSlot_same (h : SameDisk v w) (name : Option (List UInt8)) (type : Nat) :
    vdriveDirFindFirstSlot w name type dir = vdriveDirFindFirstSlot v name type dir := by
  have hrest : w.headerTrack = v.headerTrack ∧ w.headerSector = v.headerSector ∧
      w.dirTrack = v.dirTrack ∧ w.dirSector = v.dirSector := by
    rw [h]
    exact ⟨rfl, rfl, rfl, rfl⟩
  unfold vdriveDirFindFirstSlot
  rw [h.read, h.format, hrest.1, hrest.2.1, hrest.2.2.1, hrest.2.2.2]

theorem iecOpenNp_some {ts : Nat × Nat} (hnp : v.imageFormat = .np)
    (ha : vdriveBamAllocFirstFreeSector v = (some ts, w)) :
    ∃ q, iecOpenNp v p = (some q, w) ∧ q.dir = p.dir := by
  unfold iecOpenNp
  rw [if_pos hnp, ha]
  exact ⟨_, rfl, rfl⟩

/-- A new file. -/
theorem iecOpenNew_endsIff (v : Vdrive) (p : BufferInfo) (cmd : CmdParse) :
    EndsIff (fun fuel => (iecOpenNew fuel v p cmd).isSome) (GoesStraight v p cmd p.dir none) := by
  have hsearch : ∀ w q, SameDisk v w → q.dir = p.dir →
      iecOpenNp v (vdriveDirCreateSlot p (cmd.file.take 16) cmd.filetype) = (some q, w) →
      EndsIff (fun fuel => (iecOpenNew fuel v p cmd).isSome)
        (Straight v (stops (vdriveDirFindFirstSlot v none 0 p.dir) fun _ => true)
          (linkOf (vdriveDirFindFirstSlot v none 0 p.dir).buffer,
            (vdriveDirFindFirstSlot v none 0 p.dir).buffer)) := by
    intro w q hsame hdir hnp
    have hends := @findNextSlot_endsIff (vdriveDirFindFirstSlot v none 0 p.dir) w rfl
    unfold EndsIff at hends ⊢
    rw [straight_same hsame] at hends
    refine EndsIff.congr hends fun fuel => ?_
    unfold iecOpenNew
    simp only [hnp, hdir, findFirstSlot_same hsame]
    rcases vdriveDirFindNextSlot fuel w (vdriveDirFindFirstSlot v none 0 p.dir) with _ | ⟨_ | _, d, x⟩ <;> rfl
  unfold GoesStraight
  by_cases hnp : v.imageFormat = .np
  · cases ha : vdriveBamAllocFirstFreeSector v with
    | mk r w =>
      have hsame : SameDisk v w := by
        have := allocFirstFreeSector_np hnp
        rwa [ha] at this
      cases r with
      | none =>
        refine EndsIff.always (fun fuel => ?_) (fun h => absurd rfl (h hnp))
        unfold iecOpenNew iecOpenNp
        simp only [if_pos hnp, ha]
        rfl
      | some ts =>
        obtain ⟨q, hq, hdir⟩ :=
          @iecOpenNp_some v w (vdriveDirCreateSlot p (cmd.file.take 16) cmd.filetype) ts hnp ha
        have hroom : v.imageFormat = .np → (some ts, w).1 ≠ none := fun _ h => by cases h
        unfold EndsIff
        rw [imp_iff_right hroom]
        exact hsearch w q hsame hdir hq
  · unfold EndsIff
    rw [imp_iff_right fun h => absurd h hnp]
    exact hsearch v (vdriveDirCreateSlot p (cmd.file.take 16) cmd.filetype) (SameDisk.refl v) rfl
      (by unfold iecOpenNp; rw [if_neg hnp])

/-- Opening a file to write. -/
theorem iecOpenWrite_endsIff (v : Vdrive) (p : BufferInfo) (cmd : CmdParse) (slot : Option Buf)
    (hro : v.image.readOnly = false) (hmode : p.readmode = cmd.readmode) :
    EndsIff (fun fuel => (iecOpenWrite fuel v p slot cmd).isSome) (GoesStraight v p cmd p.dir slot) := by
  cases slot with
  | none =>
    refine (iecOpenNew_endsIff v { p with needsupdate := false } cmd).congr fun fuel => ?_
    unfold iecOpenWrite
    simp only [hro, Bool.false_eq_true, if_false]
    rcases iecOpenNew fuel v { p with needsupdate := false } cmd with _ | ⟨_ | _, q, w⟩ <;> rfl
  | some slot =>
    unfold GoesStraight
    by_cases hover : Overwrites cmd slot
    · refine EndsIff.always (fun fuel => ?_) fun _ h => absurd hover h
      unfold iecOpenWrite
      simp only [hro, Bool.false_eq_true, if_false]
      rw [if_pos (show cmd.command.head? = some 0x40 ∨ _ from hover)]
      rfl
    · by_cases happ : p.readmode = .append
      · have happ' : cmd.readmode = .append := hmode.symm.trans happ
        unfold EndsIff
        simp only [imp_iff_right happ', imp_iff_right hover]
        refine EndsIff.congr (iecOpenAppend_endsIff v { p with needsupdate := false } slot) fun fuel => ?_
        unfold iecOpenWrite
        simp only [hro, Bool.false_eq_true, if_false]
        rw [if_neg (show ¬ (cmd.command.head? = some 0x40 ∨ _) from hover), if_pos happ]
        rcases iecOpenAppend fuel v { p with needsupdate := false } slot with _ | ⟨_ | _ | _, q⟩ <;> rfl
      · refine EndsIff.always (fun fuel => ?_) fun h _ => absurd (hmode.trans h) happ
        unfold iecOpenWrite
        simp only [hro, Bool.false_eq_true, if_false]
        rw [if_neg (show ¬ (cmd.command.head? = some 0x40 ∨ _) from hover), if_neg happ]
        rfl

/-- A call that writes goes on with `iec_open_write`; another is done. -/
theorem open_isSome (v : Vdrive) (p : BufferInfo) (cmd : CmdParse) {slot : Option Buf}
    (hmode : p.mode = .notInUse) (hfile : findFile fuel v (searchFor v p cmd) = some (slot, dir, v)) :
    (vdriveIecOpen fuel v p cmd).isSome ↔ (Writes v cmd slot → (iecOpenWrite fuel v
      { p with dir := dir, readmode := cmd.readmode, needsupdate := false } slot cmd).isSome) := by
  unfold vdriveIecOpen Writes
  rw [if_neg (not_not.mpr hmode)]
  unfold searchFor at hfile
  simp only [hfile]
  by_cases hrel : cmd.filetype = ftRel ∨ slot.map fileType = some ftRel
  · rw [if_pos hrel]
    exact ⟨fun _ h => absurd hrel (by tauto), fun _ => rfl⟩
  · rw [if_neg hrel]
    by_cases hread : cmd.readmode = .read
    · rw [if_pos hread]
      exact ⟨fun _ h => absurd hread h.2.2.1, fun _ => rfl⟩
    · rw [if_neg hread, Option.isSome_map]
      by_cases hro : v.image.readOnly = true
      · refine ⟨fun h _ => h, fun _ => ?_⟩
        unfold iecOpenWrite
        rw [if_pos hro]
        rfl
      · exact ⟨fun h _ => h, fun h => h (by simpa [hread, hro] using hrel)⟩

/-- A call that ends has found its way through the directory. -/
theorem open_search (hmode : p.mode = .notInUse) {cmd : CmdParse} (h : (vdriveIecOpen fuel v p cmd).isSome) :
    (findFile fuel v (searchFor v p cmd)).isSome ∧
      Straight v (stops (searchFor v p cmd) isFile)
        (linkOf (searchFor v p cmd).buffer, (searchFor v p cmd).buffer) := by
  have hsearch := (@findFile_ends (searchFor v p cmd) v (Int.natCast_nonneg _)).trans
    (nextGood_ends v isFile rfl)
  suffices hsome : (findFile fuel v (searchFor v p cmd)).isSome from ⟨hsome, hsearch.mp ⟨fuel, hsome⟩⟩
  unfold searchFor
  unfold vdriveIecOpen at h
  rw [if_neg (not_not.mpr hmode)] at h
  dsimp only at h
  split at h
  · cases h
  · next hfile =>
    rw [hfile]
    rfl

/-- Opening a file ends, if and only if the channel is in use already or no link of the directory and of the
file that it follows is one it has followed before. -/
theorem open_ends_iff (v : Vdrive) (p : BufferInfo) (cmd : CmdParse) :
    (∃ fuel, (vdriveIecOpen fuel v p cmd).isSome) ↔ p.mode ≠ .notInUse ∨ OpensStraight v p cmd := by
  by_cases hmode : p.mode = .notInUse
  · have hlen : 0 ≤ (searchFor v p cmd).findLength := Int.natCast_nonneg _
    have hsearch := (findFile_ends v hlen).trans (nextGood_ends v isFile rfl)
    refine ⟨fun ⟨fuel, h⟩ => Or.inr ?_, fun h => ?_⟩
    · obtain ⟨hsome, hstraight⟩ := open_search hmode h
      obtain ⟨r, hfile⟩ := Option.isSome_iff_exists.mp hsome
      refine ⟨hstraight, fun fuel' slot dir w hfile' hw => ?_⟩
      have hboth := (findFile_more hlen hfile (Nat.le_max_left fuel fuel')).1
      obtain ⟨hboth', hsame⟩ := findFile_more hlen hfile' (Nat.le_max_right fuel fuel')
      rw [hboth'] at hboth
      obtain rfl : r = (slot, dir, w) := (Option.some.inj hboth).symm
      obtain rfl : w = v := hsame
      have hwrite := (open_isSome w p cmd hmode hfile).mp h hw
      exact ((iecOpenWrite_endsIff w _ cmd slot hw.2.2.2 rfl).2).mp ⟨fuel, hwrite⟩
    · obtain ⟨hs, hgo⟩ := h.resolve_left (not_not.mpr hmode)
      obtain ⟨fuel, h⟩ := hsearch.mpr hs
      obtain ⟨⟨slot, dir, w⟩, hfile⟩ := Option.isSome_iff_exists.mp h
      obtain rfl : w = v := (findFile_more hlen hfile (Nat.le_refl fuel)).2
      by_cases hw : Writes w cmd slot
      · have hends := iecOpenWrite_endsIff w
          { p with dir := dir, readmode := cmd.readmode, needsupdate := false } cmd slot hw.2.2.2 rfl
        obtain ⟨fuel', h'⟩ := hends.2.mpr (hgo fuel slot dir w hfile hw)
        refine ⟨max fuel fuel', (open_isSome w p cmd hmode
          (findFile_more hlen hfile (Nat.le_max_left _ _)).1).mpr fun _ => ?_⟩
        exact hends.1 fuel' _ (Nat.le_max_right _ _) h'
      · exact ⟨fuel, (open_isSome w p cmd hmode hfile).mpr fun h => absurd h hw⟩
  · refine iff_of_true ⟨0, ?_⟩ (Or.inl hmode)
    unfold vdriveIecOpen
    rw [if_pos hmode]
    rfl

end

/-! ## A directory that goes round -/

/-- A disk whose only directory sector links to itself. -/
def loopDrive : Vdrive where
  image :=
    { shape := ⟨.d64, 35, 0⟩
      readOnly := true
      blocks := 683
      data := fun n k => if n = 358 then (if k = 0 then 18 else if k = 1 then 1 else 0) else 0
      errorMap := none }
  imageFormat := .f1541
  numTracks := 35
  haspt := false
  currentOffset := 0
  sysOffset := 0
  parts := ⟨fun _ => 0, fun _ => 0, fun _ => 0⟩
  bamTrack := 18
  bamSector := 0
  headerTrack := 18
  headerSector := 0
  dirTrack := 18
  dirSector := 1
  d90toggle := 0
  bamSize := 256
  bam := fun _ => 0
  bamState := fun _ => 0
  bamTracks := fun _ => 18
  bamSectors := fun _ => 0

/-- A channel that has not been used. -/
def freshChannel : BufferInfo where
  mode := .notInUse
  readmode := .read
  buffer := fun _ => 0
  slot := fun _ => 0
  bufptr := 0
  track := 0
  sector := 0
  length := 0
  dir := ⟨fun _ => 0, 0, fun _ => 0, 0, 0, 0, 0, 0, 0⟩
  needsupdate := false
  now := fun _ => 0

/-- No file can be opened on the disk with the directory that goes round. -/
theorem open_not_always : ¬ ∀ v p cmd, ∃ fuel, (vdriveIecOpen fuel v p cmd).isSome := by
  intro h
  obtain ⟨fuel, hopen⟩ := h loopDrive freshChannel ⟨[], [65], 1, .read⟩
  have hstraight := (open_search rfl hopen).2
  have hround : (place (nextSector loopDrive (stops (searchFor loopDrive freshChannel
      ⟨[], [65], 1, .read⟩) isFile)) (some (linkOf (searchFor loopDrive freshChannel
        ⟨[], [65], 1, .read⟩).buffer, (searchFor loopDrive freshChannel ⟨[], [65], 1, .read⟩).buffer))
      1).map Prod.fst = some (18, 1) := by decide +kernel
  obtain ⟨a, ha, hlink⟩ := Option.map_eq_some_iff.mp hround
  have hfirst : linkOf (searchFor loopDrive freshChannel ⟨[], [65], 1, .read⟩).buffer = (18, 1) := by
    decide +kernel
  have := hstraight 0 1 _ a rfl ha (hfirst.trans hlink.symm)
  cases this

end Vice.L3.OpenLoops
