import Vice.L3Drive.BamRuns
import Vice.L3Drive.Rel

/-!
# A relative file is opened (`vdrive-rel.c`)

The open functions once more, with arrays of a size and every access checked: one outside of its
array stops the run, and so does a division by zero. How many groups there are, which side sector is
the last and how long a record is all come from the disk.

Three things go unchecked: a super side sector full of groups is read past its end, a last group whose
six side sectors are all linked on is taken to have a seventh, and the record length may be zero.

Results:
* `readGroup_walk`, `readGroups_walk`: what is in the arrays once the side sectors are read.
* `relOpen_iff`: a file is opened inside of the arrays iff none of the three is the case.
* `relOpen_not_always`: a disk for each of them.
-/
namespace Vice.L3.RelOpen
open Vice.L3.Disk Vice.L3.Drive Vice.L3.BamSearch Vice.L3.BamRuns
open Vice.L3.Directory Vice.L3.Channel Vice.L3.Rel

/-- What stops a checked run. -/
inductive Fault
  | outside (size i : Nat)
  | zeroDivision
  | endless
  deriving DecidableEq

/-- An array as it is allocated. -/
structure Area where
  size : Nat
  byte : Nat → UInt8

def Area.load (a : Area) (i : Nat) : Except Fault UInt8 :=
  if i < a.size then .ok (a.byte i) else .error (.outside a.size i)

def Area.store (a : Area) (i : Nat) (v : UInt8) : Except Fault Area :=
  if i < a.size then .ok { a with byte := Function.update a.byte i v } else .error (.outside a.size i)

/-- The array with a sector in place `i`. -/
def Area.withSector (a : Area) (i : Nat) (buf : Buf) : Area :=
  { a with byte := fun k => if i ≤ k ∧ k < i + 256 then buf (k - i) else a.byte k }

/-- A sector is read to place `i`. -/
def Area.storeSector (a : Area) (i : Nat) (buf : Buf) : Except Fault Area :=
  if i + 255 < a.size then .ok (a.withSector i buf) else .error (.outside a.size (i + 255))

/-- `lib_malloc` and `memset` -/
def Area.zero (size : Nat) : Area := ⟨size, fun _ => 0⟩

/-- The arrays of an open file. -/
structure SideAreas where
  superSideSector : Area
  superSideSectorTrack : UInt8
  superSideSectorSector : UInt8
  sideSector : Area
  sideSectorTrack : Area
  sideSectorSector : Area
  sideSectorNeedsupdate : Area

/-! ## Reading the side sectors -/

/-- mirrors src/vdrive/vdrive-rel.c:691-692 -/
def countGroups (super : Area) : Nat → Nat → Except Fault Nat
  | 0, _ => .error .endless
  | fuel + 1, side => do
    let b ← super.load (offsetSuperPointer + side * 2)
    if b ≠ 0 then countGroups super fuel (side + 1) else return side

/-- mirrors src/vdrive/vdrive-rel.c:711-735: side sector `i` of group `j` and the `n - 1` after it. -/
def readGroup (vdrive : Vdrive) (j : Nat) :
    Nat → Nat → UInt8 → UInt8 → SideAreas → Except Fault (Option SideAreas)
  | 0, _, _, _, a => return some a
  | n + 1, i, track, sector, a => do
    let o := i + j * sideSectorsMax
    let tracks ← a.sideSectorTrack.store o track
    let sectors ← a.sideSectorSector.store o sector
    let (status, buf) :=
      vdriveReadSector vdrive (fun k => a.sideSector.byte (o * 256 + k)) track.toNat sector.toNat
    let sides ← a.sideSector.storeSector (o * 256) buf
    if status ≠ .ok then return none
    else
      let number ← sides.load (o * 256 + offsetSectorNum)
      if number.toNat ≠ i then return none
      else
        let track ← sides.load (o * 256 + offsetNextTrack)
        let sector ← sides.load (o * 256 + offsetNextSector)
        let a := { a with
          sideSector := sides, sideSectorTrack := tracks, sideSectorSector := sectors }
        if track = 0 then return some a else readGroup vdrive j n (i + 1) track sector a

/-- mirrors src/vdrive/vdrive-rel.c:707-736: group `j` and the `n - 1` after it. -/
def readGroups (vdrive : Vdrive) : Nat → Nat → SideAreas → Except Fault (Option SideAreas)
  | 0, _, a => return some a
  | n + 1, j, a => do
    let track ← a.superSideSector.load (offsetSuperPointer + j * 2)
    let sector ← a.superSideSector.load (offsetSuperPointer + j * 2 + 1)
    match ← readGroup vdrive j sideSectorsMax 0 track sector a with
    | none => return none
    | some a => readGroups vdrive n (j + 1) a

/-- mirrors src/vdrive/vdrive-rel.c:670-680: in place of a side sector, a super side sector that names
it. -/
def superBytes (slot block : Buf) : Buf :=
  if block offsetSuper254 ≠ 254 then fun k =>
    if k = offsetNextTrack ∨ k = offsetSuperPointer then slot slotSideTrack
    else if k = offsetNextSector ∨ k = offsetSuperPointer + 1 then slot slotSideSector
    else if k = offsetSuper254 then 254 else 0
  else block

/-- mirrors src/vdrive/vdrive-rel.c:668-705: the arrays for `side` groups, before any is read. -/
def allocateAreas (slot block : Buf) (side : Nat) : SideAreas :=
  let real := block offsetSuper254 = 254
  { superSideSector := ⟨256, superBytes slot block⟩
    superSideSectorTrack := if real then slot slotSideTrack else 0
    superSideSectorSector := if real then slot slotSideSector else 0
    sideSector := .zero (side * sideSectorsMax * 256)
    sideSectorTrack := .zero (side * sideSectorsMax)
    sideSectorSector := .zero (side * sideSectorsMax)
    sideSectorNeedsupdate := .zero (side * sideSectorsMax) }

/-- mirrors src/vdrive/vdrive-rel.c:641-739 (`vdrive_rel_open_existing`). `old` is what the allocated
super side sector holds. -/
def vdriveRelOpenExisting (vdrive : Vdrive) (old slot : Buf) : Except Fault (Option SideAreas) := do
  let (status, block) :=
    vdriveReadSector vdrive old (slot slotSideTrack).toNat (slot slotSideSector).toNat
  if status ≠ .ok then return none
  else
    let side ← countGroups ⟨256, superBytes slot block⟩ 128 0
    readGroups vdrive side 0 (allocateAreas slot block side)

/-! ## The number of records -/

/-- mirrors src/vdrive/vdrive-rel.c:981-983 -/
def countGroupsMax (super : Area) : Nat → Nat → Except Fault Nat
  | 0, side => return side
  | n + 1, side => do
    let b ← super.load (offsetSuperPointer + 2 * side)
    if b = 0 then return side else countGroupsMax super n (side + 1)

/-- mirrors src/vdrive/vdrive-rel.c:993-999 -/
def findLast (sides : Area) (side : Nat) : Nat → Nat → Except Fault Nat
  | 0, i => return i
  | n + 1, i => do
    let b ← sides.load (256 * (side * sideSectorsMax) + offsetNextTrack + 256 * i)
    if b = 0 then return i else findLast sides side n (i + 1)

/-- mirrors src/vdrive/vdrive-rel.c:955-1049 (`vdrive_rel_record_max`), with the data buffer. -/
def vdriveRelRecordMax (vdrive : Vdrive) (a : SideAreas) (buffer slot : Buf) :
    Except Fault (Nat × Buf) := do
  let groups ← countGroupsMax a.superSideSector sideSuperMax 0
  if groups = 0 then return (0, buffer)
  else
    let side := groups - 1
    let i ← findLast a.sideSector side sideSectorsMax 0
    let last ← a.sideSector.load (256 * (i + side * sideSectorsMax) + offsetNextSector)
    let j := listed last
    let track ← a.sideSector.load (placeOf side i j)
    let sector ← a.sideSector.load (placeOf side i j + 1)
    let (status, buffer) := vdriveReadSector vdrive buffer track.toNat sector.toNat
    if status ≠ .ok then return (0, buffer)
    else
      let k := (((side * sideSectorsMax + i) * sideIndexMax + (j + 2 ^ 32 - 1)) * 254 +
        (buffer offsetNextSector).toNat + 2 ^ 32 - 1) % 2 ^ 32
      let m := (slot slotRecordLength).toNat
      if m = 0 then .error .zeroDivision else return (k / m, buffer)

/-- mirrors src/vdrive/vdrive-rel.c:853-915 (`vdrive_rel_open`) of a file that exists, up to the place of
its first record, where it is moved to: the arrays, the number of records and that place; none if it
fails. -/
def vdriveRelOpen (vdrive : Vdrive) (old buffer slot : Buf) :
    Except Fault (Option (SideAreas × Nat × Option (UInt8 × UInt8))) := do
  match ← vdriveRelOpenExisting vdrive old slot with
  | none => return none
  | some a =>
    let (recordMax, _) ← vdriveRelRecordMax vdrive a buffer slot
    if slot slotRecordLength = 0 ∨ recordMax = 0 then return some (a, recordMax, none)
    else
      let track ← a.sideSector.load offsetPointer
      let sector ← a.sideSector.load (offsetPointer + 1)
      return some (a, recordMax, some (track, sector))

/-! ## What the disk says -/

/-- The walk along a group, `n` side sectors from `i` on: the number of the last, and it. None if one
cannot be read or has the wrong number; six if the last one is linked on. -/
def walkGroup (vdrive : Vdrive) : Nat → Nat → UInt8 → UInt8 → Option (Nat × Buf)
  | 0, i, _, _ => some (i, fun _ => 0)
  | n + 1, i, track, sector =>
    let (status, buf) := vdriveReadSector vdrive (fun _ => 0) track.toNat sector.toNat
    if status ≠ .ok ∨ (buf offsetSectorNum).toNat ≠ i then none
    else if buf offsetNextTrack = 0 then some (i, buf)
    else walkGroup vdrive n (i + 1) (buf offsetNextTrack) (buf offsetNextSector)

/-- The walk along group `j` and the `n - 1` after it: how the last ends. -/
def walkGroups (vdrive : Vdrive) (super : Buf) : Nat → Nat → Nat × Buf → Option (Nat × Buf)
  | 0, _, last => some last
  | n + 1, j, _ =>
    match walkGroup vdrive sideSectorsMax 0 (super (offsetSuperPointer + j * 2))
      (super (offsetSuperPointer + j * 2 + 1)) with
    | none => none
    | some last => walkGroups vdrive super n (j + 1) last

/-- A file that is opened inside of its arrays: its super side sector ends, and if all side sectors can be
read, so does the last group; and its records have a length, if the last sector can be read. -/
def Proper (vdrive : Vdrive) (old buffer slot : Buf) : Prop :=
  ∀ block, vdriveReadSector vdrive old (slot slotSideTrack).toNat (slot slotSideSector).toNat =
      (.ok, block) →
    (∃ n < 127, superBytes slot block (offsetSuperPointer + n * 2) = 0) ∧
    (sideGroups (superBytes slot block) ≠ 0 →
      ∀ i b, walkGroups vdrive (superBytes slot block) (sideGroups (superBytes slot block)) 0
          (0, fun _ => 0) = some (i, b) →
        i < sideSectorsMax ∧
        ((vdriveReadSector vdrive buffer (b (placeOf 0 0 (listed (b offsetNextSector)))).toNat
            (b (placeOf 0 0 (listed (b offsetNextSector)) + 1)).toNat).1 = .ok →
          slot slotRecordLength ≠ 0))

/-! ## Inside of the arrays -/

section
variable {vdrive : Vdrive} {a a' : SideAreas} {super block old buffer slot : Buf} {g i j n : Nat}
  {track sector : UInt8}

theorem Area.load_eq {a : Area} (h : i < a.size) : a.load i = .ok (a.byte i) := if_pos h

theorem Area.load_outside {a : Area} (h : ¬ i < a.size) : a.load i = .error (.outside a.size i) :=
  if_neg h

theorem Area.store_eq {a : Area} (h : i < a.size) (v : UInt8) :
    a.store i v = .ok { a with byte := Function.update a.byte i v } := if_pos h

theorem Area.storeSector_eq {a : Area} (h : i + 255 < a.size) (buf : Buf) :
    a.storeSector i buf = .ok (a.withSector i buf) := if_pos h

theorem Area.withSector_inside {a : Area} {o k : Nat} (hk : k < 256) (buf : Buf) :
    (a.withSector o buf).byte (o + k) = buf k := by
  refine (if_pos (by omega)).trans ?_
  rw [Nat.add_sub_cancel_left]

theorem Area.withSector_outside {a : Area} {o k : Nat} (hk : ¬ (o ≤ k ∧ k < o + 256)) (buf : Buf) :
    (a.withSector o buf).byte k = a.byte k := if_neg hk

theorem Area.withSector_load {a : Area} {o k : Nat} (h : o + 255 < a.size) (hk : k < 256) (buf : Buf) :
    (a.withSector o buf).load (o + k) = .ok (buf k) := by
  rw [load_eq (show o + k < (a.withSector o buf).size from (by omega : o + k < a.size)),
    withSector_inside hk]

/-- Arrays for `g` groups, with no side sectors from `o` on. -/
structure Sized (g o : Nat) (a : SideAreas) : Prop where
  sides : a.sideSector.size = g * sideSectorsMax * 256
  tracks : a.sideSectorTrack.size = g * sideSectorsMax
  sectors : a.sideSectorSector.size = g * sideSectorsMax
  fresh : ∀ k, o * 256 ≤ k → a.sideSector.byte k = 0

theorem Sized.mono {o o' : Nat} (h : Sized g o a) (hle : o ≤ o') : Sized g o' a :=
  ⟨h.sides, h.tracks, h.sectors, fun k hk => h.fresh k ((Nat.mul_le_mul_right 256 hle).trans hk)⟩

/-- The side sectors of group `j` from `i` on, up to the last. -/
structure Listed (a : SideAreas) (j i : Nat) (last : Nat × Buf) : Prop where
  bound : last.1 ≤ sideSectorsMax
  linked : ∀ i' < last.1, i ≤ i' → a.sideSector.byte ((i' + j * sideSectorsMax) * 256) ≠ 0
  ends : last.1 < sideSectorsMax → last.2 0 = 0 ∧
    ∀ k < 256, a.sideSector.byte ((last.1 + j * sideSectorsMax) * 256 + k) = last.2 k

/-- The arrays with side sector `o`. -/
def SideAreas.withSector (a : SideAreas) (o : Nat) (track sector : UInt8) (buf : Buf) : SideAreas :=
  { a with
    sideSector := a.sideSector.withSector (o * 256) buf
    sideSectorTrack := { a.sideSectorTrack with byte := Function.update a.sideSectorTrack.byte o track }
    sideSectorSector :=
      { a.sideSectorSector with byte := Function.update a.sideSectorSector.byte o sector } }

theorem Sized.withSector {o : Nat} (h : Sized g o a) (track sector : UInt8) (buf : Buf) :
    Sized g (o + 1) (a.withSector o track sector buf) where
  sides := h.sides
  tracks := h.tracks
  sectors := h.sectors
  fresh := fun k hk => by
    rw [Nat.add_one_mul] at hk
    exact (Area.withSector_outside (by omega) buf).trans (h.fresh k (Nat.le_of_add_right_le hk))

/-- A group is read as it is walked along. -/
theorem readGroup_walk (hj : j < g) (hn : n + i = sideSectorsMax) (h : Sized g (i + j * sideSectorsMax) a) :
    match walkGroup vdrive n i track sector with
    | none => readGroup vdrive j n i track sector a = .ok none
    | some last => ∃ a', readGroup vdrive j n i track sector a = .ok (some a') ∧
        a'.superSideSector = a.superSideSector ∧ Sized g ((j + 1) * sideSectorsMax) a' ∧
        (∀ k < (i + j * sideSectorsMax) * 256, a'.sideSector.byte k = a.sideSector.byte k) ∧
        Listed a' j i last := by
  induction n generalizing i track sector a with
  | zero =>
    have hi : i = sideSectorsMax := by omega
    refine ⟨a, rfl, rfl, h.mono (by rw [hi, Nat.add_mul]; omega), fun _ _ => rfl, by omega,
      fun i' h' hle => absurd h' (by omega), fun hlt => absurd hlt (by omega)⟩
  | succ n ih =>
    have hroom : i + j * sideSectorsMax < g * sideSectorsMax := by
      have := Nat.mul_le_mul_right sideSectorsMax (show j + 1 ≤ g from hj)
      rw [Nat.add_mul] at this
      omega
    have hold : (fun k => a.sideSector.byte ((i + j * sideSectorsMax) * 256 + k)) = fun _ => 0 :=
      funext fun k => h.fresh _ (Nat.le_add_right ..)
    have hfits : (i + j * sideSectorsMax) * 256 + 255 < a.sideSector.size := by rw [h.sides]; omega
    rw [walkGroup, readGroup]
    simp only [hold, Area.store_eq (show _ < a.sideSectorTrack.size by rw [h.tracks]; exact hroom),
      Area.store_eq (show _ < a.sideSectorSector.size by rw [h.sectors]; exact hroom),
      Area.storeSector_eq hfits, bind, Except.bind]
    rcases vdriveReadSector vdrive (fun _ => 0) track.toNat sector.toNat with ⟨status, buf⟩
    simp only [Area.withSector_load hfits (show offsetSectorNum < 256 by decide),
      Area.withSector_load hfits (show offsetNextTrack < 256 by decide),
      Area.withSector_load hfits (show offsetNextSector < 256 by decide)]
    by_cases hread : status = .ok
    · by_cases hnum : (buf offsetSectorNum).toNat = i
      · simp only [hread, hnum, ne_eq, not_true_eq_false, or_self, if_false]
        have hsized := h.withSector track sector buf
        have hbelow : ∀ k < (i + j * sideSectorsMax) * 256,
            (a.withSector (i + j * sideSectorsMax) track sector buf).sideSector.byte k =
              a.sideSector.byte k := fun k hk => Area.withSector_outside (by omega) buf
        have hthere : ∀ k < 256, (a.withSector (i + j * sideSectorsMax) track sector
            buf).sideSector.byte ((i + j * sideSectorsMax) * 256 + k) = buf k :=
          fun k hk => Area.withSector_inside hk buf
        by_cases hlast : buf offsetNextTrack = 0
        · simp only [if_pos hlast]
          exact ⟨_, rfl, rfl, hsized.mono (by rw [Nat.add_mul]; omega), hbelow, by omega,
            fun i' h' hle => absurd h' (by omega), fun _ => ⟨hlast, hthere⟩⟩
        · simp only [if_neg hlast]
          have hrest := @ih (a.withSector (i + j * sideSectorsMax) track sector buf) (i + 1)
            (buf offsetNextTrack) (buf offsetNextSector) (by omega)
            (by rw [Nat.add_right_comm]; exact hsized)
          rcases hw : walkGroup vdrive n (i + 1) (buf offsetNextTrack) (buf offsetNextSector) with _ | last
          · rw [hw] at hrest
            exact hrest
          · rw [hw] at hrest
            obtain ⟨a', hrun, hsuper, hsized', hkeep, hbound, hlinked, hends⟩ := hrest
            rw [Nat.add_right_comm, Nat.add_one_mul] at hkeep
            refine ⟨a', hrun, hsuper, hsized', fun k hk =>
              (hkeep k (Nat.lt_add_right 256 hk)).trans (hbelow k hk),
              hbound, fun i' h' hle => ?_, hends⟩
            by_cases heq : i' = i
            · subst heq
              have hnext := hthere 0 (by decide)
              rw [Nat.add_zero] at hnext
              rw [hkeep _ (Nat.lt_add_of_pos_right (by decide)), hnext]
              exact hlast
            · exact hlinked i' h' (by omega)
      · simp only [hread, hnum, ne_eq, not_true_eq_false, not_false_eq_true, or_true, if_true, if_false]
        rfl
    · simp only [hread, ne_eq, not_false_eq_true, true_or, if_true]
      rfl

/-- The groups are read as they are walked along. -/
theorem readGroups_walk {last : Nat × Buf} (hg : j + n = g) (hmax : g ≤ sideSuperMax)
    (hsuper : a.superSideSector = ⟨256, super⟩) (h : Sized g (j * sideSectorsMax) a)
    (hlast : 0 < j → Listed a (j - 1) 0 last) :
    match walkGroups vdrive super n j last with
    | none => readGroups vdrive n j a = .ok none
    | some last => ∃ a', readGroups vdrive n j a = .ok (some a') ∧
        a'.superSideSector = ⟨256, super⟩ ∧ Sized g (g * sideSectorsMax) a' ∧
        (0 < g → Listed a' (g - 1) 0 last) := by
  induction n generalizing j a last with
  | zero =>
    rw [Nat.add_zero] at hg
    subst hg
    exact ⟨a, rfl, hsuper, h, hlast⟩
  | succ n ih =>
    have hplace : offsetSuperPointer + j * 2 + 1 < 256 := by
      unfold sideSuperMax at hmax
      unfold offsetSuperPointer
      omega
    rw [walkGroups, readGroups, hsuper,
      Area.load_eq (a := ⟨256, super⟩) (Nat.lt_of_succ_lt hplace), Area.load_eq (a := ⟨256, super⟩) hplace]
    simp only [bind, Except.bind]
    have hgroup := @readGroup_walk vdrive a g 0 j sideSectorsMax (super (offsetSuperPointer + j * 2))
      (super (offsetSuperPointer + j * 2 + 1)) (by omega) rfl (by rw [Nat.zero_add]; exact h)
    rcases hw : walkGroup vdrive sideSectorsMax 0 (super (offsetSuperPointer + j * 2))
      (super (offsetSuperPointer + j * 2 + 1)) with _ | last'
    · rw [hw] at hgroup
      simp only [hgroup]
      rfl
    · rw [hw] at hgroup
      obtain ⟨a', hrun, hsuper', hsized, -, hlisted⟩ := hgroup
      simp only [hrun]
      exact ih (by omega) (hsuper'.trans hsuper) hsized fun _ => hlisted

/-! ## Counting -/

/-- The super side sector ends at pointer `n`. -/
def EndsAt (super : Buf) (n : Nat) : Prop :=
  super (offsetSuperPointer + n * 2) = 0 ∧ ∀ m < n, super (offsetSuperPointer + m * 2) ≠ 0

theorem countGroups_ends {fuel side : Nat} (hn : n < 127) (h : EndsAt super n) (hside : side ≤ n)
    (hfuel : n < fuel + side) : countGroups ⟨256, super⟩ fuel side = .ok n := by
  induction fuel generalizing side with
  | zero => omega
  | succ fuel ih =>
    rw [countGroups, Area.load_eq (a := ⟨256, super⟩)
      (show offsetSuperPointer + side * 2 < 256 by unfold offsetSuperPointer; omega)]
    simp only [bind, Except.bind]
    by_cases heq : side = n
    · rw [heq, if_neg (not_not.mpr h.1)]
      rfl
    · rw [if_pos (h.2 side (by omega))]
      exact ih (by omega) (by omega)

theorem countGroups_outside {fuel side : Nat}
    (h : ∀ n < 127, super (offsetSuperPointer + n * 2) ≠ 0) (hside : side ≤ 127)
    (hfuel : 127 < fuel + side) :
    countGroups ⟨256, super⟩ fuel side = .error (.outside 256 257) := by
  induction fuel generalizing side with
  | zero => omega
  | succ fuel ih =>
    rw [countGroups]
    by_cases heq : side = 127
    · subst heq
      rfl
    · rw [Area.load_eq (a := ⟨256, super⟩)
        (show offsetSuperPointer + side * 2 < 256 by unfold offsetSuperPointer; omega)]
      simp only [bind, Except.bind]
      rw [if_pos (h side (by omega))]
      exact ih (by omega) (by omega)

theorem countGroupsMax_ends {side m : Nat} (hn : n < 127) (h : EndsAt super n) (hside : side ≤ n)
    (hm : m + side = sideSuperMax) : countGroupsMax ⟨256, super⟩ m side = .ok n := by
  unfold sideSuperMax at hm
  induction m generalizing side with
  | zero =>
    rw [countGroupsMax, show side = n by omega]
    rfl
  | succ m ih =>
    rw [countGroupsMax, Nat.mul_comm, Area.load_eq (a := ⟨256, super⟩)
      (show offsetSuperPointer + side * 2 < 256 by unfold offsetSuperPointer; omega)]
    simp only [bind, Except.bind]
    by_cases heq : side = n
    · rw [heq, if_pos h.1]
      rfl
    · rw [if_neg (h.2 side (by omega))]
      exact ih (by omega) (by omega)

theorem EndsAt.sideGroups (hn : n < 127) (h : EndsAt super n) : sideGroups super = n := by
  unfold Rel.sideGroups
  by_cases hlt : n < sideSuperMax
  · rw [List.find?_range_eq_some.mpr ⟨decide_eq_true (by rw [Nat.mul_comm]; exact h.1),
      List.mem_range.mpr hlt, fun m hm => ?_⟩]
    · rfl
    · rw [Nat.mul_comm, decide_eq_false (h.2 m hm)]
      rfl
  · rw [List.find?_range_eq_none.mpr fun m hm => ?_]
    · unfold sideSuperMax at hlt ⊢
      exact (show n = 126 by omega).symm
    · unfold sideSuperMax at hlt hm
      rw [Nat.mul_comm, decide_eq_false (h.2 m (by omega))]
      rfl

/-- A super side sector with a zero ends at the first. -/
theorem exists_endsAt (h : ∃ n < 127, super (offsetSuperPointer + n * 2) = 0) : ∃ n < 127, EndsAt super n := by
  obtain ⟨n, hn, h0⟩ := h
  induction n using Nat.strong_induction_on with
  | _ n ih =>
    by_cases hmin : ∀ m < n, super (offsetSuperPointer + m * 2) ≠ 0
    · exact ⟨n, hn, h0, hmin⟩
    · push Not at hmin
      obtain ⟨m, hm, hm0⟩ := hmin
      exact ih m hm (hm.trans hn) hm0

theorem findLast_listed {last : Nat × Buf} {m : Nat} (h : Listed a j 0 last) (hi : i ≤ last.1)
    (hm : m + i = sideSectorsMax) (hsize : (j + 1) * sideSectorsMax * 256 ≤ a.sideSector.size) :
    findLast a.sideSector j m i = .ok last.1 := by
  have hbound := h.bound
  induction m generalizing i with
  | zero =>
    rw [findLast, show i = last.1 by omega]
    rfl
  | succ m ih =>
    have hplace : 256 * (j * sideSectorsMax) + offsetNextTrack + 256 * i =
        (i + j * sideSectorsMax) * 256 := by
      unfold offsetNextTrack
      rw [Nat.add_zero, ← Nat.mul_add, Nat.mul_comm, Nat.add_comm]
    have hin : (i + j * sideSectorsMax) * 256 < a.sideSector.size := by
      unfold sideSectorsMax at hm hsize ⊢
      omega
    rw [findLast, hplace, Area.load_eq hin]
    simp only [bind, Except.bind]
    by_cases heq : i = last.1
    · have h0 := h.ends (by omega)
      have hfirst := (h0.2 0 (by decide)).trans h0.1
      rw [Nat.add_zero] at hfirst
      rw [heq, if_pos hfirst]
      rfl
    · rw [if_neg (h.linked i (by omega) (Nat.zero_le _))]
      exact ih (by omega) (by omega)

/-! ## The last sector -/

/-- How many sectors a side sector lists, before it is taken for an `unsigned int`. -/
theorem listed_range (last : UInt8) : ∃ q : Int, -7 ≤ q ∧ q ≤ 120 ∧ listed last = (q % 2 ^ 32).toNat := by
  have hall : ∀ n : Fin 256, -7 ≤ ((n.val : Int) + 1 - 16).tdiv 2 ∧
      ((n.val : Int) + 1 - 16).tdiv 2 ≤ 120 := by decide +kernel
  obtain ⟨h1, h2⟩ := hall ⟨last.toNat, last.toNat_lt⟩
  exact ⟨_, h1, h2, rfl⟩

/-- Whatever the last byte of a side sector is, the last entry is inside of it. -/
theorem place_inside (last : UInt8) : placeOf 0 0 (listed last) + 1 < 256 := by
  obtain ⟨q, h1, h2, hq⟩ := listed_range last
  rw [hq]
  unfold placeOf sideSectorsMax offsetPointer
  omega

theorem place_split (last : UInt8) (hj : i + j * sideSectorsMax < 2 ^ 16) :
    placeOf j i (listed last) = (i + j * sideSectorsMax) * 256 + placeOf 0 0 (listed last) := by
  obtain ⟨q, h1, h2, hq⟩ := listed_range last
  rw [hq]
  unfold placeOf sideSectorsMax offsetPointer at *
  omega

/-- The records of arrays that were read: how the last group ends decides. -/
theorem recordMax_listed {last : Nat × Buf} (hn : n < 127) (hends : EndsAt super n)
    (hsuper : a.superSideSector = ⟨256, super⟩) (h : Sized n (n * sideSectorsMax) a)
    (hlast : 0 < n → Listed a (n - 1) 0 last) :
    (∃ r, vdriveRelRecordMax vdrive a buffer slot = .ok r) ↔
      (n ≠ 0 → last.1 < sideSectorsMax ∧
        ((vdriveReadSector vdrive buffer
            (last.2 (placeOf 0 0 (listed (last.2 offsetNextSector)))).toNat
            (last.2 (placeOf 0 0 (listed (last.2 offsetNextSector)) + 1)).toNat).1 = .ok →
          slot slotRecordLength ≠ 0)) := by
  unfold vdriveRelRecordMax
  rw [hsuper, countGroupsMax_ends (m := sideSuperMax) hn hends (Nat.zero_le n) rfl]
  simp only [bind, Except.bind]
  by_cases h0 : n = 0
  · rw [if_pos h0]
    exact ⟨fun _ hne => absurd h0 hne, fun _ => ⟨_, rfl⟩⟩
  rw [if_neg h0]
  have hl := hlast (by omega)
  have hsize : (n - 1 + 1) * sideSectorsMax * 256 ≤ a.sideSector.size := by
    rw [h.sides, show n - 1 + 1 = n by omega]
  rw [findLast_listed (m := sideSectorsMax) hl (Nat.zero_le _) rfl hsize]
  obtain ⟨i, b⟩ := last
  have hbound := hl.bound
  simp only at hbound ⊢
  by_cases hi : i < sideSectorsMax
  · have hin : (i + (n - 1) * sideSectorsMax) * 256 + 256 ≤ a.sideSector.size := by
      rw [← Nat.add_one_mul]
      refine le_trans (Nat.mul_le_mul_right 256 ?_) hsize
      rw [Nat.add_one_mul (n - 1)]
      omega
    have hload : ∀ k < 256, a.sideSector.load ((i + (n - 1) * sideSectorsMax) * 256 + k) = .ok (b k) := by
      intro k hk
      rw [Area.load_eq (by omega), (hl.ends hi).2 k hk]
    have hplace := place_inside (b offsetNextSector)
    have hsplit := place_split (i := i) (j := n - 1) (b offsetNextSector) (by
      unfold sideSectorsMax at hi ⊢
      omega)
    rw [Nat.mul_comm 256, hload offsetNextSector (by decide)]
    simp only
    rw [hsplit, hload _ (by omega), Nat.add_assoc, hload _ hplace]
    simp only
    have hzero : (slot slotRecordLength).toNat = 0 ↔ slot slotRecordLength = 0 :=
      UInt8.toNat_inj (b := 0)
    rcases vdriveReadSector vdrive buffer (b (placeOf 0 0 (listed (b offsetNextSector)))).toNat
      (b (placeOf 0 0 (listed (b offsetNextSector)) + 1)).toNat with ⟨status, data⟩
    by_cases hread : status = .ok
    · by_cases hlen : slot slotRecordLength = 0
      · rw [if_neg (not_not.mpr hread), if_pos (hzero.mpr hlen)]
        exact ⟨fun ⟨_, hr⟩ => (by cases hr), fun hall => absurd hlen ((hall h0).2 hread)⟩
      · rw [if_neg (not_not.mpr hread), if_neg fun heq => hlen (hzero.mp heq)]
        exact ⟨fun _ _ => ⟨hi, fun _ => hlen⟩, fun _ => ⟨_, rfl⟩⟩
    · rw [if_pos hread]
      exact ⟨fun _ _ => ⟨hi, fun hr => absurd hr hread⟩, fun _ => ⟨_, rfl⟩⟩
  · -- all six side sectors are linked on, and the seventh is not there
    have hsix : i = sideSectorsMax := by omega
    have hout : ¬ 256 * (i + (n - 1) * sideSectorsMax) + offsetNextSector < a.sideSector.size := by
      rw [h.sides, hsix]
      unfold sideSectorsMax offsetNextSector
      omega
    rw [Area.load_outside hout]
    exact ⟨fun ⟨_, hr⟩ => (by cases hr), fun hall => absurd (hall h0).1 hi⟩

/-- Once the number of records is there, so is the place of the first. -/
theorem recordMax_first {r : Nat × Buf} (hn : n < 127) (hends : EndsAt super n)
    (hsuper : a.superSideSector = ⟨256, super⟩) (h : Sized n (n * sideSectorsMax) a)
    (hr : vdriveRelRecordMax vdrive a buffer slot = .ok r) (hmax : r.1 ≠ 0) :
    offsetPointer + 1 < a.sideSector.size := by
  have h0 : n ≠ 0 := by
    intro h0
    subst h0
    unfold vdriveRelRecordMax at hr
    rw [hsuper, countGroupsMax_ends (m := sideSuperMax) hn hends (Nat.zero_le 0) rfl] at hr
    cases hr
    exact hmax rfl
  rw [h.sides]
  unfold sideSectorsMax offsetPointer
  omega

/-- A file is opened inside of its arrays, or not opened, iff it is proper. -/
theorem relOpen_iff (vdrive : Vdrive) (old buffer slot : Buf) :
    (∃ r, vdriveRelOpen vdrive old buffer slot = .ok r) ↔ Proper vdrive old buffer slot := by
  unfold vdriveRelOpen vdriveRelOpenExisting Proper
  rcases vdriveReadSector vdrive old (slot slotSideTrack).toNat (slot slotSideSector).toNat with
    ⟨status, block⟩
  by_cases hread : status = .ok
  swap
  · simp only [if_pos hread, bind, Except.bind]
    exact ⟨fun _ b hb => absurd (Prod.mk.inj hb).1 hread, fun _ => ⟨_, rfl⟩⟩
  subst hread
  simp only [ne_eq, not_true_eq_false, if_false, bind, Except.bind, Prod.mk.injEq, true_and, forall_eq']
  by_cases hshort : ∃ n < 127, superBytes slot block (offsetSuperPointer + n * 2) = 0
  swap
  · -- the count of the groups runs past the end
    push Not at hshort
    rw [countGroups_outside hshort (Nat.zero_le _) (by decide)]
    exact ⟨fun ⟨_, hr⟩ => (by cases hr), fun h => by
      obtain ⟨⟨n, hn, h0⟩, -⟩ := h
      exact absurd h0 (hshort n hn)⟩
  obtain ⟨n, hn, hends⟩ := exists_endsAt hshort
  have hwalk := @readGroups_walk vdrive (allocateAreas slot block n) (superBytes slot block) n 0 n
    (0, fun _ => 0) (Nat.zero_add n) (Nat.le_of_lt_succ hn) rfl ⟨rfl, rfl, rfl, fun _ _ => rfl⟩
    fun h => absurd h (Nat.lt_irrefl 0)
  rw [countGroups_ends hn hends (Nat.zero_le n) (by omega), hends.sideGroups hn]
  simp only [hshort, true_and]
  rcases hw : walkGroups vdrive (superBytes slot block) n 0 (0, fun _ => 0) with _ | last
  · rw [hw] at hwalk
    simp only [hwalk]
    exact ⟨fun _ _ _ _ h => (by cases h), fun _ => ⟨_, rfl⟩⟩
  · rw [hw] at hwalk
    obtain ⟨a, hrun, hsuper, hsized, hlisted⟩ := hwalk
    have hmax := @recordMax_listed vdrive a (superBytes slot block) buffer slot n last hn hends hsuper
      hsized hlisted
    simp only [hrun, Option.some.injEq]
    obtain ⟨i, b⟩ := last
    refine Iff.trans ?_ (hmax.trans ⟨fun h h0 _ _ heq => by cases heq; exact h h0,
      fun h h0 => h h0 i b rfl⟩)
    rcases hr : vdriveRelRecordMax vdrive a buffer slot with e | r
    · exact ⟨fun ⟨_, h⟩ => (by cases h), fun ⟨_, h⟩ => (by cases h)⟩
    · refine ⟨fun _ => ⟨r, rfl⟩, fun _ => ?_⟩
      by_cases hnone : slot slotRecordLength = 0 ∨ r.1 = 0
      · exact ⟨_, if_pos hnone⟩
      · have hroom := recordMax_first hn hends hsuper hsized hr fun h => hnone (Or.inr h)
        simp only [if_neg hnone, Area.load_eq (Nat.lt_of_succ_lt hroom), Area.load_eq hroom]
        exact ⟨_, rfl⟩

end

/-! ## Three disks -/

/-- A 1541 disk with given blocks. -/
def blocksDrive (data : Nat → Buf) : Vdrive :=
  { strayDrive with image := { strayDrive.image with data := data } }

/-- An entry of a relative file whose first side sector is 1/0. -/
def relSlot (length : UInt8) : Buf := fun k =>
  if k = slotSideTrack then 1 else if k = slotRecordLength then length else 0

/-- What stops a run. -/
def faultOf {α : Type} : Except Fault α → Option Fault
  | .ok _ => none
  | .error e => some e

/-- A super side sector without an end, a sixth side sector that is linked on, records without length. -/
theorem relOpen_not_always :
    faultOf (vdriveRelOpen (blocksDrive fun _ _ => 254) (fun _ => 0) (fun _ => 0) (relSlot 10)) =
      some (.outside 256 257) ∧
    faultOf (vdriveRelOpen (blocksDrive fun n k => if k = 0 then 1 else if k = 1 then UInt8.ofNat (n + 1)
        else if k = 2 then UInt8.ofNat n else 0) (fun _ => 0) (fun _ => 0) (relSlot 10)) =
      some (.outside 1536 1537) ∧
    faultOf (vdriveRelOpen (blocksDrive fun _ k => if k = 1 then 17 else if k = 16 then 1 else 0)
        (fun _ => 0) (fun _ => 0) (relSlot 0)) = some .zeroDivision := by
  decide +kernel

end Vice.L3.RelOpen
