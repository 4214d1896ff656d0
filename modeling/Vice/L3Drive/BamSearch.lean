import Vice.L3Drive.BamLayout

/-!
# Looking for a free sector (`vdrive-bam.c`)

A new file starts on the track next to the directory that has a free sector, trying
both sides in turn; a file goes on a few sectors further on the same track, then away
from the directory, then on the other side of it. A D9090/60 has several heads to a
track and a toggle instead of the first search; a NP partition is searched sector by
sector from the current one.

A search returns the track and sector it allocated, or `none` for -1, when the caller's
variables are left as they were.

Results:
* `vdriveBamAllocNextFreeSectorInterleave_ok`: a search allocates one free sector of the disk, or
  changes nothing, if the interleave cannot carry it past the end of a track; it fails only if no
  usable sector ahead is free.
* `vdriveBamAllocFirstFreeSector_ok`: so does the search for a new file.
-/
namespace Vice.L3.BamSearch
open Vice.L0.Bitmap Vice.L2.Geometry Vice.L3.Disk Vice.L3.Drive Vice.L3.Bam Vice.L3.BamEntry
open Vice.L3.BamLayout

/-- mirrors src/vdrive/vdrive-bam.c:138-162 (`vdrive_calculate_disk_half`) -/
def vdriveCalculateDiskHalf (v : Vdrive) : Nat :=
  match v.imageFormat with
  | .f1541 | .f2040 => 17 + 5
  | .f1571 => 17 + 35
  | .f1581 => 40
  | .f8050 => 39
  | .f8250 => 39 + 78
  | .np | .f9000 => v.numTracks - 1
  | _ => 2 ^ 32 - 1

/-- mirrors src/vdrive/vdrive-bam.c:165-200 (`vdrive_bam_get_interleave`) -/
def vdriveBamGetInterleave (v : Vdrive) : Nat :=
  match v.imageFormat with
  | .f1541 => if v.haspt then 1 else 10
  | .f1571 => if v.haspt then 1 else 6
  | .f2040 => 10
  | .f1581 => 1
  | .f8050 => 6
  | .f8250 => 5
  | .np => 1
  | .f9000 => 10
  | _ => 10

/-- mirrors src/vdrive/vdrive-bam.c:238-247: `n` sectors of a head from `s` on. Returns `s` as well. -/
def scanHead (track h maxSector : Nat) : Nat → Nat → Vdrive → Option Nat × Nat × Vdrive
  | 0, s, v => (none, s, v)
  | n + 1, s, v =>
    let (ok, v) := vdriveBamAllocateSector v track (s + h)
    if ok then (some (s + h), s, v)
    else scanHead track h maxSector n (if s + 1 ≥ maxSector then 0 else s + 1) v

/-- mirrors src/vdrive/vdrive-bam.c:236-254: `n` heads from `h` on -/
def scanHeads (track maxSector maxSectorAll : Nat) :
    Nat → Nat → Nat → Vdrive → Option Nat × Vdrive
  | 0, _, _, v => (none, v)
  | n + 1, s, h, v =>
    match scanHead track h maxSector maxSector s v with
    | (some sector, _, v) => (some sector, v)
    | (none, s, v) =>
      scanHeads track maxSector maxSectorAll n s
        (if h + maxSector ≥ maxSectorAll then 0 else h + maxSector) v

/-- mirrors src/vdrive/vdrive-bam.c:210-256 (`vdrive_bam_alloc_worker`) -/
def vdriveBamAllocWorker (v : Vdrive) (track sector : Nat) : Option Nat × Vdrive :=
  let maxSector := vdriveGetMaxSectorsPerHead v track
  let maxSectorAll := vdriveGetMaxSectors v track
  scanHeads track maxSector maxSectorAll ((maxSectorAll + maxSector - 1) / maxSector)
    (sector % maxSector) (sector / maxSector * maxSector) v

/-- mirrors src/vdrive/vdrive-bam.c:346-379 (`vdrive_bam_alloc_add_interleave`) -/
def vdriveBamAllocAddInterleave (v : Vdrive) (track sector interleave : Nat) : Nat :=
  let maxSector := vdriveGetMaxSectorsPerHead v track
  let maxSectorAll := vdriveGetMaxSectors v track
  let (s, h) :=
    if sector ≥ maxSectorAll then (sector, 0)
    else (sector % maxSector, sector / maxSector * maxSector)
  let s := s + interleave
  let s := if s ≥ maxSector then s - maxSector - 1 else s
  s + h

/-- mirrors src/vdrive/vdrive-bam.c:383-400 (`vdrive_bam_alloc_down`) -/
def vdriveBamAllocDown (sector interleave : Nat) : Nat → Vdrive → Option (Nat × Nat) × Vdrive
  | 0, v => (none, v)
  | t + 1, v =>
    match vdriveBamAllocWorker v (t + 1) (vdriveBamAllocAddInterleave v (t + 1) sector interleave) with
    | (some s, v) => (some (t + 1, s), v)
    | (none, v) => vdriveBamAllocDown sector interleave t v

/-- mirrors src/vdrive/vdrive-bam.c:404-421 (`vdrive_bam_alloc_up`): `n` tracks from `t` on -/
def vdriveBamAllocUp (sector interleave : Nat) : Nat → Nat → Vdrive → Option (Nat × Nat) × Vdrive
  | 0, _, v => (none, v)
  | n + 1, t, v =>
    match vdriveBamAllocWorker v t (vdriveBamAllocAddInterleave v t sector interleave) with
    | (some s, v) => (some (t, s), v)
    | (none, v) => vdriveBamAllocUp sector interleave n (t + 1) v

/-- mirrors src/vdrive/vdrive-bam.c:424-436 (`vdrive_bam_alloc_next_free_sector_reset`) -/
def vdriveBamAllocNextFreeSectorReset (v : Vdrive) (track sector interleave : Nat) : Nat :=
  let s := vdriveBamAllocAddInterleave v track sector interleave
  let maxSector := vdriveGetMaxSectorsPerHead v track
  s / maxSector * maxSector

/-- mirrors src/vdrive/vdrive-bam.c:475-498: at most `n` steps through a NP partition -/
def scanNp (maxSector : Nat) : Nat → Nat → Nat → Vdrive → Option (Nat × Nat) × Vdrive
  | 0, _, _, v => (none, v)
  | n + 1, track, sector, v =>
    let (track, sector) :=
      if sector + 1 ≥ maxSector then (if track + 1 > v.numTracks then 1 else track + 1, 0)
      else (track, sector + 1)
    let sector := if track = 1 ∧ sector < 64 then 64 else sector
    let (ok, v) := vdriveBamAllocateSector v track sector
    if ok then (some (track, sector), v) else scanNp maxSector n track sector v

/-- mirrors src/vdrive/vdrive-bam.c:513-541: `n` passes -/
def scanPasses (interleave : Nat) : Nat → Nat → Nat → Vdrive → Option (Nat × Nat) × Vdrive
  | 0, _, _, v => (none, v)
  | n + 1, track, sector, v =>
    let split := v.dirTrack
    if track > 0 ∧ track < split then
      match vdriveBamAllocDown sector interleave track v with
      | (some ts, v) => (some ts, v)
      | (none, v) =>
        scanPasses interleave n (split + 1)
          (vdriveBamAllocNextFreeSectorReset v (split + 1) sector interleave) v
    else if track ≥ split then
      match vdriveBamAllocUp sector interleave (v.numTracks + 1 - track) track v with
      | (some ts, v) => (some ts, v)
      | (none, v) =>
        scanPasses interleave n (split - 1)
          (vdriveBamAllocNextFreeSectorReset v (split - 1) sector interleave) v
    else scanPasses interleave n track sector v

/-- mirrors src/vdrive/vdrive-bam.c:443-555 (`vdrive_bam_alloc_next_free_sector_interleave`) -/
def vdriveBamAllocNextFreeSectorInterleave (v : Vdrive) (track sector interleave : Nat) :
    Option (Nat × Nat) × Vdrive :=
  if v.imageFormat = .np then
    let sector := if track = v.dirTrack ∧ sector < 63 then 63 else sector
    let maxSector := vdriveGetMaxSectorsPerHead v track
    scanNp maxSector (maxSector * v.numTracks) track sector v
  else if track = v.dirTrack ∧ v.imageFormat ≠ .f9000 then (none, v)
  else
    match vdriveBamAllocWorker v track (vdriveBamAllocAddInterleave v track sector interleave) with
    | (some s, v) => (some (track, s), v)
    | (none, v) =>
      match scanPasses interleave 3 track sector v with
      | (some ts, v) => (some ts, v)
      | (none, v) =>
        -- when all other space is full, a D9090/60 takes the directory track
        if v.imageFormat = .f9000 then
          match vdriveBamAllocWorker v v.dirTrack 10 with
          | (some s, v) => (some (v.dirTrack, s), v)
          | (none, v) => (none, v)
        else (none, v)

/-- mirrors src/vdrive/vdrive-bam.c:558-564 (`vdrive_bam_alloc_next_free_sector`) -/
def vdriveBamAllocNextFreeSector (v : Vdrive) (track sector : Nat) : Option (Nat × Nat) × Vdrive :=
  vdriveBamAllocNextFreeSectorInterleave v track sector (vdriveBamGetInterleave v)

/-- mirrors src/vdrive/vdrive-bam.c:313-322 and 328-339: a track at the distance `d`, if it exists. -/
def tryTrack (v : Vdrive) (d : Nat) (exist : Bool) (track sector : Nat) :
    Option (Nat × Nat) × Vdrive :=
  if d ≠ 0 ∧ exist then
    match vdriveBamAllocWorker v track sector with
    | (some s, v) => (some (track, s), v)
    | (none, v) => (none, v)
  else (none, v)

/-- mirrors src/vdrive/vdrive-bam.c:307-341: the distances `d` to `d + n - 1` from the directory -/
def scanButterfly : Nat → Nat → Nat → Vdrive → Option (Nat × Nat) × Vdrive
  | 0, _, _, v => (none, v)
  | n + 1, d, sector, v =>
    match tryTrack v d (v.dirTrack ≥ d + 1) (v.dirTrack - d) sector with
    | (some ts, v) => (some ts, v)
    | (none, v) =>
      match tryTrack v d (v.dirTrack + d ≤ v.numTracks) (v.dirTrack + d) sector with
      | (some ts, v) => (some ts, v)
      | (none, v) => scanButterfly n (d + 1) sector v

/-- mirrors src/vdrive/vdrive-bam.c:263-344 (`vdrive_bam_alloc_first_free_sector`) -/
def vdriveBamAllocFirstFreeSector (v : Vdrive) : Option (Nat × Nat) × Vdrive :=
  if v.imageFormat = .f9000 then
    let v := { v with d90toggle := Nat.xor v.d90toggle 1 }
    let track := if v.d90toggle ≠ 0 then v.dirTrack + 1 else v.dirTrack - 1
    vdriveBamAllocNextFreeSector v track 0
  else if v.imageFormat = .np then vdriveBamAllocNextFreeSector v v.dirTrack v.dirSector
  else scanButterfly (vdriveCalculateDiskHalf v + 1) 0 0 v

/-! ## One track -/

/-- No sector of the track is free. -/
def Full (disk : Nat → Buf) (v : Vdrive) (t : Nat) : Prop :=
  ∀ j < vdriveGetMaxSectors v t, isFree v (view v disk) t j = false

/-- A sector of track `t` is allocated now, or none was free. -/
def Took (disk : Nat → Buf) (v w : Vdrive) (t : Nat) : Option Nat → Prop
  | none => Loads disk v w ∧ Full disk v t
  | some s => Allocated disk v w t s

/-- Nothing was found, or a sector is allocated now. -/
def Found (disk : Nat → Buf) (v w : Vdrive) : Option (Nat × Nat) → Prop
  | none => Loads disk v w
  | some (t, s) => Allocated disk v w t s

section
variable {v w u : Vdrive} {disk : Nat → Buf} {t s : Nat}

theorem maxSectors_same (h : SameDisk v w) : vdriveGetMaxSectors w = vdriveGetMaxSectors v ∧
      vdriveGetMaxSectorsPerHead w = vdriveGetMaxSectorsPerHead v := by
  rw [h]
  exact ⟨rfl, rfl⟩

theorem full_loads (hl : Loads disk v w) : Full disk w t ↔ Full disk v t := by
  unfold Full
  simp only [(maxSectors_same hl.same).1, isFree_loads hl]

/-- The heads of a track are of equal size. -/
theorem heads (h : Formatted v disk) (hpos : 0 < vdriveGetMaxSectors v t) : 0 < vdriveGetMaxSectorsPerHead v t ∧
      ∃ n, vdriveGetMaxSectors v t = n * vdriveGetMaxSectorsPerHead v t := by
  have hfit := h.fitted
  unfold vdriveGetMaxSectorsPerHead
  cases hf : v.imageFormat <;> simp only
  case f9000 =>
    simp only [Fitted, hf] at hfit
    simp only [vdriveGetMaxSectors, hf]
    exact ⟨by decide, v.image.shape.sectors / 32, by omega⟩
  all_goals exact ⟨hpos, 1, by rw [Nat.one_mul]⟩

/-- A round of `m` places, from `s` on, comes to every place. -/
theorem round_place {m s : Nat} (hs : s < m) {j : Nat} (hj : j < m) : ∃ i < m, (s + i) % m = j := by
  by_cases hle : s ≤ j
  · exact ⟨j - s, by omega, by rw [Nat.add_sub_cancel' hle, Nat.mod_eq_of_lt hj]⟩
  · refine ⟨j + m - s, by omega, ?_⟩
    rw [show s + (j + m - s) = j + m by omega, Nat.add_mod_right, Nat.mod_eq_of_lt hj]

theorem round_next {m s : Nat} (hs : s < m) : (if s + 1 ≥ m then 0 else s + 1) = (s + 1) % m := by
  split
  · rw [show s + 1 = m by omega, Nat.mod_self]
  · exact (Nat.mod_eq_of_lt (by omega)).symm

theorem scanHead_ok {h m : Nat} (n : Nat) (hfmt : Formatted v disk)
    (hd : ∀ j < m, OnDisk v t (j + h)) (hs : s < m) :
    ∃ r s' w, scanHead t h m n s v = (r, s', w) ∧ s' < m ∧
      match r with
      | some sector => Allocated disk v w t sector
      | none => Loads disk v w ∧
          ∀ i < n, isFree v (view v disk) t ((s + i) % m + h) = false := by
  induction n generalizing s v with
  | zero => exact ⟨none, s, v, rfl, hs, Loads.refl hfmt.mounted, fun i hi => by omega⟩
  | succ n ih =>
    obtain ⟨w, ⟨hw, ha⟩ | ⟨hw, hl, hfree⟩⟩ := allocate_outcome hfmt.laid (hd s hs)
    · exact ⟨some (s + h), s, w, by simp only [scanHead, hw, if_true], hs, ha⟩
    · have hlt : (s + 1) % m < m := Nat.mod_lt _ (by omega)
      obtain ⟨r, s', u, hu, hs', htook⟩ := ih (hfmt.loads hl)
        (fun j hj => (onDisk_same hl.same).mpr (hd j hj)) hlt
      refine ⟨r, s', u, ?_, hs', ?_⟩
      · simp only [scanHead, hw, Bool.false_eq_true, if_false, round_next hs, hu]
      · cases r with
        | some sector => exact Allocated.after hl htook
        | none =>
          refine ⟨Loads.trans hl htook.1, fun i hi => ?_⟩
          cases i with
          | zero => rw [Nat.add_zero, Nat.mod_eq_of_lt hs]; exact hfree
          | succ i =>
            have hrest := htook.2 i (by omega)
            rw [isFree_loads hl, Nat.mod_add_mod] at hrest
            rwa [show s + (i + 1) = s + 1 + i by omega]

theorem scanHeads_ok {m g q : Nat} (n : Nat) (hfmt : Formatted v disk)
    (hd : ∀ j < g * m, OnDisk v t j) (hs : s < m) (hq : q < g) :
    ∃ r w, scanHeads t m (g * m) n s (q * m) v = (r, w) ∧
      match r with
      | some sector => Allocated disk v w t sector
      | none => Loads disk v w ∧
          ∀ i < n, ∀ j < m, isFree v (view v disk) t (j + (q + i) % g * m) = false := by
  induction n generalizing s q v with
  | zero => exact ⟨none, v, rfl, Loads.refl hfmt.mounted, fun i hi => by omega⟩
  | succ n ih =>
    have hle : (q + 1) * m ≤ g * m := Nat.mul_le_mul_right m hq
    rw [Nat.succ_mul] at hle
    obtain ⟨r, s', w, hw, hs', htook⟩ := scanHead_ok m hfmt
      (fun j hj => hd (j + q * m) (by omega)) hs
    cases r with
    | some sector => exact ⟨some sector, w, by simp only [scanHeads, hw], htook⟩
    | none =>
      obtain ⟨hl, hhead⟩ := htook
      have hd' : ∀ j < g * m, OnDisk w t j := fun j hj => (onDisk_same hl.same).mpr (hd j hj)
      have hnext : (if q * m + m ≥ g * m then 0 else q * m + m) = (q + 1) % g * m := by
        by_cases hend : q + 1 = g
        · rw [if_pos (by rw [← hend, Nat.succ_mul]), hend, Nat.mod_self, Nat.zero_mul]
        · have hlt : (q + 2) * m ≤ g * m := Nat.mul_le_mul_right m (by omega)
          rw [show q + 2 = q + 1 + 1 from rfl, Nat.succ_mul, Nat.succ_mul] at hlt
          rw [if_neg (by omega), Nat.mod_eq_of_lt (by omega), Nat.succ_mul]
      obtain ⟨r, u, hu, hfound⟩ := @ih w s' ((q + 1) % g) (hfmt.loads hl) hd' hs'
        (Nat.mod_lt _ (by omega))
      refine ⟨r, u, by simp only [scanHeads, hw, hnext, hu], ?_⟩
      cases r with
      | some sector => exact Allocated.after hl hfound
      | none =>
        refine ⟨Loads.trans hl hfound.1, fun i hi j hj => ?_⟩
        cases i with
        | zero =>
          obtain ⟨k, hk, hkj⟩ := round_place hs hj
          have hplace := hhead k hk
          rwa [hkj, ← Nat.mod_eq_of_lt hq] at hplace
        | succ i =>
          have hrest := hfound.2 i (by omega) j hj
          rw [isFree_loads hl, Nat.mod_add_mod] at hrest
          rwa [show q + (i + 1) = q + 1 + i by omega]

/-- The search on one track stays on it if it starts there, and misses no sector of it. -/
theorem vdriveBamAllocWorker_ok (hfmt : Formatted v disk) (hd : OnDisk v t s) :
    ∃ r w, vdriveBamAllocWorker v t s = (r, w) ∧ Took disk v w t r := by
  obtain ⟨h0, hmax, hs⟩ := hd
  obtain ⟨hpos, g, hg⟩ := heads hfmt (Nat.zero_lt_of_lt hs)
  have hq : s / vdriveGetMaxSectorsPerHead v t < g :=
    Nat.div_lt_of_lt_mul (Nat.mul_comm g _ ▸ hg ▸ hs)
  obtain ⟨r, w, hw, htook⟩ := scanHeads_ok g hfmt (fun j hj => ⟨h0, hmax, hg ▸ hj⟩)
    (Nat.mod_lt s hpos) hq
  have hrounds : (g * vdriveGetMaxSectorsPerHead v t + vdriveGetMaxSectorsPerHead v t - 1) /
      vdriveGetMaxSectorsPerHead v t = g := by
    rw [Nat.add_sub_assoc hpos, Nat.add_comm, Nat.add_mul_div_right _ _ hpos,
      Nat.div_eq_of_lt (by omega), Nat.zero_add]
  refine ⟨r, w, ?_, ?_⟩
  · unfold vdriveBamAllocWorker
    simp only
    rw [hg, hrounds]
    exact hw
  · cases r with
    | some sector => exact htook
    | none =>
      refine ⟨htook.1, fun j hj => ?_⟩
      rw [hg] at hj
      have hjq := Nat.div_lt_of_lt_mul (Nat.mul_comm g _ ▸ hj)
      obtain ⟨i, hi, hij⟩ := round_place hq hjq
      have hplace := htook.2 i hi _ (Nat.mod_lt j hpos)
      rwa [hij, Nat.mod_add_div'] at hplace

/-! ## Interleave -/

/-- The longest track of the format. -/
def longestTrack (v : Vdrive) : Nat :=
  match v.imageFormat with
  | .f1541 | .f2040 | .f1571 => 21
  | .f8050 | .f8250 => 29
  | .f1581 => 40
  | .f9000 => v.image.shape.sectors
  | _ => 256

/-- The widest interleave that cannot carry a search past the end of any track. -/
def maxInterleave (v : Vdrive) : Nat :=
  match v.imageFormat with
  | .f1541 | .f2040 | .f1571 => 14
  | .f8050 | .f8250 => 18
  | .f1581 => 41
  | .f9000 => 33
  | _ => 257

theorem maxSectors_le (h : Laid v disk) (t : Nat) : vdriveGetMaxSectors v t ≤ longestTrack v := by
  unfold vdriveGetMaxSectors longestTrack
  have hformat := h.mounted.format
  cases hf : v.imageFormat <;> simp only
  case f1541 => exact (sectorPerTrack_le .d64 (Or.inl rfl) t).1
  case f1571 => exact (sectorPerTrack_le .d71 (Or.inr (Or.inr rfl)) t).1
  case f2040 => exact (sectorPerTrack_le .d67 (Or.inr (Or.inl rfl)) t).1
  case f8050 => exact (sectorPerTrack_d80_le t).1
  case f8250 => split <;> exact (sectorPerTrack_d80_le _).1
  case sys => exact absurd hf hformat.1
  case none => exact absurd hf hformat.2
  all_goals exact Nat.le_refl _

/-- The step on a track of one head, from a sector of this or a longer track. -/
theorem step_lt {m il : Nat} (hm : 0 < m) (hsum : s + il < 2 * m + 1) :
    (let (s, h) := if s ≥ m then (s, 0) else (s % m, s / m * m)
     let s := s + il
     let s := if s ≥ m then s - m - 1 else s
     s + h) < m := by
  by_cases hge : s ≥ m
  · simp only [if_pos hge]
    split <;> omega
  · have hlt := Nat.not_le.mp hge
    simp only [if_neg hge, Nat.mod_eq_of_lt hlt, Nat.div_eq_of_lt hlt, Nat.zero_mul, Nat.add_zero]
    split <;> omega

/-- The step of a search lands on the track. -/
theorem addInterleave_lt {il : Nat} (h : Formatted v disk) (hil : il ≤ maxInterleave v)
    (hs : s < longestTrack v) (t : Nat) :
    vdriveBamAllocAddInterleave v t s il < vdriveGetMaxSectors v t := by
  have hfit := h.fitted
  have h9000 := fun hf => (h.dir9000 hf).2
  have hlong := fun f hf => (sectorPerTrack_le f hf t).2
  have hlong8050 := fun t => (sectorPerTrack_d80_le t).2
  unfold vdriveBamAllocAddInterleave vdriveGetMaxSectorsPerHead vdriveGetMaxSectors
  unfold maxInterleave at hil
  unfold longestTrack at hs
  unfold Fitted at hfit
  cases hf : v.imageFormat <;> simp only [hf] at hil hs hfit h9000 ⊢
  case f1541 =>
    have := hlong .d64 (Or.inl rfl)
    exact step_lt (by omega) (by omega)
  case f1571 =>
    have := hlong .d71 (Or.inr (Or.inr rfl))
    exact step_lt (by omega) (by omega)
  case f2040 =>
    have := hlong .d67 (Or.inr (Or.inl rfl))
    exact step_lt (by omega) (by omega)
  case f8050 =>
    have := hlong8050 t
    exact step_lt (by omega) (by omega)
  case f8250 =>
    have h1 := hlong8050 t
    have h2 := hlong8050 (t - 77)
    exact step_lt (by split <;> omega) (by split <;> omega)
  case f1581 => exact step_lt (by omega) (by omega)
  case np => exact step_lt (by omega) (by omega)
  case f9000 =>
    have h32 := h9000 trivial
    simp only [if_neg (Nat.not_le.mpr hs)]
    split <;> omega

/-! ## The search for the next sector -/

/-- A search from sector `s` lands on every track it tries. -/
def Lands (v : Vdrive) (s il : Nat) : Prop :=
  ∀ t, vdriveBamAllocAddInterleave v t s il < vdriveGetMaxSectors v t

theorem addInterleave_same (h : SameDisk v w) (t s il : Nat) :
    vdriveBamAllocAddInterleave w t s il = vdriveBamAllocAddInterleave v t s il := by
  unfold vdriveBamAllocAddInterleave
  rw [(maxSectors_same h).1, (maxSectors_same h).2]

theorem lands_same {il : Nat} (h : SameDisk v w) : Lands w s il ↔ Lands v s il := by
  unfold Lands
  simp only [addInterleave_same h, (maxSectors_same h).1]

theorem maxEntryTrack_same (h : SameDisk v w) : maxEntryTrack w = maxEntryTrack v := by
  unfold maxEntryTrack
  rw [h]

theorem vdriveBamAllocDown_ok {il : Nat} (hfmt : Formatted v disk) (hs : Lands v s il)
    (ht : t ≤ maxEntryTrack v) :
    ∃ r w, vdriveBamAllocDown s il t v = (r, w) ∧
      match r with
      | none => Loads disk v w ∧ ∀ t', 1 ≤ t' → t' ≤ t → Full disk v t'
      | some (t1, s1) => Allocated disk v w t1 s1 ∧ 1 ≤ t1 ∧ t1 ≤ t := by
  induction t generalizing v with
  | zero => exact ⟨none, v, rfl, Loads.refl hfmt.mounted, fun t' h1 h2 => by omega⟩
  | succ t ih =>
    have hd : OnDisk v (t + 1) (vdriveBamAllocAddInterleave v (t + 1) s il) :=
      ⟨fun _ => by omega, ht, hs (t + 1)⟩
    obtain ⟨r, w, hw, htook⟩ := vdriveBamAllocWorker_ok hfmt hd
    cases r with
    | some s' =>
      exact ⟨some (t + 1, s'), w, by simp only [vdriveBamAllocDown, hw], htook, by omega, by omega⟩
    | none =>
      obtain ⟨hl, hfull⟩ := htook
      obtain ⟨r, u, hu, hfound⟩ := ih (hfmt.loads hl) ((lands_same hl.same).mpr hs)
        (by rw [maxEntryTrack_same hl.same]; omega)
      refine ⟨r, u, by simp only [vdriveBamAllocDown, hw, hu], ?_⟩
      cases r with
      | none =>
        refine ⟨Loads.trans hl hfound.1, fun t' h1 h2 => ?_⟩
        by_cases ht' : t' = t + 1
        · exact ht' ▸ hfull
        · exact (full_loads hl).mp (hfound.2 t' h1 (by omega))
      | some ts => exact ⟨Allocated.after hl hfound.1, hfound.2.1, by omega⟩

theorem vdriveBamAllocUp_ok {il : Nat} (n : Nat) (hfmt : Formatted v disk) (hs : Lands v s il)
    (h1 : 1 ≤ t) (ht : n = 0 ∨ t + n ≤ maxEntryTrack v + 1) :
    ∃ r w, vdriveBamAllocUp s il n t v = (r, w) ∧
      match r with
      | none => Loads disk v w ∧ ∀ t', t ≤ t' → t' < t + n → Full disk v t'
      | some (t1, s1) => Allocated disk v w t1 s1 ∧ t ≤ t1 ∧ t1 < t + n ∧
          ∀ t', t ≤ t' → t' < t1 → Full disk v t' := by
  induction n generalizing t v with
  | zero => exact ⟨none, v, rfl, Loads.refl hfmt.mounted, fun t' h1 h2 => by omega⟩
  | succ n ih =>
    have hd : OnDisk v t (vdriveBamAllocAddInterleave v t s il) :=
      ⟨fun _ => h1, by omega, hs t⟩
    obtain ⟨r, w, hw, htook⟩ := vdriveBamAllocWorker_ok hfmt hd
    cases r with
    | some s' =>
      exact ⟨some (t, s'), w, by simp only [vdriveBamAllocUp, hw], htook, by omega, by omega,
        fun t' h1 h2 => by omega⟩
    | none =>
      obtain ⟨hl, hfull⟩ := htook
      obtain ⟨r, u, hu, hfound⟩ := @ih w (t + 1) (hfmt.loads hl) ((lands_same hl.same).mpr hs)
        (by omega) (by rw [maxEntryTrack_same hl.same]; omega)
      have hstep : ∀ t', t ≤ t' → (t + 1 ≤ t' → Full disk w t') → Full disk v t' := by
        intro t' h1 hlater
        by_cases ht' : t' = t
        · exact ht' ▸ hfull
        · exact (full_loads hl).mp (hlater (by omega))
      refine ⟨r, u, by simp only [vdriveBamAllocUp, hw, hu], ?_⟩
      cases r with
      | none =>
        exact ⟨Loads.trans hl hfound.1, fun t' h1 h2 =>
          hstep t' h1 fun h => hfound.2 t' h (by omega)⟩
      | some ts =>
        obtain ⟨ha, h1', h2', hbetween⟩ := hfound
        exact ⟨Allocated.after hl ha, by omega, by omega, fun t' h1 h2 =>
          hstep t' h1 fun h => hbetween t' h h2⟩

/-- The position a pass goes on from. -/
theorem reset_lands {il : Nat} (hfmt : Formatted v disk) (hil : il ≤ maxInterleave v)
    (hs : Lands v s il) (t : Nat) : Lands v (vdriveBamAllocNextFreeSectorReset v t s il) il := by
  have hlt : vdriveBamAllocNextFreeSectorReset v t s il < vdriveGetMaxSectors v t :=
    Nat.lt_of_le_of_lt (Nat.div_mul_le_self ..) (hs t)
  exact addInterleave_lt hfmt hil (Nat.lt_of_lt_of_le hlt (maxSectors_le hfmt.laid t))

theorem maxInterleave_same (h : SameDisk v w) : maxInterleave w = maxInterleave v := by
  unfold maxInterleave
  rw [h]

/-- The tracks that `n` passes from track `t` on come to. -/
def Covers (v : Vdrive) : Nat → Nat → Nat → Prop
  | 0, _, _ => False
  | n + 1, t, t' =>
    if t > 0 ∧ t < v.dirTrack then (1 ≤ t' ∧ t' ≤ t) ∨ Covers v n (v.dirTrack + 1) t'
    else if t ≥ v.dirTrack then (t ≤ t' ∧ t' ≤ v.numTracks) ∨ Covers v n (v.dirTrack - 1) t'
    else Covers v n t t'

theorem covers_same (h : SameDisk v w) : Covers w = Covers v := by
  funext n
  induction n with
  | zero => rfl
  | succ n ih =>
    funext t t'
    unfold Covers
    rw [ih, h]

/-- Three passes come to all tracks but the directory's; with that on track 1, to those behind. -/
theorem covers_all {cur : Nat} (h1 : 1 ≤ cur) (ht : 1 ≤ t ∧ t ≤ v.numTracks) (hne : t ≠ v.dirTrack)
    (hahead : 2 ≤ v.dirTrack ∨ cur ≤ t) : Covers v 3 cur t := by
  unfold Covers
  by_cases hdown : cur > 0 ∧ cur < v.dirTrack
  · rw [if_pos hdown]
    unfold Covers
    rw [if_neg (by omega), if_pos (by omega)]
    unfold Covers
    rw [if_pos (by omega)]
    omega
  · rw [if_neg hdown, if_pos (by omega)]
    by_cases h2 : 2 ≤ v.dirTrack
    · unfold Covers
      rw [if_pos (by omega)]
      unfold Covers
      rw [if_neg (by omega), if_pos (by omega)]
      omega
    · exact Or.inl ⟨hahead.resolve_left h2, ht.2⟩

theorem scanPasses_ok {il : Nat} (n : Nat) (hfmt : Formatted v disk) (hil : il ≤ maxInterleave v)
    (hs : Lands v s il) (ht : t ≤ maxEntryTrack v ∨ t = v.dirTrack + 1) :
    ∃ r w, scanPasses il n t s v = (r, w) ∧
      match r with
      | none => Loads disk v w ∧ ∀ t', Covers v n t t' → Full disk v t'
      | some (t1, s1) => Allocated disk v w t1 s1 ∧ t ≠ 0 ∧ 1 ≤ t1 ∧ t1 ≤ v.numTracks ∧
          (t1 = v.dirTrack → t = v.dirTrack) ∧
          (v.dirTrack = 1 → ∀ t', t ≤ t' → t' < t1 → Full disk v t') := by
  induction n generalizing t s v with
  | zero => exact ⟨none, v, rfl, Loads.refl hfmt.mounted, fun t' h => h.elim⟩
  | succ n ih =>
    obtain ⟨hdir1, hdir2⟩ := hfmt.dir
    have htracks := hfmt.tracks
    by_cases hdown : t > 0 ∧ t < v.dirTrack
    · obtain ⟨r, w, hw, hfound⟩ := vdriveBamAllocDown_ok hfmt hs (show t ≤ maxEntryTrack v by omega)
      cases r with
      | some ts =>
        exact ⟨some ts, w, by simp only [scanPasses, if_pos hdown, hw], hfound.1, by omega,
          hfound.2.1, by omega, by omega, by omega⟩
      | none =>
        obtain ⟨hl, hfull⟩ := hfound
        have hfmt' := hfmt.loads hl
        have hil' : il ≤ maxInterleave w := by rw [maxInterleave_same hl.same]; exact hil
        have hdir : w.dirTrack = v.dirTrack := by rw [hl.same]
        have hnum : w.numTracks = v.numTracks := by rw [hl.same]
        obtain ⟨r, u, hu, hfound⟩ := @ih w (v.dirTrack + 1) _ hfmt' hil'
          (reset_lands hfmt' hil' ((lands_same hl.same).mpr hs) (v.dirTrack + 1))
          (Or.inr (by rw [hdir]))
        refine ⟨r, u, by simp only [scanPasses, if_pos hdown, hw, hu], ?_⟩
        cases r with
        | none =>
          refine ⟨Loads.trans hl hfound.1, fun t' hc => ?_⟩
          rw [Covers, if_pos hdown] at hc
          rcases hc with hc | hc
          · exact hfull t' hc.1 hc.2
          · exact (full_loads hl).mp (hfound.2 t' (by rw [covers_same hl.same]; exact hc))
        | some ts =>
          obtain ⟨ha, -, h1, h2, h3, -⟩ := hfound
          exact ⟨Allocated.after hl ha, by omega, h1, by omega, by omega, by omega⟩
    · by_cases hup : t ≥ v.dirTrack
      · obtain ⟨r, w, hw, hfound⟩ := vdriveBamAllocUp_ok (v.numTracks + 1 - t) hfmt hs
          (show 1 ≤ t by omega) (by omega)
        cases r with
        | some ts =>
          obtain ⟨ha, h1, h2, hbetween⟩ := hfound
          exact ⟨some ts, w, by simp only [scanPasses, if_neg hdown, if_pos hup, hw], ha, by omega,
            by omega, by omega, by omega, fun _ => hbetween⟩
        | none =>
          obtain ⟨hl, hfull⟩ := hfound
          have hfmt' := hfmt.loads hl
          have hil' : il ≤ maxInterleave w := by rw [maxInterleave_same hl.same]; exact hil
          have hmax := maxEntryTrack_same hl.same
          have hdir : w.dirTrack = v.dirTrack := by rw [hl.same]
          have hnum : w.numTracks = v.numTracks := by rw [hl.same]
          obtain ⟨r, u, hu, hfound⟩ := @ih w (v.dirTrack - 1) _ hfmt' hil'
            (reset_lands hfmt' hil' ((lands_same hl.same).mpr hs) (v.dirTrack - 1))
            (Or.inl (by omega))
          refine ⟨r, u, by simp only [scanPasses, if_neg hdown, if_pos hup, hw, hu], ?_⟩
          cases r with
          | none =>
            refine ⟨Loads.trans hl hfound.1, fun t' hc => ?_⟩
            rw [Covers, if_neg hdown, if_pos hup] at hc
            rcases hc with hc | hc
            · exact hfull t' hc.1 (by omega)
            · exact (full_loads hl).mp (hfound.2 t' (by rw [covers_same hl.same]; exact hc))
          | some ts =>
            obtain ⟨ha, h0, h1, h2, h3, -⟩ := hfound
            exact ⟨Allocated.after hl ha, by omega, h1, by omega, by omega, by omega⟩
      · obtain ⟨r, w, hw, hfound⟩ := ih hfmt hil hs ht
        refine ⟨r, w, by simp only [scanPasses, if_neg hdown, if_neg hup, hw], ?_⟩
        cases r with
        | none =>
          refine ⟨hfound.1, fun t' hc => ?_⟩
          rw [Covers, if_neg hdown, if_neg hup] at hc
          exact hfound.2 t' hc
        | some ts => exact hfound

/-! ## What a search finds -/

/-- A sector that files are allocated on. -/
def Usable (v : Vdrive) (t s : Nat) : Prop :=
  OnDisk v t s ∧ 1 ≤ t ∧ t ≤ v.numTracks ∧
  match v.imageFormat with
  | .np => ¬ (t = 1 ∧ s < 64)
  | .f9000 => True
  | _ => t ≠ v.dirTrack

/-- A track that the search for the next sector goes on from. -/
def Starts (v : Vdrive) (t : Nat) : Prop :=
  1 ≤ t ∧ t ≤ v.numTracks ∧ (t = v.dirTrack → v.imageFormat = .np ∨ v.imageFormat = .f9000)

/-- A search from track `cur` on still comes to track `t`. -/
def Ahead (v : Vdrive) (cur t : Nat) : Prop :=
  v.imageFormat = .np ∨ 2 ≤ v.dirTrack ∨ cur ≤ t

/-- The outcome of a search from track `t` on: it misses no usable sector ahead. -/
def Next (disk : Nat → Buf) (v w : Vdrive) (t : Nat) : Option (Nat × Nat) → Prop
  | none => Loads disk v w ∧ (Starts v t → ∀ t' s', Usable v t' s' → Ahead v t t' →
      isFree v (view v disk) t' s' = false)
  | some (t1, s1) => Allocated disk v w t1 s1 ∧ (Starts v t → Usable v t1 s1 ∧
      ∀ t' s', Usable v t' s' → Ahead v t t' → isFree v (view v disk) t' s' = true →
        Ahead v t1 t')

theorem Next.found {r : Option (Nat × Nat)} (h : Next disk v w t r) : Found disk v w r := by
  cases r with
  | none => exact h.1
  | some ts => exact h.1

theorem usable_same (h : SameDisk v w) : Usable w t s ↔ Usable v t s := by
  unfold Usable
  rw [onDisk_same h, h]

theorem Usable.starts (h : Usable v t s) : Starts v t := by
  obtain ⟨-, h1, h2, hkind⟩ := h
  refine ⟨h1, h2, fun hdir => ?_⟩
  cases hf : v.imageFormat <;> simp only [hf] at hkind
  case np => exact Or.inl rfl
  case f9000 => exact Or.inr rfl
  all_goals exact absurd hdir hkind

/-! ## NP partitions -/

/-- A place in a NP partition, counted through. -/
def npIndex (t s : Nat) : Nat := (t - 1) * 256 + s

/-- How many steps a search of `size` places takes from one to another; it begins a new round behind
the first 64. -/
def npSteps (size i j : Nat) : Nat := if i < j then j - i else size - i + (j - 64)

theorem npSteps_next {size i j : Nat} (hi : i < size) (hj : 64 ≤ j ∧ j < size)
    (hne : j ≠ if i + 1 ≥ size then 64 else max (i + 1) 64) :
    npSteps size (if i + 1 ≥ size then 64 else max (i + 1) 64) j + 1 ≤ npSteps size i j := by
  unfold npSteps
  by_cases hend : i + 1 ≥ size
  · rw [if_pos hend] at hne ⊢
    rw [if_pos (by omega), if_neg (by omega)]
    omega
  · rw [if_neg hend] at hne ⊢
    by_cases hlt : i < j
    · rw [if_pos (by omega), if_pos hlt]
      omega
    · rw [if_neg (by omega), if_neg hlt]
      omega

/-- The place after this one. -/
theorem npIndex_next {num t s t' s' : Nat} (h1 : 1 ≤ t) (ht : t ≤ num) (hs : s < 256)
    (hnext : (if s + 1 ≥ 256 then (if t + 1 > num then 1 else t + 1, 0) else (t, s + 1)) = (t', s')) :
    npIndex t s < num * 256 ∧ npIndex t' (if t' = 1 ∧ s' < 64 then 64 else s') =
      if npIndex t s + 1 ≥ num * 256 then 64 else max (npIndex t s + 1) 64 := by
  unfold npIndex
  have hle : t * 256 ≤ num * 256 := Nat.mul_le_mul_right 256 ht
  have hlt : (t - 1) * 256 + s < num * 256 := by omega
  refine ⟨hlt, ?_⟩
  by_cases hend : s + 1 ≥ 256
  · rw [if_pos hend] at hnext
    by_cases hlast : t + 1 > num
    · rw [if_pos hlast] at hnext
      cases hnext
      have hfull : (t - 1) * 256 + s + 1 ≥ num * 256 := by
        have hnum : num = t - 1 + 1 := by omega
        have hlast : s = 255 := by omega
        rw [hnum, hlast, Nat.succ_mul]
      rw [if_pos hfull]
      rfl
    · rw [if_neg hlast] at hnext
      have hle' : (t + 1) * 256 ≤ num * 256 := Nat.mul_le_mul_right 256 (by omega)
      cases hnext
      rw [if_neg (by omega), if_neg (by omega)]
      omega
  · rw [if_neg hend] at hnext
    cases hnext
    rw [if_neg (show ¬ (t - 1) * 256 + s + 1 ≥ num * 256 by omega)]
    by_cases hfirst : t = 1 ∧ s + 1 < 64
    · rw [if_pos hfirst]
      omega
    · rw [if_neg hfirst]
      omega

theorem npIndex_inj {t s t' s' : Nat} (h1 : 1 ≤ t) (h1' : 1 ≤ t') (hs : s < 256) (hs' : s' < 256)
    (h : npIndex t s = npIndex t' s') : t = t' ∧ s = s' := by
  have hplace : ∀ t s, s < 256 → npIndex t s / 256 = t - 1 ∧ npIndex t s % 256 = s := by
    intro t s hs
    unfold npIndex
    omega
  have hleft := hplace t s hs
  have hright := hplace t' s' hs'
  rw [h] at hleft
  exact ⟨by omega, hleft.2.symm.trans hright.2⟩

/-- A usable place of a NP partition. -/
theorem usable_np (hf : v.imageFormat = .np) (hu : Usable v t s) :
    1 ≤ t ∧ t ≤ v.numTracks ∧ s < 256 ∧ 64 ≤ npIndex t s ∧ npIndex t s < v.numTracks * 256 := by
  obtain ⟨⟨-, -, hs⟩, h1, h2, hkind⟩ := hu
  simp only [vdriveGetMaxSectors, hf] at hs hkind
  have hle : t * 256 ≤ v.numTracks * 256 := Nat.mul_le_mul_right 256 h2
  unfold npIndex
  omega

theorem scanNp_ok (n : Nat) (hfmt : Formatted v disk) (hf : v.imageFormat = .np)
    (ht : 1 ≤ t ∧ t ≤ maxEntryTrack v) :
    ∃ r w, scanNp 256 n t s v = (r, w) ∧
      match r with
      | none => Loads disk v w ∧ (t ≤ v.numTracks → s < 256 → ∀ t' s', Usable v t' s' →
          npSteps (v.numTracks * 256) (npIndex t s) (npIndex t' s') ≤ n →
          isFree v (view v disk) t' s' = false)
      | some (t1, s1) => Allocated disk v w t1 s1 ∧ (t ≤ v.numTracks → Usable v t1 s1) := by
  induction n generalizing t s v with
  | zero =>
    refine ⟨none, v, rfl, Loads.refl hfmt.mounted, fun ht' hs t' s' hu hn => ?_⟩
    have hgoal := usable_np hf hu
    have hstart := (npIndex_next ht.1 ht' hs rfl).1
    unfold npSteps at hn
    split at hn <;> omega
  | succ n ih =>
    have htracks := hfmt.tracks
    rw [scanNp]
    generalize hnext : (if s + 1 ≥ 256 then (if t + 1 > v.numTracks then 1 else t + 1, 0)
      else (t, s + 1)) = next
    obtain ⟨t', s'⟩ := next
    have ht' : 1 ≤ t' ∧ t' ≤ maxEntryTrack v ∧ s' < 256 ∧ (t ≤ v.numTracks → t' ≤ v.numTracks) := by
      split at hnext
      · split at hnext <;> cases hnext <;> omega
      · cases hnext; omega
    have hindex := fun h1 h2 => @npIndex_next v.numTracks t s t' s' ht.1 h1 h2 hnext
    simp only
    generalize hs'' : (if t' = 1 ∧ s' < 64 then 64 else s') = s'' at hindex ⊢
    have hlt : s'' < 256 ∧ ¬ (t' = 1 ∧ s'' < 64) := by rw [← hs'']; split <;> omega
    have hd : OnDisk v t' s'' := by
      refine ⟨fun _ => ht'.1, ht'.2.1, ?_⟩
      simp only [vdriveGetMaxSectors, hf]
      exact hlt.1
    obtain ⟨w, ⟨hw, ha⟩ | ⟨hw, hl, hfree⟩⟩ := allocate_outcome hfmt.laid hd
    · refine ⟨some (t', s''), w, by simp only [hw, if_true], ha, fun hnum => ?_⟩
      refine ⟨hd, ht'.1, ht'.2.2.2 hnum, ?_⟩
      simp only [hf]
      exact hlt.2
    · have hnum : w.numTracks = v.numTracks := by rw [hl.same]
      obtain ⟨r, u, hu, hfound⟩ := @ih w t' s'' (hfmt.loads hl) (hl.same.format.trans hf)
        ⟨ht'.1, by rw [maxEntryTrack_same hl.same]; exact ht'.2.1⟩
      refine ⟨r, u, by simp only [hw, Bool.false_eq_true, if_false, hu], ?_⟩
      cases r with
      | none =>
        refine ⟨Loads.trans hl hfound.1, fun htn hs x y hxy hsteps => ?_⟩
        have hrest := hfound.2 (by rw [hnum]; exact ht'.2.2.2 htn) hlt.1 x y
          ((usable_same hl.same).mpr hxy)
        rw [isFree_loads hl, hnum] at hrest
        obtain ⟨hstart, hplace⟩ := hindex htn hs
        obtain ⟨h1, -, hy, h64, hend⟩ := usable_np hf hxy
        by_cases hhere : npIndex x y = npIndex t' s''
        · obtain ⟨rfl, rfl⟩ := npIndex_inj h1 ht'.1 hy hlt.1 hhere
          exact hfree
        · have hless := npSteps_next hstart ⟨h64, hend⟩ (by rw [← hplace]; exact hhere)
          rw [← hplace] at hless
          exact hrest (by omega)
      | some ts =>
        refine ⟨Allocated.after hl hfound.1, fun htn => ?_⟩
        exact (usable_same hl.same).mp (hfound.2 (by rw [hnum]; exact ht'.2.2.2 htn))

theorem nextFreeSector_np {il : Nat} (hfmt : Formatted v disk) (hf : v.imageFormat = .np)
    (ht : 1 ≤ t ∧ t ≤ maxEntryTrack v) :
    ∃ r w, vdriveBamAllocNextFreeSectorInterleave v t s il = (r, w) ∧ Found disk v w r ∧
      (s < 256 → Next disk v w t r) := by
  generalize hs : (if t = v.dirTrack ∧ s < 63 then 63 else s) = s0
  obtain ⟨r, w, hw, hfound⟩ := @scanNp_ok v disk t s0 (256 * v.numTracks) hfmt hf ht
  refine ⟨r, w, ?_, ?_, fun hlt => ?_⟩
  · unfold vdriveBamAllocNextFreeSectorInterleave
    simp only [if_true, vdriveGetMaxSectorsPerHead, vdriveGetMaxSectors, hf, hs, hw]
  · cases r with
    | none => exact hfound.1
    | some ts => exact hfound.1
  · have hs0 : s0 < 256 := by rw [← hs]; split <;> omega
    cases r with
    | none =>
      refine ⟨hfound.1, fun hstarts t' s' hu _ => hfound.2 hstarts.2.1 hs0 t' s' hu ?_⟩
      have hgoal := usable_np hf hu
      have hstart := (npIndex_next ht.1 hstarts.2.1 hs0 rfl).1
      unfold npSteps
      split <;> omega
    | some ts =>
      exact ⟨hfound.1, fun hstarts => ⟨hfound.2 hstarts.2.1, fun _ _ _ _ _ => Or.inl hf⟩⟩

/-! ## The other formats -/

/-- A track without a free sector has no usable one that is free. -/
theorem Full.usable (h : Full disk v t) (hu : Usable v t s) : isFree v (view v disk) t s = false :=
  h s hu.1.2.2

/-- A sector found on another track than the directory's is usable. -/
theorem usable_found (hd : OnDisk v t s) (h1 : 1 ≤ t) (h2 : t ≤ v.numTracks)
    (hnp : v.imageFormat ≠ .np) (hdir : t = v.dirTrack → v.imageFormat = .f9000) :
    Usable v t s := by
  refine ⟨hd, h1, h2, ?_⟩
  cases hf : v.imageFormat <;> simp only [hf] at hdir
  case np => exact absurd hf hnp
  case f9000 => trivial
  all_goals exact fun heq => absurd (hdir heq) (by decide)

/-- The search: on the track itself, in three passes, and on a D9090/60 on the directory track. -/
theorem vdriveBamAllocNextFreeSectorInterleave_ok {il : Nat} (hfmt : Formatted v disk)
    (hil : il ≤ maxInterleave v) (hd : OnDisk v t s) :
    ∃ r w, vdriveBamAllocNextFreeSectorInterleave v t s il = (r, w) ∧ Next disk v w t r := by
  have hs : Lands v s il :=
    addInterleave_lt hfmt hil (Nat.lt_of_lt_of_le hd.2.2 (maxSectors_le hfmt.laid t))
  by_cases hnp : v.imageFormat = .np
  · have hlt : s < 256 := by
      have := hd.2.2
      simpa only [vdriveGetMaxSectors, hnp] using this
    obtain ⟨r, w, hw, -, hnext⟩ := nextFreeSector_np hfmt hnp ⟨hd.1 (by rw [hnp]; decide), hd.2.1⟩
    exact ⟨r, w, hw, hnext hlt⟩
  · unfold vdriveBamAllocNextFreeSectorInterleave
    rw [if_neg hnp]
    by_cases hdir : t = v.dirTrack ∧ v.imageFormat ≠ .f9000
    · refine ⟨none, v, if_pos hdir, Loads.refl hfmt.mounted, fun hstarts => ?_⟩
      exact absurd (hstarts.2.2 hdir.1) (fun h => h.elim hnp hdir.2)
    · rw [if_neg hdir]
      obtain ⟨r, w, hw, htook⟩ := vdriveBamAllocWorker_ok hfmt
        (show OnDisk v t (vdriveBamAllocAddInterleave v t s il) from ⟨hd.1, hd.2.1, hs t⟩)
      cases r with
      | some s' =>
        refine ⟨some (t, s'), w, by simp only [hw], htook, fun hstarts => ⟨?_, fun _ _ _ ha _ => ha⟩⟩
        exact usable_found htook.1 hstarts.1 hstarts.2.1 hnp
          (fun heq => (hstarts.2.2 heq).resolve_left hnp)
      | none =>
        obtain ⟨hl, hfull⟩ := htook
        have hfmt' := hfmt.loads hl
        have hil' : il ≤ maxInterleave w := by rw [maxInterleave_same hl.same]; exact hil
        have ht' : t ≤ maxEntryTrack w := by rw [maxEntryTrack_same hl.same]; exact hd.2.1
        have hdirw : w.dirTrack = v.dirTrack := by rw [hl.same]
        have hnumw : w.numTracks = v.numTracks := by rw [hl.same]
        obtain ⟨r, u, hu, hfound⟩ := scanPasses_ok 3 hfmt' hil' ((lands_same hl.same).mpr hs)
          (Or.inl ht')
        cases r with
        | some ts =>
          obtain ⟨ha, h0, h1, h2, h3, hbetween⟩ := hfound
          have ha' := Allocated.after hl ha
          refine ⟨some ts, u, by simp only [hw, hu], ha', fun hstarts => ⟨?_, ?_⟩⟩
          · exact usable_found ha'.1 h1 (by omega) hnp fun heq =>
              (hstarts.2.2 (hdirw ▸ h3 (by omega))).resolve_left hnp
          · -- with the directory on track 1 all tracks up to the one found are full
            intro t' s' husable hahead hfree
            rcases hahead with hnp' | h2' | hle
            · exact absurd hnp' hnp
            · exact Or.inr (Or.inl h2')
            · by_cases hone : v.dirTrack = 1
              · refine Or.inr (Or.inr ?_)
                by_contra hlt
                have hfull' := (full_loads hl).mp
                  (hbetween (hdirw.trans hone) t' hle (Nat.not_le.mp hlt))
                have hnot := hfull'.usable husable
                rw [hfree] at hnot
                cases hnot
              · have := hfmt.dir.1
                exact Or.inr (Or.inl (by omega))
        | none =>
          have hlu : Loads disk v u := Loads.trans hl hfound.1
          -- what the passes have not come to
          have hmissed : Starts v t → ∀ t' s', Usable v t' s' → Ahead v t t' →
              (t' ≠ v.dirTrack → isFree v (view v disk) t' s' = false) := by
            intro hstarts t' s' hu' hahead hne
            obtain ⟨-, h1, h2, -⟩ := id hu'
            have hcovers := @covers_all v t' t hstarts.1 ⟨h1, h2⟩ hne (hahead.resolve_left hnp)
            have hfull' := (full_loads hl).mp
              (hfound.2 t' (by rw [covers_same hl.same]; exact hcovers))
            exact hfull'.usable hu'
          by_cases h90 : u.imageFormat = .f9000
          · have h90' : v.imageFormat = .f9000 := hlu.same.format ▸ h90
            have hfmt'' := hfmt.loads hlu
            obtain ⟨hdir1, hdir2⟩ := hfmt''.dir
            have htracks := hfmt''.tracks
            have h32 := (hfmt''.dir9000 h90).2.2
            have hdiru : u.dirTrack = v.dirTrack := by rw [hlu.same]
            have hnumu : u.numTracks = v.numTracks := by rw [hlu.same]
            have hd' : OnDisk u u.dirTrack 10 := by
              refine ⟨fun h => absurd h90 h, by omega, ?_⟩
              simp only [vdriveGetMaxSectors, h90]
              omega
            obtain ⟨r, x, hx, htook⟩ := vdriveBamAllocWorker_ok hfmt'' hd'
            cases r with
            | some s' =>
              have ha : Allocated disk u x u.dirTrack s' := htook
              have hdir : x.dirTrack = u.dirTrack := by
                obtain ⟨-, e, -, -, hb⟩ := ha
                rw [hb.same]
              have ha' := Allocated.after hlu ha
              refine ⟨some (u.dirTrack, s'), x, by simp only [hw, hu, if_pos h90, hx, hdir], ha',
                fun _ => ⟨?_, fun _ _ _ _ _ => Or.inr (Or.inl (hfmt.dir9000 h90').1)⟩⟩
              exact usable_found ha'.1 hdir1 (by omega) hnp fun _ => h90'
            | none =>
              refine ⟨none, x, by simp only [hw, hu, if_pos h90, hx], Loads.trans hlu htook.1,
                fun hstarts t' s' hu' hahead => ?_⟩
              by_cases hne : t' = v.dirTrack
              · have hfull' := (full_loads hlu).mp htook.2
                rw [hdiru, ← hne] at hfull'
                exact hfull'.usable hu'
              · exact hmissed hstarts t' s' hu' hahead hne
          · refine ⟨none, u, by simp only [hw, hu, if_neg h90], hlu,
              fun hstarts t' s' hu' hahead => ?_⟩
            refine hmissed hstarts t' s' hu' hahead fun heq => ?_
            exact (hu'.starts.2.2 heq).elim hnp fun h => h90 (hlu.same.format.trans h)

/-- The interleave of the format is not too wide. -/
theorem getInterleave_le (v : Vdrive) : vdriveBamGetInterleave v ≤ maxInterleave v := by
  unfold vdriveBamGetInterleave maxInterleave
  cases v.imageFormat <;> simp only
  case f1541 | f1571 => split <;> decide
  all_goals decide

theorem vdriveBamAllocNextFreeSector_ok (hfmt : Formatted v disk) (hd : OnDisk v t s) :
    ∃ r w, vdriveBamAllocNextFreeSector v t s = (r, w) ∧ Next disk v w t r :=
  vdriveBamAllocNextFreeSectorInterleave_ok hfmt (getInterleave_le v) hd

/-! ## The search for the first sector -/

theorem maxSectors_pos (h : Formatted v disk) (t : Nat) : 0 < vdriveGetMaxSectors v t :=
  Nat.zero_lt_of_lt (addInterleave_lt h (Nat.zero_le _) (by
    have hfit := h.fitted
    have h9000 := fun hf => (h.dir9000 hf).2
    unfold Fitted at hfit
    unfold longestTrack
    cases hf : v.imageFormat <;> simp only [hf] at hfit h9000 ⊢ <;> try decide
    have := h9000 trivial
    omega : 0 < longestTrack v) t)

theorem tryTrack_ok {d : Nat} {exist : Bool} (hfmt : Formatted v disk) (hd : exist = true → OnDisk v t 0) :
    ∃ r w, tryTrack v d exist t 0 = (r, w) ∧
      match r with
      | none => Loads disk v w ∧ (d ≠ 0 → exist = true → Full disk v t)
      | some (t1, s1) => Allocated disk v w t1 s1 ∧ t1 = t ∧ d ≠ 0 ∧ exist = true := by
  unfold tryTrack
  by_cases hc : d ≠ 0 ∧ exist
  · obtain ⟨r, w, hw, htook⟩ := vdriveBamAllocWorker_ok hfmt (hd hc.2)
    cases r with
    | some s =>
      exact ⟨some (t, s), w, by simp only [if_pos hc, hw], htook, rfl, hc.1, hc.2⟩
    | none => exact ⟨none, w, by simp only [if_pos hc, hw], htook.1, fun _ _ => htook.2⟩
  · exact ⟨none, v, if_neg hc, Loads.refl hfmt.mounted, fun h1 h2 => absurd ⟨h1, h2⟩ hc⟩

/-- The tracks at the distances `d` to `d + n - 1` from the directory. -/
def Around (v : Vdrive) (n d t : Nat) : Prop :=
  t ≠ v.dirTrack ∧ 1 ≤ t ∧ t ≤ v.numTracks ∧
    ((t + d ≤ v.dirTrack ∧ v.dirTrack < t + d + n) ∨ (v.dirTrack + d ≤ t ∧ t < v.dirTrack + d + n))

/-- One distance and the rest. -/
theorem around_succ {n d : Nat} (h : Around v (n + 1) d t) :
    Around v n (d + 1) t ∨ (d ≠ 0 ∧ ((v.dirTrack ≥ d + 1 ∧ t = v.dirTrack - d) ∨
      (v.dirTrack + d ≤ v.numTracks ∧ t = v.dirTrack + d))) := by
  unfold Around at *
  omega

theorem scanButterfly_ok {d : Nat} (n : Nat) (hfmt : Formatted v disk) : ∃ r w, scanButterfly n d 0 v = (r, w) ∧
      match r with
      | none => Loads disk v w ∧ ∀ t, Around v n d t → Full disk v t
      | some (t1, s1) => Allocated disk v w t1 s1 ∧ 1 ≤ t1 ∧ t1 ≤ v.numTracks ∧ t1 ≠ v.dirTrack ∧
          (v.dirTrack = 1 → ∀ t, v.dirTrack + d ≤ t → t ≠ v.dirTrack → t < t1 →
            Full disk v t) := by
  induction n generalizing d v with
  | zero =>
    refine ⟨none, v, rfl, Loads.refl hfmt.mounted, fun t h => ?_⟩
    unfold Around at h
    omega
  | succ n ih =>
    obtain ⟨hdir1, hdir2⟩ := hfmt.dir
    have htracks := hfmt.tracks
    obtain ⟨r, w, hw, hfound⟩ := @tryTrack_ok v disk (v.dirTrack - d) d
      (v.dirTrack ≥ d + 1) hfmt (fun hc => by
        have := of_decide_eq_true hc
        exact ⟨fun _ => by omega, by omega, maxSectors_pos hfmt _⟩)
    cases r with
    | some ts =>
      obtain ⟨ha, ht1, hne, hexist⟩ := hfound
      have := of_decide_eq_true hexist
      exact ⟨some ts, w, by simp only [scanButterfly, hw], ha, by omega, by omega, by omega,
        fun hone t h1 h2 h3 => by omega⟩
    | none =>
      obtain ⟨hl, hbelow⟩ := hfound
      have hfmt' := hfmt.loads hl
      have hdir : w.dirTrack = v.dirTrack := by rw [hl.same]
      have hnum : w.numTracks = v.numTracks := by rw [hl.same]
      obtain ⟨hdir1', hdir2'⟩ := hfmt'.dir
      have htracks' := hfmt'.tracks
      obtain ⟨r, u, hu, hfound'⟩ := @tryTrack_ok w disk (w.dirTrack + d) d
        (w.dirTrack + d ≤ w.numTracks) hfmt' (fun hc => by
          have := of_decide_eq_true hc
          exact ⟨fun _ => by omega, by omega, maxSectors_pos hfmt' _⟩)
      cases r with
      | some ts =>
        obtain ⟨ha, ht1, hne, hexist⟩ := hfound'
        have := of_decide_eq_true hexist
        exact ⟨some ts, u, by simp only [scanButterfly, hw, hu], Allocated.after hl ha, by omega,
          by omega, by omega, fun hone t h1 h2 h3 => by omega⟩
      | none =>
        obtain ⟨hl', habove⟩ := hfound'
        have hlu : Loads disk v u := Loads.trans hl hl'
        have hdiru : u.dirTrack = v.dirTrack := by rw [hlu.same]
        have hnumu : u.numTracks = v.numTracks := by rw [hlu.same]
        -- both tracks at the distance `d` are full
        have hboth : ∀ t, d ≠ 0 → ((v.dirTrack ≥ d + 1 ∧ t = v.dirTrack - d) ∨
            (v.dirTrack + d ≤ v.numTracks ∧ t = v.dirTrack + d)) → Full disk v t := by
          rintro t hne (⟨hexist, rfl⟩ | ⟨hexist, rfl⟩)
          · exact hbelow hne (decide_eq_true hexist)
          · rw [← hdir]
            exact (full_loads hl).mp (habove hne (decide_eq_true (by omega)))
        obtain ⟨r, x, hx, hfound''⟩ := @ih u (d + 1) (hfmt.loads hlu)
        refine ⟨r, x, by simp only [scanButterfly, hw, hu, hx], ?_⟩
        cases r with
        | none =>
          refine ⟨Loads.trans hlu hfound''.1, fun t ht => ?_⟩
          rcases around_succ ht with hrest | ⟨hne, hhere⟩
          · refine (full_loads hlu).mp (hfound''.2 t ?_)
            unfold Around at hrest ⊢
            rwa [hdiru, hnumu]
          · exact hboth t hne hhere
        | some ts =>
          obtain ⟨ha, h1, h2, h3, hbetween⟩ := hfound''
          refine ⟨Allocated.after hlu ha, h1, by omega, by omega, fun hone t ht hne hlt => ?_⟩
          by_cases hhere : t = v.dirTrack + d
          · exact hboth t (by omega) (Or.inr ⟨by omega, hhere⟩)
          · exact (full_loads hlu).mp
              (hbetween (by omega) t (by omega) (by omega) hlt)

/-- The drive after the first search of a D9090/60 has flipped its toggle. -/
def toggled (v : Vdrive) : Vdrive :=
  if v.imageFormat = .f9000 then { v with d90toggle := Nat.xor v.d90toggle 1 } else v

theorem formatted_toggled (h : Formatted v disk) : Formatted (toggled v) disk := by
  unfold toggled
  split
  · exact ⟨⟨h.mounted.format, h.mounted.size, h.mounted.size1581, h.mounted.size8050,
      h.mounted.located, h.mounted.placed, h.mounted.reads⟩, h.fitted, h.blocks, h.dir, h.dir9000, h.tracks⟩
  · exact h

theorem toggled_same (v : Vdrive) : toggled v = { v with d90toggle := (toggled v).d90toggle } := by
  unfold toggled
  split <;> rfl

/-- A track that the search for the first sector comes to. -/
def Near (v : Vdrive) (t : Nat) : Prop :=
  match v.imageFormat with
  | .np | .f9000 => True
  | _ => t ≤ v.dirTrack + vdriveCalculateDiskHalf v ∧ v.dirTrack ≤ t + vdriveCalculateDiskHalf v

/-- The outcome of the search for a file's first sector: it misses no usable sector near the
directory. -/
def First (disk : Nat → Buf) (v w : Vdrive) : Option (Nat × Nat) → Prop
  | none => Loads disk v w ∧ ∀ t s, Usable v t s → Near v t → isFree v (view v disk) t s = false
  | some (t1, s1) => Allocated disk v w t1 s1 ∧ Usable v t1 s1 ∧
      ∀ t s, Usable v t s → isFree v (view v disk) t s = true → Ahead v t1 t

/-- A search for the next sector that starts where nothing is behind it. -/
theorem Next.first {r : Option (Nat × Nat)} (h : Next disk v w t r) (hs : Starts v t)
    (hahead : ∀ t', Ahead v t t') : First disk v w r := by
  cases r with
  | none => exact ⟨h.1, fun t' s' hu _ => h.2 hs t' s' hu (hahead t')⟩
  | some ts =>
    obtain ⟨hu, hrest⟩ := h.2 hs
    exact ⟨h.1, hu, fun t' s' hu' hfree => hrest t' s' hu' (hahead t') hfree⟩

theorem vdriveBamAllocFirstFreeSector_ok (hfmt : Formatted v disk) :
    ∃ r w, vdriveBamAllocFirstFreeSector v = (r, w) ∧ Found disk (toggled v) w r ∧
      ((v.imageFormat = .np → v.dirSector < 256) → First disk (toggled v) w r) := by
  have htog := formatted_toggled hfmt
  obtain ⟨hdir1, hdir2⟩ := hfmt.dir
  have htracks := hfmt.tracks
  unfold vdriveBamAllocFirstFreeSector
  unfold toggled at htog ⊢
  by_cases h90 : v.imageFormat = .f9000
  · obtain ⟨h2, hdir, h32⟩ := hfmt.dir9000 h90
    simp only [if_pos h90] at htog ⊢
    generalize ht : (if Nat.xor v.d90toggle 1 ≠ 0 then v.dirTrack + 1 else v.dirTrack - 1) = t
    have hrange : 1 ≤ t ∧ t ≤ v.numTracks ∧ t ≠ v.dirTrack := by rw [← ht]; split <;> omega
    obtain ⟨r, w, hw, hnext⟩ := vdriveBamAllocNextFreeSector_ok htog
      ⟨fun h => absurd h90 h, show t ≤ maxEntryTrack v by omega, maxSectors_pos htog t⟩
    exact ⟨r, w, hw, hnext.found, fun _ => hnext.first
      ⟨hrange.1, hrange.2.1, fun h => absurd h hrange.2.2⟩ fun _ => Or.inr (Or.inl h2)⟩
  · rw [if_neg h90, if_neg h90]
    by_cases hnp : v.imageFormat = .np
    · rw [if_pos hnp]
      obtain ⟨r, w, hw, hfound, hnext⟩ := @nextFreeSector_np v disk v.dirTrack v.dirSector
        (vdriveBamGetInterleave v) hfmt hnp ⟨hdir1, by omega⟩
      exact ⟨r, w, hw, hfound, fun hsec => (hnext (hsec hnp)).first
        ⟨hdir1, hdir2, fun _ => Or.inl hnp⟩ fun _ => Or.inl hnp⟩
    · rw [if_neg hnp]
      obtain ⟨r, w, hw, hfound⟩ := @scanButterfly_ok v disk 0 (vdriveCalculateDiskHalf v + 1) hfmt
      refine ⟨r, w, hw, ?_, fun _ => ?_⟩
      · cases r with
        | none => exact hfound.1
        | some ts => exact hfound.1
      · cases r with
        | none =>
          refine ⟨hfound.1, fun t s hu hnear => ?_⟩
          obtain ⟨-, h1, h2, -⟩ := id hu
          have hne : t ≠ v.dirTrack := fun heq => (hu.starts.2.2 heq).elim hnp h90
          refine (hfound.2 t ⟨hne, h1, h2, ?_⟩).usable hu
          unfold Near at hnear
          cases hf : v.imageFormat <;> simp only [hf] at hnear
          case np => exact absurd hf hnp
          case f9000 => exact absurd hf h90
          all_goals omega
        | some ts =>
          obtain ⟨ha, h1, h2, hne, hbetween⟩ := hfound
          refine ⟨ha, usable_found ha.1 h1 h2 hnp fun h => absurd h hne, fun t s hu hfree => ?_⟩
          by_cases hone : v.dirTrack = 1
          · refine Or.inr (Or.inr ?_)
            by_contra hlt
            have hne' : t ≠ v.dirTrack := fun heq => (hu.starts.2.2 heq).elim hnp h90
            have h1' := hu.2.1
            have hnot := (hbetween hone t (by omega) hne' (by omega)).usable hu
            rw [hfree] at hnot
            cases hnot
          · exact Or.inr (Or.inl (by omega))

end

end Vice.L3.BamSearch
