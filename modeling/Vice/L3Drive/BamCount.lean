import Vice.L3Drive.FreeMap

/-!
# Blocks free (`vdrive-bam.c`)

`vdrive_bam_free_block_count` loads the whole BAM and adds up the counts of the tracks,
without those of the directory. A NP partition has no counts, there it counts the bits.

Results:
* `vdriveBamReadBam_ok`: a BAM that can be read is in memory afterwards.
* `vdriveBamFreeBlockCount_ok`: where the counts are right, the result is the number of free
  sectors of the tracks that are not skipped.
-/
namespace Vice.L3.BamCount
open Vice.L0.Bitmap Vice.L2.Geometry Vice.L3.Disk Vice.L3.Drive Vice.L3.Bam Vice.L3.BamEntry
open Vice.L3.BamLayout Vice.L3.BamSearch Vice.L3.FreeMap

/-- mirrors src/vdrive/vdrive-bam.c:1399-1408: the number of set bits of a byte. -/
def bitcount (x : UInt8) : Nat := (List.range 8).countP fun i => x.toNat.testBit i

/-- mirrors src/vdrive/vdrive-bam.c:1429-1435 and 1452-1458: the counts of `n` groups of a track,
the first of which is that of sector `s`. -/
def countGroups (track : Nat) : Nat → Nat → Vdrive → Nat × Vdrive
  | 0, _, v => (0, v)
  | n + 1, s, v =>
    let (bamp, v) := vdriveBamGetTrackEntry v track s
    let blocks := match bamp with
      | some bamp => (v.bam bamp).toNat
      | none => 0
    let (rest, v) := countGroups track n (s + 32) v
    (blocks + rest, v)

/-- The tracks that do not count. -/
def skips (v : Vdrive) (track : Nat) : Bool :=
  match v.imageFormat with
  | .f1541 | .f2040 | .f1581 | .f8050 | .f8250 => track = v.dirTrack
  | .f1571 => track = v.dirTrack || track = v.dirTrack + 35
  | _ => false

/-- mirrors src/vdrive/vdrive-bam.c:1419-1463 -/
def countTrack (v : Vdrive) (track : Nat) : Nat × Vdrive :=
  match v.imageFormat with
  | .f1541 | .f2040 | .f1581 | .f8050 | .f8250 =>
    if skips v track then (0, v) else countGroups track 1 0 v
  | .f1571 =>
    if skips v track then (0, v)
    else if track ≤ 35 then countGroups track 1 0 v
    else ((v.bam (221 + track - 35 - 1)).toNat, v)
  | .np =>
    let a := 32 + 256 + 32 * (track - 1)
    let first := if track = v.bamTrack then 8 else 0
    (((List.range' first (32 - first)).map fun s => bitcount (v.bam (a + s))).sum, v)
  | .f9000 => countGroups track ((v.image.shape.sectors + 31) / 32) 0 v
  | _ => (0, v)

/-- mirrors src/vdrive/vdrive-bam.c:1417-1464: `n` tracks from `track` on -/
def countTracks : Nat → Nat → Vdrive → Nat × Vdrive
  | 0, _, v => (0, v)
  | n + 1, track, v =>
    let (blocks, v) := countTrack v track
    let (rest, v) := countTracks n (track + 1) v
    (blocks + rest, v)

/-- mirrors src/vdrive/vdrive-bam.c:1387-1467 (`vdrive_bam_free_block_count`) -/
def vdriveBamFreeBlockCount (v : Vdrive) : Nat × Vdrive :=
  let (err, v) := vdriveBamReadBam v
  if err ≠ .ok then (0, v) else countTracks v.numTracks 1 v

/-! ## What is counted -/

/-- The number of free sectors of a track. -/
def freeOnTrack (v : Vdrive) (bytes : Store) (t : Nat) : Nat :=
  (List.range (vdriveGetMaxSectors v t)).countP (isFree v bytes t)

/-- The number of free sectors of the tracks that are not skipped. -/
def freeBlocks (v : Vdrive) (bytes : Store) : Nat :=
  (((List.range' 1 v.numTracks).filter fun t => !skips v t).map (freeOnTrack v bytes)).sum

/-- The whole BAM is in memory. -/
def Loaded (v : Vdrive) : Prop := ∀ b < bamBlocks v, 0 ≤ v.bamState b

section
variable {v w : Vdrive} {disk : Nat → Buf} {bytes : Store} {t s p : Nat} {e : Entry}

/-! ## Loading -/

theorem readBlocks_ok {is : List Nat} {err : Ipe} (h : Mounted v disk) (his : ∀ i ∈ is, i < bamBlocks v) :
    ∃ w, readBlocks is v err = (if is = [] then err else .ok, w) ∧ Loads disk v w ∧
      ∀ i ∈ is, 0 ≤ w.bamState i := by
  induction is generalizing v err with
  | nil => exact ⟨v, rfl, Loads.refl h, fun i hi => absurd hi List.not_mem_nil⟩
  | cons i is ih =>
    obtain ⟨w, hw, hl, hstate⟩ := vdriveBamReadBamBlock_ok h (his i List.mem_cons_self)
    have hblocks := hl.same.blocks
    obtain ⟨u, hu, hlu, hall⟩ := @ih w .ok hl.mounted fun j hj => by
      rw [hblocks]
      exact his j (List.mem_cons_of_mem i hj)
    refine ⟨u, ?_, hl.trans hlu, fun j hj => ?_⟩
    · simp only [readBlocks, hw, if_true, hu, reduceCtorEq, if_false]
      split <;> rfl
    · rcases List.mem_cons.mp hj with rfl | hj
      · exact hlu.state j hstate
      · exact hall j hj

theorem vdriveBamReadBam_ok (h : Formatted v disk) :
    ∃ w, vdriveBamReadBam v = (.ok, w) ∧ Loads disk v w ∧ Loaded w := by
  have hblocks := h.blocks
  have hformat := h.mounted.format
  obtain ⟨w, hw, hl, hall⟩ := @readBlocks_ok v disk (List.range (bamBlocks v)) .minus h.mounted
    fun i hi => List.mem_range.mp hi
  have hne : List.range (bamBlocks v) ≠ [] := fun hnil => by
    have := congrArg List.length hnil
    rw [List.length_range, List.length_nil] at this
    omega
  rw [if_neg hne] at hw
  unfold bamBlocks at hw
  refine ⟨w, ?_, hl, fun b hb => hall b (List.mem_range.mpr (hl.same.blocks ▸ hb))⟩
  unfold vdriveBamReadBam
  cases hf : v.imageFormat <;> simp only
  case sys => exact absurd hf hformat.1
  case none => exact absurd hf hformat.2
  all_goals simp only [hw, reduceCtorEq, if_false]

theorem Loaded.loads (h : Loaded v) (hl : Loads disk v w) : Loaded w :=
  fun b hb => hl.state b (h b (hl.same.blocks ▸ hb))

/-! ## One track -/

theorem skips_same (h : SameDisk v w) : skips w = skips v := by
  unfold skips
  rw [h]

theorem freeOnTrack_loads (hl : Loads disk v w) (t : Nat) :
    freeOnTrack w (view w disk) t = freeOnTrack v (view v disk) t := by
  unfold freeOnTrack
  rw [(maxSectors_same hl.same).1]
  exact congrArg (fun f => List.countP f _) (funext (isFree_loads hl t))

/-- The free sectors of a group from sector `s` on. -/
def freeInGroup (v : Vdrive) (bytes : Store) (t s n : Nat) : Nat :=
  (List.range n).countP fun i => isFree v bytes t (s + i)

theorem freeInGroup_none {n : Nat} (hg : ∀ i < n, group v (s + i) = group v s)
    (he : entryOf v bytes t s = none) : freeInGroup v bytes t s n = 0 := by
  refine List.countP_eq_zero.mpr fun i hi => ?_
  rw [isFree, entryOf_group (hg i (List.mem_range.mp hi)), he]
  exact Bool.false_ne_true

/-- A count that is right is the number of the free sectors in the group. -/
theorem freeInGroup_some (hg : ∀ i < e.sectors, group v (s + i) = group v s)
    (hb : ∀ i < e.sectors, bitNumber v (s + i) = i) (he : entryOf v bytes t s = some e) :
    freeInGroup v bytes t s e.sectors = e.free bytes := by
  refine List.countP_congr fun i hi => ?_
  have hi := List.mem_range.mp hi
  rw [isFree, entryOf_group (hg i hi), he]
  simp only [hb i hi]

theorem freeInGroup_add (m n : Nat) : freeInGroup v bytes t s (m + n) =
      freeInGroup v bytes t s m + freeInGroup v bytes t (s + m) n := by
  unfold freeInGroup
  rw [List.range_add, List.countP_append, List.countP_map]
  simp only [Function.comp_def, Nat.add_assoc]

theorem freeOnTrack_eq : freeOnTrack v bytes t = freeInGroup v bytes t 0 (vdriveGetMaxSectors v t) := by
  unfold freeOnTrack freeInGroup
  simp only [Nat.zero_add]

/-- The track's entries count `n` sectors each, from `s` on. -/
structure Grouped (v : Vdrive) (t s n : Nat) : Prop where
  onDisk : OnDisk v t s
  count : ∀ p, (entryAt v t p).count = some p
  sectors : ∀ p, (entryAt v t p).sectors = n
  group : ∀ i < n, group v (s + i) = BamLayout.group v s
  bit : ∀ i < n, bitNumber v (s + i) = i

theorem countEntry_ok {n : Nat} (h : Formatted v disk) (hloaded : Loaded v)
    (hc : Counts v (view v disk)) (ht : t ≤ v.numTracks) (hg : Grouped v t s n) :
    ∃ bamp w, vdriveBamGetTrackEntry v t s = (bamp, w) ∧ Loads disk v w ∧
      (match bamp with
        | some bamp => (w.bam bamp).toNat
        | none => 0) = freeInGroup v (view v disk) t s n := by
  obtain ⟨w, hw, hl⟩ := vdriveBamGetTrackEntry_ok h.mounted t s
  refine ⟨_, w, hw, hl, ?_⟩
  have h71 : ¬ (t > 70 ∧ v.imageFormat = .f1571) := by
    rintro ⟨ht, hf⟩
    have hmax := hg.onDisk.2.1
    simp only [maxEntryTrack, hf] at hmax
    omega
  cases hp : trackEntry v (view v disk) t s with
  | none =>
    have he : entryOf v (view v disk) t s = none := by
      rw [entryOf, if_neg h71, hp]
      rfl
    exact (freeInGroup_none hg.group he).symm
  | some p =>
    have he : entryOf v (view v disk) t s = some (entryAt v t p) := by
      rw [entryOf, if_neg h71, hp]
      rfl
    have hcount := hc t s _ hg.onDisk ht he p (hg.count p)
    have hblock := (entry_shape h.mounted h.fitted hg.onDisk he).block p (Or.inl (hg.count p))
    have hbyte : w.bam p = view v disk p := by
      rw [← hl.view, view_loaded (hl.state _ (hloaded _ hblock))]
    have hfree := freeInGroup_some (e := entryAt v t p) (by rw [hg.sectors]; exact hg.group)
      (by rw [hg.sectors]; exact hg.bit) he
    rw [hg.sectors] at hfree
    simp only [hbyte, hcount, hfree]

/-- A format with one count to a track. -/
def OneCount (v : Vdrive) (t : Nat) : Prop :=
  match v.imageFormat with
  | .f1541 | .f2040 | .f1581 | .f8050 | .f8250 => True
  | .f1571 => t ≤ 35
  | _ => False

theorem grouped_one (h : Formatted v disk) (hone : OneCount v t) (h1 : 1 ≤ t)
    (ht : t ≤ v.numTracks) : Grouped v t 0 (vdriveGetMaxSectors v t) := by
  have htracks := h.tracks
  have hd : OnDisk v t 0 := ⟨fun _ => h1, by omega, maxSectors_pos h t⟩
  unfold OneCount at hone
  cases hf : v.imageFormat <;> simp only [hf] at hone
  case f1571 =>
    exact ⟨hd, fun p => by simp only [entryAt, hf, if_pos hone],
      fun p => by simp only [entryAt, hf], fun i _ => by simp only [group, hf],
      fun i _ => by simp only [bitNumber, hf, Nat.zero_add]⟩
  all_goals
    exact ⟨hd, fun p => by simp only [entryAt, hf], fun p => by simp only [entryAt, hf],
      fun i _ => by simp only [group, hf], fun i _ => by simp only [bitNumber, hf, Nat.zero_add]⟩

theorem countGroups_one (h : Formatted v disk) (hloaded : Loaded v) (hc : Counts v (view v disk))
    (hone : OneCount v t) (h1 : 1 ≤ t) (ht : t ≤ v.numTracks) :
    ∃ w, countGroups t 1 0 v = (freeOnTrack v (view v disk) t, w) ∧ Loads disk v w := by
  obtain ⟨bamp, w, hw, hl, hcount⟩ := countEntry_ok h hloaded hc ht (grouped_one h hone h1 ht)
  refine ⟨w, ?_, hl⟩
  rw [freeOnTrack_eq, ← hcount]
  simp only [countGroups, hw, Nat.add_zero]

theorem grouped_9000 (hf : v.imageFormat = .f9000) (hd : OnDisk v t s) (hs : s % 32 = 0) : Grouped v t s 32 :=
  ⟨hd, fun p => by simp only [entryAt, hf], fun p => by simp only [entryAt, hf],
    fun i hi => by simp only [group, hf]; omega, fun i hi => by simp only [bitNumber, hf]; omega⟩

theorem countGroups_9000 {n : Nat} (h : Formatted v disk) (hloaded : Loaded v)
    (hc : Counts v (view v disk)) (hf : v.imageFormat = .f9000) (ht : t ≤ v.numTracks)
    (hs : s % 32 = 0) (hn : s + 32 * n ≤ vdriveGetMaxSectors v t) :
    ∃ w, countGroups t n s v = (freeInGroup v (view v disk) t s (32 * n), w) ∧ Loads disk v w := by
  induction n generalizing s v with
  | zero => exact ⟨v, rfl, Loads.refl h.mounted⟩
  | succ n ih =>
    have htracks := h.tracks
    have hd : OnDisk v t s := ⟨fun hne => absurd hf hne, by omega, by omega⟩
    obtain ⟨bamp, w, hw, hl, hcount⟩ := countEntry_ok h hloaded hc ht (grouped_9000 hf hd hs)
    have hmax := (maxSectors_same hl.same).1
    obtain ⟨u, hu, hlu⟩ := @ih w (s + 32) (h.loads hl) (hloaded.loads hl) (counts_loads hl hc)
      (hl.same.format.trans hf) (by rw [hl.same]; exact ht) (by omega) (by rw [hmax]; omega)
    refine ⟨u, ?_, hl.trans hlu⟩
    have hrest : freeInGroup w (view w disk) t (s + 32) (32 * n) =
        freeInGroup v (view v disk) t (s + 32) (32 * n) := by
      unfold freeInGroup
      simp only [isFree_loads hl]
    simp only [countGroups, hw, hu, hcount, hrest]
    rw [show 32 * (n + 1) = 32 + 32 * n by omega, freeInGroup_add]

/-- What a track adds to the sum. -/
def blocksOf (v : Vdrive) (bytes : Store) (t : Nat) : Nat :=
  if skips v t then 0 else freeOnTrack v bytes t

/-- The count of a track on the second side of a 1571. -/
theorem count_second_side (h : Formatted v disk) (hloaded : Loaded v)
    (hc : Counts v (view v disk)) (hf : v.imageFormat = .f1571) (h35 : ¬ t ≤ 35)
    (ht : t ≤ v.numTracks) :
    (v.bam (221 + t - 35 - 1)).toNat = freeOnTrack v (view v disk) t := by
  have htracks := h.tracks
  have hmax : t ≤ 70 := by simp only [maxEntryTrack, hf] at htracks; omega
  have hd : OnDisk v t 0 := ⟨fun _ => by omega, by omega, maxSectors_pos h t⟩
  have he : entryOf v (view v disk) t 0 =
      some (entryAt v t (0x100 + 3 * (t - 36) - 1)) := by
    unfold entryOf trackEntry
    simp only [hf, if_neg h35, show ¬ t > 70 by omega, show ¬ t = 0 by omega, false_and, if_false,
      Option.map_some]
  have hsectors : (entryAt v t (0x100 + 3 * (t - 36) - 1)).sectors = vdriveGetMaxSectors v t := by
    simp only [entryAt, hf]
  have hcount : (entryAt v t (0x100 + 3 * (t - 36) - 1)).count = some (221 + t - 36) := by
    simp only [entryAt, hf, if_neg h35]
  have hblock := (entry_shape h.mounted h.fitted hd he).block _ (Or.inl hcount)
  have hfree := @freeInGroup_some v (view v disk) t 0 _
    (fun i _ => by simp only [group, hf])
    (fun i _ => by simp only [bitNumber, hf, Nat.zero_add]) he
  rw [hsectors] at hfree
  rw [freeOnTrack_eq, hfree, ← hc t 0 _ hd ht he _ hcount, view_loaded (hloaded _ hblock)]
  rfl

theorem count_track (h : Formatted v disk) (hloaded : Loaded v) (hc : Counts v (view v disk))
    (hnp : v.imageFormat ≠ .np) (h1 : 1 ≤ t) (ht : t ≤ v.numTracks) :
    ∃ w, countTrack v t = (blocksOf v (view v disk) t, w) ∧ Loads disk v w := by
  have hformat := h.mounted.format
  have hstay : Loads disk v v := Loads.refl h.mounted
  have hone := fun hone => countGroups_one h hloaded hc hone h1 ht
  have hsecond := fun hf h35 => count_second_side h hloaded hc hf h35 ht
  have hfit := h.fitted
  have h9000 := fun hf => @countGroups_9000 v disk t 0 (v.image.shape.sectors / 32) h hloaded hc hf
    ht (Nat.zero_mod 32)
  unfold countTrack blocksOf
  unfold OneCount at hone
  unfold Fitted at hfit
  by_cases hskip : skips v t = true
  · cases hf : v.imageFormat <;> simp only [hskip, if_true]
    case np => exact absurd hf hnp
    case sys => exact absurd hf hformat.1
    case none => exact absurd hf hformat.2
    case f9000 =>
      unfold skips at hskip
      simp only [hf] at hskip
      cases hskip
    all_goals exact ⟨v, rfl, hstay⟩
  · simp only [hskip]
    cases hf : v.imageFormat <;> simp only [hf] at hone hsecond hfit h9000 ⊢
    case np => exact absurd hf hnp
    case f1571 =>
      by_cases h35 : t ≤ 35
      · obtain ⟨w, hw, hl⟩ := hone h35
        exact ⟨w, by simp only [Bool.false_eq_true, if_false, if_pos h35, hw], hl⟩
      · refine ⟨v, ?_, hstay⟩
        simp only [Bool.false_eq_true, if_false, if_neg h35, hsecond trivial h35]
    case f9000 =>
      have hsectors : vdriveGetMaxSectors v t = v.image.shape.sectors := by
        simp only [vdriveGetMaxSectors, hf]
      obtain ⟨w, hw, hl⟩ := h9000 trivial (by omega)
      refine ⟨w, ?_, hl⟩
      have hgroups : (v.image.shape.sectors + 31) / 32 = v.image.shape.sectors / 32 := by omega
      have hall : 32 * (v.image.shape.sectors / 32) = v.image.shape.sectors := by omega
      simp only [hgroups, hw, hall, Bool.false_eq_true, if_false, freeOnTrack_eq, hsectors]
    all_goals
      obtain ⟨w, hw, hl⟩ := hone trivial
      exact ⟨w, by simp only [Bool.false_eq_true, if_false, hw], hl⟩

/-! ## The sum -/

theorem blocksOf_loads (hl : Loads disk v w) (t : Nat) :
    blocksOf w (view w disk) t = blocksOf v (view v disk) t := by
  unfold blocksOf
  rw [skips_same hl.same, freeOnTrack_loads hl]

theorem countTracks_ok {n : Nat} (h : Formatted v disk) (hloaded : Loaded v)
    (hc : Counts v (view v disk)) (hnp : v.imageFormat ≠ .np) (h1 : 1 ≤ t)
    (ht : t + n ≤ v.numTracks + 1) :
    ∃ w, countTracks n t v = (((List.range' t n).map (blocksOf v (view v disk))).sum, w) ∧
      Loads disk v w := by
  induction n generalizing t v with
  | zero => exact ⟨v, rfl, Loads.refl h.mounted⟩
  | succ n ih =>
    obtain ⟨w, hw, hl⟩ := count_track h hloaded hc hnp h1 (show t ≤ v.numTracks by omega)
    have hnum : w.numTracks = v.numTracks := by rw [hl.same]
    obtain ⟨u, hu, hlu⟩ := @ih w (t + 1) (h.loads hl) (hloaded.loads hl) (counts_loads hl hc)
      (by rw [hl.same.format]; exact hnp) (by omega) (by omega)
    refine ⟨u, ?_, hl.trans hlu⟩
    simp only [countTracks, hw, hu, List.range'_succ, List.map_cons, List.sum_cons]
    rw [funext (blocksOf_loads hl)]

/-- Skipping a track is adding nothing. -/
theorem sum_blocksOf (ts : List Nat) : (ts.map (blocksOf v bytes)).sum =
      ((ts.filter fun t => !skips v t).map (freeOnTrack v bytes)).sum := by
  induction ts with
  | nil => rfl
  | cons t ts ih =>
    rw [List.map_cons, List.sum_cons, ih, List.filter_cons, blocksOf]
    by_cases hskip : skips v t = true
    · simp only [hskip, if_true, Bool.not_true, Bool.false_eq_true, if_false, Nat.zero_add]
    · simp only [hskip, Bool.not_false, if_true, Bool.false_eq_true, if_false, List.map_cons, List.sum_cons]

/-- Where the counts are right, the result is the number of free sectors that count. -/
theorem vdriveBamFreeBlockCount_ok (h : Formatted v disk) (hc : Counts v (view v disk))
    (hnp : v.imageFormat ≠ .np) :
    ∃ w, vdriveBamFreeBlockCount v = (freeBlocks v (view v disk), w) ∧ Loads disk v w := by
  obtain ⟨w, hw, hl, hloaded⟩ := vdriveBamReadBam_ok h
  have hnum : w.numTracks = v.numTracks := by rw [hl.same]
  obtain ⟨u, hu, hlu⟩ := @countTracks_ok w disk 1 w.numTracks (h.loads hl) hloaded
    (counts_loads hl hc) (by rw [hl.same.format]; exact hnp) (Nat.le_refl 1) (by omega)
  refine ⟨u, ?_, hl.trans hlu⟩
  unfold vdriveBamFreeBlockCount freeBlocks
  rw [hnum, funext (blocksOf_loads hl), sum_blocksOf] at hu
  simp only [hw, ne_eq, not_true_eq_false, if_false, hnum, hu]

end

end Vice.L3.BamCount
