import Vice.L0Core.RowLayout
import Vice.L3Drive.PartitionSwitch

/-!
# Where CMD partitions lie (`vdrive.c`)

The sectors of a partition in logical order, track by track, are to be the blocks of the image from
the partition's offset on. On a hard disk `vdrive_log_to_phy` adds in 16 bit steps and carries into
the track once; a native partition takes its tracks from its size in the table, with no limit, so
its end can lie two carries away.

Results:
* `partitionOffset_rank`: within a partition, the offset counts the sectors.
* `cmdAddress_iff`: the one carry is enough below 2 * 65536.
* `cmdPartitions_iff`: the partitions of a table are mapped as they should be if and only if no
  native partition of a hard disk reaches further.
-/
namespace Vice.L3.CmdPartitions
open Vice.L0.RowLayout Vice.L2.Geometry Vice.L3.Disk Vice.L3.Drive Vice.L3.PartitionSwitch

/-- The tracks and sectors of the selected partition. -/
def rowsOf (v : Vdrive) : Rows :=
  match v.imageFormat with
  | .f1541 => ⟨1, 35, fun t => max4171.getD t 0⟩
  | .f1571 => ⟨1, 70, fun t => max4171.getD t 0⟩
  | .f1581 => ⟨1, 80, fun _ => 40⟩
  | .np => ⟨1, v.numTracks, fun _ => 256⟩
  | .sys =>
    match v.image.shape.type with
    | .dhd => ⟨0, 2, fun _ => 256⟩
    | .d1m => ⟨0, 2, fun t => if t = 0 then 8 else 32⟩
    | .d2m => ⟨0, 2, fun t => if t = 0 then 8 else 72⟩
    | .d4m => ⟨0, 2, fun t => if t = 0 then 8 else 152⟩
    | _ => ⟨0, 0, fun _ => 0⟩
  | _ => ⟨1, 0, fun _ => 0⟩

/-- The sectors of the partition, one after another, lie in the blocks behind its start. -/
def InOrder (v : Vdrive) : Prop :=
  (∀ t s, (vdriveLogToPhy v t s).isSome ↔ (rowsOf v).Has t s) ∧
  (rowsOf v).cells.map (fun c => vdriveLogToPhy v c.1 c.2) =
    (List.range (rowsOf v).cells.length).map fun i => some (physical v (2 * v.currentOffset + i))

/-- No two sectors of the partition lie in the same place. -/
def Distinct (v : Vdrive) : Prop :=
  ∀ t s t' s' a, vdriveLogToPhy v t s = some a → vdriveLogToPhy v t' s' = some a → t = t' ∧ s = s'

/-! ## Offsets in a partition -/

section
variable {v : Vdrive} {t s : Nat}

theorem tosec_start (h1 : 1 ≤ t) (h2 : t ≤ 70) (n : Nat) :
    Rows.start ⟨1, n, fun t => max4171.getD t 0⟩ (t - 1) = tosec4171.getD t 0 := by
  have hall : ∀ t < 71, 1 ≤ t →
      ((List.range (t - 1)).map fun i => max4171.getD (1 + i) 0).sum = tosec4171.getD t 0 := by
    decide +kernel
  exact hall t (by omega) h1

/-- In the formats of partitions the offset is the rank. -/
theorem partitionOffset_rank (hc : IsCmd v.image.shape.type) (t s : Nat) :
    ((rowsOf v).Has t s → partitionOffset v t s = some ((rowsOf v).rank t s)) ∧
    (¬ (rowsOf v).Has t s → partitionOffset v t s = none) := by
  have hconst : ∀ (f n w k : Nat), Rows.start ⟨f, n, fun _ => w⟩ k = k * w :=
    fun f n w k => Rows.start_const (fun _ _ => rfl) k
  unfold partitionOffset rowsOf Rows.Has Rows.rank
  cases hf : v.imageFormat <;> simp only [ne_eq, reduceCtorEq, not_true_eq_false, not_false_eq_true,
    true_and, false_and, if_false]
  case f1541 =>
    constructor
    · rintro ⟨h1, h2, h3⟩
      rw [if_neg (by omega), if_neg (by omega), if_neg (by omega), tosec_start h1 (by omega)]
    · intro h
      split
      · rfl
      · split
        · rfl
        · rw [if_pos (by omega)]
  case f1571 =>
    constructor
    · rintro ⟨h1, h2, h3⟩
      rw [if_neg (by omega), if_neg (by omega), if_neg (by omega), tosec_start h1 (by omega)]
    · intro h
      split
      · rfl
      · split
        · rfl
        · rw [if_pos (by omega)]
  case f1581 =>
    constructor
    · rintro ⟨h1, h2, h3⟩
      rw [if_neg (by omega), if_neg (by omega), if_neg (by omega), hconst]
    · intro h
      split
      · rfl
      · split
        · rfl
        · rw [if_pos (by omega)]
  case np =>
    constructor
    · rintro ⟨h1, h2, h3⟩
      rw [if_neg (by omega), if_neg (by omega), if_neg (by omega), hconst]
    · intro h
      split
      · rfl
      · split
        · rfl
        · rw [if_pos (by omega)]
  case sys =>
    rcases hc with hc | hc | hc | hc <;> simp only [hc]
    · constructor
      · rintro ⟨-, h2, h3⟩
        rw [if_neg (by omega), if_neg (by omega), hconst, Nat.sub_zero]
      · intro h
        split
        · rfl
        · rw [if_pos (by omega)]
    all_goals
      unfold sysOffsetFd
      constructor
      · rintro ⟨-, h2, h3⟩
        rw [if_neg (by omega)]
        have ht : t = 0 ∨ t = 1 := by omega
        rcases ht with rfl | rfl
        · rw [if_pos rfl] at h3
          rw [if_neg (by omega), if_neg (by omega)]
          rfl
        · rw [if_neg (by omega)] at h3
          rw [if_neg (by omega), if_neg (by omega)]
          rfl
      · intro h
        split
        · rfl
        · have ht : t = 0 ∨ t = 1 := by omega
          split
          · rfl
          · rcases ht with rfl | rfl
            · rw [if_pos rfl] at h
              omega
            · rw [if_neg (by omega)] at h
              rw [if_pos (by omega)]
  all_goals
    constructor
    · rintro ⟨h1, h2, -⟩
      omega
    · intro
      split <;> rfl

theorem rowsOf_small (hf : v.imageFormat ≠ .np) : (rowsOf v).start (rowsOf v).count ≤ 3200 := by
  unfold rowsOf
  cases hf' : v.imageFormat <;> simp only
  case np => exact absurd hf' hf
  case sys => cases v.image.shape.type <;> decide
  all_goals decide +kernel

/-! ## Places in the image -/

/-- One carry is enough as long as the offset stays below the second one. -/
theorem cmdAddress_iff {offset : Nat} (hsmall : offset + v.currentOffset * 2 < 2 ^ 32) :
    cmdAddress v offset = physical v (2 * v.currentOffset + offset) ↔
      (v.isHd → v.currentOffset * 2 % 65536 + offset < 131072) := by
  unfold cmdAddress physical
  by_cases hhd : v.isHd
  · rw [if_pos hhd, if_pos hhd]
    constructor
    · intro h _
      by_contra hfar
      have hcarry : (v.currentOffset * 2 % 65536 + offset) / 65536 ≠ 0 := by omega
      simp only [if_pos hcarry] at h
      have := congrArg Prod.fst h
      simp only at this
      omega
    · intro h
      have hnear := h hhd
      by_cases hcarry : (v.currentOffset * 2 % 65536 + offset) / 65536 ≠ 0
      · simp only [if_pos hcarry]
        refine Prod.ext ?_ ?_ <;> simp only <;> omega
      · simp only [if_neg hcarry]
        refine Prod.ext ?_ ?_ <;> simp only <;> omega
  · rw [if_neg hhd, if_neg hhd]
    simp only [Nat.mod_eq_of_lt hsmall]
    refine ⟨fun _ h => absurd h hhd, fun _ => Prod.ext ?_ ?_⟩ <;> simp only <;> omega

theorem physical_inj {m n : Nat} (h : physical v m = physical v n) : m = n := by
  unfold physical at h
  split at h
  · have h1 := congrArg Prod.fst h
    have h2 := congrArg Prod.snd h
    simp only at h1 h2
    omega
  · have h1 := congrArg Prod.fst h
    have h2 := congrArg Prod.snd h
    simp only at h1 h2
    omega

/-- `InOrder`, sector by sector. -/
theorem inOrder_iff : InOrder v ↔ (∀ t s, (vdriveLogToPhy v t s).isSome ↔ (rowsOf v).Has t s) ∧
    ∀ t s, (rowsOf v).Has t s →
      vdriveLogToPhy v t s = some (physical v (2 * v.currentOffset + (rowsOf v).rank t s)) := by
  unfold InOrder
  refine and_congr_right fun _ => ?_
  rw [Rows.cells_length, ← Rows.cells_rank, List.map_map, List.map_inj_left]
  constructor
  · intro h t s hts
    exact h (t, s) (Rows.mem_cells.mpr hts)
  · rintro h ⟨t, s⟩ hts
    exact h t s (Rows.mem_cells.mp hts)

/-- A partition of an image with a table, small enough for the arithmetic. -/
structure Opened (v : Vdrive) : Prop where
  haspt : v.haspt = true
  cmd : IsCmd v.image.shape.type
  offset : v.currentOffset < 2 ^ 24
  count : (rowsOf v).start (rowsOf v).count ≤ 2 ^ 25

theorem Opened.logToPhy (h : Opened v) (t s : Nat) :
    ((rowsOf v).Has t s → vdriveLogToPhy v t s = some (cmdAddress v ((rowsOf v).rank t s))) ∧
    (¬ (rowsOf v).Has t s → vdriveLogToPhy v t s = none) := by
  have hne : v.currentOffset ≠ uint32Max := by
    have := h.offset
    unfold uint32Max
    omega
  have hrank := partitionOffset_rank h.cmd t s
  unfold vdriveLogToPhy
  rw [if_neg hne, if_pos h.haspt]
  refine ⟨fun hts => ?_, fun hts => ?_⟩
  · rw [hrank.1 hts, Option.map_some]
  · rw [hrank.2 hts, Option.map_none]

theorem Opened.logToPhy_has (h : Opened v) {a : Nat × Nat} (ha : vdriveLogToPhy v t s = some a) :
    (rowsOf v).Has t s := by
  by_contra hts
  rw [(h.logToPhy t s).2 hts] at ha
  cases ha

/-- The sectors are where they should be if the last one is not two carries away. -/
theorem Opened.inOrder (h : Opened v) : InOrder v ↔
    (v.isHd → v.currentOffset * 2 % 65536 + (rowsOf v).start (rowsOf v).count ≤ 131072) := by
  have hcount := h.count
  have hoffset := h.offset
  rw [inOrder_iff]
  constructor
  · rintro ⟨-, hall⟩ hhd
    by_contra hfar
    -- the partition's last sector has the highest offset
    have hcells : (rowsOf v).cells.map (fun c => (rowsOf v).rank c.1 c.2) = _ := Rows.cells_rank _
    obtain ⟨⟨t, s⟩, hmem, hlast⟩ : ∃ c ∈ (rowsOf v).cells,
        (rowsOf v).rank c.1 c.2 = (rowsOf v).start (rowsOf v).count - 1 := by
      rw [← List.mem_map, hcells, List.mem_range]
      omega
    have hts := Rows.mem_cells.mp hmem
    simp only at hlast
    have hphys := hall t s hts
    rw [(h.logToPhy t s).1 hts, hlast, Option.some.injEq, cmdAddress_iff (by omega)] at hphys
    have := hphys hhd
    omega
  · intro hnear
    refine ⟨fun t s => ?_, fun t s hts => ?_⟩
    · by_cases hts : (rowsOf v).Has t s
      · rw [(h.logToPhy t s).1 hts]
        exact ⟨fun _ => hts, fun _ => rfl⟩
      · rw [(h.logToPhy t s).2 hts]
        exact ⟨fun hn => absurd hn (by decide), fun hn => absurd hn hts⟩
    · have hlt := Rows.rank_lt hts
      rw [(h.logToPhy t s).1 hts, Option.some.injEq, cmdAddress_iff (by omega)]
      intro hhd
      have := hnear hhd
      omega

theorem InOrder.place (hv : Opened v) (h : InOrder v) {a : Nat × Nat}
    (ha : vdriveLogToPhy v t s = some a) : (rowsOf v).Has t s ∧
      a = physical v (2 * v.currentOffset + (rowsOf v).rank t s) := by
  have hts := hv.logToPhy_has ha
  rw [(inOrder_iff.mp h).2 t s hts] at ha
  exact ⟨hts, (Option.some.inj ha).symm⟩

theorem InOrder.distinct (hv : Opened v) (h : InOrder v) : Distinct v := by
  intro t s t' s' a ha ha'
  obtain ⟨hts, heq⟩ := h.place hv ha
  obtain ⟨hts', heq'⟩ := h.place hv ha'
  have := physical_inj (heq.symm.trans heq')
  exact Rows.rank_inj hts hts' (by omega)

end

/-! ## The partitions of a table -/

/-- Three bytes say where a partition lies, and three how long it is. -/
def Words (parts : PartTable) : Prop :=
  ∀ p, parts.ptype p ≠ 0 → parts.poffset p < 2 ^ 24 ∧ parts.psize p < 2 ^ 24

/-- A change to partition `p` leaves `v`. -/
def Selects (d : Drive) (p : Nat) (v : Vdrive) : Prop :=
  ∃ d', changeTable d p = (.ok, d') ∧ d'.vdrive = v

/-- The blocks of 512 bytes that the table gives partition `p` are enough for its format. -/
def Covers (d : Drive) (p : Nat) (v : Vdrive) : Prop :=
  (rowsOf v).cells.length ≤ 2 * d.vdrive.parts.psize p

/-- Neither of two partitions reaches into the other, by the table. -/
def Disjoint (d : Drive) (p p' : Nat) : Prop :=
  d.vdrive.parts.poffset p + d.vdrive.parts.psize p ≤ d.vdrive.parts.poffset p' ∨
  d.vdrive.parts.poffset p' + d.vdrive.parts.psize p' ≤ d.vdrive.parts.poffset p

/-- What the mapping of logical sectors is to do. -/
structure Faithful (d : Drive) : Prop where
  inOrder : ∀ p v, Selects d p v → InOrder v
  distinct : ∀ p v, Selects d p v → Distinct v
  apart : ∀ p p' v v', Selects d p v → Selects d p' v' → Disjoint d p p' → Covers d p v →
    Covers d p' v' → ∀ t s t' s' a, vdriveLogToPhy v t s = some a →
      vdriveLogToPhy v' t' s' ≠ some a

/-- No native partition of a hard disk has sectors two carries away. -/
def OneCarry (d : Drive) : Prop :=
  d.vdrive.isHd → ∀ p, d.vdrive.parts.ptype p = 1 →
    d.vdrive.parts.poffset p * 2 % 65536 + d.vdrive.parts.psize p / 128 * 256 ≤ 131072

section
variable {d : Drive} {p : Nat} {v : Vdrive}

theorem Selects.spec (h : Selects d p v) : d.vdrive.parts.ptype p ≠ 0 ∧
    v.image = d.vdrive.image ∧ v.haspt = d.vdrive.haspt ∧
    v.currentOffset = d.vdrive.parts.poffset p ∧
    ((d.vdrive.parts.ptype p = 1 ∧ v.imageFormat = .np ∧
        v.numTracks = d.vdrive.parts.psize p / 128) ∨
      d.vdrive.parts.ptype p ≠ 1 ∧ v.imageFormat ≠ .np) := by
  obtain ⟨d', h, rfl⟩ := h
  unfold changeTable at h
  simp only at h
  split at h
  · cases h
  · next hno =>
    split at h
    · next h4 =>
      cases h
      refine ⟨by omega, rfl, rfl, rfl, ?_⟩
      have htype : d.vdrive.parts.ptype p = 1 ∨ d.vdrive.parts.ptype p = 2 ∨
          d.vdrive.parts.ptype p = 3 ∨ d.vdrive.parts.ptype p = 4 := by omega
      rcases htype with ht | ht | ht | ht <;> simp only [ht]
      · exact Or.inl ⟨trivial, rfl, rfl⟩
      all_goals exact Or.inr ⟨by decide, by decide⟩
    · split at h
      · next h255 =>
        cases h
        exact ⟨by omega, rfl, rfl, rfl, Or.inr ⟨by omega, fun hf => by cases hf⟩⟩
      · cases h

theorem native_count {v : Vdrive} (hf : v.imageFormat = .np) :
    (rowsOf v).start (rowsOf v).count = v.numTracks * 256 := by
  unfold rowsOf
  simp only [hf]
  exact Rows.start_const (fun _ _ => rfl) _

theorem Selects.opened (hpt : d.vdrive.haspt = true) (hc : IsCmd d.vdrive.image.shape.type)
    (hw : Words d.vdrive.parts) (h : Selects d p v) : Opened v := by
  obtain ⟨h0, himage, hhas, hoff, hkind⟩ := h.spec
  obtain ⟨ho, hs⟩ := hw p h0
  refine ⟨hhas.trans hpt, himage ▸ hc, hoff ▸ ho, ?_⟩
  rcases hkind with ⟨-, hf, hn⟩ | ⟨-, hf⟩
  · rw [native_count hf, hn]
    omega
  · have := rowsOf_small hf
    omega

/-- A native partition can be selected. -/
theorem selects_native (d : Drive) {p : Nat} (h : d.vdrive.parts.ptype p = 1) : ∃ v, Selects d p v := by
  unfold Selects changeTable
  simp only [h]
  exact ⟨_, _, rfl, rfl⟩

/-- mirrors src/vdrive/vdrive.c:774-936 and 1311-1345: of all partition tables, those with no native
partition that far are mapped as they should be. -/
theorem cmdPartitions_iff (hpt : d.vdrive.haspt = true) (hc : IsCmd d.vdrive.image.shape.type)
    (hw : Words d.vdrive.parts) : Faithful d ↔ OneCarry d := by
  have hisHd : ∀ {p v}, Selects d p v → v.isHd = d.vdrive.isHd := by
    intro p v h
    unfold Vdrive.isHd
    rw [h.spec.2.1]
  constructor
  · intro h hhd p htype
    obtain ⟨v, hv⟩ := selects_native d htype
    obtain ⟨-, -, -, hoff, hkind⟩ := hv.spec
    obtain ⟨-, hf, hn⟩ := hkind.resolve_right fun hne => hne.1 htype
    have := ((hv.opened hpt hc hw).inOrder.mp (h.inOrder p v hv)) ((hisHd hv).trans hhd)
    rwa [native_count hf, hn, hoff] at this
  · intro h
    have hin : ∀ p v, Selects d p v → InOrder v := by
      intro p v hv
      refine (hv.opened hpt hc hw).inOrder.mpr fun hhd => ?_
      obtain ⟨-, -, -, hoff, ⟨htype, hf, hn⟩ | ⟨-, hf⟩⟩ := hv.spec
      · rw [native_count hf, hn, hoff]
        exact h ((hisHd hv).symm.trans hhd) p htype
      · have := rowsOf_small hf
        omega
    refine ⟨hin, fun p v hv => (hin p v hv).distinct (hv.opened hpt hc hw), ?_⟩
    intro p p' v v' hv hv' hdis hcov hcov' t s t' s' a ha ha'
    obtain ⟨hts, heq⟩ := (hin p v hv).place (hv.opened hpt hc hw) ha
    obtain ⟨hts', heq'⟩ := (hin p' v' hv').place (hv'.opened hpt hc hw) ha'
    have hphys : ∀ n, physical v n = physical v' n := by
      intro n
      unfold physical
      rw [hisHd hv, hisHd hv']
    rw [heq, hphys] at heq'
    have hsame := physical_inj heq'
    have hlt := Rows.rank_lt hts
    have hlt' := Rows.rank_lt hts'
    unfold Covers at hcov hcov'
    rw [Rows.cells_length] at hcov hcov'
    rw [hv.spec.2.2.2.1, hv'.spec.2.2.2.1] at hsame
    rcases hdis with hle | hle <;> omega

end

/-! ## A table that is too long, and one that is not -/

/-- A hard disk with a native partition of `psize` blocks at its start. -/
def nativeDrive (psize : Nat) : Drive :=
  { vdrive :=
      { image :=
          { shape := ⟨.dhd, 0, 0⟩
            readOnly := false
            blocks := 0
            data := fun _ _ => 0
            errorMap := none }
        imageFormat := .none
        numTracks := 0
        haspt := true
        currentOffset := uint32Max
        sysOffset := uint32Max
        parts := ⟨fun p => if p = 1 then 1 else 0, fun _ => 0, fun _ => psize⟩
        bamTrack := 0
        bamSector := 0
        headerTrack := 0
        headerSector := 0
        dirTrack := 0
        dirSector := 0
        d90toggle := 0
        bamSize := 0
        bam := fun _ => 0
        bamState := fun _ => -1
        bamTracks := fun _ => -1
        bamSectors := fun _ => -1 }
    slot := 0
    images := fun _ => none
    bamAllocated := false
    partStart := 0
    partEnd := 0
    currentPart := -1
    selectedPart := 1
    cheadertrack := fun _ => 0
    cheadersector := fun _ => 0
    cdirtrack := fun _ => 0
    cdirsector := fun _ => 0
    cpartstart := fun _ => 0
    cpartend := fun _ => 0
    log := [] }

theorem nativeDrive_words {psize : Nat} (h : psize < 2 ^ 24) :
    Words (nativeDrive psize).vdrive.parts := fun _ _ => ⟨show 0 < 2 ^ 24 by decide, h⟩

/-- The longest native partition that a CMD drive makes. -/
theorem cmdPartitions_iff_native : Faithful (nativeDrive 0x7f80) :=
  (cmdPartitions_iff rfl (Or.inl rfl) (nativeDrive_words (by decide))).mpr
    fun _ _ _ => show 0 * 2 % 65536 + 0x7f80 / 128 * 256 ≤ 131072 by decide

/-- With 768 tracks, two of them lie in one place. -/
theorem cmdPartitions_not_always :
    ¬ ∀ d : Drive, d.vdrive.haspt = true → IsCmd d.vdrive.image.shape.type → Words d.vdrive.parts →
      Faithful d := by
  intro hall
  have h := hall (nativeDrive 0x18000) rfl (Or.inl rfl) (nativeDrive_words (by decide))
  obtain ⟨v, hv⟩ := selects_native (nativeDrive 0x18000) (p := 1) rfl
  obtain ⟨d', hd', rfl⟩ := hv
  have hd : d' = (changeTable (nativeDrive 0x18000) 1).2 := by rw [hd']
  subst hd
  have hsame := h.distinct 1 _ ⟨_, rfl, rfl⟩ 257 0 513 0 (2, 0) (by decide +kernel) (by decide +kernel)
  omega

end Vice.L3.CmdPartitions
