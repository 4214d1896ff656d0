import Mathlib.Tactic.IntervalCases
import Vice.L3Drive.BamEntry

/-!
# The layouts of the BAM

Seven formats keep counted bitmaps in seven layouts, an eighth keeps bitmaps only. What
they have in common is that every byte belongs to the entry of at most one track (on a
D9090/60: of one group of 32 sectors). `owner` names it.

The blocks of an 8050, 8250 or D9090/60 say themselves which tracks they hold. They are
taken to hold no more than fit (`Fitted`).

Results:
* `entry_shape`: the entries lie inside the BAM, each in bytes of its own.
* `entry_apart`: the entries of two sectors are the same or have no byte in common.
-/
namespace Vice.L3.BamLayout
open Vice.L0.Bitmap Vice.L2.Geometry Vice.L3.Disk Vice.L3.Drive Vice.L3.Bam Vice.L3.BamEntry

/-- The last track that has an entry, where the layout sets a limit. -/
def maxEntryTrack (v : Vdrive) : Nat :=
  match v.imageFormat with
  | .f1541 | .f2040 => 42
  | .f1571 => 70
  | .f1581 => 80
  | _ => 255

/-- A sector of the mounted format. -/
def OnDisk (v : Vdrive) (t s : Nat) : Prop :=
  (v.imageFormat ≠ .f9000 → 1 ≤ t) ∧ t ≤ maxEntryTrack v ∧ s < vdriveGetMaxSectors v t

/-- The blocks the layout needs, and no more tracks to a block than it holds. -/
def Fitted (v : Vdrive) (bytes : Store) : Prop :=
  match v.imageFormat with
  | .f1541 | .f2040 => 1 ≤ bamBlocks v
  | .f1571 => 2 ≤ bamBlocks v
  | .f1581 => 3 ≤ bamBlocks v
  | .np => 33 ≤ bamBlocks v
  | .f8050 | .f8250 => ∀ i ∈ searched v,
    (bytes (i * 256 + 5)).toNat ≤ (bytes (i * 256 + 4)).toNat + 50
  | .f9000 => v.image.shape.sectors % 32 = 0 ∧ ∀ i ∈ searched v,
    ((bytes (i * 256 + 5)).toNat - (bytes (i * 256 + 4)).toNat) * (v.image.shape.sectors / 32) ≤ 48
  | _ => False

/-- The bit of a sector, clear where the format has none. -/
def isFree (v : Vdrive) (bytes : Store) (t s : Nat) : Bool :=
  match entryOf v bytes t s with
  | none => false
  | some e => getBit bytes e.bits (bitNumber v s)

/-- A D9090/60 has an entry for each 32 sectors of a track. -/
def group (v : Vdrive) (s : Nat) : Nat :=
  match v.imageFormat with
  | .f9000 => s / 32
  | _ => 0

/-- The track and group to whose entry a byte of the BAM belongs. -/
def owner (v : Vdrive) (bytes : Store) (k : Nat) : Nat × Nat :=
  match v.imageFormat with
  | .f1541 | .f2040 => (if k < 192 then (k - 4) / 4 + 1 else (k - 192) / 4 + 36, 0)
  | .f1571 =>
    (if k < 221 then (k - 4) / 4 + 1 else if k < 256 then k - 221 + 36 else (k - 256) / 3 + 36, 0)
  | .f1581 => (if k < 512 then (k - 0x110) / 6 + 1 else (k - 0x210) / 6 + 41, 0)
  | .np => ((k - 0x120) / 32 + 1, 0)
  | .f8050 | .f8250 => ((bytes (k / 256 * 256 + 4)).toNat + (k % 256 - 6) / 5, 0)
  | .f9000 =>
    let groups := v.image.shape.sectors / 32
    ((bytes (k / 256 * 256 + 4)).toNat + (k % 256 - 16) / 5 / groups, (k % 256 - 16) / 5 % groups)
  | _ => (0, 0)

section
variable {v w : Vdrive} {disk : Nat → Buf} {bytes bytes' : Store} {t t' s s' k p : Nat}
  {e e' : Entry}

/-! ## Sectors of a track -/

theorem sectorPerTrack_le (format : ImageType) (hf : format = .d64 ∨ format = .d67 ∨ format = .d71)
    (track : Nat) : sectorPerTrack format track ≤ 21 ∧ 17 ≤ sectorPerTrack format track := by
  have hz := speedMap_le format track
  unfold sectorPerTrack
  rcases hf with rfl | rfl | rfl
  all_goals
    simp only
    generalize speedMap _ track = z at *
    interval_cases z <;> decide

theorem sectorPerTrack_d80_le (track : Nat) :
    sectorPerTrack .d80 track ≤ 29 ∧ 23 ≤ sectorPerTrack .d80 track := by
  have hz := speedMap_le .d80 track
  unfold sectorPerTrack
  simp only
  generalize speedMap _ track = z at *
  interval_cases z <;> decide

/-! ## Entries by format -/

theorem lookupEntry_some {entry : Nat → Nat} {is : List Nat} (h : lookupEntry entry t bytes is = some p) :
    ∃ i ∈ is, (bytes (i * 256 + 4)).toNat ≤ t ∧ t < (bytes (i * 256 + 5)).toNat ∧
      p = i * 256 + entry (t - (bytes (i * 256 + 4)).toNat) := by
  induction is with
  | nil => cases h
  | cons i is ih =>
    rw [lookupEntry] at h
    split at h
    · rename_i hin
      exact ⟨i, List.mem_cons_self, hin.1, hin.2, (Option.some.inj h).symm⟩
    · obtain ⟨j, hj, hrest⟩ := ih h
      exact ⟨j, List.mem_cons_of_mem i hj, hrest⟩

/-- What every entry of a sector on the disk is like. -/
structure Shaped (v : Vdrive) (bytes : Store) (t s : Nat) (e : Entry) : Prop where
  proper : e.Proper
  bit : bitNumber v s < e.sectors
  block : ∀ k, e.Has k → k / 256 < bamBlocks v
  links : searched v ≠ [] → ∀ k, e.Has k → 6 ≤ k % 256
  owned : ∀ k, e.Has k → owner v bytes k = (t, group v s)

/-- An entry whose count stands right before its bitmap. -/
theorem has_count {n : Nat} (h : Entry.Has ⟨some p, p + 1, n⟩ k) : p ≤ k ∧ k ≤ p + (n + 7) / 8 := by
  rcases h with h | ⟨h1, h2⟩
  · cases h; omega
  · simp only at h1 h2; omega

theorem proper_count {n : Nat} (hn : n < 256) : Entry.Proper ⟨some p, p + 1, n⟩ := by
  refine ⟨fun c hc => ?_, fun _ _ => hn⟩
  cases hc
  rintro ⟨h1, -⟩
  simp only at h1
  omega

theorem shape_1541 (hf : v.imageFormat = .f1541 ∨ v.imageFormat = .f2040) (hfit : Fitted v bytes)
    (hd : OnDisk v t s) (he : entryOf v bytes t s = some e) : Shaped v bytes t s e := by
  obtain ⟨h0, hmax, hs⟩ := hd
  have h71 : ¬ (t > 70 ∧ v.imageFormat = .f1571) := by rcases hf with hf | hf <;> simp [hf]
  have hn : vdriveGetMaxSectors v t ≤ 21 := by
    unfold vdriveGetMaxSectors
    rcases hf with hf | hf <;> simp only [hf]
    · exact (sectorPerTrack_le .d64 (Or.inl rfl) t).1
    · exact (sectorPerTrack_le .d67 (Or.inr (Or.inl rfl)) t).1
  generalize hp : (if t ≤ 35 then 4 + 4 * (t - 1) else 192 + 4 * (t - 36)) = p
  have he' : e = ⟨some p, p + 1, vdriveGetMaxSectors v t⟩ ∧ 1 ≤ bamBlocks v ∧ 1 ≤ t ∧ t ≤ 42 ∧
      searched v = [] ∧ bitNumber v s = s ∧ group v s = 0 ∧
      ∀ k, owner v bytes k = (if k < 192 then (k - 4) / 4 + 1 else (k - 192) / 4 + 36, 0) := by
    unfold entryOf trackEntry entryAt at he
    unfold Fitted at hfit
    unfold maxEntryTrack at hmax
    unfold searched bitNumber group owner
    rcases hf with hf | hf
    all_goals
      have h0 := h0 (by rw [hf]; decide)
      have hz : ¬ t = 0 := by omega
      simp only [hf, reduceCtorEq, and_false, if_false, hz, false_and, Option.map_some, hp,
        implies_true] at he hfit hmax ⊢
      exact ⟨(Option.some.inj he).symm, hfit, h0, hmax, trivial, trivial, trivial, trivial⟩
  obtain ⟨rfl, hblocks, h0, hmax, hsearch, hbit, hgroup, howner⟩ := he'
  refine ⟨proper_count (by omega), hbit.symm ▸ hs, fun k hk => ?_, fun h => absurd hsearch h,
    fun k hk => ?_⟩
  · have := has_count hk
    split at hp <;> omega
  · have := has_count hk
    rw [howner, hgroup]
    refine Prod.ext ?_ rfl
    simp only
    split at hp <;> split <;> omega

theorem shape_1571 (hf : v.imageFormat = .f1571) (hfit : Fitted v bytes)
    (hd : OnDisk v t s) (he : entryOf v bytes t s = some e) : Shaped v bytes t s e := by
  obtain ⟨h0, hmax, hs⟩ := hd
  have h0 := h0 (by rw [hf]; decide)
  have hz : ¬ t = 0 := by omega
  have hn : vdriveGetMaxSectors v t ≤ 21 := by
    simp only [vdriveGetMaxSectors, hf]
    exact (sectorPerTrack_le .d71 (Or.inr (Or.inr rfl)) t).1
  have hsearch : searched v = [] := by simp only [searched, hf]
  have hbit : bitNumber v s = s := by simp only [bitNumber, hf]
  have hgroup : group v s = 0 := by simp only [group, hf]
  unfold Fitted at hfit
  unfold maxEntryTrack at hmax
  unfold entryOf trackEntry entryAt at he
  simp only [hf, and_true, hz, false_and, if_false, Option.map_some] at he hfit hmax
  rw [if_neg (by omega)] at he
  obtain rfl := Option.some.inj he
  by_cases ht : t ≤ 35
  · simp only [if_pos ht]
    refine ⟨proper_count (by omega), hbit.symm ▸ hs, fun k hk => ?_, fun h => absurd hsearch h,
      fun k hk => ?_⟩
    · have := has_count hk
      omega
    · have := has_count hk
      rw [hgroup, owner, hf]
      refine Prod.ext ?_ rfl
      simp only
      rw [if_pos (by omega)]
      omega
  · -- the second side: counts in block 0, bitmaps in block 1
    simp only [if_neg ht]
    have hhas : ∀ k, Entry.Has ⟨some (221 + t - 36), 0x100 + 3 * (t - 36) - 1 + 1,
        vdriveGetMaxSectors v t⟩ k → k = 221 + t - 36 ∨
        (0x100 + 3 * (t - 36) ≤ k ∧ k < 0x100 + 3 * (t - 36) + 3) := by
      rintro k (hk | ⟨h1, h2⟩)
      · cases hk; exact Or.inl rfl
      · simp only at h1 h2; exact Or.inr (by omega)
    refine ⟨⟨fun c hc => ?_, fun _ _ => ?_⟩, hbit.symm ▸ hs, fun k hk => ?_,
      fun h => absurd hsearch h, fun k hk => ?_⟩
    · cases hc
      rintro ⟨h1, -⟩
      simp only at h1
      omega
    · show vdriveGetMaxSectors v t < 256
      omega
    · rcases hhas k hk with h | h <;> omega
    · rw [hgroup, owner, hf]
      refine Prod.ext ?_ rfl
      simp only
      rcases hhas k hk with h | h
      · rw [if_neg (by omega), if_pos (by omega)]
        omega
      · rw [if_neg (by omega), if_neg (by omega)]
        omega

theorem shape_1581 (hf : v.imageFormat = .f1581) (hfit : Fitted v bytes)
    (hd : OnDisk v t s) (he : entryOf v bytes t s = some e) : Shaped v bytes t s e := by
  obtain ⟨h0, hmax, hs⟩ := hd
  have h0 := h0 (by rw [hf]; decide)
  have hz : ¬ t = 0 := by omega
  have hsearch : searched v = [] := by simp only [searched, hf]
  have hbit : bitNumber v s = s := by simp only [bitNumber, hf]
  have hgroup : group v s = 0 := by simp only [group, hf]
  have hn : vdriveGetMaxSectors v t = 40 := by simp only [vdriveGetMaxSectors, hf]
  unfold Fitted at hfit
  unfold maxEntryTrack at hmax
  unfold entryOf trackEntry entryAt at he
  simp only [hf, reduceCtorEq, and_false, hz, false_and, if_false, Option.map_some, hn]
    at he hfit hmax
  obtain rfl := Option.some.inj he
  rw [hn] at hs
  generalize hp : (if t ≤ 40 then 0x110 + 6 * (t - 1) else 0x210 + 6 * (t - 41)) = p
  refine ⟨proper_count (by omega), hbit.symm ▸ hs, fun k hk => ?_, fun h => absurd hsearch h,
    fun k hk => ?_⟩
  · have := has_count hk
    split at hp <;> omega
  · have := has_count hk
    rw [hgroup, owner, hf]
    refine Prod.ext ?_ rfl
    simp only
    split at hp
    · rw [if_pos (by omega)]; omega
    · rw [if_neg (by omega)]; omega

theorem shape_np (hf : v.imageFormat = .np) (hfit : Fitted v bytes)
    (hd : OnDisk v t s) (he : entryOf v bytes t s = some e) : Shaped v bytes t s e := by
  obtain ⟨h0, hmax, hs⟩ := hd
  have h0 := h0 (by rw [hf]; decide)
  have hz : ¬ t = 0 := by omega
  have hsearch : searched v = [] := by simp only [searched, hf]
  have hgroup : group v s = 0 := by simp only [group, hf]
  have hbit : bitNumber v s < 256 := by
    simp only [vdriveGetMaxSectors, hf] at hs
    simp only [bitNumber, hf]
    exact @Nat.xor_lt_two_pow s 7 8 hs (by decide)
  unfold Fitted at hfit
  unfold maxEntryTrack at hmax
  unfold entryOf trackEntry entryAt at he
  simp only [hf, reduceCtorEq, and_false, hz, false_and, if_false, Option.map_some] at he hfit hmax
  obtain rfl := Option.some.inj he
  have hhas : ∀ k, Entry.Has ⟨none, 0x120 + 32 * (t - 1) - 1 + 1, 256⟩ k →
      0x120 + 32 * (t - 1) ≤ k ∧ k < 0x120 + 32 * (t - 1) + 32 := by
    rintro k (hk | ⟨h1, h2⟩)
    · cases hk
    · simp only at h1 h2; omega
  refine ⟨⟨fun c hc => (by cases hc), fun c hc => (by cases hc)⟩, hbit, fun k hk => ?_,
    fun h => absurd hsearch h, fun k hk => ?_⟩
  · have := hhas k hk
    omega
  · have := hhas k hk
    rw [hgroup, owner, hf]
    refine Prod.ext ?_ rfl
    simp only
    omega

theorem shape_8050 (hf : v.imageFormat = .f8050 ∨ v.imageFormat = .f8250)
    (hblocks : ∀ i ∈ searched v, i < bamBlocks v) (hfit : Fitted v bytes)
    (hd : OnDisk v t s) (he : entryOf v bytes t s = some e) : Shaped v bytes t s e := by
  obtain ⟨h0, hmax, hs⟩ := hd
  have h0 : 1 ≤ t := h0 (by rcases hf with hf | hf <;> rw [hf] <;> decide)
  have hz : ¬ t = 0 := by omega
  have hn : vdriveGetMaxSectors v t ≤ 29 := by
    rcases hf with hf | hf <;> simp only [vdriveGetMaxSectors, hf]
    · exact (sectorPerTrack_d80_le t).1
    · split
      · exact (sectorPerTrack_d80_le t).1
      · exact (sectorPerTrack_d80_le (t - 77)).1
  have hbit : bitNumber v s = s := by rcases hf with hf | hf <;> simp only [bitNumber, hf]
  have hgroup : group v s = 0 := by rcases hf with hf | hf <;> simp only [group, hf]
  have howner : ∀ k, owner v bytes k =
      ((bytes (k / 256 * 256 + 4)).toNat + (k % 256 - 6) / 5, 0) := by
    rcases hf with hf | hf <;> simp only [owner, hf, implies_true]
  have hlook : ∃ p, lookupEntry (fun d => 6 + 5 * d) t bytes (searched v) = some p ∧
      e = ⟨some p, p + 1, vdriveGetMaxSectors v t⟩ := by
    unfold entryOf trackEntry entryAt at he
    rcases hf with hf | hf
    all_goals
      simp only [hf, reduceCtorEq, and_false, hz, false_and, if_false] at he
      obtain ⟨p, hp, hpe⟩ := Option.map_eq_some_iff.mp he
      exact ⟨p, hp, hpe.symm⟩
  have hrange : ∀ i ∈ searched v,
      (bytes (i * 256 + 5)).toNat ≤ (bytes (i * 256 + 4)).toNat + 50 := by
    unfold Fitted at hfit
    rcases hf with hf | hf <;> simp only [hf] at hfit <;> exact hfit
  obtain ⟨p, hp, rfl⟩ := hlook
  obtain ⟨i, hi, h1, h2, rfl⟩ := lookupEntry_some hp
  have hlast := hrange i hi
  have hiblocks := hblocks i hi
  have hspan : ∀ k, Entry.Has ⟨some (i * 256 + (6 + 5 * (t - (bytes (i * 256 + 4)).toNat))),
      i * 256 + (6 + 5 * (t - (bytes (i * 256 + 4)).toNat)) + 1, vdriveGetMaxSectors v t⟩ k →
      k / 256 = i ∧ 6 + 5 * (t - (bytes (i * 256 + 4)).toNat) ≤ k % 256 ∧
        k % 256 < 6 + 5 * (t - (bytes (i * 256 + 4)).toNat) + 5 := by
    intro k hk
    have hcount := has_count hk
    have hdiv : k / 256 = i := by omega
    omega
  refine ⟨proper_count (by omega), hbit.symm ▸ hs, fun k hk => ?_, fun _ k hk => ?_,
    fun k hk => ?_⟩
  · exact (hspan k hk).1 ▸ hiblocks
  · have := hspan k hk
    omega
  · obtain ⟨hdiv, hspan1, hspan2⟩ := hspan k hk
    rw [hgroup, howner, hdiv]
    refine Prod.ext ?_ rfl
    simp only
    omega

/-- The entries of a D9090/60 block are those of a track one after another. -/
theorem group_place {first last groups q : Nat} (h1 : first ≤ t) (h2 : t < last)
    (hlast : (last - first) * groups ≤ 48) (hq : q < groups) :
    (t - first) * groups + q < 48 ∧ ((t - first) * groups + q) / groups = t - first ∧
      ((t - first) * groups + q) % groups = q := by
  have hle : (t - first + 1) * groups ≤ (last - first) * groups :=
    Nat.mul_le_mul_right _ (by omega)
  rw [Nat.succ_mul (t - first)] at hle
  refine ⟨by omega, ?_, ?_⟩
  · rw [Nat.mul_comm, Nat.mul_add_div (by omega), Nat.div_eq_of_lt hq, Nat.add_zero]
  · rw [Nat.mul_comm, Nat.mul_add_mod, Nat.mod_eq_of_lt hq]

theorem shape_9000 (hf : v.imageFormat = .f9000) (hblocks : ∀ i ∈ searched v, i < bamBlocks v)
    (hfit : Fitted v bytes) (hd : OnDisk v t s) (he : entryOf v bytes t s = some e) :
    Shaped v bytes t s e := by
  obtain ⟨-, hmax, hs⟩ := hd
  simp only [vdriveGetMaxSectors, hf] at hs
  have hbit : bitNumber v s < 32 := by simp only [bitNumber, hf]; omega
  have hgroup : group v s = s / 32 := by simp only [group, hf]
  unfold Fitted at hfit
  simp only [hf] at hfit
  obtain ⟨h32, hrange⟩ := hfit
  unfold entryOf trackEntry entryAt at he
  simp only [hf, reduceCtorEq, and_false, if_false, ne_eq, not_true_eq_false] at he
  obtain ⟨p, hp, rfl⟩ := Option.map_eq_some_iff.mp he
  obtain ⟨i, hi, h1, h2, rfl⟩ := lookupEntry_some hp
  have hlast := hrange i hi
  have hiblocks := hblocks i hi
  have howner : ∀ k, owner v bytes k =
      ((bytes (k / 256 * 256 + 4)).toNat + (k % 256 - 16) / 5 / (v.image.shape.sectors / 32),
        (k % 256 - 16) / 5 % (v.image.shape.sectors / 32)) := by
    intro k
    simp only [owner, hf]
  obtain ⟨hplace, hq1, hq2⟩ := group_place h1 h2 hlast (show s / 32 < v.image.shape.sectors / 32 by
    omega)
  generalize (t - (bytes (i * 256 + 4)).toNat) * (v.image.shape.sectors / 32) + s / 32 = q
    at hplace hq1 hq2 ⊢
  have hspan : ∀ k, Entry.Has ⟨some (i * 256 + (16 + 5 * q)), i * 256 + (16 + 5 * q) + 1, 32⟩ k →
      k / 256 = i ∧ (k % 256 - 16) / 5 = q ∧ 6 ≤ k % 256 := by
    intro k hk
    have hcount := has_count hk
    have hdiv : k / 256 = i := by omega
    omega
  refine ⟨proper_count (by decide), hbit, fun k hk => ?_, fun _ k hk => ?_, fun k hk => ?_⟩
  · exact (hspan k hk).1 ▸ hiblocks
  · exact (hspan k hk).2.2
  · obtain ⟨hdiv, hqk, -⟩ := hspan k hk
    rw [hgroup, howner, hdiv, hqk, hq1, hq2]
    refine Prod.ext ?_ rfl
    simp only
    omega

/-! ## All formats -/

theorem entry_shape (h : Mounted v disk) (hfit : Fitted v bytes) (hd : OnDisk v t s)
    (he : entryOf v bytes t s = some e) : Shaped v bytes t s e := by
  have hsearched := searched_lt h
  cases hf : v.imageFormat with
  | f1541 => exact shape_1541 (Or.inl hf) hfit hd he
  | f2040 => exact shape_1541 (Or.inr hf) hfit hd he
  | f1571 => exact shape_1571 hf hfit hd he
  | f1581 => exact shape_1581 hf hfit hd he
  | np => exact shape_np hf hfit hd he
  | f8050 => exact shape_8050 (Or.inl hf) hsearched hfit hd he
  | f8250 => exact shape_8050 (Or.inr hf) hsearched hfit hd he
  | f9000 => exact shape_9000 hf hsearched hfit hd he
  | sys => exact absurd hf h.format.1
  | none => exact absurd hf h.format.2

/-- An entry found in a block was searched for. -/
theorem searched_ne_nil (he : entryOf v bytes t s = some e) (hf : v.imageFormat = .f9000) :
    searched v ≠ [] := by
  obtain ⟨-, p, hp, -⟩ := entryOf_pointer he
  simp only [trackEntry, hf, ne_eq, not_true_eq_false, and_false, if_false] at hp
  obtain ⟨i, hi, -⟩ := lookupEntry_some hp
  exact List.ne_nil_of_mem hi

theorem entry_inside (h : Mounted v disk) (hfit : Fitted v bytes) (hd : OnDisk v t s)
    (he : entryOf v bytes t s = some e) : Inside v e := by
  have hshape := entry_shape h hfit hd he
  refine fun k hk => ⟨hshape.block k hk, fun hf => ?_⟩
  have := hshape.links (searched_ne_nil he hf) k hk
  omega

/-! ## Two sectors, two entries -/

/-- The entry is that of the track, or of the group. -/
theorem entryOf_group (hg : group v s = group v s') : entryOf v bytes t s = entryOf v bytes t s' := by
  unfold entryOf trackEntry
  unfold group at hg
  cases hf : v.imageFormat <;> simp only [hf] at hg ⊢
  rw [hg]

theorem entry_apart (h : Mounted v disk) (hfit : Fitted v bytes) (hd : OnDisk v t s)
    (hd' : OnDisk v t' s') (he : entryOf v bytes t s = some e)
    (he' : entryOf v bytes t' s' = some e') :
    (t = t' ∧ group v s = group v s' ∧ e = e') ∨ Entry.Apart e e' := by
  by_cases hsame : t = t' ∧ group v s = group v s'
  · obtain ⟨rfl, hg⟩ := hsame
    rw [entryOf_group hg, he'] at he
    exact Or.inl ⟨rfl, hg, (Option.some.inj he).symm⟩
  · refine Or.inr fun k hk hk' => hsame ?_
    have h1 := (entry_shape h hfit hd he).owned k hk
    have h2 := (entry_shape h hfit hd' he').owned k hk'
    exact Prod.mk.inj (h1.symm.trans h2)

/-! ## Changing an entry -/

/-- The bytes that say which tracks a block holds are the same. -/
def SameHeaders (v : Vdrive) (bytes bytes' : Store) : Prop :=
  ∀ i ∈ searched v, bytes' (i * 256 + 4) = bytes (i * 256 + 4) ∧
    bytes' (i * 256 + 5) = bytes (i * 256 + 5)

theorem entry_headers (h : Mounted v disk) (hfit : Fitted v bytes) (hd : OnDisk v t s)
    (he : entryOf v bytes t s = some e) (hother : ∀ k, ¬ e.Has k → bytes' k = bytes k) :
    SameHeaders v bytes bytes' := by
  have hshape := entry_shape h hfit hd he
  intro i hi
  have hlinks := hshape.links (List.ne_nil_of_mem hi)
  exact ⟨hother _ fun hk => by have := hlinks _ hk; omega,
    hother _ fun hk => by have := hlinks _ hk; omega⟩

theorem lookupEntry_congr {entry : Nat → Nat} {is : List Nat}
    (h : ∀ i ∈ is, bytes' (i * 256 + 4) = bytes (i * 256 + 4) ∧
      bytes' (i * 256 + 5) = bytes (i * 256 + 5)) :
    lookupEntry entry t bytes' is = lookupEntry entry t bytes is := by
  induction is with
  | nil => rfl
  | cons i is ih =>
    have hi := h i List.mem_cons_self
    rw [lookupEntry, lookupEntry, ih fun j hj => h j (List.mem_cons_of_mem i hj), hi.1, hi.2]

theorem SameHeaders.entryOf (h : SameHeaders v bytes bytes') (t s : Nat) :
    entryOf v bytes' t s = BamEntry.entryOf v bytes t s := by
  unfold BamEntry.entryOf trackEntry
  simp only [lookupEntry_congr h]

theorem SameHeaders.fitted (h : SameHeaders v bytes bytes') (hfit : Fitted v bytes) : Fitted v bytes' := by
  unfold Fitted at hfit ⊢
  cases hf : v.imageFormat <;> simp only [hf] at hfit ⊢
  case f9000 =>
    refine ⟨hfit.1, fun i hi => ?_⟩
    rw [(h i hi).1, (h i hi).2]
    exact hfit.2 i hi
  case f8050 | f8250 =>
    intro i hi
    rw [(h i hi).1, (h i hi).2]
    exact hfit i hi
  all_goals exact hfit

/-! ## Counts -/

/-- Every track of the disk has as many free sectors as its count says. -/
def Counts (v : Vdrive) (bytes : Store) : Prop :=
  ∀ t s e, OnDisk v t s → t ≤ v.numTracks → entryOf v bytes t s = some e → e.Counted bytes

/-- A change to one entry that keeps its count keeps all counts. -/
theorem Counts.congr (h : Mounted v disk) (hfit : Fitted v bytes) (hc : Counts v bytes)
    (hd : OnDisk v t s) (he : entryOf v bytes t s = some e)
    (hother : ∀ k, ¬ e.Has k → bytes' k = bytes k) (hkeep : e.Counted bytes → e.Counted bytes') :
    Counts v bytes' := by
  intro t' s' e' hd' ht' he'
  rw [(entry_headers h hfit hd he hother).entryOf] at he'
  have hbefore := hc t' s' e' hd' ht' he'
  rcases entry_apart h hfit hd hd' he he' with ⟨-, -, rfl⟩ | hapart
  · exact hkeep hbefore
  · exact Entry.counted_congr (fun k hk => hother k fun hk' => hapart k hk' hk) hbefore

/-! ## The drive after a change -/

theorem searched_congr (h : Becomes disk v w bytes) : searched w = searched v := by
  have hformat := h.same.format
  unfold searched
  rw [h.same.blocks, hformat]
  cases hf : v.imageFormat <;> simp only
  all_goals
    have hfixed := h.fixed (by rw [hf]; decide) (by rw [hf]; decide)
    rw [hfixed]

theorem entryOf_becomes (h : Becomes disk v w bytes) (bytes' : Store) (t s : Nat) :
    entryOf w bytes' t s = entryOf v bytes' t s := by
  unfold entryOf trackEntry
  rw [searched_congr h, h.same.format, funext (entryAt_same h.same t)]
  rw [h.same]

theorem onDisk_same (h : SameDisk v w) : OnDisk w t s ↔ OnDisk v t s := by
  unfold OnDisk maxEntryTrack vdriveGetMaxSectors
  rw [h]

theorem fitted_becomes (h : Becomes disk v w bytes) : Fitted w bytes' ↔ Fitted v bytes' := by
  unfold Fitted
  rw [searched_congr h, h.same.blocks, h.same.format]
  rw [h.same]

theorem counts_becomes (h : Becomes disk v w bytes) : Counts w bytes' ↔ Counts v bytes' := by
  unfold Counts
  simp only [entryOf_becomes h, onDisk_same h.same]
  rw [h.same]

/-- A disk of a format with a BAM, whose BAM can be read and has an entry for each of its tracks. -/
structure Formatted (v : Vdrive) (disk : Nat → Buf) : Prop where
  mounted : Mounted v disk
  fitted : Fitted v (view v disk)
  blocks : 1 ≤ bamBlocks v
  dir : 1 ≤ v.dirTrack ∧ v.dirTrack ≤ v.numTracks
  dir9000 : v.imageFormat = .f9000 → 2 ≤ v.dirTrack ∧ v.dirTrack + 1 ≤ v.numTracks ∧
    32 ≤ v.image.shape.sectors
  tracks : v.numTracks ≤ maxEntryTrack v

/-- What allocating and freeing need of it: a BAM that can be read, and no more tracks to a block than
it holds. -/
structure Laid (v : Vdrive) (disk : Nat → Buf) : Prop where
  mounted : Mounted v disk
  fitted : Fitted v (view v disk)

theorem Formatted.laid (h : Formatted v disk) : Laid v disk := ⟨h.mounted, h.fitted⟩

theorem laid_becomes (hb : Becomes disk v w bytes) (hfit : Fitted v bytes) : Laid w disk :=
  ⟨hb.mounted, hb.view.symm ▸ (fitted_becomes hb).mpr hfit⟩

theorem Laid.loads (h : Laid v disk) (hl : Loads disk v w) : Laid w disk :=
  laid_becomes hl h.fitted

theorem Formatted.becomes (h : Formatted v disk) (hb : Becomes disk v w bytes)
    (hfit : Fitted v bytes) : Formatted w disk where
  mounted := hb.mounted
  fitted := hb.view.symm ▸ (fitted_becomes hb).mpr hfit
  blocks := hb.same.blocks ▸ h.blocks
  dir := by rw [hb.same]; exact h.dir
  dir9000 := by rw [hb.same]; exact h.dir9000
  tracks := by
    have hmax : maxEntryTrack w = maxEntryTrack v := by
      unfold maxEntryTrack
      rw [hb.same]
    rw [hmax, hb.same]
    exact h.tracks

theorem Formatted.loads (h : Formatted v disk) (hl : Loads disk v w) : Formatted w disk :=
  h.becomes hl h.fitted

/-- Exactly one sector was free and is allocated now. -/
def Allocated (disk : Nat → Buf) (v w : Vdrive) (t s : Nat) : Prop :=
  OnDisk v t s ∧ ∃ e, entryOf v (view v disk) t s = some e ∧
    getBit (view v disk) e.bits (bitNumber v s) = true ∧
    Becomes disk v w (e.take (view v disk) (bitNumber v s))

/-- Exactly one sector was allocated and is free now. -/
def Freed (disk : Nat → Buf) (v w : Vdrive) (t s : Nat) : Prop :=
  OnDisk v t s ∧ ∃ e, entryOf v (view v disk) t s = some e ∧
    getBit (view v disk) e.bits (bitNumber v s) = false ∧
    Becomes disk v w (e.give (view v disk) (bitNumber v s))

theorem Allocated.after {u : Vdrive} (hl : Loads disk v w) (h : Allocated disk w u t s) :
    Allocated disk v u t s := by
  obtain ⟨hd, e, he, hbit, hb⟩ := h
  rw [hl.view, entryOf_becomes hl] at he
  rw [hl.view, bitNumber_same hl.same] at hbit hb
  exact ⟨(onDisk_same hl.same).mp hd, e, he, hbit, Becomes.trans hl hb⟩

theorem isFree_loads (hl : Loads disk v w) (t s : Nat) :
    isFree w (view w disk) t s = isFree v (view v disk) t s := by
  unfold isFree
  rw [hl.view, entryOf_becomes hl, bitNumber_same hl.same]

theorem allocate_outcome (h : Laid v disk) (hd : OnDisk v t s) :
    ∃ w, (vdriveBamAllocateSector v t s = (true, w) ∧ Allocated disk v w t s) ∨
      (vdriveBamAllocateSector v t s = (false, w) ∧ Loads disk v w ∧
        isFree v (view v disk) t s = false) := by
  unfold isFree
  cases he : entryOf v (view v disk) t s with
  | none =>
    obtain ⟨w, hw, hl⟩ := vdriveBamAllocateSector_none h.mounted he
    exact ⟨w, Or.inr ⟨hw, hl, rfl⟩⟩
  | some e =>
    have hin := entry_inside h.mounted h.fitted hd he
    have hbit := (entry_shape h.mounted h.fitted hd he).bit
    obtain ⟨w, hw, hb⟩ := vdriveBamAllocateSector_ok h.mounted he hin hbit
    refine ⟨w, ?_⟩
    by_cases hset : getBit (view v disk) e.bits (bitNumber v s) = true
    · rw [hset] at hw
      rw [if_pos hset] at hb
      exact Or.inl ⟨hw, hd, e, he, hset, hb⟩
    · rw [if_neg hset] at hb
      rw [Bool.not_eq_true] at hset
      rw [hset] at hw
      exact Or.inr ⟨hw, hb, hset⟩

theorem free_outcome (h : Laid v disk) (hd : OnDisk v t s) :
    ∃ w, (vdriveBamFreeSector v t s = (true, w) ∧ Freed disk v w t s) ∨
      (vdriveBamFreeSector v t s = (false, w) ∧ Loads disk v w) := by
  cases he : entryOf v (view v disk) t s with
  | none =>
    obtain ⟨w, hw, hl⟩ := vdriveBamFreeSector_none h.mounted he
    exact ⟨w, Or.inr ⟨hw, hl⟩⟩
  | some e =>
    have hin := entry_inside h.mounted h.fitted hd he
    have hbit := (entry_shape h.mounted h.fitted hd he).bit
    obtain ⟨w, hw, hb⟩ := vdriveBamFreeSector_ok h.mounted he hin hbit
    refine ⟨w, ?_⟩
    by_cases hset : getBit (view v disk) e.bits (bitNumber v s) = true
    · rw [hset] at hw
      rw [if_pos hset] at hb
      exact Or.inr ⟨hw, hb⟩
    · rw [if_neg hset] at hb
      rw [Bool.not_eq_true] at hset
      rw [hset] at hw
      exact Or.inl ⟨hw, hd, e, he, hset, hb⟩

end

end Vice.L3.BamLayout
