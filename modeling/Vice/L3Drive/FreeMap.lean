import Vice.L3Drive.BamSearch

/-!
# The BAM as a set of free sectors

What the BAM is for: it says of every sector of the disk whether it is free. Allocating
takes one sector out of the set, freeing puts one in, and every byte that such a step
changes belongs to the entry of that sector's track.

Results:
* `isFree_allocated`, `isFree_freed`: the set after a step.
* `Edited.formatted`, `Edited.counts`, `Edited.frame`: what each step keeps.
-/
namespace Vice.L3.FreeMap
open Vice.L0.Bitmap Vice.L2.Geometry Vice.L3.Disk Vice.L3.Drive Vice.L3.Bam Vice.L3.BamEntry
open Vice.L3.BamLayout Vice.L3.BamSearch

/-- A step that changes one entry and keeps its count right. -/
def Edited (disk : Nat → Buf) (v w : Vdrive) (t s : Nat) : Prop :=
  OnDisk v t s ∧ ∃ e bytes, entryOf v (view v disk) t s = some e ∧
    (∀ k, ¬ e.Has k → bytes k = view v disk k) ∧
    (e.Counted (view v disk) → e.Counted bytes) ∧ Becomes disk v w bytes

section
variable {v w : Vdrive} {disk : Nat → Buf} {bytes bytes' : Store} {t t' s s' : Nat} {e : Entry}

/-! ## What a step keeps -/

theorem edited_allocated (h : Laid v disk) (ha : Allocated disk v w t s) : Edited disk v w t s := by
  obtain ⟨hd, e, he, hbit, hb⟩ := ha
  have hshape := entry_shape h.mounted h.fitted hd he
  exact ⟨hd, e, _, he, fun k hk => Entry.take_other hshape.bit hk,
    fun hc => Entry.counted_take hshape.proper hc hshape.bit hbit, hb⟩

theorem edited_freed (h : Laid v disk) (hf : Freed disk v w t s) : Edited disk v w t s := by
  obtain ⟨hd, e, he, hbit, hb⟩ := hf
  have hshape := entry_shape h.mounted h.fitted hd he
  exact ⟨hd, e, _, he, fun k hk => Entry.give_other hshape.bit hk,
    fun hc => Entry.counted_give hshape.proper hc hshape.bit hbit, hb⟩

theorem Edited.same (h : Edited disk v w t s) : SameDisk v w := by
  obtain ⟨-, e, bytes, -, -, -, hb⟩ := h
  exact hb.same

theorem Edited.headers (h : Laid v disk) (hed : Edited disk v w t s) :
    SameHeaders v (view v disk) (view w disk) := by
  obtain ⟨hd, e, bytes, he, hother, -, hb⟩ := hed
  rw [hb.view]
  exact entry_headers h.mounted h.fitted hd he hother

theorem Edited.laid (h : Laid v disk) (hed : Edited disk v w t s) : Laid w disk := by
  have hheaders := hed.headers h
  obtain ⟨-, e, bytes, -, -, -, hb⟩ := hed
  rw [hb.view] at hheaders
  exact laid_becomes hb (hheaders.fitted h.fitted)

theorem Edited.formatted (h : Formatted v disk) (hed : Edited disk v w t s) : Formatted w disk := by
  have hheaders := hed.headers h.laid
  obtain ⟨-, e, bytes, -, -, -, hb⟩ := hed
  rw [hb.view] at hheaders
  exact h.becomes hb (hheaders.fitted h.fitted)

theorem Edited.counts (h : Laid v disk) (hc : Counts v (view v disk))
    (hed : Edited disk v w t s) : Counts w (view w disk) := by
  obtain ⟨hd, e, bytes, he, hother, hkeep, hb⟩ := hed
  rw [hb.view]
  exact (counts_becomes hb).mpr (hc.congr h.mounted h.fitted hd he hother hkeep)

/-- A byte that changes belongs to the sector's entry. -/
theorem Edited.frame {k : Nat} (hed : Edited disk v w t s) (hk : view w disk k ≠ view v disk k) :
    ∃ e, entryOf v (view v disk) t s = some e ∧ e.Has k := by
  obtain ⟨-, e, bytes, he, hother, -, hb⟩ := hed
  rw [hb.view] at hk
  exact ⟨e, he, by_contra fun hnot => hk (hother k hnot)⟩

/-- The entries are where they were. -/
theorem Edited.entryOf (h : Laid v disk) (hed : Edited disk v w t s) (t' s' : Nat) :
    entryOf w (view w disk) t' s' = BamEntry.entryOf v (view v disk) t' s' := by
  have hheaders := hed.headers h
  obtain ⟨-, e, bytes, -, -, -, hb⟩ := hed
  rw [entryOf_becomes hb, hheaders.entryOf]

theorem counts_loads (hl : Loads disk v w) (hc : Counts v (view v disk)) : Counts w (view w disk) := by
  rw [hl.view]
  exact (counts_becomes hl).mpr hc

theorem freed_loads {u : Vdrive} (hf : Freed disk v w t s) (hl : Loads disk w u) : Freed disk v u t s := by
  obtain ⟨hd, e, he, hbit, hb⟩ := hf
  have htrans := Becomes.trans hb hl
  rw [hb.view] at htrans
  exact ⟨hd, e, he, hbit, htrans⟩

/-! ## The set of free sectors -/

/-- A sector is known by its group and its place there. -/
theorem bitNumber_inj (hg : group v s = group v s') (hb : bitNumber v s = bitNumber v s') : s = s' := by
  unfold group at hg
  unfold bitNumber at hb
  cases hf : v.imageFormat <;> simp only [hf] at hg hb
  case np =>
    have h7 : ∀ n, Nat.xor (Nat.xor n 7) 7 = n := fun n => by
      show n ^^^ 7 ^^^ 7 = n
      rw [Nat.xor_assoc, Nat.xor_self, Nat.xor_zero]
    rw [← h7 s, hb, h7]
  case f9000 => omega
  all_goals exact hb

/-- The bits of a changed entry are those of its other sectors, the bits of the others stay. -/
theorem isFree_edited {f : Nat → Bool} (h : Laid v disk) (hd : OnDisk v t s)
    (he : entryOf v (view v disk) t s = some e) (hed : Edited disk v w t s)
    (hbits : ∀ n < e.sectors, getBit (view w disk) e.bits n = f n)
    (hf : ∀ n < e.sectors, n ≠ bitNumber v s → f n = getBit (view v disk) e.bits n)
    (hd' : OnDisk v t' s') :
    isFree w (view w disk) t' s' =
      if t' = t ∧ s' = s then f (bitNumber v s) else isFree v (view v disk) t' s' := by
  unfold isFree
  rw [hed.entryOf h, bitNumber_same hed.same]
  cases he' : entryOf v (view v disk) t' s' with
  | none =>
    have hne : ¬ (t' = t ∧ s' = s) := by
      rintro ⟨rfl, rfl⟩
      rw [he] at he'
      cases he'
    rw [if_neg hne]
  | some e' =>
    have hshape' := entry_shape h.mounted h.fitted hd' he'
    simp only
    rcases entry_apart h.mounted h.fitted hd' hd he' he with ⟨rfl, hg, rfl⟩ | hapart
    · rw [hbits _ hshape'.bit]
      by_cases hs : s' = s
      · rw [hs, if_pos ⟨rfl, rfl⟩]
      · rw [if_neg fun h => hs h.2]
        exact hf _ hshape'.bit fun hb => hs (bitNumber_inj hg hb)
    · have hne : ¬ (t' = t ∧ s' = s) := by
        rintro ⟨rfl, rfl⟩
        rw [he] at he'
        cases he'
        exact hapart _ (Or.inr (Entry.inBits_bit hshape'.bit))
          (Or.inr (Entry.inBits_bit hshape'.bit))
      rw [if_neg hne]
      have hbyte : view w disk (e'.bits + bitNumber v s' / 8) =
          view v disk (e'.bits + bitNumber v s' / 8) := by
        by_contra hk
        obtain ⟨e'', he'', hhas⟩ := hed.frame hk
        rw [he] at he''
        cases he''
        exact hapart _ (Or.inr (Entry.inBits_bit hshape'.bit)) hhas
      exact getBit_congr hbyte

theorem isFree_allocated (h : Laid v disk) (ha : Allocated disk v w t s) (hd' : OnDisk v t' s') :
    isFree w (view w disk) t' s' =
      if t' = t ∧ s' = s then false else isFree v (view v disk) t' s' := by
  have hed := edited_allocated h ha
  obtain ⟨hd, e, he, hbit, hb⟩ := ha
  have hproper := (entry_shape h.mounted h.fitted hd he).proper
  have hfree := isFree_edited (f := fun n => !decide (n = bitNumber v s) &&
    getBit (view v disk) e.bits n) h hd he hed
    (fun n hn => by rw [hb.view]; exact Entry.getBit_take hproper hn)
    (fun n _ hne => by simp only [decide_eq_false hne, Bool.not_false, Bool.true_and]) hd'
  simpa only [decide_true, Bool.not_true, Bool.false_and] using hfree

theorem isFree_freed (h : Laid v disk) (hf : Freed disk v w t s) (hd' : OnDisk v t' s') :
    isFree w (view w disk) t' s' =
      if t' = t ∧ s' = s then true else isFree v (view v disk) t' s' := by
  have hed := edited_freed h hf
  obtain ⟨hd, e, he, hbit, hb⟩ := hf
  have hproper := (entry_shape h.mounted h.fitted hd he).proper
  have hfree := isFree_edited (f := fun n => decide (n = bitNumber v s) ||
    getBit (view v disk) e.bits n) h hd he hed
    (fun n hn => by rw [hb.view]; exact Entry.getBit_give hproper hn)
    (fun n _ hne => by simp only [decide_eq_false hne, Bool.false_or]) hd'
  simpa only [decide_true, Bool.true_or] using hfree

theorem isFree_of_allocated (ha : Allocated disk v w t s) : isFree v (view v disk) t s = true := by
  obtain ⟨-, e, he, hbit, -⟩ := ha
  unfold isFree
  rw [he]
  exact hbit

theorem isFree_of_freed (hf : Freed disk v w t s) : isFree v (view v disk) t s = false := by
  obtain ⟨-, e, he, hbit, -⟩ := hf
  unfold isFree
  rw [he]
  exact hbit

/-! ## Its size -/

instance : Decidable (OnDisk v t s) := inferInstanceAs (Decidable (_ ∧ _ ∧ _))

/-- Bounds the sectors of the disk, counted through. -/
def bound (v : Vdrive) : Nat := 256 * longestTrack v

/-- The number of free sectors. -/
def numFree (v : Vdrive) (bytes : Store) : Nat :=
  (List.range (bound v)).countP fun n =>
    decide (OnDisk v (n / longestTrack v) (n % longestTrack v)) &&
      isFree v bytes (n / longestTrack v) (n % longestTrack v)

theorem numFree_le : numFree v bytes ≤ bound v := by
  have := @List.countP_le_length _ (fun n =>
    decide (OnDisk v (n / longestTrack v) (n % longestTrack v)) &&
      isFree v bytes (n / longestTrack v) (n % longestTrack v)) (List.range (bound v))
  rwa [List.length_range] at this

/-- The number of sectors of the format. -/
def numSectors (v : Vdrive) : Nat :=
  (List.range (bound v)).countP fun n =>
    decide (OnDisk v (n / longestTrack v) (n % longestTrack v))

theorem numFree_sectors : numFree v bytes ≤ numSectors v :=
  List.countP_mono_left fun _ _ h => (Bool.and_eq_true_iff.mp h).1

theorem numSectors_le : numSectors v ≤ bound v := by
  have := @List.countP_le_length _ (fun n =>
    decide (OnDisk v (n / longestTrack v) (n % longestTrack v))) (List.range (bound v))
  rwa [List.length_range] at this

theorem numSectors_same (h : SameDisk v w) : numSectors w = numSectors v := by
  unfold numSectors bound longestTrack
  simp only [onDisk_same h]
  rw [h]

theorem bound_same (h : SameDisk v w) : longestTrack w = longestTrack v ∧ bound w = bound v := by
  unfold bound longestTrack
  rw [h]
  exact ⟨rfl, rfl⟩

/-- A sector of the disk in the count. -/
theorem onDisk_index (h : Laid v disk) (hd : OnDisk v t s) :
    t * longestTrack v + s < bound v ∧ (t * longestTrack v + s) / longestTrack v = t ∧
      (t * longestTrack v + s) % longestTrack v = s := by
  have hs : s < longestTrack v := Nat.lt_of_lt_of_le hd.2.2 (maxSectors_le h t)
  have ht : t ≤ 255 := by
    refine Nat.le_trans hd.2.1 ?_
    unfold maxEntryTrack
    split <;> decide
  have hmul : (t + 1) * longestTrack v ≤ 256 * longestTrack v := Nat.mul_le_mul_right _ (by omega)
  rw [Nat.succ_mul] at hmul
  refine ⟨by unfold bound; omega, ?_, ?_⟩
  · rw [Nat.mul_comm, Nat.mul_add_div (by omega), Nat.div_eq_of_lt hs, Nat.add_zero]
  · rw [Nat.mul_comm, Nat.mul_add_mod, Nat.mod_eq_of_lt hs]

/-- Taking one sector out of the set. -/
theorem numFree_flip {v w : Vdrive} {bytes bytes' : Store} (h : Laid v disk)
    (hsame : SameDisk v w) (hd : OnDisk v t s) (hp : isFree v bytes t s = true)
    (hq : isFree w bytes' t s = false)
    (hother : ∀ t' s', OnDisk v t' s' → ¬ (t' = t ∧ s' = s) →
      isFree w bytes' t' s' = isFree v bytes t' s') :
    numFree w bytes' + 1 = numFree v bytes := by
  obtain ⟨hlt, hdiv, hmod⟩ := onDisk_index h hd
  unfold numFree
  rw [(bound_same hsame).1, (bound_same hsame).2]
  refine Entry.countP_flip hlt ?_ ?_ fun n hn hne => ?_
  · simp only [hdiv, hmod, hp, hd, decide_true, Bool.and_self]
  · simp only [hdiv, hmod, hq, Bool.and_false]
  · simp only [onDisk_same hsame]
    by_cases hd' : OnDisk v (n / longestTrack v) (n % longestTrack v)
    · rw [hother _ _ hd' fun ⟨ht, hs⟩ => hne ?_]
      have hn := Nat.div_add_mod n (longestTrack v)
      rw [ht, hs, Nat.mul_comm] at hn
      exact hn.symm
    · simp only [hd', decide_false, Bool.false_and]

theorem numFree_allocated (h : Laid v disk) (ha : Allocated disk v w t s) :
    numFree w (view w disk) + 1 = numFree v (view v disk) :=
  numFree_flip h (edited_allocated h ha).same ha.1 (isFree_of_allocated ha)
    (by rw [isFree_allocated h ha ha.1, if_pos ⟨rfl, rfl⟩])
    fun t' s' hd' hne => by rw [isFree_allocated h ha hd', if_neg hne]

theorem numFree_freed (h : Laid v disk) (hf : Freed disk v w t s) :
    numFree w (view w disk) = numFree v (view v disk) + 1 := by
  have hsame := (edited_freed h hf).same
  refine (numFree_flip ((edited_freed h hf).laid h) hsame.symm
    ((onDisk_same hsame).mpr hf.1) ?_ (isFree_of_freed hf) fun t' s' hd' hne => ?_).symm
  · rw [isFree_freed h hf hf.1, if_pos ⟨rfl, rfl⟩]
  · rw [isFree_freed h hf ((onDisk_same hsame).mp hd'), if_neg hne]

theorem numFree_loads (hl : Loads disk v w) : numFree w (view w disk) = numFree v (view v disk) := by
  unfold numFree
  simp only [(bound_same hl.same).1, (bound_same hl.same).2, onDisk_same hl.same, isFree_loads hl]

end

end Vice.L3.FreeMap
