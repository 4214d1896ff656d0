import Vice.L3Drive.Vdrive

/-!
# The CMD partition table (`vdrive.c`)

The system partition keeps 32 bytes for each partition on its track 1, eight entries
to a sector. `vdrive_write_partition_table` reads a sector, patches the entries in it
and writes it when the walk reaches the next one.

Results:
* `vdriveWritePartitionTable_setBlock`: outside the table sectors the image takes no
  part: another block there changes nothing but itself.
* `vdriveWritePartitionTable_data`: the sectors outside the table keep their contents.
-/
namespace Vice.L3.PartitionTable
open Vice.L2.Geometry Vice.L3.Disk Vice.L3.Drive

/-- CMD HDs can access 254 partitions, the floppies 31. -/
def maxpart (vdrive : Vdrive) : Nat := if vdrive.isHd then 254 else 31

/-- mirrors src/vdrive/vdrive.c:1096-1101 (`vdrive_word_to_buf3`) -/
def vdriveWordToBuf3 (buf : Buf) (p value : Nat) : Buf :=
  let buf := Function.update buf p (UInt8.ofNat (value / 65536 % 256))
  let buf := Function.update buf (p + 1) (UInt8.ofNat (value / 256 % 256))
  Function.update buf (p + 2) (UInt8.ofNat (value % 256))

/-- The entry of partition `i` at byte `j` of its sector. -/
def putEntry (parts : PartTable) (i j : Nat) (buf : Buf) : Buf :=
  let buf := Function.update buf (j + 2) (UInt8.ofNat (parts.ptype i))
  let buf := vdriveWordToBuf3 buf (j + 0x15) (parts.poffset i)
  vdriveWordToBuf3 buf (j + 0x1d) (parts.psize i)

/-- The variables of `vdrive_write_partition_table`; `olds` is `none` for -1. -/
structure TableState where
  vdrive : Vdrive
  buf : Buf
  olds : Option Nat
  ret : Ipe

/-- mirrors src/vdrive/vdrive.c:1237-1244: the sector just left is written, the next one read. -/
def tableSector (st : TableState) (s : Nat) : TableState :=
  let st :=
    match st.olds with
    | none => { st with ret := Ipe.ok }
    | some olds =>
      let (ret, vdrive) := vdriveWriteSector st.vdrive st.buf 1 olds
      { st with ret := ret, vdrive := vdrive }
  if st.ret = .ok then
    let (ret, buf) := vdriveReadSector st.vdrive st.buf 1 s
    { st with ret := ret, buf := buf }
  else st

/-- mirrors src/vdrive/vdrive.c:1231-1261 -/
def writeEntries : List Nat → TableState → TableState
  | [], st => st
  | i :: is, st =>
    let j := i * 32
    let s := j / 256
    let j := j % 256
    let st := if st.olds = some s then { st with ret := Ipe.ok } else tableSector st s
    if st.ret = .ok then
      let st := { st with olds := some s }
      if i = 0 then writeEntries is st
      else writeEntries is { st with buf := putEntry st.vdrive.parts i j st.buf }
    else { st with vdrive := { st.vdrive with sysOffset := uint32Max } }

/-- mirrors src/vdrive/vdrive.c:1262-1270: the last sector is written, the old offsets restored. -/
def closeTable (vdrive : Vdrive) (st : TableState) : Ipe × Vdrive :=
  let (ret, final) :=
    match st.olds with
    | some olds =>
      if st.ret = Ipe.ok then vdriveWriteSector st.vdrive st.buf 1 olds else (st.ret, st.vdrive)
    | none => (st.ret, st.vdrive)
  (ret, { final with currentOffset := vdrive.currentOffset, imageFormat := vdrive.imageFormat })

/-- mirrors src/vdrive/vdrive.c:1201-1273 (`vdrive_write_partition_table`) -/
def vdriveWritePartitionTable (vdrive : Vdrive) : Ipe × Vdrive :=
  if ¬ vdrive.haspt then (.minus, { vdrive with sysOffset := uint32Max })
  else if vdrive.sysOffset = uint32Max then (.minus, vdrive)
  else
    let sys := { vdrive with currentOffset := vdrive.sysOffset, imageFormat := .sys }
    closeTable vdrive
      (writeEntries (List.range (maxpart vdrive + 1)) ⟨sys, fun _ => 0, none, .ok⟩)

/-! ## Where the table lies -/

/-- The number of sectors the table takes. -/
def tableSectors (vdrive : Vdrive) : Nat := if vdrive.isHd then 32 else 4

/-- The block of the table's sector `s`. -/
def tableBlock (vdrive : Vdrive) (s : Nat) : Nat :=
  2 * vdrive.sysOffset + (if vdrive.isHd then 256 else 8) + s

/-- Block `n` holds no part of the table. -/
def OffTable (vdrive : Vdrive) (n : Nat) : Prop :=
  ∀ s < tableSectors vdrive, n ≠ tableBlock vdrive s

theorem entry_sector {vdrive : Vdrive} {i : Nat} (h : i < maxpart vdrive + 1) :
    i * 32 / 256 < tableSectors vdrive := by
  unfold maxpart at h
  unfold tableSectors
  by_cases hhd : vdrive.isHd
  · rw [if_pos hhd] at h ⊢; omega
  · rw [if_neg hhd] at h ⊢; omega

/-- Set up as `vdrive_write_partition_table` does it. -/
def SysAccess (vdrive : Vdrive) : Prop :=
  vdrive.imageFormat = .sys ∧ vdrive.haspt = true ∧ IsCmd vdrive.image.shape.type ∧
    vdrive.currentOffset < 2 ^ 30

theorem sysPartition_offset {vdrive : Vdrive} (h : SysAccess vdrive) {s o : Nat}
    (ho : partitionOffset vdrive 1 s = some o) :
    o = (if vdrive.isHd then 256 else 8) + s ∧ o < 512 := by
  obtain ⟨hf, -, hc, -⟩ := h
  unfold partitionOffset sysOffsetFd at ho
  unfold Vdrive.isHd
  rcases hc with hc | hc | hc | hc
  all_goals
    simp only [hf, hc, ne_eq, not_true_eq_false, false_and, if_false, gt_iff_lt, lt_irrefl,
      Nat.one_ne_zero] at ho
    split at ho
    · cases ho
    · cases ho
      simp only [hc, decide_true, reduceCtorEq, decide_false, if_true, Bool.false_eq_true, if_false, true_and]
      omega

theorem physical_block {vdrive : Vdrive} (h : IsCmd vdrive.image.shape.type) {n m : Nat}
    (hm : checkSector vdrive.image.shape (physical vdrive n).1 (physical vdrive n).2 = .ok m) :
    m = n := by
  have hb := checkSector_cmd h hm
  unfold physical Vdrive.isHd at hb
  by_cases hhd : vdrive.image.shape.type = .dhd
  · simp only [hhd, decide_true, if_true] at hb; omega
  · simp only [hhd, decide_false, Bool.false_eq_true, if_false] at hb; omega

/-- The sectors of the system partition's track 1 are found behind its start. -/
theorem sysSector_misses {vdrive : Vdrive} (h : SysAccess vdrive) {n s : Nat}
    (hn : n ≠ 2 * vdrive.currentOffset + (if vdrive.isHd then 256 else 8) + s) :
    Misses vdrive n 1 s := by
  intro t u hp m hm
  obtain ⟨-, hpt, hc, hco⟩ := id h
  unfold vdriveLogToPhy at hp
  split at hp
  · cases hp
  · obtain ⟨o, ho, ha⟩ := Option.map_eq_some_iff.mp hp
    obtain ⟨hos, hlt⟩ := sysPartition_offset h ho
    rw [cmdAddress_block (by omega) (Or.inr (by omega))] at ha
    rw [show t = (physical vdrive (2 * vdrive.currentOffset + o)).1 by rw [ha],
      show u = (physical vdrive (2 * vdrive.currentOffset + o)).2 by rw [ha]] at hm
    rw [physical_block hc hm, hos]
    omega

/-! ## The walk and the other blocks -/

def TableState.setBlock (st : TableState) (n : Nat) (b : Buf) : TableState :=
  { st with vdrive := st.vdrive.setBlock n b }

/-- Block `n` lies outside the table that a drive set up for the system partition addresses. -/
def Clear (vdrive : Vdrive) (n : Nat) : Prop :=
  SysAccess vdrive ∧ ∀ s < tableSectors vdrive,
    n ≠ 2 * vdrive.currentOffset + (if vdrive.isHd then 256 else 8) + s

section
variable {vdrive : Vdrive} {st : TableState} {n s : Nat} {b buf : Buf}

theorem Clear.misses (h : Clear vdrive n) (hs : s < tableSectors vdrive) : Misses vdrive n 1 s :=
  sysSector_misses h.1 (h.2 s hs)

theorem Clear.write (h : Clear vdrive n) (buf : Buf) (t s : Nat) :
    Clear (vdriveWriteSector vdrive buf t s).2 n ∧
      tableSectors (vdriveWriteSector vdrive buf t s).2 = tableSectors vdrive := by
  obtain ⟨image, hw, hshape⟩ := vdriveWriteSector_image vdrive buf t s
  rw [hw]
  unfold Clear SysAccess tableSectors Vdrive.isHd at *
  simp only [hshape] at h ⊢
  exact ⟨h, trivial⟩

/-- What the walk keeps: the system partition is selected and the pending sector is one of the
table. -/
structure Walk (st : TableState) (n count : Nat) : Prop where
  clear : Clear st.vdrive n
  sectors : tableSectors st.vdrive = count
  olds : ∀ o, st.olds = some o → o < count

theorem tableSector_walk {count : Nat} (h : Walk st n count) (s : Nat) : Walk (tableSector st s) n count := by
  obtain ⟨hc, hcount, holds⟩ := h
  unfold tableSector
  cases ho : st.olds with
  | none =>
    simp only [if_true]
    exact ⟨hc, hcount, fun o h => by cases h⟩
  | some o =>
    have hw := hc.write st.buf 1 o
    simp only
    split
    · exact ⟨hw.1, hw.2.trans hcount, fun o' h' => holds o' (ho.trans h')⟩
    · exact ⟨hw.1, hw.2.trans hcount, fun o' h' => holds o' (ho.trans h')⟩

theorem tableSector_setBlock {count : Nat} (h : Walk st n count) (hs : s < count) :
    tableSector (st.setBlock n b) s = (tableSector st s).setBlock n b := by
  obtain ⟨hc, hcount, holds⟩ := h
  unfold tableSector TableState.setBlock
  cases ho : st.olds with
  | none =>
    have hr := @vdriveReadSector_setBlock st.vdrive n 1 s b st.buf (hc.misses (hcount ▸ hs))
    simp only [if_true, hr]
  | some o =>
    have hw := @vdriveWriteSector_setBlock st.vdrive n 1 o b st.buf
      (hc.misses (hcount ▸ holds o ho))
    have hcw := hc.write st.buf 1 o
    have hr := @vdriveReadSector_setBlock _ n 1 s b st.buf
      (hcw.1.misses (hcw.2.symm ▸ hcount ▸ hs))
    simp only [hw]
    split
    · simp only [hr]
    · rfl

theorem writeEntries_setBlock {count : Nat} (is : List Nat) (his : ∀ i ∈ is, i * 32 / 256 < count)
    {st : TableState} (h : Walk st n count) :
    writeEntries is (st.setBlock n b) = (writeEntries is st).setBlock n b ∧
      Walk (writeEntries is st) n count := by
  induction is generalizing st with
  | nil => exact ⟨rfl, h⟩
  | cons i is ih =>
    have hs : i * 32 / 256 < count := his i List.mem_cons_self
    have ih := fun {st} => @ih (fun k hk => his k (List.mem_cons_of_mem i hk)) st
    -- the two sides reach the entry in the same state, up to block `n`
    generalize hm : (if st.olds = some (i * 32 / 256) then { st with ret := Ipe.ok }
      else tableSector st (i * 32 / 256)) = mid
    have hmid : (if (st.setBlock n b).olds = some (i * 32 / 256)
        then { st.setBlock n b with ret := Ipe.ok }
        else tableSector (st.setBlock n b) (i * 32 / 256)) = mid.setBlock n b := by
      rw [← hm]
      by_cases ho : st.olds = some (i * 32 / 256)
      · rw [if_pos ho, if_pos (show (st.setBlock n b).olds = _ from ho)]
        rfl
      · rw [if_neg ho, if_neg (show ¬ (st.setBlock n b).olds = _ from ho), tableSector_setBlock h hs]
    have hwalk : Walk mid n count := by
      rw [← hm]
      split
      · exact ⟨h.clear, h.sectors, h.olds⟩
      · exact tableSector_walk h _
    unfold writeEntries
    simp only [hm, hmid]
    have hnext : ∀ buf, Walk { mid with olds := some (i * 32 / 256), buf := buf } n count :=
      fun buf => ⟨hwalk.clear, hwalk.sectors, fun o ho => by cases ho; exact hs⟩
    by_cases hret : mid.ret = .ok
    · rw [if_pos hret, if_pos (show (mid.setBlock n b).ret = .ok from hret)]
      by_cases hi : i = 0
      · rw [if_pos hi, if_pos hi]
        exact ih (hnext mid.buf)
      · rw [if_neg hi, if_neg hi]
        exact ih (hnext _)
    · rw [if_neg hret, if_neg (show ¬ (mid.setBlock n b).ret = .ok from hret)]
      exact ⟨rfl, ⟨hwalk.clear, hwalk.sectors, hwalk.olds⟩⟩

theorem closeTable_setBlock {count : Nat} {vdrive : Vdrive} (h : Walk st n count) :
    closeTable (vdrive.setBlock n b) (st.setBlock n b) =
      ((closeTable vdrive st).1, (closeTable vdrive st).2.setBlock n b) := by
  obtain ⟨hc, hcount, holds⟩ := h
  unfold closeTable TableState.setBlock
  cases ho : st.olds with
  | none => rfl
  | some o =>
    have hw := @vdriveWriteSector_setBlock st.vdrive n 1 o b st.buf
      (hc.misses (hcount ▸ holds o ho))
    by_cases hret : st.ret = .ok
    · simp only [if_pos hret, hw]
      rfl
    · simp only [if_neg hret]
      rfl

end

/-- The drive's system partition is known and lies on a CMD image. -/
def HasTable (vdrive : Vdrive) : Prop :=
  vdrive.haspt = true ∧ IsCmd vdrive.image.shape.type ∧ vdrive.sysOffset < 2 ^ 30

/-- Writing the table commutes with replacing a block that holds no part of it. -/
theorem vdriveWritePartitionTable_setBlock {vdrive : Vdrive} {n : Nat} {b : Buf}
    (h : HasTable vdrive) (hn : OffTable vdrive n) :
    vdriveWritePartitionTable (vdrive.setBlock n b) =
      ((vdriveWritePartitionTable vdrive).1, (vdriveWritePartitionTable vdrive).2.setBlock n b) := by
  obtain ⟨hpt, hcmd, hsys⟩ := h
  have hmax : vdrive.sysOffset ≠ uint32Max := by unfold uint32Max; omega
  have hnot : ¬ ¬ vdrive.haspt = true := by rw [hpt]; decide
  let sys := { vdrive with currentOffset := vdrive.sysOffset, imageFormat := Format.sys }
  let st : TableState := ⟨sys, fun _ => 0, none, Ipe.ok⟩
  have hwalk : Walk st n (tableSectors vdrive) :=
    ⟨⟨⟨rfl, hpt, hcmd, hsys⟩, hn⟩, rfl, fun o ho => by cases ho⟩
  have hrange : ∀ i ∈ List.range (maxpart vdrive + 1), i * 32 / 256 < tableSectors vdrive :=
    fun i hi => entry_sector (List.mem_range.mp hi)
  obtain ⟨hset, hend⟩ := writeEntries_setBlock (b := b) (List.range (maxpart vdrive + 1)) hrange hwalk
  have hbase : vdriveWritePartitionTable vdrive =
      closeTable vdrive (writeEntries (List.range (maxpart vdrive + 1)) st) := by
    unfold vdriveWritePartitionTable
    rw [if_neg hnot, if_neg hmax]
  have hother : vdriveWritePartitionTable (vdrive.setBlock n b) =
      closeTable (vdrive.setBlock n b)
        (writeEntries (List.range (maxpart vdrive + 1)) (st.setBlock n b)) := by
    unfold vdriveWritePartitionTable
    exact (if_neg hnot).trans (if_neg hmax)
  rw [hbase, hother, hset]
  exact closeTable_setBlock hend

/-- A block outside the table keeps its contents. -/
theorem vdriveWritePartitionTable_data {vdrive : Vdrive} {n : Nat}
    (h : HasTable vdrive) (hn : OffTable vdrive n) :
    (vdriveWritePartitionTable vdrive).2.image.data n = vdrive.image.data n := by
  have hset := vdriveWritePartitionTable_setBlock (b := vdrive.image.data n) h hn
  have hself : vdrive.setBlock n (vdrive.image.data n) = vdrive := by
    unfold Vdrive.setBlock
    rw [Image.setBlock_self]
  rw [hself] at hset
  rw [congrArg (fun r => r.2.image.data n) hset]
  exact Image.setBlock_same

/-! ## The table in memory -/

theorem tableSector_parts (st : TableState) (s : Nat) : (tableSector st s).vdrive.parts = st.vdrive.parts := by
  unfold tableSector
  cases ho : st.olds with
  | none => simp only [if_true]
  | some o =>
    obtain ⟨image, hw, -⟩ := vdriveWriteSector_image st.vdrive st.buf 1 o
    simp only [hw]
    split <;> rfl

theorem writeEntries_parts (is : List Nat) (st : TableState) :
    (writeEntries is st).vdrive.parts = st.vdrive.parts := by
  induction is generalizing st with
  | nil => rfl
  | cons i is ih =>
    have hmid : (if st.olds = some (i * 32 / 256) then { st with ret := Ipe.ok }
        else tableSector st (i * 32 / 256)).vdrive.parts = st.vdrive.parts := by
      split
      · rfl
      · exact tableSector_parts st _
    unfold writeEntries
    simp only
    generalize (if st.olds = some (i * 32 / 256) then { st with ret := Ipe.ok }
      else tableSector st (i * 32 / 256)) = mid at hmid
    rw [← hmid]
    by_cases hret : mid.ret = .ok
    · rw [if_pos hret]
      by_cases hi : i = 0
      · rw [if_pos hi]; exact ih _
      · rw [if_neg hi]; exact ih _
    · rw [if_neg hret]

theorem closeTable_parts (vdrive : Vdrive) (st : TableState) :
    (closeTable vdrive st).2.parts = st.vdrive.parts := by
  unfold closeTable
  cases st.olds with
  | none => rfl
  | some o =>
    obtain ⟨image, hw, -⟩ := vdriveWriteSector_image st.vdrive st.buf 1 o
    simp only
    split
    · rw [hw]
    · rfl

/-- The writer changes the table on disk, not the one in memory. -/
theorem vdriveWritePartitionTable_parts (vdrive : Vdrive) :
    (vdriveWritePartitionTable vdrive).2.parts = vdrive.parts := by
  unfold vdriveWritePartitionTable
  split
  · rfl
  · split
    · rfl
    · rw [closeTable_parts, writeEntries_parts]

end Vice.L3.PartitionTable
