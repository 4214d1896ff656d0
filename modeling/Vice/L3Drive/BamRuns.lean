import Vice.L3Drive.BamChain
import Vice.L3Drive.BamCount

/-!
# Runs of BAM calls

Any sequence of the calls that allocate and free sectors, on any of the formats that keep
counts. A call does what it should if every sector it addresses is one of the format:
the chain calls check a sector against the image only, and a search whose interleave is too
wide tries sectors behind the end of a track.

Results:
* `call_ok`: one call.
* `run_keeps_counts`: every run.
* `strayChain_breaks_count`: a chain that leaves its partition's format makes a count wrong.
-/
namespace Vice.L3.BamRuns
open Vice.L0.Bitmap Vice.L2.Geometry Vice.L3.Disk Vice.L3.Drive Vice.L3.Bam Vice.L3.BamEntry
open Vice.L3.BamLayout Vice.L3.BamSearch Vice.L3.FreeMap Vice.L3.BamChain Vice.L3.BamCount

inductive BamOp
  | allocateSector (t s : Nat)
  | freeSector (t s : Nat)
  | allocFirstFreeSector
  | allocNextFreeSector (t s : Nat)
  | allocNextFreeSectorInterleave (t s interleave : Nat)
  | allocateChain (tmp : Buf) (t s : Nat)
  | freeChain (buf : Buf) (t s : Nat)

/-- One call, with the sector it allocated or freed, if it is a call for one sector. A chain is no
longer than the disk has sectors. -/
def call (v : Vdrive) : BamOp → Option (Option (Nat × Nat) × Vdrive)
  | .allocateSector t s =>
    let (ok, w) := vdriveBamAllocateSector v t s
    some (if ok then some (t, s) else none, w)
  | .freeSector t s =>
    let (ok, w) := vdriveBamFreeSector v t s
    some (if ok then some (t, s) else none, w)
  | .allocFirstFreeSector => some (vdriveBamAllocFirstFreeSector v)
  | .allocNextFreeSector t s => some (vdriveBamAllocNextFreeSector v t s)
  | .allocNextFreeSectorInterleave t s interleave =>
    some (vdriveBamAllocNextFreeSectorInterleave v t s interleave)
  | .allocateChain tmp t s =>
    (vdriveBamAllocateChain (bound v + 1) v tmp t s).map fun (_, w) => (none, w)
  | .freeChain buf t s => (vdriveDirFreeChain (bound v + 1) v buf t s).map fun w => (none, w)

/-- Every sector the call addresses is one of the format. -/
def Meets (disk : Nat → Buf) (v : Vdrive) : BamOp → Prop
  | .allocateSector t s | .freeSector t s | .allocNextFreeSector t s => OnDisk v t s
  | .allocFirstFreeSector => True
  | .allocNextFreeSectorInterleave t s interleave => OnDisk v t s ∧ interleave ≤ maxInterleave v
  | .allocateChain tmp t s => Contained v (passesFree disk v) tmp t s
  | .freeChain buf t s => Contained v (passesUsed disk v) buf t s

/-- The sectors a call addressed, given its result. -/
def Addressed (disk : Nat → Buf) (v : Vdrive) (r : Option (Nat × Nat)) (t s : Nat) : BamOp → Prop
  | .allocateSector t' s' | .freeSector t' s' => t = t' ∧ s = s'
  | .allocFirstFreeSector | .allocNextFreeSector _ _ | .allocNextFreeSectorInterleave _ _ _ =>
    r = some (t, s)
  | .allocateChain tmp t' s' => Visits v (passesFree disk v) tmp t' s' t s
  | .freeChain buf t' s' => Visits v (passesUsed disk v) buf t' s' t s

/-- The drives that calls of this kind lead to. -/
inductive Reaches (disk : Nat → Buf) (v : Vdrive) : Vdrive → Prop
  | start : Reaches disk v v
  | step {op : BamOp} {u w : Vdrive} {r : Option (Nat × Nat)} : Reaches disk v u →
      Meets disk u op → call u op = some (r, w) → Reaches disk v w

/-- What a call keeps, if it changes the entries of the sectors `addressed` only. -/
structure Kept (disk : Nat → Buf) (v w : Vdrive) (addressed : Nat → Nat → Prop) : Prop where
  formatted : Formatted w disk
  format : w.imageFormat = v.imageFormat
  counts : Counts v (view v disk) → Counts w (view w disk)
  entries : ∀ t s, entryOf w (view w disk) t s = entryOf v (view v disk) t s
  frame : ∀ k, view w disk k ≠ view v disk k → ∃ t s e, addressed t s ∧
    entryOf v (view v disk) t s = some e ∧ e.Has k

section
variable {v w u : Vdrive} {disk : Nat → Buf} {t s : Nat} {addressed addressed' : Nat → Nat → Prop}
  {r : Option (Nat × Nat)} {l : List (Nat × Nat)} {op : BamOp}

theorem kept_loads (h : Formatted v disk) (hl : Loads disk v w) : Kept disk v w addressed where
  formatted := h.loads hl
  format := hl.same.format
  counts := counts_loads hl
  entries := fun t s => by rw [hl.view, entryOf_becomes hl]
  frame := fun k hk => absurd (congrFun hl.view k) hk

theorem kept_edited (h : Formatted v disk) (hed : Edited disk v w t s) (ha : addressed t s) :
    Kept disk v w addressed where
  formatted := hed.formatted h
  format := hed.same.format
  counts := fun hc => hed.counts h.laid hc
  entries := hed.entryOf h.laid
  frame := fun k hk => by
    obtain ⟨e, he, hhas⟩ := hed.frame hk
    exact ⟨t, s, e, ha, he, hhas⟩

theorem Kept.trans (h : Kept disk v u addressed) (h' : Kept disk u w addressed) : Kept disk v w addressed where
  formatted := h'.formatted
  format := h'.format.trans h.format
  counts := fun hc => h'.counts (h.counts hc)
  entries := fun t s => (h'.entries t s).trans (h.entries t s)
  frame := fun k hk => by
    by_cases hu : view u disk k = view v disk k
    · obtain ⟨t, s, e, ha, he, hhas⟩ := h'.frame k (by rw [hu]; exact hk)
      rw [h.entries] at he
      exact ⟨t, s, e, ha, he, hhas⟩
    · exact h.frame k hu

theorem kept_steps {R : Vdrive → Vdrive → Nat → Nat → Prop}
    (hR : ∀ v w t s, Formatted v disk → R v w t s → Edited disk v w t s)
    (h : Formatted v disk) (hs : Steps R disk v l w) (ha : ∀ p ∈ l, addressed p.1 p.2) :
    Kept disk v w addressed := by
  induction hs with
  | nil hl => exact kept_loads h hl
  | cons hr _ ih =>
    have hone := @kept_edited _ _ _ _ _ addressed h (hR _ _ _ _ h hr) (ha _ List.mem_cons_self)
    exact hone.trans (ih hone.formatted fun p hp => ha p (List.mem_cons_of_mem _ hp))

/-- A search: nothing, or the entry of the sector it found. -/
theorem kept_found (h : Formatted v disk) (hf : Found disk v w r)
    (ha : ∀ t s, r = some (t, s) → addressed t s) : Kept disk v w addressed := by
  cases r with
  | none => exact kept_loads h hf
  | some ts => exact kept_edited h (edited_allocated h.laid hf) (ha ts.1 ts.2 rfl)

/-- The toggle of a D9090/60 is no part of the BAM. -/
theorem kept_toggled (h : Formatted v disk) : Kept disk v (toggled v) addressed := by
  have hfmt := formatted_toggled h
  unfold toggled at hfmt ⊢
  split
  · rename_i h90
    rw [if_pos h90] at hfmt
    exact ⟨hfmt, rfl, fun hc => hc, fun _ _ => rfl, fun k hk => absurd rfl hk⟩
  · exact kept_loads h (Loads.refl h.mounted)

/-- One call returns, and changes the entries of the sectors it addresses only. -/
theorem call_ok (h : Formatted v disk) (hm : Meets disk v op) : ∃ r w, call v op = some (r, w) ∧
      Kept disk v w fun t s => Addressed disk v r t s op := by
  cases op with
  | allocateSector t s =>
    obtain ⟨w, ⟨hw, ha⟩ | ⟨hw, hl, -⟩⟩ := allocate_outcome h.laid hm
    · exact ⟨some (t, s), w, by simp only [call, hw, if_true],
        kept_edited h (edited_allocated h.laid ha) ⟨rfl, rfl⟩⟩
    · exact ⟨none, w, by simp only [call, hw, Bool.false_eq_true, if_false], kept_loads h hl⟩
  | freeSector t s =>
    obtain ⟨w, ⟨hw, hf⟩ | ⟨hw, hl⟩⟩ := free_outcome h.laid hm
    · exact ⟨some (t, s), w, by simp only [call, hw, if_true],
        kept_edited h (edited_freed h.laid hf) ⟨rfl, rfl⟩⟩
    · exact ⟨none, w, by simp only [call, hw, Bool.false_eq_true, if_false], kept_loads h hl⟩
  | allocFirstFreeSector =>
    obtain ⟨r, w, hw, hfound, -⟩ := vdriveBamAllocFirstFreeSector_ok h
    exact ⟨r, w, by simp only [call, hw],
      (kept_toggled h).trans (kept_found (formatted_toggled h) hfound fun t s hr => hr)⟩
  | allocNextFreeSector t s =>
    obtain ⟨r, w, hw, hnext⟩ := vdriveBamAllocNextFreeSector_ok h hm
    exact ⟨r, w, by simp only [call, hw], kept_found h hnext.found fun t s hr => hr⟩
  | allocNextFreeSectorInterleave t s interleave =>
    obtain ⟨r, w, hw, hnext⟩ := vdriveBamAllocNextFreeSectorInterleave_ok h hm.2 hm.1
    exact ⟨r, w, by simp only [call, hw], kept_found h hnext.found fun t s hr => hr⟩
  | allocateChain tmp t s =>
    have hle := @numFree_le v (view v disk)
    obtain ⟨rc, w, l, hw, hsteps, hall⟩ := vdriveBamAllocateChain_ok h.laid hm (Nat.lt_succ_of_le hle)
    exact ⟨none, w, by simp only [call, hw, Option.map_some],
      kept_steps (fun _ _ _ _ hf => edited_allocated hf.laid) h hsteps hall⟩
  | freeChain buf t s =>
    have hle := @numSectors_le v
    have hfuel : numSectors v - numFree v (view v disk) < bound v + 1 := by omega
    obtain ⟨w, l, hw, hsteps, hall⟩ := vdriveDirFreeChain_ok h.laid hm hfuel
    exact ⟨none, w, by simp only [call, hw, Option.map_some],
      kept_steps (fun _ _ _ _ hf => edited_freed hf.laid) h hsteps hall⟩

theorem reaches_ok (h : Formatted v disk) (hr : Reaches disk v w) :
    Formatted w disk ∧ w.imageFormat = v.imageFormat ∧
      (Counts v (view v disk) → Counts w (view w disk)) := by
  induction hr with
  | start => exact ⟨h, rfl, fun hc => hc⟩
  | step _ hm hcall ih =>
    obtain ⟨hfmt, hformat, hcounts⟩ := ih
    obtain ⟨r, x, hx, hkept⟩ := call_ok hfmt hm
    rw [hcall] at hx
    cases hx
    exact ⟨hkept.formatted, hkept.format.trans hformat, fun hc => hkept.counts (hcounts hc)⟩

/-- In every run, the counts stay right, `vdrive_bam_free_block_count` adds them up, and the next call
changes no byte outside the entries of the sectors it addresses. -/
theorem run_keeps_counts (h : Formatted v disk) (hnp : v.imageFormat ≠ .np)
    (hc : Counts v (view v disk)) (hr : Reaches disk v w) :
    Counts w (view w disk) ∧ (vdriveBamFreeBlockCount w).1 = freeBlocks w (view w disk) ∧
      ∀ op, Meets disk w op → ∃ r x, call w op = some (r, x) ∧
        ∀ k, view x disk k ≠ view w disk k → ∃ t s e, Addressed disk w r t s op ∧
          entryOf w (view w disk) t s = some e ∧ e.Has k := by
  obtain ⟨hfmt, hformat, hcounts⟩ := reaches_ok h hr
  obtain ⟨u, hu, -⟩ := vdriveBamFreeBlockCount_ok hfmt (hcounts hc) (hformat ▸ hnp)
  refine ⟨hcounts hc, by rw [hu], fun op hm => ?_⟩
  obtain ⟨r, x, hx, hkept⟩ := call_ok hfmt hm
  exact ⟨r, x, hx, hkept.frame⟩

end

/-! ## A chain that strays -/

/-- A 1541 BAM with all sectors free but the first. -/
def strayBam (k : Nat) : UInt8 :=
  let n := sectorPerTrack .d64 ((k - 4) / 4 + 1)
  if k < 4 ∨ k ≥ 4 + 4 * 35 then 0
  else if k = 4 then 20
  else if k = 5 then 254
  else if k % 4 = 0 then UInt8.ofNat n
  else UInt8.ofNat (2 ^ min 8 (n - 8 * (k % 4 - 1)) - 1)

/-- The first sector links to sector 255 of its track, which the hard disk has and the 1541 partition
has not. -/
def strayDrive : Vdrive where
  image :=
    { shape := ⟨.dhd, 1, 65536⟩
      readOnly := false
      blocks := 683
      data := fun n k => if n = 0 then (if k = 0 then 1 else if k = 1 then 255 else 0) else 0
      errorMap := none }
  imageFormat := .f1541
  numTracks := 35
  haspt := true
  currentOffset := 0
  sysOffset := 0
  parts := ⟨fun _ => 0, fun _ => 0, fun _ => 0⟩
  bamTrack := 18
  bamSector := 0
  headerTrack := 18
  headerSector := 0
  dirTrack := 18
  dirSector := 1
  d90toggle := 0
  bamSize := 256
  bam := strayBam
  bamState := fun _ => 0
  bamTracks := fun _ => 18
  bamSectors := fun _ => 0

theorem strayDrive_formatted : Formatted strayDrive fun _ _ => 0 where
  mounted :=
    { format := by decide
      size := by decide
      size1581 := by decide
      size8050 := fun h => absurd h (by decide)
      located := fun _ _ _ _ => by show (0 : Int) ≤ 18; decide
      placed := fun h => absurd h (by decide)
      reads := fun b _ h => absurd h (by show ¬ (0 : Int) < 0; decide) }
  fitted := by show 1 ≤ bamBlocks strayDrive; decide
  blocks := by decide
  dir := by decide
  dir9000 := fun h => absurd h (by decide)
  tracks := by decide

/-- The entry of a track of a 1541. -/
theorem entryOf_stray {v : Vdrive} {bytes : Store} {t s : Nat} (hf : v.imageFormat = .f1541)
    (h1 : 1 ≤ t) (h35 : t ≤ 35) : entryOf v bytes t s =
      some ⟨some (4 + 4 * (t - 1)), 4 + 4 * (t - 1) + 1, sectorPerTrack .d64 t⟩ := by
  unfold entryOf trackEntry entryAt vdriveGetMaxSectors
  simp only [hf, reduceCtorEq, and_false, if_false, show ¬ t = 0 by omega, false_and, if_pos h35,
    Option.map_some]

theorem strayDrive_counts : Counts strayDrive (view strayDrive fun _ _ => 0) := by
  intro t s e hd ht he c hc
  have hall : ∀ t < 36, 1 ≤ t → (strayBam (4 + 4 * (t - 1))).toNat =
      Entry.free ⟨none, 4 + 4 * (t - 1) + 1, sectorPerTrack .d64 t⟩ strayBam := by decide +kernel
  have h1 : 1 ≤ t := hd.1 (by decide)
  rw [entryOf_stray rfl h1 ht] at he
  cases he
  cases hc
  exact hall t (Nat.lt_succ_of_le ht) h1

/-- The bytes that the freed chain leaves behind. -/
theorem strayChain_bytes : (call strayDrive (.freeChain (fun _ => 0) 1 0)).map
    (fun p => (p.1, p.2.imageFormat, p.2.numTracks, p.2.bamState 0, p.2.bam 36)) =
      some (none, .f1541, 35, 1, 149) := by decide +kernel

/-- Freeing the chain of the first sector sets bit 255 of its track's bitmap, which is the highest bit
of the count of track 9. -/
theorem strayChain_breaks_count :
    Formatted strayDrive (fun _ _ => 0) ∧ Counts strayDrive (view strayDrive fun _ _ => 0) ∧
      OnDisk strayDrive 1 0 ∧ ∃ w, call strayDrive (.freeChain (fun _ => 0) 1 0) = some (none, w) ∧
        ¬ Counts w (view w fun _ _ => 0) := by
  refine ⟨strayDrive_formatted, strayDrive_counts, by decide, ?_⟩
  obtain ⟨⟨r, w⟩, hw, hbytes⟩ := Option.map_eq_some_iff.mp strayChain_bytes
  simp only [Prod.mk.injEq] at hbytes
  obtain ⟨rfl, hf, htracks, hstate, hbyte⟩ := hbytes
  refine ⟨w, hw, fun hc => ?_⟩
  have hd : OnDisk w 9 0 := by
    unfold OnDisk maxEntryTrack vdriveGetMaxSectors
    simp only [hf]
    decide
  have hcount := hc 9 0 _ hd (by omega) (entryOf_stray hf (by decide) (by decide)) 36 rfl
  have hle := @Entry.free_le ⟨some (4 + 4 * (9 - 1)), 4 + 4 * (9 - 1) + 1, sectorPerTrack .d64 9⟩
    (view w fun _ _ => 0)
  rw [← hcount, view_loaded (show 0 ≤ w.bamState (36 / 256) by rw [hstate]; decide), hbyte] at hle
  revert hle
  decide

/-- On the same drive a run that keeps to the format: a sector is allocated. -/
theorem run_keeps_counts_stray : ∃ w, call strayDrive (.allocateSector 1 1) = some (some (1, 1), w) ∧
      Counts w (view w fun _ _ => 0) ∧
      (vdriveBamFreeBlockCount w).1 = freeBlocks w (view w fun _ _ => 0) := by
  have hm : Meets (fun _ _ => 0) strayDrive (.allocateSector 1 1) :=
    show OnDisk strayDrive 1 1 by decide
  have hcall : call strayDrive (.allocateSector 1 1) =
      some (some (1, 1), (vdriveBamAllocateSector strayDrive 1 1).2) := by
    unfold call
    rw [show vdriveBamAllocateSector strayDrive 1 1 =
      (true, (vdriveBamAllocateSector strayDrive 1 1).2) from Prod.ext (by decide) rfl]
    rfl
  have hrun := run_keeps_counts strayDrive_formatted (by decide) strayDrive_counts
    (Reaches.step Reaches.start hm hcall)
  exact ⟨_, hcall, hrun.1, hrun.2.1⟩

end Vice.L3.BamRuns
